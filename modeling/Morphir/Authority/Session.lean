import Morphir.Host.Json
import Morphir.Library.Numbered
import Morphir.Library.Roster

/-!
# Page sessions

A native host admits one page at a time.  Opening a session for another page replaces the
session before it, and the identity of a session that is over never comes back.
-/

namespace Morphir.Authority

open Numbered

inductive Contract
  | executions
  | capabilityChecks
deriving DecidableEq

def Contract.version : Contract → String
  | .executions => "0.2.0-draft.1"
  | .capabilityChecks => "0.2.0-draft.2"

def Contract.fromString (value : String) : Option Contract :=
  if value = "0.2.0-draft.1" then some .executions
  else if value = "0.2.0-draft.2" then some .capabilityChecks
  else none

structure Caller where
  page : String
deriving DecidableEq

def Caller.admit (window origin : String) (page : Option String) : Except String Caller :=
  if ¬ (window = "main" ∧ origin = "app") then .error "workbench.native_caller"
  else
    match page with
    | none => .error "workbench.native_page"
    | some page =>
      if page ≠ "" ∧ Host.utf16Length page ≤ 128 then .ok ⟨page⟩
      else .error "workbench.native_page"

inductive State
  | idle
  | active (page id : String) (contract : Contract)
  | closed
deriving DecidableEq

structure Session where
  state : State := .idle
  next : Int := 0
  executions : Bool := false
  workspace : Bool := false
  contract : Contract := .executions
deriving DecidableEq

structure SessionDescriptor where
  bridgeVersion : String
  sessionId : String
  operations : List String
deriving DecidableEq

namespace Session

variable (s : Session)

def descriptor (id : String) (contract : Contract) : SessionDescriptor where
  bridgeVersion := contract.version
  sessionId := id
  operations :=
    (if s.executions then ["executions"] else []) ++ if s.workspace then ["workspace"] else []

def replace (caller : Caller) (contract : Contract) : Except String (SessionDescriptor × Session) :=
  if s.next < 2147483647 then
    let id := Numbered.name "proton-session-" (s.next + 1)
    .ok (s.descriptor id contract,
      { s with next := s.next + 1, state := .active caller.page id contract })
  else .error "workbench.native_capacity"

def openFor (caller : Caller) (version : String) : Except String (SessionDescriptor × Session) :=
  match Contract.fromString version with
  | none => .error "workbench.native_version"
  | some contract =>
    if ¬ (contract = .executions ∨ s.contract = contract) then
      .error "workbench.native_version"
    else
      match s.state with
      | .closed => .error "workbench.native_closed"
      | .active page id accepted =>
        if page = caller.page then
          if accepted = contract then .ok (s.descriptor id accepted, s)
          else .error "workbench.native_version"
        else s.replace caller contract
      | .idle => s.replace caller contract

def check (caller : Caller) (id : String) (contract : Option Contract) :
    Except String SessionDescriptor :=
  match s.state with
  | .active page current accepted =>
    if page = caller.page ∧ current = id ∧ (contract = none ∨ contract = some accepted) then
      .ok (s.descriptor current accepted)
    else .error "workbench.native_stale_session"
  | _ => .error "workbench.native_stale_session"

def close (caller : Caller) (id : String) : Except String Session :=
  match s.check caller id none with
  | .ok _ => .ok { s with state := .idle }
  | .error code => .error code

def revoke : Session :=
  match s.state with
  | .closed => s
  | _ => { s with state := .idle }

def shutdown : Session := { s with state := .closed }

def Current (id : String) : Prop := ∃ page contract, s.state = .active page id contract

/-- The session `id` is the current one of a page. -/
def CurrentOf (caller : Caller) (id : String) : Prop :=
  ∃ contract, s.state = .active caller.page id contract

def Issued (id : String) : Prop := ∃ n, 0 ≤ n ∧ n ≤ s.next ∧ id = Numbered.name "proton-session-" n

def Stale (id : String) : Prop := s.Issued id ∧ ¬ s.Current id

/-- What every reachable session keeps: the current session is the last one. -/
structure Valid : Prop where
  next_nonneg : 0 ≤ s.next
  last : ∀ id, s.Current id → id = Numbered.name "proton-session-" s.next

variable {s}

variable {id : String} {caller : Caller}

lemma CurrentOf.current (h : s.CurrentOf caller id) : s.Current id := by
  obtain ⟨contract, h⟩ := h
  exact ⟨caller.page, contract, h⟩

lemma Valid.issued (h : s.Valid) (hid : s.Current id) : s.Issued id :=
  ⟨s.next, h.next_nonneg, le_rfl, h.last id hid⟩

variable {other : String}

lemma Valid.current_unique (h : s.Valid) (hid : s.Current id) (ho : s.Current other) :
    id = other := (h.last id hid).trans (h.last other ho).symm

lemma Stale.ne_current (h : s.Stale id) (ho : s.Current other) : id ≠ other := by
  rintro rfl
  exact h.2 ho

lemma Valid.stale_of_ne (h : s.Valid) (hid : s.Issued id) (ho : s.Current other)
    (hne : id ≠ other) : s.Stale id :=
  ⟨hid, fun hcur => hne (h.current_unique hcur ho)⟩

variable {descriptor : SessionDescriptor}

lemma check_ok {contract : Option Contract} (h : s.check caller id contract = .ok descriptor) :
    s.CurrentOf caller id := by
  unfold check at h
  split at h
  · rename_i page current accepted hst
    split at h
    · rename_i hg
      obtain ⟨rfl, rfl, -⟩ := hg
      exact ⟨accepted, hst⟩
    · cases h
  · cases h

/-- A session some time later: what was opened was opened, and what is over is over. -/
structure Later (s t : Session) : Prop where
  issued : ∀ id, s.Issued id → t.Issued id
  stale : ∀ id, s.Stale id → t.Stale id

lemma Later.refl (s : Session) : Later s s := ⟨fun _ => id, fun _ => id⟩

lemma Later.trans {r s : Session} (h : Later r s) (h' : Later s t) : Later r t where
  issued id hid := h'.issued id (h.issued id hid)
  stale id hid := h'.stale id (h.stale id hid)

variable {t : Session}

lemma Later.current (h : Later s t) (hiss : s.Issued id) (hcur : t.Current id) : s.Current id := by
  by_contra hnot
  exact (h.stale id ⟨hiss, hnot⟩).2 hcur

lemma issued_congr (h : t.next = s.next) :
    t.Issued id ↔ s.Issued id := by simp only [Issued, h]

lemma later_ended (hnx : t.next = s.next) (hst : ∀ id, ¬ t.Current id) :
    Later s t where
  issued _ h := (issued_congr hnx).mpr h
  stale id h := ⟨(issued_congr hnx).mpr h.1, hst id⟩

lemma not_current_idle (h : s.state = .idle ∨ s.state = .closed) : ¬ s.Current id := by
  rintro ⟨page, contract, hact⟩
  rcases h with h | h <;> rw [h] at hact <;> cases hact

lemma valid_ended (h : s.Valid) (hnx : t.next = s.next) (hst : ∀ id, ¬ t.Current id) :
    t.Valid where
  next_nonneg := hnx ▸ h.next_nonneg
  last id hid := absurd hid (hst id)

lemma valid_new {executions workspace : Bool} {contract : Contract} :
    ({ executions, workspace, contract } : Session).Valid where
  next_nonneg := le_rfl
  last _ hid := absurd hid (not_current_idle (.inl rfl))

lemma revoke_spec (s : Session) : s.revoke.next = s.next ∧ ∀ id, ¬ s.revoke.Current id := by
  unfold revoke
  split
  · rename_i hcld
    exact ⟨rfl, fun id => not_current_idle (.inr hcld)⟩
  · exact ⟨rfl, fun id => not_current_idle (.inl rfl)⟩

lemma shutdown_spec (s : Session) : s.shutdown.next = s.next ∧ ∀ id, ¬ s.shutdown.Current id :=
  ⟨rfl, fun _ => not_current_idle (.inr rfl)⟩

lemma close_spec (h : s.close caller id = .ok t) :
    s.CurrentOf caller id ∧ t.next = s.next ∧ ∀ other, ¬ t.Current other := by
  unfold close at h
  split at h
  · rename_i hchk
    cases h
    exact ⟨check_ok hchk, rfl, fun other => not_current_idle (.inl rfl)⟩
  · cases h

lemma replace_spec (hs : s.Valid) {contract : Contract}
    (h : s.replace caller contract = .ok (descriptor, t)) :
    t.CurrentOf caller descriptor.sessionId ∧ t.Valid ∧ Later s t := by
  have hnon := hs.next_nonneg
  unfold replace at h
  split at h
  · cases h
    have hiss {id : String} (hid : s.Issued id) :
        id ≠ name "proton-session-" (s.next + 1) := by
      rintro rfl
      obtain ⟨n, hn, hle, heq⟩ := hid
      have := name_injective (by omega) hn heq
      omega
    have hcur {id : String} {t : Session} {page : String}
        (ht : t.state = .active page (name "proton-session-" (s.next + 1)) contract)
        (hid : t.Current id) : id = name "proton-session-" (s.next + 1) := by
      obtain ⟨_, _, hact⟩ := hid
      rw [ht] at hact
      exact (State.active.inj hact).2.1.symm
    have hgrows {id : String} : s.Issued id → ∃ n, 0 ≤ n ∧ n ≤ s.next + 1 ∧
        id = name "proton-session-" n := by
      rintro ⟨n, hn, hle, heq⟩
      exact ⟨n, hn, by omega, heq⟩
    refine ⟨⟨contract, rfl⟩, ⟨?_, fun id hid => hcur rfl hid⟩, ⟨fun id hid => hgrows hid, ?_⟩⟩
    · dsimp only
      omega
    · intro id hid
      exact ⟨hgrows hid.1, fun h => hiss hid.1 (hcur rfl h)⟩
  · cases h

lemma openFor_spec (hs : s.Valid) {version : String}
    (h : s.openFor caller version = .ok (descriptor, t)) :
    t.CurrentOf caller descriptor.sessionId ∧ t.Valid ∧ Later s t := by
  unfold openFor at h
  split at h
  · cases h
  · split at h
    · cases h
    · split at h
      · cases h
      · rename_i page id accepted hst
        split at h
        · rename_i hpage
          split at h
          · cases h
            refine ⟨⟨accepted, ?_⟩, hs, .refl s⟩
            rw [← hpage]
            exact hst
          · cases h
        · exact replace_spec hs h
      · exact replace_spec hs h

end Session

end Morphir.Authority

/-!
## The workspaces of a session

An owner keeps workspaces for the current session only.  When the session changes, the
workspaces of the others are closed, and a closed workspace stays as it is.
-/

namespace Morphir.Authority

universe u

/-- A kind of workspaces: how one is closed, and the grants that it has. -/
structure Kind (W : Type u) where
  close : W → W
  Valid : W → Prop
  Closed : W → Prop
  Has : W → String → Prop
  valid_close : ∀ w, Valid (close w)
  closed_close : ∀ w, Closed (close w)
  close_eq : ∀ w, Valid w → Closed w → close w = w
  not_has_close : ∀ w grant, ¬ Has (close w) grant

namespace Kind

variable {W : Type u} (K : Kind W)

/-- What an operation leaves of a workspace: a closed one as it is, and a new grant only
where it is granted. -/
structure Served (granted : Prop) (w left : W) : Prop where
  valid : K.Valid w → K.Valid left
  kept : K.Valid w → K.Closed w → left = w
  grant : ∀ grant, K.Has left grant → K.Has w grant ∨ granted

/-- How the workspaces of an owner go on, where those of `G` can get a grant. -/
abbrev Serves (G : Nat → Prop) : Roster String W → Roster String W → Prop :=
  Roster.Evolves (fun n w => (∀ grant, K.Has w grant → G n) ∧ K.Valid w) fun n _ => K.Served (G n)

structure Kept (s : Session) (r : Roster String W) : Prop where
  valid : r.Valid
  issued : ∀ id ∈ r.makes, s.Issued id
  offered : ∀ id, s.Current id → id ∈ r.makes → id ∈ r.keys
  current : ∀ id ∈ r.keys, s.Current id
  closed : r.Unkept K.Closed
  inert : ∀ (n : Nat) (id : String) (w : W), r.made[n]? = some (id, w) → K.Valid w

variable {K} {granted : Prop} {G : Nat → Prop} {s t : Session} {r r' : Roster String W}

lemma Served.refl (w : W) : K.Served granted w w := ⟨fun h => h, fun _ _ => rfl, fun _ h => .inl h⟩

variable {w : W}

lemma Served.trans {mid left : W} (h : K.Served granted w mid) (h' : K.Served granted mid left) :
    K.Served granted w left where
  valid hw := h'.valid (h.valid hw)
  kept hw hcld := by
    have hmid := h.kept hw hcld
    subst hmid
    exact h'.kept hw hcld
  grant g hg := (h'.grant g hg).elim (h.grant g) .inr

lemma served_close (w : W) : K.Served granted w (K.close w) where
  valid _ := K.valid_close w
  kept := K.close_eq w
  grant g hg := absurd hg (K.not_has_close w g)

variable {n : Nat}

lemma served_new {left : W} (h : (∀ grant, K.Has w grant → G n) ∧ K.Valid w)
    (hser : K.Served (G n) w left) : (∀ grant, K.Has left grant → G n) ∧ K.Valid left :=
  ⟨fun g hg => (hser.grant g hg).elim (h.1 g) id, hser.valid h.2⟩

lemma Serves.refl (r : Roster String W) : K.Serves G r r := .of_made (fun _ _ w => .refl w) rfl

lemma Serves.trans {r'' : Roster String W} (h : K.Serves G r r') (h' : K.Serves G r' r'') :
    K.Serves G r r'' :=
  Roster.Evolves.trans (fun _ _ _ _ _ => .trans) (fun _ _ _ _ => served_new) h h'

lemma Serves.update {f : W → W} (hf : ∀ id w, r.made[n]? = some (id, w) → K.Served (G n) w (f w)) :
    K.Serves G r (r.update n f) := Roster.Evolves.update (fun _ _ w => .refl w) hf

variable {id : String}

lemma Serves.create (hw : K.Valid w) (hno : ∀ grant, ¬ K.Has w grant) :
    K.Serves G r (r.create id w) :=
  Roster.Evolves.create (fun _ _ w => .refl w) fun _ => ⟨fun g hg => absurd hg (hno g), hw⟩

lemma Serves.dismiss (r : Roster String W) (p : String → Bool) :
    K.Serves G r (r.dismiss p K.close) := by
  apply Roster.Evolves.dismiss
  · exact fun _ _ w => .refl w
  · exact fun _ _ _ _ _ => .trans
  · exact fun _ _ _ _ => served_new
  · exact fun _ _ w => served_close w

lemma Serves.inert (h : K.Serves G r r') (hr : K.Kept s r) (n : Nat) (id : String) (w : W)
    (hw : r'.made[n]? = some (id, w)) : K.Valid w := by
  cases hpre : r.made[n]? with
  | none => exact (h.new n id w hw hpre).2
  | some e =>
    obtain ⟨other, before⟩ := e
    obtain ⟨after, haft, hser⟩ := h.old n other before hpre
    obtain ⟨rfl, rfl⟩ := Prod.mk.inj (Option.some.inj (haft.symm.trans hw))
    exact hser.valid (hr.inert n other before hpre)

lemma Serves.untouched (h : K.Serves G r r') (hr : K.Kept s r) (hw : r.made[n]? = some (id, w))
    (hover : ¬ s.Current id) : r'.made[n]? = some (id, w) := by
  obtain ⟨after, haft, hser⟩ := h.old n id w hw
  have hcld := hr.closed n id w hw fun hkey => hover (hr.current id hkey)
  rw [hser.kept (hr.inert n id w hw) hcld] at haft
  exact haft

lemma Serves.granted_or (h : K.Serves G r r') (hw : r'.made[n]? = some (id, w)) {grant : String}
    (hgr : K.Has w grant) :
    (∃ before, r.made[n]? = some (id, before) ∧ K.Has before grant) ∨ G n := by
  cases hpre : r.made[n]? with
  | none => exact .inr ((h.new n id w hw hpre).1 grant hgr)
  | some e =>
    obtain ⟨other, before⟩ := e
    obtain ⟨after, haft, hser⟩ := h.old n other before hpre
    obtain ⟨rfl, rfl⟩ := Prod.mk.inj (Option.some.inj (haft.symm.trans hw))
    exact (hser.grant grant hgr).imp_left fun hhas => ⟨before, rfl, hhas⟩

lemma kept_empty (s : Session) : K.Kept s {} where
  valid := Roster.valid_empty
  issued _ hid := by cases hid
  offered _ _ hid := by cases hid
  current _ hid := by cases hid
  closed := Roster.unkept_empty
  inert _ _ _ hw := by cases hw

lemma Kept.update (h : K.Kept s r) {f : W → W}
    (hf : ∀ id w, r.made[n]? = some (id, w) → K.Served granted w (f w)) :
    K.Kept s (r.update n f) where
  valid := h.valid.update n f
  issued id hid := h.issued id (Roster.makes_update n f ▸ hid)
  offered id hcur hid := h.offered id hcur (Roster.makes_update n f ▸ hid)
  current := h.current
  closed := by
    intro m id w hw hkey
    rw [Roster.made_update] at hw
    split at hw
    · rename_i heq
      subst heq
      obtain ⟨⟨other, before⟩, hpre, he⟩ := Option.map_eq_some_iff.mp hw
      cases he
      have hcld := h.closed n other before hpre hkey
      rw [(hf other before hpre).kept (h.inert n other before hpre) hcld]
      exact hcld
    · exact h.closed m id w hw hkey
  inert := Serves.inert (Serves.update (G := fun _ => granted) hf) h

lemma Kept.create (h : K.Kept s r) (hs : s.Valid) (hcur : s.Current id) (hnew : id ∉ r.makes)
    (hw : K.Valid w) (hno : ∀ grant, ¬ K.Has w grant) :
    K.Kept s (r.create id w) where
  valid := h.valid.create w hnew
  issued other ho := by
    rw [Roster.makes_create, List.mem_append, List.mem_singleton] at ho
    rcases ho with ho | rfl
    · exact h.issued other ho
    · exact hs.issued hcur
  offered other ho hmem := by
    rw [Roster.makes_create, List.mem_append, List.mem_singleton] at hmem
    apply Roster.mem_keys_create.mpr
    exact hmem.symm.imp_right (h.offered other ho)
  current other ho := by
    rcases Roster.mem_keys_create.mp ho with rfl | ho
    · exact hcur
    · exact h.current other ho
  closed := h.closed.create
  inert := Serves.inert (Serves.create (G := fun _ => False) hw hno) h

lemma Kept.replace (h : K.Kept s r) (hlat : Session.Later s t) {p : String → Bool}
    (hp : ∀ id ∈ r.keys, t.Current id ∨ p id = true) (hk : ∀ id, t.Current id → p id = false) :
    K.Kept t (r.dismiss p K.close) where
  valid := h.valid.dismiss p _
  issued id hid := hlat.issued id (h.issued id (Roster.makes_dismiss p K.close ▸ hid))
  offered id hcur hid := by
    rw [Roster.makes_dismiss] at hid
    rw [Roster.mem_keys_dismiss]
    exact ⟨h.offered id (hlat.current (h.issued id hid) hcur) hid, hk id hcur⟩
  current id hid := by
    rw [Roster.mem_keys_dismiss] at hid
    rcases hp id hid.1 with hcur | hp
    · exact hcur
    · rw [hid.2] at hp
      cases hp
  closed := h.closed.dismiss h.valid p K.closed_close
  inert := Serves.inert (Serves.dismiss (G := fun _ => False) r p) h

end Kind

end Morphir.Authority
