import Morphir.Files.Client

/-!
# What a client keeps

The saves of a grant are sent one after the other: a save is sent only when every save of
the grant that was sent before it has resolved.
-/

namespace Morphir.Files

open List OrdMap Nat

def Job.call? : Job → Option Nat
  | .save call _ => some call
  | .revoke _ => none

def ClientGrant.queued (grant : ClientGrant) : List Nat := grant.jobs.filterMap Job.call?

def Waiter.Sends : Waiter → Command → Prop
  | .save id s .commit, command => command = .commit id s.sequence
  | .save id s (.status _), command => command = .status id s.sequence
  | .choose _ .choose, command => command = .chooseWrite
  | _, _ => True

def Backed (started : List Started) : Command → Prop
  | .commit id n => ∃ s ∈ started, s.id = id ∧ s.save.sequence = n
  | .beginEdit id n _ size =>
    ∃ s ∈ started, s.id = id ∧ s.save.sequence = n ∧ size = s.save.bytes.length
  | .write id n offset chunk =>
    ∃ s ∈ started, s.id = id ∧ s.save.sequence = n ∧
      chunk = (s.save.bytes.drop offset.toNat).take chunk.length
  | _ => True

/-- What a client was told: the folders that its exchanges were given, and the revisions
of its saves that were confirmed. -/
structure Told where
  granted : Nat → String → Prop
  confirmed : String → Int → Int → Prop

namespace Client

/-- A save call that was made before another one of the same grant has its smaller
sequence, and it has resolved. -/
def Before (settled : List (Nat × Except Fault Int)) (s t : Started) : Prop :=
  s.save.call ≠ t.save.call ∧
    (s.id = t.id → s.save.call < t.save.call ∧ s.save.sequence < t.save.sequence ∧
      ∃ revision, (s.save.call, Except.ok revision) ∈ settled)

structure Valid (told : Told) (c : Client) : Prop where
  waiting_lt : ∀ x ∈ OrdMap.keys c.waiting, x < c.exchanges
  waiting_distinct : OrdMap.Distinct c.waiting
  sent_lt : ∀ x command, (x, command) ∈ c.sent → x < c.exchanges
  awaited : ∀ x waiter command, (x, waiter) ∈ c.waiting → (x, command) ∈ c.sent →
    waiter.Sends command
  backed : ∀ x command, (x, command) ∈ c.sent → Backed c.started command
  saving : ∀ x id save stage, (x, .save id save stage) ∈ c.waiting →
    ∃ grant, c.object? id = some grant ∧ grant.active = some save
  single : ∀ x y id save save' stage stage', (x, .save id save stage) ∈ c.waiting →
    (y, .save id save' stage') ∈ c.waiting → x = y
  active : ∀ id grant save, c.object? id = some grant → grant.active = some save →
    ⟨id, save⟩ ∈ c.started ∧ save.call ∉ OrdMap.keys c.settled
  started : ∀ s ∈ c.started, ∃ grant, c.object? s.id = some grant ∧
    s.save.sequence ≤ grant.sequence ∧ (∀ k ∈ grant.queued, s.save.call < k) ∧
    (grant.active = some s.save ∨ grant.blocked = true ∨
      ∃ revision, (s.save.call, Except.ok revision) ∈ c.settled)
  ordered : c.started.Pairwise (Before c.settled)
  called : ∀ s ∈ c.started, s.save.call < c.calls
  queued : ∀ id grant k, c.object? id = some grant → k ∈ grant.queued →
    k < c.calls ∧ k ∉ OrdMap.keys c.settled ∧ ∀ s ∈ c.started, s.save.call ≠ k
  queued_sorted : ∀ id grant, c.object? id = some grant → grant.queued.Pairwise (· < ·)
  queued_apart : ∀ id id' grant grant' k, c.object? id = some grant →
    c.object? id' = some grant' → k ∈ grant.queued → k ∈ grant'.queued → id = id'
  settled_lt : ∀ k ∈ OrdMap.keys c.settled, k < c.calls
  settled_distinct : OrdMap.Distinct c.settled
  settled_started : ∀ k revision, (k, .ok revision) ∈ c.settled →
    ∃ s ∈ c.started, s.save.call = k ∧ told.confirmed s.id s.save.sequence revision
  releasing : ∀ x id save revision, (x, .save id save (.release revision)) ∈ c.waiting →
    told.confirmed id save.sequence revision
  granted : ∀ id grant, c.object? id = some grant →
    ∃ x, told.granted x id ∧ x < c.exchanges ∧ x ∉ OrdMap.keys c.waiting

lemma valid_new (told : Told) : Valid told {} where
  waiting_lt := by simp
  waiting_distinct := distinct_nil
  sent_lt := by simp
  awaited := by simp
  backed := by simp
  saving := by simp
  single := by simp
  active := by simp [object?]
  started := by simp
  ordered := .nil
  called := by simp
  queued := by simp [object?]
  queued_sorted := by simp [object?]
  queued_apart := by simp [object?]
  settled_lt := by simp
  settled_distinct := distinct_nil
  settled_started := by simp
  releasing := by simp
  granted := by simp [object?]

variable {told : Told} {c : Client}

lemma Valid.mono {told' : Told} (h : c.Valid told)
    (hgra : ∀ x id, told.granted x id → told'.granted x id)
    (hcon : ∀ id n revision, told.confirmed id n revision → told'.confirmed id n revision) :
    c.Valid told' :=
  { h with
    settled_started := fun k revision hk => by
      obtain ⟨s, hs, hca, hrev⟩ := h.settled_started k revision hk
      exact ⟨s, hs, hca, hcon _ _ _ hrev⟩
    releasing := fun x id save revision hx => hcon _ _ _ (h.releasing x id save revision hx)
    granted := fun id grant hgr => by
      obtain ⟨x, hx, hr⟩ := h.granted id grant hgr
      exact ⟨x, hgra x id hx, hr⟩ }

@[simp] lemma object?_put (id other : String) (grant : ClientGrant) :
    (c.put id grant).object? other = if id = other then some grant else c.object? other :=
  get?_insert _ _ _ _

@[simp] lemma object?_settle (call : Nat) (outcome : Except Fault Int) (id : String) :
    (c.settle call outcome).object? id = c.object? id := rfl

lemma keys_settle (call : Nat) (outcome : Except Fault Int) :
    OrdMap.keys (c.settle call outcome).settled = OrdMap.keys c.settled ++ [call] := by
  simp [settle, OrdMap.keys]

lemma Valid.of_same {c' : Client} (h : c.Valid told) (hgra : c'.grants = c.grants)
    (hexc : c'.exchanges = c.exchanges) (hwai : c'.waiting = c.waiting)
    (hsn : c'.sent = c.sent) (hcls : c'.calls = c.calls) (hsta : c'.started = c.started)
    (hset : c'.settled = c.settled) : c'.Valid told := by
  obtain ⟨disposed', choosing', epoch', _, _, _, _, _, _, _⟩ := c'
  subst hgra hexc hwai hsn hcls hsta hset
  exact ⟨h.waiting_lt, h.waiting_distinct, h.sent_lt, h.awaited, h.backed, h.saving, h.single,
    h.active, h.started, h.ordered, h.called, h.queued, h.queued_sorted, h.queued_apart,
    h.settled_lt, h.settled_distinct, h.settled_started, h.releasing, h.granted⟩

def Unsaved (c : Client) (id : String) : Prop :=
  ∀ x save stage, (x, Waiter.save id save stage) ∉ c.waiting

def Admits (told : Told) (c : Client) : Waiter → Prop
  | .save id save stage => c.Unsaved id ∧
      (∃ grant, c.object? id = some grant ∧ grant.active = some save) ∧
      ∀ revision, stage = .release revision → told.confirmed id save.sequence revision
  | _ => True

variable {waiter : Waiter}

variable {command : Command} {x : Nat}

lemma mem_exchange_waiting {other : Waiter} :
    (x, other) ∈ (c.exchange waiter command).waiting ↔
      (x, other) ∈ c.waiting ∨ (x = c.exchanges ∧ other = waiter) := by
  simp [exchange]

lemma mem_exchange_sent {other : Command} (h : (x, other) ∈ (c.exchange waiter command).sent) :
    (x, other) ∈ c.sent ∨ (x = c.exchanges ∧ other = command) := by
  simp only [exchange] at h
  split at h
  · exact .inl h
  · simpa using h

lemma Valid.exchange (h : c.Valid told) (hadm : c.Admits told waiter)
    (hsends : waiter.Sends command) (hbac : Backed c.started command) :
    (c.exchange waiter command).Valid told := by
  have hks : keys (c.exchange waiter command).waiting =
      OrdMap.keys c.waiting ++ [c.exchanges] := by simp [Client.exchange, OrdMap.keys]
  have hfr : c.exchanges ∉ keys c.waiting := fun hmem => lt_irrefl _ (h.waiting_lt _ hmem)
  have hold {x : Nat} {other : Waiter} (hmem : (x, other) ∈ c.waiting) : x ≠ c.exchanges := by
    rintro rfl
    exact hfr (mem_map_of_mem hmem)
  refine { h with
    waiting_lt := ?_, waiting_distinct := ?_, sent_lt := ?_, awaited := ?_, backed := ?_,
    saving := ?_, single := ?_, releasing := ?_, granted := ?_ }
  · intro x hx
    rw [hks, mem_append] at hx
    obtain hx | hx := hx
    · exact lt_succ_of_lt (h.waiting_lt x hx)
    · obtain rfl := mem_singleton.mp hx
      exact lt_succ_self _
  · rw [Distinct, hks]
    exact nodup_append.mpr ⟨h.waiting_distinct, nodup_singleton _, fun x hx y hy heq =>
      hfr (by rw [mem_singleton.mp hy] at heq; exact heq ▸ hx)⟩
  · intro x other hx
    obtain hx | ⟨rfl, -⟩ := mem_exchange_sent hx
    · exact lt_succ_of_lt (h.sent_lt x other hx)
    · exact lt_succ_self _
  · intro x other command' hwai hsn
    obtain hold' | ⟨rfl, rfl⟩ := mem_exchange_waiting.mp hwai
    · obtain hsn | ⟨rfl, rfl⟩ := mem_exchange_sent hsn
      · exact h.awaited x other command' hold' hsn
      · exact absurd rfl (hold hold')
    · obtain hsn | ⟨-, rfl⟩ := mem_exchange_sent hsn
      · exact absurd (h.sent_lt _ _ hsn) (lt_irrefl _)
      · exact hsends
  · intro x other hx
    obtain hx | ⟨-, rfl⟩ := mem_exchange_sent hx
    · exact h.backed x other hx
    · exact hbac
  · intro x id save stage hx
    obtain hx | ⟨rfl, rfl⟩ := mem_exchange_waiting.mp hx
    · exact h.saving x id save stage hx
    · exact hadm.2.1
  · intro x y id save save' stage stage' hx hy
    obtain hx' | ⟨rfl, rfl⟩ := mem_exchange_waiting.mp hx
    · obtain hy' | ⟨rfl, rfl⟩ := mem_exchange_waiting.mp hy
      · exact h.single x y id save save' stage stage' hx' hy'
      · exact absurd hx' (hadm.1 _ _ _)
    · obtain hy' | ⟨rfl, -⟩ := mem_exchange_waiting.mp hy
      · exact absurd hy' (hadm.1 _ _ _)
      · rfl
  · intro x id save revision hx
    obtain hx' | ⟨rfl, rfl⟩ := mem_exchange_waiting.mp hx
    · exact h.releasing x id save revision hx'
    · exact hadm.2.2 revision rfl
  · intro id grant hgr
    obtain ⟨x, hx, hlt, hgo⟩ := h.granted id grant hgr
    refine ⟨x, hx, lt_succ_of_lt hlt, fun hmem => ?_⟩
    rw [hks, mem_append] at hmem
    obtain hmem | hmem := hmem
    · exact hgo hmem
    · exact hlt.ne (mem_singleton.mp hmem)

lemma Valid.erase (h : c.Valid told) (x : Nat) :
    Valid told { c with waiting := erase c.waiting x } := by
  have hmem {e : Nat × Waiter} (he : e ∈ OrdMap.erase c.waiting x) : e ∈ c.waiting :=
    OrdMap.mem_erase he
  refine { h with
    waiting_lt := ?_, waiting_distinct := ?_, awaited := ?_, saving := ?_, single := ?_,
    releasing := ?_, granted := ?_ }
  · intro y hy
    obtain ⟨e, he, rfl⟩ := mem_map.mp hy
    exact h.waiting_lt _ (mem_map_of_mem (hmem he))
  · exact h.waiting_distinct.erase x
  · exact fun y waiter command hy hsn => h.awaited y waiter command (hmem hy) hsn
  · exact fun y id save stage hy => h.saving y id save stage (hmem hy)
  · exact fun y z id save save' stage stage' hy hz =>
      h.single y z id save save' stage stage' (hmem hy) (hmem hz)
  · exact fun y id save revision hy => h.releasing y id save revision (hmem hy)
  · intro id grant hgr
    obtain ⟨y, hy, hlt, hgo⟩ := h.granted id grant hgr
    refine ⟨y, hy, hlt, fun hkey => hgo ?_⟩
    obtain ⟨e, he, rfl⟩ := mem_map.mp hkey
    exact mem_map_of_mem (hmem he)

lemma Valid.dispose (h : c.Valid told) : c.dispose.Valid told := by
  unfold Client.dispose
  split
  · exact h
  · refine { h with
      waiting_lt := ?_, sent_lt := ?_, awaited := ?_, backed := ?_, granted := ?_ }
    · exact fun x hx => lt_succ_of_lt (h.waiting_lt x hx)
    · intro x command hx
      obtain hx | hx := mem_append.mp hx
      · exact lt_succ_of_lt (h.sent_lt x command hx)
      · obtain ⟨rfl, -⟩ := Prod.mk.inj (mem_singleton.mp hx)
        exact lt_succ_self _
    · intro x waiter command hwai hx
      obtain hx | hx := mem_append.mp hx
      · exact h.awaited x waiter command hwai hx
      · obtain ⟨rfl, -⟩ := Prod.mk.inj (mem_singleton.mp hx)
        exact absurd (h.waiting_lt _ (mem_map_of_mem hwai)) (lt_irrefl _)
    · intro x command hx
      obtain hx | hx := mem_append.mp hx
      · exact h.backed x command hx
      · obtain ⟨-, rfl⟩ := Prod.mk.inj (mem_singleton.mp hx)
        exact trivial
    · intro id grant hgr
      obtain ⟨x, hx, hlt, hgo⟩ := h.granted id grant hgr
      exact ⟨x, hx, lt_succ_of_lt hlt, hgo⟩

variable {id : String}

/-- A call that nothing holds, after all that were started. -/
structure Unheld (c : Client) (k : Nat) : Prop where
  lt : k < c.calls
  unsettled : k ∉ OrdMap.keys c.settled
  later : ∀ s ∈ c.started, s.save.call < k
  unqueued : ∀ id grant, c.object? id = some grant → k ∉ grant.queued

variable {grant : ClientGrant}

section

variable (h : c.Valid told)

include h

lemma Valid.put {grant' : ClientGrant} (hgr : c.object? id = some grant)
    (hact : grant'.active = grant.active)
    (hque : ∀ k ∈ grant'.queued, k ∈ grant.queued ∨ c.Unheld k)
    (hsor : grant'.queued.Pairwise (· < ·)) (hseq : grant.sequence ≤ grant'.sequence)
    (hblo : grant.blocked = true → grant'.blocked = true) : (c.put id grant').Valid told := by
  have hold {other : String} {found : ClientGrant}
      (hfd : (c.put id grant').object? other = some found) :
      other = id ∧ found = grant' ∨ c.object? other = some found := by
    rw [object?_put] at hfd
    split at hfd
    · rename_i hsm
      cases hfd
      exact .inl ⟨hsm.symm, rfl⟩
    · exact .inr hfd
  refine { h with
    saving := ?_, active := ?_, started := ?_, queued := ?_, queued_sorted := ?_,
    queued_apart := ?_, granted := ?_ }
  · intro x other save stage hx
    obtain ⟨found, hfd, hsv⟩ := h.saving x other save stage hx
    rw [object?_put]
    split
    · rename_i hsm
      subst hsm
      obtain rfl := Option.some.inj (hgr.symm.trans hfd)
      exact ⟨grant', rfl, hact.trans hsv⟩
    · exact ⟨found, hfd, hsv⟩
  · intro other found save hfd hsv
    obtain ⟨rfl, rfl⟩ | hpre := hold hfd
    · exact h.active _ grant save hgr (hact.symm.trans hsv)
    · exact h.active other found save hpre hsv
  · intro s hs
    obtain ⟨found, hfd, hle, hlat, hst⟩ := h.started s hs
    rw [object?_put]
    split
    · rename_i hsm
      rw [← hsm] at hfd
      obtain rfl := Option.some.inj (hgr.symm.trans hfd)
      refine ⟨grant', rfl, hle.trans hseq, fun k hk => ?_, ?_⟩
      · exact (hque k hk).elim (hlat k) fun hun => hun.later s hs
      obtain hsv | hblock | hres := hst
      · exact .inl (hact.trans hsv)
      · exact .inr (.inl (hblo hblock))
      · exact .inr (.inr hres)
    · exact ⟨found, hfd, hle, hlat, hst⟩
  · intro other found k hfd hk
    obtain ⟨rfl, rfl⟩ | hpre := hold hfd
    · obtain hin | hun := hque k hk
      · exact h.queued _ grant k hgr hin
      · exact ⟨hun.lt, hun.unsettled, fun s hs => (hun.later s hs).ne⟩
    · exact h.queued other found k hpre hk
  · intro other found hfd
    obtain ⟨rfl, rfl⟩ | hpre := hold hfd
    · exact hsor
    · exact h.queued_sorted other found hpre
  · intro first second found found' k hfd hfd' hk hk'
    have hin {other : String} {found : ClientGrant}
        (hfd : (c.put id grant').object? other = some found) (hk : k ∈ found.queued) :
        (other = id ∧ c.Unheld k) ∨ ∃ before, c.object? other = some before ∧
          k ∈ before.queued := by
      obtain ⟨rfl, rfl⟩ | hpre := hold hfd
      · exact (hque k hk).elim (fun hk => .inr ⟨grant, hgr, hk⟩) fun hun => .inl ⟨rfl, hun⟩
      · exact .inr ⟨found, hpre, hk⟩
    obtain ⟨rfl, hun⟩ | ⟨before, hpre, hk⟩ := hin hfd hk <;>
      obtain ⟨rfl, hun'⟩ | ⟨before', hpre', hk'⟩ := hin hfd' hk'
    · rfl
    · exact absurd hk' (hun.unqueued _ _ hpre')
    · exact absurd hk (hun'.unqueued _ _ hpre)
    · exact h.queued_apart first second before before' k hpre hpre' hk hk'
  · intro other found hfd
    obtain ⟨rfl, rfl⟩ | hpre := hold hfd
    · exact h.granted _ grant hgr
    · exact h.granted other found hpre

lemma Valid.put_sublist {grant' : ClientGrant} (hgr : c.object? id = some grant)
    (hact : grant'.active = grant.active) (hque : grant'.queued.Sublist grant.queued)
    (hseq : grant.sequence ≤ grant'.sequence) (hblo : grant.blocked = true → grant'.blocked = true)
    : (c.put id grant').Valid told :=
  h.put hgr hact (fun _ hk => .inl (hque.subset hk)) ((h.queued_sorted id grant hgr).sublist hque)
    hseq hblo

lemma Valid.put_new (hnew : c.object? id = none) (hgra : told.granted x id) (hlt : x < c.exchanges)
    (hgo : x ∉ keys c.waiting) (revision : Int) : (c.put id { revision }).Valid told := by
  have hold {other : String} {found : ClientGrant}
      (hfd : (c.put id { revision }).object? other = some found) :
      c.object? other = some found ∨ (found.active = none ∧ found.queued = []) := by
    rw [object?_put] at hfd
    split at hfd
    · cases hfd
      exact .inr ⟨rfl, rfl⟩
    · exact .inl hfd
  have hkept {other : String} {found : ClientGrant} (hfd : c.object? other = some found) :
      (c.put id { revision }).object? other = some found := by
    rw [object?_put, if_neg]
    · exact hfd
    · rintro rfl
      cases hnew.symm.trans hfd
  refine { h with
    saving := ?_, active := ?_, started := ?_, queued := ?_, queued_sorted := ?_,
    queued_apart := ?_, granted := ?_ }
  · intro x other save stage hx
    obtain ⟨found, hfd, hsv⟩ := h.saving x other save stage hx
    exact ⟨found, hkept hfd, hsv⟩
  · intro other found save hfd hsv
    obtain hfd | ⟨hno, -⟩ := hold hfd
    · exact h.active other found save hfd hsv
    · cases hno.symm.trans hsv
  · intro s hs
    obtain ⟨found, hfd, hst⟩ := h.started s hs
    exact ⟨found, hkept hfd, hst⟩
  · intro other found k hfd hk
    obtain hfd | ⟨-, hno⟩ := hold hfd
    · exact h.queued other found k hfd hk
    · rw [hno] at hk
      cases hk
  · intro other found hfd
    obtain hfd | ⟨-, hno⟩ := hold hfd
    · exact h.queued_sorted other found hfd
    · rw [hno]
      exact .nil
  · intro first second found found' k hfd hfd' hk hk'
    obtain hfd | ⟨-, hno⟩ := hold hfd
    · obtain hfd' | ⟨-, hno⟩ := hold hfd'
      · exact h.queued_apart first second found found' k hfd hfd' hk hk'
      · rw [hno] at hk'
        cases hk'
    · rw [hno] at hk
      cases hk
  · intro other found hfd
    rw [object?_put] at hfd
    split at hfd
    · rename_i hsm
      subst hsm
      exact ⟨x, hgra, hlt, hgo⟩
    · exact h.granted other found hfd

omit h in
lemma Before.settle {settled : List (Nat × Except Fault Int)} {s t : Started}
    (h : Before settled s t) (last : Nat × Except Fault Int) : Before (settled ++ [last]) s t := by
  refine ⟨h.1, fun hid => ?_⟩
  obtain ⟨hca, hseq, revision, hrev⟩ := h.2 hid
  exact ⟨hca, hseq, revision, mem_append_left _ hrev⟩

lemma Valid.settle {call : Nat} {fault : Fault} (hca : call < c.calls)
    (hnew : call ∉ keys c.settled) (hsta : ∀ s ∈ c.started, s.save.call ≠ call)
    (hque : ∀ id grant, c.object? id = some grant → call ∉ grant.queued) :
    (c.settle call (.error fault)).Valid told := by
  refine { h with
    active := ?_, started := ?_, ordered := ?_, queued := ?_, settled_lt := ?_,
    settled_distinct := ?_, settled_started := ?_ }
  · intro id grant save hgr hsv
    obtain ⟨hmem, huns⟩ := h.active id grant save hgr hsv
    refine ⟨hmem, fun hk => ?_⟩
    rw [keys_settle, mem_append] at hk
    obtain hk | hk := hk
    · exact huns hk
    · exact hsta _ hmem (mem_singleton.mp hk)
  · intro s hs
    obtain ⟨grant, hgr, hle, hlat, hst⟩ := h.started s hs
    refine ⟨grant, hgr, hle, hlat, ?_⟩
    obtain hsv | hblock | ⟨revision, hrev⟩ := hst
    · exact .inl hsv
    · exact .inr (.inl hblock)
    · exact .inr (.inr ⟨revision, mem_append_left _ hrev⟩)
  · exact h.ordered.imp fun hpre => hpre.settle _
  · intro id grant k hgr hk
    obtain ⟨hlt, huns, ho⟩ := h.queued id grant k hgr hk
    refine ⟨hlt, fun hmem => ?_, ho⟩
    rw [keys_settle, mem_append] at hmem
    obtain hmem | hmem := hmem
    · exact huns hmem
    · obtain rfl := mem_singleton.mp hmem
      exact hque id grant hgr hk
  · intro k hk
    rw [keys_settle, mem_append] at hk
    obtain hk | hk := hk
    · exact h.settled_lt k hk
    · obtain rfl := mem_singleton.mp hk
      exact hca
  · rw [Distinct, keys_settle]
    exact nodup_append.mpr ⟨h.settled_distinct, nodup_singleton _, fun k hk l hl heq =>
      hnew (by rw [mem_singleton.mp hl] at heq; exact heq ▸ hk)⟩
  · intro k revision hk
    obtain hk | hk := mem_append.mp hk
    · exact h.settled_started k revision hk
    · cases (Prod.mk.inj (mem_singleton.mp hk)).2

lemma Valid.call : Valid told { c with calls := c.calls + 1 } :=
  { h with
    called := fun s hs => lt_succ_of_lt (h.called s hs)
    queued := fun id grant k hgr hk => by
      obtain ⟨hlt, hr⟩ := h.queued id grant k hgr hk
      exact ⟨lt_succ_of_lt hlt, hr⟩
    settled_lt := fun k hk => lt_succ_of_lt (h.settled_lt k hk) }

lemma Valid.reject (fault : Fault) :
    (Client.settle { c with calls := c.calls + 1 } c.calls (.error fault)).Valid told := by
  apply h.call.settle (lt_succ_self _)
  · exact fun hk => lt_irrefl _ (h.settled_lt _ hk)
  · exact fun s hs => (h.called s hs).ne
  · exact fun id grant hgr hk => lt_irrefl _ (h.queued id grant _ hgr hk).1

lemma Valid.enqueue (hgr : c.object? id = some grant) (bytes : Bytes) :
    (Client.put { c with calls := c.calls + 1 } id
      { grant with jobs := grant.jobs ++ [.save c.calls bytes] }).Valid told := by
  have hque : ({ grant with jobs := grant.jobs ++ [.save c.calls bytes] } :
      ClientGrant).queued = grant.queued ++ [c.calls] := by
    simp [ClientGrant.queued, Job.call?]
  have hun : Unheld { c with calls := c.calls + 1 } c.calls :=
    ⟨lt_succ_self _, fun hk => lt_irrefl _ (h.settled_lt _ hk), h.called,
      fun id grant hgr hk => lt_irrefl _ (h.queued id grant _ hgr hk).1⟩
  refine h.call.put hgr rfl (fun k hk => ?_) ?_ le_rfl fun hblo => hblo
  · rw [hque, mem_append] at hk
    refine hk.imp_right fun hk => ?_
    obtain rfl := mem_singleton.mp hk
    exact hun
  · rw [hque]
    refine pairwise_append.mpr
      ⟨h.queued_sorted id grant hgr, pairwise_singleton _ _, fun k hk l hl => ?_⟩
    obtain rfl := mem_singleton.mp hl
    exact (h.queued id grant k hgr hk).1

end

end Client

end Morphir.Files
