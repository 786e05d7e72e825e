import Morphir.Authority.Owner

/-!
# The runs of an owner

Every step keeps what an owner keeps.  Services are made only when a session is opened, at a
time when no others are left.
-/

namespace Morphir.Authority

variable {Root Files : Type}

open ExecutionsService Service List OrdMap Owner Session Roster Option

namespace Owner

/-- Only services of one session are kept, and it is the current one. -/
structure Alone (o : Owner Root Files) (id : String) : Prop where
  current : o.session.Current id
  services : ∀ key ∈ o.services.keys, key = id
  workspaces : ∀ key ∈ o.workspaces.keys, key = id

/-- Services are made for one session at most, which is alone then. -/
def Makes (o o' : Owner Root Files) : Prop :=
  (o'.services.makes = o.services.makes ∧ o'.workspaces.makes = o.workspaces.makes) ∨
    ∃ id, o'.Alone id ∧ (∀ key ∈ o'.services.makes, key ∈ o.services.makes ∨ key = id) ∧
      ∀ key ∈ o'.workspaces.makes, key ∈ o.workspaces.makes ∨ key = id

structure Stepped (R : Rights) (o : Owner Root Files) (r : Step Root Files) : Prop where
  goes : Goes r.2.session R o r.2
  makes : Makes o r.2
  opened : ∀ t d, r.1 = some (t, .opened d) → r.2.Alone d.sessionId
  executed : ∀ t b, r.1 = some (t, .execution b) → R.replies t b

variable {s : Session} {R : Rights} {o o' : Owner Root Files}

section

variable (h : Passes o'.session R o o')

include h

lemma Passes.silent : Stepped R o (none, o') where
  goes := h.toGoes
  makes := .inl ⟨h.services_makes, h.workspaces_makes⟩
  opened _ _ hrep := by cases hrep
  executed _ _ hrep := by cases hrep

lemma Passes.answer (t : Nat) {reply : Reply} (hope : ∀ d, reply ≠ .opened d)
    (hexe : ∀ b, reply = .execution b → R.replies t b) :
    Stepped R o (o'.answer t reply) where
  goes := h.toGoes
  makes := .inl ⟨h.services_makes, h.workspaces_makes⟩
  opened _ d hrep := absurd (Prod.mk.inj (some.inj hrep)).2 (hope d)
  executed _ b hrep := by
    obtain ⟨rfl, heq⟩ := Prod.mk.inj (some.inj hrep)
    exact hexe b heq

lemma Passes.refuse (t : Nat) (category : Category) (effect : Effect) :
    Stepped R o (o'.refuse t category effect) :=
  h.answer t (by simp) (by simp)

lemma Passes.succeed (t : Nat) (host : Host Files) (category : Category) (effect : Effect)
    {reply : Reply} (hope : ∀ d, reply ≠ .opened d) (hexe : ∀ b, reply ≠ .execution b) :
    Stepped R o (o'.succeed t host category effect reply) := by
  unfold Owner.succeed
  split
  · exact h.answer t hope fun b hb => absurd hb (hexe b)
  · exact h.refuse t category effect

lemma Passes.suspend {task : Task} {t : Nat} (hawa : o'.Awaits task) (hbeg : R.begins t task) :
    Stepped R o (o'.suspend t task) := by
  apply Passes.silent
  apply h.trans
  apply h.sound.retask
  intro u other hmem
  rcases mem_append.mp hmem with hmem | hmem
  · exact .inl hmem
  · obtain ⟨rfl, rfl⟩ := Prod.mk.inj (mem_singleton.mp hmem)
    exact .inr ⟨hawa, hbeg⟩

end

lemma Stepped.after {r : Step Root Files} (h : Passes r.2.session R o o') (h' : Stepped R o' r) :
    Stepped R o r where
  goes := h.toGoes.trans h'.goes
  makes := by
    rcases h'.makes with ⟨hsvcs, hws⟩ | ⟨id, halone, hsvcs, hws⟩
    · left
      exact ⟨hsvcs.trans h.services_makes, hws.trans h.workspaces_makes⟩
    · rw [h.services_makes] at hsvcs
      rw [h.workspaces_makes] at hws
      exact .inr ⟨id, halone, hsvcs, hws⟩
  opened := h'.opened
  executed := h'.executed

structure MakesFor (id : String) (s : Session) (R : Rights) (o o' : Owner Root Files) : Prop
    extends Goes s R o o' where
  session : o'.session = o.session
  keys : ∀ key ∈ o'.services.keys, key ∈ o.services.keys ∨ key = id
  services_makes : ∀ key ∈ o'.services.makes, key ∈ o.services.makes ∨ key = id
  workspaces_makes : ∀ key ∈ o'.workspaces.makes, key ∈ o.workspaces.makes ∨ key = id

variable {id : String}

lemma MakesFor.trans {o'' : Owner Root Files} (h : MakesFor id s R o o')
    (h' : MakesFor id s R o' o'') : MakesFor id s R o o'' where
  toGoes := h.toGoes.trans h'.toGoes
  session := h'.session.trans h.session
  keys key hkey := (h'.keys key hkey).elim (h.keys key) .inr
  services_makes key hkey := (h'.services_makes key hkey).elim (h.services_makes key) .inr
  workspaces_makes key hkey := (h'.workspaces_makes key hkey).elim (h.workspaces_makes key) .inr

lemma MakesFor.refl (h : o.Sound) (id : String) : MakesFor id s R o o :=
  ⟨Goes.refl h, rfl, fun _ => .inl, fun _ => .inl, fun _ => .inl⟩

lemma MakesFor.alone (h : MakesFor id s R o o') (hcur : o.session.Current id)
    (hoth : ∀ key ∈ o.services.keys, key = id) : o'.Alone id := by
  have hcur' : o'.session.Current id := h.session ▸ hcur
  refine ⟨hcur', fun key hkey => (h.keys key hkey).elim (hoth key) fun heq => heq, ?_⟩
  exact fun key hkey => h.sound.session.current_unique (h.sound.workspaces.current key hkey) hcur'

lemma MakesFor.answer (h : MakesFor id o.session R o o') (hcur : o.session.Current id)
    (hoth : ∀ key ∈ o.services.keys, key = id) (t : Nat) (reply : Reply)
    (hope : ∀ d, reply = .opened d → d.sessionId = id) (hexe : ∀ b, reply ≠ .execution b) :
    Stepped R o (o'.answer t reply) := by
  have halone := h.alone hcur hoth
  refine ⟨?_, .inr ⟨id, halone, h.services_makes, h.workspaces_makes⟩, ?_, ?_⟩
  · change Goes o'.session R o o'
    rw [h.session]
    exact h.toGoes
  · intro u d hrep
    rw [hope d (Prod.mk.inj (some.inj hrep)).2]
    exact halone
  · intro u b hrep
    exact absurd (Prod.mk.inj (some.inj hrep)).2 (hexe b)

lemma Sound.descriptor (h : o.Sound) (hcur : o.session.Current id) (contract : Contract)
    (host : Host Files) : Passes o.session R o (o.descriptor id contract host).2 := by
  unfold Owner.descriptor
  dsimp only
  split
  · split
    · exact .refl h
    · rename_i service hsvc
      apply h.callService
      left
      intro other ho
      have hid : o.services.IsFor service id := h.services.listed id service hsvc
      obtain rfl := some.inj (ho.symm.trans hid)
      exact hcur
  · exact .refl h

lemma descriptor_session (o : Owner Root Files) (id : String) (contract : Contract)
    (host : Host Files) : (o.descriptor id contract host).2.session = o.session := by
  unfold descriptor
  dsimp only
  split
  · split <;> rfl
  · rfl

lemma descriptor_keys (o : Owner Root Files) (id : String) (contract : Contract)
    (host : Host Files) : (o.descriptor id contract host).2.services.keys = o.services.keys := by
  unfold descriptor
  dsimp only
  split
  · split <;> rfl
  · rfl

lemma descriptor_id (o : Owner Root Files) (id : String) (contract : Contract) (host : Host Files)
    {d : Descriptor} (h : (o.descriptor id contract host).1 = some d) : d.sessionId = id := by
  unfold descriptor at h
  repeat' split at h
  all_goals cases h
  all_goals rfl

variable {host : Host Files}

lemma Sound.makeService (h : o.Sound) (hcur : o.session.Current id)
    (hmd : o.makeService id host = some o') : MakesFor id s R o o' := by
  unfold Owner.makeService at hmd
  split at hmd
  · rename_i hg
    split at hmd
    · cases hmd
      have hnew : id ∉ o.services.makes := by
        intro hmem
        exact hg.2 (Roster.contains_iff.mpr (h.served id hcur hmem))
      have hmakes (key : String) : key ∈ (o.services.create id {}).makes ↔
          key ∈ o.services.makes ∨ key = id := by simp
      have hks (key : String) (hkey : key ∈ (o.services.create id {}).keys) :
          key ∈ o.services.keys ∨ key = id := (mem_keys_create.mp hkey).symm
      refine ⟨?_, rfl, hks, fun key => (hmakes key).mp, fun _ => .inl⟩
      refine ⟨{ h with
        services := h.services.create _ hnew
        issued := fun other ho => ?_
        served := fun other ho hmem => ?_
        stopped := h.stopped.create }, { Grows.refl o with
        services := fun n other ho => ?_
        keys := fun other hiss ho key hkey => ?_ }, ?_, ?_, fun _ _ htk => .inl htk⟩
      · rcases (hmakes other).mp ho with ho | rfl
        · exact h.issued other ho
        · exact h.session.issued hcur
      · apply mem_keys_create.mpr
        rcases (hmakes other).mp hmem with hmem | heq
        · exact .inr (h.served other ho hmem)
        · exact .inl heq
      · have hlt : n < o.services.makes.length := (List.getElem?_eq_some_iff.mp ho).1
        rw [IsFor, makes_create, List.getElem?_append_left hlt]
        exact ho
      · rcases hks key hkey with hkey | rfl
        · exact .inl hkey
        · exact .inr (h.session.current_unique hcur ho)
      · exact .create (fun _ _ s => .refl s) fun _ => trivial
      · exact .refl _
    · cases hmd
  · cases hmd
    exact .refl h id

lemma Sound.makeWorkspace (h : o.Sound) (hcur : o.session.Current id) :
    MakesFor id s R o (o.makeWorkspace id) := by
  unfold Owner.makeWorkspace
  split
  · rename_i hg
    have hnew : id ∉ o.workspaces.makes := by
      intro hmem
      exact hg.2 (Roster.contains_iff.mpr (h.workspaces.offered id hcur hmem))
    have hmakes (key : String) : key ∈ (o.workspaces.create id {}).makes ↔
        key ∈ o.workspaces.makes ∨ key = id := by simp
    refine ⟨?_, rfl, fun _ => .inl, fun _ => .inl, fun key => (hmakes key).mp⟩
    refine ⟨{ h with
      workspaces := h.workspaces.create h.session hcur hnew valid_new not_has_new },
      { Grows.refl o with workspaces := fun n other ho => ?_ }, ?_,
      .create valid_new not_has_new, fun _ _ htk => .inl htk⟩
    · have hlt : n < o.workspaces.makes.length := (List.getElem?_eq_some_iff.mp ho).1
      rw [IsFor, makes_create, List.getElem?_append_left hlt]
      exact ho
    · exact .of_made (fun _ _ s => .refl s) rfl
  · exact .refl h id

lemma Sound.make (h : o.Sound) (hcur : o.session.Current id) (contract : Contract)
    (hmd : o.makeService id host = some o') :
    MakesFor id o.session R o ((o'.makeWorkspace id).descriptor id contract host).2 := by
  have hsvc := h.makeService (R := R) (s := o.session) hcur hmd
  have hcur' : o'.session.Current id := hsvc.session ▸ hcur
  have hws := hsvc.sound.makeWorkspace (R := R) (s := o.session) hcur'
  apply (hsvc.trans hws).trans
  have hsm := hws.session.trans hsvc.session
  have hpas := hws.sound.descriptor (R := R) (hsm ▸ hcur) contract host
  rw [hsm] at hpas
  refine ⟨hpas.toGoes, descriptor_session _ id contract host, ?_, ?_, ?_⟩
  · rw [descriptor_keys]
    exact fun _ => .inl
  · rw [hpas.services_makes]
    exact fun _ => .inl
  · rw [hpas.workspaces_makes]
    exact fun _ => .inl

lemma Sound.finishOpen (h : o.Sound) (hope : o.Opening id []) (t : Nat) (contract : Contract)
    (host : Host Files) : Stepped R o (o.finishOpen t id contract host) := by
  have href (category : Category) : Stepped R o (o.refuse t category .unknownEffect) :=
    (Passes.refl h).refuse t category .unknownEffect
  unfold Owner.finishOpen
  split
  · exact href _
  split
  · exact href _
  split
  · exact href _
  rename_i caller _ _ _ hchk
  have hcur : o.session.Current id := (check_ok hchk).current
  have hoth (key : String) (hkey : key ∈ o.services.keys) : key = id :=
    (hope.others hcur key hkey).resolve_right (by simp)
  split
  · exact href _
  rename_i o₁ hmd
  have hmakes := h.make (R := R) hcur contract hmd
  have hid : ∀ d, ((o₁.makeWorkspace id).descriptor id contract host).1 = some d →
      d.sessionId = id := fun _ => descriptor_id _ id contract host
  have hans := hmakes.answer hcur hoth t
  generalize (o₁.makeWorkspace id).descriptor id contract host = left at hid hans ⊢
  obtain ⟨descriptor, o₂⟩ := left
  cases descriptor with
  | none => exact hans _ (by simp) (by simp)
  | some descriptor =>
    unfold succeed
    dsimp only
    split
    · apply hans _ _ (by simp)
      rintro d heq
      obtain rfl := Reply.opened.inj heq
      exact hid descriptor rfl
    · exact hans _ (by simp) (by simp)

variable {rest : List (String × Nat)}

section

variable (h : o.Sound)

include h

lemma Sound.shutOthers (hope : o.Opening id rest) (t : Nat) (contract : Contract)
    (host : Host Files) : Stepped R o (o.shutOthers t id contract host rest) := by
  induction rest with
  | nil => exact h.finishOpen hope t contract host
  | cons e rest ih =>
    rw [Owner.shutOthers]
    split
    · rename_i hne
      exact (Passes.refl h).suspend ⟨hne, hope⟩ (R.plain _ _ rfl)
    · rename_i heq
      apply ih
      refine ⟨hope.issued, fun e he => hope.doomed e (mem_cons_of_mem _ he), ?_⟩
      intro hcur key hkey
      rcases hope.others hcur key hkey with hkey | hkey
      · exact .inl hkey
      · rcases mem_cons.mp hkey with hkey | hkey
        · exact .inl (hkey.trans (not_not.mp heq))
        · exact .inr hkey

section

variable (t : Nat)

lemma Sound.openSession (contract : Contract) (caller : Caller) (host : Host Files) :
    Stepped R o (o.openSession t contract caller host) := by
  unfold Owner.openSession
  split
  · exact (Passes.refl h).refuse t _ _
  rename_i descriptor session hop
  obtain ⟨hcurrentOf, hvd, hlat⟩ := openFor_spec h.session hop
  have hcur := hcurrentOf.current
  have hpas (s : Session) :
      Passes s R o ({ o with session }.closeOthers descriptor.sessionId) := by
    apply h.replace hvd hlat
    · intro id _
      by_cases heq : id = descriptor.sessionId
      · exact .inl (heq ▸ hcur)
      · exact .inr (decide_eq_true heq)
    · intro id hid
      exact decide_eq_false (not_not.mpr (hvd.current_unique hid hcur))
  apply Stepped.after (hpas _)
  apply (hpas session).sound.shutOthers
  refine ⟨hvd.issued hcur, fun e he hne => ?_, fun _ key hkey => .inr hkey⟩
  have hfor : o.services.IsFor e.2 e.1 :=
    h.services.listed e.1 e.2 (get?_of_mem h.services.distinct he)
  have hiss := hlat.issued e.1 (h.issued e.1 hfor.mem_makes)
  exact ⟨hvd.stale_of_ne hiss hcur hne, hfor⟩

lemma Sound.closeSession (id : String) (caller : Caller) (host : Host Files) :
    Stepped R o (o.closeSession t id caller host) := by
  unfold Owner.closeSession
  split
  · exact (Passes.refl h).refuse t _ _
  rename_i session hclo
  obtain ⟨hcurrentOf, hnx, hno⟩ := close_spec hclo
  have hcur := hcurrentOf.current
  have hlat : Later o.session session := later_ended hnx hno
  have hpas (s : Session) : Passes s R o { o with
      session
      workspaces := o.workspaces.dismiss (fun key => decide (key = id)) .close } := by
    apply h.replace (valid_ended h.session hnx hno) hlat
    · intro other ho
      right
      exact decide_eq_true (h.session.current_unique (h.workspaces.current other ho) hcur)
    · exact fun other ho => absurd ho (hno other)
  dsimp only
  split
  · exact (hpas _).succeed t host _ _ (by simp) (by simp)
  · rename_i service hsvc
    apply (hpas _).suspend _ (R.plain _ _ rfl)
    exact ⟨⟨hlat.issued id (h.session.issued hcur), hno id⟩, h.services.listed id service hsvc⟩

lemma Sound.execution (hcur : o.session.Current id) (contract : Contract) (operation : String)
    (payload : Host.Json) (hbeg : R.begins t (.executing id contract)) :
    Stepped R o (o.execution t id contract operation payload) := by
  unfold Owner.execution
  split
  · exact (Passes.refl h).refuse t _ _
  · rename_i service hsvc
    refine Passes.suspend (h.callService (.inl fun other ho => ?_)) trivial hbeg
    have hid : o.services.IsFor service id := h.services.listed id service hsvc
    obtain rfl := some.inj (ho.symm.trans hid)
    exact hcur

lemma Sound.choose (id : String) (contract : Contract)
    (hbeg : ∀ service ticket, R.begins t (.choosing id contract service ticket)) :
    Stepped R o (o.choose t id contract) := by
  unfold Owner.choose
  split
  · exact (Passes.refl h).refuse t _ _
  · rename_i service hsvc
    split
    · exact (Passes.refl h).refuse t _ _
    · apply Passes.suspend (h.useWorkspace fun _ w _ => served_beginChoose w) _ (hbeg _ _)
      rw [Awaits, IsFor, Owner.useWorkspace, makes_update]
      exact h.workspaces.valid.listed id service hsvc

lemma Sound.serve [DecidableEq Files] (id : String) (payload : Payload) (host : Host Files) :
    Stepped R o (o.serve t id payload host) := by
  unfold Owner.serve
  split
  · exact (Passes.refl h).refuse t _ _
  · split
    · exact Passes.refuse (h.useWorkspace fun _ w _ => served_request w host.folder payload) t _ _
    · exact Passes.succeed (h.useWorkspace fun _ w _ => served_request w host.folder payload) t host
        _ _ (by simp) (by simp)

lemma Sound.operate [DecidableEq Files] (hcur : o.session.Current id) (contract : Contract)
    (caller : Caller) (host : Host Files) (operation : Operation)
    (hid : operation.sessionId? = some id) (hbeg : ∀ task, operation.Begins task → R.begins t task)
    : Stepped R o (o.operate t id contract caller host operation) := by
  cases operation with
  | openSession => exact h.openSession t contract caller host
  | close _ => exact h.closeSession t id caller host
  | execution other operation payload =>
    obtain rfl := some.inj hid
    exact h.execution t hcur contract operation payload (hbeg _ rfl)
  | choose other =>
    obtain rfl := some.inj hid
    exact h.choose t other contract fun _ _ => hbeg _ rfl
  | workspace _ payload => exact h.serve t id payload host
  | check _ =>
    have hpas := h.descriptor (R := R) hcur contract host
    rw [← descriptor_session o id contract host] at hpas
    rw [Owner.operate]
    generalize o.descriptor id contract host = left at hpas ⊢
    obtain ⟨descriptor, o₁⟩ := left
    cases descriptor with
    | none => exact hpas.refuse t _ _
    | some descriptor => exact hpas.succeed t host _ _ (by simp) (by simp)

lemma Sound.request [DecidableEq Files] (frame : Except Category Frame)
    (host : Host Files)
    (hbeg : ∀ f caller id task, frame = .ok f → host.caller = some caller →
      f.operation.sessionId? = some id → o.session.CurrentOf caller id →
      f.operation.Begins task → R.begins t task) :
    Stepped R o (o.request t frame host) := by
  unfold Owner.request
  split
  · exact (Passes.refl h).refuse t _ _
  split
  · exact (Passes.refl h).refuse t _ _
  rename_i f _ caller hcal
  split
  · exact h.openSession t _ _ host
  rename_i id hid
  split
  · exact (Passes.refl h).refuse t _ _
  · rename_i hchk
    have hcurrentOf := check_ok hchk
    exact h.operate t hcurrentOf.current _ _ host _ hid fun task =>
      hbeg f caller id task rfl hcal hid hcurrentOf

omit t in
omit h in
lemma readmit_iff {contract : Contract} (h : o.readmit id contract host = true) :
    ∃ caller, host.again = some caller ∧ o.session.CurrentOf caller id := by
  unfold readmit at h
  split at h
  · cases h
  · rename_i caller hcal
    cases hchk : o.session.check caller id (some contract) with
    | error _ =>
      rw [hchk] at h
      cases h
    | ok _ => exact ⟨caller, hcal, check_ok hchk⟩

lemma Sound.chosen (id : String) (contract : Contract) (service : Nat)
    (ticket : Int) (path : Option String) (opened : Except String (Opened Root Files))
    (host : Host Files)
    (hG : ∀ caller other w, host.again = some caller → o.session.CurrentOf caller id →
      o.workspaces.made[service]? = some (other, w) → w.closed = false →
      w.chooser = some ticket → R.grants service) :
    Stepped R o (o.chosen t id contract service ticket path opened host) := by
  unfold Owner.chosen
  split
  · rename_i hrea
    obtain ⟨caller, hag, hcurrentOf⟩ := readmit_iff hrea
    have hfin (s : Session) : Passes s R o
        (o.useWorkspace service fun w => (w.finishChoose ticket path opened).2) :=
      h.useWorkspace fun other w hw =>
        served_finishChoose (fun hop hcho => hG caller other w hag hcurrentOf hw hop
          hcho) path opened
    have hfai (s : Session) : Passes s R o
        ((o.useWorkspace service fun w => (w.finishChoose ticket path opened).2).useWorkspace
          service fun w => w.cancelChooseIfCurrent ticket) :=
      (hfin s).trans ((hfin s).sound.useWorkspace
        fun _ w _ => served_cancelChooseIfCurrent w ticket)
    split
    · exact (hfai _).refuse t _ _
    · split
      · exact (hfin _).answer t (by simp) (by simp)
      · exact (hfai _).refuse t _ _
  · exact Passes.refuse (h.useWorkspace fun _ w _ => served_cancelChooseIfCurrent w ticket) t _ _

lemma Sound.stopAll (hdoo : ∀ e ∈ rest, o.Doomed e.1 e.2) : Stepped R o (o.stopAll t rest) := by
  cases rest with
  | nil => exact Passes.silent (h.retask _ _ fun _ _ hmem => .inl hmem)
  | cons e rest => exact (Passes.refl h).suspend hdoo (R.plain _ _ rfl)

end

end

/-- The picker of a task grants its workspace, at the end of its await. -/
def GrantsAt (o : Owner Root Files) (host : Host Files) (task : Task) (ended : Ended Root Files)
    (n : Nat) : Prop :=
  ∃ id contract ticket path opened caller w,
    task = .choosing id contract n ticket ∧ ended = .path path opened ∧
    host.again = some caller ∧ o.session.CurrentOf caller id ∧
    o.workspaces.made[n]? = some (id, w) ∧ w.closed = false ∧ w.chooser = some ticket

/-- A task gets the reply of its execution service, at the end of its await. -/
def RepliesAt (o : Owner Root Files) (host : Host Files) (task : Task) (ended : Ended Root Files)
    (b : Bytes) : Prop :=
  ∃ id contract caller, task = .executing id contract ∧ ended = .bytes b ∧
    host.again = some caller ∧ o.session.CurrentOf caller id

section

variable (h : o.Sound)

include h

lemma Sound.goOn (t : Nat) (host : Host Files) {task : Task} {ended : Ended Root Files}
    (hawa : o.Awaits task) (hgra : ∀ n, o.GrantsAt host task ended n → R.grants n)
    (hrep : ∀ b, o.RepliesAt host task ended b → R.replies t b) :
    Stepped R o (o.goOn t host task ended) := by
  have href : Stepped R o (o.refuse t .unavailable .unknownEffect) := (Passes.refl h).refuse t _ _
  cases task with
  | opening id contract old service rest =>
    obtain ⟨hne, hope⟩ := hawa
    have hdoo := hope.doomed (old, service) mem_cons_self hne
    cases ended with
    | stopped =>
      have hpas (s : Session) : Passes s R o (o.stopped old service) := h.forget hdoo
      have hlat := hope.later (hpas o.session).grows
      apply Stepped.after (hpas _)
      apply (hpas o.session).sound.shutOthers
      refine ⟨hlat.issued, fun e he => hlat.doomed e (mem_cons_of_mem _ he), ?_⟩
      intro hcur key hkey
      have hold : key ≠ old := (mem_keys_remove.mp hkey).2
      rcases hlat.others hcur key hkey with hkey | hkey
      · exact .inl hkey
      · exact .inr ((mem_cons.mp hkey).resolve_left hold)
    | raised | bytes | path => exact href
  | closing id service =>
    cases ended with
    | stopped => exact (h.forget hawa).succeed t host _ _ (by simp) (by simp)
    | raised | bytes | path => exact href
  | executing id contract =>
    cases ended with
    | bytes reply =>
      rw [Owner.goOn]
      split
      · rename_i hrea
        obtain ⟨caller, hag, hcurrentOf⟩ := readmit_iff hrea
        apply (Passes.refl h).answer t (by simp)
        rintro b heq
        obtain rfl := Reply.execution.inj heq
        exact hrep reply ⟨id, contract, caller, rfl, rfl, hag, hcurrentOf⟩
      · exact (Passes.refl h).refuse t _ _
    | raised | stopped | path => exact href
  | choosing id contract service ticket =>
    cases ended with
    | path path opened =>
      apply h.chosen
      intro caller other w hag hcurrentOf hw hop hcho
      have hid : o.workspaces.IsFor service id := hawa
      obtain rfl := some.inj ((isFor_of_made hw).symm.trans hid)
      exact hgra service ⟨other, contract, ticket, path, opened, caller, w, rfl, rfl, hag,
        hcurrentOf, hw, hop, hcho⟩
    | raised | stopped | bytes =>
      exact Passes.refuse
        (h.useWorkspace fun _ w _ => served_cancelChooseIfCurrent w ticket) t _ _
  | retiring id service =>
    cases ended with
    | stopped => exact (h.forget hawa).silent
    | raised | bytes | path => exact Passes.silent (h.retask _ _ fun _ _ hmem => .inl hmem)
  | stopping id service rest =>
    cases ended with
    | stopped =>
      have hpas (s : Session) : Passes s R o (o.stopped id service) :=
        h.forget (hawa _ mem_cons_self)
      apply Stepped.after (hpas _)
      apply (hpas o.session).sound.stopAll
      intro e he
      exact (hawa e (mem_cons_of_mem _ he)).later (hpas o.session).grows
    | raised | bytes | path => exact (Passes.refl h).silent

lemma Sound.closeAll {session : Session} (hnx : session.next = o.session.next)
    (hno : ∀ id, ¬ session.Current id) : Passes s R o ({ o with session }.closeAll) := by
  apply h.replace (valid_ended h.session hnx hno) (later_ended hnx hno)
  · exact fun _ _ => .inr rfl
  · exact fun id hid => absurd hid (hno id)

lemma Sound.doomed (hno : ∀ id, ¬ o.session.Current id) (e : String × Nat)
    (he : e ∈ o.services.names) : o.Doomed e.1 e.2 := by
  have hfor : o.services.IsFor e.2 e.1 :=
    h.services.listed e.1 e.2 (get?_of_mem h.services.distinct he)
  exact ⟨⟨h.issued e.1 hfor.mem_makes, hno e.1⟩, hfor⟩

lemma Sound.retire {e : String × Nat} (hdoo : o.Doomed e.1 e.2) : Passes s R o (o.retire e) := by
  have hpas : Passes s R o (o.callService e.2 .close) := h.callService (.inr (.inl rfl))
  apply hpas.trans
  apply hpas.sound.retask
  intro t task hmem
  rcases mem_append.mp hmem with hmem | hmem
  · exact .inl hmem
  · obtain ⟨-, rfl⟩ := Prod.mk.inj (mem_singleton.mp hmem)
    exact .inr ⟨hdoo.later hpas.grows, R.plain _ _ rfl⟩

lemma Sound.retireAll {names : List (String × Nat)} (hdoo : ∀ e ∈ names, o.Doomed e.1 e.2) :
    Passes s R o (names.foldl Owner.retire o) := by
  induction names generalizing o with
  | nil => exact .refl h
  | cons e names ih =>
    have hpas : Passes s R o (o.retire e) := h.retire (hdoo e mem_cons_self)
    apply hpas.trans
    apply ih hpas.sound
    exact fun x hx => (hdoo x (mem_cons_of_mem _ hx)).later hpas.grows

lemma Sound.revoke : Passes s R o o.revoke := by
  obtain ⟨hnx, hno⟩ := revoke_spec o.session
  have hcld : Passes s R o ({ o with session := o.session.revoke }.closeAll) := h.closeAll hnx hno
  exact hcld.trans (hcld.sound.retireAll (hcld.sound.doomed hno))

omit h in
lemma retireAll_session (names : List (String × Nat)) :
    (names.foldl retire o).session = o.session := by
  induction names generalizing o with
  | nil => rfl
  | cons e names ih => exact ih

lemma Sound.close : Passes s R o o.close := by
  have hrev : Passes s R o o.revoke := h.revoke
  apply hrev.trans
  obtain ⟨hnx, hno⟩ := shutdown_spec o.revoke.session
  have hrepl := hrev.sound.replace (s := s) (R := R)
    (valid_ended hrev.sound.session hnx hno) (later_ended hnx hno)
    (fun id hid => ?_) fun _ _ => rfl
  · rw [dismiss_none] at hrepl
    exact hrepl
  · have hcur := hrev.sound.workspaces.current id hid
    rw [Owner.revoke, retireAll_session] at hcur
    exact absurd hcur ((revoke_spec o.session).2 id)

lemma Sound.shutdown (t : Nat) : Stepped R o (o.shutdown t) := by
  obtain ⟨hnx, hno⟩ := shutdown_spec o.session
  have hcld (s : Session) : Passes s R o ({ o with session := o.session.shutdown }.closeAll) :=
    h.closeAll hnx hno
  apply Stepped.after (hcld _)
  apply (hcld o.session).sound.stopAll
  exact (hcld o.session).sound.doomed hno

end

def Grants (o : Owner Root Files) (event : Event Root Files) (n : Nat) : Prop :=
  ∃ t ended host task, event = .resume t ended host ∧ get? o.tasks t = some task ∧
    o.GrantsAt host task ended n

def Replies (o : Owner Root Files) (event : Event Root Files) (t : Nat) (b : Bytes) : Prop :=
  ∃ ended host task, event = .resume t ended host ∧ get? o.tasks t = some task ∧
    o.RepliesAt host task ended b

/-- In a step, a request of the current session begins a picker or an execution. -/
def Begins (o : Owner Root Files) (event : Event Root Files) (t : Nat) (task : Task) : Prop :=
  ∃ frame host caller id, event = .request (.ok frame) host ∧ t = o.nextTask ∧
    host.caller = some caller ∧ frame.operation.sessionId? = some id ∧
    o.session.CurrentOf caller id ∧ frame.operation.Begins task

def rights (o : Owner Root Files) (event : Event Root Files) : Rights where
  grants := o.Grants event
  replies := o.Replies event
  begins t task := task.sessionId? = none ∨ o.Begins event t task
  plain _ _ htk := .inl htk

lemma Valid.step [DecidableEq Files] (h : o.Valid) (event : Event Root Files) :
    Stepped (o.rights event) o (o.step event) := by
  have hcnt (s : Session) : Passes s (o.rights event) o o.count :=
    h.toSound.retask _ _ fun _ _ hmem => .inl hmem
  cases event with
  | request frame host =>
    apply Stepped.after (hcnt _)
    apply (hcnt o.session).sound.request o.nextTask frame host
    rintro f caller id task rfl hcal hid hcurrentOf hbeg
    exact .inr ⟨f, host, caller, id, rfl, rfl, hcal, hid, hcurrentOf, hbeg⟩
  | revoke => exact Passes.silent h.toSound.revoke
  | close => exact Passes.silent h.toSound.close
  | shutdown => exact .after (hcnt _) ((hcnt o.session).sound.shutdown o.nextTask)
  | resume t ended host =>
    rw [Owner.step, Owner.resume]
    split
    · exact (Passes.refl h.toSound).silent
    · rename_i task htk
      have hera (s : Session) : Passes s (o.rights (.resume t ended host)) o
          { o with tasks := OrdMap.erase o.tasks t } :=
        h.toSound.retask _ _ fun _ _ hmem => .inl (mem_erase hmem)
      apply Stepped.after (hera _)
      apply (hera o.session).sound.goOn t host
      · exact (h.tasks t task (mem_of_get? htk)).later (hera o.session).grows
      · exact fun n hn => ⟨t, ended, host, task, rfl, htk, hn⟩
      · exact fun b hb => ⟨ended, host, task, rfl, htk, hb⟩

lemma valid_withServices (executions workspace : Bool) (contract : Contract) :
    (withServices executions workspace contract : Owner Root Files).Valid where
  session := valid_new
  services := valid_empty
  issued _ hid := by cases hid
  served _ _ hid := by cases hid
  stopped := unkept_empty
  workspaces := Kind.kept_empty _
  tasks _ _ htk := by cases htk

end Owner

end Morphir.Authority
