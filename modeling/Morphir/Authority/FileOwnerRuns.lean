import Morphir.Authority.Session
import Morphir.Files.TransferSteps

/-!
# The native file owner

The owner of the pages' file services.  It has a session of its own, and waits only for
pickers.
-/

namespace Morphir.Authority

open Files (FileService Inventories Disk Raised Failure Action Command failureReason)

inductive FileRequest
  | openSession
  | bound (sessionId : String) (command : Command)
deriving DecidableEq

/-- What a request raises: the session's rejections, and the errors of its service. -/
inductive FileError
  | session (code : String)
  | service (error : Raised)
deriving DecidableEq

def FileError.reason : FileError → Failure
  | .session code => .denied code "The native file session is unavailable or no longer current."
  | .service error => failureReason error

inductive FileReply
  | descriptor (sessionId : String)
  | success (sessionId : String) (reply : Morphir.Files.Reply)
  | failure (reason : Failure)
deriving DecidableEq

/-- What the host gives while a request goes on: the trusted context, read once when the
request comes and again after the picker, what the folder answers, and whether the reply can
be encoded. -/
structure FileHost (Files : Type) where
  caller : Except FileError Caller
  again : Except FileError Caller
  disk : Disk Files
  encoded : Bool

structure FileTask where
  id : String
  service : Nat
  ticket : Int
deriving DecidableEq

inductive FileEnded (Root : Type)
  | raised (error : FileError)
  | path (path : Option String) (opened : Except Raised Root)

structure FileOwner (Root Files : Type) where
  enabled : Bool
  session : Session := {}
  services : Roster String (FileService Root Files) := {}
  tasks : List (Nat × FileTask) := []
  nextTask : Nat := 0

abbrev FileStep (Root Files : Type) := Option (Nat × FileReply) × FileOwner Root Files

namespace FileOwner

section

variable {Root Files Edit : Type} (o : FileOwner Root Files)

def answer (t : Nat) (reply : FileReply) : FileStep Root Files := (some (t, reply), o)

def fail (t : Nat) (error : FileError) : FileStep Root Files := o.answer t (.failure error.reason)

def succeed (t : Nat) (host : FileHost Files) (reply : FileReply) : FileStep Root Files :=
  if host.encoded then o.answer t reply else o.fail t (.service .other)

def serviceAt (n : Nat) : FileService Root Files := ((o.services.made[n]?).map Prod.snd).getD {}

variable [DecidableEq Files] (inv : Inventories Files Edit)

def closeService (w : FileService Root Files) : FileService Root Files :=
  (w.perform inv .close).left

def useService (n : Nat) (action : Action Root Files) : FileOwner Root Files :=
  { o with services := o.services.update n fun w => (w.perform inv action).left }

def reply (n : Nat) (action : Action Root Files) : Except Raised Morphir.Files.Reply :=
  ((o.serviceAt n).perform inv action).reply

def makeService (id : String) : FileOwner Root Files :=
  if o.services.contains id then o else { o with services := o.services.create id {} }

def openSession (t : Nat) (caller : Caller) (host : FileHost Files) : FileStep Root Files :=
  match o.session.openFor caller Contract.executions.version with
  | .error code => o.fail t (.session code)
  | .ok (descriptor, session) =>
    let o := { o with
      session
      services := o.services.dismiss (fun key => decide (key ≠ descriptor.sessionId))
        (closeService inv) }
    (o.makeService descriptor.sessionId).succeed t host (.descriptor descriptor.sessionId)

def closeSession (t : Nat) (id : String) (caller : Caller) (host : FileHost Files) :
    FileStep Root Files :=
  match o.session.close caller id with
  | .error code => o.fail t (.session code)
  | .ok session =>
    { o with
      session
      services := o.services.dismiss (fun key => decide (key = id)) (closeService inv) }.succeed
      t host (.success id .empty)

def perform (t : Nat) (id : String) (n : Nat) (action : Action Root Files)
    (host : FileHost Files) : FileStep Root Files :=
  match o.reply inv n action with
  | .error error => (o.useService inv n action).fail t (.service error)
  | .ok reply => (o.useService inv n action).succeed t host (.success id reply)

def choose (t : Nat) (id : String) (n : Nat) : FileStep Root Files :=
  match o.reply inv n .beginChoose with
  | .error error => (o.useService inv n .beginChoose).fail t (.service error)
  | .ok (.ticket ticket) =>
    (none, { o.useService inv n .beginChoose with
      tasks := o.tasks ++ [(t, ⟨id, n, ticket⟩)] })
  | .ok _ => o.fail t (.service .other)

def operate (t : Nat) (id : String) (n : Nat) (caller : Caller) (host : FileHost Files) :
    Command → FileStep Root Files
  | .checkSession => o.succeed t host (.descriptor id)
  | .closeSession => o.closeSession inv t id caller host
  | .cancelPicker => o.perform inv t id n (.cancelChoose none) host
  | .chooseWrite => o.choose inv t id n
  | command => o.perform inv t id n (.request command host.disk) host

/-- `FileOwner::request`, up to its await.  A request that cannot be decoded raises. -/
def request (t : Nat) (request : Option FileRequest) (host : FileHost Files) :
    FileStep Root Files :=
  match request with
  | none => (none, o)
  | some request =>
    if o.enabled = false then o.fail t (.session "workbench.workspace_unavailable")
    else
      match host.caller with
      | .error error => o.fail t error
      | .ok caller =>
        match request with
        | .openSession => o.openSession inv t caller host
        | .bound id command =>
          match o.session.check caller id none with
          | .error code => o.fail t (.session code)
          | .ok _ =>
            match o.services.get? id with
            | none => o.fail t (.session "workbench.workspace_unavailable")
            | some n => o.operate inv t id n caller host command

def chosen (t : Nat) (task : FileTask) (host : FileHost Files) :
    FileEnded Root → FileStep Root Files
  | .raised error => (o.useService inv task.service (.cancelChoose (some task.ticket))).fail t error
  | .path path opened =>
    let cancelled := o.useService inv task.service (.cancelChoose (some task.ticket))
    match host.again with
    | .error error => cancelled.fail t error
    | .ok caller =>
      match o.session.check caller task.id none with
      | .error code => cancelled.fail t (.session code)
      | .ok _ =>
        let finish := .finishChoose task.ticket path opened
        match o.reply inv task.service finish with
        | .error error =>
          ((o.useService inv task.service finish).useService inv task.service
            (.cancelChoose (some task.ticket))).fail t (.service error)
        | .ok reply =>
          (o.useService inv task.service finish).succeed t host (.success task.id reply)

def resume (t : Nat) (ended : FileEnded Root) (host : FileHost Files) : FileStep Root Files :=
  match OrdMap.get? o.tasks t with
  | none => (none, o)
  | some task => { o with tasks := OrdMap.erase o.tasks t }.chosen inv t task host ended

/-- Every service is closed and forgotten, and the session is another one. -/
def closeAll (session : Session) : FileOwner Root Files :=
  { o with session, services := o.services.dismiss (fun _ => true) (closeService inv) }

def revoke : FileOwner Root Files := o.closeAll inv o.session.revoke

def close : FileOwner Root Files := { o.revoke inv with session := (o.revoke inv).session.shutdown }

def count : FileOwner Root Files := { o with nextTask := o.nextTask + 1 }

end

end FileOwner

inductive FileEvent (Root Files : Type)
  | request (request : Option FileRequest) (host : FileHost Files)
  | resume (t : Nat) (ended : FileEnded Root) (host : FileHost Files)
  | revoke
  | close

variable {Root Files Edit : Type} [DecidableEq Files]

def FileOwner.step (inv : Inventories Files Edit) (o : FileOwner Root Files) :
    FileEvent Root Files → FileStep Root Files
  | .request request host => o.count.request inv o.nextTask request host
  | .resume t ended host => o.resume inv t ended host
  | .revoke => (none, o.revoke inv)
  | .close => (none, o.close inv)

abbrev FileEntry (Root Files : Type) :=
  Recording.Entry (FileOwner Root Files) (FileEvent Root Files) (Option (Nat × FileReply))

def fileHistory (inv : Inventories Files Edit) (enabled : Bool)
    (events : List (FileEvent Root Files)) : List (FileEntry Root Files) :=
  Recording.entries (FileOwner.step inv) { enabled } events

end Morphir.Authority

/-!
## The runs of a file owner

Every step keeps what a file owner keeps, and a picker's end is all that can grant a folder.
-/

namespace Morphir.Authority

open Files (FileService Inventories Disk Raised Failure Action Command)

variable {Root Files Edit : Type} [DecidableEq Files] {inv : Inventories Files Edit}

def fileKind (inv : Inventories Files Edit) : Kind (FileService Root Files) where
  close := FileOwner.closeService inv
  Valid w := w.closed = true → FileOwner.closeService inv w = w
  Closed w := w.closed = true
  Has w grant := (w.grant? grant).isSome
  valid_close _ _ := rfl
  closed_close _ := rfl
  close_eq _ hvd hcld := hvd hcld
  not_has_close _ _ h := by cases h

lemma file_valid_new : (fileKind inv).Valid ({} : FileService Root Files) := by
  intro h
  cases h

lemma file_not_has_new (grant : String) :
    ¬ (fileKind inv).Has ({} : FileService Root Files) grant := by
  intro h
  cases h

variable {w : FileService Root Files}

lemma perform_closed_eq (hvd : (fileKind inv).Valid w) (hcld : w.closed = true)
    (action : Action Root Files) : (w.perform inv action).left = w := by
  have hsm : FileOwner.closeService inv w = w := hvd hcld
  cases action with
  | close => exact hsm
  | beginChoose =>
    simp [FileService.perform, FileService.beginChoose, hcld, Morphir.Files.Answer.refused]
  | request command disk =>
    simp [FileService.perform, FileService.request, hcld, Morphir.Files.Answer.refused]
  | finishChoose ticket path opened =>
    simp [FileService.perform, FileService.finishChoose, hcld, Morphir.Files.Answer.refused]
  | cancelChoose ticket =>
    have hpic : w.picker = none := by
      rw [← hsm]
      rfl
    have hno : { w with picker := none } = w := by rw [← hpic]
    simp only [FileService.perform, FileService.cancelChoose]
    split
    · exact hno
    · rfl

variable {action : Action Root Files}

lemma served_perform {granted : Prop}
    (hgra : ∀ ticket path opened, action = .finishChoose ticket path opened →
      w.closed = false → w.picker = some ticket → granted) :
    (fileKind inv).Served granted w (w.perform inv action).left where
  valid hvd hcld := by
    by_cases hclo : action = .close
    · subst hclo
      exact (fileKind inv).valid_close w hcld
    · rw [FileService.perform_closed action hclo] at hcld
      rw [perform_closed_eq hvd hcld action]
      exact hvd hcld
  kept hvd hcld := perform_closed_eq hvd hcld action
  grant grant hgr := by
    have hse := FileService.perform_seen inv w action grant
    change ((w.perform inv action).left.grant? grant).isSome at hgr
    generalize (w.perform inv action).left.grant? grant = after at hse hgr
    cases hse with
    | kept _ haft =>
      rw [haft] at hgr
      exact .inl hgr
    | created hact hpd => exact .inr (hgra _ _ _ hact hpd.1 hpd.2)
    | dropped _ _ haft =>
      rw [haft] at hgr
      cases hgr
    | acted _ hpre =>
      left
      change (w.grant? grant).isSome
      rw [hpre]
      rfl

/-- What can come of a step: grants to services, and pickers that begin. -/
structure FileRights where
  grants : Nat → Prop
  begins : Nat → FileTask → Prop

namespace FileOwner

structure Sound (inv : Inventories Files Edit) (o : FileOwner Root Files) : Prop where
  session : o.session.Valid
  services : (fileKind inv).Kept o.session o.services

structure Valid (inv : Inventories Files Edit) (o : FileOwner Root Files) : Prop
    extends o.Sound inv where
  tasks : ∀ t task, (t, task) ∈ o.tasks → o.services.IsFor task.service task.id

structure Goes (inv : Inventories Files Edit) (R : FileRights) (o o' : FileOwner Root Files) :
    Prop where
  sound : o'.Sound inv
  isFor : ∀ n id, o.services.IsFor n id → o'.services.IsFor n id
  services : (fileKind inv).Serves R.grants o.services o'.services
  tasks : ∀ t task, (t, task) ∈ o'.tasks →
    (t, task) ∈ o.tasks ∨ (o'.services.IsFor task.service task.id ∧ R.begins t task)

structure Stepped (inv : Inventories Files Edit) (R : FileRights) (o : FileOwner Root Files)
    (r : FileStep Root Files) : Prop where
  goes : Goes inv R o r.2
  described : ∀ t id, r.1 = some (t, .descriptor id) → r.2.session.Current id

variable {R : FileRights} {o o' o'' : FileOwner Root Files}

lemma Goes.trans (h : Goes inv R o o') (h' : Goes inv R o' o'') : Goes inv R o o'' where
  sound := h'.sound
  isFor n id hid := h'.isFor n id (h.isFor n id hid)
  services := Kind.Serves.trans h.services h'.services
  tasks t task htk := by
    rcases h'.tasks t task htk with htk | hbeg
    · exact (h.tasks t task htk).imp_right fun h => ⟨h'.isFor _ _ h.1, h.2⟩
    · exact .inr hbeg

lemma Valid.later (h : o.Valid inv) (hgoes : Goes inv R o o') : o'.Valid inv where
  toSound := hgoes.sound
  tasks t task htk :=
    (hgoes.tasks t task htk).elim (fun htk => hgoes.isFor _ _ (h.tasks t task htk)) And.left

lemma Sound.retask (h : o.Sound inv) {tasks : List (Nat × FileTask)} (nextTask : Nat)
    (hts : ∀ t task, (t, task) ∈ tasks →
      (t, task) ∈ o.tasks ∨ (o.services.IsFor task.service task.id ∧ R.begins t task)) :
    Goes inv R o { o with tasks, nextTask } where
  sound := ⟨h.session, h.services⟩
  isFor _ _ hid := hid
  services := Kind.Serves.refl _
  tasks := hts

lemma Goes.refl (h : o.Sound inv) : Goes inv R o o := h.retask _ fun _ _ htk => .inl htk

variable {n : Nat}

lemma Sound.useService (h : o.Sound inv)
    (hgra : ∀ id w ticket path opened, o.services.made[n]? = some (id, w) →
      action = .finishChoose ticket path opened → w.closed = false → w.picker = some ticket →
      R.grants n) : Goes inv R o (o.useService inv n action) := by
  have hser (id : String) (w : FileService Root Files)
      (hw : o.services.made[n]? = some (id, w)) :
      (fileKind inv).Served (R.grants n) w (w.perform inv action).left :=
    served_perform fun ticket path opened => hgra id w ticket path opened hw
  refine ⟨⟨h.session, h.services.update hser⟩, fun m id hid => ?_,
    .update hser, fun _ _ htk => .inl htk⟩
  rw [Roster.IsFor, FileOwner.useService, Roster.makes_update]
  exact hid

lemma Sound.useServicePlain (h : o.Sound inv) (n : Nat)
    (hact : ∀ ticket path opened, action ≠ .finishChoose ticket path opened) :
    Goes inv R o (o.useService inv n action) :=
  h.useService fun _ _ ticket path opened _ heq => absurd heq (hact ticket path opened)

lemma Sound.replace (h : o.Sound inv) {session : Session} {p : String → Bool}
    (hvd : session.Valid) (hlat : Session.Later o.session session)
    (hp : ∀ id ∈ o.services.keys, session.Current id ∨ p id = true)
    (hk : ∀ id, session.Current id → p id = false) :
    Goes inv R o
      { o with session, services := o.services.dismiss p (closeService inv) } := by
  refine ⟨⟨hvd, h.services.replace hlat hp hk⟩, fun n id hid => ?_,
    .dismiss o.services p, fun _ _ htk => .inl htk⟩
  rw [Roster.IsFor, Roster.makes_dismiss]
  exact hid

variable {id : String}

lemma Sound.makeService (h : o.Sound inv) (hcur : o.session.Current id) :
    Goes inv R o (o.makeService id) := by
  unfold FileOwner.makeService
  split
  · exact Goes.refl h
  · rename_i hcon
    have hnew : id ∉ o.services.makes := by
      intro hmem
      exact hcon (Roster.contains_iff.mpr (h.services.offered id hcur hmem))
    refine ⟨⟨h.session, h.services.create h.session hcur hnew file_valid_new
      file_not_has_new⟩, fun n other ho => ?_,
      .create file_valid_new file_not_has_new, fun _ _ htk => .inl htk⟩
    have hlt : n < o.services.makes.length := (List.getElem?_eq_some_iff.mp ho).1
    rw [Roster.IsFor, Roster.makes_create, List.getElem?_append_left hlt]
    exact ho

section

variable (h : Goes inv R o o')

include h

lemma Goes.silent : Stepped inv R o (none, o') where
  goes := h
  described _ _ hrep := by cases hrep

lemma Goes.answer (t : Nat) {reply : FileReply}
    (hrep : ∀ id, reply = .descriptor id → o'.session.Current id) :
    Stepped inv R o (o'.answer t reply) where
  goes := h
  described _ id heq := hrep id (Prod.mk.inj (Option.some.inj heq)).2

lemma Goes.fail (t : Nat) (error : FileError) :
    Stepped inv R o (o'.fail t error) := h.answer t (by simp)

lemma Goes.succeed (t : Nat) (host : FileHost Files) {reply : FileReply}
    (hrep : ∀ id, reply = .descriptor id → o'.session.Current id) :
    Stepped inv R o (o'.succeed t host reply) := by
  unfold FileOwner.succeed
  split
  · exact h.answer t hrep
  · exact h.fail t _

lemma Stepped.after {r : FileStep Root Files} (h' : Stepped inv R o' r) :
    Stepped inv R o r := ⟨h.trans h'.goes, h'.described⟩

end

section

variable (h : o.Sound inv)

include h

lemma Sound.openSession (t : Nat) (caller : Caller) (host : FileHost Files) :
    Stepped inv R o (o.openSession inv t caller host) := by
  unfold FileOwner.openSession
  split
  · exact (Goes.refl h).fail t _
  rename_i descriptor session hop
  obtain ⟨hcurrentOf, hvd, hlat⟩ := Session.openFor_spec h.session hop
  have hcur := hcurrentOf.current
  have hgoes : Goes inv R o { o with
      session
      services := o.services.dismiss (fun key => decide (key ≠ descriptor.sessionId))
        (closeService inv) } := by
    apply h.replace hvd hlat
    · intro id _
      by_cases heq : id = descriptor.sessionId
      · exact .inl (heq ▸ hcur)
      · exact .inr (decide_eq_true heq)
    · intro id hid
      exact decide_eq_false (not_not.mpr (hvd.current_unique hid hcur))
  apply Goes.succeed (hgoes.trans (hgoes.sound.makeService hcur))
  rintro id heq
  obtain rfl := FileReply.descriptor.inj heq
  unfold FileOwner.makeService
  split <;> exact hcur

lemma Sound.closeSession (t : Nat) (id : String) (caller : Caller) (host : FileHost Files) :
    Stepped inv R o (o.closeSession inv t id caller host) := by
  unfold FileOwner.closeSession
  split
  · exact (Goes.refl h).fail t _
  rename_i session hclo
  obtain ⟨hcurrentOf, hnx, hno⟩ := Session.close_spec hclo
  have hcur := hcurrentOf.current
  apply Goes.succeed _ t host (by simp)
  apply h.replace (Session.valid_ended h.session hnx hno) (Session.later_ended hnx hno)
  · intro other ho
    right
    exact decide_eq_true (h.session.current_unique (h.services.current other ho) hcur)
  · exact fun other ho => absurd ho (hno other)

lemma Sound.perform (t : Nat) (id : String) (n : Nat) (host : FileHost Files)
    (hact : ∀ ticket path opened, action ≠ .finishChoose ticket path opened) :
    Stepped inv R o (o.perform inv t id n action host) := by
  unfold FileOwner.perform
  split
  · exact (h.useServicePlain n hact).fail t _
  · exact (h.useServicePlain n hact).succeed t host (by simp)

lemma Sound.choose (t : Nat) (hfor : o.services.IsFor n id)
    (hbeg : ∀ ticket, R.begins t ⟨id, n, ticket⟩) : Stepped inv R o (o.choose inv t id n) := by
  have hu : Goes inv R o (o.useService inv n .beginChoose) := h.useServicePlain n (by simp)
  unfold FileOwner.choose
  split
  · exact hu.fail t _
  · apply Goes.silent
    apply hu.trans
    apply hu.sound.retask
    intro u task hmem
    rcases List.mem_append.mp hmem with hmem | hmem
    · exact .inl hmem
    · obtain ⟨rfl, rfl⟩ := Prod.mk.inj (List.mem_singleton.mp hmem)
      exact .inr ⟨hu.isFor n id hfor, hbeg _⟩
  · exact (Goes.refl h).fail t _

lemma Sound.operate (t : Nat) (hcur : o.session.Current id) (hfor : o.services.IsFor n id)
    (caller : Caller) (host : FileHost Files) (command : Command)
    (hbeg : command = .chooseWrite → ∀ ticket, R.begins t ⟨id, n, ticket⟩) :
    Stepped inv R o (o.operate inv t id n caller host command) := by
  cases command with
  | checkSession =>
    apply (Goes.refl h).succeed t host
    rintro other heq
    obtain rfl := FileReply.descriptor.inj heq
    exact hcur
  | closeSession => exact h.closeSession t id caller host
  | cancelPicker =>
    change Stepped inv R o (o.perform inv t id n (.cancelChoose none) host)
    exact h.perform t id n host (by simp)
  | chooseWrite => exact h.choose t hfor (hbeg rfl)
  | snapshot | read | beginEdit | write | commit | status | release | revoke =>
    exact h.perform t id n host (by simp)

lemma Sound.request (t : Nat) (request : Option FileRequest)
    (host : FileHost Files)
    (hbeg : ∀ caller id n, request = some (.bound id .chooseWrite) → host.caller = .ok caller →
      o.session.CurrentOf caller id → ∀ ticket, R.begins t ⟨id, n, ticket⟩) :
    Stepped inv R o (o.request inv t request host) := by
  unfold FileOwner.request
  split
  · exact (Goes.refl h).silent
  split
  · exact (Goes.refl h).fail t _
  split
  · exact (Goes.refl h).fail t _
  rename_i caller hcal
  split
  · exact h.openSession t caller host
  split
  · exact (Goes.refl h).fail t _
  rename_i hchk
  split
  · exact (Goes.refl h).fail t _
  rename_i n hn
  have hcurrentOf := Session.check_ok hchk
  apply h.operate t hcurrentOf.current (h.services.valid.listed _ n hn)
  rintro rfl
  exact hbeg caller _ n rfl hcal hcurrentOf

end

def GrantsAt (o : FileOwner Root Files) (host : FileHost Files) (task : FileTask)
    (ended : FileEnded Root) (n : Nat) : Prop :=
  ∃ path opened caller w, task.service = n ∧ ended = .path path opened ∧
    host.again = .ok caller ∧ o.session.CurrentOf caller task.id ∧
    o.services.made[n]? = some (task.id, w) ∧ w.closed = false ∧ w.picker = some task.ticket

section

variable (h : o.Sound inv)

include h

lemma Sound.chosen (t : Nat) {task : FileTask} (hfor : o.services.IsFor task.service task.id)
    (host : FileHost Files) (ended : FileEnded Root)
    (hgra : ∀ n, o.GrantsAt host task ended n → R.grants n) :
    Stepped inv R o (o.chosen inv t task host ended) := by
  have hcan : Goes inv R o
      (o.useService inv task.service (.cancelChoose (some task.ticket))) :=
    h.useServicePlain _ (by simp)
  cases ended with
  | raised error => exact hcan.fail t error
  | path path opened =>
    rw [FileOwner.chosen]
    dsimp only
    split
    · exact hcan.fail t _
    rename_i caller hag
    split
    · exact hcan.fail t _
    rename_i hchk
    have hfin : Goes inv R o
        (o.useService inv task.service (.finishChoose task.ticket path opened)) := by
      apply h.useService
      rintro id w ticket _ _ hw heq hop hpic
      obtain ⟨rfl, -, -⟩ := Action.finishChoose.inj heq
      obtain rfl := Option.some.inj ((Roster.isFor_of_made hw).symm.trans hfor)
      exact hgra _ ⟨path, opened, caller, w, rfl, rfl, hag, Session.check_ok hchk, hw, hop, hpic⟩
    split
    · exact (hfin.trans (hfin.sound.useServicePlain _ (by simp))).fail t _
    · exact hfin.succeed t host (by simp)

lemma Sound.closeAll {session : Session} (hnx : session.next = o.session.next)
    (hno : ∀ id, ¬ session.Current id) : Goes inv R o (o.closeAll inv session) := by
  apply h.replace (Session.valid_ended h.session hnx hno) (Session.later_ended hnx hno)
  · exact fun _ _ => .inr rfl
  · exact fun id hid => absurd hid (hno id)

lemma Sound.revoke : Goes inv R o (o.revoke inv) := by
  obtain ⟨hnx, hno⟩ := Session.revoke_spec o.session
  exact h.closeAll hnx hno

lemma Sound.close : Goes inv R o (o.close inv) := by
  have hrev : Goes inv R o (o.revoke inv) := h.revoke
  apply hrev.trans
  obtain ⟨hnx, hno⟩ := Session.shutdown_spec (o.revoke inv).session
  have hrepl := hrev.sound.replace (R := R)
    (Session.valid_ended hrev.sound.session hnx hno) (Session.later_ended hnx hno)
    (fun id hid => ?_) fun _ _ => rfl
  · rw [Roster.dismiss_none] at hrepl
    exact hrepl
  · have hcur := hrev.sound.services.current id hid
    exact absurd hcur ((Session.revoke_spec o.session).2 id)

end

def Grants (o : FileOwner Root Files) (event : FileEvent Root Files) (n : Nat) : Prop :=
  ∃ t ended host task, event = .resume t ended host ∧ OrdMap.get? o.tasks t = some task ∧
    o.GrantsAt host task ended n

def Begins (o : FileOwner Root Files) (event : FileEvent Root Files) (t : Nat) (task : FileTask) :
    Prop :=
  ∃ host caller, event = .request (some (.bound task.id .chooseWrite)) host ∧ t = o.nextTask ∧
    host.caller = .ok caller ∧ o.session.CurrentOf caller task.id

def rights (o : FileOwner Root Files) (event : FileEvent Root Files) : FileRights where
  grants := o.Grants event
  begins := o.Begins event

lemma Valid.step (h : o.Valid inv) (event : FileEvent Root Files) :
    Stepped inv (o.rights event) o (o.step inv event) := by
  cases event with
  | request request host =>
    have hcnt : Goes inv (o.rights (.request request host)) o o.count :=
      h.toSound.retask _ fun _ _ hmem => .inl hmem
    apply Stepped.after hcnt
    apply hcnt.sound.request
    rintro caller id n rfl hcal hcurrentOf ticket
    exact ⟨host, caller, rfl, rfl, hcal, hcurrentOf⟩
  | revoke => exact Goes.silent h.toSound.revoke
  | close => exact Goes.silent h.toSound.close
  | resume t ended host =>
    rw [FileOwner.step, FileOwner.resume]
    split
    · exact (Goes.refl h.toSound).silent
    · rename_i task htk
      have hera : Goes inv (o.rights (.resume t ended host)) o
          { o with tasks := OrdMap.erase o.tasks t } :=
        h.toSound.retask _ fun _ _ hmem => .inl (OrdMap.mem_erase hmem)
      apply Stepped.after hera
      apply hera.sound.chosen t (h.tasks t task (OrdMap.mem_of_get? htk)) host ended
      exact fun n hn => ⟨t, ended, host, task, rfl, htk, hn⟩

lemma valid_new (enabled : Bool) : ({ enabled } : FileOwner Root Files).Valid inv where
  session := Session.valid_new
  services := Kind.kept_empty _
  tasks _ _ htk := by cases htk

end FileOwner

end Morphir.Authority
