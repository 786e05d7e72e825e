import Morphir.Authority.Workspace
import Morphir.Library.Recording

/-!
# The native owner

The owner admits the frames of a page, makes the services of its session and shuts them
down again.  A request waits where the source awaits a shutdown, a picker or an execution
service, and everything else can happen before it goes on.
-/

namespace Morphir.Authority

open Host (Json)

inductive Category
  | limit
  | invalidRequest
  | unauthorized
  | unavailable
  | conflict
deriving DecidableEq

inductive Effect
  | noEffect
  | unknownEffect
deriving DecidableEq

/-- What an execution service was asked, and the shutdowns of it that returned. -/
inductive ServiceCall
  | offer
  | request (operation : String) (payload : Json)
  | close
  | stopped

/-- An execution service is its host's: what is known of it is what was done with it. -/
structure ExecutionsService where
  calls : List ServiceCall := []

namespace ExecutionsService

def call (c : ServiceCall) (s : ExecutionsService) : ExecutionsService := ⟨s.calls ++ [c]⟩

def Stopped (s : ExecutionsService) : Prop := .stopped ∈ s.calls

end ExecutionsService

inductive Operation
  | openSession
  | check (sessionId : String)
  | close (sessionId : String)
  | execution (sessionId operation : String) (payload : Json)
  | choose (sessionId : String)
  | workspace (sessionId : String) (payload : Payload)

def Operation.sessionId? : Operation → Option String
  | .openSession => none
  | .check id | .close id | .execution id _ _ | .choose id | .workspace id _ => some id

structure Frame where
  contract : Contract
  operation : Operation

structure Descriptor where
  contractVersion : String
  sessionId : String
  operations : List String
  offer : Option Json
  capabilityChecks : Bool

inductive Reply
  | failure (category : Category) (effect : Effect)
  | opened (descriptor : Descriptor)
  | checked (descriptor : Descriptor)
  | closed
  | execution (reply : Bytes)
  | chosen (reply : ServiceReply)
  | workspace (reply : ServiceReply)

/-- What the host gives while a request goes on: the trusted context, read once when the
frame comes and again after an await, the folder of the session, whether a service can be
made, its offer, and whether the reply can be encoded. -/
structure Host (Files : Type) where
  caller : Option Caller
  again : Option Caller
  folder : Folder Files
  made : Bool
  offer : Option Json
  encoded : Bool

inductive Task
  | opening (id : String) (contract : Contract) (old : String) (service : Nat)
      (rest : List (String × Nat))
  | closing (id : String) (service : Nat)
  | executing (id : String) (contract : Contract)
  | choosing (id : String) (contract : Contract) (service : Nat) (ticket : Int)
  | retiring (id : String) (service : Nat)
  | stopping (id : String) (service : Nat) (rest : List (String × Nat))
deriving DecidableEq

def Task.sessionId? : Task → Option String
  | .executing id _ | .choosing id _ _ _ => some id
  | _ => none

def Operation.Begins : Operation → Task → Prop
  | .execution id _ _, .executing other _ => id = other
  | .choose id, .choosing other _ _ _ => id = other
  | _, _ => False

inductive Ended (Root Files : Type)
  | raised
  | stopped
  | bytes (reply : Bytes)
  | path (path : Option String) (opened : Except String (Opened Root Files))

structure Owner (Root Files : Type) where
  session : Session
  executions : Bool
  workspace : Bool
  services : Roster String ExecutionsService := {}
  workspaces : Roster String (Service Root Files) := {}
  cleanupFailed : Bool := false
  tasks : List (Nat × Task) := []
  nextTask : Nat := 0

/-- The reply of a step, with the task that it answers, and the owner after it. -/
abbrev Step (Root Files : Type) := Option (Nat × Reply) × Owner Root Files

namespace Owner

variable {Root Files : Type} (o : Owner Root Files)

def withServices (executions workspace : Bool) (contract : Contract) : Owner Root Files where
  session := { executions, workspace, contract }
  executions
  workspace

def answer (t : Nat) (reply : Reply) : Step Root Files := (some (t, reply), o)

def refuse (t : Nat) (category : Category) (effect : Effect) : Step Root Files :=
  o.answer t (.failure category effect)

def succeed (t : Nat) (host : Host Files) (category : Category) (effect : Effect) (reply : Reply) :
    Step Root Files :=
  if host.encoded then o.answer t reply else o.refuse t category effect

def suspend (t : Nat) (task : Task) : Step Root Files :=
  (none, { o with tasks := o.tasks ++ [(t, task)] })

def callService (n : Nat) (c : ServiceCall) : Owner Root Files :=
  { o with services := o.services.update n (.call c) }

def descriptor (id : String) (contract : Contract) (host : Host Files) :
    Option Descriptor × Owner Root Files :=
  let base : Descriptor :=
    { contractVersion := contract.version
      sessionId := id
      operations := (if o.executions then ["executions"] else []) ++
        if o.workspace then ["workspace"] else []
      offer := if o.executions then host.offer else none
      capabilityChecks := o.executions && decide (contract = .capabilityChecks) }
  let workspaces : Option Descriptor :=
    if o.workspace ∧ ¬ o.workspaces.contains id then none else some base
  if o.executions then
    match o.services.get? id with
    | none => (none, o)
    | some service => (if host.offer.isSome then workspaces else none, o.callService service .offer)
  else (workspaces, o)

def makeService (id : String) (host : Host Files) : Option (Owner Root Files) :=
  if o.executions ∧ ¬ o.services.contains id then
    if host.made then some { o with services := o.services.create id {} } else none
  else some o

def makeWorkspace (id : String) : Owner Root Files :=
  if o.workspace ∧ ¬ o.workspaces.contains id then
    { o with workspaces := o.workspaces.create id {} }
  else o

/-- The end of `session.open`, when the services of the sessions before are shut down. -/
def finishOpen (t : Nat) (id : String) (contract : Contract) (host : Host Files) :
    Step Root Files :=
  if o.cleanupFailed then o.refuse t .unavailable .unknownEffect
  else
    match host.again with
    | none => o.refuse t .unauthorized .unknownEffect
    | some caller =>
      match o.session.check caller id (some contract) with
      | .error _ => o.refuse t .unauthorized .unknownEffect
      | .ok _ =>
        match o.makeService id host with
        | none => o.refuse t .unavailable .unknownEffect
        | some o =>
          match (o.makeWorkspace id).descriptor id contract host with
          | (none, o) => o.refuse t .unavailable .unknownEffect
          | (some descriptor, o) =>
            o.succeed t host .unavailable .unknownEffect (.opened descriptor)

/-- The services of other sessions are shut down one after another. -/
def shutOthers (t : Nat) (id : String) (contract : Contract) (host : Host Files) :
    List (String × Nat) → Step Root Files
  | [] => o.finishOpen t id contract host
  | (old, service) :: rest =>
    if old ≠ id then o.suspend t (.opening id contract old service rest)
    else shutOthers t id contract host rest

def closeOthers (id : String) : Owner Root Files :=
  { o with workspaces := o.workspaces.dismiss (fun key => decide (key ≠ id)) Service.close }

def openSession (t : Nat) (contract : Contract) (caller : Caller) (host : Host Files) :
    Step Root Files :=
  match o.session.openFor caller contract.version with
  | .error _ => o.refuse t .unauthorized .unknownEffect
  | .ok (descriptor, session) =>
    ({ o with session }.closeOthers descriptor.sessionId).shutOthers t descriptor.sessionId
      contract host o.services.names

def closeSession (t : Nat) (id : String) (caller : Caller) (host : Host Files) :
    Step Root Files :=
  match o.session.close caller id with
  | .error _ => o.refuse t .unauthorized .unknownEffect
  | .ok session =>
    let o := { o with
      session
      workspaces := o.workspaces.dismiss (fun key => decide (key = id)) Service.close }
    match o.services.get? id with
    | none => o.succeed t host .unavailable .unknownEffect .closed
    | some service => o.suspend t (.closing id service)

def execution (t : Nat) (id : String) (contract : Contract) (operation : String) (payload : Json) :
    Step Root Files :=
  match o.services.get? id with
  | none => o.refuse t .unavailable .noEffect
  | some service =>
    (o.callService service (.request operation payload)).suspend t (.executing id contract)

def useWorkspace (n : Nat) (f : Service Root Files → Service Root Files) : Owner Root Files :=
  { o with workspaces := o.workspaces.update n f }

def workspaceAt (n : Nat) : Service Root Files := ((o.workspaces.made[n]?).map Prod.snd).getD {}

def choose (t : Nat) (id : String) (contract : Contract) : Step Root Files :=
  match o.workspaces.get? id with
  | none => o.refuse t .unavailable .noEffect
  | some service =>
    match (o.workspaceAt service).beginChoose.1 with
    | .error _ => o.refuse t .conflict .noEffect
    | .ok ticket =>
      (o.useWorkspace service fun w => w.beginChoose.2).suspend t
        (.choosing id contract service ticket)

def serve [DecidableEq Files] (t : Nat) (id : String) (payload : Payload) (host : Host Files) :
    Step Root Files :=
  match o.workspaces.get? id with
  | none => o.refuse t .unavailable .noEffect
  | some service =>
    let left := o.useWorkspace service fun w => (w.request host.folder payload).2
    match ((o.workspaceAt service).request host.folder payload).1 with
    | .error _ => left.refuse t .conflict .unknownEffect
    | .ok reply => left.succeed t host .unavailable .unknownEffect (.workspace reply)

def operate [DecidableEq Files] (t : Nat) (id : String) (contract : Contract) (caller : Caller)
    (host : Host Files) : Operation → Step Root Files
  | .openSession => o.openSession t contract caller host
  | .check _ =>
    match o.descriptor id contract host with
    | (none, o) => o.refuse t .unavailable .noEffect
    | (some descriptor, o) => o.succeed t host .unavailable .noEffect (.checked descriptor)
  | .close _ => o.closeSession t id caller host
  | .execution _ operation payload => o.execution t id contract operation payload
  | .choose _ => o.choose t id contract
  | .workspace _ payload => o.serve t id payload host

def request [DecidableEq Files] (t : Nat) (frame : Except Category Frame) (host : Host Files) :
    Step Root Files :=
  match frame with
  | .error category => o.refuse t category .noEffect
  | .ok frame =>
    match host.caller with
    | none => o.refuse t .unauthorized .noEffect
    | some caller =>
      match frame.operation.sessionId? with
      | none => o.openSession t frame.contract caller host
      | some id =>
        match o.session.check caller id (some frame.contract) with
        | .error _ => o.refuse t .unauthorized .noEffect
        | .ok _ => o.operate t id frame.contract caller host frame.operation

/-- The context is read again, and the session has to be current still. -/
def readmit (id : String) (contract : Contract) (host : Host Files) : Bool :=
  match host.again with
  | none => false
  | some caller => (o.session.check caller id (some contract)).isOk

def stopped (id : String) (service : Nat) : Owner Root Files :=
  { o with services := (o.services.update service (.call .stopped)).remove id }

def chosen (t : Nat) (id : String) (contract : Contract) (service : Nat) (ticket : Int)
    (path : Option String) (opened : Except String (Opened Root Files)) (host : Host Files) :
    Step Root Files :=
  let cancelled := o.useWorkspace service fun w => w.cancelChooseIfCurrent ticket
  if o.readmit id contract host then
    let left := o.useWorkspace service fun w => (w.finishChoose ticket path opened).2
    let failed := left.useWorkspace service fun w => w.cancelChooseIfCurrent ticket
    match ((o.workspaceAt service).finishChoose ticket path opened).1 with
    | .error _ => failed.refuse t .conflict .unknownEffect
    | .ok reply =>
      if host.encoded then left.answer t (.chosen reply)
      else failed.refuse t .conflict .unknownEffect
  else cancelled.refuse t .unauthorized .unknownEffect

def stopAll (t : Nat) : List (String × Nat) → Step Root Files
  | [] => (none, { o with cleanupFailed := false })
  | (id, service) :: rest => o.suspend t (.stopping id service rest)

def goOn (t : Nat) (host : Host Files) : Task → Ended Root Files → Step Root Files
  | .opening id contract old service rest, .stopped =>
    (o.stopped old service).shutOthers t id contract host rest
  | .opening _ _ _ _ _, _ => o.refuse t .unavailable .unknownEffect
  | .closing id service, .stopped =>
    (o.stopped id service).succeed t host .unavailable .unknownEffect .closed
  | .closing _ _, _ => o.refuse t .unavailable .unknownEffect
  | .executing id contract, .bytes reply =>
    if o.readmit id contract host then o.answer t (.execution reply)
    else o.refuse t .unauthorized .unknownEffect
  | .executing _ _, _ => o.refuse t .unavailable .unknownEffect
  | .choosing id contract service ticket, .path path opened =>
    o.chosen t id contract service ticket path opened host
  | .choosing _ _ service ticket, _ =>
    (o.useWorkspace service fun w => w.cancelChooseIfCurrent ticket).refuse t .unavailable
      .unknownEffect
  | .retiring id service, .stopped => (none, o.stopped id service)
  | .retiring _ _, _ => (none, { o with cleanupFailed := true })
  | .stopping id service rest, .stopped => (o.stopped id service).stopAll t rest
  | .stopping _ _ _, _ => (none, o)

def resume (t : Nat) (ended : Ended Root Files) (host : Host Files) : Step Root Files :=
  match OrdMap.get? o.tasks t with
  | none => (none, o)
  | some task => { o with tasks := OrdMap.erase o.tasks t }.goOn t host task ended

def closeAll : Owner Root Files :=
  { o with workspaces := o.workspaces.dismiss (fun _ => true) Service.close }

def retire (e : String × Nat) : Owner Root Files :=
  { o.callService e.2 .close with
    tasks := o.tasks ++ [(o.nextTask, .retiring e.1 e.2)]
    nextTask := o.nextTask + 1 }

def revoke : Owner Root Files :=
  o.services.names.foldl retire ({ o with session := o.session.revoke }.closeAll)

def close : Owner Root Files := { o.revoke with session := o.revoke.session.shutdown }

def shutdown (t : Nat) : Step Root Files :=
  ({ o with session := o.session.shutdown }.closeAll).stopAll t o.services.names

end Owner

inductive Event (Root Files : Type)
  | request (frame : Except Category Frame) (host : Host Files)
  | resume (t : Nat) (ended : Ended Root Files) (host : Host Files)
  | revoke
  | close
  | shutdown

variable {Root Files : Type} [DecidableEq Files]

def Owner.count (o : Owner Root Files) : Owner Root Files := { o with nextTask := o.nextTask + 1 }

def Owner.step (o : Owner Root Files) : Event Root Files → Step Root Files
  | .request frame host => o.count.request o.nextTask frame host
  | .resume t ended host => o.resume t ended host
  | .revoke => (none, o.revoke)
  | .close => (none, o.close)
  | .shutdown => o.count.shutdown o.nextTask

abbrev Entry (Root Files : Type) :=
  Recording.Entry (Owner Root Files) (Event Root Files) (Option (Nat × Reply))

def history (executions workspace : Bool) (contract : Contract) (events : List (Event Root Files)) :
    List (Entry Root Files) :=
  Recording.entries Owner.step (Owner.withServices executions workspace contract) events

end Morphir.Authority

/-!
## The steps of an owner

What every reachable owner keeps, and what one step does to the services that were made.
-/

namespace Morphir.Authority

variable {Root Files : Type}

namespace ExecutionsService

def Hears (reached : Prop) (s t : ExecutionsService) : Prop :=
  ∃ more, t.calls = s.calls ++ more ∧ (reached ∨ ∀ c ∈ more, c = .close ∨ c = .stopped)

variable {reached : Prop}

variable (s : ExecutionsService)

lemma Hears.refl : Hears reached s s := ⟨[], (List.append_nil _).symm, .inr (by simp)⟩

lemma Hears.trans {s t u : ExecutionsService} (h : Hears reached s t) (h' : Hears reached t u) :
    Hears reached s u := by
  obtain ⟨first, hfst, hends⟩ := h
  obtain ⟨second, hsnd, hends'⟩ := h'
  refine ⟨first ++ second, by rw [hsnd, hfst, List.append_assoc], ?_⟩
  rcases hends with hrea | hends
  · exact .inl hrea
  rcases hends' with hrea | hends'
  · exact .inl hrea
  right
  intro c hc
  exact (List.mem_append.mp hc).elim (hends c) (hends' c)

lemma hears_call {c : ServiceCall} (h : reached ∨ c = .close ∨ c = .stopped)
    (s : ExecutionsService) : Hears reached s (s.call c) := by
  refine ⟨[c], rfl, ?_⟩
  rcases h with h | h
  · exact .inl h
  · right
    simpa using h

lemma stopped_call {c : ServiceCall} {s : ExecutionsService} (h : s.Stopped) :
    (s.call c).Stopped := List.mem_append_left [c] h

lemma call_stopped : (s.call .stopped).Stopped :=
  List.mem_append_right s.calls (List.mem_singleton.mpr rfl)

end ExecutionsService

open ExecutionsService Service Roster Kind.Serves Hears

/-- What can come of a step: grants to workspaces, replies of execution services to tasks,
and pickers and executions that begin. -/
structure Rights where
  grants : Nat → Prop
  replies : Nat → Bytes → Prop
  begins : Nat → Task → Prop
  plain : ∀ t task, task.sessionId? = none → begins t task

namespace Owner

def Doomed (o : Owner Root Files) (id : String) (service : Nat) : Prop :=
  o.session.Stale id ∧ o.services.IsFor service id

/-- What `session.open` still has to shut down. -/
structure Opening (o : Owner Root Files) (id : String) (rest : List (String × Nat)) : Prop where
  issued : o.session.Issued id
  doomed : ∀ e ∈ rest, e.1 ≠ id → o.Doomed e.1 e.2
  others : o.session.Current id → ∀ key ∈ o.services.keys, key = id ∨ key ∈ OrdMap.keys rest

def Awaits (o : Owner Root Files) : Task → Prop
  | .opening id _ old service rest => old ≠ id ∧ o.Opening id ((old, service) :: rest)
  | .closing id service => o.Doomed id service
  | .retiring id service => o.Doomed id service
  | .executing _ _ => True
  | .choosing id _ service _ => o.workspaces.IsFor service id
  | .stopping id service rest => ∀ e ∈ (id, service) :: rest, o.Doomed e.1 e.2

structure Sound (o : Owner Root Files) : Prop where
  session : o.session.Valid
  services : o.services.Valid
  issued : ∀ id ∈ o.services.makes, o.session.Issued id
  served : ∀ id, o.session.Current id → id ∈ o.services.makes → id ∈ o.services.keys
  stopped : o.services.Unkept Stopped
  workspaces : kind.Kept o.session o.workspaces

structure Valid (o : Owner Root Files) : Prop extends Sound o where
  tasks : ∀ t task, (t, task) ∈ o.tasks → o.Awaits task

structure Grows (o o' : Owner Root Files) : Prop where
  session : Session.Later o.session o'.session
  services : ∀ n id, o.services.IsFor n id → o'.services.IsFor n id
  workspaces : ∀ n id, o.workspaces.IsFor n id → o'.workspaces.IsFor n id
  keys : ∀ id, o.session.Issued id → o'.session.Current id →
    ∀ key ∈ o'.services.keys, key ∈ o.services.keys ∨ key = id

lemma Grows.refl (o : Owner Root Files) : Grows o o where
  session := Session.Later.refl _
  services _ _ h := h
  workspaces _ _ h := h
  keys _ _ _ _ h := .inl h

lemma Grows.trans (h : Grows o o') (h' : Grows o' o'') :
    Grows o o'' where
  session := h.session.trans h'.session
  services n id hid := h'.services n id (h.services n id hid)
  workspaces n id hid := h'.workspaces n id (h.workspaces n id hid)
  keys id hiss hcur key hkey := by
    have hiss' := h.session.issued id hiss
    rcases h'.keys id hiss' hcur key hkey with hkey | heq
    · exact h.keys id hiss (h'.session.current hiss' hcur) key hkey
    · exact .inr heq

variable {o o' : Owner Root Files} {id : String}

lemma Doomed.later (hgrows : Grows o o') {service : Nat} (h : o.Doomed id service) :
    o'.Doomed id service :=
  ⟨hgrows.session.stale id h.1, hgrows.services service id h.2⟩

lemma Opening.later (hgrows : Grows o o') {rest : List (String × Nat)} (h : o.Opening id rest) :
    o'.Opening id rest where
  issued := hgrows.session.issued id h.issued
  doomed e he hne := (h.doomed e he hne).later hgrows
  others hcur key hkey := by
    rcases hgrows.keys id h.issued hcur key hkey with hkey | heq
    · exact h.others (hgrows.session.current h.issued hcur) key hkey
    · exact .inl heq

lemma Awaits.later (hgrows : Grows o o') {task : Task} (h : o.Awaits task) : o'.Awaits task := by
  cases task with
  | opening id contract old service rest => exact ⟨h.1, h.2.later hgrows⟩
  | closing id service => exact Doomed.later hgrows h
  | retiring id service => exact Doomed.later hgrows h
  | executing id contract => trivial
  | choosing id contract service ticket => exact hgrows.workspaces service id h
  | stopping id service rest => exact fun e he => (h e he).later hgrows

structure Goes (s : Session) (R : Rights) (o o' : Owner Root Files) : Prop where
  sound : o'.Sound
  grows : Grows o o'
  services : Roster.Evolves (fun _ _ => True) (fun _ id => Hears (s.Current id))
    o.services o'.services
  workspaces : kind.Serves R.grants o.workspaces o'.workspaces
  tasks : ∀ t task, (t, task) ∈ o'.tasks → (t, task) ∈ o.tasks ∨ (o'.Awaits task ∧ R.begins t task)

variable {s : Session} {R : Rights} {o o' o'' : Owner Root Files}

lemma Sound.goes_of (hsnd : o'.Sound) (hgrows : Grows o o')
    (hsvcs : o'.services.made = o.services.made)
    (hws : o'.workspaces.made = o.workspaces.made)
    (hts : ∀ t task, (t, task) ∈ o'.tasks →
      (t, task) ∈ o.tasks ∨ (o'.Awaits task ∧ R.begins t task)) :
    Goes s R o o' where
  sound := hsnd
  grows := hgrows
  services := .of_made (fun _ _ s => refl s) hsvcs
  workspaces := .of_made (fun _ _ w => Kind.Served.refl w) hws
  tasks := hts

lemma Goes.refl (h : o.Sound) : Goes s R o o := h.goes_of (.refl o) rfl rfl fun _ _ htk => .inl htk

lemma Goes.trans (h : Goes s R o o') (h' : Goes s R o' o'') : Goes s R o o'' where
  sound := h'.sound
  grows := h.grows.trans h'.grows
  services := h.services.trans (fun _ _ _ _ _ => Hears.trans) (fun _ _ _ _ _ _ => trivial)
    h'.services
  workspaces := Kind.Serves.trans h.workspaces h'.workspaces
  tasks t task htk := by
    rcases h'.tasks t task htk with htk | hawa
    · exact (h.tasks t task htk).imp_right fun hawa => ⟨hawa.1.later h'.grows, hawa.2⟩
    · exact .inr hawa

lemma Valid.later (h : o.Valid) (hgoes : Goes s R o o') : o'.Valid where
  toSound := hgoes.sound
  tasks t task htk :=
    (hgoes.tasks t task htk).elim (fun htk => (h.tasks t task htk).later hgoes.grows) And.left

structure Passes (s : Session) (R : Rights) (o o' : Owner Root Files) : Prop
    extends Goes s R o o' where
  services_makes : o'.services.makes = o.services.makes
  workspaces_makes : o'.workspaces.makes = o.workspaces.makes

lemma Passes.refl (h : o.Sound) : Passes s R o o := ⟨Goes.refl h, rfl, rfl⟩

lemma Passes.trans (h : Passes s R o o') (h' : Passes s R o' o'') : Passes s R o o'' where
  toGoes := h.toGoes.trans h'.toGoes
  services_makes := h'.services_makes.trans h.services_makes
  workspaces_makes := h'.workspaces_makes.trans h.workspaces_makes

lemma Sound.retask (h : o.Sound) {tasks : List (Nat × Task)} (nextTask : Nat) (cleanupFailed : Bool)
    (hts : ∀ t task, (t, task) ∈ tasks → (t, task) ∈ o.tasks ∨ (o.Awaits task ∧ R.begins t task)) :
    Passes s R o { o with tasks, nextTask, cleanupFailed } := by
  have hsnd : Sound { o with tasks, nextTask, cleanupFailed } :=
    ⟨h.session, h.services, h.issued, h.served, h.stopped, h.workspaces⟩
  have hgrows : Grows o { o with tasks, nextTask, cleanupFailed } :=
    ⟨Session.Later.refl _, fun _ _ h => h, fun _ _ h => h, fun _ _ _ _ h => .inl h⟩
  refine ⟨hsnd.goes_of hgrows rfl rfl ?_, rfl, rfl⟩
  intro t task htk
  exact (hts t task htk).imp_right fun hawa => ⟨hawa.1.later hgrows, hawa.2⟩

variable {n : Nat}

lemma Sound.callService (h : o.Sound) {c : ServiceCall}
    (hc : (∀ id, o.services.IsFor n id → s.Current id) ∨ c = .close ∨ c = .stopped) :
    Passes s R o (o.callService n c) where
  sound :=
    { h with
      services := h.services.update n _
      issued := fun id hid => h.issued id (makes_update n (ExecutionsService.call c) ▸ hid)
      served := fun id hcur hid =>
        h.served id hcur (makes_update n (ExecutionsService.call c) ▸ hid)
      stopped := h.stopped.update fun _ => stopped_call }
  grows :=
    { Grows.refl o with
      services := fun m id hid => by
        rw [IsFor, Owner.callService, makes_update]
        exact hid }
  services := .update (fun _ _ s => refl s) fun id before hpre => by
    apply hears_call
    exact hc.imp_left fun hc => hc id (isFor_of_made hpre)
  workspaces := refl _
  tasks _ _ htk := .inl htk
  services_makes := makes_update n _
  workspaces_makes := rfl

lemma Sound.useWorkspace (h : o.Sound) {f : Service Root Files → Service Root Files}
    (hf : ∀ id w, o.workspaces.made[n]? = some (id, w) → Served (R.grants n) w (f w)) :
    Passes s R o (o.useWorkspace n f) where
  sound := { h with workspaces := h.workspaces.update hf }
  grows :=
    { Grows.refl o with
      workspaces := fun m id hid => by
        rw [IsFor, Owner.useWorkspace, makes_update]
        exact hid }
  services := .of_made (fun _ _ s => refl s) rfl
  workspaces := update hf
  tasks _ _ htk := .inl htk
  services_makes := rfl
  workspaces_makes := makes_update n f

lemma Sound.forget (h : o.Sound) (hdoo : o.Doomed id n) :
    Passes s R o (o.stopped id n) where
  sound :=
    { h with
      services := (h.services.update n _).remove id
      issued := fun other ho => h.issued other (by
        rw [Owner.stopped, makes_remove, makes_update] at ho
        exact ho)
      served := fun other hcur ho => by
        rw [Owner.stopped, makes_remove, makes_update] at ho
        rw [Owner.stopped, mem_keys_remove]
        exact ⟨h.served other hcur ho, (hdoo.1.ne_current hcur).symm⟩
      stopped := h.stopped.release h.services hdoo.2 call_stopped }
  grows :=
    { Grows.refl o with
      services := fun m other ho => by
        rw [IsFor, Owner.stopped, makes_remove, makes_update]
        exact ho
      keys := fun _ _ _ key hkey => by
        rw [Owner.stopped, mem_keys_remove] at hkey
        exact .inl hkey.1 }
  services := (Evolves.update (fun _ _ s => Hears.refl s) fun _ s _ =>
    hears_call (.inr (.inr rfl)) s).trans (fun _ _ _ _ _ => Hears.trans)
      (fun _ _ _ _ _ _ => trivial) (.of_made (fun _ _ s => refl s) rfl)
  workspaces := refl _
  tasks _ _ htk := .inl htk
  services_makes := makes_update n _
  workspaces_makes := rfl

lemma Sound.replace (h : o.Sound) {session : Session} {p : String → Bool} (hvd : session.Valid)
    (hlat : Session.Later o.session session)
    (hp : ∀ id ∈ o.workspaces.keys, session.Current id ∨ p id = true)
    (hk : ∀ id, session.Current id → p id = false) :
    Passes s R o { o with session, workspaces := o.workspaces.dismiss p Service.close } where
  sound :=
    { session := hvd
      services := h.services
      issued := fun id hid => hlat.issued id (h.issued id hid)
      served := fun id hcur hid => h.served id (hlat.current (h.issued id hid) hcur) hid
      stopped := h.stopped
      workspaces := h.workspaces.replace hlat hp hk }
  grows :=
    { session := hlat
      services := fun _ _ hid => hid
      workspaces := fun n id hid => by
        rw [IsFor, makes_dismiss]
        exact hid
      keys := fun _ _ _ _ hkey => .inl hkey }
  services := .of_made (fun _ _ s => refl s) rfl
  workspaces := dismiss o.workspaces p
  tasks _ _ htk := .inl htk
  services_makes := rfl
  workspaces_makes := makes_dismiss p _

end Owner

end Morphir.Authority
