import Morphir.Authority.FileOwnerRuns
import Morphir.Authority.OwnerRuns

/-!
# Authority over native services

Whatever the pages request, and in whatever order pickers, executions and shutdowns end, what
is granted, replied and made is the current session's.
-/

namespace Morphir.Authority

open ExecutionsService Service Recording FileOwner Owner Kind.Serves
open Files (FileService Inventories Command)

variable {Root Files Edit : Type} [DecidableEq Files]

/-- A request of the calling page, whose session was current, began the task `t`. -/
def BegunIn (past : List (Entry Root Files)) (t : Nat) (task : Task) : Prop :=
  ∃ f ∈ past, f.before.Begins f.action t task

/-- The end of a picker grants the workspace `n` of a session: the session that opened the
picker is the current one of the calling page, and its ticket is current. -/
def Granted (past : List (Entry Root Files)) (e : Entry Root Files) (n : Nat) (id : String) :
    Prop :=
  ∃ t path opened host contract ticket caller w, e.action = .resume t (.path path opened) host ∧
    BegunIn past t (.choosing id contract n ticket) ∧
    host.again = some caller ∧ e.before.session.CurrentOf caller id ∧
    e.before.workspaces.made[n]? = some (id, w) ∧ w.closed = false ∧ w.chooser = some ticket

/-- An execution of a session gets a reply: the session is still the current one of the
calling page. -/
def Replied (past : List (Entry Root Files)) (e : Entry Root Files) (t : Nat) (b : Bytes) : Prop :=
  ∃ host id contract caller, e.action = .resume t (.bytes b) host ∧
    BegunIn past t (.executing id contract) ∧
    host.again = some caller ∧ e.before.session.CurrentOf caller id

/-- What holds of every entry in the life of an owner, with the entries before it. -/
structure Authorized (past : List (Entry Root Files)) (e : Entry Root Files) : Prop where
  granted : ∀ (n : Nat) id w grant, e.after.workspaces.made[n]? = some (id, w) → kind.Has w grant →
    (∃ before, e.before.workspaces.made[n]? = some (id, before) ∧ kind.Has before grant) ∨
      Granted past e n id
  replied : ∀ t b, e.answer = some (t, .execution b) → Replied past e t b
  /-- A request of a session that is not the calling page's reaches nothing. -/
  refused : ∀ frame host id, e.action = .request (.ok frame) host →
    frame.operation.sessionId? = some id →
    (¬ ∃ caller, host.caller = some caller ∧ e.before.session.CurrentOf caller id) →
    e.answer = some (e.before.nextTask, .failure .unauthorized .noEffect) ∧ e.after = e.before.count
  /-- Only their ends reach the execution services of sessions that are over. -/
  unheard : ∀ (n : Nat) id s, e.before.services.made[n]? = some (id, s) →
    ¬ e.before.session.Current id →
    ∃ t, e.after.services.made[n]? = some (id, t) ∧ Hears False s t
  untouched : ∀ (n : Nat) id w, e.before.workspaces.made[n]? = some (id, w) →
    ¬ e.before.session.Current id → e.after.workspaces.made[n]? = some (id, w)
  /-- When `session.open` succeeds, only the services of its session are kept. -/
  opened : ∀ t d, e.answer = some (t, .opened d) → e.after.Alone d.sessionId
  once : e.after.services.makes.Nodup ∧ e.after.workspaces.makes.Nodup
  /-- A service is made when the execution services of all other sessions are shut down. -/
  successors : ∀ id, ((id ∈ e.after.services.makes ∧ id ∉ e.before.services.makes) ∨
      (id ∈ e.after.workspaces.makes ∧ id ∉ e.before.workspaces.makes)) →
    ∀ (n : Nat) old s, e.after.services.made[n]? = some (old, s) → old ≠ id → s.Stopped

section

variable {executions workspace : Bool} {contract : Contract} {events : List (Event Root Files)}

abbrev lived (executions workspace : Bool) (contract : Contract)
    (events : List (Event Root Files)) : Owner Root Files :=
  Recording.final Owner.step (Owner.withServices executions workspace contract) events

lemma lived_valid : (lived executions workspace contract events).Valid :=
  final_keeps (fun _ event h => .later h (h.step event).goes)
    (valid_withServices executions workspace contract) events

lemma begun_of_task {t : Nat} {task : Task} (hid : task.sessionId? ≠ none)
    (htk : (t, task) ∈ (lived executions workspace contract events).tasks) :
    BegunIn (history executions workspace contract events) t task := by
  obtain ⟨older, e, newer, hents, hpre, haft, -⟩ :=
    exists_since (P := fun o : Owner Root Files => (t, task) ∈ o.tasks)
      (by simp [withServices]) htk
  have he : e ∈ history executions workspace contract events := by
    rw [history, hents]
    exact List.mem_append_right older List.mem_cons_self
  refine ⟨e, he, ?_⟩
  obtain ⟨hent, hvd⟩ := entry_of_mem
    (fun _ event h => .later h (h.step event).goes)
    (valid_withServices executions workspace contract) he
  rw [hent] at haft
  obtain htk | ⟨-, hbeg⟩ := (hvd.step e.action).goes.tasks t task haft
  · exact absurd htk hpre
  · exact hbeg.resolve_left hid

end

variable {id : String}

omit [DecidableEq Files] in
lemma Owner.Stepped.successors {R : Rights} {o : Owner Root Files} {r : Step Root Files}
    (h : Stepped R o r) (hid : (id ∈ r.2.services.makes ∧ id ∉ o.services.makes) ∨
      (id ∈ r.2.workspaces.makes ∧ id ∉ o.workspaces.makes)) (n : Nat) (old : String)
    (s : ExecutionsService) (hs : r.2.services.made[n]? = some (old, s)) (hne : old ≠ id) :
    s.Stopped := by
  obtain ⟨hsvcs, hws⟩ | ⟨other, halone, hsvcs, hws⟩ := h.makes
  · rw [hsvcs, hws] at hid
    rcases hid with ⟨hmem, hnot⟩ | ⟨hmem, hnot⟩ <;> exact absurd hmem hnot
  · have hsm : id = other := by
      rcases hid with ⟨hmem, hnot⟩ | ⟨hmem, hnot⟩
      · exact (hsvcs id hmem).resolve_left hnot
      · exact (hws id hmem).resolve_left hnot
    apply h.goes.sound.stopped n old s hs
    intro hkey
    exact hne ((halone.services old hkey).trans hsm.symm)

lemma Owner.step_refused (o : Owner Root Files) {frame : Frame} {host : Host Files}
    (hid : frame.operation.sessionId? = some id)
    (hstale : ¬ ∃ caller, host.caller = some caller ∧ o.session.CurrentOf caller id) :
    o.step (.request (.ok frame) host) =
      (some (o.nextTask, .failure .unauthorized .noEffect), o.count) := by
  rw [step, request]
  cases hcal : host.caller with
  | none => rfl
  | some caller =>
    rw [hid]
    dsimp only
    cases hchk : o.count.session.check caller id (some frame.contract) with
    | error _ => rfl
    | ok _ => exact absurd ⟨caller, hcal, Session.check_ok hchk⟩ hstale

lemma authorized (executions workspace : Bool) (contract : Contract)
    (events : List (Event Root Files)) (event : Event Root Files) :
    Authorized (history executions workspace contract events)
      (entry step (lived executions workspace contract events) event) := by
  have hvd : (lived executions workspace contract events).Valid := lived_valid
  have hstep := hvd.step event
  constructor
  case granted =>
    intro n id w grant hw hgr
    obtain hpre | hgra := granted_or hstep.goes.workspaces hw hgr
    · exact .inl hpre
    right
    obtain ⟨t, _, host, _, rfl, htk, other, contract, ticket, path, opened, caller, before, rfl,
      rfl, hag, hcurrentOf, hmd, hop, hcho⟩ := hgra
    obtain ⟨after, haft, -⟩ := hstep.goes.workspaces.old n other before hmd
    obtain ⟨rfl, rfl⟩ := Prod.mk.inj (Option.some.inj (haft.symm.trans hw))
    exact ⟨t, path, opened, host, contract, ticket, caller, before, rfl,
      begun_of_task (by simp [Task.sessionId?]) (OrdMap.mem_of_get? htk), hag, hcurrentOf,
      hmd, hop, hcho⟩
  case replied =>
    intro t b hrep
    obtain ⟨_, host, _, rfl, htk, id, contract, caller, rfl, rfl, hag, hcurrentOf⟩ :=
      hstep.executed t b hrep
    exact ⟨host, id, contract, caller, rfl,
      begun_of_task (by simp [Task.sessionId?]) (OrdMap.mem_of_get? htk), hag, hcurrentOf⟩
  case refused =>
    rintro frame host id rfl hid hstale
    have href := step_refused _ hid hstale
    exact ⟨congrArg Prod.fst href, congrArg Prod.snd href⟩
  case unheard =>
    intro n id s hs hover
    obtain ⟨t, ht, more, hcls, hends⟩ := hstep.goes.services.old n id s hs
    refine ⟨t, ht, more, hcls, .inr (hends.resolve_left fun hcur => hover ?_)⟩
    apply hstep.goes.grows.session.current _ hcur
    exact hvd.issued id (Roster.isFor_of_made hs).mem_makes
  case untouched =>
    intro n id w hw hover
    exact untouched hstep.goes.workspaces hvd.workspaces hw hover
  case opened => exact hstep.opened
  case once => exact ⟨hstep.goes.sound.services.once, hstep.goes.sound.workspaces.valid.once⟩
  case successors => exact fun id hid => hstep.successors hid

/-- A request of the calling page, whose session was current, opened the picker `t`. -/
def FileBegunIn (past : List (FileEntry Root Files)) (t : Nat) (task : FileTask) : Prop :=
  ∃ f ∈ past, f.before.Begins f.action t task

/-- The end of a picker grants the file service `n` of a session a folder: the session that
opened the picker is the current one of the calling page, and its ticket is current. -/
def FileGranted (past : List (FileEntry Root Files)) (e : FileEntry Root Files) (n : Nat)
    (id : String) : Prop :=
  ∃ t path opened host ticket caller w,
    e.action = .resume t (.path path opened) host ∧ FileBegunIn past t ⟨id, n, ticket⟩ ∧
    host.again = .ok caller ∧ e.before.session.CurrentOf caller id ∧
    e.before.services.made[n]? = some (id, w) ∧ w.closed = false ∧ w.picker = some ticket

/-- What holds of every entry in the life of a file owner, with the entries before it. -/
structure FileAuthorized (past : List (FileEntry Root Files)) (e : FileEntry Root Files) :
    Prop where
  granted : ∀ (n : Nat) id w grant, e.after.services.made[n]? = some (id, w) →
    (w.grant? grant).isSome →
    (∃ before, e.before.services.made[n]? = some (id, before) ∧ (before.grant? grant).isSome) ∨
      FileGranted past e n id
  /-- A request of a session that is not the calling page's reaches nothing. -/
  refused : ∀ id command host, e.action = .request (some (.bound id command)) host →
    (¬ ∃ caller, host.caller = .ok caller ∧ e.before.session.CurrentOf caller id) →
    (∃ reason, e.answer = some (e.before.nextTask, .failure reason)) ∧ e.after = e.before.count
  untouched : ∀ (n : Nat) id w, e.before.services.made[n]? = some (id, w) →
    ¬ e.before.session.Current id → e.after.services.made[n]? = some (id, w)
  described : ∀ t id, e.answer = some (t, .descriptor id) →
    e.after.session.Current id ∧ ∀ key ∈ e.after.services.keys, key = id
  once : e.after.services.makes.Nodup

section

variable {inv : Inventories Files Edit} {enabled : Bool} {events : List (FileEvent Root Files)}

abbrev fileLived (inv : Inventories Files Edit) (enabled : Bool)
    (events : List (FileEvent Root Files)) : FileOwner Root Files :=
  Recording.final (FileOwner.step inv) { enabled } events

lemma fileLived_valid : (fileLived inv enabled events).Valid inv :=
  final_keeps (fun _ event h => .later h (h.step event).goes)
    (valid_new enabled) events

lemma file_begun_of_task {t : Nat} {task : FileTask}
    (htk : (t, task) ∈ (fileLived inv enabled events).tasks) :
    FileBegunIn (fileHistory inv enabled events) t task := by
  obtain ⟨older, e, newer, hents, hpre, haft, -⟩ :=
    exists_since (P := fun o : FileOwner Root Files => (t, task) ∈ o.tasks) (by simp) htk
  have he : e ∈ fileHistory inv enabled events := by
    rw [fileHistory, hents]
    exact List.mem_append_right older List.mem_cons_self
  refine ⟨e, he, ?_⟩
  obtain ⟨hent, hvd⟩ := entry_of_mem
    (fun _ event h => .later h (h.step event).goes)
    (valid_new enabled) he
  rw [hent] at haft
  obtain htk | ⟨-, hbeg⟩ := (hvd.step e.action).goes.tasks t task haft
  · exact absurd htk hpre
  · exact hbeg

end

variable (inv : Inventories Files Edit)

lemma FileOwner.step_refused (o : FileOwner Root Files) {command : Command} {host : FileHost Files}
    (hstale : ¬ ∃ caller, host.caller = .ok caller ∧ o.session.CurrentOf caller id) :
    ∃ reason, o.step inv (.request (some (.bound id command)) host) =
      (some (o.nextTask, .failure reason), o.count) := by
  rw [step, request]
  split
  · exact ⟨_, rfl⟩
  cases hcal : host.caller with
  | error error => exact ⟨_, rfl⟩
  | ok caller =>
    dsimp only
    cases hchk : o.count.session.check caller id none with
    | error code => exact ⟨_, rfl⟩
    | ok _ => exact absurd ⟨caller, hcal, Session.check_ok hchk⟩ hstale

lemma fileAuthorized (enabled : Bool) (events : List (FileEvent Root Files))
    (event : FileEvent Root Files) :
    FileAuthorized (fileHistory inv enabled events)
      (entry (step inv) (fileLived inv enabled events) event) := by
  have hvd : (fileLived inv enabled events).Valid inv := fileLived_valid
  have hs := hvd.step event
  constructor
  case granted =>
    intro n id w grant hw hgr
    obtain hpre | hgra := granted_or hs.goes.services hw hgr
    · exact .inl hpre
    right
    obtain ⟨t, _, host, task, rfl, htk, path, opened, caller, before, rfl, rfl, hag,
      hcurrentOf, hmd, hop, hpic⟩ := hgra
    obtain ⟨after, haft, -⟩ := hs.goes.services.old task.service task.id before hmd
    obtain ⟨rfl, rfl⟩ := Prod.mk.inj (Option.some.inj (haft.symm.trans hw))
    exact ⟨t, path, opened, host, task.ticket, caller, before, rfl,
      file_begun_of_task (OrdMap.mem_of_get? htk), hag, hcurrentOf, hmd, hop, hpic⟩
  case refused =>
    rintro id command host rfl hstale
    obtain ⟨reason, href⟩ := step_refused inv _ hstale
    exact ⟨⟨reason, congrArg Prod.fst href⟩, congrArg Prod.snd href⟩
  case untouched =>
    intro n id w hw hover
    exact untouched hs.goes.services hvd.services hw hover
  case described =>
    intro t id hrep
    have hcur := hs.described t id hrep
    refine ⟨hcur, fun key hkey => ?_⟩
    exact hs.goes.sound.session.current_unique (hs.goes.sound.services.current key hkey)
      hcur
  case once => exact hs.goes.sound.services.valid.once

/-- In every life of the native owners, grants, replies and services are the current
session's. -/
theorem native_owner_authority (executions workspace : Bool) (contract : Contract)
    (events : List (Event Root Files)) (inv : Inventories Files Edit) (enabled : Bool)
    (fileEvents : List (FileEvent Root Files)) :
    (∀ past e rest, history executions workspace contract events = past ++ e :: rest →
      Authorized past e) ∧
    ∀ past e rest, fileHistory inv enabled fileEvents = past ++ e :: rest →
      FileAuthorized past e := by
  constructor
  · intro past e rest hspl
    obtain ⟨earlier, later, -, rfl, he, -⟩ := entries_split hspl
    rw [he]
    exact authorized executions workspace contract earlier e.action
  · intro past e rest hspl
    obtain ⟨earlier, later, -, rfl, he, -⟩ := entries_split hspl
    rw [he]
    exact fileAuthorized inv enabled earlier e.action

end Morphir.Authority
