import Morphir.Host.SessionObject
import Morphir.Host.SessionProtocol

/-!
# Interleavings of the operations of a session

One exchange at a time holds the mutex, and only the one that holds it sends.  The
report is read before a wait and written after it, so it is written once exactly
while no two operations that can still write it are in flight.
-/

namespace Morphir.Host.Driver

open Turns List Option

namespace World

def Next (world world' : World) : Prop := ∃ label, world.step label = some world'

def Running (world : World) (id : Nat) : Prop :=
  ∃ exchange position, world.tasks id = some (.running exchange position)

end World

def Task.Runs : Task → Prop
  | .running _ _ => True
  | _ => False

def Task.Writes : Task → Prop
  | .running _ .cleaning => False
  | .running _ _ | .cancelling => True
  | _ => False

def Task.Ends : Task → Prop
  | .running _ (.stopping _ _ _) | .running _ (.aborting _) | .cancelling => True
  | _ => False

def Task.Reports : Task → SessionReport → Prop
  | .returned (.report report), report' | .returned (.ended report), report' => report = report'
  | _, _ => False

def Task.Quiet : Task → Prop
  | .waiting | .cancelling | .returned .nothing | .returned (.raised _) => True
  | _ => False

namespace World

def Writes (world : World) (id : Nat) : Prop := ∃ task, world.tasks id = some task ∧ task.Writes

def Returned (world : World) (id : Nat) (report : SessionReport) : Prop :=
  ∃ task, world.tasks id = some task ∧ task.Reports report

/-- No two operations that can still write the report are in flight. -/
def Apart (world : World) : Prop :=
  world.session.report = none → ∀ i j, world.Writes i → world.Writes j → i = j

/-- The mutex is held by `holder`, whose turn is the one that is open. -/
structure Keeps (world : World) (holder : Option Nat) : Prop where
  running : ∀ id, world.Running id ↔ holder = some id
  busy : world.session.busy = holder.isSome
  exclusive : Exclusive world.history holder
  fresh : ∀ id, world.tasks id = none → .began id ∉ world.history
  quiet : ∀ id task, world.tasks id = some task → task.Quiet → .began id ∉ world.history

structure Turn (world : World) (id : Nat) : Prop where
  running : ∀ id', id' ≠ id → ¬ world.Running id'
  busy : world.session.busy = true
  exclusive : Exclusive world.history (some id)
  fresh : ∀ id', id' ≠ id → world.tasks id' = none → .began id' ∉ world.history
  quiet : ∀ id' task, id' ≠ id → world.tasks id' = some task → task.Quiet →
    .began id' ∉ world.history

variable {world world' : World} {id : Nat} {holder : Option Nat}

@[simp] lemma put_tasks_self (task : Task) : (world.put id task).tasks id = some task :=
  Function.update_self ..

variable {id' : Nat}

lemma put_tasks_of_ne (hne : id' ≠ id) (task : Task) :
    (world.put id task).tasks id' = world.tasks id' :=
  Function.update_of_ne hne ..

lemma put_tasks_some {task' : Task} (h : (world.put id task).tasks id' = some task') :
    (id' = id ∧ task' = task) ∨ (id' ≠ id ∧ world.tasks id' = some task') := by
  by_cases hne : id' = id
  · subst hne
    rw [put_tasks_self, some.injEq] at h
    exact .inl ⟨rfl, h.symm⟩
  · rw [put_tasks_of_ne hne] at h
    exact .inr ⟨hne, h⟩

variable {task : Task}

lemma put_tasks_none (h : (world.put id task).tasks id' = none) :
    id' ≠ id ∧ world.tasks id' = none := by
  by_cases hne : id' = id
  · subst hne
    simp at h
  · rw [put_tasks_of_ne hne] at h
    exact ⟨hne, h⟩

lemma Keeps.turn (h : world.Keeps (some id)) : world.Turn id where
  running id' hne hrun := hne (some.inj ((h.running id').mp hrun)).symm
  busy := h.busy
  exclusive := h.exclusive
  fresh id' _ := h.fresh id'
  quiet id' task _ := h.quiet id' task

lemma Keeps.start (h : world.Keeps none) (id : Nat) : (world.start id).Turn id where
  running id' _ hrun := absurd ((h.running id').mp hrun) (by simp)
  busy := rfl
  exclusive := h.exclusive.began id
  fresh id' hne hno hmem := by
    rcases mem_append.mp hmem with hmem | hmem
    · exact h.fresh id' hno hmem
    · exact hne (Happening.began.inj (mem_singleton.mp hmem))
  quiet id' task hne htk hq hmem := by
    rcases mem_append.mp hmem with hmem | hmem
    · exact h.quiet id' task htk hq hmem
    · exact hne (Happening.began.inj (mem_singleton.mp hmem))

namespace Turn

section

variable (h : world.Turn id)

include h

lemma converse (conversation : Conversation) : (world.converse conversation).Turn id :=
  ⟨h.running, h.busy, h.exclusive, h.fresh, h.quiet⟩

lemma finish (worker : WorkerStop) (ending : Option Ending) :
    (world.finish worker ending).Turn id :=
  ⟨h.running, h.busy, h.exclusive, h.fresh, h.quiet⟩

lemma acted (message : Message) :
    (world.record (.acted id message)).Turn id where
  running := h.running
  busy := h.busy
  exclusive := h.exclusive.acted message
  fresh id' hne hno hmem := h.fresh id' hne hno ((mem_append.mp hmem).resolve_right (by simp))
  quiet id' task hne htk hq hmem :=
    h.quiet id' task hne htk hq ((mem_append.mp hmem).resolve_right (by simp))

lemma put (exchange : Exchange) (position : Position) :
    (world.put id (.running exchange position)).Keeps (some id) where
  running id' := by
    constructor
    · rintro ⟨exchange', position', htk⟩
      rcases put_tasks_some htk with ⟨rfl, -⟩ | ⟨hne, htk⟩
      · rfl
      · exact absurd ⟨exchange', position', htk⟩ (h.running id' hne)
    · intro hso
      cases hso
      exact ⟨exchange, position, put_tasks_self _⟩
  busy := h.busy
  exclusive := h.exclusive
  fresh id' hno := by
    obtain ⟨hne, hno⟩ := put_tasks_none hno
    exact h.fresh id' hne hno
  quiet id' task htk hq := by
    rcases put_tasks_some htk with ⟨rfl, rfl⟩ | ⟨hne, htk⟩
    · exact hq.elim
    · exact h.quiet id' task hne htk hq

lemma release {result : Result} (hres : ¬ (Task.returned result).Quiet) :
    (world.release id result).Keeps none where
  running id' := by
    refine iff_of_false ?_ (by simp)
    rintro ⟨exchange, position, htk⟩
    rcases put_tasks_some htk with ⟨-, hret⟩ | ⟨hne, htk⟩
    · cases hret
    · exact h.running id' hne ⟨exchange, position, htk⟩
  busy := rfl
  exclusive := h.exclusive.ended
  fresh id' hno hmem := by
    obtain ⟨hne, hno⟩ := put_tasks_none hno
    exact h.fresh id' hne hno ((mem_append.mp hmem).resolve_right (by simp))
  quiet id' task htk hq hmem := by
    rcases put_tasks_some htk with ⟨rfl, rfl⟩ | ⟨hne, htk⟩
    · exact hres hq
    · exact h.quiet id' task hne htk hq ((mem_append.mp hmem).resolve_right (by simp))

lemma resume (exchange : Exchange) (driven : Driven) :
    ∃ holder, (world.resume id exchange driven).Keeps holder := by
  cases driven with
  | suspended position => exact ⟨some id, h.put exchange position⟩
  | paused conversation step =>
    have hturn := h.converse conversation
    cases exchange with
    | close => exact ⟨some id, hturn.put _ _⟩
    | call call =>
      cases step with
      | answered sends answer => exact ⟨none, hturn.release fun hq => hq⟩
      | exchange | activated | finished => exact ⟨some id, hturn.put _ _⟩

lemma conclude (exchange : Exchange) (worker : WorkerStop) (ending : Option Ending) :
    (world.conclude id exchange worker ending).Keeps none := by
  refine (h.finish worker ending).release ?_
  cases exchange <;> exact fun hq => hq

end

end Turn

section

variable (h : world.Keeps holder)

include h

lemma Keeps.put (hpre : ∀ before, world.tasks id = some before → before.Quiet) (htk : ¬ task.Runs) :
    (world.put id task).Keeps holder where
  running id' := by
    rw [← h.running id']
    constructor
    · rintro ⟨exchange, position, hrun⟩
      rcases put_tasks_some hrun with ⟨-, heq⟩ | ⟨-, hrun⟩
      · exact absurd (heq ▸ trivial) htk
      · exact ⟨exchange, position, hrun⟩
    · rintro ⟨exchange, position, hrun⟩
      refine ⟨exchange, position, (put_tasks_of_ne ?_ task).trans hrun⟩
      rintro rfl
      exact (hpre _ hrun).elim
  busy := h.busy
  exclusive := h.exclusive
  fresh id' hno := h.fresh id' (put_tasks_none hno).2
  quiet id' task' htk' hq := by
    rcases put_tasks_some htk' with ⟨rfl, -⟩ | ⟨-, htk'⟩
    · cases hpre' : world.tasks id' with
      | none => exact h.fresh id' hpre'
      | some before => exact h.quiet id' before hpre' (hpre before hpre')
    · exact h.quiet id' task' htk' hq

section

variable (hbusy : ¬ world.session.busy = true)

include hbusy

lemma Keeps.free : world.Keeps none := by
  cases holder with
  | none => exact h
  | some id => exact absurd h.busy hbusy

lemma Keeps.take (id : Nat) (exchange : Exchange) (driven : Driven) :
    ∃ holder', ((world.start id).resume id exchange driven).Keeps holder' :=
  ((h.free hbusy).start id).resume exchange driven

omit hbusy in
lemma Keeps.begin (hno : world.tasks id = none) (invocation : Invocation) :
    ∃ holder', (world.begin id invocation).Keeps holder' := by
  have hput (task : Task) (htk : ¬ task.Runs) : ∃ holder', (world.put id task).Keeps holder' :=
    ⟨holder, h.put (fun before hpre => absurd (hno.symm.trans hpre) (by simp)) htk⟩
  rcases invocation with ⟨call | _⟩ | _
  · simp only [World.begin]
    split
    · apply hput
      exact not_false
    · split
      · apply hput
        exact not_false
      · rename_i hbusy
        split
        · apply hput
          exact not_false
        · apply h.take hbusy
  · exact hput .waiting not_false
  · simp only [World.begin]
    split
    · apply hput
      exact not_false
    · apply hput
      exact not_false

lemma Keeps.acquired (hwai : world.tasks id = some .waiting) :
    ∃ holder', (world.acquired id).Keeps holder' := by
  have hq (before : Task) (hpre : world.tasks id = some before) : before.Quiet := by
    obtain rfl := some.inj (hwai.symm.trans hpre)
    trivial
  unfold World.acquired
  split
  · exact ⟨holder, h.put hq not_false⟩
  · split
    · exact ⟨some id, ((h.free hbusy).start id).put _ _⟩
    · apply h.take hbusy

end

lemma Keeps.turn_of_running {exchange : Exchange} {position : Position}
    (htk : world.tasks id = some (.running exchange position)) : world.Turn id := by
  have hhol := (h.running id).mp ⟨exchange, position, htk⟩
  exact (hhol ▸ h).turn

lemma Keeps.stopped {worker : WorkerStop} (htk : world.tasks id = some task)
    (hstp : world.stopped id worker task = some world') : ∃ holder', world'.Keeps holder' := by
  unfold World.stopped at hstp
  split at hstp
  · cases hstp
    exact ⟨none, ((h.turn_of_running htk).converse _).conclude _ _ _⟩
  · cases hstp
    exact ⟨none, (h.turn_of_running htk).conclude _ _ _⟩
  · cases hstp
    exact ⟨none, (h.turn_of_running htk).release not_false⟩
  · cases hstp
    have hfin : (world.finish worker (some .cancelled)).Keeps holder :=
      ⟨h.running, h.busy, h.exclusive, h.fresh, h.quiet⟩
    refine ⟨holder, hfin.put (fun before hpre => ?_) not_false⟩
    obtain rfl := some.inj (htk.symm.trans hpre)
    trivial
  · cases hstp

lemma Keeps.cancelTask (htk : world.tasks id = some task)
    (hccl : world.cancelTask id task = some world') : ∃ holder', world'.Keeps holder' := by
  unfold World.cancelTask at hccl
  split at hccl
  · cases hccl
    refine ⟨holder, h.put (fun before hpre => ?_) not_false⟩
    obtain rfl := some.inj (htk.symm.trans hpre)
    trivial
  · cases hccl
  · cases hccl
    exact ⟨none, (h.turn_of_running htk).release not_false⟩
  · cases hccl
    exact ⟨some id, (h.turn_of_running htk).put _ _⟩
  · cases hccl

end

variable {label : Label}

lemma Keeps.act (h : world.Keeps holder) (htk : world.tasks id = some task)
    (hact : world.act label id task = some world') : ∃ holder', world'.Keeps holder' := by
  unfold World.act at hact
  split at hact
  · split at hact
    · cases hact
    · rename_i hbusy
      cases hact
      exact h.acquired hbusy htk
  · split at hact
    · cases hact
      exact (h.turn_of_running htk).resume _ _
    · cases hact
  · cases hact
    exact ⟨some id, ((h.turn_of_running htk).acted _).put _ _⟩
  · cases hact
    exact (h.turn_of_running htk).resume _ _
  · cases hact
    exact (h.turn_of_running htk).resume _ _
  · cases hact
    exact (h.turn_of_running htk).resume _ _
  · exact h.stopped htk hact
  · exact h.cancelTask htk hact
  · cases hact

lemma Keeps.step (h : world.Keeps holder) (hs : world.step label = some world') :
    ∃ holder', world'.Keeps holder' := by
  unfold World.step at hs
  split at hs
  · rename_i id invocation hno
    cases hs
    exact h.begin hno invocation
  · rename_i task _ htk
    exact h.act htk hs
  · cases hs

structure Same (world world' : World) (id : Nat) (task : Task) : Prop where
  tasks : world'.tasks = Function.update world.tasks id (some task)
  report : world'.session.report = world.session.report
  written : world'.written = world.written

inductive Effect (world : World) (id : Nat) (world' : World) : Prop
  | same (task : Task) (h : Same world world' id task)
      (hwrites : task.Writes → world.session.report = none ∨ world.Writes id)
      (hreports : ∀ report, task.Reports report → world.session.report = some report)
  | wrote (task : Task) (report : SessionReport) (hwrites : world.Writes id)
      (htasks : world'.tasks = Function.update world.tasks id (some task))
      (hreport : world'.session.report = some report)
      (hwritten : world'.written = world.written ++ [report])
      (htask : ¬ task.Writes) (hreports : ∀ report', task.Reports report' → report = report')

lemma resume_same (world : World) (id : Nat) (exchange : Exchange) (driven : Driven) :
    ∃ task, Same world (world.resume id exchange driven) id task ∧
      ∀ report, ¬ task.Reports report := by
  cases driven with
  | suspended position => exact ⟨_, ⟨rfl, rfl, rfl⟩, fun _ => not_false⟩
  | paused conversation step =>
    cases exchange with
    | close => exact ⟨_, ⟨rfl, rfl, rfl⟩, fun _ => not_false⟩
    | call call => cases step <;> exact ⟨_, ⟨rfl, rfl, rfl⟩, fun _ => not_false⟩

lemma effect_resume (hws : world.Writes id) (exchange : Exchange) (driven : Driven) :
    Effect world id (world.resume id exchange driven) := by
  obtain ⟨task, hsm, hrep⟩ := resume_same world id exchange driven
  exact .same task hsm (fun _ => .inr hws) fun report h => absurd h (hrep report)

lemma effect_start (hno : world.session.report = none) (exchange : Exchange) (driven : Driven) :
    Effect world id ((world.start id).resume id exchange driven) := by
  obtain ⟨task, ⟨hts, hrpt, hwtn⟩, hrep⟩ := resume_same (world.start id) id exchange driven
  exact .same task ⟨hts, hrpt, hwtn⟩ (fun _ => .inl hno)
    fun report h => absurd h (hrep report)

lemma effect_conclude (hws : world.Writes id) (conversation : Conversation) (exchange : Exchange)
    (worker : WorkerStop) (ending : Option Ending) :
    Effect world id ((world.converse conversation).conclude id exchange worker ending) := by
  cases exchange with
  | call call => exact .wrote _ _ hws rfl rfl rfl not_false fun _ => False.elim
  | close => exact .wrote _ _ hws rfl rfl rfl not_false fun _ h => h

lemma effect_begin (world : World) (id : Nat) (invocation : Invocation) :
    Effect world id (world.begin id invocation) := by
  have hput (task : Task) (htk : task.Writes → world.session.report = none)
      (hrep : ∀ report, ¬ task.Reports report) : Effect world id (world.put id task) :=
    .same task ⟨rfl, rfl, rfl⟩ (fun hws => .inl (htk hws))
      fun report h => absurd h (hrep report)
  rcases invocation with ⟨call | _⟩ | _
  · simp only [World.begin]
    split
    · exact hput _ False.elim fun _ => not_false
    · rename_i hrpt
      split
      · exact hput _ False.elim fun _ => not_false
      · split
        · exact hput _ False.elim fun _ => not_false
        · apply effect_start
          simpa using hrpt
  · exact hput .waiting False.elim fun _ => not_false
  · simp only [World.begin]
    split
    · exact hput _ False.elim fun _ => not_false
    · rename_i hrpt
      exact hput _ (fun _ => by simpa using hrpt) fun _ => not_false

lemma effect_acquired (world : World) (id : Nat) : Effect world id (world.acquired id) := by
  unfold acquired
  split
  · rename_i report hrpt
    refine .same _ ⟨rfl, rfl, rfl⟩ False.elim fun report' h => ?_
    rw [hrpt, h]
  · rename_i hno
    split
    · exact .same _ ⟨rfl, rfl, rfl⟩ (fun _ => .inl hno) fun _ => False.elim
    · exact effect_start hno _ _

lemma effect_release {result : Result} (hrep : ∀ report, ¬ (Task.returned result).Reports report)
    : Effect world id (world.release id result) :=
  .same _ ⟨rfl, rfl, rfl⟩ False.elim fun report h => absurd h (hrep report)

lemma effect_stopped {worker : WorkerStop} (htk : world.tasks id = some task)
    (hstp : world.stopped id worker task = some world') : Effect world id world' := by
  unfold stopped at hstp
  split at hstp
  · cases hstp
    exact effect_conclude ⟨_, htk, trivial⟩ _ _ _ _
  · cases hstp
    exact effect_conclude ⟨_, htk, trivial⟩ world.session.conversation _ _ _
  · cases hstp
    exact effect_release fun _ => not_false
  · cases hstp
    exact .wrote _ _ ⟨_, htk, trivial⟩ rfl rfl rfl not_false fun _ h => h
  · cases hstp

lemma effect_cancelTask (hccl : world.cancelTask id task = some world') :
    Effect world id world' := by
  unfold cancelTask at hccl
  split at hccl
  · cases hccl
    exact .same _ ⟨rfl, rfl, rfl⟩ False.elim fun _ => False.elim
  · cases hccl
  · cases hccl
    exact effect_release fun _ => not_false
  · cases hccl
    exact .same _ ⟨rfl, rfl, rfl⟩ False.elim fun _ => False.elim
  · cases hccl

lemma effect_act (htk : world.tasks id = some task) (hact : world.act label id task = some world')
    : Effect world id world' := by
  unfold act at hact
  split at hact
  · split at hact
    · cases hact
    · cases hact
      exact effect_acquired world id
  · split at hact
    · cases hact
      exact effect_resume ⟨_, htk, trivial⟩ _ _
    · cases hact
  · cases hact
    exact .same _ ⟨rfl, rfl, rfl⟩ (fun _ => .inr ⟨_, htk, trivial⟩) fun _ => False.elim
  · cases hact
    exact effect_resume ⟨_, htk, trivial⟩ _ _
  · cases hact
    exact effect_resume ⟨_, htk, trivial⟩ _ _
  · cases hact
    exact effect_resume ⟨_, htk, trivial⟩ _ _
  · exact effect_stopped htk hact
  · exact effect_cancelTask hact
  · cases hact

lemma effect_step (hs : world.step label = some world') : ∃ id, Effect world id world' := by
  unfold step at hs
  split at hs
  · cases hs
    exact ⟨_, effect_begin world _ _⟩
  · rename_i task _ htk
    exact ⟨_, effect_act htk hs⟩
  · cases hs

/-- The report is written once, and no operation that can still write it is left. -/
structure Once (world : World) : Prop where
  written : world.written = world.session.report.toList
  apart : world.Apart
  settled : ∀ report, world.session.report = some report → ∀ id, ¬ world.Writes id
  returned : ∀ id report, world.Returned id report → world.session.report = some report

lemma task_cases {task' : Task} (hts : world'.tasks = Function.update world.tasks id (some task))
    (h : world'.tasks id' = some task') :
    (id' = id ∧ task' = task) ∨ (id' ≠ id ∧ world.tasks id' = some task') := by
  rw [hts] at h
  exact put_tasks_some h

lemma Once.effect (h : world.Once) (heff : Effect world id world') (hap : world'.Apart) :
    world'.Once := by
  cases heff with
  | same task hsm hws hrep =>
    obtain ⟨hts, hrpt, hwtn⟩ := hsm
    refine ⟨by rw [hwtn, hrpt, h.written], hap, fun report hso id' hwri => ?_,
      fun id' report hret => ?_⟩
    · rw [hrpt] at hso
      obtain ⟨task', htk', hws'⟩ := hwri
      rcases task_cases hts htk' with ⟨-, rfl⟩ | ⟨-, htk'⟩
      · rcases hws hws' with hno | hpre
        · rw [hno] at hso
          cases hso
        · exact h.settled report hso id hpre
      · exact h.settled report hso id' ⟨task', htk', hws'⟩
    · obtain ⟨task', htk', hrep'⟩ := hret
      rw [hrpt]
      rcases task_cases hts htk' with ⟨-, rfl⟩ | ⟨-, htk'⟩
      · exact hrep report hrep'
      · exact h.returned id' report ⟨task', htk', hrep'⟩
  | wrote task report hws hts hrpt hwtn htk hrep =>
    have hno : world.session.report = none := by
      cases hpre : world.session.report with
      | none => rfl
      | some before => exact absurd hws (h.settled before hpre id)
    refine ⟨by rw [hwtn, hrpt, h.written, hno]; rfl, hap,
      fun report' hso id' hwri => ?_, fun id' report' hret => ?_⟩
    · obtain ⟨task', htk', hws'⟩ := hwri
      rcases task_cases hts htk' with ⟨-, rfl⟩ | ⟨hne, htk'⟩
      · exact htk hws'
      · exact hne (h.apart hno id' id ⟨task', htk', hws'⟩ hws)
    · obtain ⟨task', htk', hrep'⟩ := hret
      rcases task_cases hts htk' with ⟨-, rfl⟩ | ⟨-, htk'⟩
      · rw [hrpt, hrep report' hrep']
      · have hso := h.returned id' report' ⟨task', htk', hrep'⟩
        rw [hno] at hso
        cases hso

lemma step_of_task (htk : world.tasks label.id = some task) :
    world.step label = world.act label label.id task := by
  simp only [step, htk]

def stoppedFor (reason : StopReason) : WorkerStop := ⟨.terminated reason, .groupSignal, .empty⟩

lemma interrupt_stopRequested (conversation : Conversation) (step : Step) :
    ∃ next plan conclusion, interrupt conversation step .stopRequested =
      .suspended (.stopping next plan conclusion) := by
  cases step <;> exact ⟨_, _, _, rfl⟩

def Elsewhere (world world' : World) (id : Nat) : Prop :=
  ∀ id', id' ≠ id → world'.tasks id' = world.tasks id'

lemma elsewhere_put (world : World) (id : Nat) (task : Task) :
    Elsewhere world (world.put id task) id :=
  fun _ hne => put_tasks_of_ne hne task

lemma next_ends (hws : world.Writes id) :
    ∃ world', Relation.ReflTransGen Next world world' ∧ Elsewhere world world' id ∧
      world'.written = world.written ∧ ∃ task, world'.tasks id = some task ∧ task.Ends := by
  have hsp (label : Label) (exchange : Exchange) (position : Position)
      (conversation : Conversation) (step : Step) (hid : label.id = id)
      (htk : world.tasks id = some (.running exchange position))
      (hact : world.act label id (.running exchange position) =
        some (world.resume id exchange (interrupt conversation step .stopRequested))) :
      ∃ world', Relation.ReflTransGen Next world world' ∧ Elsewhere world world' id ∧
        world'.written = world.written ∧ ∃ task, world'.tasks id = some task ∧ task.Ends := by
    obtain ⟨next, plan, conclusion, hinterrupt⟩ := interrupt_stopRequested conversation step
    rw [hinterrupt] at hact
    refine ⟨_, .single ⟨label, ?_⟩, elsewhere_put world id _, rfl,
      .running exchange (.stopping next plan conclusion), put_tasks_self _, trivial⟩
    rw [step_of_task (hid.symm ▸ htk), hid]
    exact hact
  have hstay (task : Task) (htk : world.tasks id = some task) (hends : task.Ends) :
      ∃ world', Relation.ReflTransGen Next world world' ∧ Elsewhere world world' id ∧
        world'.written = world.written ∧ ∃ task, world'.tasks id = some task ∧ task.Ends :=
    ⟨world, .refl, fun _ _ => rfl, rfl, task, htk, hends⟩
  obtain ⟨task, htk, hws⟩ := hws
  cases task with
  | waiting | returned result => exact hws.elim
  | cancelling => exact hstay _ htk trivial
  | running exchange position =>
    cases position with
    | sending conversation step message rest =>
      exact hsp (.interrupt id .stopRequested) _ _ conversation step rfl htk rfl
    | transmitting conversation step rest =>
      exact hsp (.sendFailed id .stopRequested) _ _ conversation step rfl htk rfl
    | receiving conversation =>
      exact hsp (.event id .stopRequested) _ _ conversation (.exchange [] 0) rfl htk rfl
    | stopping conversation plan conclusion => exact hstay _ htk trivial
    | aborting ending => exact hstay _ htk trivial
    | cleaning => exact hws.elim

lemma next_writes (hws : world.Writes id) :
    ∃ world', Relation.ReflTransGen Next world world' ∧ Elsewhere world world' id ∧
      world'.written.length = world.written.length + 1 := by
  obtain ⟨world', hrch, hels, hwtn, task, htk, hends⟩ := next_ends hws
  have hs : world'.step (.stopped id (stoppedFor .cancelled)) =
      world'.stopped id (stoppedFor .cancelled) task := step_of_task htk
  have hwrote (last : World)
      (hstp : world'.stopped id (stoppedFor .cancelled) task = some last)
      (hl : Elsewhere world' last id) (hone : last.written.length = world'.written.length + 1) :
      ∃ last, Relation.ReflTransGen Next world last ∧ Elsewhere world last id ∧
        last.written.length = world.written.length + 1 :=
    ⟨last, hrch.tail ⟨_, hs.trans hstp⟩,
      fun id' hne => (hl id' hne).trans (hels id' hne), by rw [hone, hwtn]⟩
  cases task with
  | waiting | returned result => exact hends.elim
  | cancelling => exact hwrote _ rfl (elsewhere_put world' id _) (length_append ..)
  | running exchange position =>
    cases position with
    | sending | transmitting | receiving | cleaning => exact hends.elim
    | stopping conversation plan conclusion | aborting ending =>
      exact hwrote _ rfl (elsewhere_put world' id _) (length_append ..)

lemma next_writes_twice (hap : ¬ world.Apart) :
    ∃ world', Relation.ReflTransGen Next world world' ∧ 2 ≤ world'.written.length := by
  simp only [Apart, not_forall] at hap
  obtain ⟨-, i, j, hi, hj, hne⟩ := hap
  obtain ⟨middle, hrch, hels, hlen⟩ := next_writes hi
  obtain ⟨task, htk, hws⟩ := hj
  have hj' : middle.Writes j := ⟨task, (hels j (Ne.symm hne)).trans htk, hws⟩
  obtain ⟨last, hrch', -, hlen'⟩ := next_writes hj'
  exact ⟨last, hrch.trans hrch', by omega⟩

def activated (conversation : Conversation) (extism : Option ExtismProfile)
    (bounds : Option EnforcedBounds) : World :=
  ⟨.activated conversation extism bounds, fun _ => none, [], []⟩

/-- One world follows another, and no two operations can write the report in it. -/
def NextApart (world world' : World) : Prop := world.Next world' ∧ world'.Apart

lemma keeps_activated (conversation : Conversation) (extism : Option ExtismProfile)
    (bounds : Option EnforcedBounds) : (activated conversation extism bounds).Keeps none where
  running id := iff_of_false (by simp [Running, activated]) (by simp)
  busy := rfl
  exclusive := .nil
  fresh id _ := not_mem_nil
  quiet id _ htk := by simp [activated] at htk

lemma once_activated (conversation : Conversation) (extism : Option ExtismProfile)
    (bounds : Option EnforcedBounds) : (activated conversation extism bounds).Once where
  written := rfl
  apart _ i _ hi := by simp [Writes, activated] at hi
  settled report hrpt := by simp [activated, Session.activated] at hrpt
  returned id _ hret := by simp [Returned, activated] at hret

variable {conversation : Conversation} {extism : Option ExtismProfile}
  {bounds : Option EnforcedBounds}

lemma reached_keeps (h : Relation.ReflTransGen Next (activated conversation extism bounds) world)
    : ∃ holder, world.Keeps holder := by
  induction h with
  | refl => exact ⟨none, keeps_activated conversation extism bounds⟩
  | tail _ hnx ih =>
    obtain ⟨holder, hkeeps⟩ := ih
    obtain ⟨label, hs⟩ := hnx
    exact hkeeps.step hs

lemma reached_once
    (h : Relation.ReflTransGen NextApart (activated conversation extism bounds) world) :
    world.Once := by
  induction h with
  | refl => exact once_activated conversation extism bounds
  | tail _ hnx ih =>
    obtain ⟨⟨label, hs⟩, hap⟩ := hnx
    obtain ⟨id, heff⟩ := effect_step hs
    exact ih.effect heff hap

/-- In every interleaving at most one exchange is in flight, a call that overlaps
one raises and never sends, and between the beginning of an exchange and a message
of another operation the exchange ends.  While no two operations in flight can
write the report, it is written once and all that is returned is this report;
otherwise it may be written twice. -/
theorem reached_exclusive
    (h : Relation.ReflTransGen Next (activated conversation extism bounds) world) :
    (∀ i j, world.Running i → world.Running j → i = j) ∧
    (∀ id call, world.tasks id = none → (∃ j, world.Running j) →
      ∃ error, world.step (.begin id (.exchange (.call call))) =
        some (world.put id (.returned (.raised error)))) ∧
    (∀ id error message, world.tasks id = some (.returned (.raised error)) →
      .acted id message ∉ world.history) ∧
    (∀ before between after i j message,
      world.history = before ++ .began i :: between ++ .acted j message :: after → i ≠ j →
        .ended i ∈ between) ∧
    (Relation.ReflTransGen NextApart (activated conversation extism bounds) world →
      world.written = world.session.report.toList ∧
        ∀ id report, world.Returned id report → world.session.report = some report) ∧
    (¬ world.Apart →
      ∃ world', Relation.ReflTransGen Next world world' ∧ 2 ≤ world'.written.length) := by
  obtain ⟨holder, hkeeps⟩ := reached_keeps h
  refine ⟨fun i j hi hj => ?_, fun id call hno hrun => ?_,
    fun id error message hrai hmem => ?_, fun before between after i j message hhist hne => ?_,
    fun hap => ?_, next_writes_twice⟩
  · exact some.inj (((hkeeps.running i).mp hi).symm.trans ((hkeeps.running j).mp hj))
  · obtain ⟨j, hj⟩ := hrun
    have hbusy : world.session.busy = true := by
      rw [hkeeps.busy, (hkeeps.running j).mp hj, isSome_some]
    have hs : world.step (.begin id (.exchange (.call call))) =
        some (world.begin id (.exchange (.call call))) := by
      simp only [step, Label.id, hno]
    rw [hs, begin]
    split
    · exact ⟨_, rfl⟩
    · exact ⟨_, rfl⟩
  · exact hkeeps.quiet id _ hrai trivial (hkeeps.exclusive.began_of_acted.1 id message hmem)
  · exact (hhist ▸ hkeeps.exclusive).ended_between hne
  · have honce := reached_once hap
    exact ⟨honce.written, honce.returned⟩

def run (world : World) : List Label → Option World
  | [] => some world
  | label :: labels => (world.step label).bind fun next => next.run labels

lemma reached_of_run {labels : List Label} (h : world.run labels = some world') :
    Relation.ReflTransGen Next world world' := by
  induction labels generalizing world with
  | nil =>
    cases h
    exact .refl
  | cons label labels ih =>
    obtain ⟨next, hs, hrun⟩ := bind_eq_some_iff.mp h
    exact .head ⟨label, hs⟩ (ih hrun)

def legacyReady : Conversation :=
  { phase := .ready, pending := 0, nextId := 2, answered := [1], limits := .host
    expected := some elmClaims, negotiated := some ⟨.legacy, none, .host⟩ }

theorem reached_exclusive_close :
    ∃ world, Relation.ReflTransGen Next (activated legacyReady none none) world ∧
      world.Running 0 ∧ ∃ error, world.step (.begin 1 (.exchange (.call ⟨.compileCall, []⟩))) =
        some (world.put 1 (.returned (.raised error))) := by
  have hrun : ∃ world, (activated legacyReady none none).run
      [.begin 0 (.exchange .close), .acquire 0, .send 0] = some world ∧ world.Running 0 ∧
        world.tasks 1 = none := ⟨_, rfl, ⟨_, _, rfl⟩, rfl⟩
  obtain ⟨world, hworld, hrunning, hno⟩ := hrun
  have hrea := reached_of_run hworld
  exact ⟨world, hrea, hrunning, (reached_exclusive hrea).2.1 1 ⟨.compileCall, []⟩ hno ⟨0, hrunning⟩⟩

/-- A cancel that runs while a close waits for the worker to stop writes another
report than the one that the close has returned. -/
theorem not_reached_once :
    ¬ ∀ (conversation : Conversation) (world : World),
      Relation.ReflTransGen Next (activated conversation none none) world →
        world.written.length ≤ 1 ∧ ∀ i j report report', world.Returned i report →
          world.Returned j report' → report = report' := by
  intro h
  have hrun : ∃ world, (activated legacyReady none none).run
      [.begin 0 (.exchange .close), .acquire 0, .interrupt 0 .deadlinePassed, .begin 1 .cancel,
        .stopped 0 (stoppedFor .deadline), .stopped 1 (stoppedFor .deadline),
        .begin 2 (.exchange .close), .acquire 2] = some world ∧
      world.tasks 0 = some (.returned (.report
        ⟨some ⟨.legacy, none, .host⟩, .host, none, none, some (stoppedFor .deadline),
          some .deadline⟩)) ∧
      world.tasks 2 = some (.returned (.report
        ⟨some ⟨.legacy, none, .host⟩, .host, none, none, some (stoppedFor .deadline),
          some .cancelled⟩)) :=
    ⟨_, rfl, rfl, rfl⟩
  obtain ⟨world, hworld, hfst, hsnd⟩ := hrun
  have hsm := (h legacyReady world (reached_of_run hworld)).2 0 2 _ _ ⟨_, hfst, rfl⟩
    ⟨_, hsnd, rfl⟩
  simp at hsm

end World

end Morphir.Host.Driver
