import Morphir.Host.Session
import Morphir.Library.Turns

/-!
# The session that operations share

An activated worker serves one compile or generate call, then a close.  Each
operation is a task that is suspended whenever it waits for the channel, for the
mutex of the session or for the worker to stop; the tasks resume in any order, and
a task can be cancelled where it waits.  A compile, a generate and a close hold the
mutex, a cancel does not.
-/

namespace Morphir.Host.Driver

inductive StopStatus
  | exited (code : Int)
  | signalled (signal : Int)
  | terminated (reason : StopReason)
  | unconfirmed (reason : StopReason)
  deriving DecidableEq

inductive StopMethod
  | exitedAfterExit | groupSignal | jobTermination | treeTermination | threadTermination
  deriving DecidableEq

structure StderrTail where
  data : List UInt8
  dropped : Bool
  deriving DecidableEq

def StderrTail.empty : StderrTail := ⟨[], false⟩

structure WorkerStop where
  status : StopStatus
  stopMethod : StopMethod
  stderr : StderrTail
  deriving DecidableEq

structure ExtismProfile where
  memoryBytes : Int
  instructions : Int
  callMs : Int
  inputBytes : Int
  outputBytes : Int
  deriving DecidableEq

inductive BoundGap
  | noInstructionMetering | noCallInterruption | noMemoryCeiling
  deriving DecidableEq

inductive Enforcement
  | enforced
  | notEnforced (gap : BoundGap)
  deriving DecidableEq

structure EnforcedBounds where
  memoryCeiling : Enforcement
  instructionBudget : Enforcement
  callDeadline : Enforcement
  deriving DecidableEq

structure SessionReport where
  negotiated : Option Negotiated
  limits : Limits
  extism : Option ExtismProfile
  bounds : Option EnforcedBounds
  stop : Option WorkerStop
  ending : Option Ending

structure Outcome where
  outcome : OutcomeClass
  diagnostics : List Diagnostic
  stderr : StderrTail

def Ending.outcome : Ending → OutcomeClass
  | .refused code message => .refused code message
  | .failed fault => .failed fault
  | .deadline => .deadline
  | .cancelled => .cancelled

def internalError (text : String) : Ending :=
  .failed (.host .incompleteSession ("internal error: " ++ text))

structure Session where
  conversation : Conversation
  extism : Option ExtismProfile
  bounds : Option EnforcedBounds
  report : Option SessionReport
  /-- The mutex is held from the readiness check to the end of each exchange. -/
  busy : Bool

def Session.activated (conversation : Conversation) (extism : Option ExtismProfile)
    (bounds : Option EnforcedBounds) : Session :=
  ⟨conversation, extism, bounds, none, false⟩

def Session.reportOf (session : Session) (worker : WorkerStop) (ending : Option Ending) :
    SessionReport :=
  { negotiated := session.conversation.negotiated, limits := session.conversation.limits
    extism := session.extism, bounds := session.bounds, stop := some worker, ending }

inductive Exchange
  | call (call : Call)
  | close

inductive Invocation
  | exchange (exchange : Exchange)
  | cancel

inductive Position
  | sending (conversation : Conversation) (step : Step) (message : Message)
      (rest : List Message)
  | transmitting (conversation : Conversation) (step : Step) (rest : List Message)
  | receiving (conversation : Conversation)
  | stopping (conversation : Conversation) (plan : StopPlan) (conclusion : Conclusion)
  | aborting (ending : Option Ending)
  | cleaning

inductive Result
  | outcome (outcome : Outcome)
  | report (report : SessionReport)
  | ended (report : SessionReport)
  | nothing
  | raised (error : SessionUnavailable)
  | cancelled

inductive Task
  | waiting
  | running (exchange : Exchange) (position : Position)
  | cancelling
  | returned (result : Result)

abbrev Happening := Turns.Happening Nat Message

/-- The session, its tasks, what they have sent in which turn, and all reports that
were written. -/
structure World where
  session : Session
  tasks : Nat → Option Task
  history : List Happening
  written : List SessionReport

inductive Driven
  | suspended (position : Position)
  | paused (conversation : Conversation) (step : Step)

def StopPlan.after (plan : StopPlan) (event : Option Event) : StopPlan :=
  match event with
  | none => plan
  | some .deadlinePassed => .abort .deadline
  | some .stopRequested => .abort .cancelled
  | some _ => .abort .fault

def advance (conversation : Conversation) (step : Step) (rest : List Message) : Driven :=
  match rest with
  | message :: rest => .suspended (.sending conversation step message rest)
  | [] =>
    match step with
    | .exchange _ _ => .suspended (.receiving conversation)
    | .activated _ _ | .answered _ _ => .paused conversation step
    | .finished _ stop conclusion =>
      .suspended (.stopping conversation (StopPlan.after stop none) conclusion)

def drive (start : Conversation × Step) : Driven := advance start.1 start.2 start.2.sends

def interrupts : Event → Bool
  | .deadlinePassed | .stopRequested => true
  | _ => false

def interrupt (conversation : Conversation) (step : Step) (event : Event) : Driven :=
  match step with
  | .finished _ stop conclusion =>
    .suspended (.stopping conversation (StopPlan.after stop (some event)) conclusion)
  | _ => drive (conversation.on event)

namespace World

variable (world : World)

def put (id : Nat) (task : Task) : World :=
  { world with tasks := Function.update world.tasks id (some task) }

def record (happ : Happening) : World := { world with history := world.history ++ [happ] }

def release (id : Nat) (result : Result) : World :=
  { (world.put id (.returned result)).record (.ended id) with
      session := { world.session with busy := false } }

def finish (worker : WorkerStop) (ending : Option Ending) : World :=
  let report := world.session.reportOf worker ending
  { world with
      session := { world.session with report := some report }
      written := world.written ++ [report] }

def converse (conversation : Conversation) : World :=
  { world with session := { world.session with conversation } }

def resume (id : Nat) (exchange : Exchange) : Driven → World
  | .suspended position => world.put id (.running exchange position)
  | .paused conversation step =>
    let world := world.converse conversation
    match exchange, step with
    | .call _, .answered _ answer =>
      world.release id (.outcome ⟨answer.outcome, answer.diagnostics, .empty⟩)
    | .call _, _ =>
      world.put id (.running exchange (.aborting (some
        (internalError "the call paused without an answer"))))
    | .close, _ =>
      world.put id (.running exchange (.aborting (some (internalError "the close paused"))))

def start (id : Nat) : World :=
  { world.record (.began id) with session := { world.session with busy := true } }

/-- A call or a cancel runs to its first wait; a close waits for the mutex. -/
def begin (id : Nat) : Invocation → World
  | .exchange (.call call) =>
    if world.session.report.isSome then
      world.put id (.returned (.raised (.sessionUnavailable "the session has ended")))
    else if world.session.busy then
      world.put id (.returned (.raised
        (.sessionUnavailable "another exchange of the session is in flight")))
    else
      match world.session.conversation.call call with
      | .error error => world.put id (.returned (.raised error))
      | .ok start => (world.start id).resume id (.call call) (drive start)
  | .exchange .close => world.put id .waiting
  | .cancel =>
    if world.session.report.isSome then world.put id (.returned .nothing)
    else world.put id .cancelling

def acquired (id : Nat) : World :=
  match world.session.report with
  | some report => world.put id (.returned (.report report))
  | none =>
    match world.session.conversation.close with
    | .error _ => (world.start id).put id (.running .close (.aborting none))
    | .ok start => (world.start id).resume id .close (drive start)

def endingOf : Exchange → Conclusion → Option Ending
  | _, .endedEarly ending => some ending
  | .call _, _ => some (.failed (.host .incompleteSession "the worker stopped during the call"))
  | .close, .closed => none
  | .close, .described _ => some (internalError "the close described the worker")

def conclude (id : Nat) (exchange : Exchange) (worker : WorkerStop) (ending : Option Ending) :
    World :=
  let report := world.session.reportOf worker ending
  (world.finish worker ending).release id
    (match exchange with
    | .call _ => .outcome ⟨(ending.map Ending.outcome).getD .cancelled, [], worker.stderr⟩
    | .close => .report report)

def stopped (id : Nat) (worker : WorkerStop) : Task → Option World
  | .running exchange (.stopping conversation _ conclusion) =>
    some ((world.converse conversation).conclude id exchange worker (endingOf exchange conclusion))
  | .running exchange (.aborting ending) => some (world.conclude id exchange worker ending)
  | .running _ .cleaning => some (world.release id .cancelled)
  | .cancelling =>
    some ((world.finish worker (some .cancelled)).put id
      (.returned (.ended (world.session.reportOf worker (some .cancelled)))))
  | _ => none

/-- The task that runs an operation is cancelled.  No task cancels a cancel. -/
def cancelTask (id : Nat) : Task → Option World
  | .waiting => some (world.put id (.returned .cancelled))
  | .running _ .cleaning => none
  | .running _ (.aborting _) => some (world.release id .cancelled)
  | .running exchange _ => some (world.put id (.running exchange .cleaning))
  | _ => none

end World

inductive Label
  | begin (id : Nat) (invocation : Invocation)
  | acquire (id : Nat)
  | interrupt (id : Nat) (event : Event)
  | send (id : Nat)
  | sent (id : Nat)
  | sendFailed (id : Nat) (event : Event)
  | event (id : Nat) (event : Event)
  | stopped (id : Nat) (worker : WorkerStop)
  | cancelTask (id : Nat)

namespace World

def act (world : World) (label : Label) (id : Nat) (task : Task) : Option World :=
  match label, task with
  | .acquire _, .waiting => if world.session.busy then none else some (world.acquired id)
  | .interrupt _ event, .running exchange (.sending conversation step _ _) =>
    if interrupts event then
      some (world.resume id exchange (interrupt conversation step event))
    else none
  | .send _, .running exchange (.sending conversation step message rest) =>
    some ((world.record (.acted id message)).put id
      (.running exchange (.transmitting conversation step rest)))
  | .sent _, .running exchange (.transmitting conversation step rest) =>
    some (world.resume id exchange (advance conversation step rest))
  | .sendFailed _ event, .running exchange (.transmitting conversation step _) =>
    some (world.resume id exchange (interrupt conversation step event))
  | .event _ event, .running exchange (.receiving conversation) =>
    some (world.resume id exchange (drive (conversation.on event)))
  | .stopped _ worker, task => world.stopped id worker task
  | .cancelTask _, task => world.cancelTask id task
  | _, _ => none

end World

def Label.id : Label → Nat
  | .begin id _ | .acquire id | .interrupt id _ | .send id | .sent id | .sendFailed id _
  | .event id _ | .stopped id _ | .cancelTask id => id

def World.step (world : World) (label : Label) : Option World :=
  match world.tasks label.id, label with
  | none, .begin id invocation => some (world.begin id invocation)
  | some task, label => world.act label label.id task
  | none, _ => none

end Morphir.Host.Driver
