import Morphir.Library.Commands
import Morphir.Execution.Comparison
import Morphir.Execution.Plans

/-!
# Runs of a plan

A provider, an evaluator, an observer and a cancellation are functions of the world.  The
world has the frozen plan, because its arrays are handed out and can be written to.  A
run keeps a log of what was acquired, disposed of and cancelled and of what failed.
-/

namespace Morphir.Execution

open Fallible Morphir.Host Commands

variable {X E U A σ : Type}

inductive Stage
  | plan
  | decode
  | frontend
  | parse
  | profileCheck
  | resolve
  | lower
  | generate
  | build
  | invoke
  | call
  | evaluate
  | compare
  | cleanup
  | execute
  | legacy

inductive Signal
  | started
  | succeeded
  | failed
  | cancelled
  | notice

structure ObservationContext where
  runId : String
  spanId : String
  parentId : String
  traceId : String

structure Details where
  entry : String
  code : String

structure TraceContext where
  traceId : String
  parentId : String
  flags : String

/-- An isolated observer.  `emit` is all that delivering an observation does: it numbers the
observation, reads the clocks and calls the sink, whose errors are contained. -/
structure Observer (W : Type) where
  enabled : W → Bool × W
  nextId : W → String × W
  emit : ObservationContext → Option Details → Stage → Signal → W → W
  runId : String
  traceId : String

def hexId (s : List Char) (size : Nat) : Bool :=
  s.length = size && s.all (fun c => ('0' ≤ c && c ≤ '9') || ('a' ≤ c && c ≤ 'f')) &&
    s.any (· ≠ '0')

local instance lawfulChars : LawfulBEq (List Char) := inferInstance

def TraceContext.parse (value : String) : Except String TraceContext :=
  match value.toList.splitOn '-' with
  | [version, trace, parent, flags] =>
    if version ≠ ['0', '0'] ∨ hexId trace 32 = false ∨ hexId parent 16 = false ∨
      flags ∉ [['0', '0'], ['0', '1']] then .error "observability.invalid_trace_context"
    else .ok ⟨String.ofList trace, String.ofList parent, String.ofList flags⟩
  | _ => .error "observability.invalid_trace_context"

def TraceContext.header (t : TraceContext) : Except String String := do
  let value := "00-" ++ t.traceId ++ "-" ++ t.parentId ++ "-" ++ t.flags
  let _ ← TraceContext.parse value
  pure value

/-- The frozen plan as its arrays now stand, and everything else that behaviours keep. -/
structure World (U A σ : Type) where
  plan : Plan U A
  outside : σ

abbrev Behaviour (E W α : Type) : Type := W → Except (Error E) α × W

/-- The values are an array of the provider, which is read when it is copied. -/
structure InvocationResults (W : Type) where
  values : W → List Value
  evidence : Json

structure Session (E U A σ : Type) where
  id : String
  build : Plan U A → Option TraceContext → Behaviour E (World U A σ) Json
  invoke : Suite → Option TraceContext → Behaviour E (World U A σ) (InvocationResults (World U A σ))
  dispose : Behaviour E (World U A σ) Unit

structure Provider (E U A σ : Type) where
  targets : List String
  acquire : Behaviour E (World U A σ) (Session E U A σ)

structure Evaluator (E U A σ : Type) where
  profile : String
  evaluate : U → Call → ValueType → List CustomType → Behaviour E (World U A σ) Value

inductive ExecutionAccess (E U A σ : Type)
  | ready (provider : Provider E U A σ)
  | cancelled

structure CallResult where
  id : String
  actual : Value
  expected : Option Value
  matched : Bool
  mismatchPath : Option String

structure Failure (E : Type) where
  phase : String
  cause : Option (Error E)
  cleanup : Option (Error E)

structure Terminal where
  id : String
  status : String

def Error.isCancelled : Error E → Bool
  | .invalid message => message = "Cancelled"
  | _ => false

def Failure.cancelled (failure : Failure E) : Bool := failure.cause.any Error.isCancelled

structure Report (E : Type) where
  calls : List CallResult
  evidence : Json
  invocationEvidence : Json
  evaluator : Option String
  target : String
  comparison : ComparisonPolicy
  extensions : Option (List UInt8)
  terminals : List Terminal
  failure : Option (Failure E)

def Report.successful (report : Report E) : Bool :=
  report.failure.isNone && !report.terminals.isEmpty &&
    report.terminals.all (·.status == "succeeded") &&
    report.calls.length == report.terminals.length && report.calls.all (·.matched)

inductive Operation
  | acquire
  | build
  | invoke
  | evaluate
  | dispose

inductive Event (E U A σ : Type)
  | acquired (lease : Session E U A σ)
  | disposed (lease : Session E U A σ)
  | cancelled
  | failed (operation : Operation)

/-- The world, the log and the variables of `run_report_inner`. -/
structure State (E U A σ : Type) where
  world : World U A σ
  log : List (Event E U A σ) := []
  session : Option (Session E U A σ) := none
  phase : String := "acquire"
  evidence : Json := .null
  invocationEvidence : Json := .null
  results : List CallResult := []
  failure : Option (Failure E) := none

abbrev Run (E U A σ α : Type) : Type := Command (Error E) (State E U A σ) α

def poll {α : Type} (f : World U A σ → α × World U A σ) : Run E U A σ α :=
  command fun s => (.ok (f s.world).1, { s with world := (f s.world).2 })

def behave {α : Type} (operation : Operation) (b : Behaviour E (World U A σ) α) : Run E U A σ α :=
  command fun s => match b s.world with
    | (.ok a, world) => (.ok a, { s with world })
    | (.error e, world) => (.error e, { s with world, log := s.log ++ [.failed operation] })

def record (event : Event E U A σ) : Run E U A σ Unit :=
  modify fun s => { s with log := s.log ++ [event] }

def setPhase (phase : String) : Run E U A σ Unit := modify fun s => { s with phase }

def require {α : Type} (result : Except String α) : Run E U A σ α := ofResult (invalidly result)

def Output.entry? (library : Output A) (call : Call) : Option InvocationEntry :=
  library.invocations.find? (·.fqname == call.entry)

structure Plan.Entered (p : Plan U A) : Prop where
  entry : ∀ call ∈ p.suite.calls, (p.library.entry? call).isSome = true

def Plan.invoked (p : Plan U A) (h : p.Entered) : List (Call × InvocationEntry) :=
  p.suite.calls.attach.map fun call =>
    (call.1, (p.library.entry? call.1).get (h.entry call.1 call.2))

structure Frozen (U A : Type) where
  plan : Plan U A
  entered : plan.Entered
  distinct : (plan.suite.calls.map Call.id).Nodup
  source : List UInt8
  suiteIdentity : List UInt8

lemma validateInvocation_ok {entries : List PublicEntry} {definitions : List CustomType}
    {rejections : List (String × String)} {call : Call}
    (h : validateInvocation entries definitions rejections call = .ok ()) :
    ∃ entry ∈ entries, entry.name = call.entry := by
  rw [validateInvocation] at h
  split at h
  · cases h
  · rename_i entry hent
    exact ⟨entry, List.mem_of_find?_eq_some hent, by simpa using List.find?_some hent⟩

lemma invalidly_ok {α : Type} {result : Except String α} {a : α}
    (h : invalidly (E := E) result = .ok a) : result = .ok a := by
  cases result with
  | error e => cases h
  | ok b => exact congrArg Except.ok (Except.ok.inj h)

lemma entered_of_plan {lib : IonLibrary X} {tools : Toolchain E U A} {unit : U} {suite : Suite}
    {target : String} {targets : List String} {p : Plan U A}
    (h : plan lib tools unit suite target targets = .ok p) : p.Entered := by
  obtain ⟨_, -, h⟩ := bind_ok h
  obtain ⟨_, -, h⟩ := bind_ok h
  obtain ⟨library, -, h⟩ := bind_ok h
  obtain ⟨_, hcls, h⟩ := bind_ok h
  obtain ⟨_, -, h⟩ := bind_ok h
  cases h
  obtain ⟨_, hinv, -⟩ := bind_ok (invalidly_ok hcls)
  obtain ⟨_, -, hinv⟩ := bind_ok hinv
  refine ⟨fun call hca => ?_⟩
  obtain ⟨entry, hent, hname⟩ := validateInvocation_ok (forM_ok hinv call hca)
  obtain ⟨e, he, rfl⟩ := List.mem_map.mp hent
  rw [Output.entry?, List.find?_isSome]
  exact ⟨e, he, beq_iff_eq.mpr hname⟩

structure Setting (E U A σ : Type) where
  access : ExecutionAccess E U A σ
  evaluator : Option (Evaluator E U A σ)
  observer : Observer (World U A σ)
  cancelled : World U A σ → Bool × World U A σ
  comparison : ComparisonPolicy
  tolerates : UInt64 → UInt64 → UInt64 → UInt64 → Bool

section Scopes

variable (setting : Setting E U A σ)

def emit (context : ObservationContext) (details : Option Details) (stage : Stage)
    (signal : Signal) : Run E U A σ Unit :=
  poll fun w => ((), setting.observer.emit context details stage signal w)

def failureDetails (details : Option Details) (code : String) : Option Details :=
  some ⟨(details.map Details.entry).getD "", code⟩

def observe {α : Type} (stage : Stage) (details : Option Details) (scope : ObservationContext)
    (body : ObservationContext → Run E U A σ α) : Run E U A σ α := do
  if ← poll setting.observer.enabled then
    let spanId ← poll setting.observer.nextId
    let context : ObservationContext :=
      ⟨setting.observer.runId, spanId, scope.spanId, setting.observer.traceId⟩
    emit setting context details stage .started
    match ← attempt (body context) with
    | .ok value =>
      emit setting context details stage .succeeded
      pure value
    | .error e =>
      if e.isCancelled then
        emit setting context (failureDetails details "execution.cancelled") stage .cancelled
      else
        emit setting context (failureDetails details "execution.stage_failed") stage .failed
      throw e
  else body scope

def traceContext (scope : ObservationContext) : Run E U A σ (Option TraceContext) := do
  if ← poll setting.observer.enabled then
    let context : TraceContext := ⟨scope.traceId, scope.spanId, "01"⟩
    let _ ← require context.header
    pure (some context)
  else pure none

def stopped : Run E U A σ Bool :=
  match setting.access with
  | .cancelled => pure true
  | .ready _ => poll setting.cancelled

def acquire : Run E U A σ (Session E U A σ) :=
  match setting.access with
  | .ready provider => do
    let lease ← behave .acquire provider.acquire
    modify fun s => { s with session := some lease, log := s.log ++ [Event.acquired lease] }
    pure lease
  | .cancelled => throw (.invalid "Cancelled")

def collectResults (types : List CustomType) : List (Call × InvocationEntry) → List Value →
    Run E U A σ (List Value)
  | (call, entry) :: calls, v :: values => do
    require (validateAs types v entry.output true)
    require (validateSdkBoundary v)
    let actual ← require (Value.fromIon (v.toIon (X := X)))
    modify fun s => { s with results := s.results ++ [⟨call.id, actual, none, false, none⟩] }
    let rest ← collectResults types calls values
    pure (actual :: rest)
  | _, _ => pure []

/-- The expected value of a call.  The evaluator has the types and may write to them before
its value is validated. -/
def evaluateCall (scope : ObservationContext) (call : Call) (entry : InvocationEntry) :
    Run E U A σ (Option Value) :=
  match setting.evaluator with
  | none => pure none
  | some e => do
    let value ← observe setting .evaluate (some ⟨call.entry, "execution.evaluate"⟩) scope
      fun _ => do
        let before ← get
        let value ← behave .evaluate (e.evaluate before.world.plan.unit call entry.output
          before.world.plan.library.invocationTypes)
        let now ← get
        let library := now.world.plan.library
        let output := ((library.entry? call).getD entry).output
        require (validateAs library.invocationTypes value output true)
        require (Value.fromIon (value.toIon (X := X)))
    pure (some value)

end Scopes

section Run

variable [DecidableEq A] (lib : IonLibrary X) (tools : Toolchain E U A)

/-- What `run_report_inner` does before it observes the execution. -/
def freeze (given : Plan U A) (targets : List String) (comparison : ComparisonPolicy) :
    Except (Error E) (Frozen U A) := do
  invalidly comparison.validate
  refuseWith (given.target ∉ targets) "execution.provider_target"
  let bytes ← invalidly (given.suite.encode lib "ion-binary")
  let suite ← invalidly (Suite.decode lib bytes "ion-binary")
  invalidly (validateSuiteCalls lib given.library suite)
  let source ← tools.encodeUnit given.unit
  let unit ← tools.decodeUnit (tools.unitId given.unit) source
  match h : plan lib tools unit suite given.target targets with
  | .error e => .error e
  | .ok p => do
    refuseWith (p.library.artifacts ≠ given.library.artifacts ∨ p.driver ≠ given.driver)
      "execution.plan_changed"
    let suiteIdentity ← invalidly (suite.encode lib "ion-binary")
    return {
      plan := p
      entered := entered_of_plan h
      distinct := (plan_ok h).2.1 ▸ (nodup_of_validate (plan_ok h).1).2
      source
      suiteIdentity }

def Frozen.changed (frozen : Frozen U A) (now : Plan U A) : Except (Error E) Bool := do
  if (← tools.encodeUnit now.unit) ≠ frozen.source then return true
  if now.library.artifacts ≠ frozen.plan.library.artifacts then return true
  if now.driver ≠ frozen.plan.driver then return true
  if (← invalidly (now.suite.encode lib "ion-binary")) ≠ frozen.suiteIdentity then return true
  return manifestSnapshot now ≠ manifestSnapshot frozen.plan

variable (setting : Setting E U A σ) (frozen : Frozen U A)

def check : Run E U A σ Unit := do
  if ← stopped setting then
    record .cancelled
    throw (.invalid "Cancelled")
  let s ← get
  if ← ofResult (frozen.changed lib tools s.world.plan) then
    throw (.invalid "execution.input_mutation")

def compareCall (scope : ObservationContext) (expected : Option Value) (actual : Value) :
    Run E U A σ (Option String) :=
  observe setting .compare none scope fun _ => do
    check lib tools setting frozen
    match expected with
    | some value => require (mismatchPath setting.tolerates setting.comparison value actual)
    | none => pure none

/-- The loop over the calls.  A changed number of calls does not pass the next check. -/
def compareCalls (scope : ObservationContext) : Nat → List (Call × InvocationEntry) →
    List Value → Run E U A σ Unit
  | i, (call, entry) :: calls, actual :: values => do
    check lib tools setting frozen
    setPhase "evaluate"
    let expected ← evaluateCall (X := X) setting scope call entry
    setPhase "compare"
    let mismatch ← compareCall lib tools setting frozen scope expected actual
    modify fun s => { s with
      results := s.results.set i ⟨call.id, actual, expected, mismatch.isNone, mismatch⟩ }
    compareCalls scope (i + 1) calls values
  | _, _, _ => pure ()

def useSession (scope : ObservationContext) (lease : Session E U A σ) :
    Run E U A σ Unit := do
  if lease.id = "" then throw (.invalid "execution.invalid_lease")
  setPhase "build"
  let evidence ← observe setting .build none scope fun child => do
    check lib tools setting frozen
    let trace ← traceContext setting child
    let s ← get
    behave .build (lease.build s.world.plan trace)
  modify fun s => { s with evidence }
  setPhase "invoke"
  let invocation ← observe setting .invoke none scope fun child => do
    check lib tools setting frozen
    let trace ← traceContext setting child
    let s ← get
    behave .invoke (lease.invoke s.world.plan.suite trace)
  check lib tools setting frozen
  modify fun s => { s with invocationEvidence := invocation.evidence }
  let s ← get
  let actual := invocation.values s.world
  if actual.length ≠ frozen.plan.suite.calls.length then
    throw (.invalid "execution.result_count")
  let calls := frozen.plan.invoked frozen.entered
  let actual ← collectResults (X := X) frozen.plan.library.invocationTypes calls actual
  compareCalls lib tools setting frozen scope 0 calls actual
  check lib tools setting frozen

def steps (scope : ObservationContext) : Run E U A σ Unit := do
  check lib tools setting frozen
  let lease ← acquire setting
  useSession lib tools setting frozen scope lease

def raised {α : Type} : Except (Error E) α → Option (Error E)
  | .ok _ => none
  | .error e => some e

def cleanUp (scope : ObservationContext) : Run E U A σ (Option (Error E)) := do
  let s ← get
  match s.session with
  | none => pure none
  | some lease => do
    let result ← attempt (observe setting .cleanup none scope fun _ => do
      record (.disposed lease)
      behave .dispose lease.dispose)
    pure (raised result)

/-- The check behind the clean-up, unless something was raised before it. -/
def recheck (result : Except (Error E) Unit) : Run E U A σ (Except (Error E) Unit) :=
  match result with
  | .ok _ => attempt (check lib tools setting frozen)
  | .error e => pure (.error e)

def conclude (cause cleanup : Option (Error E)) : Run E U A σ Unit :=
  match cause, cleanup with
  | none, none => pure ()
  | some cause, cleanup => do
    modify fun s => { s with failure := some ⟨s.phase, some cause, cleanup⟩ }
    throw cause
  | none, some error => do
    modify fun s => { s with failure := some ⟨"cleanup", none, some error⟩ }
    throw (.cleanupFailed none error)

def execute (scope : ObservationContext) : Run E U A σ Unit := do
  let result ← attempt (steps lib tools setting frozen scope)
  let cleanup ← cleanUp setting scope
  let result ← recheck lib tools setting frozen result
  conclude (raised result) cleanup

def terminalStatus (results : List CallResult) (failure : Option (Failure E)) (id : String) :
    String :=
  let unfinished := if failure.any Failure.cancelled then "cancelled" else "failed"
  match results.find? (·.id == id) with
  | some r =>
    if r.matched then "succeeded" else if r.mismatchPath.isSome then "mismatch" else unfinished
  | none => unfinished

def finalState (outside : σ) : State E U A σ :=
  (exec (observe setting .execute none
    ⟨setting.observer.runId, "", "", setting.observer.traceId⟩
    (execute lib tools setting frozen)) { world := ⟨frozen.plan, outside⟩ }).2

def reportOf (s : State E U A σ) : Report E where
  calls := s.results
  evidence := s.evidence
  invocationEvidence := s.invocationEvidence
  evaluator := setting.evaluator.map Evaluator.profile
  target := frozen.plan.target
  comparison := setting.comparison
  extensions := frozen.plan.suite.extensions
  terminals := (frozen.plan.suite.calls.map Call.id).map fun id =>
    ⟨id, terminalStatus s.results s.failure id⟩
  failure := s.failure

def ExecutionAccess.targets (access : ExecutionAccess E U A σ) (target : String) : List String :=
  match access with
  | .ready provider => provider.targets
  | .cancelled => [target]

/-- The report, or what is raised before anything is acquired, and the log. -/
def runReportInner (given : Plan U A) (outside : σ) :
    Except (Error E) (Report E) × List (Event E U A σ) :=
  match freeze lib tools given (setting.access.targets given.target) setting.comparison with
  | .error e => (.error e, [])
  | .ok frozen =>
    let s := finalState lib tools setting frozen outside
    (.ok (reportOf setting frozen s), s.log)

end Run

end Morphir.Execution
