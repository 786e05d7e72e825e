import Morphir.Executions.Receipts

/-!
# The owner of executions

A session holds the accepted executions of one host and reserves the whole
receipt budget of each at submission.  The codecs, the planners and the check of
outcomes are services of other packages.  A validator of a submission may call
the owner again before the submission is accepted, so operations and the calls
of a validator are one syntax.  The owner carries a log of what it has accepted,
published and handed out; no operation reads it.
-/

namespace Morphir.Executions

open Morphir.Host Fallible

/-- Units, suites, plans and outcomes, and the services of the owner on them.
`U` are units, `S` suites, `L` plans of the generator, `K` plans of the
interpreter, `P` capability policies and `O` outcomes. -/
structure Services (U S L K P O : Type) where
  unitId : U → String
  encodeUnit : U → Except String (List UInt8)
  decodeUnit : String → List UInt8 → Except String U
  validateUnit : U → Except String Unit
  encodeSuite : S → Except String (List UInt8)
  decodeSuite : List UInt8 → Except String S
  callIds : S → List String
  plan : U → S → Except String L
  /-- The plan of the interpreter before the check of its boundary's size. -/
  planScheme : U → S → P → Except String K
  boundary : K → List UInt8
  planUnit : K → Except String U
  planSuite : K → Except String S
  planPolicy : K → P
  validateOutcomes : L → O → Except String Unit
  validateSchemeOutcomes : K → O → Except String Unit

inductive SchemeRuntime
  | scheme
  deriving DecidableEq

inductive ExecutionKind (P : Type)
  | legacy
  | scheme (planId : String) (runtime : SchemeRuntime) (policy : P) (boundary : List UInt8)

def ExecutionKind.isScheme {P : Type} : ExecutionKind P → Bool
  | .legacy => false
  | .scheme .. => true

structure Execution (P : Type) where
  identity : Identity
  unitId : String
  snapshot : List UInt8
  suite : List UInt8
  cursor : Cursor
  reserved : Int
  kind : ExecutionKind P

structure Session (P : Type) where
  offer : Offer
  executions : List (String × Execution P)
  maxExecutions : Int
  maxBytes : Int
  reserved : Int
  next : Nat

def Session.new {P : Type} (offer : Offer) (maxExecutions maxBytes : Int) :
    Except String (Session P) :=
  if maxExecutions ≤ 0 ∨ 64 < maxExecutions ∨ maxBytes < 1024 * 1024 ∨
      64 * 1024 * 1024 < maxBytes then .error "workbench.host_limits"
  else .ok ⟨offer, [], maxExecutions, maxBytes, 0, 1⟩

structure SchemeExecutionProjection (P : Type) where
  identity : Identity
  planId : String
  runtime : SchemeRuntime
  policy : P
  boundary : List UInt8

inductive Event (O : Type)
  | accepted (identity : Identity)
  | claimed (identity : Identity)
  | published (receipt : Receipt O)

def Disposition.events {O : Type} (result : Receipt O) : Disposition → List (Event O)
  | .advanced => [.published result]
  | .replay | .stale => []

structure Owner (P O : Type) where
  session : Session P
  log : List (Event O)

inductive Reply (L K P O : Type)
  | receipt (receipt : Receipt O)
  | plan (plan : L)
  | schemePlan (plan : K)
  | projection (projection : SchemeExecutionProjection P)
  | done

mutual

inductive Operation (U S L K P O : Type) : Type
  | submit (unit : U) (suite : S)
  | submitScheme (unit : U) (suite : S) (policy : P)
  | submitSchemeWith (unit : U) (suite : S) (policy : P)
      (validate : Receipt O → SchemeExecutionProjection P → Calls U S L K P O)
  | query (identity : Identity)
  | describeScheme (identity : Identity)
  | claim (identity : Identity)
  | claimScheme (identity : Identity) (planId providerId : String) (runtime : SchemeRuntime)
      (policy : P)
  | replanScheme (identity : Identity) (planId providerId : String) (runtime : SchemeRuntime)
      (policy : P)
  | cancel (identity : Identity)
  | complete (identity : Identity) (outcomes : O)
  | release (identity : Identity)

/-- What a validator does: it ends or goes on after a call of the owner. -/
inductive Calls (U S L K P O : Type) : Type
  | finish
  | fail (code : String)
  | call (operation : Operation U S L K P O)
      (next : Except String (Reply L K P O) → Calls U S L K P O)

end

variable {U S L K P O : Type} [OutcomeCodec O]

def key (identity : Identity) : String := identity.toJson.stringify

inductive Publication (O : Type)
  | submitted
  | running
  | terminal (outcomes : O)

def Publication.state : Publication O → State O
  | .submitted => .submitted
  | .running => .running
  | .terminal outcomes => .terminal outcomes

def receipt (identity : Identity) (sequence : Int) (state : Publication O) (acknowledged : Bool) :
    Except String (Receipt O) :=
  Receipt.fromJson (receiptJson identity sequence state.state acknowledged)

namespace Services

variable (services : Services U S L K P O)

/-- `Registry::encode` with the default limits. -/
def snapshot (unit : U) : Except String (List UInt8) := do
  let bytes ← services.encodeUnit unit
  refuse (4 * 1024 * 1024 < bytes.length) "data.byte_limit"
  pure bytes

def captureSuite (bytes : List UInt8) : Except String S :=
  if 1048576 < bytes.length then .error "execution.input_limit" else services.decodeSuite bytes

def planSchemeCapabilities (unit : U) (suite : S) (policy : P) : Except String K := do
  let plan ← services.planScheme unit suite policy
  refuse (1048576 < (services.boundary plan).length) "execution.type_limit"
  pure plan

def executionPlan (execution : Execution P) : Except String L := do
  refuse (execution.kind.isScheme) "workbench.host_execution_kind"
  let unit ← services.decodeUnit execution.unitId execution.snapshot
  let suite ← services.captureSuite execution.suite
  services.plan unit suite

def schemePlan (execution : Execution P) : Except String K := do
  match execution.kind with
  | .legacy => throw "workbench.host_execution_kind"
  | .scheme _ _ policy boundary =>
    let unit ← services.decodeUnit execution.unitId execution.snapshot
    let suite ← services.captureSuite execution.suite
    let plan ← services.planSchemeCapabilities unit suite policy
    refuse (services.boundary plan ≠ boundary) "workbench.host_boundary_changed"
    pure plan

def schemeProjection (execution : Execution P) : Except String (SchemeExecutionProjection P) := do
  match execution.kind with
  | .legacy => throw "workbench.host_execution_kind"
  | .scheme planId runtime policy _ =>
    let plan ← services.schemePlan execution
    pure ⟨execution.identity, planId, runtime, policy, services.boundary plan⟩

end Services

def Execution.checkSchemeSelection [DecidableEq P] (self : Execution P)
    (expectedPlanId expectedProviderId : String) (expectedRuntime : SchemeRuntime)
    (expectedPolicy : P) : Except String Unit :=
  match self.kind with
  | .legacy => .error "workbench.host_execution_kind"
  | .scheme planId runtime policy _ =>
    if self.identity.provider = expectedProviderId ∧ planId = expectedPlanId ∧
        runtime = expectedRuntime ∧ policy = expectedPolicy then .ok ()
    else .error "workbench.host_selection_mismatch"

namespace Session

variable (services : Services U S L K P O) (self : Session P)

def nextIdentity : Except String Identity :=
  Identity.fromJson (.object [("hostId", .string self.offer.host),
    ("sessionId", .string self.offer.session), ("providerId", .string self.offer.provider),
    ("executionId", .string ("execution-" ++ toString self.next)),
    ("snapshotId", .string ("snapshot-" ++ toString self.next))])

def selectKind (captured : U) (suite : S) (policy : Option P) (reserved : Int) :
    Except String (ExecutionKind P × Int) := do
  match policy with
  | none =>
    let _ ← services.plan captured suite
    pure (.legacy, reserved)
  | some policy =>
    let plan ← services.planSchemeCapabilities captured suite policy
    let boundary := services.boundary plan
    let reserved := reserved + boundary.length
    refuse (self.maxBytes - self.reserved < reserved) "workbench.host_capacity"
    pure (.scheme ("plan-" ++ toString self.next) .scheme policy boundary, reserved)

/-- `submit_with` up to the validator: the candidate and its first receipt. -/
def prepare (unit : U) (suite : S) (policy : Option P) :
    Except String (Execution P × Receipt O) := do
  refuse (self.maxExecutions ≤ self.executions.length ∨ self.next = 2147483647)
    "workbench.host_capacity"
  let snapshot ← services.snapshot unit
  let encodedSuite ← services.encodeSuite suite
  let capturedSuite ← services.captureSuite encodedSuite
  let reserved : Int := snapshot.length + encodedSuite.length + 1024 * 1024
  refuse (self.maxBytes - self.reserved < reserved) "workbench.host_capacity"
  let captured ← services.decodeUnit (services.unitId unit) snapshot
  services.validateUnit captured
  let (kind, reserved) ← self.selectKind services captured capturedSuite policy reserved
  let identity ← self.nextIdentity
  let initial : Receipt O ← receipt identity 0 .submitted false
  let cursor ← Cursor.start self.offer identity (services.callIds capturedSuite) initial
  pure (⟨identity, services.unitId unit, snapshot, encodedSuite, cursor, reserved, kind⟩, initial)

/-- `submit_with` after the validator, on the owner that the validator left. -/
def accept (execution : Execution P) : Session P :=
  { self with
    executions := OrdMap.insert self.executions (key execution.identity) execution
    reserved := self.reserved + execution.reserved
    next := self.next + 1 }

def lookup (identity : Identity) : Except String (Execution P) :=
  match OrdMap.get? self.executions (key identity) with
  | some execution =>
    if execution.identity = identity then .ok execution
    else .error "workbench.host_unknown_execution"
  | none => .error "workbench.host_unknown_execution"

end Session

namespace Owner

variable (services : Services U S L K P O)

def advance (self : Owner P O) (execution : Execution P) (receipt : Receipt O) :
    Except String (Receipt O × Owner P O) := do
  let (cursor, disposition) ← execution.cursor.observe receipt
  let result : Receipt O ← cursor.latest
  pure (result,
    { session := { self.session with
        executions := OrdMap.insert self.session.executions (key execution.identity)
          { execution with cursor := cursor } }
      log := self.log ++ disposition.events result })

/-- What `submit_with` calls before it accepts a candidate. -/
abbrev Validator (P O : Type) :=
  Receipt O → SchemeExecutionProjection P → Owner P O → Except String Unit × Owner P O

def validated (validate : Option (Validator P O)) (execution : Execution P) (initial : Receipt O)
    (self : Owner P O) : Except String Unit × Owner P O :=
  match validate with
  | none => (.ok (), self)
  | some validate =>
    match services.schemeProjection execution with
    | .error e => (.error e, self)
    | .ok projection => validate initial projection self

def submitWith (unit : U) (suite : S) (policy : Option P) (validate : Option (Validator P O))
    (self : Owner P O) : Except String (Reply L K P O) × Owner P O :=
  match self.session.prepare services unit suite policy with
  | .error e => (.error e, self)
  | .ok (execution, initial) =>
    match validated services validate execution initial self with
    | (.error e, owner) => (.error e, owner)
    | (.ok (), owner) =>
      if owner.session.next = self.session.next then
        (.ok (.receipt initial), ⟨owner.session.accept execution,
            owner.log ++ [.accepted execution.identity, .published initial]⟩)
      else (.error "workbench.host_submission_changed", owner)

def publishClaim (execution : Execution P) (identity : Identity) (latest : Receipt O)
    (self : Owner P O) : Except String (Owner P O) := do
  let running ← receipt identity (latest.sequence + 1) .running latest.cancelRequested
  let (_, owner) ← self.advance execution running
  pure { owner with log := owner.log ++ [.claimed identity] }

def checkSubmitted (latest : Receipt O) : Except String Unit :=
  match latest.state with
  | .submitted => .ok ()
  | _ => .error "workbench.host_already_claimed"

def claim (identity : Identity) (self : Owner P O) : Except String (L × Owner P O) := do
  let execution ← self.session.lookup identity
  let latest : Receipt O ← execution.cursor.latest
  checkSubmitted latest
  let plan ← services.executionPlan execution
  let owner ← publishClaim execution identity latest self
  pure (plan, owner)

def claimScheme [DecidableEq P] (identity : Identity) (planId providerId : String)
    (runtime : SchemeRuntime) (policy : P) (self : Owner P O) :
    Except String (K × Owner P O) := do
  let execution ← self.session.lookup identity
  execution.checkSchemeSelection planId providerId runtime policy
  let latest : Receipt O ← execution.cursor.latest
  checkSubmitted latest
  let plan ← services.schemePlan execution
  let owner ← publishClaim execution identity latest self
  pure (plan, owner)

/-- The unit, the suite and the policy that `replan_scheme` submits again. -/
def replanned [DecidableEq P] (identity : Identity) (planId providerId : String)
    (runtime : SchemeRuntime) (policy : P) (self : Owner P O) : Except String (U × S × P) := do
  let execution ← self.session.lookup identity
  execution.checkSchemeSelection planId providerId runtime policy
  let plan ← services.schemePlan execution
  let unit ← services.planUnit plan
  let suite ← services.planSuite plan
  pure (unit, suite, services.planPolicy plan)

def cancel (identity : Identity) (self : Owner P O) : Except String (Receipt O × Owner P O) := do
  let execution ← self.session.lookup identity
  let latest : Receipt O ← execution.cursor.latest
  match execution.cursor.cancelAction with
  | .alreadyTerminal | .pending => pure (latest, self)
  | .unavailable | .disconnected => throw "workbench.host_cancel_unavailable"
  | .send =>
    let state := match latest.state with
      | .running => .running
      | _ => .submitted
    let next ← receipt identity (latest.sequence + 1) state true
    self.advance execution next

def checkOutcomes (execution : Execution P) (outcomes : O) : Except String Unit := do
  match execution.kind with
  | .legacy =>
    let plan ← services.executionPlan execution
    services.validateOutcomes plan outcomes
  | .scheme .. =>
    let plan ← services.schemePlan execution
    services.validateSchemeOutcomes plan outcomes

def complete (identity : Identity) (outcomes : O) (self : Owner P O) :
    Except String (Receipt O × Owner P O) := do
  let execution ← self.session.lookup identity
  checkOutcomes services execution outcomes
  let latest : Receipt O ← execution.cursor.latest
  let sequence := match latest.state with
    | .terminal _ => latest.sequence
    | _ => latest.sequence + 1
  let next ← receipt identity sequence (.terminal outcomes) latest.cancelRequested
  self.advance execution next

def checkTerminal (latest : Receipt O) : Except String Unit :=
  match latest.state with
  | .terminal _ => .ok ()
  | _ => .error "workbench.host_not_terminal"

def release (identity : Identity) (self : Owner P O) : Except String (Owner P O) := do
  let execution ← self.session.lookup identity
  let latest : Receipt O ← execution.cursor.latest
  checkTerminal latest
  pure { self with session := { self.session with
    executions := OrdMap.erase self.session.executions (key identity)
    reserved := self.session.reserved - execution.reserved } }

/-- The reply and the owner after an operation that changes nothing when it
fails. -/
def settle {α : Type} (self : Owner P O) (reply : α → Reply L K P O) :
    Except String (α × Owner P O) → Except String (Reply L K P O) × Owner P O
  | .error e => (.error e, self)
  | .ok (value, owner) => (.ok (reply value), owner)

variable [DecidableEq P]

mutual

def exec : Operation U S L K P O → Owner P O → Except String (Reply L K P O) × Owner P O
  | .submit unit suite, self => submitWith services unit suite none none self
  | .submitScheme unit suite policy, self => submitWith services unit suite (some policy) none self
  | .submitSchemeWith unit suite policy validate, self =>
    submitWith services unit suite (some policy)
      (some fun initial projection owner => calls (validate initial projection) owner) self
  | .query identity, self =>
    self.settle .receipt (((self.session.lookup identity).bind (·.cursor.latest)).map (·, self))
  | .describeScheme identity, self =>
    self.settle .projection
      (((self.session.lookup identity).bind services.schemeProjection).map (·, self))
  | .claim identity, self => self.settle .plan (claim services identity self)
  | .claimScheme identity planId providerId runtime policy, self =>
    self.settle .schemePlan (claimScheme services identity planId providerId runtime policy self)
  | .replanScheme identity planId providerId runtime policy, self =>
    match replanned services identity planId providerId runtime policy self with
    | .error e => (.error e, self)
    | .ok (unit, suite, policy) => submitWith services unit suite (some policy) none self
  | .cancel identity, self => self.settle .receipt (cancel identity self)
  | .complete identity outcomes, self => self.settle .receipt (complete services identity outcomes self)
  | .release identity, self => self.settle (fun _ => .done) ((release identity self).map ((), ·))

def calls : Calls U S L K P O → Owner P O → Except String Unit × Owner P O
  | .finish, self => (.ok (), self)
  | .fail code, self => (.error code, self)
  | .call operation next, self =>
    match exec operation self with
    | (reply, owner) => calls (next reply) owner

end

def run (operations : List (Operation U S L K P O)) (self : Owner P O) : Owner P O :=
  operations.foldl (fun owner operation => (exec services operation owner).2) self

end Owner

end Morphir.Executions
