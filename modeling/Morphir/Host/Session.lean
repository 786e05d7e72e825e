import Morphir.Host.Wire

/-!
# The session of a host with one worker

`Conversation` is the pure state of one session.  It takes events and calls
of its owner and returns the next step; it never touches a channel.  A probe
is `describe` then `exit`.  An operation session is `initialize`,
`initialized`, the operation, `shutdown`, then `exit`, with one request at a
time.
-/

namespace Morphir.Host

inductive Ending
  | refused (code : RefusalCode) (message : String)
  | failed (fault : Fault)
  | deadline
  | cancelled

inductive FrameDirection
  | request
  | response
  deriving DecidableEq

inductive GuestFault
  | trap (text : String)
  | memoryLimit (text : String)
  | callDeadline
  | budgetExhausted
  | failure (text : String)
  deriving DecidableEq

inductive ChannelError
  | workerClosed
  | frameInvalid (text : String)
  | frameLimit (direction : FrameDirection) (declared : Int) (limit : Int)
  | stopped
  | transportFailed (text : String)
  | guestFailed (fault : GuestFault)
  | refused (code : RefusalCode) (message : String)
  deriving DecidableEq

/-- Something that happened to a session while it waited for a reply. -/
inductive Event
  | received (message : Message)
  | channelFailed (error : ChannelError)
  | deadlinePassed
  | stopRequested

inductive StopReason
  | graceExpired | deadline | cancelled | fault
  deriving DecidableEq

inductive StopPlan
  | closeAfterExit
  | abort (reason : StopReason)
  deriving DecidableEq

inductive OutcomeClass
  | completed (result : Json)
  | unsuccessful
  | failed (fault : Fault)
  | refused (code : RefusalCode) (message : String)
  | deadline
  | cancelled

structure Answer where
  outcome : OutcomeClass
  diagnostics : List Diagnostic

inductive Conclusion
  | described (claims : Claims)
  | closed
  | endedEarly (ending : Ending)

/-- The next thing the driver does, after it has sent `sends` in order. -/
inductive Step
  | exchange (sends : List Message) (awaiting : Int)
  | activated (sends : List Message) (negotiated : Negotiated)
  | answered (sends : List Message) (answer : Answer)
  | finished (sends : List Message) (stop : StopPlan) (conclusion : Conclusion)

namespace Step

def sends : Step → List Message
  | .exchange sends _ => sends
  | .activated sends _ => sends
  | .answered sends _ => sends
  | .finished sends _ _ => sends

def conclusion? : Step → Option Conclusion
  | .finished _ _ conclusion => some conclusion
  | _ => none

end Step

inductive SessionUnavailable
  | sessionUnavailable (text : String)
  deriving DecidableEq

inductive Phase
  | describing
  | initializing (offer : Offer) (expected : Claims)
  | refusing (ending : Ending)
  | ready
  | calling (kind : CallKind) (operation : Operation)
  | called
  | shuttingDown
  | over

structure Conversation where
  phase : Phase
  pending : Int
  nextId : Int
  answered : List Int
  limits : Limits
  expected : Option Claims
  negotiated : Option Negotiated

def describeFailed (message : String) : Conclusion :=
  .endedEarly (.failed (.host .describeFailed message))

def GuestFault.ending : GuestFault → Ending
  | .trap text => .failed (.host .guestTrap ("the guest trapped: " ++ text))
  | .memoryLimit text =>
    .failed (.host .memoryLimit ("the guest grew its memory past the ceiling: " ++ text))
  | .callDeadline => .deadline
  | .budgetExhausted =>
    .failed (.host .budgetExhausted "the guest used its instruction budget for the call")
  | .failure text => .failed (.host .incompleteSession text)

namespace Conversation

def probe (limits : Limits) : Conversation × Step :=
  ({ phase := .describing, pending := 1, nextId := 2, answered := [], limits
     expected := none, negotiated := none },
    .exchange [describeMessage 1] 1)

/-- Starts an operation session that initializes the worker with `offer` and
compares its answer with the `expected` claims. -/
def activate (offer : Offer) (expected : Claims) (limits : Limits) : Conversation × Step :=
  ({ phase := .initializing offer expected, pending := 1, nextId := 2, answered := [], limits
     expected := some expected, negotiated := none },
    .exchange [initializeMessage 1 offer limits] 1)

def finish (self : Conversation) (stop : StopPlan) (conclusion : Conclusion)
    (sends : List Message) : Conversation × Step :=
  ({ self with phase := .over, pending := 0 }, .finished sends stop conclusion)

def exit (self : Conversation) (conclusion : Conclusion) : Conversation × Step :=
  self.finish .closeAfterExit conclusion [notificationMessage "morphir.exit"]

def shutdown (self : Conversation) (phase : Phase) : Conversation × Step :=
  let id := self.nextId
  ({ self with phase, pending := id, nextId := id + 1 }, .exchange [shutdownMessage id] id)

def stoppedEarly (self : Conversation) : Fault :=
  match self.phase with
  | .describing => .host .describeFailed "the worker stopped before it described itself"
  | .shuttingDown => .host .incompleteSession "the worker stopped before the shutdown response"
  | _ => .host .incompleteSession "the worker stopped before the session ended"

def transportFault (self : Conversation) (error : ChannelError) : Ending :=
  match self.phase, error with
  | .refusing ending, _ => ending
  | _, .frameLimit .request declared limit =>
    .refused .requestLimit ("a request frame has " ++ toString declared ++
      " bytes; the limit is " ++ toString limit)
  | _, .guestFailed fault => fault.ending
  | _, .refused code message => .refused code message
  | _, .frameInvalid text => .failed (.host .frameInvalid text)
  | _, .transportFailed text => .failed (.host .incompleteSession text)
  | _, .frameLimit .response declared limit =>
    .failed (.host .responseLimit ("a frame declared " ++ toString declared ++
      " bytes; the limit is " ++ toString limit))
  | _, .workerClosed => .failed self.stoppedEarly
  | _, .stopped => .failed self.stoppedEarly

/-- While the session refuses a worker, the refusal stays the ending. -/
def endingOr (self : Conversation) (ending : Ending) : Ending :=
  match self.phase with
  | .refusing refusal => refusal
  | _ => ending

def fault (self : Conversation) (fault : Fault) : Conversation × Step :=
  self.finish (.abort .fault) (.endedEarly (self.endingOr (.failed fault))) []

/-- The tuple and the limits that the answer to `initialize` agrees on the
line of the offer, or the code and the text of a refusal. -/
def agree (self : Conversation) (offer : Offer) (result : Json) :
    Except (RefusalCode × String) (Option ModelTuple × Limits) :=
  match offer with
  | .legacy => .ok (none, self.limits)
  | .model offered =>
    match agreement offered result with
    | .empty => .error (.tupleUnavailable, "the worker agreed on none of the offered tuples")
    | .mismatch text => .error (.agreementMismatch, text)
    | .agreed tuple =>
      match readModelLimits (fieldAt result ["capabilities", "modelTransport"]) with
      | .error error =>
        .error (.agreementMismatch, "the worker declared no valid model limits: " ++ error.toString)
      | .ok worker => .ok (some tuple, { self.limits with model := self.limits.model.min worker })

/-- What an answer to `initialize` negotiates, or why it is refused. -/
def negotiate (self : Conversation) (offer : Offer) (expected : Claims) (result : Json) :
    Except (RefusalCode × String) (Option ModelTuple × Limits) :=
  match readClaims result with
  | .error error =>
    .error (.claimsMismatch, "the initialize result has no valid claims: " ++ error.toString)
  | .ok live =>
    match compareClaims expected live offer with
    | some text => .error (.claimsMismatch, text)
    | none => self.agree offer result

def selected (offer : Offer) (result : Json) : Bool :=
  match fieldAt result ["protocolVersion"] with
  | some (.string version) => version == offer.line.toString
  | _ => false

def initialized (self : Conversation) (offer : Offer) (expected : Claims) (result : Json) :
    Conversation × Step :=
  if selected offer result then
    match self.negotiate offer expected result with
    | .error (code, message) => self.shutdown (.refusing (.refused code message))
    | .ok (tuple, limits) =>
      let negotiated : Negotiated := { offer, tuple, limits }
      ({ self with
          phase := .ready, pending := 0, limits, negotiated := some negotiated },
        .activated [notificationMessage "morphir.initialized"] negotiated)
  else
    self.exit (.endedEarly (.refused .protocolUnavailable
      ("the worker did not select MEP " ++ offer.line.toString ++ ", which the host offered")))

def answer (self : Conversation) (kind : CallKind) (operation : Operation) (reply : Reply) :
    Answer :=
  let broken (message : String) : Answer := ⟨.failed (unexpected message), []⟩
  match reply with
  | .answer (.object fields) =>
    match OrdMap.get? fields "success" with
    | some (.bool success) =>
      let decoded : Option (List Diagnostic) :=
        match OrdMap.get? fields "diagnostics" with
        | none => some []
        | some (.array items) => some (decodeDiagnostics items operation)
        | some _ => none
      match decoded with
      | none => broken ("the diagnostics of " ++ operation.toString ++ " are not a list")
      | some diagnostics =>
        let problem :=
          if kind = .compileCall ∧ operation = .compileModel then
            modelPayloadProblem (fieldAt (.object fields) ["model", "payload"])
              self.limits.model
          else none
        match problem with
        | some problem => ⟨.failed (.host .responseLimit problem), diagnostics⟩
        | none => ⟨if success then .completed (.object fields) else .unsuccessful, diagnostics⟩
    | _ => broken ("the result of " ++ operation.toString ++ " has no success flag")
  | _ => broken ("the result of " ++ operation.toString ++ " is not an object")

def replied (self : Conversation) (reply : Reply) : Conversation × Step :=
  match self.phase, reply with
  | .describing, .guestError code message _ =>
    self.exit (describeFailed
      ("describe returned error " ++ toString code ++ ": " ++ message))
  | .describing, .answer result =>
    match readClaims result with
    | .error error =>
      self.exit (describeFailed
        ("the describe result has no valid claims: " ++ error.toString))
    | .ok claims => self.exit (.described claims)
  | .initializing _ _, .guestError code message data =>
    self.exit (.endedEarly (.failed (.guest code message data)))
  | .initializing offer expected, .answer result => self.initialized offer expected result
  | .refusing ending, _ => self.exit (.endedEarly ending)
  | .calling kind operation, reply =>
    let answer := match reply with
      | .guestError code message data => ⟨.failed (.guest code message data), []⟩
      | .answer _ => self.answer kind operation reply
    ({ self with phase := .called, pending := 0 }, .answered [] answer)
  | .shuttingDown, .guestError code message data =>
    self.exit (.endedEarly (.failed (.guest code message data)))
  | .shuttingDown, .answer _ => self.exit .closed
  | .ready, _ | .called, _ | .over, _ =>
    self.finish (.abort .fault)
      (.endedEarly (.failed (unexpected "an unsolicited response"))) []

def received (self : Conversation) (message : Message) : Conversation × Step :=
  if self.pending = 0 then
    self.fault (unexpected "a message when no request was pending")
  else
    match readReply message self.pending self.answered self.limits.responseBytes with
    | .ok (some reply) => { self with answered := self.answered ++ [self.pending] }.replied reply
    | .ok none => (self, .exchange [] self.pending)
    | .error fault => self.fault fault

/-- Advances the session with one event.  While the session refuses a worker,
the refusal stays the ending; a deadline or a stop only sets how the worker
is stopped. -/
def on (self : Conversation) (event : Event) : Conversation × Step :=
  match event with
  | .stopRequested => self.finish (.abort .cancelled) (.endedEarly (self.endingOr .cancelled)) []
  | .deadlinePassed => self.finish (.abort .deadline) (.endedEarly (self.endingOr .deadline)) []
  | .channelFailed error => self.finish (.abort .fault) (.endedEarly (self.transportFault error)) []
  | .received message => self.received message

/-- The parameters of a call with the negotiated tuple, or the text of a
refusal. -/
def tupleParams (tuple : ModelTuple) (call : Call) : Except String (List (String × Json)) :=
  let named := match call.kind with
    | .compileCall => fieldAt (.object call.params) ["options", "irVersion"]
    | .generateCall => none
  let agrees := match named with
    | none => true
    | some (.string text) => text == tuple.irVersion.toString
    | some _ => false
  if agrees then
    let key := match call.kind with
      | .compileCall => "output"
      | .generateCall => "input"
    match OrdMap.get? call.params key with
    | none => .ok (OrdMap.insert call.params key tuple.toJson)
    | some value =>
      if tupleOf value = some tuple then .ok call.params
      else .error "the request names another tuple than the session negotiated"
  else
    .error ("the request options name another IR version than the session negotiated: " ++
      (named.map Json.stringify).getD "")

def sentParams (negotiated : Negotiated) (call : Call) :
    Except String (List (String × Json)) :=
  match negotiated.tuple with
  | none => .ok call.params
  | some tuple => tupleParams tuple call

/-- The problem of the model payload that a generate request carries. -/
def requestProblem (self : Conversation) (operation : Operation)
    (params : List (String × Json)) : Option String :=
  if operation = .generateModel then
    modelPayloadProblem (fieldAt (.object params) ["model", "payload"]) self.limits.model
  else none

def checkCall (self : Conversation) (negotiated : Negotiated) (expected : Claims)
    (call : Call) : Except (RefusalCode × String) (Message × Operation) :=
  let offer := negotiated.offer
  let operation := call.kind.operation offer
  if ¬ offer.operations.contains operation then
    .error (.capabilityUnavailable, "this session negotiated " ++
      ((offer.operations.head?.map Operation.toString).getD "") ++ ", not " ++
      operation.toString)
  else if ¬ expected.offers operation then
    .error (.capabilityUnavailable,
      expected.extensionId ++ " does not claim " ++ operation.toString)
  else
    match sentParams negotiated call with
    | .error text => .error (.tupleUnavailable, text)
    | .ok params =>
      let message := Call.message { call with params } self.nextId operation
      let size := framedSize message.size
      if self.limits.requestBytes < size then
        .error (.requestLimit, "the request frame has " ++ toString size ++
          " bytes; the limit is " ++ toString self.limits.requestBytes)
      else
        match self.requestProblem operation params with
        | some problem => .error (.requestLimit, problem)
        | none => .ok (message, operation)

/-- A call that the session cannot make is refused without sending
anything. -/
def call (self : Conversation) (call : Call) :
    Except SessionUnavailable (Conversation × Step) :=
  match self.phase, self.negotiated, self.expected with
  | .ready, some negotiated, some expected =>
    match self.checkCall negotiated expected call with
    | .error (code, message) => .ok (self, .answered [] ⟨.refused code message, []⟩)
    | .ok (message, operation) =>
      let id := self.nextId
      .ok ({ self with
          phase := .calling call.kind operation, pending := id, nextId := id + 1 },
        .exchange [message] id)
  | _, _, _ => .error (.sessionUnavailable "the session is not ready for an operation")

/-- Starts the end of a ready session: `shutdown`, then `exit`. -/
def close (self : Conversation) : Except SessionUnavailable (Conversation × Step) :=
  match self.phase with
  | .ready => .ok (self.shutdown .shuttingDown)
  | .called => .ok (self.shutdown .shuttingDown)
  | _ => .error (.sessionUnavailable "the session cannot close in its current state")

end Conversation

end Morphir.Host

/-!
## Runs of a session

What one event or one call can do to a conversation, the invariant that
relates the phase of a conversation to the messages it has sent, and what
follows for every run.
-/

namespace Morphir.Host

inductive Start
  | probe (limits : Limits)
  | activate (offer : Offer) (expected : Claims) (limits : Limits)

namespace Start

def begin : Start → Conversation × Step
  | .probe limits => Conversation.probe limits
  | .activate offer expected limits => Conversation.activate offer expected limits

/-- The method sequences of the sessions that refuse no worker, from their
beginning to their end. -/
def orderly : Start → List (List String)
  | .probe _ => [["morphir.extension.describe", "morphir.exit"]]
  | .activate offer _ _ =>
    [["morphir.initialize", "morphir.exit"],
      ["morphir.initialize", "morphir.initialized", "morphir.shutdown", "morphir.exit"]] ++
    offer.operations.map fun operation =>
      ["morphir.initialize", "morphir.initialized", operation.toString, "morphir.shutdown",
        "morphir.exit"]

/-- A worker whose answer to `initialize` is refused is shut down. -/
def refusals : Start → List (List String)
  | .probe _ => []
  | .activate _ _ _ => [["morphir.initialize", "morphir.shutdown", "morphir.exit"]]

/-- The method sequences of all sessions that begin this way and end. -/
def sequences (start : Start) : List (List String) := start.refusals ++ start.orderly

end Start

/-- What happens to a conversation: an event of the worker, of its channel or
of the clock, or a call of its owner. -/
inductive Input
  | event (event : Event)
  | compile (params : List (String × Json))
  | generate (params : List (String × Json))
  | close

namespace Conversation

/-- The state after an input, and the next step.  A call that is out of order
raises and has no step. -/
def react (self : Conversation) : Input → Conversation × Option Step
  | .event event => let (next, step) := self.on event; (next, some step)
  | .compile params => raised (self.call ⟨.compileCall, params⟩)
  | .generate params => raised (self.call ⟨.generateCall, params⟩)
  | .close => raised self.close
where
  raised : Except SessionUnavailable (Conversation × Step) → Conversation × Option Step
    | .ok (next, step) => (next, some step)
    | .error _ => (self, none)

/-- The state after a sequence of inputs, and the steps on the way. -/
def run (self : Conversation) : List Input → Conversation × List Step
  | [] => (self, [])
  | input :: inputs =>
    let (next, step) := self.react input
    let (last, steps) := next.run inputs
    (last, step.toList ++ steps)

end Conversation

def Start.run (start : Start) (inputs : List Input) : Conversation × List Step :=
  let (first, step) := start.begin
  let (last, steps) := first.run inputs
  (last, step :: steps)

def sentBy (steps : List Step) : List Message := steps.flatMap Step.sends

def requestIds (sent : List Message) : List Int := sent.filterMap Message.id

def conclusionOf (steps : List Step) : Option Conclusion := steps.findSome? Step.conclusion?

@[simp] lemma sentBy_nil : sentBy [] = [] := rfl

@[simp] lemma sentBy_cons (step : Step) (steps : List Step) :
    sentBy (step :: steps) = step.sends ++ sentBy steps := rfl

@[simp] lemma sentBy_append (left right : List Step) :
    sentBy (left ++ right) = sentBy left ++ sentBy right := by
  simp [sentBy]

@[simp] lemma requestIds_append (left right : List Message) :
    requestIds (left ++ right) = requestIds left ++ requestIds right := by
  simp [requestIds]

namespace Conversation

@[simp] lemma run_nil (self : Conversation) : self.run [] = (self, []) := rfl

def awaited (self : Conversation) : List Int := if self.pending = 0 then [] else [self.pending]

def acknowledged (self : Conversation) : Conversation :=
  { self with answered := self.answered ++ [self.pending] }

/-- The phases that wait for an answer and then send `exit`. -/
def Exits : Phase → Prop
  | .describing | .initializing _ _ | .refusing _ | .shuttingDown => True
  | _ => False

/-- The conclusions that a phase allows: a refusal stays the ending. -/
def Concludes : Phase → Conclusion → Prop
  | .refusing ending, conclusion => conclusion = .endedEarly ending
  | _, _ => True

inductive OnCase (c : Conversation) : Conversation × Step → Prop
  | aborted (stop : StopPlan) (conclusion : Conclusion) (h : Concludes c.phase conclusion) :
      OnCase c (c.finish stop conclusion [])
  | skipped (h : c.pending ≠ 0) : OnCase c (c, .exchange [] c.pending)
  | exited (conclusion : Conclusion) (hp : c.pending ≠ 0) (hx : Exits c.phase)
      (h : Concludes c.phase conclusion) : OnCase c (c.acknowledged.exit conclusion)
  | refused (offer : Offer) (expected : Claims) (ending : Ending) (hp : c.pending ≠ 0)
      (h : c.phase = .initializing offer expected) :
      OnCase c (c.acknowledged.shutdown (.refusing ending))
  | initialized (offer : Offer) (expected : Claims) (tuple : Option ModelTuple)
      (limits : Limits) (hp : c.pending ≠ 0) (h : c.phase = .initializing offer expected) :
      OnCase c
        ({ c.acknowledged with
            phase := .ready, pending := 0, limits, negotiated := some ⟨offer, tuple, limits⟩ },
          .activated [notificationMessage "morphir.initialized"] ⟨offer, tuple, limits⟩)
  | called (kind : CallKind) (operation : Operation) (answer : Answer) (hp : c.pending ≠ 0)
      (h : c.phase = .calling kind operation) :
      OnCase c ({ c.acknowledged with phase := .called, pending := 0 }, .answered [] answer)

lemma concludes_endingOr (c : Conversation) (ending : Ending) :
    Concludes c.phase (.endedEarly (c.endingOr ending)) := by
  unfold endingOr
  cases hph : c.phase <;> simp [Concludes]

lemma concludes_transportFault (c : Conversation) (error : ChannelError) :
    Concludes c.phase (.endedEarly (c.transportFault error)) := by
  unfold transportFault
  cases hph : c.phase <;> simp [Concludes]

variable {c : Conversation}

lemma onCase_initialized {offer : Offer} {expected : Claims} (hp : c.pending ≠ 0)
    (h : c.phase = .initializing offer expected) (result : Json) :
    OnCase c (c.acknowledged.initialized offer expected result) := by
  unfold initialized
  split
  · cases hneg : c.acknowledged.negotiate offer expected result with
    | error refusal =>
      obtain ⟨code, message⟩ := refusal
      exact .refused offer expected (.refused code message) hp h
    | ok agreed =>
      obtain ⟨tuple, limits⟩ := agreed
      exact .initialized offer expected tuple limits hp h
  · refine .exited _ hp ?_ ?_
    · simp [h, Exits]
    · simp [h, Concludes]

lemma onCase_replied (hp : c.pending ≠ 0)
    (live : c.phase ≠ .ready ∧ c.phase ≠ .called ∧ c.phase ≠ .over) (reply : Reply) :
    OnCase c (c.acknowledged.replied reply) := by
  have hph : c.acknowledged.phase = c.phase := rfl
  unfold replied
  rw [hph]
  cases h : c.phase with
  | describing =>
    have hx : Exits c.phase := by simp [h, Exits]
    have hc (conclusion : Conclusion) : Concludes c.phase conclusion := by simp [h, Concludes]
    cases reply with
    | guestError code message data => exact .exited _ hp hx (hc _)
    | answer result =>
      cases hcla : readClaims result with
      | error error | ok claims =>
        simp only [hcla]
        exact .exited _ hp hx (hc _)
  | initializing offer expected =>
    cases reply with
    | guestError code message data =>
      exact .exited _ hp (by simp [h, Exits]) (by simp [h, Concludes])
    | answer result => exact onCase_initialized hp h result
  | refusing ending => exact .exited _ hp (by simp [h, Exits]) (by simp [h, Concludes])
  | calling kind operation => exact .called kind operation _ hp h
  | shuttingDown =>
    have hx : Exits c.phase := by simp [h, Exits]
    cases reply with
    | guestError code message data | answer result => exact .exited _ hp hx (by simp [h, Concludes])
  | ready => exact absurd h live.1
  | called => exact absurd h live.2.1
  | «over» => exact absurd h live.2.2

lemma onCase_fault (c : Conversation) (fault : Fault) : OnCase c (c.fault fault) :=
  .aborted _ _ (concludes_endingOr c _)

lemma on_cases (live : c.pending ≠ 0 → c.phase ≠ .ready ∧ c.phase ≠ .called ∧ c.phase ≠ .over)
    (event : Event) : OnCase c (c.on event) := by
  cases event with
  | stopRequested | deadlinePassed => exact .aborted _ _ (concludes_endingOr c _)
  | channelFailed error => exact .aborted _ _ (concludes_transportFault c error)
  | received message =>
    simp only [on, received]
    by_cases hp : c.pending = 0
    · rw [if_pos hp]
      exact onCase_fault c _
    · rw [if_neg hp]
      cases hrd : readReply message c.pending c.answered c.limits.responseBytes with
      | error fault => exact onCase_fault c fault
      | ok reply =>
        cases reply with
        | none => exact .skipped hp
        | some reply => exact onCase_replied hp (live hp) reply

inductive CallCase (c : Conversation) (kind : CallKind) : Conversation × Step → Prop
  | refused (code : RefusalCode) (message : String) (h : c.phase = .ready) :
      CallCase c kind (c, .answered [] ⟨.refused code message, []⟩)
  | sent (negotiated : Negotiated) (operation : Operation)
      (params : List (String × Json)) (h : c.phase = .ready)
      (hn : c.negotiated = some negotiated)
      (offered : operation ∈ negotiated.offer.operations) :
      CallCase c kind
        ({ c with phase := .calling kind operation, pending := c.nextId
                  nextId := c.nextId + 1 },
          .exchange [requestMessage c.nextId operation.toString params] c.nextId)

lemma checkCall_ok {negotiated : Negotiated} {expected : Claims} {call : Call} {message : Message}
    {operation : Operation} (h : c.checkCall negotiated expected call = .ok (message, operation)) :
    operation ∈ negotiated.offer.operations ∧
      ∃ params, message = requestMessage c.nextId operation.toString params := by
  simp only [checkCall] at h
  split_ifs at h with hoff hcla
  cases hpar : sentParams negotiated call with
  | error text => simp [hpar] at h
  | ok params =>
    simp only [hpar] at h
    split_ifs at h with hsz
    cases hpro : c.requestProblem (call.kind.operation negotiated.offer) params with
    | some problem => simp [hpro] at h
    | none =>
      simp only [hpro] at h
      obtain ⟨rfl, rfl⟩ := h
      exact ⟨by simpa using hoff, params, rfl⟩

variable {result : Conversation × Step}

lemma call_cases {call : Call} (h : c.call call = .ok result) : CallCase c call.kind result := by
  unfold Conversation.call at h
  split at h
  next negotiated expected hph hneg hexp =>
    cases hchk : c.checkCall negotiated expected call with
    | error refusal =>
      obtain ⟨code, message⟩ := refusal
      simp only [hchk, Except.ok.injEq] at h
      exact h ▸ .refused code message hph
    | ok sent =>
      obtain ⟨message, operation⟩ := sent
      obtain ⟨offered, params, rfl⟩ := checkCall_ok hchk
      simp only [hchk, Except.ok.injEq] at h
      exact h ▸ .sent negotiated operation params hph hneg offered
  next => cases h

lemma close_cases (h : c.close = .ok result) :
    (c.phase = .ready ∨ c.phase = .called) ∧ result = c.shutdown .shuttingDown := by
  unfold close at h
  split at h
  next hph => exact ⟨.inl hph, (Except.ok.inj h).symm⟩
  next hph => exact ⟨.inr hph, (Except.ok.inj h).symm⟩
  next => cases h

end Conversation

end Morphir.Host
