import Morphir.Host.Session

/-!
# The protocol that a session keeps

The phase of a conversation determines the methods it has sent.  From this
every run sends a prefix of one of the sequences of its start, with one
request at a time under increasing IDs, and keeps its first refusal.
-/

namespace Morphir.Host

open Conversation List Step

def methods (sent : List Message) : List (Option String) := sent.map Message.method

@[simp] lemma methods_append (left right : List Message) :
    methods (left ++ right) = methods left ++ methods right := by
  simp [methods]

namespace Start

def offer? : Start → Option Offer
  | .probe _ => none
  | .activate offer _ _ => some offer

def Allows (start : Start) (sent : List (Option String)) : Prop :=
  ∃ sequence ∈ start.sequences, sent <+: sequence.map some

inductive Stage (start : Start) : Phase → List (Option String) → Prop
  | describing (h : start.offer? = none) :
      Stage start .describing [some "morphir.extension.describe"]
  | initializing {offer : Offer} (h : start.offer? = some offer) (expected : Claims) :
      Stage start (.initializing offer expected) [some "morphir.initialize"]
  | refusing {offer : Offer} (h : start.offer? = some offer) (ending : Ending) :
      Stage start (.refusing ending) [some "morphir.initialize", some "morphir.shutdown"]
  | ready {offer : Offer} (h : start.offer? = some offer) :
      Stage start .ready [some "morphir.initialize", some "morphir.initialized"]
  | calling {offer : Offer} (h : start.offer? = some offer) (kind : CallKind)
      {operation : Operation} (ho : operation ∈ offer.operations) :
      Stage start (.calling kind operation)
        [some "morphir.initialize", some "morphir.initialized", some operation.toString]
  | called {offer : Offer} (h : start.offer? = some offer)
      {operation : Operation} (ho : operation ∈ offer.operations) :
      Stage start .called
        [some "morphir.initialize", some "morphir.initialized", some operation.toString]
  | closing {offer : Offer} (h : start.offer? = some offer) :
      Stage start .shuttingDown
        [some "morphir.initialize", some "morphir.initialized", some "morphir.shutdown"]
  | closingCalled {offer : Offer} (h : start.offer? = some offer)
      {operation : Operation} (ho : operation ∈ offer.operations) :
      Stage start .shuttingDown
        [some "morphir.initialize", some "morphir.initialized", some operation.toString,
          some "morphir.shutdown"]
  | «over» {sent : List (Option String)} (h : start.Allows sent) : Stage start .over sent

variable {start : Start} {offer : Offer}

lemma sequences_of_offer? (h : start.offer? = some offer) :
    start.sequences =
      [["morphir.initialize", "morphir.shutdown", "morphir.exit"],
        ["morphir.initialize", "morphir.exit"],
        ["morphir.initialize", "morphir.initialized", "morphir.shutdown", "morphir.exit"]] ++
      offer.operations.map fun operation =>
        ["morphir.initialize", "morphir.initialized", operation.toString, "morphir.shutdown",
          "morphir.exit"] := by
  cases start with
  | probe limits => simp [offer?] at h
  | activate offer' expected limits =>
    obtain rfl : offer' = offer := by simpa [offer?] using h
    rfl

lemma sequences_of_probe (h : start.offer? = none) :
    start.sequences = [["morphir.extension.describe", "morphir.exit"]] := by
  cases start with
  | probe limits => rfl
  | activate offer expected limits => simp [offer?] at h

variable {sent : List (Option String)}

lemma Allows.of_mem (sequence : List String) (h : sequence ∈ start.sequences)
    (hp : sent <+: sequence.map some) : start.Allows sent :=
  ⟨sequence, h, hp⟩

variable {operation : Operation}

lemma mem_sequences_operation (h : start.offer? = some offer) (ho : operation ∈ offer.operations) :
    ["morphir.initialize", "morphir.initialized", operation.toString, "morphir.shutdown",
      "morphir.exit"] ∈ start.sequences := by
  rw [sequences_of_offer? h]
  exact mem_append_right _ (mem_map.mpr ⟨operation, ho, rfl⟩)

lemma Stage.allows_exit {phase : Phase} (h : Stage start phase sent) (hx : Exits phase) :
    start.Allows (sent ++ [some "morphir.exit"]) := by
  cases h with
  | describing h =>
    refine .of_mem ["morphir.extension.describe", "morphir.exit"] ?_ ?_
    · simp [sequences_of_probe h]
    · simp
  | initializing h =>
    refine .of_mem ["morphir.initialize", "morphir.exit"] ?_ ?_
    · simp [sequences_of_offer? h]
    · simp
  | refusing h =>
    refine .of_mem ["morphir.initialize", "morphir.shutdown", "morphir.exit"] ?_ ?_
    · simp [sequences_of_offer? h]
    · simp
  | closing h =>
    refine .of_mem
      ["morphir.initialize", "morphir.initialized", "morphir.shutdown", "morphir.exit"] ?_ ?_
    · simp [sequences_of_offer? h]
    · simp
  | closingCalled h ho => exact .of_mem _ (mem_sequences_operation h ho) (by simp)
  | ready h | calling h kind ho | called h ho | «over» h => simp [Exits] at hx

lemma Stage.allows {phase : Phase} (h : Stage start phase sent) : start.Allows sent := by
  have hends (hx : Exits phase) : start.Allows sent :=
    let ⟨sequence, hseq, hp⟩ := h.allows_exit hx
    ⟨sequence, hseq, (prefix_append _ _).trans hp⟩
  cases h with
  | ready h =>
    refine .of_mem
      ["morphir.initialize", "morphir.initialized", "morphir.shutdown", "morphir.exit"] ?_ ?_
    · simp [sequences_of_offer? h]
    · simp
  | calling h kind ho | called h ho => exact .of_mem _ (mem_sequences_operation h ho) (by simp)
  | «over» h => exact h
  | _ => exact hends (by simp [Exits])

lemma Stage.initializing_inv {expected : Claims}
    (h : Stage start (.initializing offer expected) sent) :
    start.offer? = some offer ∧ sent = [some "morphir.initialize"] := by
  cases h with
  | initializing h => exact ⟨h, rfl⟩

lemma Stage.ready_inv (h : Stage start .ready sent) :
    ∃ offer, start.offer? = some offer ∧
      sent = [some "morphir.initialize", some "morphir.initialized"] := by
  cases h with
  | ready h => exact ⟨_, h, rfl⟩

lemma Stage.calling_inv {kind : CallKind} (h : Stage start (.calling kind operation) sent) :
    ∃ offer, start.offer? = some offer ∧ operation ∈ offer.operations ∧
      sent = [some "morphir.initialize", some "morphir.initialized",
        some operation.toString] := by
  cases h with
  | calling h _ ho => exact ⟨_, h, ho, rfl⟩

lemma Stage.called_inv (h : Stage start .called sent) :
    ∃ offer operation, start.offer? = some offer ∧ operation ∈ offer.operations ∧
      sent = [some "morphir.initialize", some "morphir.initialized",
        some operation.toString] := by
  cases h with
  | called h ho => exact ⟨_, _, h, ho, rfl⟩

end Start

def Phase.Idle : Phase → Prop
  | .ready | .called | .over => True
  | _ => False

/-- What holds of a conversation and of all the messages it has sent. -/
structure Keeps (start : Start) (c : Conversation) (sent : List Message) : Prop where
  stage : start.Stage c.phase (methods sent)
  idle : c.phase.Idle ↔ c.pending = 0
  answered : ∃ outstanding, requestIds sent = c.answered ++ outstanding ∧
    outstanding.length ≤ 1 ∧ (c.phase.Idle → c.phase = .over ∨ outstanding = []) ∧
    (¬ c.phase.Idle → outstanding = [c.pending])
  increasing : (requestIds sent).Pairwise (· < ·)
  fresh : ∀ id ∈ requestIds sent, id < c.nextId
  counted : c.nextId = (requestIds sent).length + 1
  offered : ∀ negotiated, c.negotiated = some negotiated → start.offer? = some negotiated.offer

namespace Keeps

variable {start : Start} {c : Conversation} {sent : List Message}

lemma begin (start : Start) : Keeps start start.begin.1 start.begin.2.sends := by
  cases start with
  | probe limits =>
    refine ⟨.describing rfl, ?_, ⟨[1], ?_⟩, ?_, ?_, ?_, ?_⟩ <;>
      simp [Start.begin, probe, sends, describeMessage, requestIds, Phase.Idle]
  | activate offer expected limits =>
    refine ⟨.initializing rfl expected, ?_, ⟨[1], ?_⟩, ?_, ?_, ?_, ?_⟩ <;>
      simp [Start.begin, activate, sends, initializeMessage, requestIds, Phase.Idle]

section

variable (h : Keeps start c sent)

include h

lemma answered_pending (hp : c.pending ≠ 0) : requestIds sent = c.answered ++ [c.pending] := by
  obtain ⟨outstanding, hids, _, _, hwai⟩ := h.answered
  rw [hids, hwai fun hid => hp (h.idle.mp hid)]

lemma answered_idle (hid : c.phase.Idle) (hover : c.phase ≠ .over) :
    requestIds sent = c.answered := by
  obtain ⟨outstanding, hids, _, hno, _⟩ := h.answered
  rw [hids, (hno hid).resolve_left hover, append_nil]

lemma live (hp : c.pending ≠ 0) : c.phase ≠ .ready ∧ c.phase ≠ .called ∧ c.phase ≠ .over := by
  refine ⟨?_, ?_, ?_⟩ <;> intro hph <;> exact hp (h.idle.mp (by simp [hph, Phase.Idle]))

lemma finish (stop : StopPlan) (conclusion : Conclusion) {sends : List Message}
    (quiet : requestIds sends = []) (hall : start.Allows (methods (sent ++ sends))) :
    Keeps start (c.finish stop conclusion sends).1 (sent ++ sends) := by
  refine ⟨.over hall, ?_, ?_, ?_, ?_, ?_, h.offered⟩
  · simp [Conversation.finish, Phase.Idle]
  · obtain ⟨outstanding, hids, hlen, _, _⟩ := h.answered
    refine ⟨outstanding, ?_, hlen, ?_, ?_⟩
    · simp [quiet, hids, Conversation.finish]
    · simp [Conversation.finish]
    · simp [Conversation.finish, Phase.Idle]
  · simpa [quiet] using h.increasing
  · simpa [quiet, Conversation.finish] using h.fresh
  · simpa [quiet, Conversation.finish] using h.counted

lemma request {answered : List Int} (hids : requestIds sent = answered) {phase : Phase}
    (hidle : ¬ phase.Idle) (message : Message) (hid : message.id = some c.nextId) {method : String}
    (hmet : message.method = some method)
    (hstage : start.Stage phase (methods sent ++ [some method])) :
    Keeps start { c with phase, answered, pending := c.nextId, nextId := c.nextId + 1 }
      (sent ++ [message]) := by
  have hreq : requestIds [message] = [c.nextId] := by simp [requestIds, hid]
  have hpos : c.nextId ≠ 0 := by
    have hcou := h.counted
    omega
  refine ⟨?_, ?_, ⟨[c.nextId], ?_⟩, ?_, ?_, ?_, h.offered⟩
  · simpa [methods, hmet] using hstage
  · simp [hidle, hpos]
  · refine ⟨?_, by simp, ?_, by simp⟩
    · simp [hreq, hids]
    · intro hcon
      exact absurd hcon hidle
  · rw [requestIds_append, hreq, pairwise_append]
    refine ⟨h.increasing, by simp, ?_⟩
    intro id hmem other ho
    rw [mem_singleton.mp ho]
    exact h.fresh id hmem
  · intro id hmem
    rw [requestIds_append, hreq, mem_append] at hmem
    rcases hmem with hold | hnew
    · have hlt := h.fresh id hold
      show id < c.nextId + 1
      omega
    · rw [mem_singleton.mp hnew]
      show c.nextId < c.nextId + 1
      omega
  · have hcou := h.counted
    simp only [requestIds_append, hreq, length_append, length_singleton]
    omega

lemma idling (hp : c.pending ≠ 0) (phase : Phase) (hid : phase.Idle) {limits : Limits}
    {negotiated : Option Negotiated} (hoff : ∀ n, negotiated = some n → start.offer? = some n.offer)
    {sends : List Message} (quiet : requestIds sends = [])
    (hstage : start.Stage phase (methods (sent ++ sends))) :
    Keeps start { c.acknowledged with phase, pending := 0, limits, negotiated } (sent ++ sends) := by
  refine ⟨hstage, by simp [hid], ⟨[], ?_, by simp, by simp, ?_⟩, ?_, ?_, ?_, hoff⟩
  · simp [quiet, h.answered_pending hp, acknowledged]
  · intro hcon
    exact absurd hid hcon
  · simpa [quiet] using h.increasing
  · simpa [quiet, acknowledged] using h.fresh
  · simpa [quiet, acknowledged] using h.counted

lemma on (event : Event) : Keeps start (c.on event).1 (sent ++ (c.on event).2.sends) := by
  have hc := on_cases h.live event
  generalize c.on event = result at hc
  cases hc with
  | aborted stop conclusion _ =>
    refine h.finish stop conclusion rfl ?_
    simpa using h.stage.allows
  | skipped hp => simpa [sends] using h
  | exited conclusion hp hx _ =>
    have hans : Keeps start (c.acknowledged.exit conclusion).1
        (sent ++ [notificationMessage "morphir.exit"]) := by
      refine ⟨?_, ?_, ⟨[], ?_⟩, ?_, ?_, ?_, h.offered⟩
      · refine .over ?_
        simpa [methods] using h.stage.allows_exit hx
      · simp [Conversation.exit, Conversation.finish, Phase.Idle]
      · simp [Conversation.exit, Conversation.finish, acknowledged, Phase.Idle, requestIds,
          ← h.answered_pending hp]
      · simpa [requestIds] using h.increasing
      · simpa [requestIds, Conversation.exit, Conversation.finish, acknowledged] using h.fresh
      · simpa [requestIds, Conversation.exit, Conversation.finish, acknowledged] using h.counted
    exact hans
  | refused offer expected ending hp hph =>
    obtain ⟨hof, hmet⟩ := (hph ▸ h.stage).initializing_inv
    refine h.request (h.answered_pending hp) (by simp [Phase.Idle])
      (shutdownMessage c.nextId) (by simp [shutdownMessage])
      (show _ = some "morphir.shutdown" by simp [shutdownMessage]) ?_
    rw [hmet]
    exact .refusing hof ending
  | initialized offer expected tuple limits hp hph =>
    obtain ⟨hof, hmet⟩ := (hph ▸ h.stage).initializing_inv
    refine h.idling hp .ready trivial ?_ rfl ?_
    · rintro negotiated ⟨⟩
      exact hof
    · rw [methods_append, hmet]
      exact .ready hof
  | called kind operation answer hp hph =>
    obtain ⟨offer, hof, ho, hmet⟩ := (hph ▸ h.stage).calling_inv
    refine h.idling hp .called trivial h.offered rfl ?_
    rw [methods_append, hmet]
    exact .called hof ho

end

variable {result : Conversation × Step}

section

variable (h : Keeps start c sent)

include h

lemma call {call : Call} (hca : c.call call = .ok result) :
    Keeps start result.1 (sent ++ result.2.sends) := by
  cases call_cases hca with
  | refused code message hph => simpa [sends] using h
  | sent negotiated operation params hph hn ho =>
    obtain ⟨offer, hof, hmet⟩ := (hph ▸ h.stage).ready_inv
    obtain rfl : offer = negotiated.offer := Option.some.inj (hof.symm.trans (h.offered _ hn))
    refine h.request (h.answered_idle (by simp [hph, Phase.Idle]) (by simp [hph]))
      (by simp [Phase.Idle]) _ (id_requestMessage _ _ _) (method_requestMessage _ _ _) ?_
    rw [hmet]
    exact .calling hof call.kind ho

lemma close (hclo : c.close = .ok result) : Keeps start result.1 (sent ++ result.2.sends) := by
  obtain ⟨hph, rfl⟩ := close_cases hclo
  have hid : c.phase.Idle := by rcases hph with hph | hph <;> simp [hph, Phase.Idle]
  have hlive : c.phase ≠ .over := by rcases hph with hph | hph <;> simp [hph]
  refine h.request (h.answered_idle hid hlive) (by simp [Phase.Idle])
    (shutdownMessage c.nextId) (by simp [shutdownMessage])
    (show _ = some "morphir.shutdown" by simp [shutdownMessage]) ?_
  rcases hph with hph | hph
  · obtain ⟨offer, hof, hmet⟩ := (hph ▸ h.stage).ready_inv
    rw [hmet]
    exact .closing hof
  · obtain ⟨offer, operation, hof, ho, hmet⟩ := (hph ▸ h.stage).called_inv
    rw [hmet]
    exact .closingCalled hof ho

lemma raised {result : Except SessionUnavailable (Conversation × Step)}
    (hok : ∀ r, result = .ok r → Keeps start r.1 (sent ++ r.2.sends)) :
    Keeps start (react.raised c result).1
      (sent ++ sentBy (react.raised c result).2.toList) := by
  cases result with
  | error unavailable => simpa [react.raised] using h
  | ok r => simpa [react.raised] using hok r rfl

lemma react (input : Input) :
    Keeps start (c.react input).1 (sent ++ sentBy (c.react input).2.toList) := by
  cases input with
  | event event => simpa [Conversation.react] using h.on event
  | compile params | generate params => exact h.raised fun r hr => h.call hr
  | close => exact h.raised fun r hr => h.close hr

lemma run (inputs : List Input) :
    Keeps start (c.run inputs).1 (sent ++ sentBy (c.run inputs).2) := by
  induction inputs generalizing c sent with
  | nil => simpa using h
  | cons input inputs ih =>
    have hr := ih (h.react input)
    simpa [Conversation.run] using hr

end

end Keeps

lemma Start.keeps (start : Start) (inputs : List Input) :
    Keeps start (start.run inputs).1 (sentBy (start.run inputs).2) := by
  simpa [Start.run] using (Keeps.begin start).run inputs

variable {c : Conversation}

lemma react_over (h : c.phase = .over) (hp : c.pending = 0) (input : Input) :
    (c.react input).1.phase = .over ∧ (c.react input).1.pending = 0 ∧
      sentBy (c.react input).2.toList = [] := by
  cases input with
  | event event =>
    cases event <;>
      simp [react, Conversation.on, received, hp, fault, finish, sends]
  | compile params | generate params => simp [react, react.raised, Conversation.call, h, hp]
  | close => simp [react, react.raised, Conversation.close, h, hp]

lemma run_over (h : c.phase = .over) (hp : c.pending = 0) (inputs : List Input) :
    sentBy (c.run inputs).2 = [] := by
  induction inputs generalizing c with
  | nil => simp
  | cons input inputs ih =>
    obtain ⟨hph, hpd, hsends⟩ := react_over h hp input
    simp [run, hsends, ih hph hpd]

lemma over_of_finished
    (live : c.pending ≠ 0 → c.phase ≠ .ready ∧ c.phase ≠ .called ∧ c.phase ≠ .over) {input : Input}
    {step : Step} (h : (c.react input).2 = some step) (hf : step.conclusion?.isSome) :
    (c.react input).1.phase = .over ∧ (c.react input).1.pending = 0 := by
  have hca : ∀ call : Call,
      (react.raised c (c.call call)).2 = some step → False := by
    intro call hs
    cases hres : c.call call with
    | error unavailable => simp [hres, react.raised] at hs
    | ok result =>
      simp only [hres, react.raised, Option.some.injEq] at hs
      cases call_cases hres <;> simp [← hs, conclusion?] at hf
  cases input with
  | event event =>
    have hc := on_cases live event
    simp only [react, Option.some.injEq] at h ⊢
    generalize c.on event = result at hc h ⊢
    cases hc with
    | aborted stop conclusion _ => simp [finish]
    | exited conclusion hp hx _ => simp [Conversation.exit, finish]
    | skipped hp | initialized offer expected tuple limits hp hph
    | called kind operation answer hp hph => simp [← h, conclusion?] at hf
    | refused offer expected ending hp hph => simp [← h, shutdown, conclusion?] at hf
  | compile params => exact absurd h (hca _)
  | generate params => exact absurd h (hca _)
  | close =>
    cases hres : c.close with
    | error unavailable => simp [react, hres, react.raised] at h
    | ok result =>
      obtain ⟨hph, rfl⟩ := close_cases hres
      simp only [react, hres, react.raised, Option.some.injEq] at h
      simp [← h, shutdown, conclusion?] at hf

lemma Keeps.over_of_run {start : Start} {sent : List Message} (h : Keeps start c sent)
    {inputs : List Input} (hf : (conclusionOf (c.run inputs).2).isSome) :
    (c.run inputs).1.phase = .over ∧ (c.run inputs).1.pending = 0 := by
  have stays : ∀ {c : Conversation}, c.phase = .over → c.pending = 0 → ∀ inputs,
      (c.run inputs).1.phase = .over ∧ (c.run inputs).1.pending = 0 := by
    intro c hph hpd inputs
    induction inputs generalizing c with
    | nil => exact ⟨hph, hpd⟩
    | cons input inputs ih =>
      obtain ⟨hph', hpd', _⟩ := react_over hph hpd input
      exact ih hph' hpd'
  induction inputs generalizing c sent with
  | nil => simp [conclusionOf] at hf
  | cons input inputs ih =>
    show ((c.react input).1.run inputs).1.phase = .over ∧
      ((c.react input).1.run inputs).1.pending = 0
    cases hs : (c.react input).2 with
    | none =>
      refine ih (h.react input) ?_
      simpa [Conversation.run, hs] using hf
    | some step =>
      by_cases hcon : step.conclusion?.isSome
      · obtain ⟨hph, hpd⟩ := over_of_finished h.live hs hcon
        exact stays hph hpd inputs
      · refine ih (h.react input) ?_
        simpa [conclusionOf, Conversation.run, hs, hcon] using hf

lemma react_refusing {ending : Ending} (h : c.phase = .refusing ending) (input : Input) :
    (c.react input).1.phase = .refusing ending ∧ sentBy (c.react input).2.toList = [] ∧
        conclusionOf (c.react input).2.toList = none ∨
      conclusionOf (c.react input).2.toList = some (.endedEarly ending) := by
  cases input with
  | event event =>
    have live : c.pending ≠ 0 → c.phase ≠ .ready ∧ c.phase ≠ .called ∧ c.phase ≠ .over := by
      simp [h]
    have hcase := on_cases live event
    simp only [react]
    generalize c.on event = result at hcase
    cases hcase with
    | aborted stop conclusion hc =>
      have hcon : conclusion = .endedEarly ending := by simpa [h, Concludes] using hc
      exact .inr (by simp [conclusionOf, finish, conclusion?, hcon])
    | exited conclusion hp hx hc =>
      have hcon : conclusion = .endedEarly ending := by simpa [h, Concludes] using hc
      exact .inr (by
        simp [conclusionOf, Conversation.exit, finish, conclusion?, hcon])
    | skipped hp => exact .inl ⟨h, by simp [sends], by simp [conclusionOf, conclusion?]⟩
    | refused offer expected ending' hp hph | initialized offer expected tuple limits hp hph
    | called kind operation answer hp hph => simp [h] at hph
  | compile params | generate params =>
    exact .inl (by simp [react, react.raised, Conversation.call, h, conclusionOf])
  | close => exact .inl (by simp [react, react.raised, Conversation.close, h, conclusionOf])

lemma run_refusing {ending : Ending} (h : c.phase = .refusing ending) (inputs : List Input) :
    (c.run inputs).1.phase = .refusing ending ∧ sentBy (c.run inputs).2 = [] ∧
        conclusionOf (c.run inputs).2 = none ∨
      conclusionOf (c.run inputs).2 = some (.endedEarly ending) := by
  induction inputs generalizing c with
  | nil => exact .inl ⟨h, rfl, rfl⟩
  | cons input inputs ih =>
    have happ : conclusionOf (c.run (input :: inputs)).2 =
        (conclusionOf (c.react input).2.toList).or
          (conclusionOf ((c.react input).1.run inputs).2) := by
      simp [conclusionOf, Conversation.run]
    rcases react_refusing h input with ⟨hph, hsends, hno⟩ | hended
    · rcases ih hph with ⟨hph', hsends', hno'⟩ | hended
      · refine .inl ⟨hph', ?_, ?_⟩
        · simp [Conversation.run, hsends, hsends']
        · rw [happ, hno, hno', Option.none_or]
      · exact .inr (by rw [happ, hno, hended, Option.none_or])
    · exact .inr (by rw [happ, hended, Option.some_or])

/-- The protocol of every run: one request at a time under increasing IDs,
the methods of an allowed sequence, silence after the end, and a first refusal
that stays the ending. -/
theorem Start.run_protocol (start : Start) (inputs : List Input) :
    (∃ outstanding, requestIds (sentBy (start.run inputs).2) =
        (start.run inputs).1.answered ++ outstanding ∧
      outstanding.length ≤ 1 ∧
      ((start.run inputs).1.phase ≠ .over → outstanding = (start.run inputs).1.awaited)) ∧
    (requestIds (sentBy (start.run inputs).2)).Pairwise (· < ·) ∧
    (∃ sequence ∈ start.sequences, methods (sentBy (start.run inputs).2) <+: sequence.map some) ∧
    ((conclusionOf (start.run inputs).2).isSome →
      ∀ more, sentBy ((start.run inputs).1.run more).2 = []) ∧
    ∀ ending, (start.run inputs).1.phase = .refusing ending → ∀ more,
      (conclusionOf ((start.run inputs).1.run more).2 = none ∧
        ((start.run inputs).1.run more).1.phase = .refusing ending) ∨
      conclusionOf ((start.run inputs).1.run more).2 = some (.endedEarly ending) := by
  have hkeeps := start.keeps inputs
  refine ⟨?_, hkeeps.increasing, hkeeps.stage.allows, ?_, ?_⟩
  · obtain ⟨outstanding, hids, hlen, hno, hone⟩ := hkeeps.answered
    refine ⟨outstanding, hids, hlen, fun hlive => ?_⟩
    by_cases hid : (start.run inputs).1.phase.Idle
    · rw [(hno hid).resolve_left hlive, awaited, if_pos (hkeeps.idle.mp hid)]
    · rw [hone hid, awaited, if_neg fun hp => hid (hkeeps.idle.mpr hp)]
  · intro hfin more
    have hfst : start.begin.2.conclusion? = none := by cases start <;> rfl
    have hrun : (conclusionOf (start.begin.1.run inputs).2).isSome := by
      simpa [conclusionOf, Start.run, hfst] using hfin
    obtain ⟨hph, hpd⟩ := (Keeps.begin start).over_of_run hrun
    exact run_over hph hpd more
  · intro ending hph more
    rcases run_refusing hph more with ⟨hstays, _, hno⟩ | hended
    · exact .inl ⟨hno, hstays⟩
    · exact .inr hended

def elmClaims : Claims :=
  { extensionId := "morphir-elm", version := "2.1.0", protocolLines := [.mep0_1]
    operations := [.compile], languages := [⟨"elm", [".elm"]⟩], frontendIrVersions := ["3"]
    frontendFlags := ⟨false, false⟩, targets := [], backendIrVersions := []
    modelTuples := [] }

/-- An answer to `initialize` that selects the legacy line and claims nothing. -/
def emptyAnswer : Message :=
  .new [("jsonrpc", .string "2.0"), ("id", Json.ofInt 1),
    ("result", .object [("protocolVersion", .string "0.1")])]

lemma methods_refused :
    methods (sentBy (Start.run (.activate .legacy elmClaims .host)
      [.event (.received emptyAnswer)]).2) =
      [some "morphir.initialize", some "morphir.shutdown"] := by
  decide +kernel

theorem not_forall_orderly :
    ¬ ∀ (start : Start) (inputs : List Input), ∃ sequence ∈ start.orderly,
      methods (sentBy (start.run inputs).2) <+: sequence.map some := by
  intro h
  obtain ⟨sequence, hmem, hpre⟩ :=
    h (.activate .legacy elmClaims .host) [.event (.received emptyAnswer)]
  rw [methods_refused] at hpre
  revert sequence
  decide

end Morphir.Host
