import Morphir.Host.SessionProtocol
import Morphir.Library.Base64

/-!
# Model negotiation

What a worker agreed to when a session becomes active on the model line, and what
a later request of that session names and carries.
-/

namespace Morphir.Host

open List Option Nat Int Start

/-- The tuples that an answer to `initialize` selects. -/
def selectedItems (result : Json) : List Json :=
  match fieldAt result ["capabilities", "modelTransport", "tuples"] with
  | some (.array items) => items
  | _ => []

lemma sublist_drop_cons {α : Type} {offered tail : List α} {first i : Nat} {a : α}
    (hi : first ≤ i) (ha : offered[i]? = some a) (htl : tail.Sublist (offered.drop (i + 1))) :
    (a :: tail).Sublist (offered.drop first) := by
  obtain ⟨hlen, rfl⟩ := List.getElem?_eq_some_iff.mp ha
  have hdr : offered.drop i = offered[i] :: offered.drop (i + 1) := drop_eq_getElem_cons hlen
  refine (htl.cons_cons offered[i]).trans ?_
  rw [← hdr]
  exact drop_sublist_drop_left offered hi

variable {offered : List ModelTuple}

lemma agreementProblem_none {items : List Json} {last : Option Nat}
    (h : agreementProblem offered last items = none) :
    ∃ selected : List ModelTuple, items.map tupleOf = selected.map some ∧
      selected.Sublist (offered.drop (last.elim 0 (· + 1))) ∧ selected.Nodup ∧
      ∀ tuple ∈ selected, ∃ i, offered.findIdx? (· == tuple) = some i ∧ last.all (· < i) := by
  induction items generalizing last with
  | nil => exact ⟨[], rfl, nil_sublist _, nodup_nil, nofun⟩
  | cons item items ih =>
    simp only [agreementProblem] at h
    split at h
    · cases h
    · rename_i index hix
      obtain ⟨tuple, htu, hfn⟩ := bind_eq_some_iff.mp hix
      split at h
      · rename_i hl
        obtain ⟨selected, hits, hsub, hnd, hbeh⟩ := ih h
        have hget : offered[index]? = some tuple := by
          obtain ⟨hlen, heq, _⟩ := List.findIdx?_eq_some_iff_getElem.mp hfn
          rw [List.getElem?_eq_getElem hlen, eq_of_beq heq]
        refine ⟨tuple :: selected, by rw [map_cons, map_cons, htu, hits],
          sublist_drop_cons ?_ hget hsub, nodup_cons.mpr ⟨fun hmem => ?_, hnd⟩, ?_⟩
        · cases last with
          | none => exact zero_le _
          | some last => exact succ_le_of_lt (by simpa using hl)
        · obtain ⟨i, hi, hlt⟩ := hbeh tuple hmem
          obtain rfl := Option.some.inj (hfn.symm.trans hi)
          simp at hlt
        · intro other ho
          rcases mem_cons.mp ho with rfl | ho
          · exact ⟨index, hfn, hl⟩
          · obtain ⟨i, hi, hlt⟩ := hbeh other ho
            refine ⟨i, hi, ?_⟩
            cases last with
            | none => rfl
            | some last =>
              simp only [all_some, decide_eq_true_eq] at hl hlt ⊢
              omega
      · cases h

variable {tuple : ModelTuple}

def itemsAgreement (offered : List ModelTuple) (items : List Json) : Agreement :=
  match agreementProblem offered none items with
  | some text => .mismatch text
  | none =>
    match items.head?.bind tupleOf with
    | some tuple => .agreed tuple
    | none => .empty

lemma agreement_agreed {result : Json} (h : agreement offered result = .agreed tuple) :
    ∃ selected : List ModelTuple, (selectedItems result).map tupleOf = selected.map some ∧
      selected.head? = some tuple ∧ selected.Sublist offered ∧ selected.Nodup := by
  have hits : agreement offered result = itemsAgreement offered (selectedItems result) := rfl
  rw [hits, itemsAgreement] at h
  split at h
  · cases h
  · rename_i hpro
    obtain ⟨selected, hsel, hsub, hnd, _⟩ := agreementProblem_none hpro
    refine ⟨selected, hsel, ?_, hsub, hnd⟩
    split at h
    · rename_i first hfst
      obtain rfl := Agreement.agreed.inj h
      obtain ⟨item, hi, htu⟩ := bind_eq_some_iff.mp hfst
      have hh := congrArg List.head? hsel
      rw [List.head?_map, List.head?_map, hi, map_some, htu] at hh
      cases hsel : selected.head? with
      | none =>
        rw [hsel] at hh
        cases hh
      | some other =>
        rw [hsel] at hh
        exact (Option.some.inj hh).symm
    · cases h

structure ModelLimits.AtMost (a b : ModelLimits) : Prop where
  encodedBytes : a.encodedBytes ≤ b.encodedBytes
  decodedBytes : a.decodedBytes ≤ b.decodedBytes
  depth : a.depth ≤ b.depth
  nodes : a.nodes ≤ b.nodes

lemma ModelLimits.min_left (a b : ModelLimits) : (a.min b).AtMost a :=
  ⟨min_le_left _ _, min_le_left _ _, min_le_left _ _, min_le_left _ _⟩

lemma ModelLimits.min_right (a b : ModelLimits) : (a.min b).AtMost b :=
  ⟨min_le_right _ _, min_le_right _ _, min_le_right _ _, min_le_right _ _⟩

/-- What an answer to `initialize` agreed on the model line. -/
structure Settled (offer : Offer) (host : Limits) (result : Json) (tuple : ModelTuple)
    (limits : Limits) : Prop where
  tuples : ∃ offered selected : List ModelTuple, offer = .model offered ∧
    (selectedItems result).map tupleOf = selected.map some ∧ selected.head? = some tuple ∧
      tuple ∈ offered ∧ selected.Sublist offered ∧ selected.Nodup
  frames : limits.requestBytes ≤ host.requestBytes ∧ limits.responseBytes ≤ host.responseBytes
  model : limits.model.AtMost host.model ∧ ∃ worker : ModelLimits,
    readModelLimits (fieldAt result ["capabilities", "modelTransport"]) = .ok worker ∧
      limits.model.AtMost worker

lemma Conversation.negotiate_settled {c : Conversation} {offer : Offer} {expected : Claims}
    {result : Json} {limits : Limits}
    (h : c.negotiate offer expected result = .ok (some tuple, limits)) :
    Settled offer c.limits result tuple limits := by
  unfold negotiate at h
  split at h
  · cases h
  · split at h
    · cases h
    · unfold agree at h
      split at h
      · cases h
      · rename_i offered _
        split at h
        · cases h
        · cases h
        · rename_i agreed hagr
          split at h
          · cases h
          · rename_i worker hwor
            obtain ⟨htu, rfl⟩ := Prod.mk.inj (Except.ok.inj h)
            cases htu
            obtain ⟨selected, hits, hfst, hsub, hnd⟩ := agreement_agreed hagr
            have hmem := hsub.subset (mem_of_head? hfst)
            exact ⟨⟨offered, selected, rfl, hits, hfst, hmem, hsub, hnd⟩, ⟨le_refl _, le_refl _⟩,
              ModelLimits.min_left _ _, worker, hwor, ModelLimits.min_right _ _⟩

lemma base64Padding_some {length : Nat} {cs : List Char} {index padding total : Nat}
    (hix : index + cs.length ≤ length) (h : base64Padding length index padding cs = some total) :
    ∃ digits more, cs = digits ++ List.replicate more '=' ∧ total = padding + more ∧
      (∀ c ∈ digits, base64Digit c = true) ∧ (padding ≠ 0 → digits = []) ∧ more ≤ 2 := by
  induction cs generalizing index padding with
  | nil => exact ⟨[], 0, rfl, (Option.some.inj h).symm, nofun, fun _ => rfl, zero_le _⟩
  | cons c cs ih =>
    rw [length_cons] at hix
    simp only [base64Padding] at h
    split at h
    · rename_i hpad
      split at h
      · obtain ⟨digits, more, rfl, hto, _, hno, _⟩ := ih (by omega) h
        obtain rfl := hno (succ_ne_zero _)
        rw [nil_append, length_replicate] at hix
        refine ⟨[], more + 1, by rw [hpad]; rfl, by omega, nofun, fun _ => rfl, by omega⟩
      · cases h
    · split at h
      · rename_i hdig
        obtain ⟨digits, more, rfl, hto, hds, _, hm⟩ := ih (by omega) h
        refine ⟨c :: digits, more, rfl, hto, ?_, fun hne => absurd hdig.1 hne, hm⟩
        intro d hd
        rcases mem_cons.mp hd with rfl | hd
        · exact hdig.2
        · exact hds d hd
      · cases h

lemma base64Digit_value {c : Char} (h : base64Digit c = true) :
    (Base64.value c).isSome ∧ c.toNat < 0x10000 := by
  have hbe (d : Char) (hd : c ≤ d) : c.toNat ≤ d.toNat := by
    simpa [Char.le_def, UInt32.le_iff_toNat_le] using hd
  simp only [base64Digit, decide_eq_true_eq] at h
  unfold Base64.value
  rcases h with ⟨hlow, hhi⟩ | ⟨hlow, hhi⟩ | ⟨hlow, hhi⟩ | rfl | rfl
  · exact ⟨by rw [if_pos ⟨hlow, hhi⟩]; rfl, (hbe 'Z' hhi).trans_lt (by decide)⟩
  · exact ⟨by split_ifs <;> simp_all, (hbe 'z' hhi).trans_lt (by decide)⟩
  · exact ⟨by split_ifs <;> simp_all, (hbe '9' hhi).trans_lt (by decide)⟩
  · exact ⟨by decide, by decide⟩
  · exact ⟨by decide, by decide⟩

lemma length_le_utf16Length (text : String) : text.toList.length ≤ utf16Length text := by
  rw [utf16Length, codeUnits]
  induction text.toList with
  | nil => exact zero_le _
  | cons c cs ih =>
    rw [flatMap_cons, length_append, length_cons, add_comm]
    refine Nat.add_le_add ?_ ih
    dsimp only
    split
    · exact le_refl 1
    · exact le_succ 1

lemma utf16Length_eq {text : String} (h : ∀ c ∈ text.toList, c.toNat < 0x10000) :
    utf16Length text = text.toList.length := by
  rw [utf16Length, codeUnits]
  generalize text.toList = cs at h
  induction cs with
  | nil => rfl
  | cons c cs ih =>
    rw [flatMap_cons, length_append, length_cons, ih fun d hd => h d (mem_cons_of_mem c hd)]
    simp only [if_pos (h c mem_cons_self), length_singleton]
    omega

lemma base64DecodedLength_some {content : String} {length : Int}
    (h : base64DecodedLength content = some length) :
    ∃ bytes, Base64.decode content.toList = some bytes ∧ (bytes.length : Int) = length := by
  unfold base64DecodedLength at h
  dsimp only at h
  split_ifs at h with hgro
  obtain ⟨_, hlift, rfl⟩ := map_eq_some_iff.mp h
  obtain ⟨padding, hpad, hpure⟩ := bind_eq_some_iff.mp hlift
  cases hpure
  obtain ⟨digits, more, hct, hto, hds, _, hm⟩ :=
    base64Padding_some ((Nat.zero_add _).symm ▸ length_le_utf16Length content) hpad
  obtain rfl : padding = more := by omega
  have hlen : utf16Length content = digits.length + padding := by
    rw [utf16Length_eq, hct, length_append, length_replicate]
    intro c hc
    rw [hct] at hc
    rcases mem_append.mp hc with hc | hc
    · exact (base64Digit_value (hds c hc)).2
    · rw [eq_of_mem_replicate hc]
      decide
  rw [hlen] at hgro ⊢
  obtain ⟨bytes, hbs, hcnt⟩ := Base64.decode_padded digits
    (fun c hc => (base64Digit_value (hds c hc)).1) hm hgro
  exact ⟨bytes, hct ▸ hbs, by omega⟩

def PayloadFits (limits : ModelLimits) (payload : Json) : Prop :=
  ∃ content bytes, fieldAt payload ["content"] = some (.string content) ∧
    utf8Length content ≤ limits.encodedBytes ∧
      Base64.decode content.toList = some bytes ∧ bytes.length ≤ limits.decodedBytes ∧
        integer (fieldAt payload ["decodedByteLength"]) = some (bytes.length : Int)

lemma modelPayloadProblem_none {payload : Json} {limits : ModelLimits}
    (h : modelPayloadProblem (some payload) limits = none) : PayloadFits limits payload := by
  simp only [modelPayloadProblem] at h
  split at h
  · rename_i content hct
    split at h
    · cases h
    · rename_i declared hdc
      split_ifs at h with henc
      split at h
      · cases h
      · rename_i decoded hdec
        split_ifs at h with hsm hbd
        obtain ⟨bytes, hbs, hlen⟩ := base64DecodedLength_some hdec
        refine ⟨content, bytes, hct, not_lt.mp henc, hbs, ?_, ?_⟩
        · rw [hlen]
          exact not_lt.mp hbd
        · rw [hdc, hlen, not_not.mp hsm]
  · cases h

def CallKind.tupleMember : CallKind → String
  | .compileCall => "output"
  | .generateCall => "input"

/-- A request that names the agreed tuple and fits the agreed limits.  Only a
compile request has an IR version among its options. -/
structure Conforms (tuple : ModelTuple) (limits : Limits) (kind : CallKind) (message : Message) :
    Prop where
  names : ∃ value, fieldAt message.json ["params", kind.tupleMember] = some value ∧
    tupleOf value = some tuple
  version : kind = .compileCall → ∀ named,
    fieldAt message.json ["params", "options", "irVersion"] = some named →
      named = .string tuple.irVersion.toString
  frame : framedSize message.size ≤ limits.requestBytes
  payload : kind = .generateCall → ∀ payload,
    fieldAt message.json ["params", "model", "payload"] = some payload →
      PayloadFits limits.model payload

lemma fieldAt_params (id : Int) (methodName : String) (params : List (String × Json))
    (path : List String) :
    fieldAt (requestMessage id methodName params).json ("params" :: path) =
      fieldAt (.object params) path := by
  simp [requestMessage, Message.new, Message.json, fieldAt, OrdMap.get?]

namespace Conversation

variable {params : List (String × Json)}

lemma fieldAt_insert {key : String} {value : Json} {name : String} (path : List String)
    (h : name ≠ key) :
    fieldAt (.object (OrdMap.insert params key value)) (name :: path) =
      fieldAt (.object params) (name :: path) := by
  simp only [fieldAt]
  rw [OrdMap.get?_insert_ne _ _ h.symm]

variable {call : Call}

lemma tupleParams_names (h : tupleParams tuple call = .ok params) :
    ∃ value, fieldAt (.object params) [call.kind.tupleMember] = some value ∧
      tupleOf value = some tuple := by
  simp only [tupleParams] at h
  split_ifs at h
  split at h
  · cases h
    have hget : OrdMap.get? _ call.kind.tupleMember = some tuple.toJson :=
      OrdMap.get?_insert_self call.params call.kind.tupleMember tuple.toJson
    exact ⟨tuple.toJson, by exact congrArg (·.bind some) hget, tupleOf_toJson tuple⟩
  · rename_i value hval
    split_ifs at h with hns
    cases h
    exact ⟨value, by exact congrArg (·.bind some) hval, hns⟩

lemma tupleParams_version (h : tupleParams tuple call = .ok params) (hkd : call.kind = .compileCall)
    {named : Json} (hnm : fieldAt (.object params) ["options", "irVersion"] = some named) :
    named = .string tuple.irVersion.toString := by
  simp only [tupleParams, hkd] at h
  split_ifs at h with hagr
  have hsm : fieldAt (.object params) ["options", "irVersion"] =
      fieldAt (.object call.params) ["options", "irVersion"] := by
    split at h
    · cases h
      exact fieldAt_insert _ (by decide)
    · split_ifs at h
      rw [Except.ok.inj h]
  rw [← hsm, hnm] at hagr
  cases named with
  | string text => rw [eq_of_beq hagr]
  | _ => cases hagr

variable {negotiated : Negotiated}

lemma checkCall_conforms {c : Conversation} {expected : Claims} {message : Message}
    {operation : Operation} (htu : negotiated.tuple = some tuple)
    (hmo : ∃ tuples, negotiated.offer = .model tuples)
    (h : c.checkCall negotiated expected call = .ok (message, operation)) :
    Conforms tuple c.limits call.kind message := by
  obtain ⟨tuples, hof⟩ := hmo
  simp only [checkCall] at h
  split_ifs at h
  split at h
  · cases h
  · rename_i params hpar
    split_ifs at h with hfm
    split at h
    · cases h
    · rename_i hpro
      cases h
      rw [sentParams, htu] at hpar
      refine ⟨?_, fun hkd named hnm => ?_, not_lt.mp hfm, fun hkd payload hpay => ?_⟩
      · exact tupleParams_names hpar
      · exact tupleParams_version hpar hkd hnm
      · rw [Call.message, fieldAt_params] at hpay
        rw [requestProblem, if_pos (by rw [hkd, hof]; rfl), hpay] at hpro
        exact modelPayloadProblem_none hpro

lemma on_activated {c next : Conversation} {event : Event} {sends : List Message}
    (h : c.on event = (next, .activated sends negotiated)) :
    ∃ expected message result, c.phase = .initializing negotiated.offer expected ∧
      event = .received message ∧
        readReply message c.pending c.answered c.limits.responseBytes =
          .ok (some (.answer result)) ∧
        c.negotiate negotiated.offer expected result = .ok (negotiated.tuple, negotiated.limits) ∧
        next.phase = .ready ∧ next.negotiated = some negotiated ∧
          next.limits = negotiated.limits := by
  cases event with
  | stopRequested => cases h
  | deadlinePassed => cases h
  | channelFailed error => cases h
  | received message =>
    simp only [on, received] at h
    split at h
    · cases h
    · split at h
      · rename_i reply hrep
        unfold replied at h
        split at h <;> try cases h
        · split at h <;> cases h
        · rename_i offer expected result hph
          unfold initialized at h
          split at h
          · split at h
            · cases h
            · rename_i tuple limits hneg
              cases h
              exact ⟨expected, message, result, hph, rfl, hrep, hneg, rfl, rfl, rfl⟩
          · cases h
      · cases h
      · cases h

/-- The phases of a conversation whose worker was initialized or refused. -/
def Started (c : Conversation) : Prop := ∀ offer expected, c.phase ≠ .initializing offer expected

end Conversation

variable {start : Start} {c : Conversation} {sent : List Message}

open Conversation

lemma Keeps.run_of {P : Conversation → Prop}
    (hs : ∀ c sent input, Keeps start c sent → P c → P (c.react input).1) (h : Keeps start c sent)
    (hP : P c) (inputs : List Input) : P (c.run inputs).1 := by
  induction inputs generalizing c sent with
  | nil => exact hP
  | cons input inputs ih => exact ih (h.react input) (hs c sent input h hP)

lemma Keeps.started (h : Keeps start c sent) (hsta : c.Started) (input : Input) :
    (c.react input).1.Started ∧ (c.react input).1.negotiated = c.negotiated ∧
      (c.react input).1.limits = c.limits := by
  have hca (call : Call) : (react.raised c (c.call call)).1.Started ∧
      (react.raised c (c.call call)).1.negotiated = c.negotiated ∧
        (react.raised c (c.call call)).1.limits = c.limits := by
    cases hres : c.call call with
    | error unavailable => exact ⟨hsta, rfl, rfl⟩
    | ok result =>
      cases call_cases hres with
      | refused code message hph => exact ⟨hsta, rfl, rfl⟩
      | sent negotiated operation params hph hn ho => exact ⟨nofun, rfl, rfl⟩
  cases input with
  | compile params => exact hca _
  | generate params => exact hca _
  | close =>
    change (react.raised c c.close).1.Started ∧ (react.raised c c.close).1.negotiated = _ ∧
      (react.raised c c.close).1.limits = _
    cases hres : c.close with
    | error unavailable => exact ⟨hsta, rfl, rfl⟩
    | ok result =>
      obtain ⟨_, rfl⟩ := close_cases hres
      exact ⟨nofun, rfl, rfl⟩
  | event event =>
    have hcases := on_cases h.live event
    change (c.on event).1.Started ∧ (c.on event).1.negotiated = _ ∧ (c.on event).1.limits = _
    generalize c.on event = result at hcases
    cases hcases with
    | aborted stop conclusion hc | exited conclusion hp hx hc
    | called kind operation answer hp hph => exact ⟨nofun, rfl, rfl⟩
    | skipped hp => exact ⟨hsta, rfl, rfl⟩
    | refused offer expected ending hp hph => exact absurd hph (hsta _ _)
    | initialized offer expected tuple limits hp hph => exact absurd hph (hsta _ _)

lemma Keeps.unstarted (h : Keeps start c sent) (hbegin : c = start.begin.1 ∨ c.Started)
    (input : Input) : (c.react input).1 = start.begin.1 ∨ (c.react input).1.Started := by
  rcases hbegin with hbegin | hsta
  · by_cases hsta : c.Started
    · exact .inr (h.started hsta input).1
    · simp only [Started, not_forall, not_not] at hsta
      obtain ⟨offer, expected, hph⟩ := hsta
      have hca (call : Call) : (react.raised c (c.call call)).1 = c := by
        cases hres : c.call call with
        | error unavailable => rfl
        | ok result =>
          cases call_cases hres with
          | refused code message hrd => rfl
          | sent negotiated operation params hrd =>
            rw [hph] at hrd
            cases hrd
      cases input with
      | compile params | generate params => exact .inl ((hca _).trans hbegin)
      | close =>
        have hclo : c.close = .error (.sessionUnavailable
            "the session cannot close in its current state") := by
          unfold Conversation.close
          rw [hph]
        refine .inl (Eq.trans ?_ hbegin)
        change (react.raised c c.close).1 = c
        rw [hclo]
        rfl
      | event event =>
        have hcases := on_cases h.live event
        change (c.on event).1 = _ ∨ (c.on event).1.Started
        generalize c.on event = result at hcases
        cases hcases with
        | aborted stop conclusion hc | exited conclusion hp hx hc
        | refused offer expected ending hp hph | initialized offer expected tuple limits hp hph
        | called kind operation answer hp hph => exact .inr nofun
        | skipped hp => exact .inl hbegin
  · exact .inr (h.started hsta input).1

lemma Conversation.call_conforms {negotiated : Negotiated} (hneg : c.negotiated = some negotiated)
    (htu : negotiated.tuple = some tuple) (hmo : ∃ tuples, negotiated.offer = .model tuples)
    {call : Call} {next : Conversation} {sends : List Message} {awaiting : Int}
    (h : c.call call = .ok (next, .exchange sends awaiting)) :
    ∀ message ∈ sends, Conforms tuple c.limits call.kind message := by
  unfold Conversation.call at h
  split at h
  · rename_i negotiated' expected _ hn hexp
    obtain rfl := Option.some.inj (hn.symm.trans hneg)
    split at h
    · cases h
    · rename_i message operation hchk
      obtain ⟨rfl, hs⟩ := Prod.mk.inj (Except.ok.inj h)
      obtain ⟨rfl, rfl⟩ := Step.exchange.inj hs
      intro other ho
      obtain rfl := mem_singleton.mp ho
      exact checkCall_conforms htu hmo hchk
  · cases h

/-- A session that becomes active on a tuple has agreed on it with its worker, and
sends no later request that names another or leaves the agreed limits. -/
theorem Start.negotiates (offer : Offer) (expected : Claims) (limits : Limits)
    (inputs : List Input) {event : Event} {active : Conversation} {sends : List Message}
    {negotiated : Negotiated} {tuple : ModelTuple}
    (hact : ((Start.activate offer expected limits).run inputs).1.on event =
      (active, .activated sends negotiated))
    (htu : negotiated.tuple = some tuple) :
    (∃ message result, event = .received message ∧
      readReply message 1 [] limits.responseBytes = .ok (some (.answer result)) ∧
      Settled offer limits result tuple negotiated.limits) ∧
    ∀ later call next requests awaiting,
      (active.run later).1.call call = .ok (next, .exchange requests awaiting) →
        ∀ request ∈ requests, Conforms tuple negotiated.limits call.kind request := by
  have hkeeps := (activate offer expected limits).keeps inputs
  have hbegin : ((activate offer expected limits).run inputs).1 =
      (activate offer expected limits).begin.1 ∨
        ((activate offer expected limits).run inputs).1.Started :=
    Keeps.run_of (P := fun c => c = (activate offer expected limits).begin.1 ∨ c.Started)
      (fun c sent input hc hP => hc.unstarted hP input) (.begin _) (.inl rfl) inputs
  have hnx := hkeeps.on event
  rw [hact] at hnx
  obtain ⟨expected', message, result, hph, hev, hrep, hneg, hrd, hagr, hlim⟩ := on_activated hact
  rcases hbegin with hfst | hsta
  · rw [hfst] at hph hrep hneg
    obtain ⟨hof, _⟩ := Phase.initializing.inj hph
    rw [htu] at hneg
    have hset := negotiate_settled hneg
    rw [← hof] at hset
    refine ⟨⟨message, result, hev, hrep, hset⟩, ?_⟩
    intro later call next requests awaiting hca
    have hlat := Keeps.run_of
      (P := fun c => c.Started ∧ c.negotiated = some negotiated ∧ c.limits = negotiated.limits)
      (fun c sent input hc hP => by
        obtain ⟨hs, hn, hl⟩ := hc.started hP.1 input
        exact ⟨hs, hn.trans hP.2.1, hl.trans hP.2.2⟩)
      hnx ⟨fun offer expected => by rw [hrd]; nofun, hagr, hlim⟩ later
    obtain ⟨_, hn, hl⟩ := hlat
    obtain ⟨offered, _, hmo, _⟩ := hset.tuples
    rw [← hl]
    exact call_conforms hn htu ⟨offered, hof ▸ hmo⟩ hca
  · exact absurd hph (hsta _ _)

def generateTuple : ModelTuple := ⟨.generateModel, .morphirIr, .morphirJson, .v0_1_0Draft1, .v4_0_0⟩

def backendClaims : Claims :=
  { extensionId := "morphir-backend", version := "1.0.0", protocolLines := [.mep0_2Draft1]
    operations := [.generateModel], languages := [], frontendIrVersions := []
    frontendFlags := ⟨false, false⟩, targets := [], backendIrVersions := ["4"]
    modelTuples := [generateTuple] }

/-- An answer to `initialize` that selects the tuple. -/
def agreeingAnswer : Message :=
  .new [("jsonrpc", .string "2.0"), ("id", Json.ofInt 1),
    ("result", .object [("protocolVersion", .string "0.2.0-draft.1"),
      ("extension", .object [("id", .string "morphir-backend"), ("version", .string "1.0.0")]),
      ("capabilities", .object [("modelTransport", .object
        [("tuples", .array [generateTuple.toJson]), ("limits", Limits.host.model.toJson)])])])]

/-- A generate call with a model that names IR version 3 in its options. -/
def optionsCall : Call :=
  ⟨.generateCall, [("model", .object [("payload", .object [("content", .string "AAAA"),
      ("decodedByteLength", Json.ofInt 3)])]),
    ("options", .object [("irVersion", .string "3.0.0")])]⟩

def offering : Conversation :=
  ((Start.activate (.model [generateTuple]) backendClaims .host).run []).1

/-- Whether the answer makes a session active in which the call is sent with its
options. -/
def sendsOptions : Bool :=
  match offering.on (.received agreeingAnswer) with
  | (active, .activated _ negotiated) =>
    negotiated.tuple == some generateTuple &&
      match active.call optionsCall with
      | .ok (_, .exchange [request] _) =>
        match fieldAt request.json ["params", "model", "payload"],
            fieldAt request.json ["params", "options", "irVersion"] with
        | some _, some (.string text) => text == "3.0.0"
        | _, _ => false
      | _ => false
  | _ => false

lemma agreeingAnswer_activates :
    ∃ active sends negotiated, offering.on (.received agreeingAnswer) =
        (active, .activated sends negotiated) ∧ negotiated.tuple = some generateTuple ∧
      ∃ next request awaiting, active.call optionsCall = .ok (next, .exchange [request] awaiting) ∧
        (fieldAt request.json ["params", "model", "payload"]).isSome ∧
        fieldAt request.json ["params", "options", "irVersion"] = some (.string "3.0.0") := by
  have h : sendsOptions = true := by decide +kernel
  unfold sendsOptions at h
  split at h
  · rename_i active sends negotiated hact
    obtain ⟨htu, hca⟩ := Bool.and_eq_true_iff.mp h
    refine ⟨active, sends, negotiated, hact, eq_of_beq htu, ?_⟩
    split at hca
    · rename_i next request awaiting hsn
      refine ⟨next, request, awaiting, hsn, ?_⟩
      split at hca
      · rename_i payload text hpay ht
        exact ⟨by rw [hpay]; rfl, by rw [ht, eq_of_beq hca]⟩
      · cases hca
    · cases hca
  · cases h

theorem Start.negotiates_agreeing :
    ∃ limits result, Settled (.model [generateTuple]) .host result generateTuple limits := by
  obtain ⟨active, sends, negotiated, hact, htu, _⟩ := agreeingAnswer_activates
  obtain ⟨⟨message, result, _, _, hset⟩, _⟩ :=
    negotiates (.model [generateTuple]) backendClaims .host [] hact htu
  exact ⟨negotiated.limits, result, hset⟩

theorem Start.not_options_agree :
    ¬ ∀ (offer : Offer) (expected : Claims) (limits : Limits) (inputs : List Input) (event : Event)
      (active : Conversation) (sends : List Message) (negotiated : Negotiated) (tuple : ModelTuple),
      ((Start.activate offer expected limits).run inputs).1.on event =
          (active, .activated sends negotiated) → negotiated.tuple = some tuple →
        ∀ (later : List Input) (call : Call) (next : Conversation) (requests : List Message)
          (awaiting : Int),
          (active.run later).1.call call = .ok (next, .exchange requests awaiting) →
            ∀ request ∈ requests, (fieldAt request.json ["params", "model", "payload"]).isSome →
              ∀ named, fieldAt request.json ["params", "options", "irVersion"] = some named →
                named = .string tuple.irVersion.toString := by
  intro h
  obtain ⟨active, sends, negotiated, hact, htu, next, request, awaiting, hca, hmo,
    hnm⟩ := agreeingAnswer_activates
  have hsm := h (.model [generateTuple]) backendClaims .host [] _ active sends negotiated _
    hact htu [] optionsCall next [request] awaiting hca request
    (mem_singleton.mpr rfl) hmo _ hnm
  exact absurd (Json.string.inj hsm) (by decide)

end Morphir.Host
