import Morphir.Execution.SuiteRoundTrip

/-!
# The outcomes codec

When outcomes are read back from JSON and from Ion.  A returned value is a payload in
JSON and has its native form in Ion; the extension keeps its bytes in both.
-/

namespace Morphir.Execution

open Fallible Morphir.Host List Ion OutcomeFailure

variable {X : Type}

lemma withCode_ok {α : Type} {code : String} {result : Except String α} {a : α}
    (h : result = .ok a) : withCode code result = .ok a := by
  rw [h]
  rfl

lemma outcomeFields_record (pairs : List (String × Ion X)) (names : List String) (code : String)
    (hnd : (pairs.map Prod.fst).Nodup) (hns : names = pairs.map Prod.fst) :
    outcomeFields (.record pairs) names code = .ok pairs := by
  subst hns
  have hpl : ¬ (record pairs).annotations ≠ [] := not_not.mpr rfl
  have hfs := fields_record pairs hnd fun p hp => mem_map_of_mem hp
  rw [outcomeFields, refuse, if_neg hpl, bind_eq, withCode_ok hfs, bind_eq, refuse,
    if_neg (by simp)]
  rfl

lemma outcomeStage_text (stage : OutcomeStage) :
    outcomeStage (Ion.string (X := X) stage.text) = .ok stage := by
  cases stage <;> rfl

lemma outcomeFailure_toIon {failure : OutcomeFailure} {cleanup : Bool}
    (h : failure.validate cleanup = .ok ()) :
    outcomeFailure (failure.toIon (X := X)) cleanup = .ok failure := by
  rw [outcomeFailure, toIon,
    outcomeFields_record [("stage", .string failure.stage.text), ("code", .string failure.code),
      ("message", .string failure.message)] ["stage", "code", "message"] _ (by simp) rfl]
  simp only [required_cons, String.reduceEq, if_true, if_false, bind_eq, outcomeStage_text,
    string_string]
  have hfai : withCode "workbench.invalid_failure"
      (pure (.mk failure.stage failure.code failure.message)) = .ok failure := rfl
  rw [hfai, bind_eq, h]
  rfl

lemma jsonIon_failure (failure : OutcomeFailure) :
    jsonIon failure.toJson = some (failure.toIon (X := X)) := by
  simp [toJson, toIon, jsonIon, jsonIonFields, record]

def outcomeRecord (write : Value → Ion X) : TerminalOutcome → Ion X
  | .returned value => .record [("status", .string "returned"), ("value", write value)]
  | .modelError code => .record [("status", .string "model-error"), ("code", .string code)]
  | .failed failure => .record [("status", .string "failed"), ("failure", failure.toIon)]
  | .cancelled => .record [("status", .string "cancelled")]

variable (outcome : TerminalOutcome)

lemma toIon_eq_outcomeRecord :
    outcome.toIon = outcomeRecord (X := X) Value.toIon outcome := by
  cases outcome <;> rfl

lemma jsonIon_outcome :
    jsonIon outcome.toJson = some (outcomeRecord (X := X) valuePayload outcome) := by
  cases outcome with
  | returned value =>
    simp [TerminalOutcome.toJson, outcomeRecord, jsonIon, jsonIonFields, record, jsonIon_toJson]
  | failed failure =>
    simp [TerminalOutcome.toJson, outcomeRecord, jsonIon, jsonIonFields, record, jsonIon_failure]
  | modelError code | cancelled =>
    simp [TerminalOutcome.toJson, outcomeRecord, jsonIon, jsonIonFields, record]

variable {read : Ion X → Except String Value}

lemma terminalOutcome_fields {status : String} (rest : List (String × Ion X))
    (hns : outcomeNames status = .ok ("status" :: rest.map Prod.fst))
    (hnd : ("status" :: rest.map Prod.fst).Nodup)
    (hknown : ∀ name ∈ rest.map Prod.fst, name ∈ ["status", "value", "code", "failure"]) :
    terminalOutcome read (.record (("status", .string status) :: rest)) =
      outcomeOf read status (("status", .string status) :: rest) := by
  have hfs : fields (.record (("status", .string status) :: rest))
      ["status", "value", "code", "failure"] = .ok (("status", .string status) :: rest) := by
    apply fields_record (("status", .string status) :: rest) hnd
    intro p hp
    rcases mem_cons.mp hp with rfl | hp
    · exact mem_cons_self
    · exact hknown _ (mem_map_of_mem hp)
  rw [terminalOutcome, withCode_ok hfs, bind_eq,
    withCode_ok (rfl : (do string (← Except.ok (Ion.string status))) = .ok status),
    bind_eq, hns, bind_eq,
    outcomeFields_record (("status", .string status) :: rest) ("status" :: rest.map Prod.fst) _
      hnd rfl, bind_eq]

variable {write : Value → Ion X}

lemma terminalOutcome_record {outcome : TerminalOutcome} (hvd : outcome.validate = .ok ())
    (hrd : ∀ value, outcome = .returned value → read (write value) = .ok value) :
    terminalOutcome read (outcomeRecord write outcome) = .ok outcome := by
  cases outcome with
  | returned value =>
    obtain ⟨_, her, -⟩ := bind_ok hvd
    have her := refuse_ok her
    rw [outcomeRecord, terminalOutcome_fields [("value", write value)] (by simp [outcomeNames])
      (by simp) (by simp)]
    simp [outcomeOf, bind_eq, hrd value rfl, refuse, her]
  | modelError code =>
    have hc : validModelError code = true := not_not.mp (refuse_ok hvd)
    rw [outcomeRecord, terminalOutcome_fields [("code", .string code)] (by simp [outcomeNames])
      (by simp) (by simp)]
    simp [outcomeOf, bind_eq, withCode_ok, refuse, hc]
  | failed failure =>
    rw [outcomeRecord, terminalOutcome_fields [("failure", failure.toIon)]
      (by simp [outcomeNames]) (by simp) (by simp)]
    simp [outcomeOf, bind_eq, outcomeFailure_toIon hvd]
  | cancelled => rfl

/-- The struct of outcomes with these forms of a returned value and of the extension. -/
def outcomesRecord (write : Value → Ion X) (wrap : List UInt8 → Ion X) (outcomes : Outcomes) :
    Ion X :=
  .record [("contractVersion", .string "0.1.0-draft.5"),
    ("calls", .list [] (outcomes.calls.map fun call =>
      .record [("id", .string call.id), ("outcome", outcomeRecord write call.outcome)])),
    ("cleanup", (outcomes.cleanup.map OutcomeFailure.toIon).getD (.scalar [] .null)),
    ("extensions", (outcomes.extensions.map wrap).getD (.scalar [] .null))]

lemma validateOutcomes_call : ∀ {calls : List CallOutcome} {seen : List String},
    validateOutcomes seen calls = .ok () → ∀ call ∈ calls, call.outcome.validate = .ok ()
  | [], _, _, call, hca => nomatch hca
  | first :: calls, seen, h, call, hca => by
    obtain ⟨_, -, h⟩ := bind_ok h
    obtain ⟨_, hfst, hcls⟩ := bind_ok h
    rcases mem_cons.mp hca with rfl | hca
    · exact hfst
    · exact validateOutcomes_call hcls call hca

lemma optionalField_getD {α : Type} (read : Ion X → Except String α) (wrap : α → Ion X) :
    ∀ field : Option α, (∀ a, field = some a → absentOutcomeField (wrap a) = false ∧
      read (wrap a) = .ok a) →
        optionalField read ((field.map wrap).getD (.scalar [] .null)) = .ok field
  | none, _ => rfl
  | some a, h => by
    obtain ⟨hpre, hrd⟩ := h a rfl
    rw [Option.map_some, Option.getD_some, optionalField, hpre, hrd]
    rfl

variable {lib : IonLibrary X} {outcomes : Outcomes}

variable {wrap : List UInt8 → Ion X}

lemma readOutcomes_record {extension : Ion X → Except String (List UInt8)} (hvd : outcomes.validate lib = .ok ())
    (hrd : ∀ call ∈ outcomes.calls, ∀ value, call.outcome = .returned value →
      read (write value) = .ok value) (hwrap : ∀ bytes, outcomes.extensions = some bytes →
      absentOutcomeField (wrap bytes) = false ∧ extension (wrap bytes) = .ok bytes) :
    readOutcomes lib read extension (outcomesRecord write wrap outcomes) = .ok outcomes := by
  obtain ⟨_, hcnt, h⟩ := bind_ok hvd
  obtain ⟨_, houtcomes, h⟩ := bind_ok h
  obtain ⟨_, hcle, -⟩ := bind_ok h
  have hcls : (outcomes.calls.map fun call => record [("id", .string call.id),
      ("outcome", outcomeRecord write call.outcome)]).mapM (callOutcome read) =
        .ok outcomes.calls := by
    apply mapM_map_eq
    intro call hca
    have houtcome := terminalOutcome_record (validateOutcomes_call houtcomes call hca)
      (hrd call hca)
    rw [callOutcome, outcomeFields_record [("id", .string call.id),
      ("outcome", outcomeRecord write call.outcome)] ["id", "outcome"] _ (by simp) rfl]
    simp [bind_eq, houtcome]
  have hfai : optionalField (outcomeFailure · true)
      ((outcomes.cleanup.map toIon).getD (.scalar (X := X) [] .null)) =
        .ok outcomes.cleanup := by
    apply optionalField_getD
    intro failure hso
    rw [hso] at hcle
    exact ⟨rfl, outcomeFailure_toIon hcle⟩
  have hexts := optionalField_getD extension wrap outcomes.extensions hwrap
  have hmap : ¬ ((outcomes.calls.map fun call => record [("id", .string call.id),
      ("outcome", outcomeRecord write call.outcome)]).isEmpty = true ∨
        1000 < (outcomes.calls.map fun call => record [("id", .string call.id),
          ("outcome", outcomeRecord write call.outcome)]).length) := by
    rw [isEmpty_map, length_map]
    exact refuse_ok hcnt
  rw [readOutcomes, outcomesRecord, outcomeFields_record _
    ["contractVersion", "calls", "cleanup", "extensions"] _ (by simp) rfl]
  simp only [required_cons, String.reduceEq, if_true, if_false, bind_eq, list_list, refuse]
  rw [if_neg hmap, bind_eq, hcls, bind_eq, hfai, bind_eq, hexts, bind_eq]
  rw [hvd]
  rfl

lemma outcomes_toIon {value : Ion X} (h : outcomes.toIon lib = .ok value) :
    outcomes.validate lib = .ok () ∧
      value = outcomesRecord Value.toIon (fun bytes => .scalar [] (.blob bytes)) outcomes := by
  obtain ⟨_, hvd, hval⟩ := bind_ok h
  cases hval
  refine ⟨hvd, ?_⟩
  have hca : outcomes.calls.map (CallOutcome.toIon (X := X)) = outcomes.calls.map fun call =>
      .record [("id", .string call.id), ("outcome", outcomeRecord Value.toIon call.outcome)] := by
    apply map_congr_left
    intro call _
    rw [CallOutcome.toIon, toIon_eq_outcomeRecord]
  rw [outcomesRecord, hca]

lemma jsonIon_outcomes (outcomes : Outcomes) :
    jsonIon outcomes.toJson =
      some (outcomesRecord (X := X) valuePayload extensionPayload outcomes) := by
  have hcls : jsonIonItems (outcomes.calls.map CallOutcome.toJson) =
      some (outcomes.calls.map fun call => record (X := X) [("id", .string call.id),
        ("outcome", outcomeRecord valuePayload call.outcome)]) := by
    apply jsonIonItems_map
    simp [CallOutcome.toJson, jsonIon, jsonIonFields, record, jsonIon_outcome]
  have hcle : jsonIon ((outcomes.cleanup.map toJson).getD .null) =
      some ((outcomes.cleanup.map toIon).getD (.scalar (X := X) [] .null)) := by
    cases outcomes.cleanup with
    | none => simp [jsonIon]
    | some failure => simp [jsonIon_failure]
  have hexts : jsonIon ((outcomes.extensions.map extensionJson).getD .null) =
      some ((outcomes.extensions.map extensionPayload).getD (.scalar (X := X) [] .null)) := by
    cases outcomes.extensions with
    | none => simp [jsonIon]
    | some bytes => simp [jsonIon_extensionJson]
  simp [Outcomes.toJson, outcomesRecord, jsonIon, jsonIonFields, record, hcls, hcle, hexts]

lemma nesting_outcomeRecord {size : Value → Nat} {n : Nat} (hn : 2 ≤ n)
    (hsz : ∀ v, (write v).nesting = size v) (outcome : TerminalOutcome) :
    (outcomeRecord write outcome).nesting ≤ n ↔
      ∀ value, outcome = .returned value → size value + 1 ≤ n := by
  cases outcome with
  | returned value =>
    have hval : (∀ other, TerminalOutcome.returned value = .returned other →
        size other + 1 ≤ n) ↔ size value + 1 ≤ n :=
      ⟨fun h => h value rfl, fun h other ho => TerminalOutcome.returned.inj ho ▸ h⟩
    rw [hval, ← hsz, outcomeRecord, record]
    simp only [map_cons, map_nil, Ion.nestingFields, Ion.nesting, Ion.string]
    omega
  | modelError code | cancelled =>
    refine iff_of_true ?_ nofun
    rw [outcomeRecord, record]
    simp only [map_cons, map_nil, Ion.nestingFields, Ion.nesting, Ion.string]
    omega
  | failed failure =>
    refine iff_of_true ?_ nofun
    rw [outcomeRecord, toIon, record, record]
    simp only [map_cons, map_nil, Ion.nestingFields, Ion.nesting, Ion.string]
    omega

lemma nesting_failure (failure : OutcomeFailure) : (failure.toIon (X := X)).nesting = 1 := by
  simp [toIon, Ion.record, Ion.nesting, Ion.nestingFields, Ion.string]

lemma nesting_getD {α : Type} {wrap : α → Ion X} {n : Nat} (hwrap : ∀ a, (wrap a).nesting ≤ n) :
    ∀ field : Option α, ((field.map wrap).getD (.scalar [] .null)).nesting ≤ n
  | none => Nat.zero_le n
  | some a => hwrap a

lemma nesting_outcomesRecord {size : Value → Nat} (hsz : ∀ v, (write v).nesting = size v)
    (hwrap : ∀ bytes, (wrap bytes).nesting ≤ 2) (outcomes : Outcomes) :
    (outcomesRecord write wrap outcomes).nesting ≤ ionBudget ↔
      ∀ call ∈ outcomes.calls, ∀ value, call.outcome = .returned value →
        size value + 4 ≤ ionBudget := by
  have hca : ∀ call : CallOutcome, (record [("id", .string call.id),
      ("outcome", outcomeRecord write call.outcome)]).nesting ≤ 126 ↔
        ∀ value, call.outcome = .returned value → size value + 4 ≤ ionBudget := by
    intro call
    have hout := nesting_outcomeRecord (show 2 ≤ 125 by omega) hsz call.outcome
    have hval : ∀ value, size value + 1 ≤ 125 ↔ size value + 4 ≤ ionBudget := by
      rw [ionBudget]
      omega
    simp only [hval] at hout
    rw [← hout, record]
    simp only [map_cons, map_nil, Ion.nestingFields, Ion.nesting, Ion.string]
    omega
  have hcle : ((outcomes.cleanup.map toIon).getD
      (.scalar (X := X) [] .null)).nesting ≤ 1 :=
    nesting_getD (fun failure => le_of_eq (nesting_failure failure)) _
  have hexts := nesting_getD hwrap outcomes.extensions
  have hcls : nestingItems (outcomes.calls.map fun call => record
      [("id", .string call.id), ("outcome", outcomeRecord write call.outcome)]) ≤ 126 ↔
        ∀ call ∈ outcomes.calls, ∀ value, call.outcome = .returned value →
          size value + 4 ≤ ionBudget := by
    rw [nestingItems_le, forall_mem_map]
    simp only [hca]
  rw [← hcls, outcomesRecord, record]
  simp only [map_cons, map_nil, Ion.nestingFields, Ion.nesting, Ion.string, ionBudget]
  omega

/-- The bytes of outcomes in a format: the written form of `to_ion`, or the text of
`to_json`. -/
def Outcomes.encode (lib : IonLibrary X) (outcomes : Outcomes) (format : String) :
    Except String (List UInt8) := do
  let value ← outcomes.toIon lib
  if format = "ion-binary" then lib.writeBinary value
  else if format = "ion-text" then return utf8Bytes (← lib.writeText value)
  else if format = "json" then return utf8Bytes outcomes.toJson.stringify
  else throw "execution.unsupported_format"

/-- The outcomes of bytes in a format: `decode` has no binary Ion, for which `from_ion` reads
the value of the bytes. -/
def Outcomes.received (lib : IonLibrary X) (bytes : List UInt8) (format : String) :
    Except String Outcomes := do
  if format = "ion-binary" then Outcomes.fromIon lib (← lib.readBinary bytes)
  else Outcomes.decode lib bytes format

def Outcomes.Returns (format : String) (outcomes : Outcomes) : Prop :=
  ∀ call ∈ outcomes.calls, ∀ value, call.outcome = .returned value →
    (if format = "json" then value.containers else value.ionContainers) + 4 ≤ ionBudget

section

variable (hvd : outcomes.validate lib = .ok ())

include hvd

lemma outcomes_returned :
    ∀ call ∈ outcomes.calls, ∀ value,
      call.outcome = .returned value → ∃ rest, validateValue value 0 valueBudget = .ok rest := by
  intro call hca value hval
  obtain ⟨_, -, h⟩ := bind_ok hvd
  obtain ⟨_, houtcomes, -⟩ := bind_ok h
  have houtcome := validateOutcomes_call houtcomes call hca
  rw [hval] at houtcome
  obtain ⟨_, -, h⟩ := bind_ok houtcome
  obtain ⟨rest, hr, -⟩ := bind_ok h
  exact ⟨rest, hr⟩

lemma outcomes_fromIon :
    Outcomes.fromIon lib (outcomesRecord Value.toIon (fun bytes => .scalar [] (.blob bytes))
      outcomes) = .ok outcomes := by
  apply readOutcomes_record hvd
  · intro call hca value hval
    obtain ⟨rest, hr⟩ := outcomes_returned hvd call hca value hval
    exact fromIon_toIon hr
  · intro bytes _
    exact ⟨rfl, rfl⟩

lemma outcomes_fromJson :
    jsonIonOutcomes lib (outcomesRecord valuePayload extensionPayload outcomes) = .ok outcomes := by
  apply readOutcomes_record hvd
  · intro call hca value hval
    obtain ⟨rest, hr⟩ := outcomes_returned hvd call hca value hval
    exact rootPayload_valuePayload hr
  · intro bytes hbs
    obtain ⟨_, -, h⟩ := bind_ok hvd
    obtain ⟨_, -, h⟩ := bind_ok h
    obtain ⟨_, -, hexts⟩ := bind_ok h
    rw [hbs] at hexts
    obtain ⟨_, -, hexts⟩ := bind_ok hexts
    obtain ⟨_, hrd, -⟩ := bind_ok hexts
    exact ⟨rfl, jsonExtension_payload hrd⟩

end

lemma outcomes_ionReturns {format : String} {value : Ion X} {result : Except String (Ion X)}
    (hfor : format ≠ "json") (hval : outcomes.toIon lib = .ok value) (hrd : ReadsBack result value)
    : result >>= Outcomes.fromIon lib = .ok outcomes ↔ outcomes.Returns format := by
  obtain ⟨hvd, rfl⟩ := outcomes_toIon hval
  have hblob : ∀ bytes : List UInt8, (scalar (X := X) [] (.blob bytes)).nesting ≤ 2 :=
    fun _ => Nat.zero_le 2
  rw [readsBack_bind hrd, nesting_outcomesRecord nesting_toIon hblob, Outcomes.Returns]
  simp only [if_neg hfor]
  exact and_iff_left (outcomes_fromIon hvd)

lemma received_encode {format : String} {bytes : List UInt8} (hlib : lib.Faithful outcomes.toJson)
    (henc : outcomes.encode lib format = .ok bytes) (hlim : bytes.length ≤ inputLimit) :
    Outcomes.received lib bytes format = .ok outcomes ↔ outcomes.Returns format := by
  obtain ⟨value, hval, hwr⟩ := bind_ok henc
  rw [Outcomes.received]
  by_cases hbin : format = "ion-binary"
  · rw [if_pos hbin] at hwr ⊢
    apply outcomes_ionReturns _ hval (hlib.binary _ _ hwr)
    simp [hbin]
  rw [if_neg hbin] at hwr ⊢
  rw [Outcomes.decode, refuse, if_neg (not_lt.mpr hlim), bind_eq]
  by_cases ht : format = "ion-text"
  · rw [if_pos ht] at hwr
    obtain ⟨source, hsrc, hbs⟩ := bind_ok hwr
    cases hbs
    rw [utf8Text_utf8Bytes, bind_eq, if_neg (by simp [ht]), if_pos ht]
    apply outcomes_ionReturns _ hval (hlib.text _ _ hsrc)
    simp [ht]
  rw [if_neg ht] at hwr
  by_cases hjson : format = "json"
  · rw [if_pos hjson] at hwr
    cases hwr
    obtain ⟨hrd, hprs⟩ := hlib.json _ (jsonIon_outcomes outcomes)
    rw [utf8Text_utf8Bytes, bind_eq, if_pos hjson, hprs, bind_eq, readsBack_bind hrd,
      nesting_outcomesRecord nesting_valuePayload nesting_extensionPayload, Outcomes.Returns]
    simp only [if_pos hjson]
    exact and_iff_left (outcomes_fromJson (outcomes_toIon hval).1)
  · rw [if_neg hjson] at hwr
    cases hwr

end Morphir.Execution

/-!
## The codec of executions

Suites, values and outcomes through each format.
-/

namespace Morphir.Execution

open Fallible Morphir.Host List

variable {X : Type}

/-- The bytes of a value in a format: the written form of `to_ion`, or the text of
`to_json`. -/
def Value.encode (lib : IonLibrary X) (v : Value) (format : String) :
    Except String (List UInt8) := do
  if format = "ion-binary" then lib.writeBinary v.toIon
  else if format = "ion-text" then return utf8Bytes (← lib.writeText v.toIon)
  else if format = "json" then return utf8Bytes v.toJson.stringify
  else throw "execution.unsupported_format"

/-- The value of bytes in a format, by `from_ion` of what the library reads or by the reading
of `from_json`. -/
def Value.received (lib : IonLibrary X) (bytes : List UInt8) (format : String) :
    Except String Value := do
  if format = "ion-binary" then Value.fromIon (← lib.readBinary bytes)
  else if format = "ion-text" then Value.fromIon (← lib.readText (← utf8Text bytes))
  else if format = "json" then
    let result ← rootPayload (← lib.readText (← utf8Text bytes))
    let _ ← validateValue result 0 valueBudget
    pure result
  else throw "execution.unsupported_format"

lemma value_received {lib : IonLibrary X} {v : Value} {rest : Int} {format : String}
    {bytes : List UInt8} (hlib : lib.Faithful v.toJson)
    (hvd : validateValue v 0 valueBudget = .ok rest) (henc : v.encode lib format = .ok bytes) :
    Value.received lib bytes format = .ok v ↔
      (if format = "json" then v.containers else v.ionContainers) ≤ ionBudget := by
  have hion : Value.fromIon (v.toIon (X := X)) = .ok v := fromIon_toIon hvd
  rw [Value.received]
  rw [Value.encode] at henc
  by_cases hbin : format = "ion-binary"
  · rw [if_pos hbin] at henc ⊢
    rw [readsBack_bind (hlib.binary _ _ henc), nesting_toIon, if_neg (by simp [hbin])]
    exact and_iff_left hion
  rw [if_neg hbin] at henc ⊢
  by_cases ht : format = "ion-text"
  · rw [if_pos ht] at henc ⊢
    obtain ⟨source, hsrc, hbs⟩ := bind_ok henc
    cases hbs
    rw [utf8Text_utf8Bytes, bind_eq, readsBack_bind (hlib.text _ _ hsrc), nesting_toIon,
      if_neg (by simp [ht])]
    exact and_iff_left hion
  rw [if_neg ht] at henc ⊢
  by_cases hjson : format = "json"
  · rw [if_pos hjson] at henc ⊢
    cases henc
    obtain ⟨hrd, -⟩ := hlib.json _ (jsonIon_toJson v)
    rw [utf8Text_utf8Bytes, bind_eq, readsBack_bind hrd, nesting_valuePayload, if_pos hjson,
      rootPayload_valuePayload hvd, bind_eq, hvd]
    exact and_iff_left rfl
  · rw [if_neg hjson] at henc
    cases henc

lemma utf8Bytes_length (text : String) : (utf8Bytes text).length = text.utf8ByteSize := by
  have hbs : (utf8Bytes text).toByteArray = text.toByteArray := String.utf8Encode_toList
  rw [← size_toByteArray, hbs]
  rfl

lemma marks_size : "\x7b".utf8ByteSize = 1 ∧ "\x7d".utf8ByteSize = 1 ∧ ":".utf8ByteSize = 1 ∧
    ",".utf8ByteSize = 1 ∧ "[".utf8ByteSize = 1 ∧ "]".utf8ByteSize = 1 :=
  ⟨rfl, rfl, rfl, rfl, rfl, rfl⟩

lemma stringify_call (v : Value) :
    (Suite.toJson ⟨[⟨"a", "e", [v]⟩], none⟩).stringify.utf8ByteSize =
      v.toJson.stringify.utf8ByteSize + 84 := by
  have ht : (Suite.toJson ⟨[⟨"a", "e", [v]⟩], none⟩).stringify =
      "\x7b" ++ (Json.quoted "profile" ++ ":" ++ Json.quoted "morphir-invocations-v1" ++ "," ++
        (Json.quoted "calls" ++ ":" ++ ("[" ++ ("\x7b" ++ (Json.quoted "id" ++ ":" ++
          Json.quoted "a" ++ "," ++ (Json.quoted "entry" ++ ":" ++ Json.quoted "e") ++ "," ++
            (Json.quoted "arguments" ++ ":" ++ ("[" ++ v.toJson.stringify ++ "]"))) ++ "\x7d") ++
              "]"))) ++ "\x7d" := rfl
  have hquo : (Json.quoted "profile").utf8ByteSize = 9 ∧
      (Json.quoted "morphir-invocations-v1").utf8ByteSize = 24 ∧
      (Json.quoted "calls").utf8ByteSize = 7 ∧ (Json.quoted "id").utf8ByteSize = 4 ∧
      (Json.quoted "a").utf8ByteSize = 3 ∧ (Json.quoted "entry").utf8ByteSize = 7 ∧
      (Json.quoted "e").utf8ByteSize = 3 ∧ (Json.quoted "arguments").utf8ByteSize = 11 :=
    ⟨rfl, rfl, rfl, rfl, rfl, rfl, rfl, rfl⟩
  rw [ht]
  simp only [String.utf8ByteSize_append]
  have hmarks := marks_size
  omega

def readingLibrary (source : String) (value : Ion X) : IonLibrary X where
  writeBinary _ := .error ""
  readBinary _ := .error ""
  writeText _ := .error ""
  readText text := if text = source then .ok value else .error ""
  parseJson _ := .ok ()

lemma readingLibrary_faithful {document : Json} {value : Ion X}
    (hval : jsonIon document = some value) (hnes : value.nesting ≤ ionBudget) :
    (readingLibrary document.stringify value).Faithful document where
  binary _ _ h := nomatch h
  text _ _ h := nomatch h
  json other ho := by
    rw [hval] at ho
    cases ho
    refine ⟨⟨fun _ => if_pos rfl, fun hlt => absurd hnes (not_le.mpr hlt)⟩, rfl⟩

def numberSuite : Suite := ⟨[⟨"a", "e", [.integer 1]⟩], none⟩

def numberOutcomes : Outcomes := ⟨[⟨"a", .returned (.integer 1)⟩], none, none⟩

def nested : Nat → Value
  | 0 => .unit
  | n + 1 => .sequence [nested n]

def deepSuite : Suite := ⟨[⟨"a", "e", [nested 62]⟩], none⟩

def refusingLibrary : IonLibrary Empty where
  writeBinary _ := .error ""
  readBinary _ := .error ""
  writeText _ := .error ""
  readText _ := .error "LimitExceeded"
  parseJson _ := .ok ()

lemma validateValue_nested : ∀ (n : Nat) {depth : Nat} {budget : Int}, depth + n ≤ 64 →
    (n : Int) + 1 ≤ budget → validateValue (nested n) depth budget = .ok (budget - (n + 1))
  | 0, depth, budget, hdep, hbud => by
    rw [nested, validateValue, chargeValue, refuse, if_neg (by omega)]
    rfl
  | n + 1, depth, budget, hdep, hbud => by
    rw [nested, validateValue, chargeValue, refuse, if_neg (by omega)]
    change validateItems [nested n] (depth + 1) (budget - 1) = _
    rw [validateItems, validateValue_nested n (by omega) (by omega)]
    apply congrArg Except.ok
    omega

lemma deepSuite_valid : deepSuite.validate refusingLibrary = .ok () := by
  have hval : validateValue (nested 62) 0 valueBudget = .ok (valueBudget - (62 + 1)) :=
    validateValue_nested 62 (by decide) (by decide)
  have hname : utf16Length "a" = 1 ∧ utf16Length "e" = 1 := ⟨rfl, rfl⟩
  simp [deepSuite, Suite.validate, refuse, bind_eq, validateExtensions, validateCalls,
    validateItems, hval, hname]

lemma stringify_nested (n : Nat) : (nested n).toJson.stringify.utf8ByteSize = 26 * n + 15 := by
  induction n with
  | zero => rfl
  | succ n ih =>
    have ht : (nested (n + 1)).toJson.stringify = "\x7b" ++ (Json.quoted "type" ++ ":" ++
        Json.quoted "list" ++ "," ++ (Json.quoted "items" ++ ":" ++
          ("[" ++ (nested n).toJson.stringify ++ "]"))) ++ "\x7d" := rfl
    have hquo : (Json.quoted "type").utf8ByteSize = 6 ∧ (Json.quoted "list").utf8ByteSize = 6 ∧
        (Json.quoted "items").utf8ByteSize = 7 := ⟨rfl, rfl, rfl⟩
    rw [ht]
    simp only [String.utf8ByteSize_append]
    have hmarks := marks_size
    omega

lemma containers_nested (n : Nat) : (nested n).containers = 2 * n + 1 := by
  induction n with
  | zero => rfl
  | succ n ih =>
    rw [nested, Value.containers, Value.containersItems, Value.containersItems]
    omega

lemma refusingLibrary_faithful : refusingLibrary.Faithful deepSuite.toJson where
  binary _ _ h := nomatch h
  text _ _ h := nomatch h
  json value hval := by
    rw [jsonIon_suite] at hval
    cases hval
    refine ⟨⟨?_, fun _ => ⟨_, rfl⟩⟩, rfl⟩
    intro hle
    rw [nesting_suiteRecord Call.payload nesting_valuePayload fun call => rfl] at hle
    have hdeep := hle.1 _ mem_cons_self (nested 62) mem_cons_self
    rw [containers_nested, ionBudget] at hdeep
    omega

end Morphir.Execution
