import Morphir.Execution.Values

/-!
# Suites of calls

A suite travels as binary Ion, as Ion text or as JSON.  Its extension is an Ion
value in binary form: an Ion suite has the value as a field, a JSON suite has the bytes.
-/

namespace Morphir.Execution

open Fallible Morphir.Host

structure Call where
  id : String
  entry : String
  arguments : List Value

structure Suite where
  calls : List Call
  extensions : Option (List UInt8)

variable {X : Type}

def validateExtensions (lib : IonLibrary X) : Option (List UInt8) → Except String Unit
  | none => .ok ()
  | some bytes => do
    refuse (65536 < bytes.length) "execution.extension_limit"
    let _ ← lib.readBinary bytes
    pure ()

/-- The loop of `Suite::validate` over the calls behind those with the IDs seen. -/
def validateCalls : List String → List Call → Except String Unit
  | _, [] => .ok ()
  | seen, call :: calls => do
    refuse (call.id = "" ∨ 128 < utf16Length call.id ∨ call.entry = "" ∨
      1024 < utf16Length call.entry ∨ call.id ∈ seen) "execution.invalid_call_identity"
    refuse (64 < call.arguments.length) "execution.argument_limit"
    let _ ← validateItems call.arguments 0 valueBudget
    validateCalls (seen ++ [call.id]) calls

def Suite.validate (lib : IonLibrary X) (suite : Suite) : Except String Unit := do
  refuse (suite.calls.isEmpty = true ∨ 1000 < suite.calls.length) "execution.call_limit"
  validateExtensions lib suite.extensions
  validateCalls [] suite.calls

def Call.toIon (call : Call) : Ion X :=
  .record [("id", .string call.id), ("entry", .string call.entry),
    ("arguments", .list [] (call.arguments.map Value.toIon))]

def Suite.pairs (suite : Suite) : List (String × Ion X) :=
  [("profile", .string "morphir-invocations-v1"), ("calls", .list [] (suite.calls.map Call.toIon))]

def Suite.toIon (lib : IonLibrary X) (suite : Suite) : Except String (Ion X) := do
  suite.validate lib
  match suite.extensions with
  | none => pure (.record suite.pairs)
  | some bytes => do
    let value ← lib.readBinary bytes
    pure (.record (suite.pairs ++ [("extensions", value)]))

/-- The call of a struct, its arguments read by `argument`. -/
def callOf (argument : Ion X → Except String Value) (value : Ion X) : Except String Call := do
  let f ← fields value ["id", "entry", "arguments"]
  let id ← string (← required f "id")
  let entry ← string (← required f "entry")
  let arguments ← (← list (← required f "arguments")).mapM argument
  pure ⟨id, entry, arguments⟩

/-- The suite of a struct, its extension and its calls read by `extension` and `call`. -/
def suiteOf (lib : IonLibrary X) (extension : Ion X → Except String (List UInt8))
    (call : Ion X → Except String Call) (value : Ion X) : Except String Suite := do
  let f ← fields value ["profile", "calls", "extensions"]
  let profile ← string (← required f "profile")
  refuse (profile ≠ "morphir-invocations-v1") "execution.unsupported_profile"
  let extensions ← (OrdMap.get? f "extensions").mapM extension
  let calls ← (← list (← required f "calls")).mapM call
  let suite : Suite := ⟨calls, extensions⟩
  suite.validate lib
  pure suite

def Suite.fromIon (lib : IonLibrary X) (value : Ion X) : Except String Suite := do
  checkPlain value
  suiteOf lib lib.writeBinary (fun v => do checkPlain v; callOf Value.fromIon v) value

def Call.toJson (call : Call) : Json :=
  .object [("id", .string call.id), ("entry", .string call.entry),
    ("arguments", .array (call.arguments.map Value.toJson))]

def extensionJson (bytes : List UInt8) : Json :=
  .object [("format", .string "ion-binary"),
    ("bytes", .array (bytes.map fun b => Json.ofInt b.toNat))]

def Suite.toJson (suite : Suite) : Json :=
  .object ([("profile", .string "morphir-invocations-v1"),
    ("calls", .array (suite.calls.map Call.toJson))] ++
      suite.extensions.toList.map fun bytes => ("extensions", extensionJson bytes))

def extensionByte (value : Ion X) : Except String UInt8 := do
  let n ← smallInteger value
  refuse (n < 0 ∨ 255 < n) "execution.extension_byte"
  pure (UInt8.ofNat n.toNat)

def jsonExtension (lib : IonLibrary X) (value : Ion X) : Except String (List UInt8) := do
  checkPlain value
  let f ← fields value ["format", "bytes"]
  let format ← string (← required f "format")
  refuse (format ≠ "ion-binary") "execution.extension_format"
  let bytes ← (← list (← required f "bytes")).mapM extensionByte
  let _ ← lib.readBinary bytes
  pure bytes

def jsonIonSuite (lib : IonLibrary X) (value : Ion X) : Except String Suite :=
  suiteOf lib (jsonExtension lib) (callOf rootPayload) value

def inputLimit : Nat := 1048576

def utf8Bytes (text : String) : List UInt8 := Mep.utf8Encode text.toList

def utf8Text (bytes : List UInt8) : Except String String :=
  match Mep.utf8Decode bytes with
  | some text => .ok (String.ofList text)
  | none => .error "malformed"

def Suite.decode (lib : IonLibrary X) (bytes : List UInt8) (format : String) :
    Except String Suite := do
  refuse (inputLimit < bytes.length) "execution.input_limit"
  if format = "ion-binary" then Suite.fromIon lib (← lib.readBinary bytes)
  else if format = "ion-text" then Suite.fromIon lib (← lib.readText (← utf8Text bytes))
  else if format = "json" then
    let source ← utf8Text bytes
    lib.parseJson source
    jsonIonSuite lib (← lib.readText source)
  else throw "execution.unsupported_format"

def Suite.encode (lib : IonLibrary X) (suite : Suite) (format : String) :
    Except String (List UInt8) := do
  let value ← suite.toIon lib
  if format = "ion-binary" then lib.writeBinary value
  else if format = "ion-text" then return utf8Bytes (← lib.writeText value)
  else if format = "json" then return utf8Bytes suite.toJson.stringify
  else throw "execution.unsupported_format"

end Morphir.Execution

/-!
## Outcomes of calls

The outcomes of the calls of a suite, as Ion and as JSON.  Their extension is a
blob in Ion, so its bytes do not change.
-/

namespace Morphir.Execution

open Fallible Morphir.Host

inductive OutcomeStage
  | acquire
  | build
  | invoke
  | evaluate
  | compare
  | cleanup
  deriving DecidableEq

structure OutcomeFailure where
  stage : OutcomeStage
  code : String
  message : String

inductive TerminalOutcome
  | returned (value : Value)
  | modelError (code : String)
  | failed (failure : OutcomeFailure)
  | cancelled

structure CallOutcome where
  id : String
  outcome : TerminalOutcome

structure Outcomes where
  calls : List CallOutcome
  cleanup : Option OutcomeFailure
  extensions : Option (List UInt8)

variable {X : Type}

def OutcomeStage.text : OutcomeStage → String
  | .acquire => "acquire"
  | .build => "build"
  | .invoke => "invoke"
  | .evaluate => "evaluate"
  | .compare => "compare"
  | .cleanup => "cleanup"

def outcomeStage (value : Ion X) : Except String OutcomeStage := do
  match ← string value with
  | "acquire" => pure .acquire
  | "build" => pure .build
  | "invoke" => pure .invoke
  | "evaluate" => pure .evaluate
  | "compare" => pure .compare
  | "cleanup" => pure .cleanup
  | _ => throw "workbench.invalid_failure"

/-- `OutcomeFailure::validate`: a failure of the cleanup has the stage `cleanup`. -/
def OutcomeFailure.validate (failure : OutcomeFailure) (cleanup : Bool) : Except String Unit :=
  refuse (decide (failure.stage = .cleanup) ≠ cleanup ∨ utf16Length failure.code = 0 ∨
    128 < utf16Length failure.code ∨ 512 < utf16Length failure.message ∨
      (cleanup = false ∧
        (validModelError failure.code = true ∨ failure.code = "execution.cancelled")))
    "workbench.invalid_failure"

def OutcomeFailure.toJson (failure : OutcomeFailure) : Json :=
  .object [("stage", .string failure.stage.text), ("code", .string failure.code),
    ("message", .string failure.message)]

def OutcomeFailure.toIon (failure : OutcomeFailure) : Ion X :=
  .record [("stage", .string failure.stage.text), ("code", .string failure.code),
    ("message", .string failure.message)]

def withCode {α : Type} (code : String) (result : Except String α) : Except String α :=
  result.mapError fun _ => code

/-- `outcome_fields`: the fields of a plain struct, each there once. -/
def outcomeFields (value : Ion X) (names : List String) (code : String) :
    Except String (List (String × Ion X)) := do
  refuse (value.annotations ≠ []) code
  let f ← withCode code (fields value names)
  refuse (f.length ≠ names.length) code
  pure f

def outcomeFailure (value : Ion X) (cleanup : Bool) : Except String OutcomeFailure := do
  let code := "workbench.invalid_failure"
  let f ← outcomeFields value ["stage", "code", "message"] code
  let failure ← withCode code do
    let stage ← outcomeStage (← required f "stage")
    let code ← string (← required f "code")
    let message ← string (← required f "message")
    pure (OutcomeFailure.mk stage code message)
  failure.validate cleanup
  pure failure

def TerminalOutcome.toJson : TerminalOutcome → Json
  | .returned value => .object [("status", .string "returned"), ("value", value.toJson)]
  | .modelError code => .object [("status", .string "model-error"), ("code", .string code)]
  | .failed failure => .object [("status", .string "failed"), ("failure", failure.toJson)]
  | .cancelled => .object [("status", .string "cancelled")]

def TerminalOutcome.toIon : TerminalOutcome → Ion X
  | .returned value => .record [("status", .string "returned"), ("value", value.toIon)]
  | .modelError code => .record [("status", .string "model-error"), ("code", .string code)]
  | .failed failure => .record [("status", .string "failed"), ("failure", failure.toIon)]
  | .cancelled => .record [("status", .string "cancelled")]

def outcomeNames (status : String) : Except String (List String) :=
  if status = "returned" then .ok ["status", "value"]
  else if status = "model-error" then .ok ["status", "code"]
  else if status = "failed" then .ok ["status", "failure"]
  else if status = "cancelled" then .ok ["status"]
  else .error "workbench.invalid_outcome"

def isModelError : Value → Bool
  | .modelError _ => true
  | _ => false

def outcomeOf (read : Ion X → Except String Value) (status : String) (f : List (String × Ion X)) :
    Except String TerminalOutcome := do
  if status = "returned" then
    let value ← read (← required f "value")
    refuse (isModelError value = true) "workbench.invalid_outcome"
    return .returned value
  else if status = "model-error" then
    let code ← withCode "execution.model_error_code" (do string (← required f "code"))
    refuse (¬ validModelError code = true) "execution.model_error_code"
    return .modelError code
  else if status = "failed" then
    return .failed (← outcomeFailure (← required f "failure") false)
  else return .cancelled

/-- `terminal_outcome`, with the reader of the returned values. -/
def terminalOutcome (read : Ion X → Except String Value) (value : Ion X) :
    Except String TerminalOutcome := do
  let code := "workbench.invalid_outcome"
  let f ← withCode code (fields value ["status", "value", "code", "failure"])
  let status ← withCode code (do string (← required f "status"))
  let f ← outcomeFields value (← outcomeNames status) code
  outcomeOf read status f

def TerminalOutcome.validate : TerminalOutcome → Except String Unit
  | .returned value => do
    refuse (isModelError value = true) "workbench.invalid_outcome"
    let _ ← validateValue value 0 valueBudget
    pure ()
  | .modelError code => refuse (¬ validModelError code = true) "execution.model_error_code"
  | .failed failure => failure.validate false
  | .cancelled => .ok ()

def TerminalOutcome.fromJson (lib : IonLibrary X) (value : Json) :
    Except String TerminalOutcome := do
  let outcome ← terminalOutcome rootPayload (← lib.readText value.stringify)
  outcome.validate
  pure outcome

/-- The loop of `Outcomes::validate` over the calls behind those with the IDs seen. -/
def validateOutcomes : List String → List CallOutcome → Except String Unit
  | _, [] => .ok ()
  | seen, call :: calls => do
    refuse (call.id = "" ∨ 128 < utf16Length call.id ∨ call.id ∈ seen)
      "execution.call_identity"
    call.outcome.validate
    validateOutcomes (seen ++ [call.id]) calls

def validateCleanup : Option OutcomeFailure → Except String Unit
  | none => .ok ()
  | some failure => failure.validate true

def Outcomes.validate (lib : IonLibrary X) (outcomes : Outcomes) : Except String Unit := do
  refuse (outcomes.calls.isEmpty = true ∨ 1000 < outcomes.calls.length) "execution.result_count"
  validateOutcomes [] outcomes.calls
  validateCleanup outcomes.cleanup
  validateExtensions lib outcomes.extensions

def CallOutcome.toJson (call : CallOutcome) : Json :=
  .object [("id", .string call.id), ("outcome", call.outcome.toJson)]

def Outcomes.toJson (outcomes : Outcomes) : Json :=
  .object [("contractVersion", .string "0.1.0-draft.5"),
    ("calls", .array (outcomes.calls.map CallOutcome.toJson)),
    ("cleanup", (outcomes.cleanup.map OutcomeFailure.toJson).getD .null),
    ("extensions", (outcomes.extensions.map extensionJson).getD .null)]

def CallOutcome.toIon (call : CallOutcome) : Ion X :=
  .record [("id", .string call.id), ("outcome", call.outcome.toIon)]

def Outcomes.toIon (lib : IonLibrary X) (outcomes : Outcomes) : Except String (Ion X) := do
  outcomes.validate lib
  pure (.record [("contractVersion", .string "0.1.0-draft.5"),
    ("calls", .list [] (outcomes.calls.map CallOutcome.toIon)),
    ("cleanup", (outcomes.cleanup.map OutcomeFailure.toIon).getD (.scalar [] .null)),
    ("extensions",
      (outcomes.extensions.map fun bytes => .scalar [] (.blob bytes)).getD (.scalar [] .null))])

def absentOutcomeField : Ion X → Bool
  | .scalar [] .null => true
  | _ => false

def blobExtension (value : Ion X) : Except String (List UInt8) := do
  checkPlain value
  match value with
  | .scalar _ (.blob bytes) => pure bytes
  | _ => throw "execution.extension_format"

def optionalField {α : Type} (read : Ion X → Except String α) (value : Ion X) :
    Except String (Option α) :=
  if absentOutcomeField value = true then .ok none else (read value).map some

def callOutcome (read : Ion X → Except String Value) (call : Ion X) :
    Except String CallOutcome := do
  let f ← outcomeFields call ["id", "outcome"] "workbench.invalid_outcomes"
  let id ← string (← required f "id")
  let outcome ← terminalOutcome read (← required f "outcome")
  pure ⟨id, outcome⟩

/-- `read_outcomes`, with the readers of the returned values and of the extension. -/
def readOutcomes (lib : IonLibrary X) (read : Ion X → Except String Value)
    (extension : Ion X → Except String (List UInt8)) (value : Ion X) :
    Except String Outcomes := do
  let f ← outcomeFields value ["contractVersion", "calls", "cleanup", "extensions"]
    "workbench.invalid_outcomes"
  let version ← string (← required f "contractVersion")
  refuse (version ≠ "0.1.0-draft.5") "workbench.invalid_outcomes"
  let calls ← list (← required f "calls")
  refuse (calls.isEmpty = true ∨ 1000 < calls.length) "execution.result_count"
  let cleanup ← required f "cleanup"
  let extensions ← required f "extensions"
  let calls ← calls.mapM (callOutcome read)
  let cleanup ← optionalField (outcomeFailure · true) cleanup
  let extensions ← optionalField extension extensions
  let result : Outcomes := ⟨calls, cleanup, extensions⟩
  result.validate lib
  pure result

def jsonIonOutcomes (lib : IonLibrary X) (value : Ion X) : Except String Outcomes :=
  readOutcomes lib rootPayload (jsonExtension lib) value

def Outcomes.fromIon (lib : IonLibrary X) (value : Ion X) : Except String Outcomes :=
  readOutcomes lib Value.fromIon blobExtension value

def Outcomes.fromJson (lib : IonLibrary X) (value : Json) : Except String Outcomes := do
  jsonIonOutcomes lib (← lib.readText value.stringify)

def Outcomes.decode (lib : IonLibrary X) (bytes : List UInt8) (format : String) :
    Except String Outcomes := do
  refuse (inputLimit < bytes.length) "execution.input_limit"
  let source ← utf8Text bytes
  if format = "json" then
    lib.parseJson source
    jsonIonOutcomes lib (← lib.readText source)
  else if format = "ion-text" then Outcomes.fromIon lib (← lib.readText source)
  else throw "execution.unsupported_format"

end Morphir.Execution
