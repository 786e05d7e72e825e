import Morphir.Engine.ModelDocument
import Morphir.Mep.Framing

/-!
# The model transport of a guest

The offer of a host is read with the helpers of the wire format, and the tuples and
limits that both sides support are selected from it.
-/

namespace Morphir.Mep.Guest

open Fallible
open Host (Json)
open Engine.ModelDocument (FormatVersion)

inductive Raised
  | refused (code : String)
  | invalid (code detail : String)
  | number (text : String)
  | version (text : String)
  deriving DecidableEq

namespace Wire

def array : Json → Except Raised (List Json)
  | .array items => .ok items
  | _ => .error (.invalid "invalid_type" "Expected array")

def object : Json → Except Raised (List (String × Json))
  | .object fields => .ok fields
  | _ => .error (.invalid "invalid_type" "Expected object")

def string : Json → Except Raised String
  | .string text => .ok text
  | _ => .error (.invalid "invalid_type" "Expected string")

def field (value : Json) (key : String) : Except Raised Json := do
  match OrdMap.get? (← object value) key with
  | some found => pure found
  | none =>
    let code := if key = "formatVersion" then "missing_format_version" else "missing_member"
    .error (.invalid code key)

def optional (value : Json) (key : String) : Except Raised (Option Json) := do
  pure (OrdMap.get? (← object value) key)

def fields (value : Json) (allowed : List String) : Except Raised Unit := do
  match (OrdMap.keys (← object value)).find? (· ∉ allowed) with
  | some key => .error (.invalid "unknown_member" key)
  | none => pure ()

def numberText : Json → Except Raised String
  | .number _ text => .ok text
  | _ => .error (.invalid "invalid_type" "Expected number")

def integerText (value : Json) : Except Raised String := do
  let text ← numberText value
  if text.toList.any (fun c => c = '.' || c = 'e' || c = 'E') then
    .error (.invalid "invalid_literal" "Expected integer lexeme")
  else pure text

end Wire

def digitsValue (digits : List Char) : Option Nat :=
  if digits ≠ [] ∧ digits.all Char.isDigit then some (Nat.ofDigitChars 10 digits 0) else none

/-- An integer of 32 bits; the text of a JSON number has no other spelling. -/
def parseInt (text : String) : Except Raised Int :=
  let parsed : Option Int := match text.toList with
    | '-' :: digits => (digitsValue digits).map fun n => -(n : Int)
    | digits => (digitsValue digits).map Int.ofNat
  match parsed with
  | some n => if -2147483648 ≤ n ∧ n ≤ 2147483647 then .ok n else .error (.number text)
  | none => .error (.number text)

def parseUint64 (text : String) : Except Raised Nat :=
  match digitsValue text.toList with
  | some n => if n < 2 ^ 64 then .ok n else .error (.number text)
  | none => .error (.number text)

def MODEL_PROTOCOL : String := "0.2.0-draft.1"

def MODEL_ENVELOPE : String := "0.1.0-draft.1"

def GENERATE_MODEL : String := "morphir.backend.generateModel"

def COMPILE_MODEL : String := "morphir.frontend.compileModel"

structure Limits where
  encoded : Int
  decoded : Int
  depth : Int
  nodes : Int
  deriving DecidableEq

/-- A tuple that was checked: an object of these five texts and no more. -/
structure Tuple where
  operation : String
  profile : String
  codec : String
  envelopeVersion : String
  irVersion : String
  deriving DecidableEq

structure ModelTransport where
  tuples : List Tuple
  limits : Limits
  deriving DecidableEq

def tupleSnapshot (tuple : Tuple) : Json :=
  .object [("operation", .string tuple.operation), ("profile", .string tuple.profile),
    ("codec", .string tuple.codec), ("envelopeVersion", .string tuple.envelopeVersion),
    ("irVersion", .string tuple.irVersion)]

def modelTuple (profile codec operation : String) : Tuple :=
  ⟨operation, profile, codec, MODEL_ENVELOPE, "4.0.0"⟩

def modelSupport (frontend : Bool) : ModelTransport where
  tuples :=
    [modelTuple "morphir-model" "ion-binary" GENERATE_MODEL,
      modelTuple "morphir-ir" "morphir-json" GENERATE_MODEL] ++
    if frontend then
      [modelTuple "morphir-model" "ion-binary" COMPILE_MODEL,
        modelTuple "morphir-ir" "morphir-json" COMPILE_MODEL]
    else []
  limits := ⟨5592408, 4194304, 128, 100000⟩

def ModelTransport.toJson (transport : ModelTransport) : Json :=
  .object [("tuples", .array (transport.tuples.map tupleSnapshot)),
    ("limits", .object [("maxEncodedBytes", Json.ofInt transport.limits.encoded),
      ("maxDecodedBytes", Json.ofInt transport.limits.decoded),
      ("maxDepth", Json.ofInt transport.limits.depth),
      ("maxNodes", Json.ofInt transport.limits.nodes)]),
    ("guarantees", .array [])]

def modelPositive (value : Json) : Except Raised Int := do
  let n ← parseInt (← Wire.integerText value)
  refuse (¬ 0 < n) (.refused "invalid_limits")
  pure n

def modelText (value : Json) : Except Raised String := do
  let text ← Wire.string value
  refuse (trim text.toList = []) (.refused "invalid_identity")
  pure text

def readGuarantees : List String → List Json → Except Raised Unit
  | _, [] => .ok ()
  | seen, guarantee :: guarantees => do
    let text ← modelText guarantee
    refuse (text ∈ seen) (.refused "invalid_support")
    readGuarantees (text :: seen) guarantees

def readTuple (selected : List Tuple) (tuple : Json) : Except Raised Tuple := do
  Wire.fields tuple ["operation", "profile", "codec", "envelopeVersion", "irVersion"]
  let operation ← Wire.string (← Wire.field tuple "operation")
  let profile ← Wire.string (← Wire.field tuple "profile")
  let codec ← Wire.string (← Wire.field tuple "codec")
  let envelope ← Wire.string (← Wire.field tuple "envelopeVersion")
  let irVersion ← Wire.string (← Wire.field tuple "irVersion")
  let version ← match FormatVersion.parse irVersion with
    | some version => pure version
    | none => Except.error (.version irVersion)
  let read : Tuple := ⟨operation, profile, codec, envelope, irVersion⟩
  refuse (¬ ((operation = GENERATE_MODEL ∨ operation = "morphir.frontend.compileModel") ∧
    envelope = MODEL_ENVELOPE ∧ (version.major = 3 ∨ version.major = 4) ∧
    (profile = "morphir-model" ∧ codec = "ion-binary" ∨
      profile = "morphir-ir" ∧ codec = "morphir-json") ∧ read ∉ selected))
    (.refused "invalid_support")
  pure read

def readTuples : List Tuple → List Json → Except Raised (List Tuple)
  | selected, [] => .ok selected
  | selected, tuple :: tuples => do
    let read ← readTuple selected tuple
    readTuples (selected ++ [read]) tuples

def readSupport (value : Json) : Except Raised ModelTransport := do
  let limits ← Wire.field value "limits"
  let encoded ← modelPositive (← Wire.field limits "maxEncodedBytes")
  let decoded ← modelPositive (← Wire.field limits "maxDecodedBytes")
  let depth ← modelPositive (← Wire.field limits "maxDepth")
  let nodes ← modelPositive (← Wire.field limits "maxNodes")
  let guarantees ← match ← Wire.optional value "guarantees" with
    | some guarantees => Wire.array guarantees
    | none => pure []
  readGuarantees [] guarantees
  let tuples ← readTuples [] (← Wire.array (← Wire.field value "tuples"))
  pure ⟨tuples, ⟨encoded, decoded, depth, nodes⟩⟩

def minLimit (a b : Int) : Int := if a < b then a else b

/-- The tuples of the host that the guest has too, and the lower limits. -/
def selectModels (value : Json) (frontend : Bool) : Except Raised ModelTransport := do
  let host ← readSupport value
  let guest := modelSupport frontend
  pure ⟨host.tuples.filter (· ∈ guest.tuples), ⟨minLimit host.limits.encoded guest.limits.encoded,
      minLimit host.limits.decoded guest.limits.decoded,
      minLimit host.limits.depth guest.limits.depth,
      minLimit host.limits.nodes guest.limits.nodes⟩⟩

end Morphir.Mep.Guest
