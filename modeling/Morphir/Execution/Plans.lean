import Morphir.Execution.SchemeValues

/-!
# Plans of a run

Validation and pure generation come before a provider is asked for a session.  What is
parametric is the unit of the model with its binary form, the generator and the driver that
it writes, and the artifacts, which are only compared.
-/

namespace Morphir.Execution

open Fallible Morphir.Host List

variable {X E U A : Type}

/-- What is raised: `Invalid` of the protocol, `CleanupFailed`, and the errors of others. -/
inductive Error (E : Type)
  | invalid (message : String)
  | cleanupFailed (cause : Option (Error E)) (error : Error E)
  | other (error : E)

def invalidly {α : Type} (result : Except String α) : Except (Error E) α := result.mapError .invalid

structure InvocationEntry where
  fqname : String
  generatedName : String
  inputs : List ValueType
  output : ValueType
  inputCodecs : List String
  outputCodec : String

structure Output (A : Type) where
  artifacts : List A
  invocations : List InvocationEntry
  invocationTypes : List CustomType
  invocationRejections : List (String × String)

structure PublicEntry where
  name : String
  inputs : List ValueType
  output : ValueType

/-- The loop of `validate_invocations` over the arguments of a call. -/
def validateArguments (definitions : List CustomType) :
    List Value → List ValueType → Except String Unit
  | v :: arguments, t :: inputs => do
    validateAs definitions v t false
    validateArguments definitions arguments inputs
  | _, _ => .ok ()

def validateInvocation (entries : List PublicEntry) (definitions : List CustomType)
    (rejections : List (String × String)) (call : Call) : Except String Unit :=
  match entries.find? (·.name == call.entry) with
  | none =>
    let reason := ((rejections.find? (·.1 == call.entry)).map Prod.snd).getD
      "execution.entry_not_public_or_supported"
    .error (reason ++ ": " ++ call.entry)
  | some entry => do
    refuse (call.arguments.length ≠ entry.inputs.length) ("execution.wrong_arity: " ++ call.id)
    validateArguments definitions call.arguments entry.inputs

def validateInvocations (lib : IonLibrary X) (suite : Suite) (entries : List PublicEntry)
    (definitions : List CustomType) (rejections : List (String × String)) :
    Except String Unit := do
  suite.validate lib
  suite.calls.forM (validateInvocation entries definitions rejections)

def InvocationEntry.public (e : InvocationEntry) : PublicEntry := ⟨e.fqname, e.inputs, e.output⟩

def validateSuiteCalls (lib : IonLibrary X) (library : Output A) (suite : Suite) :
    Except String Unit := do
  validateInvocations lib suite (library.invocations.map InvocationEntry.public)
    library.invocationTypes library.invocationRejections
  suite.calls.forM fun call => call.arguments.forM validateSdkBoundary

structure Plan (U A : Type) where
  unit : U
  suite : Suite
  library : Output A
  driver : List A
  target : String

structure Toolchain (E U A : Type) where
  unitId : U → String
  encodeUnit : U → Except (Error E) (List UInt8)
  decodeUnit : String → List UInt8 → Except (Error E) U
  generate : U → Except (Error E) (Output A)
  invocationDriver : Output A → List String → Except (Error E) (List A)

def refuseWith (c : Prop) [Decidable c] (message : String) : Except (Error E) Unit :=
  refuse c (.invalid message)

def plan (lib : IonLibrary X) (tools : Toolchain E U A) (unit : U) (suite : Suite)
    (target : String) (availableTargets : List String) : Except (Error E) (Plan U A) := do
  invalidly (suite.validate lib)
  refuseWith (target ∉ ["js", "wasm-gc", "native", "llvm"] ∨ target ∉ availableTargets)
    ("execution.unsupported_target: " ++ target)
  let library ← tools.generate unit
  invalidly (validateSuiteCalls lib library suite)
  let driver ← tools.invocationDriver library (suite.calls.map Call.entry)
  return { unit, suite, library, driver, target }

mutual

def ValueType.toJson : ValueType → Json
  | .sequence t => .object [("type", .string "list"), ("item", t.toJson)]
  | .optional t => .object [("type", .string "maybe"), ("item", t.toJson)]
  | .product types => .object [("type", .string "tuple"), ("items", .array (toJsonItems types))]
  | .record fields => .object [("type", .string "record"), ("fields", .array (toJsonFields fields))]
  | .custom name => .object [("type", .string "custom"), ("name", .string name)]
  | .outcome ok err => .object [("type", .string "result"), ("ok", ok.toJson), ("err", err.toJson)]
  | .int => .object [("type", .string "int")]
  | .bool => .object [("type", .string "bool")]
  | .unit => .object [("type", .string "unit")]
  | .decimal => .object [("type", .string "decimal")]
  | .float64 => .object [("type", .string "float64")]
  | .text => .object [("type", .string "text")]
  | .character => .object [("type", .string "character")]
  | .function => .object [("type", .string "function")]

def ValueType.toJsonItems : List ValueType → List Json
  | [] => []
  | t :: types => t.toJson :: toJsonItems types

def ValueType.toJsonFields : List (String × ValueType) → List Json
  | [] => []
  | (name, t) :: fields =>
    .object [("name", .string name), ("type", t.toJson)] :: toJsonFields fields

end

def InvocationEntry.toJson (e : InvocationEntry) : Json :=
  .object [("fqname", .string e.fqname), ("generated_name", .string e.generatedName),
    ("inputs", .array (e.inputs.map ValueType.toJson)), ("output", e.output.toJson),
    ("input_codecs", .array (e.inputCodecs.map Json.string)),
    ("output_codec", .string e.outputCodec)]

def CustomType.toJson (t : CustomType) : Json :=
  .object [("name", .string t.name), ("constructors", .array (t.constructors.map fun c =>
    .object [("name", .string c.name), ("inputs", .array (c.inputs.map ValueType.toJson))]))]

def manifestSnapshot (plan : Plan U A) : String :=
  (Json.object [("entries", .array (plan.library.invocations.map InvocationEntry.toJson)),
    ("types", .array (plan.library.invocationTypes.map CustomType.toJson))]).stringify

lemma nodup_of_validateCalls : ∀ {calls : List Call} {seen : List String},
    validateCalls seen calls = .ok () → (calls.map Call.id).Nodup ∧ ∀ call ∈ calls, call.id ∉ seen
  | [], seen, _ => by simp
  | call :: calls, seen, h => by
    obtain ⟨_, hident, h⟩ := bind_ok h
    obtain ⟨_, -, h⟩ := bind_ok h
    obtain ⟨_, -, h⟩ := bind_ok h
    obtain ⟨hnd, hfr⟩ := nodup_of_validateCalls h
    have hse : call.id ∉ seen := fun hmem => refuse_ok hident (.inr (.inr (.inr (.inr hmem))))
    refine ⟨nodup_cons.mpr ⟨?_, hnd⟩, ?_⟩
    · rw [mem_map]
      rintro ⟨other, ho, hid⟩
      exact hfr other ho (hid ▸ mem_append_right _ (mem_singleton.mpr rfl))
    · intro other ho
      rcases mem_cons.mp ho with rfl | ho
      · exact hse
      · exact fun hmem => hfr other ho (mem_append_left _ hmem)

lemma nodup_of_validate {lib : IonLibrary X} {suite : Suite} (h : suite.validate lib = .ok ()) :
    suite.calls ≠ [] ∧ (suite.calls.map Call.id).Nodup := by
  obtain ⟨_, hlim, h⟩ := bind_ok h
  obtain ⟨_, -, h⟩ := bind_ok h
  refine ⟨fun hnil => refuse_ok hlim (.inl ?_), (nodup_of_validateCalls h).1⟩
  rw [hnil]
  rfl

lemma plan_ok {lib : IonLibrary X} {tools : Toolchain E U A} {unit : U} {suite : Suite}
    {target : String} {targets : List String} {p : Plan U A}
    (h : plan lib tools unit suite target targets = .ok p) :
    suite.validate lib = .ok () ∧ p.suite = suite ∧ p.target = target := by
  obtain ⟨_, hvd, h⟩ := bind_ok h
  obtain ⟨_, -, h⟩ := bind_ok h
  obtain ⟨_, -, h⟩ := bind_ok h
  obtain ⟨_, -, h⟩ := bind_ok h
  obtain ⟨_, -, h⟩ := bind_ok h
  cases h
  refine ⟨?_, rfl, rfl⟩
  cases hsuite : suite.validate lib with
  | ok _ => rfl
  | error e =>
    rw [hsuite] at hvd
    cases hvd

end Morphir.Execution
