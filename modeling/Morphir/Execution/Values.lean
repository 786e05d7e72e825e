import Morphir.Host.Json
import Morphir.Library.Fallible
import Morphir.Mep.Framing

/-!
# Ion

Ion values as the execution codec sees them, the accessors that it reads them with,
and the Ion library that it writes and reads them with.
-/

namespace Morphir.Execution

open Fallible Morphir.Host

abbrev Symbol := Option String

/-- The kinds of Ion values that hold no others, those that the codec does not use as
`other`. -/
inductive Scalar (X : Type)
  | null
  | bool (value : Bool)
  | int (value : Int)
  | decimal (coefficient exponent : Int)
  | string (text : String)
  | blob (bytes : List UInt8)
  | other (value : X)

inductive Ion (X : Type)
  | scalar (annotations : List Symbol) (kind : Scalar X)
  | list (annotations : List Symbol) (items : List (Ion X))
  | sexp (annotations : List Symbol) (items : List (Ion X))
  | struct (annotations : List Symbol) (fields : List (Symbol × Ion X))

namespace Ion

variable {X : Type}

mutual

def nesting : Ion X → Nat
  | .scalar _ _ => 0
  | .list _ items => nestingItems items + 1
  | .sexp _ items => nestingItems items + 1
  | .struct _ fields => nestingFields fields + 1

def nestingItems : List (Ion X) → Nat
  | [] => 0
  | item :: items => max item.nesting (nestingItems items)

def nestingFields : List (Symbol × Ion X) → Nat
  | [] => 0
  | (_, value) :: fields => max value.nesting (nestingFields fields)

end

def annotations : Ion X → List Symbol
  | .scalar annotations _ | .list annotations _ | .sexp annotations _ | .struct annotations _ =>
    annotations

def annotated (symbols : List Symbol) : Ion X → Ion X
  | .scalar _ kind => .scalar symbols kind
  | .list _ items => .list symbols items
  | .sexp _ items => .sexp symbols items
  | .struct _ fields => .struct symbols fields

/-- `with_annotation`: one more annotation, behind the others. -/
def withAnnotation (self : Ion X) (symbol : String) : Ion X :=
  self.annotated (self.annotations ++ [some symbol])

@[simp] lemma nesting_annotated (symbols : List Symbol) (v : Ion X) :
    (v.annotated symbols).nesting = v.nesting := by
  cases v <;> rfl

def string (text : String) : Ion X := .scalar [] (.string text)

def record (fields : List (String × Ion X)) : Ion X :=
  .struct [] (fields.map fun p => (some p.1, p.2))

end Ion

variable {X : Type}

/-- The loop of `fields` over the items behind those kept. -/
def collectFields (allowed : List String) :
    List (String × Ion X) → List (Symbol × Ion X) → Except String (List (String × Ion X))
  | result, [] => .ok result
  | result, (symbol, value) :: items =>
    let name := symbol.getD ""
    if ¬ name ∈ allowed ∨ OrdMap.contains result name then
      .error ("execution.invalid_field: " ++ name)
    else collectFields allowed (OrdMap.insert result name value) items

def fields (value : Ion X) (allowed : List String) : Except String (List (String × Ion X)) :=
  match value with
  | .struct _ items => collectFields allowed [] items
  | _ => .error "execution.expected_struct"

def required (fields : List (String × Ion X)) (name : String) : Except String (Ion X) :=
  match OrdMap.get? fields name with
  | some value => .ok value
  | none => .error ("execution.missing_field: " ++ name)

def checkPlain (value : Ion X) : Except String Unit :=
  refuse (value.annotations ≠ []) "execution.unexpected_annotation"

def string (value : Ion X) : Except String String := do
  checkPlain value
  match value with
  | .scalar _ (.string text) => pure text
  | _ => throw "execution.expected_string"

def list (value : Ion X) : Except String (List (Ion X)) := do
  checkPlain value
  match value with
  | .list _ items => pure items
  | _ => throw "execution.expected_list"

def smallInteger (value : Ion X) : Except String Int := do
  checkPlain value
  match value with
  | .scalar _ (.int n) =>
    if n < -2147483648 ∨ 2147483647 < n then throw "execution.integer_range" else pure n
  | _ => throw "execution.expected_integer"

/-- How deep the containers may be that the readers accept, `Budget(128)`. -/
def ionBudget : Nat := 128

/-- The functions of the Ion library that the codec calls, with the budget that it hands
them, and the JSON parser. -/
structure IonLibrary (X : Type) where
  writeBinary : Ion X → Except String (List UInt8)
  readBinary : List UInt8 → Except String (Ion X)
  writeText : Ion X → Except String String
  readText : String → Except String (Ion X)
  parseJson : String → Except String Unit

mutual

/-- The Ion value that a JSON text denotes, when its numbers are whole. -/
def jsonIon : Json → Option (Ion X)
  | .null => some (.scalar [] .null)
  | .bool value => some (.scalar [] (.bool value))
  | .number (some value) text =>
    if (value.floor : Rat) = value ∧ text = toString value.floor then
      some (.scalar [] (.int value.floor))
    else none
  | .number none _ => none
  | .string text => some (.string text)
  | .array items => (jsonIonItems items).map (.list [])
  | .object fields => (jsonIonFields fields).map (.struct [])

def jsonIonItems : List Json → Option (List (Ion X))
  | [] => some []
  | item :: items => do
    let item ← jsonIon item
    let items ← jsonIonItems items
    some (item :: items)

def jsonIonFields : List (String × Json) → Option (List (Symbol × Ion X))
  | [] => some []
  | (name, value) :: fields => do
    let value ← jsonIon value
    let fields ← jsonIonFields fields
    some ((some name, value) :: fields)

end

/-- What a reader returns for a text of a value: the value, or a failure when its
containers are nested deeper than the budget. -/
def ReadsBack (result : Except String (Ion X)) (value : Ion X) : Prop :=
  (value.nesting ≤ ionBudget → result = .ok value) ∧
    (ionBudget < value.nesting → ∃ code, result = .error code)

/-- The library reads back what it writes and reads the text of a JSON document as Ion, when
its budget allows. -/
structure IonLibrary.Faithful (lib : IonLibrary X) (document : Json) : Prop where
  binary : ∀ value bytes, lib.writeBinary value = .ok bytes → ReadsBack (lib.readBinary bytes) value
  text : ∀ value source, lib.writeText value = .ok source → ReadsBack (lib.readText source) value
  json : ∀ value, jsonIon document = some value →
    ReadsBack (lib.readText document.stringify) value ∧ lib.parseJson document.stringify = .ok ()

end Morphir.Execution

/-!
## Values of the execution codec

A value is written as a tree of structs.  Scalars at the top of an Ion argument have
a native form.
-/

namespace Morphir.Execution

open Fallible Morphir.Host

/-- `Value`: `nothing` and `just` are `Optional`, `ok` and `err` are `Outcome`. -/
inductive Value
  | integer (n : Int)
  | boolean (value : Bool)
  | unit
  | decimal (coefficient exponent : Int)
  | float64 (bits : UInt64)
  | text (units : List Int)
  | character (units : List Int)
  | sequence (items : List Value)
  | product (items : List Value)
  | record (fields : List (String × Value))
  | constructor (owner tag : String) (items : List Value)
  | nothing
  | just (value : Value)
  | ok (value : Value)
  | err (value : Value)
  | modelError (code : String)

def integerString (source : String) : Except String Int :=
  let chars := source.toList
  let digits := if chars.head? = some '-' then chars.tail else chars
  if digits = [] ∨ 10000 < chars.length ∨ ¬ digits.all Char.isDigit then
    .error "execution.invalid_integer"
  else if chars.head? = some '-' then .ok (-(Nat.ofDigitChars 10 digits 0))
  else .ok (Nat.ofDigitChars 10 digits 0)

/-- The loop of `normalize_decimal` that drops zeros, with fuel for the digits. -/
def dropZeros : Nat → Int → Int → Int × Int
  | 0, n, e => (n, e)
  | fuel + 1, n, e => if n.tdiv 10 * 10 = n then dropZeros fuel (n.tdiv 10) (e + 1) else (n, e)

def normalizeDecimal (coefficient exponent : Int) : Except String (Int × Int) :=
  if 10000 < (toString coefficient).length ∨ exponent < -10000 ∨ 10000 < exponent then
    .error "execution.decimal_limit"
  else if coefficient = 0 then .ok (coefficient, 0)
  else
    let (n, e) := dropZeros coefficient.natAbs coefficient exponent
    if e < -32 ∨ 10000 < e then .error "execution.decimal_precision" else .ok (n, e)

def validModelError (code : String) : Bool :=
  ["sdk.division_by_zero", "sdk.invalid_number", "sdk.out_of_range", "sdk.invalid_comparison",
    "sdk.unrepresentable_text", "sdk.decimal.division_by_zero", "sdk.decimal.underflow",
    "sdk.decimal.precision_loss", "sdk.decimal.invalid_literal"].contains code

def isName (name : String) : Bool := name ≠ "" && utf16Length name ≤ 1024

def chargeValue (depth : Nat) (budget : Int) : Except String Int := do
  refuse (64 < depth ∨ budget - 1 < 0) "execution.value_limit"
  pure (budget - 1)

def chargeUnits (units : List Int) (budget : Int) : Except String Int := do
  refuse (units.any (fun n => n < 0 || 65535 < n) = true ∨ budget - units.length < 0)
    "execution.utf16_units"
  pure (budget - units.length)

mutual

/-- `validate_value`: what is left of the budget. -/
def validateValue : Value → Nat → Int → Except String Int
  | .integer n, depth, budget => do
    let budget ← chargeValue depth budget
    refuse (10000 < (toString n).length) "execution.integer_limit"
    pure budget
  | .decimal n e, depth, budget => do
    let budget ← chargeValue depth budget
    let _ ← normalizeDecimal n e
    pure budget
  | .text units, depth, budget | .character units, depth, budget => do
    let budget ← chargeValue depth budget
    chargeUnits units budget
  | .sequence items, depth, budget | .product items, depth, budget => do
    let budget ← chargeValue depth budget
    validateItems items (depth + 1) budget
  | .record fields, depth, budget => do
    let budget ← chargeValue depth budget
    validateFields [] fields (depth + 1) budget
  | .constructor owner tag items, depth, budget => do
    let budget ← chargeValue depth budget
    refuse (¬ isName owner ∨ ¬ isName tag) "execution.constructor_identity"
    validateItems items (depth + 1) budget
  | .just value, depth, budget | .ok value, depth, budget | .err value, depth, budget => do
    let budget ← chargeValue depth budget
    validateValue value (depth + 1) budget
  | .modelError code, depth, budget => do
    let budget ← chargeValue depth budget
    refuse (¬ validModelError code) "execution.model_error_code"
    pure budget
  | .boolean _, depth, budget | .unit, depth, budget | .float64 _, depth, budget
  | .nothing, depth, budget => chargeValue depth budget

def validateItems : List Value → Nat → Int → Except String Int
  | [], _, budget => .ok budget
  | item :: items, depth, budget => do
    let budget ← validateValue item depth budget
    validateItems items depth budget

def validateFields : List String → List (String × Value) → Nat → Int → Except String Int
  | _, [], _, budget => .ok budget
  | seen, (name, value) :: fields, depth, budget => do
    refuse (¬ isName name ∨ name ∈ seen) ("execution.record_field: " ++ name)
    let budget ← validateValue value depth budget
    validateFields (seen ++ [name]) fields depth budget

end

def valueBudget : Int := 100000

variable {X : Type}

mutual

def Value.toJson : Value → Json
  | .integer n => .object [("type", .string "int"), ("value", .string (toString n))]
  | .boolean value => .object [("type", .string "bool"), ("value", .bool value)]
  | .unit => .object [("type", .string "unit")]
  | .decimal n e =>
    .object [("type", .string "decimal"), ("coefficient", .string (toString n)),
      ("exponent", Json.ofInt e)]
  | .float64 bits => .object [("type", .string "float64"), ("bits", .string (toString bits.toNat))]
  | .text units => .object [("type", .string "text"), ("units", .array (units.map Json.ofInt))]
  | .character units =>
    .object [("type", .string "character"), ("units", .array (units.map Json.ofInt))]
  | .sequence items => .object [("type", .string "list"), ("items", .array (toJsonItems items))]
  | .product items => .object [("type", .string "tuple"), ("items", .array (toJsonItems items))]
  | .record fields => .object [("type", .string "record"), ("fields", .array (toJsonFields fields))]
  | .constructor owner tag items =>
    .object [("type", .string "custom"), ("owner", .string owner), ("tag", .string tag),
      ("items", .array (toJsonItems items))]
  | .nothing => .object [("type", .string "maybe"), ("case", .string "nothing")]
  | .just value =>
    .object [("type", .string "maybe"), ("case", .string "just"), ("value", value.toJson)]
  | .ok value =>
    .object [("type", .string "result"), ("case", .string "ok"), ("value", value.toJson)]
  | .err value =>
    .object [("type", .string "result"), ("case", .string "err"), ("value", value.toJson)]
  | .modelError code => .object [("type", .string "model-error"), ("code", .string code)]

def Value.toJsonItems : List Value → List Json
  | [] => []
  | item :: items => item.toJson :: toJsonItems items

def Value.toJsonFields : List (String × Value) → List Json
  | [] => []
  | (name, value) :: fields =>
    .object [("name", .string name), ("value", value.toJson)] :: toJsonFields fields

end

mutual

def valuePayload : Value → Ion X
  | .integer n => .record [("type", .string "int"), ("value", .string (toString n))]
  | .boolean value => .record [("type", .string "bool"), ("value", .scalar [] (.bool value))]
  | .unit => .record [("type", .string "unit")]
  | .decimal n e =>
    .record [("type", .string "decimal"), ("coefficient", .string (toString n)),
      ("exponent", .scalar [] (.int e))]
  | .float64 bits => .record [("type", .string "float64"), ("bits", .string (toString bits.toNat))]
  | .text units =>
    .record [("type", .string "text"), ("units", .list [] (units.map fun n => .scalar [] (.int n)))]
  | .character units =>
    .record [("type", .string "character"),
      ("units", .list [] (units.map fun n => .scalar [] (.int n)))]
  | .sequence items => .record [("type", .string "list"), ("items", .list [] (payloadItems items))]
  | .product items => .record [("type", .string "tuple"), ("items", .list [] (payloadItems items))]
  | .record fields =>
    .record [("type", .string "record"), ("fields", .list [] (payloadFields fields))]
  | .constructor owner tag items =>
    .record [("type", .string "custom"), ("owner", .string owner), ("tag", .string tag),
      ("items", .list [] (payloadItems items))]
  | .nothing => .record [("type", .string "maybe"), ("case", .string "nothing")]
  | .just value =>
    .record [("type", .string "maybe"), ("case", .string "just"), ("value", valuePayload value)]
  | .ok value =>
    .record [("type", .string "result"), ("case", .string "ok"), ("value", valuePayload value)]
  | .err value =>
    .record [("type", .string "result"), ("case", .string "err"), ("value", valuePayload value)]
  | .modelError code => .record [("type", .string "model-error"), ("code", .string code)]

def payloadItems : List Value → List (Ion X)
  | [] => []
  | item :: items => valuePayload item :: payloadItems items

def payloadFields : List (String × Value) → List (Ion X)
  | [] => []
  | (name, value) :: fields =>
    .record [("name", .string name), ("value", valuePayload value)] :: payloadFields fields

end

def Value.toIon : Value → Ion X
  | .integer n => .scalar [] (.int n)
  | .boolean value => .scalar [] (.bool value)
  | .unit => Ion.withAnnotation (.scalar [] .null) "morphir_unit"
  | .decimal n e => .scalar [] (.decimal n e)
  | value => Ion.withAnnotation (valuePayload value) "morphir_value"

def payloadNames (header : List (String × Ion X)) (kind : String) : Except String (List String) :=
  if kind = "unit" then .ok ["type"]
  else if kind = "int" ∨ kind = "bool" then .ok ["type", "value"]
  else if kind = "decimal" then .ok ["type", "coefficient", "exponent"]
  else if kind = "float64" then .ok ["type", "bits"]
  else if kind = "text" ∨ kind = "character" then .ok ["type", "units"]
  else if kind = "list" ∨ kind = "tuple" then .ok ["type", "items"]
  else if kind = "record" then .ok ["type", "fields"]
  else if kind = "custom" then .ok ["type", "owner", "tag", "items"]
  else if kind = "maybe" then do
    let case ← string (← required header "case")
    pure (if case = "nothing" then ["type", "case"] else ["type", "case", "value"])
  else if kind = "result" then .ok ["type", "case", "value"]
  else if kind = "model-error" then .ok ["type", "code"]
  else .error "execution.unsupported_value"

def boolean (value : Ion X) : Except String Bool :=
  match value with
  | .scalar annotations (.bool b) => do
    refuse (annotations ≠ []) "execution.unexpected_annotation"
    pure b
  | _ => .error "execution.expected_bool"

def floatBits (source : String) : Except String UInt64 := do
  let bits ← integerString source
  refuse (bits < 0 ∨ 18446744073709551615 < bits) "execution.float_bits"
  pure (UInt64.ofNat bits.toNat)

def recordItem (child : Ion X → Except String Value) (item : Ion X) :
    Except String (String × Value) := do
  checkPlain item
  let f ← fields item ["name", "value"]
  let name ← string (← required f "name")
  let value ← child (← required f "value")
  pure (name, value)

def payloadOf (child : Ion X → Except String Value) (kind : String) (f : List (String × Ion X)) :
    Except String Value := do
  if kind = "int" then return .integer (← integerString (← string (← required f "value")))
  else if kind = "bool" then return .boolean (← boolean (← required f "value"))
  else if kind = "unit" then return .unit
  else if kind = "decimal" then
    return .decimal (← integerString (← string (← required f "coefficient")))
      (← smallInteger (← required f "exponent"))
  else if kind = "float64" then return .float64 (← floatBits (← string (← required f "bits")))
  else if kind = "text" then return .text (← (← list (← required f "units")).mapM smallInteger)
  else if kind = "character" then
    return .character (← (← list (← required f "units")).mapM smallInteger)
  else if kind = "list" then return .sequence (← (← list (← required f "items")).mapM child)
  else if kind = "tuple" then return .product (← (← list (← required f "items")).mapM child)
  else if kind = "record" then
    return .record (← (← list (← required f "fields")).mapM (recordItem child))
  else if kind = "custom" then
    return .constructor (← string (← required f "owner")) (← string (← required f "tag"))
      (← (← list (← required f "items")).mapM child)
  else if kind = "maybe" then
    let case ← string (← required f "case")
    if case = "nothing" then return .nothing
    else if case = "just" then return .just (← child (← required f "value"))
    else throw "execution.maybe_case"
  else if kind = "result" then
    let case ← string (← required f "case")
    if case = "ok" then return .ok (← child (← required f "value"))
    else if case = "err" then return .err (← child (← required f "value"))
    else throw "execution.result_case"
  else if kind = "model-error" then return .modelError (← string (← required f "code"))
  else throw "execution.unsupported_value"

/-- `payload_value`, with how many of the depths up to 64 are left. -/
def payloadValue : Nat → Ion X → Except String Value
  | 0, _ => .error "execution.value_limit"
  | depths + 1, value => do
    checkPlain value
    let header ← fields value ["type", "value", "coefficient", "exponent", "bits", "units",
      "items", "fields", "owner", "tag", "case", "code"]
    let kind ← string (← required header "type")
    let allowed ← payloadNames header kind
    let f ← fields value allowed
    refuse (f.length ≠ allowed.length) "execution.invalid_json_value"
    payloadOf (payloadValue depths) kind f

def rootPayload (value : Ion X) : Except String Value := payloadValue 65 value

def ionValue : Ion X → Except String Value
  | .scalar [] (.int n) => .ok (.integer n)
  | .scalar [] (.bool b) => .ok (.boolean b)
  | .scalar [] (.decimal n e) => .ok (.decimal n e)
  | .scalar [some "morphir_unit"] .null => .ok .unit
  | value =>
    if value.annotations = [] then .error "execution.unsupported_value"
    else if value.annotations = [some "morphir_value"] then rootPayload (value.annotated [])
    else .error "execution.value_annotation"

def Value.fromIon (value : Ion X) : Except String Value := do
  let result ← ionValue value
  let _ ← validateValue result 0 valueBudget
  pure result

def Value.fromJson (lib : IonLibrary X) (value : Json) : Except String Value := do
  let result ← rootPayload (← lib.readText value.stringify)
  let _ ← validateValue result 0 valueBudget
  pure result

end Morphir.Execution
