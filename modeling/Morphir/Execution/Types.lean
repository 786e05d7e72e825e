import Morphir.Execution.Outcomes

/-!
# Types of execution values

A declared type decides about a value, also about an empty container.  Two values are
compared without regard to the order in which a record lists its fields.
-/

namespace Morphir.Execution

open Fallible Morphir.Host

inductive ValueType
  | int
  | bool
  | unit
  | decimal
  | float64
  | text
  | character
  | sequence (item : ValueType)
  | product (items : List ValueType)
  | record (fields : List (String × ValueType))
  | custom (name : String)
  | optional (item : ValueType)
  | outcome (ok err : ValueType)
  | function

structure ConstructorType where
  name : String
  inputs : List ValueType

structure CustomType where
  name : String
  constructors : List ConstructorType

def ValueType.name : ValueType → String
  | .int => "int"
  | .bool => "bool"
  | .unit => "unit"
  | .decimal => "decimal"
  | .float64 => "float64"
  | .text => "text"
  | .character => "character"
  | .sequence _ => "list"
  | .product _ => "tuple"
  | .record _ => "record"
  | .custom _ => "custom"
  | .optional _ => "maybe"
  | .outcome _ _ => "result"
  | .function => "function"

def depthLevels : Nat := 65

/-- The children of an aggregate with their types, named by their positions. -/
def typedItems (child : Value → ValueType → String → Except String Unit) :
    Nat → List Value → List ValueType → Except String Unit
  | i, item :: items, t :: types => do
    child item t (toString i)
    typedItems child (i + 1) items types
  | _, _, _ => .ok ()

def typedField (child : Value → ValueType → String → Except String Unit) (path : String)
    (fields : List (String × Value)) (p : String × ValueType) : Except String Unit :=
  match OrdMap.get? fields p.1 with
  | none => .error ("execution.missing_record_field: " ++ path ++ "." ++ p.1)
  | some v => child v p.2 p.1

section Typed

variable (definitions : List CustomType)

def findConstructor (owner tag : String) (unresolved unknown : String) :
    Except String ConstructorType := do
  match definitions.find? (·.name == owner) with
  | none => .error unresolved
  | some definition =>
    match definition.constructors.find? (·.name == tag) with
    | none => .error unknown
    | some variant => .ok variant

/-- `validate_typed`, with the levels that are left under the depth limit. -/
def validateTyped : Nat → Value → ValueType → String → Except String Unit
  | 0, _, _, path => .error ("execution.value_limit: " ++ path)
  | levels + 1, value, expected, path =>
    let child (v : Value) (t : ValueType) (name : String) : Except String Unit :=
      validateTyped levels v t (path ++ "." ++ name)
    match value, expected with
    | .integer _, .int => .ok ()
    | .boolean _, .bool => .ok ()
    | .unit, .unit => .ok ()
    | .decimal _ _, .decimal => .ok ()
    | .float64 _, .float64 => .ok ()
    | .text _, .text => .ok ()
    | .character _, .character => .ok ()
    | .sequence items, .sequence t => typedItems child 0 items (items.map fun _ => t)
    | .product items, .product types => do
      refuse (items.length ≠ types.length) ("execution.tuple_arity: " ++ path)
      typedItems child 0 items types
    | .record items, .record types => do
      let fields := OrdMap.ofList items
      types.forM (typedField child path fields)
      items.forM fun p => refuse (∀ t ∈ types, t.1 ≠ p.1)
        ("execution.extra_record_field: " ++ path ++ "." ++ p.1)
    | .constructor owner tag items, .custom name => do
      refuse (owner ≠ name) ("execution.constructor_owner: " ++ path)
      let variant ← findConstructor definitions name tag
        ("execution.unresolved_custom_type: " ++ name) ("execution.constructor_tag: " ++ path)
      refuse (variant.inputs.length ≠ items.length) ("execution.constructor_arity: " ++ path)
      typedItems child 0 items variant.inputs
    | .nothing, .optional _ => .ok ()
    | .just v, .optional t => child v t "just"
    | .ok v, .outcome ok _ => child v ok "ok"
    | .err v, .outcome _ err => child v err "err"
    | _, .function => .error ("execution.boundary_function: " ++ path)
    | _, _ => .error ("execution.wrong_type: " ++ path ++ ": expected " ++ expected.name)

/-- `validate_as`: a model error is no argument. -/
def validateAs (value : Value) (expected : ValueType) (output : Bool) : Except String Unit := do
  let _ ← validateValue value 0 valueBudget
  match value with
  | .modelError _ => refuse (output = false) "execution.model_error_argument"
  | _ => validateTyped definitions depthLevels value expected "value"

end Typed

end Morphir.Execution
