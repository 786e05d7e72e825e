import Morphir.IR.Names
import Morphir.Library.OrdMap

/-!
# Attributes and types

The types of the current representation.  A map is an insertion-ordered list
of entries; equality of maps does not depend on the order.
-/

namespace Morphir

inductive Data
  | null
  | boolean (value : Bool)
  | number (lexeme : String)
  | text (value : String)
  | array (items : List Data)
  | object (entries : List (String × Data))

namespace Data

/- Equality of data: objects compare as maps, so by size and by key. -/
mutual
def beq : Data → Data → Bool
  | .null, .null => true
  | .boolean a, .boolean b => a == b
  | .number a, .number b => a == b
  | .text a, .text b => a == b
  | .array xs, .array ys => beqItems xs ys
  | .object xs, .object ys => xs.length == ys.length && beqEntries xs ys
  | _, _ => false
termination_by structural d => d

def beqItems : List Data → List Data → Bool
  | [], [] => true
  | x :: xs, y :: ys => beq x y && beqItems xs ys
  | _, _ => false
termination_by structural items => items

def beqEntries : List (String × Data) → List (String × Data) → Bool
  | [], _ => true
  | (key, value) :: xs, ys =>
    (match OrdMap.get? ys key with
      | some other => beq value other
      | none => false) && beqEntries xs ys
termination_by structural entries => entries
end

instance : BEq Data := ⟨beq⟩

end Data

def beqDataMap (a b : List (String × Data)) : Bool := a.length == b.length && Data.beqEntries a b

structure SourceLocation where
  startLine : Int
  startColumn : Int
  endLine : Int
  endColumn : Int
  deriving DecidableEq

structure TypeAttributes where
  source : Option SourceLocation
  constraints : List (String × Data)
  extensions : List (String × Data)

def inferenceExtension : String := "morphir.inference"

/-- The value of the inference marker on a variable that inference may solve. -/
def unknownMarker : String := "unknown"

namespace TypeAttributes

def default : TypeAttributes := ⟨none, [], []⟩

instance : Inhabited TypeAttributes := ⟨default⟩

def beq (a b : TypeAttributes) : Bool :=
  a.source == b.source && beqDataMap a.constraints b.constraints &&
    beqDataMap a.extensions b.extensions

instance : BEq TypeAttributes := ⟨beq⟩

def isUnknown (attrs : TypeAttributes) : Bool :=
  match OrdMap.get? attrs.extensions inferenceExtension with
  | some (.text value) => value == unknownMarker
  | _ => false

def withUnknown (attrs : TypeAttributes) : TypeAttributes :=
  { attrs with
    extensions := OrdMap.insert attrs.extensions inferenceExtension (.text unknownMarker) }

end TypeAttributes

namespace IR

inductive IRType
  | variable (attrs : TypeAttributes) (name : Name)
  | reference (attrs : TypeAttributes) (name : FQName) (args : List IRType)
  | tuple (attrs : TypeAttributes) (items : List IRType)
  | union (attrs : TypeAttributes) (items : List IRType)
  | record (attrs : TypeAttributes) (fields : List (Name × IRType))
  | extensibleRecord (attrs : TypeAttributes) (row : Name) (fields : List (Name × IRType))
  | function (attrs : TypeAttributes) (input output : IRType)
  | unit (attrs : TypeAttributes)

namespace IRType

lemma inductionOn {P : IRType → Prop} (var : ∀ attrs name, P (.variable attrs name))
    (reference : ∀ attrs name args, (∀ t ∈ args, P t) → P (.reference attrs name args))
    (tuple : ∀ attrs items, (∀ t ∈ items, P t) → P (.tuple attrs items))
    (union : ∀ attrs items, (∀ t ∈ items, P t) → P (.union attrs items))
    (record : ∀ attrs fields, (∀ e ∈ fields, P e.2) → P (.record attrs fields))
    (extensibleRecord : ∀ attrs row fields, (∀ e ∈ fields, P e.2) →
      P (.extensibleRecord attrs row fields))
    (function : ∀ attrs input output, P input → P output → P (.function attrs input output))
    (unit : ∀ attrs, P (.unit attrs)) (t : IRType) : P t := by
  refine IRType.rec (motive_4 := fun e => P e.2)
    var reference tuple union record extensibleRecord function unit ?_ ?_ ?_ ?_ ?_ t
  · simp
  · intro head tail hh htl
    simpa using ⟨hh, htl⟩
  · simp
  · intro head tail hh htl
    simpa using ⟨hh, fun a b => htl (a, b)⟩
  · intro name t ht
    exact ht

def isUnion : IRType → Bool
  | .union _ _ => true
  | _ => false

def isUnit : IRType → Bool
  | .unit _ => true
  | .tuple _ [] => true
  | _ => false

end IRType

end IR

end Morphir

/-!
## Literals, patterns, values and definitions
-/

namespace Morphir.IR

structure Double where
  bits : UInt64
  deriving DecidableEq

structure ValueAttributes where
  source : Option SourceLocation
  inferredType : Option IRType
  extensions : List (String × Data)

inductive Literal
  | bool (value : Bool)
  | char (value : Char)
  | string (value : String)
  | integer (lexeme : String)
  | float (value : Double)
  | decimal (lexeme : String)
  | document (value : Data)

inductive PatternLiteral
  | bool (value : Bool)
  | char (value : Char)
  | string (value : String)
  | integer (lexeme : String)
  | float (value : Double)
  | decimal (lexeme : String)
  deriving DecidableEq

inductive Pattern
  | wildcard (attrs : ValueAttributes)
  | as (attrs : ValueAttributes) (pattern : Pattern) (name : Name)
  | tuple (attrs : ValueAttributes) (items : List Pattern)
  | constructor (attrs : ValueAttributes) (name : FQName) (args : List Pattern)
  | emptyList (attrs : ValueAttributes)
  | headTail (attrs : ValueAttributes) (head tail : Pattern)
  | literal (attrs : ValueAttributes) (value : PatternLiteral)
  | unit (attrs : ValueAttributes)

inductive HoleReason
  | unresolvedReference (name : FQName)
  | deletedDuringRefactor (text : String)
  | typeMismatch (expected found : String)
  deriving DecidableEq

inductive Incompleteness
  | hole (reason : HoleReason) (expected : Option IRType)
  | draft

structure ExternalBinding where
  targetPlatform : String
  externalName : String
  deriving DecidableEq

inductive NativeHint
  | arithmetic
  | comparison
  | stringOp
  | collectionOp
  | platformSpecific (text : String)
  deriving DecidableEq

structure NativeInfo where
  hint : NativeHint
  description : Option String
  deriving DecidableEq

/- Values and the definitions that occur in them. -/
mutual
inductive Value
  | literal (attrs : ValueAttributes) (value : Literal)
  | constructor (attrs : ValueAttributes) (name : FQName)
  | tuple (attrs : ValueAttributes) (items : List Value)
  | list (attrs : ValueAttributes) (items : List Value)
  | record (attrs : ValueAttributes) (fields : List (Name × Value))
  | variable (attrs : ValueAttributes) (name : Name)
  | reference (attrs : ValueAttributes) (name : FQName)
  | field (attrs : ValueAttributes) (subject : Value) (name : Name)
  | fieldFunction (attrs : ValueAttributes) (name : Name)
  | apply (attrs : ValueAttributes) (function argument : Value)
  | lambda (attrs : ValueAttributes) (pattern : Pattern) (body : Value)
  | letDefinition (attrs : ValueAttributes) (name : Name) (definition : ValueDefinition)
      (rest : Value)
  | letRecursion (attrs : ValueAttributes) (definitions : List (Name × ValueDefinition))
      (rest : Value)
  | destructure (attrs : ValueAttributes) (pattern : Pattern) (subject rest : Value)
  | ifThenElse (attrs : ValueAttributes) (condition yes no : Value)
  | patternMatch (attrs : ValueAttributes) (subject : Value) (cases : List (Pattern × Value))
  | updateRecord (attrs : ValueAttributes) (subject : Value) (fields : List (Name × Value))
  | unit (attrs : ValueAttributes)
  | hole (attrs : ValueAttributes) (reason : HoleReason) (expected : Option IRType)

inductive ValueDefinition
  | expressionBody (inputs : List (Name × IRType)) (output : IRType) (body : Value)
  | nativeBody (inputs : List (Name × IRType)) (output : IRType) (info : NativeInfo)
  | externalBody (inputs : List (Name × IRType)) (output : IRType)
      (bindings : List ExternalBinding) (fallback : Option Value)
  | incompleteBody (inputs : List (Name × IRType)) (output : Option IRType)
      (incompleteness : Incompleteness) (sketch : Option Value)
end

inductive AnnotationArgument
  | positional (value : Value)
  | named (name : Name) (value : Value)

inductive Annotation
  | compact (name : FQName) (text : Option String)
  | structured (name : FQName) (arguments : List AnnotationArgument)

structure ValueSpecification where
  annotations : List Annotation
  inputs : List (Name × IRType)
  output : IRType

namespace ValueDefinition

/-- Incomplete definitions without an output type do not yet have a specification. -/
def toSpecification : ValueDefinition → Option ValueSpecification
  | .expressionBody inputs output _
  | .nativeBody inputs output _
  | .externalBody inputs output _ _
  | .incompleteBody inputs (some output) _ _ => some ⟨[], inputs, output⟩
  | .incompleteBody _ none _ _ => none

end ValueDefinition

def valueAttributes : Value → ValueAttributes
  | .literal attrs _ | .constructor attrs _ | .tuple attrs _ | .list attrs _
  | .record attrs _ | .variable attrs _ | .reference attrs _ | .field attrs _ _
  | .fieldFunction attrs _ | .apply attrs _ _ | .lambda attrs _ _
  | .letDefinition attrs _ _ _ | .letRecursion attrs _ _ | .destructure attrs _ _ _
  | .ifThenElse attrs _ _ _ | .patternMatch attrs _ _ | .updateRecord attrs _ _
  | .unit attrs | .hole attrs _ _ => attrs

end Morphir.IR
