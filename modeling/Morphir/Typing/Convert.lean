import Morphir.IR.Values

/-!
# Internal types

The types that inference works on.  A type constructor is named by its
canonical fully qualified name and a record field by its canonical name.
-/

namespace Morphir.Typing

/-- Internal types.  The tail of a record is a metavariable or a rigid
variable; a record without a tail is closed. -/
inductive Ty
  | mvar (id : Nat)
  | rigid (key : String) (classes : List String)
  | gen (index : Nat)
  | con (name : String) (args : List Ty)
  | fn (input output : Ty)
  | tup (items : List Ty)
  | union (items : List Ty)
  | attributed (attrs : TypeAttributes) (body : Ty)
  | record (fields : List (String × Ty)) (tail : Option Ty)
  | unit

namespace Ty

lemma inductionOn {P : Ty → Prop} (mvar : ∀ id, P (.mvar id))
    (rigid : ∀ key classes, P (.rigid key classes)) (gen : ∀ index, P (.gen index))
    (con : ∀ name args, (∀ t ∈ args, P t) → P (.con name args))
    (fn : ∀ input output, P input → P output → P (.fn input output))
    (tup : ∀ items, (∀ t ∈ items, P t) → P (.tup items))
    (union : ∀ items, (∀ t ∈ items, P t) → P (.union items))
    (attributed : ∀ attrs body, P body → P (.attributed attrs body))
    (record : ∀ fields tail, (∀ e ∈ fields, P e.2) → (∀ t ∈ tail, P t) → P (.record fields tail))
    (unit : P .unit) (t : Ty) : P t := by
  refine Ty.rec
    (motive_5 := fun e => P e.2) mvar rigid gen con fn tup union attributed record unit
    ?_ ?_ ?_ ?_ ?_ ?_ ?_ t
  · simp
  · intro head tail hh htl
    simpa using ⟨hh, htl⟩
  · simp
  · intro head tail hh htl
    simpa using ⟨hh, fun a b => htl (a, b)⟩
  · simp
  · intro t ht
    simpa using ht
  · intro key t ht
    exact ht

/- Equality of types: the fields of records compare as maps, so they have the
same size and agree at every name. -/
mutual
def beq : Ty → Ty → Bool
  | .mvar a, .mvar b => a == b
  | .rigid a c, .rigid b d => a == b && c == d
  | .gen a, .gen b => a == b
  | .con n xs, .con m ys => n == m && beqItems xs ys
  | .fn a b, .fn c d => beq a c && beq b d
  | .tup xs, .tup ys => beqItems xs ys
  | .union xs, .union ys => beqItems xs ys
  | .attributed a s, .attributed b t => a == b && beq s t
  | .record xs s, .record ys t =>
    xs.length == ys.length && beqFields xs ys &&
      ys.all (fun e => OrdMap.contains xs e.1) && beqTail s t
  | .unit, .unit => true
  | _, _ => false
termination_by structural t => t

def beqItems : List Ty → List Ty → Bool
  | [], [] => true
  | x :: xs, y :: ys => beq x y && beqItems xs ys
  | _, _ => false
termination_by structural items => items

def beqFields : List (String × Ty) → List (String × Ty) → Bool
  | [], _ => true
  | (name, field) :: xs, ys =>
    (match OrdMap.get? ys name with
      | some other => beq field other
      | none => false) && beqFields xs ys
termination_by structural fields => fields

def beqTail : Option Ty → Option Ty → Bool
  | none, none => true
  | some s, some t => beq s t
  | _, _ => false
termination_by structural tail => tail
end

instance : BEq Ty := ⟨beq⟩

/- The metavariables that a type mentions, in order and with repetitions. -/
mutual
def mvars : Ty → List Nat
  | .mvar id => [id]
  | .con _ args => mvarsOfItems args
  | .fn input output => mvars input ++ mvars output
  | .tup items => mvarsOfItems items
  | .union items => mvarsOfItems items
  | .attributed _ body => mvars body
  | .record fields tail => mvarsOfFields fields ++ mvarsOfTail tail
  | .rigid _ _ => []
  | .gen _ => []
  | .unit => []

def mvarsOfItems : List Ty → List Nat
  | [] => []
  | t :: ts => mvars t ++ mvarsOfItems ts

def mvarsOfFields : List (String × Ty) → List Nat
  | [] => []
  | (_, t) :: fields => mvars t ++ mvarsOfFields fields

def mvarsOfTail : Option Ty → List Nat
  | none => []
  | some t => mvars t
end

variable {id : Nat}

lemma mem_mvarsOfItems {items : List Ty} : id ∈ mvarsOfItems items ↔ ∃ t ∈ items, id ∈ t.mvars := by
  induction items with
  | nil => simp [mvarsOfItems]
  | cons t ts ih => simp [mvarsOfItems, ih]

lemma mem_mvarsOfFields {fields : List (String × Ty)} :
    id ∈ mvarsOfFields fields ↔ ∃ e ∈ fields, id ∈ e.2.mvars := by
  induction fields with
  | nil => simp [mvarsOfFields]
  | cons e fields ih => simp [mvarsOfFields, ih]

lemma mem_mvarsOfTail {tail : Option Ty} : id ∈ mvarsOfTail tail ↔ ∃ t ∈ tail, id ∈ t.mvars := by
  cases tail <;> simp [mvarsOfTail]

end Ty

/-- The state of a metavariable.  An unbound one has a binding level and a set
of at most one class. -/
inductive MetaState
  | unbound (level : Int) (classes : List String)
  | link (target : Ty)

/-- A type scheme.  The entry `gens[i]` holds the classes of `Ty.gen i`. -/
structure Poly where
  gens : List (List String)
  body : Ty

end Morphir.Typing

/-!
## Variable classes and retained attributes

A variable belongs to at most one class, from its `typeclass` constraint or
from the beginning of its name.
-/

namespace Morphir.Typing

open IR

def typeclass : String := "typeclass"

def number : String := "number"

def comparable : String := "comparable"

def appendable : String := "appendable"

def compappend : String := "compappend"

def isClass (name : String) : Bool :=
  name == number || name == comparable || name == appendable || name == compappend

def joinClass (x y : String) : Option String :=
  if x = comparable ∧ y = appendable then some compappend
  else if x = number ∧ y = comparable then some number
  else if x = compappend ∧ (y = comparable ∨ y = appendable) then some compappend
  else none

/-- Joins two class sets of at most one class; `none` when no type satisfies both. -/
def join (a b : List String) : Option (List String) :=
  match a, b with
  | [], x => some x
  | x, [] => some x
  | [x], [y] =>
    if x = y then some [x]
    else
      match joinClass x y with
      | some c => some [c]
      | none => (joinClass y x).map fun c => [c]
  | _, _ => none

def hasStart (text start : String) : Bool := start.toList.isPrefixOf text.toList

/-- The class of a variable from the start of its canonical name, longest first. -/
def classOfText (name : String) : List String :=
  match [compappend, appendable, comparable, number].find? (hasStart name) with
  | some c => [c]
  | none => []

/-- The class set of a variable: its `typeclass` constraint, else its name. -/
def classesOf (name : String) (attrs : TypeAttributes) : List String :=
  match OrdMap.get? attrs.constraints typeclass with
  | some (.text c) => [c]
  | _ => classOfText name

def typeAttributes : IRType → TypeAttributes
  | .variable attrs _ | .reference attrs _ _ | .tuple attrs _ | .union attrs _
  | .record attrs _ | .extensibleRecord attrs _ _ | .function attrs _ _ | .unit attrs => attrs

def withoutMarker (attrs : TypeAttributes) : List (String × Data) :=
  if attrs.isUnknown then OrdMap.erase attrs.extensions inferenceExtension
  else attrs.extensions

def provenanceNote : String := "example/union:provenance#note"

/-- The attributes that a comparison must account for: every constraint and
every extension but the inference marker and the provenance note. -/
def obligations (attrs : TypeAttributes) : TypeAttributes :=
  let extensions := withoutMarker attrs
  let extensions :=
    match OrdMap.get? extensions provenanceNote with
    | some (.text _) => OrdMap.erase extensions provenanceNote
    | _ => extensions
  { attrs with source := none, extensions := extensions }

/-- The attributes that conversion keeps: all but the inference marker and, on
a variable, a constraint by one of the four classes. -/
def retainedAttributes (t : IRType) : TypeAttributes :=
  let attrs := typeAttributes t
  let constraints :=
    match t, OrdMap.get? attrs.constraints typeclass with
    | .variable _ _, some (.text c) =>
      if isClass c then OrdMap.erase attrs.constraints typeclass else attrs.constraints
    | _, _ => attrs.constraints
  { attrs with extensions := withoutMarker attrs, constraints := constraints }

end Morphir.Typing

/-!
## Conversion from representation types to internal types

The conversion asks a callback for the type of each variable, in the order in
which the variables occur.  The row variable of an extensible record comes
after its fields, with the attributes of the record.
-/

namespace Morphir.Typing

open IR

section Conversion

variable {m : Type → Type} [Monad m] (vars : String → TypeAttributes → m Ty)

/-- Wraps a converted body in the attributes that its node retains. -/
def attributedBody (t : IRType) (body : Ty) : Ty :=
  let attrs := retainedAttributes t
  if attrs == TypeAttributes.default then body else .attributed attrs body

/- Converts a type; `vars` gives the type of each variable by canonical name. -/
mutual
def toTyM : IRType → m Ty
  | .variable attrs name => do
    return attributedBody (.variable attrs name) (← vars name.toCanonical attrs)
  | .reference attrs name args => do
    return attributedBody (.reference attrs name args)
      (.con name.toCanonical (← itemsToTyM args))
  | .tuple attrs [] => return attributedBody (.tuple attrs []) .unit
  | .tuple attrs (item :: items) => do
    let first ← toTyM item
    let rest ← itemsToTyM items
    return attributedBody (.tuple attrs (item :: items)) (.tup (first :: rest))
  | .union attrs items => do
    return attributedBody (.union attrs items) (.union (← itemsToTyM items))
  | .record attrs fields => do
    return attributedBody (.record attrs fields) (.record (← fieldsToTyM [] fields) none)
  | .extensibleRecord attrs row fields => do
    let converted ← fieldsToTyM [] fields
    let tail ← vars row.toCanonical attrs
    return attributedBody (.extensibleRecord attrs row fields) (.record converted (some tail))
  | .function attrs input output => do
    let input' ← toTyM input
    let output' ← toTyM output
    return attributedBody (.function attrs input output) (.fn input' output')
  | .unit attrs => return attributedBody (.unit attrs) .unit

def itemsToTyM : List IRType → m (List Ty)
  | [] => return []
  | item :: items => do
    let first ← toTyM item
    let rest ← itemsToTyM items
    return first :: rest

def fieldsToTyM (out : List (String × Ty)) : List (Name × IRType) → m (List (String × Ty))
  | [] => return out
  | (name, field) :: fields => do
    let converted ← toTyM field
    fieldsToTyM (OrdMap.insert out name.toCanonical converted) fields
end

end Conversion

def toTy (vars : String → TypeAttributes → Ty) (t : IRType) : Ty :=
  Id.run (toTyM (fun name attrs => pure (vars name attrs)) t)

def rigidVar (name : String) (attrs : TypeAttributes) : Ty := .rigid name (classesOf name attrs)

def fieldsToTy (vars : String → TypeAttributes → Ty) (fields : List (Name × IRType)) :
    List (String × Ty) :=
  fields.foldl (fun out e => OrdMap.insert out e.1.toCanonical (toTy vars e.2)) []

section Equations

variable (vars : String → TypeAttributes → Ty) (attrs : TypeAttributes)

@[simp] lemma toTy_variable (name : Name) :
    toTy vars (.variable attrs name) =
      attributedBody (.variable attrs name) (vars name.toCanonical attrs) := rfl

lemma run_itemsToTyM (items : List IRType) :
    Id.run (itemsToTyM (fun name attrs => pure (vars name attrs)) items) =
      items.map (toTy vars) := by
  induction items with
  | nil => rfl
  | cons item items ih =>
    rw [List.map_cons, ← ih]
    rfl

lemma run_fieldsToTyM (out : List (String × Ty)) (fields : List (Name × IRType)) :
    Id.run (fieldsToTyM (fun name attrs => pure (vars name attrs)) out fields) =
      fields.foldl (fun out e => OrdMap.insert out e.1.toCanonical (toTy vars e.2)) out := by
  induction fields generalizing out with
  | nil => rfl
  | cons e fields ih =>
    rw [List.foldl_cons, ← ih]
    rfl

@[simp] lemma toTy_reference (name : FQName) (args : List IRType) :
    toTy vars (.reference attrs name args) =
      attributedBody (.reference attrs name args)
        (.con name.toCanonical (args.map (toTy vars))) := by
  rw [← run_itemsToTyM]
  rfl

@[simp] lemma toTy_tuple_cons (item : IRType) (items : List IRType) :
    toTy vars (.tuple attrs (item :: items)) =
      attributedBody (.tuple attrs (item :: items))
        (.tup ((item :: items).map (toTy vars))) := by
  rw [← run_itemsToTyM]
  rfl

@[simp] lemma toTy_union (items : List IRType) :
    toTy vars (.union attrs items) =
      attributedBody (.union attrs items) (.union (items.map (toTy vars))) := by
  rw [← run_itemsToTyM]
  rfl

@[simp] lemma toTy_record (fields : List (Name × IRType)) :
    toTy vars (.record attrs fields) =
      attributedBody (.record attrs fields) (.record (fieldsToTy vars fields) none) := by
  rw [fieldsToTy, ← run_fieldsToTyM]
  rfl

@[simp] lemma toTy_extensibleRecord (row : Name) (fields : List (Name × IRType)) :
    toTy vars (.extensibleRecord attrs row fields) =
      attributedBody (.extensibleRecord attrs row fields)
        (.record (fieldsToTy vars fields) (some (vars row.toCanonical attrs))) := by
  rw [fieldsToTy, ← run_fieldsToTyM]
  rfl

@[simp] lemma toTy_function (input output : IRType) :
    toTy vars (.function attrs input output) =
      attributedBody (.function attrs input output)
        (.fn (toTy vars input) (toTy vars output)) := rfl

end Equations

def definitionParts : ValueDefinition → List (Name × IRType) × Option IRType × Option Value
  | .expressionBody inputs output body => (inputs, some output, some body)
  | .nativeBody inputs output _ => (inputs, some output, none)
  | .externalBody inputs output _ fallback => (inputs, some output, fallback)
  | .incompleteBody inputs output _ _ => (inputs, output, none)

/-- The declared input types and the declared output type of a definition. -/
def signatureTypes (definition : ValueDefinition) : List IRType :=
  let (inputs, output, _) := definitionParts definition
  inputs.map Prod.snd ++ output.toList

/-- Notes the first occurrence of a variable without the unknown marker. -/
def noteRigid (name : String) (attrs : TypeAttributes) :
    StateM (List (String × List String)) Ty := do
  modify fun out =>
    if attrs.isUnknown || out.any (fun r => r.1 == name) then out
    else out ++ [(name, classesOf name attrs)]
  return .unit

/-- The variables of a signature without the unknown marker, by canonical name,
with their classes, in first-seen order. -/
def signatureRigids (definition : ValueDefinition) : List (String × List String) :=
  ((signatureTypes definition).forM fun t => discard (toTyM noteRigid t)).run [] |>.2

def rigidNames (definition : ValueDefinition) : List String :=
  (signatureRigids definition).map Prod.fst

end Morphir.Typing
