import Morphir.Library.Fallible
import Morphir.Elm.Names

/-!
# Elm types

The types of declarations in Elm.  Fields that print alike make a record that Elm rejects, so they
are refused.
-/

namespace Morphir.Elm

open IR List

inductive TypeAnnotation
  | generic (name : String)
  | typed (qualifier : List String) (name : String) (args : List TypeAnnotation)
  | tupled (items : List TypeAnnotation)
  | record (fields : List (String × TypeAnnotation))
  | genericRecord (row : String) (fields : List (String × TypeAnnotation))
  | function (input output : TypeAnnotation)
  | unit

/-- What a name of the representation is in Elm. -/
inductive Resolved
  | qualified (qualifier : List String) (name : String)
  | op (symbol : String)

/-- The names that are in scope: what other names resolve to, and the type variables of the
declaration. -/
structure Context where
  resolve : FQName → Resolved
  typeVariables : List (String × String)

/-- The turns of `check_field_collisions`. -/
def checkFieldCollisions (seen : List String) (nodePath : String) : List Name → Except Problem Unit
  | [] => .ok ()
  | name :: names =>
    if valueName name ∈ seen then
      refuse "name_collision" nodePath ("another record field is also " ++ valueName name)
    else checkFieldCollisions (valueName name :: seen) nodePath names

def unsupportedUnion {α : Type} (nodePath : String) : Except Problem α :=
  refuse "unsupported_type" nodePath "Untagged unions are not supported by Elm generation"

mutual
def lowerType (ctx : Context) (nodePath : String) : IRType → Except Problem TypeAnnotation
  | .union _ _ => unsupportedUnion nodePath
  | .variable attributes name =>
    match OrdMap.get? ctx.typeVariables name.toCanonical with
    | some elmName => .ok (.generic elmName)
    | none => do
      let constraint ← constraintOf attributes nodePath
      pure (.generic (typeVariableName name constraint))
  | .reference _ name args =>
    match ctx.resolve name with
    | .qualified qualifier text => do
      let args ← lowerTypes ctx nodePath args
      pure (.typed qualifier text args)
    | .op symbol => refuse "invalid_mapping" nodePath
        ("type " ++ name.toCanonical ++ " maps to operator " ++ symbol)
  | .tuple _ items =>
    if items.length < 2 ∨ 3 < items.length then
      refuse "tuple_arity" nodePath
        ("Elm tuples have 2 or 3 elements, not " ++ toString items.length)
    else do
      let items ← lowerTypes ctx nodePath items
      pure (.tupled items)
  | .record _ fields => do
    checkFieldCollisions [] nodePath (OrdMap.keys fields)
    let fields ← recordFields ctx nodePath fields
    pure (.record fields)
  | .extensibleRecord _ row fields => do
    checkFieldCollisions [] nodePath (OrdMap.keys fields)
    let fields ← recordFields ctx nodePath fields
    pure (.genericRecord
      ((OrdMap.get? ctx.typeVariables row.toCanonical).getD (valueName row)) fields)
  | .function _ input output => do
    let input ← lowerType ctx nodePath input
    let output ← lowerType ctx nodePath output
    pure (.function input output)
  | .unit _ => .ok .unit
termination_by structural t => t

def lowerTypes (ctx : Context) (nodePath : String) :
    List IRType → Except Problem (List TypeAnnotation)
  | [] => .ok []
  | t :: ts => do
    let t ← lowerType ctx nodePath t
    let ts ← lowerTypes ctx nodePath ts
    pure (t :: ts)
termination_by structural ts => ts

def recordFields (ctx : Context) (nodePath : String) :
    List (Name × IRType) → Except Problem (List (String × TypeAnnotation))
  | [] => .ok []
  | (name, t) :: fields => do
    let t ← lowerType ctx nodePath t
    let fields ← recordFields ctx nodePath fields
    pure ((valueName name, t) :: fields)
termination_by structural fields => fields
end

/-- The type variables that were found, each with its class. -/
abbrev Found := List (String × Name × Option String)

/-- A variable gets the constraint of any occurrence. -/
def addConstraint (found : Found) (name : Name) (constraint : Option String) (nodePath : String) :
    Except Problem Found :=
  let key := name.toCanonical
  match OrdMap.get? found key, constraint with
  | some (_, some existing), some other =>
    if existing ≠ other then refuse "unsupported_constraint" nodePath
      ("type variable " ++ key ++ " is both " ++ existing ++ " and " ++ other)
    else .ok found
  | some (_, some _), none => .ok found
  | _, _ => .ok (OrdMap.insert found key (name, constraint))

mutual
def collectConstraints (nodePath : String) : IRType → Found → Except Problem Found
  | .union _ _, _ => unsupportedUnion nodePath
  | .variable attributes name, found => do
    let constraint ← constraintOf attributes nodePath
    addConstraint found name constraint nodePath
  | .reference _ _ items, found | .tuple _ items, found => collectAll nodePath items found
  | .record _ fields, found => collectFields nodePath fields found
  | .extensibleRecord _ row fields, found =>
    collectFields nodePath fields
      (if OrdMap.contains found row.toCanonical = true then found
        else OrdMap.insert found row.toCanonical (row, none))
  | .function _ input output, found => do
    let found ← collectConstraints nodePath input found
    collectConstraints nodePath output found
  | .unit _, found => .ok found
termination_by structural t => t

def collectAll (nodePath : String) : List IRType → Found → Except Problem Found
  | [], found => .ok found
  | t :: ts, found => do
    let found ← collectConstraints nodePath t found
    collectAll nodePath ts found
termination_by structural ts => ts

def collectFields (nodePath : String) : List (Name × IRType) → Found → Except Problem Found
  | [], found => .ok found
  | (_, t) :: fields, found => do
    let found ← collectConstraints nodePath t found
    collectFields nodePath fields found
termination_by structural fields => fields
end

/-- The type variables of a declaration: its parameters and those of its types. -/
def foundIn (params : List Name) (types : List IRType) (nodePath : String) :
    Except Problem Found :=
  collectAll nodePath types
    (params.foldl (fun found p => OrdMap.insert found p.toCanonical (p, none)) [])

/-- One Elm name for each type variable of a declaration, so that the parameters, the body and
every occurrence agree. -/
def typeVariables (params : List Name) (types : List IRType) (nodePath : String) :
    Except Problem (List (String × String)) := do
  let found ← foundIn params types nodePath
  pure (OrdMap.mapValues (fun entry => typeVariableName entry.1 entry.2) found)

def generics (ctx : Context) (params : List Name) : List String :=
  params.map fun p => (OrdMap.get? ctx.typeVariables p.toCanonical).getD (valueName p)

/-! The fields of every record of an annotation are distinct. -/
mutual
def TypeAnnotation.FieldsApart : TypeAnnotation → Prop
  | .generic _ | .unit => True
  | .typed _ _ items | .tupled items => AllFieldsApart items
  | .record fields | .genericRecord _ fields => (OrdMap.keys fields).Nodup ∧ EachFieldApart fields
  | .function input output => input.FieldsApart ∧ output.FieldsApart
termination_by structural t => t

def AllFieldsApart : List TypeAnnotation → Prop
  | [] => True
  | t :: ts => t.FieldsApart ∧ AllFieldsApart ts
termination_by structural ts => ts

def EachFieldApart : List (String × TypeAnnotation) → Prop
  | [] => True
  | (_, t) :: fields => t.FieldsApart ∧ EachFieldApart fields
termination_by structural fields => fields
end

open Fallible

lemma refuse_ne_ok {α : Type} {code detail : String} {a : α} :
    refuse code nodePath detail ≠ .ok a := nofun

lemma checkFieldCollisions_ok {names : List Name} {seen : List String} {u : Unit}
    (h : checkFieldCollisions seen nodePath names = .ok u) :
    (names.map valueName).Nodup ∧ ∀ name ∈ names, valueName name ∉ seen := by
  induction names generalizing seen with
  | nil => simp
  | cons name names ih =>
    rw [checkFieldCollisions] at h
    split at h
    · cases h
    · rename_i hse
      obtain ⟨hnd, hnew⟩ := ih h
      refine ⟨nodup_cons.mpr ⟨fun hmem => ?_, hnd⟩, forall_mem_cons.mpr ⟨hse, fun other ho => ?_⟩⟩
      · obtain ⟨other, ho, heq⟩ := mem_map.mp hmem
        exact hnew other ho (heq ▸ mem_cons_self)
      · exact fun hmem => hnew other ho (mem_cons_of_mem _ hmem)

variable {ctx : Context} {nodePath : String}

mutual
theorem lowerType_fieldsApart : ∀ (t : IRType) {lowered : TypeAnnotation},
    lowerType ctx nodePath t = .ok lowered → lowered.FieldsApart
  | .union _ _, _, h => absurd h refuse_ne_ok
  | .variable _ _, _, h => by
    rw [lowerType] at h
    split at h
    · cases h
      trivial
    · obtain ⟨_, -, h⟩ := bind_ok h
      cases h
      trivial
  | .reference _ name args, _, h => by
    rw [lowerType] at h
    split at h
    · obtain ⟨args', hargs, h⟩ := bind_ok h
      cases h
      exact lowerTypes_fieldsApart args hargs
    · cases h
  | .tuple _ items, _, h => by
    rw [lowerType] at h
    split at h
    · cases h
    · obtain ⟨items', hits, h⟩ := bind_ok h
      cases h
      exact lowerTypes_fieldsApart items hits
  | .record _ fields, _, h | .extensibleRecord _ _ fields, _, h => by
    obtain ⟨_, hchk, h⟩ := bind_ok h
    obtain ⟨fields', hfs, h⟩ := bind_ok h
    cases h
    obtain ⟨hks, heach⟩ := recordFields_fieldsApart fields hfs
    exact ⟨hks ▸ (checkFieldCollisions_ok hchk).1, heach⟩
  | .function _ input output, _, h => by
    obtain ⟨input', hin, h⟩ := bind_ok h
    obtain ⟨output', hout, h⟩ := bind_ok h
    cases h
    exact ⟨lowerType_fieldsApart input hin, lowerType_fieldsApart output hout⟩
  | .unit _, _, h => by
    cases h
    trivial

theorem lowerTypes_fieldsApart : ∀ (ts : List IRType) {lowered : List TypeAnnotation},
    lowerTypes ctx nodePath ts = .ok lowered → AllFieldsApart lowered
  | [], _, h => by
    cases h
    trivial
  | t :: ts, _, h => by
    rw [lowerTypes] at h
    obtain ⟨t', ht, h⟩ := bind_ok h
    obtain ⟨ts', hts, h⟩ := bind_ok h
    cases h
    exact ⟨lowerType_fieldsApart t ht, lowerTypes_fieldsApart ts hts⟩

theorem recordFields_fieldsApart : ∀ (fields : List (Name × IRType))
    {lowered : List (String × TypeAnnotation)}, recordFields ctx nodePath fields = .ok lowered →
      OrdMap.keys lowered = (OrdMap.keys fields).map valueName ∧ EachFieldApart lowered
  | [], _, h => by
    cases h
    exact ⟨rfl, trivial⟩
  | (name, t) :: fields, _, h => by
    rw [recordFields] at h
    obtain ⟨t', ht, h⟩ := bind_ok h
    obtain ⟨fields', hfs, h⟩ := bind_ok h
    cases h
    obtain ⟨hks, heach⟩ := recordFields_fieldsApart fields hfs
    rw [OrdMap.keys_cons, OrdMap.keys_cons, map_cons, hks]
    exact ⟨rfl, lowerType_fieldsApart t ht, heach⟩
end

end Morphir.Elm
