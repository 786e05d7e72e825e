import Morphir.Typing.Convert

/-!
# Comparison of types up to a renaming

Two types are compared under a bijection between their variables.  The search
keeps every bijection that survives, because a union may match in several
ways.  It stops at a depth of 128 levels, when its budget is used up, or when
more than 256 bijections survive one step.
-/

namespace Morphir.Typing

open IR OrdMap

/-- A bijection between the variables of two sides: `ab` maps the variables of
the left side to those of the right side and `ba` is its inverse.  With
`classes`, paired variables must have the same class set. -/
structure Renaming where
  ab : List (String × String)
  ba : List (String × String)
  classes : Bool
  deriving DecidableEq

/-- Pairs the variable `x` with the variable `y`, or checks the pair made
before.  `c` and `d` are the attributes of the variables (of the record, for a
row variable). -/
def sameVariable (x : Name) (c : TypeAttributes) (y : Name) (d : TypeAttributes)
    (r : Renaming) : Option Renaming :=
  let x := x.toCanonical
  let y := y.toCanonical
  if r.classes && classesOf x c != classesOf y d then none
  else
    match get? r.ab x, get? r.ba y with
    | none, none => some { r with ab := OrdMap.insert r.ab x y, ba := OrdMap.insert r.ba y x }
    | some y', some x' => if y' = y ∧ x' = x then some r else none
    | _, _ => none

/- The members of a union, those of nested unions included, to a depth of 128. -/
mutual
def shapeMembers (depth : Nat) : IRType → List IRType
  | .union attrs items =>
    if depth > 128 then [.union attrs items] else shapeMembersOf (depth + 1) items
  | t => [t]

def shapeMembersOf (depth : Nat) : List IRType → List IRType
  | [] => []
  | t :: ts => shapeMembers depth t ++ shapeMembersOf depth ts
end

/-- A comparison under one bijection: the bijections that survive, and the
budget that is left. -/
abbrev Comparison := IRType → IRType → Renaming → Int → List Renaming × Int

/-- One pair of types under every state; `none` when the search gives up. -/
def advance (pair : Comparison) (a b : IRType) :
    List Renaming → List Renaming → Int → Option (List Renaming) × Int
  | [], next, budget => (some next, budget)
  | state :: states, next, budget =>
    let budget := budget - 1
    if budget ≤ 0 then (none, budget)
    else
      let (found, budget) := pair a b state budget
      let next := next ++ found
      if next.length > 256 then (none, budget) else advance pair a b states next budget

/-- The pairs one after the other, each under every surviving state. -/
def advanceAll (pair : Comparison) :
    List (IRType × IRType) → List Renaming → Int → List Renaming × Int
  | [], states, budget => (states, budget)
  | (a, b) :: pairs, states, budget =>
    match advance pair a b states [] budget with
    | (none, budget) => ([], budget)
    | (some next, budget) =>
      if next.isEmpty then ([], budget) else advanceAll pair pairs next budget

/-- One member against every member of the other side, under one state. -/
def coverMember (compare : Comparison) (x : IRType) (reverse : Bool) (state : Renaming) :
    List IRType → List Renaming → Int → Option (List Renaming) × Int
  | [], next, budget => (some next, budget)
  | y :: ys, next, budget =>
    let pair := if reverse then (y, x) else (x, y)
    let (found, budget) := compare pair.1 pair.2 state budget
    let next := next ++ found
    if next.length > 256 then (none, budget)
    else coverMember compare x reverse state ys next budget

/-- One member against every member of the other side, under every state. -/
def coverStates (compare : Comparison) (x : IRType) (ys : List IRType) (reverse : Bool) :
    List Renaming → List Renaming → Int → Option (List Renaming) × Int
  | [], next, budget => (some next, budget)
  | state :: states, next, budget =>
    match coverMember compare x reverse state ys next budget with
    | (none, budget) => (none, budget)
    | (some next, budget) => coverStates compare x ys reverse states next budget

/-- Every member of `xs` against some member of `ys`. -/
def shapeCoverage (compare : Comparison) (ys : List IRType) (reverse : Bool) :
    List IRType → List Renaming → Int → List Renaming × Int
  | [], states, budget => (states, budget)
  | x :: xs, states, budget =>
    match coverStates compare x ys reverse states [] budget with
    | (none, budget) => ([], budget)
    | (some next, budget) => shapeCoverage compare ys reverse xs next budget

/-- The fields of two records with the given names, paired by name. -/
def pairFields (xs ys : List (Name × IRType)) : List Name → Option (List (IRType × IRType))
  | [] => some []
  | name :: names =>
    match get? ys name, get? xs name with
    | some y, some x => (pairFields xs ys names).map fun pairs => (x, y) :: pairs
    | _, _ => none

def fieldPairs (xs ys : List (Name × IRType)) : Option (List (IRType × IRType)) :=
  pairFields xs ys (sortNames (OrdMap.keys xs))

/- The comparison of one pair, and of a list of pairs under every surviving
bijection.  The first argument counts the levels that are left: the level is
zero when the depth exceeds 128. -/
mutual
def shapeCandidates (level : Nat) (pairs : List (IRType × IRType)) (initial : List Renaming)
    (budget : Int) : List Renaming × Int :=
  match level with
  | 0 => ([], budget)
  | level + 1 =>
    if budget ≤ 0 then ([], budget)
    else advanceAll (shapePair level) pairs initial budget

def shapePair (level : Nat) (a b : IRType) (state : Renaming) (budget : Int) :
    List Renaming × Int :=
  match level with
  | 0 => ([], budget)
  | level + 1 =>
    if budget ≤ 0 then ([], budget)
    else if a.isUnion || b.isUnion then
      let compare : Comparison := fun x y state budget =>
        shapeCandidates level [(x, y)] [state] budget
      let xs := shapeMembers 0 a
      let ys := shapeMembers 0 b
      let (states, budget) := shapeCoverage compare ys false xs [state] budget
      shapeCoverage compare xs true ys states budget
    else
      let arrays (xs ys : List IRType) : List Renaming × Int :=
        if xs.length ≠ ys.length then ([], budget)
        else shapeCandidates level (xs.zip ys) [state] budget
      let fields (r : Renaming) (xs ys : List (Name × IRType)) : List Renaming × Int :=
        if xs.length ≠ ys.length then ([], budget)
        else
          match fieldPairs xs ys with
          | none => ([], budget)
          | some pairs => shapeCandidates level pairs [r] budget
      match a, b with
      | .variable c x, .variable d y =>
        match sameVariable x c y d state with
        | some r => ([r], budget)
        | none => ([], budget)
      | .reference _ n xs, .reference _ m ys => if n = m then arrays xs ys else ([], budget)
      | .function _ a b, .function _ c d => shapeCandidates level [(a, c), (b, d)] [state] budget
      | .record _ xs, .record _ ys => fields state xs ys
      | .extensibleRecord a x xs, .extensibleRecord b y ys =>
        match sameVariable x a y b state with
        | some r => fields r xs ys
        | none => ([], budget)
      | a, b =>
        if a.isUnit && b.isUnit then ([state], budget)
        else
          match a, b with
          | .tuple _ xs, .tuple _ ys => arrays xs ys
          | _, _ => ([], budget)
end

/-- Whether two types are the same after a bijective renaming of variables. -/
def typesEquivalent (a b : IRType) : Bool :=
  !(shapeCandidates 129 [(a, b)] [⟨[], [], false⟩] 4096).1.isEmpty

end Morphir.Typing

/-!
## Types alike under a renaming

What a comparison is for: two types are alike under a pairing of variables
when one is the other after the variables are replaced.  Attributes count only
through the class sets of paired variables, and a union is the set of its
alternatives.
-/

namespace Morphir.Typing

open IR OrdMap

/- The alternatives of a type, through unions nested to any depth. -/
mutual
def alternatives : IRType → List IRType
  | .union _ items => alternativesOf items
  | t => [t]

def alternativesOf : List IRType → List IRType
  | [] => []
  | t :: ts => alternatives t ++ alternativesOf ts
end

lemma alternatives_eq_of_not_isUnion {t : IRType} (h : t.isUnion = false) :
    alternatives t = [t] := by
  cases t <;> simp [IRType.isUnion] at h <;> rfl

lemma mem_alternatives_iff_shapeMembers (t x : IRType) (depth : Nat) :
    x ∈ alternatives t ↔ ∃ member ∈ shapeMembers depth t, x ∈ alternatives member := by
  refine IRType.rec
    (motive_2 := fun ts => ∀ depth,
      x ∈ alternativesOf ts ↔ ∃ member ∈ shapeMembersOf depth ts, x ∈ alternatives member)
    (motive_3 := fun _ => True) (motive_4 := fun _ => True)
    ?_ ?_ ?_ ?_ ?_ ?_ ?_ ?_ ?_ ?_ ?_ ?_ ?_ t depth
  case refine_4 =>
    intro attrs items ih depth
    by_cases hdep : depth > 128
    · simp [shapeMembers, hdep]
    · rw [shapeMembers, if_neg hdep]
      exact ih (depth + 1)
  case refine_9 => simp [alternativesOf, shapeMembersOf]
  case refine_10 =>
    intro t ts ht hts depth
    rw [alternativesOf, shapeMembersOf, List.mem_append, ht depth, hts depth]
    simp only [List.mem_append, or_and_right, exists_or]
  all_goals first | trivial | simp [shapeMembers]

/-- `Alike paired classes a b`: the types are the same when each variable of
the first stands for the variable of the second that it is paired with. -/
inductive Alike (paired : String → String → Prop) (classes : Bool) : IRType → IRType → Prop
  | variable {c d : TypeAttributes} {x y : Name} (pair : paired x.toCanonical y.toCanonical)
      (same : classes = true → classesOf x.toCanonical c = classesOf y.toCanonical d) :
      Alike paired classes (.variable c x) (.variable d y)
  | reference {c d : TypeAttributes} {name : FQName} {xs ys : List IRType}
      (args : List.Forall₂ (Alike paired classes) xs ys) :
      Alike paired classes (.reference c name xs) (.reference d name ys)
  | unit {a b : IRType} (left : a.isUnit = true) (right : b.isUnit = true) :
      Alike paired classes a b
  | tuple {c d : TypeAttributes} {xs ys : List IRType}
      (items : List.Forall₂ (Alike paired classes) xs ys) :
      Alike paired classes (.tuple c xs) (.tuple d ys)
  | function {c d : TypeAttributes} {a b a' b' : IRType}
      (input : Alike paired classes a a') (output : Alike paired classes b b') :
      Alike paired classes (.function c a b) (.function d a' b')
  | record {c d : TypeAttributes} {xs ys : List (Name × IRType)} (length : xs.length = ys.length)
      (names : ∀ name ∈ OrdMap.keys xs, name ∈ OrdMap.keys ys)
      (fields : ∀ name x y, get? xs name = some x → get? ys name = some y →
        Alike paired classes x y) :
      Alike paired classes (.record c xs) (.record d ys)
  | extensibleRecord {c d : TypeAttributes} {x y : Name} {xs ys : List (Name × IRType)}
      (pair : paired x.toCanonical y.toCanonical)
      (same : classes = true → classesOf x.toCanonical c = classesOf y.toCanonical d)
      (length : xs.length = ys.length)
      (names : ∀ name ∈ OrdMap.keys xs, name ∈ OrdMap.keys ys)
      (fields : ∀ name x y, get? xs name = some x → get? ys name = some y →
        Alike paired classes x y) :
      Alike paired classes (.extensibleRecord c x xs) (.extensibleRecord d y ys)
  | union {a b : IRType} (union : (a.isUnion || b.isUnion) = true)
      (image preimage : IRType → IRType)
      (image_mem : ∀ x ∈ alternatives a, image x ∈ alternatives b)
      (image_alike : ∀ x ∈ alternatives a, Alike paired classes x (image x))
      (preimage_mem : ∀ y ∈ alternatives b, preimage y ∈ alternatives a)
      (preimage_alike : ∀ y ∈ alternatives b, Alike paired classes (preimage y) y) :
      Alike paired classes a b

namespace Alike

variable {paired : String → String → Prop} {classes : Bool} {a b : IRType}

lemma of_alternatives (hun : (a.isUnion || b.isUnion) = true)
    (left : ∀ x ∈ alternatives a, ∃ y ∈ alternatives b, Alike paired classes x y)
    (right : ∀ y ∈ alternatives b, ∃ x ∈ alternatives a, Alike paired classes x y) :
    Alike paired classes a b := by
  classical
  choose! image himage using left
  choose! preimage hpre using right
  exact .union hun image preimage (fun x hx => (himage x hx).1) (fun x hx => (himage x hx).2)
    (fun y hy => (hpre y hy).1) (fun y hy => (hpre y hy).2)

lemma covers (h : Alike paired classes a b) :
    (∀ x ∈ alternatives a, ∃ y ∈ alternatives b, Alike paired classes x y) ∧
      ∀ y ∈ alternatives b, ∃ x ∈ alternatives a, Alike paired classes x y := by
  by_cases hun : (a.isUnion || b.isUnion) = true
  · cases h with
    | union _ image preimage himage hlt hpre hrt =>
      exact ⟨fun x hx => ⟨image x, himage x hx, hlt x hx⟩,
        fun y hy => ⟨preimage y, hpre y hy, hrt y hy⟩⟩
    | unit left right => cases a <;> cases b <;> simp_all [IRType.isUnion, IRType.isUnit]
    | _ => simp [IRType.isUnion] at hun
  · simp only [Bool.or_eq_true, not_or, Bool.not_eq_true] at hun
    rw [alternatives_eq_of_not_isUnion hun.1, alternatives_eq_of_not_isUnion hun.2]
    simpa using h

lemma of_shapeMembers (hun : (a.isUnion || b.isUnion) = true)
    (left : ∀ x ∈ shapeMembers 0 a, ∃ y ∈ shapeMembers 0 b, Alike paired classes x y)
    (right : ∀ y ∈ shapeMembers 0 b, ∃ x ∈ shapeMembers 0 a, Alike paired classes x y) :
    Alike paired classes a b := by
  refine .of_alternatives hun ?_ ?_
  · intro x hx
    obtain ⟨member, hmem, hx⟩ := (mem_alternatives_iff_shapeMembers a x 0).mp hx
    obtain ⟨other, ho, hal⟩ := left member hmem
    obtain ⟨y, hy, hxy⟩ := hal.covers.1 x hx
    exact ⟨y, (mem_alternatives_iff_shapeMembers b y 0).mpr ⟨other, ho, hy⟩, hxy⟩
  · intro y hy
    obtain ⟨member, hmem, hy⟩ := (mem_alternatives_iff_shapeMembers b y 0).mp hy
    obtain ⟨other, ho, hal⟩ := right member hmem
    obtain ⟨x, hx, hxy⟩ := hal.covers.2 y hy
    exact ⟨x, (mem_alternatives_iff_shapeMembers a x 0).mpr ⟨other, ho, hx⟩, hxy⟩

end Alike

end Morphir.Typing
