import Morphir.Execution.SchemeValues

/-!
# Comparison of execution values

Doubles are their bits.  What an approximate policy does with two finite doubles is
arithmetic of doubles, which is a parameter.
-/

namespace Morphir.Execution

open Fallible Morphir.Host

inductive ComparisonPolicy
  | exact
  | approximate (absolute relative : UInt64)

def finite (bits : UInt64) : Bool := bits &&& 0x7ff0000000000000 != 0x7ff0000000000000

def isZero (bits : UInt64) : Bool := bits &&& 0x7fffffffffffffff == 0

def isNegative (bits : UInt64) : Bool := bits &&& 0x8000000000000000 != 0 && !isZero bits

def ComparisonPolicy.validate : ComparisonPolicy → Except String Unit
  | .exact => .ok ()
  | .approximate absolute relative =>
    refuse (finite absolute = false ∨ finite relative = false ∨ isNegative absolute = true ∨
      isNegative relative = true) "execution.comparison_tolerance"

section Compare

/- Whether the distance and the tolerance are finite and the first is at most the second. -/
variable (tolerates : UInt64 → UInt64 → UInt64 → UInt64 → Bool)

def compareFloats (policy : ComparisonPolicy) (a b : UInt64) : Bool :=
  if a = b then true
  else match policy with
    | .exact => false
    | .approximate absolute relative =>
      -- bits that are not finite and the sign of zero stay exact
      if finite a = false ∨ finite b = false ∨ (isZero a = true ∧ isZero b = true) then false
      else tolerates absolute relative a b

def compareLeaf : Value → Value → Bool
  | .integer a, .integer b => a = b
  | .boolean a, .boolean b => a = b
  | .unit, .unit => true
  | .text a, .text b => a = b
  | .character a, .character b => a = b
  | .nothing, .nothing => true
  | .modelError a, .modelError b => a = b
  | _, _ => false

variable (policy : ComparisonPolicy)

mutual

def compareValue : Value → Value → Except String Bool
  | .decimal a ae, .decimal b be => do
    return (← normalizeDecimal a ae) = (← normalizeDecimal b be)
  | .float64 a, .float64 b => .ok (compareFloats tolerates policy a b)
  | .sequence a, .sequence b => compareItems a b
  | .product a, .product b => compareItems a b
  | .record a, .record b =>
    if a.length ≠ b.length then .ok false else compareFields a (OrdMap.ofList b)
  | .constructor owner tag a, .constructor otherOwner otherTag b =>
    if owner = otherOwner ∧ tag = otherTag then compareItems a b else .ok false
  | .just a, .just b => compareValue a b
  | .ok a, .ok b => compareValue a b
  | .err a, .err b => compareValue a b
  | left, right => .ok (compareLeaf left right)

/-- `arrays`: of two lengths they differ before an item is compared. -/
def compareItems (a b : List Value) : Except String Bool :=
  if a.length ≠ b.length then .ok false else compareAll a b

def compareAll : List Value → List Value → Except String Bool
  | v :: a, w :: b => do
    if (← compareValue v w) then compareAll a b else pure false
  | _, _ => .ok true

def compareFields : List (String × Value) → List (String × Value) → Except String Bool
  | [], _ => .ok true
  | (name, v) :: a, fields =>
    match OrdMap.get? fields name with
    | none => .ok false
    | some other => do
      if (← compareValue v other) then compareFields a fields else pure false

end

def Value.compare (left right : Value) : Except String Bool := do
  policy.validate
  let _ ← validateValue left 0 valueBudget
  let _ ← validateValue right 0 valueBudget
  compareValue tolerates policy left right

def pointerText (name : String) : String :=
  String.ofList (name.toList.flatMap fun c =>
    if c = '~' then ['~', '0'] else if c = '/' then ['~', '1'] else [c])

mutual

def locateMismatch : Value → Value → String → Except String (Option String)
  | .sequence a, .sequence b, path => locateItems a b path
  | .product a, .product b, path => locateItems a b path
  | .record a, .record b, path => locateFields a (OrdMap.ofList b) path
  | .constructor owner tag a, .constructor otherOwner otherTag b, path =>
    if owner ≠ otherOwner ∨ tag ≠ otherTag then .ok (some (path ++ "/constructor"))
    else locateItems a b path
  | .just a, .just b, path => locateMismatch a b (path ++ "/just")
  | .ok a, .ok b, path => locateMismatch a b (path ++ "/ok")
  | .err a, .err b, path => locateMismatch a b (path ++ "/err")
  | _, _, path => .ok (some path)

def locateItems (a b : List Value) (path : String) : Except String (Option String) :=
  if a.length ≠ b.length then .ok (some (path ++ "/length")) else locateAll 0 a b path

def locateAll : Nat → List Value → List Value → String → Except String (Option String)
  | i, v :: a, w :: b, path => do
    if (← compareValue tolerates policy v w) then locateAll (i + 1) a b path
    else locateMismatch v w (path ++ "/" ++ toString i)
  | _, _, _, path => .ok (some path)

def locateFields : List (String × Value) → List (String × Value) → String →
    Except String (Option String)
  | [], _, path => .ok (some path)
  | (name, v) :: a, fields, path =>
    let child := path ++ "/" ++ pointerText name
    match OrdMap.get? fields name with
    | none => .ok (some child)
    | some other => do
      if (← compareValue tolerates policy v other) then locateFields a fields path
      else locateMismatch v other child

end

def mismatchPath (left right : Value) : Except String (Option String) := do
  if (← left.compare tolerates policy right) then return none
  locateMismatch tolerates policy left right ""

mutual

theorem locateMismatch_ne_none : ∀ {left right : Value} {path : String},
    locateMismatch tolerates policy left right path ≠ .ok none
  | left, right, path => by
    intro h
    rw [locateMismatch.eq_def] at h
    split at h
    · exact locateItems_ne_none h
    · exact locateItems_ne_none h
    · exact locateFields_ne_none h
    · split at h
      · cases h
      · exact locateItems_ne_none h
    · exact locateMismatch_ne_none h
    · exact locateMismatch_ne_none h
    · exact locateMismatch_ne_none h
    · cases h

theorem locateItems_ne_none : ∀ {a b : List Value} {path : String},
    locateItems tolerates policy a b path ≠ .ok none
  | a, b, path => by
    intro h
    rw [locateItems] at h
    split at h
    · cases h
    · exact locateAll_ne_none h

theorem locateAll_ne_none : ∀ {i : Nat} {a b : List Value} {path : String},
    locateAll tolerates policy i a b path ≠ .ok none
  | i, [], b, path => by
    intro h
    rw [locateAll.eq_def] at h
    cases h
  | i, v :: a, [], path => by
    intro h
    rw [locateAll.eq_def] at h
    cases h
  | i, v :: a, w :: b, path => by
    intro h
    rw [locateAll] at h
    obtain ⟨same, -, h⟩ := bind_ok h
    split at h
    · exact locateAll_ne_none h
    · exact locateMismatch_ne_none h

theorem locateFields_ne_none : ∀ {a fields : List (String × Value)} {path : String},
    locateFields tolerates policy a fields path ≠ .ok none
  | [], fields, path => by
    intro h
    rw [locateFields] at h
    cases h
  | (name, v) :: a, fields, path => by
    intro h
    rw [locateFields] at h
    split at h
    · cases h
    · obtain ⟨same, -, h⟩ := bind_ok h
      split at h
      · exact locateFields_ne_none h
      · exact locateMismatch_ne_none h

end

lemma mismatchPath_eq_none {left right : Value} :
    mismatchPath tolerates policy left right = .ok none ↔
      left.compare tolerates policy right = .ok true := by
  constructor
  · intro h
    obtain ⟨same, hsm, h⟩ := bind_ok h
    cases same with
    | true => exact hsm
    | false => exact absurd h (locateMismatch_ne_none _ _)
  · intro h
    rw [mismatchPath, h]
    rfl

end Compare

end Morphir.Execution
