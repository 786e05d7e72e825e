import Morphir.Scheme.Datum

/-!
# Exact arithmetic

Arithmetic and comparison of Scheme numbers.  Without a double on either side they go by
fractions, and each result is reduced.
-/

namespace Morphir.Scheme

class DoubleArithmetic (F : Type) extends Doubles F where
  add : F → F → F
  sub : F → F → F
  mul : F → F → F
  div : F → F → F
  isZero : F → Bool
  isInfinite : F → Bool
  compare : F → F → Ordering

def euclid (a b : Nat) : Nat := if b = 0 then a else euclid b (a % b)
termination_by b
decreasing_by exact Nat.mod_lt _ (by omega)

namespace Number

variable {F : Type}

def isReal : Number F → Bool
  | .real _ => true
  | _ => false

def fraction : Number F → Except SchemeError (Int × Int)
  | .integer value => .ok (value, 1)
  | .rational n d => .ok (n, d)
  | .real _ => .error (.invalid "Expected exact number")

variable [DoubleArithmetic F]

def integerReal (value : Int) : Except SchemeError F :=
  match Doubles.jsonNumber (F := F) (toString value) with
  | none => .error (.invalid "Invalid number")
  | some number =>
    if DoubleArithmetic.isInfinite number then .error (.invalid "Inexact conversion overflow")
    else .ok number

def toReal : Number F → Except SchemeError F
  | .real value => .ok value
  | .integer value => integerReal value
  | .rational n d => do
    let n ← integerReal n
    let d ← integerReal d
    pure (DoubleArithmetic.div n d)

end Number

variable {F : Type} [DoubleArithmetic F]

def realArithmetic (op : String) (a b : F) : Except SchemeError (Number F) :=
  if op = "/" && DoubleArithmetic.isZero b then .error (.invalid "Division by zero")
  else
    let value :=
      if op = "+" then DoubleArithmetic.add a b
      else if op = "-" then DoubleArithmetic.sub a b
      else if op = "*" then DoubleArithmetic.mul a b
      else DoubleArithmetic.div a b
    if Doubles.isFinite value then .ok (.real value)
    else .error (.invalid "Nonfinite arithmetic result")

def arithmetic (op : String) (left right : Number F) : Except SchemeError (Number F) :=
  if left.isReal || right.isReal then do
    let a ← left.toReal
    let b ← right.toReal
    realArithmetic op a b
  else do
    let (a, b) ← left.fraction
    let (c, d) ← right.fraction
    if op = "+" then rational (a * d + c * b) (b * d)
    else if op = "-" then rational (a * d - c * b) (b * d)
    else if op = "*" then rational (a * c) (b * d)
    else rational (a * d) (b * c)

def compareNumbers (left right : Number F) : Except SchemeError Ordering :=
  if left.isReal || right.isReal then do
    let a ← left.toReal
    let b ← right.toReal
    pure (DoubleArithmetic.compare a b)
  else do
    let (a, b) ← left.fraction
    let (c, d) ← right.fraction
    pure (compare (a * d) (c * b))

namespace Number

omit [DoubleArithmetic F]

def IsExact : Number F → Prop
  | .integer _ => True
  | .rational _ d => 0 < d
  | .real _ => False

def Canonical : Number F → Prop
  | .integer _ => True
  | .rational n d => 1 < d ∧ Int.gcd n d = 1
  | .real _ => False

def toRat : Number F → Rat
  | .integer value => value
  | .rational n d => n / d
  | .real _ => 0

lemma fraction_ok {n : Number F} (h : n.IsExact) :
    ∃ a b : Int, n.fraction = .ok (a, b) ∧ 0 < b ∧ n.toRat = a / b ∧ n.isReal = false := by
  cases n with
  | integer value => exact ⟨value, 1, rfl, Int.zero_lt_one, by simp [toRat], rfl⟩
  | rational n d => exact ⟨n, d, rfl, h, rfl, rfl⟩
  | real value => exact h.elim

end Number

section

omit [DoubleArithmetic F]

lemma reduced_ok {n d : Int} (hd : 0 < d) (hgcd : Int.gcd n d = 1) :
    ∃ r : Number F, (if d = 1 then .ok (.integer n) else .ok (.rational n d) :
        Except SchemeError (Number F)) = .ok r ∧ r.Canonical ∧ r.toRat = n / d := by
  split
  · rename_i hone
    exact ⟨.integer n, rfl, trivial, by simp [Number.toRat, hone]⟩
  · exact ⟨.rational n d, rfl, ⟨by omega, hgcd⟩, rfl⟩

lemma rational_ok (n : Int) {d : Int} (hd : d ≠ 0) :
    ∃ r : Number F, rational n d = .ok r ∧ r.Canonical ∧ r.toRat = n / d := by
  have hpos : 0 < Int.gcd n d := Int.gcd_pos_of_ne_zero_right n hd
  obtain ⟨n', hn⟩ := Int.gcd_dvd_left n d
  obtain ⟨d', hd'⟩ := Int.gcd_dvd_right n d
  have hcop : Int.gcd n' d' = 1 := by
    have hmul := Int.gcd_mul_left (Int.gcd n d : Int) n' d'
    rw [← hn, ← hd', Int.natAbs_natCast] at hmul
    exact Nat.eq_of_mul_eq_mul_left hpos (by rw [← hmul, mul_one])
  have hg : (Int.gcd n d : Int) ≠ 0 := by omega
  have hdivn : n.tdiv (Int.gcd n d) = n' :=
    (congrArg (Int.tdiv · (Int.gcd n d)) hn).trans (Int.mul_tdiv_cancel_left n' hg)
  have hdivd : d.tdiv (Int.gcd n d) = d' :=
    (congrArg (Int.tdiv · (Int.gcd n d)) hd').trans (Int.mul_tdiv_cancel_left d' hg)
  have hval : (n : Rat) / d = n' / d' := by
    have hgRat : ((Int.gcd n d : Int) : Rat) ≠ 0 := by exact_mod_cast hg
    rw [← mul_div_mul_left (n' : Rat) d' hgRat, ← Int.cast_mul, ← Int.cast_mul, ← hn, ← hd']
  unfold rational
  rw [if_neg hd]
  dsimp only
  split
  case isTrue hneg =>
    have hd'neg : 0 < -d' := by
      by_contra hle
      have hnonneg : 0 ≤ (Int.gcd n d : Int) * d' := mul_nonneg (by omega) (by omega)
      omega
    rw [Int.tdiv_neg, Int.tdiv_neg, hdivn, hdivd]
    obtain ⟨r, hr, hcan, hrat⟩ := reduced_ok hd'neg
      (by rw [Int.gcd_neg, Int.neg_gcd, hcop])
    refine ⟨r, hr, hcan, ?_⟩
    rw [hrat, hval]
    push_cast
    rw [neg_div_neg_eq]
  case isFalse hnneg =>
    have hd'pos : 0 < d' := by
      by_contra hle
      have hnonpos : (Int.gcd n d : Int) * d' ≤ 0 :=
        mul_nonpos_of_nonneg_of_nonpos (by omega) (by omega)
      omega
    rw [hdivn, hdivd, hval]
    exact reduced_ok hd'pos hcop

lemma rational_zero (n : Int) :
    (rational n 0 : Except SchemeError (Number F)) = .error (.invalid "Division by zero") :=
  if_pos rfl

end

def ratArithmetic (op : String) (a b : Rat) : Rat :=
  if op = "+" then a + b else if op = "-" then a - b else if op = "*" then a * b else a / b

def Divides (op : String) (b : Rat) : Prop := op = "+" ∨ op = "-" ∨ op = "*" ∨ b ≠ 0

lemma arithmetic_exact {left right : Number F} (hl : left.IsExact) (hr : right.IsExact)
    (op : String) :
    (Divides op right.toRat → ∃ r : Number F, arithmetic op left right = .ok r ∧ r.Canonical ∧
        r.toRat = ratArithmetic op left.toRat right.toRat) ∧
    (¬ Divides op right.toRat →
      arithmetic op left right = .error (.invalid "Division by zero")) := by
  obtain ⟨a, b, hlt, hb, hlrat, hlreal⟩ := Number.fraction_ok hl
  obtain ⟨c, d, hrt, hd, hrrat, hrreal⟩ := Number.fraction_ok hr
  have hbd : b * d ≠ 0 := (mul_pos hb hd).ne'
  have hdRat : (d : Rat) ≠ 0 := by exact_mod_cast hd.ne'
  have hari : arithmetic op left right = (if op = "+" then rational (a * d + c * b) (b * d)
      else if op = "-" then rational (a * d - c * b) (b * d)
      else if op = "*" then rational (a * c) (b * d)
      else rational (a * d) (b * c)) := by
    rw [arithmetic, hlreal, hrreal, hlt, hrt]
    rfl
  rw [hari, hlrat, hrrat, ratArithmetic]
  have hred {n m : Int} (hm : m ≠ 0) {q : Rat} (hq : (n : Rat) / m = q) :
      ∃ r : Number F, rational n m = .ok r ∧ r.Canonical ∧ r.toRat = q := by
    obtain ⟨r, hr, hcan, hrat⟩ := rational_ok n hm
    exact ⟨r, hr, hcan, hrat.trans hq⟩
  by_cases hadd : op = "+"
  · refine ⟨fun _ => ?_, fun hnot => absurd (.inl hadd) hnot⟩
    rw [if_pos hadd, if_pos hadd]
    apply hred hbd
    push_cast
    field_simp
  rw [if_neg hadd, if_neg hadd]
  by_cases hsub : op = "-"
  · refine ⟨fun _ => ?_, fun hnot => absurd (.inr (.inl hsub)) hnot⟩
    rw [if_pos hsub, if_pos hsub]
    apply hred hbd
    push_cast
    field_simp
  rw [if_neg hsub, if_neg hsub]
  by_cases hmul : op = "*"
  · refine ⟨fun _ => ?_, fun hnot => absurd (.inr (.inr (.inl hmul))) hnot⟩
    rw [if_pos hmul, if_pos hmul]
    apply hred hbd
    push_cast
    field_simp
  rw [if_neg hmul, if_neg hmul]
  have hdiv : Divides op (c / d) ↔ c ≠ 0 := by simp [Divides, hadd, hsub, hmul, hdRat]
  rw [hdiv]
  constructor
  · intro hc
    apply hred (mul_ne_zero hb.ne' hc)
    push_cast
    field_simp
  · intro hc
    rw [not_not.mp hc, mul_zero]
    exact rational_zero _

lemma compareNumbers_exact {left right : Number F} (hl : left.IsExact) (hr : right.IsExact) :
    compareNumbers left right = .ok (compare left.toRat right.toRat) := by
  obtain ⟨a, b, hleft, hb, hlrat, hlreal⟩ := Number.fraction_ok hl
  obtain ⟨c, d, hrt, hd, hrrat, hrreal⟩ := Number.fraction_ok hr
  have hbRat : (0 : Rat) < b := by exact_mod_cast hb
  have hdRat : (0 : Rat) < d := by exact_mod_cast hd
  have hcom : compareNumbers left right = .ok (compare (a * d) (c * b)) := by
    rw [compareNumbers, hlreal, hrreal, hleft, hrt]
    rfl
  rw [hcom, hlrat, hrrat]
  have hlt : (a : Rat) / b < c / d ↔ a * d < c * b := by
    rw [div_lt_div_iff₀ hbRat hdRat]
    exact_mod_cast Iff.rfl
  have heq : (a : Rat) / b = c / d ↔ a * d = c * b := by
    rw [div_eq_div_iff hbRat.ne' hdRat.ne']
    exact_mod_cast Iff.rfl
  rcases lt_trichotomy (a * d) (c * b) with h | h | h
  · rw [compare_lt_iff_lt.mpr h, compare_lt_iff_lt.mpr (hlt.mpr h)]
  · rw [compare_eq_iff_eq.mpr h, compare_eq_iff_eq.mpr (heq.mpr h)]
  · have hgt : (c : Rat) / d < a / b :=
      lt_of_le_of_ne (not_lt.mp (mt hlt.mp (not_lt_of_gt h))) fun hc => h.ne' (heq.mp hc.symm)
    rw [compare_gt_iff_gt.mpr h, compare_gt_iff_gt.mpr hgt]

/-- Exact numbers with their proof: integers and fractions with a positive denominator. -/
structure ExactNumber (F : Type) where
  number : Number F
  isExact : number.IsExact

end Morphir.Scheme
