import Morphir.Library.Fallible
import Morphir.Library.Rounding

/-!
# Decimals

A decimal is a big integer coefficient with a 32-bit exponent.  `normalize` cuts a
result toward zero at exponent -32 and strips the zeros of its coefficient.
Arithmetic on exponents wraps around; a power of ten with a negative exponent
stops the program.
-/

namespace Morphir.Sdk

open Fallible

def wrap (n : Int) : Int := (n + 2147483648) % 4294967296 - 2147483648

structure Decimal where
  coefficient : Int
  exponent : Int
  deriving DecidableEq

def pow10 (n : Int) : Except String Int :=
  if n < 0 then .error "negative exponent" else .ok (10 ^ n.toNat)

def absolute (n : Int) : Int := if n < 0 then -n else n

def divideTruncated (a b : Int) : Int :=
  let q := absolute a / absolute b
  if (a < 0) ≠ (b < 0) then -q else q

lemma divideTruncated_eq_tdiv (a b : Int) : divideTruncated a b = a.tdiv b := by
  unfold divideTruncated absolute
  rcases lt_or_ge a 0 with ha | ha <;> rcases lt_or_ge b 0 with hb | hb
  · simp only [ha, hb, if_true, ne_eq, not_true_eq_false, if_false]
    rw [← Int.tdiv_eq_ediv_of_nonneg (by omega), Int.neg_tdiv_neg]
  · have hb' : ¬ b < 0 := by omega
    simp only [ha, hb', if_true, if_false, ne_eq, eq_iff_iff, iff_false, not_true_eq_false,
      not_false_eq_true]
    rw [← Int.tdiv_eq_ediv_of_nonneg (by omega), Int.neg_tdiv, Int.neg_neg]
  · have ha' : ¬ a < 0 := by omega
    simp only [ha', hb, if_true, if_false, ne_eq, eq_iff_iff, iff_true, not_false_eq_true]
    rw [← Int.tdiv_eq_ediv_of_nonneg ha, Int.tdiv_neg, Int.neg_neg]
  · have ha' : ¬ a < 0 := by omega
    have hb' : ¬ b < 0 := by omega
    simp only [ha', hb', if_false, ne_eq, not_true_eq_false]
    rw [← Int.tdiv_eq_ediv_of_nonneg ha]

/-- The loop of `normalize`: strips zeros from the coefficient. -/
def strip (n e : Int) : Int × Int :=
  if n = 0 then (n, e)
  else
    let q := divideTruncated n 10
    if q * 10 ≠ n then (n, e) else strip q (wrap (e + 1))
termination_by n.natAbs
decreasing_by
  rename_i hn hq
  have := not_not.mp hq
  omega

def atFloor (coefficient exponent : Int) : Except String (Int × Int) :=
  if exponent < -32 then do
    let power ← pow10 (wrap (-32 - exponent))
    pure (divideTruncated coefficient power, -32)
  else pure (coefficient, exponent)

def normalize (coefficient exponent : Int) : Except String Decimal :=
  if coefficient = 0 then pure ⟨coefficient, 0⟩
  else do
    let (n, e) ← atFloor coefficient exponent
    let (n, e) := strip n e
    pure ⟨n, e⟩

namespace Decimal

def fromInteger (value : Int) : Except String Decimal := normalize value 0

def zero : Except String Decimal := normalize 0 0

def isDigit (c : Char) : Bool := decide ('0' ≤ c ∧ c ≤ '9')

def allDigits (value : List Char) : Bool := !value.isEmpty && value.all isDigit

def signed (text : List Char) : Bool × List Char :=
  match text with
  | '-' :: digits => (true, digits)
  | _ => (false, text)

def readInteger (negative : Bool) (digits : List Char) : Int :=
  let value : Int := Nat.ofDigitChars 10 digits 0
  if negative then -value else value

/-- The exponent behind an `e`: decimal digits of a 32-bit integer above the
floor. -/
def readExponent (text : List Char) : Option Int :=
  let (negative, digits) := signed text
  let value := readInteger negative digits
  if allDigits digits ∧ -2147483648 ≤ value ∧ value ≤ 2147483647 ∧ -32 ≤ value then some value
  else none

/-- The digits before and after the point.  In scientific notation one digit stands
before it, and the last one behind it is no zero. -/
def readMantissa (text : List Char) (scientific : Bool) : Option (List Char × List Char) :=
  match text.splitOn '.' with
  | [whole] =>
    if allDigits whole ∧ (scientific = true → whole.length = 1) then some (whole, []) else none
  | [whole, fraction] =>
    if allDigits whole ∧ allDigits fraction ∧
        (scientific = true → whole.length = 1 ∧ fraction.getLast? ≠ some '0') then
      some (whole, fraction)
    else none
  | _ => none

def readParts (value : String) : Option (Int × Int) :=
  let (negative, unsigned) := signed value.toList
  let read (mantissa : List Char) (scientific : Bool) (exponent : Int) : Option (Int × Int) :=
    (readMantissa mantissa scientific).map fun (whole, fraction) =>
      (readInteger negative (whole ++ fraction), wrap (exponent - fraction.length))
  match unsigned.splitOn 'e' with
  | [mantissa] => read mantissa false 0
  | [mantissa, exponent] => (readExponent exponent).bind (read mantissa true)
  | _ => none

def fromString (value : String) : Except String (Option Decimal) :=
  match readParts value with
  | none => .ok none
  | some (coefficient, exponent) => (normalize coefficient exponent).map some

def toString (value : Decimal) : String :=
  if value.coefficient = 0 then "0"
  else
    let sign := if value.coefficient < 0 then ['-'] else []
    let digits := Nat.toDigits 10 (absolute value.coefficient).toNat
    if 0 ≤ value.exponent then
      String.ofList (sign ++ digits ++ List.replicate value.exponent.toNat '0')
    else
      let point := digits.length + value.exponent
      if 0 < point then
        String.ofList (sign ++ digits.take point.toNat ++ ['.'] ++ digits.drop point.toNat)
      else
        String.ofList (sign ++ ['0', '.'] ++ List.replicate (-point).toNat '0' ++ digits)

def aligned (a b : Decimal) : Except String (Int × Int × Int) := do
  let exponent := min a.exponent b.exponent
  let powerA ← pow10 (wrap (a.exponent - exponent))
  let powerB ← pow10 (wrap (b.exponent - exponent))
  pure (a.coefficient * powerA, b.coefficient * powerB, exponent)

def add (a b : Decimal) : Except String Decimal := do
  let (x, y, exponent) ← aligned a b
  normalize (x + y) exponent

def negate (value : Decimal) : Decimal := ⟨-value.coefficient, value.exponent⟩

def sub (a b : Decimal) : Except String Decimal := add a (negate b)

def abs (value : Decimal) : Decimal := if value.coefficient < 0 then negate value else value

def mul (a b : Decimal) : Except String Decimal :=
  normalize (a.coefficient * b.coefficient) (wrap (a.exponent + b.exponent))

def quotient (a b : Decimal) : Except String Int :=
  let scale := wrap (wrap (a.exponent - b.exponent) + 32)
  if 0 ≤ scale then do
    let power ← pow10 scale
    pure (divideTruncated (a.coefficient * power) b.coefficient)
  else do
    let power ← pow10 (wrap (-scale))
    pure (divideTruncated a.coefficient (b.coefficient * power))

def div (a b : Decimal) : Except String (Option Decimal) :=
  if b.coefficient = 0 then pure none
  else if a.coefficient = 0 then zero.map some
  else do
    let coefficient ← quotient a b
    if coefficient = 0 then pure none else (normalize coefficient (-32)).map some

def order (a b : Decimal) : Except String Ordering := do
  let (x, y, _) ← aligned a b
  pure (compare x y)

def eq (a b : Decimal) : Except String Bool := (order a b).map (· == .eq)

def truncate (value : Decimal) : Except String Decimal :=
  if 0 ≤ value.exponent then pure value
  else do
    let power ← pow10 (wrap (-value.exponent))
    normalize (divideTruncated value.coefficient power) 0

def rounded (value : Decimal) (denominator : Int) : Int :=
  let quotient := divideTruncated value.coefficient denominator
  let remainder := value.coefficient - quotient * denominator
  let doubled := absolute remainder * 2
  let odd := divideTruncated quotient 2 * 2 ≠ quotient
  if denominator < doubled ∨ (doubled = denominator ∧ odd) then
    quotient + (if value.coefficient < 0 then -1 else 1)
  else quotient

def round (value : Decimal) : Except String Decimal :=
  if 0 ≤ value.exponent then pure value
  else do
    let denominator ← pow10 (wrap (-value.exponent))
    normalize (rounded value denominator) 0

def shiftDecimalLeft (count : Int) (value : Decimal) : Except String Decimal :=
  normalize value.coefficient (wrap (value.exponent - count))

def shiftDecimalRight (count : Int) (value : Decimal) : Except String Decimal :=
  normalize value.coefficient (wrap (value.exponent + count))

end Decimal

end Morphir.Sdk

/-!
## Values of decimals

What `normalize` makes of a coefficient and an exponent, and what the operations
compute, as rational numbers.  An operation fits when no exponent in it leaves 32
bits.
-/

namespace Morphir.Sdk

open Fallible Rounding

def InRange (n : Int) : Prop := -2147483648 ≤ n ∧ n ≤ 2147483647

variable {n : Int}

lemma wrap_of_inRange (h : InRange n) : wrap n = n := by
  unfold InRange at h
  unfold wrap
  omega

/-- The exponent stays in 32 bits while the zeros of a coefficient are stripped. -/
def Strips (n e : Int) : Prop := ∀ k : Nat, (10 : Int) ^ k ∣ n → e + k ≤ 2147483647

lemma pow10_of_nonneg (h : 0 ≤ n) : pow10 n = .ok (10 ^ n.toNat) := by rw [pow10, if_neg (by omega)]

lemma strip_spec {e : Int} (hn : n ≠ 0) (he : -2147483648 ≤ e) (hstr : Strips n e) :
    ∃ k : Nat, ∃ m : Int, strip n e = (m, e + k) ∧ n = m * 10 ^ k ∧ ¬ (10 : Int) ∣ m := by
  induction hsz : n.natAbs using Nat.strongRecOn generalizing n e with
  | _ size ih =>
    have htdiv := divideTruncated_eq_tdiv n 10
    rw [strip, if_neg hn]
    dsimp only
    split
    · rename_i hsp
      refine ⟨0, n, by simp, by simp, fun hdvd => hsp ?_⟩
      rw [htdiv]
      exact Int.tdiv_mul_cancel hdvd
    · rename_i hgo
      have hten : divideTruncated n 10 * 10 = n := not_not.mp hgo
      have hq : divideTruncated n 10 ≠ 0 := by omega
      have hone := hstr 1 ⟨divideTruncated n 10, by rw [pow_one, mul_comm, hten]⟩
      have hwrap : wrap (e + 1) = e + 1 := wrap_of_inRange ⟨by omega, by omega⟩
      rw [hwrap]
      have hr : Strips (divideTruncated n 10) (e + 1) := by
        intro k hk
        have := hstr (k + 1) (by
          rw [← hten]
          exact Int.mul_dvd_mul_right 10 hk)
        omega
      obtain ⟨k, m, hstrip, hm, hl⟩ := ih _ (by omega) hq (by omega) hr rfl
      refine ⟨k + 1, m, ?_, ?_, hl⟩
      · rw [hstrip]
        push_cast
        rw [add_assoc, add_comm 1 (k : Int)]
      · rw [pow_succ, ← mul_assoc, ← hm, hten]

namespace Decimal

def value (d : Decimal) : ℚ := d.coefficient * 10 ^ d.exponent

/-- Zero has exponent 0, another coefficient ends in no zero at an exponent of 32
bits that is at least -32. -/
structure Canonical (d : Decimal) : Prop where
  zero : d.coefficient = 0 → d.exponent = 0
  nonzero : d.coefficient ≠ 0 → ¬ (10 : Int) ∣ d.coefficient
  floor : -32 ≤ d.exponent
  range : d.exponent ≤ 2147483647

def cutZero : Decimal := ⟨0, -32⟩

end Decimal

open Decimal

/-- The coefficient and the exponent that are stripped after the cut. -/
def floored (coefficient exponent : Int) : Int × Int :=
  if exponent < -32 then (coefficient.tdiv (10 ^ (-32 - exponent).toNat), -32)
  else (coefficient, exponent)

structure Normalizes (coefficient exponent : Int) : Prop where
  range : InRange exponent
  strips : Strips (floored coefficient exponent).1 (floored coefficient exponent).2 ∨
    (floored coefficient exponent).1 = 0

lemma atFloor_eq {coefficient exponent : Int} (h : InRange exponent) :
    atFloor coefficient exponent = .ok (floored coefficient exponent) := by
  unfold atFloor floored
  obtain ⟨hlow, hhi⟩ := h
  split
  · rw [wrap_of_inRange ⟨by omega, by omega⟩, pow10_of_nonneg (by omega)]
    simp only [bind, Except.bind, pure, Except.pure, divideTruncated_eq_tdiv]
  · rfl

lemma floored_value (coefficient exponent : Int) :
    ((floored coefficient exponent).1 : ℚ) * 10 ^ (floored coefficient exponent).2 =
      cut 32 (coefficient * 10 ^ exponent) := by
  unfold floored cut
  split
  · obtain ⟨k, hk⟩ := Int.eq_ofNat_of_zero_le (show 0 ≤ -32 - exponent by omega)
    have hsca : (coefficient : ℚ) * 10 ^ exponent * 10 ^ 32 =
        (coefficient : ℚ) / ((10 ^ k : ℤ) : ℚ) := by
      rw [show exponent = -((k : ℤ) + 32) by omega, zpow_neg, zpow_add₀ (by norm_num),
        zpow_natCast, show ((10 : ℚ) ^ (32 : ℤ)) = 10 ^ 32 by norm_num]
      push_cast
      field_simp
    rw [hsca, toZero_div, hk, Int.toNat_natCast]
    ring
  · obtain ⟨k, hk⟩ := Int.eq_ofNat_of_zero_le (show 0 ≤ exponent + 32 by omega)
    have hsca : (coefficient : ℚ) * 10 ^ exponent =
        ((coefficient * 10 ^ k : ℤ) : ℚ) / 10 ^ 32 := by
      rw [show exponent = k - 32 by omega, zpow_sub₀ (by norm_num), zpow_natCast]
      push_cast
      ring
    rw [hsca, div_mul_cancel₀ _ (by positivity), toZero_intCast]

lemma normalize_spec {coefficient exponent : Int} (h : Normalizes coefficient exponent) :
    ∃ d, normalize coefficient exponent = .ok d ∧
      d.value = cut 32 (coefficient * 10 ^ exponent) ∧
        (d.Canonical ∨ (d = cutZero ∧ exponent < -32)) := by
  unfold normalize
  split
  · rename_i hz
    refine ⟨⟨coefficient, 0⟩, rfl, ?_, .inl ⟨fun _ => rfl, fun hne => absurd hz hne,
      Int.neg_nonpos_of_nonneg (by decide), .intro 2147483647 rfl⟩⟩
    simp [value, hz, cut, toZero]
  · rename_i hne
    rw [atFloor_eq h.range]
    have hval := floored_value coefficient exponent
    have hfl : -32 ≤ (floored coefficient exponent).2 := by
      unfold floored
      split <;> simp only [] <;> omega
    by_cases hcut : (floored coefficient exponent).1 = 0
    · have hlow : exponent < -32 := by
        by_contra hhi
        rw [floored, if_neg hhi] at hcut
        exact hne hcut
      have hstrip : strip (floored coefficient exponent).1 (floored coefficient exponent).2 =
          (0, -32) := by
        rw [strip, if_pos hcut, hcut, floored, if_pos hlow]
      refine ⟨cutZero, ?_, ?_, .inr ⟨rfl, hlow⟩⟩
      · simp only [bind, Except.bind, hstrip]
        rfl
      · rw [← hval, hcut]
        simp [value, cutZero]
    · obtain ⟨k, m, hstrip, hm, hl⟩ := strip_spec hcut (by omega) (h.strips.resolve_right hcut)
      have hrm := h.strips.resolve_right hcut k ⟨m, by rw [mul_comm]; exact hm⟩
      refine ⟨⟨m, (floored coefficient exponent).2 + k⟩, ?_, ?_, .inl ⟨fun hz => ?_,
        fun _ => hl, by dsimp only; omega, hrm⟩⟩
      · simp only [bind, Except.bind, hstrip]
        rfl
      · rw [← hval, hm, value, zpow_add₀ (by norm_num), zpow_natCast]
        push_cast
        ring
      · obtain rfl : m = 0 := hz
        exact absurd (dvd_zero 10) hl

end Morphir.Sdk
