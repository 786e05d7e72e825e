import Morphir.Sdk.DecimalText

/-!
# Decimals that a program can reach

Every public function that returns a decimal is one of these calls, or made of
them.  Where the exponents of all calls stay in 32 bits, every decimal is regular
and the operations are those of rational numbers.
-/

namespace Morphir.Sdk

open Fallible Rounding Except

namespace Decimal

inductive Call
  | fromInteger (value : Int)
  | fromString (text : String)
  | add (a b : Decimal)
  | sub (a b : Decimal)
  | negate (a : Decimal)
  | abs (a : Decimal)
  | mul (a b : Decimal)
  | div (a b : Decimal)
  | truncate (a : Decimal)
  | round (a : Decimal)
  | shiftDecimalLeft (count : Int) (a : Decimal)
  | shiftDecimalRight (count : Int) (a : Decimal)

namespace Call

def args : Call → List Decimal
  | .fromInteger _ | .fromString _ => []
  | .add a b | .sub a b | .mul a b | .div a b => [a, b]
  | .negate a | .abs a | .truncate a | .round a => [a]
  | .shiftDecimalLeft _ a | .shiftDecimalRight _ a => [a]

def result : Call → Except String (Option Decimal)
  | .fromInteger value => (Decimal.fromInteger value).map some
  | .fromString text => Decimal.fromString text
  | .add a b => (Decimal.add a b).map some
  | .sub a b => (Decimal.sub a b).map some
  | .negate a => .ok (some (Decimal.negate a))
  | .abs a => .ok (some (Decimal.abs a))
  | .mul a b => (Decimal.mul a b).map some
  | .div a b => Decimal.div a b
  | .truncate a => (Decimal.truncate a).map some
  | .round a => (Decimal.round a).map some
  | .shiftDecimalLeft count a => (Decimal.shiftDecimalLeft count a).map some
  | .shiftDecimalRight count a => (Decimal.shiftDecimalRight count a).map some

def Fits : Call → Prop
  | .fromInteger value => Normalizes value 0
  | .fromString text => ∀ coefficient exponent,
      readParts text = some (coefficient, exponent) → Normalizes coefficient exponent
  | .add a b => Adds a b
  | .sub a b => Adds a (Decimal.negate b)
  | .negate _ | .abs _ => True
  | .mul a b => Normalizes (a.coefficient * b.coefficient) (a.exponent + b.exponent)
  | .div a b => Quotes a b
  | .truncate a => Truncates a
  | .round a => Rounds a
  | .shiftDecimalLeft count a => Normalizes a.coefficient (a.exponent - count)
  | .shiftDecimalRight count a => Normalizes a.coefficient (a.exponent + count)

end Call

/-- The decimals that calls with a property give, from such decimals. -/
inductive Reached (P : Call → Prop) : Decimal → Prop
  | call {c : Call} {d : Decimal} (hargs : ∀ a ∈ c.args, Reached P a) (hc : P c)
      (h : c.result = .ok (some d)) : Reached P d

variable {d : Decimal}

variable {x : Except String Decimal}

lemma result_of_map (h : x.map some = .ok (some d)) : x = .ok d := by
  obtain ⟨d', hd, hso⟩ := map_ok h
  rw [hd, Option.some.inj hso]

lemma normalize_regular {coefficient exponent : Int} (h : Normalizes coefficient exponent)
    (hd : normalize coefficient exponent = .ok d) : d.Regular := by
  obtain ⟨d', hd', _, hreg⟩ := normalize_spec h
  obtain rfl := ok.inj (hd'.symm.trans hd)
  exact hreg.imp_right And.left

lemma canonical_of {P : Decimal → Prop} (h : ∃ r, x = .ok r ∧ P r ∧ r.Canonical) (hd : x = .ok d)
    : d.Regular := by
  obtain ⟨r, hr, _, hcan⟩ := h
  obtain rfl := ok.inj (hr.symm.trans hd)
  exact .inl hcan

lemma Call.result_regular {c : Call} (hargs : ∀ a ∈ c.args, a.Regular) (hc : c.Fits)
    (h : c.result = .ok (some d)) : d.Regular := by
  cases c with
  | fromInteger value => exact normalize_regular hc (result_of_map h)
  | fromString text =>
    simp only [result, Decimal.fromString] at h
    split at h
    · cases h
    · rename_i coefficient exponent hpts
      exact normalize_regular (hc _ _ hpts) (result_of_map h)
  | add a b =>
    exact canonical_of (add_spec (hargs a (by simp [args])) (hargs b (by simp [args])) hc)
      (result_of_map h)
  | sub a b =>
    exact canonical_of (add_spec (hargs a (by simp [args]))
      (negate_regular (hargs b (by simp [args]))).1 hc) (result_of_map h)
  | negate a =>
    obtain rfl := Option.some.inj (ok.inj h)
    exact (negate_regular (hargs a (by simp [args]))).1
  | abs a =>
    obtain rfl := Option.some.inj (ok.inj h)
    have ha := hargs a (by simp [args])
    unfold Decimal.abs
    split
    · exact (negate_regular ha).1
    · exact ha
  | mul a b =>
    obtain ⟨r, hr, _, hreg⟩ := mul_spec hc
    obtain rfl := ok.inj (hr.symm.trans (result_of_map h))
    exact hreg
  | div a b =>
    obtain ⟨r, hr, _, hso⟩ := div_spec hc
    obtain rfl := ok.inj (hr.symm.trans h)
    exact .inl (hso d rfl).2
  | truncate a => exact canonical_of (truncate_spec (hargs a (by simp [args])) hc) (result_of_map h)
  | round a => exact canonical_of (round_spec (hargs a (by simp [args])) hc) (result_of_map h)
  | shiftDecimalLeft count a | shiftDecimalRight count a =>
    obtain ⟨r, hr, _, hreg⟩ := shift_spec hc
    obtain rfl := ok.inj (hr.symm.trans (result_of_map h))
    exact hreg

lemma Reached.regular (h : Reached Call.Fits d) : d.Regular := by
  induction h with
  | call _ hc h ih => exact Call.result_regular ih hc h

lemma Regular.value_eq_iff {a b : Decimal} (ha : a.Regular) (hb : b.Regular) :
    a.value = b.value ↔ a = b ∨ (a.coefficient = 0 ∧ b.coefficient = 0) := by
  constructor
  · intro h
    rcases ha with ha | rfl
    · rcases hb with hb | rfl
      · exact .inl (ha.ext_value hb h)
      · exact .inr ⟨value_eq_zero.mp (h.trans (value_eq_zero.mpr rfl)), rfl⟩
    · exact .inr ⟨rfl, value_eq_zero.mp (h.symm.trans (value_eq_zero.mpr rfl))⟩
  · rintro (rfl | ⟨hz, hz'⟩)
    · rfl
    · rw [value_eq_zero.mpr hz, value_eq_zero.mpr hz']

/-- Decimals that a program reaches without an exponent that leaves 32 bits are
canonical, but for the zero that a cut leaves, and their arithmetic is that of
rational numbers. -/
theorem reached_arithmetic {a b : Decimal} (ha : Reached Call.Fits a) (hb : Reached Call.Fits b) :
    (a.Canonical ∨ a = cutZero) ∧
    (Call.Fits (.add a b) → ∃ d, add a b = .ok d ∧ d.value = a.value + b.value ∧ d.Canonical) ∧
    (Call.Fits (.sub a b) → ∃ d, sub a b = .ok d ∧ d.value = a.value - b.value ∧ d.Canonical) ∧
    (Call.Fits (.mul a b) → ∃ d, mul a b = .ok d ∧ d.value = cut 32 (a.value * b.value) ∧
      (d.Canonical ∨ d = cutZero)) ∧
    (Call.Fits (.div a b) → ∃ result, div a b = .ok result ∧ (result = none ↔
        b.value = 0 ∨ (a.value / b.value ≠ 0 ∧ cut 32 (a.value / b.value) = 0)) ∧
      ∀ d, result = some d → d.value = cut 32 (a.value / b.value) ∧ d.Canonical) ∧
    (Aligns a b → order a b = .ok (compare a.value b.value) ∧
      eq a b = .ok (decide (a = b ∨ (a.coefficient = 0 ∧ b.coefficient = 0)))) ∧
    (Call.Fits (.round a) → ∃ d, round a = .ok d ∧
      (∀ n : ℤ, d.value = n ↔ IsHalfEven a.value n) ∧ d.Canonical) ∧
    fromString (toString a) = .ok (some (if a = cutZero then ⟨0, 0⟩ else a)) := by
  have ha' := ha.regular
  have hb' := hb.regular
  refine ⟨ha', add_spec ha' hb', fun h => ?_, mul_spec, div_spec, fun h => ⟨order_spec h, ?_⟩,
    round_spec ha', ?_⟩
  · obtain ⟨d, hd, hval, hcan⟩ := add_spec ha' (negate_regular hb').1 h
    exact ⟨d, hd, by rw [hval, negate_value, sub_eq_add_neg], hcan⟩
  · rw [eq_spec h]
    exact congrArg ok (decide_eq_decide.mpr (ha'.value_eq_iff hb'))
  · rcases ha' with hcan | rfl
    · rw [if_neg, fromString_toString hcan]
      rintro rfl
      exact absurd (hcan.zero rfl) (by decide)
    · rfl

lemma ne_zero_of_not_dvd (h : ¬ (10 : Int) ∣ n) : n ≠ 0 := by
  rintro rfl
  exact h (dvd_zero 10)

variable {n e : Int}

lemma normalizes_of_not_dvd (h : ¬ (10 : Int) ∣ n) (he : -32 ≤ e) (hrg : InRange e) :
    Normalizes n e := by
  refine ⟨hrg, .inl ?_⟩
  rw [floored, if_neg (by omega)]
  intro k hk
  have hz : k = 0 := by
    by_contra hk'
    exact h ((dvd_pow_self 10 hk').trans hk)
  have := hrg.2
  omega

lemma Canonical.normalize_eq (hd : d.Canonical) (hne : d.coefficient ≠ 0) :
    normalize d.coefficient d.exponent = .ok d := by
  simpa using normalize_scaled hd hne 0 (by simpa using hd.floor)

lemma canonical_of_not_dvd (h : ¬ (10 : Int) ∣ n) (he : -32 ≤ e) (hrg : e ≤ 2147483647) :
    (⟨n, e⟩ : Decimal).Canonical :=
  ⟨fun hz => absurd hz (ne_zero_of_not_dvd h), fun _ => h, he, hrg⟩

lemma one_reached : Reached Call.Fits ⟨1, 0⟩ := by
  have hcan : (⟨1, 0⟩ : Decimal).Canonical :=
    canonical_of_not_dvd (by decide) (by decide) (by decide)
  refine .call (c := .fromInteger 1) nofun
    (normalizes_of_not_dvd (by decide) (by decide) ⟨by decide, by decide⟩) ?_
  rw [Call.result, fromInteger, hcan.normalize_eq (by decide)]
  rfl

theorem reached_arithmetic_one :
    (∃ d, add ⟨1, 0⟩ ⟨1, 0⟩ = .ok d ∧ d.value = value ⟨1, 0⟩ + value ⟨1, 0⟩ ∧ d.Canonical) ∧
    (∃ d, mul ⟨1, 0⟩ ⟨1, 0⟩ = .ok d ∧ d.value = cut 32 (value ⟨1, 0⟩ * value ⟨1, 0⟩) ∧
      (d.Canonical ∨ d = cutZero)) ∧
    order ⟨1, 0⟩ ⟨1, 0⟩ = .ok (compare (value ⟨1, 0⟩) (value ⟨1, 0⟩)) := by
  obtain ⟨-, hadd, -, hmul, -, horder, -⟩ := reached_arithmetic one_reached one_reached
  have hali : Aligns ⟨1, 0⟩ ⟨1, 0⟩ := ⟨by decide, by decide⟩
  exact ⟨hadd ⟨hali, normalizes_of_not_dvd (by decide) (by decide) ⟨by decide, by decide⟩⟩,
    hmul (normalizes_of_not_dvd (by decide) (by decide) ⟨by decide, by decide⟩),
    (horder hali).1⟩

lemma read_reached {text : String} (hpts : readParts text = some (n, e)) (h : ¬ (10 : Int) ∣ n)
    (he : -32 ≤ e) (hrg : e ≤ 2147483647) : Reached (fun _ => True) ⟨n, e⟩ := by
  refine .call (c := .fromString text) nofun trivial ?_
  have hcan := canonical_of_not_dvd h he hrg
  simp only [Call.result, fromString, hpts]
  have hrd : normalize n e = .ok ⟨n, e⟩ := hcan.normalize_eq (ne_zero_of_not_dvd h)
  rw [hrd]
  rfl

lemma value_one_lt (he : e < 0) : value ⟨1, e⟩ < 1 := by
  rw [value, Int.cast_one, one_mul]
  exact zpow_lt_one_of_neg₀ (by norm_num) he

lemma one_le_value (hn : 1 ≤ n) (he : 0 ≤ e) : 1 ≤ value ⟨n, e⟩ :=
  one_le_mul_of_one_le_of_one_le (by exact_mod_cast hn) (one_le_zpow₀ (by norm_num) he)

/-- Without the bound on exponents a product can be another zero than the canonical
one and a sum can be far from the sum of its terms. -/
theorem not_reached_arithmetic :
    ¬ (∀ d, Reached (fun _ => True) d → d.Canonical) ∧
    ¬ ∀ a b, Reached (fun _ => True) a → Reached (fun _ => True) b →
      ∃ d, add a b = .ok d ∧ d.value = a.value + b.value := by
  constructor
  · intro h
    have hrd : Reached (fun _ => True) ⟨1, -20⟩ :=
      read_reached (show readParts "1e-20" = _ by decide +kernel) (by decide) (by decide)
        (by decide)
    have hmul : mul ⟨1, -20⟩ ⟨1, -20⟩ = .ok cutZero := by
      have hstrip : strip 0 (-32) = (0, -32) := by rw [strip, if_pos rfl]
      have hfl : atFloor 1 (-40) = .ok (0, -32) := by decide
      have hwrap : wrap (-40) = -40 := by decide
      simp [mul, hwrap, normalize, hfl, hstrip, bind, Except.bind, pure, Except.pure, cutZero]
    have hz := h cutZero (.call (c := .mul ⟨1, -20⟩ ⟨1, -20⟩) (by simpa [Call.args] using hrd)
      trivial (by rw [Call.result, hmul]; rfl))
    exact absurd (hz.zero rfl) (by decide)
  · intro h
    have hrd : Reached (fun _ => True) ⟨5, 2147483647⟩ :=
      read_reached (show readParts "5e2147483647" = _ by decide +kernel) (by decide) (by decide)
        (by decide)
    have hadd : add ⟨5, 2147483647⟩ ⟨5, 2147483647⟩ = .ok ⟨1, -2147483648⟩ := by
      have hstrip : strip 10 2147483647 = (1, -2147483648) := by
        rw [strip, if_neg (by decide)]
        rw [if_neg (by decide), strip, if_neg (by decide)]
        exact if_pos (by decide)
      simp [add, aligned, pow10, wrap, bind, Except.bind, pure, Except.pure, normalize, atFloor,
        hstrip]
    obtain ⟨d, hd, hval⟩ := h _ _ hrd hrd
    obtain rfl := Except.ok.inj (hadd.symm.trans hd)
    have hlow := value_one_lt (show (-2147483648 : Int) < 0 by decide)
    have hhi := one_le_value (show (1 : Int) ≤ 5 by decide)
      (show (0 : Int) ≤ 2147483647 by decide)
    linarith

end Decimal

end Morphir.Sdk
