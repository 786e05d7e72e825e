import Morphir.Sdk.Decimal

/-!
# Arithmetic of decimals

Each operation that fits, as rational arithmetic: sums and differences are exact,
products and quotients are cut at exponent -32, comparison is the order of the
values and rounding is to the nearest integer with ties to even.
-/

namespace Morphir.Sdk

open Fallible Rounding Int Except

namespace Decimal

def Regular (d : Decimal) : Prop := d.Canonical ∨ d = cutZero

variable {d : Decimal}

lemma Regular.bounds (h : d.Regular) : -32 ≤ d.exponent ∧ d.exponent ≤ 2147483647 := by
  rcases h with h | rfl
  · exact ⟨h.floor, h.range⟩
  · decide

lemma value_eq_zero : d.value = 0 ↔ d.coefficient = 0 := by
  rw [value, mul_eq_zero, cast_eq_zero, or_iff_left (zpow_ne_zero _ (by norm_num))]

variable {a b : Decimal}

lemma Canonical.ext_value (ha : a.Canonical) (hb : b.Canonical) (h : a.value = b.value) :
    a = b := by
  have hsm (c d : Decimal) (hc : c.Canonical) (hle : c.exponent ≤ d.exponent)
      (hne : c.coefficient ≠ 0) (hval : c.value = d.value) : c = d := by
    obtain ⟨k, hk⟩ := eq_ofNat_of_zero_le (show 0 ≤ d.exponent - c.exponent by omega)
    have hsca : c.coefficient = d.coefficient * 10 ^ k := by
      have hexp : d.exponent = c.exponent + k := by omega
      rw [value, value, hexp, zpow_add₀ (by norm_num), zpow_natCast] at hval
      have hpower : (10 : ℚ) ^ c.exponent ≠ 0 := zpow_ne_zero _ (by norm_num)
      have hcast : (c.coefficient : ℚ) = d.coefficient * 10 ^ k :=
        mul_right_cancel₀ hpower (by rw [hval]; ring)
      exact_mod_cast hcast
    cases k with
    | zero =>
      obtain ⟨coefficient, exponent⟩ := c
      obtain ⟨coefficient', exponent'⟩ := d
      simp only [pow_zero, mul_one] at hsca
      subst hsca
      simp only at hk
      rw [show exponent' = exponent by omega]
    | succ k =>
      refine absurd ⟨d.coefficient * 10 ^ k, ?_⟩ (hc.nonzero hne)
      rw [hsca]
      ring
  by_cases hz : a.coefficient = 0
  · have hz' : b.coefficient = 0 := value_eq_zero.mp (h ▸ value_eq_zero.mpr hz)
    obtain ⟨coefficient, exponent⟩ := a
    obtain ⟨coefficient', exponent'⟩ := b
    obtain rfl : coefficient = 0 := hz
    obtain rfl : coefficient' = 0 := hz'
    obtain rfl : exponent = 0 := ha.zero rfl
    obtain rfl : exponent' = 0 := hb.zero rfl
    rfl
  · rcases le_total a.exponent b.exponent with hle | hle
    · exact hsm a b ha hle hz h
    · have hz' : b.coefficient ≠ 0 := fun h' =>
        hz (value_eq_zero.mp (h ▸ value_eq_zero.mpr h'))
      exact (hsm b a hb hle hz' h.symm).symm

structure Aligns (a b : Decimal) : Prop where
  left : a.exponent - b.exponent ≤ 2147483647
  right : b.exponent - a.exponent ≤ 2147483647

def at' (d : Decimal) (exponent : Int) : Int := d.coefficient * 10 ^ (d.exponent - exponent).toNat

variable {exponent : Int}

lemma at'_value (h : exponent ≤ d.exponent) : (d.at' exponent : ℚ) * 10 ^ exponent = d.value := by
  obtain ⟨k, hk⟩ := eq_ofNat_of_zero_le (show 0 ≤ d.exponent - exponent by omega)
  rw [at', hk, value, show d.exponent = exponent + k by omega, zpow_add₀ (by norm_num),
    zpow_natCast]
  push_cast [toNat_natCast]
  ring

lemma aligned_eq (h : Aligns a b) :
    aligned a b = .ok (a.at' (min a.exponent b.exponent), b.at' (min a.exponent b.exponent),
      min a.exponent b.exponent) := by
  obtain ⟨hlt, hrt⟩ := h
  unfold aligned
  dsimp only
  rw [wrap_of_inRange ⟨by omega, by omega⟩, wrap_of_inRange ⟨by omega, by omega⟩,
    pow10_of_nonneg (by omega), pow10_of_nonneg (by omega)]
  rfl

lemma cut_of_floor {coefficient : Int} (h : -32 ≤ exponent) :
    cut 32 (coefficient * 10 ^ exponent) = coefficient * 10 ^ exponent := by
  rw [← floored_value, floored, if_neg (by omega)]

structure Adds (a b : Decimal) : Prop where
  aligns : Aligns a b
  normalizes : Normalizes (a.at' (min a.exponent b.exponent) + b.at' (min a.exponent b.exponent))
    (min a.exponent b.exponent)

lemma add_spec (ha : a.Regular) (hb : b.Regular) (h : Adds a b) :
    ∃ d, add a b = .ok d ∧ d.value = a.value + b.value ∧ d.Canonical := by
  have hfl := ha.bounds.1
  have hfl' := hb.bounds.1
  obtain ⟨d, hd, hval, hreg⟩ := normalize_spec h.normalizes
  refine ⟨d, ?_, ?_, hreg.resolve_right fun hcut => absurd hcut.2 (by omega)⟩
  · rw [add, aligned_eq h.aligns]
    exact hd
  · rw [hval, cut_of_floor (by omega), cast_add, add_mul, at'_value (by omega),
      at'_value (by omega)]

lemma negate_regular (h : d.Regular) :
    (negate d).Regular ∧ (d.Canonical → (negate d).Canonical) := by
  have hcan (hd : d.Canonical) : (negate d).Canonical :=
    ⟨fun hz => hd.zero (neg_eq_zero.mp hz),
      fun hne hdvd => hd.nonzero (fun hz => hne (by rw [negate, hz]; rfl))
        (dvd_neg.mp hdvd), hd.floor, hd.range⟩
  refine ⟨?_, hcan⟩
  rcases h with h | rfl
  · exact .inl (hcan h)
  · exact .inr rfl

lemma negate_value (d : Decimal) : (negate d).value = -d.value := by
  rw [negate, value, value]
  push_cast
  ring

lemma order_spec (h : Aligns a b) : order a b = .ok (compare a.value b.value) := by
  have hpower : (0 : ℚ) < 10 ^ min a.exponent b.exponent := zpow_pos (by norm_num) _
  rw [order, aligned_eq h]
  refine congrArg ok ?_
  rw [← at'_value (min_le_left a.exponent b.exponent),
    ← at'_value (min_le_right a.exponent b.exponent)]
  generalize a.at' (min a.exponent b.exponent) = x
  generalize b.at' (min a.exponent b.exponent) = y
  rcases lt_trichotomy x y with hlt | rfl | hgt
  · rw [compare_lt_iff_lt.mpr hlt, compare_lt_iff_lt.mpr]
    exact mul_lt_mul_of_pos_right (by exact_mod_cast hlt) hpower
  · rw [compare_eq_iff_eq.mpr rfl, compare_eq_iff_eq.mpr rfl]
  · rw [compare_gt_iff_gt.mpr hgt, compare_gt_iff_gt.mpr]
    exact mul_lt_mul_of_pos_right (by exact_mod_cast hgt) hpower

lemma eq_spec (h : Aligns a b) : eq a b = .ok (decide (a.value = b.value)) := by
  rw [eq, order_spec h]
  refine congrArg ok (Bool.eq_iff_iff.mpr ?_)
  rw [beq_iff_eq, compare_eq_iff_eq, decide_eq_true_iff]

lemma mul_spec (h : Normalizes (a.coefficient * b.coefficient) (a.exponent + b.exponent)) :
    ∃ d, mul a b = .ok d ∧ d.value = cut 32 (a.value * b.value) ∧ d.Regular := by
  obtain ⟨d, hd, hval, hreg⟩ := normalize_spec h
  refine ⟨d, ?_, ?_, hreg.imp_right And.left⟩
  · rw [mul, wrap_of_inRange h.range, hd]
  · rw [hval, value, value, zpow_add₀ (by norm_num)]
    push_cast
    ring_nf

structure Divides (a b : Decimal) : Prop where
  low : -2147483648 < a.exponent - b.exponent + 32
  high : a.exponent - b.exponent + 32 ≤ 2147483647

lemma quotient_spec (h : Divides a b) :
    quotient a b = .ok (toZero (a.value / b.value * 10 ^ 32)) := by
  obtain ⟨hlow, hhi⟩ := h
  have hscale : wrap (wrap (a.exponent - b.exponent) + 32) = a.exponent - b.exponent + 32 := by
    unfold wrap
    omega
  have hval : a.value / b.value * 10 ^ 32 =
      (a.coefficient / b.coefficient : ℚ) * 10 ^ (a.exponent - b.exponent + 32) := by
    rw [value, value, zpow_add₀ (by norm_num), zpow_sub₀ (by norm_num)]
    ring
  unfold quotient
  rw [hscale, hval]
  dsimp only
  split
  · rename_i hpos
    obtain ⟨k, hk⟩ := eq_ofNat_of_zero_le hpos
    rw [pow10_of_nonneg hpos, hk, toNat_natCast, zpow_natCast]
    refine congrArg ok ?_
    rw [divideTruncated_eq_tdiv, ← toZero_div]
    push_cast
    ring_nf
  · obtain ⟨k, hk⟩ := eq_ofNat_of_zero_le
      (show 0 ≤ -(a.exponent - b.exponent + 32) by omega)
    rw [wrap_of_inRange ⟨by omega, by omega⟩, pow10_of_nonneg (by omega), hk, toNat_natCast,
      show a.exponent - b.exponent + 32 = -(k : ℤ) by omega, zpow_neg, zpow_natCast]
    refine congrArg ok ?_
    rw [divideTruncated_eq_tdiv, ← toZero_div]
    push_cast
    rw [div_mul_eq_div_div, div_eq_mul_inv _ ((10 : ℚ) ^ k)]

structure Quotes (a b : Decimal) : Prop where
  divides : Divides a b
  normalizes : Normalizes (toZero (a.value / b.value * 10 ^ 32)) (-32)

lemma canonical_zero : (⟨0, 0⟩ : Decimal).Canonical :=
  ⟨fun _ => rfl, fun h => absurd rfl h, by decide, by decide⟩

lemma div_spec (h : Quotes a b) :
    ∃ result, div a b = .ok result ∧
      (result = none ↔ b.value = 0 ∨ (a.value / b.value ≠ 0 ∧ cut 32 (a.value / b.value) = 0)) ∧
      ∀ d, result = some d → d.value = cut 32 (a.value / b.value) ∧ d.Canonical := by
  unfold div
  split
  · rename_i hz
    exact ⟨none, rfl, iff_of_true rfl (.inl (value_eq_zero.mpr hz)), by simp⟩
  · rename_i hb
    have hb' : b.value ≠ 0 := mt value_eq_zero.mp hb
    split
    · rename_i hz
      have hquo : a.value / b.value = 0 := by rw [value_eq_zero.mpr hz, zero_div]
      refine ⟨some ⟨0, 0⟩, rfl, iff_of_false (by simp) ?_, ?_⟩
      · rintro (hz' | ⟨hne, _⟩)
        · exact hb' hz'
        · exact hne hquo
      · rintro d hd
        cases hd
        refine ⟨?_, canonical_zero⟩
        rw [hquo]
        simp [value, cut, toZero]
    · rename_i ha
      have hne : a.value / b.value ≠ 0 := div_ne_zero (mt value_eq_zero.mp ha) hb'
      have hcut : cut 32 (a.value / b.value) = 0 ↔ toZero (a.value / b.value * 10 ^ 32) = 0 := by
        rw [cut, div_eq_zero_iff, or_iff_left (by positivity), cast_eq_zero]
      rw [quotient_spec h.divides]
      dsimp only [bind, Except.bind]
      split
      · rename_i hz
        exact ⟨none, rfl, iff_of_true rfl (.inr ⟨hne, hcut.mpr hz⟩), by simp⟩
      · rename_i hnon
        obtain ⟨d, hd, hval, hreg⟩ := normalize_spec h.normalizes
        refine ⟨some d, by rw [hd]; rfl, iff_of_false (by simp) ?_, ?_⟩
        · rintro (hz | ⟨_, hz⟩)
          · exact hb' hz
          · exact hnon (hcut.mp hz)
        · rintro d' hd'
          obtain rfl := Option.some.inj hd'
          refine ⟨?_, hreg.resolve_right fun hlow => absurd hlow.2 (by decide)⟩
          rw [hval, cut_of_floor (by decide)]
          exact (div_eq_mul_inv _ _).symm

lemma value_of_negative (h : d.exponent < 0) :
    d.value = (d.coefficient : ℚ) / ((10 ^ (-d.exponent).toNat : ℤ) : ℚ) := by
  obtain ⟨k, hk⟩ := eq_ofNat_of_zero_le (show 0 ≤ -d.exponent by omega)
  rw [value, hk, show d.exponent = -k by omega, zpow_neg]
  push_cast
  rfl

lemma value_of_nonneg (h : 0 ≤ d.exponent) :
    d.value = ((d.coefficient * 10 ^ d.exponent.toNat : ℤ) : ℚ) := by
  obtain ⟨k, hk⟩ := eq_ofNat_of_zero_le h
  rw [value, hk]
  push_cast
  rfl

def Truncates (d : Decimal) : Prop := d.exponent < 0 → Normalizes (toZero d.value) 0

lemma truncate_spec (hd : d.Regular) (h : Truncates d) :
    ∃ r, truncate d = .ok r ∧ r.value = toZero d.value ∧ r.Canonical := by
  unfold truncate
  split
  · rename_i hnon
    refine ⟨d, rfl, ?_, hd.resolve_right fun hcut => ?_⟩
    · rw [value_of_nonneg hnon, toZero_intCast]
    · rw [hcut] at hnon
      cases hnon
  · have hfl := hd.bounds.1
    obtain ⟨r, hr, hval, hreg⟩ := normalize_spec (h (by omega))
    refine ⟨r, ?_, ?_, hreg.resolve_right fun hlow => absurd hlow.2 (by decide)⟩
    · rw [wrap_of_inRange ⟨by omega, by omega⟩, pow10_of_nonneg (by omega)]
      simp only [bind, Except.bind]
      rw [divideTruncated_eq_tdiv, ← toZero_div, ← value_of_negative (by omega), hr]
    · rw [hval, cut_of_floor (by decide), zpow_zero, mul_one]

lemma rounded_isHalfEven (d : Decimal) {denominator : Int} (hpos : 0 < denominator) :
    IsHalfEven ((d.coefficient : ℚ) / denominator) (d.rounded denominator) := by
  have hodd (q : Int) : q.tdiv 2 * 2 ≠ q ↔ ¬ Even q := by
    rw [even_iff_two_dvd]
    exact not_congr ⟨fun h => ⟨_, h.symm.trans (mul_comm _ _)⟩, Int.tdiv_mul_cancel⟩
  have hpts := tmod_add_tdiv_mul d.coefficient denominator
  have hupper := tmod_lt_of_pos d.coefficient hpos
  have hlower := tmod_lt_of_pos (-d.coefficient) hpos
  have hsg (h : 0 ≤ d.coefficient) := tmod_nonneg denominator h
  have hsg' (h : d.coefficient < 0) := tmod_nonneg denominator (show 0 ≤ -d.coefficient by omega)
  simp only [neg_tmod] at hlower hsg'
  unfold rounded
  simp only [divideTruncated_eq_tdiv, hodd]
  generalize d.coefficient.tdiv denominator = q at hpts ⊢
  generalize d.coefficient.tmod denominator = r at hpts hupper hlower hsg hsg'
  generalize d.coefficient = c at *
  have hrem : c - q * denominator = r := by omega
  rw [hrem]
  have habs : absolute r = |r| := by
    unfold absolute
    split
    · exact (abs_of_neg (by assumption)).symm
    · exact (abs_of_nonneg (by omega)).symm
  split
  · rename_i hadj
    -- The remainder and the coefficient have one sign, so the step goes away from zero.
    have hs : |c - (q + if c < 0 then -1 else 1) * denominator| = denominator - |r| := by
      split
      · rw [add_mul, abs_of_nonpos (show r ≤ 0 by omega), abs_of_nonneg (by omega)]
        omega
      · have hr := hsg (by omega)
        rw [add_mul, abs_of_nonneg hr, abs_of_nonpos (by omega)]
        omega
    refine isHalfEven_div hpos ?_ fun htie => ?_
    · omega
    · rcases hadj with hm | ⟨_, hodd⟩
      · omega
      · have hodd' := not_even_iff_odd.mp hodd
        split
        · exact hodd'.add_odd (by decide)
        · exact hodd'.add_odd (by decide)
  · rename_i hstay
    rw [not_or, not_and, not_not] at hstay
    refine isHalfEven_div hpos ?_ fun htie => ?_
    · rw [hrem]
      omega
    · rw [hrem] at htie
      exact hstay.2 (by omega)

def Rounds (d : Decimal) : Prop := d.exponent < 0 → ∀ n, IsHalfEven d.value n → Normalizes n 0

lemma round_spec (hd : d.Regular) (h : Rounds d) :
    ∃ r, round d = .ok r ∧ (∀ n : ℤ, r.value = n ↔ IsHalfEven d.value n) ∧ r.Canonical := by
  unfold round
  split
  · rename_i hnon
    refine ⟨d, rfl, fun n => ?_, hd.resolve_right fun hcut => ?_⟩
    · rw [value_of_nonneg hnon]
      constructor
      · intro heq
        rw [heq]
        exact isHalfEven_intCast n
      · intro hn
        rw [hn.unique (isHalfEven_intCast _)]
    · rw [hcut] at hnon
      cases hnon
  · have hfl := hd.bounds.1
    have hnear := rounded_isHalfEven d
      (by positivity : (0 : Int) < 10 ^ (-d.exponent).toNat)
    rw [← value_of_negative (by omega)] at hnear
    obtain ⟨r, hr, hval, hreg⟩ := normalize_spec (h (by omega) _ hnear)
    rw [cut_of_floor (by decide), zpow_zero, mul_one] at hval
    refine ⟨r, ?_, fun n => ?_, hreg.resolve_right fun hlow => absurd hlow.2 (by decide)⟩
    · rw [wrap_of_inRange ⟨by omega, by omega⟩, pow10_of_nonneg (by omega)]
      exact hr
    · rw [hval]
      constructor
      · intro heq
        have heq' : d.rounded (10 ^ (-d.exponent).toNat) = n := by exact_mod_cast heq
        exact heq' ▸ hnear
      · intro hn
        rw [hn.unique hnear]

lemma shift_spec (h : Normalizes d.coefficient exponent) :
    ∃ r, normalize d.coefficient (wrap exponent) = .ok r ∧
      r.value = cut 32 (d.value * 10 ^ (exponent - d.exponent)) ∧ r.Regular := by
  obtain ⟨r, hr, hval, hreg⟩ := normalize_spec h
  refine ⟨r, by rw [wrap_of_inRange h.range, hr], ?_, hreg.imp_right And.left⟩
  rw [hval, value, mul_assoc, ← zpow_add₀ (by norm_num), add_sub_cancel]

end Decimal

end Morphir.Sdk
