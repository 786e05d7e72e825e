import Mathlib

/-!
# Rounding

The integer part of a rational number toward zero, quotients cut at a power of
ten, and the nearest integer with ties to even.
-/

namespace Rounding

def toZero (x : ℚ) : ℤ := if 0 ≤ x then ⌊x⌋ else ⌈x⌉

lemma toZero_neg (x : ℚ) : toZero (-x) = -toZero x := by
  rcases lt_trichotomy x 0 with hx | rfl | hx
  · rw [toZero, if_pos (by linarith), toZero, if_neg (by linarith), Int.floor_neg]
  · simp [toZero]
  · rw [toZero, if_neg (by linarith), toZero, if_pos (by linarith), Int.ceil_neg]

@[simp] lemma toZero_intCast (n : ℤ) : toZero n = n := by
  unfold toZero
  split <;> simp

lemma toZero_div (a b : ℤ) : toZero ((a : ℚ) / b) = a.tdiv b := by
  have hnat (m : ℤ) (hm : 0 ≤ m) (n : ℕ) : toZero ((m : ℚ) / n) = m.tdiv n := by
    rw [toZero, if_pos (by positivity), Rat.floor_intCast_div_natCast,
      Int.tdiv_eq_ediv_of_nonneg hm]
  have hpos (m : ℤ) (n : ℕ) : toZero ((m : ℚ) / n) = m.tdiv n := by
    rcases le_or_gt 0 m with hm | hm
    · exact hnat m hm n
    · have hneg := hnat (-m) (by omega) n
      rw [Int.cast_neg, neg_div, toZero_neg, Int.neg_tdiv] at hneg
      exact neg_injective hneg
  obtain ⟨n, rfl | rfl⟩ := b.eq_nat_or_neg
  · exact_mod_cast hpos a n
  · have h := hpos a n
    rw [Int.tdiv_neg, Int.cast_neg, div_neg, toZero_neg]
    exact congrArg Neg.neg (by exact_mod_cast h)

def cut (places : ℕ) (x : ℚ) : ℚ := toZero (x * 10 ^ places) / 10 ^ places

structure IsHalfEven (x : ℚ) (n : ℤ) : Prop where
  near : |x - n| ≤ 1 / 2
  even : |x - n| = 1 / 2 → Even n

lemma isHalfEven_intCast (n : ℤ) : IsHalfEven n n := ⟨by simp, by simp⟩

lemma isHalfEven_div {a b n : ℤ} (hb : 0 < b) (hnear : 2 * |a - n * b| ≤ b)
    (heven : 2 * |a - n * b| = b → Even n) : IsHalfEven ((a : ℚ) / b) n := by
  have hb' : (0 : ℚ) < b := by exact_mod_cast hb
  have hdis : |(a : ℚ) / b - n| = ((|a - n * b| : ℤ) : ℚ) / b := by
    rw [div_sub' hb'.ne', abs_div, abs_of_pos hb', mul_comm (b : ℚ)]
    push_cast
    rfl
  have hsca : ((2 * |a - n * b| : ℤ) : ℚ) = 2 * ((|a - n * b| : ℤ) : ℚ) := by push_cast; rfl
  refine ⟨?_, fun htie => heven ?_⟩
  · have hnear' : ((2 * |a - n * b| : ℤ) : ℚ) ≤ b := by exact_mod_cast hnear
    rw [hdis, div_le_iff₀ hb']
    linarith
  · rw [hdis, div_eq_iff hb'.ne'] at htie
    have : ((2 * |a - n * b| : ℤ) : ℚ) = b := by linarith
    exact_mod_cast this

lemma IsHalfEven.unique {x : ℚ} {m n : ℤ} (hm : IsHalfEven x m) (hn : IsHalfEven x n) : m = n := by
  have h1 := abs_le.mp hm.near
  have h2 := abs_le.mp hn.near
  have hlow : (m : ℚ) - n ≤ 1 := by linarith
  have hhi : (n : ℚ) - m ≤ 1 := by linarith
  have hlow' : m - n ≤ 1 := by exact_mod_cast hlow
  have hhi' : n - m ≤ 1 := by exact_mod_cast hhi
  rcases (by omega : m = n ∨ m = n + 1 ∨ n = m + 1) with h | rfl | rfl
  · exact h
  · push_cast at h1
    have hx : x - n = 1 / 2 := by linarith
    have he := hn.even (by rw [hx]; norm_num)
    have he' := hm.even (by push_cast; rw [show x - (n + 1) = -(1 / 2) by linarith]; norm_num)
    exact absurd he' (Int.not_even_iff_odd.mpr he.add_one)
  · push_cast at h2
    have hx : x - m = 1 / 2 := by linarith
    have he := hm.even (by rw [hx]; norm_num)
    have he' := hn.even (by push_cast; rw [show x - (m + 1) = -(1 / 2) by linarith]; norm_num)
    exact absurd he' (Int.not_even_iff_odd.mpr he.add_one)

end Rounding
