import Mathlib

/-!
# Decimal spellings

A decimal number is spelled by a sign, the digits around a point and an exponent.  Whether it
is whole depends on the zeros at the end of its digits.
-/

namespace Numeral

open List Char

def number (digits : List Char) : Nat := Nat.ofDigitChars 10 digits 0

def IsDigits (digits : List Char) : Prop := ∀ c ∈ digits, c.isDigit = true

inductive Sign
  | plus
  | minus
  deriving DecidableEq

namespace Sign

def char : Sign → Char
  | plus => '+'
  | minus => '-'

def text (sign : Option Sign) : List Char := sign.toList.map char

def factor (sign : Option Sign) : Int := if sign = some minus then -1 else 1

lemma factor_eq (sign : Option Sign) : factor sign = 1 ∨ factor sign = -1 := by
  unfold factor
  split
  · exact .inr rfl
  · exact .inl rfl

end Sign

structure Exponent where
  mark : Char
  sign : Option Sign
  digits : List Char
  isMark : mark = 'e' ∨ mark = 'E'
  isDigits : IsDigits digits
  nonempty : digits ≠ []

namespace Exponent

def text : Option Exponent → List Char
  | none => []
  | some e => e.mark :: (Sign.text e.sign ++ e.digits)

def value : Option Exponent → Int
  | none => 0
  | some e => Sign.factor e.sign * number e.digits

end Exponent

structure DecimalText where
  sign : Option Sign
  whole : List Char
  fraction : Option (List Char)
  exponent : Option Exponent
  isWhole : IsDigits whole
  isFraction : ∀ digits ∈ fraction, IsDigits digits
  nonempty : whole ≠ [] ∨ fraction.getD [] ≠ []

namespace DecimalText

variable (s : DecimalText)

def pointText (fraction : Option (List Char)) : List Char :=
  match fraction with
  | none => []
  | some digits => '.' :: digits

def text : List Char :=
  Sign.text s.sign ++ (s.whole ++ (pointText s.fraction ++ Exponent.text s.exponent))

def places : List Char := s.fraction.getD []

def digits : List Char := s.whole ++ s.places

def scale : Int := Exponent.value s.exponent - s.places.length

def value : Rat := Sign.factor s.sign * number s.digits * (10 : Rat) ^ s.scale

end DecimalText

lemma IsDigits.append {a b : List Char} (ha : IsDigits a) (hb : IsDigits b) :
    IsDigits (a ++ b) := by
  intro c hc
  rcases mem_append.mp hc with h | h
  · exact ha c h
  · exact hb c h

variable (s : DecimalText)

lemma DecimalText.isDigits : IsDigits s.digits := by
  apply s.isWhole.append
  rw [places]
  cases hfrac : s.fraction with
  | none => exact fun c hc => absurd hc not_mem_nil
  | some digits => exact s.isFraction digits hfrac

lemma digit_lt {c : Char} (h : c.isDigit = true) : c.toNat - '0'.toNat < 10 := by
  have hc : 48 ≤ c.toNat ∧ c.toNat ≤ 57 := by simpa [isDigit, UInt32.le_iff_toNat_le] using h
  have hz : '0'.toNat = 48 := rfl
  omega

lemma digit_eq_zero {c : Char} (h : c.isDigit = true) : c.toNat - '0'.toNat = 0 ↔ c = '0' := by
  have hc : 48 ≤ c.toNat ∧ c.toNat ≤ 57 := by simpa [isDigit, UInt32.le_iff_toNat_le] using h
  have hz : '0'.toNat = 48 := rfl
  constructor
  · intro hdig
    apply toNat_inj.mp
    omega
  · rintro rfl
    rfl

lemma number_append_singleton (digits : List Char) (c : Char) :
    number (digits ++ [c]) = 10 * number digits + (c.toNat - '0'.toNat) := by
  unfold number
  rw [Nat.ofDigitChars_append, Nat.ofDigitChars_cons, Nat.ofDigitChars_nil]

lemma number_cons_zero (digits : List Char) : number ('0' :: digits) = number digits :=
  Nat.ofDigitChars_cons

def zeros (digits : List Char) : Nat := (digits.reverse.takeWhile (· = '0')).length

lemma zeros_append_singleton (digits : List Char) (c : Char) :
    zeros (digits ++ [c]) = if c = '0' then zeros digits + 1 else 0 := by
  unfold zeros
  split <;> simp_all

lemma zeros_le (digits : List Char) : zeros digits ≤ digits.length := by
  exact ( takeWhile_prefix _).length_le.trans_eq length_reverse

variable {digits : List Char}

lemma number_ne_zero (h : IsDigits digits) : number digits ≠ 0 ↔ ∃ c ∈ digits, c ≠ '0' := by
  induction digits using List.reverseRecOn with
  | nil => simp [number]
  | append_singleton digits c ih =>
    have hds : IsDigits digits := fun d hd => h d (mem_append_left _ hd)
    have hc := digit_eq_zero (h c (by simp))
    have ih := ih hds
    rw [number_append_singleton]
    constructor
    · intro hne
      by_cases hz : c = '0'
      · obtain ⟨d, hd, hne⟩ := ih.mp (by have := hc.mpr hz; omega)
        exact ⟨d, mem_append_left _ hd, hne⟩
      · exact ⟨c, by simp, hz⟩
    · rintro ⟨d, hd, hne⟩
      rcases mem_append.mp hd with hd | hd
      · have := ih.mpr ⟨d, hd, hne⟩
        omega
      · obtain rfl := mem_singleton.mp hd
        have := mt hc.mp hne
        omega

lemma pow_zeros_dvd (h : IsDigits digits) (hne : number digits ≠ 0) :
    10 ^ zeros digits ∣ number digits ∧ ¬ 10 ^ (zeros digits + 1) ∣ number digits := by
  induction digits using List.reverseRecOn with
  | nil => exact absurd rfl hne
  | append_singleton digits c ih =>
    have hds : IsDigits digits := fun d hd => h d (mem_append_left _ hd)
    have hdig : c.isDigit = true := h c (by simp)
    have hc := digit_eq_zero hdig
    have hlt := digit_lt hdig
    rw [number_append_singleton] at hne ⊢
    rw [zeros_append_singleton]
    by_cases hz : c = '0'
    · rw [if_pos hz, hc.mpr hz]
      rw [hc.mpr hz] at hne
      obtain ⟨hdvd, hndvd⟩ := ih hds (by omega)
      constructor
      · rw [pow_succ']
        exact Nat.mul_dvd_mul_left 10 hdvd
      · rw [pow_succ']
        exact fun hbad => hndvd (Nat.dvd_of_mul_dvd_mul_left (by decide) hbad)
    · rw [if_neg hz]
      have hl := mt hc.mp hz
      refine ⟨one_dvd _, fun hbad => ?_⟩
      omega

lemma span_digits {rest : List Char} (h : IsDigits digits)
    (hr : ∀ c ∈ rest.head?, c.isDigit = false) :
    (digits ++ rest).takeWhile isDigit = digits ∧
      (digits ++ rest).dropWhile isDigit = rest := by
  have hsp : rest.takeWhile isDigit = [] ∧ rest.dropWhile isDigit = rest := by
    cases rest with
    | nil => exact ⟨rfl, rfl⟩
    | cons c rest =>
      have hc : ¬ c.isDigit = true := Bool.eq_false_iff.mp (hr c rfl)
      exact ⟨takeWhile_cons_of_neg hc, dropWhile_cons_of_neg hc⟩
  rw [takeWhile_append_of_pos h, dropWhile_append_of_pos h, hsp.1, hsp.2, append_nil]
  exact ⟨rfl, rfl⟩

lemma Exponent.head_text (e : Option Exponent) :
    ∀ c ∈ (Exponent.text e).head?, c = 'e' ∨ c = 'E' := by
  cases e with
  | none => exact fun c hc => nomatch hc
  | some e =>
    intro c hc
    cases hc
    exact e.isMark

lemma Exponent.not_digit (e : Option Exponent) :
    ∀ c ∈ (Exponent.text e).head?, c.isDigit = false := by
  intro c hc
  rcases head_text e c hc with rfl | rfl <;> rfl

lemma DecimalText.head_pointText :
    ∀ c ∈ (pointText s.fraction ++ Exponent.text s.exponent).head?, c.isDigit = false := by
  cases s.fraction with
  | none => exact Exponent.not_digit s.exponent
  | some digits =>
    intro c hc
    cases hc
    rfl

lemma DecimalText.length_text :
    s.digits.length + (Exponent.text s.exponent).length ≤ s.text.length := by
  have hpt : s.places.length ≤ (pointText s.fraction).length := by
    rw [places]
    cases s.fraction with
    | none => exact Nat.le_refl _
    | some digits => exact Nat.le_succ _
  rw [digits, text]
  simp only [length_append]
  omega

def Unsigned (text : List Char) : Prop := ∀ c ∈ text.head?, c ≠ '+' ∧ c ≠ '-'

lemma IsDigits.unsigned (h : IsDigits digits) : Unsigned digits := by
  intro c hc
  have hdig := h c (mem_of_mem_head? hc)
  constructor
  · rintro rfl
    cases hdig
  · rintro rfl
    cases hdig

lemma DecimalText.unsigned_body :
    Unsigned (s.whole ++ (pointText s.fraction ++ Exponent.text s.exponent)) := by
  intro c hc
  cases hwh : s.whole with
  | cons d digits => exact s.isWhole.unsigned c (hwh ▸ hc)
  | nil =>
    have hpla := s.nonempty.resolve_left (not_not.mpr hwh)
    cases hfrac : s.fraction with
    | none =>
      rw [hfrac] at hpla
      exact absurd rfl hpla
    | some digits =>
      rw [hwh, hfrac] at hc
      cases hc
      decide

lemma Sign.text_append_injective {a b : Option Sign} {x y : List Char} (hx : Unsigned x)
    (hy : Unsigned y) (h : text a ++ x = text b ++ y) : a = b ∧ x = y := by
  have hfst {sign : Sign} {x y : List Char} (hx : Unsigned x) (h : x = sign.char :: y) :
      False := by
    obtain ⟨hplus, hmi⟩ := hx sign.char (by rw [h]; rfl)
    cases sign with
    | plus => exact hplus rfl
    | minus => exact hmi rfl
  cases a with
  | none =>
    cases b with
    | none => exact ⟨rfl, h⟩
    | some sign => exact (hfst hx h).elim
  | some sign =>
    cases b with
    | none => exact (hfst hy h.symm).elim
    | some sign' =>
      obtain ⟨hc, hr⟩ := List.cons.inj h
      cases sign <;> cases sign' <;> first | exact ⟨rfl, hr⟩ | cases hc

lemma Exponent.text_injective {a b : Option Exponent} (h : text a = text b) : a = b := by
  cases a with
  | none =>
    cases b with
    | none => rfl
    | some e => cases h
  | some e =>
    cases b with
    | none => cases h
    | some e' =>
      obtain ⟨hmk, hr⟩ := List.cons.inj h
      obtain ⟨hsg, hds⟩ := Sign.text_append_injective e.isDigits.unsigned e'.isDigits.unsigned hr
      obtain ⟨mark, sign, digits, _, _, _⟩ := e
      obtain ⟨mark', sign', digits', _, _, _⟩ := e'
      obtain rfl : mark = mark' := hmk
      obtain rfl : sign = sign' := hsg
      obtain rfl : digits = digits' := hds
      rfl

lemma DecimalText.pointText_append_injective {f g : Option (List Char)} {a b : Option Exponent}
    (hf : ∀ digits ∈ f, IsDigits digits) (hg : ∀ digits ∈ g, IsDigits digits)
    (h : pointText f ++ Exponent.text a = pointText g ++ Exponent.text b) : f = g ∧ a = b := by
  have hpt {e : Option Exponent} {rest : List Char} (h : Exponent.text e = '.' :: rest) :
      False := by
    have hh := Exponent.head_text e '.' (by rw [h]; rfl)
    rcases hh with hh | hh <;> cases hh
  cases f with
  | none =>
    cases g with
    | none => exact ⟨rfl, Exponent.text_injective h⟩
    | some digits => exact (hpt h).elim
  | some digits =>
    cases g with
    | none => exact (hpt h.symm).elim
    | some digits' =>
      have hr : digits ++ Exponent.text a = digits' ++ Exponent.text b := (List.cons.inj h).2
      obtain ⟨htk, hdr⟩ := span_digits (hf digits rfl) (Exponent.not_digit a)
      obtain ⟨htk', hdr'⟩ := span_digits (hg digits' rfl) (Exponent.not_digit b)
      refine ⟨congrArg some ?_, Exponent.text_injective ?_⟩
      · rw [← htk, hr, htk']
      · rw [← hdr, hr, hdr']

lemma DecimalText.text_injective {s t : DecimalText} (h : s.text = t.text) : s = t := by
  obtain ⟨hsg, hbo⟩ := Sign.text_append_injective s.unsigned_body t.unsigned_body h
  obtain ⟨htk, hdr⟩ := span_digits s.isWhole s.head_pointText
  obtain ⟨htk', hdr'⟩ := span_digits t.isWhole t.head_pointText
  have hwh : s.whole = t.whole := by rw [← htk, hbo, htk']
  have hr : pointText s.fraction ++ Exponent.text s.exponent =
      pointText t.fraction ++ Exponent.text t.exponent := by rw [← hdr, hbo, hdr']
  obtain ⟨hfrac, hexp⟩ := pointText_append_injective s.isFraction t.isFraction hr
  obtain ⟨sign, whole, fraction, exponent, _, _, _⟩ := s
  obtain ⟨sign', whole', fraction', exponent', _, _, _⟩ := t
  obtain rfl : sign = sign' := hsg
  obtain rfl : whole = whole' := hwh
  obtain rfl : fraction = fraction' := hfrac
  obtain rfl : exponent = exponent' := hexp
  rfl

lemma whole_scaled_iff {m z : Nat} {e : Int} (hdvd : 10 ^ z ∣ m) (hndvd : ¬ 10 ^ (z + 1) ∣ m) :
    (∃ n : Int, (m : Rat) * 10 ^ e = n) ↔ 0 ≤ e + z := by
  obtain ⟨k, rfl⟩ := hdvd
  have hten : (10 : Rat) ≠ 0 := by norm_num
  have hsca : ((10 ^ z * k : Nat) : Rat) * 10 ^ e = k * 10 ^ (e + z) := by
    rw [zpow_add₀ hten, zpow_natCast]
    push_cast
    ring
  rw [hsca]
  constructor
  · rintro ⟨n, hn⟩
    by_contra hneg
    obtain ⟨j, hj⟩ : ∃ j : Nat, e + z = -(j + 1 : Nat) := ⟨(-(e + z) - 1).toNat, by omega⟩
    rw [hj, zpow_neg, zpow_natCast] at hn
    have hk : (k : Rat) = n * 10 ^ (j + 1) := by
      field_simp at hn
      rw [hn, mul_comm]
    have hint : (k : Int) = n * 10 ^ (j + 1) := by exact_mod_cast hk
    have hk10 : (10 : Int) ∣ k := by
      rw [hint]
      exact ⟨n * 10 ^ j, by ring⟩
    have hk10' : 10 ∣ k := by exact_mod_cast hk10
    obtain ⟨l, rfl⟩ := hk10'
    exact hndvd ⟨l, by ring⟩
  · intro h
    obtain ⟨j, hj⟩ := Int.eq_ofNat_of_zero_le h
    refine ⟨k * 10 ^ j, ?_⟩
    rw [hj]
    push_cast
    rfl

lemma DecimalText.whole_iff :
    (∃ n : Int, s.value = n) ↔ number s.digits = 0 ∨ 0 ≤ s.scale + zeros s.digits := by
  by_cases hz : number s.digits = 0
  · refine iff_of_true ⟨0, ?_⟩ (.inl hz)
    simp [value, hz]
  · obtain ⟨hdvd, hndvd⟩ := pow_zeros_dvd s.isDigits hz
    rw [or_iff_right hz, ← whole_scaled_iff hdvd hndvd]
    rcases Sign.factor_eq s.sign with hfac | hfac
    · simp [value, hfac]
    · constructor
      · rintro ⟨n, hn⟩
        refine ⟨-n, ?_⟩
        rw [value, hfac] at hn
        push_cast at hn ⊢
        rw [← hn]
        ring
      · rintro ⟨n, hn⟩
        refine ⟨-n, ?_⟩
        rw [value, hfac]
        push_cast
        rw [← hn]
        ring

end Numeral
