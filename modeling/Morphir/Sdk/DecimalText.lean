import Morphir.Library.Numeral
import Morphir.Sdk.DecimalArithmetic

/-!
# Text of decimals

A canonical decimal is read back from its own text: the digits of its coefficient,
with zeros behind them or a point among them.
-/

namespace Morphir.Sdk

open Fallible Rounding List Nat

namespace Decimal

variable {d : Decimal}

lemma normalize_scaled (hd : d.Canonical) (hne : d.coefficient ≠ 0) (j : Nat)
    (hfl : -32 ≤ d.exponent - j) : normalize (d.coefficient * 10 ^ j) (d.exponent - j) = .ok d := by
  have hrg := hd.range
  have hl (k : Nat) (hk : (10 : Int) ^ k ∣ d.coefficient * 10 ^ j) : k ≤ j := by
    by_contra hlt
    obtain ⟨i, rfl⟩ := Nat.exists_eq_add_of_lt (Nat.lt_of_not_le hlt)
    rw [show j + i + 1 = (i + 1) + j by omega, pow_add] at hk
    have hdvd := Int.dvd_of_mul_dvd_mul_right (by positivity : (10 : Int) ^ j ≠ 0) hk
    exact hd.nonzero hne ((Dvd.intro_left _ (pow_succ _ _).symm).trans hdvd)
  have hnor : Normalizes (d.coefficient * 10 ^ j) (d.exponent - j) := by
    refine ⟨⟨by omega, by omega⟩, .inl ?_⟩
    rw [floored, if_neg (by omega)]
    intro k hk
    have := hl k hk
    omega
  obtain ⟨r, hr, hval, hreg⟩ := normalize_spec hnor
  have hcan : r.Canonical := hreg.resolve_right fun hlow => absurd hlow.2 (by omega)
  have hsm : r.value = d.value := by
    rw [hval, cut_of_floor hfl, value, zpow_sub₀ (by norm_num), zpow_natCast]
    push_cast
    field_simp
  rw [hr, hcan.ext_value hd hsm]

lemma isDigit_iff {c : Char} : isDigit c = true ↔ c.isDigit = true := by
  simp [isDigit, Char.isDigit, Char.le_def]

variable {text : List Char}

lemma allDigits_iff :
    allDigits text = true ↔ text ≠ [] ∧ ∀ c ∈ text, c.isDigit = true := by
  simp [allDigits, isDigit_iff]

lemma notMem_of_digits (h : ∀ c ∈ text, c.isDigit = true) {c : Char} (hc : c.isDigit = false) :
    c ∉ text := by
  intro hmem
  rw [h c hmem] at hc
  cases hc

def minus (negative : Bool) : List Char := if negative then ['-'] else []

variable (negative : Bool)

lemma signed_minus (h : text.head? ≠ some '-') :
    signed (minus negative ++ text) = (negative, text) := by
  cases negative with
  | true => rfl
  | false =>
    cases text with
    | nil => rfl
    | cons c text =>
      unfold signed
      split
      · rename_i heq
        obtain ⟨rfl, _⟩ := List.cons.inj heq
        exact absurd rfl h
      · rfl

lemma head_ne_minus (h : ∀ c ∈ text, c.isDigit = true) (rest : List Char) (hne : text ≠ []) :
    (text ++ rest).head? ≠ some '-' := by
  cases text with
  | nil => exact absurd rfl hne
  | cons c text =>
    intro heq
    have hc := h c mem_cons_self
    rw [Option.some.inj heq] at hc
    cases hc

lemma readParts_whole {whole : List Char} (h : allDigits whole = true) :
    readParts (String.ofList (minus negative ++ whole)) =
      some (readInteger negative whole, 0) := by
  obtain ⟨hne, hds⟩ := allDigits_iff.mp h
  have hsig := signed_minus negative (by simpa using head_ne_minus hds [] hne)
  have he : whole.splitOn 'e' = [whole] := splitOn_eq_singleton (notMem_of_digits hds (by decide))
  have hpt : whole.splitOn '.' = [whole] := splitOn_eq_singleton (notMem_of_digits hds (by decide))
  simp [readParts, hsig, he, readMantissa, hpt, h, wrap]

lemma readParts_point {whole fraction : List Char} (h : allDigits whole = true)
    (h' : allDigits fraction = true) :
    readParts (String.ofList (minus negative ++ (whole ++ '.' :: fraction))) =
      some (readInteger negative (whole ++ fraction), wrap (0 - fraction.length)) := by
  obtain ⟨hne, hds⟩ := allDigits_iff.mp h
  obtain ⟨_, hds'⟩ := allDigits_iff.mp h'
  have hsig := signed_minus negative (head_ne_minus hds ('.' :: fraction) hne)
  have he : (whole ++ '.' :: fraction).splitOn 'e' = [whole ++ '.' :: fraction] := by
    refine splitOn_eq_singleton fun hmem => ?_
    rcases mem_append.mp hmem with hmem | hmem
    · exact notMem_of_digits hds (by decide) hmem
    · rcases mem_cons.mp hmem with hmem | hmem
      · cases hmem
      · exact notMem_of_digits hds' (by decide) hmem
  have hpt : (whole ++ '.' :: fraction).splitOn '.' = [whole, fraction] := by
    rw [splitOn_append_cons_self_of_not_mem (notMem_of_digits hds (by decide)),
      splitOn_eq_singleton (notMem_of_digits hds' (by decide))]
  simp [readParts, hsig, he, readMantissa, hpt, h, h']

lemma toString_eq (hne : d.coefficient ≠ 0) :
    ∃ negative digits, allDigits digits = true ∧
      (∀ zeros more, readInteger negative
        (List.replicate zeros '0' ++ digits ++ List.replicate more '0') =
          d.coefficient * 10 ^ more) ∧
      toString d =
        if 0 ≤ d.exponent then
          String.ofList (minus negative ++ digits ++ List.replicate d.exponent.toNat '0')
        else if 0 < digits.length + d.exponent then
          String.ofList (minus negative ++ digits.take (digits.length + d.exponent).toNat ++ ['.'] ++
            digits.drop (digits.length + d.exponent).toNat)
        else
          String.ofList (minus negative ++ ['0', '.'] ++
            List.replicate (-(digits.length + d.exponent)).toNat '0' ++ digits) := by
  refine ⟨decide (d.coefficient < 0), toDigits 10 (absolute d.coefficient).toNat, ?_, ?_, ?_⟩
  · exact allDigits_iff.mpr ⟨toDigits_ne_nil, fun c hc =>
      isDigit_of_mem_toDigits (by decide) (by decide) hc⟩
  · intro zeros more
    have hsz : ofDigitChars 10 (List.replicate zeros '0' ++
        toDigits 10 (absolute d.coefficient).toNat ++ List.replicate more '0') 0 =
        10 ^ more * (absolute d.coefficient).toNat := by
      rw [ofDigitChars_append, ofDigitChars_append, ofDigitChars_replicate_zero,
        ofDigitChars_replicate_zero, mul_zero, ofDigitChars_ten_toDigits]
    simp only [readInteger, hsz, decide_eq_true_eq]
    unfold absolute
    split
    · push_cast
      rw [Int.toNat_of_nonneg (by omega)]
      ring
    · push_cast
      rw [Int.toNat_of_nonneg (by omega)]
      ring
  · simp only [toString, if_neg hne, minus, decide_eq_true_eq]

lemma fromString_toString (hd : d.Canonical) : fromString (toString d) = .ok (some d) := by
  by_cases hz : d.coefficient = 0
  · obtain ⟨coefficient, exponent⟩ := d
    obtain rfl : coefficient = 0 := hz
    obtain rfl : exponent = 0 := hd.zero rfl
    rfl
  · obtain ⟨negative, digits, hds, hrd, ht⟩ := toString_eq hz
    obtain ⟨hne, hall⟩ := allDigits_iff.mp hds
    have hfl := hd.floor
    have hread₀ := hrd 0 0
    simp only [replicate_zero, nil_append, append_nil, pow_zero, mul_one] at hread₀
    have hsca := normalize_scaled hd hz 0 (by omega)
    rw [pow_zero, mul_one, cast_zero, sub_zero] at hsca
    rw [ht]
    split
    · rename_i hnon
      have hrd' := hrd 0 d.exponent.toNat
      rw [replicate_zero, nil_append] at hrd'
      have hwh : allDigits (digits ++ List.replicate d.exponent.toNat '0') = true := by
        refine allDigits_iff.mpr ⟨by simp [hne], fun c hc => ?_⟩
        rcases mem_append.mp hc with hc | hc
        · exact hall c hc
        · rw [eq_of_mem_replicate hc]
          decide
      have hnor := normalize_scaled hd hz d.exponent.toNat (by omega)
      rw [Int.toNat_of_nonneg hnon, sub_self] at hnor
      rw [append_assoc, fromString, readParts_whole negative hwh, hrd']
      dsimp only
      rw [hnor]
      rfl
    · split
      · have hwh : allDigits (digits.take (digits.length + d.exponent).toNat) = true :=
          allDigits_iff.mpr ⟨by simp [hne]; omega, fun c hc => hall c (mem_of_mem_take hc)⟩
        have hfrac : allDigits (digits.drop (digits.length + d.exponent).toNat) = true :=
          allDigits_iff.mpr ⟨by simp; omega, fun c hc => hall c (mem_of_mem_drop hc)⟩
        have hlen : (0 : Int) - (digits.drop (digits.length + d.exponent).toNat).length =
            d.exponent := by
          rw [length_drop]
          omega
        rw [append_assoc, append_assoc, singleton_append, fromString,
          readParts_point negative hwh hfrac, take_append_drop, hread₀, hlen,
          wrap_of_inRange ⟨by omega, by omega⟩]
        dsimp only
        rw [hsca]
        rfl
      · have hfrac : allDigits
            (List.replicate (-(digits.length + d.exponent)).toNat '0' ++ digits) = true := by
          refine allDigits_iff.mpr ⟨by simp [hne], fun c hc => ?_⟩
          rcases mem_append.mp hc with hc | hc
          · rw [eq_of_mem_replicate hc]
            decide
          · exact hall c hc
        have hrd' := hrd ((-(digits.length + d.exponent)).toNat + 1) 0
        rw [replicate_zero, append_nil, replicate_succ, pow_zero, mul_one] at hrd'
        have hlen : (0 : Int) - (List.replicate (-(digits.length + d.exponent)).toNat '0' ++
            digits).length = d.exponent := by
          rw [length_append, length_replicate]
          push_cast
          omega
        rw [append_assoc, append_assoc, cons_append, cons_append, nil_append]
        change fromString (String.ofList (minus negative ++ (['0'] ++ '.' :: _))) = _
        rw [fromString, readParts_point negative (by decide) hfrac]
        dsimp only
        rw [singleton_append, ← cons_append, hrd', hlen, wrap_of_inRange ⟨by omega, by omega⟩, hsca]
        rfl

end Decimal

end Morphir.Sdk

/-!
## The grammar of decimal texts

`from_string` reads the decimal spellings with digits before the point, and behind it when
there is one, with no plus sign; in scientific notation one digit stands before the point and
the last one behind it is no zero.
-/

namespace Morphir.Sdk.Decimal

open List Option

open Numeral (DecimalText Exponent Sign IsDigits number)
open Numeral.DecimalText (pointText)

structure Classic (s : DecimalText) : Prop where
  sign : s.sign ≠ some .plus
  whole : s.whole ≠ []
  fraction : s.fraction ≠ some []
  scientific : ∀ e ∈ s.exponent, e.mark = 'e' ∧ e.sign ≠ some .plus ∧ s.whole.length = 1 ∧
    s.places.getLast? ≠ some '0'

def signOf (negative : Bool) : Option Sign := if negative then some .minus else none

variable (negative : Bool)

lemma text_signOf : Sign.text (signOf negative) = minus negative := by cases negative <;> rfl

lemma signOf_ne_plus : signOf negative ≠ some .plus := by cases negative <;> nofun

lemma exists_signOf {sign : Option Sign} (h : sign ≠ some .plus) :
    ∃ negative, sign = signOf negative := by
  match sign with
  | none => exact ⟨false, rfl⟩
  | some .minus => exact ⟨true, rfl⟩
  | some .plus => exact absurd rfl h

lemma readInteger_eq (digits : List Char) :
    readInteger negative digits = Sign.factor (signOf negative) * number digits := by
  cases negative with
  | false => exact (one_mul _).symm
  | true => exact (neg_one_mul _).symm

variable {text : List Char}

lemma signed_eq {unsigned : List Char} {negative : Bool} (h : signed text = (negative, unsigned))
    : text = minus negative ++ unsigned := by
  unfold signed at h
  split at h
  · cases h
    rfl
  · cases h
    rfl

variable {c : Char}

lemma eq_of_splitOn {part : List Char} (h : text.splitOn c = [part]) : text = part := by
  have hjn : [c].intercalate (text.splitOn c) = text := intercalate_splitOn c
  rw [h] at hjn
  simpa using hjn.symm

lemma eq_append_of_splitOn {before after : List Char} (h : text.splitOn c = [before, after]) :
    text = before ++ c :: after := by
  have hjn : [c].intercalate (text.splitOn c) = text := intercalate_splitOn c
  rw [h] at hjn
  simpa using hjn.symm

lemma splitOn_pair {before after : List Char} (hpre : c ∉ before) (haft : c ∉ after) :
    (before ++ c :: after).splitOn c = [before, after] := by
  rw [splitOn_append_cons_self_of_not_mem hpre, splitOn_eq_singleton haft]

lemma notMem_pointText {fraction : Option (List Char)} (h : ∀ digits ∈ fraction, IsDigits digits)
    (hc : c.isDigit = false) (hpt : c ≠ '.') : c ∉ pointText fraction := by
  cases fraction with
  | none => exact not_mem_nil
  | some digits =>
    intro hmem
    rcases mem_cons.mp hmem with rfl | hmem
    · exact hpt rfl
    · exact notMem_of_digits (h digits rfl) hc hmem

lemma readMantissa_iff {whole places : List Char} {scientific : Bool} :
    readMantissa text scientific = some (whole, places) ↔
      ∃ fraction : Option (List Char), text = whole ++ pointText fraction ∧
        places = fraction.getD [] ∧ IsDigits whole ∧ (∀ digits ∈ fraction, IsDigits digits) ∧
        whole ≠ [] ∧ fraction ≠ some [] ∧
        (scientific = true → whole.length = 1 ∧ places.getLast? ≠ some '0') := by
  constructor
  · intro h
    unfold readMantissa at h
    split at h
    next w hspl =>
      split at h
      next hg =>
        obtain ⟨rfl, rfl⟩ := Prod.mk.inj (Option.some.inj h)
        obtain ⟨hds, hone⟩ := hg
        obtain ⟨hne, hall⟩ := allDigits_iff.mp hds
        refine ⟨none, ?_, rfl, hall, nofun, hne, nofun, fun hs => ⟨hone hs, nofun⟩⟩
        rw [eq_of_splitOn hspl]
        exact (append_nil _).symm
      next => cases h
    next w f hspl =>
      split at h
      next hg =>
        obtain ⟨rfl, rfl⟩ := Prod.mk.inj (Option.some.inj h)
        obtain ⟨hwh, hfrac, hone⟩ := hg
        obtain ⟨hne, hall⟩ := allDigits_iff.mp hwh
        obtain ⟨hne', hall'⟩ := allDigits_iff.mp hfrac
        refine ⟨some f, eq_append_of_splitOn hspl, rfl, hall, ?_, hne, ?_, hone⟩
        · rintro _ ⟨⟩
          exact hall'
        · rintro ⟨⟩
          exact hne' rfl
      next => cases h
    next => cases h
  · rintro ⟨fraction, rfl, rfl, hwh, hfrac, hne, hne', hone⟩
    have hpt : '.' ∉ whole := notMem_of_digits hwh (by decide)
    have hall : allDigits whole = true := allDigits_iff.mpr ⟨hne, hwh⟩
    cases fraction with
    | none =>
      rw [pointText, append_nil, readMantissa, splitOn_eq_singleton hpt]
      exact if_pos ⟨hall, fun hs => (hone hs).1⟩
    | some digits =>
      have hds := hfrac digits rfl
      have hnon : digits ≠ [] := fun hnil => hne' (congrArg some hnil)
      rw [pointText, readMantissa, splitOn_pair hpt (notMem_of_digits hds (by decide))]
      exact if_pos ⟨hall, allDigits_iff.mpr ⟨hnon, hds⟩, hone⟩

lemma readExponent_iff {value : Int} :
    readExponent text = some value ↔
      ∃ negative digits, text = minus negative ++ digits ∧ digits ≠ [] ∧ IsDigits digits ∧
        value = readInteger negative digits ∧ -32 ≤ value ∧ value ≤ 2147483647 := by
  constructor
  · intro h
    unfold readExponent at h
    cases hsig : signed text with
    | mk negative digits =>
      rw [hsig] at h
      dsimp only at h
      split at h
      next hg =>
        cases h
        obtain ⟨hall, -, hhi, hlow⟩ := hg
        obtain ⟨hne, hds⟩ := allDigits_iff.mp hall
        exact ⟨negative, digits, signed_eq hsig, hne, hds, rfl, hlow, hhi⟩
      next => cases h
  · rintro ⟨negative, digits, rfl, hne, hds, rfl, hlow, hhi⟩
    have hh := head_ne_minus hds [] hne
    rw [append_nil] at hh
    rw [readExponent, signed_minus negative hh]
    exact if_pos ⟨allDigits_iff.mpr ⟨hne, hds⟩, by omega, hhi, hlow⟩

lemma readParts_iff {text : String} {coefficient exponent : Int} :
    readParts text = some (coefficient, exponent) ↔
      ∃ s : DecimalText, s.text = text.toList ∧ Classic s ∧ -32 ≤ Exponent.value s.exponent ∧
        Exponent.value s.exponent ≤ 2147483647 ∧
        coefficient = Sign.factor s.sign * number s.digits ∧ exponent = wrap s.scale := by
  constructor
  · intro h
    unfold readParts at h
    cases hsig : signed text.toList with
    | mk negative unsigned =>
      rw [hsig] at h
      dsimp only at h
      split at h
      next mantissa hspl =>
        obtain ⟨⟨whole, places⟩, hman, hpts⟩ := map_eq_some_iff.mp h
        obtain ⟨fraction, rfl, rfl, hwh, hfrac, hne, hne', -⟩ := readMantissa_iff.mp hman
        cases hpts
        refine ⟨⟨signOf negative, whole, fraction, none, hwh, hfrac, Or.inl hne⟩, ?_,
          ⟨signOf_ne_plus negative, hne, hne', by simp⟩, ?_, ?_, readInteger_eq negative _, rfl⟩
        · rw [signed_eq hsig, eq_of_splitOn hspl, DecimalText.text, text_signOf,
            Exponent.text, append_nil]
        · exact Int.neg_nonpos_of_nonneg (by decide)
        · exact .intro 2147483647 rfl
      next mantissa digits hspl =>
        obtain ⟨value, hval, h⟩ := bind_eq_some_iff.mp h
        obtain ⟨⟨whole, places⟩, hman, hpts⟩ := map_eq_some_iff.mp h
        obtain ⟨fraction, rfl, rfl, hwh, hfrac, hne, hne', hone⟩ := readMantissa_iff.mp hman
        obtain ⟨negative', digits, rfl, hds, hall, rfl, hlow, hhi⟩ := readExponent_iff.mp hval
        cases hpts
        have hval' := readInteger_eq negative' digits
        refine ⟨⟨signOf negative, whole, fraction,
          some ⟨'e', signOf negative', digits, Or.inl rfl, hall, hds⟩, hwh, hfrac,
          Or.inl hne⟩, ?_, ⟨signOf_ne_plus negative, hne, hne', ?_⟩, ?_, ?_,
          readInteger_eq negative _, ?_⟩
        · rw [signed_eq hsig, eq_append_of_splitOn hspl, DecimalText.text, text_signOf,
            Exponent.text, text_signOf, append_assoc]
        · rintro e ⟨⟩
          exact ⟨rfl, signOf_ne_plus negative', hone rfl⟩
        · rw [Exponent.value, ← hval']
          exact hlow
        · rw [Exponent.value, ← hval']
          exact hhi
        · rw [hval']
          rfl
      next => cases h
  · rintro ⟨s, ht, hs, hlow, hhi, rfl, rfl⟩
    obtain ⟨negative, hneg⟩ := exists_signOf hs.sign
    have hpoi : 'e' ∉ s.whole ++ pointText s.fraction := by
      intro hmem
      rcases mem_append.mp hmem with hmem | hmem
      · exact notMem_of_digits s.isWhole (by decide) hmem
      · exact notMem_pointText s.isFraction (by decide) (by decide) hmem
    have hsig : signed text.toList =
        (negative, s.whole ++ (pointText s.fraction ++ Exponent.text s.exponent)) := by
      rw [← ht, DecimalText.text, hneg, text_signOf]
      exact signed_minus negative (head_ne_minus s.isWhole _ hs.whole)
    have hman (scientific : Bool) (hone : scientific = true →
        s.whole.length = 1 ∧ s.places.getLast? ≠ some '0') :
        readMantissa (s.whole ++ pointText s.fraction) scientific = some (s.whole, s.places) :=
      readMantissa_iff.mpr
        ⟨s.fraction, rfl, rfl, s.isWhole, s.isFraction, hs.whole, hs.fraction, hone⟩
    have hcoef : readInteger negative (s.whole ++ s.places) =
        Sign.factor s.sign * number s.digits := by
      rw [readInteger_eq, hneg]
      rfl
    unfold readParts
    rw [hsig]
    dsimp only
    cases hexp : s.exponent with
    | none =>
      rw [Exponent.text, append_nil, splitOn_eq_singleton hpoi]
      dsimp only
      rw [hman false (by simp), map_some, hcoef, DecimalText.scale, hexp, Exponent.value]
    | some e =>
      obtain ⟨hmk, hplus, hone⟩ := hs.scientific e hexp
      obtain ⟨negative', hneg'⟩ := exists_signOf hplus
      have hds : 'e' ∉ minus negative' ++ e.digits := by
        intro hmem
        rcases mem_append.mp hmem with hmem | hmem
        · revert hmem
          cases negative' <;> decide
        · exact notMem_of_digits e.isDigits (by decide) hmem
      have hval : Exponent.value s.exponent = readInteger negative' e.digits := by
        rw [hexp, Exponent.value, readInteger_eq, hneg']
      rw [hval] at hlow hhi
      have hrd : readExponent (minus negative' ++ e.digits) =
          some (readInteger negative' e.digits) :=
        readExponent_iff.mpr ⟨negative', e.digits, rfl, e.nonempty, e.isDigits, rfl, hlow, hhi⟩
      rw [Exponent.text, hmk, hneg', text_signOf, ← append_assoc, splitOn_pair hpoi hds]
      dsimp only
      rw [hrd, bind_some, hman true fun _ => hone, map_some, hcoef, DecimalText.scale, hval]

end Morphir.Sdk.Decimal
