import Morphir.Library.CodeUnits
import Morphir.Sdk.DecimalText

/-!
# Exact decimals

`from_string_exact` refuses the texts that `from_string` cuts.  What it returns is the number
that the text spells.
-/

namespace Morphir.Sdk

open List Nat CodeUnits Int

open Numeral (DecimalText Exponent Sign IsDigits number)

instance (n : Int) : Decidable (InRange n) :=
  inferInstanceAs (Decidable (-2147483648 ≤ n ∧ n ≤ 2147483647))

inductive DecimalError
  | divisionByZero
  | underflow
  | precisionLoss
  | invalidLiteral
  deriving DecidableEq

/-- Why a text is no exact decimal: an error is raised, or the program is stopped. -/
inductive ExactStop
  | raised (error : DecimalError)
  | aborted (message : String)
  deriving DecidableEq

namespace Decimal

def writtenExponent (parseInt : List Char → Option Int) (parts : List (List Char)) : Option Int :=
  match parts with
  | [_, exponent] => parseInt exponent
  | _ => some 0

def writtenFraction (mantissa : List Char) : List Char :=
  match mantissa.splitOn '.' with
  | [_, fraction] => fraction
  | _ => []

def keepsDigits (fraction : List Char) (exponent : Int) : Bool :=
  let belowFloor := fraction.length - exponent - 32
  if 0 < belowFloor then (fraction.drop (fraction.length - belowFloor).toNat).all (· = '0')
  else true

def aborts {α : Type} : Except String α → Except ExactStop α
  | .ok a => .ok a
  | .error message => .error (.aborted message)

def fromStringExact (parseInt : List Char → Option Int) (text : String) :
    Except ExactStop Decimal :=
  if 4096 < (CodeUnits.ofChars text.toList).length then .error (.raised .invalidLiteral)
  else
    let parts := text.toList.splitOn 'e'
    if 2 < parts.length then .error (.raised .invalidLiteral)
    else
      match writtenExponent parseInt parts with
      | none => .error (.raised .invalidLiteral)
      | some exponent =>
        if exponent < -32 ∨ 4096 < exponent then .error (.raised .invalidLiteral)
        else do
          match ← aborts (fromString text) with
          | none => .error (.raised .invalidLiteral)
          | some value =>
            if ¬ keepsDigits (writtenFraction (parts.headD [])) exponent then
              .error (.raised .precisionLoss)
            else if value.coefficient = 0 then aborts zero
            else pure value

lemma number_lt {digits : List Char} (h : IsDigits digits) :
    number digits < 10 ^ digits.length := by
  induction digits using List.reverseRecOn with
  | nil => exact one_pos
  | append_singleton digits c ih =>
    have hlt := ih fun d hd => h d (mem_append_left _ hd)
    have hc := Numeral.digit_lt (h c (by simp))
    rw [Numeral.number_append_singleton, length_append, length_singleton]
    omega

lemma number_append_zeros (digits : List Char) (n : Nat) :
    number (digits ++ List.replicate n '0') = number digits * 10 ^ n := by
  unfold number
  rw [ofDigitChars_append, ofDigitChars_replicate_zero, mul_comm]

lemma length_le_units (chars : List Char) : chars.length ≤ (ofChars chars).length := by
  induction chars with
  | nil => exact le_refl _
  | cons c chars ih =>
    have hpos := length_ofChar_pos c
    rw [ofChars_cons, length_append, length_cons]
    omega

lemma normalizes_of_digits {coefficient exponent : Int} {n : Nat}
    (hcoef : coefficient.natAbs < 10 ^ n) (hn : n ≤ 1000000000) (hlow : -1000000000 ≤ exponent)
    (hhi : exponent ≤ 1000000000) : Normalizes coefficient exponent := by
  have hstr : ∀ (q e : Int), q.natAbs ≤ coefficient.natAbs → e ≤ 1000000000 → q ≠ 0 →
      Strips q e := by
    intro q e hq he hne k hk
    have hdvd : 10 ^ k ∣ q.natAbs := by
      have habs := natAbs_dvd_natAbs.mpr hk
      rwa [natAbs_pow] at habs
    have hle : 10 ^ k ≤ q.natAbs := le_of_dvd (natAbs_pos.mpr hne) hdvd
    have hlt : (10 : Nat) ^ k < 10 ^ n := by omega
    have hk' : k < n := (Nat.pow_lt_pow_iff_right (by decide)).mp hlt
    omega
  refine ⟨⟨by omega, by omega⟩, ?_⟩
  by_cases hz : (floored coefficient exponent).1 = 0
  · exact Or.inr hz
  · refine Or.inl (hstr _ _ ?_ ?_ hz)
    · unfold floored
      split
      · rw [natAbs_tdiv]
        exact div_le_self _ _
      · exact le_refl _
    · unfold floored
      split
      · exact (by decide : (-32 : Int) ≤ 1000000000)
      · exact hhi

open Numeral.DecimalText (pointText)

/-- A reader of integers reads the digits of a 32-bit integer with or without a minus sign. -/
def ReadsIntegers (parseInt : List Char → Option Int) : Prop :=
  ∀ negative digits, digits ≠ [] → IsDigits digits →
    parseInt (minus negative ++ digits) =
      if InRange (readInteger negative digits) then some (readInteger negative digits) else none

variable {s : DecimalText}

lemma Classic.marks (hs : Classic s) : ∀ e ∈ s.exponent, e.mark = 'e' :=
  fun e he => (hs.scientific e he).1

lemma notMem_sign {sign : Option Sign} {c : Char} (hc : c ≠ '+' ∧ c ≠ '-') :
    c ∉ Sign.text sign := by
  match sign with
  | none => exact not_mem_nil
  | some .plus => exact fun hmem => hc.1 (mem_singleton.mp hmem)
  | some .minus => exact fun hmem => hc.2 (mem_singleton.mp hmem)

lemma splitOn_text (hs : ∀ e ∈ s.exponent, e.mark = 'e') :
    s.text.splitOn 'e' = (Sign.text s.sign ++ (s.whole ++ pointText s.fraction)) ::
      match s.exponent with
      | none => []
      | some e => [Sign.text e.sign ++ e.digits] := by
  have hman : 'e' ∉ Sign.text s.sign ++ (s.whole ++ pointText s.fraction) := by
    simp only [mem_append, not_or]
    exact ⟨notMem_sign (by decide), notMem_of_digits s.isWhole (by decide),
      notMem_pointText s.isFraction (by decide) (by decide)⟩
  cases hexp : s.exponent with
  | none => rw [DecimalText.text, hexp, Exponent.text, append_nil, splitOn_eq_singleton hman]
  | some e =>
    have hds : 'e' ∉ Sign.text e.sign ++ e.digits := by
      simp only [mem_append, not_or]
      exact ⟨notMem_sign (by decide), notMem_of_digits e.isDigits (by decide)⟩
    rw [DecimalText.text, hexp, Exponent.text, hs e hexp, ← append_assoc, ← append_assoc,
      append_assoc (Sign.text s.sign), splitOn_pair hman hds]

lemma writtenFraction_text (s : DecimalText) :
    writtenFraction (Sign.text s.sign ++ (s.whole ++ pointText s.fraction)) = s.places := by
  have hwh : '.' ∉ Sign.text s.sign ++ s.whole := by
    simp only [mem_append, not_or]
    exact ⟨notMem_sign (by decide), notMem_of_digits s.isWhole (by decide)⟩
  rw [← append_assoc, writtenFraction, DecimalText.places]
  cases hfrac : s.fraction with
  | none => rw [pointText, append_nil, splitOn_eq_singleton hwh, Option.getD_none]
  | some digits =>
    have hds := s.isFraction digits hfrac
    rw [pointText, splitOn_pair hwh (notMem_of_digits hds (by decide)), Option.getD_some]

variable {parseInt : List Char → Option Int}

lemma writtenExponent_text (hprs : ReadsIntegers parseInt) (hs : Classic s) :
    writtenExponent parseInt (s.text.splitOn 'e') =
      if InRange (Exponent.value s.exponent) then some (Exponent.value s.exponent) else none := by
  rw [splitOn_text hs.marks]
  cases hexp : s.exponent with
  | none => exact (if_pos ⟨by decide, by decide⟩).symm
  | some e =>
    obtain ⟨negative, hneg⟩ := exists_signOf (hs.scientific e hexp).2.1
    rw [writtenExponent, hneg, text_signOf, hprs negative e.digits e.nonempty e.isDigits,
      readInteger_eq, Exponent.value, hneg]

/-- The digits of a fraction that stand for less than the floor are zeros. -/
def FloorZeros (fraction : List Char) (exponent : Int) : Prop :=
  ∀ (i : Nat) (c : Char), fraction[i]? = some c → exponent - (i + 1) < -32 → c = '0'

lemma keepsDigits_iff {fraction : List Char} {exponent : Int} (h : -32 ≤ exponent) :
    keepsDigits fraction exponent = true ↔ FloorZeros fraction exponent := by
  unfold keepsDigits FloorZeros
  dsimp only
  split
  next hbe =>
    rw [show (fraction.length - (fraction.length - exponent - 32) : Int) = exponent + 32 by ring,
      all_eq_true]
    constructor
    · intro hall i c hc hlow
      have hmem : c ∈ fraction.drop (exponent + 32).toNat := by
        rw [mem_iff_getElem?]
        refine ⟨i - (exponent + 32).toNat, ?_⟩
        rw [List.getElem?_drop, ← hc]
        congr 1
        omega
      exact of_decide_eq_true (hall c hmem)
    · intro hzeros c hmem
      obtain ⟨i, hi⟩ := mem_iff_getElem?.mp hmem
      rw [List.getElem?_drop] at hi
      exact decide_eq_true (hzeros _ c hi (by omega))
  next hbe =>
    refine ⟨fun _ i c hc hlow => ?_, fun _ => rfl⟩
    obtain ⟨hlt, -⟩ := List.getElem?_eq_some_iff.mp hc
    omega

lemma FloorZeros.scaled (hlow : -32 ≤ Exponent.value s.exponent)
    (h : FloorZeros s.places (Exponent.value s.exponent)) :
    ∃ kept more : Nat, number s.digits = kept * 10 ^ more ∧ -32 ≤ s.scale + more := by
  unfold DecimalText.scale
  generalize Exponent.value s.exponent = exponent at h hlow ⊢
  by_cases hfi : s.places.length ≤ exponent + 32
  · refine ⟨number s.digits, 0, ?_, by omega⟩
    rw [pow_zero, mul_one]
  · obtain ⟨n, hn⟩ := eq_ofNat_of_zero_le (show 0 ≤ exponent + 32 by omega)
    have hzeros : s.places.drop n = List.replicate (s.places.length - n) '0' := by
      rw [eq_replicate_iff, length_drop]
      refine ⟨rfl, ?_⟩
      intro c hmem
      obtain ⟨i, hi⟩ := mem_iff_getElem?.mp hmem
      rw [List.getElem?_drop] at hi
      exact h _ c hi (by omega)
    refine ⟨number (s.whole ++ s.places.take n), s.places.length - n, ?_, by omega⟩
    rw [← number_append_zeros, ← hzeros, append_assoc, take_append_drop]
    rfl

lemma value_eq_scaled (s : DecimalText) :
    s.value = ((Sign.factor s.sign * number s.digits : Int) : ℚ) * 10 ^ s.scale := by
  push_cast
  rfl

lemma cut_of_floorZeros (hlow : -32 ≤ Exponent.value s.exponent)
    (h : FloorZeros s.places (Exponent.value s.exponent)) : Rounding.cut 32 s.value = s.value := by
  obtain ⟨kept, more, hnum, hfl⟩ := h.scaled hlow
  have hval : s.value = ((Sign.factor s.sign * kept : Int) : ℚ) * 10 ^ (s.scale + more) := by
    rw [value_eq_scaled, hnum, zpow_add₀ (by norm_num), zpow_natCast]
    push_cast
    ring
  rw [hval, cut_of_floor hfl]

structure Exact (s : DecimalText) : Prop where
  classic : Classic s
  low : -32 ≤ Exponent.value s.exponent
  high : Exponent.value s.exponent ≤ 4096
  zeros : FloorZeros s.places (Exponent.value s.exponent)

lemma normalize_text (hlen : s.text.length ≤ 4096) (hlow : -32 ≤ Exponent.value s.exponent)
    (hhi : Exponent.value s.exponent ≤ 4096) :
    ∃ value, normalize (Sign.factor s.sign * number s.digits) s.scale = .ok value ∧
      value.value = Rounding.cut 32 s.value := by
  have hds := s.length_text
  have hpla : s.places.length ≤ s.digits.length := by
    rw [DecimalText.digits, length_append]
    exact le_add_left _ _
  have hcoef :
      (Sign.factor s.sign * number s.digits : Int).natAbs < 10 ^ s.digits.length := by
    rw [natAbs_mul]
    rcases Sign.factor_eq s.sign with hfac | hfac
    · rw [hfac, natAbs_one, one_mul]
      exact number_lt s.isDigits
    · rw [hfac, natAbs_neg, natAbs_one, one_mul]
      exact number_lt s.isDigits
  have hscale : -5000 ≤ s.scale ∧ s.scale ≤ 4096 := by
    unfold DecimalText.scale
    omega
  have hnor : Normalizes (Sign.factor s.sign * number s.digits) s.scale :=
    normalizes_of_digits hcoef (by omega) (by omega) (by omega)
  obtain ⟨value, hval, hcut, -⟩ := normalize_spec hnor
  exact ⟨value, hval, by rw [hcut, value_eq_scaled]⟩

lemma fromStringExact_text (hprs : ReadsIntegers parseInt) {text : String}
    (ht : s.text = text.toList) (hs : Classic s) (hlen : (ofChars text.toList).length ≤ 4096) :
    (Exact s → ∃ d, fromStringExact parseInt text = .ok d ∧ d.value = s.value) ∧
      (¬ Exact s → ∀ d, fromStringExact parseInt text ≠ .ok d) := by
  have hchs : s.text.length ≤ 4096 := by
    rw [ht]
    exact le_trans (length_le_units _) hlen
  have hpts : ¬ 2 < (text.toList.splitOn 'e').length := by
    rw [← ht, splitOn_text hs.marks]
    cases s.exponent <;> simp
  have hman : writtenFraction ((text.toList.splitOn 'e').headD []) = s.places := by
    rw [← ht, splitOn_text hs.marks]
    exact writtenFraction_text s
  have hexp := writtenExponent_text hprs hs
  rw [ht] at hexp
  unfold fromStringExact
  rw [if_neg (not_lt.mpr hlen)]
  rw [if_neg hpts, hexp, hman]
  by_cases hrg : -32 ≤ Exponent.value s.exponent ∧ Exponent.value s.exponent ≤ 4096
  · obtain ⟨hlow, hhi⟩ := hrg
    obtain ⟨value, hval, hcut⟩ := normalize_text hchs hlow hhi
    have hscale : InRange s.scale := by
      have hds := s.length_text
      have hpla : s.places.length ≤ s.digits.length := by
        rw [DecimalText.digits, length_append]
        exact le_add_left _ _
      unfold DecimalText.scale
      constructor <;> omega
    have hrd : fromString text = .ok (some value) := by
      have hreadParts := readParts_iff.mpr ⟨s, ht, hs, hlow, by omega, rfl, rfl⟩
      rw [fromString, hreadParts, wrap_of_inRange hscale]
      dsimp only
      rw [hval]
      rfl
    rw [if_pos ⟨by omega, by omega⟩]
    dsimp only
    rw [if_neg (by omega), hrd]
    constructor
    · intro hx
      have hkeeps := (keepsDigits_iff hlow).mpr hx.zeros
      rw [cut_of_floorZeros hlow hx.zeros] at hcut
      simp only [aborts, bind, Except.bind]
      rw [if_neg (not_not.mpr hkeeps)]
      split
      next hz =>
        refine ⟨⟨0, 0⟩, rfl, ?_⟩
        rw [← hcut, value_eq_zero.mpr hz]
        exact value_eq_zero.mpr rfl
      next => exact ⟨value, rfl, hcut⟩
    · intro hx d
      have hcuts : ¬ keepsDigits s.places (Exponent.value s.exponent) = true := fun hkeeps =>
        hx ⟨hs, hlow, hhi, (keepsDigits_iff hlow).mp hkeeps⟩
      simp only [aborts, bind, Except.bind]
      rw [if_pos hcuts]
      simp
  · refine ⟨fun hx => absurd ⟨hx.low, hx.high⟩ hrg, fun _ d => ?_⟩
    split
    · simp
    next exponent hso =>
      split at hso
      · cases hso
        rw [if_pos (by omega)]
        simp
      · cases hso

/-- The texts that are exact decimals are the spellings of the classic grammar that are not too
long, with an exponent in its bounds and zeros below the floor; what is read of one is the
number that it spells. -/
theorem fromStringExact_iff (parseInt : List Char → Option Int) (hprs : ReadsIntegers parseInt)
    (text : String) :
    ((∃ d, fromStringExact parseInt text = .ok d) ↔ (CodeUnits.ofChars text.toList).length ≤ 4096 ∧
        ∃ s : DecimalText, s.text = text.toList ∧ Exact s) ∧
    ∀ d, fromStringExact parseInt text = .ok d →
      ∀ s : DecimalText, s.text = text.toList → d.value = s.value := by
  have hrd : ∀ d, fromStringExact parseInt text = .ok d →
      (ofChars text.toList).length ≤ 4096 ∧
        ∃ s : DecimalText, s.text = text.toList ∧ Exact s ∧ d.value = s.value := by
    intro d hd
    have hlen : (ofChars text.toList).length ≤ 4096 := by
      by_contra hlg
      rw [fromStringExact, if_pos (Nat.lt_of_not_le hlg)] at hd
      cases hd
    refine ⟨hlen, ?_⟩
    cases hpts : readParts text with
    | none =>
      have hno : fromString text = .ok none := by rw [fromString, hpts]
      unfold fromStringExact at hd
      dsimp only at hd
      rw [hno] at hd
      repeat' split at hd
      all_goals cases hd
    | some parts =>
      obtain ⟨s, ht, hs, -⟩ := readParts_iff.mp hpts
      obtain ⟨hx, hine⟩ := fromStringExact_text hprs ht hs hlen
      by_cases h : Exact s
      · obtain ⟨d', hd', hval⟩ := hx h
        obtain rfl := Except.ok.inj (hd.symm.trans hd')
        exact ⟨s, ht, h, hval⟩
      · exact absurd hd (hine h d)
  constructor
  · constructor
    · rintro ⟨d, hd⟩
      obtain ⟨hlen, s, ht, hx, -⟩ := hrd d hd
      exact ⟨hlen, s, ht, hx⟩
    · rintro ⟨hlen, s, ht, hx⟩
      obtain ⟨d, hd, -⟩ := (fromStringExact_text hprs ht hx.classic hlen).1 hx
      exact ⟨d, hd⟩
  · intro d hd s ht
    obtain ⟨-, s', ht', -, hval⟩ := hrd d hd
    rw [hval, DecimalText.text_injective (ht'.trans ht.symm)]

def readInt32 (text : List Char) : Option Int :=
  let (negative, digits) := signed text
  if allDigits digits ∧ InRange (readInteger negative digits) then
    some (readInteger negative digits)
  else none

lemma readsIntegers_readInt32 : ReadsIntegers readInt32 := by
  intro negative digits hne hds
  have hh := head_ne_minus hds [] hne
  rw [append_nil] at hh
  rw [readInt32, signed_minus negative hh]
  have hall : allDigits digits = true := allDigits_iff.mpr ⟨hne, hds⟩
  simp only [hall, true_and]

theorem fromStringExact_iff_point : ∃ d, fromStringExact readInt32 "12.50" = .ok d := by
  apply (fromStringExact_iff readInt32 readsIntegers_readInt32 "12.50").1.mpr
  refine ⟨by decide, ⟨none, ['1', '2'], some ['5', '0'], none, ?_, ?_, Or.inl nofun⟩, rfl, ?_⟩
  · intro c hc
    rcases mem_pair.mp hc with rfl | rfl <;> rfl
  · rintro digits ⟨⟩ c hc
    rcases mem_pair.mp hc with rfl | rfl <;> rfl
  · refine ⟨⟨nofun, nofun, nofun, nofun⟩, by decide, by decide, ?_⟩
    intro i c hc hlow
    obtain ⟨hlt, -⟩ := List.getElem?_eq_some_iff.mp hc
    have hi : i < 2 := hlt
    simp only [Exponent.value] at hlow
    omega

end Decimal

end Morphir.Sdk
