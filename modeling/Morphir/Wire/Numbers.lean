import Morphir.Library.Numeral
import Morphir.Wire.Tokens

/-!
# Whole number tokens

A token is tested for a whole number by its text alone: its mantissa is scanned once, and its
exponent is read up to the length of the token.
-/

namespace Morphir.Wire

open Numeral List DecimalText Char

structure Mantissa where
  fraction : Int := 0
  decimal : Bool := false
  zeros : Int := 0
  nonzero : Bool := false

def Mantissa.take (self : Mantissa) (c : Char) : Mantissa :=
  if c = '.' then { self with decimal := true }
  else if c.isDigit then
    { self with
      fraction := if self.decimal then self.fraction + 1 else self.fraction
      zeros := if c = '0' then self.zeros + 1 else 0
      nonzero := self.nonzero || c ≠ '0' }
  else self

def isMark (c : Char) : Bool := c = 'e' || c = 'E'

def mantissaOf (source : List Char) : Mantissa :=
  (source.takeWhile fun c => !isMark c).foldl Mantissa.take {}

def saturate (cap exponent : Int) (c : Char) : Int :=
  let digit := (c.toNat : Int) - '0'.toNat
  if exponent > cap / 10 || (exponent = cap / 10 && digit > cap % 10) then cap
  else exponent * 10 + digit

def exponentOf (cap : Int) : List Char → Int
  | [] => 0
  | _ :: '-' :: digits => -digits.foldl (saturate cap) 0
  | _ :: '+' :: digits => digits.foldl (saturate cap) 0
  | _ :: digits => digits.foldl (saturate cap) 0

/-- The power of ten of the last digit of a token that is not a zero. -/
def powerOf (source : List Char) : Int :=
  exponentOf source.length (source.dropWhile fun c => !isMark c) - (mantissaOf source).fraction +
    (mantissaOf source).zeros

def integralToken (source : List Char) : Bool := !(mantissaOf source).nonzero || 0 ≤ powerOf source

def isIntegralNumber {F : Type} (integral : F → Bool) : Json F → Bool
  | .number _ (some source) => integralToken source
  | .number n none => integral n
  | _ => false

/-- The spellings that are number tokens: no plus sign, no leading zero, and digits behind a
point. -/
structure IsToken (s : DecimalText) : Prop where
  sign : s.sign ≠ some .plus
  whole : s.whole ≠ []
  leading : s.whole.head? = some '0' → s.whole.length = 1
  fraction : s.fraction ≠ some []

variable {digits : List Char}

lemma digits_of_all :
    (decide (digits ≠ []) && digits.all isDigit) = true ↔
      digits ≠ [] ∧ IsDigits digits := by
  rw [Bool.and_eq_true, decide_eq_true_eq, all_eq_true]
  rfl

variable {c : Char}

lemma isExponent_cons {rest : List Char} :
    isExponent (c :: rest) = true ↔ (c = 'e' ∨ c = 'E') ∧ ∃ sign digits,
      rest = Sign.text sign ++ digits ∧ digits ≠ [] ∧ IsDigits digits := by
  unfold isExponent
  rw [Bool.and_eq_true, Bool.or_eq_true, decide_eq_true_eq, decide_eq_true_eq]
  refine and_congr_right fun _ => ?_
  constructor
  · intro h
    split at h
    · exact ⟨some .plus, _, rfl, digits_of_all.mp h⟩
    · exact ⟨some .minus, _, rfl, digits_of_all.mp h⟩
    · exact ⟨none, _, rfl, digits_of_all.mp h⟩
  · rintro ⟨sign, digits, rfl, hds⟩
    cases sign with
    | some sign => cases sign <;> exact digits_of_all.mpr hds
    | none =>
      obtain ⟨hne, hall⟩ := hds
      obtain ⟨d, digits, rfl⟩ := exists_cons_of_ne_nil hne
      have hd : d.isDigit = true := hall d mem_cons_self
      have hplus : d ≠ '+' := by
        rintro rfl
        cases hd
      have hmi : d ≠ '-' := by
        rintro rfl
        cases hd
      split
      · rename_i heq
        exact absurd (List.cons.inj heq).1 hplus
      · rename_i heq
        exact absurd (List.cons.inj heq).1 hmi
      · exact digits_of_all.mpr ⟨hne, hall⟩

variable {text : List Char}

lemma isExponent_iff :
    isExponent text = true ↔ ∃ e, Exponent.text e = text := by
  cases text with
  | nil => exact iff_of_true rfl ⟨none, rfl⟩
  | cons c rest =>
    rw [isExponent_cons]
    constructor
    · rintro ⟨hmk, sign, digits, rfl, hne, hall⟩
      exact ⟨some ⟨c, sign, digits, hmk, hall, hne⟩, rfl⟩
    · rintro ⟨e, he⟩
      cases e with
      | none => cases he
      | some e =>
        obtain ⟨rfl, rfl⟩ := List.cons.inj he
        exact ⟨e.isMark, e.sign, e.digits, rfl, e.nonempty, e.isDigits⟩

lemma isFraction_iff :
    isFraction text = true ↔ ∃ fraction e, fraction ≠ some [] ∧
      (∀ digits ∈ fraction, IsDigits digits) ∧
        pointText fraction ++ Exponent.text e = text := by
  constructor
  · intro h
    unfold isFraction at h
    split at h
    case h_1 rest =>
      rw [Bool.and_eq_true, decide_eq_true_eq, isExponent_iff] at h
      obtain ⟨hne, e, he⟩ := h
      refine ⟨some (rest.takeWhile isDigit), e, fun hnil => hne (Option.some.inj hnil), ?_, ?_⟩
      · intro digits hds
        cases hds
        exact all_eq_true.mp all_takeWhile
      · rw [he]
        exact congrArg ('.' :: ·) takeWhile_append_dropWhile
    case h_2 =>
      obtain ⟨e, he⟩ := isExponent_iff.mp h
      exact ⟨none, e, nofun, nofun, he⟩
  · rintro ⟨fraction, e, hne, hds, rfl⟩
    cases fraction with
    | none =>
      have he : isExponent (Exponent.text e) = true := isExponent_iff.mpr ⟨e, rfl⟩
      rw [pointText, nil_append]
      unfold isFraction
      split
      · rename_i heq
        have hh := Exponent.head_text e '.' (by rw [heq]; rfl)
        rcases hh with hh | hh <;> cases hh
      · exact he
    | some digits =>
      obtain ⟨htk, hdr⟩ := span_digits (hds digits rfl) (Exponent.not_digit e)
      rw [pointText, cons_append, isFraction, htk, hdr, Bool.and_eq_true,
        decide_eq_true_eq, isExponent_iff]
      exact ⟨fun hnil => hne (congrArg some hnil), e, rfl⟩

lemma isMagnitude_iff :
    isMagnitude text = true ↔ ∃ s : DecimalText, IsToken s ∧ s.sign = none ∧ s.text = text := by
  rw [isMagnitude, Bool.and_eq_true, Bool.and_eq_true, decide_eq_true_eq, Bool.or_eq_true,
    decide_eq_true_eq, decide_eq_true_eq, isFraction_iff]
  constructor
  · rintro ⟨⟨hne, hlea⟩, fraction, e, hso, hds, ht⟩
    have hspl : text.takeWhile isDigit ++ text.dropWhile isDigit = text :=
      takeWhile_append_dropWhile
    refine ⟨⟨none, text.takeWhile isDigit, fraction, e, all_eq_true.mp all_takeWhile,
      hds, .inl hne⟩, ⟨by simp, hne, fun hh => ?_, hso⟩, rfl, ?_⟩
    · refine hlea.resolve_left fun hnot => hnot ?_
      rw [← hspl, List.head?_append, hh]
      rfl
    · rw [DecimalText.text, ht, hspl]
      rfl
  · rintro ⟨s, htok, hsg, rfl⟩
    obtain ⟨htk, hdr⟩ := span_digits s.isWhole s.head_pointText
    have ht :
        s.text = s.whole ++ (pointText s.fraction ++ Exponent.text s.exponent) := by
      rw [text, hsg]
      rfl
    rw [ht, htk, hdr]
    refine ⟨⟨htok.whole, ?_⟩, s.fraction, s.exponent, htok.fraction, s.isFraction, rfl⟩
    by_cases hh : s.whole.head? = some '0'
    · exact .inr (htok.leading hh)
    · refine .inl fun hz => hh ?_
      rwa [List.head?_append_of_ne_nil _ htok.whole] at hz

lemma isNumber_iff :
    isNumber text = true ↔ ∃ s : DecimalText, IsToken s ∧ s.text = text := by
  unfold isNumber
  split
  case h_1 text =>
    rw [isMagnitude_iff]
    constructor
    · rintro ⟨s, htok, hsg, rfl⟩
      refine ⟨{ s with sign := some .minus }, ⟨by simp, htok.whole, htok.leading, htok.fraction⟩, ?_⟩
      rw [text, text, hsg]
      rfl
    · rintro ⟨s, htok, ht⟩
      have hmi : s.sign = some .minus := by
        cases hsg : s.sign with
        | none =>
          obtain ⟨d, rest, hwh⟩ := exists_cons_of_ne_nil htok.whole
          have hd : d.isDigit = true := s.isWhole d (hwh ▸ mem_cons_self)
          rw [DecimalText.text, hsg, hwh] at ht
          obtain rfl := (List.cons.inj ht).1
          cases hd
        | some sign =>
          cases sign with
          | plus => exact absurd hsg htok.sign
          | minus => rfl
      refine ⟨{ s with sign := none }, ⟨by simp, htok.whole, htok.leading, htok.fraction⟩, rfl, ?_⟩
      rw [DecimalText.text, hmi] at ht
      exact (List.cons.inj ht).2
  case h_2 hne =>
    rw [isMagnitude_iff]
    constructor
    · rintro ⟨s, htok, -, ht⟩
      exact ⟨s, htok, ht⟩
    · rintro ⟨s, htok, ht⟩
      refine ⟨s, htok, ?_, ht⟩
      cases hsg : s.sign with
      | none => rfl
      | some sign =>
        cases sign with
        | plus => exact absurd hsg htok.sign
        | minus =>
          rw [DecimalText.text, hsg] at ht
          exact absurd ht.symm (hne _)

structure Mantissa.Counts (m : Mantissa) (seen : List Char) (places : Nat) : Prop where
  zeros : m.zeros = Numeral.zeros seen
  nonzero : m.nonzero = true ↔ ∃ c ∈ seen, c ≠ '0'
  fraction : m.fraction = places

lemma Mantissa.take_digit {m : Mantissa} {seen : List Char} {places : Nat}
    (h : m.Counts seen places) (hc : c.isDigit = true) :
    (m.take c).Counts (seen ++ [c]) (if m.decimal then places + 1 else places) ∧
      (m.take c).decimal = m.decimal := by
  have hpt : c ≠ '.' := by
    rintro rfl
    cases hc
  unfold take
  rw [if_neg hpt, if_pos hc]
  refine ⟨⟨?_, ?_, ?_⟩, rfl⟩
  · dsimp only
    rw [zeros_append_singleton, h.zeros]
    split <;> rfl
  · rw [Bool.or_eq_true, h.nonzero, decide_eq_true_eq]
    simp only [mem_append, mem_singleton, or_and_right, exists_or, exists_eq_left]
  · rw [h.fraction]
    split <;> rfl

lemma Mantissa.take_digits (hds : IsDigits digits) {m : Mantissa} {seen : List Char}
    {places : Nat} (h : m.Counts seen places) :
    (digits.foldl take m).Counts (seen ++ digits)
        (if m.decimal then places + digits.length else places) ∧
      (digits.foldl take m).decimal = m.decimal := by
  induction digits generalizing m seen places with
  | nil =>
    rw [append_nil]
    exact ⟨by cases m.decimal <;> exact h, rfl⟩
  | cons c digits ih =>
    obtain ⟨hcou, hdec⟩ := take_digit h (hds c mem_cons_self)
    obtain ⟨htl, hsm⟩ := ih (fun d hd => hds d (mem_cons_of_mem c hd)) hcou
    refine ⟨?_, hsm.trans hdec⟩
    rw [append_assoc, hdec] at htl
    cases hc : m.decimal with
    | true =>
      rw [hc] at htl
      rw [length_cons, Nat.add_comm digits.length, ← Nat.add_assoc]
      exact htl
    | false =>
      rw [hc] at htl
      exact htl

lemma isMark_digit (h : c.isDigit = true) : isMark c = false := by
  have hne (d : Char) (hd : d.isDigit = false) : c ≠ d := by
    rintro rfl
    rw [h] at hd
    cases hd
  simp [isMark, hne 'e' rfl, hne 'E' rfl]

variable (s : DecimalText)

lemma span_mark :
    (s.text.takeWhile fun c => !isMark c) = Sign.text s.sign ++ (s.whole ++ pointText s.fraction) ∧
      (s.text.dropWhile fun c => !isMark c) = Exponent.text s.exponent := by
  have hbo : ∀ c ∈ Sign.text s.sign ++ (s.whole ++ pointText s.fraction),
      (!isMark c) = true := by
    intro c hc
    rcases mem_append.mp hc with hsg | hc
    · cases hs : s.sign with
      | none =>
        rw [hs] at hsg
        cases hsg
      | some sign =>
        rw [hs] at hsg
        obtain rfl := mem_singleton.mp hsg
        cases sign <;> rfl
    · rcases mem_append.mp hc with hwh | hpt
      · rw [isMark_digit (s.isWhole c hwh)]
        rfl
      · cases hf : s.fraction with
        | none =>
          rw [hf] at hpt
          cases hpt
        | some digits =>
          rw [hf] at hpt
          rcases mem_cons.mp hpt with rfl | hdig
          · rfl
          · rw [isMark_digit (s.isFraction digits hf c hdig)]
            rfl
  have ht : s.text = (Sign.text s.sign ++ (s.whole ++ pointText s.fraction)) ++
      Exponent.text s.exponent := by
    rw [text, append_assoc, append_assoc]
  have hsp : (Exponent.text s.exponent).takeWhile (fun c => !isMark c) = [] ∧
      (Exponent.text s.exponent).dropWhile (fun c => !isMark c) = Exponent.text s.exponent := by
    cases s.exponent with
    | none => exact ⟨rfl, rfl⟩
    | some e =>
      have hmk : ¬ (!isMark e.mark) = true := by rcases e.isMark with h | h <;> simp [isMark, h]
      exact ⟨takeWhile_cons_of_neg hmk, dropWhile_cons_of_neg hmk⟩
  rw [ht, takeWhile_append_of_pos hbo, dropWhile_append_of_pos hbo, hsp.1, hsp.2, append_nil]
  exact ⟨rfl, rfl⟩

lemma mantissaOf_text :
    (mantissaOf s.text).Counts s.digits s.places.length := by
  have hsta : ({} : Mantissa).Counts [] 0 :=
    ⟨rfl, iff_of_false Bool.false_ne_true (by rintro ⟨c, hc, -⟩; cases hc), rfl⟩
  have hsg : (Sign.text s.sign).foldl Mantissa.take {} = {} := by
    cases s.sign with
    | none => rfl
    | some sign => cases sign <;> rfl
  obtain ⟨hwh, hdec⟩ := Mantissa.take_digits s.isWhole hsta
  rw [mantissaOf, (span_mark s).1, foldl_append, hsg, foldl_append]
  rw [digits, places]
  cases hf : s.fraction with
  | none =>
    rw [Option.getD_none, append_nil]
    exact hwh
  | some digits =>
    have hpt : (((s.whole.foldl Mantissa.take {}).take '.').Counts s.whole 0) :=
      ⟨hwh.zeros, hwh.nonzero, hwh.fraction⟩
    obtain ⟨hcou, -⟩ := Mantissa.take_digits (s.isFraction digits hf) hpt
    have hlen : (if ((s.whole.foldl Mantissa.take {}).take '.').decimal = true then
        0 + digits.length else 0) = digits.length := by
      exact (if_pos rfl).trans (Nat.zero_add _)
    rw [hlen] at hcou
    exact hcou

lemma foldl_saturate {cap : Nat} (hds : IsDigits digits) (n : Nat) :
    digits.foldl (saturate cap) (min n cap : Int) =
      (min (Nat.ofDigitChars 10 digits n) cap : Int) := by
  induction digits generalizing n with
  | nil => rw [foldl_nil, Nat.ofDigitChars_nil]
  | cons c digits ih =>
    have hc := digit_lt (hds c mem_cons_self)
    have hcode : 48 ≤ c.toNat := by
      have hdig := hds c mem_cons_self
      simp only [isDigit, Bool.and_eq_true, decide_eq_true_eq] at hdig
      exact hdig.1
    have hs : saturate cap (min n cap : Int) c =
        (min (10 * n + (c.toNat - '0'.toNat) : Nat) cap : Int) := by
      have hz : '0'.toNat = 48 := rfl
      simp only [saturate, Bool.or_eq_true, Bool.and_eq_true, decide_eq_true_eq]
      split <;> omega
    rw [foldl_cons, hs, ih fun d hd => hds d (mem_cons_of_mem c hd), Nat.ofDigitChars_cons]

lemma exponentOf_text (cap : Nat) (e : Exponent) :
    exponentOf cap (Exponent.text (some e)) =
      Sign.factor e.sign * (min (number e.digits) cap : Int) := by
  have hrd : e.digits.foldl (saturate cap) 0 = (min (number e.digits) cap : Int) := by
    have hz : (0 : Int) = (min (0 : Nat) cap : Int) := by omega
    rw [hz, foldl_saturate e.isDigits]
    rfl
  have ht : Exponent.text (some e) = e.mark :: (Sign.text e.sign ++ e.digits) := rfl
  rw [ht]
  cases hsg : e.sign with
  | some sign =>
    cases sign with
    | plus => exact hrd.trans (one_mul _).symm
    | minus => exact (congrArg (-·) hrd).trans (neg_one_mul _).symm
  | none =>
    obtain ⟨d, digits, hds⟩ := exists_cons_of_ne_nil e.nonempty
    have hd : d.isDigit = true := e.isDigits d (hds ▸ mem_cons_self)
    have hfo : exponentOf cap (e.mark :: e.digits) = e.digits.foldl (saturate cap) 0 := by
      rw [hds]
      unfold exponentOf
      split
      · rename_i heq
        cases heq
      · rename_i heq
        obtain ⟨rfl, -⟩ := List.cons.inj (List.cons.inj heq).2
        cases hd
      · rename_i heq
        obtain ⟨rfl, -⟩ := List.cons.inj (List.cons.inj heq).2
        cases hd
      · rename_i heq
        rw [(List.cons.inj heq).2]
    exact (hfo.trans hrd).trans (one_mul _).symm

lemma powerOf_sign : 0 ≤ powerOf s.text ↔ 0 ≤ s.scale + zeros s.digits := by
  have hcou := mantissaOf_text s
  have hzeros := zeros_le s.digits
  have hds : s.digits.length = s.whole.length + s.places.length := length_append
  rw [powerOf, (span_mark s).2, hcou.fraction, hcou.zeros, scale]
  cases hexp : s.exponent with
  | none =>
    have hno : exponentOf s.text.length (Exponent.text none) = 0 := rfl
    have hval : Exponent.value none = 0 := rfl
    rw [hno, hval]
  | some e =>
    have hval : Exponent.value (some e) = Sign.factor e.sign * number e.digits := rfl
    have hlen : s.digits.length < s.text.length := by
      have ht := s.length_text
      rw [hexp, Exponent.text, length_cons] at ht
      omega
    rw [exponentOf_text, hval]
    rcases Sign.factor_eq e.sign with hfac | hfac
    · rw [hfac]
      omega
    · rw [hfac]
      omega

lemma powerOf_bounds :
    -(2 * s.text.length : Int) ≤ powerOf s.text ∧ powerOf s.text ≤ 2 * s.text.length := by
  have hcou := mantissaOf_text s
  have hzeros := zeros_le s.digits
  have hds : s.digits.length = s.whole.length + s.places.length := length_append
  have hlen := s.length_text
  have hexp : |exponentOf s.text.length (Exponent.text s.exponent)| ≤ s.text.length := by
    cases s.exponent with
    | none => exact Int.natCast_nonneg _
    | some e =>
      rw [exponentOf_text, abs_le]
      rcases Sign.factor_eq e.sign with hfac | hfac
      · rw [hfac]
        omega
      · rw [hfac]
        omega
  rw [powerOf, (span_mark s).2, hcou.fraction, hcou.zeros]
  obtain ⟨hlow, hhi⟩ := abs_le.mp hexp
  omega

/-- A number token is tested for the value that it spells, and the test counts no further than
twice the length of the token. -/
theorem integralToken_iff {token : List Char} (h : isNumber token = true) :
    (∃ s : DecimalText, IsToken s ∧ s.text = token) ∧
      (∀ s : DecimalText, IsToken s → s.text = token →
        (integralToken token = true ↔ ∃ n : Int, s.value = n)) ∧
      |powerOf token| ≤ 2 * token.length := by
  obtain ⟨t, htok, rfl⟩ := isNumber_iff.mp h
  refine ⟨⟨t, htok, rfl⟩, fun s _ ht => ?_, abs_le.mpr (powerOf_bounds t)⟩
  have hcou := mantissaOf_text s
  rw [← ht, s.whole_iff, integralToken, Bool.or_eq_true, Bool.not_eq_true', decide_eq_true_eq,
    powerOf_sign]
  rw [← Bool.not_eq_true, hcou.nonzero, ← number_ne_zero s.isDigits, not_not]

theorem integralToken_iff_point : ∃ s : DecimalText, IsToken s ∧ s.text = "12.50e1".toList ∧
    (integralToken "12.50e1".toList = true ↔ ∃ n : Int, s.value = n) := by
  obtain ⟨⟨s, htok, ht⟩, hiff, -⟩ := integralToken_iff (rfl : isNumber "12.50e1".toList = true)
  exact ⟨s, htok, ht, hiff s htok ht⟩

/-- An exponent that cancels the digits behind the point, and one that does not. -/
example : integralToken "12.50e1".toList = true ∧ integralToken "12.50e0".toList = false ∧
    integralToken "0.0e-999".toList = true := ⟨rfl, rfl, rfl⟩

end Morphir.Wire

/-!
## Decimal lexemes

The text of a decimal literal is scanned from left to right: a sign, digits around a point and
an exponent.
-/

namespace Morphir.Wire

open Numeral List
open Numeral.DecimalText (pointText)

inductive CodecError
  | invalid (code message : String)
  deriving DecidableEq

namespace Lexeme

def afterSign : List Char → List Char
  | '+' :: rest => rest
  | '-' :: rest => rest
  | text => text

def fraction : List Char → List Char × List Char
  | '.' :: rest => (rest.takeWhile Char.isDigit, rest.dropWhile Char.isDigit)
  | text => ([], text)

def afterExponent : List Char → Except CodecError (List Char)
  | [] => .ok []
  | c :: rest =>
    if c = 'e' ∨ c = 'E' then
      let digits := afterSign rest
      if digits.takeWhile Char.isDigit = [] then
        .error (.invalid "invalid_literal" "Invalid decimal exponent")
      else .ok (digits.dropWhile Char.isDigit)
    else .ok (c :: rest)

end Lexeme

def decimal (text : String) : Except CodecError String := do
  let chars := Lexeme.afterSign text.toList
  let (places, rest) := Lexeme.fraction (chars.dropWhile Char.isDigit)
  if (chars.takeWhile Char.isDigit).length + places.length = 0 then
    .error (.invalid "invalid_literal" "Invalid decimal lexeme")
  else do
    let rest ← Lexeme.afterExponent rest
    if rest ≠ [] then .error (.invalid "invalid_literal" "Invalid decimal lexeme")
    else pure text

namespace Lexeme

lemma isDigits_takeWhile (text : List Char) : IsDigits (text.takeWhile Char.isDigit) :=
  all_eq_true.mp all_takeWhile

lemma afterSign_text (text : List Char) :
    ∃ sign : Option Sign, text = Sign.text sign ++ afterSign text := by
  unfold afterSign
  split
  · exact ⟨some .plus, rfl⟩
  · exact ⟨some .minus, rfl⟩
  · exact ⟨none, rfl⟩

variable {text : List Char}

lemma afterSign_append (sign : Option Sign) (h : Unsigned text) :
    afterSign (Sign.text sign ++ text) = text := by
  match sign with
  | some .plus => rfl
  | some .minus => rfl
  | none =>
    rw [Sign.text, Option.toList_none, map_nil, nil_append]
    unfold afterSign
    split
    next rest => exact absurd rfl (h '+' rfl).1
    next rest => exact absurd rfl (h '-' rfl).2
    next => rfl

lemma fraction_text {places rest : List Char} (h : fraction text = (places, rest)) :
    ∃ point : Option (List Char), text = pointText point ++ rest ∧ places = point.getD [] ∧
      ∀ digits ∈ point, IsDigits digits := by
  unfold fraction at h
  split at h
  · cases h
    refine ⟨some _, ?_, rfl, ?_⟩
    · exact congrArg ('.' :: ·) takeWhile_append_dropWhile.symm
    · rintro _ ⟨⟩
      exact isDigits_takeWhile _
  · cases h
    exact ⟨none, rfl, rfl, nofun⟩

lemma fraction_append {point : Option (List Char)} (e : Option Exponent)
    (h : ∀ digits ∈ point, IsDigits digits) :
    fraction (pointText point ++ Exponent.text e) = (point.getD [], Exponent.text e) := by
  cases point with
  | some digits =>
    obtain ⟨htk, hdr⟩ := span_digits (h digits rfl) (Exponent.not_digit e)
    rw [pointText, cons_append, fraction, htk, hdr, Option.getD_some]
  | none =>
    rw [pointText, nil_append]
    unfold fraction
    split
    next rest heq =>
      have hh := Exponent.head_text e '.' (by rw [heq]; rfl)
      rcases hh with hh | hh <;> cases hh
    next => rfl

lemma afterExponent_text (h : afterExponent text = .ok []) : ∃ e, text = Exponent.text e := by
  unfold afterExponent at h
  split at h
  · exact ⟨none, rfl⟩
  next c rest =>
    split at h
    next hmk =>
      dsimp only at h
      split at h
      next => cases h
      next hne =>
        obtain ⟨sign, hsg⟩ := afterSign_text rest
        have hdr := Except.ok.inj h
        have hds : afterSign rest = (afterSign rest).takeWhile Char.isDigit := by
          have hspl : (afterSign rest).takeWhile Char.isDigit ++
              (afterSign rest).dropWhile Char.isDigit = afterSign rest :=
            takeWhile_append_dropWhile
          rw [hdr, append_nil] at hspl
          exact hspl.symm
        rw [← hds] at hne
        refine ⟨some ⟨c, sign, afterSign rest, hmk, ?_, hne⟩, congrArg (c :: ·) hsg⟩
        rw [hds]
        exact isDigits_takeWhile _
    next => cases Except.ok.inj h

lemma afterExponent_exponent (e : Option Exponent) : afterExponent (Exponent.text e) = .ok [] := by
  cases e with
  | none => rfl
  | some e =>
    have hspan := span_digits e.isDigits (nofun : ∀ c ∈ ([] : List Char).head?, c.isDigit = false)
    rw [append_nil] at hspan
    obtain ⟨htk, hdr⟩ := hspan
    rw [Exponent.text, afterExponent, if_pos e.isMark, afterSign_append e.sign e.isDigits.unsigned]
    dsimp only
    rw [htk, hdr, if_neg e.nonempty]

end Lexeme

open Lexeme in
lemma decimal_iff {text : String} :
    (∃ lexeme, decimal text = .ok lexeme) ↔ ∃ s : DecimalText, s.text = text.toList := by
  unfold decimal
  dsimp only
  constructor
  · rintro ⟨lexeme, h⟩
    obtain ⟨sign, hsg⟩ := afterSign_text text.toList
    have hwh : (afterSign text.toList).takeWhile Char.isDigit ++
        (afterSign text.toList).dropWhile Char.isDigit = afterSign text.toList :=
      takeWhile_append_dropWhile
    cases hfrac : fraction ((afterSign text.toList).dropWhile Char.isDigit) with
    | mk places rest =>
      rw [hfrac] at h
      obtain ⟨point, hpt, hpla, hds⟩ := fraction_text hfrac
      split at h
      next => cases h
      next hcnt =>
        obtain ⟨rest', hr, h⟩ := Fallible.bind_ok h
        split at h
        next => cases h
        next hend =>
          rw [Decidable.not_not.mp hend] at hr
          obtain ⟨e, rfl⟩ := afterExponent_text hr
          refine ⟨⟨sign, _, point, e, isDigits_takeWhile (afterSign text.toList), hds, ?_⟩, ?_⟩
          · by_contra hno
            obtain ⟨hwholeNil, hpointNil⟩ := not_or.mp hno
            apply hcnt
            rw [Decidable.not_not.mp hwholeNil, hpla, Decidable.not_not.mp hpointNil]
            rfl
          · rw [DecimalText.text, ← hpt, hwh, ← hsg]
  · rintro ⟨s, hs⟩
    obtain ⟨htk, hdr⟩ := span_digits s.isWhole s.head_pointText
    rw [← hs, DecimalText.text, afterSign_append s.sign s.unsigned_body, htk, hdr,
      fraction_append s.exponent s.isFraction]
    have hcnt : ¬ s.whole.length + (s.fraction.getD []).length = 0 := by
      intro hz
      rcases s.nonempty with hne | hne
      · exact hne (eq_nil_of_length_eq_zero (by omega))
      · exact hne (eq_nil_of_length_eq_zero (by omega))
    rw [if_neg hcnt, afterExponent_exponent]
    exact ⟨text, rfl⟩

end Morphir.Wire
