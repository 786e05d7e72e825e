import Morphir.Wire.Numbers
import Morphir.Wire.ReaderRuns

/-!
# Plain scalars

A scalar of the YAML profile is a JSON value.  The spelling of a number is rewritten piece by
piece into a number token, and never goes through a double.
-/

namespace Morphir.Yaml

open Morphir.Wire Numeral List DecimalText Except

structure Marker where
  line : Int
  col : Int

inductive ScalarStyle
  | plain
  | quoted
  deriving DecidableEq

def reject (code path : String) (mark : Marker) (detail : String) : Failure :=
  invalid code (path ++ " at " ++ toString mark.line ++ ":" ++ toString (mark.col + 1) ++ ": " ++
    detail)

def unsigned : List Char → List Char
  | '+' :: text => text
  | '-' :: text => text
  | text => text

def fractionOf : List Char → List Char × List Char
  | '.' :: text => (text.takeWhile Char.isDigit, text.dropWhile Char.isDigit)
  | text => ([], text)

def endsNumber : List Char → Bool
  | [] => true
  | c :: text =>
    (c = 'e' || c = 'E') && (unsigned text).takeWhile Char.isDigit ≠ [] &&
      (unsigned text).dropWhile Char.isDigit = []

def numeric (text : List Char) : Bool :=
  let chars := unsigned text
  let whole := chars.takeWhile Char.isDigit
  let (fraction, rest) := fractionOf (chars.dropWhile Char.isDigit)
  whole.length + fraction.length ≠ 0 && endsNumber rest

def isHex (c : Char) : Bool := ('0' ≤ c && c ≤ '9') || ('a' ≤ c && c ≤ 'f') || ('A' ≤ c && c ≤ 'F')

def isBased : List Char → Bool
  | '0' :: c :: text => (c = 'x' || c = 'o') && text ≠ [] && text.all isHex
  | _ => false

def hasLeadingZero : List Char → Bool
  | '0' :: c :: _ => c.isDigit
  | _ => false

def fillPoints : List Char → List Char
  | [] => []
  | c :: text =>
    if c = '.' ∧ (text = [] ∨ text.head? = some 'e' ∨ text.head? = some 'E') then
      c :: '0' :: fillPoints text
    else c :: fillPoints text

def normalized (text : List Char) : List Char :=
  let sign := if text.head? = some '-' then ['-'] else []
  let unsigned := unsigned text
  sign ++ fillPoints (if unsigned.head? = some '.' then '0' :: unsigned else unsigned)

def nonFinite : List (List Char) :=
  [".inf".toList, ".Inf".toList, ".INF".toList, ".nan".toList, ".NaN".toList, ".NAN".toList]

def nulls : List (List Char) := ["".toList, "null".toList, "Null".toList, "NULL".toList, "~".toList]

def trues : List (List Char) := ["true".toList, "True".toList, "TRUE".toList]

def falses : List (List Char) := ["false".toList, "False".toList, "FALSE".toList]

local instance lawfulChars : LawfulBEq (List Char) := inferInstance

variable {F : Type} (parse : List Char → Option (Json F))

def scalar (text : List Char) (style : ScalarStyle) (path : String) (mark : Marker) :
    Except Failure (Json F) :=
  if style ≠ .plain then .ok (.string (units (String.ofList text)))
  else if text ∈ nulls then .ok .null
  else if text ∈ trues then .ok (.bool true)
  else if text ∈ falses then .ok (.bool false)
  else if unsigned text ∈ nonFinite then
    .error (reject "invalid_literal" path mark "non-finite numbers are not part of the profile")
  else if isBased text then .error (reject "invalid_literal" path mark "write decimal")
  else if !numeric text then .ok (.string (units (String.ofList text)))
  else if hasLeadingZero (unsigned text) then
    .error (reject "invalid_literal" path mark "leading zeros are not part of the profile")
  else parseText parse (normalized text)

lemma exists_sign (text : List Char) : ∃ sign, text = Sign.text sign ++ unsigned text := by
  unfold unsigned
  split
  · exact ⟨some .plus, rfl⟩
  · exact ⟨some .minus, rfl⟩
  · exact ⟨none, rfl⟩

lemma unsigned_text {sign : Option Sign} {body : List Char} (h : Unsigned body) :
    unsigned (Sign.text sign ++ body) = body := by
  cases sign with
  | some sign => cases sign <;> rfl
  | none =>
    rw [Sign.text, Option.toList_none, map_nil, nil_append]
    unfold unsigned
    split
    · exact absurd rfl (h '+' rfl).1
    · exact absurd rfl (h '-' rfl).2
    · rfl

variable {text : List Char}

lemma endsNumber_iff :
    endsNumber text = true ↔ ∃ e, Exponent.text e = text := by
  cases text with
  | nil => exact iff_of_true rfl ⟨none, rfl⟩
  | cons c rest =>
    rw [endsNumber, Bool.and_eq_true, Bool.and_eq_true, Bool.or_eq_true, decide_eq_true_eq,
      decide_eq_true_eq, decide_eq_true_eq, decide_eq_true_eq]
    constructor
    · rintro ⟨⟨hmk, hne⟩, hend⟩
      obtain ⟨sign, hsg⟩ := exists_sign rest
      have hspl := takeWhile_append_dropWhile (p := Char.isDigit) (l := unsigned rest)
      rw [hend, append_nil] at hspl
      refine ⟨some ⟨c, sign, unsigned rest, hmk, ?_, hspl ▸ hne⟩, congrArg (c :: ·) hsg.symm⟩
      rw [← hspl]
      exact all_eq_true.mp all_takeWhile
    · rintro ⟨e, he⟩
      cases e with
      | none => cases he
      | some e =>
        obtain ⟨rfl, rfl⟩ := List.cons.inj he
        obtain ⟨htk, hdr⟩ :=
          span_digits e.isDigits (by simp : ∀ c ∈ ([] : List Char).head?, c.isDigit = false)
        rw [append_nil] at htk hdr
        rw [unsigned_text e.isDigits.unsigned, htk, hdr]
        exact ⟨⟨e.isMark, e.nonempty⟩, rfl⟩

variable {fraction : Option (List Char)}

lemma fractionOf_text (hfrac : ∀ digits ∈ fraction, IsDigits digits) (e : Option Exponent) :
    fractionOf (pointText fraction ++ Exponent.text e) =
      (fraction.getD [], Exponent.text e) := by
  cases fraction with
  | some digits =>
    obtain ⟨htk, hdr⟩ := span_digits (hfrac digits rfl) (Exponent.not_digit e)
    exact Prod.ext htk hdr
  | none =>
    rw [pointText, nil_append]
    unfold fractionOf
    split
    · rename_i heq
      have hh := Exponent.head_text e '.' (by rw [heq]; rfl)
      rcases hh with hh | hh <;> cases hh
    · rfl

lemma exists_fraction (text : List Char) :
    ∃ fraction : Option (List Char), (∀ digits ∈ fraction, IsDigits digits) ∧
      fraction.getD [] = (fractionOf text).1 ∧
        pointText fraction ++ (fractionOf text).2 = text := by
  unfold fractionOf
  split
  case h_1 text =>
    refine ⟨some (text.takeWhile Char.isDigit), fun digits hds => ?_, rfl, ?_⟩
    · cases hds
      exact all_eq_true.mp all_takeWhile
    · exact congrArg ('.' :: ·) takeWhile_append_dropWhile
  case h_2 => exact ⟨none, nofun, rfl, rfl⟩

lemma numeric_iff :
    numeric text = true ↔ ∃ s : DecimalText, s.text = text := by
  unfold numeric
  rw [Bool.and_eq_true, decide_eq_true_eq, endsNumber_iff]
  constructor
  · rintro ⟨hso, e, he⟩
    obtain ⟨sign, hsg⟩ := exists_sign text
    obtain ⟨fraction, hfrac, hpla, hpt⟩ := exists_fraction ((unsigned text).dropWhile Char.isDigit)
    refine ⟨⟨sign, (unsigned text).takeWhile Char.isDigit, fraction, e,
      all_eq_true.mp all_takeWhile, hfrac, ?_⟩, ?_⟩
    · rw [hpla]
      by_contra hno
      rw [not_or, not_not, not_not] at hno
      rw [hno.1, hno.2] at hso
      exact hso rfl
    · rw [DecimalText.text]
      rw [he, hpt, takeWhile_append_dropWhile, ← hsg]
  · rintro ⟨s, rfl⟩
    obtain ⟨htk, hdr⟩ := span_digits s.isWhole s.head_pointText
    rw [text, unsigned_text s.unsigned_body, htk, hdr, fractionOf_text s.isFraction]
    refine ⟨fun hz => ?_, s.exponent, rfl⟩
    have hb := Nat.add_eq_zero_iff.mp hz
    rcases s.nonempty with hne | hne
    · exact hne (length_eq_zero_iff.mp hb.1)
    · exact hne (length_eq_zero_iff.mp hb.2)

def normalizedDecimal (s : DecimalText) : DecimalText where
  sign := if s.sign = some .minus then some .minus else none
  whole := if s.whole = [] then ['0'] else s.whole
  fraction := s.fraction.map fun digits => if digits = [] then ['0'] else digits
  exponent := s.exponent
  isWhole := by
    split
    · exact fun c hc => mem_singleton.mp hc ▸ rfl
    · exact s.isWhole
  isFraction digits hds := by
    obtain ⟨places, hpla, rfl⟩ := Option.mem_map.mp hds
    split
    · exact fun c hc => mem_singleton.mp hc ▸ rfl
    · exact s.isFraction places hpla
  nonempty := by
    left
    split
    · exact cons_ne_nil _ _
    · assumption

lemma number_whole (whole places : List Char) :
    number ((if whole = [] then ['0'] else whole) ++ places) = number (whole ++ places) := by
  split
  · rename_i hwh
    rw [hwh]
    exact number_cons_zero places
  · rfl

lemma value_normalized (s : DecimalText) : (normalizedDecimal s).value = s.value := by
  have hfac : Sign.factor (normalizedDecimal s).sign = Sign.factor s.sign := by
    cases hsg : s.sign with
    | none => simp [normalizedDecimal, hsg]
    | some sign => cases sign <;> simp [normalizedDecimal, hsg, Sign.factor]
  have hsm (h : (normalizedDecimal s).places = s.places) :
      (normalizedDecimal s).value = s.value := by
    have hnum : number (normalizedDecimal s).digits = number s.digits := by
      rw [digits, h]
      exact number_whole s.whole s.places
    have hscale : (normalizedDecimal s).scale = s.scale := by
      rw [scale, h]
      rfl
    rw [value, value, hfac, hnum, hscale]
  cases hfrac : s.fraction with
  | none => exact hsm (by simp [places, normalizedDecimal, hfrac])
  | some digits =>
    cases digits with
    | cons c digits => exact hsm (by simp [places, normalizedDecimal, hfrac])
    | nil =>
      have hpla : s.places = [] := by simp [places, hfrac]
      have hz : (normalizedDecimal s).places = ['0'] := by simp [places, normalizedDecimal, hfrac]
      have hnum : number (normalizedDecimal s).digits = 10 * number s.digits := by
        have hwh := number_whole s.whole []
        rw [append_nil, append_nil] at hwh
        rw [digits, hz, number_append_singleton, digits, hpla, append_nil, ← hwh]
        rfl
      have hscale : s.scale = (normalizedDecimal s).scale + 1 := by
        have hexp : (normalizedDecimal s).exponent = s.exponent := rfl
        rw [scale, scale, hpla, hz, hexp, length_nil, length_singleton]
        omega
      rw [value, value, hfac, hnum, hscale, zpow_add_one₀ (by norm_num : (10 : Rat) ≠ 0)]
      push_cast
      ring

lemma fillPoints_append {front rest : List Char} (h : '.' ∉ front) :
    fillPoints (front ++ rest) = front ++ fillPoints rest := by
  induction front with
  | nil => rfl
  | cons c front ih =>
    obtain ⟨hc, hfr⟩ := not_or.mp (mt mem_cons.mpr h)
    rw [cons_append, fillPoints, if_neg fun hpt => hc hpt.1.symm, ih hfr]
    rfl

lemma not_mem_digits {digits : List Char} (h : IsDigits digits) : '.' ∉ digits := by
  intro hmem
  cases h '.' hmem

lemma fillPoints_exponent (e : Option Exponent) :
    fillPoints (Exponent.text e) = Exponent.text e := by
  have hmem : '.' ∉ Exponent.text e := by
    cases e with
    | none => exact not_mem_nil
    | some e =>
      rw [Exponent.text, mem_cons, mem_append, not_or, not_or]
      refine ⟨?_, ?_, not_mem_digits e.isDigits⟩
      · rcases e.isMark with hmk | hmk
        · rw [hmk]
          decide
        · rw [hmk]
          decide
      · cases e.sign with
        | none => exact not_mem_nil
        | some sign => cases sign <;> decide
  have happ : fillPoints (Exponent.text e ++ []) = Exponent.text e ++ fillPoints [] :=
    fillPoints_append hmem
  rwa [fillPoints, append_nil] at happ

lemma fillPoints_point (hfrac : ∀ digits ∈ fraction, IsDigits digits) (e : Option Exponent) :
    fillPoints (pointText fraction ++ Exponent.text e) =
      pointText (fraction.map fun digits => if digits = [] then ['0'] else digits) ++
        Exponent.text e := by
  cases fraction with
  | none => exact fillPoints_exponent e
  | some digits =>
    cases digits with
    | nil =>
      have hend : Exponent.text e = [] ∨ (Exponent.text e).head? = some 'e' ∨
          (Exponent.text e).head? = some 'E' := by
        cases e with
        | none => exact .inl rfl
        | some e => exact .inr (e.isMark.imp (congrArg some) (congrArg some))
      change fillPoints ('.' :: Exponent.text e) = '.' :: '0' :: Exponent.text e
      rw [fillPoints, if_pos ⟨rfl, hend⟩, fillPoints_exponent]
    | cons c digits =>
      have hds := hfrac _ rfl
      have hc : c.isDigit = true := hds c mem_cons_self
      have hm : ¬ ('.' = '.' ∧ (c :: digits ++ Exponent.text e = [] ∨
          (c :: digits ++ Exponent.text e).head? = some 'e' ∨
            (c :: digits ++ Exponent.text e).head? = some 'E')) := by
        rintro ⟨-, hnil | hmk | hmk⟩
        · cases hnil
        · cases hmk
          cases hc
        · cases hmk
          cases hc
      change fillPoints ('.' :: (c :: digits ++ Exponent.text e)) =
        '.' :: (c :: digits ++ Exponent.text e)
      rw [fillPoints, if_neg hm, fillPoints_append (not_mem_digits hds), fillPoints_exponent]

lemma normalized_text (s : DecimalText) : normalized s.text = (normalizedDecimal s).text := by
  have hbo : unsigned (Sign.text s.sign ++
      (s.whole ++ (pointText s.fraction ++ Exponent.text s.exponent))) =
        s.whole ++ (pointText s.fraction ++ Exponent.text s.exponent) :=
    unsigned_text s.unsigned_body
  have hsg : (if s.text.head? = some '-' then ['-'] else []) =
      Sign.text (normalizedDecimal s).sign := by
    cases hsg : s.sign with
    | none =>
      have hh : s.text.head? ≠ some '-' := by
        rw [text, hsg]
        exact fun hmi => (s.unsigned_body '-' hmi).2 rfl
      rw [if_neg hh]
      simp [normalizedDecimal, hsg, Sign.text]
    | some sign =>
      rw [text]
      cases sign <;> simp [normalizedDecimal, hsg, Sign.text, Sign.char]
  have hwh : fillPoints
      (if (s.whole ++ (pointText s.fraction ++ Exponent.text s.exponent)).head? = some '.' then
        '0' :: (s.whole ++ (pointText s.fraction ++ Exponent.text s.exponent))
      else s.whole ++ (pointText s.fraction ++ Exponent.text s.exponent)) =
      (if s.whole = [] then ['0'] else s.whole) ++
        fillPoints (pointText s.fraction ++ Exponent.text s.exponent) := by
    cases hcase : s.whole with
    | nil =>
      have hpla := s.nonempty.resolve_left (not_not.mpr hcase)
      cases hfrac : s.fraction with
      | none =>
        rw [hfrac] at hpla
        exact absurd rfl hpla
      | some digits => exact fillPoints_append (by decide : '.' ∉ ['0'])
    | cons c digits =>
      have hds := s.isWhole
      rw [hcase] at hds
      have hc : (c :: digits ++
          (pointText s.fraction ++ Exponent.text s.exponent)).head? ≠ some '.' := by
        intro hh
        cases hh
        cases hds '.' mem_cons_self
      rw [if_neg hc]
      exact fillPoints_append (not_mem_digits hds)
  rw [normalized, hsg, text, hbo, hwh, fillPoints_point s.isFraction]
  rfl

lemma isToken_normalized {s : DecimalText} (h : hasLeadingZero (unsigned s.text) = false) :
    IsToken (normalizedDecimal s) := by
  constructor
  case sign =>
    rw [normalizedDecimal]
    split <;> simp
  case whole =>
    rw [normalizedDecimal]
    dsimp only
    split
    · exact cons_ne_nil _ _
    · assumption
  case leading =>
    rw [normalizedDecimal]
    dsimp only
    split
    · exact fun _ => rfl
    · intro hh
      rw [text, unsigned_text s.unsigned_body] at h
      cases hwh : s.whole with
      | nil =>
        rw [hwh] at hh
        cases hh
      | cons c digits =>
        rw [hwh] at hh h
        cases hh
        cases digits with
        | nil => rfl
        | cons d digits =>
          have hd : d.isDigit = true := by
            apply s.isWhole
            rw [hwh]
            exact mem_cons_of_mem _ mem_cons_self
          exact absurd (hd.symm.trans h) (by decide)
  case fraction =>
    rw [normalizedDecimal]
    dsimp only
    cases s.fraction with
    | none => simp
    | some digits =>
      intro hnil
      have hds : (if digits = [] then ['0'] else digits) = [] := Option.some.inj hnil
      split at hds
      · cases hds
      · contradiction

variable {parse} {number : List Char → F} {repr : List Char → Option (List Char)}

lemma parseText_token (hprs : Decodes parse number repr) {token : List Char}
    (h : isNumber token = true) :
    parseText parse token = .ok (.number (number token) (some token)) := by
  have hne (text : List Char) (ht : isNumber text = false) : token ≠ text := by
    rintro rfl
    rw [h] at ht
    cases ht
  have hsca : scalarToken (Grammar.spelled number) token =
      some (.number (number token) (some token)) := by
    rw [scalarToken, if_neg (hne _ rfl), if_neg (hne _ rfl), if_neg (hne _ rfl), if_pos h]
    rfl
  have hval : Grammar.Value number (token ++ []) (.number (number token) (some token)) [] :=
    .scalar hsca
  rw [append_nil] at hval
  exact ((parse_grammar hprs token).1 _).mpr
    ⟨⟨token, [], .nil token, hval, .nil []⟩, trivial, Nat.zero_le _⟩

structure ReadAsNumber (text : List Char) : Prop where
  numeric : numeric text = true
  leading : hasLeadingZero (unsigned text) = false

lemma scalar_number (hprs : Decodes parse number repr) {style : ScalarStyle} {path : String}
    {mark : Marker} {value : F} {token : Option (List Char)}
    (h : scalar parse text style path mark = .ok (.number value token)) :
    ReadAsNumber text ∧ token = some (normalized text) ∧ value = number (normalized text) ∧
      isNumber (normalized text) = true := by
  unfold scalar at h
  split at h
  · cases ok.inj h
  split at h
  · cases ok.inj h
  split at h
  · cases ok.inj h
  split at h
  · cases ok.inj h
  split at h
  · cases h
  split at h
  · cases h
  split at h
  · cases ok.inj h
  rename_i hnum
  split at h
  · cases h
  rename_i hlea
  have hnum : numeric text = true := by simpa using hnum
  have hlea : hasLeadingZero (unsigned text) = false := by simpa using hlea
  obtain ⟨s, rfl⟩ := numeric_iff.mp hnum
  have htok : isNumber (normalized s.text) = true := by
    rw [normalized_text]
    exact isNumber_iff.mpr ⟨_, isToken_normalized hlea, rfl⟩
  rw [parseText_token hprs htok] at h
  obtain ⟨rfl, rfl⟩ := Json.number.inj (ok.inj h)
  exact ⟨⟨hnum, hlea⟩, rfl, rfl, htok⟩

/-- A plain scalar that is read as a number is read from a number token, and the token spells
the number that the scalar spells. -/
theorem scalar_same_number (hprs : Decodes parse number repr) {text : List Char}
    {style : ScalarStyle} {path : String} {mark : Marker} {value : F} {token : Option (List Char)}
    (h : scalar parse text style path mark = .ok (.number value token)) :
    token = some (normalized text) ∧ value = number (normalized text) ∧
      isNumber (normalized text) = true ∧
      ∃ s t : DecimalText, s.text = text ∧ IsToken t ∧ t.text = normalized text ∧
        t.value = s.value ∧
        ∀ s' t' : DecimalText, s'.text = text → t'.text = normalized text →
          t'.value = s'.value := by
  obtain ⟨hrd, htok, hval, hnum⟩ := scalar_number hprs h
  obtain ⟨s, rfl⟩ := numeric_iff.mp hrd.numeric
  refine ⟨htok, hval, hnum, s, normalizedDecimal s, rfl, isToken_normalized hrd.leading,
    (normalized_text s).symm, value_normalized s, fun s' t' hs ht => ?_⟩
  rw [text_injective hs, text_injective (ht.trans (normalized_text s)), value_normalized]

theorem scalar_same_number_signed :
    isNumber "12.0e1".toList = true ∧ ∃ s t : DecimalText, s.text = "+12.e1".toList ∧
      t.text = "12.0e1".toList ∧ t.value = s.value := by
  obtain ⟨-, -, hnum, s, t, hs, -, ht, hval, -⟩ :=
    scalar_same_number readToken_decodes (rfl : scalar readToken "+12.e1".toList .plain "/" ⟨1, 0⟩ =
      .ok (.number (wholeNumber "12.0e1".toList) (some "12.0e1".toList)))
  exact ⟨hnum, s, t, hs, ht, hval⟩

end Morphir.Yaml
