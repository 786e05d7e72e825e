import Morphir.Sdk.DecimalChecked
import Morphir.Sdk.DecimalRuns
import Morphir.Wire.Numbers

/-!
# Constants of decimals

The generator writes a decimal literal in scientific notation, from the digits without the
zeros at their ends, and reads the constant back to check it.
-/

namespace Morphir.Moonbit

open Numeral (DecimalText Exponent Sign IsDigits number zeros)
open Numeral.DecimalText (pointText)
open Sdk (Decimal wrap InRange)

inductive ConstantError
  | codec (error : Wire.CodecError)
  | invalid (code context message : String)
  | aborted (message : String)
  deriving DecidableEq

namespace DecimalConstant

def codec {α : Type} : Except Wire.CodecError α → Except ConstantError α
  | .ok a => .ok a
  | .error error => .error (.codec error)

def runtime {α : Type} : Except String α → Except ConstantError α
  | .ok a => .ok a
  | .error message => .error (.aborted message)

def bigint (text : List Char) : Except ConstantError Int :=
  let (negative, digits) := Decimal.signed text
  if Decimal.allDigits digits then .ok (Decimal.readInteger negative digits)
  else .error (.aborted "invalid character")

/-- The end of digits before their last zeros, and the scale there. -/
def trim (digits : List Char) : Nat → Int → Nat × Int
  | n + 2, scale =>
    if digits[n + 1]? = some '0' then trim digits (n + 1) (wrap (scale + 1)) else (n + 2, scale)
  | n, scale => (n, scale)

def intText (n : Int) : List Char := Decimal.minus (decide (n < 0)) ++ Nat.toDigits 10 n.natAbs

def canonical (negative : Bool) (significant : List Char) (exponent : Int) : String :=
  String.ofList (Decimal.minus negative ++ significant.take 1 ++
    (if 1 < significant.length then '.' :: significant.drop 1 else []) ++ 'e' :: intText exponent)

def exponentOf (scientific : List (List Char)) : Except ConstantError Int :=
  match scientific with
  | [_, exponent] => bigint (exponent.erase '+')
  | _ => .ok 0

/-- The digits before the point, with the sign, and those behind it. -/
def componentsOf (mantissa : List Char) : List Char × List Char :=
  match mantissa.splitOn '.' with
  | [whole, fraction] => (whole, fraction)
  | components => (components.headD [], [])

/-- The constant of digits, when it is read as these digits at this scale. -/
def checked (context : String) (negative : Bool) (significant : List Char) (scale : Int) :
    Except ConstantError String := do
  let constant := canonical negative significant (wrap (scale + significant.length - 1))
  match ← runtime (Decimal.fromString constant) with
  | none =>
    .error (.invalid "moonbit.literal_out_of_range" context
      "SDK Decimal rejected normalized construction")
  | some number => do
    let normalized ← bigint (Decimal.minus negative ++ significant)
    if number.coefficient ≠ normalized ∨ number.exponent ≠ scale then
      .error (.invalid "moonbit.literal_precision_loss" context
        "SDK Decimal changed the exact coefficient or exponent")
    else pure constant

def normalized (context : String) (coefficient scale : Int) : Except ConstantError String :=
  if coefficient = 0 then .ok "0"
  else
    let digits := Nat.toDigits 10 coefficient.natAbs
    let (last, scale) := trim digits digits.length scale
    if scale < -32 then
      .error (.invalid "moonbit.literal_precision_loss" context
        "SDK Decimal would truncate digits below exponent -32")
    else checked context (decide (coefficient < 0)) (digits.take last) scale

end DecimalConstant

open DecimalConstant in
def decimalConstant (text context : String) : Except ConstantError String := do
  let _ ← codec (Wire.decimal text)
  let scientific := (text.toList.map Char.toLower).splitOn 'e'
  let exponent ← exponentOf scientific
  if exponent < -10000 ∨ 10000 < exponent then
    .error (.invalid "moonbit.literal_out_of_range" context
      "Decimal exponent exceeds construction budget")
  else do
    let (whole, fraction) := componentsOf (scientific.headD [])
    let coefficient ← bigint ((whole ++ fraction).erase '+')
    normalized context coefficient (wrap (exponent - fraction.length))

end Morphir.Moonbit

/-!
## Constants keep their values

A literal has a constant unless its exponent is not in the budget or its last digit is below
the floor, and the constant is read as the number of the literal.
-/

namespace Morphir.Moonbit.DecimalConstant

open List Nat Char

open Numeral (DecimalText Exponent Sign IsDigits number zeros)
open Numeral.DecimalText (pointText)
open Sdk (Decimal wrap InRange wrap_of_inRange)
open Sdk.Decimal (minus signOf text_signOf readInteger_eq splitOn_text splitOn_pair notMem_sign
  notMem_of_digits allDigits_iff signed_minus head_ne_minus number_append_zeros)

lemma toLower_digit {c : Char} (h : c.isDigit = true) : c.toLower = c := by
  have hc : 48 ≤ c.toNat ∧ c.toNat ≤ 57 := by simpa [Char.isDigit, UInt32.le_iff_toNat_le] using h
  rw [toLower, dif_neg]
  rintro ⟨hlow, -⟩
  have hlow' : 65 ≤ c.toNat := by simpa [UInt32.le_iff_toNat_le] using hlow
  omega

variable {digits : List Char}

lemma map_toLower_digits (h : IsDigits digits) : digits.map toLower = digits := by
  rw [map_congr_left fun c hc => toLower_digit (h c hc), map_id']

def lowered (s : DecimalText) : DecimalText :=
  { s with exponent := s.exponent.map fun e => { e with mark := 'e', isMark := Or.inl rfl } }

variable (s : DecimalText)

lemma lowered_marks : ∀ e ∈ (lowered s).exponent, e.mark = 'e' := by
  intro e he
  obtain ⟨e', -, rfl⟩ := Option.map_eq_some_iff.mp he
  rfl

lemma map_toLower_text : s.text.map toLower = (lowered s).text := by
  have hsg : ∀ sign : Option Sign, (Sign.text sign).map toLower = Sign.text sign := by
    intro sign
    match sign with
    | none => rfl
    | some .plus => rfl
    | some .minus => rfl
  have hpt : (pointText s.fraction).map toLower = pointText s.fraction := by
    cases hfrac : s.fraction with
    | none => rfl
    | some digits =>
      rw [pointText, map_cons, map_toLower_digits (s.isFraction digits hfrac)]
      rfl
  have hexp : (Exponent.text s.exponent).map toLower =
      Exponent.text (lowered s).exponent := by
    rw [lowered]
    cases s.exponent with
    | none => rfl
    | some e =>
      have hmk : e.mark.toLower = 'e' := by rcases e.isMark with hmk | hmk <;> rw [hmk] <;> decide
      rw [Option.map_some, Exponent.text, Exponent.text, map_cons, map_append, hsg,
        map_toLower_digits e.isDigits, hmk]
  rw [DecimalText.text, map_append, map_append, map_append, hsg,
    map_toLower_digits s.isWhole, hpt, hexp]
  rfl

lemma bigint_erase (sign : Option Sign) (hne : digits ≠ []) (h : IsDigits digits) :
    bigint ((Sign.text sign ++ digits).erase '+') = .ok (Sign.factor sign * number digits) := by
  have hrd (negative : Bool) :
      bigint (minus negative ++ digits) = .ok (Sign.factor (signOf negative) * number digits) := by
    have hh := head_ne_minus h [] hne
    rw [append_nil] at hh
    rw [bigint, signed_minus negative hh]
    dsimp only
    rw [if_pos (allDigits_iff.mpr ⟨hne, h⟩), readInteger_eq]
  have hplus : '+' ∉ digits := notMem_of_digits h (by decide)
  match sign with
  | none =>
    rw [Sign.text, Option.toList_none, map_nil, nil_append, erase_of_not_mem hplus]
    exact hrd false
  | some .plus => exact hrd false
  | some .minus =>
    have hmi : '+' ∉ Sign.text (some .minus) ++ digits := by
      simp only [mem_append, not_or]
      exact ⟨by decide, hplus⟩
    rw [erase_of_not_mem hmi]
    exact hrd true

lemma exponentOf_text :
    exponentOf ((lowered s).text.splitOn 'e') = .ok (Exponent.value s.exponent) := by
  rw [splitOn_text (lowered_marks s), lowered]
  cases s.exponent with
  | none => rfl
  | some e => exact bigint_erase e.sign e.nonempty e.isDigits

lemma componentsOf_text :
    componentsOf (((lowered s).text.splitOn 'e').headD []) =
      (Sign.text s.sign ++ s.whole, s.places) := by
  have hwh : '.' ∉ Sign.text s.sign ++ s.whole := by
    simp only [mem_append, not_or]
    exact ⟨notMem_sign (by decide), notMem_of_digits s.isWhole (by decide)⟩
  have hman : ((lowered s).text.splitOn 'e').headD [] =
      Sign.text s.sign ++ s.whole ++ pointText s.fraction := by
    rw [splitOn_text (lowered_marks s), ← append_assoc]
    rfl
  rw [hman, componentsOf, DecimalText.places]
  cases hfrac : s.fraction with
  | none =>
    rw [pointText, append_nil, splitOn_eq_singleton hwh]
    rfl
  | some digits =>
    have hds := s.isFraction digits hfrac
    rw [pointText, splitOn_pair hwh (notMem_of_digits hds (by decide))]
    rfl

lemma bigint_digits :
    bigint ((Sign.text s.sign ++ s.whole ++ s.places).erase '+') =
      .ok (Sign.factor s.sign * number s.digits) := by
  have hne : s.digits ≠ [] := by
    intro hnil
    obtain ⟨hwh, hpla⟩ := append_eq_nil_iff.mp hnil
    exact s.nonempty.elim (fun hne => hne hwh) fun hne => hne hpla
  rw [append_assoc]
  exact bigint_erase s.sign hne s.isDigits

lemma exists_trimmed (h : IsDigits digits) (hne : number digits ≠ 0) :
    ∃ (kept : List Char) (last : Char) (more : Nat),
      digits = kept ++ [last] ++ List.replicate more '0' ∧ last ≠ '0' := by
  induction digits using List.reverseRecOn with
  | nil => exact absurd rfl hne
  | append_singleton digits c ih =>
    by_cases hc : c = '0'
    · have hds : IsDigits digits := fun d hd => h d (mem_append_left _ hd)
      have hr : number digits ≠ 0 := by
        rw [Numeral.number_append_singleton, hc] at hne
        intro hz
        rw [hz] at hne
        exact hne rfl
      obtain ⟨kept, last, more, rfl, hl⟩ := ih hds hr
      refine ⟨kept, last, more + 1, ?_, hl⟩
      rw [hc, replicate_succ', append_assoc]
    · exact ⟨digits, c, 0, by rw [replicate_zero, append_nil], hc⟩

lemma trim_eq {kept : List Char} {last : Char} {more : Nat} {scale : Int} (hl : last ≠ '0')
    (hlow : -2147483648 ≤ scale) (hhi : scale + more ≤ 2147483647) :
    trim (kept ++ [last] ++ List.replicate more '0') (kept.length + 1 + more) scale =
      (kept.length + 1, scale + more) := by
  generalize hds : kept ++ [last] ++ List.replicate more '0' = digits
  have hend : digits[kept.length]? = some last := by
    rw [← hds, append_assoc, List.getElem?_append_right (Nat.le_refl _), Nat.sub_self]
    rfl
  have hzeros : ∀ i < more, digits[kept.length + 1 + i]? = some '0' := by
    intro i hi
    rw [← hds, List.getElem?_append_right (by simp), length_append,
      length_singleton, Nat.add_sub_cancel_left, List.getElem?_replicate, if_pos hi]
  clear hds
  induction more generalizing scale with
  | zero =>
    rw [cast_zero, Int.add_zero]
    cases hk : kept.length with
    | zero => rfl
    | succ n =>
      rw [hk] at hend
      rw [trim, if_neg]
      rw [hend]
      exact fun heq => hl (Option.some.inj heq)
  | succ more ih =>
    have hz := hzeros more (lt_succ_self more)
    rw [show kept.length + 1 + (more + 1) = kept.length + more + 2 by omega, trim,
      show kept.length + more + 1 = kept.length + 1 + more by omega, if_pos hz,
      wrap_of_inRange ⟨by omega, by omega⟩,
      ih (by omega) (by omega) fun i hi => hzeros i (lt_succ_of_lt hi)]
    push_cast
    rw [show scale + 1 + (more : Int) = scale + (more + 1) by ring]

lemma not_dvd_number {kept : List Char} {last : Char} (h : IsDigits (kept ++ [last]))
    (hl : last ≠ '0') : ¬ 10 ∣ number (kept ++ [last]) := by
  have hdig : last.isDigit = true := h last (by simp)
  have hlt := Numeral.digit_lt hdig
  have hne := mt (Numeral.digit_eq_zero hdig).mp hl
  rw [Numeral.number_append_singleton]
  omega

lemma zeros_eq {kept more : Nat} (h : IsDigits digits) (hk : ¬ 10 ∣ kept)
    (hnum : number digits = kept * 10 ^ more) : zeros digits = more := by
  have hne : number digits ≠ 0 := by
    rw [hnum]
    have hpos : kept ≠ 0 := by
      rintro rfl
      exact hk (dvd_zero 10)
    exact mul_ne_zero hpos (pow_ne_zero more (by decide))
  obtain ⟨hdvd, hndvd⟩ := Numeral.pow_zeros_dvd h hne
  rw [hnum] at hdvd hndvd
  apply le_antisymm
  · by_contra hlt
    obtain ⟨j, hj⟩ := Nat.exists_eq_add_of_lt (Nat.lt_of_not_le hlt)
    rw [hj, show more + j + 1 = (j + 1) + more by omega, pow_add] at hdvd
    have hten := Nat.dvd_of_mul_dvd_mul_right (pow_pos (by decide) more) hdvd
    exact hk ((dvd_pow_self 10 (Nat.succ_ne_zero j)).trans hten)
  · by_contra hlt
    apply hndvd
    exact (pow_dvd_pow 10 (Nat.lt_of_not_le hlt)).trans (Nat.dvd_mul_left _ _)

lemma isDigits_toDigits (n : Nat) : IsDigits (toDigits 10 n) :=
  fun _ hc => isDigit_of_mem_toDigits (by decide) (by decide) hc

lemma number_toDigits (n : Nat) : number (toDigits 10 n) = n := ofDigitChars_ten_toDigits

def constantText (negative : Bool) {significant : List Char} (h : IsDigits significant)
    (hne : significant ≠ []) (exponent : Int) : DecimalText where
  sign := signOf negative
  whole := significant.take 1
  fraction := if 1 < significant.length then some (significant.drop 1) else none
  exponent := some ⟨'e', signOf (decide (exponent < 0)), Nat.toDigits 10 exponent.natAbs,
    Or.inl rfl, isDigits_toDigits _, Nat.toDigits_ne_nil⟩
  isWhole := fun c hc => h c (mem_of_mem_take hc)
  isFraction := by
    intro digits hds
    split at hds
    · cases hds
      exact fun c hc => h c (mem_of_mem_drop hc)
    · cases hds
  nonempty := Or.inl fun hnil => hne (take_eq_nil_iff.mp hnil |>.resolve_left (by decide))

variable {negative : Bool} {significant : List Char} (h : IsDigits significant)
  (hne : significant ≠ []) (exponent : Int)

lemma text_constantText :
    (constantText negative h hne exponent).text =
      (canonical negative significant exponent).toList := by
  rw [canonical, DecimalText.text, constantText]
  rw [text_signOf, Exponent.text, text_signOf, intText]
  split <;> simp [pointText]

lemma digits_constantText : (constantText negative h hne exponent).digits = significant := by
  rw [DecimalText.digits, DecimalText.places, constantText]
  dsimp only
  split
  · rw [Option.getD_some, take_append_drop]
  next hone => rw [Option.getD_none, append_nil, take_of_length_le (not_lt.mp hone)]

lemma places_constantText :
    (constantText negative h hne exponent).places = significant.drop 1 := by
  rw [DecimalText.places, constantText]
  split
  · rfl
  next hone => rw [Option.getD_none, drop_of_length_le (not_lt.mp hone)]

lemma value_exponent_constantText :
    Exponent.value (constantText negative h hne exponent).exponent = exponent := by
  rw [constantText, Exponent.value, number_toDigits]
  by_cases hneg : exponent < 0
  · rw [decide_eq_true hneg, signOf, if_pos rfl, Sign.factor, if_pos rfl]
    omega
  · rw [decide_eq_false hneg, signOf, Sign.factor, if_neg (by simp)]
    omega

lemma classic_constantText (hl : significant.getLast? ≠ some '0') :
    Decimal.Classic (constantText negative h hne exponent) := by
  have hwh : (significant.take 1).length = 1 := by
    rw [length_take]
    exact min_eq_left (length_pos_iff.mpr hne)
  refine ⟨Decimal.signOf_ne_plus negative, ?_, ?_, ?_⟩
  · intro hnil
    have hemp : significant.take 1 = [] := hnil
    rw [hemp] at hwh
    cases hwh
  · rw [constantText]
    split
    next hm =>
      intro hnil
      have hdr := Option.some.inj hnil
      exact absurd (drop_eq_nil_iff.mp hdr) (not_le.mpr hm)
    next => simp
  · rintro e ⟨⟩
    refine ⟨rfl, Decimal.signOf_ne_plus _, hwh, ?_⟩
    rw [places_constantText, List.getLast?_drop]
    split
    · simp
    · exact hl

variable {scale : Int} (hlow : -32 ≤ scale)
  (hhigh : scale + significant.length - 1 ≤ 2147483647)

include h hne hlow hhigh in
lemma fromString_canonical (hten : ¬ 10 ∣ number significant)
    (hlast : significant.getLast? ≠ some '0') :
    Decimal.fromString (canonical negative significant (scale + significant.length - 1)) =
      .ok (some ⟨Sign.factor (signOf negative) * number significant, scale⟩) := by
  have hlen : 1 ≤ significant.length := length_pos_iff.mpr hne
  have hpla : (constantText negative h hne (scale + significant.length - 1)).scale = scale := by
    rw [DecimalText.scale, value_exponent_constantText, places_constantText, length_drop]
    omega
  have hpts :
      Decimal.readParts (canonical negative significant (scale + significant.length - 1)) =
        some (Sign.factor (signOf negative) * number significant, scale) := by
    apply Decimal.readParts_iff.mpr
    refine ⟨constantText negative h hne (scale + significant.length - 1), text_constantText _ _ _,
      classic_constantText _ _ _ hlast, ?_, ?_, ?_, ?_⟩
    · rw [value_exponent_constantText]
      omega
    · rw [value_exponent_constantText]
      exact hhigh
    · rw [digits_constantText]
      rfl
    · rw [hpla, wrap_of_inRange ⟨by omega, by omega⟩]
  have hdvd : ¬ (10 : Int) ∣ Sign.factor (signOf negative) * number significant := by
    intro hbad
    apply hten
    have habs := Int.natAbs_dvd_natAbs.mpr hbad
    rw [Int.natAbs_mul] at habs
    rcases Sign.factor_eq (signOf negative) with hfac | hfac
    · rwa [hfac, Int.natAbs_one, one_mul] at habs
    · rwa [hfac, Int.natAbs_neg, Int.natAbs_one, one_mul] at habs
  have hcan := Decimal.canonical_of_not_dvd hdvd hlow (by omega)
  have hnor := hcan.normalize_eq (Decimal.ne_zero_of_not_dvd hdvd)
  rw [Decimal.fromString, hpts]
  dsimp only at hnor ⊢
  rw [hnor]
  rfl

include h hne hlow hhigh in
lemma checked_eq (context : String) (hten : ¬ 10 ∣ number significant)
    (hlast : significant.getLast? ≠ some '0') :
    checked context negative significant scale =
      .ok (canonical negative significant (scale + significant.length - 1)) := by
  have hhead := head_ne_minus h [] hne
  rw [append_nil] at hhead
  have hbig : bigint (minus negative ++ significant) =
      .ok (Sign.factor (signOf negative) * number significant) := by
    rw [bigint, signed_minus negative hhead]
    dsimp only
    rw [if_pos (allDigits_iff.mpr ⟨hne, h⟩), readInteger_eq]
  have hread :
      Decimal.fromString (canonical negative significant (scale + significant.length - 1)) = _ :=
    fromString_canonical h hne hlow hhigh hten hlast
  unfold checked
  dsimp only
  rw [wrap_of_inRange ⟨by omega, hhigh⟩, hread]
  simp only [runtime, bind, Except.bind, hbig]
  rw [if_neg]
  · rfl
  · simp

omit negative significant in
lemma normalized_spec (context : String) {coefficient scale : Int} (hne : coefficient ≠ 0)
    (hlow : -2147483648 ≤ scale)
    (hhigh : scale + (toDigits 10 coefficient.natAbs).length ≤ 2147483647) :
    ∃ (kept : Int) (more : Nat), coefficient = kept * 10 ^ more ∧ ¬ 10 ∣ kept.natAbs ∧
      (scale + more < -32 → normalized context coefficient scale =
        .error (.invalid "moonbit.literal_precision_loss" context
          "SDK Decimal would truncate digits below exponent -32")) ∧
      (-32 ≤ scale + more → ∃ constant, normalized context coefficient scale = .ok constant ∧
        Decimal.fromString constant = .ok (some ⟨kept, scale + more⟩)) := by
  have hdigs := isDigits_toDigits coefficient.natAbs
  have hnum := number_toDigits coefficient.natAbs
  have hnon : number (toDigits 10 coefficient.natAbs) ≠ 0 := by
    rw [hnum]
    exact Int.natAbs_ne_zero.mpr hne
  obtain ⟨kept, last, more, htri, hlast⟩ := exists_trimmed hdigs hnon
  have hsig : IsDigits (kept ++ [last]) := by
    intro c hc
    apply hdigs c
    rw [htri]
    exact mem_append_left _ hc
  have hten := not_dvd_number hsig hlast
  have hlen : (toDigits 10 coefficient.natAbs).length = kept.length + 1 + more := by
    rw [htri, length_append, length_append, length_singleton, length_replicate]
  have htrim : trim (toDigits 10 coefficient.natAbs) (toDigits 10 coefficient.natAbs).length
      scale = (kept.length + 1, scale + more) := by
    rw [hlen, htri]
    exact trim_eq hlast hlow (by omega)
  have htake : (toDigits 10 coefficient.natAbs).take (kept.length + 1) = kept ++ [last] := by
    rw [htri]
    exact take_left' (by simp)
  have hcoef : coefficient =
      Sign.factor (signOf (decide (coefficient < 0))) * number (kept ++ [last]) * 10 ^ more := by
    have habs : (coefficient.natAbs : Int) = number (kept ++ [last]) * 10 ^ more := by
      rw [htri, number_append_zeros] at hnum
      exact_mod_cast hnum.symm
    rw [mul_assoc]
    by_cases hneg : coefficient < 0
    · rw [decide_eq_true hneg, signOf, if_pos rfl, Sign.factor, if_pos rfl]
      omega
    · rw [decide_eq_false hneg, Sign.factor, if_neg nofun]
      omega
  refine ⟨_, more, hcoef, ?_, ?_, ?_⟩
  · rw [Int.natAbs_mul]
    rcases Sign.factor_eq (signOf (decide (coefficient < 0))) with hfac | hfac
    · rwa [hfac, Int.natAbs_one, one_mul]
    · rwa [hfac, Int.natAbs_neg, Int.natAbs_one, one_mul]
  · intro hfloor
    rw [normalized, if_neg hne]
    dsimp only
    rw [htrim]
    exact if_pos hfloor
  · intro hfloor
    have hemp : kept ++ [last] ≠ [] := by simp
    have hgetLast : (kept ++ [last]).getLast? ≠ some '0' := by
      rw [List.getLast?_concat]
      exact fun heq => hlast (Option.some.inj heq)
    have hroom : scale + more + (kept ++ [last]).length - 1 ≤ 2147483647 := by
      rw [length_append, length_singleton]
      omega
    refine ⟨_, ?_, fromString_canonical hsig hemp hfloor hroom hten hgetLast⟩
    rw [normalized, if_neg hne]
    dsimp only
    rw [htrim]
    rw [if_neg (Int.not_lt.mpr hfloor), htake]
    exact checked_eq hsig hemp hfloor hroom context hten hgetLast

/-- The last digit of a literal that is no zero is above the floor. -/
def AboveFloor (s : DecimalText) : Prop := number s.digits ≠ 0 → -32 ≤ s.scale + zeros s.digits

lemma length_toDigits_le :
    (toDigits 10 (Sign.factor s.sign * number s.digits : Int).natAbs).length ≤
      max s.digits.length 1 := by
  have hpos : 0 < max s.digits.length 1 := lt_of_lt_of_le one_pos (le_max_right _ _)
  apply (length_toDigits_le_iff (by decide) hpos).mpr
  have hlt := Decimal.number_lt s.isDigits
  have hpow : 10 ^ s.digits.length ≤ 10 ^ max s.digits.length 1 :=
    Nat.pow_le_pow_right (by decide) (le_max_left _ _)
  rw [Int.natAbs_mul]
  rcases Sign.factor_eq s.sign with hfac | hfac
  · rw [hfac, Int.natAbs_one]
    omega
  · rw [hfac, Int.natAbs_neg, Int.natAbs_one]
    omega

lemma decimalConstant_text {text : String} (context : String)
    (hlen : text.toList.length + 10000 ≤ 2147483647) {s : DecimalText} (ht : s.text = text.toList) :
    (¬ (-10000 ≤ Exponent.value s.exponent ∧ Exponent.value s.exponent ≤ 10000) →
      decimalConstant text context =
        .error (.invalid "moonbit.literal_out_of_range" context
          "Decimal exponent exceeds construction budget")) ∧
    (-10000 ≤ Exponent.value s.exponent ∧ Exponent.value s.exponent ≤ 10000 → ¬ AboveFloor s →
      decimalConstant text context =
        .error (.invalid "moonbit.literal_precision_loss" context
          "SDK Decimal would truncate digits below exponent -32")) ∧
    (-10000 ≤ Exponent.value s.exponent ∧ Exponent.value s.exponent ≤ 10000 → AboveFloor s →
      ∃ constant d, decimalConstant text context = .ok constant ∧
        Decimal.fromString constant = .ok (some d) ∧ d.value = s.value) := by
  obtain ⟨lexeme, hlex⟩ := Wire.decimal_iff.mpr ⟨s, ht⟩
  have hlowered : text.toList.map toLower = (lowered s).text := by rw [← ht, map_toLower_text]
  have hcon : decimalConstant text context =
      if Exponent.value s.exponent < -10000 ∨ 10000 < Exponent.value s.exponent then
        .error (.invalid "moonbit.literal_out_of_range" context
          "Decimal exponent exceeds construction budget")
      else normalized context (Sign.factor s.sign * number s.digits)
        (wrap (Exponent.value s.exponent - s.places.length)) := by
    unfold decimalConstant
    simp only [hlex, codec, bind, Except.bind, hlowered, exponentOf_text, componentsOf_text,
      bigint_digits]
  rw [hcon]
  have hsz := s.length_text
  rw [ht] at hsz
  have hpla : s.places.length ≤ s.digits.length := by
    rw [DecimalText.digits, length_append]
    exact le_add_left _ _
  refine ⟨fun hbud => if_pos (by omega), ?_⟩
  by_cases hbud : -10000 ≤ Exponent.value s.exponent ∧ Exponent.value s.exponent ≤ 10000
  swap
  · exact ⟨fun h => absurd h hbud, fun h => absurd h hbud⟩
  rw [if_neg (by omega), wrap_of_inRange ⟨by omega, by omega⟩]
  have hscale : Exponent.value s.exponent - s.places.length = s.scale := rfl
  by_cases hz : number s.digits = 0
  · have hcoef : (Sign.factor s.sign * number s.digits : Int) = 0 := by
      rw [hz, cast_zero, mul_zero]
    refine ⟨fun _ hfl => absurd (fun hne => absurd hz hne) hfl, fun _ _ => ?_⟩
    refine ⟨"0", ⟨0, 0⟩, ?_, rfl, ?_⟩
    · rw [hcoef]
      exact if_pos rfl
    · rw [Decimal.value_eq_scaled, hcoef, Int.cast_zero, zero_mul]
      exact Decimal.value_eq_zero.mpr rfl
  · have hcoef : (Sign.factor s.sign * number s.digits : Int) ≠ 0 := by
      apply mul_ne_zero
      · rcases Sign.factor_eq s.sign with hfac | hfac <;> rw [hfac] <;> decide
      · exact_mod_cast hz
    have hds := length_toDigits_le s
    have hlow : -2147483648 ≤ s.scale := by omega
    obtain ⟨kept, more, hk, hten, hloss, hrd⟩ := normalized_spec context hcoef hlow (by omega)
    have hm : zeros s.digits = more := by
      apply zeros_eq s.isDigits hten
      have habs := congrArg Int.natAbs hk
      rw [Int.natAbs_mul, Int.natAbs_mul] at habs
      rcases Sign.factor_eq s.sign with hfac | hfac
      · rwa [hfac, Int.natAbs_one, one_mul] at habs
      · rwa [hfac, Int.natAbs_neg, Int.natAbs_one, one_mul] at habs
    constructor
    · intro _ hfl
      apply hloss
      by_contra hhi
      apply hfl
      intro _
      omega
    · intro _ hfl
      have hhi := hfl hz
      rw [hm] at hhi
      obtain ⟨constant, hcon, hfromString⟩ := hrd hhi
      refine ⟨constant, _, hcon, hfromString, ?_⟩
      rw [Decimal.value_eq_scaled, hk, Decimal.value, zpow_add₀ (by norm_num), zpow_natCast]
      push_cast
      ring

/-- The constant of a literal is read as the number of the literal.  A literal has no constant
just when its exponent is not in the budget, or the last digit of its number that is no zero
is below the floor. -/
theorem decimalConstant_spec (text context : String)
    (hlen : text.toList.length + 10000 ≤ 2147483647) :
    (∀ constant, decimalConstant text context = .ok constant →
      ∃ (s : DecimalText) (d : Decimal), s.text = text.toList ∧
        Decimal.fromString constant = .ok (some d) ∧ d.value = s.value) ∧
    ∀ s : DecimalText, s.text = text.toList →
      (((∃ error, decimalConstant text context = .error error) ↔
        ¬ (-10000 ≤ Exponent.value s.exponent ∧ Exponent.value s.exponent ≤ 10000) ∨
          ¬ AboveFloor s) ∧
        ∀ error, decimalConstant text context = .error error → ∃ code message,
          error = .invalid code context message) := by
  constructor
  · intro constant hcon
    cases hlex : Wire.decimal text with
    | error error =>
      simp only [decimalConstant, hlex] at hcon
      cases hcon
    | ok lexeme =>
      obtain ⟨s, ht⟩ := Wire.decimal_iff.mp ⟨lexeme, hlex⟩
      obtain ⟨hbud, hloss, hrd⟩ := decimalConstant_text context hlen ht
      by_cases hin : -10000 ≤ Exponent.value s.exponent ∧ Exponent.value s.exponent ≤ 10000
      · by_cases hfl : AboveFloor s
        · obtain ⟨constant', d, hcon', hfromString, hval⟩ := hrd hin hfl
          obtain rfl := Except.ok.inj (hcon.symm.trans hcon')
          exact ⟨s, d, ht, hfromString, hval⟩
        · cases hcon.symm.trans (hloss hin hfl)
      · cases hcon.symm.trans (hbud hin)
  · intro s ht
    obtain ⟨hbud, hloss, hrd⟩ := decimalConstant_text context hlen ht
    by_cases hin : -10000 ≤ Exponent.value s.exponent ∧ Exponent.value s.exponent ≤ 10000
    · by_cases hfl : AboveFloor s
      · obtain ⟨constant, d, hcon, -⟩ := hrd hin hfl
        rw [hcon]
        refine ⟨iff_of_false nofun ?_, nofun⟩
        exact fun hbad => hbad.elim (fun h => h hin) fun h => h hfl
      · rw [hloss hin hfl]
        refine ⟨iff_of_true ⟨_, rfl⟩ (Or.inr hfl), ?_⟩
        rintro error ⟨⟩
        exact ⟨_, _, rfl⟩
    · rw [hbud hin]
      refine ⟨iff_of_true ⟨_, rfl⟩ (Or.inl hin), ?_⟩
      rintro error ⟨⟩
      exact ⟨_, _, rfl⟩

theorem decimalConstant_spec_zeros :
    "12.50E+1".toList.length + 10000 ≤ 2147483647 ∧
      ∀ constant, decimalConstant "12.50E+1" "" = .ok constant →
        ∃ (s : DecimalText) (d : Decimal), s.text = "12.50E+1".toList ∧
          Decimal.fromString constant = .ok (some d) ∧ d.value = s.value :=
  ⟨by decide, (decimalConstant_spec "12.50E+1" "" (by decide)).1⟩

end Morphir.Moonbit.DecimalConstant
