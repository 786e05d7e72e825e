import Morphir.Scheme.Reader

/-!
# The text of a number

A number that the reader produces is normalized or finite, and its text reads
back to it.
-/

namespace Morphir.Scheme

open List Nat LawfulDoubles Except Doubles String

variable {F : Type} [Doubles F]

def Number.Normal : Number F → Prop
  | .integer _ => True
  | .rational n d => 1 < d ∧ Int.gcd n d = 1
  | .real value => Doubles.isFinite value = true

variable {number : Number F}

lemma rational_normal {n d : Int} (h : rational n d = .ok number) : number.Normal := by
  simp only [rational] at h
  by_cases hz : d = 0
  · rw [if_pos hz] at h
    cases h
  rw [if_neg hz] at h
  have hgpos : 0 < (Int.gcd n d : Int) := by
    have hne : Int.gcd n d ≠ 0 := by
      rw [Ne, Int.gcd_eq_zero_iff]
      exact fun h => hz h.2
    omega
  obtain ⟨m, hm⟩ : (Int.gcd n d : Int) ∣ n := Int.gcd_dvd_left ..
  obtain ⟨e, he⟩ : (Int.gcd n d : Int) ∣ d := Int.gcd_dvd_right ..
  generalize hg : (Int.gcd n d : Int) = g at *
  have hcop : Int.gcd m e = 1 := by
    have hgcd : g * (Int.gcd m e : Int) = g * 1 := by
      rw [mul_one]
      conv_rhs => rw [← hg, hm, he, Int.gcd_mul_left]
      push_cast
      rw [abs_of_pos hgpos]
    exact_mod_cast mul_left_cancel₀ hgpos.ne' hgcd
  have hne : e ≠ 0 := by
    rintro rfl
    simp [he] at hz
  have hnor : ∀ m' e' : Int, 0 < e' → Int.gcd m' e' = 1 →
      (if e' = 1 then (ok (.integer m') : Except SchemeError (Number F))
        else .ok (.rational m' e')) = .ok number → number.Normal := by
    intro m' e' hpos hgcd hok
    split_ifs at hok with hone
    · rw [← ok.inj hok]
      trivial
    · rw [← ok.inj hok]
      exact ⟨by omega, hgcd⟩
  have hn : ∀ x : Int, (g * x).tdiv g = x := fun x => Int.mul_tdiv_cancel_left x hgpos.ne'
  rw [hm, he] at h
  by_cases hneg : g * e < 0
  · have heneg : e < 0 := by
      by_contra hge
      have hmul := mul_nonneg hgpos.le (not_lt.mp hge)
      omega
    simp only [if_pos hneg, Int.tdiv_neg, hn] at h
    exact hnor (-m) (-e) (by omega) (by simpa using hcop) h
  · have hepos : 0 < e := by
      rcases lt_or_gt_of_ne hne with hlt | hgt
      · exact absurd (mul_neg_of_pos_of_neg hgpos hlt) hneg
      · exact hgt
    simp only [if_neg hneg, hn] at h
    exact hnor m e hepos hcop h

variable {text : List Char}

lemma parseReal_normal (h : parseReal text = .ok (some number)) : number.Normal := by
  unfold parseReal at h
  split_ifs at h
  · split at h
    · cases h
    · split_ifs at h with hfin
      · rw [← Option.some.inj (ok.inj h)]
        exact hfin
  · cases h

lemma parseNumber_normal (h : parseNumber text = .ok (some number)) : number.Normal := by
  unfold parseNumber at h
  split_ifs at h
  · rw [← Option.some.inj (ok.inj h)]
    trivial
  · split at h
    · split_ifs at h
      · next numerator denominator _ _ =>
        cases hrat : rational (F := F) (bigint numerator) (bigint denominator) with
        | error error => simp [hrat, Except.map] at h
        | ok number' =>
          simp only [hrat, Except.map, Except.ok.injEq, Option.some.injEq] at h
          exact h ▸ rational_normal hrat
      · exact parseReal_normal h
    · exact parseReal_normal h

variable (n : Nat) (z : Int)

lemma toString_toList :
    (toString z).toList =
      if z < 0 then '-' :: toDigits 10 z.natAbs else toDigits 10 z.natAbs := by
  rw [Int.toString_eq_repr, Int.repr_eq_if]
  by_cases h : 0 ≤ z
  · rw [if_pos h, if_neg (by omega), toList_repr, show z.toNat = z.natAbs by omega]
  · rw [if_neg h, if_pos (by omega), toList_append, toList_repr,
      show (-z).toNat = z.natAbs by omega]
    rfl

lemma toDigits_digits : (toDigits 10 n).all Char.isDigit = true := by
  rw [all_eq_true]
  exact fun c hc => isDigit_of_mem_toDigits (by decide) (by decide) hc

lemma toDigits_cons : ∃ c cs, toDigits 10 n = c :: cs ∧ c.isDigit = true := by
  cases h : toDigits 10 n with
  | nil => exact absurd h toDigits_ne_nil
  | cons c cs =>
    have hall := toDigits_digits n
    rw [h, all_cons, Bool.and_eq_true] at hall
    exact ⟨c, cs, rfl, hall.1⟩

lemma isDigit_ne {c d : Char} (hc : c.isDigit = true) (hd : d.isDigit = false) : c ≠ d := by
  rintro rfl
  rw [hd] at hc
  cases hc

lemma integerToken_toDigits :
    integerToken (toDigits 10 n) = true ∧ bigint (toDigits 10 n) = n := by
  obtain ⟨c, cs, hcons, hc⟩ := toDigits_cons n
  have hall := toDigits_digits n
  have hval := ofDigitChars_ten_toDigits (n := n)
  have hmi : c ≠ '-' := isDigit_ne hc (by decide)
  have hplus : c ≠ '+' := isDigit_ne hc (by decide)
  rw [hcons] at hall hval ⊢
  constructor
  · unfold integerToken
    split
    · next h => exact absurd (List.cons.inj h).1 hmi
    · next h => exact absurd (List.cons.inj h).1 hplus
    · simpa using hall
  · unfold bigint
    split
    · next h => exact absurd (List.cons.inj h).1 hmi
    · next h => exact absurd (List.cons.inj h).1 hplus
    · exact_mod_cast hval

lemma integerToken_toString :
    integerToken (toString z).toList = true ∧ bigint (toString z).toList = z := by
  obtain ⟨htok, hval⟩ := integerToken_toDigits z.natAbs
  rw [toString_toList]
  split_ifs with hneg
  · constructor
    · simpa [integerToken] using toDigits_digits z.natAbs
    · have hds := ofDigitChars_ten_toDigits (n := z.natAbs)
      simp only [bigint]
      omega
  · exact ⟨htok, by omega⟩

lemma toString_chars : ∀ c ∈ (toString z).toList, c.isDigit = true ∨ c = '-' := by
  have hds := toDigits_digits z.natAbs
  rw [all_eq_true] at hds
  intro c hc
  rw [toString_toList] at hc
  split_ifs at hc
  · rcases mem_cons.mp hc with rfl | hc
    · exact .inr rfl
    · exact .inl (hds c hc)
  · exact .inl (hds c hc)

lemma toString_cons : ∃ c cs, (toString z).toList = c :: cs ∧
    (c.isDigit = true ∨ c = '-') := by
  cases h : (toString z).toList with
  | nil =>
    have htok := (integerToken_toString z).1
    rw [h] at htok
    simp [integerToken] at htok
  | cons c cs => exact ⟨c, cs, rfl, toString_chars z c (h ▸ mem_cons_self)⟩

lemma splitSlash_of_not_mem (h : '/' ∉ text) : splitSlash text = [text] := by
  induction text with
  | nil => rfl
  | cons c cs ih =>
    simp only [mem_cons, not_or] at h
    simp [splitSlash, Ne.symm h.1, ih h.2]

lemma splitSlash_append {front back : List Char} (hfr : '/' ∉ front) (hbk : '/' ∉ back) :
    splitSlash (front ++ '/' :: back) = [front, back] := by
  induction front with
  | nil => simp [splitSlash, splitSlash_of_not_mem hbk]
  | cons c cs ih =>
    simp only [mem_cons, not_or] at hfr
    simp [splitSlash, Ne.symm hfr.1, ih hfr.2]

lemma slash_not_mem_toString : '/' ∉ (toString z).toList := by
  intro h
  rcases toString_chars z '/' h with hdig | hmi
  · revert hdig
    decide
  · revert hmi
    decide

lemma not_integerToken {c : Char} {cs : List Char} {x : Char} (hx : x ∈ cs)
    (hdig : x.isDigit = false) : integerToken (c :: cs) = false := by
  unfold integerToken
  split
  · next h =>
      obtain ⟨rfl, rfl⟩ := List.cons.inj h
      simp only [Bool.and_eq_false_imp, all_eq_false]
      exact fun _ => ⟨x, hx, by simp [hdig]⟩
  · next h =>
      obtain ⟨rfl, rfl⟩ := List.cons.inj h
      simp only [Bool.and_eq_false_imp, all_eq_false]
      exact fun _ => ⟨x, hx, by simp [hdig]⟩
  · simp only [Bool.and_eq_false_imp, all_eq_false]
    exact fun _ => ⟨x, mem_cons_of_mem _ hx, by simp [hdig]⟩

lemma parseNumber_integer (z : Int) :
    parseNumber (F := F) (toString z).toList = .ok (some (.integer z)) := by
  obtain ⟨htok, hval⟩ := integerToken_toString z
  rw [parseNumber, if_pos htok, hval]

lemma parseNumber_rational {n d : Int} (hd : 1 < d) (hgcd : Int.gcd n d = 1) :
    parseNumber (F := F) ((toString n).toList ++ '/' :: (toString d).toList) =
      .ok (some (.rational n d)) := by
  obtain ⟨hn, hnva⟩ := integerToken_toString n
  obtain ⟨hdto, hdva⟩ := integerToken_toString d
  obtain ⟨c, cs, hc, _⟩ := toString_cons n
  have hnot : integerToken ((toString n).toList ++ '/' :: (toString d).toList) = false := by
    rw [hc]
    exact not_integerToken (x := '/') (by simp) (by decide)
  have hrat : rational (F := F) n d = .ok (.rational n d) := by
    unfold rational
    rw [if_neg (by omega), hgcd]
    simp only [cast_one, Int.tdiv_one, if_neg (show ¬ d < 0 by omega),
      if_neg (show ¬ d = 1 by omega)]
  rw [parseNumber, if_neg (by rw [hnot]; decide),
    splitSlash_append (slash_not_mem_toString n) (slash_not_mem_toString d)]
  simp only [hn, hdto, hnva, hdva, hrat, Bool.and_self, if_true, Except.map]

section Real

variable [LawfulDoubles F]

lemma real_text {value : F} (h : isFinite value = true) :
    ∃ c cs, (Number.real value).toText = c :: cs ∧ (c.isDigit = true ∨ c = '-') ∧
      (∀ x ∈ c :: cs, isDoubleChar x = true) ∧ hasPointOrExponent (c :: cs) = true ∧
      jsonNumber (ofList (c :: cs)) = some value := by
  simp only [Number.toText]
  by_cases hz : isNegativeZero value = true
  · refine ⟨'-', "0.0".toList, ?_, .inr rfl, ?_, by decide, ?_⟩
    · rw [if_pos hz]
      decide
    · exact all_eq_true.mp (by decide)
    · exact (negativeZero value hz).2
  · rw [Bool.not_eq_true] at hz
    obtain ⟨c, cs, hc, hfst⟩ := first value h
    have hchs := chars value h
    rw [hc] at hchs
    simp only [hz, hc]
    by_cases hpt : hasPointOrExponent (c :: cs) = true
    · refine ⟨c, cs, by simp [hpt], hfst, hchs, hpt, ?_⟩
      rw [← hc, ofList_toList]
      exact reads value h hz (by rw [hc]; exact hpt)
    · rw [Bool.not_eq_true] at hpt
      refine ⟨c, cs ++ ".0".toList, by simp [hpt], hfst, ?_, ?_, ?_⟩
      · intro x hx
        rw [← cons_append, mem_append] at hx
        rcases hx with hx | hx
        · exact hchs x hx
        · exact all_eq_true.mp (show ".0".toList.all isDoubleChar = true by decide) x hx
      · simp [hasPointOrExponent]
      · have hrs := readsIntegral value h hz (by rw [hc]; exact hpt)
        have ht : toText value ++ ".0" = ofList (c :: (cs ++ ".0".toList)) := by
          rw [← cons_append, ← hc, ← toList_append, ofList_toList]
        rw [← ht]
        exact hrs

lemma parseNumber_real {value : F} (h : isFinite value = true) :
    parseNumber (Number.real value).toText = .ok (some (.real value)) := by
  obtain ⟨c, cs, hcons, hfst, hchs, hpt, hrs⟩ := real_text h
  rw [hcons]
  have hplus : c ≠ '+' := by
    rcases hfst with hdig | rfl
    · exact isDigit_ne hdig (by decide)
    · decide
  have hsl : '/' ∉ c :: cs := by
    intro hmem
    have hchar := hchs '/' hmem
    revert hchar
    decide
  have hnot : integerToken (c :: cs) = false := by
    obtain ⟨x, hx, hxp⟩ := any_eq_true.mp hpt
    have hxdi : x.isDigit = false ∧ x ≠ '-' := by
      simp only [Bool.or_eq_true, decide_eq_true_eq] at hxp
      rcases hxp with (rfl | rfl) | rfl <;> decide
    rcases mem_cons.mp hx with rfl | hx
    · rcases hfst with hdig | hmi
      · rw [hxdi.1] at hdig
        cases hdig
      · exact absurd hmi hxdi.2
    · exact not_integerToken hx hxdi.1
  have huns : unsigned (c :: cs) = c :: cs := by
    unfold unsigned
    split
    · next heq => exact absurd (List.cons.inj heq).1 hplus
    · rfl
  rw [parseNumber, if_neg (by rw [hnot]; decide), splitSlash_of_not_mem hsl]
  simp only [parseReal, hpt, if_true, huns, hrs, h]

lemma parseNumber_toText (h : number.Normal) : parseNumber number.toText = .ok (some number) := by
  cases number with
  | integer z => exact parseNumber_integer z
  | rational n d => exact parseNumber_rational h.1 h.2
  | real value => exact parseNumber_real h

/-- A character of a number ends no token and starts no other datum. -/
def IsNumberChar (c : Char) : Prop := isDoubleChar c = true ∨ c = '/'

lemma toText_cons (h : number.Normal) :
    ∃ c cs, number.toText = c :: cs ∧ (c.isDigit = true ∨ c = '-') ∧
      ∀ x ∈ c :: cs, IsNumberChar x := by
  have hinteger : ∀ z : Int, ∀ x ∈ (toString z).toList, IsNumberChar x := by
    intro z x hx
    rcases toString_chars z x hx with hdig | rfl
    · exact .inl (by simp [isDoubleChar, hdig])
    · exact .inl (by decide)
  cases number with
  | integer z =>
    obtain ⟨c, cs, hc, hfst⟩ := toString_cons z
    exact ⟨c, cs, hc, hfst, hc ▸ hinteger z⟩
  | rational n d =>
    obtain ⟨c, cs, hc, hfst⟩ := toString_cons n
    refine ⟨c, cs ++ '/' :: (toString d).toList, ?_, hfst, ?_⟩
    · simp only [Number.toText, hc, cons_append]
    · intro x hx
      rw [← cons_append, ← hc, mem_append, mem_cons] at hx
      rcases hx with hx | rfl | hx
      · exact hinteger n x hx
      · exact .inr rfl
      · exact hinteger d x hx
  | real value =>
    obtain ⟨c, cs, hc, hfst, hchs, _⟩ := real_text (h)
    exact ⟨c, cs, hc, hfst, fun x hx => .inl (hchs x hx)⟩

end Real

structure Whole where
  value : Nat
  deriving DecidableEq

def wholeNumber (text : List Char) : Option Whole :=
  match text.reverse with
  | '0' :: '.' :: digits =>
    if !digits.isEmpty && digits.all Char.isDigit then
      some ⟨Nat.ofDigitChars 10 digits.reverse 0⟩
    else none
  | _ => none

instance : Doubles Whole where
  isNegativeZero _ := false
  isFinite _ := true
  toText v := toString v.value
  jsonNumber text := wholeNumber text.toList

lemma whole_toText (v : Whole) : (toText v).toList = toDigits 10 v.value := toList_repr

instance : LawfulDoubles Whole where
  first v _ := by
    rw [whole_toText]
    obtain ⟨c, cs, hcons, hc⟩ := toDigits_cons v.value
    exact ⟨c, cs, hcons, .inl hc⟩
  chars v _ := by
    rw [whole_toText]
    intro c hc
    have hdig := all_eq_true.mp (toDigits_digits v.value) c hc
    simp [isDoubleChar, hdig]
  reads v _ _ hpt := by
    rw [whole_toText] at hpt
    obtain ⟨c, hc, hpt⟩ := any_eq_true.mp hpt
    have hdig := all_eq_true.mp (toDigits_digits v.value) c hc
    simp only [Bool.or_eq_true, decide_eq_true_eq] at hpt
    have hne := fun d => isDigit_ne (d := d) hdig
    rcases hpt with (heq | heq) | heq
    · exact absurd heq (hne '.' (by decide))
    · exact absurd heq (hne 'e' (by decide))
    · exact absurd heq (hne 'E' (by decide))
  readsIntegral v _ _ _ := by
    have ht : (Doubles.toText v ++ ".0").toList.reverse =
        '0' :: '.' :: (Nat.toDigits 10 v.value).reverse := by
      rw [String.toList_append, whole_toText, reverse_append]
      rfl
    have hds : (Nat.toDigits 10 v.value).reverse.all Char.isDigit = true := by
      rw [all_reverse]
      exact toDigits_digits v.value
    have hne : (Nat.toDigits 10 v.value).reverse.isEmpty = false := by simp [Nat.toDigits_ne_nil]
    change wholeNumber (Doubles.toText v ++ ".0").toList = some v
    rw [wholeNumber, ht]
    simp only [hds, hne, reverse_reverse, Nat.ofDigitChars_ten_toDigits]
    rfl
  negativeZero v h := by cases h

end Morphir.Scheme
