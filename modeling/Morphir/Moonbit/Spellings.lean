import Morphir.Moonbit.AllocationFacts

/-!
# Spellings of candidates

A candidate of a valid name in a valid module has portable spellings, and the hex
digits of a text determine it.
-/

namespace Morphir.Moonbit

open List

lemma hexByte_inj {a b : UInt8} (h : hexByte a = hexByte b) : a = b := by
  have hdig (i j : Nat) (hi : i < 16) (hj : j < 16)
      (heq : hexDigits.getD i '0' = hexDigits.getD j '0') : i = j := by
    have hall : ∀ i < 16, ∀ j < 16, hexDigits.getD i '0' = hexDigits.getD j '0' → i = j := by decide
    exact hall i hi j hj heq
  have ha := a.toNat_lt
  have hb := b.toNat_lt
  rw [hexByte, hexByte, List.cons.injEq, List.cons.injEq] at h
  have hhi := hdig _ _ (by omega) (by omega) h.1
  have hlow := hdig _ _ (by omega) (by omega) h.2.1
  exact UInt8.toNat_inj.mp (by omega)

lemma flatMap_hexByte_inj {as bs : List UInt8} (h : as.flatMap hexByte = bs.flatMap hexByte) :
    as = bs := by
  induction as generalizing bs with
  | nil =>
    cases bs with
    | nil => rfl
    | cons b bs => cases h
  | cons a as ih =>
    cases bs with
    | nil => cases h
    | cons b bs =>
      obtain ⟨hbyte, hr⟩ := append_inj h rfl
      rw [hexByte_inj hbyte, ih hr]

lemma hex_inj {a b : String} (h : hex a = hex b) : a = b := by
  have hli := congrArg String.toList h
  rw [hex, hex, String.toList_ofList, String.toList_ofList] at hli
  have hd := flatMap_hexByte_inj hli
  exact String.toByteArray_inj.mp (ByteArray.ext (Array.toList_inj.mp hd))

variable {upper : Bool}

lemma portable_hex {start : String} (hsta : usableIdentifier start upper = true)
    (hh : start.toList.head? ≠ some 'p') (text more : String)
    (hm : ∀ c ∈ more.toList, isIdentifier c = true) :
    Portable upper (start ++ ("_" ++ hex text ++ more)) := by
  have hli : ("_" ++ hex text ++ more).toList = '_' :: (hexChars text ++ more.toList) := by
    simp [hex]
  have hne {word : String} (hw : word.toList.head? = some 'p') :
      start ++ ("_" ++ hex text ++ more) ≠ word := by
    rintro rfl
    obtain ⟨⟨c, cs, hcons, -⟩, -⟩ := usableIdentifier_iff.mp hsta
    rw [String.toList_append, hcons] at hw
    rw [hcons] at hh
    exact hh hw
  refine portable_append hsta hli (fun c hc => ?_) (hne (by decide)) (hne (by decide))
  rcases mem_append.mp hc with hc | hc
  · exact isIdentifier_hexChars text c hc
  · exact hm c hc

variable {c : Char}

lemma isIdentifier_of_isNameChar (h : IsNameChar c) : isIdentifier c = true := by
  unfold isIdentifier
  rcases h with h | h | h
  · rw [show isDigit c = true from h]
    simp
  · rw [show isLower c = true from h]
    simp
  · rw [show isUpper c = true from h]
    simp

lemma toNat_lt_of_isNameChar (h : IsNameChar c) : c.toNat < 128 := by
  simp only [IsNameChar, Name.isDigit, Name.isLowerLetter, Name.isUpperLetter,
    decide_eq_true_eq] at h
  rcases h with h | h | h
  · exact Nat.lt_of_le_of_lt h.2 (by decide)
  · exact Nat.lt_of_le_of_lt h.2 (by decide)
  · exact Nat.lt_of_le_of_lt h.2 (by decide)

lemma isIdentifier_toUpper (h : IsNameChar c) : isIdentifier c.toUpper = true := by
  have hall : ∀ n < 128, isIdentifier (Char.ofNat n) = true →
      isIdentifier (Char.ofNat n).toUpper = true := by decide
  have hsf := hall c.toNat (toNat_lt_of_isNameChar h)
  rw [Char.ofNat_toNat] at hsf
  exact hsf (isIdentifier_of_isNameChar h)

variable {name : Name}

lemma ValidName.parts (h : ValidName name) :
    ∀ part ∈ name.toCanonical.toList.splitOn '-', ∀ c ∈ part, IsNameChar c := by
  unfold ValidName Name.parse at h
  split at h
  · rename_i segments hsegments
    intro part hpa
    obtain ⟨segment, hsegment⟩ := exists_of_mapM hsegments part hpa
    exact (parseSegment_chars hsegment).2
  · cases h

variable {parts : List (List Char)}

lemma isIdentifier_intercalate (h : ∀ part ∈ parts, ∀ c ∈ part, IsNameChar c) :
    ∀ c ∈ ['_'].intercalate parts, isIdentifier c = true := by
  induction parts with
  | nil => exact fun c hc => absurd hc not_mem_nil
  | cons part parts ih =>
    intro c hc
    have hpa (c : Char) (hc : c ∈ part) : isIdentifier c = true :=
      isIdentifier_of_isNameChar (h part mem_cons_self c hc)
    cases parts with
    | nil =>
      rw [intercalate_singleton] at hc
      exact hpa c hc
    | cons part' parts =>
      rw [intercalate_cons_cons] at hc
      rcases mem_append.mp hc with hc | hc
      · rcases mem_append.mp hc with hc | hc
        · exact hpa c hc
        · rw [mem_singleton.mp hc]
          decide
      · exact ih (fun p hp => h p (mem_cons_of_mem _ hp)) c hc

lemma isIdentifier_capitalized (h : ∀ part ∈ parts, ∀ c ∈ part, IsNameChar c) :
    ∀ c ∈ parts.flatMap capitalized, isIdentifier c = true := by
  intro c hc
  obtain ⟨part, hpa, hc⟩ := mem_flatMap.mp hc
  cases part with
  | nil => cases hc
  | cons d part =>
    rcases mem_cons.mp hc with rfl | hc
    · exact isIdentifier_toUpper (h _ hpa d mem_cons_self)
    · exact isIdentifier_of_isNameChar (h _ hpa c (mem_cons_of_mem _ hc))

lemma usable_started {text : String} (ht : ∀ c ∈ text.toList, isIdentifier c = true)
    (upper : Bool) :
    usableIdentifier (if usableIdentifier text upper then text
      else (if upper then "Type_" else "value_") ++ text) upper = true := by
  by_cases husa : usableIdentifier text upper = true
  · rw [if_pos husa, husa]
  · rw [if_neg husa]
    cases upper with
    | true | false => exact usableIdentifier_append (by decide) ht

lemma usable_renderName (h : ValidName name) (upper : Bool) :
    usableIdentifier (renderName name upper) upper = true := by
  refine usable_started (fun c hc => ?_) upper
  cases upper with
  | true => exact isIdentifier_capitalized h.parts c (by simpa using hc)
  | false => exact isIdentifier_intercalate h.parts c (by simpa using hc)

lemma usable_intercalate {text : String} {texts : List String}
    (h : ∀ t ∈ text :: texts, usableIdentifier t upper = true) :
    usableIdentifier (String.intercalate "_" (text :: texts)) upper = true := by
  induction texts generalizing text with
  | nil => exact h text mem_cons_self
  | cons text' texts ih =>
    have hr := ih fun t ht => h t (mem_cons_of_mem _ ht)
    have hspl : String.intercalate "_" (text :: text' :: texts) =
        text ++ ("_" ++ String.intercalate "_" (text' :: texts)) := by
      apply String.toList_inj.mp
      simp
    rw [hspl]
    refine usableIdentifier_append (h text mem_cons_self) fun c hc => ?_
    rw [String.toList_append] at hc
    rcases mem_append.mp hc with hc | hc
    · rw [mem_singleton.mp hc]
      decide
    · exact (usableIdentifier_iff.mp hr).2.2 c hc

variable {base : String}

lemma portable_suffix {more : String} (hba : usableIdentifier base upper = true)
    (back : List Char) (hm : more.toList = '_' :: back) (hbk : ∀ c ∈ back, isIdentifier c = true)
    (hl : more.toList.getLast? ≠ some 't') : Portable upper (base ++ more) := by
  have hne {word : String} (hw : word.toList.getLast? = some 't') : base ++ more ≠ word := by
    rintro rfl
    rw [String.toList_append, List.getLast?_append, hm] at hw
    rw [hm] at hl
    obtain ⟨c, hc⟩ := Option.isSome_iff_exists.mp
      (show (('_' :: back).getLast?).isSome = true by simp)
    exact hl hw
  exact portable_append hba hm hbk (hne (by decide)) (hne (by decide))

/-- A name with `_value` where it is a keyword. -/
def escaped (base : String) : String := if keyword base then base ++ "_value" else base

lemma portable_escaped (h : usableIdentifier base upper = true) :
    Portable upper (escaped base) := by
  unfold escaped
  split
  · exact portable_suffix h "value".toList rfl
      (all_eq_true.mp (by decide)) (by decide)
  · rename_i hkey
    exact ⟨h, by simpa using hkey⟩

lemma portable_qualified {qualifier : String} (hqua : usableIdentifier qualifier upper = true)
    (hba : Portable upper base) : Portable upper (qualifier ++ ("_" ++ base)) := by
  have hne (front back : String) (hfr : '_' ∉ front.toList) (hbk : '_' ∉ back.toList)
      (hkey : keyword back = true) : qualifier ++ ("_" ++ base) ≠ front ++ ("_" ++ back) := by
    intro heq
    have hli := congrArg String.toList heq
    have hcnt := congrArg (List.count '_') hli
    simp only [String.toList_append, count_append, count_eq_zero_of_not_mem hfr,
      count_eq_zero_of_not_mem hbk] at hcnt
    have hq : '_' ∉ qualifier.toList := count_eq_zero.mp (by omega)
    simp only [String.toList_append] at hli
    rw [show "_".toList = ['_'] from rfl, singleton_append, singleton_append,
      append_cons_inj_of_notMem hq (count_eq_zero.mp (by omega))] at hli
    have hsm : base = back := String.toList_inj.mp hli.2.2
    rw [← hsm, hba.noKeyword] at hkey
    cases hkey
  have hli : ("_" ++ base).toList = '_' :: base.toList := by simp
  refine portable_append hqua hli (usableIdentifier_iff.mp hba.usable).2.2 ?_ ?_
  · exact hne "proof" "assert" (by decide) (by decide) (by decide)
  · exact hne "proof" "let" (by decide) (by decide) (by decide)

structure Spelled (upper : Bool) (c : NamingCandidate) : Prop where
  requested : ∀ name, c.requested = some name → Portable upper name
  candidate : Portable upper c.candidate
  qualified : Portable upper c.qualified

lemma usable_hint (h : ValidName name) (original : Option String) (upper : Bool) :
    usableIdentifier
      ((original.filter fun text => usableIdentifier text upper).getD (renderName name upper))
      upper = true := by
  cases hhint : original.filter fun text => usableIdentifier text upper with
  | none => exact usable_renderName h upper
  | some text => exact (Option.filter_eq_some_iff.mp hhint).2

lemma candidate_candidate (owner role : String) (name : Name) (moduleName : Path)
    (original : Option String) (source : Option Span) (upper : Bool) (requested : Option String) :
    (candidate owner role name moduleName original source upper requested).candidate =
      escaped ((original.filter fun text => usableIdentifier text upper).getD
        (renderName name upper)) := rfl

lemma spelled_candidate (owner role : String) {moduleName : Path} (hname : ValidName name)
    (hmod : ValidPath moduleName) (original : Option String) (source : Option Span) (upper : Bool)
    {requested : Option String} (hrqd : ∀ text, requested = some text → Portable upper text) :
    Spelled upper (candidate owner role name moduleName original source upper requested) := by
  have hba := portable_escaped (usable_hint hname original upper)
  refine ⟨hrqd, candidate_candidate .. ▸ hba, ?_⟩
  have hqua : usableIdentifier (String.intercalate "_"
      (moduleName.segments.map fun n => renderName n upper)) upper = true := by
    obtain ⟨name', names, hseg⟩ := exists_cons_of_ne_nil hmod.nonempty
    have hall : ∀ text ∈ moduleName.segments.map fun n => renderName n upper,
        usableIdentifier text upper = true := by
      intro text ht
      obtain ⟨n, hn, rfl⟩ := mem_map.mp ht
      exact usable_renderName (hmod.names n hn) upper
    rw [hseg] at hall ⊢
    exact usable_intercalate hall
  have hqual := portable_qualified hqua hba
  rw [← String.append_assoc] at hqual
  exact hqual

end Morphir.Moonbit
