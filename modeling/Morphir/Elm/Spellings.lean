import Morphir.Elm.Names
import Morphir.IR.LegacyNames

/-!
# Elm spellings

The words of an Elm identifier and the name that they make.  The spelling of a name reads back
as the name, unless its words run together in the spelling.
-/

namespace Morphir.Elm

open Name List UInt32

def pushWord (words : List String) (current : List Char) : List String :=
  if current = [] then words else words ++ [String.ofList current]

/-- The loop of `elm_words`: the words before the current one, the current one, and whether it is
a run of digits. -/
def wordsFrom (words : List String) (current : List Char) (digits : Bool) :
    List Char → List String
  | [] => pushWord words current
  | c :: text =>
    if isDigit c = true then
      if digits = true then wordsFrom words (current ++ [c]) true text
      else wordsFrom (pushWord words current) [c] true text
    else if isUpperLetter c = true then
      wordsFrom (pushWord words current) [Char.ofNat (c.toNat + 32)] false text
    else if isLowerLetter c = true then
      if digits = true then wordsFrom (pushWord words current) [c] false text
      else wordsFrom words (current ++ [c]) false text
    else wordsFrom (pushWord words current) [] false text

/-- An upper-case letter starts a word, lower-case letters continue a letter word, and a digit
run is its own word.  Other characters split words. -/
def elmWords (text : String) : List String := wordsFrom [] [] false text.toList

def elmName (text : String) : Name := Name.fromWords (elmWords text)

/-! ### The words of an identifier -/

def IsNumeral (word : String) : Prop := word.toList ≠ [] ∧ ∀ c ∈ word.toList, isDigit c = true

def IsLetters (word : String) : Prop := word.toList ≠ [] ∧ ∀ c ∈ word.toList, isLowerLetter c = true

variable {words : List String} {current : List Char} {digits : Bool}

lemma lower_upper {c : Char} (h : isUpperLetter c = true) :
    isLowerLetter (Char.ofNat (c.toNat + 32)) = true := by
  have hcode : 65 ≤ c.toNat ∧ c.toNat ≤ 90 := by
    simpa [isUpperLetter, Char.le_def, le_iff_toNat_le] using h
  generalize c.toNat = n at hcode ⊢
  obtain ⟨hlow, hhigh⟩ := hcode
  interval_cases n <;> decide

/-- The current word is of the kind that the loop says. -/
def IsRun (current : List Char) (digits : Bool) : Prop :=
  ∀ c ∈ current, (if digits = true then isDigit c else isLowerLetter c) = true

lemma mem_pushWord (hrun : IsRun current digits)
    (hwords : ∀ word ∈ words, IsLetters word ∨ IsNumeral word) :
    ∀ word ∈ pushWord words current, IsLetters word ∨ IsNumeral word := by
  unfold pushWord
  split
  · exact hwords
  rename_i hne
  intro word hword
  rcases mem_append.mp hword with hword | hword
  · exact hwords word hword
  cases mem_singleton.mp hword
  cases digits
  · exact .inl ⟨by simpa using hne, by simpa [IsRun] using hrun⟩
  · exact .inr ⟨by simpa using hne, by simpa [IsRun] using hrun⟩

lemma mem_wordsFrom (hrun : IsRun current digits)
    (hwords : ∀ word ∈ words, IsLetters word ∨ IsNumeral word) :
    ∀ word ∈ wordsFrom words current digits text, IsLetters word ∨ IsNumeral word := by
  induction text generalizing words current digits with
  | nil => exact mem_pushWord hrun hwords
  | cons c text ih =>
    have hpush := mem_pushWord hrun hwords
    rw [wordsFrom]
    split_ifs with hdigit hdigits hupper hlower hdigits
    · subst hdigits
      exact ih (forall_mem_append.mpr ⟨hrun, by simpa using hdigit⟩) hwords
    · exact ih (by simpa [IsRun] using hdigit) hpush
    · exact ih (by simpa [IsRun] using lower_upper hupper) hpush
    · exact ih (by simpa [IsRun] using hlower) hpush
    · rw [Bool.not_eq_true] at hdigits
      subst hdigits
      exact ih (forall_mem_append.mpr ⟨hrun, by simpa using hlower⟩) hwords
    · exact ih (by simp [IsRun]) hpush

lemma mem_elmWords {text : String} : ∀ word ∈ elmWords text, IsLetters word ∨ IsNumeral word :=
  mem_wordsFrom (by simp [IsRun]) fun _ hword => absurd hword not_mem_nil

/-! ### Reading a spelling -/

/-- Two runs of digits in a row would read as one. -/
def NumeralsApart (words : List String) : Prop :=
  words.IsChain fun a b => ¬ (IsNumeral a ∧ IsNumeral b)

variable {word : String} {text : List Char}

lemma wordsFrom_lower {chars : List Char} (h : ∀ c ∈ chars, isLowerLetter c = true) :
    wordsFrom words current false (chars ++ text) =
      wordsFrom words (current ++ chars) false text := by
  induction chars generalizing current with
  | nil => simp
  | cons c chars ih =>
    obtain ⟨hc, hchars⟩ := forall_mem_cons.mp h
    have hcode : 97 ≤ c.toNat ∧ c.toNat ≤ 122 := by
      simpa [isLowerLetter, Char.le_def, le_iff_toNat_le] using hc
    have hdigit : isDigit c = false := by
      simp [isDigit, Char.le_def, le_iff_toNat_le]
      omega
    have hupper : isUpperLetter c = false := by
      simp [isUpperLetter, Char.le_def, le_iff_toNat_le]
      omega
    rw [cons_append, wordsFrom, hdigit, hupper, hc]
    rw [ih hchars, append_assoc]
    rfl

lemma wordsFrom_digits {chars : List Char} (h : ∀ c ∈ chars, isDigit c = true) :
    wordsFrom words current true (chars ++ text) =
      wordsFrom words (current ++ chars) true text := by
  induction chars generalizing current with
  | nil => simp
  | cons c chars ih =>
    obtain ⟨hc, hchars⟩ := forall_mem_cons.mp h
    rw [cons_append, wordsFrom, if_pos hc, ih hchars, append_assoc]
    rfl

lemma lower_upperFirst {c : Char} (h : isLowerLetter c = true) :
    isDigit (Char.ofNat (c.toNat - 32)) = false ∧ isUpperLetter (Char.ofNat (c.toNat - 32)) = true ∧
      Char.ofNat ((Char.ofNat (c.toNat - 32)).toNat + 32) = c ∧
      Char.ofNat (c.toNat - 32) = c.toUpper := by
  have hcode : 97 ≤ c.toNat ∧ c.toNat ≤ 122 := by
    simpa [isLowerLetter, Char.le_def, le_iff_toNat_le] using h
  rw [← Char.ofNat_toNat c]
  generalize c.toNat = n at hcode ⊢
  obtain ⟨hlow, hhigh⟩ := hcode
  interval_cases n <;> decide

lemma wordsFrom_letters (hword : IsLetters word) :
    wordsFrom words current digits ((upperFirst word).toList ++ text) =
      wordsFrom (pushWord words current) word.toList false text := by
  obtain ⟨hne, hchars⟩ := hword
  cases hlist : word.toList with
  | nil => exact absurd hlist hne
  | cons c chars =>
    rw [hlist] at hchars
    obtain ⟨hc, hchars⟩ := forall_mem_cons.mp hchars
    have hupper : (upperFirst word).toList = Char.ofNat (c.toNat - 32) :: chars := by
      rw [upperFirst, hlist]
      simp [hc]
    obtain ⟨hdigit, hletter, hback, -⟩ := lower_upperFirst hc
    rw [hupper, cons_append, wordsFrom, hdigit, if_pos hletter, hback, wordsFrom_lower hchars]
    rfl

lemma upperFirst_numeral (hword : IsNumeral word) : upperFirst word = word := by
  obtain ⟨hne, hchars⟩ := hword
  unfold upperFirst
  split
  · rename_i hnil
    exact absurd hnil hne
  · rename_i c chars hlist
    have hc : isDigit c = true := hchars c (by simp [hlist])
    have hcode : 48 ≤ c.toNat ∧ c.toNat ≤ 57 := by
      simpa [isDigit, Char.le_def, le_iff_toNat_le] using hc
    have hlower : ¬ isLowerLetter c = true := by
      simp [isLowerLetter, Char.le_def, le_iff_toNat_le]
      omega
    rw [if_neg hlower, ← hlist, String.ofList_toList]

lemma wordsFrom_numeral (hword : IsNumeral word) :
    wordsFrom words current false (word.toList ++ text) =
      wordsFrom (pushWord words current) word.toList true text := by
  obtain ⟨hne, hchars⟩ := hword
  cases hlist : word.toList with
  | nil => exact absurd hlist hne
  | cons c chars =>
    rw [hlist] at hchars
    obtain ⟨hc, hchars⟩ := forall_mem_cons.mp hchars
    rw [cons_append, wordsFrom, if_pos hc, if_neg Bool.false_ne_true, wordsFrom_digits hchars]
    rfl

lemma pushWord_word (hne : word.toList ≠ []) : pushWord words word.toList = words ++ [word] := by
  rw [pushWord, if_neg hne, String.ofList_toList]

/-- Words that stand apart are read back one by one. -/
theorem wordsFrom_words {more : List String}
    (hkinds : ∀ word ∈ more, IsLetters word ∨ IsNumeral word) (hapart : NumeralsApart more)
    (hfirst : digits = true → ∀ word ∈ more.head?, IsLetters word) :
    wordsFrom words current digits (String.join (more.map upperFirst)).toList =
      pushWord words current ++ more := by
  induction more generalizing words current digits with
  | nil => simp [wordsFrom]
  | cons word more ih =>
    obtain ⟨hword, hkinds⟩ := forall_mem_cons.mp hkinds
    have hrest : NumeralsApart more := hapart.tail
    rw [map_cons, String.join_cons, String.toList_append]
    by_cases hletters : IsLetters word
    · rw [wordsFrom_letters hletters, ih hkinds hrest (fun h => absurd h (by decide)),
        pushWord_word hletters.1, append_assoc]
      rfl
    · have hnumeral := hword.resolve_left hletters
      have hdigits : digits = false := Bool.eq_false_iff.mpr fun h => hletters (hfirst h word rfl)
      subst hdigits
      rw [upperFirst_numeral hnumeral, wordsFrom_numeral hnumeral, ih hkinds hrest,
        pushWord_word hnumeral.1, append_assoc]
      · rfl
      · intro _ next hnext
        cases more with
        | nil => cases hnext
        | cons next' more =>
          cases hnext
          refine (hkinds next mem_cons_self).resolve_right fun h => ?_
          exact (isChain_cons_cons.mp hapart).1 ⟨hnumeral, h⟩

/-! ### The spelling of a name -/

lemma join_upperSegment_run {run : List String} (h : ∀ word ∈ run, isLetterWord word = true) :
    String.join ((segmentOfRun run).map upperSegment) = String.join (run.map upperFirst) := by
  unfold segmentOfRun
  split
  · rfl
  · rfl
  · obtain ⟨letters, hletters, rfl⟩ := letters_eq h
    rw [map_singleton, upperSegment]
    apply String.toList_injective
    rw [String.join_cons, String.join_nil, String.append_empty, toList_initialism,
      String.toList_join, map_map, flatMap_map, map_eq_flatMap]
    refine flatMap_congr fun c hc => ?_
    have hlower := hletters c hc
    simp [upperFirst, hlower, (lower_upperFirst hlower).2.2.2]

lemma join_upperSegment {run : List String} (h : ∀ word ∈ run, isLetterWord word = true)
    (words : List String) : String.join ((segmentsOfWords run words).map upperSegment) =
      String.join ((run ++ words).map upperFirst) := by
  induction words generalizing run with
  | nil =>
    rw [append_nil]
    exact join_upperSegment_run h
  | cons word words ih =>
    unfold segmentsOfWords
    split
    case isTrue hletter =>
      rw [ih (forall_mem_append.mpr ⟨h, by simpa using hletter⟩), append_assoc]
      rfl
    case isFalse =>
      have hrest := ih no_letters
      simp only [map_append, String.join_append, join_upperSegment_run h, map_cons,
        String.join_cons, hrest]
      rfl

lemma typeName_fromWords (words : List String) :
    typeName (Name.fromWords words) = String.join (words.map upperFirst) :=
  join_upperSegment no_letters words

/-- A spelling starts with the lower-case spelling of its first word, where that is a word. -/
theorem valueName_fromWords
    (h : ∀ text, (Name.fromWords (word :: words)).segments.head? ≠ some (.initialism text)) :
    valueName (Name.fromWords (word :: words)) =
      escapeReserved (word ++ String.join (words.map upperFirst)) := by
  have htype := typeName_fromWords (word :: words)
  have hwords := toWords_fromWords (word :: words)
  unfold valueName typeName at *
  cases hsegments : (Name.fromWords (word :: words)).segments with
  | nil => simp [toWords, hsegments] at hwords
  | cons first rest =>
    rw [hsegments] at h htype
    rw [toWords, hsegments] at hwords
    cases first with
    | initialism text => exact absurd rfl (h text)
    | word text =>
      obtain ⟨rfl, -⟩ := List.cons.inj hwords
      rw [map_cons, map_cons, String.join_cons, String.join_cons] at htype
      have hrest : String.join (rest.map upperSegment) = String.join (words.map upperFirst) :=
        String.append_right_inj (upperFirst text) |>.mp htype
      simp only [lowerSegment, hrest]

lemma wordsFrom_underscore :
    wordsFrom words current digits (text ++ ['_']) = wordsFrom words current digits text := by
  induction text generalizing words current digits with
  | nil => simp [wordsFrom, pushWord, isDigit, isUpperLetter, isLowerLetter]
  | cons c text ih => simp only [cons_append, wordsFrom, ih]

lemma elmWords_escapeReserved (text : String) : elmWords (escapeReserved text) = elmWords text := by
  unfold escapeReserved
  split
  · rw [elmWords, String.toList_append]
    exact wordsFrom_underscore
  · rfl

/-- The name of an identifier is read back from its spellings, where no two of its words run
together: two numerals in a row, or the letters of an initialism in front of a value. -/
theorem elmName_spelling (text : String) (hapart : NumeralsApart (elmName text).toWords) :
    elmName (typeName (elmName text)) = elmName text ∧
      ((∀ letters, (elmName text).segments.head? ≠ some (.initialism letters)) →
        elmName (valueName (elmName text)) = elmName text) := by
  have hkinds := @mem_elmWords text
  unfold elmName at *
  generalize elmWords text = words at *
  rw [toWords_fromWords] at hapart
  have htype : elmWords (String.join (words.map upperFirst)) = words :=
    wordsFrom_words hkinds hapart fun h => absurd h (by decide)
  refine ⟨by rw [typeName_fromWords, htype], fun hfirst => ?_⟩
  congr 1
  cases words with
  | nil => rfl
  | cons word words =>
    obtain ⟨hword, hkinds⟩ := forall_mem_cons.mp hkinds
    rw [valueName_fromWords hfirst, elmWords_escapeReserved]
    rcases hword with hletters | hnumeral
    · rw [elmWords, String.toList_append, wordsFrom_lower hletters.2,
        wordsFrom_words hkinds hapart.tail fun h => absurd h (by decide), nil_append,
        pushWord_word hletters.1]
      rfl
    · rw [map_cons, String.join_cons, upperFirst_numeral hnumeral] at htype
      exact htype

theorem elmName_spelling_map : elmName (typeName (elmName "mapUSD2")) = elmName "mapUSD2" ∧
    elmName (valueName (elmName "mapUSD2")) = elmName "mapUSD2" := by
  have hwords : elmWords "mapUSD2" = ["map", "u", "s", "d", "2"] := by decide +kernel
  have hapart : NumeralsApart (elmName "mapUSD2").toWords := by
    rw [elmName, toWords_fromWords, hwords]
    simp [NumeralsApart, IsNumeral, isDigit]
  refine (elmName_spelling "mapUSD2" hapart).imp_right fun h => h fun letters => ?_
  rw [elmName, hwords]
  simp [Name.fromWords, segmentsOfWords, isLetterWord, segmentOfRun]

/-- The letters of an initialism in front read as one word, and so do two numerals in a row. -/
theorem elmName_spelling_lost : elmName (valueName (elmName "uSD")) ≠ elmName "uSD" ∧
    elmName (valueName (elmName "foo1_2")) ≠ elmName "foo1_2" := by
  decide +kernel

end Morphir.Elm
