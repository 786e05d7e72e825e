import Morphir.IR.Names
import Morphir.Library.Fallible

/-!
# Legacy names

A legacy name is a list of words.  Its runs of one-letter words are folded into initialisms,
which are spelled in upper case, and are unfolded again.
-/

namespace Morphir

open Fallible List Char

namespace Name

def isLegacyChar (c : Char) : Bool := isLowerLetter c || isDigit c

/-- The code and the text of the error that a legacy word is refused with. -/
def checkWord (word : String) : Except (String × String) Unit :=
  if word.toList = [] then .error ("invalid_name", "Empty legacy word")
  else if word.toList.all isLegacyChar then .ok ()
  else .error ("invalid_name", word)

def checkWords : List String → Except (String × String) Unit
  | [] => .ok ()
  | word :: words => do
    checkWord word
    checkWords words

def readWords (words : List String) : Except (String × String) Name := do
  checkWords words
  pure (fromWords words)

variable {word : String}

lemma checkWord_ok (h : checkWord word = .ok ()) :
    word.toList ≠ [] ∧ ∀ c ∈ word.toList, isLegacyChar c = true := by
  unfold checkWord at h
  split at h
  · cases h
  · split at h
    · exact ⟨by assumption, all_eq_true.mp (by assumption)⟩
    · cases h

variable {words : List String}

lemma checkWords_ok (h : checkWords words = .ok ()) : ∀ word ∈ words, checkWord word = .ok () := by
  induction words with
  | nil => exact fun word hw => absurd hw not_mem_nil
  | cons first words ih =>
    obtain ⟨_, hfst, hr⟩ := bind_ok h
    intro word hw
    rcases mem_cons.mp hw with rfl | hw
    · exact hfst
    · exact ih hr word hw

lemma exists_letter (h : isLetterWord word = true) :
    ∃ c, isLowerLetter c = true ∧ word = String.singleton c := by
  unfold isLetterWord at h
  split at h
  case h_1 c hc => exact ⟨c, h, String.toList_injective (by rw [hc, String.toList_singleton])⟩
  case h_2 => cases h

variable {run : List String}

lemma letters_eq (h : ∀ word ∈ run, isLetterWord word = true) :
    ∃ letters : List Char, (∀ c ∈ letters, isLowerLetter c = true) ∧
      run = letters.map String.singleton := by
  induction run with
  | nil => exact ⟨[], fun c hc => absurd hc not_mem_nil, rfl⟩
  | cons word run ih =>
    obtain ⟨c, hc, rfl⟩ := exists_letter (h word mem_cons_self)
    obtain ⟨letters, hlet, rfl⟩ := ih fun w hw => h w (mem_cons_of_mem _ hw)
    refine ⟨c :: letters, fun d hd => ?_, rfl⟩
    rcases mem_cons.mp hd with rfl | hd
    · exact hc
    · exact hlet d hd

lemma upper_letter {c : Char} (h : isLowerLetter c = true) :
    isUpperLetter c.toUpper = true ∧ c.toUpper.toLower = c := by
  have hc : 97 ≤ c.toNat ∧ c.toNat ≤ 122 := by
    simpa [isLowerLetter, le_def, UInt32.le_iff_toNat_le] using h
  obtain ⟨hlow, hhi⟩ := hc
  rw [← ofNat_toNat c]
  generalize c.toNat = n at hlow hhi ⊢
  interval_cases n <;> decide

lemma toList_join_singletons (letters : List Char) :
    (String.join (letters.map String.singleton)).toList = letters := by
  rw [String.toList_join, flatMap_map]
  simp

lemma toList_initialism (letters : List Char) :
    (String.join (letters.map String.singleton)).toUpper.toList = letters.map toUpper := by
  rw [String.toUpper, String.toList_map, toList_join_singletons]

lemma toWords_append (front back : List NameSegment) :
    toWords ⟨front ++ back⟩ = toWords ⟨front⟩ ++ toWords ⟨back⟩ := by
  simp [toWords]

lemma toWords_segmentOfRun (h : ∀ word ∈ run, isLetterWord word = true) :
    toWords ⟨segmentOfRun run⟩ = run := by
  unfold segmentOfRun
  split
  · rfl
  · rfl
  · obtain ⟨letters, hlet, rfl⟩ := letters_eq h
    have hlower : (letters.map toUpper).map toLower = letters := by
      rw [map_map]
      exact (map_congr_left fun c hc => (upper_letter (hlet c hc)).2).trans
        (map_id letters)
    rw [toWords, flatMap_singleton]
    dsimp only
    rw [String.toLower, String.toList_map, toList_initialism, hlower]

lemma no_letters : ∀ word ∈ ([] : List String), isLetterWord word = true :=
  fun _ hw => absurd hw not_mem_nil

lemma toWords_segmentsOfWords (h : ∀ word ∈ run, isLetterWord word = true) (words : List String) :
    toWords ⟨segmentsOfWords run words⟩ = run ++ words := by
  induction words generalizing run with
  | nil =>
    rw [append_nil]
    exact toWords_segmentOfRun h
  | cons word words ih =>
    unfold segmentsOfWords
    split
    case isTrue hlet =>
      have hrun : ∀ w ∈ run ++ [word], isLetterWord w = true := by
        intro w hw
        rcases mem_append.mp hw with hw | hw
        · exact h w hw
        · exact mem_singleton.mp hw ▸ hlet
      rw [ih hrun, append_assoc]
      rfl
    case isFalse =>
      have hr := ih no_letters
      rw [toWords_append, toWords_segmentOfRun h]
      exact congrArg (fun rest => run ++ word :: rest) hr

lemma not_upper {c : Char} (h : isLegacyChar c = true) : isUpperLetter c = false := by
  simp only [isLegacyChar, isLowerLetter, isDigit, isUpperLetter, le_def,
    UInt32.le_iff_toNat_le, Bool.or_eq_true, decide_eq_true_eq, decide_eq_false_iff_not] at h ⊢
  have hlet : 'Z'.val.toNat < 'a'.val.toNat ∧ '9'.val.toNat < 'A'.val.toNat := by decide
  omega

lemma parseSegment_word {text : List Char} (hne : text ≠ []) (h : ∀ c ∈ text, isLegacyChar c = true)
    : parseSegment text = some (.word (String.ofList text)) := by
  have hlower : text.all (fun c => isDigit c || isLowerLetter c) = true :=
    all_eq_true.mpr fun c hc => (Bool.or_comm _ _).trans (h c hc)
  have hupper : text.any isUpperLetter = false := by
    rw [any_eq_false]
    exact fun c hc => Bool.eq_false_iff.mp (not_upper (h c hc))
  simp [parseSegment, hne, hlower, hupper]

lemma parseSegment_initialism {text : List Char} (hne : text ≠ [])
    (h : ∀ c ∈ text, isUpperLetter c = true) :
    parseSegment text = some (.initialism (String.ofList text)) := by
  have hupper : text.all (fun c => isDigit c || isUpperLetter c) = true :=
    all_eq_true.mpr fun c hc => by rw [h c hc, Bool.or_true]
  have hany : text.any isUpperLetter = true := by
    obtain ⟨c, cs, rfl⟩ := exists_cons_of_ne_nil hne
    exact any_eq_true.mpr ⟨c, mem_cons_self, h c mem_cons_self⟩
  simp [parseSegment, hne, hupper, hany]

def NameSegment.Reads (segment : NameSegment) : Prop :=
  parseSegment segment.text.toList = some segment

variable {segment : NameSegment}

lemma parseSegment_text {part : List Char} (h : parseSegment part = some segment) :
    segment.text.toList = part := by
  rw [parseSegment] at h
  split_ifs at h
  · cases h
    exact String.toList_ofList
  · cases h
    exact String.toList_ofList

lemma parseSegment_reads {part : List Char} (h : parseSegment part = some segment) :
    NameSegment.Reads segment := by
  rw [NameSegment.Reads, parseSegment_text h, h]

variable {segments : List NameSegment}

lemma mapM_reads (h : ∀ s ∈ segments, NameSegment.Reads s) :
    (segments.map fun s => s.text.toList).mapM parseSegment = some segments := by
  induction segments with
  | nil => rfl
  | cons segment segments ih =>
    have hseg : parseSegment segment.text.toList = some segment := h segment mem_cons_self
    rw [map_cons, mapM_cons, hseg, ih fun s hs => h s (mem_cons_of_mem segment hs)]
    rfl

lemma reads_of_mapM {parts : List (List Char)} (h : parts.mapM parseSegment = some segments) :
    segments.map (fun s => s.text.toList) = parts ∧ ∀ s ∈ segments, NameSegment.Reads s := by
  induction parts generalizing segments with
  | nil =>
    cases h
    exact ⟨rfl, fun s hs => absurd hs not_mem_nil⟩
  | cons part parts ih =>
    simp only [mapM_cons, Option.bind_eq_bind, Option.bind_eq_some_iff] at h
    obtain ⟨segment, hseg, rest, hr, hall⟩ := h
    cases hall
    obtain ⟨hts, hrs⟩ := ih hr
    exact ⟨by rw [map_cons, parseSegment_text hseg, hts],
      forall_mem_cons.mpr ⟨parseSegment_reads hseg, hrs⟩⟩

variable {name : Name}

lemma toCanonical_of_parse {text : String} (h : parse text = .ok name) :
    name.toCanonical = text := by
  rw [parse] at h
  split at h
  · rename_i segments hseg
    cases h
    apply String.toList_injective
    rw [toCanonical, String.toList_intercalate, map_map]
    exact (congrArg ['-'].intercalate (reads_of_mapM hseg).1).trans (join_splitOn '-' _)
  · cases h

/-- A name is canonical where it has segments and each is read from its text. -/
def IsCanonical (name : Name) : Prop :=
  name.segments ≠ [] ∧ ∀ s ∈ name.segments, NameSegment.Reads s

lemma parse_isCanonical {text : String} (h : parse text = .ok name) : name.IsCanonical := by
  unfold parse at h
  split at h
  case h_1 segments hseg =>
    cases h
    obtain ⟨hts, hrs⟩ := reads_of_mapM hseg
    refine ⟨fun hnil => splitOn_ne_nil '-' text.toList ?_, hrs⟩
    have hnil : segments = [] := hnil
    rw [← hts, hnil, map_nil]
  case h_2 => cases h

lemma IsCanonical.parse_toCanonical (h : name.IsCanonical) : parse name.toCanonical = .ok name := by
  have hspl : name.toCanonical.toList.splitOn '-' =
      name.segments.map fun s => s.text.toList := by
    rw [toCanonical, String.toList_intercalate, map_map]
    refine splitOn_intercalate '-' (fun part hpa hmem => ?_) (by simpa using h.1)
    obtain ⟨segment, hseg, rfl⟩ := mem_map.mp hpa
    have hchs := (parseSegment_chars (h.2 segment hseg)).2 _ hmem
    rcases hchs with hc | hc | hc <;> cases hc
  rw [parse, hspl, mapM_reads h.2]

lemma reads_word (hne : word.toList ≠ []) (h : ∀ c ∈ word.toList, isLegacyChar c = true) :
    NameSegment.Reads (.word word) := by
  rw [NameSegment.Reads, NameSegment.text, parseSegment_word hne h, String.ofList_toList]

lemma reads_segmentOfRun (h : ∀ word ∈ run, isLetterWord word = true) :
    ∀ s ∈ segmentOfRun run, NameSegment.Reads s := by
  obtain ⟨letters, hlet, rfl⟩ := letters_eq h
  intro s hs
  cases letters with
  | nil => cases hs
  | cons c letters =>
    have hc := hlet c mem_cons_self
    cases letters with
    | nil =>
      obtain rfl := mem_singleton.mp hs
      apply reads_word
      · simp
      · intro d hd
        rw [String.toList_singleton, mem_singleton] at hd
        rw [hd, isLegacyChar, hc, Bool.true_or]
    | cons d letters =>
      obtain rfl := mem_singleton.mp hs
      have hupper : ∀ u ∈ (c :: d :: letters).map toUpper, isUpperLetter u = true := by
        intro u hu
        obtain ⟨l, hl, rfl⟩ := mem_map.mp hu
        exact (upper_letter (hlet l hl)).1
      have ht := toList_initialism (c :: d :: letters)
      refine (congrArg parseSegment ht).trans ?_
      rw [parseSegment_initialism (by simp) hupper, ← ht, String.ofList_toList]
      rfl

lemma reads_segmentsOfWords (hrun : ∀ word ∈ run, isLetterWord word = true)
    (hws : ∀ word ∈ words, checkWord word = .ok ()) :
    ∀ s ∈ segmentsOfWords run words, NameSegment.Reads s := by
  induction words generalizing run with
  | nil => exact reads_segmentOfRun hrun
  | cons word words ih =>
    have hr : ∀ w ∈ words, checkWord w = .ok () := fun w hw => hws w (mem_cons_of_mem word hw)
    unfold segmentsOfWords
    split
    case isTrue hlet =>
      apply ih _ hr
      intro w hw
      rcases mem_append.mp hw with hw | hw
      · exact hrun w hw
      · exact mem_singleton.mp hw ▸ hlet
    case isFalse =>
      intro s hs
      rcases mem_append.mp hs with hs | hs
      · exact reads_segmentOfRun hrun s hs
      · rcases mem_cons.mp hs with rfl | hs
        · obtain ⟨hne, hchs⟩ := checkWord_ok (hws word mem_cons_self)
          exact reads_word hne hchs
        · exact ih no_letters hr s hs

lemma isCanonical_fromWords (h : checkWords words = .ok ()) (hne : words ≠ []) :
    (fromWords words).IsCanonical := by
  refine ⟨fun hnil => hne ?_, reads_segmentsOfWords no_letters (checkWords_ok h)⟩
  have hws := toWords_segmentsOfWords no_letters words
  rw [nil_append] at hws
  rw [← hws]
  exact congrArg (fun segments => toWords ⟨segments⟩) hnil

/-- What holds of the names of legacy words and of canonical spellings. -/
structure Laws : Prop where
  words : ∀ words, checkWords words = .ok () → (fromWords words).toWords = words
  /-- A name from a canonical spelling, or from some legacy words, is read from its canonical
  spelling. -/
  canonical : ∀ name, (∃ text, parse text = .ok name) ∨
      (∃ words, words ≠ [] ∧ checkWords words = .ok () ∧ fromWords words = name) →
    parse name.toCanonical = .ok name
  distinct : ∀ a b, checkWords a = .ok () → checkWords b = .ok () → a ≠ b →
    (fromWords a).toCanonical ≠ (fromWords b).toCanonical

lemma toWords_fromWords (words : List String) : (fromWords words).toWords = words :=
  toWords_segmentsOfWords no_letters words

theorem laws : Laws := by
  have hcan {words : List String} (h : checkWords words = .ok ()) (hne : words ≠ []) :
      parse (fromWords words).toCanonical = .ok (fromWords words) :=
    (isCanonical_fromWords h hne).parse_toCanonical
  constructor
  case words => exact fun words _ => toWords_fromWords words
  case canonical =>
    rintro name (⟨text, ht⟩ | ⟨words, hne, hws, rfl⟩)
    · exact (parse_isCanonical ht).parse_toCanonical
    · exact hcan hws hne
  case distinct =>
    intro a b ha hb hne heq
    have hboth : parse (fromWords a).toCanonical = parse (fromWords b).toCanonical := by rw [heq]
    by_cases hnila : a = []
    · have hnilb : b ≠ [] := fun hnilb => hne (hnila.trans hnilb.symm)
      rw [hcan hb hnilb, hnila] at hboth
      cases hboth
    · by_cases hnilb : b = []
      · rw [hcan ha hnila, hnilb] at hboth
        cases hboth
      · rw [hcan ha hnila, hcan hb hnilb] at hboth
        apply hne
        rw [← toWords_fromWords a, Except.ok.inj hboth, toWords_fromWords]

theorem not_parse_toCanonical :
    ¬ ((∀ words, checkWords words = .ok () → (fromWords words).toWords = words) ∧
      (∀ name, (∃ words, readWords words = .ok name) → parse name.toCanonical = .ok name) ∧
      ∀ a b, checkWords a = .ok () → checkWords b = .ok () → a ≠ b →
        (fromWords a).toCanonical ≠ (fromWords b).toCanonical) := by
  rintro ⟨-, hprs, -⟩
  have hrd : parse (fromWords []).toCanonical = .ok (fromWords []) := hprs _ ⟨[], rfl⟩
  cases hrd

end Name

end Morphir
