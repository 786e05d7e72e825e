import Morphir.Library.ListRel

/-!
# Names, paths and fully qualified names

A name is a list of segments.  A word and an initialism stay distinct in the
name, although both are written by their text alone in the canonical spelling.
-/

namespace Morphir

open List

inductive NameSegment
  | word (text : String)
  | initialism (text : String)
  deriving DecidableEq

def NameSegment.text : NameSegment → String
  | .word text => text
  | .initialism text => text

structure Name where
  segments : List NameSegment
  deriving DecidableEq

inductive NameError
  | invalidName (text : String)
  deriving DecidableEq

namespace Name

/-- A word of one lower case letter, the unit of a legacy initialism. -/
def isLetterWord (word : String) : Bool :=
  match word.toList with
  | [c] => decide ('a' ≤ c ∧ c ≤ 'z')
  | _ => false

/-- A maximal run of letter words: two or more letters are an initialism. -/
def segmentOfRun : List String → List NameSegment
  | [] => []
  | [letter] => [.word letter]
  | letters => [.initialism (String.join letters).toUpper]

def segmentsOfWords (run : List String) : List String → List NameSegment
  | [] => segmentOfRun run
  | word :: words =>
    if isLetterWord word then segmentsOfWords (run ++ [word]) words
    else segmentOfRun run ++ .word word :: segmentsOfWords [] words

def fromWords (words : List String) : Name := ⟨segmentsOfWords [] words⟩

def isDigit (c : Char) : Bool := decide ('0' ≤ c ∧ c ≤ '9')

def isLowerLetter (c : Char) : Bool := decide ('a' ≤ c ∧ c ≤ 'z')

def isUpperLetter (c : Char) : Bool := decide ('A' ≤ c ∧ c ≤ 'Z')

def parseSegment (part : List Char) : Option NameSegment :=
  if part.isEmpty then none
  else if !part.all (fun c => isDigit c || isLowerLetter c) &&
      !part.all (fun c => isDigit c || isUpperLetter c) then none
  else if part.any isUpperLetter then some (.initialism (String.ofList part))
  else some (.word (String.ofList part))

/-- Parse the canonical name grammar without guessing from camel case. -/
def parse (text : String) : Except NameError Name :=
  match (text.toList.splitOn '-').mapM parseSegment with
  | some segments => .ok ⟨segments⟩
  | none => .error (.invalidName text)

/-- Legacy spelling.  Some canonical names have no lossless legacy spelling. -/
def toWords (name : Name) : List String :=
  name.segments.flatMap fun segment =>
    match segment with
    | .word word => [word]
    | .initialism text => text.toLower.toList.map String.singleton

def toCanonical (name : Name) : String :=
  String.intercalate "-" (name.segments.map NameSegment.text)

end Name

structure Path where
  segments : List Name
  deriving DecidableEq

namespace Path

def fromNames (segments : List Name) : Path := ⟨segments⟩

def parse (text : String) : Except NameError Path := do
  let segments ← (text.toList.splitOn '/').mapM fun part => Name.parse (String.ofList part)
  return fromNames segments

def toCanonical (path : Path) : String :=
  String.intercalate "/" (path.segments.map Name.toCanonical)

end Path

structure FQName where
  packageName : Path
  moduleName : Path
  localName : Name
  deriving DecidableEq

namespace FQName

def parse (text : String) : Except NameError FQName :=
  match text.toList.splitOn ':' with
  | [package, moduleAndLocal] =>
    match moduleAndLocal.splitOn '#' with
    | [module, localName] => do
      let packageName ← Path.parse (String.ofList package)
      let moduleName ← Path.parse (String.ofList module)
      let localName ← Name.parse (String.ofList localName)
      return ⟨packageName, moduleName, localName⟩
    | _ => .error (.invalidName text)
  | _ => .error (.invalidName text)

def toCanonical (name : FQName) : String :=
  name.packageName.toCanonical ++ ":" ++ name.moduleName.toCanonical ++ "#" ++
    name.localName.toCanonical

end FQName

/-! ### The order of names

Texts compare by length first and by code units second; segments compare by
constructor first; a name compares segment by segment. -/

def codeUnits (text : String) : List Nat :=
  text.toList.flatMap fun c =>
    let code := c.toNat
    if code < 0x10000 then [code]
    else [0xD800 + (code - 0x10000) / 0x400, 0xDC00 + (code - 0x10000) % 0x400]

def compareUnits : List Nat → List Nat → Ordering
  | [], [] => .eq
  | [], _ :: _ => .lt
  | _ :: _, [] => .gt
  | a :: as, b :: bs => (compare a b).then (compareUnits as bs)

def compareText (a b : String) : Ordering :=
  (compare (codeUnits a).length (codeUnits b).length).then
    (compareUnits (codeUnits a) (codeUnits b))

def NameSegment.compare : NameSegment → NameSegment → Ordering
  | .word a, .word b => compareText a b
  | .word _, .initialism _ => .lt
  | .initialism _, .word _ => .gt
  | .initialism a, .initialism b => compareText a b

def Name.compareSegments : List NameSegment → List NameSegment → Ordering
  | [], [] => .eq
  | [], _ :: _ => .lt
  | _ :: _, [] => .gt
  | a :: as, b :: bs => (a.compare b).then (compareSegments as bs)

def Name.le (a b : Name) : Bool := (compareSegments a.segments b.segments).isLE

def sortNames (names : List Name) : List Name := names.insertionSort fun a b => a.le b = true

lemma mem_sortNames {names : List Name} {name : Name} : name ∈ sortNames names ↔ name ∈ names :=
  (perm_insertionSort _ names).mem_iff

end Morphir

/-!
## The characters of canonical spellings

What parsing a canonical spelling says about its characters and its parts.
-/

namespace Morphir

open List

variable {α : Type}

lemma join_splitOn [BEq α] [LawfulBEq α] (sep : α) (l : List α) :
    [sep].intercalate (l.splitOn sep) = l :=
  intercalate_splitOn sep

lemma mem_splitOn [BEq α] [LawfulBEq α] (sep : α) {c : α} {l : List α} (h : c ∈ l) :
    c = sep ∨ ∃ part ∈ l.splitOn sep, c ∈ part := by
  rw [← join_splitOn sep l] at h
  generalize l.splitOn sep = parts at h
  induction parts with
  | nil => simp at h
  | cons part parts ih =>
    cases parts with
    | nil =>
      rw [intercalate_singleton] at h
      exact .inr ⟨part, mem_cons_self, h⟩
    | cons next parts =>
      rw [intercalate_cons_cons, mem_append, mem_append, mem_singleton] at h
      rcases h with (h | h) | h
      · exact .inr ⟨part, mem_cons_self, h⟩
      · exact .inl h
      · rcases ih h with h | ⟨part', hpa', hc⟩
        · exact .inl h
        · exact .inr ⟨part', mem_cons_of_mem part hpa', hc⟩

variable {sep : α}

lemma splitOn_one [BEq α] [LawfulBEq α] {l part : List α} (h : l.splitOn sep = [part]) :
    l = part := by
  rw [← join_splitOn sep l, h, intercalate_singleton]

lemma splitOn_first [BEq α] [LawfulBEq α] {l part : List α} {parts : List (List α)}
    (h : l.splitOn sep = part :: parts) : part <+: l := by
  rw [← join_splitOn sep l, h]
  cases parts with
  | nil => simp
  | cons next parts => exact prefix_append ..

lemma splitOn_two [BEq α] [LawfulBEq α] {front back a b : List α}
    (h : (front ++ sep :: back).splitOn sep = [a, b]) : front = a ∧ back = b := by
  rw [splitOn_append_cons_self] at h
  have hfr := splitOn_ne_nil sep front
  have hbk := splitOn_ne_nil sep back
  cases hf : front.splitOn sep with
  | nil => exact absurd hf hfr
  | cons a' as =>
    cases hb : back.splitOn sep with
    | nil => exact absurd hb hbk
    | cons b' bs =>
      rw [hf, hb, cons_append, List.cons.injEq] at h
      obtain ⟨rfl, h⟩ := h
      cases as with
      | nil =>
        obtain ⟨rfl, rfl⟩ := h
        exact ⟨splitOn_one hf, splitOn_one hb⟩
      | cons a'' as => simp at h

def IsNameChar (c : Char) : Prop :=
  Name.isDigit c = true ∨ Name.isLowerLetter c = true ∨ Name.isUpperLetter c = true

lemma parseSegment_chars {part : List Char} {segment : NameSegment}
    (h : Name.parseSegment part = some segment) : part ≠ [] ∧ ∀ c ∈ part, IsNameChar c := by
  unfold Name.parseSegment at h
  split_ifs at h with hemp hchs
  all_goals
    refine ⟨by simpa using hemp, fun c hc => ?_⟩
    rw [Bool.and_eq_true, not_and_or, Bool.not_eq_true', Bool.not_eq_true',
      Bool.not_eq_false, Bool.not_eq_false, all_eq_true, all_eq_true] at hchs
    rcases hchs with hchs | hchs
    · have hname := hchs c hc
      rw [Bool.or_eq_true] at hname
      exact hname.elim .inl fun h => .inr (.inl h)
    · have hname := hchs c hc
      rw [Bool.or_eq_true] at hname
      exact hname.elim .inl fun h => .inr (.inr h)

lemma exists_of_mapM {α β : Type} {f : α → Option β} {l : List α} {bs : List β}
    (h : l.mapM f = some bs) : ∀ a ∈ l, ∃ b, f a = some b := by
  induction l generalizing bs with
  | nil => simp
  | cons a l ih =>
    simp only [mapM_cons, Option.bind_eq_bind, Option.bind_eq_some_iff] at h
    obtain ⟨b, hb, bs', hbs, _⟩ := h
    intro x hx
    rcases mem_cons.mp hx with rfl | hx
    · exact ⟨b, hb⟩
    · exact ih hbs x hx

lemma exists_of_mapM_ok {α β ε : Type} {f : α → Except ε β} {l : List α} {bs : List β}
    (h : l.mapM f = .ok bs) : ∀ a ∈ l, ∃ b, f a = .ok b := by
  intro a ha
  obtain ⟨b, -, hb⟩ := (mapM_eq_ok.mp h).exists_right a ha
  exact ⟨b, hb⟩

/-- What the characters of a spelling are: name characters and separators,
with a name character first. -/
structure Spelling (separators : List Char) (text : List Char) : Prop where
  chars : ∀ c ∈ text, IsNameChar c ∨ c ∈ separators
  first : ∃ c cs, text = c :: cs ∧ IsNameChar c

lemma Spelling.of_splitOn {separators : List Char} {sep : Char} {text : List Char}
    (h : ∀ part ∈ text.splitOn sep, Spelling separators part) :
    Spelling (sep :: separators) text where
  chars := by
    intro c hc
    rcases mem_splitOn sep hc with rfl | ⟨part, hpa, hcp⟩
    · exact .inr mem_cons_self
    · exact ((h part hpa).chars c hcp).imp id (mem_cons_of_mem sep)
  first := by
    cases hspl : text.splitOn sep with
    | nil => exact absurd hspl (splitOn_ne_nil sep text)
    | cons part parts =>
      obtain ⟨c, cs, hpa, hc⟩ := (h part (by simp [hspl])).first
      obtain ⟨t, ht⟩ := splitOn_first hspl
      exact ⟨c, cs ++ t, by rw [← ht, hpa]; rfl, hc⟩

variable {text : String}

lemma Name.parse_spelling {name : Name} (h : Name.parse text = .ok name) :
    Spelling ['-'] text.toList := by
  refine .of_splitOn fun part hpa => ?_
  unfold Name.parse at h
  split at h
  · next segments hsegments =>
    obtain ⟨segment, hsegment⟩ := exists_of_mapM hsegments part hpa
    obtain ⟨hne, hchs⟩ := parseSegment_chars hsegment
    refine ⟨fun c hc => .inl (hchs c hc), ?_⟩
    cases part with
    | nil => exact absurd rfl hne
    | cons c cs => exact ⟨c, cs, rfl, hchs c mem_cons_self⟩
  · cases h

lemma Path.parse_spelling {path : Path} (h : Path.parse text = .ok path) :
    Spelling ['/', '-'] text.toList := by
  refine .of_splitOn fun part hpa => ?_
  unfold Path.parse at h
  cases hns : (text.toList.splitOn '/').mapM fun part => Name.parse (String.ofList part) with
  | error e =>
    rw [hns] at h
    cases h
  | ok names =>
    obtain ⟨name, hname⟩ := exists_of_mapM_ok hns part hpa
    simpa using Name.parse_spelling hname

lemma FQName.parse_parts {name : FQName} (h : FQName.parse text = .ok name) :
    ∃ package module localName, text.toList.splitOn ':' = [package, module ++ '#' :: localName] ∧
      (module ++ '#' :: localName).splitOn '#' = [module, localName] ∧
      Path.parse (String.ofList package) = .ok name.packageName ∧
      Path.parse (String.ofList module) = .ok name.moduleName ∧
      Name.parse (String.ofList localName) = .ok name.localName := by
  unfold FQName.parse at h
  split at h
  · next package rest hspl =>
    split at h
    · next module localName hr =>
      have hpts : rest = module ++ '#' :: localName := by
        rw [← join_splitOn '#' rest, hr]
        simp
      subst hpts
      cases hpkg : Path.parse (String.ofList package) with
      | error e =>
        rw [hpkg] at h
        cases h
      | ok packageName =>
        cases hmod : Path.parse (String.ofList module) with
        | error e =>
          rw [hpkg, hmod] at h
          cases h
        | ok moduleName =>
          cases hlo : Name.parse (String.ofList localName) with
          | error e =>
            rw [hpkg, hmod, hlo] at h
            cases h
          | ok name' =>
            rw [hpkg, hmod, hlo] at h
            cases h
            exact ⟨package, module, localName, hspl, hr, hpkg, hmod, hlo⟩
    · cases h
  · cases h

lemma FQName.parse_toCanonical {name : FQName} (h : FQName.parse name.toCanonical = .ok name) :
    Path.parse name.packageName.toCanonical = .ok name.packageName ∧
      Path.parse name.moduleName.toCanonical = .ok name.moduleName ∧
      Name.parse name.localName.toCanonical = .ok name.localName := by
  obtain ⟨package, module, localName, hspl, hr, hpkg, hmod, hlo⟩ := parse_parts h
  have ht : name.toCanonical.toList = name.packageName.toCanonical.toList ++
      ':' :: (name.moduleName.toCanonical.toList ++ '#' :: name.localName.toCanonical.toList) := by
    simp [toCanonical]
  rw [ht] at hspl
  obtain ⟨rfl, hmoduleLocal⟩ := splitOn_two hspl
  rw [← hmoduleLocal] at hr
  obtain ⟨rfl, rfl⟩ := splitOn_two hr
  simp only [String.ofList_toList] at hpkg hmod hlo
  exact ⟨hpkg, hmod, hlo⟩

end Morphir
