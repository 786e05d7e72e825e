import Morphir.Scheme.SpecForms
import Morphir.Scheme.SpecReader

/-!
# What the printed texts read as

A printed text is the text of a form.  The located data that carry the form
are what a reader of specifications finds there.
-/

namespace Morphir.Scheme.Spec

open IR List Form Char

variable {F : Type}

/-- The children are the located parts of the datum, and no datum stands
deeper than the reader allows. -/
inductive Fits : Nat → Located F → Prop
  | mk {depth start : Nat} {d : Datum F} {children : List (Located F)} (hdepth : depth ≤ 256)
      (hparts : children.map Located.datum = d.parts)
      (hchildren : ∀ c ∈ children, Fits (depth + 1) c) : Fits depth (.mk d start children)

variable {l : Located F} {depth : Nat}

lemma Fits.depth_le (h : Fits depth l) : depth ≤ 256 := by
  cases h
  assumption

lemma Fits.children (h : Fits depth l) : ∀ c ∈ l.children, Fits (depth + 1) c := by
  cases h
  assumption

lemma Fits.parts (h : Fits depth l) : l.children.map Located.datum = l.datum.parts := by
  cases h
  assumption

variable [Doubles F]

lemma fits_of_points {source : List Char} (h : Points source l) :
    ∀ {depth}, Readable depth l.datum → Fits depth l := by
  induction h with
  | @mk d start children _ hpts _ ih =>
    intro depth hrd
    refine .mk hrd.depth_le hpts fun c hc => ih c hc ?_
    have hmem : c.datum ∈ d.parts := hpts ▸ mem_map_of_mem hc
    cases hrd with
    | sequence _ hits htl _ =>
      rcases mem_append.mp hmem with hmem | hmem
      · exact hits _ hmem
      · exact htl _ (Option.mem_toList.mp hmem)
    | vector _ hits => exact .mono (hits _ hmem) (Nat.le_succ _)
    | _ => simp [Datum.parts] at hmem

/-- The result is the value exactly where the condition holds, and an error
elsewhere. -/
def Gives {ε α : Type} (r : Except ε α) (p : Prop) (x : α) : Prop := ∀ y, r = .ok y ↔ p ∧ y = x

section Gives

variable {ε α β : Type} {r : Except ε α} {p q : Prop} {x : α} {y : β}

lemma gives_ok : Gives (.ok x : Except ε α) True x := by simp [Gives, eq_comm]

lemma gives_error {e : ε} (hp : ¬ p) : Gives (.error e) p x := by simp [Gives, hp]

lemma Gives.congr (h : Gives r p x) (hpq : p ↔ q) : Gives r q x := by
  intro y
  rw [h y, hpq]

lemma Gives.map (h : Gives r p x) (f : α → β) : Gives (r.map f) p (f x) := by
  intro y
  cases r with
  | error e =>
    have hp : ¬ p := fun hp => by simpa [hp] using h x
    simp [Except.map, hp]
  | ok a =>
    obtain ⟨hp, rfl⟩ := (h a).mp rfl
    simp [Except.map, hp, eq_comm]

lemma Gives.cases (h : Gives r p x) : p ∧ r = .ok x ∨ ¬ p ∧ ∃ e, r = .error e := by
  by_cases hp : p
  · exact .inl ⟨hp, (h x).mpr ⟨hp, rfl⟩⟩
  · cases r with
    | error e => exact .inr ⟨hp, e, rfl⟩
    | ok a => exact absurd ((h a).mp rfl).1 hp

end Gives

def startsWithDigit (word : List Char) : Bool := word.head?.any Char.isDigit

def Bare (words : List (List Char)) : Prop := ∀ w ∈ words, startsWithDigit w = false

instance (words : List (List Char)) : Decidable (Bare words) :=
  inferInstanceAs (Decidable (∀ w ∈ words, startsWithDigit w = false))

lemma bare_nil : Bare [] := by simp [Bare]

variable {w : List Char}

lemma bare_cons {ws : List (List Char)} : Bare (w :: ws) ↔ Bare [w] ∧ Bare ws := by simp [Bare]

lemma bare_append {vs ws : List (List Char)} : Bare (vs ++ ws) ↔ Bare vs ∧ Bare ws := by
  simp [Bare, or_imp, forall_and]

/-- What a text means: the words whose digits may spoil it, and what the
located data that carry it are. -/
structure Meaning (F : Type) where
  words : List (List Char)
  reads : Located F → Prop

/-- The text is that of a form that may stand at the depth.  The form has a
datum if no word starts with a digit, and the located data that carry the form
have the property. -/
def Prints (depth : Nat) (text : List Char) (R : Meaning F) : Prop :=
  ∃ f : Form, f.Laid ∧ f.source = text ∧ depth + f.height ≤ 256 ∧
    (Bare R.words → ∃ d, f.datum (F := F) = some d) ∧
    ∀ {k l}, Fits k l → f.datum = some l.datum → R.reads l

section Prints

variable {depth k : Nat} {text : List Char} {R : Meaning F}

section

variable (h : Prints depth text R)

include h

lemma Prints.mono (hk : k ≤ depth) : Prints k text R := by
  obtain ⟨f, hla, hsrc, hhei, hR⟩ := h
  exact ⟨f, hla, hsrc, by omega, hR⟩

lemma Prints.imp {words : List (List Char)} {S : Located F → Prop} (hws : Bare words → Bare R.words)
    (hRS : ∀ l, R.reads l → S l) : Prints depth text ⟨words, S⟩ := by
  obtain ⟨f, hla, hsrc, hhei, hdt, hR⟩ := h
  exact ⟨f, hla, hsrc, hhei, fun hb => hdt (hws hb), fun hl hd => hRS _ (hR hl hd)⟩

lemma Prints.depth_le : depth ≤ 256 := by
  obtain ⟨f, _, _, hhei, _⟩ := h
  omega

end

end Prints

def Listed (Rs : List (Meaning F)) (l : Located F) : Prop :=
  ∃ items start children, l = .mk (.sequence items none) start children ∧
    items.length = children.length ∧ List.Forall₂ Meaning.reads Rs children

/-- A part of a list: the blanks before it, its text and what it reads as. -/
structure Part (F : Type) where
  blanks : List Char
  text : List Char
  meaning : Meaning F

def allWords (Rs : List (Meaning F)) : List (List Char) := Rs.flatMap Meaning.words

lemma exists_forms {parts : List (Part F)} (h : ∀ i ∈ parts, Prints depth i.text i.meaning) :
    ∃ items : List (List Char × Form), items.map Prod.fst = parts.map Part.blanks ∧
      (∀ i ∈ items, i.2.Laid) ∧ (∀ i ∈ items, depth + i.2.height ≤ 256) ∧
      sourceAll items = parts.flatMap (fun i => i.blanks ++ i.text) ∧
      (Bare (allWords (parts.map Part.meaning)) → ∃ ds, datumAll (F := F) items = some ds) ∧
      ∀ {k cs}, (∀ c ∈ cs, Fits k c) → datumAll items = some (cs.map Located.datum) →
        List.Forall₂ Meaning.reads (parts.map Part.meaning) cs := by
  induction parts with
  | nil =>
    refine ⟨[], rfl, by simp, by simp, rfl, fun _ => ⟨[], rfl⟩, ?_⟩
    intro k cs _ hdata
    cases cs with
    | nil => exact .nil
    | cons c cs => simp [datumAll] at hdata
  | cons part parts ih =>
    obtain ⟨items, hbla, hla, hhei, hsrc, hdata, hrs⟩ :=
      ih fun i hi => h i (mem_cons_of_mem part hi)
    obtain ⟨f, hflaid, hfso, hfhe, hfda, hfre⟩ := h part mem_cons_self
    refine ⟨(part.blanks, f) :: items, by simp [hbla],
      forall_mem_cons.mpr ⟨hflaid, hla⟩, forall_mem_cons.mpr ⟨hfhe, hhei⟩,
      by simp [sourceAll, hsrc, hfso], fun hb => ?_, ?_⟩
    · rw [allWords, map_cons, flatMap_cons, bare_append] at hb
      obtain ⟨d, hd⟩ := hfda hb.1
      obtain ⟨ds, hds⟩ := hdata hb.2
      exact ⟨d :: ds, by simp [datumAll, hd, hds]⟩
    · intro k cs hcs hdata
      simp only [datumAll, Option.bind_eq_some_iff, Option.map_eq_some_iff] at hdata
      obtain ⟨d, hd, ds, hds, hc⟩ := hdata
      cases cs with
      | nil => simp at hc
      | cons c cs =>
        obtain ⟨rfl, rfl⟩ := List.cons.inj hc
        exact .cons (hfre (hcs c mem_cons_self) hd)
          (hrs (fun c' hc' => hcs c' (mem_cons_of_mem c hc')) hds)

lemma Prints.list (parts : List (Part F)) (hdep : depth ≤ 256)
    (h : ∀ i ∈ parts, Prints (depth + 1) i.text i.meaning)
    (hbl : ∀ i ∈ parts, ∀ c ∈ i.blanks, isBlank c = true) (hsep : ∀ i ∈ parts.tail, i.blanks ≠ []) :
    Prints depth ('(' :: (parts.flatMap (fun i => i.blanks ++ i.text) ++ [')']))
      ⟨allWords (parts.map Part.meaning), Listed (parts.map Part.meaning)⟩ := by
  obtain ⟨items, hbla, hla, hhei, hsrc, hdata, hrs⟩ := exists_forms h
  refine ⟨.list items, .list hla ?_ ?_, by simp [source, hsrc], ?_, fun hb => ?_, ?_⟩
  · intro i hi
    have hmem : i.1 ∈ parts.map Part.blanks := hbla ▸ mem_map_of_mem hi
    obtain ⟨part, hpa, heq⟩ := mem_map.mp hmem
    exact heq ▸ hbl part hpa
  · intro i hi
    have hmem : i.1 ∈ (parts.map Part.blanks).tail := by
      rw [← hbla, ← map_tail]
      exact mem_map_of_mem hi
    rw [← map_tail] at hmem
    obtain ⟨part, hpa, heq⟩ := mem_map.mp hmem
    exact heq ▸ hsep part hpa
  · have hle : heightAll items ≤ 256 - depth := heightAll_le.mpr fun i hi => by
      have := hhei i hi
      omega
    simp only [height]
    omega
  · obtain ⟨ds, hds⟩ := hdata hb
    exact ⟨.sequence ds none, by simp [datum, hds]⟩
  · intro k l hl hdata
    simp only [datum, Option.map_eq_some_iff] at hdata
    obtain ⟨ds, hds, hd⟩ := hdata
    cases hl with
    | @mk _ start d children _ hpts hki =>
      obtain rfl : d = .sequence ds none := hd.symm
      simp only [Datum.parts, Option.toList_none, append_nil] at hpts
      refine ⟨ds, start, children, rfl, by simp [← hpts], hrs hki ?_⟩
      rw [hds, hpts]

lemma parens_cons_cons (first next : List Char) (rest : List (List Char)) :
    Spec.parens (first :: next :: rest) =
      '(' :: (first ++ ' ' :: (join [' '] (next :: rest) ++ [')'])) := by
  simp only [Spec.parens, join, intercalate_cons_cons, append_assoc, cons_append, nil_append]

lemma Prints.parens (depth : Nat) (parts : List (List Char × Meaning F)) (hdep : depth ≤ 256)
    (h : ∀ i ∈ parts, Prints (depth + 1) i.1 i.2) :
    Prints depth (parens (parts.map Prod.fst))
      ⟨allWords (parts.map Prod.snd), Listed (parts.map Prod.snd)⟩ := by
  cases parts with
  | nil => exact .list [] hdep (by simp) (by simp) (by simp)
  | cons first rest =>
    have hli := Prints.list (⟨[], first.1, first.2⟩ ::
      rest.map fun i => ⟨[' '], i.1, i.2⟩) hdep ?_ ?_ ?_
    · have ht : ∀ (p : List Char) (ps : List (List Char × Meaning F)),
          join [' '] (p :: ps.map Prod.fst) =
            p ++ ps.flatMap (fun i => [' '] ++ i.1) := by
        intro p ps
        induction ps generalizing p with
        | nil => simp [join]
        | cons i ps ih =>
          simp only [join] at ih
          simp [join, ih]
      simpa [Spec.parens, ht, flatMap_map, Function.comp_def] using hli
    · intro i hi
      rcases mem_cons.mp hi with rfl | hi
      · exact h first mem_cons_self
      · obtain ⟨j, hj, rfl⟩ := mem_map.mp hi
        exact h j (mem_cons_of_mem first hj)
    · intro i hi
      rcases mem_cons.mp hi with rfl | hi
      · simp
      · obtain ⟨j, hj, rfl⟩ := mem_map.mp hi
        simpa using (by decide : isBlank ' ' = true)
    · intro i hi
      obtain ⟨j, _, rfl⟩ := mem_map.mp hi
      exact cons_ne_nil _ _

/-- The located data are a list with a head and items with the properties. -/
def Headed (H : Located F → Prop) (Rs : List (Meaning F)) (l : Located F) : Prop :=
  ∃ items start head children, l = .mk (.sequence items none) start (head :: children) ∧
    items.isEmpty = false ∧ H head ∧ List.Forall₂ Meaning.reads Rs children

omit [Doubles F] in
lemma Listed.headed {H : Meaning F} {Rs : List (Meaning F)} (h : Listed (H :: Rs) l) :
    Headed H.reads Rs l := by
  obtain ⟨items, start, children, rfl, hlen, hki⟩ := h
  cases hki with
  | cons hh hr =>
    refine ⟨items, start, _, _, rfl, ?_, hh, hr⟩
    cases items with
    | nil => cases hlen
    | cons item items => rfl

lemma Prints.headed {α : Type} {text : List Char} {H : Meaning F} (print : α → List Char)
    (R : α → Meaning F) (xs : List α) (h : Prints (depth + 1) text H)
    (hxs : ∀ x ∈ xs, Prints (depth + 1) (print x) (R x)) :
    Prints depth (Spec.parens (text :: xs.map print))
      ⟨H.words ++ allWords (xs.map R), Headed H.reads (xs.map R)⟩ := by
  have hpar := Prints.parens depth
    ((text, H) :: xs.map fun x => (print x, R x)) (Nat.le_of_succ_le h.depth_le) ?_
  · simp only [map_cons, map_map] at hpar
    exact hpar.imp id fun l hl => hl.headed
  · intro i hi
    rcases mem_cons.mp hi with rfl | hi
    · exact h
    · obtain ⟨x, hx, rfl⟩ := mem_map.mp hi
      exact hxs x hx

class JsonSyntax (F : Type) [Doubles F] : Prop where
  letter : ∀ (c : Char) (cs : List Char), c.isAlpha = true →
    Doubles.jsonNumber (F := F) (String.ofList (c :: cs)) = none

/-- What a word reads as: a symbol, or a number where it starts with a digit. -/
structure IsWord (w : List Char) (l : Located F) : Prop where
  symbol : Bare [w] → ∃ start, l = .mk (.symbol (String.ofList w)) start []
  number : ¬ Bare [w] → ∃ n start, l = .mk (.number n) start []

lemma isDigit_eq (c : Char) : Name.isDigit c = c.isDigit := by
  simp only [Name.isDigit, isDigit, le_def, Bool.decide_and]

variable {c : Char}

lemma isNameChar_cases (h : IsNameChar c) : c.isDigit = true ∨ c.isAlpha = true := by
  rcases h with h | h | h
  · exact .inl (isDigit_eq c ▸ h)
  · right
    simp only [Name.isLowerLetter, decide_eq_true_eq] at h
    simp only [isAlpha, isLower, Bool.or_eq_true, Bool.and_eq_true, decide_eq_true_eq]
    exact .inr h
  · right
    simp only [Name.isUpperLetter, decide_eq_true_eq] at h
    simp only [isAlpha, isUpper, Bool.or_eq_true, decide_eq_true_eq]
    exact .inl h

lemma ne_of_isNameChar {d : Char} (h : IsNameChar c) (hd : d.isAlphanum = false) : c ≠ d := by
  rintro rfl
  simp only [isAlphanum, Bool.or_eq_false_iff] at hd
  rcases isNameChar_cases h with h | h
  · rw [h] at hd
    cases hd.2
  · rw [h] at hd
    cases hd.1

lemma not_delimiter_of_isNameChar (h : IsNameChar c) : delimiter c = false := by
  by_contra hc
  simp only [delimiter, Bool.not_eq_false, Bool.or_eq_true, decide_eq_true_eq, or_assoc] at hc
  rcases hc with rfl | rfl | rfl | rfl | rfl | rfl | rfl | rfl | rfl | rfl | rfl | rfl | rfl <;>
    exact ne_of_isNameChar h (by decide) rfl

variable {separators : List Char}

lemma plainToken_of_spelling (h : Spelling separators w)
    (hsep : ∀ c ∈ separators, delimiter c = false) : PlainToken w := by
  obtain ⟨c, cs, rfl, hc⟩ := h.first
  refine ⟨fun x hx => ?_, by simp, ?_, ?_, ?_⟩
  · exact (h.chars x hx).elim not_delimiter_of_isNameChar (hsep x)
  · simpa using ne_of_isNameChar hc (by decide)
  · simpa using ne_of_isNameChar hc (by decide)
  · simpa using fun heq => absurd heq (ne_of_isNameChar hc (by decide))

lemma isDigit_of_isAlpha (h : c.isAlpha = true) : c.isDigit = false := by
  by_contra hdig
  simp only [isAlpha, isUpper, isLower, isDigit, Bool.or_eq_true, UInt32.le_iff_toNat_le] at h hdig
  rcases h with h | h <;> simp at h hdig <;> omega

lemma integerToken_of_isAlpha (h : c.isAlpha = true) (cs : List Char) :
    integerToken (c :: cs) = false := by
  by_contra htok
  rw [Bool.not_eq_false] at htok
  have hdig := isDigit_of_isAlpha h
  rcases integerToken_chars htok c mem_cons_self with hc | rfl | rfl
  · rw [hdig] at hc
    cases hc
  · revert h
    decide
  · revert h
    decide

lemma parseNumber_of_isAlpha [JsonSyntax F] (h : c.isAlpha = true) (cs : List Char) :
    parseNumber (F := F) (c :: cs) = .ok none := by
  have hplus : c ≠ '+' := by
    rintro rfl
    revert h
    decide
  have hreal : parseReal (F := F) (c :: cs) = .ok none := by
    unfold parseReal
    rw [show unsigned (c :: cs) = c :: cs by simp [unsigned, hplus], JsonSyntax.letter c cs h]
    simp
  rw [parseNumber, integerToken_of_isAlpha h, if_neg Bool.false_ne_true]
  split
  · next n d hspl =>
    rw [if_neg, hreal]
    rw [Bool.and_eq_true]
    rintro ⟨hn, _⟩
    have ht := splitSlash_two hspl
    cases n with
    | nil => cases hn
    | cons x xs =>
      rw [cons_append, List.cons.injEq] at ht
      rw [← ht.1, integerToken_of_isAlpha h] at hn
      cases hn
  · exact hreal

lemma tokenDatum_symbol (hw : PlainToken w) (hnum : parseNumber (F := F) w = .ok none)
    (hdig : startsWithDigit w = false) (index : Nat) :
    tokenDatum (F := F) w index = .ok (.symbol (String.ofList w)) := by
  rw [tokenDatum_of_notHash hw.notHash, hnum]
  have hdig' : w.head?.any isDigit = false := hdig
  simp [hw.ne_nil, hw.notHash, hdig']

lemma tokenDatum_number (hw : PlainToken w) (hdig : startsWithDigit w = true) {index : Nat}
    {d : Datum F} (h : tokenDatum w index = .ok d) : ∃ n, d = .number n := by
  have hdig' : w.head?.any isDigit = true := hdig
  rw [tokenDatum_of_notHash hw.notHash] at h
  split at h
  · cases h
  · next n _ => exact ⟨n, (Except.ok.inj h).symm⟩
  · simp [hw.ne_nil, hw.notHash, hdig'] at h

omit [Doubles F] in
lemma word_start {d : Datum F} (h : d.parts = []) {k : Nat} (hl : Fits k l) (hd : l.datum = d) :
    ∃ start, l = .mk d start [] := by
  subst hd
  have hpts := hl.parts
  rw [h, map_eq_nil_iff] at hpts
  cases l with
  | mk d start children => exact ⟨start, by rw [show children = [] from hpts]; rfl⟩

lemma prints_symbol (hdep : depth ≤ 256) (hw : PlainToken w)
    (hnum : parseNumber (F := F) w = .ok none) (hdig : startsWithDigit w = false) :
    Prints (F := F) depth w
      ⟨[], fun l => ∃ start, l = .mk (.symbol (String.ofList w)) start []⟩ := by
  have hdt := (tokenDatum_ok_iff 0).mp (tokenDatum_symbol hw hnum hdig 0)
  refine ⟨.word w, .word hw, rfl, by simpa [height] using hdep, fun _ => ⟨_, hdt⟩,
    fun {k l} hl hd => ?_⟩
  rw [hdt] at hd
  exact word_start rfl hl (Option.some.inj hd).symm

lemma prints_word [JsonSyntax F] (hdep : depth ≤ 256) (h : Spelling separators w)
    (hsep : separators.all (fun c => !delimiter c) = true) :
    Prints (F := F) depth w ⟨[w], IsWord w⟩ := by
  have hw := plainToken_of_spelling h fun c hc => by simpa using all_eq_true.mp hsep c hc
  have hb : Bare [w] ↔ startsWithDigit w = false := by simp [Bare]
  cases hdig : startsWithDigit w with
  | false =>
    obtain ⟨c, cs, rfl, hc⟩ := h.first
    have hdig' : c.isDigit = false := by simpa [startsWithDigit] using hdig
    have hlet : c.isAlpha = true := (isNameChar_cases hc).resolve_left (by simp [hdig'])
    refine (prints_symbol hdep hw (parseNumber_of_isAlpha hlet cs) hdig).imp
      (fun _ => bare_nil) fun l hl => ?_
    exact ⟨fun _ => hl, fun hnot => absurd (hb.mpr hdig) hnot⟩
  | true =>
    have hnot : ¬ Bare [w] := by
      rw [hb, hdig]
      exact Bool.true_eq_false_eq_False
    refine ⟨.word w, .word hw, rfl, by simpa [height] using hdep, fun hb => absurd hb hnot, ?_⟩
    intro k l hl hd
    refine ⟨fun hb => absurd hb hnot, fun _ => ?_⟩
    obtain ⟨n, hn⟩ := tokenDatum_number hw hdig ((tokenDatum_ok_iff 0).mpr hd)
    exact ⟨n, word_start rfl hl hn⟩

def IsKeyword (word : String) (l : Located F) : Prop := ∃ start, l = .mk (.symbol word) start []

lemma prints_keyword [JsonSyntax F] (word : String) (hdep : depth ≤ 256) {cs : List Char}
    (hw : word.toList = c :: cs) (hc : c.isAlpha = true)
    (hchs : (c :: cs).all (fun x => !delimiter x) = true) :
    Prints (F := F) depth word.toList ⟨[], IsKeyword word⟩ := by
  have hne : ∀ d : Char, d.isAlpha = false → c ≠ d := by
    rintro d hd rfl
    rw [hc] at hd
    cases hd
  have hpl : PlainToken word.toList := by
    rw [hw]
    refine ⟨fun x hx => ?_, by simp, ?_, ?_, ?_⟩
    · simpa using all_eq_true.mp hchs x hx
    · simpa using hne '|' (by decide)
    · simpa using hne '#' (by decide)
    · simpa using fun heq => absurd heq (hne '.' (by decide))
  have hdig : startsWithDigit word.toList = false := by
    rw [hw]
    exact isDigit_of_isAlpha hc
  have hsym := prints_symbol (F := F) hdep hpl
    (hw ▸ parseNumber_of_isAlpha hc cs) hdig
  rw [String.ofList_toList] at hsym
  exact hsym

end Morphir.Scheme.Spec

/-!
## Names and references of printed specifications

A name that was read is printed as a word, which reads as the name unless it
starts with a digit.
-/

namespace Morphir.Scheme.Spec

open IR List

variable {F : Type}

variable {ctx : Context}

variable {l : Located F}

lemma gives_fail {α : Type} {message : String} {p : Prop} {x : α} (hp : ¬ p) :
    Gives (ctx.fail l message) p x :=
  gives_error hp

lemma not_mem_of_spelling {separators w : List Char} (h : Spelling separators w) {c : Char}
    (hc : c.isAlphanum = false) (hsep : c ∉ separators) : c ∉ w :=
  fun hmem => (h.chars c hmem).elim (fun hname => ne_of_isNameChar hname hc rfl) hsep

lemma checkHead_of_not_mem (head : String) (h : '!' ∉ head.toList) :
    checkHead ctx l head = .ok () := by
  unfold checkHead
  rw [if_neg]
  exact fun hl => h (mem_of_getLast? hl)

def Canonical (name : Name) : Prop := Name.parse name.toCanonical = .ok name

variable {name : Name}

lemma readName_canonical (h : readName ctx l = .ok name) : Canonical name := by
  unfold readName at h
  split at h
  · cases h
  · next text _ =>
    split at h
    · cases h
    · next name' hprs =>
      split at h
      · cases h
      · next hcan =>
        cases h
        rw [not_not] at hcan
        rw [Canonical, hcan, hprs]

lemma Canonical.spelling (h : Canonical name) : Spelling ['-'] (nameText name) :=
  Name.parse_spelling h

lemma readName_gives (ctx : Context) (h : Canonical name) (hl : IsWord (nameText name) l) :
    Gives (readName ctx l) (Bare [nameText name]) name := by
  by_cases hb : Bare [nameText name]
  · obtain ⟨start, rfl⟩ := hl.symbol hb
    have hrd : readName ctx (.mk (F := F) (.symbol (String.ofList (nameText name))) start []) =
        .ok name := by
      simp [readName, symbol, Located.datum, nameText, show Name.parse name.toCanonical = _ from h]
    exact hrd ▸ gives_ok.congr (by simp [hb])
  · obtain ⟨n, start, rfl⟩ := hl.number hb
    exact gives_fail hb

def CanonicalReference (name : FQName) : Prop := FQName.parse name.toCanonical = .ok name

variable {name : FQName}

lemma readReference_canonical {text : String} (h : readReference ctx l text = .ok name) :
    CanonicalReference name := by
  unfold readReference at h
  generalize (if ':' ∈ text.toList then text else ctx.packageName.toCanonical ++ ":" ++ text) =
    full at h
  simp only at h
  split at h
  · cases h
  · next name' hprs =>
    split at h
    · cases h
    · next hcan =>
      cases h
      rw [not_not] at hcan
      rw [CanonicalReference, hcan, hprs]

def localText (name : FQName) : String :=
  name.moduleName.toCanonical ++ "#" ++ name.localName.toCanonical

lemma toCanonical_eq (name : FQName) :
    name.toCanonical = name.packageName.toCanonical ++ ":" ++ localText name := by
  simp [FQName.toCanonical, localText, String.append_assoc]

lemma CanonicalReference.localSpelling (h : CanonicalReference name) :
    Spelling ['#', '/', '-'] (localText name).toList := by
  obtain ⟨_, hmod, hlo⟩ := FQName.parse_toCanonical h
  have hmod := Path.parse_spelling hmod
  have hlo := Name.parse_spelling hlo
  have ht : (localText name).toList = name.moduleName.toCanonical.toList ++
      '#' :: name.localName.toCanonical.toList := by
    simp [localText]
  rw [ht]
  refine ⟨fun c hc => ?_, ?_⟩
  · rcases mem_append.mp hc with hc | hc
    · exact (hmod.chars c hc).imp id fun h => mem_cons_of_mem _ h
    · rcases mem_cons.mp hc with rfl | hc
      · exact .inr (by simp)
      · exact (hlo.chars c hc).imp id fun h => mem_cons_of_mem _ (mem_cons_of_mem _ h)
  · obtain ⟨c, cs, hcons, hc⟩ := hmod.first
    exact ⟨c, _, by rw [hcons]; rfl, hc⟩

lemma CanonicalReference.fullSpelling (h : CanonicalReference name) :
    Spelling [':', '#', '/', '-'] name.toCanonical.toList := by
  have hpkg := Path.parse_spelling (FQName.parse_toCanonical h).1
  have ht : name.toCanonical.toList = name.packageName.toCanonical.toList ++
      ':' :: (localText name).toList := by
    simp [toCanonical_eq]
  rw [ht]
  refine ⟨fun c hc => ?_, ?_⟩
  · rcases mem_append.mp hc with hc | hc
    · exact (hpkg.chars c hc).imp id fun h => mem_cons_of_mem _ (mem_cons_of_mem _ h)
    · rcases mem_cons.mp hc with rfl | hc
      · exact .inr (by simp)
      · exact (h.localSpelling.chars c hc).imp id fun h => mem_cons_of_mem _ h
  · obtain ⟨c, cs, hcons, hc⟩ := hpkg.first
    exact ⟨c, _, by rw [hcons]; rfl, hc⟩

variable (packageName : Path)

lemma printReference_eq (name : FQName) :
    printReference packageName name = (if name.packageName = packageName then localText name
      else name.toCanonical).toList := by
  unfold printReference
  split_ifs
  · rfl
  · simp [toCanonical_eq, localText]

lemma CanonicalReference.spelling (h : CanonicalReference name) (packageName : Path) :
    Spelling [':', '#', '/', '-'] (printReference packageName name) := by
  rw [printReference_eq]
  split_ifs
  · exact ⟨fun c hc => (h.localSpelling.chars c hc).imp id fun h => mem_cons_of_mem _ h,
      h.localSpelling.first⟩
  · exact h.fullSpelling

lemma mem_printReference (name : FQName) : '#' ∈ printReference packageName name := by
  rw [printReference_eq]
  split_ifs <;> simp [toCanonical_eq, localText]

lemma readReference_toCanonical (h : CanonicalReference name) :
    readReference ctx l name.toCanonical = .ok name := by
  have hco : ':' ∈ name.toCanonical.toList := by simp [toCanonical_eq]
  unfold readReference
  simp only [if_pos hco, show FQName.parse name.toCanonical = _ from h, ne_eq,
    not_true_eq_false, if_false]

lemma readReference_printReference (h : CanonicalReference name) {source : List Char}
    {packageName : Path} :
    readReference ⟨source, packageName⟩ l (String.ofList (printReference packageName name)) =
      .ok name := by
  have hfu : (if ':' ∈ printReference packageName name then
      String.ofList (printReference packageName name)
      else packageName.toCanonical ++ ":" ++ String.ofList (printReference packageName name)) =
        name.toCanonical := by
    rw [printReference_eq]
    by_cases hpkg : name.packageName = packageName
    · subst hpkg
      rw [if_pos rfl, if_neg (not_mem_of_spelling h.localSpelling (by decide) (by decide)),
        String.ofList_toList, toCanonical_eq]
    · rw [if_neg hpkg, if_pos (by simp [toCanonical_eq]), String.ofList_toList]
  unfold readReference
  simp only [String.toList_ofList, hfu, show FQName.parse name.toCanonical = _ from h, ne_eq,
    not_true_eq_false, if_false]

end Morphir.Scheme.Spec
