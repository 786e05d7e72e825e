import Morphir.Scheme.NumberText
import Morphir.Scheme.TextRules

/-!
# Reading what the printer prints

The text of a datum reads back to it exactly when it has no misprinted symbol.
A symbol is misprinted when its text is printed without bars although the
number parser raises an error on it.
-/

namespace Morphir.Scheme

open Reader List Except

variable {F : Type}

mutual

def Datum.symbols : Datum F → List String
  | .symbol s => [s]
  | .sequence items tail => symbolsAll items ++ symbolsTail tail
  | .vector items => symbolsAll items
  | .number _ => []
  | .boolean _ => []
  | .character _ => []
  | .text _ => []
termination_by structural d => d

def Datum.symbolsAll : List (Datum F) → List String
  | [] => []
  | d :: ds => d.symbols ++ symbolsAll ds
termination_by structural ds => ds

def Datum.symbolsTail : Option (Datum F) → List String
  | none => []
  | some d => d.symbols
termination_by structural d => d

end

variable {s : String}

lemma mem_symbolsAll {items : List (Datum F)} :
    s ∈ Datum.symbolsAll items ↔ ∃ d ∈ items, s ∈ d.symbols := by
  induction items with
  | nil => simp [Datum.symbolsAll]
  | cons d ds ih => simp [Datum.symbolsAll, ih]

variable [Doubles F]

def ZeroDenominator (text : List Char) : Prop :=
  ∃ n d, text = n ++ '/' :: d ∧ integerToken n = true ∧ integerToken d = true ∧ bigint d = 0

variable (F) in
def Overflows (text : List Char) : Prop :=
  hasPointOrExponent text = true ∧
    ∃ value : F, Doubles.jsonNumber (String.ofList (unsigned text)) = some value ∧
      Doubles.isFinite value = false

variable (F) in
/-- The symbols that are printed without bars and do not read back. -/
def Misprinted (text : String) : Prop :=
  bareText text.toList = true ∧ (ZeroDenominator text.toList ∨ Overflows F text.toList)

def Clean (d : Datum F) : Prop := ∀ s ∈ d.symbols, ¬ Misprinted F s

lemma clean_sequence {items : List (Datum F)} {tail : Option (Datum F)} :
    Clean (.sequence items tail) ↔ (∀ d ∈ items, Clean d) ∧ ∀ d, tail = some d → Clean d := by
  simp only [Clean, Datum.symbols, mem_append, mem_symbolsAll]
  constructor
  · intro h
    refine ⟨fun d hd s hs => h s (.inl ⟨d, hd, hs⟩), ?_⟩
    rintro d rfl s hs
    exact h s (.inr hs)
  · rintro ⟨hits, htl⟩ s (⟨d, hd, hs⟩ | hs)
    · exact hits d hd s hs
    · cases tail with
      | none => simp [Datum.symbolsTail] at hs
      | some d => exact htl d rfl s hs

lemma clean_vector {items : List (Datum F)} : Clean (.vector items) ↔ ∀ d ∈ items, Clean d := by
  simp only [Clean, Datum.symbols, mem_symbolsAll]
  constructor
  · exact fun h d hd s hs => h s ⟨d, hd, hs⟩
  · rintro h s ⟨d, hd, hs⟩
    exact h d hd s hs

lemma splitSlash_ne_nil (text : List Char) : splitSlash text ≠ [] := by
  cases text with
  | nil => simp [splitSlash]
  | cons c cs =>
    unfold splitSlash
    split_ifs
    · simp
    · split <;> simp

lemma splitSlash_one {part : List Char} (h : splitSlash text = [part]) :
    text = part ∧ '/' ∉ part := by
  induction text generalizing part with
  | nil =>
    simp only [splitSlash, List.cons.injEq, and_true] at h
    subst h
    simp
  | cons c cs ih =>
    unfold splitSlash at h
    split_ifs at h with hc
    · exact absurd (List.cons.inj h).2 (splitSlash_ne_nil cs)
    · split at h
      · next front parts hspl =>
        obtain ⟨rfl, rfl⟩ := List.cons.inj h
        obtain ⟨rfl, hmem⟩ := ih hspl
        exact ⟨rfl, by simp [Ne.symm hc, hmem]⟩
      · next hspl => exact absurd hspl (splitSlash_ne_nil cs)

lemma splitSlash_two {front back : List Char} (h : splitSlash text = [front, back]) :
    text = front ++ '/' :: back := by
  induction text generalizing front with
  | nil => simp [splitSlash] at h
  | cons c cs ih =>
    unfold splitSlash at h
    split_ifs at h with hc
    · obtain ⟨rfl, hbk⟩ := List.cons.inj h
      rw [hc, (splitSlash_one hbk).1]
      rfl
    · split at h
      · next part parts hspl =>
        obtain ⟨rfl, rfl⟩ := List.cons.inj h
        rw [ih hspl]
        rfl
      · next hspl => exact absurd hspl (splitSlash_ne_nil cs)

variable {text : List Char}

lemma integerToken_chars (h : integerToken text = true) :
    ∀ c ∈ text, c.isDigit = true ∨ c = '-' ∨ c = '+' := by
  unfold integerToken at h
  simp only [Bool.and_eq_true] at h
  intro c hc
  split at h
  · rcases mem_cons.mp hc with rfl | hc
    · exact .inr (.inl rfl)
    · exact .inl (all_eq_true.mp h.2 c hc)
  · rcases mem_cons.mp hc with rfl | hc
    · exact .inr (.inr rfl)
    · exact .inl (all_eq_true.mp h.2 c hc)
  · exact .inl (all_eq_true.mp h.2 c hc)

variable {c : Char}

lemma integerToken_not_mem (h : integerToken text = true)
    (hc : c = '/' ∨ c = '.' ∨ c = 'e' ∨ c = 'E') : c ∉ text := by
  intro hmem
  have hchar := integerToken_chars h c hmem
  rcases hc with rfl | rfl | rfl | rfl <;> revert hchar <;> decide

lemma not_hasPointOrExponent (h : integerToken text = true) : hasPointOrExponent text = false := by
  rw [hasPointOrExponent, any_eq_false]
  intro c hc
  simp only [Bool.or_eq_true, decide_eq_true_eq]
  rintro ((rfl | rfl) | rfl)
  · exact integerToken_not_mem h (by decide) hc
  · exact integerToken_not_mem h (by decide) hc
  · exact integerToken_not_mem h (by decide) hc

lemma hasPointOrExponent_append (front back : List Char) :
    hasPointOrExponent (front ++ back) = (hasPointOrExponent front || hasPointOrExponent back) := by
  simp [hasPointOrExponent]

lemma parseReal_error :
    (∃ error, parseReal (F := F) text = .error error) ↔ Overflows F text := by
  unfold parseReal Overflows
  by_cases hpt : hasPointOrExponent text = true
  · cases hval : Doubles.jsonNumber (F := F) (String.ofList (unsigned text)) with
    | none => simp
    | some value => by_cases hfin : Doubles.isFinite value = true <;> simp [hfin, hpt]
  · simp [hpt]

lemma parseNumber_error :
    (∃ error, parseNumber (F := F) text = .error error) ↔
      ZeroDenominator text ∨ Overflows F text := by
  by_cases htok : integerToken text = true
  · have hz : ¬ ZeroDenominator text := by
      rintro ⟨n, d, rfl, _⟩
      exact integerToken_not_mem htok (.inl rfl) (by simp)
    have hove : ¬ Overflows F text := by
      rintro ⟨hpt, _⟩
      rw [not_hasPointOrExponent htok] at hpt
      cases hpt
    simp [parseNumber, htok, hz, hove]
  by_cases hfrac : ∃ n d, text = n ++ '/' :: d ∧ integerToken n = true ∧ integerToken d = true
  · obtain ⟨n, d, rfl, hn, hd⟩ := hfrac
    have hnsl : '/' ∉ n := integerToken_not_mem hn (.inl rfl)
    have hdsl : '/' ∉ d := integerToken_not_mem hd (.inl rfl)
    have hove : ¬ Overflows F (n ++ '/' :: d) := by
      rintro ⟨hpt, _⟩
      rw [← singleton_append, hasPointOrExponent_append,
        hasPointOrExponent_append, not_hasPointOrExponent hn, not_hasPointOrExponent hd] at hpt
      revert hpt
      decide
    have hz : ZeroDenominator (n ++ '/' :: d) ↔ bigint d = 0 := by
      constructor
      · rintro ⟨n', d', heq, hn', hd', hz⟩
        have hspl := splitSlash_append hnsl hdsl
        rw [heq, splitSlash_append (integerToken_not_mem hn' (.inl rfl))
          (integerToken_not_mem hd' (.inl rfl))] at hspl
        simp only [List.cons.injEq, and_true] at hspl
        rw [← hspl.2]
        exact hz
      · exact fun hz => ⟨n, d, rfl, hn, hd, hz⟩
    rw [parseNumber, if_neg htok, splitSlash_append hnsl hdsl]
    simp only [hn, hd, Bool.and_self, hz, hove, or_false]
    unfold rational
    by_cases hd0 : bigint d = 0
    · simp [hd0, Except.map]
    · simp only [hd0, if_false, iff_false]
      rintro ⟨error, h⟩
      split_ifs at h <;> simp [Except.map] at h
  · have hz : ¬ ZeroDenominator text := by
      rintro ⟨n, d, heq, hn, hd, _⟩
      exact hfrac ⟨n, d, heq, hn, hd⟩
    have hreal : parseNumber (F := F) text = parseReal text := by
      rw [parseNumber, if_neg htok]
      split
      · next n d hspl =>
        rw [if_neg]
        intro hb
        rw [Bool.and_eq_true] at hb
        exact hfrac ⟨n, d, splitSlash_two hspl, hb.1, hb.2⟩
      · rfl
    rw [hreal, parseReal_error]
    simp [hz]

inductive Readable : Nat → Datum F → Prop
  | number {depth : Nat} {n : Number F} (hdepth : depth ≤ 256) (h : n.Normal) :
      Readable depth (.number n)
  | boolean {depth : Nat} {b : Bool} (hdepth : depth ≤ 256) : Readable depth (.boolean b)
  | character {depth : Nat} {c : Char} (hdepth : depth ≤ 256) : Readable depth (.character c)
  | text {depth : Nat} {s : String} (hdepth : depth ≤ 256) : Readable depth (.text s)
  | symbol {depth : Nat} {s : String} (hdepth : depth ≤ 256) : Readable depth (.symbol s)
  | sequence {depth : Nat} {items : List (Datum F)} {tail : Option (Datum F)}
      (hdepth : depth ≤ 256) (hitems : ∀ d ∈ items, Readable (depth + 1) d)
      (htail : ∀ d, tail = some d → Readable (depth + 1) d) (hne : tail ≠ none → items ≠ []) :
      Readable depth (.sequence items tail)
  | vector {depth : Nat} {items : List (Datum F)} (hdepth : depth + 1 ≤ 256)
      (hitems : ∀ d ∈ items, Readable (depth + 2) d) : Readable depth (.vector items)

variable {depth : Nat} {d : Datum F}

lemma Readable.depth_le (h : Readable depth d) : depth ≤ 256 := by cases h <;> omega

lemma Readable.mono (h : Readable depth d) : ∀ {k : Nat}, k ≤ depth → Readable k d := by
  induction h with
  | number hdep h => exact fun hk => .number (by omega) h
  | boolean hdep => exact fun hk => .boolean (by omega)
  | character hdep => exact fun hk => .character (by omega)
  | text hdep => exact fun hk => .text (by omega)
  | symbol hdep => exact fun hk => .symbol (by omega)
  | sequence hdep _ _ hne ihitems ihtail =>
    exact fun hk => .sequence (by omega) (fun d hd => ihitems d hd (by omega))
      (fun d hd => ihtail d hd (by omega)) hne
  | vector hdep _ ihitems => exact fun hk => .vector (by omega) fun d hd => ihitems d hd (by omega)

lemma tokenDatum_readable {token : List Char} {index : Nat} (hdep : depth ≤ 256)
    (h : tokenDatum token index = .ok d) : Readable depth d := by
  unfold tokenDatum at h
  split at h
  · rw [← ok.inj h]
    exact .boolean hdep
  split at h
  · rw [← ok.inj h]
    exact .boolean hdep
  split at h
  · cases h
  · next number hnum =>
    rw [← ok.inj h]
    exact .number hdep (parseNumber_normal hnum)
  · split_ifs at h
    rw [← ok.inj h]
    exact .symbol hdep

lemma readAtom_readable {r r' : Reader} (hdep : depth ≤ 256) (h : readAtom r = .ok (d, r')) :
    Readable depth d := by
  unfold readAtom at h
  split at h
  next cs hr =>
    split at h
    · cases h
    · rw [← (Prod.mk.inj (ok.inj h)).1]
      exact .text hdep
  next cs hr =>
    split at h
    · cases h
    · rw [← (Prod.mk.inj (ok.inj h)).1]
      exact .symbol hdep
  next cs hr =>
    simp only at h
    split_ifs at h
    split at h
    · rw [← (Prod.mk.inj (ok.inj h)).1]
      exact .character hdep
    · cases h
  next =>
    simp only at h
    split at h
    · cases h
    · next datum hdt =>
      rw [← (Prod.mk.inj (ok.inj h)).1]
      exact tokenDatum_readable hdep hdt

def Produces : Judgement F → Prop
  | .skips _ _ _ _ => True
  | .reads depth _ d _ => Readable depth d
  | .reading depth _ d _ => depth ≤ 256 → Readable depth d
  | .listing depth _ items _ d _ =>
    depth ≤ 256 → (∀ d ∈ items, Readable (depth + 1) d) →
      ∃ items tail, d = .sequence items tail ∧ Readable depth d

lemma Derives.produces {j : Judgement F} (h : Derives j) : Produces j := by
  induction h with
  | stop => trivial
  | blank => trivial
  | line => trivial
  | block => trivial
  | discard => trivial
  | read hdep _ _ _ ih => exact ih hdep
  | list h hc _ ih =>
    intro hdep
    obtain ⟨_, _, _, hrd⟩ := ih hdep (by simp)
    exact hrd
  | @quotation depth r r' cs d h _ ih =>
    intro hdep
    refine .sequence hdep ?_ (by simp) (by simp)
    intro d' hd'
    rcases mem_pair.mp hd' with rfl | rfl
    · exact .symbol (Readable.depth_le ih)
    · exact ih
  | vector h _ ih =>
    intro _
    cases ih with
    | sequence hdep hits _ _ => exact .vector hdep hits
  | atom h hat => exact fun hdep => readAtom_readable hdep hat
  | close hsk h =>
    intro hdep hits
    exact ⟨_, _, rfl, .sequence hdep hits (by simp) (by simp)⟩
  | @tail depth c ds r r₁ r₂ r₃ cs d _ h hc hds _ _ h' _ ihread _ =>
    intro hdep hits
    refine ⟨_, _, rfl, .sequence hdep hits ?_ fun _ => hds⟩
    rintro d' hd'
    rw [← Option.some.inj hd']
    exact ihread
  | @item depth c ds r r₁ r₂ r' d d' _ hne hc h _ _ _ ihread ihitems =>
    intro hdep hits
    refine ihitems hdep ?_
    intro d'' hd''
    rcases mem_append.mp hd'' with hmem | hmem
    · exact hits d'' hmem
    · rw [mem_singleton.mp hmem]
      exact ihread

def Reads (depth : Nat) (d : Datum F) : Prop :=
  ∀ b u : List Char, Ends u → Derives (.reads depth (plain b (d.toSource ++ u)) d
    (plain (d.toSource.reverse ++ b) u))

def Fails (depth : Nat) (d : Datum F) : Prop :=
  ∀ (b u : List Char) (d' : Datum F) (r' : Reader), Ends u →
    ¬ Derives (.reads depth (plain b (d.toSource ++ u)) d' r')

lemma reads_of_readAtom (hdep : depth ≤ 256)
    (h : ∀ b u : List Char, Ends u → NotTrivia (d.toSource ++ u) ∧ StartsAtom (d.toSource ++ u) ∧
      readAtom (plain b (d.toSource ++ u)) = .ok (d, plain (d.toSource.reverse ++ b) u)) :
    Reads depth d := by
  intro b u hu
  obtain ⟨htri, hsta, hat⟩ := h b u hu
  exact .read hdep (.stop htri) (.atom hsta hat)

lemma delimiter_of_isNumberChar (h : IsNumberChar c) : delimiter c = false := by
  rcases h with h | rfl
  · simp only [isDoubleChar, Bool.or_eq_true, decide_eq_true_eq] at h
    rcases h with ((((hdig | rfl) | rfl) | rfl) | rfl) | rfl
    · simp only [delimiter, Bool.or_eq_false_iff, decide_eq_false_iff_not]
      have hne := fun d => isDigit_ne (d := d) hdig
      refine ⟨⟨⟨⟨⟨⟨⟨⟨⟨⟨⟨⟨?_, ?_⟩, ?_⟩, ?_⟩, ?_⟩, ?_⟩, ?_⟩, ?_⟩, ?_⟩, ?_⟩, ?_⟩, ?_⟩, ?_⟩ <;>
        exact hne _ (by decide)
    all_goals decide
  · decide

lemma plainToken_of_numberChars {cs : List Char} (hfst : c.isDigit = true ∨ c = '-')
    (hchs : ∀ x ∈ c :: cs, IsNumberChar x) : PlainToken (c :: cs) := by
  have hc : c ≠ '|' ∧ c ≠ '#' ∧ c ≠ '.' := by
    rcases hfst with hdig | rfl
    · exact ⟨isDigit_ne hdig (by decide), isDigit_ne hdig (by decide), isDigit_ne hdig (by decide)⟩
    · decide
  refine ⟨fun x hx => delimiter_of_isNumberChar (hchs x hx), by simp, ?_, ?_, ?_⟩
  · simpa using hc.1
  · simpa using hc.2.1
  · simp [hc.2.2]

section Printed

variable [LawfulDoubles F]

lemma number_plainToken {n : Number F} (h : n.Normal) : PlainToken n.toText := by
  obtain ⟨c, cs, hc, hfst, hchs⟩ := toText_cons h
  rw [hc]
  exact plainToken_of_numberChars hfst hchs

lemma number_reads {n : Number F} (hdep : depth ≤ 256) (h : n.Normal) :
    Reads depth (.number n) := by
  have hpl := number_plainToken h
  refine reads_of_readAtom hdep fun b u hu => ?_
  simp only [Datum.toSource]
  refine ⟨(hpl.startsItem u).notTrivia, hpl.startsAtom u, ?_⟩
  rw [hpl.readAtom hu]
  simp only [tokenDatum_of_notHash hpl.notHash, parseNumber_toText h, Except.map]

end Printed

lemma boolean_reads {value : Bool} (hdep : depth ≤ 256) :
    Reads (F := F) depth (.boolean value) := by
  refine reads_of_readAtom hdep fun b u hu => ?_
  have hdel : ∀ c ∈ (Datum.boolean (F := F) value).toSource, delimiter c = false := by
    cases value <;> simp [Datum.toSource] <;> decide
  have htok := token_append hdel hu
  cases value with
  | true | false =>
    refine ⟨(startsItem_hash _ (by decide) (by decide)).notTrivia, ?_, ?_⟩
    · simp [Datum.toSource, StartsAtom]
    · simp only [Datum.toSource, cons_append, nil_append] at htok ⊢
      simp [readAtom, htok, tokenDatum]

lemma namedCharacter_characterText (c : Char) : namedCharacter (characterText c) = some c := by
  unfold characterText
  split_ifs with hsp hnew htab hret
  · rw [hsp]
    rfl
  · rw [hnew]
    rfl
  · rw [htab]
    rfl
  · rw [hret]
    rfl
  · have hlg (word : List Char) (hw : word.length ≠ 1) : [c] ≠ word :=
      fun heq => hw (heq ▸ rfl)
    have hspaceWord := hlg "space".toList (by simp)
    have hnewlineWord := hlg "newline".toList (by simp)
    have htabWord := hlg "tab".toList (by simp)
    have hreturnWord := hlg "return".toList (by simp)
    rw [namedCharacter.eq_def, if_neg hspaceWord, if_neg hnewlineWord, if_neg htabWord,
      if_neg hreturnWord]

lemma characterToken_characterText (c : Char) {u : List Char} (hu : Ends u) :
    characterToken (characterText c ++ u) = characterText c := by
  have htok : ∀ s : List Char, s ≠ [] → (s.all fun x => !delimiter x) = true →
      characterToken (s ++ u) = s := by
    intro s hne hall
    have hs : ∀ x ∈ s, delimiter x = false := by simpa using hall
    cases s with
    | nil => exact absurd rfl hne
    | cons x xs =>
      have hx := hs x mem_cons_self
      have happ := token_append hs hu
      rw [cons_append] at happ ⊢
      simp only [characterToken, hx, happ]
      rfl
  unfold characterText
  split_ifs
  · exact htok _ (by decide) (by decide)
  · exact htok _ (by decide) (by decide)
  · exact htok _ (by decide) (by decide)
  · exact htok _ (by decide) (by decide)
  · by_cases hc : delimiter c = true
    · simp [characterToken, hc]
    · refine htok _ (by simp) ?_
      simpa using hc

section

variable (hdep : depth ≤ 256)

include hdep

lemma character_reads : Reads (F := F) depth (.character c) := by
  refine reads_of_readAtom hdep fun b u hu => ?_
  simp only [Datum.toSource, cons_append]
  refine ⟨(startsItem_hash _ (by decide) (by decide)).notTrivia, by simp [StartsAtom], ?_⟩
  have hne : characterText c ++ u ≠ [] := by
    unfold characterText
    split_ifs <;> simp
  simp only [readAtom, rest_plain, characterToken_characterText c hu, namedCharacter_characterText]
  rw [if_neg (by simpa using hne)]
  have hmv := move_plain_append b ('#' :: '\\' :: characterText c) u
    (n := 2 + (characterText c).length) (by
      simp only [length_cons]
      omega)
  rw [← hmv]
  rfl

lemma text_reads : Reads (F := F) depth (.text s) := by
  refine reads_of_readAtom hdep fun b u _ => ?_
  have hmv := move_escaped b '"' s.toList u
  simp only [Datum.toSource, escaped_append] at hmv ⊢
  refine ⟨⟨by decide, by decide, by simp, by simp⟩, by simp [StartsAtom], ?_⟩
  simp only [readAtom, rest_plain, quoted_escaped (.inr rfl), hmv, String.ofList_toList]

lemma bar_reads (h : symbolText F s.toList = escaped s.toList '|') :
    Reads (F := F) depth (.symbol s) := by
  refine reads_of_readAtom hdep fun b u _ => ?_
  have hmv := move_escaped b '|' s.toList u
  simp only [Datum.toSource, h, escaped_append] at hmv ⊢
  refine ⟨⟨by decide, by decide, by simp, by simp⟩, by simp [StartsAtom], ?_⟩
  simp only [readAtom, rest_plain, quoted_escaped (.inl rfl), hmv, String.ofList_toList]

omit hdep in
lemma bareText_plainToken {s : List Char} (h : bareText s = true) : PlainToken s := by
  simp only [bareText, Bool.and_eq_true, Bool.not_eq_true', any_eq_false, Bool.or_eq_true,
    decide_eq_true_eq, not_or, bne_iff_ne, Bool.not_eq_true] at h
  obtain ⟨⟨⟨⟨hne, hchs⟩, hdot⟩, hha⟩, _⟩ := h
  refine ⟨fun c hc => (hchs c hc).1.1, by simpa using hne, ?_, hha, hdot⟩
  intro hbar
  exact (hchs '|' (mem_of_mem_head? hbar)).1.2 rfl

lemma bare_reads (hb : bareText s.toList = true) (hnum : parseNumber (F := F) s.toList = .ok none) :
    Reads (F := F) depth (.symbol s) := by
  have hpl := bareText_plainToken hb
  refine reads_of_readAtom hdep fun b u hu => ?_
  have ht : symbolText F s.toList = s.toList := by simp [symbolText, hb, numberOrNone, hnum]
  have hdig : s.toList.head?.any Char.isDigit = false := by
    simp only [bareText, Bool.and_eq_true, Bool.not_eq_true'] at hb
    exact hb.2
  simp only [Datum.toSource, ht]
  refine ⟨(hpl.startsItem u).notTrivia, hpl.startsAtom u, ?_⟩
  have hnil : s.toList.isEmpty = false := by simpa using hpl.ne_nil
  rw [hpl.readAtom hu, tokenDatum_of_notHash hpl.notHash, hnum]
  simp [hnil, hpl.notHash, hdig, Except.map]

omit hdep in
lemma misprinted_fails (h : Misprinted F s) : Fails (F := F) depth (.symbol s) := by
  obtain ⟨hb, her⟩ := h
  obtain ⟨error, her⟩ := parseNumber_error.mpr her
  have hpl := bareText_plainToken hb
  have ht : symbolText F s.toList = s.toList := by simp [symbolText, hb, numberOrNone, her]
  intro b u d' r' hu hrd
  simp only [Datum.toSource, ht] at hrd
  have hat := (hrd.reading_of_notTrivia (hpl.startsItem u).notTrivia).readAtom_of_startsAtom
    (hpl.startsAtom u)
  rw [push_plain, hpl.readAtom hu, tokenDatum_of_notHash hpl.notHash, her] at hat
  cases hat

lemma symbol_reads (h : ¬ Misprinted F s) : Reads (F := F) depth (.symbol s) := by
  by_cases hb : bareText s.toList = true
  · cases hnum : parseNumber (F := F) s.toList with
    | error error => exact absurd ⟨hb, parseNumber_error.mp ⟨error, hnum⟩⟩ h
    | ok number =>
      cases number with
      | none => exact bare_reads hdep hb hnum
      | some number => exact bar_reads hdep (by simp [symbolText, numberOrNone, hnum])
  · exact bar_reads hdep (by simp [symbolText, hb])

end

/-- The text of the datum reads as the datum, exactly when it is clean. -/
def Settled (depth : Nat) (d : Datum F) : Prop :=
  ReadsAs depth d.toSource fun d' => Clean d ∧ d' = d

lemma Settled.starts (h : Settled depth d) (u : List Char) : StartsItem (d.toSource ++ u) :=
  ReadsAs.starts h u

lemma Settled.reads (h : Settled depth d) {b u : List Char} {d' : Datum F} {r' : Reader}
    (hu : Ends u) :
    Derives (.reads depth (plain b (d.toSource ++ u)) d' r') ↔
      Clean d ∧ d' = d ∧ r' = plain (d.toSource.reverse ++ b) u :=
  (ReadsAs.reads h hu).trans and_assoc

section

variable (hsta : ∀ u, StartsItem (d.toSource ++ u))

include hsta

lemma settled_of
    (h : ∀ {b u d' r'}, Ends u → (Derives (.reads depth (plain b (d.toSource ++ u)) d' r') ↔
      Clean d ∧ d' = d ∧ r' = plain (d.toSource.reverse ++ b) u)) : Settled depth d :=
  ⟨hsta, fun hu => (h hu).trans and_assoc.symm⟩

lemma settled_of_reads (hcl : Clean d) (h : Reads depth d) : Settled depth d := by
  refine settled_of hsta fun {b u d' r'} hu => ?_
  constructor
  · intro hrd
    obtain ⟨rfl, rfl⟩ := hrd.reads_unique (h b u hu)
    exact ⟨hcl, rfl, rfl⟩
  · rintro ⟨_, rfl, rfl⟩
    exact h b u hu

lemma settled_of_fails (hcl : ¬ Clean d) (h : Fails depth d) : Settled depth d := by
  refine settled_of hsta fun {b u d' r'} hu => ?_
  constructor
  · exact fun hrd => absurd hrd (h b u d' r' hu)
  · exact fun hrd => absurd hrd.1 hcl

end

lemma listing_item {ds : List (Datum F)} {d' : Datum F} {b v : List Char} {r' : Reader}
    (hd : Settled (depth + 1) d) (hv : Ends v) :
    Derives (.listing depth ')' ds (plain b (d.toSource ++ v)) d' r') ↔
      Clean d ∧
        Derives (.listing depth ')' (ds ++ [d]) (plain (d.toSource.reverse ++ b) v) d' r') := by
  rw [ReadsAs.listing hd hv]
  constructor
  · rintro ⟨_, ⟨hcl, rfl⟩, h⟩
    exact ⟨hcl, h⟩
  · rintro ⟨hcl, h⟩
    exact ⟨d, ⟨hcl, rfl⟩, h⟩

lemma ends_following (items : List (Datum F)) {v : List Char} (hv : Ends v) :
    Ends (Datum.following items ++ v) := by
  cases items with
  | nil => exact hv
  | cons d ds =>
    rintro c cs h
    simp only [Datum.following, cons_append, List.cons.injEq] at h
    rw [← h.1]
    decide

lemma listing_following {items : List (Datum F)} {d' : Datum F} {v : List Char} {r' : Reader}
    (hits : ∀ d ∈ items, Settled (depth + 1) d) (hv : Ends v) (ds : List (Datum F)) (b : List Char)
    :
    Derives (.listing depth ')' ds (plain b (Datum.following items ++ v)) d' r') ↔
      (∀ d ∈ items, Clean d) ∧ Derives (.listing depth ')' (ds ++ items)
        (plain ((Datum.following items).reverse ++ b) v) d' r') := by
  induction items generalizing ds b with
  | nil => simp [Datum.following]
  | cons d items ih =>
    have hr := ih fun d' hd' => hits d' (mem_cons_of_mem d hd')
    rw [Datum.following, cons_append, listing_blank (by decide), append_assoc,
      listing_item (hits d mem_cons_self) (ends_following items hv), hr]
    simp [and_assoc]

lemma listing_joined {items : List (Datum F)} {d' : Datum F} {v : List Char} {r' : Reader}
    (hits : ∀ d ∈ items, Settled (depth + 1) d) (hv : Ends v) (b : List Char) :
    Derives (.listing depth ')' [] (plain b (Datum.joined items ++ v)) d' r') ↔
      (∀ d ∈ items, Clean d) ∧ Derives (.listing depth ')' items
        (plain ((Datum.joined items).reverse ++ b) v) d' r') := by
  cases items with
  | nil => simp [Datum.joined]
  | cons d items =>
    have hr := fun ds => @listing_following F _ depth items d' v r'
      (fun d' hd' => hits d' (mem_cons_of_mem d hd')) hv ds
    rw [Datum.joined, append_assoc,
      listing_item (hits d mem_cons_self) (ends_following items hv), hr]
    simp [and_assoc]

lemma listing_tail {ds : List (Datum F)} {d' : Datum F} {b u : List Char} {r' : Reader}
    (hd : Settled (depth + 1) d) (hds : ds ≠ []) :
    Derives (.listing depth ')' ds (plain b (Datum.tailSource (some d) ++ ')' :: u)) d' r') ↔
      Clean d ∧ d' = .sequence ds (some d) ∧
        r' = plain (')' :: ((Datum.tailSource (some d)).reverse ++ b)) u := by
  have hsp : Derives (F := F) (.skips depth false
      (plain (' ' :: b) ('.' :: ' ' :: (d.toSource ++ ')' :: u)))
      (plain (' ' :: b) ('.' :: ' ' :: (d.toSource ++ ')' :: u)))) :=
    .stop ⟨by decide, by decide, by simp, by simp⟩
  simp only [Datum.tailSource, cons_append, append_assoc, reverse_cons]
  rw [listing_blank (by decide)]
  constructor
  · intro h
    cases h with (obtain rfl := hsk.skips_unique hsp)
    | close hsk h =>
      exact absurd (List.cons.inj h).1 (by decide)
    | tail hsk _ _ _ hrd hsk' _ =>
      obtain ⟨hcl, rfl, rfl⟩ := (hd.reads (ends_close u)).mp ((reads_blank (by decide)).mp hrd)
      obtain rfl := hsk'.skips_unique (stop_close _ u)
      exact ⟨hcl, rfl, rfl⟩
    | item hsk _ _ h _ _ =>
      cases h
  · rintro ⟨hcl, rfl, rfl⟩
    refine .tail hsp (by simp [isDot, delimiter]) (by decide) hds
      ((reads_blank (by decide)).mpr ((hd.reads (ends_close u)).mpr ⟨hcl, rfl, rfl⟩)) (stop_close _ u) rfl

lemma ends_tailSource (tail : Option (Datum F)) (u : List Char) :
    Ends (Datum.tailSource tail ++ ')' :: u) := by
  cases tail with
  | none => exact ends_close u
  | some d =>
    rintro c cs h
    simp only [Datum.tailSource, cons_append, List.cons.injEq] at h
    rw [← h.1]
    decide

lemma listing_sequence {items : List (Datum F)} {tail : Option (Datum F)} {d' : Datum F}
    {b u : List Char} {r' : Reader} (hits : ∀ d ∈ items, Settled (depth + 1) d)
    (htl : ∀ d, tail = some d → Settled (depth + 1) d) (hne : tail ≠ none → items ≠ []) :
    Derives (.listing depth ')' []
        (plain b (Datum.joined items ++ (Datum.tailSource tail ++ ')' :: u))) d' r') ↔
      Clean (.sequence items tail) ∧ d' = .sequence items tail ∧
        r' = plain (')' :: ((Datum.tailSource tail).reverse ++
          ((Datum.joined items).reverse ++ b))) u := by
  rw [listing_joined hits (ends_tailSource tail u), clean_sequence]
  cases tail with
  | none =>
    simp only [Datum.tailSource, nil_append]
    rw [listing_close]
    simp
  | some d =>
    rw [listing_tail (htl d rfl) (hne (by simp))]
    simp [and_assoc]

lemma sequence_settled {items : List (Datum F)} {tail : Option (Datum F)} (hdep : depth ≤ 256)
    (hits : ∀ d ∈ items, Settled (depth + 1) d) (htl : ∀ d, tail = some d → Settled (depth + 1) d)
    (hne : tail ≠ none → items ≠ []) : Settled depth (.sequence items tail) := by
  have hsrc : ∀ u, (Datum.sequence items tail).toSource ++ u =
      '(' :: (Datum.joined items ++ (Datum.tailSource tail ++ ')' :: u)) := by
    simp [Datum.toSource]
  have hsta : ∀ u, StartsItem ((Datum.sequence items tail).toSource ++ u) := by
    intro u
    exact startsItem_cons _ (by decide) (by decide) (by decide) (by decide)
      (isDot_cons _ (by decide))
  refine settled_of hsta fun {b u d' r'} _ => ?_
  have hlis := @listing_sequence F _ depth items tail d' ('(' :: b) u r' hits htl hne
  have hreader : plain ((Datum.sequence items tail).toSource.reverse ++ b) u =
      plain (')' :: ((Datum.tailSource tail).reverse ++
        ((Datum.joined items).reverse ++ ('(' :: b)))) u := by
    simp [Datum.toSource]
  rw [hreader, ← hlis]
  constructor
  · intro hrd
    have hreading := hrd.reading_of_notTrivia (hsta u).notTrivia
    rw [hsrc] at hreading
    cases hreading with
    | list h _ hits =>
      obtain ⟨rfl, rfl⟩ := List.cons.inj h
      exact hits
    | quotation h _ | vector h _ => exact absurd (List.cons.inj h).1 (by decide)
    | atom h _ => exact absurd rfl h.1
  · intro h
    refine .read hdep (.stop (hsta u).notTrivia) ?_
    rw [hsrc]
    exact .list rfl (.inl rfl) h

lemma vector_settled {items : List (Datum F)} (hdep : depth + 1 ≤ 256)
    (hits : ∀ d ∈ items, Settled (depth + 2) d) : Settled depth (.vector items) := by
  have hseq : Settled (depth + 1) (.sequence items none) :=
    sequence_settled hdep hits (by simp) (by simp)
  have hsrc : (Datum.vector items).toSource = '#' :: (Datum.sequence items none).toSource := by
    simp [Datum.toSource, Datum.tailSource]
  have hop : ∃ t, (Datum.sequence items none).toSource = '(' :: t := ⟨_, by rw [Datum.toSource]⟩
  have hsta : ∀ u, StartsItem ((Datum.vector items).toSource ++ u) := by
    intro u
    exact startsItem_hash _ (by decide) (by decide)
  refine settled_of hsta fun {b u d' r'} hu => ?_
  have hcl : Clean (.vector items) ↔ Clean (.sequence items none) := by
    simp [clean_vector, clean_sequence]
  rw [hcl]
  constructor
  · intro hrd
    have hrea := hrd.reading_of_notTrivia (hsta u).notTrivia
    rw [hsrc] at hrea
    cases hrea with
    | list h hc _ =>
      obtain ⟨rfl, _⟩ := List.cons.inj h
      rcases hc with hc | hc <;> cases hc
    | quotation h _ => exact absurd (List.cons.inj h).1 (by decide)
    | vector h hin =>
      obtain ⟨hcl', hds, rfl⟩ := (hseq.reads hu).mp hin
      simp only [Datum.sequence.injEq, and_true] at hds
      subst hds
      refine ⟨hcl', rfl, ?_⟩
      simp [hsrc, plain, unrecord]
    | atom h _ =>
      obtain ⟨t, ht⟩ := hop
      simp [ht, StartsAtom] at h
  · rintro ⟨hcl', rfl, rfl⟩
    obtain ⟨t, ht⟩ := hop
    have hin := (hseq.reads (b := '#' :: b) hu).mpr ⟨hcl', rfl, rfl⟩
    refine .read (by omega) (.stop (hsta u).notTrivia) ?_
    have hvec := Derives.vector (r := plain b ((Datum.vector items).toSource ++ u))
      (show _ = '#' :: '(' :: (t ++ u) by simp [hsrc, ht]) (by simpa [hsrc] using hin)
    simpa [hsrc, plain, unrecord] using hvec

variable [LawfulDoubles F]

lemma Readable.settled (h : Readable depth d) : Settled depth d := by
  induction h with
  | @number depth n hdep hn =>
    refine settled_of_reads (fun u => ?_) (by simp [Clean, Datum.symbols]) (number_reads hdep hn)
    exact (number_plainToken hn).startsItem u
  | @boolean depth value hdep =>
    refine settled_of_reads (fun u => ?_) (by simp [Clean, Datum.symbols]) (boolean_reads hdep)
    cases value <;> exact startsItem_hash _ (by decide) (by decide)
  | @character depth c hdep =>
    refine settled_of_reads (fun u => ?_) (by simp [Clean, Datum.symbols]) (character_reads hdep)
    exact startsItem_hash _ (by decide) (by decide)
  | @text depth s hdep =>
    refine settled_of_reads (fun u => ?_) (by simp [Clean, Datum.symbols]) (text_reads hdep)
    exact startsItem_cons _ (by decide) (by decide) (by decide) (by decide)
      (isDot_cons _ (by decide))
  | @symbol depth s hdep =>
    have hsta : ∀ u, StartsItem ((Datum.symbol (F := F) s).toSource ++ u) := by
      intro u
      simp only [Datum.toSource, symbolText]
      split_ifs with hb
      · rw [Bool.and_eq_true] at hb
        exact (bareText_plainToken hb.1).startsItem u
      · exact startsItem_cons _ (by decide) (by decide) (by decide) (by decide)
          (isDot_cons _ (by decide))
    by_cases hs : Misprinted F s
    · exact settled_of_fails hsta (by simpa [Clean, Datum.symbols] using hs)
        (misprinted_fails hs)
    · exact settled_of_reads hsta (by simpa [Clean, Datum.symbols] using hs)
        (symbol_reads hdep hs)
  | sequence hdep _ _ hne ihitems ihtail => exact sequence_settled hdep ihitems ihtail hne
  | vector hdep _ ihitems => exact vector_settled hdep ihitems

omit [LawfulDoubles F] in
lemma reads_of_parseProgram {source : List Char} {forms : List (Datum F)}
    (hsta : StartsItem source) (h : parseProgram F source = .ok forms) :
    ∃ d r, Derives (F := F) (.reads 0 (plain [] source) d r) := by
  have hsp : Derives (F := F) (.skips 0 true (plain [] source) (plain [] source)) :=
    .stop hsta.notTrivia
  have hsk := hsp.computes (fuelFor source.length) (fuelFor_skip le_rfl)
  have hsrc : source.isEmpty = false := by simpa using hsta.ne_nil
  change (readForms F source.length (source.length + 1) [] (plain [] source)).map Prod.fst = _ at h
  rw [readForms, hsk] at h
  simp only [rest_plain, hsrc] at h
  cases hrd : Scheme.read F (fuelFor source.length) 0 (plain [] source) with
  | error error => simp [hrd, Except.map] at h
  | ok result => exact ⟨_, _, (follows _).2.1 _ _ _ _ hrd⟩

/-- A datum that the reader produced is the whole program of its text exactly
when it has no misprinted symbol. -/
theorem parseProgram_toSource_iff {fuel depth : Nat} {r r' : Reader} {d : Datum F}
    (h : Scheme.read F fuel depth r = .ok (d, r')) :
    parseProgram F d.toSource = .ok [d] ↔ ∀ s ∈ d.symbols, ¬ Misprinted F s := by
  have hrs : Derives (.reads depth r d r') := (follows fuel).2.1 _ _ _ _ h
  have hrea : Readable 0 d := .mono hrs.produces (Nat.zero_le depth)
  have hset := hrea.settled
  have hsta := hset.starts []
  have hend : Ends [] := by
    rintro c cs hnil
    cases hnil
  have hiff := @Settled.reads _ _ _ _ hset [] []
  rw [append_nil] at hsta
  constructor
  · intro hpro
    obtain ⟨d', r'', hrd⟩ := reads_of_parseProgram hsta hpro
    rw [← append_nil d.toSource] at hrd
    exact (hiff hend |>.mp hrd).1
  · intro hcl
    have hrd := (hiff hend).mpr ⟨hcl, rfl, rfl⟩
    rw [append_nil] at hrd
    exact parseProgram_of_reads hsta.notTrivia hsta.ne_nil hrd

theorem parseProgram_toSource_iff_list :
    let d : Datum Whole := .sequence [.symbol "z", .number (.integer 1), .symbol "a b"]
      (some (.text "\""))
    parseProgram Whole d.toSource = .ok [d] := by
  have hread : Scheme.read Whole 9 0 (.ofText ['(', 'z', ' ', '1', ' ', '|', 'a', ' ', 'b', '|',
        ' ', '.', ' ', '"', '\\', '"', '"', ')'] none none) =
      .ok (.sequence [.symbol "z", .number (.integer 1), .symbol "a b"] (some (.text "\"")),
        plain [')', '"', '"', '\\', '"', ' ', '.', ' ', '|', 'b', ' ', 'a', '|', ' ', '1', ' ', 'z',
          '('] []) := rfl
  refine (parseProgram_toSource_iff hread).mpr ?_
  intro s hs
  simp only [Datum.symbols, Datum.symbolsAll, Datum.symbolsTail, nil_append, cons_append, mem_cons,
    not_mem_nil, or_false] at hs
  rintro ⟨hbare, herror⟩
  obtain ⟨error, herror⟩ := parseNumber_error.mpr herror
  rcases hs with rfl | rfl
  · have hnone : parseNumber (F := Whole) "z".toList = .ok none := rfl
    cases herror
  · revert hbare
    decide

/-- The barred symbol `|-1/0|` is read, and its text is not. -/
theorem not_forall_parseProgram_toSource :
    ¬ ∀ (fuel depth : Nat) (r r' : Reader) (d : Datum Whole),
      Scheme.read Whole fuel depth r = .ok (d, r') → parseProgram Whole d.toSource = .ok [d] := by
  intro h
  have hrd : Scheme.read Whole 3 0 (.ofText ['|', '-', '1', '/', '0', '|'] none none) =
      .ok (.symbol "-1/0", plain ['|', '0', '/', '1', '-', '|'] []) := rfl
  have hsrc : (Datum.symbol (F := Whole) "-1/0").toSource = ['-', '1', '/', '0'] := rfl
  have her : parseProgram Whole ['-', '1', '/', '0'] = .error (.invalid "Division by zero") := rfl
  have hpro := h _ _ _ _ _ hrd
  cases hpro

end Morphir.Scheme
