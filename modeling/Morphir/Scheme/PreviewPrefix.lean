import Morphir.Scheme.NumberText
import Morphir.Scheme.Values

/-!
# Previews are prefixes

What the writer of previews has written is the longest part of the printed text that
its units last for, whatever it has passed over.
-/

namespace Morphir.Scheme

open CodeUnits Fallible List Value Except Bool

namespace PreviewWriter

def put (self : PreviewWriter) (c : Char) : PreviewWriter :=
  if self.stopped then self
  else if self.remaining < (ofChar c).length then { self with stopped := true }
  else
    { self with
      output := self.output ++ [c]
      remaining := self.remaining - (ofChar c).length
      stopped := decide (self.remaining - (ofChar c).length = 0) }

def puts (self : PreviewWriter) (text : List Char) : PreviewWriter := text.foldl put self

/-- One writer comes from another by writing a text, with any number of steps. -/
def Writes (self : PreviewWriter) (text : List Char) (next : PreviewWriter) : Prop :=
  ∃ steps, next = { self.puts text with steps }

variable {self next last : PreviewWriter} {c : Char} {text rest : List Char}

lemma puts_of_stopped (h : self.stopped = true) (text : List Char) : self.puts text = self := by
  induction text with
  | nil => rfl
  | cons c text ih =>
    rw [puts, foldl_cons, put, if_pos h]
    exact ih

section

variable (self : PreviewWriter)

lemma put_steps (steps : Int) (c : Char) :
    put { self with steps } c = { self.put c with steps } := by
  unfold put
  split_ifs <;> rfl

lemma puts_steps (steps : Int) (text : List Char) :
    puts { self with steps } text = { self.puts text with steps } := by
  induction text generalizing self with
  | nil => rfl
  | cons c text ih =>
    rw [puts, foldl_cons, put_steps]
    exact ih (self.put c)

lemma Writes.steps (steps : Int) : self.Writes [] { self with steps } := ⟨steps, rfl⟩

lemma Writes.nil : self.Writes [] self := ⟨self.steps, rfl⟩

end

lemma Writes.of_stopped (h : self.stopped = true) (text : List Char) : self.Writes text self := by
  refine ⟨self.steps, ?_⟩
  rw [puts_of_stopped h]

lemma Writes.trans (h : self.Writes text next) (h' : next.Writes rest last) :
    self.Writes (text ++ rest) last := by
  obtain ⟨steps, rfl⟩ := h
  obtain ⟨steps', rfl⟩ := h'
  refine ⟨steps', ?_⟩
  rw [puts_steps, puts, puts, puts, foldl_append]

lemma Writes.after_tick (h : self.tick = .ok next) (h' : next.Writes text last) :
    self.Writes text last := by
  unfold tick at h
  split at h
  · cases h
  · cases h
    exact (Writes.steps self _).trans h'

lemma length_ofChar (c : Char) : (if 65535 < c.toNat then 2 else 1) = (ofChar c).length := by
  unfold ofChar
  split <;> split
  · omega
  · rfl
  · rfl
  · omega

lemma character_writes (h : self.character c = .ok next) : self.Writes [c] next := by
  unfold character at h
  split at h
  · next hstp =>
      cases h
      exact .of_stopped hstp [c]
  · next hstp =>
      obtain ⟨ticked, htick, h⟩ := bind_ok h
      apply Writes.after_tick htick
      have htic : ticked.stopped = self.stopped := by
        unfold tick at htick
        split at htick
        · cases htick
        · rw [← ok.inj htick]
      rw [← htic] at hstp
      refine ⟨next.steps, ?_⟩
      dsimp only at h
      rw [length_ofChar] at h
      rw [puts, foldl_cons, foldl_nil, put, if_neg hstp]
      split at h
      · next hfu =>
          rw [if_pos hfu]
          rw [← ok.inj h]
      · next hfi =>
          rw [if_neg hfi]
          rw [← ok.inj h]

lemma text_writes (h : self.text text = .ok next) : self.Writes text next := by
  induction text generalizing self with
  | nil =>
    obtain rfl := ok.inj h
    exact .nil self
  | cons c text ih =>
    unfold PreviewWriter.text at h
    split at h
    · next hstp =>
        obtain rfl := ok.inj h
        exact .of_stopped hstp _
    · obtain ⟨middle, hc, h⟩ := bind_ok h
      exact (character_writes hc).trans (ih h)

variable {terminator : Char}

lemma quotedChar_writes (h : self.quotedChar terminator c = .ok next) :
    self.Writes (escapedChar terminator c) next := by
  unfold quotedChar at h
  unfold escapedChar
  split_ifs at h ⊢
  · obtain ⟨slash, hsl, h⟩ := bind_ok h
    exact (character_writes hsl).trans (character_writes h)
  · exact text_writes h
  · exact text_writes h
  · exact text_writes h
  · exact character_writes h

lemma quotedChars_writes (h : self.quotedChars terminator text = .ok next) :
    self.Writes (text.flatMap (escapedChar terminator)) next := by
  induction text generalizing self with
  | nil =>
    obtain rfl := ok.inj h
    exact .nil self
  | cons c text ih =>
    unfold quotedChars at h
    split at h
    · next hstp =>
        obtain rfl := ok.inj h
        exact .of_stopped hstp _
    · obtain ⟨middle, hc, h⟩ := bind_ok h
      exact (quotedChar_writes hc).trans (ih h)

lemma quoted_writes (h : self.quoted text terminator = .ok next) :
    self.Writes (escaped text terminator) next := by
  obtain ⟨opened, hope, h⟩ := bind_ok h
  obtain ⟨written, hwtn, hcld⟩ := bind_ok h
  exact (character_writes hope).trans
    ((quotedChars_writes hwtn).trans (character_writes hcld))

lemma plainChars_ok {plain : Bool} (h : self.plainChars text = .ok (plain, next)) :
    plain = !(text.any fun c => delimiter c || c = '|' || c = '\\') ∧ self.Writes [] next := by
  induction text generalizing self with
  | nil =>
    obtain ⟨rfl, rfl⟩ := Prod.mk.inj (ok.inj h)
    exact ⟨rfl, .nil self⟩
  | cons c text ih =>
    obtain ⟨ticked, htick, h⟩ := bind_ok h
    rw [any_cons]
    split at h
    · next hmk =>
        obtain ⟨rfl, rfl⟩ := Prod.mk.inj (ok.inj h)
        rw [hmk]
        exact ⟨rfl, .after_tick htick (.nil _)⟩
    · next hmk =>
        obtain ⟨hpl, hws⟩ := ih h
        rw [not_eq_true] at hmk
        rw [hmk]
        exact ⟨hpl, .after_tick htick hws⟩

lemma isPlain_ok {plain : Bool} (h : self.isPlain text = .ok (plain, next)) :
    plain = (!text.isEmpty && !(text.any fun c => delimiter c || c = '|' || c = '\\') &&
      text != ['.']) ∧ self.Writes [] next := by
  unfold isPlain at h
  split at h
  · next hname =>
      obtain ⟨rfl, hws⟩ := plainChars_ok h
      rw [and_eq_true] at hname
      rw [hname.1, hname.2, Bool.and_true]
      exact ⟨rfl, hws⟩
  · next hname =>
      cases h
      refine ⟨?_, .nil self⟩
      rw [not_eq_true, and_eq_false_iff] at hname
      rcases hname with hname | hname
      · rw [hname, Bool.false_and, Bool.false_and]
      · rw [hname, Bool.and_false]

/-- A text that the JSON parser reads as a number starts with a digit, a minus sign or
a blank. -/
class JsonNumbers (F : Type) [Doubles F] : Prop where
  first : ∀ (c : Char) (cs : List Char) (v : F),
    Doubles.jsonNumber (String.ofList (c :: cs)) = some v →
    c.isDigit = true ∨ c = '-' ∨ c = ' ' ∨ c = '\t' ∨ c = '\n' ∨ c = '\r'

section Symbols

variable {F : Type} [Doubles F] [JsonNumbers F]

lemma integerToken_first {cs : List Char} (h : integerToken (c :: cs) = true) :
    c.isDigit = true ∨ c = '+' ∨ c = '-' := by
  by_cases hplus : c = '+'
  · exact .inr (.inl hplus)
  by_cases hmi : c = '-'
  · exact .inr (.inr hmi)
  left
  unfold integerToken at h
  split at h
  · next heq => exact absurd (List.cons.inj heq).1 hmi
  · next heq => exact absurd (List.cons.inj heq).1 hplus
  · rw [and_eq_true, all_cons, and_eq_true] at h
    exact h.2.1

lemma numberOrNone_of_first {cs : List Char} (hdig : c.isDigit = false)
    (hsg : ¬ (c = '+' ∨ c = '-' ∨ c = '.')) (hdel : delimiter c = false) :
    numberOrNone (F := F) (c :: cs) = none := by
  have hinteger : ∀ cs, integerToken (c :: cs) = false := by
    intro cs
    rw [← not_eq_true]
    intro h
    rcases integerToken_first h with h | rfl | rfl
    · rw [hdig] at h
      cases h
    · exact hsg (.inl rfl)
    · exact hsg (.inr (.inl rfl))
  have hreal : ∀ n, parseReal (F := F) (c :: cs) ≠ .ok (some n) := by
    intro n h
    unfold parseReal at h
    split at h
    · split at h
      · cases h
      · next v hv =>
          have huns : unsigned (c :: cs) = c :: cs := by
            unfold unsigned
            split
            · next heq => exact absurd (.inl (List.cons.inj heq).1) hsg
            · rfl
          rw [huns] at hv
          rcases JsonNumbers.first c cs v hv with h | rfl | rfl | rfl | rfl | rfl
          · rw [hdig] at h
            cases h
          · exact hsg (.inr (.inl rfl))
          all_goals cases hdel
    · cases h
  have hspl : ∀ first parts, splitSlash (c :: cs) = first :: parts →
      integerToken first = false := by
    intro first parts h
    unfold splitSlash at h
    split at h
    · obtain ⟨rfl, -⟩ := List.cons.inj h
      rfl
    · split at h
      · obtain ⟨rfl, -⟩ := List.cons.inj h
        exact hinteger _
      · obtain ⟨rfl, -⟩ := List.cons.inj h
        exact hinteger _
  have hnum : ∀ n, parseNumber (F := F) (c :: cs) ≠ .ok (some n) := by
    intro n h
    unfold parseNumber at h
    rw [if_neg (by rw [hinteger]; exact false_ne_true)] at h
    split at h
    · next hpts =>
        rw [hspl _ _ hpts] at h
        exact hreal n h
    · exact hreal n h
  unfold numberOrNone
  split
  · next number hno =>
      cases number with
      | none => rfl
      | some n => exact absurd hno (hnum n)
  · rfl

lemma isSymbol_ok {plain symbol : Bool} (h : isSymbol F plain text = .ok symbol)
    (hpl : plain = (!text.isEmpty && !(text.any fun c => delimiter c || c = '|' || c = '\\') &&
      text != ['.'])) :
    symbol = (bareText text && (numberOrNone (F := F) text).isNone) := by
  have hb : bareText text =
      (plain && (text.head? != some '#' && !(text.head?.any Char.isDigit))) := by
    rw [hpl]
    unfold bareText
    rw [Bool.and_assoc]
  cases text with
  | nil => rw [← ok.inj h]; rfl
  | cons c cs =>
    rw [hb, List.head?_cons]
    unfold isSymbol at h
    rw [List.head?_cons] at h
    dsimp only at h
    split_ifs at h with hnot hmk hsg hlg
    · have hfalse : plain = false := by simpa using hnot
      rw [← ok.inj h, hfalse, Bool.false_and, Bool.false_and]
    · rw [← ok.inj h]
      rcases hmk with rfl | hdig
      · simp
      · simp [hdig]
    all_goals
      have htrue : plain = true := by simpa using hnot
      have hfst : (some c != some '#' && !((some c).any Char.isDigit)) = true := by simpa using hmk
      rw [htrue, hfst, Bool.true_and, Bool.true_and, ← ok.inj h]
    have hdel : delimiter c = false := by
      rw [htrue] at hpl
      simp only [any_cons, Bool.not_or, Bool.true_eq, Bool.and_eq_true, Bool.not_eq_true'] at hpl
      exact hpl.1.2.1.1.1
    have hdig : c.isDigit = false := Bool.not_eq_true _ ▸ fun h => hmk (.inr h)
    rw [numberOrNone_of_first hdig hsg hdel, Option.isNone_none]

lemma symbol_writes (h : self.symbol F text = .ok next) : self.Writes (symbolText F text) next := by
  obtain ⟨⟨plain, scanned⟩, hscan, h⟩ := bind_ok h
  obtain ⟨isName, hname, h⟩ := bind_ok h
  obtain ⟨hpl, hscn⟩ := isPlain_ok hscan
  have hsym := isSymbol_ok hname hpl
  unfold symbolText
  rw [← hsym]
  split at h
  · next hname =>
      rw [if_pos hname]
      exact hscn.trans (text_writes h)
  · next hname =>
      rw [if_neg hname]
      exact hscn.trans (quoted_writes h)

end Symbols

section Values

variable {F O : Type} [Doubles F]

attribute [local simp] value shape pairs items fields Value.render Value.renderShape
  Value.renderRest Value.renderItems Value.renderFields

lemma number_writes {n : Number F} (h : self.number n = .ok next) : self.Writes n.toText next := by
  obtain ⟨_, -, h⟩ := bind_ok h
  exact text_writes h

lemma characterName_writes (h : self.characterName c = .ok next) :
    self.Writes (characterText c) next := by
  unfold characterName at h
  unfold characterText
  split_ifs at h ⊢
  · exact text_writes h
  · exact text_writes h
  · exact text_writes h
  · exact text_writes h
  · exact character_writes h

/-- The texts of items behind a blank each, but for the first when nothing is before it. -/
def spaced (first : Bool) (texts : List (List Char)) : List Char :=
  if first then [' '].intercalate texts else texts.flatMap ([' '] ++ ·)

lemma spaced_cons (first : Bool) (text : List Char) (texts : List (List Char)) :
    spaced first (text :: texts) =
      (if first then [] else [' ']) ++ (text ++ spaced false texts) := by
  cases first with
  | false =>
    unfold spaced
    rw [if_neg Bool.false_ne_true, if_neg Bool.false_ne_true, flatMap_cons,
      if_neg Bool.false_ne_true, append_assoc]
  | true =>
    unfold spaced
    rw [if_pos rfl, if_pos rfl, if_neg Bool.false_ne_true, intercalate_cons_eq_flatMap, nil_append]

variable {first : Bool}

lemma separator_writes (h : self.separator first = .ok next) :
    self.Writes (if first then [] else [' ']) next := by
  unfold separator at h
  split at h
  · next hfst =>
      cases h
      rw [if_pos hfst]
      exact .nil self
  · next hfst =>
      rw [if_neg hfst]
      exact text_writes h

def Agrees (v : Value F O) : Prop :=
  ∀ (self next : PreviewWriter) (depth : Nat) (text : List Char),
    self.value v depth = .ok next → v.render depth = .ok text → self.Writes text next

def AgreesOnShape (v : Value F O) : Prop :=
  ∀ (self next : PreviewWriter) (depth : Nat) (text : List Char),
    self.shape v depth = .ok next → v.renderShape depth = .ok text → self.Writes text next

def AgreesOnRest (v : Value F O) : Prop :=
  ∀ (self next : PreviewWriter) (depth : Nat) (text : List Char),
    self.pairs v depth = .ok next → v.renderRest depth = .ok text → self.Writes (text ++ [')']) next

variable {v : Value F O}

lemma AgreesOnShape.agrees (h : AgreesOnShape v) : Agrees v := by
  intro self next depth text hval ht
  unfold PreviewWriter.value at hval
  unfold render at ht
  split at ht
  · cases ht
  split at hval
  · next hstp =>
      cases hval
      exact .of_stopped hstp text
  · obtain ⟨ticked, htick, hval⟩ := bind_ok hval
    obtain ⟨_, -, hsh⟩ := bind_ok hval
    exact .after_tick htick (h _ _ _ _ hsh ht)

lemma Agrees.onRest (h : Agrees v) (hnil : v ≠ .nil) (hpr : ∀ head tail, v ≠ .pair head tail) :
    AgreesOnRest v := by
  intro self next depth text hps ht
  rw [PreviewWriter.pairs] at hps
  · rw [renderRest] at ht
    · obtain ⟨last, hl, ht⟩ := bind_ok ht
      cases ht
      obtain ⟨dotted, hdot, hps⟩ := bind_ok hps
      obtain ⟨written, hwtn, hcld⟩ := bind_ok hps
      exact (text_writes hdot).trans ((h _ _ _ _ hwtn hl).trans (text_writes hcld))
    · exact hnil
    · exact hpr
  · exact hnil
  · exact hpr

variable {vs : List (Value F O)}

variable {texts : List (List Char)}

lemma items_writes (h : ∀ v ∈ vs, Agrees v) {depth : Nat}
    (hits : self.items first vs depth = .ok next) (htexts : renderItems depth vs = .ok texts)
    : self.Writes (spaced first texts) next := by
  induction vs generalizing self first texts with
    (rw [PreviewWriter.items] at hits
     rw [renderItems] at htexts)
  | nil =>
    obtain rfl := ok.inj hits
    obtain rfl := ok.inj htexts
    cases first <;> exact .nil self
  | cons v vs ih =>
    obtain ⟨text, ht, htexts⟩ := bind_ok htexts
    obtain ⟨rest, hr, htexts⟩ := bind_ok htexts
    obtain rfl := ok.inj htexts
    split at hits
    · next hstp =>
        obtain rfl := ok.inj hits
        exact .of_stopped hstp _
    · obtain ⟨separated, hsep, hits⟩ := bind_ok hits
      obtain ⟨written, hwtn, hits⟩ := bind_ok hits
      obtain ⟨hv, hvs⟩ := forall_mem_cons.mp h
      rw [spaced_cons]
      exact (separator_writes hsep).trans
        ((hv _ _ _ _ hwtn ht).trans (ih hvs hits hr))

variable {es : List (String × Value F O)}

lemma fields_writes (h : ∀ e ∈ es, Agrees e.2) {depth : Nat}
    (hfs : self.fields first es depth = .ok next) (htexts : renderFields depth es = .ok texts)
    : self.Writes (spaced first texts) next := by
  induction es generalizing self first texts with
    (rw [PreviewWriter.fields] at hfs
     rw [renderFields] at htexts)
  | nil =>
    obtain rfl := ok.inj hfs
    obtain rfl := ok.inj htexts
    cases first <;> exact .nil self
  | cons e es ih =>
    obtain ⟨text, ht, htexts⟩ := bind_ok htexts
    obtain ⟨rest, hr, htexts⟩ := bind_ok htexts
    obtain rfl := ok.inj htexts
    split at hfs
    · next hstp =>
        obtain rfl := ok.inj hfs
        exact .of_stopped hstp _
    · obtain ⟨ticked, htick, hfs⟩ := bind_ok hfs
      obtain ⟨separated, hsep, hfs⟩ := bind_ok hfs
      obtain ⟨named, hnm, hfs⟩ := bind_ok hfs
      obtain ⟨equal, hequal, hfs⟩ := bind_ok hfs
      obtain ⟨written, hwtn, hfs⟩ := bind_ok hfs
      obtain ⟨hv, hes⟩ := forall_mem_cons.mp h
      rw [spaced_cons]
      apply Writes.after_tick htick
      refine (separator_writes hsep).trans ?_
      rw [append_assoc]
      exact (text_writes hnm).trans ((text_writes hequal).trans
        ((hv _ _ _ _ hwtn ht).trans (ih hes hfs hr)))

lemma agreesOnShape_text {text : List Char}
    (hsh : ∀ self depth, PreviewWriter.shape self v depth = PreviewWriter.text self text)
    (hren : ∀ depth, v.renderShape depth = .ok text) : AgreesOnShape v := by
  intro self next depth text' h ht
  rw [hren] at ht
  cases ht
  rw [hsh] at h
  exact text_writes h

lemma agreesOnShape_pair {head tail : Value F O} (hh : Agrees head) (htl : AgreesOnRest tail) :
    AgreesOnShape (.pair head tail) := by
  intro self next depth text h ht
  rw [PreviewWriter.shape] at h
  rw [renderShape] at ht
  obtain ⟨item, hi, ht⟩ := bind_ok ht
  obtain ⟨rest, hr, ht⟩ := bind_ok ht
  cases ht
  obtain ⟨opened, hope, h⟩ := bind_ok h
  refine (text_writes hope).trans ?_
  split at h
  · next hstp =>
      cases h
      exact .of_stopped hstp _
  · obtain ⟨ticked, htick, h⟩ := bind_ok h
    obtain ⟨written, hwtn, h⟩ := bind_ok h
    apply Writes.after_tick htick
    exact (hh _ _ _ _ hwtn hi).trans (htl _ _ _ _ h hr)

lemma agreesOnRest_pair {head tail : Value F O} (hh : Agrees head) (htl : AgreesOnRest tail) :
    AgreesOnRest (.pair head tail) := by
  intro self next depth text h ht
  rw [PreviewWriter.pairs] at h
  rw [renderRest] at ht
  obtain ⟨item, hi, ht⟩ := bind_ok ht
  obtain ⟨rest, hr, ht⟩ := bind_ok ht
  cases ht
  split at h
  · next hstp =>
      cases h
      exact .of_stopped hstp _
  · obtain ⟨ticked, htick, h⟩ := bind_ok h
    obtain ⟨separated, hsep, h⟩ := bind_ok h
    obtain ⟨written, hwtn, h⟩ := bind_ok h
    apply Writes.after_tick htick
    rw [append_assoc, append_assoc]
    exact (text_writes hsep).trans
      ((hh _ _ _ _ hwtn hi).trans (htl _ _ _ _ h hr))

lemma agreesOnShape_vector (h : ∀ v ∈ vs, Agrees v) : AgreesOnShape (.vector vs) := by
  intro self next depth text hsh ht
  rw [PreviewWriter.shape] at hsh
  rw [renderShape] at ht
  obtain ⟨texts, htexts, ht⟩ := bind_ok ht
  cases ht
  obtain ⟨opened, hope, hsh⟩ := bind_ok hsh
  obtain ⟨written, hwtn, hcld⟩ := bind_ok hsh
  exact (text_writes hope).trans ((items_writes h hwtn htexts).trans (text_writes hcld))

lemma agreesOnShape_record (h : ∀ e ∈ es, Agrees e.2) : AgreesOnShape (.record es) := by
  intro self next depth text hsh ht
  rw [PreviewWriter.shape] at hsh
  rw [renderShape] at ht
  obtain ⟨texts, htexts, ht⟩ := bind_ok ht
  cases ht
  obtain ⟨opened, hope, hsh⟩ := bind_ok hsh
  obtain ⟨written, hwtn, hcld⟩ := bind_ok hsh
  exact (text_writes hope).trans ((fields_writes h hwtn htexts).trans (text_writes hcld))

lemma agreesOnShape_tagged {tag : String} (h : ∀ v ∈ vs, Agrees v) :
    AgreesOnShape (.tagged tag vs) := by
  intro self next depth text hsh ht
  rw [PreviewWriter.shape] at hsh
  rw [renderShape] at ht
  obtain ⟨texts, htexts, ht⟩ := bind_ok ht
  cases ht
  obtain ⟨opened, hope, hsh⟩ := bind_ok hsh
  obtain ⟨tagged, htag, hsh⟩ := bind_ok hsh
  obtain ⟨separated, hsep, hsh⟩ := bind_ok hsh
  obtain ⟨written, hwtn, hcld⟩ := bind_ok hsh
  exact (text_writes hope).trans ((text_writes htag).trans ((text_writes hsep).trans
    ((items_writes h hwtn htexts).trans (text_writes hcld))))

variable [JsonNumbers F]

lemma agrees (v : Value F O) : Agrees v ∧ AgreesOnRest v := by
  have hat {v : Value F O} (h : AgreesOnShape v) (hnil : v ≠ .nil)
      (hpr : ∀ head tail, v ≠ .pair head tail) : Agrees v ∧ AgreesOnRest v :=
    ⟨h.agrees, h.agrees.onRest hnil hpr⟩
  have hfixed {v : Value F O} {text : List Char} (hnil : v ≠ .nil)
      (hpr : ∀ head tail, v ≠ .pair head tail)
      (hsh : ∀ self depth, PreviewWriter.shape self v depth = PreviewWriter.text self text)
      (hren : ∀ depth, v.renderShape depth = .ok text) : Agrees v ∧ AgreesOnRest v :=
    hat (agreesOnShape_text hsh hren) hnil hpr
  induction v using inductionOn with
  | number n =>
    refine hat ?_ (by simp) (by simp)
    intro self next depth text h ht
    rw [PreviewWriter.shape] at h
    rw [renderShape] at ht
    cases ht
    exact number_writes h
  | boolean b =>
    exact hfixed (by simp) (by simp) (fun self depth => by rw [PreviewWriter.shape])
      fun depth => by rw [renderShape]
  | character c =>
    refine hat ?_ (by simp) (by simp)
    intro self next depth text h ht
    rw [PreviewWriter.shape] at h
    rw [renderShape] at ht
    cases ht
    obtain ⟨marked, hmar, h⟩ := bind_ok h
    exact (text_writes hmar).trans (characterName_writes h)
  | text s =>
    refine hat ?_ (by simp) (by simp)
    intro self next depth text h ht
    rw [PreviewWriter.shape] at h
    rw [renderShape] at ht
    cases ht
    exact quoted_writes h
  | symbol s =>
    refine hat ?_ (by simp) (by simp)
    intro self next depth text h ht
    rw [PreviewWriter.shape] at h
    rw [renderShape] at ht
    cases ht
    exact symbol_writes h
  | nil =>
    have hsh : AgreesOnShape (.nil : Value F O) :=
      agreesOnShape_text (fun self depth => by rw [PreviewWriter.shape])
        fun depth => by rw [renderShape]
    refine ⟨hsh.agrees, ?_⟩
    intro self next depth text h ht
    rw [PreviewWriter.pairs] at h
    rw [renderRest] at ht
    cases ht
    exact text_writes h
  | pair head tail ihhead ihtail =>
    exact ⟨(agreesOnShape_pair ihhead.1 ihtail.2).agrees, agreesOnRest_pair ihhead.1 ihtail.2⟩
  | vector vs ih => exact hat (agreesOnShape_vector fun v hv => (ih v hv).1) (by simp) (by simp)
  | record es ih => exact hat (agreesOnShape_record fun e he => (ih e he).1) (by simp) (by simp)
  | tagged tag vs ih => exact hat (agreesOnShape_tagged fun v hv => (ih v hv).1) (by simp) (by simp)
  | unit | closure | native | nativeFunction | ir | irType | irFile =>
    exact hfixed (by simp) (by simp) (fun self depth => by rw [PreviewWriter.shape])
      fun depth => by rw [renderShape]

end Values

lemma output_puts (h : self.stopped = false) (text : List Char) :
    (self.puts text).output = self.output ++ prefixWithin self.remaining text := by
  induction text generalizing self with
  | nil => rw [prefixWithin, append_nil]; rfl
  | cons c text ih =>
    rw [puts, foldl_cons, put, if_neg (by rw [h]; exact false_ne_true)]
    change (PreviewWriter.puts _ text).output = _
    unfold prefixWithin
    split
    · next hfu => rw [puts_of_stopped rfl, if_neg (Nat.not_le.mpr hfu), append_nil]
    · next hfi =>
        rw [if_pos (Nat.not_lt.mp hfi)]
        by_cases hz : self.remaining - (ofChar c).length = 0
        · rw [puts_of_stopped (decide_eq_true hz), hz, prefixWithin_zero]
        · rw [ih (decide_eq_false hz), append_assoc]
          rfl

end PreviewWriter

open PreviewWriter

/-- A preview is the longest part of the printed text that has at most the given number
of units and ends between two characters. -/
theorem valuePreview_longest {F O : Type} [Doubles F] [JsonNumbers F] (v : Value F O)
    (maxUnits : Int) (preview text : List Char) (hpre : valuePreview v maxUnits = .ok preview)
    (ht : valueToString v = .ok text) : IsLongestWithin maxUnits.toNat preview text := by
  obtain ⟨_, hrg, hpre⟩ := bind_ok hpre
  obtain ⟨writer, hwri, hpre⟩ := bind_ok hpre
  cases hpre
  obtain ⟨steps, rfl⟩ := (agrees v).1 _ _ _ _ hwri ht
  by_cases hz : maxUnits = 0
  · rw [puts_of_stopped (decide_eq_true hz)]
    have hnil := isLongestWithin_prefixWithin maxUnits.toNat text
    rw [hz, Int.toNat_zero, prefixWithin_zero] at hnil
    rw [hz]
    exact hnil
  · rw [output_puts (decide_eq_false hz)]
    exact isLongestWithin_prefixWithin maxUnits.toNat text

instance : PreviewWriter.JsonNumbers Whole where
  first c cs v h := by
    left
    change wholeNumber (String.ofList (c :: cs)).toList = some v at h
    rw [String.toList_ofList] at h
    unfold wholeNumber at h
    split at h
    · next digits hrev =>
        split at h
        · next hds =>
            rw [Bool.and_eq_true] at hds
            have ht : c :: cs = digits.reverse ++ ['.', '0'] := by
              rw [← reverse_reverse (c :: cs), hrev, reverse_cons, reverse_cons, append_assoc]
              rfl
            have hmem : c ∈ digits := by
              rw [← mem_reverse]
              cases hli : digits.reverse with
              | nil =>
                rw [reverse_eq_nil_iff.mp hli] at hds
                cases hds.1
              | cons d ds =>
                rw [hli] at ht
                rw [(List.cons.inj ht).1]
                exact mem_cons_self
            exact all_eq_true.mp hds.2 c hmem
        · cases h
    · cases h

theorem valuePreview_longest_vector :
    valuePreview (Value.vector [.boolean true, .nil] : Value Whole Unit) 4 =
        .ok ['#', '(', '#', 't'] ∧
      IsLongestWithin 4 ['#', '(', '#', 't'] ['#', '(', '#', 't', ' ', '(', ')', ')'] := by
  have hpre : valuePreview (.vector [.boolean true, .nil] : Value Whole Unit) 4 =
      .ok ['#', '(', '#', 't'] := by
    unfold valuePreview
    simp only [PreviewWriter.value, PreviewWriter.shape, PreviewWriter.items]
    rfl
  have ht : valueToString (.vector [.boolean true, .nil] : Value Whole Unit) =
      .ok ['#', '(', '#', 't', ' ', '(', ')', ')'] := by
    simp only [valueToString, render, renderShape, renderItems]
    rfl
  exact ⟨hpre, valuePreview_longest _ 4 _ _ hpre ht⟩

end Morphir.Scheme
