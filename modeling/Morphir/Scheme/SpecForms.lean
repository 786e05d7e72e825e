import Morphir.Scheme.Positions
import Morphir.Scheme.RoundTrip

/-!
# Printed forms

A form is the layout of a printed text: words, literals and lists with the
blanks before each item.  Its text reads as the data that its words spell.
-/

namespace Morphir.Scheme

open Reader List

inductive Form
  | word (text : List Char)
  | boolean (value : Bool)
  | integer (value : Int)
  | text (value : String)
  | list (items : List (List Char × Form))

namespace Form

mutual

def source : Form → List Char
  | .word w => w
  | .boolean true => ['#', 't']
  | .boolean false => ['#', 'f']
  | .integer value => (toString value).toList
  | .text value => escaped value.toList '"'
  | .list items => '(' :: (sourceAll items ++ [')'])
termination_by structural f => f

def sourceAll : List (List Char × Form) → List Char
  | [] => []
  | (blanks, f) :: items => blanks ++ f.source ++ sourceAll items
termination_by structural items => items

end

mutual

def height : Form → Nat
  | .list items => heightAll items
  | .word _ => 0
  | .boolean _ => 0
  | .integer _ => 0
  | .text _ => 0
termination_by structural f => f

def heightAll : List (List Char × Form) → Nat
  | [] => 0
  | (_, f) :: items => max (f.height + 1) (heightAll items)
termination_by structural items => items

end

variable {F : Type} [Doubles F]

mutual

/-- The datum that the text of a form spells, if its words spell data. -/
def datum : Form → Option (Datum F)
  | .word w =>
    match tokenDatum (F := F) w 0 with
    | .ok datum => some datum
    | .error _ => none
  | .boolean value => some (.boolean value)
  | .integer value => some (.number (.integer value))
  | .text value => some (.text value)
  | .list items => (datumAll items).map fun ds => .sequence ds none
termination_by structural f => f

def datumAll : List (List Char × Form) → Option (List (Datum F))
  | [] => some []
  | (_, f) :: items => f.datum.bind fun d => (datumAll items).map (d :: ·)
termination_by structural items => items

end

/-- The words are tokens, and blanks stand between the items of a list. -/
inductive Laid : Form → Prop
  | word {text : List Char} (h : PlainToken text) : Laid (.word text)
  | boolean {value : Bool} : Laid (.boolean value)
  | integer {value : Int} : Laid (.integer value)
  | text {value : String} : Laid (.text value)
  | list {items : List (List Char × Form)} (hitems : ∀ i ∈ items, Laid i.2)
      (hblank : ∀ i ∈ items, ∀ c ∈ i.1, isBlank c = true)
      (hseparate : ∀ i ∈ items.tail, i.1 ≠ []) : Laid (.list items)

/-- The text of the form reads as its datum, where the nesting allows it. -/
def Spells (F : Type) [Doubles F] (depth : Nat) (f : Form) : Prop :=
  ReadsAs (F := F) depth f.source fun d => depth + f.height ≤ 256 ∧ f.datum = some d

variable {depth : Nat} {d : Datum F}

lemma reads_of_atom {r r' : Reader} (htri : NotTrivia r.rest) (hsta : StartsAtom r.rest) :
    Derives (.reads depth r d r') ↔ depth ≤ 256 ∧ readAtom r.push = .ok (d, r') := by
  constructor
  · intro h
    have hat := (h.reading_of_notTrivia htri).readAtom_of_startsAtom hsta
    cases h with
    | read hdep _ _ => exact ⟨hdep, hat⟩
  · rintro ⟨hdep, hat⟩
    exact .read hdep (.stop htri) (.atom hsta hat)

lemma tokenDatum_ok_iff {text : List Char} (i : Nat) :
    tokenDatum text i = .ok d ↔ (Form.word text).datum = some d := by
  simp only [datum]
  constructor
  · intro h
    rw [tokenDatum_index h 0]
  · intro h
    split at h
    · next d' hd =>
      rw [← Option.some.inj h]
      exact tokenDatum_index hd i
    · cases h

lemma word_spells {text : List Char} (h : PlainToken text) :
    Spells F depth (.word text) where
  starts := h.startsItem
  reads := by
    intro b u d r' hu
    simp only [source, height, Nat.add_zero,
      ← tokenDatum_ok_iff (plain (text.reverse ++ b) u).index]
    rw [reads_of_atom (h.startsItem u).notTrivia (h.startsAtom u), push_plain, h.readAtom hu,
      and_assoc]
    refine and_congr_right fun _ => ?_
    cases tokenDatum (F := F) text (plain (text.reverse ++ b) u).index with
    | error error => simp [Except.map]
    | ok d' =>
      simp only [Except.map, Except.ok.injEq, Prod.mk.injEq]
      exact and_congr_right fun _ => eq_comm

lemma spells_of_reads {f : Form} (hhei : f.height = 0) (hdt : f.datum = some d)
    (hsta : ∀ u, StartsItem (f.source ++ u)) (hsrc : d.toSource = f.source)
    (h : depth ≤ 256 → Reads depth d) : Spells F depth f where
  starts := hsta
  reads := by
    intro b u d' r' hu
    rw [hhei, hdt]
    constructor
    · intro hrd
      have hdep : depth ≤ 256 := by
        cases hrd
        assumption
      have hrd' := h hdep b u hu
      rw [hsrc] at hrd'
      obtain ⟨rfl, rfl⟩ := hrd.reads_unique hrd'
      exact ⟨⟨hdep, rfl⟩, rfl⟩
    · rintro ⟨⟨hdep, hd⟩, rfl⟩
      cases hd
      have hrd' := h hdep b u hu
      rw [hsrc] at hrd'
      exact hrd'

lemma integer_plainToken (z : Int) : PlainToken (toString z).toList := by
  have hchs := toString_chars z
  obtain ⟨c, cs, hc, hfst⟩ := toString_cons z
  rw [hc] at hchs ⊢
  refine plainToken_of_numberChars hfst fun x hx => ?_
  rcases hchs x hx with hdig | rfl
  · exact .inl (by simp [isDoubleChar, hdig])
  · exact .inl (by decide)

lemma integer_spells (z : Int) : Spells F depth (.integer z) := by
  have hpl := integer_plainToken z
  have hdt : (Form.word (toString z).toList).datum = some (.number (F := F) (.integer z)) := by
    rw [← tokenDatum_ok_iff 0, tokenDatum_of_notHash hpl.notHash, parseNumber_integer]
  have hw : Spells F depth _ := word_spells hpl
  refine ⟨hw.starts, fun {b u d r'} hu => ?_⟩
  have hrs := @ReadsAs.reads _ _ _ _ _ hw b u d r' hu
  rw [hdt] at hrs
  exact hrs

lemma boolean_spells (value : Bool) : Spells F depth (.boolean value) := by
  refine spells_of_reads rfl rfl (fun u => ?_) ?_ boolean_reads
  · cases value <;> exact startsItem_hash _ (by decide) (by decide)
  · cases value <;> rfl

lemma text_spells (value : String) : Spells F depth (.text value) := by
  refine spells_of_reads rfl rfl (fun u => ?_) rfl text_reads
  exact startsItem_cons _ (by decide) (by decide) (by decide) (by decide) (isDot_cons _ (by decide))

lemma listing_blanks {c : Char} {s : List Char} (hs : ∀ x ∈ s, isBlank x = true)
    {ds : List (Datum F)} {b u : List Char} {r' : Reader} :
    Derives (.listing depth c ds (plain b (s ++ u)) d r') ↔
      Derives (.listing depth c ds (plain (s.reverse ++ b) u) d r') := by
  induction s generalizing b with
  | nil => rfl
  | cons x s ih =>
    rw [cons_append, listing_blank (hs x mem_cons_self), ih fun y hy => hs y (mem_cons_of_mem x hy)]
    simp

lemma delimiter_of_isBlank {c : Char} (h : isBlank c = true) : delimiter c = true := by
  simp only [isBlank, Bool.or_eq_true, decide_eq_true_eq] at h
  rcases h with ((rfl | rfl) | rfl) | rfl <;> decide

variable {items : List (List Char × Form)}

lemma listing_sourceAll (hits : ∀ i ∈ items, Spells F (depth + 1) i.2)
    (hbl : ∀ i ∈ items, ∀ c ∈ i.1, isBlank c = true) (hsep : ∀ i ∈ items.tail, i.1 ≠ [])
    {ds : List (Datum F)} {b u : List Char} {d' : Datum F} {r' : Reader} :
    Derives (.listing depth ')' ds (plain b (sourceAll items ++ ')' :: u)) d' r') ↔
      (∀ i ∈ items, depth + 1 + i.2.height ≤ 256) ∧ (∃ ds', datumAll items = some ds' ∧
        d' = .sequence (ds ++ ds') none) ∧
        r' = plain (')' :: ((sourceAll items).reverse ++ b)) u := by
  induction items generalizing ds b with
  | nil =>
    simp only [sourceAll, datumAll, nil_append, listing_close]
    simp
  | cons i items ih =>
    obtain ⟨blanks, f⟩ := i
    have hends : Ends (sourceAll items ++ ')' :: u) := by
      cases items with
      | nil => exact ends_close u
      | cons j items =>
        obtain ⟨next, g⟩ := j
        have hne : next ≠ [] := hsep (next, g) (by simp)
        cases next with
        | nil => exact absurd rfl hne
        | cons x xs =>
          rintro c cs h
          simp only [sourceAll, cons_append, List.cons.injEq] at h
          rw [← h.1]
          exact delimiter_of_isBlank (hbl (x :: xs, g) (by simp) x (by simp))
    have hr := fun ds b => @ih (fun j hj => hits j (mem_cons_of_mem _ hj))
      (fun j hj => hbl j (mem_cons_of_mem _ hj))
      (fun j hj => hsep j (mem_of_mem_tail hj)) ds b
    have hf := hits (blanks, f) mem_cons_self
    simp only [sourceAll, append_assoc]
    rw [listing_blanks (hbl (blanks, f) mem_cons_self), ReadsAs.listing hf hends]
    simp only [hr, datumAll]
    constructor
    · rintro ⟨d, ⟨hheight, hd⟩, hheights, ⟨ds', hds', rfl⟩, rfl⟩
      refine ⟨?_, ⟨d :: ds', by simp [hd, hds'], by simp⟩, by simp⟩
      intro j hj
      rcases mem_cons.mp hj with rfl | hj
      · exact hheight
      · exact hheights j hj
    · rintro ⟨hheights, ⟨ds', hds', rfl⟩, rfl⟩
      simp only [Option.bind_eq_some_iff, Option.map_eq_some_iff] at hds'
      obtain ⟨d, hd, ds'', hds'', rfl⟩ := hds'
      exact ⟨d, ⟨hheights _ mem_cons_self, hd⟩,
        fun j hj => hheights j (mem_cons_of_mem _ hj), ⟨ds'', hds'', by simp⟩, by simp⟩

lemma heightAll_le {n : Nat} : heightAll items ≤ n ↔ ∀ i ∈ items, i.2.height + 1 ≤ n := by
  induction items with
  | nil => simp [heightAll]
  | cons i items ih => simp [heightAll, ih]

lemma list_spells (hits : ∀ i ∈ items, Spells F (depth + 1) i.2)
    (hbl : ∀ i ∈ items, ∀ c ∈ i.1, isBlank c = true) (hsep : ∀ i ∈ items.tail, i.1 ≠ []) :
    Spells F depth (.list items) := by
  have hsrc : ∀ u, (Form.list items).source ++ u = '(' :: (sourceAll items ++ ')' :: u) := by
    simp [source]
  have hsta : ∀ u, StartsItem ((Form.list items).source ++ u) := by
    intro u
    exact startsItem_cons _ (by decide) (by decide) (by decide) (by decide)
      (isDot_cons _ (by decide))
  refine ⟨hsta, fun {b u d r'} _ => ?_⟩
  have hlis := @listing_sourceAll F _ depth items hits hbl hsep [] ('(' :: b) u d r'
  have hheight : depth + (Form.list items).height ≤ 256 ↔
      depth ≤ 256 ∧ ∀ i ∈ items, depth + 1 + i.2.height ≤ 256 := by
    constructor
    · intro h
      have hle := heightAll_le.mp (show heightAll items ≤ 256 - depth by
        simp only [height] at h
        omega)
      refine ⟨by omega, fun i hi => ?_⟩
      have hi := hle i hi
      omega
    · rintro ⟨hdep, h⟩
      have hle : heightAll items ≤ 256 - depth := heightAll_le.mpr fun i hi => by
        have hi := h i hi
        omega
      simp only [height]
      omega
  have hdt : (Form.list items).datum = some d ↔
      ∃ ds, datumAll items = some ds ∧ d = .sequence ([] ++ ds) none := by
    simp [datum, eq_comm]
  have hreader : plain ((Form.list items).source.reverse ++ b) u =
      plain (')' :: ((sourceAll items).reverse ++ ('(' :: b))) u := by
    simp [source]
  rw [hheight, hdt, hreader]
  constructor
  · intro hrd
    have hreading := hrd.reading_of_notTrivia (hsta u).notTrivia
    have hdep : depth ≤ 256 := by
      cases hrd
      assumption
    rw [hsrc] at hreading
    cases hreading with
    | list h _ hits =>
      obtain ⟨rfl, rfl⟩ := List.cons.inj h
      obtain ⟨hheights, hds, hr'⟩ := hlis.mp hits
      exact ⟨⟨⟨hdep, hheights⟩, hds⟩, hr'⟩
    | quotation h _ | vector h _ => exact absurd (List.cons.inj h).1 (by decide)
    | atom h _ => exact absurd rfl h.1
  · rintro ⟨⟨⟨hdep, hheights⟩, hds⟩, hr'⟩
    refine .read hdep (.stop (hsta u).notTrivia) ?_
    rw [hsrc]
    exact .list rfl (.inl rfl) (hlis.mpr ⟨hheights, hds, hr'⟩)

lemma Laid.spells {f : Form} (h : f.Laid) (depth : Nat) : Spells F depth f := by
  induction h generalizing depth with
  | word h => exact word_spells h
  | boolean => exact boolean_spells _
  | integer => exact integer_spells _
  | text => exact text_spells _
  | list _ hbl hsep ih => exact list_spells (fun i hi => ih i hi _) hbl hsep

end Form

end Morphir.Scheme
