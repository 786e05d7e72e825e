import Morphir.Library.Merging
import Morphir.Metadata.ContextBindings

/-!
# Merges of imported contexts

The contexts of a list are merged when they agree, and then what they bind together does not
depend on their order.
-/

namespace Morphir.Metadata

open Fallible List OrdMap Option Context Merging
open Morphir.Execution (Ion)

variable {X : Type}

structure Context.Same (c d : Context) : Prop where
  term : ∀ name, c.term? name = d.term? name
  vocab : c.vocab = d.vocab

variable {c d : Context}

lemma Context.Same.bind (h : c.Same d) (name : String) (term : Term) :
    (c.bind name term).Same (d.bind name term) := by
  refine ⟨fun other => ?_, h.vocab⟩
  rw [term?_bind, term?_bind, h.term]

lemma Context.Same.withVocab (h : c.Same d) (stem : String) :
    (c.withVocab stem).Same (d.withVocab stem) := ⟨h.term, rfl⟩

def Follows {ε α β : Type} (R : α → β → Prop) (x : Except ε α) (y : Except ε β) : Prop :=
  ∀ a, x = .ok a → ∃ b, y = .ok b ∧ R a b

lemma Follows.bind {ε α β γ δ : Type} {R : α → β → Prop} {S : γ → δ → Prop} {x : Except ε α}
    {y : Except ε β} {f : α → Except ε γ} {g : β → Except ε δ} (h : Follows R x y)
    (hfg : ∀ a b, R a b → Follows S (f a) (g b)) : Follows S (x >>= f) (y >>= g) := by
  intro c hc
  obtain ⟨a, hx, hf⟩ := bind_ok hc
  obtain ⟨b, hy, hab⟩ := h a hx
  obtain ⟨d, hg, hcd⟩ := hfg a b hab c hf
  exact ⟨d, by rw [hy, bind_eq, hg], hcd⟩

lemma Follows.bind_same {ε α γ δ : Type} {S : γ → δ → Prop} {x : Except ε α} {f : α → Except ε γ}
    {g : α → Except ε δ} (hfg : ∀ a, Follows S (f a) (g a)) : Follows S (x >>= f) (x >>= g) :=
  .bind (fun a ha => ⟨a, ha, rfl⟩) fun a _ hab => hab ▸ hfg a

lemma follows_ok {ε α β : Type} {R : α → β → Prop} {a : α} {b : β} (h : R a b) :
    Follows R (.ok a : Except ε α) (.ok b) := by
  rintro _ ⟨⟩
  exact ⟨b, rfl, h⟩

lemma follows_error {ε α β : Type} {R : α → β → Prop} {e : ε} {y : Except ε β} :
    Follows R (.error e) y := nofun

lemma Context.Same.expand (h : c.Same d) (key : String) : c.expand key = d.expand key := by
  have halias : c.alias? key = d.alias? key := by rw [alias?, alias?, h.term]
  have hpre : c.prefixOf key = d.prefixOf key := by simp only [prefixOf, h.term]
  rw [Context.expand, Context.expand, halias, hpre, h.vocab]

lemma setTerm_follows (h : c.Same d) (name : String) (term : Term) (imports : Bool) :
    Follows Same (setTerm c name term imports)
      (setTerm d name term imports) := by
  intro out hout
  obtain ⟨rfl, hadm⟩ := setTerm_eq_ok.mp hout
  refine ⟨d.bind name term, setTerm_eq_ok.mpr ⟨rfl, ?_⟩, h.bind name term⟩
  intro old hold
  exact hadm old ((h.term name).trans hold)

variable {imports : Bool}

lemma declareTerms_follows {entries : List (String × Ion X)} :
    ∀ {c d : Context} (_ : c.Same d) (pending : List (String × Term)),
      Follows (fun a b => a.1.Same b.1 ∧ a.2 = b.2) (declareTerms imports entries c pending)
        (declareTerms imports entries d pending) := by
  induction entries with
  | nil => exact fun h pending => follows_ok ⟨h, rfl⟩
  | cons entry entries ih =>
    intro c d h pending
    obtain ⟨name, value⟩ := entry
    rw [declareTerms, declareTerms]
    split
    · refine .bind_same fun stem => .bind_same fun _ => ?_
      rw [h.vocab]
      exact .bind_same fun _ => ih (h.withVocab stem) pending
    · refine .bind_same fun _ => .bind_same fun term => ?_
      split
      · refine .bind_same fun _ => .bind_same fun _ => ?_
        exact .bind (setTerm_follows h name term imports) fun a b hab => ih hab pending
      · exact ih h _

lemma bindTerms_follows {pending : List (String × Term)} :
    ∀ {c d : Context} (_ : c.Same d),
      Follows Same (bindTerms imports pending c) (bindTerms imports pending d) := by
  induction pending with
  | nil => exact fun h => follows_ok h
  | cons entry pending ih =>
    intro c d h
    obtain ⟨name, term⟩ := entry
    have htgt : c.target term.iri = d.target term.iri := by rw [target, target, h.expand]
    rw [bindTerms, htgt]
    refine .bind_same fun _ => .bind_same fun iri => .bind_same fun _ => ?_
    exact .bind (setTerm_follows h name _ imports) fun a b hab => ih hab

lemma applyInline_follows (h : c.Same d) (value : Ion X) (imports : Bool) :
    Follows Same (applyInline c value imports) (applyInline d value imports) := by
  refine .bind_same fun record => .bind_same fun _ => ?_
  refine .bind (declareTerms_follows h []) ?_
  rintro ⟨a, pending⟩ ⟨b, _⟩ ⟨hab, rfl⟩
  exact bindTerms_follows hab

/-- What a context says: its terms by their names, and its vocabulary. -/
def Context.says? (c : Context) : Option String → Option (Term ⊕ String)
  | some name => (c.term? name).map .inl
  | none => c.vocab.map .inr

lemma Context.Same.of_told (h : c.says? = d.says?) : c.Same d := by
  constructor
  · intro name
    exact map_injective Sum.inl_injective (congrFun h (some name))
  · exact map_injective Sum.inr_injective (congrFun h none)

variable {terms : List (String × Term)}

lemma bindAll_eq_ok :
    ∀ {c out : Context}, OrdMap.Distinct terms →
      (bindAll imports terms c = .ok out ↔ (∀ e ∈ terms, c.Admits imports e.1 e.2) ∧
        out = terms.foldl (fun c e => c.bind e.1 e.2) c) := by
  induction terms with
  | nil =>
    intro c out _
    rw [bindAll, Except.ok.injEq]
    exact ⟨fun h => ⟨by simp, h.symm⟩, fun h => h.2.symm⟩
  | cons entry terms ih =>
    intro c out hdi
    obtain ⟨name, term⟩ := entry
    have hnd := nodup_cons.mp hdi
    have hadm : ∀ e ∈ terms, (c.bind name term).Admits imports e.1 e.2 ↔
        c.Admits imports e.1 e.2 := by
      intro e he
      have hne : name ≠ e.1 := fun h => hnd.1 (mem_map.mpr ⟨e, he, h.symm⟩)
      rw [Admits, Admits, term?_bind, if_neg hne]
    rw [bindAll, forall_mem_cons]
    constructor
    · intro h
      obtain ⟨d, hset, hr⟩ := bind_ok h
      obtain ⟨rfl, hname⟩ := setTerm_eq_ok.mp hset
      obtain ⟨hterms, hout⟩ := (ih hnd.2).mp hr
      exact ⟨⟨hname, fun e he => (hadm e he).mp (hterms e he)⟩, hout⟩
    · rintro ⟨⟨hname, hterms⟩, hout⟩
      rw [setTerm_eq_ok.mpr ⟨rfl, hname⟩]
      exact (ih hnd.2).mpr ⟨fun e he => (hadm e he).mpr (hterms e he), hout⟩

lemma vocab_foldl (terms : List (String × Term)) (c : Context) :
    (terms.foldl (fun c e => c.bind e.1 e.2) c).vocab = c.vocab := by
  induction terms generalizing c with
  | nil => rfl
  | cons entry terms ih => exact ih _

lemma term?_foldl (hdi : OrdMap.Distinct terms) (c : Context) (name : String) :
    (terms.foldl (fun c e => c.bind e.1 e.2) c).term? name =
      (get? terms name).or (c.term? name) := by
  induction terms generalizing c with
  | nil => rfl
  | cons entry terms ih =>
    have hnd := nodup_cons.mp hdi
    rw [foldl_cons, ih hnd.2, term?_bind, get?_cons]
    by_cases hname : entry.1 = name
    · have hno : get? terms name = none :=
        get?_eq_none_iff.mpr fun hmem => hnd.1 (hname ▸ hmem)
      rw [if_pos hname, if_pos hname, hno]
      rfl
    · rw [if_neg hname, if_neg hname]

def Context.merged (c d : Context) : Context :=
  d.terms.foldl (fun c e => c.bind e.1 e.2) ⟨c.terms, d.vocab.or c.vocab, c.distinct⟩

lemma Context.says?_merged (c d : Context) : (c.merged d).says? = union c.says? d.says? := by
  funext key
  cases key with
  | some name =>
    have hterm : (c.merged d).term? name = (d.term? name).or (c.term? name) :=
      term?_foldl d.distinct _ name
    rw [union, says?, says?, says?, hterm, map_or]
  | none =>
    have hvocab : (c.merged d).vocab = d.vocab.or c.vocab := vocab_foldl _ _
    rw [union, says?, says?, says?, hvocab, map_or]

lemma agrees_told : Agrees c.says? d.says? ↔
    (∀ old ∈ c.vocab, ∀ stem ∈ d.vocab, old = stem) ∧
      ∀ e ∈ d.terms, ∀ old, c.term? e.1 = some old → old = e.2 := by
  constructor
  · intro h
    refine ⟨fun old hold stem hstem => ?_, fun e he old hold => ?_⟩
    · exact Sum.inr_injective (h none _ _ (map_eq_some_iff.mpr ⟨old, hold, rfl⟩)
        (map_eq_some_iff.mpr ⟨stem, hstem, rfl⟩))
    · have hterm : d.term? e.1 = some e.2 := get?_of_mem d.distinct he
      exact Sum.inl_injective (h (some e.1) _ _ (map_eq_some_iff.mpr ⟨old, hold, rfl⟩)
        (map_eq_some_iff.mpr ⟨e.2, hterm, rfl⟩))
  · rintro ⟨hvocab, hterms⟩ key v w hv hw
    cases key with (obtain ⟨old, hold, rfl⟩ := map_eq_some_iff.mp hv)
    | some name =>
      obtain ⟨term, hterm, rfl⟩ := map_eq_some_iff.mp hw
      rw [hterms (name, term) (mem_of_get? hterm) old hold]
    | none =>
      obtain ⟨stem, hstem, rfl⟩ := map_eq_some_iff.mp hw
      rw [hvocab old hold stem hstem]

lemma admits_iff {name : String} {term : Term} :
    c.Admits true name term ↔ ∀ old, c.term? name = some old → old = term := by
  constructor
  · intro h old hold
    by_contra hne
    cases (h old hold hne).2
  · exact fun h old hold hne => absurd (h old hold) hne

lemma mergeImport_eq_ok {out : Context} :
    c.mergeImport d = .ok out ↔ Agrees c.says? d.says? ∧ out = c.merged d := by
  have hbind := @bindAll_eq_ok true d.terms ⟨c.terms, d.vocab.or c.vocab, c.distinct⟩ out d.distinct
  simp only [admits_iff] at hbind
  rw [agrees_told, and_assoc]
  refine Iff.trans ?_ (and_congr_right' hbind)
  rw [mergeImport]
  cases hvocab : d.vocab with
  | none => exact ⟨fun h => ⟨fun _ _ _ h => absurd h (by simp), h⟩, fun h => h.2⟩
  | some stem =>
    constructor
    · intro h
      obtain ⟨_, hchk, h⟩ := bind_ok h
      refine ⟨fun old hold other ho => ?_, h⟩
      by_contra hne
      cases ho
      exact refuse_ok hchk ⟨old, hold, hne⟩
    · rintro ⟨hagr, h⟩
      have hchk : ¬ ∃ old ∈ c.vocab, old ≠ stem := by
        rintro ⟨old, hold, hne⟩
        exact hne (hagr old hold stem rfl)
      dsimp only
      rw [refuse, if_neg hchk]
      exact h

variable {cs : List Context}

lemma mergeImports_ok {imports out : Context} (h : mergeImports cs imports = .ok out) :
    Consistent ((imports :: cs).map says?) ∧
      Gathers ((imports :: cs).map says?) out.says? := by
  induction cs generalizing imports with
  | nil =>
    cases h
    refine ⟨?_, gathers_singleton⟩
    intro f hf g hg
    rw [mem_singleton.mp hf, mem_singleton.mp hg]
    exact .refl _
  | cons c cs ih =>
    obtain ⟨merged, hmg, hr⟩ := bind_ok h
    obtain ⟨hagr, rfl⟩ := mergeImport_eq_ok.mp hmg
    obtain ⟨hcon, hgat⟩ := ih hr
    rw [map_cons, says?_merged] at hcon hgat
    exact ⟨consistent_union.mpr ⟨hagr, hcon⟩, (gathers_union hagr).mp hgat⟩

lemma exists_mergeImports {imports : Context} (h : Consistent ((imports :: cs).map says?)) :
    ∃ out, mergeImports cs imports = .ok out := by
  induction cs generalizing imports with
  | nil => exact ⟨imports, rfl⟩
  | cons c cs ih =>
    obtain ⟨hagr, hcon⟩ := consistent_union.mp h
    rw [← says?_merged] at hcon
    obtain ⟨out, hout⟩ := ih hcon
    exact ⟨out, by rw [mergeImports, mergeImport_eq_ok.mpr ⟨hagr, rfl⟩, bind_eq, hout]⟩

lemma mergeImports_perm {cs' : List Context} (hpm : cs.Perm cs') (imports : Context) :
    Follows Same (mergeImports cs imports) (mergeImports cs' imports) := by
  intro out hout
  obtain ⟨hcon, hgat⟩ := mergeImports_ok hout
  have hmap := (hpm.cons imports).map says?
  obtain ⟨out', hout'⟩ := exists_mergeImports (hcon.perm hmap)
  exact ⟨out', hout', .of_told (hgat.eq_of_perm (mergeImports_ok hout').2 hmap)⟩

end Morphir.Metadata
