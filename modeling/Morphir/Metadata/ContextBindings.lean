import Morphir.Metadata.Contexts

/-!
# Protected terms

A term that a context protects keeps its binding in every context that is resolved over it.
-/

namespace Morphir.Metadata

open Fallible
open Morphir.Execution (Ion)

variable {X : Type}

lemma Context.term?_bind (c : Context) (name : String) (term : Term) (other : String) :
    (c.bind name term).term? other = if name = other then some term else c.term? other :=
  OrdMap.get?_insert c.terms name term other

/-- The context has no other binding of the name that `set_term` refuses to replace. -/
def Context.Admits (c : Context) (imports : Bool) (name : String) (term : Term) : Prop :=
  ∀ old, c.term? name = some old → old ≠ term → old.isProtected = false ∧ imports = false

variable {c out : Context} {imports : Bool}

lemma setTerm_eq_ok {name : String} {term : Term} :
    setTerm c name term imports = .ok out ↔
      out = c.bind name term ∧ c.Admits imports name term := by
  rw [setTerm, Context.Admits]
  cases hold : c.term? name with
  | none =>
    constructor
    · intro h
      cases h
      exact ⟨rfl, nofun⟩
    · rintro ⟨rfl, -⟩
      rfl
  | some old =>
    dsimp only
    by_cases hsm : old = term
    · rw [if_neg (not_not.mpr hsm)]
      constructor
      · intro h
        cases h
        refine ⟨rfl, fun other ho hne => absurd ?_ hne⟩
        rw [← Option.some.inj ho, hsm]
      · rintro ⟨rfl, -⟩
        rfl
    · rw [if_pos hsm]
      constructor
      · intro h
        obtain ⟨_, hpro, h⟩ := bind_ok h
        obtain ⟨_, himp, h⟩ := bind_ok h
        cases h
        refine ⟨rfl, fun other ho _ => ?_⟩
        cases ho
        exact ⟨Bool.eq_false_iff.mpr (refuse_ok hpro), Bool.eq_false_iff.mpr (refuse_ok himp)⟩
      · rintro ⟨rfl, hadm⟩
        obtain ⟨hpro, himp⟩ := hadm old rfl hsm
        rw [hpro, himp]
        rfl

/-- The protected terms of a context are bound the same in another one. -/
def Protects (c d : Context) : Prop :=
  ∀ name term, c.term? name = some term → term.isProtected = true → d.term? name = some term

lemma Protects.refl (c : Context) : Protects c c := fun _ _ h _ => h

lemma Protects.trans {d e : Context} (h : Protects c d) (h' : Protects d e) : Protects c e :=
  fun name term hterm hpro => h' name term (h name term hterm hpro) hpro

lemma protects_withVocab (c : Context) (stem : String) : Protects c (c.withVocab stem) :=
  fun _ _ h _ => h

lemma setTerm_protects {name : String} {term : Term} (h : setTerm c name term imports = .ok out) :
    Protects c out := by
  obtain ⟨rfl, hadm⟩ := setTerm_eq_ok.mp h
  intro other old hold hpro
  rw [Context.term?_bind]
  split
  · rename_i heq
    subst heq
    by_contra hne
    have hf := (hadm old hold fun hsm => hne (congrArg some hsm.symm)).1
    rw [hpro] at hf
    cases hf
  · exact hold

variable {pending : List (String × Term)}

lemma declareTerms_protects {entries : List (String × Ion X)} {rest : List (String × Term)}
    (h : declareTerms imports entries c pending = .ok (out, rest)) : Protects c out := by
  induction entries generalizing c pending with
  | nil =>
    cases h
    exact .refl _
  | cons entry entries ih =>
    rw [declareTerms] at h
    split at h
    · obtain ⟨stem, -, h⟩ := bind_ok h
      obtain ⟨_, -, h⟩ := bind_ok h
      obtain ⟨_, -, h⟩ := bind_ok h
      exact (protects_withVocab c stem).trans (ih h)
    · obtain ⟨_, -, h⟩ := bind_ok h
      obtain ⟨term, -, h⟩ := bind_ok h
      split at h
      · obtain ⟨_, -, h⟩ := bind_ok h
        obtain ⟨_, -, h⟩ := bind_ok h
        obtain ⟨d, hset, h⟩ := bind_ok h
        exact (setTerm_protects hset).trans (ih h)
      · exact ih h

lemma bindTerms_protects (h : bindTerms imports pending c = .ok out) : Protects c out := by
  induction pending generalizing c with
  | nil =>
    cases h
    exact .refl _
  | cons entry pending ih =>
    obtain ⟨_, -, h⟩ := bind_ok h
    obtain ⟨iri, -, h⟩ := bind_ok h
    obtain ⟨_, -, h⟩ := bind_ok h
    obtain ⟨d, hset, h⟩ := bind_ok h
    exact (setTerm_protects hset).trans (ih h)

lemma applyInline_protects {value : Ion X} (h : applyInline c value imports = .ok out) :
    Protects c out := by
  obtain ⟨record, -, h⟩ := bind_ok h
  obtain ⟨_, -, h⟩ := bind_ok h
  obtain ⟨⟨d, pending⟩, hdec, h⟩ := bind_ok h
  exact (declareTerms_protects hdec).trans (bindTerms_protects h)

lemma bindAll_protects {terms : List (String × Term)} (h : bindAll imports terms c = .ok out) :
    Protects c out := by
  induction terms generalizing c with
  | nil =>
    cases h
    exact .refl _
  | cons entry terms ih =>
    obtain ⟨d, hset, h⟩ := bind_ok h
    exact (setTerm_protects hset).trans (ih h)

lemma bindImports_protects {imports : Context} (h : c.bindImports imports = .ok out) :
    Protects c out := by
  refine .trans ?_ (bindAll_protects h)
  split
  · exact protects_withVocab c _
  · exact .refl c

variable {host : Capabilities X}

lemma resolveContext_protects {levels : Nat} {value : Ion X} {inherited : Context} {base : String}
    {seen seen' active : List String}
    (h : resolveContext host levels value inherited base seen active = .ok (out, seen')) :
    Protects inherited out := by
  cases levels with
  | zero =>
    obtain ⟨_, -, h⟩ := bind_ok h
    cases h
  | succ levels =>
    obtain ⟨_, -, h⟩ := bind_ok h
    split at h
    · obtain ⟨output, hinl, h⟩ := bind_ok h
      cases h
      exact applyInline_protects hinl
    · obtain ⟨resource, -, h⟩ := bind_ok h
      obtain ⟨⟨imported, _⟩, -, h⟩ := bind_ok h
      obtain ⟨output, himp, h⟩ := bind_ok h
      cases h
      exact bindImports_protects himp
    · obtain ⟨_, -, h⟩ := bind_ok h
      obtain ⟨⟨⟨imports, trailing⟩, _⟩, -, h⟩ := bind_ok h
      obtain ⟨output, himp, h⟩ := bind_ok h
      cases trailing with
      | none =>
        cases h
        exact bindImports_protects himp
      | some value =>
        obtain ⟨inner, hinl, h⟩ := bind_ok h
        cases h
        exact (bindImports_protects himp).trans (applyInline_protects hinl)
    · cases h

lemma nestedContexts_protects {values : List (Ion X × String)} {inherited : Context}
    (h : nestedContexts host values inherited = .ok out) : Protects inherited out := by
  induction values generalizing inherited with
  | nil =>
    cases h
    exact .refl _
  | cons value values ih =>
    obtain ⟨c, hro, h⟩ := bind_ok h
    obtain ⟨⟨d, seen⟩, hrsv, hsm⟩ := map_ok hro
    cases hsm
    exact (resolveContext_protects hrsv).trans (ih h)

end Morphir.Metadata
