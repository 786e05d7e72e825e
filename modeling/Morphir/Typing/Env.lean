import Morphir.Library.Traversal
import Morphir.Typing.Convert

/-!
# The environment of named types

An alias expands to its body with the arguments in place of its parameters.
An alias that refers to itself, directly or through other aliases, is found by
a depth-first search and does not expand.
-/

namespace Morphir.Typing

open IR List OrdMap

inductive TypeInfo
  | alias (params : List String) (body : IRType)
  | nominal (arity : Nat)

structure Env where
  types : List (String × TypeInfo)
  constructors : List (String × Poly)
  values : List (String × Poly)
  packages : List (String × Bool)
  cyclicAliases : List (String × Bool)

/- Every type name that a type refers to. -/
mutual
def referencesOf : IRType → List String
  | .variable _ _ => []
  | .reference _ name args => name.toCanonical :: referencesOfItems args
  | .tuple _ items => referencesOfItems items
  | .union _ items => referencesOfItems items
  | .record _ fields => referencesOfFields fields
  | .extensibleRecord _ _ fields => referencesOfFields fields
  | .function _ input output => referencesOf input ++ referencesOf output
  | .unit _ => []

def referencesOfItems : List IRType → List String
  | [] => []
  | item :: items => referencesOf item ++ referencesOfItems items

def referencesOfFields : List (Name × IRType) → List String
  | [] => []
  | (_, field) :: fields => referencesOf field ++ referencesOfFields fields
end

/- Every reference that a type contains, with its number of arguments. -/
mutual
def countedReferencesOf : IRType → List (String × Nat)
  | .variable _ _ => []
  | .reference _ name args => (name.toCanonical, args.length) :: countedReferencesOfItems args
  | .tuple _ items => countedReferencesOfItems items
  | .union _ items => countedReferencesOfItems items
  | .record _ fields => countedReferencesOfFields fields
  | .extensibleRecord _ _ fields => countedReferencesOfFields fields
  | .function _ input output => countedReferencesOf input ++ countedReferencesOf output
  | .unit _ => []

def countedReferencesOfItems : List IRType → List (String × Nat)
  | [] => []
  | item :: items => countedReferencesOf item ++ countedReferencesOfItems items

def countedReferencesOfFields : List (Name × IRType) → List (String × Nat)
  | [] => []
  | (_, field) :: fields => countedReferencesOf field ++ countedReferencesOfFields fields
end

variable {r : String × Nat}

lemma mem_countedReferencesOfItems {items : List IRType} :
    r ∈ countedReferencesOfItems items ↔ ∃ item ∈ items, r ∈ countedReferencesOf item := by
  induction items with
  | nil => simp [countedReferencesOfItems]
  | cons item items ih => simp [countedReferencesOfItems, ih]

lemma mem_countedReferencesOfFields {fields : List (Name × IRType)} :
    r ∈ countedReferencesOfFields fields ↔ ∃ e ∈ fields, r ∈ countedReferencesOf e.2 := by
  induction fields with
  | nil => simp [countedReferencesOfFields]
  | cons e fields ih => simp [countedReferencesOfFields, ih]

variable {name : String}

lemma mem_referencesOfItems {items : List IRType} :
    name ∈ referencesOfItems items ↔ ∃ item ∈ items, name ∈ referencesOf item := by
  induction items with
  | nil => simp [referencesOfItems]
  | cons item items ih => simp [referencesOfItems, ih]

lemma mem_referencesOfFields {fields : List (Name × IRType)} :
    name ∈ referencesOfFields fields ↔ ∃ e ∈ fields, name ∈ referencesOf e.2 := by
  induction fields with
  | nil => simp [referencesOfFields]
  | cons e fields ih => simp [referencesOfFields, ih]

lemma mem_referencesOf_of_counted (t : IRType) (h : r ∈ countedReferencesOf t) :
    r.1 ∈ referencesOf t := by
  have hits : ∀ items : List IRType,
      (∀ t ∈ items, r ∈ countedReferencesOf t → r.1 ∈ referencesOf t) →
      r ∈ countedReferencesOfItems items → r.1 ∈ referencesOfItems items := by
    intro items ih hr
    obtain ⟨item, hi, hr⟩ := mem_countedReferencesOfItems.mp hr
    exact mem_referencesOfItems.mpr ⟨item, hi, ih item hi hr⟩
  have hfs : ∀ fields : List (Name × IRType),
      (∀ e ∈ fields, r ∈ countedReferencesOf e.2 → r.1 ∈ referencesOf e.2) →
      r ∈ countedReferencesOfFields fields → r.1 ∈ referencesOfFields fields := by
    intro fields ih hr
    obtain ⟨e, he, hr⟩ := mem_countedReferencesOfFields.mp hr
    exact mem_referencesOfFields.mpr ⟨e, he, ih e he hr⟩
  induction t using IRType.inductionOn with
  | var attrs name | unit attrs => simp [countedReferencesOf] at h
  | reference attrs name args ih =>
    rcases mem_cons.mp h with rfl | h
    · exact mem_cons_self
    · exact mem_cons_of_mem _ (hits args ih h)
  | tuple attrs items ih => exact hits items ih h
  | union attrs items ih => exact hits items ih h
  | record attrs fields ih => exact hfs fields ih h
  | extensibleRecord attrs row fields ih => exact hfs fields ih h
  | function attrs input output ihi iho =>
    rcases mem_append.mp h with h | h
    · exact mem_append_left _ (ihi h)
    · exact mem_append_right _ (iho h)

def bindParams {α : Type} (params : List String) (args : List α) : List (String × α) :=
  OrdMap.ofList (params.zip args)

namespace Env

def new : Env := ⟨[], [], [], [], []⟩

/-- The names in the body of an alias; other types refer to nothing. -/
def aliasReferences (env : Env) (name : String) : List String :=
  match get? env.types name with
  | some (.alias _ body) => referencesOf body
  | _ => []

/-- Whether the alias `node` refers to `target`, directly or through other
aliases.  A walk enters each alias once. -/
def reaches (env : Env) (node target : String) : Bool :=
  (Search.visit env.aliasReferences target (env.types.length + 1) node []).1

def isAlias (env : Env) (name : String) : Bool :=
  match get? env.types name with
  | some (.alias _ _) => true
  | _ => false

def findCyclicAliases (env : Env) : Env :=
  { env with
    cyclicAliases := (OrdMap.keys env.types).foldl
      (fun found name =>
        if env.isAlias name && env.reaches name name then OrdMap.insert found name true
        else found)
      env.cyclicAliases }

/-- The parameters and the body of an alias that expands at this arity. -/
def aliasAt (env : Env) (name : String) (arity : Nat) : Option (List String × IRType) :=
  match get? env.types name with
  | some (.alias params body) =>
    if OrdMap.contains env.cyclicAliases name || params.length != arity then none
    else some (params, body)
  | _ => none

/-- The type of a variable in an alias body: the argument of a parameter, and
a rigid variable for any other name. -/
def boundVar (bound : List (String × Ty)) (name : String) (attrs : TypeAttributes) : Ty :=
  match get? bound name with
  | some t => t
  | none => .rigid name (classesOf name attrs)

/-- The expansion of the alias `name` applied to `args`; `none` when `name` is
not an alias, is cyclic or has a different arity. -/
def expand (env : Env) (name : String) (args : List Ty) : Option Ty :=
  match env.aliasAt name args.length with
  | some (params, body) => some (toTy (boundVar (bindParams params args)) body)
  | none => none

lemma boundVar_cases (params : List String) (args : List Ty) (name : String)
    (attrs : TypeAttributes) :
    boundVar (bindParams params args) name attrs ∈ args ∨
      boundVar (bindParams params args) name attrs = .rigid name (classesOf name attrs) := by
  unfold boundVar
  cases h : get? (bindParams params args) name with
  | none => exact Or.inr rfl
  | some t => exact Or.inl (of_mem_zip (mem_ofList (mem_of_get? h))).2

lemma bindParams_rel {α β : Type} {R : α → β → Prop} (params : List String) {xs : List α}
    {ys : List β} (h : List.Forall₂ R xs ys) (name : String) :
    Option.Rel R (get? (bindParams params xs) name)
      (get? (bindParams params ys) name) := by
  have hzip : List.Forall₂ (fun e f => e.1 = f.1 ∧ R e.2 f.2) (params.zip xs) (params.zip ys) := by
    induction h generalizing params with
    | nil => simp
    | cons head _ ih =>
      cases params with
      | nil => simp
      | cons p params => exact .cons ⟨rfl, head⟩ (ih params)
  exact get?_ofList_rel hzip name

variable {params : List String}

lemma boundVar_rel {R : Ty → Ty → Prop} {xs ys : List Ty} (h : List.Forall₂ R xs ys)
    (hrigid : ∀ name classes, R (.rigid name classes) (.rigid name classes)) (name : String)
    (attrs : TypeAttributes) :
    R (boundVar (bindParams params xs) name attrs) (boundVar (bindParams params ys) name attrs) := by
  have hget := bindParams_rel params h name
  unfold boundVar
  generalize get? (bindParams params xs) name = x at hget
  generalize get? (bindParams params ys) name = y at hget
  cases hget with
  | none => exact hrigid _ _
  | some hxy => exact hxy

/-- The alias `a` expands and its body names `b`. -/
def Refers (env : Env) (a b : String) : Prop :=
  OrdMap.contains env.cyclicAliases a = false ∧ b ∈ env.aliasReferences a

def Acyclic (env : Env) : Prop := WellFounded fun b a => env.Refers a b

variable {env : Env}

lemma mem_keys_of_aliasReferences {a : String} (h : env.aliasReferences a ≠ []) :
    a ∈ OrdMap.keys env.types := by
  unfold aliasReferences at h
  split at h
  · rename_i heq
    exact get?_isSome_iff.mp (by simp [heq])
  · exact absurd rfl h

lemma contains_foldl_insert (found : List (String × Bool)) (p : String → Bool)
    (names : List String) (name : String)
    (h : OrdMap.contains (names.foldl
      (fun found name => if p name then OrdMap.insert found name true else found) found) name =
        false) :
    OrdMap.contains found name = false ∧ (name ∈ names → p name = false) := by
  induction names generalizing found with
  | nil => exact ⟨h, by simp⟩
  | cons other names ih =>
    obtain ⟨hfd, hns⟩ := ih _ h
    cases hp : p other with
    | false =>
      refine ⟨by simpa [hp] using hfd, ?_⟩
      intro hname
      rcases mem_cons.mp hname with rfl | hname
      · exact hp
      · exact hns hname
    | true =>
      simp only [hp, if_true, OrdMap.contains, get?_insert] at hfd
      have hne : other ≠ name := by
        rintro rfl
        simp at hfd
      refine ⟨by simpa [OrdMap.contains, hne] using hfd, ?_⟩
      intro hname
      rcases mem_cons.mp hname with rfl | hname
      · exact absurd rfl hne
      · exact hns hname

lemma acyclic_findCyclicAliases (env : Env) : env.findCyclicAliases.Acyclic := by
  have hin : ∀ name, env.aliasReferences name ≠ [] → name ∈ OrdMap.keys env.types :=
    fun name => mem_keys_of_aliasReferences
  refine Search.wellFounded_of_acyclic (OrdMap.keys env.types) ?_ ?_
  · intro a b hab
    exact hin a (ne_nil_of_mem hab.2)
  · intro a hcycle
    have hfst : ∃ b, env.findCyclicAliases.Refers a b := by
      obtain ⟨b, hab, -⟩ := Relation.TransGen.head'_iff.mp hcycle
      exact ⟨b, hab⟩
    obtain ⟨b, hcyc, hb⟩ := hfst
    have hmem : a ∈ OrdMap.keys env.types := hin a (ne_nil_of_mem hb)
    have halias : env.isAlias a = true := by
      have hb' : b ∈ env.aliasReferences a := hb
      unfold aliasReferences at hb'
      unfold isAlias
      split at hb'
      · rfl
      · simp at hb'
    have hnot := (contains_foldl_insert _ _ _ a hcyc).2 hmem
    rw [halias] at hnot
    have hlen : (OrdMap.keys env.types).length < env.types.length + 1 := by simp [OrdMap.keys]
    apply Search.not_transGen_of_visit_eq_false hin hlen hnot
    have hs : ∀ c d, env.findCyclicAliases.Refers c d → d ∈ env.aliasReferences c :=
      fun c d hcd => hcd.2
    exact .mono hs a a hcycle

lemma aliasAt_eq_some {arity : Nat} {body : IRType}
    (h : env.aliasAt name arity = some (params, body)) :
    get? env.types name = some (.alias params body) ∧
      OrdMap.contains env.cyclicAliases name = false ∧ List.length params = arity := by
  unfold aliasAt at h
  split at h
  · rename_i params' body' heq
    split at h
    · simp at h
    · rename_i hcond
      obtain ⟨hpar, hbo⟩ := Prod.mk.inj (Option.some.inj h)
      subst hpar hbo
      have hcond' : OrdMap.contains env.cyclicAliases name = false ∧
          params'.length = arity := by simpa using hcond
      exact ⟨heq, hcond'.1, hcond'.2⟩
  · simp at h

lemma expand_eq_some {args : List Ty} {expanded : Ty} (h : env.expand name args = some expanded) :
    ∃ params body, env.aliasAt name args.length = some (params, body) ∧
      expanded = toTy (boundVar (bindParams params args)) body := by
  unfold expand at h
  split at h
  · rename_i params body heq
    exact ⟨params, body, heq, (Option.some.inj h).symm⟩
  · simp at h

lemma refers_of_aliasAt {arity : Nat} {body : IRType}
    (h : env.aliasAt name arity = some (params, body)) {other : String}
    (ho : other ∈ referencesOf body) : env.Refers name other := by
  obtain ⟨htys, hcyc, -⟩ := aliasAt_eq_some h
  refine ⟨hcyc, ?_⟩
  rw [aliasReferences, htys]
  exact ho

end Env

end Morphir.Typing
