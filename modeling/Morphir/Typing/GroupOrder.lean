import Morphir.Library.TarjanRuns
import Morphir.Typing.Groups

/-!
# The order of binding groups

The groups are the strongly connected components of the references to undeclared
definitions.  When a group is inferred, every name of the file that it refers to outside
itself has a scheme.
-/

namespace Morphir.Typing

open IR Relation List OrdMap

def Names (decls : List Decl) (key : String) (j : Nat) : Prop :=
  (∃ d, decls[j]? = some d ∧ d.key = key) ∧ ∀ k d, decls[k]? = some d → d.key = key → k ≤ j

def Refers (decls : List Decl) (i j : Nat) : Prop :=
  ∃ d body name, decls[i]? = some d ∧ definitionBody d.definition = some body ∧
    Mentions name body ∧ Names decls name.toCanonical j ∧
    ∃ e, decls[j]? = some e ∧ e.declared = false

variable {d : Decl}

lemma declared_of_mem_collectDeclarations {file : Distribution} (h : d ∈ collectDeclarations file)
    : d.declared = isDeclared d.definition := by
  cases file with
  | specs => cases h
  | library | application =>
    obtain ⟨m, -, h⟩ := mem_flatMap.mp h
    obtain ⟨v, -, rfl⟩ := mem_map.mp h
    rfl

lemma output_of_isDeclared {definition : ValueDefinition} (h : isDeclared definition = true) :
    ∃ inputs output body, definitionParts definition = (inputs, some output, body) := by
  unfold isDeclared at h
  split at h
  next inputs output body heq => exact ⟨inputs, output, body, heq⟩
  next => cases h

namespace Driver

variable {S E : Type}

lemma indexOf_append (decls : List Decl) (d : Decl) :
    indexOf (decls ++ [d]) = OrdMap.insert (indexOf decls) d.key decls.length := by
  rw [indexOf, zipIdx_append, foldl_append, zipIdx_singleton, foldl_cons, Nat.zero_add]
  rfl

lemma get?_indexOf (decls : List Decl) (key : String) (j : Nat) :
    get? (indexOf decls) key = some j ↔ Names decls key j := by
  induction decls using List.reverseRecOn with
  | nil =>
    constructor
    · intro h
      cases h
    · rintro ⟨⟨d, hd, -⟩, -⟩
      cases hd
  | append_singleton decls d ih =>
    rw [indexOf_append, get?_insert]
    have hl : (decls ++ [d])[decls.length]? = some d := List.getElem?_concat_length
    have hfr : ∀ k e, k ≠ decls.length → (decls ++ [d])[k]? = some e →
        decls[k]? = some e := by
      intro k e hk he
      have hlt := (List.getElem?_eq_some_iff.mp he).1
      rw [length_append, length_singleton] at hlt
      rw [List.getElem?_append_left (by omega)] at he
      exact he
    have hgrow : ∀ k e, decls[k]? = some e → k < decls.length ∧ (decls ++ [d])[k]? = some e := by
      intro k e he
      have hlt := (List.getElem?_eq_some_iff.mp he).1
      rw [List.getElem?_append_left hlt]
      exact ⟨hlt, he⟩
    split
    next heq =>
      constructor
      · intro h
        cases h
        refine ⟨⟨d, hl, heq⟩, ?_⟩
        intro k e he _
        have hlt := (List.getElem?_eq_some_iff.mp he).1
        rw [length_append, length_singleton] at hlt
        omega
      · rintro ⟨⟨e, he, -⟩, hmax⟩
        have hle := hmax _ d hl heq
        have hlt := (List.getElem?_eq_some_iff.mp he).1
        rw [length_append, length_singleton] at hlt
        rw [Option.some.injEq]
        omega
    next hne =>
      rw [ih]
      constructor
      · rintro ⟨⟨e, he, hkey⟩, hmax⟩
        refine ⟨⟨e, (hgrow j e he).2, hkey⟩, ?_⟩
        intro k f hf hkey'
        apply hmax k f _ hkey'
        apply hfr k f _ hf
        rintro rfl
        rw [hl] at hf
        cases hf
        exact hne hkey'
      · rintro ⟨⟨e, he, hkey⟩, hmax⟩
        have hj : j ≠ decls.length := by
          rintro rfl
          rw [hl] at he
          cases he
          exact hne hkey
        exact ⟨⟨e, hfr j e hj he, hkey⟩, fun k f hf => hmax k f (hgrow k f hf).2⟩

variable {driver : Driver S}

section

variable (hix : driver.index = indexOf driver.decls)

include hix

lemma undeclared_eq_some {key : String} {j : Nat} :
    driver.undeclared key = some j ↔
      Names driver.decls key j ∧ ∃ e, driver.decls[j]? = some e ∧ e.declared = false := by
  rw [← get?_indexOf, ← hix, undeclared]
  cases hget : get? driver.index key with
  | none => simp
  | some k =>
    dsimp only
    cases hk : driver.decls[k]? with
    | none =>
      constructor
      · intro h
        cases h
      · rintro ⟨heq, e, he, -⟩
        rw [← Option.some.inj heq, hk] at he
        cases he
    | some d =>
      dsimp only
      constructor
      · intro h
        split at h
        next => cases h
        next hdc =>
          cases h
          exact ⟨rfl, d, hk, Bool.eq_false_iff.mpr hdc⟩
      · rintro ⟨heq, e, he, hdc⟩
        cases heq
        rw [hk] at he
        cases he
        rw [if_neg (Bool.eq_false_iff.mp hdc)]

omit hix in
lemma mem_edges_fold (driver : Driver S) (refs : List String) (out : List Nat) (j : Nat) :
    j ∈ refs.foldl driver.addEdge out ↔
      j ∈ out ∨ ∃ key ∈ refs, driver.undeclared key = some j := by
  induction refs generalizing out with
  | nil => simp
  | cons key refs ih =>
    rw [foldl_cons, ih, exists_mem_cons_iff, ← or_assoc, addEdge]
    apply or_congr_left
    cases driver.undeclared key with
    | none => simp
    | some k =>
      dsimp only
      rw [Option.some.injEq]
      split
      next hmem =>
        constructor
        · exact Or.inl
        · rintro (h | rfl)
          · exact h
          · exact hmem
      next => rw [mem_append, mem_singleton, eq_comm]

lemma mem_edgesAt (i j : Nat) : j ∈ driver.edgesAt i ↔ Refers driver.decls i j := by
  rw [edgesAt]
  cases hd : driver.decls[i]? with
  | none =>
    constructor
    · intro h
      cases h
    · rintro ⟨d, -, -, hd', -⟩
      rw [hd] at hd'
      cases hd'
  | some d =>
    dsimp only
    rw [edges, mem_edges_fold, or_iff_right not_mem_nil]
    constructor
    · rintro ⟨key, hkey, hund⟩
      obtain ⟨hns, hf⟩ := (undeclared_eq_some hix).mp hund
      cases hbo : definitionBody d.definition with
      | none =>
        rw [hbo] at hkey
        cases hkey
      | some body =>
        rw [hbo] at hkey
        rcases (mem_referencesIn body [] key).mp hkey with hkey | ⟨name, hname, rfl⟩
        · cases hkey
        · exact ⟨d, body, name, hd, hbo, hname, hns, hf⟩
    · rintro ⟨d', body, name, hd', hbo, hname, hns, hf⟩
      rw [hd] at hd'
      obtain rfl := Option.some.inj hd'
      refine ⟨name.toCanonical, ?_, (undeclared_eq_some hix).mpr ⟨hns, hf⟩⟩
      rw [hbo]
      exact (mem_referencesIn body [] _).mpr (Or.inr ⟨name, hname, rfl⟩)

lemma reach_iff (i j : Nat) :
    Tarjan.Reach driver.edgesAt i j ↔ ReflTransGen (Refers driver.decls) i j := by
  have hrel : (fun x y => y ∈ driver.edgesAt x) = Refers driver.decls := by
    funext x y
    exact propext (mem_edgesAt hix x y)
  rw [Tarjan.Reach, hrel]

end

def Has (driver : Driver S) (key : String) : Prop := (get? driver.env.values key).isSome = true

/-- The driver goes on with the same declarations, and its environment only grows. -/
structure Extends (driver driver' : Driver S) : Prop where
  decls : driver'.decls = driver.decls
  index : driver'.index = driver.index
  has : ∀ key, driver.Has key → driver'.Has key

namespace Extends

variable {driver driver' driver'' : Driver S}

lemma refl (driver : Driver S) : Extends driver driver := ⟨rfl, rfl, fun _ h => h⟩

lemma trans (h : Extends driver driver') (h' : Extends driver' driver'') :
    Extends driver driver'' :=
  ⟨h'.decls.trans h.decls, h'.index.trans h.index, fun key hkey => h'.has key (h.has key hkey)⟩

end Extends

lemma has_setValue (driver : Driver S) (key : String) (poly : Poly) :
    (driver.setValue key poly).Has key := by
  change (get? (OrdMap.insert driver.env.values key poly) key).isSome = true
  rw [get?_insert_self]
  exact Option.isSome_some

lemma extends_setValue (driver : Driver S) (key : String) (poly : Poly) :
    Extends driver (driver.setValue key poly) where
  decls := rfl
  index := rfl
  has other h := by
    change (get? (OrdMap.insert driver.env.values key poly) other).isSome = true
    rw [get?_insert]
    split
    next => exact Option.isSome_some
    next => exact h

section Folds

variable {α : Type} {step : Driver S → α → Driver S}

lemma extends_foldl (hs : ∀ driver a, Extends driver (step driver a)) (driver : Driver S)
    (items : List α) : Extends driver (items.foldl step driver) := by
  induction items generalizing driver with
  | nil => exact .refl driver
  | cons a items ih => exact (hs driver a).trans (ih (step driver a))

lemma has_foldl (hs : ∀ driver a, Extends driver (step driver a)) {items : List α} {a : α}
    (ha : a ∈ items) {key : String} (hkey : ∀ driver, (step driver a).Has key) (driver : Driver S) :
    (items.foldl step driver).Has key := by
  obtain ⟨front, back, rfl⟩ := append_of_mem ha
  rw [foldl_append]
  exact (extends_foldl hs _ back).has key (hkey _)

end Folds

lemma extends_declareSignature (driver : Driver S) (d : Decl) :
    Extends driver (driver.declareSignature d) := by
  unfold declareSignature
  split
  next =>
    split
    next => exact extends_setValue driver _ _
    next => exact .refl driver
  next => exact .refl driver

lemma has_declareSignature (hdc : d.declared = true) (h : d.declared = isDeclared d.definition)
    (driver : Driver S) : (driver.declareSignature d).Has d.key := by
  obtain ⟨inputs, output, body, heq⟩ := output_of_isDeclared (h.symm.trans hdc)
  rw [declareSignature, if_pos hdc, heq]
  exact has_setValue driver _ _

def Provides (driver : Driver S) (members : List Decl) : Prop :=
  ∀ d ∈ members, d.declared = false → driver.Has d.key

lemma fail_spec (driver : Driver S) (group : List Nat) :
    Extends driver (driver.fail group) ∧ (driver.fail group).Provides (driver.members group) := by
  have hs : ∀ (driver : Driver S) (d : Decl),
      Extends driver (if d.declared then driver else driver.setValue d.key unconstrained) := by
    intro driver d
    split
    next => exact .refl driver
    next => exact extends_setValue driver _ _
  refine ⟨extends_foldl hs driver _, ?_⟩
  intro d hd hdc
  apply has_foldl hs hd
  intro driver
  rw [if_neg (Bool.eq_false_iff.mp hdc)]
  exact has_setValue driver _ _

lemma extends_report (driver : Driver S) (problem : InferenceProblem) :
    Extends driver (driver.report problem) := ⟨rfl, rfl, fun _ h => h⟩

lemma fail_report_spec (driver : Driver S) (problem : InferenceProblem) (group : List Nat) :
    Extends driver ((driver.report problem).fail group) ∧
      ((driver.report problem).fail group).Provides (driver.members group) := by
  obtain ⟨hexs, hpro⟩ := fail_spec (driver.report problem) group
  exact ⟨(extends_report driver problem).trans hexs, hpro⟩

variable (bodies : Bodies S E)

lemma map_signatures (members : List Decl) (s : S) :
    (signatures bodies members s).1.map Prod.fst = members := by
  induction members generalizing s with
  | nil => rfl
  | cons d members ih => rw [signatures, map_cons, ih]

lemma get?_currentOf {signed : List (Decl × List Ty × Ty)} (hd : d ∈ signed.map Prod.fst)
    (hdec : d.declared = false) : ∃ t, get? (currentOf signed) d.key = some t := by
  rw [← Option.isSome_iff_exists]
  unfold currentOf
  induction signed using List.reverseRecOn with
  | nil => cases hd
  | append_singleton signed e ih =>
    rw [foldl_append, foldl_cons, foldl_nil]
    rw [map_append, mem_append] at hd
    split
    next hdc =>
      apply ih
      rcases hd with hd | hd
      · exact hd
      · rw [mem_singleton.mp hd, hdc] at hdec
        exact absurd hdec.symm Bool.false_ne_true
    next =>
      rw [get?_insert]
      split
      next => exact Option.isSome_some
      next hne =>
        apply ih
        rcases hd with hd | hd
        · exact hd
        · rw [mem_singleton.mp hd] at hne
          exact absurd rfl hne

def generalizeOne (infer : Infer S) (rigids : List String) (driver : Driver S) (d : Decl) :
    Driver S :=
  if d.declared then driver
  else
    match get? infer.current d.key with
    | some t => driver.setValue d.key (bodies.generalizeWith infer.state t rigids)
    | none => driver

lemma generalize_spec (infer : Infer S) (rigids : List String) (driver : Driver S)
    (members : List Decl)
    (h : ∀ d ∈ members, d.declared = false → ∃ t, get? infer.current d.key = some t) :
    Extends driver (generalize bodies infer rigids driver members) ∧
      (generalize bodies infer rigids driver members).Provides members := by
  have hs (driver : Driver S) (d : Decl) :
      Extends driver (generalizeOne bodies infer rigids driver d) := by
    unfold generalizeOne
    split
    next => exact .refl driver
    next =>
      split
      next => exact extends_setValue driver _ _
      next => exact .refl driver
  refine ⟨extends_foldl hs driver members, ?_⟩
  intro d hd hdc
  obtain ⟨t, ht⟩ := h d hd hdc
  apply has_foldl hs hd
  intro driver
  rw [generalizeOne, if_neg (Bool.eq_false_iff.mp hdc), ht]
  exact has_setValue driver _ _

section

variable (driver : Driver S)

lemma solve_spec (group : List Nat) :
    Extends driver (solve bodies driver group) ∧
      (solve bodies driver group).Provides (driver.members group) := by
  unfold solve
  dsimp only
  split
  next => exact fail_report_spec driver _ group
  next =>
    have hcur : ∀ d ∈ driver.members group, d.declared = false → ∃ t, get? (currentOf
          (signatures bodies (driver.members group) (bodies.new driver.env)).1) d.key = some t := by
      intro d hd
      apply get?_currentOf
      rw [map_signatures]
      exact hd
    split
    next => exact fail_report_spec driver _ group
    next _ s _ =>
      obtain ⟨hexs, hpro⟩ := generalize_spec bodies ⟨_, s⟩ _ driver _ hcur
      exact ⟨⟨hexs.decls, hexs.index, hexs.has⟩, hpro⟩

lemma extends_solveAll (groups : List (List Nat)) :
    Extends driver (solveAll bodies driver groups) :=
  extends_foldl (fun driver group => (solve_spec bodies driver group).1) driver groups

lemma solveAll_provides {groups : List (List Nat)} {i : Nat} (hi : i ∈ groups.flatten)
    (hd : driver.decls[i]? = some d) (hdc : d.declared = false) :
    (solveAll bodies driver groups).Has d.key := by
  obtain ⟨group, hgroup, hmem⟩ := mem_flatten.mp hi
  obtain ⟨front, back, rfl⟩ := append_of_mem hgroup
  rw [solveAll, foldl_append]
  apply (extends_solveAll bodies _ back).has
  apply (solve_spec bodies _ group).2 d _ hdc
  apply mem_filterMap.mpr
  refine ⟨i, hmem, ?_⟩
  rw [(extends_foldl (fun driver group => (solve_spec bodies driver group).1) driver front).decls]
  exact hd

lemma extends_declareSignatures : Extends driver driver.declareSignatures :=
  extends_foldl extends_declareSignature driver _

end

lemma declareSignatures_provides (hd : d ∈ driver.decls) (hdc : d.declared = true)
    (h : d.declared = isDeclared d.definition) : driver.declareSignatures.Has d.key :=
  has_foldl extends_declareSignature hd (has_declareSignature hdc h) driver

/-- The groups of a file partition its declarations into the strongly connected components
of the references to undeclared ones, each after those that it refers to; and when a group
is inferred, each name of the file that it refers to outside itself has a scheme. -/
theorem groups_components (env : Env) (file : Distribution) (mode : Mode) :
    let decls := collectDeclarations file
    let driver : Driver S := (new env file mode).declareSignatures
    ∃ gs, driver.groups = some gs ∧ gs.flatten.Perm (List.range decls.length) ∧
      (∀ g ∈ gs, g ≠ [] ∧ ∀ i ∈ g, ∀ j,
        j ∈ g ↔ ReflTransGen (Refers decls) i j ∧ ReflTransGen (Refers decls) j i) ∧
      ∀ front g back, gs = front ++ g :: back →
        (∀ i ∈ g, ∀ j, Refers decls i j → j ∈ g ∨ j ∈ front.flatten) ∧
        ∀ bodies : Bodies S E, ∀ i ∈ g, ∀ d body name j, decls[i]? = some d →
          definitionBody d.definition = some body → Mentions name body →
          Names decls name.toCanonical j → j ∉ g →
          (solveAll bodies driver front).Has name.toCanonical := by
  intro decls driver
  have hexs : Extends (new env file mode) driver := extends_declareSignatures _
  have hdecls : driver.decls = decls := hexs.decls
  have hix : driver.index = indexOf driver.decls := by
    rw [hdecls]
    exact hexs.index
  have hcld : ∀ x ∈ List.range driver.decls.length, ∀ y ∈ driver.edgesAt x,
      y ∈ List.range driver.decls.length := by
    intro x _ y hy
    obtain ⟨-, -, -, -, -, -, -, e, he, -⟩ := (mem_edgesAt hix x y).mp hy
    exact mem_range.mpr (List.getElem?_eq_some_iff.mp he).1
  obtain ⟨gs, hgs, hemi, hpm⟩ := Tarjan.components_spec hcld nodup_range
  rw [hdecls] at hpm
  have hord : ∀ front g back, gs = front ++ g :: back →
      ∀ i ∈ g, ∀ j, Refers decls i j → j ∈ g ∨ j ∈ front.flatten := by
    intro front g back hspl i hi j hij
    rw [← hdecls, ← mem_edgesAt hix] at hij
    exact hemi.ordered front g back hspl i hi j hij
  refine ⟨gs, hgs, hpm, ?_, ?_⟩
  · intro g hg
    refine ⟨hemi.nonempty g hg, ?_⟩
    intro i hi j
    rw [hemi.component g hg i hi j, reach_iff hix, reach_iff hix, hdecls]
  · intro front g back hspl
    refine ⟨hord front g back hspl, ?_⟩
    intro bodies i hi d body name j hd hbo hmen hns hout
    obtain ⟨e, he, hkey⟩ := hns.1
    rw [← hkey]
    cases hdc : e.declared with
    | true =>
      have hmem : e ∈ decls := mem_of_getElem? he
      apply (extends_solveAll bodies driver front).has
      exact declareSignatures_provides hmem hdc
        (declared_of_mem_collectDeclarations hmem)
    | false =>
      have href : Refers decls i j := ⟨d, body, name, hd, hbo, hmen, hns, e, he, hdc⟩
      have hfr := (hord front g back hspl i hi j href).resolve_left hout
      apply solveAll_provides bodies driver hfr _ hdc
      rw [hdecls]
      exact he

end Driver

end Morphir.Typing
