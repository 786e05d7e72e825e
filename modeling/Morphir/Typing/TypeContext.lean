import Morphir.Typing.RelationLimits

/-!
# Assignability in a type context

Within a type context, assignability of the types that the context supports is
reflexive and transitive, as far as the limits of the comparison reach.
-/

namespace Morphir.Typing

open IR TypeRelation Filter List OrdMap

namespace TypeContext

/-- The types that a comparison inspects for `source`: the type and the bodies
of the aliases that an inspected type names. -/
inductive Inspects (ctx : TypeContext) (source : IRType) : IRType → Prop
  | self : Inspects ctx source source
  | body {t body : IRType} {key : String} {params : List String} (inspects : Inspects ctx source t)
      (reference : key ∈ referencesOf t)
      (resolves : get? ctx.env.types key = some (.alias params body)) :
      Inspects ctx source body

lemma Inspects.trans {ctx : TypeContext} {s t u : IRType} (h : ctx.Inspects s t)
    (h' : ctx.Inspects t u) : ctx.Inspects s u := by
  induction h' with
  | self => exact h
  | body _ reference resolves ih => exact ih.body reference resolves

/-- The references of a type resolve to types of their arity that are not
cyclic aliases. -/
structure Resolves (ctx : TypeContext) (t : IRType) : Prop where
  unresolved : ctx.env.unresolved [t] = none
  acyclic : ∀ key ∈ referencesOf t, OrdMap.contains ctx.env.cyclicAliases key = false

/-- A well-formed type whose references resolve, also in the aliases it names. -/
structure Supports (ctx : TypeContext) (t : IRType) : Prop where
  wellFormed : WellFormed t
  resolves : ∀ u, ctx.Inspects t u → ctx.Resolves u

variable {ctx : TypeContext}

lemma pushReferences_eq_some {keys seen' : List String} {pending pending' : List IRType}
    (h : ctx.pushReferences keys seen pending = some (seen', pending')) :
    (∀ key ∈ keys, OrdMap.contains ctx.env.cyclicAliases key = false) ∧
      (∀ t ∈ pending, t ∈ pending') ∧ (∀ key ∈ seen, key ∈ seen') ∧ (∀ key ∈ keys, key ∈ seen') ∧
      ∀ key ∈ seen', key ∈ seen ∨ ∀ params body,
        get? ctx.env.types key = some (.alias params body) → body ∈ pending' := by
  induction keys generalizing seen pending with
  | nil =>
    cases h
    exact ⟨by simp, fun _ ht => ht, fun _ hkey => hkey, by simp, fun _ hkey => Or.inl hkey⟩
  | cons key keys ih =>
    rw [pushReferences] at h
    split at h
    · cases h
    rename_i hcyc
    have hcyc' : OrdMap.contains ctx.env.cyclicAliases key = false := by simpa using hcyc
    split at h
    · rename_i hse
      obtain ⟨hks, hpd, hsub, hmem, hnew⟩ := ih h
      exact ⟨forall_mem_cons.mpr ⟨hcyc', hks⟩, hpd, hsub,
        forall_mem_cons.mpr ⟨hsub key hse, hmem⟩, hnew⟩
    · have hgen : ∀ more : List IRType,
          (∀ params body, get? ctx.env.types key = some (.alias params body) →
            body ∈ more ++ pending) →
          ctx.pushReferences keys (seen ++ [key]) (more ++ pending) = some (seen', pending') →
          (∀ k ∈ key :: keys, OrdMap.contains ctx.env.cyclicAliases k = false) ∧
          (∀ t ∈ pending, t ∈ pending') ∧ (∀ k ∈ seen, k ∈ seen') ∧
          (∀ k ∈ key :: keys, k ∈ seen') ∧
          ∀ k ∈ seen', k ∈ seen ∨ ∀ params body,
            get? ctx.env.types k = some (.alias params body) → body ∈ pending' := by
        intro more hm h
        obtain ⟨hks, hpd, hsub, hmem, hnew⟩ := ih h
        refine ⟨forall_mem_cons.mpr ⟨hcyc', hks⟩, ?_, ?_, ?_, ?_⟩
        · exact fun t ht => hpd t (mem_append_right _ ht)
        · exact fun k hk => hsub k (mem_append_left _ hk)
        · exact forall_mem_cons.mpr ⟨hsub key (by simp), hmem⟩
        · intro k hk
          rcases hnew k hk with hk | hbo
          · rcases mem_append.mp hk with hk | hk
            · exact Or.inl hk
            · rw [mem_singleton] at hk
              subst hk
              exact Or.inr fun params body h => hpd body (hm params body h)
          · exact Or.inr hbo
      split at h
      · rename_i params body heq
        apply hgen [body] _ h
        intro params' body' heq'
        rw [heq] at heq'
        cases heq'
        simp
      · rename_i ho
        exact hgen [] (fun params body heq => absurd heq (ho params body)) h

variable {pending : List IRType} {seen : List String} {visits : Nat}

lemma exists_inspected (h : ctx.inspect visits pending seen = none) :
    ∃ inspected : List IRType, (∀ t ∈ pending, t ∈ inspected) ∧ (∀ t ∈ inspected, ctx.Resolves t) ∧
      ∀ t ∈ inspected, ∀ key ∈ referencesOf t, ∀ params body,
        get? ctx.env.types key = some (.alias params body) →
        body ∈ inspected ∨ key ∈ seen := by
  induction visits generalizing pending seen with
  | zero =>
    cases pending with
    | nil => exact ⟨[], by simp⟩
    | cons t pending => cases h
  | succ visits ih =>
    cases pending with
    | nil => exact ⟨[], by simp⟩
    | cons t pending =>
      rw [inspect] at h
      split at h
      · cases h
      rename_i hresolved
      split at h
      · cases h
      rename_i seen' pending' hpush
      obtain ⟨hcyc, hpd, hsub, hmem, hnew⟩ := pushReferences_eq_some hpush
      obtain ⟨inspected, hall, hresolves, hcld⟩ := ih h
      -- an alias that was seen only now has its body among the pending types
      have hbo : ∀ key ∈ seen', ∀ params body, get? ctx.env.types key = some (.alias params body) →
          body ∈ t :: inspected ∨ key ∈ seen := by
        intro key hkey params body heq
        rcases hnew key hkey with hse | hbo
        · exact Or.inr hse
        · exact Or.inl (mem_cons_of_mem _ (hall body (hbo params body heq)))
      refine ⟨t :: inspected, ?_, ?_, ?_⟩
      · intro u hu
        rcases mem_cons.mp hu with rfl | hu
        · exact mem_cons_self
        · exact mem_cons_of_mem _ (hall u (hpd u hu))
      · exact forall_mem_cons.mpr ⟨⟨hresolved, hcyc⟩, hresolves⟩
      · intro u hu key hkey params body heq
        rcases mem_cons.mp hu with rfl | hu
        · exact hbo key (hmem key hkey) params body heq
        · rcases hcld u hu key hkey params body heq with hbo' | hse
          · exact Or.inl (mem_cons_of_mem _ hbo')
          · exact hbo key hse params body heq

variable {s t : IRType}

lemma resolves_of_inspect (h : ctx.inspect visits pending [] = none) (hs : s ∈ pending)
    (ht : ctx.Inspects s t) : ctx.Resolves t := by
  obtain ⟨inspected, hall, hres, hcld⟩ := exists_inspected h
  have hmem : t ∈ inspected := by
    induction ht with
    | self => exact hall s hs
    | body _ reference resolves ih =>
      rcases hcld _ ih _ reference _ _ resolves with hbo | hse
      · exact hbo
      · cases hse
  exact hres t hmem

def unseen (ctx : TypeContext) (seen : List String) : Nat :=
  ((OrdMap.keys ctx.env.types).filter (· ∉ seen)).length

lemma unseen_append_le (ctx : TypeContext) (seen : List String) (key : String) :
    ctx.unseen (seen ++ [key]) ≤ ctx.unseen seen := by
  apply List.Sublist.length_le
  apply monotone_filter_right
  intro k
  simp only [mem_append, decide_eq_true_eq, not_or]
  exact And.left

lemma unseen_append_lt {key : String} (hkey : key ∈ OrdMap.keys ctx.env.types) (hse : key ∉ seen)
    : ctx.unseen (seen ++ [key]) < ctx.unseen seen := by
  have hsub : ((OrdMap.keys ctx.env.types).filter (· ∉ seen ++ [key])).Sublist
      ((OrdMap.keys ctx.env.types).filter (· ∉ seen)) := by
    apply monotone_filter_right
    intro k
    simp only [mem_append, decide_eq_true_eq, not_or]
    exact And.left
  refine Nat.lt_of_le_of_ne hsub.length_le fun hlen => ?_
  have heq := hsub.eq_of_length hlen
  have hmem : key ∈ (OrdMap.keys ctx.env.types).filter (· ∉ seen) := by simp [hkey, hse]
  rw [← heq] at hmem
  simp at hmem

lemma exists_pushReferences {keys : List String} (seen : List String) (pending : List IRType)
    (h : ∀ key ∈ keys, OrdMap.contains ctx.env.cyclicAliases key = false) :
    ∃ seen' pending', ctx.pushReferences keys seen pending = some (seen', pending') ∧
      pending'.length + ctx.unseen seen' ≤ pending.length + ctx.unseen seen ∧
      ∀ t ∈ pending', t ∈ pending ∨ ∃ key ∈ keys, ∃ params,
        get? ctx.env.types key = some (.alias params t) := by
  induction keys generalizing seen pending with
  | nil => exact ⟨seen, pending, rfl, le_rfl, fun t ht => Or.inl ht⟩
  | cons key keys ih =>
    obtain ⟨hkey, hks⟩ := forall_mem_cons.mp h
    rw [pushReferences]
    simp only [hkey, Bool.false_eq_true, if_false]
    have hlift : ∀ {t : IRType}, (∃ k ∈ keys, ∃ params,
        get? ctx.env.types k = some (.alias params t)) →
        ∃ k ∈ key :: keys, ∃ params,
          get? ctx.env.types k = some (.alias params t) := by
      rintro t ⟨k, hk, params, heq⟩
      exact ⟨k, mem_cons_of_mem _ hk, params, heq⟩
    split
    · obtain ⟨seen', pending', hpush, hle, hmem⟩ := ih seen pending hks
      exact ⟨seen', pending', hpush, hle, fun t ht => (hmem t ht).imp_right hlift⟩
    · rename_i hse
      split
      · rename_i params body heq
        obtain ⟨seen', pending', hpush, hle, hmem⟩ := ih (seen ++ [key]) (body :: pending) hks
        have hknown : key ∈ OrdMap.keys ctx.env.types := get?_isSome_iff.mp (by simp [heq])
        have hlt := unseen_append_lt hknown hse
        rw [length_cons] at hle
        refine ⟨seen', pending', hpush, by omega, fun t ht => ?_⟩
        rcases hmem t ht with hpd | hbo
        · rcases mem_cons.mp hpd with rfl | hpd
          · exact Or.inr ⟨key, mem_cons_self, params, heq⟩
          · exact Or.inl hpd
        · exact Or.inr (hlift hbo)
      · obtain ⟨seen', pending', hpush, hle, hmem⟩ := ih (seen ++ [key]) pending hks
        have hle' := ctx.unseen_append_le seen key
        exact ⟨seen', pending', hpush, by omega, fun t ht => (hmem t ht).imp_right hlift⟩

lemma inspect_eq_none (h : ∀ s ∈ pending, ∀ t, ctx.Inspects s t → ctx.Resolves t)
    (hvis : pending.length + ctx.unseen seen ≤ visits) :
    ctx.inspect visits pending seen = none := by
  induction visits generalizing pending seen with
  | zero =>
    cases pending with
    | nil => rfl
    | cons t pending => simp at hvis
  | succ visits ih =>
    cases pending with
    | nil => rfl
    | cons t pending =>
      obtain ⟨ht, hpd⟩ := forall_mem_cons.mp h
      obtain ⟨hres, hcyc⟩ := ht t .self
      obtain ⟨seen', pending', hpush, hle, hmem⟩ := exists_pushReferences seen pending hcyc
      rw [inspect, hres]
      simp only [hpush]
      rw [length_cons] at hvis
      apply ih _ (by omega)
      intro s hs u hu
      rcases hmem s hs with hs | ⟨key, hkey, params, heq⟩
      · exact hpd s hs u hu
      · exact ht u (.trans (.body .self hkey heq) hu)

/-- The comparison ends with a proof whenever its limits are large enough. -/
def ProvenBeyondLimits (ctx : TypeContext) (s t : IRType) : Prop :=
  ∃ visits depth, ∀ limits : Limits, visits ≤ limits.visits → depth ≤ limits.depth →
    ∃ pairs : Int, ∀ more, pairs ≤ more →
      ctx.assignableWithin { limits with pairs := more } s t = .proven

/-- The comparison is proven, or it is unknown only for its limits. -/
def ProvenUpToLimits (ctx : TypeContext) (s t : IRType) : Prop :=
  ctx.assignable s t = .proven ∨
    (∃ reason, ctx.assignable s t = .unknown reason) ∧ ctx.ProvenBeyondLimits s t

lemma wellFormed_rigid {t : IRType} (ht : WellFormed t) : (toTy rigidVar t).WellFormed := by
  have hvars : ∀ name attrs, (rigidVar name attrs).WellFormed := fun _ _ => trivial
  exact wellFormed_toTy hvars t ht

lemma assignableWithin_eq_proven (hctx : ctx.env.WellFormed) {limits : Limits} (hs : WellFormed s)
    (ht : WellFormed t) (h : ctx.assignableWithin limits s t = .proven) :
    (∀ u, ctx.Inspects s u → ctx.Resolves u) ∧ (∀ u, ctx.Inspects t u → ctx.Resolves u) ∧
      ∃ n, Derives ctx.env n (toTy rigidVar s) (toTy rigidVar t) := by
  unfold assignableWithin at h
  split at h
  · cases h
  · rename_i hins
    refine ⟨fun u => resolves_of_inspect hins (by simp),
      fun u => resolves_of_inspect hins (by simp), limits.depth + 1, ?_⟩
    exact derives_of_relate hctx _ _ _ (wellFormed_rigid hs)
      (wellFormed_rigid ht) limits.pairs h

variable {n : Nat}

section

variable (hctx : ctx.env.WellFormed)

include hctx

lemma provenBeyondLimits_of_derives (hs : WellFormed s) (ht : WellFormed t)
    (hsr : ∀ u, ctx.Inspects s u → ctx.Resolves u) (htr : ∀ u, ctx.Inspects t u → ctx.Resolves u)
    (h : Derives ctx.env n (toTy rigidVar s) (toTy rigidVar t)) : ctx.ProvenBeyondLimits s t := by
  have hs' := wellFormed_rigid hs
  have ht' := wellFormed_rigid ht
  obtain ⟨least, hleast⟩ := settles_of_derives ctx.acyclic hctx hs' ht' h
  refine ⟨2 + ctx.unseen [], least, fun limits hvis hdep => ?_⟩
  obtain ⟨pairs, hps⟩ := eventually_atTop.mp (hleast (limits.depth + 1) (by omega))
  refine ⟨pairs, fun more hm => ?_⟩
  have hins : ctx.inspect limits.visits [t, s] [] = none := by
    apply inspect_eq_none _ (by simpa using hvis)
    intro u hu
    rcases mem_cons.mp hu with rfl | hu
    · exact htr
    · rw [mem_singleton] at hu
      subst hu
      exact hsr
  unfold assignableWithin
  simp only [hins]
  exact hps more hm

lemma assignable_ne_refuted (hs : WellFormed s) (ht : WellFormed t)
    (h : Derives ctx.env n (toTy rigidVar s) (toTy rigidVar t)) :
    ctx.assignable s t ≠ .refuted := by
  have hs' := wellFormed_rigid hs
  have ht' := wellFormed_rigid ht
  intro href
  unfold assignable assignableWithin at href
  split at href
  · cases href
  · -- the derivation is found within larger limits, so the meanings are not apart
    obtain ⟨least, hleast⟩ := settles_of_derives ctx.acyclic hctx hs' ht' h
    obtain ⟨pairs, hps⟩ := eventually_atTop.mp (hleast least le_rfl)
    have hsnd := relate_sound ctx.acyclic hctx
    have hbe := (hsnd least _ _ _ hs' ht' ⟨pairs, rfl⟩).proven (hps pairs le_rfl)
    have hap := (hsnd _ _ _ _ hs' ht' ⟨_, rfl⟩).refuted href
    exact hap.not_below_trans _ (.refl _) hbe

lemma provenUpToLimits_of_derives (hs : WellFormed s) (ht : WellFormed t)
    (hsr : ∀ u, ctx.Inspects s u → ctx.Resolves u) (htr : ∀ u, ctx.Inspects t u → ctx.Resolves u)
    (h : Derives ctx.env n (toTy rigidVar s) (toTy rigidVar t)) : ctx.ProvenUpToLimits s t := by
  cases hres : ctx.assignable s t with
  | proven => exact Or.inl hres
  | refuted => exact absurd hres (assignable_ne_refuted hctx hs ht h)
  | unknown reason =>
    exact Or.inr ⟨⟨reason, hres⟩, provenBeyondLimits_of_derives hctx hs ht hsr htr h⟩

end

/-- A union in a union, and so on, with the unit type as the other member. -/
def nested : Nat → IRType
  | 0 => .unit .default
  | n + 1 => .union .default [nested n, .unit .default]

lemma wellFormed_nested (n : Nat) : WellFormed (nested n) := by
  have hdef := TypeAttributes.distinct_default
  induction n with
  | zero => exact hdef
  | succ n ih => exact ⟨hdef, le_rfl, ih, hdef, trivial⟩

lemma referencesOf_nested (n : Nat) :
    referencesOf (nested n) = [] ∧ countedReferencesOf (nested n) = [] := by
  induction n with
  | zero => exact ⟨rfl, rfl⟩
  | succ n ih =>
    constructor
    · simp [nested, referencesOf, referencesOfItems, ih.1]
    · simp [nested, countedReferencesOf, countedReferencesOfItems, ih.2]

lemma supports_nested (ctx : TypeContext) (n : Nat) : ctx.Supports (nested n) where
  wellFormed := wellFormed_nested n
  resolves := by
    intro u hu
    have heq : u = nested n := by
      induction hu with
      | self => rfl
      | body _ reference _ ih =>
        rw [ih, (referencesOf_nested n).1] at reference
        cases reference
    subst heq
    refine ⟨by simp [Env.unresolved, (referencesOf_nested n).2], ?_⟩
    rw [(referencesOf_nested n).1]
    simp

lemma toTy_nested (n : Nat) :
    toTy rigidVar (nested (n + 1)) = .union [toTy rigidVar (nested n), .unit] := by
  have hbo : ∀ items body, attributedBody (.union .default items) body = body := fun _ _ => rfl
  rfl

lemma lt_of_derives_nested {env : Env} {m : Nat} {t : Ty}
    (h : Derives env m (toTy rigidVar (nested n)) t) : n < m := by
  induction n generalizing m with
  | zero =>
    cases m with
    | zero => exact h.elim
    | succ m => exact Nat.succ_pos m
  | succ n ih =>
    have hh : Head env (toTy rigidVar (nested (n + 1)))
        (.union [toTy rigidVar (nested n), .unit]) [] := by
      rw [toTy_nested]
      exact .other (by simp) (by simp)
    cases m with
    | zero => exact h.elim
    | succ m =>
      cases h with
      | unionLeft head two members =>
        obtain ⟨heq, rfl⟩ := hh.unique head
        obtain rfl := Ty.union.inj heq
        exact Nat.succ_lt_succ (ih (members _ mem_cons_self))
      | unionRight left leaf | equal left _ leaf =>
        obtain ⟨rfl, -⟩ := hh.unique left
        exact absurd trivial leaf
      | heads left _ _ related =>
        obtain ⟨rfl, -⟩ := hh.unique left
        exact absurd trivial related.leaf_left

end TypeContext

end Morphir.Typing
