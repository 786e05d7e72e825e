import Morphir.Typing.ShapeRelations

/-!
# The scope of one declaration

All types of one declaration are compared under one bijection.  The scope
keeps the bijections that fit every comparison answered so far; a comparison
that fails leaves it as it was.
-/

namespace Morphir.Typing

open IR List OrdMap Option Alike

structure TypeScope where
  candidates : List Renaming
  deriving DecidableEq

def fixName (r : Renaming) (name : String) : Renaming :=
  { r with ab := OrdMap.insert r.ab name name, ba := OrdMap.insert r.ba name name }

namespace TypeScope

/-- The scope of a declaration, its signature variables mapped to themselves. -/
def ofDefinition (definition : ValueDefinition) : TypeScope :=
  ⟨[(rigidNames definition).foldl fixName ⟨[], [], true⟩]⟩

/-- Whether two types of the declaration are equivalent in the scope, and the
scope after the call. -/
def equivalent (scope : TypeScope) (a b : IRType) : Bool × TypeScope :=
  let candidates := (shapeCandidates 129 [(a, b)] scope.candidates 4096).1
  if candidates.isEmpty then (false, scope) else (true, ⟨candidates⟩)

/-- The answers to a sequence of calls, and the scope after the last one. -/
def equivalentAll (scope : TypeScope) : List (IRType × IRType) → List Bool × TypeScope
  | [] => ([], scope)
  | (a, b) :: calls =>
    let (answer, scope) := scope.equivalent a b
    let (answers, scope) := scope.equivalentAll calls
    (answer :: answers, scope)

end TypeScope

namespace Renaming

def Paired (r : Renaming) (x y : String) : Prop := get? r.ab x = some y ∧ get? r.ba y = some x

def Inverse (r : Renaming) : Prop := OrdMap.MutuallyInverse r.ab r.ba

structure Le (r r' : Renaming) : Prop where
  ab : OrdMap.Extends r.ab r'.ab
  ba : OrdMap.Extends r.ba r'.ba
  classes : r'.classes = r.classes

lemma Le.refl (r : Renaming) : Le r r := ⟨OrdMap.Extends.refl _, .refl _, rfl⟩

lemma Le.trans {s t : Renaming} (h : Le r s) (h' : Le s t) : Le r t :=
  ⟨h.ab.trans h'.ab, h.ba.trans h'.ba, h'.classes.trans h.classes⟩

variable {r r' : Renaming}

lemma Le.paired (h : Le r r') {x y : String} (hxy : r.Paired x y) :
    r'.Paired x y := ⟨h.ab x y hxy.1, h.ba y x hxy.2⟩

/-- The pairing `paired` holds for every pair of the renaming. -/
def Within (r : Renaming) (paired : String → String → Prop) : Prop :=
  ∀ x y, r.Paired x y → paired x y

lemma Le.within (h : Le r r') {paired : String → String → Prop} (hr : r'.Within paired) :
    r.Within paired := fun x y hxy => hr x y (h.paired hxy)

/-- What a step from `r` to `r'` may do: add pairs, keep the two maps inverse. -/
structure Step (r r' : Renaming) : Prop where
  le : Le r r'
  inverse : r.Inverse → r'.Inverse

lemma Step.refl (r : Renaming) : Step r r := ⟨Le.refl r, id⟩

lemma Step.trans {s t : Renaming} (h : Step r s) (h' : Step s t) : Step r t :=
  ⟨h.le.trans h'.le, fun hr => h'.inverse (h.inverse hr)⟩

/-- What the comparison of a list of pairs establishes about a surviving
renaming: it comes from the initial one by a step, and every pairing that
contains it witnesses every pair. -/
structure Relates (pairs : List (IRType × IRType)) (r r' : Renaming) : Prop where
  step : Step r r'
  witnesses : ∀ e ∈ pairs, ∀ paired, r'.Within paired → Alike paired r.classes e.1 e.2

lemma Relates.nil (r : Renaming) : Relates [] r r := ⟨Step.refl r, by simp⟩

lemma Relates.cons {a b : IRType} {pairs : List (IRType × IRType)} {s t : Renaming}
    (h : Relates [(a, b)] r s) (h' : Relates pairs s t) : Relates ((a, b) :: pairs) r t := by
  refine ⟨h.step.trans h'.step, ?_⟩
  intro e he paired hpai
  rcases mem_cons.mp he with rfl | he
  · exact h.witnesses _ mem_cons_self paired (h'.step.le.within hpai)
  · rw [← h.step.le.classes]
    exact h'.witnesses e he paired hpai

lemma Relates.single {a b : IRType} (hs : Step r r')
    (h : ∀ paired, r'.Within paired → Alike paired r.classes a b) : Relates [(a, b)] r r' := by
  refine ⟨hs, ?_⟩
  intro e he
  rw [mem_singleton.mp he]
  exact h

def Sound (compare : Comparison) : Prop :=
  ∀ a b r budget, ∀ r' ∈ (compare a b r budget).1, Relates [(a, b)] r r'

end Renaming

open Renaming

lemma sameVariable_spec {x y : Name} {c d : TypeAttributes} {r r' : Renaming}
    (h : sameVariable x c y d r = some r') :
    Step r r' ∧ r'.Paired x.toCanonical y.toCanonical ∧
      (r.classes = true → classesOf x.toCanonical c = classesOf y.toCanonical d) := by
  unfold sameVariable at h
  simp only at h
  split at h
  · simp at h
  rename_i hcla
  have hsm : r.classes = true → classesOf x.toCanonical c = classesOf y.toCanonical d := by
    intro hr
    simpa [hr] using hcla
  split at h
  · rename_i hx hy
    cases h
    refine ⟨⟨⟨OrdMap.extends_insert _ hx, OrdMap.extends_insert _ hy, rfl⟩, ?_⟩, ?_, hsm⟩
    · intro hr
      exact .insert hr hx hy
    · exact ⟨get?_insert_self _ _ _, get?_insert_self _ _ _⟩
  · rename_i y' x' hx hy
    split at h
    · rename_i heq
      obtain ⟨rfl, rfl⟩ := heq
      cases h
      exact ⟨Step.refl r, ⟨hx, hy⟩, hsm⟩
    · simp at h
  · simp at h

section Search

variable {compare : Comparison} (hcompare : Sound compare)

include hcompare

lemma mem_advance (a b : IRType) (states next : List Renaming) (budget : Int)
    (result : List Renaming) (h : (advance compare a b states next budget).1 = some result) :
    ∀ r' ∈ result, r' ∈ next ∨ ∃ r ∈ states, Relates [(a, b)] r r' := by
  induction states generalizing next budget with
  | nil =>
    simp only [advance, some.injEq] at h
    subst h
    exact fun r' hr' => Or.inl hr'
  | cons state states ih =>
    simp only [advance] at h
    split at h
    · simp at h
    split at h
    · simp at h
    intro r' hr'
    rcases ih _ _ h r' hr' with hnx | ⟨r, hr, hrel⟩
    · rcases mem_append.mp hnx with hold | hnew
      · exact Or.inl hold
      · exact Or.inr ⟨state, mem_cons_self, hcompare a b state _ r' hnew⟩
    · exact Or.inr ⟨r, mem_cons_of_mem _ hr, hrel⟩

lemma mem_advanceAll (pairs : List (IRType × IRType)) (states : List Renaming) (budget : Int) :
    ∀ r' ∈ (advanceAll compare pairs states budget).1, ∃ r ∈ states, Relates pairs r r' := by
  induction pairs generalizing states budget with
  | nil => exact fun r' hr' => ⟨r', hr', .nil r'⟩
  | cons e pairs ih =>
    obtain ⟨a, b⟩ := e
    intro r' hr'
    simp only [advanceAll] at hr'
    split at hr'
    · simp at hr'
    rename_i next budget' hadvance
    split at hr'
    · simp at hr'
    obtain ⟨r, hr, hrest⟩ := ih next budget' r' hr'
    have hnx := mem_advance hcompare a b states [] budget next (by rw [hadvance]) r hr
    obtain ⟨s, hs, hfirst⟩ := hnx.resolve_left not_mem_nil
    exact ⟨s, hs, hfirst.cons hrest⟩

lemma mem_coverMember (x : IRType) (reverse : Bool) (state : Renaming) (ys : List IRType)
    (next : List Renaming) (budget : Int) (result : List Renaming)
    (h : (coverMember compare x reverse state ys next budget).1 = some result) :
    ∀ r' ∈ result, r' ∈ next ∨
      ∃ y ∈ ys, Relates [if reverse then (y, x) else (x, y)] state r' := by
  induction ys generalizing next budget with
  | nil =>
    simp only [coverMember, some.injEq] at h
    subst h
    exact fun r' hr' => Or.inl hr'
  | cons y ys ih =>
    simp only [coverMember] at h
    generalize hpr : (if reverse = true then (y, x) else (x, y)) = pair at h
    split at h
    · simp at h
    intro r' hr'
    rcases ih _ _ h r' hr' with hnx | ⟨z, hz, hrel⟩
    · rcases mem_append.mp hnx with hold | hnew
      · exact Or.inl hold
      · refine Or.inr ⟨y, mem_cons_self, ?_⟩
        rw [hpr]
        exact hcompare pair.1 pair.2 state budget r' hnew
    · exact Or.inr ⟨z, mem_cons_of_mem _ hz, hrel⟩

lemma mem_coverStates (x : IRType) (ys : List IRType) (reverse : Bool)
    (states next : List Renaming) (budget : Int) (result : List Renaming)
    (h : (coverStates compare x ys reverse states next budget).1 = some result) :
    ∀ r' ∈ result, r' ∈ next ∨
      ∃ r ∈ states, ∃ y ∈ ys, Relates [if reverse then (y, x) else (x, y)] r r' := by
  induction states generalizing next budget with
  | nil =>
    simp only [coverStates, some.injEq] at h
    subst h
    exact fun r' hr' => Or.inl hr'
  | cons state states ih =>
    simp only [coverStates] at h
    split at h
    · simp at h
    rename_i found budget' hcover
    intro r' hr'
    rcases ih _ _ h r' hr' with hfound | ⟨r, hr, hrel⟩
    · rcases mem_coverMember hcompare x reverse state ys next budget found (by rw [hcover]) r'
        hfound with hold | hrel
      · exact Or.inl hold
      · exact Or.inr ⟨state, mem_cons_self, hrel⟩
    · exact Or.inr ⟨r, mem_cons_of_mem _ hr, hrel⟩

lemma mem_shapeCoverage (ys : List IRType) (reverse : Bool) (xs : List IRType)
    (states : List Renaming) (budget : Int) :
    ∀ r' ∈ (shapeCoverage compare ys reverse xs states budget).1, ∃ r ∈ states, Step r r' ∧
      ∀ x ∈ xs, ∃ y ∈ ys, ∀ paired, r'.Within paired →
        if reverse then Alike paired r.classes y x else Alike paired r.classes x y := by
  induction xs generalizing states budget with
  | nil => exact fun r' hr' => ⟨r', hr', Step.refl r', by simp⟩
  | cons x xs ih =>
    intro r' hr'
    simp only [shapeCoverage] at hr'
    split at hr'
    · simp at hr'
    rename_i next budget' hcover
    obtain ⟨r, hr, hs, hrest⟩ := ih next budget' r' hr'
    have hnx := mem_coverStates hcompare x ys reverse states [] budget next
      (by rw [hcover]) r hr
    obtain ⟨t, ht, y, hy, hrel⟩ := hnx.resolve_left not_mem_nil
    refine ⟨t, ht, hrel.step.trans hs, ?_⟩
    intro z hz
    rcases mem_cons.mp hz with rfl | hz
    · refine ⟨y, hy, ?_⟩
      intro paired hpaired
      have hwit := hrel.witnesses _ mem_cons_self paired (hs.le.within hpaired)
      cases reverse <;> simpa using hwit
    · rw [← hrel.step.le.classes]
      exact hrest z hz

end Search

variable {xs ys : List (Name × IRType)}

lemma pairFields_spec {names : List Name} {pairs : List (IRType × IRType)}
    (h : pairFields xs ys names = some pairs) :
    ∀ name ∈ names, ∃ x y, get? xs name = some x ∧ get? ys name = some y ∧
      (x, y) ∈ pairs := by
  induction names generalizing pairs with
  | nil => simp
  | cons name names ih =>
    simp only [pairFields] at h
    split at h
    · rename_i y x hy hx
      obtain ⟨rest, hr, rfl⟩ := map_eq_some_iff.mp h
      intro other ho
      rcases mem_cons.mp ho with rfl | ho
      · exact ⟨x, y, hx, hy, mem_cons_self⟩
      · obtain ⟨x', y', hx', hy', hmem⟩ := ih hr other ho
        exact ⟨x', y', hx', hy', mem_cons_of_mem _ hmem⟩
    · simp at h

lemma fieldPairs_spec {pairs : List (IRType × IRType)} (h : fieldPairs xs ys = some pairs) :
    (∀ name ∈ OrdMap.keys xs, name ∈ OrdMap.keys ys) ∧
      ∀ name x y, get? xs name = some x → get? ys name = some y → (x, y) ∈ pairs := by
  refine ⟨?_, ?_⟩
  · intro name hname
    obtain ⟨x, y, -, hy, -⟩ := pairFields_spec h name (mem_sortNames.mpr hname)
    exact get?_isSome_iff.mp (by simp [hy])
  · intro name x y hx hy
    have hname : name ∈ OrdMap.keys xs := get?_isSome_iff.mp (by simp [hx])
    obtain ⟨x', y', hx', hy', hmem⟩ := pairFields_spec h name (mem_sortNames.mpr hname)
    rw [hx] at hx'
    rw [hy] at hy'
    cases hx'
    cases hy'
    exact hmem

lemma forall₂_of_zip {paired : String → String → Prop} {classes : Bool} {xs ys : List IRType}
    (hlen : xs.length = ys.length) (h : ∀ e ∈ xs.zip ys, Alike paired classes e.1 e.2) :
    List.Forall₂ (Alike paired classes) xs ys :=
  List.forall₂_iff_zip.mpr ⟨hlen, fun {a b} hmem => h (a, b) hmem⟩

lemma coverage_sound {compare : Comparison} (hcom : Sound compare) {a b : IRType}
    (hun : (a.isUnion || b.isUnion) = true) (state : Renaming) (budget : Int)
    (states : List Renaming) (budget' : Int)
    (hfwd : shapeCoverage compare (shapeMembers 0 b) false (shapeMembers 0 a) [state] budget =
      (states, budget')) :
    ∀ r' ∈ (shapeCoverage compare (shapeMembers 0 a) true (shapeMembers 0 b) states budget').1,
      Relates [(a, b)] state r' := by
  intro r' hr'
  obtain ⟨r, hr, hbk, hrt⟩ := mem_shapeCoverage hcom _ _ _ _ _ r' hr'
  obtain ⟨s, hs, hforth, hlt⟩ := mem_shapeCoverage hcom (shapeMembers 0 b) false
    (shapeMembers 0 a) [state] budget r (by rw [hfwd]; exact hr)
  rw [mem_singleton.mp hs] at hforth hlt
  refine .single (hforth.trans hbk) ?_
  intro paired hpai
  refine .of_shapeMembers hun ?_ ?_
  · intro x hx
    obtain ⟨y, hy, hwit⟩ := hlt x hx
    exact ⟨y, hy, hwit paired (hbk.le.within hpai)⟩
  · intro y hy
    obtain ⟨x, hx, hwit⟩ := hrt y hy
    rw [hforth.le.classes] at hwit
    exact ⟨x, hx, hwit paired hpai⟩

section Components

variable {candidates : List (IRType × IRType) → Renaming → List Renaming × Int}
  (hcandidates : ∀ pairs r, ∀ r' ∈ (candidates pairs r).1, Relates pairs r r')

include hcandidates

lemma arrays_sound {xs ys : List IRType} {state r' : Renaming} {budget : Int}
    (h : r' ∈ (if xs.length ≠ ys.length then ([], budget) else candidates (xs.zip ys) state).1) :
    Step state r' ∧
      ∀ paired, r'.Within paired → List.Forall₂ (Alike paired state.classes) xs ys := by
  split at h
  · simp at h
  · rename_i hlen
    have hrel := hcandidates _ _ _ h
    exact ⟨hrel.step, fun paired hpaired => forall₂_of_zip (not_not.mp hlen)
      fun e he => hrel.witnesses e he paired hpaired⟩

lemma fields_sound {state r' : Renaming} {budget : Int}
    (h : r' ∈ (if xs.length ≠ ys.length then ([], budget)
      else
        match fieldPairs xs ys with
        | none => ([], budget)
        | some pairs => candidates pairs state).1) :
    Step state r' ∧ xs.length = ys.length ∧ (∀ name ∈ OrdMap.keys xs, name ∈ OrdMap.keys ys) ∧
      ∀ paired, r'.Within paired → ∀ name x y, get? xs name = some x →
        get? ys name = some y → Alike paired state.classes x y := by
  split at h
  · simp at h
  rename_i hlen
  split at h
  · simp at h
  rename_i pairs hps
  have hrel := hcandidates _ _ _ h
  obtain ⟨hnames, hfields⟩ := fieldPairs_spec hps
  refine ⟨hrel.step, not_not.mp hlen, hnames, ?_⟩
  intro paired hpaired name x y hx hy
  exact hrel.witnesses _ (hfields name x y hx hy) paired hpaired

end Components

mutual

theorem shapeCandidates_sound (level : Nat) (pairs : List (IRType × IRType))
    (initial : List Renaming) (budget : Int) :
    ∀ r' ∈ (shapeCandidates level pairs initial budget).1,
      ∃ r ∈ initial, Relates pairs r r' := by
  intro r' hr'
  cases level with
  | zero => simp [shapeCandidates] at hr'
  | succ level =>
    simp only [shapeCandidates] at hr'
    split at hr'
    · simp at hr'
    · exact mem_advanceAll (shapePair_sound level) pairs initial budget r' hr'

theorem shapePair_sound (level : Nat) : Sound (shapePair level) := by
  intro a b state budget r' hr'
  cases level with
  | zero => simp [shapePair] at hr'
  | succ level =>
    have hcan : ∀ budget pairs r,
        ∀ r' ∈ (shapeCandidates level pairs [r] budget).1, Relates pairs r r' := by
      intro budget pairs r r' hr'
      obtain ⟨s, hs, hrel⟩ := shapeCandidates_sound level pairs [r] budget r' hr'
      rw [mem_singleton.mp hs] at hrel
      exact hrel
    have hcom : Sound fun x y state budget =>
        shapeCandidates level [(x, y)] [state] budget :=
      fun x y state budget => hcan budget [(x, y)] state
    rw [shapePair] at hr'
    split at hr'
    · simp at hr'
    split at hr'
    · rename_i hun
      exact coverage_sound hcom hun state budget _ _ rfl r' hr'
    split at hr'
    · -- variables
      split at hr'
      · rename_i r hsm
        rw [mem_singleton.mp hr']
        obtain ⟨hstep, hpr, hcla⟩ := sameVariable_spec hsm
        exact Relates.single hstep fun paired hpai => Alike.variable (hpai _ _ hpr) hcla
      · simp at hr'
    · -- references
      split at hr'
      · rename_i hname
        subst hname
        obtain ⟨hstep, hargs⟩ := arrays_sound (hcan budget) hr'
        exact Relates.single hstep fun paired hpai => reference (hargs paired hpai)
      · simp at hr'
    · -- functions
      have hrel := hcan budget _ _ r' hr'
      refine Relates.single hrel.step fun paired hpai => function ?_ ?_
      · exact hrel.witnesses _ mem_cons_self paired hpai
      · exact hrel.witnesses _ (mem_cons_of_mem _ mem_cons_self) paired hpai
    · -- closed records
      obtain ⟨hstep, hlen, hns, hfs⟩ := fields_sound (hcan budget) hr'
      exact Relates.single hstep fun paired hpai => record hlen hns (hfs paired hpai)
    · -- extensible records
      split at hr'
      · rename_i r hsm
        obtain ⟨hfst, hpr, hcla⟩ := sameVariable_spec hsm
        obtain ⟨hstep, hlen, hns, hfs⟩ := fields_sound (hcan budget) hr'
        rw [hfst.le.classes] at hfs
        refine Relates.single (hfst.trans hstep) fun paired hpai => ?_
        exact extensibleRecord (hpai _ _ (hstep.le.paired hpr)) hcla hlen
          hns (hfs paired hpai)
      · simp at hr'
    · -- unit types and tuples
      split at hr'
      · rename_i hu
        rw [mem_singleton.mp hr']
        rw [Bool.and_eq_true] at hu
        exact Relates.single (Step.refl state) fun _ _ => unit hu.1 hu.2
      · split at hr'
        · obtain ⟨hstep, hits⟩ := arrays_sound (hcan budget) hr'
          exact Relates.single hstep fun paired hpai => tuple (hits paired hpai)
        · simp at hr'

end

lemma foldl_fixName (names : List String) (r : Renaming) (hinverse : r.Inverse)
    (hsf : ∀ k v, get? r.ab k = some v → k = v) :
    (names.foldl fixName r).Inverse ∧ (names.foldl fixName r).classes = r.classes ∧
      (∀ x, r.Paired x x → (names.foldl fixName r).Paired x x) ∧
      ∀ name ∈ names, (names.foldl fixName r).Paired name name := by
  induction names generalizing r with
  | nil => exact ⟨hinverse, rfl, fun _ h => h, by simp⟩
  | cons name names ih =>
    have hinv' : (fixName r name).Inverse := by
      refine .insert_self hinverse ?_
      intro k v hkv
      rw [hsf k v hkv]
    have hsf' : ∀ k v, get? (fixName r name).ab k = some v → k = v := by
      intro k v hkv
      simp only [fixName, get?_insert] at hkv
      split at hkv
      · rename_i hk
        exact hk.symm.trans (some.inj hkv)
      · exact hsf k v hkv
    have hkp : ∀ x, r.Paired x x ∨ x = name → (fixName r name).Paired x x := by
      intro x hx
      simp only [Renaming.Paired, fixName, get?_insert]
      by_cases hname : name = x
      · simp [hname]
      · rcases hx with hx | hx
        · simpa [Renaming.Paired, hname] using hx
        · exact absurd hx.symm hname
    obtain ⟨hinv, hcla, hold, hnew⟩ := ih (fixName r name) hinv' hsf'
    refine ⟨hinv, hcla, fun x hx => hold x (hkp x (Or.inl hx)), ?_⟩
    intro other ho
    rcases mem_cons.mp ho with rfl | ho
    · exact hold other (hkp other (Or.inr rfl))
    · exact hnew other ho

lemma Renaming.Inverse.exists_perm {r : Renaming} (h : r.Inverse) :
    ∃ bijection : Equiv.Perm String, ∀ x y, get? r.ab x = some y → bijection x = y := by
  classical
  let domain : Set String := {x | x ∈ OrdMap.keys r.ab}
  have hfin : domain.Finite := finite_toSet _
  have hvalue : ∀ x : domain, ∃ y, get? r.ab x = some y := fun x => exists_get?_of_mem_keys x.2
  choose value hvalue using hvalue
  have hinj : Function.Injective value := by
    intro x x' hxx'
    have hx := (h x (value x)).mp (hvalue x)
    have hx' := (h x' (value x')).mp (hvalue x')
    rw [hxx', hx'] at hx
    exact Subtype.ext (some.inj hx).symm
  have hcard : .mk domain < Cardinal.mk String :=
    (Cardinal.lt_aleph0_iff_set_finite.mpr hfin).trans_le (Cardinal.aleph0_le_mk String)
  obtain ⟨bijection, hbij⟩ := Cardinal.extend_function_of_lt ⟨value, hinj⟩ hcard ⟨Equiv.refl String⟩
  refine ⟨bijection, ?_⟩
  intro x y hxy
  have hmem : x ∈ domain := get?_isSome_iff.mp (by simp [hxy])
  have hx : bijection x = value ⟨x, hmem⟩ := hbij ⟨x, hmem⟩
  rw [hx]
  have hval := hvalue ⟨x, hmem⟩
  rw [hxy] at hval
  exact (some.inj hval).symm

namespace TypeScope

/-- The invariant of a scope whose fixed names are `fixed` and whose calls
answered true for `pairs`. -/
structure Fits (fixed : List String) (pairs : List (IRType × IRType)) (scope : TypeScope) :
    Prop where
  nonempty : scope.candidates ≠ []
  inverse : ∀ r ∈ scope.candidates, r.Inverse
  classes : ∀ r ∈ scope.candidates, r.classes = true
  fixes : ∀ r ∈ scope.candidates, ∀ name ∈ fixed, r.Paired name name
  witnesses : ∀ r ∈ scope.candidates, ∀ e ∈ pairs, ∀ paired, r.Within paired →
    Alike paired true e.1 e.2

lemma fits_ofDefinition (definition : ValueDefinition) :
    Fits (rigidNames definition) [] (ofDefinition definition) := by
  obtain ⟨hinv, hcla, -, hfixes⟩ := foldl_fixName (rigidNames definition) ⟨[], [], true⟩
    (fun _ _ => by simp) (by simp)
  refine ⟨by simp [ofDefinition], ?_, ?_, ?_, by simp⟩
  all_goals
    intro r hr
    rw [mem_singleton.mp hr]
  · exact hinv
  · exact hcla
  · exact hfixes

lemma Fits.equivalent {fixed : List String} {pairs : List (IRType × IRType)} {scope : TypeScope}
    (h : Fits fixed pairs scope) {a b : IRType} {scope' : TypeScope}
    (heq : scope.equivalent a b = (true, scope')) : Fits fixed (pairs ++ [(a, b)]) scope' := by
  unfold TypeScope.equivalent at heq
  simp only at heq
  split at heq
  · simp at heq
  rename_i hnon
  obtain ⟨-, rfl⟩ := Prod.mk.inj heq
  have hcd := shapeCandidates_sound 129 [(a, b)] scope.candidates 4096
  refine ⟨by simpa using hnon, ?_, ?_, ?_, ?_⟩
  all_goals
    intro r hr
    obtain ⟨s, hs, hrel⟩ := hcd r hr
  · exact hrel.step.inverse (h.inverse s hs)
  · rw [hrel.step.le.classes, h.classes s hs]
  · exact fun name hname => hrel.step.le.paired (h.fixes s hs name hname)
  · intro e he paired hpai
    rcases mem_append.mp he with hold | hnew
    · exact h.witnesses s hs e hold paired (hrel.step.le.within hpai)
    · rw [← h.classes s hs]
      exact hrel.witnesses e hnew paired hpai

lemma equivalent_false {scope scope' : TypeScope} {a b : IRType}
    (heq : scope.equivalent a b = (false, scope')) : scope' = scope := by
  unfold TypeScope.equivalent at heq
  simp only at heq
  split at heq
  · exact (Prod.mk.inj heq).2.symm
  · simp at heq

lemma Fits.equivalentAll {fixed : List String} {pairs : List (IRType × IRType)}
    {scope : TypeScope} (h : Fits fixed pairs scope) (calls : List (IRType × IRType)) :
    ∃ witnessed, Fits fixed witnessed (scope.equivalentAll calls).2 ∧ pairs ⊆ witnessed ∧
      ∀ call, (call, true) ∈ calls.zip (scope.equivalentAll calls).1 → call ∈ witnessed := by
  induction calls generalizing pairs scope with
  | nil => exact ⟨pairs, h, .refl _, by simp⟩
  | cons call calls ih =>
    obtain ⟨a, b⟩ := call
    rcases heq : scope.equivalent a b with ⟨answer, scope'⟩
    have hrun : scope.equivalentAll ((a, b) :: calls) =
        (answer :: (scope'.equivalentAll calls).1, (scope'.equivalentAll calls).2) := by
      simp [TypeScope.equivalentAll, heq]
    rw [hrun]
    cases answer with
    | false =>
      rw [equivalent_false heq]
      obtain ⟨witnessed, hfi, hps, hcls⟩ := ih h
      exact ⟨witnessed, hfi, hps, by simpa using hcls⟩
    | true =>
      obtain ⟨witnessed, hfi, hps, hcls⟩ := ih (h.equivalent heq)
      refine ⟨witnessed, hfi, fun e he => hps (mem_append_left _ he), ?_⟩
      intro call hca
      rcases mem_cons.mp hca with heq | hca
      · rw [(Prod.mk.inj heq).1]
        exact hps (mem_append_right _ (mem_singleton.mpr rfl))
      · exact hcls call hca

/-- After any sequence of calls on the scope of a declaration, one bijection of
the variables fixes the variables of the signature and witnesses, classes
included, every pair that was answered true.  It extends a candidate of the
scope, the two maps of each candidate are mutually inverse, and a call that
answers false leaves the scope as it was. -/
theorem equivalentAll_spec (definition : ValueDefinition) (calls : List (IRType × IRType)) :
    let (answers, scope) := (ofDefinition definition).equivalentAll calls
    (∃ r ∈ scope.candidates, ∃ bijection : Equiv.Perm String,
      (∀ x y, get? r.ab x = some y → bijection x = y) ∧
      (∀ name ∈ rigidNames definition, bijection name = name) ∧
      ∀ call, (call, true) ∈ calls.zip answers →
        Alike (fun x y => bijection x = y) true call.1 call.2) ∧
    (∀ r ∈ scope.candidates, r.Inverse) ∧
    ∀ a b, (scope.equivalent a b).1 = false → (scope.equivalent a b).2 = scope := by
  obtain ⟨witnessed, hfi, -, hcls⟩ := (fits_ofDefinition definition).equivalentAll calls
  refine ⟨?_, hfi.inverse, ?_⟩
  · obtain ⟨r, hr⟩ := exists_mem_of_ne_nil _ hfi.nonempty
    obtain ⟨bijection, hbij⟩ := (hfi.inverse r hr).exists_perm
    refine ⟨r, hr, bijection, hbij, ?_, ?_⟩
    · exact fun name hname => hbij _ _ (hfi.fixes r hr name hname).1
    · exact fun call hca => hfi.witnesses r hr call (hcls call hca) _
        fun x y hxy => hbij x y hxy.1
  · intro a b hfalse
    exact equivalent_false (Prod.ext hfalse rfl)

end TypeScope

end Morphir.Typing
