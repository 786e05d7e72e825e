import Morphir.Typing.Derivation
import Morphir.Typing.Transitivity

/-!
# Soundness of assignability

A comparison that ends with a proof or with a refutation stands for `Below` or
`Apart` on the meanings of the two types.
-/

namespace Morphir.Typing

open IR TypeRelation List OrdMap Solver Option

section Soundness

variable {env : Env} (henv : env.Acyclic)

include henv

lemma Head.meaning_eq {t h : Ty} {as : List TypeAttributes} (hh : Head env t h as) :
    meaning env noLinks t = meaning env noLinks h := by
  induction hh with
  | attributed _ ih => rw [meaning_attributed henv acyclic_noLinks, ih]
  | expanding expand _ ih => rw [meaning_alias henv acyclic_noLinks expand, ih]
  | con => rfl
  | other => rfl

lemma meaning_attributedAll (t : Ty) (as : List TypeAttributes) :
    meaning env noLinks (attributedAll t as) = meaning env noLinks t := by
  induction as generalizing t with
  | nil => rfl
  | cons a as ih =>
    have hs : attributedAll t (a :: as) = attributedAll (.attributed a t) as := rfl
    rw [hs, ih, meaning_attributed henv acyclic_noLinks]

end Soundness

lemma rowOf_none (fields : List (String × Ty)) :
    rowOf fields none = .record (OrdMap.canonical fields) none := by
  cases fields <;> rfl

structure Reflects (env : Env) (s t : Ty) (r : TypeRelation) : Prop where
  proven : r = proven → Below (meaning env noLinks s) (meaning env noLinks t)
  refuted : r = refuted → Apart (meaning env noLinks s) (meaning env noLinks t)

def SoundRelation (env : Env) (relate : Relation) : Prop :=
  ∀ s t r, s.WellFormed → t.WellFormed → ResultOf relate (s, t) r → Reflects env s t r

section Heads

variable {env : Env} (henv : env.Acyclic) {relate : Relation} (hrelate : SoundRelation env relate)

include henv hrelate

variable {budget : Int}

lemma reflects_con {name : String} {xs ys : List Ty} (hx : env.expand name xs = none)
    (hy : env.expand name ys = none) (hxs : ∀ x ∈ xs, x.WellFormed) (hys : ∀ y ∈ ys, y.WellFormed)
    (hlen : xs.length = ys.length) :
    Reflects env (.con name xs) (.con name ys)
      (allOf (relateArgs relate (xs.zip ys) budget).1) := by
  have hresults := relateArgs_results relate (xs.zip ys) budget
  have hmem : ∀ p ∈ xs.zip ys, p.1.WellFormed ∧ p.2.WellFormed := fun p hp =>
    ⟨hxs _ (of_mem_zip hp).1, hys _ (of_mem_zip hp).2⟩
  refine ⟨?_, ?_⟩
  all_goals
    intro h
    rw [meaning_con henv acyclic_noLinks hx, meaning_con henv acyclic_noLinks hy]
  · have hb : ∀ p ∈ xs.zip ys, Below (meaning env noLinks p.1) (meaning env noLinks p.2) ∧
        Below (meaning env noLinks p.2) (meaning env noLinks p.1) := by
      intro p hp
      obtain ⟨r, hr, r₁, r₂, hr₁, hr₂, heq⟩ := hresults.exists_right p hp
      have hproven := allOf_eq_proven.mp h r hr
      rw [heq, allOf_eq_proven] at hproven
      obtain ⟨hd₁, hd₂⟩ := hmem p hp
      have hforward := hrelate p.1 p.2 r₁ hd₁ hd₂ hr₁
      have hbackward := hrelate p.2 p.1 r₂ hd₂ hd₁ hr₂
      exact ⟨hforward.proven (hproven r₁ (by simp)), hbackward.proven (hproven r₂ (by simp))⟩
    refine .con (by simp [hlen]) ?_ ?_
    all_goals
      intro e he
      obtain ⟨p, hp, rfl⟩ := mem_zip_map.mp he
    · exact (hb p hp).1
    · exact (hb p hp).2
  · obtain ⟨p, hp, r₁, r₂, hr₁, hr₂, heq⟩ := hresults.exists_left _ (mem_of_allOf_eq_refuted h)
    have hp' := mem_zip_map (f := meaning env noLinks) (g := meaning env noLinks).mpr
      ⟨p, hp, rfl⟩
    obtain ⟨hd₁, hd₂⟩ := hmem p hp
    have hmem' := mem_of_allOf_eq_refuted heq.symm
    rcases mem_cons.mp hmem' with h₁ | h₂
    · exact .conForward hp' ((hrelate p.1 p.2 r₁ hd₁ hd₂ hr₁).refuted h₁.symm)
    · have h₂' := mem_singleton.mp h₂
      exact .conBackward hp' ((hrelate p.2 p.1 r₂ hd₂ hd₁ hr₂).refuted h₂'.symm)

lemma reflects_tup {xs ys : List Ty} (hxs : ∀ x ∈ xs, x.WellFormed) (hys : ∀ y ∈ ys, y.WellFormed)
    (hlen : xs.length = ys.length) :
    Reflects env (.tup xs) (.tup ys) (allOf (relateEach relate (xs.zip ys) budget).1) := by
  have hresults := relateEach_results relate (xs.zip ys) budget
  have hreflects : ∀ p ∈ xs.zip ys, ∀ r, ResultOf relate p r → Reflects env p.1 p.2 r :=
    fun p hp r hr => hrelate p.1 p.2 r (hxs _ (of_mem_zip hp).1) (hys _ (of_mem_zip hp).2) hr
  refine ⟨?_, ?_⟩
  all_goals
    intro h
    rw [meaning_tup henv acyclic_noLinks, meaning_tup henv acyclic_noLinks]
  · refine .tup (by simp [hlen]) ?_
    intro e he
    obtain ⟨p, hp, rfl⟩ := mem_zip_map.mp he
    obtain ⟨r, hr, hres⟩ := hresults.exists_right p hp
    exact (hreflects p hp r hres).proven (allOf_eq_proven.mp h r hr)
  · obtain ⟨p, hp, hres⟩ := hresults.exists_left _ (mem_of_allOf_eq_refuted h)
    exact .tup (mem_zip_map.mpr ⟨p, hp, rfl⟩) ((hreflects p hp _ hres).refuted rfl)

lemma reflects_fn {a b c d : Ty} (hab : a.WellFormed ∧ b.WellFormed)
    (hcd : c.WellFormed ∧ d.WellFormed) :
    Reflects env (.fn a b) (.fn c d) (allOf (relateEach relate [(c, a), (b, d)] budget).1) := by
  have hresults := relateEach_results relate [(c, a), (b, d)] budget
  refine ⟨?_, ?_⟩
  all_goals
    intro h
    rw [meaning_fn henv acyclic_noLinks, meaning_fn henv acyclic_noLinks]
  · obtain ⟨r₁, hr₁, hin⟩ := hresults.exists_right (c, a) (by simp)
    obtain ⟨r₂, hr₂, hout⟩ := hresults.exists_right (b, d) (by simp)
    have hall := allOf_eq_proven.mp h
    exact .fn ((hrelate c a r₁ hcd.1 hab.1 hin).proven (hall r₁ hr₁))
      ((hrelate b d r₂ hab.2 hcd.2 hout).proven (hall r₂ hr₂))
  · obtain ⟨p, hp, hres⟩ := hresults.exists_left _ (mem_of_allOf_eq_refuted h)
    rcases mem_cons.mp hp with rfl | hp
    · exact .fnInput ((hrelate c a _ hcd.1 hab.1 hres).refuted rfl)
    · rw [mem_singleton] at hp
      subst hp
      exact .fnOutput ((hrelate b d _ hab.2 hcd.2 hres).refuted rfl)

lemma reflects_record {xs ys : List (String × Ty)} {results : List TypeRelation}
    (hdi : OrdMap.Distinct xs) (hxs : ∀ e ∈ xs, e.2.WellFormed) (hys : ∀ e ∈ ys, e.2.WellFormed)
    (hlen : xs.length = ys.length) (hfields : (relateFields relate ys xs budget).1 = some results) :
    Reflects env (.record xs none) (.record ys none) (allOf results) := by
  have hresults := relateFields_results relate xs ys budget results hfields
  have hks : ∀ name, name ∈ OrdMap.keys xs ↔ name ∈ OrdMap.keys ys := by
    apply hdi.keys_iff hlen
    intro name hname
    obtain ⟨e, he, rfl⟩ := mem_map.mp hname
    obtain ⟨r, -, y, hy, -⟩ := hresults.exists_right e he
    exact get?_isSome_iff.mp (by simp [hy])
  have hlookup : ∀ (fields : List (String × Ty)) name,
      get? (OrdMap.canonical (mapValues (meaning env noLinks) fields)) name =
        (get? fields name).map (meaning env noLinks) := by
    intro fields name
    rw [get?_canonical, get?_mapValues]
  refine ⟨?_, ?_⟩
  all_goals
    intro h
    rw [meaning_closed henv acyclic_noLinks, meaning_closed henv acyclic_noLinks, rowOf_none,
      rowOf_none]
  · refine .record ?_ ?_
    · intro name
      rw [← get?_isSome_iff, ← get?_isSome_iff, hlookup, hlookup, isSome_map,
        isSome_map, get?_isSome_iff, get?_isSome_iff]
      exact hks name
    · intro name x y hx hy
      rw [hlookup] at hx hy
      obtain ⟨x', hx', rfl⟩ := map_eq_some_iff.mp hx
      obtain ⟨y', hy', rfl⟩ := map_eq_some_iff.mp hy
      have hmem := mem_of_get? hx'
      obtain ⟨r, hr, z, hz, hres⟩ := hresults.exists_right _ hmem
      rw [hy'] at hz
      cases hz
      exact (hrelate x' y' r (hxs _ hmem) (hys _ (mem_of_get? hy')) hres).proven
        (allOf_eq_proven.mp h r hr)
  · obtain ⟨e, he, y, hy, hres⟩ := hresults.exists_left _ (mem_of_allOf_eq_refuted h)
    obtain ⟨name, x⟩ := e
    have hx := get?_of_mem hdi he
    have hapart := (hrelate x y _ (hxs _ he) (hys _ (mem_of_get? hy)) hres).refuted rfl
    have hx' := hlookup xs name
    have hy' := hlookup ys name
    rw [hx] at hx'
    rw [hy] at hy'
    exact .record hx' hy' hapart

omit hrelate in
lemma kind_meaning {h : Ty} {k : Kind}
    (hcon : ∀ name args, h = .con name args → env.expand name args = none) (hk : kind h = some k) :
    kind (meaning env noLinks h) = some k := by
  cases h with
  | con name args =>
    rw [meaning_con henv acyclic_noLinks (hcon name args rfl)]
    simpa [kind] using hk
  | tup items =>
    rw [meaning_tup henv acyclic_noLinks]
    simpa [kind] using hk
  | fn a b =>
    rw [meaning_fn henv acyclic_noLinks]
    exact hk
  | record fields tail =>
    cases tail with
    | some tail => simp [kind] at hk
    | none =>
      have hks : ∀ name, name ∈ OrdMap.keys
          (OrdMap.canonical (mapValues (meaning env noLinks) fields)) ↔
          name ∈ OrdMap.keys fields := by
        intro name
        rw [← get?_isSome_iff, get?_canonical, get?_mapValues, isSome_map, get?_isSome_iff]
      rw [meaning_closed henv acyclic_noLinks, rowOf_none]
      simpa [kind, hks] using hk
  | unit =>
    rw [meaning_unit]
    exact hk
  | _ => simp [kind] at hk

omit hrelate in
lemma reflects_kinds {s t : Ty} {k l : Kind}
    (hs : ∀ name args, s = .con name args → env.expand name args = none)
    (ht : ∀ name args, t = .con name args → env.expand name args = none) (hk : kind s = some k)
    (hl : kind t = some l) (hne : k ≠ l) : Reflects env s t .refuted :=
  ⟨by simp, fun _ => .kinds (kind_meaning henv hs hk) (kind_meaning henv ht hl) hne⟩

end Heads

lemma relateHeads_ne_refuted {relate : Relation} {x y : Ty} {budget : Int}
    (hatt : ∀ attrs s, x ≠ .attributed attrs s) (hlf : ¬ IsUnion x) (hkd : kind x = none) :
    (relateHeads relate x y budget).1 ≠ .refuted := by
  cases x with
  | union => exact absurd trivial hlf
  | attributed attrs s => exact absurd rfl (hatt attrs s)
  | mvar | rigid | gen => cases y <;> simp [relateHeads]
  | record fields tail =>
    cases tail with
    | none => simp [kind] at hkd
    | some tail => cases y <;> simp [relateHeads]
  | _ => simp [kind] at hkd

lemma relate_ne_refuted {env : Env} (level : Nat) {source x : Ty} {as : List TypeAttributes}
    (hh : Head env source x as) (hlf : ¬ IsUnion x) (hkd : kind x = none) (target : Ty)
    (budget : Int) : ((new env).relate level source target budget).1 ≠ .refuted := by
  induction level generalizing target budget with
  | zero => simp [relate]
  | succ level ih =>
    intro href
    have hout := outcome_relate env level source target budget
    rw [href] at hout
    generalize hr : TypeRelation.refuted = r at hout
    cases hout with
    | unknown => cases hr
    | equal => cases hr
    | unionLeft head =>
      obtain ⟨rfl, -⟩ := hh.unique head
      exact hlf trivial
    | heads left =>
      obtain ⟨rfl, -⟩ := hh.unique left
      exact relateHeads_ne_refuted hh.notAttributed hlf hkd hr.symm
    | @unionRight _ ys _ bs budget _ _ _ members =>
      obtain ⟨y, hy⟩ := exists_mem_of_length_pos (l := ys) (by omega)
      have hress := relateEach_results ((new env).relate level)
        (ys.map fun y => (source, attributedAll y bs)) budget
      obtain ⟨r, hr', b, hb⟩ := hress.exists_right (source, attributedAll y bs)
        (mem_map.mpr ⟨y, hy, rfl⟩)
      rw [anyOf_eq_refuted.mp hr.symm r hr'] at hb
      exact ih _ _ hb

section Relate

variable {env : Env} (henv : env.Acyclic)

include henv

omit henv in
lemma exists_kind {x : Ty} (hatt : ∀ attrs s, x ≠ .attributed attrs s) (hun : ¬ IsUnion x)
    (hmvar : ∀ id, x ≠ .mvar id) (hgen : ∀ index, x ≠ .gen index)
    (hrigid : ∀ key classes, x ≠ .rigid key classes)
    (hop : ∀ fields tail, x ≠ .record fields (some tail)) : ∃ k, kind x = some k := by
  cases x with
  | union => exact absurd trivial hun
  | attributed attrs s => exact absurd rfl (hatt attrs s)
  | mvar id => exact absurd rfl (hmvar id)
  | gen index => exact absurd rfl (hgen index)
  | rigid key classes => exact absurd rfl (hrigid key classes)
  | record fields tail =>
    cases tail with
    | some tail => exact absurd rfl (hop fields tail)
    | none => exact ⟨_, rfl⟩
  | _ => exact ⟨_, rfl⟩

omit henv in
lemma kind_ne {x y : Ty} {k l : Kind} (hk : kind x = some k) (hl : kind y = some l)
    (hne : (x == y) = false) (hcon : ∀ n xs m ys, x = .con n xs → y = .con m ys → False)
    (htup : ∀ xs ys, x = .tup xs → y = .tup ys → False)
    (hrec : ∀ xs ys, x = .record xs none → y = .record ys none → False)
    (hfn : ∀ a b c d, x = .fn a b → y = .fn c d → False) : k ≠ l := by
  rintro rfl
  rcases y with _ | _ | _ | ⟨m, ys⟩ | ⟨c, d⟩ | ys | _ | _ | ⟨ys, _ | _⟩ | _
  all_goals simp only [kind, some.injEq, reduceCtorEq] at hl
  all_goals
    subst hl
    rcases x with _ | _ | _ | ⟨n, xs⟩ | ⟨a, b⟩ | xs | _ | _ | ⟨xs, _ | _⟩ | _
    all_goals simp only [kind, some.injEq, reduceCtorEq] at hk
  · exact hcon n xs m ys rfl rfl
  · exact hfn a b c d rfl rfl
  · exact htup xs ys rfl rfl
  · exact hrec xs ys rfl rfl
  · simp [BEq.beq, Ty.beq] at hne

lemma reflects_relateHeads {relate : Relation} (hrelate : SoundRelation env relate) {x y : Ty}
    {budget : Int} (hx : ∀ name args, x = .con name args → env.expand name args = none)
    (hy : ∀ name args, y = .con name args → env.expand name args = none) (hxd : x.WellFormed)
    (hyd : y.WellFormed) (hxa : ∀ attrs s, x ≠ .attributed attrs s)
    (hya : ∀ attrs s, y ≠ .attributed attrs s) (hxu : ¬ IsUnion x) (hyu : ¬ IsUnion y)
    (hne : (x == y) = false) : Reflects env x y (relateHeads relate x y budget).1 := by
  have hunknown : ∀ reason, Reflects env x y (.unknown reason) := fun reason => ⟨by simp, by simp⟩
  have hkinds : ∀ k l, kind x = some k → kind y = some l → k ≠ l → Reflects env x y .refuted :=
    fun k l => reflects_kinds henv hx hy
  unfold relateHeads
  split
  case h_7 n xs m ys =>
    split
    · rename_i hsm
      obtain ⟨rfl, hlen⟩ := hsm
      exact reflects_con henv hrelate (hx n xs rfl) (hy n ys rfl)
        (Ty.wellFormedItems_iff.mp hxd) (Ty.wellFormedItems_iff.mp hyd) hlen
    · rename_i hdiffer
      apply hkinds _ _ rfl rfl
      intro heq
      injection heq with hname harity
      exact hdiffer ⟨hname, harity⟩
  case h_8 xs ys =>
    split
    · rename_i hlen
      exact reflects_tup henv hrelate (Ty.wellFormedItems_iff.mp hxd) (Ty.wellFormedItems_iff.mp hyd)
        hlen
    · rename_i hdiffer
      apply hkinds _ _ rfl rfl
      intro heq
      injection heq with harity
      exact hdiffer harity
  case h_9 xs ys =>
    obtain ⟨hxdistinct, hxfields, -⟩ := hxd
    obtain ⟨hydistinct, hyfields, -⟩ := hyd
    have hrefute : (∃ name, ¬ (name ∈ OrdMap.keys xs ↔ name ∈ OrdMap.keys ys)) →
        Reflects env (.record xs none) (.record ys none) .refuted := by
      rintro ⟨name, hname⟩
      apply hkinds _ _ rfl rfl
      intro heq
      injection heq with hnames
      exact hname (Set.ext_iff.mp hnames name)
    split
    · rename_i hlen
      split
      · rename_i results budget' hfields
        exact reflects_record henv hrelate hxdistinct (Ty.wellFormedFields_iff.mp hxfields)
          (Ty.wellFormedFields_iff.mp hyfields) hlen (by rw [hfields])
      · rename_i budget' hfields
        obtain ⟨name, hname, hmissing⟩ := relateFields_missing relate xs ys budget (by rw [hfields])
        exact hrefute ⟨name, fun h => hmissing (h.mp hname)⟩
    · rename_i hlen
      apply hrefute
      by_contra hall
      apply hlen
      have hks : ∀ name, name ∈ OrdMap.keys xs ↔ name ∈ OrdMap.keys ys := by simpa using hall
      have hpm := (perm_ext_iff_of_nodup hxdistinct hydistinct).mpr hks
      simpa [OrdMap.keys] using hpm.length_eq
  case h_12 a b c d => exact reflects_fn henv hrelate hxd hyd
  case h_13 hxm hxg hxr hxo hym hyg hyr hyo hcon htup hrecord hfn =>
    obtain ⟨k, hk⟩ := exists_kind hxa hxu hxm hxg hxr hxo
    obtain ⟨l, hl⟩ := exists_kind hya hyu hym hyg hyr hyo
    exact hkinds k l hk hl (kind_ne hk hl hne hcon htup hrecord hfn)
  all_goals exact hunknown _

lemma relate_sound (hwf : env.WellFormed) (level : Nat) :
    SoundRelation env ((new env).relate level) := by
  induction level with
  | zero =>
    rintro s t r - - ⟨budget, rfl⟩
    exact ⟨by simp [relate], by simp [relate]⟩
  | succ level ih =>
    rintro source target r hs ht ⟨budget, hr⟩
    have houtcome := outcome_relate env level source target budget
    rw [hr] at houtcome
    cases houtcome with
    | unknown reason => exact ⟨by simp, by simp⟩
    | equal left right leaf leaf' entail eq =>
      refine ⟨fun _ => ?_, by simp⟩
      have hsm := sameMeaning_of_beq henv acyclic_noLinks _ _ eq
      rw [left.meaning_eq henv, right.meaning_eq henv, hsm]
      exact .refl _
    | @heads x y as bs b left right leaf leaf' entail ne =>
      have hreflects : Reflects env x y
          (relateHeads ((new env).relate level) x y b).1 := reflects_relateHeads henv ih
        (fun name args h => (h ▸ left).expand_eq_none)
        (fun name args h => (h ▸ right).expand_eq_none) (left.wellFormed hwf hs).1
        (right.wellFormed hwf ht).1
        left.notAttributed right.notAttributed leaf leaf' ne
      constructor
      · intro h
        rw [left.meaning_eq henv, right.meaning_eq henv]
        exact hreflects.proven h
      · intro h
        rw [left.meaning_eq henv, right.meaning_eq henv]
        exact hreflects.refuted h
    | @unionLeft xs as b head members =>
      obtain ⟨⟨-, hall⟩, has⟩ := head.wellFormed hwf hs
      have hmembers := Ty.wellFormedItems_iff.mp hall
      have hresults := relateEach_results ((new env).relate level)
        (xs.map fun x => (attributedAll x as, target)) b
      have hreflects : ∀ x ∈ xs, ∀ r,
          ResultOf ((new env).relate level) (attributedAll x as, target) r →
          Reflects env (attributedAll x as) target r := fun x hx r =>
        ih _ _ r (wellFormed_attributedAll (hmembers x hx) has) ht
      constructor
      · intro h
        rw [head.meaning_eq henv, meaning_union henv acyclic_noLinks]
        apply Below.unionLeft
        intro m hm
        obtain ⟨x, hx, rfl⟩ := mem_map.mp hm
        obtain ⟨r, hr, hres⟩ := hresults.exists_right _ (mem_map.mpr ⟨x, hx, rfl⟩)
        have hbe := (hreflects x hx r hres).proven (allOf_eq_proven.mp h r hr)
        rwa [meaning_attributedAll henv] at hbe
      · intro h
        rw [head.meaning_eq henv, meaning_union henv acyclic_noLinks]
        obtain ⟨p, hp, hres⟩ := hresults.exists_left _ (mem_of_allOf_eq_refuted h)
        obtain ⟨x, hx, rfl⟩ := mem_map.mp hp
        have hapart := (hreflects x hx _ hres).refuted rfl
        rw [meaning_attributedAll henv] at hapart
        exact .unionLeft (mem_map_of_mem hx) hapart
    | @unionRight x ys as bs b left leaf right members =>
      obtain ⟨⟨-, hall⟩, hbs⟩ := right.wellFormed hwf ht
      have hmembers := Ty.wellFormedItems_iff.mp hall
      have hresults := relateEach_results ((new env).relate level)
        (ys.map fun y => (source, attributedAll y bs)) b
      have hreflects : ∀ y ∈ ys, ∀ r,
          ResultOf ((new env).relate level) (source, attributedAll y bs) r →
          Reflects env source (attributedAll y bs) r := fun y hy r =>
        ih _ _ r hs (wellFormed_attributedAll (hmembers y hy) hbs)
      constructor
      · intro h
        rw [right.meaning_eq henv, meaning_union henv acyclic_noLinks]
        obtain ⟨p, hp, hres⟩ := hresults.exists_left _ (mem_of_anyOf_eq_proven h)
        obtain ⟨y, hy, rfl⟩ := mem_map.mp hp
        have hbe := (hreflects y hy _ hres).proven rfl
        rw [meaning_attributedAll henv] at hbe
        exact .unionRight (mem_map_of_mem hy) hbe
      · intro h
        have hrefuted := anyOf_eq_refuted.mp h
        rw [right.meaning_eq henv, meaning_union henv acyclic_noLinks]
        apply Apart.unionRight
        · -- a head that could stand for a union is never refuted
          rw [left.meaning_eq henv]
          obtain ⟨y, hy⟩ := exists_mem_of_length_pos (l := ys) (by omega)
          obtain ⟨r, hr, b', hres⟩ := hresults.exists_right _ (mem_map.mpr ⟨y, hy, rfl⟩)
          rw [hrefuted r hr] at hres
          cases hk : kind x with
          | none => exact absurd hres (relate_ne_refuted level left leaf hk _ b')
          | some k =>
            have hk' := kind_meaning henv (fun name args h => (h ▸ left).expand_eq_none) hk
            intro hun
            generalize meaning env noLinks x = m at hk' hun
            cases m <;> simp_all [IsUnion, kind]
        · intro m hm
          obtain ⟨y, hy, rfl⟩ := mem_map.mp hm
          obtain ⟨r, hr, hres⟩ := hresults.exists_right _ (mem_map.mpr ⟨y, hy, rfl⟩)
          have hapart := (hreflects y hy r hres).refuted (hrefuted r hr)
          rwa [meaning_attributedAll henv] at hapart

end Relate

end Morphir.Typing

/-!
## Assignability is reflexive

Every well-formed type has a derivation that it is assignable to itself: a
member of a union is found again among the members of the union.
-/

namespace Morphir.Typing

open IR List

variable {env : Env}

lemma exists_head_of_normalize (fuel : Nat) (t v : Ty) (h : normalize env noLinks fuel t = some v)
    : ∃ x as, Head env t x as := by
  induction fuel generalizing t v with
  | zero => simp [normalize] at h
  | succ fuel ih =>
    rw [normalize] at h
    induction t using Ty.inductionOn generalizing v with
    | attributed attrs body ihbody =>
      obtain ⟨x, as, hh⟩ := ihbody v h
      exact ⟨x, attrs :: as, .attributed hh⟩
    | con name args =>
      rw [normalizeWith] at h
      cases hexp : env.expand name args with
      | none => exact ⟨.con name args, [], .con hexp⟩
      | some expanded =>
        rw [hexp] at h
        obtain ⟨x, as, hh⟩ := ih expanded v h
        exact ⟨x, as, .expanding hexp hh⟩
    | _ => exact ⟨_, [], .other (by simp) (by simp)⟩

section Reflexivity

variable (henv : env.Acyclic)

include henv

lemma exists_head (t : Ty) : ∃ x as, Head env t x as := by
  obtain ⟨fuel, h⟩ := total_of_acyclic henv acyclic_noLinks t
  exact exists_head_of_normalize fuel t _ h

inductive Under (env : Env) (s : Ty) : Ty → Prop
  | self : Under env s s
  | member {t x : Ty} {xs : List Ty} {as : List TypeAttributes} (under : Under env s t)
      (head : Head env t (.union xs) as) (member : x ∈ xs) : Under env s (attributedAll x as)

section

variable (hwf : env.WellFormed)

include hwf

omit henv in
lemma Under.wellFormed {s t : Ty} (hs : s.WellFormed) (h : Under env s t) : t.WellFormed := by
  induction h with
  | self => exact hs
  | member _ head member ih =>
    obtain ⟨⟨-, hall⟩, has⟩ := head.wellFormed hwf ih
    exact wellFormed_attributedAll (Ty.wellFormedItems_iff.mp hall _ member) has

omit henv in
lemma Under.derives {s t leaf x : Ty} {as : List TypeAttributes} (hs : s.WellFormed)
    (h : Under env s t) (hlf : Head env leaf x as) (hx : ¬ IsUnion x) {n : Nat}
    (hder : Derives env n leaf t) : ∃ n, Derives env n leaf s := by
  induction h generalizing n with
  | self => exact ⟨n, hder⟩
  | member under head member ih =>
    obtain ⟨⟨htwo, -⟩, -⟩ := head.wellFormed hwf (under.wellFormed hwf hs)
    have hun : Derives env (n + 1) leaf _ := .unionRight hlf hx head htwo member hder
    exact ih hun

lemma Under.derives_self {s t : Ty} (hs : s.WellFormed) (h : Under env s t) :
    ∃ n, Derives env n t s := by
  induction hsz : sizeOf (meaning env noLinks t) using Nat.strong_induction_on
    generalizing t with
  | _ size ih =>
    obtain ⟨x, as, hh⟩ := exists_head henv t
    by_cases hx : IsUnion x
    · cases x with
      | union xs =>
        obtain ⟨⟨htwo, -⟩, -⟩ := hh.wellFormed hwf (h.wellFormed hwf hs)
        have hmembers : ∀ x ∈ xs, ∃ n, ∀ m, n ≤ m → Derives env m (attributedAll x as) s := by
          intro x hx
          have hlt : sizeOf (meaning env noLinks (attributedAll x as)) < size := by
            rw [← hsz, hh.meaning_eq henv, meaning_union henv acyclic_noLinks,
              meaning_attributedAll henv]
            have hmem := sizeOf_lt_of_mem (mem_map_of_mem (f := meaning env noLinks) hx)
            rw [Ty.union.sizeOf_spec]
            omega
          obtain ⟨n, hn⟩ := ih _ hlt (.member h hh hx) rfl
          exact ⟨n, fun m hm => hn.mono hm⟩
        obtain ⟨n, hn⟩ := exists_threshold hmembers
        exact ⟨n + 1, .unionLeft hh htwo fun x hx => hn x hx n (Nat.le_refl n)⟩
      | _ => exact hx.elim
    · have hsf : Derives env 1 t t :=
        .equal hh hh hx hx (.refl as) rfl
      exact h.derives hwf hs hh hx hsf

lemma derives_refl {t : Ty} (ht : t.WellFormed) :
    ∃ n, Derives env n t t := Under.derives_self henv hwf ht .self

end

end Reflexivity

end Morphir.Typing
