import Morphir.Typing.Verdicts

/-!
# Verdicts across bindings

What the relation answers in a state of a solver comes about by a proof or a refutation
by heads.  So a pair of types that was proven once is not refuted after more bindings,
and one that was refuted is not proven.
-/

namespace Morphir.Typing

open IR TypeRelation Relation List OrdMap

lemma distinct_mergeFields {fields more : List (String × Ty)} (h : Distinct fields)
    (hm : Distinct more) : Distinct (mergeFields fields more) := by
  unfold OrdMap.Distinct OrdMap.keys mergeFields
  rw [map_append, nodup_append']
  refine ⟨h, ?_, ?_⟩
  · exact hm.sublist (filter_sublist.map _)
  · intro name hname ho
    obtain ⟨e, he, rfl⟩ := mem_map.mp ho
    have hfr := (mem_filter.mp he).2
    rw [OrdMap.contains, OrdMap.get?_isSome_iff.mpr hname] at hfr
    cases hfr

def Solver.Distinct (s : Solver) : Prop := ∀ id t, s.links id = some t → t.Distinct

namespace Solver

variable {env : Env} {s s' : Solver} {t pruned : Ty}

variable {fields : List (String × Ty)}

lemma distinct_merge {more : List (String × Ty)} {tail rest : Option Ty}
    (h : Ty.Distinct (.record fields tail)) (hm : Ty.Distinct (.record more rest))
    (hr : ∀ t ∈ rest, t.Distinct) : Ty.Distinct (.record (mergeFields fields more) rest) := by
  cases h with
  | record keys items =>
    cases hm with
    | record keys' items' =>
      refine .record (distinct_mergeFields keys keys') ?_ hr
      intro e he
      rcases mem_append.mp he with he | he
      · exact items e he
      · exact items' e (mem_of_mem_filter he)

lemma distinct_row {tail : Ty} (h : Ty.Distinct (.record fields (some tail))) :
    (row fields tail).Distinct := by
  unfold row
  split
  next =>
    cases h with
    | record _ _ rest => exact rest tail rfl
  next => exact h

lemma Prunes.distinct (hs : s.Distinct) (h : s.Prunes t pruned) (ht : t.Distinct) :
    pruned.Distinct := by
  have htl {fields : List (String × Ty)} {tail : Ty}
      (h : Ty.Distinct (.record fields (some tail))) : tail.Distinct := by
    cases h with
    | record _ _ rest => exact rest tail rfl
  induction h with
  | link hlk _ ih => exact ih (hs _ _ hlk)
  | unbound => exact ht
  | «open» _ ih =>
    have hfd := ih (htl ht)
    apply distinct_row
    apply distinct_merge ht hfd
    intro t hr
    cases hr
    exact htl hfd
  | closed _ ih => exact distinct_merge ht (ih (htl ht)) (by simp)
  | tail _ _ ih =>
    apply distinct_row
    cases ht with
    | record keys items rest =>
      refine .record keys items ?_
      intro t hr
      cases hr
      exact ih (rest _ rfl)
  | final => exact ht

lemma Write.distinct (h : Write s s') (hs : s.Distinct) : s'.Distinct := by
  intro id t hlk
  rcases h.links_cases with hsm | ⟨j, u, -, hu, hlks⟩ | ⟨j, u, short, hlk', hsh, hlks⟩
  · rw [hsm] at hlk
    exact hs id t hlk
  · rw [hlks] at hlk
    split at hlk
    next =>
      cases hlk
      exact hu
    next => exact hs id t hlk
  · rw [hlks] at hlk
    split at hlk
    next =>
      cases hlk
      exact hsh.distinct hs (hs j u hlk')
    next => exact hs id t hlk

lemma Later.distinct (h : Later s s') (hs : s.Distinct) : s'.Distinct := by
  induction h with
  | refl => exact hs
  | tail _ hwr ih => exact hwr.distinct ih

lemma distinct_new (env : Env) : (new env).Distinct := by
  intro id t h
  cases h

lemma distinct_peek (hs : s.Distinct) (ht : t.Distinct) : (s.peek t).Distinct := by
  unfold peek
  generalize s.metas.length = fuel
  induction fuel generalizing t with
  | zero =>
    rw [peekFrom]
    · exact ht
    · simp
  | succ fuel ih =>
    by_cases hvar : ∃ id, t = .mvar id
    · obtain ⟨id, rfl⟩ := hvar
      rw [peekFrom]
      cases hlk : s.links id with
      | none => exact ht
      | some target => exact ih (hs id target hlk)
    · rw [peekFrom]
      · exact ht
      · rintro _ id - rfl
        exact hvar ⟨id, rfl⟩

lemma headBy_of_relationHead (level : Nat) (t : Ty) (budget : Int) (x : Ty)
    (as : List TypeAttributes) (h : (s.relationHead level t budget).1 = some (x, as)) :
    HeadBy s.env (Peeks s) t x as := by
  induction level generalizing t budget x as with
  | zero => cases h
  | succ level ih =>
    unfold relationHead at h
    split at h
    next => cases h
    next =>
      dsimp only at h
      split at h
      next attrs inner hpk =>
        split at h
        next body rest left hin =>
          cases h
          have hpeeks : Peeks s t (.attributed attrs inner) := hpk
          apply HeadBy.attributed hpeeks
          apply ih inner
          rw [hin]
        next => cases h
      next name args hpk =>
        split at h
        next inner hexp =>
          have hpeeks : Peeks s t (.con name args) := hpk
          exact .expanding hpeeks hexp (ih inner _ _ _ h)
        next hexp =>
          cases h
          have hpeeks : Peeks s t (.con name args) := hpk
          exact .con hpeeks hexp
      next hatt hcon =>
        cases h
        exact .other rfl hatt hcon

end Solver

lemma HeadBy.distinct {env : Env} (henv : env.Distinct) {s : Solver} (hs : s.Distinct) {t x : Ty}
    {as : List TypeAttributes} (h : HeadBy env (Peeks s) t x as) (ht : t.Distinct) :
    x.Distinct ∧ ∀ a ∈ as, a.Distinct := by
  have hfd {t r : Ty} (ht : t.Distinct) (h : Peeks s t r) : r.Distinct := by
    rw [← h]
    exact Solver.distinct_peek hs ht
  induction h with
  | attributed found _ ih =>
    cases hfd ht found with
    | attributed entries inner =>
      obtain ⟨hx, has⟩ := ih inner
      exact ⟨hx, forall_mem_cons.mpr ⟨entries, has⟩⟩
  | expanding found expand _ ih =>
    cases hfd ht found with
    | con items => exact ih (distinct_expand henv items expand)
  | con found | other found => exact ⟨hfd ht found, by simp⟩

lemma distinct_attributedAll {t : Ty} (ht : t.Distinct) {as : List TypeAttributes}
    (has : ∀ a ∈ as, a.Distinct) : (attributedAll t as).Distinct := by
  induction as generalizing t with
  | nil => exact ht
  | cons a as ih =>
    obtain ⟨ha, has⟩ := forall_mem_cons.mp has
    have hs := Ty.Distinct.attributed ha ht
    exact ih hs has

/-- A verdict on two types comes from a proof by `P` or from a refutation by `R`. -/
structure Warrants (P R : Ty → Ty → Prop) (a b : Ty) (r : TypeRelation) : Prop where
  proven : r = proven → P a b
  refuted : r = refuted → R a b

lemma warrants_unknown (P R : Ty → Ty → Prop) (a b : Ty) (reason : RelationReason) :
    Warrants P R a b (.unknown reason) := ⟨nofun, nofun⟩

def Warranted (P R : Ty → Ty → Prop) (relate : Relation) : Prop :=
  ∀ a b r, a.Distinct → b.Distinct → ResultOf relate (a, b) r → Warrants P R a b r

section Comparisons

variable {relate : Relation} {P R : Ty → Ty → Prop} (hrelate : Warranted P R relate)

include hrelate

variable {pairs : List (Ty × Ty)}

section

variable (hps : ∀ e ∈ pairs, e.1.Distinct ∧ e.2.Distinct)

include hps

lemma warrants_each (budget : Int) :
    List.Forall₂ (fun e r => Warrants P R e.1 e.2 r) pairs
      (relateEach relate pairs budget).1 := by
  apply (relateEach_results relate pairs budget).imp_left
  intro e he r hr
  obtain ⟨ha, hb⟩ := hps e he
  exact hrelate e.1 e.2 r ha hb hr

lemma warrants_allOf (budget : Int) :
    (allOf (relateEach relate pairs budget).1 = proven → ∀ e ∈ pairs, P e.1 e.2) ∧
      (allOf (relateEach relate pairs budget).1 = refuted → ∃ e ∈ pairs, R e.1 e.2) := by
  have hresults := warrants_each hrelate hps budget
  constructor
  · intro h e he
    obtain ⟨r, hr, hwarrants⟩ := hresults.exists_right e he
    exact hwarrants.proven (allOf_eq_proven.mp h r hr)
  · intro h
    obtain ⟨e, he, hwarrants⟩ := hresults.exists_left _ (mem_of_allOf_eq_refuted h)
    exact ⟨e, he, hwarrants.refuted rfl⟩

lemma warrants_anyOf (budget : Int) :
    (anyOf (relateEach relate pairs budget).1 = proven → ∃ e ∈ pairs, P e.1 e.2) ∧
      (anyOf (relateEach relate pairs budget).1 = refuted → ∀ e ∈ pairs, R e.1 e.2) := by
  have hresults := warrants_each hrelate hps budget
  constructor
  · intro h
    obtain ⟨e, he, hwarrants⟩ := hresults.exists_left _ (mem_of_anyOf_eq_proven h)
    exact ⟨e, he, hwarrants.proven rfl⟩
  · intro h e he
    obtain ⟨r, hr, hwarrants⟩ := hresults.exists_right e he
    exact hwarrants.refuted (anyOf_eq_refuted.mp h r hr)

end

variable {budget : Int}

lemma warrants_con {name : String} {xs ys : List Ty} (hxs : ∀ x ∈ xs, x.Distinct)
    (hys : ∀ y ∈ ys, y.Distinct) (hlen : xs.length = ys.length) :
    Warrants (Matches P) (Clash R) (.con name xs) (.con name ys)
      (allOf (relateArgs relate (xs.zip ys) budget).1) := by
  have hresults := relateArgs_results relate (xs.zip ys) budget
  have hmem : ∀ e ∈ xs.zip ys, e.1.Distinct ∧ e.2.Distinct := fun e he =>
    ⟨hxs _ (of_mem_zip he).1, hys _ (of_mem_zip he).2⟩
  constructor
  · intro h
    apply Matches.con hlen
    intro e he
    obtain ⟨ha, hb⟩ := hmem e he
    obtain ⟨r, hr, r₁, r₂, hr₁, hr₂, heq⟩ := hresults.exists_right e he
    have hproven := allOf_eq_proven.mp h r hr
    rw [heq, allOf_eq_proven] at hproven
    constructor
    · exact (hrelate e.1 e.2 r₁ ha hb hr₁).proven (hproven r₁ (by simp))
    · exact (hrelate e.2 e.1 r₂ hb ha hr₂).proven (hproven r₂ (by simp))
  · intro h
    obtain ⟨e, he, r₁, r₂, hr₁, hr₂, heq⟩ := hresults.exists_left _ (mem_of_allOf_eq_refuted h)
    obtain ⟨ha, hb⟩ := hmem e he
    apply Clash.con hlen he
    rcases mem_cons.mp (mem_of_allOf_eq_refuted heq.symm) with h₁ | h₂
    · exact Or.inl ((hrelate e.1 e.2 r₁ ha hb hr₁).refuted h₁.symm)
    · have h₂' := mem_singleton.mp h₂
      exact Or.inr ((hrelate e.2 e.1 r₂ hb ha hr₂).refuted h₂'.symm)

lemma warrants_tup {xs ys : List Ty} (hxs : ∀ x ∈ xs, x.Distinct) (hys : ∀ y ∈ ys, y.Distinct)
    (hlen : xs.length = ys.length) :
    Warrants (Matches P) (Clash R) (.tup xs) (.tup ys)
      (allOf (relateEach relate (xs.zip ys) budget).1) := by
  have hmem : ∀ e ∈ xs.zip ys, e.1.Distinct ∧ e.2.Distinct := fun e he =>
    ⟨hxs _ (of_mem_zip he).1, hys _ (of_mem_zip he).2⟩
  obtain ⟨hproven, hrefuted⟩ := warrants_allOf hrelate hmem budget
  constructor
  · intro h
    exact .tup hlen (hproven h)
  · intro h
    obtain ⟨e, he, hdiffer⟩ := hrefuted h
    exact .tup hlen he hdiffer

lemma warrants_fn {a b c d : Ty} (ha : a.Distinct) (hb : b.Distinct) (hc : c.Distinct)
    (hd : d.Distinct) :
    Warrants (Matches P) (Clash R) (.fn a b) (.fn c d)
      (allOf (relateEach relate [(c, a), (b, d)] budget).1) := by
  have hmem : ∀ e ∈ [(c, a), (b, d)], e.1.Distinct ∧ e.2.Distinct := by simp [ha, hb, hc, hd]
  obtain ⟨hproven, hrefuted⟩ := warrants_allOf hrelate hmem budget
  constructor
  · intro h
    exact .fn (hproven h (c, a) (by simp)) (hproven h (b, d) (by simp))
  · intro h
    obtain ⟨e, he, hdiffer⟩ := hrefuted h
    rcases mem_cons.mp he with rfl | he
    · exact .fn (Or.inl hdiffer)
    · rw [mem_singleton] at he
      subst he
      exact .fn (Or.inr hdiffer)

lemma warrants_record {xs ys : List (String × Ty)} {results : List TypeRelation}
    (hxs : ∀ e ∈ xs, e.2.Distinct) (hys : ∀ e ∈ ys, e.2.Distinct) (hlen : xs.length = ys.length)
    (hfields : (relateFields relate ys xs budget).1 = some results) :
    Warrants (Matches P) (Clash R) (.record xs none) (.record ys none) (allOf results) := by
  have hresults := relateFields_results relate xs ys budget results hfields
  constructor
  · intro h
    apply Matches.record hlen
    intro e he
    obtain ⟨r, hr, y, hy, hres⟩ := hresults.exists_right e he
    have hwarrants := hrelate e.2 y r (hxs e he) (hys _ (mem_of_get? hy)) hres
    exact ⟨y, hy, hwarrants.proven (allOf_eq_proven.mp h r hr)⟩
  · intro h
    obtain ⟨e, he, y, hy, hres⟩ := hresults.exists_left _ (mem_of_allOf_eq_refuted h)
    have hwarrants := hrelate e.2 y _ (hxs e he) (hys _ (mem_of_get? hy)) hres
    exact .field he hy (hwarrants.refuted rfl)

lemma warrants_relateHeads {x y : Ty} (hx : x.Distinct) (hy : y.Distinct) (budget : Int) :
    Warrants (Matches P) (Clash R) x y (relateHeads relate x y budget).1 := by
  have hunknown : ∀ reason, Warrants (Matches P) (Clash R) x y (.unknown reason) :=
    warrants_unknown _ _ x y
  have hapart : Final x → Final y → ¬SameShape x y → Warrants (Matches P) (Clash R) x y .refuted :=
    fun hx hy h => ⟨nofun, fun _ => .apart hx hy h⟩
  unfold relateHeads
  split
  case h_7 n xs m ys =>
    cases hx with
    | con hxs =>
      cases hy with
      | con hys =>
        split
        next hsm =>
          obtain ⟨rfl, hlen⟩ := hsm
          exact warrants_con hrelate hxs hys hlen
        next hdiffer =>
          exact hapart ⟨fun _ => nofun, fun _ _ => nofun⟩ ⟨fun _ => nofun, fun _ _ => nofun⟩ hdiffer
  case h_8 xs ys =>
    cases hx with
    | tup hxs =>
      cases hy with
      | tup hys =>
        split
        next hlen => exact warrants_tup hrelate hxs hys hlen
        next hdiffer =>
          exact hapart ⟨fun _ => nofun, fun _ _ => nofun⟩ ⟨fun _ => nofun, fun _ _ => nofun⟩ hdiffer
  case h_9 xs ys =>
    cases hx with
    | record _ hxs =>
      cases hy with
      | record _ hys =>
        split
        next hlen =>
          split
          next results left hfields =>
            apply warrants_record hrelate hxs hys hlen
            rw [hfields]
          next left hfields =>
            obtain ⟨name, hname, hmissing⟩ :=
              relateFields_missing relate xs ys budget (by rw [hfields])
            obtain ⟨e, he, rfl⟩ := mem_map.mp hname
            exact ⟨nofun, fun _ => .missing he (get?_eq_none_iff.mpr hmissing)⟩
        next hdiffer => exact hapart (final_of_closed xs) (final_of_closed ys) hdiffer
  case h_12 a b c d =>
    cases hx with
    | fn ha hb =>
      cases hy with
      | fn hc hd => exact warrants_fn hrelate ha hb hc hd
  case h_13 hxm hxg hxr hxo hym hyg hyr hyo hcon htup hrecord hfn =>
    apply hapart
    · exact ⟨hxm, hxo⟩
    · exact ⟨hym, hyo⟩
    · intro hsh
      unfold SameShape at hsh
      split at hsh
      · exact hcon _ _ _ _ rfl rfl
      · exact htup _ _ rfl rfl
      · exact hrecord _ _ rfl rfl
      · exact hfn _ _ _ _ rfl rfl
      · exact hsh
  all_goals exact hunknown _

lemma warrants_relateFound {env : Env} {F : Ty → Ty → Prop} {a b x y : Ty}
    {as bs : List TypeAttributes} (ha : a.Distinct) (hb : b.Distinct) (hlt : HeadBy env F a x as)
    (hx : x.Distinct) (has : ∀ attrs ∈ as, attrs.Distinct) (hright : HeadBy env F b y bs)
    (hy : y.Distinct) (hbs : ∀ attrs ∈ bs, attrs.Distinct) (budget : Int) :
    Warrants (Confirms env F P) (Denies env F R) a b
      (relateFound relate a b x as y bs budget).1 := by
  unfold relateFound
  split
  next xs =>
    split
    next => exact warrants_unknown _ _ a b _
    next =>
      cases hx with
      | union hxs =>
        have hmem : ∀ e ∈ xs.map fun x => (attributedAll x as, b), e.1.Distinct ∧ e.2.Distinct := by
          intro e he
          obtain ⟨x, hx, rfl⟩ := mem_map.mp he
          exact ⟨distinct_attributedAll (hxs x hx) has, hb⟩
        obtain ⟨hproven, hrefuted⟩ := warrants_allOf hrelate hmem budget
        constructor
        · intro h
          apply Confirms.unionLeft hlt
          intro x hx
          exact hproven h _ (mem_map.mpr ⟨x, hx, rfl⟩)
        · intro h
          obtain ⟨e, he, hdiffer⟩ := hrefuted h
          obtain ⟨x, hx, rfl⟩ := mem_map.mp he
          exact .unionLeft hlt hx hdiffer
  next ys hlf =>
    have hx : ¬IsUnion x := by
      intro hun
      cases x <;> first | exact hun | exact hlf _ rfl
    split
    next => exact warrants_unknown _ _ a b _
    next hmembers =>
      cases hy with
      | union hys =>
        have hmem : ∀ e ∈ ys.map fun y => (a, attributedAll y bs), e.1.Distinct ∧ e.2.Distinct := by
          intro e he
          obtain ⟨y, hy, rfl⟩ := mem_map.mp he
          exact ⟨ha, distinct_attributedAll (hys y hy) hbs⟩
        obtain ⟨hproven, hrefuted⟩ := warrants_anyOf hrelate hmem budget
        constructor
        · intro h
          obtain ⟨e, he, hbe⟩ := hproven h
          obtain ⟨y, hy, rfl⟩ := mem_map.mp he
          exact .unionRight hright hy hbe
        · intro h
          have hnonempty : ys ≠ [] := by
            rintro rfl
            exact hmembers Nat.zero_lt_two
          apply Denies.unionRight hlt hx hright hnonempty
          intro y hy
          exact hrefuted h _ (mem_map.mpr ⟨y, hy, rfl⟩)
  next hlf hlf' =>
    have hxu : ¬IsUnion x := by
      intro hun
      cases x <;> first | exact hun | exact hlf _ rfl
    have hyu : ¬IsUnion y := by
      intro hun
      cases y <;> first | exact hun | exact hlf' _ rfl
    rcases attributesEntail_cases as bs with hats | ⟨reason, hats⟩
    · rw [if_neg (fun h => h hats)]
      have hbeq := Ty.beq_iff_of_distinct hx hy
      split
      next heq =>
        refine ⟨fun _ => ?_, nofun⟩
        exact .equal hlt hright ((attributesEntail_iff has hbs).mp hats)
          (hbeq.mp heq)
      next hne =>
        obtain ⟨hproven, hrefuted⟩ := warrants_relateHeads hrelate hx hy budget
        constructor
        · intro h
          exact .heads hlt hright (hproven h)
        · intro h
          exact .heads hlt hright hxu hyu (fun heq => hne (hbeq.mpr heq)) (hrefuted h)
    · rw [hats]
      exact warrants_unknown _ _ a b reason

end Comparisons

namespace Solver

variable {env : Env} {s s' : Solver}

lemma warranted_relate (henv : s.env.Distinct) (hs : s.Distinct) (level : Nat) :
    Warranted (Confirmed s.env (Peeks s) level) (Denied s.env (Peeks s) level)
      (s.relate level) := by
  induction level with
  | zero =>
    rintro a b r - - ⟨budget, rfl⟩
    exact warrants_unknown _ _ a b _
  | succ level ih =>
    rintro a b r ha hb ⟨budget, rfl⟩
    unfold Solver.relate
    split
    next => exact warrants_unknown _ _ a b _
    next =>
      split
      next => exact warrants_unknown _ _ a b _
      next x as left hx =>
        split
        next => exact warrants_unknown _ _ a b _
        next y bs last hy =>
          have hlt : HeadBy s.env (Peeks s) a x as := by
            apply headBy_of_relationHead (level + 1) a (budget - 1)
            rw [hx]
          have hrt : HeadBy s.env (Peeks s) b y bs := by
            apply headBy_of_relationHead (level + 1) b left
            rw [hy]
          obtain ⟨hxd, has⟩ := hlt.distinct henv hs ha
          obtain ⟨hyd, hbs⟩ := hrt.distinct henv hs hb
          exact warrants_relateFound ih ha hb hlt hxd has hrt hyd hbs last

/-- A proven pair of types is not refuted after more bindings, and a refuted one is not
proven, whatever the limits of the two comparisons. -/
theorem relate_stable (henv : env.Distinct) (hs : Reachable env s) (hlat : s.Later s')
    {a b : Ty} (ha : a.Distinct) (hb : b.Distinct) (level level' : Nat) (budget budget' : Int) :
    ((s.relate level a b budget).1 = proven → (s'.relate level' a b budget').1 ≠ refuted) ∧
      ((s.relate level a b budget).1 = refuted → (s'.relate level' a b budget').1 ≠ proven) := by
  have hsenv : s.env = env := hs.env
  have hlaterEnv : s'.env = env := hlat.env.trans hsenv
  have hdi := Later.distinct hs (distinct_new env)
  have hnow := warranted_relate (hsenv ▸ henv) hdi level a b _ ha hb ⟨budget, rfl⟩
  have hthen := warranted_relate (hlaterEnv ▸ henv) (hlat.distinct hdi) level' a b _ ha hb
    ⟨budget', rfl⟩
  rw [hsenv] at hnow
  rw [hlaterEnv] at hthen
  constructor
  · intro hpro href
    have hden := (hthen.refuted href).later (ReflTransGen.refl : s'.Later s')
    exact (hnow.proven hpro).not_denied hlat level' hden
  · intro href hpro
    have hden := (hnow.refuted href).later hlat
    exact (hthen.proven hpro).not_denied .refl level hden

theorem relate_stable_pair :
    (Solver.relate ⟨[.link .unit], Env.new⟩ 2 (.tup [.mvar 0, .mvar 0]) (.tup [.mvar 0, .mvar 0])
      9).1 ≠ refuted := by
  have henv : Env.new.Distinct := by
    intro name params body h
    cases h
  have hs : Reachable Env.new ⟨[.unbound 0 []], Env.new⟩ := .single (.fresh 0 [])
  have hlat : Later ⟨[.unbound 0 []], Env.new⟩ ⟨[.link .unit], Env.new⟩ :=
    .single (@Write.bind _ 0 0 [] _ rfl .unit)
  have hpr : Ty.Distinct (.tup [.mvar 0, .mvar 0]) := .tup (by simp [Ty.Distinct.mvar])
  exact (relate_stable henv hs hlat hpr hpr 2 2 9 9).1 rfl

end Solver

end Morphir.Typing
