import Morphir.Typing.RelationSoundness

/-!
# Limits of a comparison

A comparison that ends with a proof has a derivation, and a comparison whose
limits are large enough finds the derivation that there is.
-/

namespace Morphir.Typing

open IR TypeRelation Filter List OrdMap Solver

variable {env : Env}

variable {relate : Relation} {x y : Ty}

variable {R : Ty → Ty → Prop}

lemma related_of_relateHeads
    (hR : ∀ s t, s.WellFormed → t.WellFormed → ResultOf relate (s, t) proven → R s t) {budget : Int}
    (hx : x.WellFormed) (hy : y.WellFormed) (h : (relateHeads relate x y budget).1 = proven) :
    Related R x y := by
  unfold relateHeads at h
  split at h
  case h_7 n xs m ys =>
    split at h
    · rename_i hsm
      obtain ⟨rfl, hlen⟩ := hsm
      have hxs := Ty.wellFormedItems_iff.mp hx
      have hys := Ty.wellFormedItems_iff.mp hy
      have hress := relateArgs_results relate (xs.zip ys) budget
      have hb : ∀ e ∈ xs.zip ys, R e.1 e.2 ∧ R e.2 e.1 := by
        intro e he
        obtain ⟨r, hr, r₁, r₂, hr₁, hr₂, rfl⟩ := hress.exists_right e he
        have hall := allOf_eq_proven.mp (allOf_eq_proven.mp h _ hr)
        rw [hall r₁ (by simp)] at hr₁
        rw [hall r₂ (by simp)] at hr₂
        have hmem := of_mem_zip he
        exact ⟨hR _ _ (hxs _ hmem.1) (hys _ hmem.2) hr₁, hR _ _ (hys _ hmem.2) (hxs _ hmem.1) hr₂⟩
      exact .con hlen (fun e he => (hb e he).1) fun e he => (hb e he).2
    · simp at h
  case h_8 xs ys =>
    split at h
    · rename_i hlen
      have hress := relateEach_results relate (xs.zip ys) budget
      refine .tup hlen fun e he => ?_
      obtain ⟨r, hr, hres⟩ := hress.exists_right e he
      rw [allOf_eq_proven.mp h r hr] at hres
      have hmem := of_mem_zip he
      exact hR _ _ (Ty.wellFormedItems_iff.mp hx _ hmem.1) (Ty.wellFormedItems_iff.mp hy _ hmem.2)
        hres
    · simp at h
  case h_9 xs ys =>
    split at h
    · rename_i hlen
      obtain ⟨hxdi, hxfi, -⟩ := hx
      obtain ⟨-, hyfi, -⟩ := hy
      split at h
      · rename_i results _ hfs
        have hress := relateFields_results relate xs ys budget results (by rw [hfs])
        have hsub : ∀ name ∈ OrdMap.keys xs, name ∈ OrdMap.keys ys := by
          intro name hname
          obtain ⟨e, he, rfl⟩ := mem_map.mp hname
          obtain ⟨r, -, y, hy, -⟩ := hress.exists_right e he
          exact get?_isSome_iff.mp (by simp [hy])
        refine .record (hxdi.keys_iff hlen hsub) ?_
        intro name x y hx hy
        have hmem := mem_of_get? hx
        obtain ⟨r, hr, z, hz, hres⟩ := hress.exists_right _ hmem
        rw [hy] at hz
        cases hz
        rw [allOf_eq_proven.mp h r hr] at hres
        exact hR _ _ (Ty.wellFormedFields_iff.mp hxfi _ hmem)
          (Ty.wellFormedFields_iff.mp hyfi _ (mem_of_get? hy)) hres
      · simp at h
    · simp at h
  case h_12 a b c d =>
    have hress := relateEach_results relate [(c, a), (b, d)] budget
    have hall := allOf_eq_proven.mp h
    obtain ⟨r₁, hr₁, hin⟩ := hress.exists_right (c, a) (by simp)
    obtain ⟨r₂, hr₂, hout⟩ := hress.exists_right (b, d) (by simp)
    rw [hall r₁ hr₁] at hin
    rw [hall r₂ hr₂] at hout
    exact .fn (hR _ _ hy.1 hx.1 hin) (hR _ _ hx.2 hy.2 hout)
  all_goals simp at h

lemma derives_of_relate (hwf : env.WellFormed) (level : Nat) (s t : Ty) (hs : s.WellFormed)
    (ht : t.WellFormed) (budget : Int)
    (h : ((new env).relate level s t budget).1 = proven) : Derives env level s t := by
  induction level generalizing s t budget with
  | zero => simp [relate] at h
  | succ level ih =>
    have hout := outcome_relate env level s t budget
    rw [h] at hout
    have hR : ∀ s t, s.WellFormed → t.WellFormed →
        ResultOf ((new env).relate level) (s, t) proven → Derives env level s t := by
      rintro s t hs ht ⟨b, hb⟩
      exact ih s t hs ht b hb
    generalize hr : TypeRelation.proven = r at hout
    cases hout with
    | unknown => cases hr
    | @unionLeft xs as b head two =>
      obtain ⟨⟨-, hall⟩, has⟩ := head.wellFormed hwf hs
      refine .unionLeft head two fun x hx => ?_
      have hress := relateEach_results ((new env).relate level)
        (xs.map fun x => (attributedAll x as, t)) b
      obtain ⟨r, hr', hres⟩ := hress.exists_right _ (mem_map.mpr ⟨x, hx, rfl⟩)
      rw [allOf_eq_proven.mp hr.symm r hr'] at hres
      exact hR _ _ (wellFormed_attributedAll (Ty.wellFormedItems_iff.mp hall x hx) has) ht hres
    | @unionRight x ys as bs b left leaf right two =>
      obtain ⟨⟨-, hall⟩, hbs⟩ := right.wellFormed hwf ht
      have hress := relateEach_results ((new env).relate level)
        (ys.map fun y => (s, attributedAll y bs)) b
      obtain ⟨p, hp, hres⟩ := hress.exists_left _ (mem_of_anyOf_eq_proven hr.symm)
      obtain ⟨y, hy, rfl⟩ := mem_map.mp hp
      exact .unionRight left leaf right two hy
        (hR _ _ hs (wellFormed_attributedAll (Ty.wellFormedItems_iff.mp hall y hy) hbs) hres)
    | equal left right leaf leaf' entail eq =>
      obtain ⟨hx, has⟩ := left.wellFormed hwf hs
      obtain ⟨hy, hbs⟩ := right.wellFormed hwf ht
      exact .equal left right leaf leaf' ((attributesEntail_iff has hbs).mp entail)
        ((Ty.beq_iff hx hy).mp eq)
    | heads left right leaf leaf' entail ne =>
      obtain ⟨hx, has⟩ := left.wellFormed hwf hs
      obtain ⟨hy, hbs⟩ := right.wellFormed hwf ht
      exact .heads left right ((attributesEntail_iff has hbs).mp entail)
        (related_of_relateHeads hR hx hy hr.symm)

/-- However much is left when a comparison ends, more is left of a larger budget. -/
def Frugal (relate : Relation) : Prop :=
  ∀ s t, Tendsto (fun budget => (relate s t budget).2) atTop atTop

def Settles (relate : Relation) (s t : Ty) : Prop :=
  ∀ᶠ budget in atTop, (relate s t budget).1 = proven

lemma tendsto_sub_one : Tendsto (fun budget : Int => budget - 1) atTop atTop :=
  tendsto_atTop_add_const_right atTop (-1) tendsto_id

section Lists

variable {relate : Relation} (hfrugal : Frugal relate)

include hfrugal

lemma tendsto_relateEach (pairs : List (Ty × Ty)) :
    Tendsto (fun budget => (relateEach relate pairs budget).2) atTop atTop := by
  induction pairs with
  | nil => exact tendsto_id
  | cons e pairs ih => exact ih.comp (hfrugal e.1 e.2)

lemma tendsto_relateArgs (pairs : List (Ty × Ty)) :
    Tendsto (fun budget => (relateArgs relate pairs budget).2) atTop atTop := by
  induction pairs with
  | nil => exact tendsto_id
  | cons e pairs ih => exact ih.comp (tendsto_relateEach hfrugal [(e.1, e.2), (e.2, e.1)])

lemma tendsto_relateFields (ys xs : List (String × Ty)) :
    Tendsto (fun budget => (relateFields relate ys xs budget).2) atTop atTop := by
  induction xs with
  | nil => exact tendsto_id
  | cons e xs ih =>
    obtain ⟨name, x⟩ := e
    simp only [relateFields]
    cases get? ys name with
    | none => exact tendsto_id
    | some y =>
      refine (ih.comp (hfrugal x y)).congr fun budget => ?_
      simp only [Function.comp_apply]
      split <;> rename_i h <;> rw [h]

variable {pairs : List (Ty × Ty)}

lemma eventually_mem_relateEach {e : Ty × Ty} (he : e ∈ pairs) (h : Settles relate e.1 e.2) :
    ∀ᶠ budget in atTop, proven ∈ (relateEach relate pairs budget).1 := by
  induction pairs with
  | nil => simp at he
  | cons f pairs ih =>
    rcases mem_cons.mp he with rfl | he
    · filter_upwards [h] with budget hb
      simp [relateEach, hb]
    · filter_upwards [(hfrugal f.1 f.2).eventually (ih he)] with budget hb
      exact mem_cons_of_mem _ hb

lemma eventually_relateEach (h : ∀ e ∈ pairs, Settles relate e.1 e.2) :
    ∀ᶠ budget in atTop, allOf (relateEach relate pairs budget).1 = proven := by
  induction pairs with
  | nil => exact .of_forall fun _ => rfl
  | cons e pairs ih =>
    obtain ⟨he, hps⟩ := forall_mem_cons.mp h
    filter_upwards [he, (hfrugal e.1 e.2).eventually (ih hps)] with budget hb hr
    rw [allOf_eq_proven] at hr ⊢
    exact forall_mem_cons.mpr ⟨hb, hr⟩

lemma eventually_relateArgs (h : ∀ e ∈ pairs, Settles relate e.1 e.2 ∧ Settles relate e.2 e.1) :
    ∀ᶠ budget in atTop, allOf (relateArgs relate pairs budget).1 = proven := by
  induction pairs with
  | nil => exact .of_forall fun _ => rfl
  | cons e pairs ih =>
    obtain ⟨he, hps⟩ := forall_mem_cons.mp h
    have hboth : ∀ᶠ budget in atTop,
        allOf (relateEach relate [(e.1, e.2), (e.2, e.1)] budget).1 = proven :=
      eventually_relateEach hfrugal (by simpa using he)
    have htendsto := tendsto_relateEach hfrugal [(e.1, e.2), (e.2, e.1)]
    filter_upwards [hboth, htendsto.eventually (ih hps)] with budget hb hr
    rw [allOf_eq_proven] at hr ⊢
    exact forall_mem_cons.mpr ⟨hb, hr⟩

lemma eventually_relateFields {ys xs : List (String × Ty)}
    (h : ∀ e ∈ xs, ∃ y, get? ys e.1 = some y ∧ Settles relate e.2 y) :
    ∀ᶠ budget in atTop, ∃ results, (relateFields relate ys xs budget).1 = some results ∧
      allOf results = proven := by
  induction xs with
  | nil => exact .of_forall fun _ => ⟨[], rfl, rfl⟩
  | cons e xs ih =>
    obtain ⟨name, x⟩ := e
    obtain ⟨⟨y, hy, hsettles⟩, hxs⟩ := forall_mem_cons.mp h
    filter_upwards [hsettles, (hfrugal x y).eventually (ih hxs)] with budget hb hr
    obtain ⟨results, hresults, hall⟩ := hr
    refine ⟨proven :: results, ?_, ?_⟩
    · simp only [relateFields, hy, hb]
      split
      · rename_i rest _ heq
        rw [heq] at hresults
        rw [Option.some.inj hresults]
      · rename_i heq
        rw [heq] at hresults
        simp at hresults
    · rw [allOf_eq_proven] at hall ⊢
      exact forall_mem_cons.mpr ⟨rfl, hall⟩

lemma tendsto_relateHeads (x y : Ty) :
    Tendsto (fun budget => (relateHeads relate x y budget).2) atTop atTop := by
  unfold relateHeads
  split
  case h_7 =>
    split
    · exact tendsto_relateArgs hfrugal _
    · exact tendsto_id
  case h_8 =>
    split
    · exact tendsto_relateEach hfrugal _
    · exact tendsto_id
  case h_9 xs ys =>
    split
    · refine (tendsto_relateFields hfrugal ys xs).congr fun budget => ?_
      split <;> rename_i h <;> rw [h]
    · exact tendsto_id
  case h_12 => exact tendsto_relateEach hfrugal _
  all_goals exact tendsto_id

lemma tendsto_relateFound (source target x y : Ty) (as bs : List TypeAttributes) :
    Tendsto (fun budget => (relateFound relate source target x as y bs budget).2) atTop atTop := by
  unfold relateFound
  split
  · split
    · exact tendsto_id
    · exact tendsto_relateEach hfrugal _
  · split
    · exact tendsto_id
    · exact tendsto_relateEach hfrugal _
  · simp only
    split
    · exact tendsto_id
    split
    · exact tendsto_id
    · exact tendsto_relateHeads hfrugal _ _

end Lists

section Steps

variable {level : Nat} {budget : Int} (hbudget : 0 < budget)

include hbudget

lemma relationHead_attributed (attrs : TypeAttributes) (t : Ty) :
    (new env).relationHead (level + 1) (.attributed attrs t) budget =
      (((new env).relationHead level t (budget - 1)).1.map
          fun found => (found.1, attrs :: found.2),
        ((new env).relationHead level t (budget - 1)).2) := by
  simp only [relationHead, Int.not_le.mpr hbudget, if_false, peek_new]
  split <;> rename_i h <;> rw [h] <;> rfl

lemma relationHead_expanding {name : String} {args : List Ty} {t : Ty}
    (h : env.expand name args = some t) :
    (new env).relationHead (level + 1) (.con name args) budget =
      (new env).relationHead level t (budget - 1) := by
  have hexpand : (new env).expand name args = some t := h
  simp only [relationHead, Int.not_le.mpr hbudget, if_false, peek_new, hexpand]

lemma relationHead_con {name : String} {args : List Ty} (h : env.expand name args = none) :
    (new env).relationHead (level + 1) (.con name args) budget =
      (some (.con name args, []), budget - 1) := by
  have hexpand : (new env).expand name args = none := h
  simp only [relationHead, Int.not_le.mpr hbudget, if_false, peek_new, hexpand]

lemma relationHead_other {t : Ty} (hattributed : ∀ attrs s, t ≠ .attributed attrs s)
    (hcon : ∀ name args, t ≠ .con name args) :
    (new env).relationHead (level + 1) t budget = (some (t, []), budget - 1) := by
  cases t with
  | attributed attrs s => exact absurd rfl (hattributed attrs s)
  | con name args => exact absurd rfl (hcon name args)
  | _ => simp only [relationHead, Int.not_le.mpr hbudget, if_false, peek_new]

end Steps

lemma exists_relationHead (env : Env) (level : Nat) (t : Ty) :
    Tendsto (fun budget => ((new env).relationHead level t budget).2) atTop atTop ∧
      ∃ r, ∀ᶠ budget in atTop, ((new env).relationHead level t budget).1 = r := by
  have hpos : ∀ᶠ budget : Int in atTop, 0 < budget := eventually_gt_atTop 0
  induction level generalizing t with
  | zero => exact ⟨tendsto_id, none, .of_forall fun _ => rfl⟩
  | succ level ih =>
    have ho : (∀ attrs s, t ≠ .attributed attrs s) → (∀ name args, t ≠ .con name args) →
        Tendsto (fun budget => ((new env).relationHead (level + 1) t budget).2) atTop atTop ∧
        ∃ r, ∀ᶠ budget in atTop,
          ((new env).relationHead (level + 1) t budget).1 = r := by
      intro hatt hcon
      refine ⟨tendsto_sub_one.congr' ?_, some (t, []), ?_⟩
      all_goals
        filter_upwards [hpos] with budget hbud
        rw [relationHead_other hbud hatt hcon]
    cases t with
    | attributed attrs inner =>
      obtain ⟨hten, r, hr⟩ := ih inner
      refine ⟨(hten.comp tendsto_sub_one).congr' ?_,
        r.map fun found => (found.1, attrs :: found.2), ?_⟩
      · filter_upwards [hpos] with budget hbud
        rw [relationHead_attributed hbud]
        rfl
      · filter_upwards [hpos, tendsto_sub_one.eventually hr] with budget hbud hin
        rw [relationHead_attributed hbud, hin]
    | con name args =>
      cases hexp : env.expand name args with
      | none =>
        refine ⟨tendsto_sub_one.congr' ?_, some (.con name args, []), ?_⟩
        all_goals
          filter_upwards [hpos] with budget hbud
          rw [relationHead_con hbud hexp]
      | some inner =>
        obtain ⟨hten, r, hr⟩ := ih inner
        refine ⟨(hten.comp tendsto_sub_one).congr' ?_, r, ?_⟩
        · filter_upwards [hpos] with budget hbud
          rw [relationHead_expanding hbud hexp]
          rfl
        · filter_upwards [hpos, tendsto_sub_one.eventually hr] with budget hbud hin
          rw [relationHead_expanding hbud hexp, hin]
    | _ => exact ho (by simp) (by simp)

variable {t s : Ty}

lemma eventually_relationHead {as : List TypeAttributes} (h : Head env t x as) :
    ∃ n, ∀ level, n ≤ level →
      ∀ᶠ budget in atTop, ((new env).relationHead level t budget).1 = some (x, as) := by
  have hpos : ∀ᶠ budget : Int in atTop, 0 < budget := eventually_gt_atTop 0
  -- a level above a bound for the inner type
  have hsucc : ∀ {n level : Nat}, n + 1 ≤ level → ∃ inner, level = inner + 1 ∧ n ≤ inner := by
    intro n level hlevel
    exact ⟨level - 1, by omega, by omega⟩
  induction h with
  | attributed _ ih =>
    obtain ⟨n, hn⟩ := ih
    refine ⟨n + 1, fun level hlevel => ?_⟩
    obtain ⟨level, rfl, hle⟩ := hsucc hlevel
    filter_upwards [hpos, tendsto_sub_one.eventually (hn level hle)] with budget hbud hb
    rw [relationHead_attributed hbud, hb, Option.map_some]
  | expanding expand _ ih =>
    obtain ⟨n, hn⟩ := ih
    refine ⟨n + 1, fun level hlevel => ?_⟩
    obtain ⟨level, rfl, hle⟩ := hsucc hlevel
    filter_upwards [hpos, tendsto_sub_one.eventually (hn level hle)] with budget hbud hb
    rw [relationHead_expanding hbud expand, hb]
  | con expand =>
    refine ⟨1, fun level hlevel => ?_⟩
    obtain ⟨level, rfl, -⟩ := hsucc hlevel
    filter_upwards [hpos] with budget hbud
    rw [relationHead_con hbud expand]
  | other attributed con =>
    refine ⟨1, fun level hlevel => ?_⟩
    obtain ⟨level, rfl, -⟩ := hsucc hlevel
    filter_upwards [hpos] with budget hbud
    rw [relationHead_other hbud attributed con]

section Steps

variable {level : Nat} {s t : Ty} {budget : Int} (hbudget : 0 < budget)

include hbudget

lemma relate_of_left_none (h : ((new env).relationHead (level + 1) s (budget - 1)).1 = none) :
    (new env).relate (level + 1) s t budget =
      (.unknown .limitExceeded, ((new env).relationHead (level + 1) s (budget - 1)).2) := by
  rw [relate, if_neg (Int.not_le.mpr hbudget)]
  split <;> rename_i heq <;> rw [heq] at h ⊢
  cases h

lemma relate_of_right_none {x : Ty × List TypeAttributes} {left : Int}
    (hlt : (new env).relationHead (level + 1) s (budget - 1) = (some x, left))
    (h : ((new env).relationHead (level + 1) t left).1 = none) :
    (new env).relate (level + 1) s t budget =
      (.unknown .limitExceeded, ((new env).relationHead (level + 1) t left).2) := by
  simp only [relate, Int.not_le.mpr hbudget, if_false, hlt]
  split <;> rename_i heq <;> rw [heq] at h ⊢
  cases h

lemma relate_of_heads {as bs : List TypeAttributes} {left right : Int}
    (hlt : (new env).relationHead (level + 1) s (budget - 1) = (some (x, as), left))
    (hright : (new env).relationHead (level + 1) t left = (some (y, bs), right)) :
    (new env).relate (level + 1) s t budget =
      relateFound ((new env).relate level) s t x as y bs right := by
  simp only [relate, Int.not_le.mpr hbudget, if_false, hlt, hright]

end Steps

def leftAfterHeads (env : Env) (level : Nat) (s t : Ty) (budget : Int) : Int :=
  ((Solver.new env).relationHead level t ((Solver.new env).relationHead level s (budget - 1)).2).2

lemma tendsto_leftAfterHeads (env : Env) (level : Nat) (s t : Ty) :
    Tendsto (leftAfterHeads env level s t) atTop atTop :=
  (exists_relationHead env level t).1.comp
    ((exists_relationHead env level s).1.comp tendsto_sub_one)

lemma eventually_relate {level : Nat} {as bs : List TypeAttributes}
    (hs : ∀ᶠ budget in atTop, ((new env).relationHead (level + 1) s budget).1 = some (x, as))
    (ht : ∀ᶠ budget in atTop, ((new env).relationHead (level + 1) t budget).1 = some (y, bs)) :
    ∀ᶠ budget in atTop, (new env).relate (level + 1) s t budget =
      relateFound ((new env).relate level) s t x as y bs
        (leftAfterHeads env (level + 1) s t budget) := by
  have hlt := (exists_relationHead env (level + 1) s).1.comp tendsto_sub_one
  filter_upwards [eventually_gt_atTop 0, tendsto_sub_one.eventually hs, hlt.eventually ht]
    with budget hbud hx hy
  exact relate_of_heads hbud (Prod.ext hx rfl) (Prod.ext hy rfl)

lemma frugal_relate (level : Nat) : Frugal ((new env).relate level) := by
  induction level with
  | zero => exact fun _ _ => tendsto_id
  | succ level ih =>
    intro s t
    obtain ⟨hs, r, hr⟩ := exists_relationHead env (level + 1) s
    obtain ⟨ht, q, hq⟩ := exists_relationHead env (level + 1) t
    have hs' := hs.comp tendsto_sub_one
    cases r with
    | none =>
      refine hs'.congr' ?_
      filter_upwards [eventually_gt_atTop 0, tendsto_sub_one.eventually hr]
        with budget hbud hfd
      rw [relate_of_left_none hbud hfd]
      rfl
    | some x =>
      cases q with
      | none =>
        refine (ht.comp hs').congr' ?_
        filter_upwards [eventually_gt_atTop 0, tendsto_sub_one.eventually hr,
          hs'.eventually hq] with budget hbud hfd hfd'
        rw [relate_of_right_none hbud (Prod.ext hfd rfl) hfd']
        rfl
      | some y =>
        have hten := (tendsto_relateFound ih s t x.1 y.1 x.2 y.2).comp
          (tendsto_leftAfterHeads env (level + 1) s t)
        refine hten.congr' ?_
        filter_upwards [eventually_relate hr hq] with budget hb
        rw [hb]
        rfl

lemma settles_relateHeads (hfru : Frugal relate) (hx : x.WellFormed) (hy : y.WellFormed)
    (h : Related (fun s t => s.WellFormed → t.WellFormed → Settles relate s t) x y) :
    ∀ᶠ budget in atTop, (relateHeads relate x y budget).1 = proven := by
  cases h with
  | @con name xs ys length forward backward =>
    have hxs := Ty.wellFormedItems_iff.mp hx
    have hys := Ty.wellFormedItems_iff.mp hy
    have hps : ∀ e ∈ xs.zip ys, Settles relate e.1 e.2 ∧ Settles relate e.2 e.1 := by
      intro e he
      have hmem := of_mem_zip he
      exact ⟨forward e he (hxs _ hmem.1) (hys _ hmem.2),
        backward e he (hys _ hmem.2) (hxs _ hmem.1)⟩
    filter_upwards [eventually_relateArgs hfru hps] with budget hb
    simpa [relateHeads, length] using hb
  | @tup xs ys length items =>
    have hxs := Ty.wellFormedItems_iff.mp hx
    have hys := Ty.wellFormedItems_iff.mp hy
    have hps : ∀ e ∈ xs.zip ys, Settles relate e.1 e.2 := by
      intro e he
      have hmem := of_mem_zip he
      exact items e he (hxs _ hmem.1) (hys _ hmem.2)
    filter_upwards [eventually_relateEach hfru hps] with budget hb
    simpa [relateHeads, length] using hb
  | @fn a b c d input output =>
    have hps : ∀ e ∈ [(c, a), (b, d)], Settles relate e.1 e.2 := by
      simpa using ⟨input hy.1 hx.1, output hx.2 hy.2⟩
    filter_upwards [eventually_relateEach hfru hps] with budget hb
    exact hb
  | @record xs ys names fields =>
    obtain ⟨hxdi, hxfi, -⟩ := hx
    obtain ⟨hydi, hyfi, -⟩ := hy
    have hlen : xs.length = ys.length := by
      have hpm := (perm_ext_iff_of_nodup hxdi hydi).mpr names
      simpa [OrdMap.keys] using hpm.length_eq
    have hps : ∀ e ∈ xs, ∃ y, get? ys e.1 = some y ∧ Settles relate e.2 y := by
      rintro ⟨name, x⟩ he
      have hx := get?_of_mem hxdi he
      obtain ⟨y, hy⟩ := exists_get?_of_mem_keys
        ((names name).mp (get?_isSome_iff.mp (by simp [hx])))
      have hset := fields name x y hx hy (Ty.wellFormedFields_iff.mp hxfi _ he)
        (Ty.wellFormedFields_iff.mp hyfi _ (mem_of_get? hy))
      exact ⟨y, hy, hset⟩
    filter_upwards [eventually_relateFields hfru hps] with budget hb
    obtain ⟨results, hress, hall⟩ := hb
    simp only [relateHeads, hlen, if_true]
    split
    · rename_i found _ heq
      rw [heq] at hress
      rw [← Option.some.inj hress] at hall
      exact hall
    · rename_i heq
      rw [heq] at hress
      cases hress

lemma relateFound_unionLeft {xs : List Ty} {as bs : List TypeAttributes} (two : 2 ≤ xs.length)
    (budget : Int) :
    (relateFound relate s t (.union xs) as y bs budget).1 =
      allOf (relateEach relate (xs.map fun x => (attributedAll x as, t)) budget).1 := by
  simp only [relateFound, Nat.not_lt.mpr two, if_false]

lemma relateFound_unionRight {ys : List Ty} {as bs : List TypeAttributes} (leaf : ¬ IsUnion x)
    (two : 2 ≤ ys.length) (budget : Int) :
    (relateFound relate s t x as (.union ys) bs budget).1 =
      anyOf (relateEach relate (ys.map fun y => (s, attributedAll y bs)) budget).1 := by
  cases x with
  | union => exact absurd trivial leaf
  | _ => simp only [relateFound, Nat.not_lt.mpr two, if_false]

lemma relateFound_leaves {as bs : List TypeAttributes} (leaf : ¬ IsUnion x) (leaf' : ¬ IsUnion y)
    (entail : attributesEntail as bs = proven) (budget : Int) :
    relateFound relate s t x as y bs budget =
      if x == y then (proven, budget) else relateHeads relate x y budget := by
  unfold relateFound
  split
  · exact absurd trivial leaf
  · exact absurd trivial leaf'
  · simp only [entail, ne_eq, not_true_eq_false, if_false]

lemma anyOf_of_mem {rs : List TypeRelation} (h : proven ∈ rs) : anyOf rs = proven := by
  have hany : ∀ result, relationAny result rs = proven := by
    induction rs with
    | nil => simp at h
    | cons r rs ih =>
      intro result
      cases r with
      | proven => rfl
      | _ =>
        have hr : proven ∈ rs := by simpa using h
        exact ih hr _
  exact hany _

lemma Related.exists_threshold (h : Related R x y) (P : Nat → Ty → Ty → Prop)
    (hR : ∀ s t, R s t → ∃ n, ∀ m, n ≤ m → P m s t) : ∃ n, ∀ m, n ≤ m → Related (P m) x y := by
  cases h with
  | con length forward backward =>
    obtain ⟨n, hn⟩ := exists_threshold fun e he => hR _ _ (forward e he)
    obtain ⟨k, hk⟩ := exists_threshold fun e he => hR _ _ (backward e he)
    exact ⟨n + k, fun m hm => .con length (fun e he => hn e he m (by omega))
      fun e he => hk e he m (by omega)⟩
  | tup length items =>
    obtain ⟨n, hn⟩ := exists_threshold fun e he => hR _ _ (items e he)
    exact ⟨n, fun m hm => .tup length fun e he => hn e he m hm⟩
  | fn input output =>
    obtain ⟨n, hn⟩ := hR _ _ input
    obtain ⟨k, hk⟩ := hR _ _ output
    exact ⟨n + k, fun m hm => .fn (hn m (by omega)) (hk m (by omega))⟩
  | @record xs ys names fields =>
    have hfs : ∀ e ∈ xs, ∃ n, ∀ m, n ≤ m → ∀ y, get? xs e.1 = some e.2 →
        get? ys e.1 = some y → P m e.2 y := by
      rintro ⟨name, x⟩ -
      by_cases hfd : ∃ y, get? xs name = some x ∧ get? ys name = some y
      · obtain ⟨y, hx, hy⟩ := hfd
        obtain ⟨n, hn⟩ := hR _ _ (fields name x y hx hy)
        refine ⟨n, fun m hm z _ hz => ?_⟩
        rw [hy] at hz
        cases hz
        exact hn m hm
      · exact ⟨0, fun _ _ y hx hy => absurd ⟨y, hx, hy⟩ hfd⟩
    obtain ⟨n, hn⟩ := exists_threshold hfs
    refine ⟨n, fun m hm => .record names ?_⟩
    intro name x y hx hy
    exact hn (name, x) (mem_of_get? hx) m hm y hx hy

lemma settles_of_derives (henv : env.Acyclic) (hwf : env.WellFormed) {n : Nat} (hs : s.WellFormed)
    (ht : t.WellFormed) (h : Derives env n s t) :
    ∃ least, ∀ level, least ≤ level → Settles ((new env).relate level) s t := by
  induction n generalizing s t with
  | zero => exact h.elim
  | succ n ih =>
    -- the heads are found at the level, the rest is compared one level below
    have hset : ∀ {x y : Ty} {as bs : List TypeAttributes} (least : Nat),
        Head env s x as → Head env t y bs →
        (∀ level, least ≤ level → ∀ᶠ budget in atTop,
          (relateFound ((new env).relate level) s t x as y bs budget).1 = proven) →
        ∃ least, ∀ level, least ≤ level → Settles ((new env).relate level) s t := by
      intro x y as bs least hx hy hfd
      obtain ⟨a, ha⟩ := eventually_relationHead hx
      obtain ⟨b, hb⟩ := eventually_relationHead hy
      refine ⟨least + a + b + 1, fun level hle => ?_⟩
      obtain ⟨level, rfl⟩ : ∃ k, level = k + 1 := ⟨level - 1, by omega⟩
      have heads := eventually_relate (ha (level + 1) (by omega)) (hb (level + 1) (by omega))
      have hrest := (tendsto_leftAfterHeads env (level + 1) s t).eventually
        (hfd level (by omega))
      filter_upwards [heads, hrest] with budget hb hr
      rw [hb, hr]
    cases h with
    | @unionLeft xs as head two members =>
      obtain ⟨y, bs, hrt⟩ := exists_head henv t
      obtain ⟨⟨-, hall⟩, has⟩ := head.wellFormed hwf hs
      have hmembers : ∀ x ∈ xs, ∃ least, ∀ level, least ≤ level →
          Settles ((new env).relate level) (attributedAll x as) t := fun x hx =>
        ih (wellFormed_attributedAll (Ty.wellFormedItems_iff.mp hall x hx) has) ht (members x hx)
      obtain ⟨least, hleast⟩ := exists_threshold hmembers
      apply hset least head hrt
      intro level hle
      have hps : ∀ e ∈ xs.map fun x => (attributedAll x as, t),
          Settles ((new env).relate level) e.1 e.2 := by
        intro e he
        obtain ⟨x, hx, rfl⟩ := mem_map.mp he
        exact hleast x hx level hle
      filter_upwards [eventually_relateEach (frugal_relate level) hps] with budget hb
      rw [relateFound_unionLeft two, hb]
    | @unionRight x y ys as bs left leaf right two member below =>
      obtain ⟨⟨-, hall⟩, hbs⟩ := right.wellFormed hwf ht
      obtain ⟨least, hleast⟩ := ih hs
        (wellFormed_attributedAll (Ty.wellFormedItems_iff.mp hall y member) hbs) below
      apply hset least left right
      intro level hle
      have hmem : (s, attributedAll y bs) ∈ ys.map fun y => (s, attributedAll y bs) :=
        mem_map_of_mem member
      filter_upwards [eventually_mem_relateEach (frugal_relate level) hmem (hleast level hle)]
        with budget hb
      rw [relateFound_unionRight leaf two, anyOf_of_mem hb]
    | equal left right leaf leaf' entails eq =>
      obtain ⟨hx, has⟩ := left.wellFormed hwf hs
      obtain ⟨hy, hbs⟩ := right.wellFormed hwf ht
      refine hset 0 left right fun level _ => ?_
      refine .of_forall fun budget => ?_
      have heq := (Ty.beq_iff hx hy).mpr eq
      rw [relateFound_leaves leaf leaf' ((attributesEntail_iff has hbs).mpr entails)]
      exact congrArg Prod.fst (if_pos heq)
    | @heads x y as bs left right entails related =>
      obtain ⟨hx, has⟩ := left.wellFormed hwf hs
      obtain ⟨hy, hbs⟩ := right.wellFormed hwf ht
      obtain ⟨least, hleast⟩ := related.exists_threshold
        (fun level s t => s.WellFormed → t.WellFormed → Settles ((new env).relate level) s t)
        (fun s t hst => by
          by_cases hwf' : s.WellFormed ∧ t.WellFormed
          · obtain ⟨least, hleast⟩ := ih hwf'.1 hwf'.2 hst
            exact ⟨least, fun level hle _ _ => hleast level hle⟩
          · exact ⟨0, fun _ _ hs ht => absurd ⟨hs, ht⟩ hwf'⟩)
      refine hset least left right fun level hle => ?_
      have hheads := settles_relateHeads (frugal_relate level) hx hy (hleast level hle)
      filter_upwards [hheads] with budget hb
      rw [relateFound_leaves related.leaf_left related.leaf_right
        ((attributesEntail_iff has hbs).mpr entails)]
      split
      · rfl
      · exact hb

end Morphir.Typing
