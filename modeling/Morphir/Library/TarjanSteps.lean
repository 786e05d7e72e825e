import Morphir.Library.Tarjan

/-!
# The steps of Tarjan's algorithm

Entering a vertex, one edge of it and closing it keep the invariant.
-/

open Relation Function

universe u

namespace Tarjan

open List

variable {V : Type u} [LinearOrder V] {edges : V → List V} {vs path : List V} {v w : V}
  {t t' : Tarjan V}

lemma enter_index_self (v : V) (t : Tarjan V) : (t.enter v).index v = t.counter := update_self v _ _

variable {x : V}

lemma enter_index_of_ne (h : x ≠ v) (t : Tarjan V) :
    (t.enter v).index x = t.index x := update_of_ne h _ _

lemma enter_low_self (v : V) (t : Tarjan V) : (t.enter v).low v = t.counter := update_self v _ _

lemma enter_low_of_ne (h : x ≠ v) (t : Tarjan V) : (t.enter v).low x = t.low x := update_of_ne h _ _

lemma mem_enter_stack : x ∈ (t.enter v).stack ↔ x = v ∨ x ∈ t.stack := mem_cons

lemma Sound.index_nonneg (h : Sound edges vs path t) (hx : x ∈ t.stack) :
    0 ≤ t.index x := (h.seen x).mpr (Or.inl hx)

lemma grown_enter (hv : t.index v < 0) : Grown t (t.enter v) where
  counter := by
    change t.counter ≤ t.counter + 1
    omega
  kept x hx := by
    apply enter_index_of_ne
    rintro rfl
    omega
  fresh x hx hx' := by
    rcases eq_or_ne x v with rfl | hne
    · rw [enter_index_self]
    · rw [enter_index_of_ne hne] at hx'
      omega
  stack x hx := mem_enter_stack.mpr (Or.inr hx)
  old x hx hx0 := by
    rcases mem_enter_stack.mp hx with rfl | hx
    · omega
    · exact hx

lemma Sound.enter (h : Sound edges vs path t) (hv : t.index v < 0) (hvs : v ∈ vs)
    (hpath : ∀ p ∈ path, Reach edges p v) : Sound edges vs (v :: path) (t.enter v) := by
  have hgrown := grown_enter hv
  have hlt : ∀ x ∈ t.stack, (t.enter v).index x < t.counter := by
    intro x hx
    rw [hgrown.kept x (h.index_nonneg hx)]
    exact h.index_lt x
  refine
    { counter_nonneg := ?_, index_lt := ?_, injective := ?_, onStack := ?_, sorted := ?_,
      seen := ?_, apart := ?_, within := ?_, path_mem := ?_, anchored := ?_, reaches := ?_,
      explored := ?_, emitted := h.emitted }
  · exact le_trans h.counter_nonneg hgrown.counter
  · intro x
    change (t.enter v).index x < t.counter + 1
    rcases eq_or_ne x v with rfl | hne
    · rw [enter_index_self]
      omega
    · rw [enter_index_of_ne hne]
      have := h.index_lt x
      omega
  · intro x y hx hxy
    rcases eq_or_ne x v with rfl | hxv
    · rcases eq_or_ne y x with rfl | hyv
      · rfl
      · rw [enter_index_self, enter_index_of_ne hyv] at hxy
        have := h.index_lt y
        omega
    · rw [enter_index_of_ne hxv] at hx hxy
      rcases eq_or_ne y v with rfl | hyv
      · rw [enter_index_self] at hxy
        have := h.index_lt x
        omega
      · rw [enter_index_of_ne hyv] at hxy
        exact h.injective x y hx hxy
  · intro x
    rw [mem_enter_stack]
    change update t.onStack v true x = true ↔ _
    rcases eq_or_ne x v with rfl | hne
    · simp
    · rw [update_of_ne hne, h.onStack x]
      simp [hne]
  · constructor
    · intro x hx
      rw [enter_index_self]
      exact hlt x hx
    · apply h.sorted.imp_of_mem
      intro x y hx hy hyx
      rw [hgrown.kept x (h.index_nonneg hx), hgrown.kept y (h.index_nonneg hy)]
      exact hyx
  · intro x
    rw [mem_enter_stack]
    rcases eq_or_ne x v with rfl | hne
    · have := h.counter_nonneg
      simp [enter_index_self, this]
    · rw [enter_index_of_ne hne, h.seen x]
      simp only [hne, false_or]
      exact Iff.rfl
  · intro x hx
    rcases mem_enter_stack.mp hx with rfl | hx
    · intro hmem
      have := (h.seen x).mpr (Or.inr hmem)
      omega
    · exact h.apart x hx
  · intro x hx
    rcases eq_or_ne x v with rfl | hne
    · exact hvs
    · rw [enter_index_of_ne hne] at hx
      exact h.within x hx
  · intro p hp
    rcases mem_cons.mp hp with rfl | hp
    · exact mem_enter_stack.mpr (Or.inl rfl)
    · exact mem_enter_stack.mpr (Or.inr (h.path_mem p hp))
  · intro x hx
    rcases mem_enter_stack.mp hx with rfl | hx
    · exact ⟨x, mem_cons_self, le_refl _, .refl⟩
    · obtain ⟨p, hp, hle, hrch⟩ := h.anchored x hx
      refine ⟨p, mem_cons_of_mem _ hp, ?_, hrch⟩
      rw [hgrown.kept p (h.index_nonneg (h.path_mem p hp)), hgrown.kept x (h.index_nonneg hx)]
      exact hle
  · intro p hp x hx hle
    rcases mem_enter_stack.mp hx with rfl | hold
    · rcases mem_cons.mp hp with rfl | hp
      · exact .refl
      · exact hpath p hp
    · rcases mem_cons.mp hp with rfl | hp
      · rw [enter_index_self] at hle
        have := hlt x hold
        omega
      · apply h.reaches p hp x hold
        rw [hgrown.kept p (h.index_nonneg (h.path_mem p hp)),
          hgrown.kept x (h.index_nonneg hold)] at hle
        exact hle
  · intro x hx hnot y hy
    rw [mem_cons, not_or] at hnot
    rw [enter_index_of_ne hnot.1] at hx
    have hyseen := h.explored x hx hnot.2 y hy
    rw [hgrown.kept y hyseen]
    exact hyseen

lemma scanned_enter (h : Sound edges vs path t) :
    Scanned edges v [] (t.enter v) where
  low_le := by rw [enter_low_self, enter_index_self]
  attained :=
    ⟨v, mem_enter_stack.mpr (Or.inl rfl), by rw [enter_low_self, enter_index_self],
      ReflTransGen.refl⟩
  seen y hy := absurd hy not_mem_nil
  bound x hx hle y hy hdo _ _ := by
    rcases eq_or_ne x v with rfl | hne
    · exact absurd (hdo rfl) not_mem_nil
    · rw [enter_index_self, enter_index_of_ne hne] at hle
      have := h.index_lt x
      omega

@[simp] lemma lower_index (v : V) (bound : Int) (t : Tarjan V) :
    (t.lower v bound).index = t.index := rfl

lemma lower_low_self (v : V) (bound : Int) (t : Tarjan V) :
    (t.lower v bound).low v = min (t.low v) bound := update_self v _ _

lemma lower_low_of_ne (h : x ≠ v) (bound : Int) (t : Tarjan V) :
    (t.lower v bound).low x = t.low x := update_of_ne h _ _

lemma Sound.lower (h : Sound edges vs path t) (v : V) (bound : Int) :
    Sound edges vs path (t.lower v bound) :=
  { h with }

lemma Grown.lower (h : Grown t t') (v : V) (bound : Int) : Grown t (t'.lower v bound) := { h with }

variable {done : List V}

section

variable (h : Scanned edges v done t)

include h

lemma Scanned.edge (hw : 0 ≤ t.index w) (hedge : w ∈ edges v) (hsk : w ∈ t.stack) :
    Scanned edges v (done ++ [w]) (t.lower v (t.index w)) where
  low_le := by
    rw [lower_low_self, lower_index]
    exact le_trans (min_le_left _ _) h.low_le
  attained := by
    rw [lower_low_self]
    rcases le_total (t.low v) (t.index w) with hle | hle
    · rw [min_eq_left hle]
      exact h.attained
    · rw [min_eq_right hle]
      exact ⟨w, hsk, rfl, ReflTransGen.single hedge⟩
  seen y hy := by
    rcases mem_append.mp hy with hy | hy
    · exact h.seen y hy
    · rw [mem_singleton.mp hy]
      exact hw
  bound x hx hle y hy hdo hyst hlt := by
    rw [lower_low_self]
    by_cases hxw : x = v ∧ y = w
    · rw [hxw.2]
      exact min_le_right _ _
    · apply le_trans (min_le_left _ _)
      apply h.bound x hx hle y hy _ hyst hlt
      intro hxv
      rcases mem_append.mp (hdo hxv) with hy | hy
      · exact hy
      · exact absurd ⟨hxv, mem_singleton.mp hy⟩ hxw

omit [LinearOrder V] in
lemma Scanned.edge_off_stack (hw : 0 ≤ t.index w) (hsk : w ∉ t.stack) :
    Scanned edges v (done ++ [w]) t where
  low_le := h.low_le
  attained := h.attained
  seen y hy := by
    rcases mem_append.mp hy with hy | hy
    · exact h.seen y hy
    · rw [mem_singleton.mp hy]
      exact hw
  bound x hx hle y hy hdo hyst hlt := by
    apply h.bound x hx hle y hy _ hyst hlt
    intro hxv
    rcases mem_append.mp (hdo hxv) with hy | hy
    · exact hy
    · rw [mem_singleton.mp hy] at hyst
      exact absurd hyst hsk

lemma Scanned.visited (hsnd : Sound edges vs (v :: path) t) (hw : t.index w < 0)
    (hedge : w ∈ edges v) (hvisit : Visited edges vs (v :: path) w t t') :
    Scanned edges v (done ++ [w]) (t'.lower v (t'.low w)) := by
  have hv : v ∈ t.stack := hsnd.path_mem v mem_cons_self
  have hv0 := hsnd.index_nonneg hv
  have hix : t'.index v = t.index v := hvisit.grown.kept v hv0
  have hlow : t'.low v = t.low v := hvisit.lows v hv0
  have hk : ∀ y ∈ t.stack, t'.index y = t.index y :=
    fun y hy => hvisit.grown.kept y (hsnd.index_nonneg hy)
  refine { low_le := ?_, attained := ?_, seen := ?_, bound := ?_ }
  · rw [lower_low_self, lower_index, hix, hlow]
    exact le_trans (min_le_left _ _) h.low_le
  · rw [lower_low_self, hlow]
    rcases le_or_gt (t.low v) (t'.low w) with hle | hlt
    · obtain ⟨y, hy, heq, hrch⟩ := h.attained
      rw [min_eq_left hle]
      exact ⟨y, hvisit.grown.stack y hy, (hk y hy).trans heq, hrch⟩
    · rw [min_eq_right (le_of_lt hlt)]
      have hcou : t'.low w < t.counter := by
        have := h.low_le
        have := hsnd.index_lt v
        omega
      obtain ⟨y, hy, heq, hrch⟩ := hvisit.attained hcou
      exact ⟨y, hvisit.grown.stack y hy, (hk y hy).trans heq,
        (ReflTransGen.single hedge).trans hrch⟩
  · intro y hy
    rw [lower_index]
    rcases mem_append.mp hy with hy | hy
    · have := h.seen y hy
      rw [hvisit.grown.kept y this]
      exact this
    · rw [mem_singleton.mp hy]
      exact hvisit.seen
  · intro x hx hle y hy hdo hyst hlt
    rw [lower_index, hix] at hlt
    rw [lower_low_self, lower_index, hlow]
    -- The target was visited before `v`, so the visit of `w` did not push it.
    have hy0 : 0 ≤ t.index y := by
      by_contra hneg
      have := hvisit.grown.fresh y (by omega) (hvisit.sound.index_nonneg hyst)
      have := hsnd.index_lt v
      omega
    have hyold := hvisit.grown.old y hyst hy0
    rw [hk y hyold]
    rcases lt_or_ge (t.index x) 0 with hx0 | hx0
    · apply le_trans (min_le_right _ _)
      exact hvisit.bound x hx (hvisit.grown.fresh x hx0 (hvisit.sound.index_nonneg hx)) y hy hyold
    · apply le_trans (min_le_left _ _)
      have hxold := hvisit.grown.old x hx hx0
      apply h.bound x hxold _ y hy _ hyold
      · rw [← hk y hyold]
        exact hlt
      · rw [← hk x hxold, ← hix]
        exact hle
      · intro hxv
        rcases mem_append.mp (hdo hxv) with hmem | hmem
        · exact hmem
        · rw [mem_singleton.mp hmem] at hy0
          omega

end

lemma popTo_append (v : V) {stack : List V} (h : v ∈ stack) :
    stack = (popTo v stack).1 ++ (popTo v stack).2 ∧ v ∈ (popTo v stack).1 := by
  induction stack with
  | nil => cases h
  | cons w rest ih =>
    rw [popTo]
    split
    next heq =>
      subst heq
      exact ⟨rfl, mem_singleton_self w⟩
    next hne =>
      obtain ⟨happ, hmem⟩ := ih (mem_of_ne_of_mem (Ne.symm hne) h)
      refine ⟨?_, mem_cons_of_mem _ hmem⟩
      rw [cons_append, ← happ]

lemma mem_popTo {index : V → Int} {stack : List V} (h : v ∈ stack)
    (hsor : stack.Pairwise fun x y => index y < index x) :
    (∀ x, x ∈ (popTo v stack).1 ↔ x ∈ stack ∧ index v ≤ index x) ∧
      ∀ x, x ∈ (popTo v stack).2 ↔ x ∈ stack ∧ index x < index v := by
  induction stack with
  | nil => cases h
  | cons w rest ih =>
    obtain ⟨hw, hr⟩ := pairwise_cons.mp hsor
    rw [popTo]
    split
    next heq =>
      subst heq
      constructor
      · intro x
        rw [mem_singleton, mem_cons]
        constructor
        · rintro rfl
          exact ⟨Or.inl rfl, le_refl _⟩
        · rintro ⟨rfl | hx, hle⟩
          · rfl
          · have := hw x hx
            omega
      · intro x
        rw [mem_cons]
        constructor
        · intro hx
          exact ⟨Or.inr hx, hw x hx⟩
        · rintro ⟨rfl | hx, hlt⟩
          · omega
          · exact hx
    next hne =>
      have hv := mem_of_ne_of_mem (Ne.symm hne) h
      obtain ⟨hfst, hsnd⟩ := ih hv hr
      have hvw := hw v hv
      constructor
      · intro x
        rw [mem_cons, hfst, mem_cons]
        constructor
        · rintro (rfl | ⟨hx, hle⟩)
          · exact ⟨Or.inl rfl, by omega⟩
          · exact ⟨Or.inr hx, hle⟩
        · rintro ⟨rfl | hx, hle⟩
          · exact Or.inl rfl
          · exact Or.inr ⟨hx, hle⟩
      · intro x
        rw [hsnd, mem_cons]
        constructor
        · rintro ⟨hx, hlt⟩
          exact ⟨Or.inr hx, hlt⟩
        · rintro ⟨rfl | hx, hlt⟩
          · omega
          · exact ⟨hx, hlt⟩

def Above (t : Tarjan V) (v x : V) : Prop := x ∈ t.stack ∧ t.index v ≤ t.index x

section Root

variable (hsound : Sound edges vs (v :: path) t) (hscanned : Scanned edges v (edges v) t)
  (hpath : ∀ p ∈ path, t.index p < t.index v)

include hsound hscanned hpath

lemma seen_of_above {x y : V} (hx : t.Above v x) (hy : y ∈ edges x) : 0 ≤ t.index y := by
  rcases eq_or_ne x v with rfl | hne
  · exact hscanned.seen y hy
  · apply hsound.explored x (hsound.index_nonneg hx.1) _ y hy
    intro hmem
    rcases mem_cons.mp hmem with heq | hmem
    · exact hne heq
    · have := hpath x hmem
      have := hx.2
      omega

variable (hroot : t.low v = t.index v)

include hroot

lemma edge_of_above {x y : V} (hx : t.Above v x) (hy : y ∈ edges x) :
    t.Above v y ∨ y ∈ t.groups.flatten := by
  rcases (hsound.seen y).mp (seen_of_above hsound hscanned hpath hx hy) with hstack | hgroups
  · left
    refine ⟨hstack, ?_⟩
    by_contra hlt
    have hy' : x = v → y ∈ edges v := by
      rintro rfl
      exact hy
    have := hscanned.bound x hx.1 hx.2 y hy hy' hstack (by omega)
    omega
  · exact Or.inr hgroups

lemma reach_of_above {x y : V} (hx : t.Above v x) (hxy : Reach edges x y) :
    t.Above v y ∨ y ∈ t.groups.flatten := by
  induction hxy with
  | refl => exact Or.inl hx
  | tail _ hedge ih =>
    rcases ih with habove | hgroups
    · exact edge_of_above hsound hscanned hpath hroot habove hedge
    · exact Or.inr (hsound.emitted.closed hgroups hedge)

lemma reach_root (hx : t.Above v x) : Reach edges x v := by
  obtain ⟨p, hp, -, hreach⟩ := hsound.anchored x hx.1
  rcases mem_cons.mp hp with rfl | hp
  · exact hreach
  · -- The path below `v` is out of reach.
    exfalso
    rcases reach_of_above hsound hscanned hpath hroot hx hreach with habove | hgroups
    · have := hpath p hp
      have := habove.2
      omega
    · exact hsound.apart p (hsound.path_mem p (mem_cons_of_mem _ hp)) hgroups

lemma component_of_above (hx : t.Above v x) (y : V) :
    t.Above v y ↔ Reach edges x y ∧ Reach edges y x := by
  have hfrom : ∀ z, t.Above v z → Reach edges v z :=
    fun z hz => hsound.reaches v mem_cons_self z hz.1 hz.2
  have hto : ∀ z, t.Above v z → Reach edges z v :=
    fun z hz => reach_root hsound hscanned hpath hroot hz
  constructor
  · intro hy
    exact ⟨(hto x hx).trans (hfrom y hy), (hto y hy).trans (hfrom x hx)⟩
  · rintro ⟨hxy, hyx⟩
    rcases reach_of_above hsound hscanned hpath hroot hx hxy with habove | hgroups
    · exact habove
    · exact absurd (hsound.emitted.closed_reach hgroups hyx) (hsound.apart x hx.1)

lemma emitted_close :
    Emitted edges (t.groups ++ [(popTo v t.stack).1.mergeSort (· ≤ ·)]) := by
  have hv := hsound.path_mem v mem_cons_self
  have hmem : ∀ x, x ∈ (popTo v t.stack).1.mergeSort (· ≤ ·) ↔ t.Above v x := by
    intro x
    rw [mem_mergeSort]
    exact (mem_popTo hv hsound.sorted).1 x
  have hnodup : (popTo v t.stack).1.Nodup := by
    have hstack : t.stack.Nodup := by
      apply hsound.sorted.imp
      rintro x y hlt rfl
      omega
    rw [(popTo_append v hv).1] at hstack
    exact hstack.of_append_left
  apply hsound.emitted.snoc
  · exact ne_nil_of_mem ((hmem v).mpr ⟨hv, le_refl _⟩)
  · have hsorted : ((popTo v t.stack).1.mergeSort (· ≤ ·)).SortedLE := sortedLE_mergeSort
    exact (hsorted.sortedLT_of_nodup ((mergeSort_perm _ _).nodup_iff.mpr hnodup)).pairwise
  · intro x hx
    exact hsound.apart x ((hmem x).mp hx).1
  · intro x hx y
    rw [hmem]
    exact component_of_above hsound hscanned hpath hroot ((hmem x).mp hx) y
  · intro x hx y hy
    rw [hmem]
    exact edge_of_above hsound hscanned hpath hroot ((hmem x).mp hx) hy

end Root

lemma close_of_root (h : t.low v = t.index v) :
    t.close v =
      { t with
        stack := (popTo v t.stack).2
        onStack := fun w => if w ∈ (popTo v t.stack).1 then false else t.onStack w
        groups := t.groups ++ [(popTo v t.stack).1.mergeSort (· ≤ ·)] } := by
  rw [close, if_pos h]

lemma close_of_ne (h : t.low v ≠ t.index v) : t.close v = t := by rw [close, if_neg h]

@[simp] lemma close_index (v : V) (t : Tarjan V) : (t.close v).index = t.index := by
  unfold close
  split <;> rfl

@[simp] lemma close_low (v : V) (t : Tarjan V) : (t.close v).low = t.low := by
  unfold close
  split <;> rfl

@[simp] lemma close_counter (v : V) (t : Tarjan V) : (t.close v).counter = t.counter := by
  unfold close
  split <;> rfl

lemma mem_close_root (hv : v ∈ t.stack) (hsor : t.stack.Pairwise fun x y => t.index y < t.index x)
    (hro : t.low v = t.index v) (x : V) :
    x ∈ (t.close v).stack ↔ x ∈ t.stack ∧ t.index x < t.index v := by
  rw [close_of_root hro]
  exact (mem_popTo hv hsor).2 x

lemma mem_close_groups (hv : v ∈ t.stack)
    (hsor : t.stack.Pairwise fun x y => t.index y < t.index x) (hro : t.low v = t.index v) (x : V) :
    x ∈ (t.close v).groups.flatten ↔ x ∈ t.groups.flatten ∨ t.Above v x := by
  rw [close_of_root hro]
  rw [flatten_append, flatten_singleton, mem_append, mem_mergeSort, (mem_popTo hv hsor).1 x]
  exact Iff.rfl

lemma Sound.close_root (hsnd : Sound edges vs (v :: path) t) (hscn : Scanned edges v (edges v) t)
    (hpath : ∀ p ∈ path, t.index p < t.index v) (hro : t.low v = t.index v) :
    Sound edges vs path (t.close v) := by
  have hv := hsnd.path_mem v mem_cons_self
  have hsk := mem_close_root hv hsnd.sorted hro
  have hgro := mem_close_groups hv hsnd.sorted hro
  have hab : ∀ x, x ∈ t.stack ↔ t.Above v x ∨ x ∈ (t.close v).stack := by
    intro x
    rw [hsk, Above, ← and_or_left]
    exact ⟨fun hx => ⟨hx, le_or_gt _ _⟩, fun hx => hx.1⟩
  refine
    { counter_nonneg := ?_, index_lt := ?_, injective := ?_, onStack := ?_, sorted := ?_,
      seen := ?_, apart := ?_, within := ?_, path_mem := ?_, anchored := ?_, reaches := ?_,
      explored := ?_, emitted := ?_ }
  · rw [close_counter]
    exact hsnd.counter_nonneg
  · rw [close_index, close_counter]
    exact hsnd.index_lt
  · rw [close_index]
    exact hsnd.injective
  · intro x
    rw [hsk, ← hsnd.onStack x, close_of_root hro]
    change (if x ∈ (popTo v t.stack).1 then false else t.onStack x) = true ↔ _
    have hpop := (mem_popTo hv hsnd.sorted).1 x
    split
    next hmem =>
      have := (hpop.mp hmem).2
      constructor
      · intro hfalse
        cases hfalse
      · omega
    next hmem =>
      constructor
      · intro hon
        refine ⟨hon, ?_⟩
        by_contra hle
        exact hmem (hpop.mpr ⟨(hsnd.onStack x).mp hon, by omega⟩)
      · exact fun hon => hon.1
  · rw [close_of_root hro]
    have happ := (popTo_append v hv).1
    have hsor := hsnd.sorted
    rw [happ] at hsor
    exact (pairwise_append.mp hsor).2.1
  · intro x
    rw [close_index, hsnd.seen x, hgro, hab]
    tauto
  · intro x hx hmem
    rcases (hgro x).mp hmem with hmem | hmem
    · exact hsnd.apart x ((hsk x).mp hx).1 hmem
    · have := ((hsk x).mp hx).2
      have := hmem.2
      omega
  · rw [close_index]
    exact hsnd.within
  · intro p hp
    exact (hsk p).mpr ⟨hsnd.path_mem p (mem_cons_of_mem _ hp), hpath p hp⟩
  · intro x hx
    rw [close_index]
    obtain ⟨hmem, hlt⟩ := (hsk x).mp hx
    obtain ⟨p, hp, hle, hrch⟩ := hsnd.anchored x hmem
    rcases mem_cons.mp hp with rfl | hp
    · omega
    · exact ⟨p, hp, hle, hrch⟩
  · intro p hp x hx
    rw [close_index]
    exact hsnd.reaches p (mem_cons_of_mem _ hp) x ((hsk x).mp hx).1
  · intro x
    rw [close_index]
    intro hx hnot y hy
    rcases eq_or_ne x v with rfl | hne
    · exact hscn.seen y hy
    · apply hsnd.explored x hx _ y hy
      rw [mem_cons, not_or]
      exact ⟨hne, hnot⟩
  · rw [close_of_root hro]
    exact emitted_close hsnd hscn hpath hro

lemma Sound.close_inner (hsnd : Sound edges vs (v :: path) t) (hscn : Scanned edges v (edges v) t)
    (hro : t.low v ≠ t.index v) : Sound edges vs path t := by
  obtain ⟨y, hy, heq, hvy⟩ := hscn.attained
  have hlt : t.index y < t.index v := by
    have := hscn.low_le
    omega
  obtain ⟨q, hq, hqle, hyq⟩ := hsnd.anchored y hy
  have hqpath : q ∈ path := by
    rcases mem_cons.mp hq with rfl | hq
    · omega
    · exact hq
  refine { hsnd with path_mem := ?_, anchored := ?_, reaches := ?_, explored := ?_ }
  · intro p hp
    exact hsnd.path_mem p (mem_cons_of_mem _ hp)
  · intro x hx
    obtain ⟨p, hp, hle, hrch⟩ := hsnd.anchored x hx
    rcases mem_cons.mp hp with rfl | hp
    · exact ⟨q, hqpath, by omega, (hrch.trans hvy).trans hyq⟩
    · exact ⟨p, hp, hle, hrch⟩
  · intro p hp
    exact hsnd.reaches p (mem_cons_of_mem _ hp)
  · intro x hx hnot y hy
    rcases eq_or_ne x v with rfl | hne
    · exact hscn.seen y hy
    · apply hsnd.explored x hx _ y hy
      rw [mem_cons, not_or]
      exact ⟨hne, hnot⟩

end Tarjan
