import Morphir.Library.TarjanSteps

/-!
# Tarjan's algorithm finds the components
-/

open Relation

universe u

namespace Tarjan

open List

variable {V : Type u} [LinearOrder V] {edges : V → List V} {vs path : List V} {v w : V}
  {t t' : Tarjan V}

def unseen (vs : List V) (t : Tarjan V) : Finset V := vs.toFinset.filter fun x => t.index x < 0

lemma Grown.unseen_subset (h : Grown t t') (vs : List V) : unseen vs t' ⊆ unseen vs t := by
  intro x hx
  obtain ⟨hmem, hneg⟩ := Finset.mem_filter.mp hx
  apply Finset.mem_filter.mpr
  refine ⟨hmem, ?_⟩
  by_contra hse
  rw [h.kept x (by omega)] at hneg
  exact hse hneg

lemma card_unseen_enter (hv : t.index v < 0) (hvs : v ∈ vs) (h : 0 ≤ t.counter) :
    (unseen vs (t.enter v)).card < (unseen vs t).card := by
  apply Finset.card_lt_card
  rw [Finset.ssubset_iff_of_subset ((grown_enter hv).unseen_subset vs)]
  refine ⟨v, Finset.mem_filter.mpr ⟨mem_toFinset.mpr hvs, hv⟩, ?_⟩
  intro hmem
  have hneg := (Finset.mem_filter.mp hmem).2
  rw [enter_index_self] at hneg
  omega

def VisitSpec (edges : V → List V) (vs : List V) (fuel : Nat)
    (visit : V → Tarjan V → Option (Tarjan V)) : Prop :=
  ∀ (path : List V) (v : V) (t : Tarjan V), Sound edges vs path t → t.index v < 0 → v ∈ vs →
    (∀ p ∈ path, Reach edges p v) → (unseen vs t).card ≤ fuel →
    ∃ t', visit v t = some t' ∧ Visited edges vs path v t t'

section

variable (hcld : ∀ x ∈ vs, ∀ y ∈ edges x, y ∈ vs)

include hcld

lemma scan_spec {fuel : Nat} {visit : V → Tarjan V → Option (Tarjan V)}
    (hv : VisitSpec edges vs fuel visit) (hvs : v ∈ vs) (hpath : ∀ p ∈ v :: path, Reach edges p v)
    (done ws : List V) (hspl : edges v = done ++ ws) (hsnd : Sound edges vs (v :: path) t)
    (hscn : Scanned edges v done t) (hfuel : (unseen vs t).card ≤ fuel) :
    ∃ t', scan visit v ws t = some t' ∧ Grown t t' ∧ Sound edges vs (v :: path) t' ∧
      Scanned edges v (edges v) t' ∧
      ∀ x, 0 ≤ t.index x → x ≠ v → t'.low x = t.low x := by
  induction ws generalizing done t with
  | nil =>
    rw [append_nil] at hspl
    refine ⟨t, rfl, .refl t, hsnd, ?_, fun _ _ _ => rfl⟩
    rw [hspl]
    exact hscn
  | cons w ws ih =>
    have hedge : w ∈ edges v := by
      rw [hspl]
      exact mem_append_right _ mem_cons_self
    have hspl' : edges v = (done ++ [w]) ++ ws := by rw [hspl, append_assoc, singleton_append]
    rw [scan]
    split
    next hw =>
      obtain ⟨t₁, hrun, hvis⟩ := hv (v :: path) w t hsnd hw (hcld v hvs w hedge)
        (fun p hp => (hpath p hp).tail hedge) hfuel
      have hgrown := hvis.grown.lower v (t₁.low w)
      obtain ⟨t₂, hrun', hgrown', hsnd', hscn', hlows⟩ :=
        ih (done ++ [w]) hspl' (hvis.sound.lower v (t₁.low w))
          (hscn.visited hsnd hw hedge hvis)
          (le_trans (Finset.card_le_card (hgrown.unseen_subset vs)) hfuel)
      refine ⟨t₂, ?_, hgrown.trans hgrown', hsnd', hscn', ?_⟩
      · rw [hrun, Option.bind_some, hrun']
      · intro x hx hxv
        have hx' : 0 ≤ t₁.index x := by
          rw [hvis.grown.kept x hx]
          exact hx
        rw [hlows x hx' hxv, lower_low_of_ne hxv, hvis.lows x hx]
    next hw =>
      have hw0 : 0 ≤ t.index w := by omega
      split
      next hon =>
        have hsk := (hsnd.onStack w).mp hon
        obtain ⟨t₂, hrun', hgrown', hsnd', hscn', hlows⟩ :=
          ih (done ++ [w]) hspl' (hsnd.lower v (t.index w))
            (hscn.edge hw0 hedge hsk) hfuel
        refine ⟨t₂, hrun', ((Grown.refl t).lower v _).trans hgrown', hsnd', hscn', ?_⟩
        intro x hx hxv
        rw [hlows x hx hxv, lower_low_of_ne hxv]
      next hon =>
        have hsk : w ∉ t.stack := fun h => hon ((hsnd.onStack w).mpr h)
        exact ih (done ++ [w]) hspl' hsnd (hscn.edge_off_stack hw0 hsk) hfuel

omit hcld in
lemma Visited.of_scanned {t₀ : Tarjan V} (hv : t₀.index v < 0) (hsound₀ : Sound edges vs path t₀)
    (hgrown : Grown (t₀.enter v) t) (hsnd : Sound edges vs (v :: path) t)
    (hscn : Scanned edges v (edges v) t)
    (hlows : ∀ x, 0 ≤ (t₀.enter v).index x → x ≠ v → t.low x = (t₀.enter v).low x) :
    Visited edges vs path v t₀ (t.close v) := by
  have hgrown₀ := (grown_enter hv).trans hgrown
  have hix : t.index v = t₀.counter := by
    have := hsound₀.counter_nonneg
    rw [hgrown.kept v (by rw [enter_index_self]; exact this), enter_index_self]
  have hsk := hsnd.path_mem v mem_cons_self
  have hold : ∀ x ∈ t.stack, t.index x < t₀.counter → x ∈ t₀.stack := by
    intro x hx hlt
    rcases lt_or_ge (t₀.index x) 0 with hneg | h0
    · have := hgrown₀.fresh x hneg (hsnd.index_nonneg hx)
      omega
    · exact hgrown₀.old x hx h0
  have hk : ∀ x ∈ t₀.stack, t.index x = t₀.index x :=
    fun x hx => hgrown₀.kept x (hsound₀.index_nonneg hx)
  have hpath : ∀ p ∈ path, t.index p < t.index v := by
    intro p hp
    rw [hk p (hsound₀.path_mem p hp), hix]
    exact hsound₀.index_lt p
  have hlows₀ : ∀ x, 0 ≤ t₀.index x → t.low x = t₀.low x := by
    intro x hx
    have hne : x ≠ v := by
      rintro rfl
      omega
    have hse : 0 ≤ (t₀.enter v).index x := by
      rw [enter_index_of_ne hne]
      exact hx
    rw [hlows x hse hne, enter_low_of_ne hne]
  have hbd : ∀ x ∈ t.stack, t₀.counter ≤ t.index x → ∀ y ∈ edges x, y ∈ t₀.stack →
      t.low v ≤ t₀.index y := by
    intro x hx hle y hy hyst
    rw [← hk y hyst]
    apply hscn.bound x hx (by omega) y hy _ (hgrown₀.stack y hyst)
    · rw [hk y hyst, hix]
      exact hsound₀.index_lt y
    · rintro rfl
      exact hy
  by_cases hro : t.low v = t.index v
  · have hmem := mem_close_root hsk hsnd.sorted hro
    refine
      { grown := ⟨?_, ?_, ?_, ?_, ?_⟩
        sound := hsnd.close_root hscn hpath hro
        seen := ?_, lows := ?_, attained := ?_, bound := ?_ }
    · rw [close_counter]
      exact hgrown₀.counter
    · rw [close_index]
      exact hgrown₀.kept
    · rw [close_index]
      exact hgrown₀.fresh
    · intro x hx
      refine (hmem x).mpr ⟨hgrown₀.stack x hx, ?_⟩
      rw [hk x hx, hix]
      exact hsound₀.index_lt x
    · intro x hx
      exact hgrown₀.old x ((hmem x).mp hx).1
    · rw [close_index, hix]
      exact hsound₀.counter_nonneg
    · rw [close_low]
      exact hlows₀
    · rw [close_low, hro, hix]
      intro hlt
      exact absurd hlt (lt_irrefl _)
    · intro x hx
      rw [close_index]
      have := ((hmem x).mp hx).2
      omega
  · rw [close_of_ne hro]
    refine
      { grown := hgrown₀
        sound := hsnd.close_inner hscn hro
        seen := by
          rw [hix]
          exact hsound₀.counter_nonneg
        lows := hlows₀
        attained := ?_
        bound := hbd }
    intro hlt
    obtain ⟨y, hy, heq, hrch⟩ := hscn.attained
    have hyold := hold y hy (by omega)
    refine ⟨y, hyold, ?_, hrch⟩
    rw [← hk y hyold]
    exact heq

lemma visit_spec (fuel : Nat) : VisitSpec edges vs fuel (visit edges fuel) := by
  induction fuel with
  | zero =>
    intro path v t hsnd hv hvs _ hfuel
    have := card_unseen_enter hv hvs hsnd.counter_nonneg
    omega
  | succ fuel ih =>
    intro path v t hsnd hv hvs hpath hfuel
    have hp' : ∀ p ∈ v :: path, Reach edges p v := by
      intro p hp
      rcases mem_cons.mp hp with rfl | hp
      · exact .refl
      · exact hpath p hp
    have hless := card_unseen_enter hv hvs hsnd.counter_nonneg
    obtain ⟨t', hrun, hgrown, hsnd', hscn, hlows⟩ :=
      scan_spec hcld ih hvs hp' [] (edges v) rfl (hsnd.enter hv hvs hpath)
        (scanned_enter hsnd) (by omega)
    refine ⟨t'.close v, ?_, .of_scanned hv hsnd hgrown hsnd' hscn hlows⟩
    rw [visit, hrun, Option.map_some]

lemma visitAll_spec (todo : List V) (htodo : ∀ x ∈ todo, x ∈ vs) (hsnd : Sound edges vs [] t) :
    ∃ t', visitAll edges vs.length todo t = some t' ∧ Grown t t' ∧ Sound edges vs [] t' ∧
      ∀ x ∈ todo, 0 ≤ t'.index x := by
  induction todo generalizing t with
  | nil => exact ⟨t, rfl, .refl t, hsnd, fun x hx => absurd hx not_mem_nil⟩
  | cons v todo ih =>
    have hr : ∀ x ∈ todo, x ∈ vs := fun x hx => htodo x (mem_cons_of_mem _ hx)
    rw [visitAll]
    split
    next hv =>
      have hfuel : (unseen vs t).card ≤ vs.length :=
        le_trans (Finset.card_filter_le _ _) (toFinset_card_le vs)
      obtain ⟨t₁, hrun, hvis⟩ := visit_spec hcld vs.length [] v t hsnd hv
        (htodo v mem_cons_self) (fun p hp => absurd hp not_mem_nil) hfuel
      obtain ⟨t₂, hrun', hgrown, hsnd', hse⟩ := ih hr hvis.sound
      refine ⟨t₂, ?_, hvis.grown.trans hgrown, hsnd', ?_⟩
      · rw [hrun, Option.bind_some, hrun']
      · intro x hx
        rcases mem_cons.mp hx with rfl | hx
        · rw [hgrown.kept x hvis.seen]
          exact hvis.seen
        · exact hse x hx
    next hv =>
      obtain ⟨t₂, hrun', hgrown, hsnd', hse⟩ := ih hr hsnd
      refine ⟨t₂, hrun', hgrown, hsnd', ?_⟩
      intro x hx
      rcases mem_cons.mp hx with rfl | hx
      · rw [hgrown.kept x (by omega)]
        omega
      · exact hse x hx

end

omit [LinearOrder V] in
lemma start_index_neg (x : V) : ¬0 ≤ (start : Tarjan V).index x := by
  change ¬(0 : Int) ≤ -1
  omega

lemma sound_start (edges : V → List V) (vs : List V) : Sound edges vs [] (start : Tarjan V) where
  counter_nonneg := le_refl _
  index_lt x := by
    change (-1 : Int) < 0
    omega
  injective x y hx := absurd hx (start_index_neg x)
  onStack x := by simp [start]
  sorted := List.Pairwise.nil
  seen x := by simp [start]
  apart x hx := absurd hx not_mem_nil
  within x hx := absurd hx (start_index_neg x)
  path_mem p hp := absurd hp not_mem_nil
  anchored x hx := absurd hx not_mem_nil
  reaches p hp := absurd hp not_mem_nil
  explored x hx := absurd hx (start_index_neg x)
  emitted := Emitted.nil edges

lemma components_spec (hcld : ∀ x ∈ vs, ∀ y ∈ edges x, y ∈ vs) (hnd : vs.Nodup) :
    ∃ gs, components edges vs = some gs ∧ Emitted edges gs ∧ gs.flatten.Perm vs := by
  obtain ⟨t, hrun, -, hsnd, hse⟩ := visitAll_spec hcld vs (fun _ hx => hx) (sound_start edges vs)
  refine ⟨t.groups, ?_, hsnd.emitted, ?_⟩
  · rw [components, hrun, Option.map_some]
  · rw [perm_ext_iff_of_nodup hsnd.emitted.nodup hnd]
    intro x
    have hsk : x ∉ t.stack := by
      intro hx
      obtain ⟨p, hp, -⟩ := hsnd.anchored x hx
      exact not_mem_nil hp
    constructor
    · intro hx
      exact hsnd.within x ((hsnd.seen x).mpr (Or.inr hx))
    · intro hx
      exact ((hsnd.seen x).mp (hse x hx)).resolve_left hsk

end Tarjan
