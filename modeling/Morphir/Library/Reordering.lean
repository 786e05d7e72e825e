import Mathlib

/-!
# Lists related up to their order

Two lists are related up to their order when some order of the one is related to the other
item by item.  Maps, filters and concatenations keep such a relation.
-/

namespace Reordering

open Multiset

universe u

variable {α β γ δ : Type u}

def Reordered (R : α → β → Prop) (xs : List α) (ys : List β) : Prop :=
  Multiset.Rel R (xs : Multiset α) (ys : Multiset β)

namespace Reordered

variable {R : α → β → Prop} {S : γ → δ → Prop} {xs : List α} {ys : List β}

lemma nil : Reordered R ([] : List α) ([] : List β) := .zero

lemma single {a : α} {b : β} (h : R a b) : Reordered R [a] [b] := .cons h .zero

lemma append {xs' : List α} {ys' : List β} (h : Reordered R xs ys) (h' : Reordered R xs' ys') :
    Reordered R (xs ++ xs') (ys ++ ys') := by
  exact .add h h'

lemma perm_left {xs' : List α} (h : xs'.Perm xs) (hxs : Reordered R xs ys) :
    Reordered R xs' ys := by
  rw [Reordered, coe_eq_coe.mpr h]
  exact hxs

lemma perm_right {ys' : List β} (h : ys.Perm ys') (hys : Reordered R xs ys) :
    Reordered R xs ys' := by
  rw [Reordered, ← coe_eq_coe.mpr h]
  exact hys

section

variable (h : Reordered R xs ys)

include h

lemma flip : Reordered (fun b a => R a b) ys xs := rel_flip.mpr h

lemma mono {S : α → β → Prop} (hRS : ∀ a ∈ xs, ∀ b ∈ ys, R a b → S a b) : Reordered S xs ys :=
  Rel.mono h fun a ha b hb hab => hRS a ha b hb hab

lemma exists_mem {a : α} (ha : a ∈ xs) : ∃ b ∈ ys, R a b := exists_mem_of_rel_of_mem h ha

lemma map_perm {f : α → γ} {g : β → γ} (hfg : ∀ a b, R a b → f a = g b) :
    (xs.map f).Perm (ys.map g) := by
  have hrel : Rel Eq ((xs : Multiset α).map f) ((ys : Multiset β).map g) :=
    rel_map.mpr (.mono h fun a _ b _ hab => hfg a b hab)
  rw [rel_eq, map_coe, map_coe, coe_eq_coe] at hrel
  exact hrel

lemma flatMap {f : α → List γ} {g : β → List δ}
    (hfg : ∀ a ∈ xs, ∀ b ∈ ys, R a b → Reordered S (f a) (g b)) :
    Reordered S (xs.flatMap f) (ys.flatMap g) := by
  have hmem := h.mono hfg
  rw [Reordered, ← coe_bind, ← coe_bind]
  apply rel_join
  exact rel_map.mpr hmem

lemma map {f : α → γ} {g : β → δ} (hfg : ∀ a ∈ xs, ∀ b ∈ ys, R a b → S (f a) (g b)) :
    Reordered S (xs.map f) (ys.map g) := by
  exact rel_map.mpr (h.mono hfg)

lemma filterMap {f : α → Option γ} {g : β → Option δ}
    (hfg : ∀ a ∈ xs, ∀ b ∈ ys, R a b → Reordered S (f a).toList (g b).toList) :
    Reordered S (xs.filterMap f) (ys.filterMap g) := by
  rw [List.filterMap_eq_flatMap_toList, List.filterMap_eq_flatMap_toList]
  exact h.flatMap hfg

lemma filter {p : α → Bool} {q : β → Bool} (hpq : ∀ a ∈ xs, ∀ b ∈ ys, R a b → p a = q b) :
    Reordered R (xs.filter p) (ys.filter q) := by
  rw [← List.filterMap_eq_filter, ← List.filterMap_eq_filter]
  apply h.filterMap
  intro a ha b hb hab
  rw [Option.guard, Option.guard, hpq a ha b hb hab]
  cases q b with
  | true => exact single hab
  | false => exact nil

lemma isEmpty_eq : xs.isEmpty = ys.isEmpty := by
  have hlen := card_eq_card_of_rel h
  cases xs <;> cases ys <;> simp_all

end

end Reordered

end Reordering

/-!
## Stable sorting

What a stable sorted permutation of a list is, and that merging two of them gives one.
-/

universe u

variable {α : Type u} {cmp : α → α → Ordering}

/-- Whether the comparison puts the first item before the second or beside it. -/
def atMost (cmp : α → α → Ordering) (a b : α) : Bool := (cmp a b).isLE

/-- The items of a list in ascending order, those that compare equal in the order in which
the list has them. -/
structure StableSorted (cmp : α → α → Ordering) (xs ys : List α) : Prop where
  perm : ys.Perm xs
  sorted : ys.Pairwise fun a b => atMost cmp a b
  stable : ∀ a, ys.filter (fun x => cmp a x == .eq) = xs.filter fun x => cmp a x == .eq

lemma stableSorted_of_length_le_one {xs : List α} (h : xs.length ≤ 1) :
    StableSorted cmp xs xs where
  perm := List.Perm.refl xs
  sorted := by
    match xs, h with
    | [], _ => exact List.Pairwise.nil
    | [x], _ => exact List.pairwise_singleton _ x
  stable _ := rfl

variable [Std.TransCmp cmp]

lemma atMost_total (a b : α) : (atMost cmp a b || atMost cmp b a) = true := by
  unfold atMost
  cases h : cmp a b with
  | lt | eq => rfl
  | gt => rw [Std.OrientedCmp.lt_of_gt h, Bool.or_eq_true]; exact Or.inr rfl

lemma atMost_trans (a b c : α) (h : atMost cmp a b = true) (h' : atMost cmp b c = true) :
    atMost cmp a c = true := Std.TransCmp.isLE_trans h h'

lemma filter_merge (a : α) {xs ys : List α} (h : xs.Pairwise fun a b => atMost cmp a b) :
    (xs.merge ys (atMost cmp)).filter (fun x => cmp a x == .eq) =
      xs.filter (fun x => cmp a x == .eq) ++ ys.filter fun x => cmp a x == .eq := by
  induction xs generalizing ys with
  | nil => rw [List.nil_merge, List.filter_nil, List.nil_append]
  | cons x xs ihx =>
    obtain ⟨hx, hxs⟩ := List.pairwise_cons.mp h
    induction ys with
    | nil => rw [List.merge_right, List.filter_nil, List.append_nil]
    | cons y ys ihy =>
      rw [List.cons_merge_cons]
      split
      next => rw [List.filter_cons, List.filter_cons, ihx hxs]; split <;> rfl
      next hgt =>
        rw [List.filter_cons, ihy, List.filter_cons (x := y)]
        split
        next hy =>
          -- what is not below `y` is in another class
          have hno : (x :: xs).filter (fun x => cmp a x == .eq) = [] := by
            rw [List.filter_eq_nil_iff]
            intro z hz hza
            have hyz : (cmp z y).isLE := by
              have hya := Std.OrientedCmp.eq_symm (beq_iff_eq.mp hza)
              exact Std.TransCmp.isLE_trans (Ordering.isLE_of_eq_eq hya)
                (Ordering.isLE_of_eq_eq (beq_iff_eq.mp hy))
            have hxz : (cmp x z).isLE := by
              rcases List.mem_cons.mp hz with rfl | hz
              · exact Ordering.isLE_of_eq_eq Std.ReflCmp.compare_self
              · exact hx z hz
            exact hgt (Std.TransCmp.isLE_trans hxz hyz)
          rw [hno, List.nil_append, List.nil_append]
        next => rfl

lemma StableSorted.merge {xs ys xs' ys' : List α} (hx : StableSorted cmp xs xs')
    (hy : StableSorted cmp ys ys') :
    StableSorted cmp (xs ++ ys) (xs'.merge ys' (atMost cmp)) where
  perm := (List.merge_perm_append _).trans (hx.perm.append hy.perm)
  sorted := List.pairwise_merge atMost_trans atMost_total xs' ys' hx.sorted hy.sorted
  stable a := by rw [filter_merge a hx.sorted, hx.stable, hy.stable, List.filter_append]
