import Mathlib

/-!
# Lists with distinct keys
-/

namespace Keyed

open List

universe u v

variable {α : Type u} {κ : Type v} [DecidableEq κ] {key : α → κ} {xs : List α}

lemma filter_eq_singleton (h : (xs.map key).Nodup) {x : α} (hx : x ∈ xs) :
    (xs.filter fun y => key y = key x) = [x] := by
  induction xs with
  | nil => cases hx
  | cons head tail ih =>
    rw [map_cons, nodup_cons] at h
    rcases mem_cons.mp hx with rfl | hx
    · have hno : (tail.filter fun y => key y = key x) = [] := by
        rw [filter_eq_nil_iff]
        intro y hy hkey
        exact h.1 (mem_map.mpr ⟨y, hy, by simpa using hkey⟩)
      rw [filter_cons_of_pos (by simp), hno]
    · have hne : key head ≠ key x := fun heq => h.1 (heq ▸ mem_map_of_mem hx)
      rw [filter_cons_of_neg (by simpa using hne), ih h.2 hx]

lemma find?_eq_some (h : (xs.map key).Nodup) {k : κ} {x : α} :
    xs.find? (fun y => key y = k) = some x ↔ x ∈ xs ∧ key x = k := by
  constructor
  · intro hfn
    exact ⟨mem_of_find?_eq_some hfn, by simpa using List.find?_some hfn⟩
  · rintro ⟨hx, rfl⟩
    rw [← List.head?_filter, filter_eq_singleton h hx, List.head?_cons]

end Keyed

/-!
## Lists related item by item
-/

namespace List

universe u v

variable {α : Type u} {β : Type v} {R S : α → β → Prop} {xs : List α} {ys : List β}

section

variable (h : Forall₂ R xs ys)

include h

lemma Forall₂.imp_left (hRS : ∀ x ∈ xs, ∀ y, R x y → S x y) : Forall₂ S xs ys := by
  induction h with
  | nil => exact .nil
  | cons head _ ih =>
    have hh := hRS _ mem_cons_self _ head
    have htl := ih fun x hx => hRS x (mem_cons_of_mem _ hx)
    exact .cons hh htl

lemma Forall₂.forall_right {P : β → Prop} (hP : ∀ x ∈ xs, ∀ y, R x y → P y) : ∀ y ∈ ys, P y := by
  induction h with
  | nil => simp
  | cons head _ ih =>
    intro y hy
    rcases mem_cons.mp hy with rfl | hy
    · exact hP _ mem_cons_self _ head
    · exact ih (fun x hx => hP x (mem_cons_of_mem _ hx)) y hy

lemma Forall₂.exists_right : ∀ x ∈ xs, ∃ y ∈ ys, R x y := by
  induction h with
  | nil => simp
  | cons head _ ih =>
    intro x hx
    rcases mem_cons.mp hx with rfl | hx
    · exact ⟨_, mem_cons_self, head⟩
    · obtain ⟨y, hy, hR⟩ := ih x hx
      exact ⟨y, mem_cons_of_mem _ hy, hR⟩

lemma Forall₂.exists_left : ∀ y ∈ ys, ∃ x ∈ xs, R x y := h.flip.exists_right

end

lemma mem_zip_map {γ δ : Type*} {f : α → γ} {g : β → δ} {e : γ × δ} :
    e ∈ (xs.map f).zip (ys.map g) ↔ ∃ p ∈ xs.zip ys, e = (f p.1, g p.2) := by
  rw [zip_map, mem_map]
  exact ⟨fun ⟨p, hp, heq⟩ => ⟨p, hp, heq.symm⟩, fun ⟨p, hp, heq⟩ => ⟨p, hp, heq.symm⟩⟩

lemma eq_of_mem_zip_self {e : α × α} (h : e ∈ xs.zip xs) : e.1 = e.2 := by
  induction xs with
  | nil => simp at h
  | cons x xs ih =>
    rcases mem_cons.mp h with rfl | h
    · rfl
    · exact ih h

lemma exists_mem_zip_between {γ : Type*} {zs : List γ} (hxy : xs.length = ys.length)
    (hyz : ys.length = zs.length) {x : α} {z : γ} (h : (x, z) ∈ xs.zip zs) :
    ∃ y, (x, y) ∈ xs.zip ys ∧ (y, z) ∈ ys.zip zs := by
  induction xs generalizing ys zs with
  | nil => simp at h
  | cons x' xs ih =>
    cases ys with
    | nil => simp at hxy
    | cons y ys =>
      cases zs with
      | nil => simp at hyz
      | cons z' zs =>
        rcases mem_cons.mp h with heq | h
        · cases heq
          exact ⟨y, mem_cons_self, mem_cons_self⟩
        · obtain ⟨y', hx, hz⟩ := ih (Nat.succ.inj hxy) (Nat.succ.inj hyz) h
          exact ⟨y', mem_cons_of_mem _ hx, mem_cons_of_mem _ hz⟩

lemma exists_threshold {P : α → Nat → Prop}
    (h : ∀ x ∈ xs, ∃ n, ∀ m, n ≤ m → P x m) : ∃ n, ∀ x ∈ xs, ∀ m, n ≤ m → P x m := by
  induction xs with
  | nil => exact ⟨0, by simp⟩
  | cons x xs ih =>
    obtain ⟨n, hn⟩ := h x mem_cons_self
    obtain ⟨k, hk⟩ := ih fun y hy => h y (mem_cons_of_mem _ hy)
    refine ⟨max n k, ?_⟩
    intro y hy m hm
    rcases mem_cons.mp hy with rfl | hy
    · exact hn m (Nat.le_trans (Nat.le_max_left n k) hm)
    · exact hk y hy m (Nat.le_trans (Nat.le_max_right n k) hm)

lemma mapM_eq_ok {ε γ δ : Type} {f : γ → Except ε δ} {as : List γ} {bs : List δ} :
    as.mapM f = .ok bs ↔ Forall₂ (fun a b => f a = .ok b) as bs := by
  induction as generalizing bs with
  | nil =>
    rw [forall₂_nil_left_iff]
    exact ⟨fun h => (Except.ok.inj h).symm, fun h => congrArg Except.ok h.symm⟩
  | cons a as ih =>
    rw [mapM_cons, forall₂_cons_left_iff]
    constructor
    · intro h
      cases ha : f a with
      | error e =>
        rw [ha] at h
        cases h
      | ok b =>
        cases has : as.mapM f with
        | error e =>
          rw [ha, has] at h
          cases h
        | ok rest =>
          rw [ha, has] at h
          exact ⟨b, rest, rfl, ih.mp has, (Except.ok.inj h).symm⟩
    · rintro ⟨b, rest, hb, hr, rfl⟩
      rw [hb, ih.mpr hr]
      rfl

lemma intercalate_cons_eq_flatMap {γ : Type*} (sep part : List γ) (parts : List (List γ)) :
    sep.intercalate (part :: parts) = part ++ parts.flatMap (sep ++ ·) := by
  induction parts generalizing part with
  | nil => rw [intercalate_singleton, flatMap_nil, append_nil]
  | cons next parts ih => rw [intercalate_cons_cons, ih, flatMap_cons, append_assoc, append_assoc]

lemma append_sep_inj {sep : α} {ys us vs : List α} (hx : sep ∉ xs) (hy : sep ∉ ys)
    (h : xs ++ sep :: us = ys ++ sep :: vs) : xs = ys ∧ us = vs := by
  induction xs generalizing ys with
  | nil =>
    cases ys with
    | nil => exact ⟨rfl, (cons_eq_cons.mp h).2⟩
    | cons y ys => exact absurd (by rw [(cons_eq_cons.mp h).1]; simp) hy
  | cons x xs ih =>
    cases ys with
    | nil => exact absurd (by rw [(cons_eq_cons.mp h).1]; simp) hx
    | cons y ys =>
      obtain ⟨rfl, hrest⟩ := cons_eq_cons.mp h
      rw [mem_cons, not_or] at hx hy
      obtain ⟨rfl, hends⟩ := ih hx.2 hy.2 hrest
      exact ⟨rfl, hends⟩

end List
