import Mathlib

/-!
# Strongly connected components

Tarjan's algorithm, with its stack and its low links.  A component comes out after every
component that it refers to.
-/

open Relation

universe u

/-- The state of the search.  A vertex without an index is not visited. -/
structure Tarjan (V : Type u) where
  index : V → Int
  low : V → Int
  onStack : V → Bool
  stack : List V
  counter : Int
  groups : List (List V)

namespace Tarjan

open List

variable {V : Type u}

def start : Tarjan V := ⟨fun _ => -1, fun _ => 0, fun _ => false, [], 0, []⟩

section Search

variable [LinearOrder V]

def enter (v : V) (t : Tarjan V) : Tarjan V :=
  { t with
    index := Function.update t.index v t.counter
    low := Function.update t.low v t.counter
    counter := t.counter + 1
    stack := v :: t.stack
    onStack := Function.update t.onStack v true }

def lower (v : V) (bound : Int) (t : Tarjan V) : Tarjan V :=
  { t with low := Function.update t.low v (min (t.low v) bound) }

/-- Pops up to and with `v`: what is popped, and what stays. -/
def popTo (v : V) : List V → List V × List V
  | [] => ([], [])
  | w :: rest =>
    if w = v then ([w], rest)
    else (w :: (popTo v rest).1, (popTo v rest).2)

def close (v : V) (t : Tarjan V) : Tarjan V :=
  if t.low v = t.index v then
    let group := (popTo v t.stack).1
    { t with
      stack := (popTo v t.stack).2
      onStack := fun w => if w ∈ group then false else t.onStack w
      groups := t.groups ++ [group.mergeSort (· ≤ ·)] }
  else t

/-- The loop over the edges of `v`, with the recursive visit as a parameter. -/
def scan (visit : V → Tarjan V → Option (Tarjan V)) (v : V) :
    List V → Tarjan V → Option (Tarjan V)
  | [], t => some t
  | w :: ws, t =>
    if t.index w < 0 then
      (visit w t).bind fun t' => scan visit v ws (t'.lower v (t'.low w))
    else if t.onStack w then scan visit v ws (t.lower v (t.index w))
    else scan visit v ws t

def visit (edges : V → List V) : Nat → V → Tarjan V → Option (Tarjan V)
  | 0, _, _ => none
  | fuel + 1, v, t => (scan (visit edges fuel) v (edges v) (t.enter v)).map (close v)

def visitAll (edges : V → List V) (fuel : Nat) : List V → Tarjan V → Option (Tarjan V)
  | [], t => some t
  | v :: vs, t =>
    if t.index v < 0 then (visit edges fuel v t).bind (visitAll edges fuel vs)
    else visitAll edges fuel vs t

def components (edges : V → List V) (vs : List V) : Option (List (List V)) :=
  (visitAll edges vs.length vs start).map groups

end Search

def Reach (edges : V → List V) : V → V → Prop := ReflTransGen fun x y => y ∈ edges x

/-- Emitted components: each holds the vertices that reach one another, and its edges lead
into itself or into an earlier one. -/
structure Emitted [LinearOrder V] (edges : V → List V) (groups : List (List V)) : Prop where
  nodup : groups.flatten.Nodup
  nonempty : ∀ g ∈ groups, g ≠ []
  increasing : ∀ g ∈ groups, g.Pairwise (· < ·)
  component : ∀ g ∈ groups, ∀ x ∈ g, ∀ y, y ∈ g ↔ Reach edges x y ∧ Reach edges y x
  ordered : ∀ front g back, groups = front ++ g :: back →
    ∀ x ∈ g, ∀ y ∈ edges x, y ∈ g ∨ y ∈ front.flatten

namespace Emitted

variable [LinearOrder V] {edges : V → List V} {groups : List (List V)}

lemma nil (edges : V → List V) : Emitted edges [] where
  nodup := nodup_nil
  nonempty g hg := absurd hg not_mem_nil
  increasing g hg := absurd hg not_mem_nil
  component g hg := absurd hg not_mem_nil
  ordered front g back h := by simp at h

section

variable (h : Emitted edges groups)

include h

lemma closed {x y : V} (hx : x ∈ groups.flatten) (hy : y ∈ edges x) : y ∈ groups.flatten := by
  obtain ⟨g, hg, hxg⟩ := mem_flatten.mp hx
  obtain ⟨front, back, rfl⟩ := append_of_mem hg
  rw [flatten_append, flatten_cons, mem_append, mem_append]
  rcases h.ordered front g back rfl x hxg y hy with hy | hy
  · exact Or.inr (Or.inl hy)
  · exact Or.inl hy

lemma closed_reach {x y : V} (hx : x ∈ groups.flatten) (hxy : Reach edges x y) :
    y ∈ groups.flatten := by
  induction hxy with
  | refl => exact hx
  | tail _ hedge ih => exact h.closed ih hedge

lemma snoc {g : List V} (hne : g ≠ []) (hsor : g.Pairwise (· < ·))
    (hnew : ∀ x ∈ g, x ∉ groups.flatten)
    (hcomp : ∀ x ∈ g, ∀ y, y ∈ g ↔ Reach edges x y ∧ Reach edges y x)
    (hedges : ∀ x ∈ g, ∀ y ∈ edges x, y ∈ g ∨ y ∈ groups.flatten) :
    Emitted edges (groups ++ [g]) where
  nodup := by
    rw [flatten_append, flatten_singleton]
    apply List.Nodup.append h.nodup (hsor.imp (fun hlt => ne_of_lt hlt))
    intro x hx hxg
    exact hnew x hxg hx
  nonempty f hf := by
    rcases mem_append.mp hf with hf | hf
    · exact h.nonempty f hf
    · rw [mem_singleton.mp hf]
      exact hne
  increasing f hf := by
    rcases mem_append.mp hf with hf | hf
    · exact h.increasing f hf
    · rw [mem_singleton.mp hf]
      exact hsor
  component f hf := by
    rcases mem_append.mp hf with hf | hf
    · exact h.component f hf
    · rw [mem_singleton.mp hf]
      exact hcomp
  ordered front f back heq := by
    rcases eq_nil_or_concat back with rfl | ⟨back, last, rfl⟩
    · obtain ⟨rfl, hg⟩ := append_inj' heq rfl
      obtain rfl : g = f := by simpa using hg
      exact hedges
    · rw [concat_eq_append, ← cons_append, ← append_assoc] at heq
      obtain ⟨rfl, -⟩ := append_inj' heq rfl
      exact h.ordered front f back rfl

end

end Emitted

section Invariant

variable [LinearOrder V] (edges : V → List V) (vs : List V)

/-- The state while the vertices of `path` are being visited, the last one first. -/
structure Sound (path : List V) (t : Tarjan V) : Prop where
  counter_nonneg : 0 ≤ t.counter
  index_lt : ∀ x, t.index x < t.counter
  injective : ∀ x y, 0 ≤ t.index x → t.index x = t.index y → x = y
  onStack : ∀ x, t.onStack x = true ↔ x ∈ t.stack
  sorted : t.stack.Pairwise fun x y => t.index y < t.index x
  seen : ∀ x, 0 ≤ t.index x ↔ x ∈ t.stack ∨ x ∈ t.groups.flatten
  apart : ∀ x ∈ t.stack, x ∉ t.groups.flatten
  within : ∀ x, 0 ≤ t.index x → x ∈ vs
  path_mem : ∀ p ∈ path, p ∈ t.stack
  anchored : ∀ x ∈ t.stack, ∃ p ∈ path, t.index p ≤ t.index x ∧ Reach edges x p
  reaches : ∀ p ∈ path, ∀ x ∈ t.stack, t.index p ≤ t.index x → Reach edges p x
  explored : ∀ x, 0 ≤ t.index x → x ∉ path → ∀ y ∈ edges x, 0 ≤ t.index y
  emitted : Emitted edges t.groups

/-- What the loop over the edges of `v` knows after the edges `done`. -/
structure Scanned (v : V) (done : List V) (t : Tarjan V) : Prop where
  low_le : t.low v ≤ t.index v
  attained : ∃ y ∈ t.stack, t.index y = t.low v ∧ Reach edges v y
  seen : ∀ y ∈ done, 0 ≤ t.index y
  bound : ∀ x ∈ t.stack, t.index v ≤ t.index x → ∀ y ∈ edges x, (x = v → y ∈ done) →
    y ∈ t.stack → t.index y < t.index v → t.low v ≤ t.index y

end Invariant

/-- How a state grows: vertices keep their indices and their places on the stack. -/
structure Grown (t t' : Tarjan V) : Prop where
  counter : t.counter ≤ t'.counter
  kept : ∀ x, 0 ≤ t.index x → t'.index x = t.index x
  fresh : ∀ x, t.index x < 0 → 0 ≤ t'.index x → t.counter ≤ t'.index x
  stack : ∀ x ∈ t.stack, x ∈ t'.stack
  old : ∀ x ∈ t'.stack, 0 ≤ t.index x → x ∈ t.stack

namespace Grown

variable {t t' t'' : Tarjan V}

lemma refl (t : Tarjan V) : Grown t t where
  counter := le_refl _
  kept _ _ := rfl
  fresh x hx hx' := by omega
  stack _ hx := hx
  old _ hx _ := hx

lemma trans (h : Grown t t') (h' : Grown t' t'') : Grown t t'' where
  counter := le_trans h.counter h'.counter
  kept x hx := by
    have hk := h.kept x hx
    rw [h'.kept x (by omega), hk]
  fresh x hx hx'' := by
    rcases lt_or_ge (t'.index x) 0 with hx' | hx'
    · exact le_trans h.counter (h'.fresh x hx' hx'')
    · rw [h'.kept x hx']
      exact h.fresh x hx hx'
  stack x hx := h'.stack x (h.stack x hx)
  old x hx hx0 := by
    apply h.old x _ hx0
    apply h'.old x hx
    rw [h.kept x hx0]
    exact hx0

end Grown

/-- What a visit of `v` does while `path` is being visited. -/
structure Visited [LinearOrder V] (edges : V → List V) (vs path : List V) (v : V)
    (t t' : Tarjan V) : Prop where
  grown : Grown t t'
  sound : Sound edges vs path t'
  seen : 0 ≤ t'.index v
  lows : ∀ x, 0 ≤ t.index x → t'.low x = t.low x
  attained : t'.low v < t.counter → ∃ y ∈ t.stack, t.index y = t'.low v ∧ Reach edges v y
  bound : ∀ x ∈ t'.stack, t.counter ≤ t'.index x → ∀ y ∈ edges x, y ∈ t.stack → t'.low v ≤ t.index y

end Tarjan
