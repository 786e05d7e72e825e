import Mathlib

/-!
# Ring buffers

A ring buffer of a fixed capacity holds the last items that were pushed.
-/

universe u

variable {α : Type u}

namespace List

lemma rtake_rtake_append (n : Nat) (xs ys : List α) :
    (xs.rtake n ++ ys).rtake n = (xs ++ ys).rtake n := by
  rw [rtake_eq_reverse_take_reverse, rtake_eq_reverse_take_reverse, rtake_eq_reverse_take_reverse,
    reverse_append, reverse_append, reverse_reverse, take_append, take_append, take_take,
    Nat.min_eq_left (Nat.sub_le n _)]

lemma rtake_append_rtake (n : Nat) (xs ys : List α) :
    (xs ++ ys.rtake n).rtake n = (xs ++ ys).rtake n := by
  rw [rtake_eq_reverse_take_reverse, rtake_eq_reverse_take_reverse, rtake_eq_reverse_take_reverse,
    reverse_append, reverse_append, reverse_reverse, take_append, take_append, take_take,
    Nat.min_self, length_take]
  congr 3
  omega

lemma rtake_of_length_le {n : Nat} {xs : List α} (h : xs.length ≤ n) : xs.rtake n = xs := by
  rw [rtake, Nat.sub_eq_zero_of_le h, drop_zero]

lemma rtake_rtake_of_le {m n : Nat} (h : m ≤ n) (xs : List α) :
    (xs.rtake n).rtake m = xs.rtake m := by
  rw [rtake_eq_reverse_take_reverse, rtake_eq_reverse_take_reverse, rtake_eq_reverse_take_reverse,
    reverse_reverse, take_take, Nat.min_eq_left h]

end List

/-- A ring of cells, of which the `length` ones from `start` on are in use. -/
structure RingBuffer (α : Type u) (capacity : Nat) where
  cells : Vector α capacity
  start : Nat
  length : Nat
  start_lt : start < capacity
  length_le : length ≤ capacity

namespace RingBuffer

variable {capacity : Nat}

lemma capacity_pos (r : RingBuffer α capacity) : 0 < capacity := Nat.zero_lt_of_lt r.start_lt

def place (r : RingBuffer α capacity) (i : Nat) : Nat := (r.start + i) % capacity

variable (r : RingBuffer α capacity)

lemma place_lt (i : Nat) : r.place i < capacity := Nat.mod_lt _ r.capacity_pos

def item (r : RingBuffer α capacity) (i : Nat) : α := r.cells.get ⟨r.place i, r.place_lt i⟩

def contents (r : RingBuffer α capacity) : List α := List.ofFn fun i : Fin r.length => r.item i

def empty (fill : α) (h : 0 < capacity) : RingBuffer α capacity where
  cells := Vector.replicate capacity fill
  start := 0
  length := 0
  start_lt := h
  length_le := Nat.zero_le capacity

/-- Writes an item behind the others, over the oldest one when the ring is full. -/
def push (r : RingBuffer α capacity) (x : α) : RingBuffer α capacity :=
  if h : r.length < capacity then
    { cells := r.cells.set (r.place r.length) x (r.place_lt _)
      start := r.start
      length := r.length + 1
      start_lt := r.start_lt
      length_le := h }
  else
    { cells := r.cells.set (r.place r.length) x (r.place_lt _)
      start := (r.start + 1) % capacity
      length := r.length
      start_lt := Nat.mod_lt _ r.capacity_pos
      length_le := r.length_le }

lemma length_contents : r.contents.length = r.length := List.length_ofFn

lemma getElem_contents (i : Nat) (h : i < r.contents.length) :
    r.contents[i] = r.item i := List.getElem_ofFn h

@[simp] lemma contents_empty (fill : α) (h : 0 < capacity) : (empty fill h).contents = [] := rfl

lemma item_set (cells : Vector α capacity) {p : Nat} (hp : p < capacity) (x : α)
    (start length : Nat) (hsta : start < capacity) (hlen : length ≤ capacity) (i : Nat) :
    item ⟨cells.set p x hp, start, length, hsta, hlen⟩ i = if p = (start + i) % capacity then x
      else item ⟨cells, start, length, hsta, hlen⟩ i := Vector.getElem_set hp _

lemma place_ne {i j : Nat} (hi : i < j) (hj : j < capacity) : r.place i ≠ r.place j := by
  intro heq
  have hmod : i ≡ j [MOD capacity] := .add_left_cancel' r.start heq
  exact hi.ne (hmod.eq_of_lt_of_lt (hi.trans hj) hj)

lemma contents_push (x : α) : (r.push x).contents = (r.contents ++ [x]).rtake capacity := by
  unfold push
  split
  next h =>
    have hkp : (r.contents ++ [x]).rtake capacity = r.contents ++ [x] := by
      apply List.rtake_of_length_le
      rw [List.length_append, length_contents]
      exact h
    rw [hkp]
    apply List.ext_getElem
    · rw [length_contents, List.length_append, length_contents, List.length_singleton]
    · intro i hi hi'
      rw [getElem_contents, List.getElem_append]
      rw [item_set]
      rw [length_contents] at hi
      split
      next heq =>
        have hl : i = r.length := by
          rcases Nat.lt_or_eq_of_le (Nat.le_of_lt_succ hi) with hlt | hl
          · exact absurd heq.symm (r.place_ne hlt h)
          · exact hl
        rw [dif_neg (by rw [length_contents]; omega)]
        simp
      next hne =>
        have hlt : i < r.length := by
          rcases Nat.lt_or_eq_of_le (Nat.le_of_lt_succ hi) with hlt | rfl
          · exact hlt
          · exact absurd rfl hne
        rw [dif_pos (by rw [length_contents]; exact hlt), getElem_contents]
        rfl
  next h =>
    have hfu : r.length = capacity := Nat.le_antisymm r.length_le (Nat.not_lt.mp h)
    have hpos := r.capacity_pos
    have hnx : ∀ i, ((r.start + 1) % capacity + i) % capacity = r.place (i + 1) := by
      intro i
      rw [place, Nat.mod_add_mod, Nat.add_assoc, Nat.add_comm 1 i]
    have hwrap : r.place r.length = r.place 0 := by
      rw [place, place, hfu, Nat.add_mod_right, Nat.add_zero]
    have hkp : (r.contents ++ [x]).rtake capacity = r.contents.drop 1 ++ [x] := by
      rw [List.rtake, List.length_append, length_contents, List.length_singleton, hfu,
        Nat.add_sub_cancel_left, List.drop_append_of_le_length]
      rw [length_contents, hfu]
      exact hpos
    rw [hkp]
    apply List.ext_getElem
    · rw [length_contents, List.length_append, List.length_drop, length_contents,
        List.length_singleton, hfu, Nat.sub_add_cancel hpos]
    · intro i hi hi'
      rw [length_contents] at hi
      dsimp only at hi
      rw [getElem_contents, List.getElem_append]
      rw [item_set]
      split
      next heq =>
        have hl : i + 1 = capacity := by
          rw [hnx, hwrap] at heq
          by_contra hne
          exact r.place_ne (Nat.succ_pos i) (by omega) heq
        rw [dif_neg (by rw [List.length_drop, length_contents]; omega)]
        simp
      next hne =>
        have hlt : i + 1 < capacity := by
          by_contra hge
          apply hne
          rw [hnx, show i + 1 = r.length by omega]
        rw [dif_pos (by rw [List.length_drop, length_contents]; omega), List.getElem_drop,
          getElem_contents, Nat.add_comm 1 i]
        unfold item
        congr 2
        exact hnx i

lemma contents_foldl_push (xs : List α) :
    (xs.foldl push r).contents = (r.contents ++ xs).rtake capacity := by
  induction xs generalizing r with
  | nil =>
    rw [List.foldl_nil, List.append_nil, List.rtake_of_length_le]
    rw [length_contents]
    exact r.length_le
  | cons x xs ih =>
    rw [List.foldl_cons, ih, contents_push, List.rtake_rtake_append, List.append_assoc,
      List.singleton_append]

end RingBuffer
