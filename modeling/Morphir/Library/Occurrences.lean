import Mathlib

/-!
# Occurrences of a word in a text

The leftmost occurrences that do not overlap, the pieces of the text between
them, and the text with another word in their place.
-/

namespace Occurrences

open List

variable {α : Type} {source needle : List α} {start stop p : Nat} {positions : List Nat}

def part (source : List α) (start stop : Nat) : List α := (source.take stop).drop start

lemma part_append_drop (h : start ≤ stop) :
    part source start stop ++ source.drop stop = source.drop start := by
  have hdrop : source.drop stop = (source.drop start).drop (stop - start) := by
    rw [drop_drop, Nat.add_sub_of_le h]
  rw [part, drop_take, hdrop, take_append_drop]

/-- Each position is an occurrence, they do not overlap, and each occurrence
from the start on begins inside one of them. -/
structure Leftmost (source needle : List α) (start : Nat) (positions : List Nat) : Prop where
  occurs : ∀ p ∈ positions, needle <+: source.drop p
  apart : positions.Pairwise fun p q => p + needle.length ≤ q
  after : ∀ p ∈ positions, start ≤ p
  covers : ∀ j, start ≤ j → needle <+: source.drop j →
    ∃ p ∈ positions, p ≤ j ∧ j < p + needle.length

lemma length_of_occurs (h : needle <+: source.drop p) :
    needle = [] ∨ p + needle.length ≤ source.length := by
  have hle := h.length_le
  rw [length_drop] at hle
  rcases needle with _ | ⟨c, cs⟩
  · exact .inl rfl
  · rw [length_cons] at hle ⊢
    exact .inr (by omega)

lemma Leftmost.nil (hne : needle ≠ []) (h : source.length < start + needle.length) :
    Leftmost source needle start [] := by
  refine ⟨by simp, .nil, by simp, fun j hj hocc => ?_⟩
  have hle := (length_of_occurs hocc).resolve_left hne
  omega

lemma Leftmost.skip (h : Leftmost source needle (start + 1) positions)
    (hno : ¬ needle <+: source.drop start) : Leftmost source needle start positions := by
  refine ⟨h.occurs, h.apart, fun p hp => Nat.le_of_succ_le (h.after p hp), fun j hj hocc => ?_⟩
  have hne : j ≠ start := by
    rintro rfl
    exact hno hocc
  exact h.covers j (by omega) hocc

lemma Leftmost.cons (h : Leftmost source needle (start + needle.length) positions)
    (hocc : needle <+: source.drop start) : Leftmost source needle start (start :: positions) := by
  refine ⟨forall_mem_cons.mpr ⟨hocc, h.occurs⟩, h.apart.cons h.after,
    forall_mem_cons.mpr ⟨le_rfl, fun p hp => ?_⟩, fun j hj hj' => ?_⟩
  · exact (Nat.le_add_right _ _).trans (h.after p hp)
  · by_cases hlt : j < start + needle.length
    · exact ⟨start, mem_cons_self, hj, hlt⟩
    · obtain ⟨p, hp, hle, hlt⟩ := h.covers j (not_lt.mp hlt) hj'
      exact ⟨p, mem_cons_of_mem _ hp, hle, hlt⟩

lemma Leftmost.tail (h : Leftmost source needle start (p :: positions)) :
    Leftmost source needle (p + needle.length) positions := by
  obtain ⟨hafter, hapart⟩ := pairwise_cons.mp h.apart
  refine ⟨(forall_mem_cons.mp h.occurs).2, hapart, hafter, fun j hj hocc => ?_⟩
  have hp := h.after p mem_cons_self
  obtain ⟨q, hq, hle, hlt⟩ := h.covers j (by omega) hocc
  obtain rfl | hq := mem_cons.mp hq
  · omega
  · exact ⟨q, hq, hle, hlt⟩

/-- The pieces between words of the given width at the given positions. -/
def cutAt (source : List α) (width : Nat) : Nat → List Nat → List (List α)
  | start, [] => [part source start source.length]
  | start, p :: positions => part source start p :: cutAt source width (p + width) positions

/-- The text with another word in place of those at the given positions. -/
def substitute (source : List α) (width : Nat) (word : List α) : Nat → List Nat → List α
  | start, [] => part source start source.length
  | start, p :: positions =>
    part source start p ++ word ++ substitute source width word (p + width) positions

lemma intercalate_cutAt (word : List α) (width start : Nat) (positions : List Nat) :
    word.intercalate (cutAt source width start positions) =
      substitute source width word start positions := by
  induction positions generalizing start with
  | nil => simp [cutAt, substitute]
  | cons p positions ih =>
    rw [substitute, ← ih]
    cases positions <;> simp [cutAt]

lemma Leftmost.substitute_self (h : Leftmost source needle start positions) :
    substitute source needle.length needle start positions = source.drop start := by
  induction positions generalizing start with
  | nil => rw [substitute, part, take_length]
  | cons p positions ih =>
    obtain ⟨rest, hrest⟩ := h.occurs p mem_cons_self
    have hdrop : source.drop (p + needle.length) = rest := by rw [← drop_drop, ← hrest, drop_left]
    rw [substitute, ih h.tail, hdrop, append_assoc, hrest,
      part_append_drop (h.after p mem_cons_self)]

lemma occurs_of_infix_part (h : needle <:+: part source start stop) :
    needle = [] ∨ ∃ j, start ≤ j ∧ j + needle.length ≤ stop ∧ needle <+: source.drop j := by
  obtain ⟨front, back, heq⟩ := h
  have hlen := congrArg List.length heq
  simp only [part, length_append, length_drop, length_take] at hlen
  rcases needle with _ | ⟨c, cs⟩
  · exact .inl rfl
  refine .inr ⟨start + front.length, Nat.le_add_right _ _, ?_, ?_⟩
  · rw [length_cons] at hlen ⊢
    omega
  · have hpre : (c :: cs) ++ back = ((source.take stop).drop start).drop front.length := by
      rw [← part, ← heq, append_assoc, drop_left]
    rw [drop_drop] at hpre
    have hcut : (c :: cs) <+: (source.take stop).drop (start + front.length) := ⟨back, hpre⟩
    exact hcut.trans (( take_prefix stop source).drop _)

lemma Leftmost.pieces_free (hne : needle ≠ []) (h : Leftmost source needle start positions) :
    ∀ piece ∈ cutAt source needle.length start positions, ¬ needle <:+: piece := by
  have hpos := length_pos_of_ne_nil hne
  induction positions generalizing start with
  | nil =>
    intro piece hpiece hin
    obtain rfl := mem_singleton.mp hpiece
    obtain ⟨j, hj, -, hocc⟩ := (occurs_of_infix_part hin).resolve_left hne
    obtain ⟨q, hq, -⟩ := h.covers j hj hocc
    cases hq
  | cons p positions ih =>
    refine forall_mem_cons.mpr ⟨fun hin => ?_, ih h.tail⟩
    obtain ⟨j, hj, hle, hocc⟩ := (occurs_of_infix_part hin).resolve_left hne
    obtain ⟨q, hq, hqj, -⟩ := h.covers j hj hocc
    have hpq : p ≤ q := by
      obtain rfl | hq := mem_cons.mp hq
      · exact le_rfl
      · have := h.tail.after q hq
        omega
    omega

end Occurrences
