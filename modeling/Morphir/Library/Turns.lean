import Mathlib

/-!
# Exclusive turns

Owners take turns: an owner begins, acts and ends.  In an exclusive history a turn
begins only after the one before it has ended, and only the owner of a turn acts.
-/

namespace Turns

open List

universe u v

variable {ι : Type u} {α : Type v}

inductive Happening (ι : Type u) (α : Type v)
  | began (owner : ι)
  | acted (owner : ι) (action : α)
  | ended (owner : ι)

/-- A history of turns that do not overlap, with the owner of the turn that has not
ended. -/
inductive Exclusive : List (Happening ι α) → Option ι → Prop
  | nil : Exclusive [] none
  | began {history : List (Happening ι α)} (owner : ι) (h : Exclusive history none) :
      Exclusive (history ++ [.began owner]) (some owner)
  | acted {history : List (Happening ι α)} {owner : ι} (action : α)
      (h : Exclusive history (some owner)) :
      Exclusive (history ++ [.acted owner action]) (some owner)
  | ended {history : List (Happening ι α)} {owner : ι} (h : Exclusive history (some owner)) :
      Exclusive (history ++ [.ended owner]) none

namespace Exclusive

variable {history : List (Happening ι α)} {holder : Option ι}

lemma front {last : Happening ι α} (h : Exclusive (history ++ [last]) holder) :
    ∃ holder', Exclusive history holder' := by
  generalize hwh : history ++ [last] = whole at h
  cases h with
  | nil => simp at hwh
  | began owner h | acted action h | ended h =>
    obtain ⟨rfl, -⟩ := append_inj' hwh rfl
    exact ⟨_, h⟩

lemma append_left {back : List (Happening ι α)} (h : Exclusive (history ++ back) holder) :
    ∃ holder', Exclusive history holder' := by
  induction back using List.reverseRecOn generalizing holder with
  | nil => exact ⟨holder, by simpa using h⟩
  | append_singleton back last ih =>
    rw [← append_assoc] at h
    obtain ⟨holder', h'⟩ := h.front
    exact ih h'

variable {owner : ι}

lemma of_acted {action : α} (h : Exclusive (history ++ [.acted owner action]) holder) :
    Exclusive history (some owner) := by
  generalize hwh : history ++ [Happening.acted owner action] = whole at h
  cases h with
  | nil => simp at hwh
  | began owner' h | ended h =>
    obtain ⟨-, hl⟩ := append_inj' hwh rfl
    simp at hl
  | acted action' h =>
    obtain ⟨rfl, hl⟩ := append_inj' hwh rfl
    simp only [List.cons.injEq, Happening.acted.injEq] at hl
    rw [hl.1.1]
    exact h

lemma holder_of_began {before rest : List (Happening ι α)}
    (h : Exclusive (before ++ .began owner :: rest) holder) (hop : .ended owner ∉ rest) :
    holder = some owner := by
  induction rest using List.reverseRecOn generalizing holder with
  | nil =>
    generalize hwh : before ++ [Happening.began owner] = whole at h
    cases h with
    | nil => simp at hwh
    | began owner' h =>
      obtain ⟨-, hl⟩ := append_inj' hwh rfl
      simp only [List.cons.injEq, Happening.began.injEq] at hl
      rw [hl.1]
    | acted action h | ended h =>
      obtain ⟨-, hl⟩ := append_inj' hwh rfl
      simp at hl
  | append_singleton rest last ih =>
    have hop' : .ended owner ∉ rest := fun hmem => hop (mem_append_left _ hmem)
    generalize hwh : before ++ .began owner :: (rest ++ [last]) = whole at h
    rw [← cons_append, ← append_assoc] at hwh
    cases h with
    | nil => simp at hwh
    | began owner' h =>
      obtain ⟨rfl, -⟩ := append_inj' hwh rfl
      exact absurd (ih h hop') (by simp)
    | acted action h =>
      obtain ⟨rfl, -⟩ := append_inj' hwh rfl
      exact ih h hop'
    | ended h =>
      obtain ⟨rfl, hl⟩ := append_inj' hwh rfl
      obtain rfl := Option.some.inj (ih h hop')
      refine absurd (mem_append_right rest ?_) hop
      exact hl ▸ mem_singleton_self _

lemma ended_between {before between after : List (Happening ι α)} {other : ι} {action : α}
    (h : Exclusive (before ++ .began owner :: between ++ .acted other action :: after) holder)
    (hne : owner ≠ other) : .ended owner ∈ between := by
  rw [append_cons] at h
  obtain ⟨holder', h'⟩ := h.append_left
  have ho := h'.of_acted
  by_contra hop
  exact hne (Option.some.inj (ho.holder_of_began hop)).symm

lemma began_of_acted (h : Exclusive history holder) :
    (∀ owner action, .acted owner action ∈ history → .began owner ∈ history) ∧
      ∀ owner, holder = some owner → .began owner ∈ history := by
  induction h with
  | nil => exact ⟨by simp, by simp⟩
  | began owner h ih =>
    refine ⟨fun owner' action hmem => ?_, fun owner' howner => ?_⟩
    · have hmem' : Happening.acted owner' action ∈ _ := (mem_append.mp hmem).resolve_right
        (by simp)
      exact mem_append_left _ (ih.1 owner' action hmem')
    · exact mem_append_right _ (by simpa using howner.symm)
  | acted action h ih =>
    refine ⟨fun owner' action' hmem => ?_, fun owner' howner => ?_⟩
    · rcases mem_append.mp hmem with hmem | hmem
      · exact mem_append_left _ (ih.1 owner' action' hmem)
      · simp only [mem_singleton, Happening.acted.injEq] at hmem
        exact mem_append_left _ (ih.2 owner' (by rw [hmem.1]))
    · exact mem_append_left _ (ih.2 owner' howner)
  | ended h ih =>
    refine ⟨fun owner' action hmem => ?_, by simp⟩
    have hmem' : Happening.acted owner' action ∈ _ := (mem_append.mp hmem).resolve_right
      (by simp)
    exact mem_append_left _ (ih.1 owner' action hmem')

end Exclusive

end Turns
