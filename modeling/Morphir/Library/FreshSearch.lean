import Mathlib

/-!
# Search for what is not taken

A search goes from state to state and ends at the first one whose spelling is not
taken.  Where only finitely many spellings are taken and the spellings of the states
differ from some state on, it ends.
-/

namespace FreshSearch

universe u v

variable {σ : Type u} {α : Type v} (spell : σ → α) (next : σ → σ) (taken : α → Bool)

/-- The first free spelling from a state on, within a number of steps. -/
def search : Nat → σ → Option α
  | 0, _ => none
  | fuel + 1, state => if taken (spell state) then search fuel (next state) else some (spell state)

variable {spell next taken}

variable {state : σ}

lemma search_spec {fuel : Nat} {found : α} (h : search spell next taken fuel state = some found) :
    taken found = false ∧ ∃ k, found = spell (next^[k] state) := by
  induction fuel generalizing state with
  | zero => cases h
  | succ fuel ih =>
    rw [search] at h
    split at h
    · obtain ⟨hf, k, hk⟩ := ih h
      exact ⟨hf, k + 1, by rw [hk, Function.iterate_succ_apply]⟩
    · rename_i hf
      cases h
      exact ⟨by simpa using hf, 0, rfl⟩

lemma search_mono {fuel fuel' : Nat} {found : α} (hle : fuel ≤ fuel')
    (h : search spell next taken fuel state = some found) :
    search spell next taken fuel' state = some found := by
  induction fuel generalizing state fuel' with
  | zero => cases h
  | succ fuel ih =>
    obtain ⟨fuel', rfl⟩ := Nat.exists_eq_add_of_le' (Nat.lt_of_lt_of_le (Nat.succ_pos fuel) hle)
    rw [search] at h ⊢
    split at h
    · rename_i htaken
      rw [if_pos htaken]
      exact ih (Nat.le_of_succ_le_succ hle) h
    · rename_i hf
      rw [if_neg hf, h]

lemma search_of_free {k : Nat} (h : taken (spell (next^[k] state)) = false) :
    ∃ found, search spell next taken (k + 1) state = some found := by
  induction k generalizing state with
  | zero =>
    refine ⟨spell state, ?_⟩
    rw [search, if_neg (by simpa using h)]
  | succ k ih =>
    rw [search]
    split
    · exact ih h
    · exact ⟨_, rfl⟩

lemma exists_search (avoid : Finset α) (htaken : ∀ a, taken a = true → a ∈ avoid) (start : Nat)
    (hspell : Function.Injective fun k => spell (next^[start + k] state)) :
    ∃ fuel found, ∀ fuel', fuel ≤ fuel' → search spell next taken fuel' state = some found := by
  have hf : ∃ k, spell (next^[start + k] state) ∉ avoid := by
    by_contra hall
    have hmem (k : ℕ) : spell (next^[start + k] state) ∈ avoid := not_not.mp fun h => hall ⟨k, h⟩
    refine not_injective_infinite_finite
      (fun k => (⟨spell (next^[start + k] state), hmem k⟩ : avoid)) fun k k' heq => ?_
    exact hspell (congrArg Subtype.val heq)
  obtain ⟨k, hk⟩ := hf
  have hnot : taken (spell (next^[start + k] state)) = false :=
    Bool.eq_false_iff.mpr fun h => hk (htaken _ h)
  obtain ⟨found, hfd⟩ := search_of_free hnot
  exact ⟨_, found, fun fuel' hle => search_mono hle hfd⟩

end FreshSearch
