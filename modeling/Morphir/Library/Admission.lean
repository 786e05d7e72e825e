import Morphir.Library.Fallible
import Morphir.Library.OrdMap

/-!
# Lists that are admitted item by item

A loop that checks each item against what it has seen accepts a list exactly when the
list is fit, for a fitness that beginnings of a list inherit.  One such check is an
index that gives every key to one item.
-/

namespace Admission

open Fallible

variable {ε α β σ : Type}

def Succeeds (x : Except ε α) : Prop := ∃ a, x = .ok a

lemma succeeds_ok {a : α} : Succeeds (Except.ok a : Except ε α) := ⟨a, rfl⟩

lemma succeeds_bind {x : Except ε α} {f : α → Except ε β} :
    Succeeds (x >>= f) ↔ ∃ a, x = .ok a ∧ Succeeds (f a) := by
  constructor
  · rintro ⟨b, hb⟩
    obtain ⟨a, ha, hf⟩ := bind_ok hb
    exact ⟨a, ha, b, hf⟩
  · rintro ⟨a, rfl, b, hb⟩
    exact ⟨b, hb⟩

lemma succeeds_refuse {c : Prop} [Decidable c] {e : ε} {f : Unit → Except ε β} :
    Succeeds (refuse c e >>= f) ↔ ¬ c ∧ Succeeds (f ()) := by
  rw [succeeds_bind]
  constructor
  · rintro ⟨⟨⟩, hc, hf⟩
    exact ⟨refuse_ok hc, hf⟩
  · rintro ⟨hc, hf⟩
    exact ⟨(), if_neg hc, hf⟩

section Loop

variable {step : σ → α → Except ε σ} (Seen : List α → σ → Prop) (Fit : List α → Prop)

lemma succeeds_foldlM (hfit : ∀ done rest, Fit (done ++ rest) → Fit done)
    (hs : ∀ done s a, Fit done → Seen done s → (Succeeds (step s a) ↔ Fit (done ++ [a])) ∧
        ∀ s', step s a = .ok s' → Seen (done ++ [a]) s')
    {done : List α} {s : σ} (hdo : Fit done) (hse : Seen done s) (items : List α) :
    (Succeeds (items.foldlM step s) ↔ Fit (done ++ items)) ∧
      ∀ s', items.foldlM step s = .ok s' → Seen (done ++ items) s' := by
  induction items generalizing done s with
  | nil =>
    rw [List.append_nil]
    refine ⟨iff_of_true succeeds_ok hdo, ?_⟩
    intro s' hs'
    obtain rfl : s = s' := Except.ok.inj hs'
    exact hse
  | cons a items ih =>
    obtain ⟨hacc, hkeeps⟩ := hs done s a hdo hse
    rw [List.foldlM_cons, ← List.singleton_append, ← List.append_assoc, succeeds_bind]
    constructor
    · constructor
      · rintro ⟨s₁, hs₁, hr⟩
        exact (ih (hacc.mp ⟨s₁, hs₁⟩) (hkeeps s₁ hs₁)).1.mp hr
      · intro hall
        have hnx := hfit _ _ hall
        obtain ⟨s₁, hs₁⟩ := hacc.mpr hnx
        exact ⟨s₁, hs₁, (ih hnx (hkeeps s₁ hs₁)).1.mpr hall⟩
    · intro s' hs'
      obtain ⟨s₁, hs₁, hr⟩ := bind_ok hs'
      exact (ih (hacc.mp ⟨s₁, hs₁⟩) (hkeeps s₁ hs₁)).2 s' hr

end Loop

section Index

variable {κ : Type} [DecidableEq κ] {key : β → κ} {index : List (κ × β)} {S : Set β}

/-- An index has every item of a set under its key, and nothing else. -/
def Indexes (key : β → κ) (index : List (κ × β)) (S : Set β) : Prop :=
  ∀ k b, OrdMap.get? index k = some b ↔ key b = k ∧ b ∈ S

section

variable (h : Indexes key index S)

include h

lemma Indexes.injOn : Set.InjOn key S := by
  intro a ha b hb heq
  have hget := (h (key b) a).mpr ⟨heq, ha⟩
  rw [(h (key b) b).mpr ⟨rfl, hb⟩] at hget
  exact (Option.some.inj hget).symm

lemma Indexes.admits (b : β) :
    (∀ a, OrdMap.get? index (key b) = some a → a = b) ↔ Set.InjOn key (insert b S) := by
  constructor
  · intro hget x hx y hy heq
    rcases hx with rfl | hx <;> rcases hy with rfl | hy
    · rfl
    · exact (hget y ((h _ y).mpr ⟨heq.symm, hy⟩)).symm
    · exact hget x ((h _ x).mpr ⟨heq, hx⟩)
    · exact h.injOn hx hy heq
  · intro hinj a ha
    obtain ⟨heq, ha⟩ := (h _ a).mp ha
    exact hinj (.inr ha) (.inl rfl) heq

lemma Indexes.insert {b : β} (hb : Set.InjOn key (insert b S)) :
    Indexes key (OrdMap.insert index (key b) b) (insert b S) := by
  intro k a
  rw [OrdMap.get?_insert]
  split
  next heq =>
    constructor
    · intro ha
      obtain rfl : b = a := Option.some.inj ha
      exact ⟨by simp_all, .inl rfl⟩
    · rintro ⟨hk, ha⟩
      rw [hb (.inl rfl) ha (by simp_all)]
  next hne =>
    rw [h k a]
    constructor
    · rintro ⟨hk, ha⟩
      exact ⟨hk, .inr ha⟩
    · rintro ⟨hk, rfl | ha⟩
      · exact absurd hk.symm (by simp_all)
      · exact ⟨hk, ha⟩

end

end Index

end Admission
