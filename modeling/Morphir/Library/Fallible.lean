import Mathlib

/-!
# Computations that can fail

What follows from the success of a computation that was built from steps, a
check or a map.
-/

namespace Fallible

universe u v w

variable {ε : Type u} {α β : Type v}

def refuse (c : Prop) [Decidable c] (e : ε) : Except ε Unit := if c then .error e else .ok ()

lemma bind_ok {x : Except ε α} {f : α → Except ε β} {b : β} (h : x >>= f = .ok b) :
    ∃ a, x = .ok a ∧ f a = .ok b := by
  cases x with
  | error e => cases h
  | ok a => exact ⟨a, rfl, h⟩

lemma bind_eq (a : α) (f : α → Except ε β) : Except.ok a >>= f = f a := rfl

lemma map_ok {x : Except ε α} {f : α → β} {b : β} (h : x.map f = .ok b) :
    ∃ a, x = .ok a ∧ f a = b := by
  cases x with
  | error e => cases h
  | ok a => exact ⟨a, rfl, Except.ok.inj h⟩

lemma refuse_ok {c : Prop} [Decidable c] {e : ε} {u : Unit} (h : refuse c e = .ok u) : ¬ c := by
  intro hc
  rw [refuse, if_pos hc] at h
  cases h

lemma forM_ok {f : α → Except ε PUnit} {items : List α} {u : PUnit} (h : items.forM f = .ok u) :
    ∀ a ∈ items, f a = .ok ⟨⟩ := by
  induction items with
  | nil => exact fun a ha => absurd ha List.not_mem_nil
  | cons a items ih =>
    obtain ⟨_, ha, h⟩ := bind_ok h
    exact List.forall_mem_cons.mpr ⟨ha, ih h⟩

lemma toOption_eq_some {ε α : Type} {x : Except ε α} {a : α} : x.toOption = some a ↔ x = .ok a := by
  cases x <;> simp [Except.toOption]

end Fallible

/-!
## Postconditions

What a computation that can fail returns, and how it can fail.
-/

namespace Postcondition

universe u v w

variable {ε : Type u} {α β : Type v}

/-- What is returned has a property, and what is raised has another. -/
def Ensures (x : Except ε α) (raises : ε → Prop) (returns : α → Prop) : Prop :=
  match x with
  | .ok a => returns a
  | .error e => raises e

variable {raises : ε → Prop} {returns : α → Prop}

variable {a : α}

@[simp] lemma ensures_ok : Ensures (.ok a) raises returns ↔ returns a := Iff.rfl

@[simp] lemma ensures_pure : Ensures (pure a) raises returns ↔ returns a := Iff.rfl

@[simp] lemma ensures_error {e : ε} :
    Ensures (.error e : Except ε α) raises returns ↔ raises e := Iff.rfl

variable {x : Except ε α}

section

variable (h : Ensures x raises returns)

include h

lemma Ensures.bind {f : α → Except ε β} {after : β → Prop}
    (hf : ∀ a, returns a → Ensures (f a) raises after) : Ensures (x >>= f) raises after := by
  cases x with
  | ok a => exact hf a h
  | error e => exact h

lemma Ensures.mono {weaker : α → Prop} (hw : ∀ a, returns a → weaker a) :
    Ensures x raises weaker := by
  cases x with
  | ok a => exact hw a h
  | error e => exact h

lemma Ensures.of_ok (hx : x = .ok a) : returns a := by
  rw [hx] at h
  exact h

lemma Ensures.of_error {e : ε} (hx : x = .error e) : raises e := by
  rw [hx] at h
  exact h

end

end Postcondition
