import Mathlib

/-!
# Budgets

A budget is a number that charges are taken from, or there is no limit.  A charge
that is larger than what remains is refused.
-/

namespace Budget

def charge : Option Int → Nat → Option (Option Int)
  | none, _ => some none
  | some remaining, n => if (n : Int) ≤ remaining then some (some (remaining - n)) else none

def spend : Option Int → List Nat → Option (Option Int)
  | budget, [] => some budget
  | budget, n :: charges => (charge budget n).bind (spend · charges)

variable (budget : Option Int)

@[simp] lemma spend_nil : spend budget [] = some budget := rfl

lemma spend_singleton (n : Nat) : spend budget [n] = charge budget n := by
  rw [spend]
  cases charge budget n <;> rfl

lemma spend_append (charges more : List Nat) :
    spend budget (charges ++ more) = (spend budget charges).bind (spend · more) := by
  induction charges generalizing budget with
  | nil => rfl
  | cons n charges ih =>
    rw [List.cons_append, spend, spend]
    cases charge budget n with
    | none => rfl
    | some left => exact ih left

lemma spend_append_some {budget budget' : Option Int} {charges more : List Nat} :
    spend budget (charges ++ more) = some budget' ↔
      ∃ left, spend budget charges = some left ∧ spend left more = some budget' := by
  rw [spend_append, Option.bind_eq_some_iff]

@[simp] lemma spend_none (charges : List Nat) : spend none charges = some none := by
  induction charges with
  | nil => rfl
  | cons n charges ih => exact ih

lemma spend_isSome_iff {limit : Int} {charges : List Nat} :
    (∃ left, spend (some limit) charges = some left) ↔
      charges = [] ∨ (charges.sum : Int) ≤ limit := by
  induction charges generalizing limit with
  | nil => exact ⟨fun _ => .inl rfl, fun _ => ⟨_, rfl⟩⟩
  | cons n charges ih =>
    rw [spend, charge, List.sum_cons]
    by_cases hn : (n : Int) ≤ limit
    · rw [if_pos hn]
      refine ih.trans ⟨?_, ?_⟩
      · rintro (rfl | hsum)
        · exact .inr (by simpa using hn)
        · exact .inr (by omega)
      · rintro (hnil | hsum)
        · cases hnil
        · exact .inr (by omega)
    · rw [if_neg hn]
      constructor
      · rintro ⟨left, h⟩
        cases h
      · rintro (hnil | hsum)
        · cases hnil
        · omega

end Budget
