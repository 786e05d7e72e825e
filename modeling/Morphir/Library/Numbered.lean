import Mathlib

/-!
# Numbered names

A host names its things by a text and a running number.  Different numbers give
different names.
-/

namespace Numbered

lemma toString_injective {m n : Nat} (h : toString m = toString n) : m = n := by
  have hds := congrArg (fun l => Nat.ofDigitChars 10 l 0) (String.ofList_injective h)
  simpa using hds

lemma digits_toString (n : Nat) : ∀ c ∈ (toString n).toList, c.isDigit = true := by
  rw [Nat.toString_eq_ofList_toDigits, String.toList_ofList]
  exact fun c hc => Nat.isDigit_of_mem_toDigits (by decide) (by decide) hc

def name (front : String) (n : Int) : String := front ++ toString n

lemma name_injective {front : String} {m n : Int} (hm : 0 ≤ m) (hn : 0 ≤ n)
    (h : name front m = name front n) : m = n := by
  lift m to Nat using hm
  lift n to Nat using hn
  have hli := congrArg String.toList h
  simp only [name, String.toList_append, List.append_cancel_left_eq] at hli
  exact congrArg Int.ofNat (toString_injective (String.toList_injective hli))

end Numbered
