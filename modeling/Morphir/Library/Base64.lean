import Mathlib

/-!
# Base64

The bytes that padded base64 text stands for.  Four digits give three bytes; the
last group may end with one or two `=`.  Bits of the last digit that no byte uses
are ignored.
-/

namespace Base64

open List Option

def value (c : Char) : Option Nat :=
  if 'A' ≤ c ∧ c ≤ 'Z' then some (c.toNat - 65)
  else if 'a' ≤ c ∧ c ≤ 'z' then some (c.toNat - 71)
  else if '0' ≤ c ∧ c ≤ '9' then some (c.toNat + 4)
  else if c = '+' then some 62
  else if c = '/' then some 63
  else none

def group (count : Nat) (digits : List Nat) : List UInt8 :=
  let bits := digits.foldl (fun bits digit => bits * 64 + digit) 0
  ([bits / 65536, bits / 256, bits].take count).map UInt8.ofNat

def decodeLast (a b c d : Char) : Option (List UInt8) := do
  let a ← value a
  let b ← value b
  if c = '=' ∧ d = '=' then
    pure (group 1 [a, b, 0, 0])
  else
    let c ← value c
    if d = '=' then pure (group 2 [a, b, c, 0])
    else
      let d ← value d
      pure (group 3 [a, b, c, d])

def decode : List Char → Option (List UInt8)
  | [] => some []
  | [a, b, c, d] => decodeLast a b c d
  | a :: b :: c :: d :: rest => do
    let a ← value a
    let b ← value b
    let c ← value c
    let d ← value d
    let bytes ← decode rest
    pure (group 3 [a, b, c, d] ++ bytes)
  | _ => none

lemma length_group {count : Nat} (h : count ≤ 3) (digits : List Nat) :
    (group count digits).length = count := by
  rw [group, length_map, length_take]
  exact Nat.min_eq_left h

lemma ne_pad {c : Char} {n : Nat} (h : value c = some n) : c ≠ '=' := by
  rintro rfl
  cases h

lemma decode_padded (digits : List Char) (hds : ∀ c ∈ digits, (value c).isSome)
    {padding : Nat} (hpad : padding ≤ 2) (hgro : (digits.length + padding) % 4 = 0) :
    ∃ bytes, decode (digits ++ List.replicate padding '=') = some bytes ∧
      bytes.length + padding = (digits.length + padding) / 4 * 3 := by
  match digits with
  | [] => interval_cases padding <;> simp_all [decode]
  | [a] => interval_cases padding <;> simp_all
  | [a, b] =>
    obtain ⟨m, hm⟩ := isSome_iff_exists.mp (hds a (by simp))
    obtain ⟨n, hn⟩ := isSome_iff_exists.mp (hds b (by simp))
    obtain rfl : padding = 2 := by simp at hgro; omega
    exact ⟨group 1 [m, n, 0, 0], by simp [decode, decodeLast, hm, hn], by simp [length_group]⟩
  | [a, b, c] =>
    obtain ⟨m, hm⟩ := isSome_iff_exists.mp (hds a (by simp))
    obtain ⟨n, hn⟩ := isSome_iff_exists.mp (hds b (by simp))
    obtain ⟨k, hk⟩ := isSome_iff_exists.mp (hds c (by simp))
    obtain rfl : padding = 1 := by simp at hgro; omega
    exact ⟨group 2 [m, n, k, 0], by simp [decode, decodeLast, hm, hn, hk, ne_pad hk], by
      simp [length_group]⟩
  | a :: b :: c :: d :: rest =>
    obtain ⟨m, hm⟩ := isSome_iff_exists.mp (hds a (by simp))
    obtain ⟨n, hn⟩ := isSome_iff_exists.mp (hds b (by simp))
    obtain ⟨k, hk⟩ := isSome_iff_exists.mp (hds c (by simp))
    obtain ⟨l, hl⟩ := isSome_iff_exists.mp (hds d (by simp))
    simp only [length_cons] at hgro
    obtain ⟨bytes, hbs, hlen⟩ := decode_padded rest
      (fun c hc => hds c (by simp [hc])) hpad (by omega)
    have hfst := length_group (le_refl 3) [m, n, k, l]
    cases hr : rest ++ List.replicate padding '=' with
    | nil =>
      obtain ⟨rfl, hz⟩ := append_eq_nil_iff.mp hr
      obtain rfl := replicate_eq_nil_iff _ |>.mp hz
      refine ⟨group 3 [m, n, k, l], ?_, by simp [length_group]⟩
      simp [decode, decodeLast, hm, hn, hk, hl, ne_pad hl]
    | cons e tail =>
      rw [hr] at hbs
      refine ⟨group 3 [m, n, k, l] ++ bytes, ?_, ?_⟩
      · simp [hr, decode, hm, hn, hk, hl, hbs]
      · rw [length_append, length_cons, length_cons, length_cons, length_cons]
        omega

end Base64
