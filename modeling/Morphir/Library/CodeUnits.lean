import Mathlib

/-!
# UTF-16 code units

The units of a character are its code point, or a high and a low surrogate.
They tell the character, so that texts can be compared and cut by their units.
-/

namespace CodeUnits

open List

def ofChar (c : Char) : List Nat :=
  if c.toNat < 0x10000 then [c.toNat]
  else [0xD800 + (c.toNat - 0x10000) / 0x400, 0xDC00 + (c.toNat - 0x10000) % 0x400]

def ofChars (chars : List Char) : List Nat := chars.flatMap ofChar

@[simp] lemma ofChars_nil : ofChars [] = [] := rfl

variable (c : Char)

@[simp] lemma ofChars_cons (cs : List Char) :
    ofChars (c :: cs) = ofChar c ++ ofChars cs := flatMap_cons

@[simp] lemma ofChars_append (as bs : List Char) :
    ofChars (as ++ bs) = ofChars as ++ ofChars bs := flatMap_append

lemma toNat_valid : (c.toNat < 0xD800 ∨ 0xDFFF < c.toNat) ∧ c.toNat < 0x110000 := by
  rcases c.valid with h | ⟨h, h'⟩
  · exact ⟨.inl h, Nat.lt_trans h (by decide)⟩
  · exact ⟨.inr h, h'⟩

lemma ofChar_cases :
    (ofChar c = [c.toNat] ∧ c.toNat < 0x10000 ∧ ¬ (0xD800 ≤ c.toNat ∧ c.toNat ≤ 0xDFFF)) ∨
      ∃ high low, ofChar c = [high, low] ∧ (0xD800 ≤ high ∧ high ≤ 0xDBFF) ∧
        (0xDC00 ≤ low ∧ low ≤ 0xDFFF) ∧
        c.toNat = 0x10000 + (high - 0xD800) * 1024 + (low - 0xDC00) := by
  have hc := toNat_valid c
  unfold ofChar
  split
  · exact .inl ⟨rfl, by assumption, by omega⟩
  · exact .inr ⟨_, _, rfl, by omega, by omega, by omega⟩

lemma ofChar_of_lt {c : Char} (h : c.toNat < 0x10000) : ofChar c = [c.toNat] := if_pos h

lemma length_ofChar_pos : 0 < (ofChar c).length := by
  rcases ofChar_cases c with ⟨h, -⟩ | ⟨high, low, h, -⟩
  · rw [h]
    exact Nat.one_pos
  · rw [h]
    exact Nat.succ_pos _

lemma ofChar_ne_nil : ofChar c ≠ [] := ne_nil_of_length_pos (length_ofChar_pos c)

lemma ofChar_append {c d : Char} {rest rest' : List Nat}
    (h : ofChar c ++ rest = ofChar d ++ rest') : c = d ∧ rest = rest' := by
  have hc := toNat_valid c
  have hd := toNat_valid d
  unfold ofChar at h
  split at h <;> split at h <;>
    simp only [cons_append, List.cons.injEq] at h
  · exact ⟨Char.toNat_inj.mp h.1, h.2⟩
  · omega
  · omega
  · refine ⟨Char.toNat_inj.mp ?_, h.2.2⟩
    omega

lemma ofChars_injective : Function.Injective ofChars := by
  intro as bs h
  have hne (c : Char) (cs : List Char) : ofChars (c :: cs) ≠ [] := by
    exact append_ne_nil_of_left_ne_nil (ofChar_ne_nil c) _
  induction as generalizing bs with
  | nil =>
    cases bs with
    | nil => rfl
    | cons b bs => exact absurd h.symm (hne b bs)
  | cons a as ih =>
    cases bs with
    | nil => exact absurd h (hne a as)
    | cons b bs =>
      obtain ⟨rfl, hr⟩ := ofChar_append h
      rw [ih hr]

lemma ofChars_eq_map {chars : List Char} (h : ∀ c ∈ chars, c.toNat < 0x10000) :
    ofChars chars = chars.map Char.toNat := by
  induction chars with
  | nil => rfl
  | cons c cs ih =>
    rw [ofChars_cons, ofChar_of_lt (h c mem_cons_self), ih fun d hd => h d (mem_cons_of_mem c hd)]
    rfl

lemma mem_chars_of_units {chars : List Char} {p : Nat → Prop} (hp : ∀ n, p n → n < 0xD800)
    (h : ∀ unit ∈ ofChars chars, p unit) : ∀ c ∈ chars, p c.toNat := by
  intro c hc
  have hus : ∀ unit ∈ ofChar c, p unit := fun unit hu => h unit (mem_flatMap.mpr ⟨c, hc, hu⟩)
  rcases ofChar_cases c with ⟨heq, -⟩ | ⟨high, low, heq, ⟨hhi, -⟩, -⟩
  · exact hus _ (heq ▸ mem_singleton.mpr rfl)
  · have hlt := hp high (hus high (heq ▸ mem_cons_self))
    omega

/-- The characters of a text up to the first that does not fit a number of units. -/
def prefixWithin : Nat → List Char → List Char
  | _, [] => []
  | n, c :: cs => if (ofChar c).length ≤ n then c :: prefixWithin (n - (ofChar c).length) cs else []

/-- The longest prefix of a text that has at most a number of units. -/
structure IsLongestWithin (n : Nat) (taken text : List Char) : Prop where
  isPrefix : taken <+: text
  within : (ofChars taken).length ≤ n
  longest : ∀ other, other <+: text → (ofChars other).length ≤ n → other <+: taken

lemma prefixWithin_zero (text : List Char) : prefixWithin 0 text = [] := by
  cases text with
  | nil => rfl
  | cons c cs => exact if_neg (Nat.not_le.mpr (length_ofChar_pos c))

lemma isLongestWithin_prefixWithin (n : Nat) (text : List Char) :
    IsLongestWithin n (prefixWithin n text) text := by
  induction text generalizing n with
  | nil => exact ⟨prefix_rfl, Nat.zero_le n, fun other h _ => h⟩
  | cons c cs ih =>
    unfold prefixWithin
    split
    · next hfi =>
        obtain ⟨hfr, hwi, hlon⟩ := ih (n - (ofChar c).length)
        refine ⟨prefix_cons_inj c |>.mpr hfr, ?_, ?_⟩
        · rw [ofChars_cons, length_append]
          omega
        · intro other ho hlen
          cases other with
          | nil => exact nil_prefix
          | cons d ds =>
            obtain ⟨rfl, hds⟩ := cons_prefix_cons.mp ho
            rw [ofChars_cons, length_append] at hlen
            exact (prefix_cons_inj d).mpr (hlon ds hds (by omega))
    · next hlg =>
        refine ⟨ nil_prefix, Nat.zero_le n, ?_⟩
        intro other ho hlen
        cases other with
        | nil => exact nil_prefix
        | cons d ds =>
          obtain ⟨rfl, -⟩ := cons_prefix_cons.mp ho
          rw [ofChars_cons, length_append] at hlen
          omega

end CodeUnits
