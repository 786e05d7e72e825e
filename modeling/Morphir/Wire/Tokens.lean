import Morphir.Wire.Reader

/-!
# Tokens and whitespace

Whitespace is skipped up to the next character that is none, and the reader cuts a
token exactly where it ends.
-/

namespace Morphir.Wire

open Fallible Grammar List Option Reader

variable {F : Type}

lemma Grammar.Space.dropWhile (text : List Char) : Space text (text.dropWhile isSpace) := by
  induction text with
  | nil => exact .nil []
  | cons c text ih =>
    cases hc : isSpace c with
    | true =>
      rw [dropWhile_cons_of_pos hc]
      exact .cons hc ih
    | false =>
      rw [dropWhile_cons_of_neg (by rw [hc]; decide)]
      exact .nil _

lemma Grammar.Space.trans {a b c : List Char} (h : Space a b) (h' : Space b c) : Space a c := by
  induction h with
  | nil => exact h'
  | cons hc _ ih => exact .cons hc (ih h')

variable {rest : List Char}

lemma Grammar.Space.same (h : Space text rest) :
    text.dropWhile isSpace = rest.dropWhile isSpace := by
  induction h with
  | nil => rfl
  | cons hc _ ih => rwa [dropWhile_cons_of_pos hc]

lemma Grammar.Space.length_le (h : Space text rest) : rest.length ≤ text.length := by
  induction h with
  | nil => exact Nat.le_refl _
  | cons _ _ ih => exact Nat.le_succ_of_le ih

def Stops (rest : List Char) : Prop := ∀ c ∈ rest.head?, isDelimiter c = true

variable {c : Char}

lemma isDelimiter_of_isSpace (h : isSpace c = true) : isDelimiter c = true := by
  rw [isDelimiter, h, Bool.or_true]

lemma Grammar.Space.stops (h : Space text rest) (hr : Stops rest) : Stops text := by
  cases h with
  | nil => exact hr
  | cons hc _ =>
    intro c hh
    cases hh
    exact isDelimiter_of_isSpace hc

lemma Grammar.Space.dropWhile_eq (h : Space text (c :: rest)) (hc : isSpace c = false) :
    text.dropWhile isSpace = c :: rest := by
  rw [h.same, dropWhile_cons_of_neg (by rw [hc]; decide)]

lemma hexValue_ne {n : Nat} (h : hexValue c = some n) : c ≠ '"' ∧ c ≠ '\\' := by
  constructor
  · rintro rfl
    cases h
  · rintro rfl
    cases h

lemma closing_cons (hq : c ≠ '"') (hbac : c ≠ '\\') (rest : List Char) :
    closing (c :: rest) = (closing rest).map (· + 1) := by
  rw [closing]
  · exact fun h => hq h
  · exact fun _ _ h _ => hbac h

lemma hexUnit_ok {a b d : Char} {unit : UInt16} (h : hexUnit a b c d = some unit) :
    (a ≠ '"' ∧ a ≠ '\\') ∧ (b ≠ '"' ∧ b ≠ '\\') ∧ (c ≠ '"' ∧ c ≠ '\\') ∧
      (d ≠ '"' ∧ d ≠ '\\') := by
  obtain ⟨_, ha, h⟩ := bind_eq_some_iff.mp h
  obtain ⟨_, hb, h⟩ := bind_eq_some_iff.mp h
  obtain ⟨_, hc, h⟩ := bind_eq_some_iff.mp h
  obtain ⟨_, hd, _⟩ := bind_eq_some_iff.mp h
  exact ⟨hexValue_ne ha, hexValue_ne hb, hexValue_ne hc, hexValue_ne hd⟩

lemma closing_stringBody {body : List Char} {text : Units} (h : stringBody body = some text)
    (rest : List Char) : closing (body ++ rest) = some body.length := by
  induction body using stringBody.induct generalizing text with
  | case1 => cases h
  | case2 => rfl
  | case3 a b c d body ih =>
    obtain ⟨unit, hu, h⟩ := bind_eq_some_iff.mp h
    obtain ⟨tail, htl, _⟩ := bind_eq_some_iff.mp h
    obtain ⟨⟨ha, ha'⟩, ⟨hb, hb'⟩, ⟨hc, hc'⟩, ⟨hd, hd'⟩⟩ := hexUnit_ok hu
    simp only [cons_append, closing]
    rw [closing_cons ha ha', closing_cons hb hb', closing_cons hc hc', closing_cons hd hd', ih htl]
    rfl
  | case4 c body hsh ih =>
    rw [stringBody] at h
    · obtain ⟨unit, _, h⟩ := bind_eq_some_iff.mp h
      obtain ⟨tail, htl, _⟩ := bind_eq_some_iff.mp h
      simp only [cons_append, closing, ih htl]
      rfl
    · exact hsh
  | case5 c body hq hcode hesc hbad =>
    rw [stringBody] at h
    · rw [if_pos hbad] at h
      cases h
    · exact hq
    · exact hcode
    · exact hesc
  | case6 c body hq hcode hesc hpl ih =>
    rw [stringBody] at h
    · rw [if_neg hpl] at h
      obtain ⟨tail, htl, _⟩ := map_eq_some_iff.mp h
      rw [not_or, not_or] at hpl
      rw [cons_append, closing_cons hpl.1 hpl.2.1, ih htl]
      rfl
    · exact hq
    · exact hcode
    · exact hesc

def isScalarChar (c : Char) : Bool :=
  c.isDigit || ['-', '+', '.', 'e', 'E', 'n', 'u', 'l', 't', 'r', 'f', 'a', 's'].contains c

lemma isScalarChar_digit (h : c.isDigit = true) : isScalarChar c = true := by
  rw [isScalarChar, h, Bool.true_or]

variable {text : List Char}

lemma all_digits (h : text.all Char.isDigit = true) : text.all isScalarChar = true :=
  all_eq_true.mpr fun c hc => isScalarChar_digit (all_eq_true.mp h c hc)

lemma all_takeWhile_isDigit (text : List Char) :
    (text.takeWhile Char.isDigit).all isScalarChar = true :=
  all_digits all_takeWhile

lemma all_of_takeWhile (h : (text.dropWhile Char.isDigit).all isScalarChar = true) :
    text.all isScalarChar = true := by
  rw [← takeWhile_append_dropWhile (l := text), all_append, all_takeWhile_isDigit, h]
  rfl

lemma isExponent_chars (h : isExponent text = true) : text.all isScalarChar = true := by
  unfold isExponent at h
  split at h
  · rfl
  · rename_i c rest
    rw [Bool.and_eq_true] at h
    obtain ⟨hlet, hds⟩ := h
    have hc : isScalarChar c = true := by
      rcases Bool.or_eq_true_iff.mp hlet with h | h
      · rw [of_decide_eq_true h]
        decide
      · rw [of_decide_eq_true h]
        decide
    rw [all_cons, hc]
    split at hds
    · rw [Bool.and_eq_true] at hds
      rw [all_cons, all_digits hds.2]
      decide
    · rw [Bool.and_eq_true] at hds
      rw [all_cons, all_digits hds.2]
      decide
    · rw [Bool.and_eq_true] at hds
      exact all_digits hds.2

lemma isFraction_chars (h : isFraction text = true) : text.all isScalarChar = true := by
  unfold isFraction at h
  split at h
  · rw [Bool.and_eq_true] at h
    rw [all_cons, all_of_takeWhile (isExponent_chars h.2)]
    decide
  · exact isExponent_chars h

lemma isMagnitude_chars (h : isMagnitude text = true) :
    text ≠ [] ∧ text.all isScalarChar = true := by
  rw [isMagnitude, Bool.and_eq_true, Bool.and_eq_true] at h
  refine ⟨?_, all_of_takeWhile (isFraction_chars h.2)⟩
  rintro rfl
  exact absurd h.1.1 (by decide)

lemma isNumber_chars (h : isNumber text = true) : text ≠ [] ∧ text.all isScalarChar = true := by
  unfold isNumber at h
  split at h
  · obtain ⟨_, hall⟩ := isMagnitude_chars h
    refine ⟨cons_ne_nil _ _, ?_⟩
    rw [all_cons, hall]
    decide
  · exact isMagnitude_chars h

lemma scalarToken_chars {number : List Char → Json F} {value : Json F}
    (h : scalarToken number text = some value) : text ≠ [] ∧ text.all isScalarChar = true := by
  unfold scalarToken at h
  split at h
  · rename_i ht
    rw [ht]
    decide
  · split at h
    · rename_i ht
      rw [ht]
      decide
    · split at h
      · rename_i ht
        rw [ht]
        decide
      · split at h
        · rename_i hnum
          exact isNumber_chars hnum
        · cases h

lemma isScalarChar_plain (h : isScalarChar c = true) :
    isDelimiter c = false ∧ c ≠ '"' ∧ c ≠ '\x7b' ∧ c ≠ '[' := by
  have hne (d : Char) (hd : isScalarChar d = false) : c ≠ d := by
    rintro rfl
    rw [h] at hd
    cases hd
  refine ⟨?_, hne _ (by decide), hne _ (by decide), hne _ (by decide)⟩
  have hsp : isSpace c = false := by
    simp [isSpace, hne ' ' (by decide), hne '\n' (by decide), hne '\r' (by decide),
      hne '\t' (by decide)]
  simp [isDelimiter, hsp, hne ',' (by decide), hne ']' (by decide), hne '\x7d' (by decide)]

lemma scalarToken_eq (number number' : List Char → Json F) (text : List Char) :
    (∃ value, scalarToken number text = some value ∧ scalarToken number' text = some value ∧
        (value = .null ∨ ∃ flag, value = .bool flag)) ∨
      (scalarToken number text = some (number text) ∧
        scalarToken number' text = some (number' text)) ∨
      (scalarToken number text = none ∧ scalarToken number' text = none) := by
  unfold scalarToken
  by_cases hnull : text = "null".toList
  · rw [if_pos hnull, if_pos hnull]
    exact .inl ⟨_, rfl, rfl, .inl rfl⟩
  · rw [if_neg hnull, if_neg hnull]
    by_cases htrue : text = "true".toList
    · rw [if_pos htrue, if_pos htrue]
      exact .inl ⟨_, rfl, rfl, .inr ⟨_, rfl⟩⟩
    · rw [if_neg htrue, if_neg htrue]
      by_cases hfalse : text = "false".toList
      · rw [if_pos hfalse, if_pos hfalse]
        exact .inl ⟨_, rfl, rfl, .inr ⟨_, rfl⟩⟩
      · rw [if_neg hfalse, if_neg hfalse]
        by_cases hnum : isNumber text = true
        · rw [if_pos hnum, if_pos hnum]
          exact .inr (.inl ⟨rfl, rfl⟩)
        · rw [if_neg hnum, if_neg hnum]
          exact .inr (.inr ⟨rfl, rfl⟩)

end Morphir.Wire
