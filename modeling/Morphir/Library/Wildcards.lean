import Mathlib

/-!
# Wildcards

A pattern is a list of tokens, and its language is the product of the languages of
its tokens.  A matcher reads a text from left to right, so what a first token does
with the first characters of a text is stated for each kind of token.
-/

namespace Wildcards

open List Language

/-- The tokens of a pattern.  `segment` and `one` stay between two slashes, `anything` does
not, and `prefixes` is any number of segments with the slashes behind them. -/
inductive Token
  | literal (c : Char)
  | one
  | oneOf (accepts : Char → Bool)
  | segment
  | anything
  | prefixes

def single (p : Char → Prop) : Language Char := {text | ∃ c, p c ∧ text = [c]}

def run (p : Char → Prop) : Language Char := {text | ∀ c ∈ text, p c}

def slashed : Language Char := {text | text = [] ∨ ∃ front, text = front ++ ['/']}

def Token.language : Token → Language Char
  | .literal c => single (· = c)
  | .one => single (· ≠ '/')
  | .oneOf accepts => single fun c => c ≠ '/' ∧ accepts c = true
  | .segment => run (· ≠ '/')
  | .anything => run fun _ => True
  | .prefixes => slashed

def language (tokens : List Token) : Language Char := (tokens.map Token.language).prod

variable {p : Char → Prop} {L : Language Char} {text : List Char} {token : Token}
  {tokens : List Token}

lemma mem_language_nil : text ∈ language [] ↔ text = [] := mem_one text

lemma language_cons : language (token :: tokens) = token.language * language tokens := prod_cons

lemma mem_single_mul : text ∈ single p * L ↔ ∃ c rest, text = c :: rest ∧ p c ∧ rest ∈ L := by
  constructor
  · rintro ⟨_, ⟨c, hc, rfl⟩, rest, hr, rfl⟩
    exact ⟨c, rest, rfl, hc, hr⟩
  · rintro ⟨c, rest, rfl, hc, hr⟩
    exact ⟨[c], ⟨c, hc, rfl⟩, rest, hr, rfl⟩

lemma mem_run_mul : text ∈ run p * L ↔
    text ∈ L ∨ ∃ c rest, text = c :: rest ∧ p c ∧ rest ∈ run p * L := by
  constructor
  · intro h
    obtain ⟨front, hfr, rest, hr, rfl⟩ := mem_mul.mp h
    cases front with
    | nil => exact .inl hr
    | cons c front =>
      refine .inr ⟨c, front ++ rest, rfl, hfr c mem_cons_self, ?_⟩
      refine mem_mul.mpr ⟨front, ?_, rest, hr, rfl⟩
      exact fun d hd => hfr d (mem_cons_of_mem c hd)
  · rintro (h | ⟨c, tail, rfl, hc, htl⟩)
    · exact mem_mul.mpr ⟨[], fun c hc => absurd hc not_mem_nil, text, h, rfl⟩
    · obtain ⟨front, hfr, rest, hr, rfl⟩ := mem_mul.mp htl
      refine mem_mul.mpr ⟨c :: front, ?_, rest, hr, rfl⟩
      intro d hd
      rcases mem_cons.mp hd with rfl | hd
      · exact hc
      · exact hfr d hd

lemma mem_slashed_append {seg rest : List Char} :
    rest ∈ slashed → seg ++ '/' :: rest ∈ slashed := by
  rintro (rfl | ⟨front, rfl⟩)
  · exact .inr ⟨seg, rfl⟩
  · exact .inr ⟨seg ++ '/' :: front, by simp⟩

lemma exists_segment {front : List Char} (h : front ∈ slashed) (hne : front ≠ []) :
    ∃ seg rest, front = seg ++ '/' :: rest ∧ '/' ∉ seg ∧ rest ∈ slashed := by
  obtain ⟨body, rfl⟩ := h.resolve_left hne
  by_cases hsl : '/' ∈ body
  · obtain ⟨seg, rest, rfl, hseg⟩ := append_of_mem hsl |>.elim fun _ _ =>
      eq_append_cons_of_mem hsl
    exact ⟨seg, rest ++ ['/'], by simp, hseg, .inr ⟨rest, rfl⟩⟩
  · exact ⟨body, [], rfl, hsl, .inl rfl⟩

lemma mem_slashed_mul : text ∈ slashed * L ↔
    text ∈ L ∨ ∃ seg rest, text = seg ++ '/' :: rest ∧ '/' ∉ seg ∧ rest ∈ slashed * L := by
  constructor
  · intro h
    obtain ⟨front, hfr, rest, hr, rfl⟩ := mem_mul.mp h
    by_cases hne : front = []
    · subst hne
      exact .inl hr
    · obtain ⟨seg, tail, rfl, hseg, htl⟩ := exists_segment hfr hne
      refine .inr ⟨seg, tail ++ rest, by simp, hseg, ?_⟩
      exact mem_mul.mpr ⟨tail, htl, rest, hr, rfl⟩
  · rintro (h | ⟨seg, tail, rfl, -, htl⟩)
    · exact mem_mul.mpr ⟨[], .inl rfl, text, h, rfl⟩
    · obtain ⟨front, hfr, rest, hr, rfl⟩ := mem_mul.mp htl
      exact mem_mul.mpr
        ⟨seg ++ '/' :: front, mem_slashed_append hfr, rest, hr, by simp⟩

lemma dropWhile_eq_cons {seg rest : List Char} (hseg : '/' ∉ seg) :
    (seg ++ '/' :: rest).dropWhile (· ≠ '/') = '/' :: rest := by
  rw [dropWhile_append_of_pos]
  · simp
  · intro c hc
    exact decide_eq_true fun heq => hseg (heq ▸ hc)

lemma dropWhile_cases (text : List Char) :
    text.dropWhile (· ≠ '/') = [] ∧ '/' ∉ text ∨
      ∃ seg rest, text = seg ++ '/' :: rest ∧ '/' ∉ seg ∧
        text.dropWhile (· ≠ '/') = '/' :: rest := by
  by_cases hsl : '/' ∈ text
  · obtain ⟨seg, rest, rfl, hseg⟩ := eq_append_cons_of_mem hsl
    exact .inr ⟨seg, rest, rfl, hseg, dropWhile_eq_cons hseg⟩
  · refine .inl ⟨?_, hsl⟩
    rw [← append_nil text, dropWhile_append_of_pos, dropWhile_nil]
    intro c hc
    exact decide_eq_true fun heq => hsl (heq ▸ hc)

lemma mem_slashed_mul_iff : text ∈ slashed * L ↔ text ∈ L ∨
    ¬ text.dropWhile (· ≠ '/') = [] ∧ (text.dropWhile (· ≠ '/')).tail ∈ slashed * L := by
  rw [mem_slashed_mul]
  refine or_congr_right ⟨?_, ?_⟩
  · rintro ⟨seg, rest, rfl, hseg, hr⟩
    rw [dropWhile_eq_cons hseg]
    exact ⟨cons_ne_nil '/' rest, hr⟩
  · rintro ⟨hne, hr⟩
    rcases dropWhile_cases text with ⟨hnil, -⟩ | ⟨seg, rest, ht, hseg, hdr⟩
    · exact absurd hnil hne
    · rw [hdr] at hr
      exact ⟨seg, rest, ht, hseg, hr⟩

end Wildcards
