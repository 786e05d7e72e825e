import Morphir.Engine.ModelDocument
import Morphir.Library.Numeral

/-!
# Releases of the IR format

A release is three numbers with points between them.  A component has no needless zero in
front, so a release has one text.
-/

namespace Morphir.Metadata

open Numeral Engine.ModelDocument List Nat FormatVersion

lemma digitChar_number {c : Char} (h : c.isDigit = true) : digitChar (c.toNat - '0'.toNat) = c := by
  have hlt := digit_lt h
  have hge : '0'.toNat ≤ c.toNat := by
    simp only [Char.isDigit, Bool.and_eq_true, decide_eq_true_eq] at h
    exact h.1
  have hc : c = Char.ofNat ('0'.toNat + (c.toNat - '0'.toNat)) := by
    rw [Nat.add_sub_cancel' hge, Char.ofNat_toNat]
  generalize c.toNat - '0'.toNat = d at hlt hc
  rw [hc]
  interval_cases d <;> rfl

lemma toDigits_number {digits : List Char} (h : IsDigits digits) (hne : digits ≠ [])
    (hfst : digits.head? = some '0' → digits.length = 1) :
    toDigits 10 (number digits) = digits := by
  induction digits using List.reverseRecOn with
  | nil => exact absurd rfl hne
  | append_singleton front c ih =>
    have hc := h c (mem_append_right _ (mem_singleton.mpr rfl))
    have hfr : IsDigits front := fun d hd => h d (mem_append_left _ hd)
    rw [number_append_singleton]
    cases front with
    | nil =>
      rw [show number [] = 0 from rfl, Nat.zero_add,
        toDigits_of_lt_base (digit_lt hc), digitChar_number hc]
      rfl
    | cons d front =>
      have hd : d ≠ '0' := by
        rintro rfl
        have hlen := hfst rfl
        simp at hlen
      have hpos : 0 < number (d :: front) :=
        pos_of_ne_zero ((number_ne_zero hfr).mpr ⟨d, mem_cons_self, hd⟩)
      have hds := ih hfr (by simp) fun hh => absurd (Option.some.inj hh) hd
      rw [← toDigits_append_toDigits (by decide) hpos (digit_lt hc), hds,
        toDigits_of_lt_base (digit_lt hc), digitChar_number hc]

variable {n : Nat}

lemma head_toDigits (hn : 0 < n) : (toDigits 10 n).head? ≠ some '0' := by
  induction n using Nat.strongRecOn with
  | ind n ih =>
    by_cases hlt : n < 10
    · interval_cases n <;> decide
    · have hquo : 0 < n / 10 := div_pos (not_lt.mp hlt) (by decide)
      have hh := ih (n / 10) (div_lt_self hn (by decide)) hquo
      rw [toDigits_of_base_le (by decide) (not_lt.mp hlt)]
      cases hfr : toDigits 10 (n / 10) with
      | nil => exact absurd hfr toDigits_ne_nil
      | cons d front =>
        rw [hfr] at hh
        exact hh

def releaseText (version : FormatVersion) : String :=
  toString version.major ++ "." ++ toString version.minor ++ "." ++ toString version.patch

lemma parseComponent_toDigits (h : n ≤ 4294967295) : parseComponent (toDigits 10 n) = some n := by
  have hds : (toDigits 10 n).all Char.isDigit = true :=
    all_eq_true.mpr fun c hc => isDigit_of_mem_toDigits (by decide) (by decide) hc
  have hz : ¬ (1 < (toDigits 10 n).length ∧ (toDigits 10 n).head? = some '0') := by
    rintro ⟨hlen, hh⟩
    cases n with
    | zero => simp at hlen
    | succ n => exact head_toDigits (succ_pos n) hh
  rw [parseComponent, if_neg (by
    rintro (h | h | h)
    · exact toDigits_ne_nil h
    · exact hz h
    · exact h hds)]
  simp only [ofDigitChars_ten_toDigits, if_pos h]

lemma parseComponent_text {text : List Char} (h : parseComponent text = some n) :
    toDigits 10 n = text ∧ n ≤ 4294967295 := by
  rw [parseComponent] at h
  split at h
  · cases h
  · rename_i hchk
    rw [not_or, not_or, not_not] at hchk
    obtain ⟨hne, hz, hds⟩ := hchk
    dsimp only at h
    split at h
    · rename_i hle
      cases h
      refine ⟨toDigits_number (fun c hc => all_eq_true.mp hds c hc) hne ?_, hle⟩
      intro hh
      by_contra hlen
      refine hz ⟨?_, hh⟩
      have hpos := length_pos_of_ne_nil hne
      omega
    · cases h

lemma releaseText_toList (version : FormatVersion) :
    (releaseText version).toList = ['.'].intercalate
      [toDigits 10 version.major, toDigits 10 version.minor,
        toDigits 10 version.patch] := by
  simp [releaseText]

lemma splitOn_releaseText (version : FormatVersion) :
    (releaseText version).toList.splitOn '.' =
      [toDigits 10 version.major, toDigits 10 version.minor,
        toDigits 10 version.patch] := by
  have hpt : ∀ n : Nat, '.' ∉ toDigits 10 n := fun n hmem =>
    absurd (isDigit_of_mem_toDigits (by decide) (by decide) hmem) (by decide)
  rw [releaseText_toList]
  apply splitOn_intercalate
  · simp only [mem_cons, not_mem_nil, or_false, forall_eq_or_imp, forall_eq]
    exact ⟨hpt _, hpt _, hpt _⟩
  · simp

variable {version : FormatVersion}

lemma parse_releaseText (hmajor : 3 ≤ version.major)
    (hbou : version.major ≤ 4294967295 ∧ version.minor ≤ 4294967295 ∧ version.patch ≤ 4294967295) :
    parse (releaseText version) = some version := by
  obtain ⟨ha, hb, hc⟩ := hbou
  rw [parse, splitOn_releaseText]
  simp only [parseComponent_toDigits ha, parseComponent_toDigits hb, parseComponent_toDigits hc,
    Option.bind_eq_bind, Option.bind_some, if_neg (not_lt.mpr hmajor)]

lemma releaseText_of_parse {text : String} (h : parse text = some version) :
    releaseText version = text := by
  rw [parse] at h
  split at h
  · rename_i major minor patch hspl
    simp only [Option.bind_eq_bind, Option.bind_eq_some_iff] at h
    obtain ⟨a, ha, b, hb, c, hc, h⟩ := h
    split at h
    · cases h
    · cases h
      apply String.toList_injective
      rw [releaseText_toList, (parseComponent_text ha).1, (parseComponent_text hb).1,
        (parseComponent_text hc).1, ← hspl, intercalate_splitOn]
  · cases h

lemma mem_releaseText {c : Char} (h : c ∈ (releaseText version).toList) :
    c.isDigit = true ∨ c = '.' := by
  rcases mem_splitOn '.' h with rfl | ⟨part, hpa, hc⟩
  · exact .inr rfl
  · rw [splitOn_releaseText] at hpa
    simp only [mem_cons, not_mem_nil, or_false] at hpa
    rcases hpa with rfl | rfl | rfl <;>
      exact .inl (isDigit_of_mem_toDigits (by decide) (by decide) hc)

end Morphir.Metadata
