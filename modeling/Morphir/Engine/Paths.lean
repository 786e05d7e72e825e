import Morphir.Library.Fallible

/-!
# Portable paths

Paths of projects, sources and artifacts are relative to a root of the host.  A
path that would leave its root is refused, not normalized.  Every directory holds
itself and what is below it.
-/

namespace Morphir.Engine

open Fallible List

/-- `normalize` with the start of its first refusal. -/
def normalizeWith (expected : String) (path : String) : Except String String := do
  refuse (path.toList.head? = some '/' ∨ '\\' ∈ path.toList ∨ ':' ∈ path.toList ∨
    '\x00' ∈ path.toList) (expected ++ path)
  let parts := path.toList.splitOn '/'
  refuse (['.', '.'] ∈ parts) ("Path escapes its root: " ++ path)
  pure (String.intercalate "/"
    ((parts.filter fun part => part ≠ [] ∧ part ≠ ['.']).map String.ofList))

/-- Reject escapes rather than normalizing them through the host root. -/
def normalize (path : String) : Except String String :=
  normalizeWith "Expected a portable relative path: " path

def below (root path : String) : String :=
  if root = "" then path else if path = "" then root else root ++ "/" ++ path

def join (root path : String) : Except String String := do
  let path ← normalize path
  pure (below root path)

/-- `Path is in the source root` of `relative`: the root itself does not count. -/
def inside (root path : String) : Bool := root == "" || (root ++ "/").toList.isPrefixOf path.toList

def relative (root path : String) : Except String String :=
  if inside root path then
    .ok (if root = "" then path else String.ofList (path.toList.drop (root.toList.length + 1)))
  else .error ("Host listed a path outside source root: " ++ path)

def stem (path : String) : String :=
  let parts := path.toList.splitOn '/'
  let file := parts.getLastD []
  let bits := file.splitOn '.'
  let name := if 1 < bits.length then ['.'].intercalate bits.dropLast else file
  String.ofList (['/'].intercalate (parts.dropLast ++ [name]))

namespace Workspace

def normalize (path : String) : Except String String :=
  normalizeWith "Expected a confined relative path: " path

def join (root path : String) : Except String String := do
  let root ← normalize root
  let path ← normalize path
  pure (below root path)

def within (root path : String) : Bool :=
  root == "" || path == root || (root ++ "/").toList.isPrefixOf path.toList

def suffix (root path : String) : String :=
  if root = "" then path
  else if path = root then ""
  else String.ofList (path.toList.drop (root.toList.length + 1))

end Workspace

open Workspace (within)

def toLower (text : String) : String := String.ofList (text.toList.map Char.toLower)

/-- One path is the other, or below it, without regard to letter case. -/
def overlaps (a b : String) : Bool :=
  within (toLower a) (toLower b) || within (toLower b) (toLower a)

variable {root path : String}

lemma within_iff :
    within root path = true ↔ root = "" ∨ root.toList ++ ['/'] <+: path.toList ++ ['/'] := by
  have hsl : "/".toList = ['/'] := rfl
  simp only [within, Bool.or_eq_true, beq_iff_eq, isPrefixOf_iff_prefix, String.toList_append]
  constructor
  · rintro ((hro | rfl) | hpre)
    · exact .inl hro
    · exact .inr prefix_rfl
    · exact .inr ( hpre.trans (prefix_append _ _))
  · rintro (hro | hpre)
    · exact .inl (.inl hro)
    · rcases prefix_concat_iff.mp hpre with heq | hpre
      · exact .inl (.inr (String.toList_injective (append_cancel_right heq)).symm)
      · exact .inr hpre

lemma within_refl (path : String) : within path path = true := by simp [within]

lemma within_trans {a b c : String} (hb : b ≠ "") (hab : within a b = true)
    (hbc : within b c = true) : within a c = true := by
  rw [within_iff] at *
  rcases hab with hab | hab
  · exact .inl hab
  · exact .inr (hab.trans (hbc.resolve_left hb))

lemma ne_empty_of_within (hro : root ≠ "") (h : within root path = true) : path ≠ "" := by
  rintro rfl
  rcases within_iff.mp h with hnil | hpre
  · exact hro hnil
  · have hlen := hpre.length_le
    simp only [length_append, String.toList_empty, length_nil] at hlen
    exact hro (String.toList_inj.mp (eq_nil_of_length_eq_zero (by omega)))

lemma within_or_within {a b : String} (ha : within a path = true) (hb : within b path = true) :
    within a b = true ∨ within b a = true := by
  simp only [within_iff] at *
  rcases ha with rfl | ha
  · exact .inl (.inl rfl)
  · rcases hb with rfl | hb
    · exact .inr (.inl rfl)
    · rcases prefix_or_prefix_of_prefix ha hb with h | h
      · exact .inl (.inr h)
      · exact .inr (.inr h)

lemma within_below (root path : String) : within root (below root path) = true := by
  unfold below
  split_ifs with hro hp
  · simp [within, hro]
  · exact within_refl root
  · rw [within_iff, String.toList_append, String.toList_append, append_assoc, append_assoc]
    exact .inr ((prefix_append_right_inj _).mpr ⟨_, rfl⟩)

lemma within_join {out : String} (h : join root path = .ok out) : within root out = true := by
  obtain ⟨path', _, hout⟩ := bind_ok h
  cases hout
  exact within_below root path'

lemma toLower_eq_empty {text : String} : toLower text = "" ↔ text = "" := by
  rw [toLower, ← String.toList_inj, String.toList_ofList, ← String.toList_inj]
  exact map_eq_nil_iff

lemma within_toLower (h : within root path = true) :
    within (toLower root) (toLower path) = true := by
  rw [within_iff] at *
  rcases h with rfl | h
  · exact .inl rfl
  · refine .inr ?_
    have hmap := h.map Char.toLower
    rw [map_append, map_append] at hmap
    rw [toLower, toLower, String.toList_ofList, String.toList_ofList]
    exact hmap

lemma overlaps_of_within {a b s t : String} (ha : a ≠ "") (hb : b ≠ "") (hs : within a s = true)
    (ht : within b t = true) (h : overlaps s t = true) : overlaps a b = true := by
  have ha' : toLower a ≠ "" := mt toLower_eq_empty.mp ha
  have hb' : toLower b ≠ "" := mt toLower_eq_empty.mp hb
  have hs' := within_toLower hs
  have ht' := within_toLower ht
  unfold overlaps at h ⊢
  rw [Bool.or_eq_true] at h ⊢
  rcases h with h | h
  · exact within_or_within (within_trans (ne_empty_of_within ha' hs') hs' h) ht'
  · exact within_or_within hs' (within_trans (ne_empty_of_within hb' ht') ht' h)

end Morphir.Engine
