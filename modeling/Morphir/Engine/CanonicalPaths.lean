import Morphir.Engine.Paths
import Morphir.IR.Names

/-!
# Canonical paths

A path is canonical when `normalize` leaves it as it is.  A path is in the directories
that its parent is in, and in itself.
-/

namespace Morphir.Engine

open Fallible List
open Workspace (within)

variable {α : Type}

variable {sep : α}

lemma notMem_of_mem_splitOn [BEq α] [LawfulBEq α] {l part : List α} (h : part ∈ l.splitOn sep) :
    sep ∉ part := by
  induction l generalizing part with
  | nil =>
    rw [splitOn_nil, mem_singleton] at h
    simp [h]
  | cons c l ih =>
    rw [splitOn_cons_eq_if_modifyHead] at h
    split at h
    · rcases mem_cons.mp h with rfl | h
      · exact not_mem_nil
      · exact ih h
    · rename_i hc
      cases hspl : l.splitOn sep with
      | nil => exact absurd hspl (splitOn_ne_nil sep l)
      | cons first parts =>
        rw [hspl] at h ih
        rcases mem_cons.mp h with rfl | h
        · rw [mem_cons, not_or]
          exact ⟨fun hsep => hc (beq_iff_eq.mpr hsep.symm), ih mem_cons_self⟩
        · exact ih (mem_cons_of_mem _ h)

variable {parts : List (List α)}

lemma mem_intercalate {c : α} (h : c ∈ [sep].intercalate parts) :
    c = sep ∨ ∃ part ∈ parts, c ∈ part := by
  cases parts with
  | nil => simp at h
  | cons part parts =>
    rw [intercalate_cons_eq_flatMap, mem_append, mem_flatMap] at h
    rcases h with h | ⟨next, hnx, h⟩
    · exact .inr ⟨part, mem_cons_self, h⟩
    · rcases mem_cons.mp h with h | h
      · exact .inl h
      · exact .inr ⟨next, mem_cons_of_mem part hnx, h⟩

lemma intercalate_concat {sep last : List α} (h : parts ≠ []) :
    sep.intercalate (parts ++ [last]) = sep.intercalate parts ++ sep ++ last := by
  cases parts with
  | nil => exact absurd rfl h
  | cons part parts =>
    rw [cons_append, intercalate_cons_eq_flatMap, intercalate_cons_eq_flatMap,
      flatMap_append, flatMap_singleton]
    simp only [append_assoc]

lemma subset_of_mem_splitOn [BEq α] [LawfulBEq α] {l part : List α} (h : part ∈ l.splitOn sep) :
    part ⊆ l := by
  intro c hc
  rw [← join_splitOn sep l]
  cases hspl : l.splitOn sep with
  | nil => exact absurd hspl (splitOn_ne_nil sep l)
  | cons first parts =>
    rw [hspl] at h
    rw [intercalate_cons_eq_flatMap, mem_append, mem_flatMap]
    rcases mem_cons.mp h with rfl | h
    · exact .inl hc
    · exact .inr ⟨part, h, mem_append_right [sep] hc⟩

def IsPart (part : List Char) : Prop := part ≠ [] ∧ part ≠ ['.'] ∧ part ≠ ['.', '.']

variable (path : String)

lemma intercalate_splitOn :
    String.intercalate "/" ((path.toList.splitOn '/').map String.ofList) = path := by
  rw [← String.toList_inj]
  simp

section Normalize

variable {expected path out : String}

/-- A path that a host takes for an absolute one, or that has a foreign separator. -/
def Foreign (path : String) : Prop :=
  path.toList.head? = some '/' ∨ '\\' ∈ path.toList ∨ ':' ∈ path.toList ∨ '\x00' ∈ path.toList

instance (path : String) : Decidable (Foreign path) := inferInstanceAs (Decidable (_ ∨ _))

lemma normalizeWith_ok (h : normalizeWith expected path = .ok out) :
    ¬ Foreign path ∧ ['.', '.'] ∉ path.toList.splitOn '/' ∧
      out.toList = ['/'].intercalate
        ((path.toList.splitOn '/').filter fun part => part ≠ [] ∧ part ≠ ['.']) := by
  obtain ⟨_, hsta, h⟩ := bind_ok h
  obtain ⟨_, hesc, h⟩ := bind_ok h
  cases h
  refine ⟨refuse_ok hsta, refuse_ok hesc, ?_⟩
  simp

lemma normalizeWith_self_iff :
    normalizeWith expected path = .ok path ↔
      path = "" ∨ (¬ Foreign path ∧ ∀ part ∈ path.toList.splitOn '/', IsPart part) := by
  constructor
  · intro h
    obtain ⟨hsta, hesc, hout⟩ := normalizeWith_ok h
    by_cases hnil : (path.toList.splitOn '/').filter
        (fun part => part ≠ [] ∧ part ≠ ['.']) = []
    · rw [hnil] at hout
      exact .inl (String.toList_inj.mp hout)
    · refine .inr ⟨hsta, fun part hpa => ?_⟩
      have hsl : ∀ part ∈ (path.toList.splitOn '/').filter
          (fun part => part ≠ [] ∧ part ≠ ['.']), '/' ∉ part :=
        fun part hpa => notMem_of_mem_splitOn (mem_of_mem_filter hpa)
      have hpts := splitOn_intercalate '/' hsl hnil
      rw [← hout] at hpts
      rw [hpts, mem_filter, decide_eq_true_eq] at hpa
      exact ⟨hpa.2.1, hpa.2.2, fun heq => hesc (heq ▸ hpa.1)⟩
  · rintro (rfl | ⟨hsta, hpts⟩)
    · rfl
    · have hfil : (path.toList.splitOn '/').filter (fun part => part ≠ [] ∧ part ≠ ['.']) =
          path.toList.splitOn '/' := by
        rw [filter_eq_self]
        exact fun part hpa => decide_eq_true ⟨(hpts part hpa).1, (hpts part hpa).2.1⟩
      have hesc : ['.', '.'] ∉ path.toList.splitOn '/' := fun h => (hpts _ h).2.2 rfl
      rw [Foreign] at hsta
      simp only [normalizeWith, refuse, if_neg hsta, if_neg hesc, hfil, intercalate_splitOn]
      rfl

lemma normalizeWith_normalized (h : normalizeWith expected path = .ok out) :
    normalizeWith expected out = .ok out := by
  obtain ⟨hsta, hesc, hout⟩ := normalizeWith_ok h
  rw [normalizeWith_self_iff]
  by_cases hnil : (path.toList.splitOn '/').filter
      (fun part => part ≠ [] ∧ part ≠ ['.']) = []
  · left
    rw [hnil] at hout
    exact String.toList_inj.mp hout
  · right
    have hpts : ∀ part ∈ (path.toList.splitOn '/').filter
        (fun part => part ≠ [] ∧ part ≠ ['.']), IsPart part ∧ '/' ∉ part ∧ part ⊆ path.toList := by
      intro part hpa
      obtain ⟨hmem, hpro⟩ := mem_filter.mp hpa
      have hpro := of_decide_eq_true hpro
      exact ⟨⟨hpro.1, hpro.2, fun heq => hesc (heq ▸ hmem)⟩,
        notMem_of_mem_splitOn hmem, subset_of_mem_splitOn hmem⟩
    have hchar : ∀ c ∈ out.toList, c ≠ '/' → c ∈ path.toList := by
      intro c hc hne
      rw [hout] at hc
      obtain ⟨part, hpa, hc⟩ := (mem_intercalate hc).resolve_left hne
      exact (hpts part hpa).2.2 hc
    constructor
    · rintro (hh | hmem | hmem | hmem)
      · cases hfst : (path.toList.splitOn '/').filter
            (fun part => part ≠ [] ∧ part ≠ ['.']) with
        | nil => exact hnil hfst
        | cons part parts =>
          obtain ⟨hpa, hsl, -⟩ := hpts part (hfst ▸ mem_cons_self)
          rw [hout, hfst] at hh
          cases part with
          | nil => exact hpa.1 rfl
          | cons c part =>
            obtain rfl : c = '/' := by simpa using hh
            exact hsl mem_cons_self
      · exact hsta (.inr (.inl (hchar _ hmem (by decide))))
      · exact hsta (.inr (.inr (.inl (hchar _ hmem (by decide)))))
      · exact hsta (.inr (.inr (.inr (hchar _ hmem (by decide)))))
    · rw [hout, splitOn_intercalate '/' (fun part h => (hpts part h).2.1) hnil]
      exact fun part hpa => (hpts part hpa).1

end Normalize

namespace Workspace

def parent (path : String) : String :=
  let parts := path.toList.splitOn '/'
  if parts.length ≤ 1 then "" else String.intercalate "/" (parts.dropLast.map String.ofList)

end Workspace

open Workspace (parent)

lemma toList_parent :
    (parent path).toList = ['/'].intercalate (path.toList.splitOn '/').dropLast := by
  unfold parent
  dsimp only
  split
  · have hnil : (path.toList.splitOn '/').dropLast = [] := by
      apply eq_nil_of_length_eq_zero
      rw [length_dropLast]
      omega
    rw [hnil]
    rfl
  · simp

lemma parent_cases :
    (parent path = "" ∧ (path.toList.splitOn '/').dropLast = [] ∧ '/' ∉ path.toList) ∨
      ((path.toList.splitOn '/').dropLast ≠ [] ∧
        ∃ name, '/' ∉ name ∧ path.toList = (parent path).toList ++ '/' :: name) := by
  have hspl := dropLast_concat_getLast (splitOn_ne_nil '/' path.toList)
  have hl : '/' ∉ (path.toList.splitOn '/').getLast (splitOn_ne_nil '/' path.toList) :=
    notMem_of_mem_splitOn (getLast_mem _)
  have hjn := join_splitOn '/' path.toList
  by_cases hnil : (path.toList.splitOn '/').dropLast = []
  · left
    refine ⟨?_, hnil, ?_⟩
    · rw [← String.toList_inj, toList_parent, hnil]
      rfl
    · rw [← hspl, hnil, nil_append, intercalate_singleton] at hjn
      rwa [hjn] at hl
  · right
    refine ⟨hnil, _, hl, ?_⟩
    rw [← hspl, intercalate_concat hnil, append_assoc] at hjn
    rw [toList_parent]
    exact hjn.symm

lemma length_parent_lt {path : String} (h : path ≠ "") :
    (parent path).toList.length < path.toList.length := by
  rcases parent_cases path with ⟨hpar, -, -⟩ | ⟨-, name, -, hp⟩
  · rw [hpar]
    exact length_pos_of_ne_nil (mt String.toList_eq_nil_iff.mp h)
  · rw [hp, length_append, length_cons]
    omega

lemma prefix_of_prefix_append {root front name : List Char} (hname : '/' ∉ name)
    (h : root ++ ['/'] <+: front ++ name) : root ++ ['/'] <+: front := by
  rcases prefix_or_prefix_of_prefix h (prefix_append front name) with h' | ⟨rest, hr⟩
  · exact h'
  · rw [← hr, prefix_append_right_inj] at h
    rcases eq_nil_or_concat rest with rfl | ⟨rest, c, rfl⟩
    · rw [append_nil] at hr
      rw [hr]
    · rw [concat_eq_append] at h hr
      rw [← append_assoc] at hr
      obtain rfl : c = '/' := by simpa using (append_inj' hr rfl).2
      exact absurd (h.subset (by simp)) hname

lemma within_iff_parent {root path : String} (hro : root ≠ "") :
    within root path = true ↔ root = path ∨ within root (parent path) = true := by
  simp only [within_iff, hro, false_or]
  rw [prefix_concat_iff, append_left_inj, String.toList_inj]
  refine or_congr_right ?_
  rcases parent_cases path with ⟨hpar, -, hsl⟩ | ⟨-, name, hname, hp⟩
  · have hne : root.toList ≠ [] := mt String.toList_eq_nil_iff.mp hro
    rw [hpar]
    constructor
    · intro h
      exact absurd (h.subset (mem_append_right _ mem_cons_self)) hsl
    · intro h
      have hlen := h.length_le
      simp only [length_append, String.toList_empty, length_nil] at hlen
      have hpos := length_pos_of_ne_nil hne
      omega
  · rw [hp, append_cons (parent path).toList '/' name]
    constructor
    · exact prefix_of_prefix_append hname
    · exact fun h => h.trans (prefix_append _ _)

lemma normalizeWith_parent {expected path : String} (h : normalizeWith expected path = .ok path) :
    normalizeWith expected (parent path) = .ok (parent path) := by
  rw [normalizeWith_self_iff] at *
  rcases h with rfl | ⟨hsta, hpts⟩
  · exact .inl rfl
  · rcases parent_cases path with ⟨hpar, -, -⟩ | ⟨hnil, name, -, hp⟩
    · exact .inl hpar
    · have hfr : ∀ part ∈ (path.toList.splitOn '/').dropLast, part ∈ path.toList.splitOn '/' :=
        fun part => mem_of_mem_dropLast
      have hpre : (parent path).toList <+: path.toList := ⟨_, hp.symm⟩
      refine .inr ⟨?_, ?_⟩
      · rintro (hh | hmem | hmem | hmem)
        · refine hsta (.inl ?_)
          rw [hp, List.head?_append, hh]
          rfl
        · exact hsta (.inr (.inl (hpre.subset hmem)))
        · exact hsta (.inr (.inr (.inl (hpre.subset hmem))))
        · exact hsta (.inr (.inr (.inr (hpre.subset hmem))))
      · rw [toList_parent, splitOn_intercalate '/'
          (fun part hpa => notMem_of_mem_splitOn (hfr part hpa)) hnil]
        exact fun part hpa => hpts part (hfr part hpa)

lemma normalizeWith_within {expected root path : String} (hro : root ≠ "")
    (hwi : within root path = true) (h : normalizeWith expected path = .ok path) :
    normalizeWith expected root = .ok root := by
  rcases (within_iff_parent hro).mp hwi with rfl | hpar
  · exact h
  · have hsho := length_parent_lt (ne_empty_of_within hro hwi)
    exact normalizeWith_within hro hpar (normalizeWith_parent h)
termination_by path.toList.length

end Morphir.Engine
