import Morphir.Library.ListRel
import Morphir.Library.Occurrences

/-!
# Texts of the SDK

Texts are UTF-16 units, lone surrogates included.  Two loops scan a text for a
word: one cuts the text, the other reports the positions.
-/

namespace Morphir.Sdk

open Occurrences List

abbrev Text := List UInt16

structure Character where
  text : Text

/-- Whether the needle stands at a position, unit by unit. -/
def matchAt (source needle : Text) (start : Nat) : Bool :=
  if source.length < start + needle.length then false
  else (List.range needle.length).all fun i => source[start + i]? = needle[i]?

def splitFrom (source needle : Text) (hne : needle ≠ []) (start i : Nat) : List Text :=
  if i + needle.length ≤ source.length then
    if matchAt source needle i = true then
      part source start i :: splitFrom source needle hne (i + needle.length) (i + needle.length)
    else splitFrom source needle hne start (i + 1)
  else [part source start source.length]
termination_by source.length - i
decreasing_by
  all_goals
    have := length_pos_of_ne_nil hne
    omega

def split (separator value : Text) : List Text :=
  if hne : separator = [] then (List.range value.length).map fun i => part value i (i + 1)
  else splitFrom value separator hne 0 0

def indexesFrom (source needle : Text) (hne : needle ≠ []) (i : Nat) : List Nat :=
  if i + needle.length ≤ source.length then
    if matchAt source needle i = true then
      i :: indexesFrom source needle hne (i + needle.length)
    else indexesFrom source needle hne (i + 1)
  else []
termination_by source.length - i
decreasing_by
  all_goals
    have := length_pos_of_ne_nil hne
    omega

def indexes (needle value : Text) : List Nat :=
  if hne : needle = [] then [] else indexesFrom value needle hne 0

/-- The values with the separator before each one but the first. -/
def join (separator : Text) (values : List Text) : Text :=
  (values.foldl (fun (result, first) value =>
    ((if first = true then result else result ++ separator) ++ value, false)) ([], true)).1

def replace (before after value : Text) : Text := join after (split before value)

def isLeadingSurrogate (unit : UInt16) : Bool := 0xD800 ≤ unit && unit ≤ 0xDBFF

def isTrailingSurrogate (unit : UInt16) : Bool := 0xDC00 ≤ unit && unit ≤ 0xDFFF

def nextIndex (source : Text) (i : Nat) : Nat :=
  if source[i]?.any isLeadingSurrogate && source[i + 1]?.any isTrailingSurrogate then i + 2
  else i + 1

def charsFrom (source : Text) (i : Nat) : List Character :=
  if i < source.length then
    ⟨part source i (nextIndex source i)⟩ :: charsFrom source (nextIndex source i)
  else []
termination_by source.length - i
decreasing_by
  unfold nextIndex
  split <;> omega

def toList (value : Text) : List Character := charsFrom value 0

def fromList (values : List Character) : Text :=
  values.foldl (fun result character => result ++ character.text) []

variable {source needle : Text}

lemma matchAt_iff (hne : needle ≠ []) {i : Nat} :
    matchAt source needle i = true ↔ needle <+: source.drop i := by
  unfold matchAt
  split_ifs with hlen
  · refine iff_of_false (by simp) fun hocc => ?_
    have hle := (length_of_occurs hocc).resolve_left hne
    omega
  · rw [prefix_iff_getElem?, all_eq_true]
    refine forall_congr' fun k => ?_
    rw [mem_range]
    refine forall_congr' fun hk => ?_
    rw [decide_eq_true_eq, List.getElem?_drop, List.getElem?_eq_getElem hk]

lemma indexesFrom_leftmost (hne : needle ≠ []) (i : Nat) :
    Leftmost source needle i (indexesFrom source needle hne i) := by
  induction i using indexesFrom.induct source needle hne with
  | case1 i hle hm ih =>
    rw [indexesFrom, if_pos hle, if_pos hm]
    exact ih.cons ((matchAt_iff hne).mp hm)
  | case2 i hle hm ih =>
    rw [indexesFrom, if_pos hle, if_neg hm]
    exact ih.skip fun hocc => hm ((matchAt_iff hne).mpr hocc)
  | case3 i hle =>
    rw [indexesFrom, if_neg hle]
    exact .nil hne (not_le.mp hle)

/-- Both loops skip ahead alike. -/
theorem splitFrom_eq (hne : needle ≠ []) (start i : Nat) :
    splitFrom source needle hne start i =
      cutAt source needle.length start (indexesFrom source needle hne i) := by
  induction start, i using splitFrom.induct source needle hne with
  | case1 start i hle hm ih =>
    rw [splitFrom, if_pos hle, if_pos hm, ih, indexesFrom.eq_def _ _ _ i, if_pos hle, if_pos hm,
      cutAt]
  | case2 start i hle hm ih =>
    rw [splitFrom, if_pos hle, if_neg hm, ih, indexesFrom.eq_def _ _ _ i, if_pos hle, if_neg hm]
  | case3 start i hle => rw [splitFrom, if_neg hle, indexesFrom, if_neg hle, cutAt]

lemma intercalate_empty (values : List Text) : ([] : Text).intercalate values = values.flatten := by
  cases values with
  | nil => rfl
  | cons value values => simp [intercalate_cons_eq_flatMap]

lemma join_eq (separator : Text) (values : List Text) :
    join separator values = separator.intercalate values := by
  have hloop (values : List Text) (result : Text) : (values.foldl (fun (result, first) value =>
      ((if first = true then result else result ++ separator) ++ value, false))
        (result, false)).1 = result ++ values.flatMap (separator ++ ·) := by
    induction values generalizing result with
    | nil => simp
    | cons value values ih => simp [ih]
  cases values with
  | nil => rfl
  | cons value values =>
    rw [join, foldl_cons, hloop, intercalate_cons_eq_flatMap]
    rfl

lemma flatten_units (value : Text) (n : Nat) :
    ((List.range n).map fun i => part value i (i + 1)).flatten = value.take n := by
  induction n with
  | zero => rfl
  | succ n ih =>
    rw [range_succ, map_append, flatten_append, ih, map_singleton, flatten_singleton]
    have hsplit := take_append_drop n (value.take (n + 1))
    rwa [take_take, Nat.min_eq_left (Nat.le_succ n)] at hsplit

lemma charsFrom_eq (i : Nat) :
    ((charsFrom source i).map Character.text).flatten = source.drop i := by
  induction i using charsFrom.induct source with
  | case1 i hlt ih =>
    have hle : i ≤ nextIndex source i := by
      unfold nextIndex
      split <;> omega
    rw [charsFrom, if_pos hlt, map_cons, flatten_cons, ih, part_append_drop hle]
  | case2 i hle =>
    rw [charsFrom, if_neg hle, drop_eq_nil_of_le (not_lt.mp hle)]
    rfl

lemma fromList_eq (values : List Character) :
    fromList values = (values.map Character.text).flatten := by
  have hloop (result : Text) : values.foldl (fun result character => result ++ character.text)
      result = result ++ (values.map Character.text).flatten := by
    induction values generalizing result with
    | nil => simp
    | cons value values ih => simp
  exact hloop []

/-- What splitting and replacing are for. -/
structure Splits (separator value : Text) : Prop where
  join : join separator (split separator value) = value
  indexes : separator ≠ [] → Leftmost value separator 0 (indexes separator value)
  split : separator ≠ [] →
    split separator value = cutAt value separator.length 0 (Sdk.indexes separator value)
  pieces : separator ≠ [] → ∀ piece ∈ Sdk.split separator value, ¬ separator <:+: piece
  replace : separator ≠ [] → ∀ after, replace separator after value =
    substitute value separator.length after 0 (Sdk.indexes separator value)
  characters : fromList (toList value) = value

theorem split_splits (separator value : Text) : Splits separator value := by
  have hlm (hne : separator ≠ []) : Leftmost value separator 0 (indexes separator value) := by
    rw [indexes, dif_neg hne]
    exact indexesFrom_leftmost hne 0
  have hspl (hne : separator ≠ []) :
      split separator value = cutAt value separator.length 0 (indexes separator value) := by
    rw [split, indexes, dif_neg hne, dif_neg hne]
    exact splitFrom_eq hne 0 0
  refine ⟨?_, hlm, hspl, fun hne => ?_, fun hne after => ?_, ?_⟩
  · rw [join_eq]
    by_cases hne : separator = []
    · rw [split, dif_pos hne, hne, intercalate_empty, flatten_units, take_length]
    · rw [hspl hne, intercalate_cutAt, (hlm hne).substitute_self, drop_zero]
  · rw [hspl hne]
    exact (hlm hne).pieces_free hne
  · rw [replace, join_eq, hspl hne, intercalate_cutAt]
  · rw [fromList_eq]
    exact charsFrom_eq 0

end Morphir.Sdk
