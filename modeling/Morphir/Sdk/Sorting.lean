import Morphir.Library.Reordering

/-!
# Sorting of lists

The sort of the SDK merges runs bottom-up: each pass copies the items and merges runs of
one width into runs of twice the width.  A read behind the end stops the program.
-/

namespace Morphir.Sdk

open List Option

universe u

variable {α : Type u}

/-- Merges the runs up to `middle` and up to `stop` into the places from `k` on, where `i`
and `j` have come to in the runs.  The number of places that are left is `count`. -/
def mergeRuns (cmp : α → α → Ordering) (previous : List α) (middle stop : Nat) :
    Nat → List α → Nat → Nat → Nat → Option (List α)
  | 0, a, _, _, _ => some a
  | count + 1, a, i, j, k =>
    if stop ≤ j then do
      let x ← previous[i]?
      mergeRuns cmp previous middle stop count (a.set k x) (i + 1) j (k + 1)
    else if i < middle then do
      let x ← previous[i]?
      let y ← previous[j]?
      if cmp x y ≠ .gt then
        mergeRuns cmp previous middle stop count (a.set k x) (i + 1) j (k + 1)
      else mergeRuns cmp previous middle stop count (a.set k y) i (j + 1) (k + 1)
    else do
      let y ← previous[j]?
      mergeRuns cmp previous middle stop count (a.set k y) i (j + 1) (k + 1)

/-- A pass from `start` on.  It does not change the number of items. -/
def mergePass (cmp : α → α → Ordering) (previous : List α) (width : Nat) (hw : 0 < width)
    (a : List α) (start : Nat) : Option (List α) :=
  if start < previous.length then do
    let middle := min (start + width) previous.length
    let stop := min (middle + width) previous.length
    let a ← mergeRuns cmp previous middle stop (stop - start) a start middle start
    mergePass cmp previous width hw a stop
  else some a
termination_by previous.length - start

/-- The passes from a width on, over `size` items. -/
def mergePasses (cmp : α → α → Ordering) (size : Nat) (a : List α) (width : Nat)
    (hw : 0 < width) : Option (List α) :=
  if hlt : width < size then do
    let a ← mergePass cmp a width hw a 0
    if size / 2 < width then mergePasses cmp size a size (Nat.lt_trans hw hlt)
    else mergePasses cmp size a (width * 2) (Nat.mul_pos hw Nat.zero_lt_two)
  else some a
termination_by size - width

def sortWith (cmp : α → α → Ordering) (values : List α) : Option (List α) :=
  mergePasses cmp values.length values 1 Nat.zero_lt_one

section Merging

variable {cmp : α → α → Ordering} {previous : List α}

def segment (xs : List α) (start stop : Nat) : List α := (xs.take stop).drop start

variable {stop : Nat}

lemma segment_of_le {start : Nat} (xs : List α) (h : stop ≤ start) :
    segment xs start stop = [] := by
  apply drop_eq_nil_of_le
  rw [length_take]
  omega

lemma segment_cons {start : Nat} {x : α} (hx : previous[start]? = some x) (hsta : start < stop) :
    segment previous start stop = x :: segment previous (start + 1) stop := by
  obtain ⟨hlen, rfl⟩ := List.getElem?_eq_some_iff.mp hx
  have hlt : start < (previous.take stop).length := by
    rw [length_take]
    omega
  rw [segment, drop_eq_getElem_cons hlt, getElem_take, segment]

lemma take_set_append {a : List α} {k : Nat} (x : α) (rest : List α) (hk : k < a.length)
    (hsp : k < stop) :
    (a.set k x).take (k + 1) ++ rest ++ (a.set k x).drop stop =
      a.take k ++ (x :: rest) ++ a.drop stop := by
  have htk : (a.set k x).take (k + 1) = a.take k ++ [x] := by
    rw [set_eq_take_append_cons_drop, if_pos hk, take_append, length_take,
      Nat.min_eq_left (Nat.le_of_lt hk), Nat.add_sub_cancel_left, take_take,
      Nat.min_eq_right (Nat.le_succ k), take_succ_cons, take_zero]
  rw [htk, drop_set_of_lt hsp, append_assoc (a.take k), singleton_append]

lemma mergeRuns_eq {middle : Nat} (hmid : middle ≤ stop) (hsp : stop ≤ previous.length)
    (count : Nat) {a : List α} {i j k : Nat} (hlen : a.length = previous.length) (hi : i ≤ middle)
    (hj : middle ≤ j) (hj' : j ≤ stop) (hk : k + count = stop)
    (hcnt : count = (middle - i) + (stop - j)) :
    mergeRuns cmp previous middle stop count a i j k =
      some (a.take k ++ (segment previous i middle).merge (segment previous j stop) (atMost cmp) ++
        a.drop stop) := by
  induction count generalizing a i j k with
  | zero =>
    rw [mergeRuns, segment_of_le _ (by omega), segment_of_le _ (by omega), nil_merge,
      append_nil, ← hk, Nat.add_zero, take_append_drop]
  | succ count ih =>
    have hk' : k < a.length := by omega
    have hkstop : k < stop := by omega
    have hset : ∀ x, (a.set k x).length = previous.length := by
      intro x
      rw [length_set, hlen]
    have hrd : ∀ p, p < stop → ∃ x, previous[p]? = some x := fun p hp =>
      ⟨_, List.getElem?_eq_getElem (Nat.lt_of_lt_of_le hp hsp)⟩
    unfold mergeRuns
    split
    next hdo =>
      obtain ⟨x, hx⟩ := hrd i (by omega)
      rw [hx, bind_eq_bind, bind_some, ih (hset x) (by omega) hj hj' (by omega) (by omega),
        segment_of_le _ hdo, merge_right, merge_right, take_set_append x _ hk' hkstop,
        segment_cons hx (by omega)]
    next hrt =>
      obtain ⟨y, hy⟩ := hrd j (by omega)
      split
      next hlt =>
        obtain ⟨x, hx⟩ := hrd i (by omega)
        rw [hx, hy, bind_eq_bind, bind_some, bind_some,
          segment_cons hx hlt, segment_cons hy (by omega), cons_merge_cons]
        split
        next hle =>
          have hmost : atMost cmp x y = true := Ordering.isLE_iff_ne_gt.mpr hle
          rw [if_pos hmost, ih (hset x) (by omega) hj hj' (by omega) (by omega),
            take_set_append x _ hk' hkstop, segment_cons hy (by omega)]
        next hgt =>
          have hmost : ¬atMost cmp x y = true := by
            intro h
            exact hgt (Ordering.isLE_iff_ne_gt.mp h)
          rw [if_neg hmost, ih (hset y) hi (by omega) (by omega) (by omega) (by omega),
            take_set_append y _ hk' hkstop, segment_cons hx hlt]
      next hlt =>
        rw [hy, bind_eq_bind, bind_some, ih (hset y) hi (by omega) (by omega) (by omega) (by omega),
          segment_of_le _ (Nat.not_lt.mp hlt), nil_merge, nil_merge,
          take_set_append y _ hk' hkstop, segment_cons hy (by omega)]

inductive Merged (cmp : α → α → Ordering) (width : Nat) : List α → List α → Prop
  | nil : Merged cmp width [] []
  | runs {xs zs : List α} (nonempty : xs ≠ [])
      (rest : Merged cmp width (xs.drop (width * 2)) zs) :
      Merged cmp width xs
        ((xs.take width).merge ((xs.drop width).take width) (atMost cmp) ++ zs)

lemma segment_run (xs : List α) (start width : Nat) :
    segment xs start (min (start + width) xs.length) = (xs.drop start).take width := by
  rw [segment, drop_take, Nat.min_comm, ← Nat.sub_min_sub_right, ← length_drop]
  rcases Nat.le_total (xs.drop start).length (start + width - start) with h | h
  · rw [Nat.min_eq_left h, take_length, take_of_length_le]
    omega
  · rw [Nat.min_eq_right h, Nat.add_sub_cancel_left]

lemma drop_min_length (xs : List α) (n : Nat) : xs.drop (min n xs.length) = xs.drop n := by
  rcases Nat.le_total n xs.length with h | h
  · rw [Nat.min_eq_left h]
  · rw [Nat.min_eq_right h, drop_length, drop_eq_nil_of_le h]

variable {width : Nat}

lemma mergePass_eq (hw : 0 < width) (start : Nat) {a : List α}
    (hlen : a.length = previous.length) (hsta : start ≤ previous.length) :
    ∃ zs, Merged cmp width (previous.drop start) zs ∧
      mergePass cmp previous width hw a start = some (a.take start ++ zs) := by
  generalize hleft : previous.length - start = left
  induction left using Nat.strongRecOn generalizing start a with
  | ind left ih =>
    unfold mergePass
    split
    next hlt =>
      dsimp only
      generalize hmid : min (start + width) previous.length = middle
      generalize hsp : min (middle + width) previous.length = stop
      have hfst : segment previous start middle = (previous.drop start).take width := by
        rw [← hmid, segment_run]
      have hsnd : segment previous middle stop =
          ((previous.drop start).drop width).take width := by
        rw [← hsp, segment_run, ← hmid, drop_min_length, drop_drop]
      have hr : previous.drop stop = (previous.drop start).drop (width * 2) := by
        rw [← hsp, drop_min_length, ← drop_drop, ← hmid, drop_min_length, drop_drop, drop_drop]
        congr 1
        omega
      rw [mergeRuns_eq (by omega) (by omega) _ hlen (by omega) (by omega) (by omega) (by omega)
        (by omega), hfst, hsnd, bind_eq_bind, bind_some]
      generalize hmg : ((previous.drop start).take width).merge
        (((previous.drop start).drop width).take width) (atMost cmp) = merged
      have hmer : merged.length = stop - start := by
        rw [← hmg, length_merge, ← hfst, ← hsnd, segment, segment, length_drop,
          length_drop, length_take, length_take]
        omega
      have hwtn : (a.take start ++ merged).length = stop := by
        rw [length_append, length_take]
        omega
      have hnow : (a.take start ++ merged ++ a.drop stop).length = previous.length := by
        rw [length_append, length_drop]
        omega
      obtain ⟨zs, hzs, hpass⟩ := ih (previous.length - stop) (by omega) stop hnow (by omega) rfl
      refine ⟨merged ++ zs, ?_, ?_⟩
      · rw [← hmg]
        apply Merged.runs
        · rw [ne_eq, drop_eq_nil_iff]
          omega
        · rw [← hr]
          exact hzs
      · rw [hpass, take_append_of_le_length (Nat.le_of_eq hwtn.symm),
          take_of_length_le (Nat.le_of_eq hwtn), append_assoc]
    next hdo =>
      have hend : previous.length ≤ start := Nat.not_lt.mp hdo
      refine ⟨[], ?_, ?_⟩
      · rw [drop_eq_nil_of_le hend]
        exact Merged.nil
      · rw [append_nil, take_of_length_le]
        omega

/-- Each run of the width is the stable sort of the items that were at its place. -/
def RunsSorted (cmp : α → α → Ordering) (width : Nat) (xs ys : List α) : Prop :=
  ∀ run, StableSorted cmp ((xs.drop (run * width)).take width) ((ys.drop (run * width)).take width)

lemma runsSorted_one (xs : List α) : RunsSorted cmp 1 xs xs := fun run =>
  stableSorted_of_length_le_one (by rw [length_take]; omega)

variable {ys xs : List α}

lemma take_drop_append {zs : List α} (hle : ys.length ≤ width) (hfu : ys.length = width ∨ zs = [])
    : (ys ++ zs).take width = ys ∧ ∀ n, (ys ++ zs).drop (n + width) = zs.drop n := by
  rcases hfu with rfl | rfl
  · refine ⟨take_left, fun n => ?_⟩
    rw [Nat.add_comm, ← drop_drop, drop_left]
  · rw [append_nil]
    refine ⟨take_of_length_le hle, fun n => ?_⟩
    rw [drop_nil, drop_eq_nil_of_le (Nat.le_add_left_of_le hle)]

lemma RunsSorted.merged [Std.TransCmp cmp] {zs : List α} (hlen : xs.length = ys.length)
    (h : RunsSorted cmp width xs ys) (hmer : Merged cmp width ys zs) :
    RunsSorted cmp (width * 2) xs zs ∧ xs.length = zs.length := by
  induction hmer generalizing xs with
  | nil =>
    rw [length_nil, length_eq_zero_iff] at hlen
    subst hlen
    refine ⟨fun run => ?_, rfl⟩
    rw [drop_nil, take_nil]
    exact stableSorted_of_length_le_one (Nat.zero_le 1)
  | @runs ys zs nonempty rest ih =>
    have hlat : RunsSorted cmp width (xs.drop (width * 2)) (ys.drop (width * 2)) := by
      intro run
      have hrun := h (run + 2)
      rw [Nat.add_mul, Nat.mul_comm 2 width] at hrun
      rw [drop_drop, drop_drop, Nat.add_comm]
      exact hrun
    obtain ⟨hruns, hzs⟩ := ih (by rw [length_drop, length_drop, hlen]) hlat
    generalize hmg : (ys.take width).merge ((ys.drop width).take width) (atMost cmp) = merged
    have hmer : merged.length = min (width * 2) ys.length := by
      rw [← hmg, length_merge, length_take, length_take, length_drop]
      omega
    rw [length_drop] at hzs
    have hfu : merged.length = width * 2 ∨ zs = [] := by
      rw [← length_eq_zero_iff]
      omega
    obtain ⟨htk, hdr⟩ := take_drop_append (by omega) hfu
    constructor
    · intro run
      cases run with
      | zero =>
        rw [Nat.zero_mul, drop_zero, drop_zero, htk, ← hmg, Nat.mul_two, take_add]
        have hfst := h 0
        have hsnd := h 1
        rw [Nat.zero_mul] at hfst
        rw [Nat.one_mul] at hsnd
        exact hfst.merge hsnd
      | succ run =>
        have hrun := hruns run
        rw [drop_drop, Nat.add_comm] at hrun
        rw [Nat.succ_mul, hdr]
        exact hrun
    · rw [length_append]
      omega

lemma RunsSorted.stableSorted (h : RunsSorted cmp width xs ys) (hlen : xs.length = ys.length)
    (hw : xs.length ≤ width) : StableSorted cmp xs ys := by
  have hrun := h 0
  rw [Nat.zero_mul, drop_zero, drop_zero, take_of_length_le hw,
    take_of_length_le (by omega)] at hrun
  exact hrun

lemma mergePasses_sorts [Std.TransCmp cmp] (width : Nat) (hw : 0 < width) {a : List α}
    (hlen : xs.length = a.length) (h : RunsSorted cmp width xs a) :
    ∃ ys, mergePasses cmp xs.length a width hw = some ys ∧ StableSorted cmp xs ys := by
  generalize hleft : xs.length - width = left
  induction left using Nat.strongRecOn generalizing width a with
  | ind left ih =>
    unfold mergePasses
    split
    next hlt =>
      obtain ⟨zs, hmer, hpass⟩ := @mergePass_eq α cmp a width hw 0 a rfl (Nat.zero_le _)
      rw [take_zero, nil_append] at hpass
      obtain ⟨hruns, hzs⟩ := h.merged hlen hmer
      rw [hpass, bind_eq_bind, bind_some]
      split
      next hwide =>
        refine ⟨zs, ?_, hruns.stableSorted hzs (by omega)⟩
        unfold mergePasses
        rw [dif_neg (Nat.lt_irrefl _)]
      next hnar => exact ih (xs.length - width * 2) (by omega) (width * 2) _ hzs hruns rfl
    next hwide => exact ⟨a, rfl, h.stableSorted hlen (Nat.not_lt.mp hwide)⟩

/-- The sort gives the stable sorted permutation, for every order that is a total preorder. -/
theorem sortWith_stable (cmp : α → α → Ordering) [Std.TransCmp cmp] (values : List α) :
    ∃ sorted, sortWith cmp values = some sorted ∧ StableSorted cmp values sorted :=
  mergePasses_sorts 1 Nat.zero_lt_one rfl (runsSorted_one values)

theorem sortWith_stable_pairs :
    ∃ sorted, sortWith (compareOn Prod.fst) [(2, 0), (1, 1), (2, 2)] = some sorted ∧
      StableSorted (compareOn (Prod.fst : Nat × Nat → Nat)) [(2, 0), (1, 1), (2, 2)] sorted :=
  sortWith_stable (compareOn Prod.fst) [(2, 0), (1, 1), (2, 2)]

end Merging

end Morphir.Sdk
