import Morphir.Library.OrdMap

/-!
# Canonical maps

Two maps with the same values at every key have one canonical form: the
entries sorted by key.
-/

namespace OrdMap

open List

universe u v w

variable {κ : Type u} {υ : Type v} {ω : Type w} [DecidableEq κ]

lemma get?_append (m n : List (κ × υ)) (key : κ) :
    get? (m ++ n) key = (get? m key).or (get? n key) := by
  induction m with
  | nil => simp
  | cons e m ih =>
    obtain ⟨k, v⟩ := e
    by_cases hk : k = key
    · subst hk
      simp
    · simp [get?_cons, hk, ih]

/-- The entries of the listed keys, with values from `value`. -/
def entriesAt (keys : List κ) (value : κ → Option υ) : List (κ × υ) :=
  keys.filterMap fun key => (value key).map fun v => (key, v)

lemma get?_entriesAt (keys : List κ) (value : κ → Option υ) (key : κ) :
    get? (entriesAt keys value) key = if key ∈ keys then value key else none := by
  induction keys with
  | nil => rfl
  | cons k keys ih =>
    unfold entriesAt at ih ⊢
    rw [filterMap_cons]
    cases hk : value k with
    | none =>
      by_cases hkey : key = k
      · subst hkey
        simp [ih, hk]
      · simpa [hkey] using ih
    | some v =>
      by_cases hkey : k = key
      · subst hkey
        simp [hk]
      · have hkey' : key ≠ k := fun h => hkey h.symm
        simpa [get?_cons, hkey, hkey'] using ih

variable [LinearOrder κ]

def canonical (m : List (κ × υ)) : List (κ × υ) :=
  entriesAt ((keys m).dedup.insertionSort (· ≤ ·)) (get? m)

lemma get?_canonical (m : List (κ × υ)) (key : κ) : get? (canonical m) key = get? m key := by
  rw [canonical, get?_entriesAt]
  split
  · rfl
  · rename_i hnot
    have hkey : key ∉ keys m := by simpa using hnot
    exact (get?_eq_none_iff.mpr hkey).symm

variable {m n : List (κ × υ)}

lemma canonical_ext (h : ∀ key, get? m key = get? n key) : canonical m = canonical n := by
  have hks : ∀ key, key ∈ (keys m).dedup ↔ key ∈ (keys n).dedup := by
    intro key
    rw [mem_dedup, mem_dedup, ← get?_isSome_iff, ← get?_isSome_iff, h key]
  have hpm : (keys m).dedup.Perm (keys n).dedup :=
    (perm_ext_iff_of_nodup (nodup_dedup _) (nodup_dedup _)).mpr hks
  have hsort : (keys m).dedup.insertionSort (· ≤ ·) = (keys n).dedup.insertionSort (· ≤ ·) := by
    have hp := ((perm_insertionSort (· ≤ ·) _).trans hpm).trans
      (perm_insertionSort (· ≤ ·) (keys n).dedup).symm
    exact hp.eq_of_pairwise' (pairwise_insertionSort _ _) (pairwise_insertionSort _ _)
  have hval : get? m = get? n := funext h
  rw [canonical, canonical, hsort, hval]

lemma canonical_eq_iff :
    canonical m = canonical n ↔ ∀ key, get? m key = get? n key := by
  refine ⟨?_, canonical_ext⟩
  intro h key
  rw [← get?_canonical m, ← get?_canonical n, h]

lemma canonical_mapValues_eq_iff (f : υ → ω) (hm : Distinct m) (hn : Distinct n) :
    canonical (mapValues f m) = canonical (mapValues f n) ↔
      m.length = n.length ∧ ∀ e ∈ m, ∃ value, get? n e.1 = some value ∧ f e.2 = f value := by
  rw [canonical_eq_iff]
  constructor
  · intro h
    have hks : ∀ key, key ∈ keys m ↔ key ∈ keys n := by
      intro key
      have hkey := h key
      rw [get?_mapValues, get?_mapValues] at hkey
      rw [← get?_isSome_iff, ← get?_isSome_iff, ← Option.isSome_map, hkey, Option.isSome_map]
    refine ⟨?_, ?_⟩
    · have hpm := (perm_ext_iff_of_nodup hm hn).mpr hks
      simpa [keys] using hpm.length_eq
    · rintro ⟨key, value⟩ he
      have hkey := h key
      rw [get?_mapValues, get?_mapValues, get?_of_mem hm he] at hkey
      obtain ⟨other, ho, heq⟩ := Option.map_eq_some_iff.mp hkey.symm
      exact ⟨other, ho, heq.symm⟩
  · rintro ⟨hlen, hents⟩ key
    have hsub : ∀ key ∈ keys m, key ∈ keys n := by
      intro key hkey
      obtain ⟨e, he, rfl⟩ := mem_map.mp hkey
      obtain ⟨value, hval, -⟩ := hents e he
      exact get?_isSome_iff.mp (by simp [hval])
    rw [get?_mapValues, get?_mapValues]
    cases hval : get? m key with
    | some value =>
      obtain ⟨other, ho, heq⟩ := hents (key, value) (mem_of_get? hval)
      rw [ho, Option.map_some, Option.map_some, heq]
    | none =>
      have hnot := (hm.keys_iff hlen hsub key).not.mp (get?_eq_none_iff.mp hval)
      rw [get?_eq_none_iff.mpr hnot]

end OrdMap
