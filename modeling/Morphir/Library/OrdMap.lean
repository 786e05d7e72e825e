import Mathlib

/-!
# Insertion-ordered maps

A map is the list of its entries in insertion order.  Writing to a present
key keeps the position of the key; writing to a new key appends an entry.
The operations keep the keys distinct, which is the predicate `Distinct`.
-/

namespace OrdMap

open List OrdMap

universe u v w

variable {κ : Type u} {υ : Type v} {ω : Type w} [DecidableEq κ]

def get? : List (κ × υ) → κ → Option υ
  | [], _ => none
  | (k, v) :: m, key => if k = key then some v else get? m key

def contains (m : List (κ × υ)) (key : κ) : Bool := (get? m key).isSome

def insert : List (κ × υ) → κ → υ → List (κ × υ)
  | [], key, value => [(key, value)]
  | (k, v) :: m, key, value => if k = key then (k, value) :: m else (k, v) :: insert m key value

def erase : List (κ × υ) → κ → List (κ × υ)
  | [], _ => []
  | (k, v) :: m, key => if k = key then erase m key else (k, v) :: erase m key

def keys (m : List (κ × υ)) : List κ := m.map Prod.fst

def values (m : List (κ × υ)) : List υ := m.map Prod.snd

/-- The entries in order of insertion, a later entry for a key replacing the
value of an earlier one. -/
def ofList (entries : List (κ × υ)) : List (κ × υ) := entries.foldl (fun m e => insert m e.1 e.2) []

def Distinct (m : List (κ × υ)) : Prop := (keys m).Nodup

instance (m : List (κ × υ)) : Decidable (Distinct m) := inferInstanceAs (Decidable (keys m).Nodup)

@[simp] lemma get?_nil (key : κ) : get? ([] : List (κ × υ)) key = none := rfl

variable (f : υ → ω) (k : κ) (v : υ)

lemma get?_cons (m : List (κ × υ)) (key : κ) :
    get? ((k, v) :: m) key = if k = key then some v else get? m key := rfl

@[simp] lemma get?_cons_self (m : List (κ × υ)) :
    get? ((k, v) :: m) k = some v := by simp [get?_cons]

omit [DecidableEq κ] in
@[simp] lemma keys_nil : keys ([] : List (κ × υ)) = [] := rfl

omit [DecidableEq κ] in
@[simp] lemma keys_cons (e : κ × υ) (m : List (κ × υ)) :
    keys (e :: m) = e.1 :: keys m := rfl

variable {m : List (κ × υ)} {key : κ} {value : υ}

lemma mem_of_get? (h : get? m key = some value) : (key, value) ∈ m := by
  induction m with
  | nil => simp at h
  | cons e m ih =>
    obtain ⟨k, v⟩ := e
    by_cases hk : k = key
    · subst hk
      simp only [get?_cons_self, Option.some.injEq] at h
      simp [h]
    · simp only [get?_cons, if_neg hk] at h
      exact mem_cons_of_mem _ (ih h)

lemma get?_eq_none_iff :
    get? m key = none ↔ key ∉ keys m := by
  induction m with
  | nil => simp
  | cons e m ih =>
    obtain ⟨k, v⟩ := e
    by_cases hk : k = key
    · simp [hk]
    · have hk' : key ≠ k := fun h => hk h.symm
      simp [get?_cons, hk, hk', ih]

lemma get?_isSome_iff :
    (get? m key).isSome ↔ key ∈ keys m := by
  rw [← not_iff_not, ← get?_eq_none_iff]
  simp

lemma contains_iff :
    contains m key = true ↔ key ∈ keys m := get?_isSome_iff

lemma exists_get?_of_mem_keys (h : key ∈ keys m) : ∃ value, get? m key = some value :=
  Option.isSome_iff_exists.mp (get?_isSome_iff.mpr h)

lemma get?_of_mem (hm : Distinct m) (h : (key, value) ∈ m) : get? m key = some value := by
  induction m with
  | nil => simp at h
  | cons e m ih =>
    obtain ⟨k, v⟩ := e
    have hc := nodup_cons.mp hm
    rcases mem_cons.mp h with heq | htl
    · cases heq
      simp
    · have hne : k ≠ key := by
        rintro rfl
        exact hc.1 (mem_map.mpr ⟨_, htl, rfl⟩)
      rw [get?_cons, if_neg hne]
      exact ih hc.2 htl

lemma get?_insert (m : List (κ × υ)) (key : κ) (value : υ) (other : κ) :
    get? (insert m key value) other =
      if key = other then some value else get? m other := by
  induction m with
  | nil => rfl
  | cons e m ih =>
    obtain ⟨k, v⟩ := e
    by_cases hk : k = key
    · subst hk
      by_cases ho : k = other <;> simp [insert, get?_cons, ho]
    · by_cases ho : k = other
      · subst ho
        have hk' : key ≠ k := fun h => hk h.symm
        simp [insert, hk, hk']
      · simp [insert, get?_cons, hk, ho, ih]

@[simp] lemma get?_insert_self (m : List (κ × υ)) (key : κ) (value : υ) :
    get? (insert m key value) key = some value := by simp [get?_insert]

lemma get?_insert_ne (m : List (κ × υ)) {other : κ} (value : υ) (h : key ≠ other) :
    get? (insert m key value) other = get? m other := by
  simp [get?_insert, h]

lemma mem_keys_insert {other : κ} :
    other ∈ keys (insert m key value) ↔ other = key ∨ other ∈ keys m := by
  rw [← get?_isSome_iff, ← get?_isSome_iff, get?_insert]
  by_cases h : key = other
  · simp [h]
  · have h' : other ≠ key := fun he => h he.symm
    simp [h, h']

lemma keys_insert_of_mem (h : key ∈ keys m) : keys (insert m key value) = keys m := by
  induction m with
  | nil => simp at h
  | cons e m ih =>
    obtain ⟨k, v⟩ := e
    by_cases hk : k = key
    · simp [insert, hk]
    · have hm : key ∈ keys m := by
        rcases mem_cons.mp h with heq | hm
        · exact absurd heq.symm hk
        · exact hm
      simp [insert, hk, ih hm]

lemma insert_of_notMem (h : key ∉ keys m) : insert m key value = m ++ [(key, value)] := by
  induction m with
  | nil => rfl
  | cons e m ih =>
    obtain ⟨k, v⟩ := e
    have hne : k ≠ key := fun he => h (by simp [he])
    have hm : key ∉ keys m := fun hmem => h (mem_cons_of_mem _ hmem)
    simp [insert, hne, ih hm]

lemma Distinct.insert (hm : Distinct m) (key : κ) (value : υ) : Distinct (insert m key value) := by
  by_cases h : key ∈ keys m
  · rw [Distinct, keys_insert_of_mem h]
    exact hm
  · rw [Distinct, insert_of_notMem h, keys, map_append]
    refine .append hm (by simp) ?_
    rw [disjoint_right]
    intro k hk hmem
    have hkey : k = key := by simpa using hk
    exact h (hkey ▸ hmem)

omit [DecidableEq κ] in
lemma distinct_nil : Distinct ([] : List (κ × υ)) := nodup_nil

lemma Distinct.foldl_insert {α : Type*} (key : α → κ) (value : α → υ) (items : List α)
    (hm : Distinct m) :
    Distinct (items.foldl (fun out a => OrdMap.insert out (key a) (value a)) m) := by
  induction items generalizing m with
  | nil => exact hm
  | cons a items ih => exact ih (hm.insert (key a) (value a))

omit [DecidableEq κ] in
lemma Distinct.keys_iff {n : List (κ × ω)} (hm : Distinct m) (hlen : m.length = n.length)
    (h : ∀ key ∈ keys m, key ∈ keys n) (key : κ) : key ∈ keys m ↔ key ∈ keys n := by
  refine ⟨h key, ?_⟩
  have hsub : List.Subperm (keys m) (keys n) := subperm_of_subset hm h
  have hpm : (keys m).Perm (keys n) := by
    apply hsub.perm_of_length_le
    simp [keys, hlen]
  exact hpm.mem_iff.mpr

lemma get?_erase (m : List (κ × υ)) (key other : κ) :
    get? (erase m key) other = if key = other then none else get? m other := by
  induction m with
  | nil => simp [erase]
  | cons e m ih =>
    obtain ⟨k, v⟩ := e
    by_cases hk : k = key
    · subst hk
      by_cases ho : k = other
      · simpa [erase, ho] using ih
      · simp [erase, get?_cons, ho, ih]
    · by_cases ho : k = other
      · subst ho
        have hk' : key ≠ k := fun h => hk h.symm
        simp [erase, hk, hk']
      · simp [erase, get?_cons, hk, ho, ih]

variable {e : κ × υ}

lemma mem_erase (h : e ∈ erase m key) : e ∈ m := by
  induction m with
  | nil => exact h
  | cons head m ih =>
    rw [erase] at h
    split at h
    · exact mem_cons_of_mem _ (ih h)
    · rcases mem_cons.mp h with rfl | h
      · exact mem_cons_self
      · exact mem_cons_of_mem _ (ih h)

lemma Distinct.erase (hm : Distinct m) (key : κ) : Distinct (erase m key) := by
  induction m with
  | nil => exact hm
  | cons head m ih =>
    obtain ⟨hk, htl⟩ := nodup_cons.mp hm
    rw [OrdMap.erase]
    split
    · exact ih htl
    · refine nodup_cons.mpr ⟨?_, ih htl⟩
      intro hmem
      obtain ⟨e, he, heq⟩ := mem_map.mp hmem
      exact hk (mem_map.mpr ⟨e, mem_erase he, heq⟩)

lemma mem_insert (h : e ∈ insert m key value) : e = (key, value) ∨ e ∈ m := by
  induction m with
  | nil => exact Or.inl (by simpa [insert] using h)
  | cons head m ih =>
    obtain ⟨k, v⟩ := head
    by_cases hk : k = key
    · rw [insert, if_pos hk] at h
      rcases mem_cons.mp h with heq | hm
      · exact Or.inl (by rw [heq, hk])
      · exact Or.inr (mem_cons_of_mem _ hm)
    · rw [insert, if_neg hk] at h
      rcases mem_cons.mp h with heq | hm
      · exact Or.inr (by rw [heq]; exact mem_cons_self)
      · rcases ih hm with heq | hm
        · exact Or.inl heq
        · exact Or.inr (mem_cons_of_mem _ hm)

lemma mem_foldl_insert {α : Type*} (key : α → κ) (value : α → υ) (items : List α)
    (m : List (κ × υ)) (h : e ∈ items.foldl (fun out a => insert out (key a) (value a)) m) :
    e ∈ m ∨ ∃ a ∈ items, e = (key a, value a) := by
  induction items generalizing m with
  | nil => exact Or.inl h
  | cons a items ih =>
    rcases ih _ h with hm | ⟨b, hb, heq⟩
    · rcases mem_insert hm with heq | hm
      · exact Or.inr ⟨a, mem_cons_self, heq⟩
      · exact Or.inl hm
    · exact Or.inr ⟨b, mem_cons_of_mem _ hb, heq⟩

lemma mem_ofList {entries : List (κ × υ)} (h : e ∈ ofList entries) : e ∈ entries := by
  rcases mem_foldl_insert Prod.fst Prod.snd entries [] h with hnil | ⟨a, ha, heq⟩
  · simp at hnil
  · rw [heq]
    exact ha

variable {R : υ → ω → Prop}

lemma get?_foldl_insert_rel {α β : Type*} {es : List α} {fs : List β} (key : α → κ)
    (value : α → υ) (key' : β → κ) (value' : β → ω)
    (h : List.Forall₂ (fun e f => key e = key' f ∧ R (value e) (value' f)) es fs) (m : List (κ × υ))
    (n : List (κ × ω)) (hmn : ∀ k, Option.Rel R (get? m k) (get? n k)) :
    ∀ k, Option.Rel R (get? (es.foldl (fun out e => insert out (key e) (value e)) m) k)
      (get? (fs.foldl (fun out f => insert out (key' f) (value' f)) n) k) := by
  induction h generalizing m n with
  | nil => exact hmn
  | cons head _ ih =>
    apply ih
    intro k
    rw [get?_insert, get?_insert, head.1]
    split
    · exact .some head.2
    · exact hmn k

lemma get?_ofList_rel {es : List (κ × υ)} {fs : List (κ × ω)}
    (h : List.Forall₂ (fun e f => e.1 = f.1 ∧ R e.2 f.2) es fs) (k : κ) :
    Option.Rel R (get? (ofList es) k) (get? (ofList fs) k) :=
  get?_foldl_insert_rel Prod.fst Prod.snd Prod.fst Prod.snd h [] [] (fun _ => .none) k

def mapValues (f : υ → ω) (m : List (κ × υ)) : List (κ × ω) := m.map fun e => (e.1, f e.2)

omit [DecidableEq κ] in
@[simp] lemma mapValues_nil : mapValues f ([] : List (κ × υ)) = [] := rfl

omit [DecidableEq κ] in
@[simp] lemma mapValues_cons (m : List (κ × υ)) :
    mapValues f ((k, v) :: m) = (k, f v) :: mapValues f m := rfl

lemma get?_mapValues (m : List (κ × υ)) (key : κ) :
    get? (mapValues f m) key = (get? m key).map f := by
  induction m with
  | nil => rfl
  | cons e m ih =>
    obtain ⟨k, v⟩ := e
    by_cases hk : k = key
    · subst hk
      simp
    · simp [get?_cons, hk, ih]

omit [DecidableEq κ] in
def Extends (m n : List (κ × υ)) : Prop :=
  ∀ key value, get? m key = some value → get? n key = some value

lemma Extends.refl (m : List (κ × υ)) : Extends m m := fun _ _ h => h

lemma Extends.trans {n l : List (κ × υ)} (h : Extends m n) (h' : Extends n l) :
    Extends m l := fun key value hm => h' key value (h key value hm)

lemma extends_insert (value : υ) (h : get? m key = none) : Extends m (insert m key value) := by
  intro other old hold
  have hne : key ≠ other := by
    rintro rfl
    simp [h] at hold
  rw [get?_insert_ne m value hne, hold]

def MutuallyInverse [DecidableEq υ] (m : List (κ × υ)) (n : List (υ × κ)) : Prop :=
  ∀ key value, get? m key = some value ↔ get? n value = some key

lemma MutuallyInverse.insert [DecidableEq υ] {n : List (υ × κ)} (h : MutuallyInverse m n)
    (hkey : get? m key = none) (hval : get? n value = none) :
    MutuallyInverse (insert m key value) (insert n value key) := by
  intro k v
  rw [get?_insert, get?_insert]
  by_cases hk : key = k
  · subst hk
    by_cases hv : value = v
    · simp [hv]
    · have hno : get? n v ≠ some key := by
        rw [Ne, ← h key v, hkey]
        simp
      simp [hno]
  · by_cases hv : value = v
    · subst hv
      have hno : get? m k ≠ some value := by
        rw [Ne, h k value, hval]
        simp
      simp [hno]
    · simpa [hk, hv] using h k v

lemma MutuallyInverse.insert_self {m n : List (κ × κ)} (h : MutuallyInverse m n)
    (hkey : ∀ k v, get? m k = some v → (k = key ↔ v = key)) :
    MutuallyInverse (OrdMap.insert m key key) (OrdMap.insert n key key) := by
  intro k v
  rw [get?_insert, get?_insert]
  by_cases hk : key = k
  · subst hk
    by_cases hv : key = v
    · simp [hv]
    · have hno : get? n v ≠ some key := by
        rw [Ne, ← h key v]
        intro hm
        exact hv ((hkey key v hm).mp rfl).symm
      simp [hno]
  · by_cases hv : key = v
    · subst hv
      have hno : get? m k ≠ some key := by
        intro hm
        exact hk ((hkey k key hm).mpr rfl).symm
      simp [hno]
    · simpa [hk, hv] using h k v

lemma insert_of_get? (h : get? m key = some value) : insert m key value = m := by
  induction m with
  | nil => cases h
  | cons head m ih =>
    obtain ⟨k, v⟩ := head
    by_cases hk : k = key
    · rw [get?_cons, if_pos hk] at h
      cases h
      rw [insert, if_pos hk]
    · rw [get?_cons, if_neg hk] at h
      rw [insert, if_neg hk, ih h]

variable {old : υ}

lemma length_insert_of_get? (h : get? m key = some old) :
    (insert m key value).length = m.length := by
  have hks := @keys_insert_of_mem _ _ _ m key value
    (get?_isSome_iff.mp (Option.isSome_of_eq_some h))
  simpa [keys] using congrArg List.length hks

lemma length_insert_le (m : List (κ × υ)) (key : κ) (value : υ) :
    (insert m key value).length ≤ m.length + 1 := by
  by_cases h : key ∈ keys m
  · obtain ⟨old, hold⟩ := exists_get?_of_mem_keys h
    rw [length_insert_of_get? hold]
    exact Nat.le_succ _
  · rw [insert_of_notMem h, length_append]
    exact Nat.le_refl _

def total (weight : υ → Int) (m : List (κ × υ)) : Int := (m.map fun e => weight e.2).sum

variable {weight : υ → Int}

lemma total_insert_new (h : get? m key = none) :
    total weight (insert m key value) = total weight m + weight value := by
  rw [insert_of_notMem (get?_eq_none_iff.mp h)]
  simp [total]

lemma total_insert_same (h : get? m key = some old) (hwei : weight value = weight old) :
    total weight (insert m key value) = total weight m := by
  induction m with
  | nil => cases h
  | cons head m ih =>
    obtain ⟨k, v⟩ := head
    by_cases hk : k = key
    · rw [get?_cons, if_pos hk] at h
      cases h
      simp [total, insert, hk, hwei]
    · rw [get?_cons, if_neg hk] at h
      have htl := ih h
      simp only [total] at htl
      simp [total, insert, hk, htl]

lemma erase_of_notMem (h : key ∉ keys m) : erase m key = m := by
  induction m with
  | nil => rfl
  | cons head m ih =>
    obtain ⟨k, v⟩ := head
    have hne : k ≠ key := fun he => h (by simp [he])
    rw [erase, if_neg hne, ih fun hmem => h (mem_cons_of_mem _ hmem)]

lemma total_erase (hm : Distinct m) (h : get? m key = some old) :
    total weight (erase m key) = total weight m - weight old := by
  induction m with
  | nil => cases h
  | cons head m ih =>
    obtain ⟨k, v⟩ := head
    obtain ⟨hk, htl⟩ := nodup_cons.mp hm
    by_cases hkey : k = key
    · subst hkey
      rw [get?_cons_self] at h
      cases h
      rw [erase, if_pos rfl, erase_of_notMem hk]
      simp only [total, map_cons, sum_cons]
      omega
    · rw [get?_cons, if_neg hkey] at h
      have hr := ih htl h
      simp only [total] at hr
      simp [total, erase, hkey]
      omega

lemma length_erase_le (m : List (κ × υ)) (key : κ) : (erase m key).length ≤ m.length := by
  induction m with
  | nil => exact Nat.le_refl _
  | cons head m ih =>
    rw [erase]
    split
    · exact Nat.le_succ_of_le ih
    · exact Nat.succ_le_succ ih

end OrdMap
