import Morphir.Library.Fallible

/-!
# Dictionaries

A dictionary is an array of entries in the order of a comparator of keys.  Every operation
builds a new array.
-/

namespace Morphir.Sdk

/-- Why an operation does not return: a comparator or a callback raises, or a read is
behind the end and stops the program. -/
inductive Stop (E : Type)
  | raised (error : E)
  | outOfBounds
  deriving DecidableEq

structure Dict (K V E : Type) where
  entries : List (K × V)
  comparator : K → K → Except (Stop E) Ordering

namespace Dict

variable {K V E : Type}

def read {α : Type} (items : List α) (i : Nat) : Except (Stop E) α :=
  match items[i]? with
  | some item => .ok item
  | none => .error .outOfBounds

def empty (comparator : K → K → Except (Stop E) Ordering) : Dict K V E := ⟨[], comparator⟩

def singleton (comparator : K → K → Except (Stop E) Ordering) (key : K) (value : V) :
    Dict K V E := ⟨[(key, value)], comparator⟩

/-- The binary search between two places: the place of the key and whether it is there. -/
def locateBetween (key : K) (dict : Dict K V E) (low high : Nat) :
    Except (Stop E) (Nat × Bool) :=
  if low < high then do
    let middle := low + (high - low) / 2
    let (current, _) ← read dict.entries middle
    match ← dict.comparator current key with
    | .lt => locateBetween key dict (middle + 1) high
    | .eq => pure (middle, true)
    | .gt => locateBetween key dict low middle
  else pure (low, false)
termination_by high - low

def locate (key : K) (dict : Dict K V E) : Except (Stop E) (Nat × Bool) :=
  locateBetween key dict 0 dict.entries.length

/-- The entries with one more at a place, over the entry that is there when it exists. -/
def inserted (entry : K × V) (index : Nat) (replaces : Bool) (entries : List (K × V)) :
    List (K × V) :=
  (entries.zipIdx.flatMap fun (e, i) =>
    (if i = index then [entry] else []) ++ if i ≠ index ∨ !replaces then [e] else []) ++
    if index = entries.length then [entry] else []

def insert (key : K) (value : V) (dict : Dict K V E) : Except (Stop E) (Dict K V E) := do
  let (index, found) ← locate key dict
  pure { dict with entries := inserted (key, value) index found dict.entries }

def remove (key : K) (dict : Dict K V E) : Except (Stop E) (Dict K V E) := do
  let (index, found) ← locate key dict
  if !found then pure dict
  else
    let entries := dict.entries.zipIdx.filterMap fun (e, i) => if i ≠ index then some e else none
    pure { dict with entries }

def get (key : K) (dict : Dict K V E) : Except (Stop E) (Option V) := do
  let (index, found) ← locate key dict
  if found then do
    let (_, value) ← read dict.entries index
    pure (some value)
  else pure none

def update (key : K) (f : Option V → Except (Stop E) (Option V)) (dict : Dict K V E) :
    Except (Stop E) (Dict K V E) := do
  match ← f (← get key dict) with
  | some value => insert key value dict
  | none => remove key dict

def hasKey (key : K) (dict : Dict K V E) : Except (Stop E) Bool := do
  let (_, found) ← locate key dict
  pure found

def insertAll (dict : Dict K V E) : List (K × V) → Except (Stop E) (Dict K V E)
  | [] => .ok dict
  | (key, value) :: entries => do
    let dict ← insert key value dict
    insertAll dict entries

def fromList (comparator : K → K → Except (Stop E) Ordering) (entries : List (K × V)) :
    Except (Stop E) (Dict K V E) := insertAll (empty comparator) entries

def union (left right : Dict K V E) : Except (Stop E) (Dict K V E) := insertAll right left.entries

/-- The insertion of the entries whose key the other dictionary has, or has not. -/
def insertWhen (keep : Bool) (right result : Dict K V E) :
    List (K × V) → Except (Stop E) (Dict K V E)
  | [] => .ok result
  | (key, value) :: entries => do
    let found ← hasKey key right
    if found = keep then do
      let result ← insert key value result
      insertWhen keep right result entries
    else insertWhen keep right result entries

def intersect (left right : Dict K V E) : Except (Stop E) (Dict K V E) :=
  insertWhen true right (empty left.comparator) left.entries

def diff (left right : Dict K V E) : Except (Stop E) (Dict K V E) :=
  insertWhen false right (empty left.comparator) left.entries

def mapEntries {W : Type} (f : K → V → Except (Stop E) W) :
    List (K × V) → Except (Stop E) (List (K × W))
  | [] => .ok []
  | (key, value) :: entries => do
    let mapped ← f key value
    let entries ← mapEntries f entries
    pure ((key, mapped) :: entries)

def map {W : Type} (f : K → V → Except (Stop E) W) (dict : Dict K V E) :
    Except (Stop E) (Dict K W E) := do
  let entries ← mapEntries f dict.entries
  pure ⟨entries, dict.comparator⟩

/-- The entries that a test holds for and those that it does not hold for. -/
def partitionEntries (f : K → V → Except (Stop E) Bool) :
    List (K × V) → Except (Stop E) (List (K × V) × List (K × V))
  | [] => .ok ([], [])
  | (key, value) :: entries => do
    let holds ← f key value
    let (yes, no) ← partitionEntries f entries
    pure (if holds then ((key, value) :: yes, no) else (yes, (key, value) :: no))

def filter (f : K → V → Except (Stop E) Bool) (dict : Dict K V E) :
    Except (Stop E) (Dict K V E) := do
  let (entries, _) ← partitionEntries f dict.entries
  pure { dict with entries }

def partition (f : K → V → Except (Stop E) Bool) (dict : Dict K V E) :
    Except (Stop E) (Dict K V E × Dict K V E) := do
  let (yes, no) ← partitionEntries f dict.entries
  pure ({ dict with entries := yes }, { dict with entries := no })

/-- The traversal of the entries that are left of two dictionaries. -/
def mergeFrom {A B R : Type} (comparator : K → K → Except (Stop E) Ordering)
    (leftOnly : K → A → R → Except (Stop E) R) (both : K → A → B → R → Except (Stop E) R)
    (rightOnly : K → B → R → Except (Stop E) R) :
    List (K × A) → List (K × B) → R → Except (Stop E) R
  | [], [], result => .ok result
  | [], (key, value) :: right, result => do
    let result ← rightOnly key value result
    mergeFrom comparator leftOnly both rightOnly [] right result
  | (key, value) :: left, [], result => do
    let result ← leftOnly key value result
    mergeFrom comparator leftOnly both rightOnly left [] result
  | (leftKey, leftValue) :: left, (rightKey, rightValue) :: right, result => do
    match ← comparator leftKey rightKey with
    | .lt =>
      let result ← leftOnly leftKey leftValue result
      mergeFrom comparator leftOnly both rightOnly left ((rightKey, rightValue) :: right) result
    | .eq =>
      let result ← both leftKey leftValue rightValue result
      mergeFrom comparator leftOnly both rightOnly left right result
    | .gt =>
      let result ← rightOnly rightKey rightValue result
      mergeFrom comparator leftOnly both rightOnly ((leftKey, leftValue) :: left) right result
termination_by left right => left.length + right.length

def merge {A B R : Type} (leftOnly : K → A → R → Except (Stop E) R)
    (both : K → A → B → R → Except (Stop E) R) (rightOnly : K → B → R → Except (Stop E) R)
    (left : Dict K A E) (right : Dict K B E) (initial : R) : Except (Stop E) R :=
  mergeFrom left.comparator leftOnly both rightOnly left.entries right.entries initial

end Dict

end Morphir.Sdk

/-!
## Dictionaries are finite maps

The entries of a dictionary stay in strictly ascending order of their keys, and every
operation does to them what it does to the finite map that they are.
-/

namespace Morphir.Sdk.Dict

open Fallible List Function Std.OrientedCmp

def lifted {K E : Type} (order : K → K → Ordering) (a b : K) : Except (Stop E) Ordering :=
  .ok (order a b)

variable {K V E : Type} {order : K → K → Ordering}

def Ascending (order : K → K → Ordering) (entries : List (K × V)) : Prop :=
  entries.Pairwise fun a b => order a.1 b.1 = .lt

structure Represents (order : K → K → Ordering) (dict : Dict K V E) (m : K → Option V) : Prop where
  comparator : dict.comparator = lifted order
  ascending : Ascending order dict.entries
  entries : ∀ key value, (key, value) ∈ dict.entries ↔ m key = some value

inductive Located (order : K → K → Ordering) (key : K) : List (K × V) → Nat × Bool → Prop
  | absent {before after : List (K × V)} (below : ∀ e ∈ before, order e.1 key = .lt)
      (above : ∀ e ∈ after, order e.1 key = .gt) :
      Located order key (before ++ after) (before.length, false)
  | present {before after : List (K × V)} {value : V} (below : ∀ e ∈ before, order e.1 key = .lt)
      (above : ∀ e ∈ after, order e.1 key = .gt) :
      Located order key (before ++ (key, value) :: after) (before.length, true)

lemma ascending_append_cons {before after : List (K × V)} {e : K × V} :
    Ascending order (before ++ e :: after) ↔
      Ascending order (before ++ after) ∧ (∀ a ∈ before, order a.1 e.1 = .lt) ∧
        ∀ b ∈ after, order e.1 b.1 = .lt := by
  unfold Ascending
  rw [pairwise_append, pairwise_cons, pairwise_append]
  constructor
  · rintro ⟨hpre, ⟨hab, haft⟩, hcross⟩
    refine ⟨⟨hpre, haft, ?_⟩, ?_, hab⟩
    · exact fun a ha b hb => hcross a ha b (mem_cons_of_mem _ hb)
    · exact fun a ha => hcross a ha e mem_cons_self
  · rintro ⟨⟨hpre, haft, hcross⟩, hbe, hab⟩
    refine ⟨hpre, ⟨hab, haft⟩, ?_⟩
    intro a ha b hb
    rcases mem_cons.mp hb with rfl | hb
    · exact hbe a ha
    · exact hcross a ha b hb

section Search

variable [Std.TransCmp order] [Std.LawfulEqCmp order]

lemma locateBetween_spec {dict : Dict K V E} (hcom : dict.comparator = lifted order)
    (hasc : Ascending order dict.entries) (key : K) (low high : Nat) (hle : low ≤ high)
    (hhi : high ≤ dict.entries.length) (hbe : ∀ e ∈ dict.entries.take low, order e.1 key = .lt)
    (hab : ∀ e ∈ dict.entries.drop high, order e.1 key = .gt) :
    ∃ found, locateBetween key dict low high = .ok found ∧
      Located order key dict.entries found := by
  generalize hleft : high - low = left
  induction left using Nat.strongRecOn generalizing low high with
  | ind left ih =>
    unfold locateBetween
    split
    next hlt =>
      dsimp only
      generalize hmid : low + (high - low) / 2 = middle
      have hrd : middle < dict.entries.length := by omega
      obtain ⟨⟨current, value⟩, hcur⟩ : ∃ e, dict.entries[middle]? = some e :=
        ⟨_, getElem?_eq_getElem hrd⟩
      have hspl : dict.entries =
          dict.entries.take middle ++ (current, value) :: dict.entries.drop (middle + 1) := by
        obtain ⟨_, heq⟩ := List.getElem?_eq_some_iff.mp hcur
        rw [← heq, ← drop_eq_getElem_cons hrd, take_append_drop]
      have hlen : (dict.entries.take middle).length = middle := by
        rw [length_take]
        omega
      have hpts := hasc
      rw [hspl] at hpts
      obtain ⟨-, hpre, haft⟩ := ascending_append_cons.mp hpts
      have hs : read dict.entries middle = (.ok (current, value) : Except (Stop E) _) := by
        rw [read, hcur]
      rw [hs, bind_eq, hcom, lifted]
      cases hcmp : order current key with
      | lt =>
        apply ih (high - (middle + 1)) (by omega) (middle + 1) high (by omega) hhi _ hab
          rfl
        intro e he
        rw [take_succ_eq_append_getElem hrd] at he
        obtain ⟨_, heq⟩ := List.getElem?_eq_some_iff.mp hcur
        rcases mem_append.mp he with he | he
        · exact Std.TransCmp.lt_trans (hpre e he) hcmp
        · rw [mem_singleton] at he
          rw [he, heq]
          exact hcmp
      | eq =>
        obtain rfl := Std.LawfulEqCmp.eq_of_compare hcmp
        refine ⟨(middle, true), rfl, ?_⟩
        have hloc : Located order current
            (dict.entries.take middle ++ (current, value) :: dict.entries.drop (middle + 1))
            ((dict.entries.take middle).length, true) := by
          apply Located.present hpre
          intro e he
          exact gt_of_lt (haft e he)
        rw [hlen, ← hspl] at hloc
        exact hloc
      | gt =>
        apply ih (middle - low) (by omega) low middle (by omega) (by omega) hbe _ rfl
        intro e he
        rw [drop_eq_getElem_cons hrd] at he
        obtain ⟨_, heq⟩ := List.getElem?_eq_some_iff.mp hcur
        rcases mem_cons.mp he with rfl | he
        · rw [heq]
          exact hcmp
        · exact Std.TransCmp.gt_trans (gt_of_lt (haft e he)) hcmp
    next hdo =>
      have hequal : low = high := Nat.le_antisymm hle (Nat.not_lt.mp hdo)
      subst hequal
      refine ⟨(low, false), rfl, ?_⟩
      have hloc : Located order key (dict.entries.take low ++ dict.entries.drop low)
          ((dict.entries.take low).length, false) := .absent hbe hab
      rw [length_take, Nat.min_eq_left hhi, take_append_drop] at hloc
      exact hloc

lemma locate_spec {dict : Dict K V E} (hcmp : dict.comparator = lifted order)
    (hasc : Ascending order dict.entries) (key : K) :
    ∃ found, locate key dict = .ok found ∧ Located order key dict.entries found := by
  apply locateBetween_spec hcmp hasc key 0 _ (Nat.zero_le _) (Nat.le_refl _)
  · simp
  · simp

end Search

variable (entry : K × V)

lemma flatMap_zipIdx_of_ne (index : Nat) (replaces : Bool) (entries : List (K × V)) (start : Nat)
    (h : ∀ i, start ≤ i → i < start + entries.length → i ≠ index) :
    ((entries.zipIdx start).flatMap fun (e, i) =>
      (if i = index then [entry] else []) ++ if i ≠ index ∨ !replaces then [e] else []) =
      entries := by
  induction entries generalizing start with
  | nil => rfl
  | cons e entries ih =>
    rw [length_cons] at h
    have hne := h start (Nat.le_refl _) (by omega)
    rw [zipIdx_cons, flatMap_cons, ih (start + 1) fun i hi hlt => h i (by omega) (by omega)]
    dsimp only
    rw [if_neg hne, if_pos (Or.inl hne), nil_append, singleton_append]

lemma inserted_absent (before after : List (K × V)) :
    inserted entry before.length false (before ++ after) = before ++ entry :: after := by
  unfold inserted
  rw [zipIdx_append, flatMap_append,
    flatMap_zipIdx_of_ne entry before.length false before 0 (by omega)]
  cases after with
  | nil => rw [append_nil, if_pos rfl, zipIdx_nil, flatMap_nil, append_nil]
  | cons e after =>
    rw [zipIdx_cons, flatMap_cons,
      flatMap_zipIdx_of_ne entry before.length false after _ (by omega)]
    simp

lemma inserted_present (old : K × V) (before after : List (K × V)) :
    inserted entry before.length true (before ++ old :: after) = before ++ entry :: after := by
  unfold inserted
  rw [zipIdx_append, flatMap_append,
    flatMap_zipIdx_of_ne entry before.length true before 0 (by omega), zipIdx_cons,
    flatMap_cons, flatMap_zipIdx_of_ne entry before.length true after _ (by omega)]
  simp

lemma filterMap_zipIdx (old : K × V) (before after : List (K × V)) :
    ((before ++ old :: after).zipIdx.filterMap fun (e, i) =>
      if i ≠ before.length then some e else none) = before ++ after := by
  have hkp : ∀ (entries : List (K × V)) (start : Nat),
      (∀ i, start ≤ i → i < start + entries.length → i ≠ before.length) →
      ((entries.zipIdx start).filterMap fun (e, i) =>
        if i ≠ before.length then some e else none) = entries := by
    intro entries
    induction entries with
    | nil => exact fun _ _ => rfl
    | cons e entries ih =>
      intro start h
      rw [length_cons] at h
      rw [zipIdx_cons, filterMap_cons_some, ih (start + 1) fun i hi hlt =>
        h i (by omega) (by omega)]
      exact if_pos (h start (Nat.le_refl _) (by omega))
  rw [zipIdx_append, filterMap_append, hkp before 0 (by omega), zipIdx_cons,
    filterMap_cons_none, hkp after _ (by omega)]
  simp

section Operations

variable [Std.TransCmp order] [Std.LawfulEqCmp order]

variable {m : K → Option V}

variable {key : K}

variable {entries : List (K × V)}

omit [Std.TransCmp order] in
lemma Located.value_eq {found : Nat × Bool} (h : Located order key entries found)
    (hents : ∀ key value, (key, value) ∈ entries ↔ m key = some value) :
    (found.2 = true → ∃ value, m key = some value ∧ entries[found.1]? = some (key, value)) ∧
      (found.2 = false → m key = none) := by
  cases h with
  | absent below above =>
    refine ⟨nofun, fun _ => ?_⟩
    cases hkey : m key with
    | none => rfl
    | some value =>
      have hsf : order key key = .eq := Std.ReflCmp.compare_self
      rcases mem_append.mp ((hents key value).mpr hkey) with hmem | hmem
      · rw [below _ hmem] at hsf
        cases hsf
      · rw [above _ hmem] at hsf
        cases hsf
  | @present before after value below above =>
    refine ⟨fun _ => ⟨value, ?_, ?_⟩, nofun⟩
    · apply (hents key value).mp
      simp
    · simp

variable {dict : Dict K V E}

lemma Represents.get (h : Represents order dict m) (key : K) : get key dict = .ok (m key) := by
  obtain ⟨⟨index, found⟩, hlocate, hlocated⟩ := locate_spec h.comparator h.ascending key
  obtain ⟨hpre, habs⟩ := hlocated.value_eq h.entries
  unfold Dict.get
  rw [hlocate, bind_eq]
  dsimp only at hpre habs ⊢
  cases found with
  | false =>
    rw [habs rfl]
    rfl
  | true =>
    obtain ⟨value, hval, hrd⟩ := hpre rfl
    rw [read, hrd, hval]
    rfl

lemma Represents.hasKey (h : Represents order dict m) (key : K) :
    hasKey key dict = .ok (m key).isSome := by
  obtain ⟨⟨index, found⟩, hlocate, hlocated⟩ := locate_spec h.comparator h.ascending key
  obtain ⟨hpre, habs⟩ := hlocated.value_eq h.entries
  unfold Dict.hasKey
  rw [hlocate]
  cases found with
  | false =>
    rw [habs rfl]
    rfl
  | true =>
    obtain ⟨value, hval, -⟩ := hpre rfl
    rw [hval]
    rfl

omit [Std.LawfulEqCmp order] in
lemma notMem_of_located {result : Ordering} (h : ∀ e ∈ entries, order e.1 key = result)
    (hne : result ≠ .eq) (value : V) : (key, value) ∉ entries := by
  intro hmem
  apply hne
  rw [← h _ hmem]
  exact Std.ReflCmp.compare_self

variable [DecidableEq K]

section

variable (h : Represents order dict m)

include h

lemma Represents.insert (key : K) (value : V) :
    ∃ dict', insert key value dict = .ok dict' ∧
      Represents order dict' (Function.update m key (some value)) := by
  obtain ⟨found, hlocate, hlocated⟩ := locate_spec h.comparator h.ascending key
  obtain ⟨items, compare⟩ := dict
  obtain ⟨comparator, ascending, entries⟩ := h
  dsimp only at comparator ascending entries hlocated
  -- whichever entries were at the key, the new one is between those below and those above
  have hnew : ∀ {before after : List (K × V)}, Ascending order (before ++ after) →
      (∀ e ∈ before, order e.1 key = .lt) → (∀ e ∈ after, order e.1 key = .gt) →
      (∀ k v, k ≠ key → ((k, v) ∈ before ++ after ↔ m k = some v)) →
      Represents order (⟨before ++ (key, value) :: after, compare⟩ : Dict K V E)
        (Function.update m key (some value)) := by
    intro before after hasc below above hm
    refine ⟨comparator, ascending_append_cons.mpr ⟨hasc, below, ?_⟩, ?_⟩
    · intro e he
      exact lt_of_gt (above e he)
    · intro k v
      rw [mem_append, mem_cons, Prod.mk.injEq]
      by_cases hk : k = key
      · subst hk
        rw [update_self, Option.some.injEq]
        have hpre := notMem_of_located below nofun v
        have haft := notMem_of_located above nofun v
        constructor
        · rintro (hmem | ⟨-, rfl⟩ | hmem)
          · exact absurd hmem hpre
          · rfl
          · exact absurd hmem haft
        · rintro rfl
          exact Or.inr (Or.inl ⟨rfl, rfl⟩)
      · rw [update_of_ne hk, ← hm k v hk]
        simp [hk]
  unfold Dict.insert
  rw [hlocate]
  refine ⟨_, rfl, ?_⟩
  cases hlocated with
  | absent below above =>
    rw [inserted_absent]
    exact hnew ascending below above fun k v _ => entries k v
  | present below above =>
    rw [inserted_present]
    apply hnew (ascending_append_cons.mp ascending).1 below above
    intro k v hk
    rw [← entries k v]
    simp [hk]

lemma Represents.remove (key : K) :
    ∃ dict', remove key dict = .ok dict' ∧
      Represents order dict' (Function.update m key none) := by
  obtain ⟨found, hlocate, hlocated⟩ := locate_spec h.comparator h.ascending key
  obtain ⟨-, habs⟩ := hlocated.value_eq h.entries
  obtain ⟨items, compare⟩ := dict
  obtain ⟨comparator, ascending, entries⟩ := h
  dsimp only at comparator ascending entries hlocated
  unfold Dict.remove
  rw [hlocate, bind_eq]
  cases hlocated with
  | absent below above =>
    refine ⟨_, rfl, ?_⟩
    rw [← habs rfl, update_eq_self]
    exact ⟨comparator, ascending, entries⟩
  | @present before after old below above =>
    have hasc := (ascending_append_cons.mp ascending).1
    refine ⟨⟨before ++ after, compare⟩, ?_, comparator, hasc, ?_⟩
    · dsimp only
      rw [filterMap_zipIdx]
      rfl
    · intro k v
      by_cases hk : k = key
      · subst hk
        have hpre := notMem_of_located below nofun v
        have haft := notMem_of_located above nofun v
        simp [hpre, haft]
      · rw [update_of_ne hk, ← entries k v]
        simp [hk]

lemma Represents.update {f : Option V → Except (Stop E) (Option V)} {value : Option V}
    (hf : f (m key) = .ok value) :
    ∃ dict', update key f dict = .ok dict' ∧
      Represents order dict' (Function.update m key value) := by
  unfold Dict.update
  rw [h.get key, bind_eq, hf]
  cases value with
  | some value => exact h.insert key value
  | none => exact h.remove key

end

end Operations

end Morphir.Sdk.Dict
