import Morphir.Library.OrdMap

/-!
# Rosters

Things are made for keys and are kept under their keys for a while.  A roster holds the
things under their keys, and all the things that were ever made, each with the key that
it was made for.
-/

universe u v

/-- The things that are kept, by their numbers, and the things that were made. -/
structure Roster (κ : Type u) (υ : Type v) where
  names : List (κ × Nat) := []
  made : List (κ × υ) := []

namespace Roster

open List OrdMap

variable {κ : Type u} {υ : Type v} [DecidableEq κ] (r : Roster κ υ)

def get? (key : κ) : Option Nat := OrdMap.get? r.names key

def contains (key : κ) : Bool := OrdMap.contains r.names key

def keys : List κ := OrdMap.keys r.names

def create (key : κ) (thing : υ) : Roster κ υ where
  names := OrdMap.insert r.names key r.made.length
  made := r.made ++ [(key, thing)]

def remove (key : κ) : Roster κ υ := { r with names := OrdMap.erase r.names key }

def clear : Roster κ υ := { r with names := [] }

def update (n : Nat) (f : υ → υ) : Roster κ υ :=
  { r with made := r.made.modify n fun e => (e.1, f e.2) }

/-- Some keys are forgotten, and something happens to their things. -/
def dismiss (p : κ → Bool) (f : υ → υ) : Roster κ υ :=
  r.names.foldl (fun r e => if p e.1 then (r.update e.2 f).remove e.1 else r) r

/-- The keys of the things that were made, in the order in which they were. -/
def makes : List κ := r.made.map Prod.fst

def IsFor (n : Nat) (key : κ) : Prop := r.makes[n]? = some key

structure Valid : Prop where
  distinct : OrdMap.Distinct r.names
  listed : ∀ key n, r.get? key = some n → r.IsFor n key
  once : r.makes.Nodup

variable {r}

variable {key : κ} {n : Nat}

omit [DecidableEq κ] in
lemma isFor_iff :
    r.IsFor n key ↔ ∃ thing, r.made[n]? = some (key, thing) := by
  simp [IsFor, makes]

omit [DecidableEq κ] in
lemma IsFor.mem_makes (h : r.IsFor n key) : key ∈ r.makes := mem_of_getElem? h

lemma contains_iff : r.contains key = true ↔ key ∈ r.keys := OrdMap.contains_iff

lemma Valid.isFor_inj (h : r.Valid) {m : Nat} (hm : r.IsFor m key) (hn : r.IsFor n key) :
    m = n := by
  have hlt : m < r.makes.length := (List.getElem?_eq_some_iff.mp hm).1
  exact (List.getElem?_inj hlt h.once).mp (hm.trans hn.symm)

lemma valid_empty : ({} : Roster κ υ).Valid where
  distinct := OrdMap.distinct_nil
  listed _ _ h := by cases h
  once := nodup_nil

@[simp] lemma makes_create (key : κ) (thing : υ) :
    (r.create key thing).makes = r.makes ++ [key] := by simp [create, makes]

@[simp] lemma makes_remove (key : κ) : (r.remove key).makes = r.makes := rfl

omit [DecidableEq κ] in
@[simp] lemma makes_clear : r.clear.makes = r.makes := rfl

omit [DecidableEq κ] in
@[simp] lemma makes_update (n : Nat) (f : υ → υ) : (r.update n f).makes = r.makes := by
  apply ext_getElem?
  intro i
  simp only [makes, update, List.getElem?_map, List.getElem?_modify]
  cases r.made[i]? with
  | none => rfl
  | some e => by_cases hi : n = i <;> simp [hi]

variable {thing : υ}

lemma mem_keys_create {other : κ} :
    other ∈ (r.create key thing).keys ↔ other = key ∨ other ∈ r.keys := mem_keys_insert

lemma mem_keys_remove {other : κ} : other ∈ (r.remove key).keys ↔ other ∈ r.keys ∧ other ≠ key := by
  rw [keys, keys, ← get?_isSome_iff, ← get?_isSome_iff, remove, get?_erase]
  split
  · rename_i heq
    simp [heq]
  · rename_i hne
    simp [Ne.symm hne]

omit [DecidableEq κ] in
@[simp] lemma keys_clear : r.clear.keys = [] := rfl

omit [DecidableEq κ] in
@[simp] lemma keys_update (n : Nat) (f : υ → υ) : (r.update n f).keys = r.keys := rfl

lemma Valid.create (h : r.Valid) (thing : υ) (hnew : key ∉ r.makes) :
    (r.create key thing).Valid where
  distinct := h.distinct.insert key _
  listed other n ho := by
    have hlen : r.makes.length = r.made.length := length_map _
    rw [get?, Roster.create, OrdMap.get?_insert] at ho
    rw [IsFor, makes_create]
    split at ho
    · rename_i heq
      cases ho
      rw [← hlen, ← heq]
      exact List.getElem?_concat_length
    · have hfor : r.makes[n]? = some other := h.listed other n ho
      have hlt : n < r.makes.length := (List.getElem?_eq_some_iff.mp hfor).1
      rw [List.getElem?_append_left hlt]
      exact hfor
  once := by
    rw [makes_create]
    rw [← concat_eq_append]
    exact h.once.concat hnew

lemma Valid.remove (h : r.Valid) (key : κ) : (r.remove key).Valid where
  distinct := h.distinct.erase key
  listed other n ho := by
    rw [get?, Roster.remove, OrdMap.get?_erase] at ho
    split at ho
    · cases ho
    · exact h.listed other n ho
  once := h.once

lemma Valid.update (h : r.Valid) (n : Nat) (f : υ → υ) : (r.update n f).Valid where
  distinct := h.distinct
  listed key m hm := by
    rw [IsFor, makes_update]
    exact h.listed key m hm
  once := by
    rw [makes_update]
    exact h.once

variable {f : υ → υ}

omit [DecidableEq κ] in
lemma made_update {m : Nat} :
    (r.update n f).made[m]? =
      if n = m then r.made[m]?.map fun e => (e.1, f e.2) else r.made[m]? := by
  rw [update, List.getElem?_modify]
  cases r.made[m]? with
  | none => simp
  | some e => by_cases hm : n = m <;> simp [hm]

omit [DecidableEq κ] in
lemma isFor_of_made (h : r.made[n]? = some (key, thing)) :
    r.IsFor n key := isFor_iff.mpr ⟨thing, h⟩

def Unkept (P : υ → Prop) (r : Roster κ υ) : Prop :=
  ∀ (n : Nat) (key : κ) (thing : υ), r.made[n]? = some (key, thing) → key ∉ r.keys → P thing

omit [DecidableEq κ] in
lemma unkept_empty : ({} : Roster κ υ).Unkept P := by
  intro n key thing h
  cases h

variable {P : υ → Prop}

lemma Unkept.release (h : r.Unkept P) (hvd : r.Valid) (hfor : r.IsFor n key)
    (hf : ∀ thing, P (f thing)) : ((r.update n f).remove key).Unkept P := by
  intro m other thing hmd hkey
  replace hmd : (r.update n f).made[m]? = some (other, thing) := hmd
  rw [made_update] at hmd
  split at hmd
  · rename_i heq
    obtain ⟨e, -, he⟩ := Option.map_eq_some_iff.mp hmd
    obtain ⟨-, rfl⟩ := Prod.mk.inj he
    exact hf e.2
  · rename_i hne
    apply h m other thing hmd
    intro hmem
    apply hkey
    refine mem_keys_remove.mpr ⟨hmem, ?_⟩
    rintro rfl
    exact hne (hvd.isFor_inj hfor (isFor_of_made hmd))

omit [DecidableEq κ] in
lemma Unkept.update (h : r.Unkept P) (hf : ∀ thing, P thing → P (f thing)) :
    (r.update n f).Unkept P := by
  intro m key thing hmd hkey
  rw [made_update] at hmd
  split at hmd
  · obtain ⟨⟨other, before⟩, hpre, he⟩ := Option.map_eq_some_iff.mp hmd
    cases he
    exact hf before (h m other before hpre hkey)
  · exact h m key thing hmd hkey

lemma Unkept.create (h : r.Unkept P) : (r.create key thing).Unkept P := by
  intro n other made hmd hkey
  have ho : other ≠ key ∧ other ∉ r.keys := by
    rw [mem_keys_create] at hkey
    exact not_or.mp hkey
  rw [Roster.create, List.getElem?_append] at hmd
  split at hmd
  · exact h n other made hmd ho.2
  · have hmem := mem_of_getElem? hmd
    obtain ⟨rfl, -⟩ := Prod.mk.inj (mem_singleton.mp hmem)
    exact absurd rfl ho.1

/-- How a roster goes on: its things become what `R` says, and new ones are as `N` says. -/
structure Evolves (N : Nat → υ → Prop) (R : Nat → κ → υ → υ → Prop) (r s : Roster κ υ) : Prop where
  old : ∀ (n : Nat) (key : κ) (thing : υ), r.made[n]? = some (key, thing) →
    ∃ after, s.made[n]? = some (key, after) ∧ R n key thing after
  new : ∀ (n : Nat) (key : κ) (thing : υ),
    s.made[n]? = some (key, thing) → r.made[n]? = none → N n thing

section

variable {N : Nat → υ → Prop} {R : Nat → κ → υ → υ → Prop} {s t : Roster κ υ}

section

variable (hrefl : ∀ n key thing, R n key thing thing)

include hrefl

omit [DecidableEq κ] in
lemma Evolves.of_made (h : s.made = r.made) :
    Evolves N R r s where
  old n key thing hth := ⟨thing, by rw [h]; exact hth, hrefl n key thing⟩
  new n key thing hth hno := by
    rw [h, hno] at hth
    cases hth

omit hrefl in
omit [DecidableEq κ] in
lemma Evolves.trans (htr : ∀ n key a b c, R n key a b → R n key b c → R n key a c)
    (hnew : ∀ n key a b, N n a → R n key a b → N n b) (h : Evolves N R r s) (h' : Evolves N R s t) :
    Evolves N R r t where
  old n key thing hth := by
    obtain ⟨between, hbet, hfst⟩ := h.old n key thing hth
    obtain ⟨after, haft, hsnd⟩ := h'.old n key between hbet
    exact ⟨after, haft, htr n key thing between after hfst hsnd⟩
  new n key thing hth hno := by
    cases hs : s.made[n]? with
    | none => exact h'.new n key thing hth hs
    | some e =>
      obtain ⟨other, before⟩ := e
      obtain ⟨after, haft, hR⟩ := h'.old n other before hs
      obtain ⟨rfl, rfl⟩ := Prod.mk.inj (Option.some.inj (haft.symm.trans hth))
      exact hnew n other before after (h.new n other before hs hno) hR

omit [DecidableEq κ] in
lemma Evolves.update (hf : ∀ key thing, r.made[n]? = some (key, thing) → R n key thing (f thing)) :
    Evolves N R r (r.update n f) where
  old m key thing hth := by
    rw [made_update]
    split
    · rename_i heq
      subst heq
      exact ⟨f thing, by rw [hth]; rfl, hf key thing hth⟩
    · exact ⟨thing, hth, hrefl m key thing⟩
  new m key thing hth hno := by
    rw [made_update, hno] at hth
    split at hth <;> cases hth

lemma Evolves.create (hth : ∀ n, N n thing) :
    Evolves N R r (r.create key thing) where
  old n other before hpre := by
    refine ⟨before, ?_, hrefl n other before⟩
    have hlt : n < r.made.length := (List.getElem?_eq_some_iff.mp hpre).1
    rw [Roster.create, List.getElem?_append_left hlt]
    exact hpre
  new n other after haft hno := by
    rw [Roster.create, List.getElem?_append_right (List.getElem?_eq_none_iff.mp hno)] at haft
    obtain ⟨-, rfl⟩ := Prod.mk.inj (mem_singleton.mp (mem_of_getElem? haft))
    exact hth n

end

end

lemma dismiss_induction {Q : Roster κ υ → Prop} (p : κ → Bool) (f : υ → υ) (hr : Q r)
    (hstep : ∀ s : Roster κ υ, Q s → ∀ e ∈ r.names, p e.1 = true → Q ((s.update e.2 f).remove e.1))
    : Q (r.dismiss p f) := by
  have hfo (names : List (κ × Nat)) (hsub : ∀ e ∈ names, e ∈ r.names) (s : Roster κ υ)
      (hs : Q s) :
      Q (names.foldl (fun r e => if p e.1 then (r.update e.2 f).remove e.1 else r) s) := by
    induction names generalizing s with
    | nil => exact hs
    | cons e names ih =>
      rw [foldl_cons]
      apply ih fun x hx => hsub x (mem_cons_of_mem e hx)
      split
      · rename_i hp
        exact hstep s hs e (hsub e mem_cons_self) hp
      · exact hs
  exact hfo r.names (fun _ he => he) r hr

@[simp] lemma makes_dismiss (p : κ → Bool) (f : υ → υ) : (r.dismiss p f).makes = r.makes :=
  dismiss_induction p f (Q := fun s => s.makes = r.makes) rfl fun s hs e _ _ => by
    rw [makes_remove, makes_update]
    exact hs

lemma Valid.dismiss (h : r.Valid) (p : κ → Bool) (f : υ → υ) : (r.dismiss p f).Valid :=
  dismiss_induction p f h fun _ hs e _ _ => (hs.update e.2 f).remove e.1

lemma mem_keys_dismiss {p : κ → Bool} :
    key ∈ (r.dismiss p f).keys ↔ key ∈ r.keys ∧ p key = false := by
  have hfo (names : List (κ × Nat)) (s : Roster κ υ) :
      key ∈ (names.foldl (fun r e => if p e.1 then (r.update e.2 f).remove e.1 else r) s).keys ↔
        key ∈ s.keys ∧ (key ∈ OrdMap.keys names → p key = false) := by
    induction names generalizing s with
    | nil => simp
    | cons e names ih =>
      rw [foldl_cons, ih]
      have hc : key ∈ OrdMap.keys (e :: names) ↔ key = e.1 ∨ key ∈ OrdMap.keys names := mem_cons
      rw [hc]
      split
      · rename_i hp
        rw [mem_keys_remove]
        constructor
        · rintro ⟨⟨hkey, hne⟩, hns⟩
          exact ⟨hkey, fun h => hns (h.resolve_left hne)⟩
        · rintro ⟨hkey, hns⟩
          refine ⟨⟨hkey, ?_⟩, fun h => hns (.inr h)⟩
          rintro rfl
          rw [hns (.inl rfl)] at hp
          cases hp
      · rename_i hp
        constructor
        · rintro ⟨hkey, hns⟩
          refine ⟨hkey, ?_⟩
          rintro (rfl | h)
          · exact Bool.eq_false_iff.mpr hp
          · exact hns h
        · rintro ⟨hkey, hns⟩
          exact ⟨hkey, fun h => hns (.inr h)⟩
  rw [dismiss, hfo]
  constructor
  · rintro ⟨hkey, hp⟩
    exact ⟨hkey, hp hkey⟩
  · rintro ⟨hkey, hp⟩
    exact ⟨hkey, fun _ => hp⟩

omit [DecidableEq κ] in
lemma foldl_same {α : Type*} (names : List α) : names.foldl (fun s _ => s) r = r := by
  induction names with
  | nil => rfl
  | cons _ names ih => exact ih

@[simp] lemma dismiss_none (f : υ → υ) : r.dismiss (fun _ => false) f = r := by
  exact foldl_same r.names

lemma Unkept.dismiss (h : r.Unkept P) (hvd : r.Valid) (p : κ → Bool) (hf : ∀ thing, P (f thing)) :
    (r.dismiss p f).Unkept P := by
  have hall := dismiss_induction p f
    (Q := fun s => s.Valid ∧ s.makes = r.makes ∧ s.Unkept P) ⟨hvd, rfl, h⟩
  refine (hall fun s ⟨hs, hmakes, hunk⟩ e he _ => ?_).2.2
  refine ⟨(hs.update e.2 f).remove e.1, ?_, hunk.release hs ?_ hf⟩
  · rw [makes_remove, makes_update]
    exact hmakes
  · rw [IsFor, hmakes]
    exact hvd.listed e.1 e.2 (get?_of_mem hvd.distinct he)

lemma Evolves.dismiss {N : Nat → υ → Prop} {R : Nat → κ → υ → υ → Prop}
    (hrefl : ∀ n key thing, R n key thing thing)
    (htr : ∀ n key a b c, R n key a b → R n key b c → R n key a c)
    (hnew : ∀ n key a b, N n a → R n key a b → N n b) (p : κ → Bool)
    (hf : ∀ n key thing, R n key thing (f thing)) : Evolves N R r (r.dismiss p f) := by
  apply dismiss_induction p f
  · exact .of_made hrefl rfl
  · intro s hs e _ _
    apply hs.trans htr hnew
    exact (Evolves.update hrefl fun key thing _ => hf e.2 key thing).trans htr hnew
      (.of_made hrefl rfl)

end Roster
