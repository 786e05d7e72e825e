import Morphir.IR.Values
import Morphir.Library.CanonicalMap

/-!
# Canonical data

Equality of data and of attributes does not depend on the order of entries.
Where the keys are distinct, it is equality of canonical forms.
-/

namespace Morphir

open List OrdMap

namespace Data

lemma inductionOn {P : Data → Prop} (null : P .null) (boolean : ∀ value, P (.boolean value))
    (number : ∀ lexeme, P (.number lexeme)) (text : ∀ value, P (.text value))
    (array : ∀ items, (∀ d ∈ items, P d) → P (.array items))
    (object : ∀ entries, (∀ e ∈ entries, P e.2) → P (.object entries)) (d : Data) : P d := by
  refine Data.rec (motive_4 := fun e => P e.2)
    null boolean number text array object ?_ ?_ ?_ ?_ ?_ d
  · simp
  · intro head tail hh htl
    simpa using ⟨hh, htl⟩
  · simp
  · intro head tail hh htl
    simpa using ⟨hh, fun a b => htl (a, b)⟩
  · intro key d hd
    exact hd

/- The data with the entries of every object in the order of the keys. -/
mutual
def canonical : Data → Data
  | .array items => .array (canonicalItems items)
  | .object entries => .object (OrdMap.canonical (canonicalEntries entries))
  | d => d

def canonicalItems : List Data → List Data
  | [] => []
  | d :: items => canonical d :: canonicalItems items

def canonicalEntries : List (String × Data) → List (String × Data)
  | [] => []
  | (key, d) :: entries => (key, canonical d) :: canonicalEntries entries
end

@[simp] lemma canonicalItems_eq (items : List Data) :
    canonicalItems items = items.map canonical := by
  induction items with
  | nil => rfl
  | cons d items ih => rw [canonicalItems, ih, map_cons]

@[simp] lemma canonicalEntries_eq (entries : List (String × Data)) :
    canonicalEntries entries = mapValues canonical entries := by
  induction entries with
  | nil => rfl
  | cons e entries ih => rw [canonicalEntries, ih, mapValues_cons]

/- No object in the data has two entries of one key. -/
mutual
def Distinct : Data → Prop
  | .array items => DistinctItems items
  | .object entries => OrdMap.Distinct entries ∧ DistinctEntries entries
  | _ => True

def DistinctItems : List Data → Prop
  | [] => True
  | d :: items => Distinct d ∧ DistinctItems items

def DistinctEntries : List (String × Data) → Prop
  | [] => True
  | (_, d) :: entries => Distinct d ∧ DistinctEntries entries
end

lemma distinctItems_iff {items : List Data} : DistinctItems items ↔ ∀ d ∈ items, d.Distinct := by
  induction items with
  | nil => simp [DistinctItems]
  | cons d items ih => simp [DistinctItems, ih]

lemma distinctEntries_iff {entries : List (String × Data)} :
    DistinctEntries entries ↔ ∀ e ∈ entries, e.2.Distinct := by
  induction entries with
  | nil => simp [DistinctEntries]
  | cons e entries ih => simp [DistinctEntries, ih]

lemma beqItems_iff {xs ys : List Data}
    (h : ∀ x ∈ xs, ∀ y ∈ ys, beq x y = true ↔ x.canonical = y.canonical) :
    beqItems xs ys = true ↔ xs.map canonical = ys.map canonical := by
  induction xs generalizing ys with
  | nil => cases ys <;> simp [beqItems]
  | cons x xs ih =>
    cases ys with
    | nil => simp [beqItems]
    | cons y ys =>
      have hh := h x mem_cons_self y mem_cons_self
      have htl : beqItems xs ys = true ↔ xs.map canonical = ys.map canonical :=
        ih fun x hx y hy => h x (mem_cons_of_mem _ hx) y (mem_cons_of_mem _ hy)
      rw [beqItems, Bool.and_eq_true, hh, htl, map_cons, map_cons, List.cons.injEq]

lemma beqEntries_iff {xs ys : List (String × Data)} :
    beqEntries xs ys = true ↔
      ∀ e ∈ xs, ∃ value, get? ys e.1 = some value ∧ beq e.2 value = true := by
  induction xs with
  | nil => simp [beqEntries]
  | cons e xs ih =>
    obtain ⟨key, d⟩ := e
    rw [beqEntries, Bool.and_eq_true, ih]
    cases hval : get? ys key <;> simp [hval]

lemma beqDataMap_iff {xs ys : List (String × Data)} (hxs : OrdMap.Distinct xs)
    (hys : OrdMap.Distinct ys)
    (h : ∀ e ∈ xs, ∀ f ∈ ys, beq e.2 f.2 = true ↔ e.2.canonical = f.2.canonical) :
    beqDataMap xs ys = true ↔
      OrdMap.canonical (mapValues canonical xs) =
        OrdMap.canonical (mapValues canonical ys) := by
  rw [canonical_mapValues_eq_iff canonical hxs hys, beqDataMap, Bool.and_eq_true,
    beq_iff_eq, beqEntries_iff]
  apply and_congr_right
  intro hlen
  apply forall₂_congr
  intro e he
  apply exists_congr
  intro value
  apply and_congr_right
  intro hval
  exact h e he _ (mem_of_get? hval)

lemma beq_iff {a b : Data} (ha : a.Distinct) (hb : b.Distinct) :
    beq a b = true ↔ a.canonical = b.canonical := by
  induction a using Data.inductionOn generalizing b with
  | array items ih =>
    cases b with
    | array others =>
      have hits := distinctItems_iff.mp ha
      have hoth := distinctItems_iff.mp hb
      simpa [beq, canonical] using
        beqItems_iff fun x hx y hy => ih x hx (hits x hx) (hoth y hy)
    | _ => simp [beq, canonical]
  | object entries ih =>
    cases b with
    | object others =>
      have hents := distinctEntries_iff.mp ha.2
      have hoth := distinctEntries_iff.mp hb.2
      simpa [beq, canonical, beqDataMap] using
        beqDataMap_iff ha.1 hb.1 fun e he f hf => ih e he (hents e he) (hoth f hf)
    | _ => simp [beq, canonical]
  | _ => cases b <;> simp [beq, canonical]

end Data

namespace TypeAttributes

structure Distinct (attrs : TypeAttributes) : Prop where
  constraints : OrdMap.Distinct attrs.constraints
  constraintData : ∀ e ∈ attrs.constraints, e.2.Distinct
  extensions : OrdMap.Distinct attrs.extensions
  extensionData : ∀ e ∈ attrs.extensions, e.2.Distinct

lemma distinct_default : default.Distinct :=
  ⟨distinct_nil, by simp [default], distinct_nil, by simp [default]⟩

/-- The attributes with the entries of every map in the order of the keys. -/
def canonical (attrs : TypeAttributes) : TypeAttributes where
  source := attrs.source
  constraints := OrdMap.canonical (mapValues Data.canonical attrs.constraints)
  extensions := OrdMap.canonical (mapValues Data.canonical attrs.extensions)

lemma beq_iff {a b : TypeAttributes} (ha : a.Distinct) (hb : b.Distinct) :
    (a == b) = true ↔ a.canonical = b.canonical := by
  have hcon := Data.beqDataMap_iff ha.constraints hb.constraints fun e he f hf =>
    Data.beq_iff (ha.constraintData e he) (hb.constraintData f hf)
  have hexts := Data.beqDataMap_iff ha.extensions hb.extensions fun e he f hf =>
    Data.beq_iff (ha.extensionData e he) (hb.extensionData f hf)
  show beq a b = true ↔ _
  rw [beq, Bool.and_eq_true, Bool.and_eq_true, hcon, hexts, beq_iff_eq, canonical,
    canonical, mk.injEq, and_assoc]

end TypeAttributes

end Morphir
