import Mathlib

/-!
# Merges of partial functions

Partial functions that agree are merged into one, and what it says does not depend on the
order of the merge.
-/

namespace Merging

open List

universe u v

variable {κ : Type u} {υ : Type v}

def Agrees (f g : κ → Option υ) : Prop := ∀ k v w, f k = some v → g k = some w → v = w

/-- The second function where it has a value, and the first one elsewhere. -/
def union (f g : κ → Option υ) (k : κ) : Option υ := (g k).or (f k)

def Consistent (fs : List (κ → Option υ)) : Prop := ∀ f ∈ fs, ∀ g ∈ fs, Agrees f g

def Gathers (fs : List (κ → Option υ)) (f : κ → Option υ) : Prop :=
  ∀ k v, f k = some v ↔ ∃ g ∈ fs, g k = some v

variable {f g h : κ → Option υ} {fs fs' : List (κ → Option υ)}

lemma Agrees.refl (f : κ → Option υ) : Agrees f f :=
  fun _ _ _ hv hw => Option.some.inj (hv.symm.trans hw)

lemma Agrees.symm (h : Agrees f g) : Agrees g f := fun k v w hv hw => (h k w v hw hv).symm

lemma union_eq_some (h : Agrees f g) {k : κ} {v : υ} :
    union f g k = some v ↔ f k = some v ∨ g k = some v := by
  rw [union]
  cases hg : g k with
  | none => simp
  | some w =>
    rw [Option.some_or]
    constructor
    · exact .inr
    · rintro (hf | hw)
      · rw [h k v w hf hg]
      · exact hw

lemma agrees_union (hfg : Agrees f g) : Agrees (union f g) h ↔ Agrees f h ∧ Agrees g h := by
  constructor
  · intro hun
    exact ⟨fun k v w hv => hun k v w ((union_eq_some hfg).mpr (.inl hv)),
      fun k v w hv => hun k v w ((union_eq_some hfg).mpr (.inr hv))⟩
  · rintro ⟨hf, hg⟩ k v w hv hw
    rcases (union_eq_some hfg).mp hv with hv | hv
    · exact hf k v w hv hw
    · exact hg k v w hv hw

lemma consistent_cons :
    Consistent (f :: fs) ↔ (∀ g ∈ fs, Agrees f g) ∧ Consistent fs := by
  constructor
  · intro hall
    exact ⟨fun g hg => hall f mem_cons_self g (mem_cons_of_mem f hg),
      fun g hg k hk => hall g (mem_cons_of_mem f hg) k (mem_cons_of_mem f hk)⟩
  · rintro ⟨hf, hfs⟩
    have hfst : ∀ k ∈ f :: fs, Agrees f k := forall_mem_cons.mpr ⟨.refl f, hf⟩
    refine forall_mem_cons.mpr ⟨hfst, fun g hg => ?_⟩
    exact forall_mem_cons.mpr ⟨(hf g hg).symm, hfs g hg⟩

lemma consistent_union :
    Consistent (f :: g :: fs) ↔ Agrees f g ∧ Consistent (union f g :: fs) := by
  rw [consistent_cons, consistent_cons, consistent_cons, forall_mem_cons]
  constructor
  · rintro ⟨⟨hfg, hf⟩, hg, hfs⟩
    exact ⟨hfg, fun k hk => (agrees_union hfg).mpr ⟨hf k hk, hg k hk⟩, hfs⟩
  · rintro ⟨hfg, hun, hfs⟩
    exact ⟨⟨hfg, fun k hk => ((agrees_union hfg).mp (hun k hk)).1⟩,
      fun k hk => ((agrees_union hfg).mp (hun k hk)).2, hfs⟩

lemma gathers_union (hfg : Agrees f g) :
    Gathers (union f g :: fs) h ↔ Gathers (f :: g :: fs) h := by
  simp only [Gathers, exists_mem_cons_iff, union_eq_some hfg, or_assoc]

lemma gathers_singleton : Gathers [f] f := fun k v => by simp

lemma Consistent.perm (h : Consistent fs) (hpm : fs.Perm fs') : Consistent fs' :=
  fun f hf g hg => h f (hpm.mem_iff.mpr hf) g (hpm.mem_iff.mpr hg)

lemma Gathers.eq_of_perm (hf : Gathers fs f) (hg : Gathers fs' g) (hpm : fs.Perm fs') : f = g := by
  funext k
  apply Option.ext
  intro v
  rw [hf k v, hg k v]
  simp only [hpm.mem_iff]

end Merging
