import Mathlib

/-!
# Depth-first search for a cycle

The search walks the successors of a node and shares the list of nodes seen
between its branches.  A search that does not find its target has closed the
list of seen nodes under successors.  A finite relation without cycles is well
founded.
-/

namespace Search

open List List.Subset

universe u

variable {α : Type u} [DecidableEq α]

/-- The loop over successors, with the recursive search as a parameter. -/
def visitAll (visit : α → List α → Bool × List α) (target : α) :
    List α → List α → Bool × List α
  | [], seen => (false, seen)
  | r :: rs, seen =>
    if r = target then (true, seen)
    else if r ∈ seen then visitAll visit target rs seen
    else
      match visit r (seen ++ [r]) with
      | (true, seen) => (true, seen)
      | (false, seen) => visitAll visit target rs seen

/-- Whether a walk from `node` finds `target`, and the nodes seen. -/
def visit (succ : α → List α) (target : α) : Nat → α → List α → Bool × List α
  | 0, _, seen => (false, seen)
  | fuel + 1, node, seen => visitAll (visit succ target fuel) target (succ node) seen

variable {succ : α → List α} {target : α}

/-- What a failed search has done: from `seen` it went on to `seen'`, which
holds the roots and the successors of every new node, but not the target as a
successor. -/
structure Closed (succ : α → List α) (target : α) (roots seen seen' : List α) : Prop where
  subset : seen ⊆ seen'
  roots : ∀ r ∈ roots, r ∈ seen' ∧ r ≠ target
  new : ∀ v ∈ seen', v ∉ seen → ∀ w ∈ succ v, w ∈ seen' ∧ w ≠ target

def unseen (inner seen : List α) : List α := inner.filter fun v => v ∉ seen

lemma unseen_length_le {inner seen seen' : List α} (h : seen ⊆ seen') :
    (unseen inner seen').length ≤ (unseen inner seen).length := by
  have hsub : List.Sublist (unseen inner seen') (unseen inner seen) := by
    apply monotone_filter_right
    intro v hv
    have hv' : v ∉ seen' := by simpa using hv
    simpa using fun hmem => hv' (h hmem)
  exact hsub.length_le

lemma unseen_length_lt {inner seen : List α} {r : α} (hr : r ∈ inner) (hse : r ∉ seen) :
    (unseen inner (seen ++ [r])).length < (unseen inner seen).length := by
  have heq : unseen inner (seen ++ [r]) = (unseen inner seen).filter fun v => v ≠ r := by
    rw [unseen, unseen, filter_filter]
    apply filter_congr
    intro v _
    by_cases hv : v = r <;> simp [hv]
  rw [heq]
  have hmem : r ∈ unseen inner seen := mem_filter.mpr ⟨hr, by simpa using hse⟩
  exact length_filter_lt_length_iff_exists.mpr ⟨r, hmem, by simp⟩

section Closure

variable {inner : List α}

lemma visitAll_closed {visit : α → List α → Bool × List α} {bound : Nat}
    (hvisit : ∀ r seen seen', (r ∈ inner → (unseen inner seen).length < bound) →
      visit r seen = (false, seen') → Closed succ target (succ r) seen seen')
    (roots seen seen' : List α) (hbd : (unseen inner seen).length ≤ bound)
    (h : visitAll visit target roots seen = (false, seen')) :
    Closed succ target roots seen seen' := by
  induction roots generalizing seen with
  | nil =>
    have heq : seen = seen' := by simpa [visitAll] using h
    subst heq
    exact ⟨refl _, by simp, fun v hv hnot => absurd hv hnot⟩
  | cons r rs ih =>
    simp only [visitAll] at h
    split at h
    · simp at h
    rename_i htgt
    split at h
    · rename_i hr
      have hrest := ih seen hbd h
      refine ⟨hrest.subset, ?_, hrest.new⟩
      intro r' hr'
      rcases mem_cons.mp hr' with rfl | hr'
      · exact ⟨hrest.subset hr, htgt⟩
      · exact hrest.roots r' hr'
    · rename_i hr
      split at h
      · simp at h
      rename_i middle hmid
      have hlt : r ∈ inner → (unseen inner (seen ++ [r])).length < bound :=
        fun hmem => (unseen_length_lt hmem hr).trans_le hbd
      have hfst := hvisit r (seen ++ [r]) middle hlt hmid
      have hse : seen ⊆ middle := fun v hv => hfst.subset (mem_append_left _ hv)
      have hrest := ih middle ((unseen_length_le hse).trans hbd) h
      refine ⟨fun v hv => hrest.subset (hse hv), ?_, ?_⟩
      · intro r' hr'
        rcases mem_cons.mp hr' with rfl | hr'
        · exact ⟨hrest.subset (hfst.subset (by simp)), htgt⟩
        · exact hrest.roots r' hr'
      · intro v hv hnew w hw
        by_cases hvm : v ∈ middle
        · by_cases hvr : v = r
          · subst hvr
            have hro := hfst.roots w hw
            exact ⟨hrest.subset hro.1, hro.2⟩
          · have hnot : v ∉ seen ++ [r] := by simp [hnew, hvr]
            have hro := hfst.new v hvm hnot w hw
            exact ⟨hrest.subset hro.1, hro.2⟩
        · exact hrest.new v hv hvm w hw

variable (hinner : ∀ v, succ v ≠ [] → v ∈ inner)

include hinner

lemma visit_closed (fuel : Nat) (node : α) (seen seen' : List α)
    (hfuel : node ∈ inner → (unseen inner seen).length < fuel)
    (h : visit succ target fuel node seen = (false, seen')) :
    Closed succ target (succ node) seen seen' := by
  induction fuel generalizing node seen seen' with
  | zero =>
    have hlf : succ node = [] := by
      by_contra hne
      exact absurd (hfuel (hinner node hne)) (Nat.not_lt_zero _)
    have heq : seen = seen' := by simpa [visit] using h
    subst heq
    rw [hlf]
    exact ⟨refl _, by simp, fun v hv hnot => absurd hv hnot⟩
  | succ fuel ih =>
    by_cases hnode : node ∈ inner
    · have hle : (unseen inner seen).length ≤ fuel := Nat.lt_succ_iff.mp (hfuel hnode)
      exact visitAll_closed (fun r s s' hs hvisit => ih r s s' hs hvisit) _ _ _ hle h
    · have hlf : succ node = [] := by
        by_contra hne
        exact hnode (hinner node hne)
      have heq : seen = seen' := by simpa [visit, hlf, visitAll] using h
      subst heq
      rw [hlf]
      exact ⟨refl _, by simp, fun v hv hnot => absurd hv hnot⟩

lemma not_transGen_of_visit_eq_false {fuel : Nat} {node : α} (hfuel : inner.length < fuel)
    (h : (visit succ target fuel node []).1 = false) :
    ¬ Relation.TransGen (fun v w => w ∈ succ v) node target := by
  rcases hv : visit succ target fuel node [] with ⟨found, seen'⟩
  rw [hv] at h
  subst h
  have hlen : (unseen inner []).length < fuel := (length_filter_le _ _).trans_lt hfuel
  have hclosed := visit_closed hinner fuel node [] seen' (fun _ => hlen) hv
  have hreach : ∀ w, Relation.TransGen (fun v w => w ∈ succ v) node w →
      w ∈ seen' ∧ w ≠ target := by
    intro w hw
    induction hw with
    | single hs => exact hclosed.roots _ hs
    | tail _ hs ih => exact hclosed.new _ ih.1 not_mem_nil _ hs
  intro hp
  exact (hreach target hp).2 rfl

end Closure

omit [DecidableEq α] in
lemma wellFounded_of_acyclic {r : α → α → Prop} (nodes : List α) (hnodes : ∀ a b, r a b → a ∈ nodes)
    (hacy : ∀ a, ¬ Relation.TransGen r a a) : WellFounded fun b a => r a b := by
  let node := {a // a ∈ nodes}
  let below : node → node → Prop := fun b a => Relation.TransGen r a.1 b.1
  have hfin : Finite node := (finite_toSet nodes).to_subtype
  have hirr : Std.Irrefl below := ⟨fun a => hacy a.1⟩
  have hwf : WellFounded below := Finite.wellFounded_of_trans_of_irrefl below
  have hacc : ∀ a : node, Acc (fun b a => r a b) a.1 := by
    intro a
    induction a using hwf.induction with
    | _ a ih =>
      constructor
      intro b hab
      by_cases hb : b ∈ nodes
      · exact ih ⟨b, hb⟩ (.single hab)
      · exact ⟨_, fun c hbc => absurd (hnodes b c hbc) hb⟩
  constructor
  intro a
  by_cases ha : a ∈ nodes
  · exact hacc ⟨a, ha⟩
  · exact ⟨_, fun b hab => absurd (hnodes a b hab) ha⟩

end Search

/-!
## Depth-first traversal with notes

A traversal runs the program of each node that it reaches once.  A program leaves notes,
which update a state in order, and visits other nodes.  The nodes run are those that
the root reaches, and the notes are those of their programs.
-/

namespace Traversal

open Search Relation List

universe u v w

variable {α : Type u} {τ : Type v} {σ : Type w}

inductive Step (τ : Type v) (α : Type u)
  | note (note : τ)
  | visit (node : α)

def runSteps (visit : α → List α × σ → Option (List α × σ)) (update : τ → σ → σ) :
    List (Step τ α) → List α × σ → Option (List α × σ)
  | [], state => some state
  | .note t :: steps, (seen, s) => runSteps visit update steps (seen, update t s)
  | .visit a :: steps, state => (visit a state).bind (runSteps visit update steps)

variable [DecidableEq α]

def visit (program : α → List (Step τ α)) (update : τ → σ → σ) :
    Nat → α → List α × σ → Option (List α × σ)
  | 0, _, _ => none
  | fuel + 1, a, (seen, s) =>
    if a ∈ seen then some (seen, s)
    else runSteps (visit program update fuel) update (program a) (seen ++ [a], s)

def applyNotes (update : τ → σ → σ) (notes : List τ) (s : σ) : σ :=
  notes.foldl (fun s t => update t s) s

omit [DecidableEq α] in
lemma applyNotes_append (update : τ → σ → σ) (front back : List τ) (s : σ) :
    applyNotes update (front ++ back) s = applyNotes update back (applyNotes update front s) :=
  foldl_append

def Next (program : α → List (Step τ α)) (a b : α) : Prop := .visit b ∈ program a

/-- What steps have done: from `seen` the traversal went on to `seen'`, which holds the
nodes that the steps reach, and left the notes of the steps and of the new nodes. -/
structure Walked (program : α → List (Step τ α)) (steps : List (Step τ α)) (seen seen' : List α)
    (notes : List τ) : Prop where
  subset : seen ⊆ seen'
  visits : ∀ a, .visit a ∈ steps → a ∈ seen'
  sound : ∀ x ∈ seen', x ∈ seen ∨ ∃ a, .visit a ∈ steps ∧ ReflTransGen (Next program) a x
  closed : ∀ x ∈ seen', x ∉ seen → ∀ a, .visit a ∈ program x → a ∈ seen'
  notes : ∀ t, t ∈ notes ↔ .note t ∈ steps ∨ ∃ x ∈ seen', x ∉ seen ∧ .note t ∈ program x

namespace Walked

variable {program : α → List (Step τ α)} {seen seen' : List α}

omit [DecidableEq α] in
lemma nil (program : α → List (Step τ α)) (seen : List α) : Walked program [] seen seen [] where
  subset := List.Subset.refl _
  visits a h := nomatch h
  sound x hx := .inl hx
  closed x hx hnew := absurd hx hnew
  notes t := by simpa using fun x hx hnew => absurd hx hnew

omit [DecidableEq α] in
lemma note (program : α → List (Step τ α)) (seen : List α) (t : τ) :
    Walked program [.note t] seen seen [t] where
  subset := List.Subset.refl _
  visits a h := by simp at h
  sound x hx := .inl hx
  closed x hx hnew := absurd hx hnew
  notes other := by simpa using fun x hx hnew => absurd hx hnew

lemma append {front back : List (Step τ α)} {middle : List α} {notes notes' : List τ}
    (hfr : Walked program front seen middle notes) (hbk : Walked program back middle seen' notes') :
    Walked program (front ++ back) seen seen' (notes ++ notes') where
  subset := fun x hx => hbk.subset (hfr.subset hx)
  visits a ha := by
    rcases mem_append.mp ha with ha | ha
    · exact hbk.subset (hfr.visits a ha)
    · exact hbk.visits a ha
  sound x hx := by
    rcases hbk.sound x hx with hx | ⟨a, ha, hrch⟩
    · rcases hfr.sound x hx with hx | ⟨a, ha, hrch⟩
      · exact .inl hx
      · exact .inr ⟨a, mem_append_left _ ha, hrch⟩
    · exact .inr ⟨a, mem_append_right _ ha, hrch⟩
  closed x hx hnew a ha := by
    by_cases hmid : x ∈ middle
    · exact hbk.subset (hfr.closed x hmid hnew a ha)
    · exact hbk.closed x hx hmid a ha
  notes t := by
    rw [mem_append, hfr.notes, hbk.notes, mem_append]
    constructor
    · rintro ((h | ⟨x, hx, hnew, ht⟩) | (h | ⟨x, hx, hnew, ht⟩))
      · exact .inl (.inl h)
      · exact .inr ⟨x, hbk.subset hx, hnew, ht⟩
      · exact .inl (.inr h)
      · exact .inr ⟨x, hx, fun hse => hnew (hfr.subset hse), ht⟩
    · rintro ((h | h) | ⟨x, hx, hnew, ht⟩)
      · exact .inl (.inl h)
      · exact .inr (.inl h)
      · by_cases hmid : x ∈ middle
        · exact .inl (.inr ⟨x, hmid, hnew, ht⟩)
        · exact .inr (.inr ⟨x, hx, hmid, ht⟩)

omit [DecidableEq α] in
lemma seen_visit {a : α} (ha : a ∈ seen) : Walked program [.visit a] seen seen [] where
  subset := List.Subset.refl _
  visits b hb := by
    rcases mem_singleton.mp hb with ⟨⟩
    exact ha
  sound x hx := .inl hx
  closed x hx hnew := absurd hx hnew
  notes t := by simpa using fun x hx hnew => absurd hx hnew

lemma new_visit {a : α} {notes : List τ} (ha : a ∉ seen)
    (h : Walked program (program a) (seen ++ [a]) seen' notes) :
    Walked program [.visit a] seen seen' notes := by
  have hse : a ∈ seen' := h.subset (by simp)
  have hnew : ∀ x, x ∉ seen ++ [a] ↔ x ∉ seen ∧ x ≠ a := by simp
  refine ⟨fun x hx => h.subset (mem_append_left _ hx), ?_, ?_, ?_, ?_⟩
  · intro b hb
    rcases mem_singleton.mp hb with ⟨⟩
    exact hse
  · intro x hx
    rcases h.sound x hx with hx | ⟨b, hb, hrch⟩
    · rcases mem_append.mp hx with hx | hx
      · exact .inl hx
      · rw [mem_singleton.mp hx]
        exact .inr ⟨a, mem_singleton_self _, .refl⟩
    · exact .inr ⟨a, mem_singleton_self _, .head hb hrch⟩
  · intro x hx hnot b hb
    by_cases hxa : x = a
    · subst hxa
      exact h.visits b hb
    · exact h.closed x hx ((hnew x).mpr ⟨hnot, hxa⟩) b hb
  · intro t
    rw [h.notes]
    constructor
    · rintro (ht | ⟨x, hx, hnot, ht⟩)
      · exact .inr ⟨a, hse, ha, ht⟩
      · exact .inr ⟨x, hx, ((hnew x).mp hnot).1, ht⟩
    · rintro (ht | ⟨x, hx, hnot, ht⟩)
      · simp at ht
      · by_cases hxa : x = a
        · subst hxa
          exact .inl ht
        · exact .inr ⟨x, hx, (hnew x).mpr ⟨hnot, hxa⟩, ht⟩

end Walked

section Spec

variable {program : α → List (Step τ α)} {update : τ → σ → σ} {nodes : List α}

def Ends (program : α → List (Step τ α)) (update : τ → σ → σ)
    (result : Option (List α × σ)) (steps : List (Step τ α)) (seen : List α) (s : σ) : Prop :=
  ∃ seen' notes, result = some (seen', applyNotes update notes s) ∧
    Walked program steps seen seen' notes

lemma runSteps_ends {visit : α → List α × σ → Option (List α × σ)} (bound : Nat)
    (hv : ∀ a ∈ nodes, ∀ seen s, (unseen nodes seen).length ≤ bound →
      Ends program update (visit a (seen, s)) [.visit a] seen s)
    (steps : List (Step τ α)) (hsteps : ∀ a, .visit a ∈ steps → a ∈ nodes) (seen : List α) (s : σ)
    (hbd : (unseen nodes seen).length ≤ bound) :
    Ends program update (runSteps visit update steps (seen, s)) steps seen s := by
  induction steps generalizing seen s with
  | nil => exact ⟨seen, [], rfl, .nil program seen⟩
  | cons step steps ih =>
    have hr : ∀ a, .visit a ∈ steps → a ∈ nodes := fun a ha => hsteps a (mem_cons_of_mem _ ha)
    cases step with
    | note t =>
      obtain ⟨seen', notes, hres, hwal⟩ := ih hr seen (update t s) hbd
      exact ⟨seen', t :: notes, hres, (Walked.note program seen t).append hwal⟩
    | visit a =>
      obtain ⟨middle, notes, hres, hfst⟩ := hv a (hsteps a mem_cons_self) seen s hbd
      obtain ⟨seen', notes', hres', hwal⟩ :=
        ih hr middle (applyNotes update notes s)
          ((unseen_length_le hfst.subset).trans hbd)
      refine ⟨seen', notes ++ notes', ?_, hfst.append hwal⟩
      rw [runSteps, hres, Option.bind_some, hres', applyNotes_append]

lemma visit_ends (hnodes : ∀ a ∈ nodes, ∀ b, .visit b ∈ program a → b ∈ nodes) (fuel : Nat) :
    ∀ a ∈ nodes, ∀ (seen : List α) (s : σ), (unseen nodes seen).length < fuel →
      Ends program update (visit program update fuel a (seen, s)) [.visit a] seen s := by
  induction fuel with
  | zero => intro a _ seen s hfuel; cases hfuel
  | succ fuel ih =>
    intro a ha seen s hfuel
    rw [visit]
    by_cases hse : a ∈ seen
    · rw [if_pos hse]
      exact ⟨seen, [], rfl, .seen_visit hse⟩
    · rw [if_neg hse]
      have hlt := unseen_length_lt ha hse
      obtain ⟨seen', notes, hres, hwal⟩ :=
        runSteps_ends (fuel - 1)
          (fun b hb seen s hle => ih b hb seen s (by omega)) (program a) (hnodes a ha)
            (seen ++ [a]) s (by omega)
      exact ⟨seen', notes, hres, hwal.new_visit hse⟩

lemma visit_reaches (update : τ → σ → σ)
    (hnodes : ∀ a ∈ nodes, ∀ b, .visit b ∈ program a → b ∈ nodes) {fuel : Nat} {a : α}
    (ha : a ∈ nodes) (hfuel : nodes.length < fuel) (s : σ) :
    ∃ seen notes, visit program update fuel a ([], s) = some (seen, applyNotes update notes s) ∧
      (∀ x, x ∈ seen ↔ ReflTransGen (Next program) a x) ∧
      ∀ t, t ∈ notes ↔ ∃ x, ReflTransGen (Next program) a x ∧ .note t ∈ program x := by
  obtain ⟨seen, notes, hres, hwal⟩ := visit_ends hnodes fuel a ha [] s
    ((length_filter_le _ _).trans_lt hfuel)
  have hmem : ∀ x, x ∈ seen ↔ ReflTransGen (Next program) a x := by
    intro x
    constructor
    · intro hx
      rcases hwal.sound x hx with hx | ⟨b, hb, hrch⟩
      · cases hx
      · rcases mem_singleton.mp hb with ⟨⟩
        exact hrch
    · intro hrch
      induction hrch with
      | refl => exact hwal.visits a (mem_singleton_self _)
      | tail _ hs ih => exact hwal.closed _ ih not_mem_nil _ hs
  refine ⟨seen, notes, hres, hmem, fun t => ?_⟩
  rw [hwal.notes]
  constructor
  · rintro (ht | ⟨x, hx, -, ht⟩)
    · simp at ht
    · exact ⟨x, (hmem x).mp hx, ht⟩
  · rintro ⟨x, hx, ht⟩
    exact .inr ⟨x, (hmem x).mpr hx, not_mem_nil, ht⟩

end Spec

section Fuel

variable {program : α → List (Step τ α)} {update : τ → σ → σ}

omit [DecidableEq α] in
lemma runSteps_mono {first second : α → List α × σ → Option (List α × σ)}
    (hle : ∀ a state result, first a state = some result → second a state = some result)
    (steps : List (Step τ α)) (state result : List α × σ)
    (h : runSteps first update steps state = some result) :
    runSteps second update steps state = some result := by
  induction steps generalizing state with
  | nil => exact h
  | cons step steps ih =>
    cases step with
    | note t => exact ih _ h
    | visit a =>
      rw [runSteps, Option.bind_eq_some_iff] at h
      obtain ⟨middle, hfst, hr⟩ := h
      rw [runSteps, hle a state middle hfst]
      exact ih middle hr

lemma visit_mono {fuel fuel' : Nat} (hle : fuel ≤ fuel') (a : α) (state result : List α × σ)
    (h : visit program update fuel a state = some result) :
    visit program update fuel' a state = some result := by
  induction fuel generalizing fuel' a state result with
  | zero => cases h
  | succ fuel ih =>
    obtain ⟨more, rfl⟩ : ∃ more, fuel' = more + 1 := ⟨fuel' - 1, by omega⟩
    rw [visit] at h ⊢
    split at h
    · rename_i hse
      rw [if_pos hse]
      exact h
    · rename_i hse
      rw [if_neg hse]
      exact runSteps_mono (fun b state result => ih (by omega) b state result) _ _ _ h

end Fuel

end Traversal
