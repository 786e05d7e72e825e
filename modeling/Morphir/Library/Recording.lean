import Mathlib

/-!
# Recorded runs

A machine answers each action and goes on to its next state.  The recording of a run
keeps, for each action, the state before it, the answer and the state after it.
-/

namespace Recording

open List

universe u v w

variable {σ : Type u} {α : Type v} {β : Type w}

structure Entry (σ : Type u) (α : Type v) (β : Type w) where
  before : σ
  action : α
  answer : β
  after : σ

def entry (step : σ → α → β × σ) (s : σ) (a : α) : Entry σ α β := ⟨s, a, (step s a).1, (step s a).2⟩

def final (step : σ → α → β × σ) : σ → List α → σ
  | s, [] => s
  | s, a :: actions => final step (step s a).2 actions

def entries (step : σ → α → β × σ) : σ → List α → List (Entry σ α β)
  | _, [] => []
  | s, a :: actions => entry step s a :: entries step (step s a).2 actions

variable {step : σ → α → β × σ} {s : σ}

@[simp] lemma final_nil : final step s [] = s := rfl

@[simp] lemma entries_nil : entries step s [] = [] := rfl

lemma final_append (front back : List α) :
    final step s (front ++ back) = final step (final step s front) back := by
  induction front generalizing s with
  | nil => rfl
  | cons a front ih => exact ih

lemma entries_append (front back : List α) :
    entries step s (front ++ back) =
      entries step s front ++ entries step (final step s front) back := by
  induction front generalizing s with
  | nil => rfl
  | cons a front ih => exact congrArg (entry step s a :: ·) ih

lemma final_snoc (actions : List α) (a : α) :
    final step s (actions ++ [a]) = (step (final step s actions) a).2 := final_append actions [a]

lemma entries_snoc (actions : List α) (a : α) :
    entries step s (actions ++ [a]) =
      entries step s actions ++ [entry step (final step s actions) a] := entries_append actions [a]

variable {actions : List α} {e : Entry σ α β}

lemma entries_split {past rest : List (Entry σ α β)}
    (h : entries step s actions = past ++ e :: rest) :
    ∃ earlier later, actions = earlier ++ e.action :: later ∧ past = entries step s earlier ∧
      e = entry step (final step s earlier) e.action ∧ rest = entries step e.after later := by
  induction past generalizing s actions with
  | nil =>
    cases actions with
    | nil => cases h
    | cons a actions =>
      obtain ⟨rfl, rfl⟩ := List.cons.inj h
      exact ⟨[], actions, rfl, rfl, rfl, rfl⟩
  | cons first past ih =>
    cases actions with
    | nil => cases h
    | cons a actions =>
      obtain ⟨rfl, htl⟩ := List.cons.inj h
      obtain ⟨earlier, later, hact, rfl, he, hr⟩ := ih htl
      refine ⟨a :: earlier, later, ?_, rfl, he, hr⟩
      rw [hact, cons_append]

lemma entries_between {past between rest : List (Entry σ α β)} {f : Entry σ α β}
    (h : entries step s actions = past ++ e :: (between ++ f :: rest)) :
    ∃ earlier middle, past = entries step s earlier ∧
      e = entry step (final step s earlier) e.action ∧
      between = entries step e.after middle ∧
      f = entry step (final step e.after middle) f.action := by
  obtain ⟨earlier, later, -, hpast, he, hr⟩ := entries_split h
  obtain ⟨middle, _, -, hbet, hf, -⟩ := entries_split hr.symm
  exact ⟨earlier, middle, hpast, he, hbet, hf⟩

variable {P : σ → Prop}

lemma final_keeps (hstep : ∀ s a, P s → P (step s a).2) (hs : P s) (actions : List α) :
    P (final step s actions) := by
  induction actions generalizing s with
  | nil => exact hs
  | cons a actions ih => exact ih (hstep s a hs)

lemma action_mem (h : e ∈ entries step s actions) : e.action ∈ actions := by
  induction actions generalizing s with
  | nil => cases h
  | cons a actions ih =>
    rcases mem_cons.mp h with rfl | h
    · exact mem_cons_self
    · exact mem_cons_of_mem _ (ih h)

lemma entry_of_mem (hstep : ∀ s a, P s → P (step s a).2) (hs : P s)
    (h : e ∈ entries step s actions) : e = entry step e.before e.action ∧ P e.before := by
  induction actions generalizing s with
  | nil => cases h
  | cons a actions ih =>
    rcases mem_cons.mp h with rfl | h
    · exact ⟨rfl, hs⟩
    · exact ih (hstep s a hs) h

lemma final_related {R : σ → σ → Prop} (hrefl : ∀ s, R s s) (htr : ∀ {r s t}, R r s → R s t → R r t)
    (hP : ∀ s a, P s → P (step s a).2) (hstep : ∀ s a, P s → R s (step s a).2) (hs : P s)
    (actions : List α) : R s (final step s actions) := by
  induction actions generalizing s with
  | nil => exact hrefl s
  | cons a actions ih =>
    apply htr (hstep s a hs)
    exact ih (hP s a hs)

lemma final_keeps_of {E : Entry σ α β → Prop}
    (hstep : ∀ s a, P s → ¬ E (entry step s a) → P (step s a).2) (hs : P s) (actions : List α)
    (h : ∀ e ∈ entries step s actions, ¬ E e) : P (final step s actions) := by
  induction actions generalizing s with
  | nil => exact hs
  | cons a actions ih =>
    have hnx : P (step s a).2 := hstep s a hs (h _ mem_cons_self)
    exact ih hnx fun e he => h e (mem_cons_of_mem _ he)

lemma exists_since (hs : ¬ P s) (h : P (final step s actions)) :
    ∃ older e newer, entries step s actions = older ++ e :: newer ∧
      ¬ P e.before ∧ P e.after ∧ ∀ x ∈ newer, P x.before ∧ P x.after := by
  induction actions using List.reverseRecOn with
  | nil => exact absurd h hs
  | append_singleton actions a ih =>
    rw [final_snoc] at h
    rw [entries_snoc]
    by_cases hpre : P (final step s actions)
    · obtain ⟨older, e, newer, hents, hbegan, hmd, hhl⟩ := ih hpre
      refine ⟨older, e, newer ++ [entry step (final step s actions) a], ?_, hbegan, hmd, ?_⟩
      · rw [hents, append_assoc, cons_append]
      · intro x hx
        rcases mem_append.mp hx with hx | hx
        · exact hhl x hx
        · obtain rfl := mem_singleton.mp hx
          exact ⟨hpre, h⟩
    · exact ⟨_, _, [], rfl, hpre, h, by simp⟩

end Recording
