import Mathlib

/-!
# Commands and their triples

A command runs from a state, changes it and returns or raises.  A triple has one
postcondition for what is returned and another for what is raised, and either is about
the state that the command leaves: raising undoes nothing.
-/

namespace Commands

universe u v

/-- A computation on a state that keeps its changes when it raises. -/
abbrev Command (ε σ : Type u) (α : Type u) : Type u := ExceptT ε (StateM σ) α

variable {ε σ α β : Type u}

def exec (x : Command ε σ α) (s : σ) : Except ε α × σ := StateT.run x.run s

def command (f : σ → Except ε α × σ) : Command ε σ α := ExceptT.mk f

def attempt (x : Command ε σ α) : Command ε σ (Except ε α) := ExceptT.mk (Except.ok <$> x.run)

/-- From every state in `P` the command returns in `Q` or raises in `R`. -/
def Triple (P : σ → Prop) (x : Command ε σ α) (Q : α → σ → Prop) (R : ε → σ → Prop) : Prop :=
  ∀ s, P s → match exec x s with
    | (.ok a, s') => Q a s'
    | (.error e, s') => R e s'

variable {P P' : σ → Prop} {Q Q' : α → σ → Prop} {R R' : ε → σ → Prop} {x : Command ε σ α}

lemma triple_mono (h : Triple P x Q R) (hpre : ∀ s, P' s → P s) (hpost : ∀ a s, Q a s → Q' a s)
    (hraise : ∀ e s, R e s → R' e s) : Triple P' x Q' R' := by
  intro s hs
  have hx := h s (hpre s hs)
  rcases heq : exec x s with ⟨e | a, s'⟩
  · rw [heq] at hx
    exact hraise e s' hx
  · rw [heq] at hx
    exact hpost a s' hx

lemma triple_exists {ι : Type v} {P : ι → σ → Prop} (h : ∀ i, Triple (P i) x Q R) :
    Triple (fun s => ∃ i, P i s) x Q R := by
  rintro s ⟨i, hs⟩
  exact h i s hs

lemma triple_fact {φ : Prop} (h : φ → Triple P x Q R) : Triple (fun s => φ ∧ P s) x Q R :=
  fun s hs => h hs.1 s hs.2

lemma triple_command {f : σ → Except ε α × σ} (hok : ∀ s a s', P s → f s = (.ok a, s') → Q a s')
    (her : ∀ s e s', P s → f s = (.error e, s') → R e s') : Triple P (command f) Q R := by
  intro s hs
  show match f s with
    | (.ok a, s') => Q a s'
    | (.error e, s') => R e s'
  rcases heq : f s with ⟨e | a, s'⟩
  · exact her s e s' hs heq
  · exact hok s a s' hs heq

lemma triple_pure (a : α) (h : ∀ s, P s → Q a s) :
    Triple P (pure a : Command ε σ α) Q R := h

lemma triple_throw (e : ε) (h : ∀ s, P s → R e s) :
    Triple P (throw e : Command ε σ α) Q R := h

lemma exec_bind (x : Command ε σ α) (f : α → Command ε σ β) (s : σ) :
    exec (x >>= f) s = match exec x s with
      | (.ok a, s') => exec (f a) s'
      | (.error e, s') => (.error e, s') := by
  simp only [exec, ExceptT.bind, ExceptT.run, ExceptT.mk, StateT.run, bind, StateT.bind]
  rcases x s with ⟨_ | _, s'⟩ <;> rfl

lemma triple_bind {Q : β → σ → Prop} {f : α → Command ε σ β} (middle : α → σ → Prop)
    (hx : Triple P x middle R) (hf : ∀ a, Triple (middle a) (f a) Q R) :
    Triple P (x >>= f) Q R := by
  intro s hs
  have hstep := hx s hs
  rw [exec_bind]
  rcases heq : exec x s with ⟨e | a, s'⟩
  · rw [heq] at hstep
    exact hstep
  · rw [heq] at hstep
    exact hf a s' hstep

lemma triple_get {Q : σ → σ → Prop} (h : ∀ s, P s → Q s s) :
    Triple P (get : Command ε σ σ) Q R := h

lemma triple_modify {Q : PUnit → σ → Prop} (f : σ → σ) (h : ∀ s, P s → Q ⟨⟩ (f s)) :
    Triple P (modify f : Command ε σ PUnit) Q R := h

lemma exec_attempt (x : Command ε σ α) (s : σ) :
    exec (attempt x) s = (.ok (exec x s).1, (exec x s).2) := by
  rfl

lemma triple_attempt {Q : Except ε α → σ → Prop}
    (h : Triple P x (fun a => Q (.ok a)) fun e => Q (.error e)) : Triple P (attempt x) Q R := by
  intro s hs
  have hx := h s hs
  rw [exec_attempt]
  rcases heq : exec x s with ⟨e | a, s'⟩
  · rw [heq] at hx
    exact hx
  · rw [heq] at hx
    exact hx

def ofResult (result : Except ε α) : Command ε σ α := ExceptT.mk (pure result)

lemma triple_ofResult (result : Except ε α) (hok : ∀ a s, result = .ok a → P s → Q a s)
    (her : ∀ e s, P s → R e s) : Triple P (ofResult result) Q R := by
  intro s hs
  cases result with
  | ok a => exact hok a s rfl hs
  | error e => exact her e s hs

end Commands
