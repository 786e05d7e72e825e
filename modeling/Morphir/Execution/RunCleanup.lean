import Morphir.Execution.Runs
import Morphir.Execution.SuiteRoundTrip

/-!
# What every run leaves behind

Whatever the provider, the evaluator, the observer and the cancellation do, what was acquired
is disposed of once, each call has one terminal, and a successful report has no failure.
-/

namespace Morphir.Execution

open Fallible Morphir.Host Commands List

variable {X E U A σ : Type} {α β : Type}

def Event.acquired? : Event E U A σ → Option (Session E U A σ)
  | .acquired lease => some lease
  | _ => none

def Event.disposed? : Event E U A σ → Option (Session E U A σ)
  | .disposed lease => some lease
  | _ => none

def Event.IsTrouble : Event E U A σ → Prop
  | .acquired _ | .disposed _ => False
  | .cancelled | .failed _ => True

def acquisitions (log : List (Event E U A σ)) : List (Session E U A σ) :=
  log.filterMap Event.acquired?

def disposals (log : List (Event E U A σ)) : List (Session E U A σ) := log.filterMap Event.disposed?

def Clean (log : List (Event E U A σ)) : Prop := ∀ event ∈ log, ¬ event.IsTrouble

lemma clean_append {log : List (Event E U A σ)} {event : Event E U A σ} (h : Clean log)
    (hev : ¬ event.IsTrouble) : Clean (log ++ [event]) := by
  intro e he
  rcases mem_append.mp he with he | he
  · exact h e he
  · rw [mem_singleton.mp he]
    exact hev

def CallResult.Sound (setting : Setting E U A σ) (r : CallResult) : Prop :=
  r.matched = true → r.mismatchPath = none ∧ (setting.evaluator.isSome = true →
    ∃ v, r.expected = some v ∧ v.compare setting.tolerates setting.comparison r.actual = .ok true)

structure Ledger (setting : Setting E U A σ) (session : Option (Session E U A σ))
    (acquired disposed : List (Session E U A σ)) (s : State E U A σ) : Prop where
  session : s.session = session
  acquired : acquisitions s.log = acquired
  disposed : disposals s.log = disposed
  sound : ∀ r ∈ s.results, r.Sound setting
  failure : s.failure = none

def WorldFree (P : State E U A σ → Prop) : Prop := ∀ s w, P s → P { s with world := w }

section Triples

variable {setting : Setting E U A σ} {Q : α → State E U A σ → Prop}
  {R : Error E → State E U A σ → Prop}

lemma triple_poll {f : World U A σ → α × World U A σ} (hP : WorldFree P)
    (hQ : ∀ a s, P s → Q a s) : Triple P (poll (E := E) f) Q R :=
  fun s hs => hQ _ _ (hP s _ hs)

variable {details : Option Details}

lemma triple_emit {context : ObservationContext} {stage : Stage} {signal : Signal}
    (hP : WorldFree P) : Triple P (emit setting context details stage signal) (fun _ => P) R :=
  triple_poll hP fun _ _ h => h

lemma triple_observe {stage : Stage} {scope : ObservationContext}
    {body : ObservationContext → Run E U A σ α} (hP : WorldFree P) (hQ : ∀ a, WorldFree (Q a))
    (hR : ∀ e, WorldFree (R e)) (hbo : ∀ child, Triple P (body child) Q R) :
    Triple P (observe setting stage details scope body) Q R := by
  apply triple_bind (fun _ => P) (triple_poll hP fun _ _ h => h)
  intro enabled
  split
  · apply triple_bind (fun _ => P) (triple_poll hP fun _ _ h => h)
    intro spanId
    apply triple_bind (fun _ => P) (triple_emit hP)
    intro _
    apply triple_bind (@Except.rec (Error E) α (fun _ => State E U A σ → Prop) R Q)
      (triple_attempt (hbo _))
    intro result
    cases result with
    | ok a => exact triple_bind _ (triple_emit (hQ a)) fun _ => triple_pure a fun _ h => h
    | error e =>
      dsimp only
      split
      · exact triple_bind _ (triple_emit (hR e)) fun _ => triple_throw e fun _ h => h
      · exact triple_bind _ (triple_emit (hR e)) fun _ => triple_throw e fun _ h => h
  · exact hbo scope

end Triples

/-- The command keeps `P`, and a clean log stays clean when it returns.  `ok` says that the
log is clean. -/
def Safe (ok : Prop) (P : State E U A σ → Prop) (x : Run E U A σ α) (Q : α → Prop) : Prop :=
  Triple (fun s => P s ∧ (ok → Clean s.log)) x (fun a s => (P s ∧ (ok → Clean s.log)) ∧ Q a)
    fun _ => P

section Safe

variable {ok : Prop} {P : State E U A σ → Prop} {Q : α → Prop}

lemma safe_pure (a : α) (h : Q a) : Safe ok P (pure a : Run E U A σ α) Q :=
  triple_pure a fun _ hs => ⟨hs, h⟩

lemma safe_throw (e : Error E) : Safe ok P (throw e : Run E U A σ α) Q :=
  triple_throw e fun _ hs => hs.1

lemma safe_bind {x : Run E U A σ α} {f : α → Run E U A σ β} {Q' : β → Prop}
    (hx : Safe ok P x Q) (hf : ∀ a, Q a → Safe ok P (f a) Q') : Safe ok P (x >>= f) Q' := by
  apply triple_bind _ hx
  intro a s hs
  exact hf a hs.2 s hs.1

lemma safe_mono {x : Run E U A σ α} {Q' : α → Prop} (hx : Safe ok P x Q) (h : ∀ a, Q a → Q' a) :
    Safe ok P x Q' :=
  triple_mono hx (fun _ hs => hs) (fun a _ hs => ⟨hs.1, h a hs.2⟩) fun _ _ hs => hs

lemma safe_get : Safe ok P (get : Run E U A σ (State E U A σ)) fun _ => True :=
  triple_get fun _ hs => ⟨hs, trivial⟩

lemma safe_modify {f : State E U A σ → State E U A σ} (h : ∀ s, P s → P (f s))
    (hlog : ∀ s, (f s).log = s.log) : Safe ok P (modify f : Run E U A σ PUnit) fun _ => True := by
  apply triple_modify
  intro s hs
  rw [hlog]
  exact ⟨⟨h s hs.1, hs.2⟩, trivial⟩

lemma safe_ofResult (result : Except (Error E) α) :
    Safe ok P (ofResult result : Run E U A σ α) fun a => result = .ok a :=
  triple_ofResult result (fun _ _ h hs => ⟨hs, h⟩) fun _ _ hs => hs.1

lemma safe_require (result : Except String α) :
    Safe ok P (require result : Run E U A σ α) fun a => result = .ok a :=
  safe_mono (safe_ofResult _) fun _ h => invalidly_ok h

variable {setting : Setting E U A σ}

lemma safe_poll {f : World U A σ → α × World U A σ} (hP : WorldFree P) :
    Safe ok P (poll (E := E) f) fun _ => True :=
  triple_poll (fun s w hs => ⟨hP s w hs.1, hs.2⟩) fun _ _ hs => ⟨hs, trivial⟩

lemma safe_observe {stage : Stage} {details : Option Details} {scope : ObservationContext}
    {body : ObservationContext → Run E U A σ α} (hP : WorldFree P)
    (hbo : ∀ child, Safe ok P (body child) Q) :
    Safe ok P (observe setting stage details scope body) Q :=
  triple_observe (fun s w hs => ⟨hP s w hs.1, hs.2⟩)
    (fun _ s w hs => ⟨⟨hP s w hs.1.1, hs.1.2⟩, hs.2⟩) (fun _ => hP) hbo

end Safe

section Ledgers

variable {setting : Setting E U A σ} {ok : Prop} {session : Option (Session E U A σ)}
  {acquired disposed : List (Session E U A σ)}

lemma worldFree_ledger : WorldFree (Ledger setting session acquired disposed) :=
  fun _ _ h => ⟨h.session, h.acquired, h.disposed, h.sound, h.failure⟩

lemma Ledger.trouble {s : State E U A σ} (h : Ledger setting session acquired disposed s)
    (event : Event E U A σ) (hev : event.IsTrouble) (w : World U A σ) :
    Ledger setting session acquired disposed { s with world := w, log := s.log ++ [event] } := by
  have hno : event.acquired? = none ∧ event.disposed? = none := by
    cases event with
    | acquired lease => exact hev.elim
    | disposed lease => exact hev.elim
    | cancelled => exact ⟨rfl, rfl⟩
    | failed operation => exact ⟨rfl, rfl⟩
  refine ⟨h.session, ?_, ?_, h.sound, h.failure⟩
  · rw [acquisitions, filterMap_append, filterMap_cons_none hno.1, filterMap_nil, append_nil]
    exact h.acquired
  · rw [disposals, filterMap_append, filterMap_cons_none hno.2, filterMap_nil, append_nil]
    exact h.disposed

lemma safe_behave {operation : Operation} {b : Behaviour E (World U A σ) α} :
    Safe ok (Ledger setting session acquired disposed) (behave operation b) fun _ => True := by
  apply triple_command
  · intro s a s' hs heq
    split at heq
    · cases heq
      exact ⟨⟨worldFree_ledger s _ hs.1, hs.2⟩, trivial⟩
    · cases heq
  · intro s e s' hs heq
    split at heq
    · cases heq
    · cases heq
      exact hs.1.trouble (.failed operation) trivial _

lemma safe_setPhase (phase : String) :
    Safe ok (Ledger setting session acquired disposed) (setPhase phase) fun _ => True :=
  safe_modify (fun _ h => ⟨h.session, h.acquired, h.disposed, h.sound, h.failure⟩) fun _ => rfl

variable {scope : ObservationContext}

lemma safe_traceContext :
    Safe ok (Ledger setting session acquired disposed) (traceContext setting scope)
      fun _ => True := by
  apply safe_bind (safe_poll worldFree_ledger)
  intro enabled _
  split
  · exact safe_bind (safe_require _) fun _ _ => safe_pure _ trivial
  · exact safe_pure _ trivial

lemma safe_collectResults {types : List CustomType} :
    ∀ (calls : List (Call × InvocationEntry)) (values : List Value),
      Safe ok (Ledger setting session acquired disposed)
        (collectResults (X := X) types calls values) fun _ => True
  | [], _ => safe_pure _ trivial
  | _ :: _, [] => safe_pure _ trivial
  | (call, entry) :: calls, v :: values => by
    apply safe_bind (safe_require _)
    intro _ _
    apply safe_bind (safe_require _)
    intro _ _
    apply safe_bind (safe_require _)
    intro actual _
    refine safe_bind (safe_modify ?_ fun _ => rfl) fun _ _ =>
      safe_bind (safe_collectResults calls values) fun _ _ => safe_pure _ trivial
    intro s h
    refine ⟨h.session, h.acquired, h.disposed, ?_, h.failure⟩
    intro r hr
    rcases mem_append.mp hr with hr | hr
    · exact h.sound r hr
    · rw [mem_singleton.mp hr]
      exact nofun

lemma safe_evaluateCall {call : Call} {entry : InvocationEntry} :
    Safe ok (Ledger setting session acquired disposed)
      (evaluateCall (X := X) setting scope call entry)
      fun expected => setting.evaluator.isSome = true → expected.isSome = true := by
  rw [evaluateCall]
  cases heva : setting.evaluator with
  | none => exact safe_pure none nofun
  | some e =>
    refine safe_bind (Q := fun _ => True) (safe_observe worldFree_ledger fun _ => ?_)
      fun value _ => safe_pure _ fun _ => rfl
    apply safe_bind safe_get
    intro before _
    apply safe_bind safe_behave
    intro value _
    apply safe_bind safe_get
    intro now _
    apply safe_bind (safe_require _)
    intro _ _
    exact safe_mono (safe_require _) fun _ _ => trivial

/-- One session at most is acquired, and it is the one to dispose of. -/
def Held (setting : Setting E U A σ) (s : State E U A σ) : Prop :=
  ∃ session : Option (Session E U A σ), Ledger setting session session.toList [] s

def Settled (setting : Setting E U A σ) (s : State E U A σ) : Prop :=
  ∃ session : Option (Session E U A σ), Ledger setting session session.toList session.toList s

variable {R : Error E → State E U A σ → Prop}

lemma triple_cleanUp :
    Triple (fun s => Held setting s ∧ (ok → Clean s.log)) (cleanUp setting scope)
      (fun cleanup s => Settled setting s ∧ (ok → cleanup = none → Clean s.log)) R := by
  suffices h : ∀ session : Option (Session E U A σ),
      Triple (fun s => Ledger setting session session.toList [] s ∧ (ok → Clean s.log))
        (cleanUp setting scope)
        (fun cleanup s => Settled setting s ∧ (ok → cleanup = none → Clean s.log)) R from
    triple_mono (triple_exists h) (fun s hs => hs.1.imp fun _ hled => ⟨hled, hs.2⟩)
      (fun _ _ hs => hs) fun _ _ hs => hs
  intro session
  apply triple_bind (fun before s => before.session = session ∧
    Ledger setting session session.toList [] s ∧ (ok → Clean s.log))
    (triple_get fun s hs => ⟨hs.1.session, hs⟩)
  intro before
  apply triple_fact
  intro hsess
  rw [hsess]
  cases session with
  | none => exact triple_pure none fun s hs => ⟨⟨none, hs.1⟩, fun hok _ => hs.2 hok⟩
  | some lease =>
    apply triple_bind (fun result s =>
      Ledger setting (some lease) [lease] [lease] s ∧ (ok → raised result = none → Clean s.log))
    · apply triple_attempt
      refine triple_observe (fun s w hs => ⟨worldFree_ledger s w hs.1, hs.2⟩)
        (fun _ s w hs => ⟨worldFree_ledger s w hs.1, hs.2⟩)
        (fun _ s w hs => ⟨worldFree_ledger s w hs.1, hs.2⟩) fun _ => ?_
      apply triple_bind (fun _ s =>
        Ledger setting (some lease) [lease] [lease] s ∧ (ok → Clean s.log))
      · refine triple_modify _ fun s hs => ?_
        obtain ⟨hled, hcl⟩ := hs
        refine ⟨⟨hled.session, ?_, ?_, hled.sound, hled.failure⟩,
          fun hok => clean_append (hcl hok) id⟩
        · rw [acquisitions, filterMap_append, ← acquisitions, hled.acquired]
          rfl
        · rw [disposals, filterMap_append, ← disposals, hled.disposed]
          rfl
      · intro _
        apply triple_command
        · intro s a s' hs heq
          split at heq
          · cases heq
            exact ⟨worldFree_ledger s _ hs.1, fun hok _ => hs.2 hok⟩
          · cases heq
        · intro s e s' hs heq
          split at heq
          · cases heq
          · cases heq
            exact ⟨hs.1.trouble (.failed .dispose) trivial _, fun _ h => nomatch h⟩
    · intro result
      exact triple_pure _ fun s hs => ⟨⟨some lease, hs.1⟩, hs.2⟩

/-- What a run leaves: its sessions are settled, and without a failure nothing went wrong. -/
structure Done (setting : Setting E U A σ) (s : State E U A σ) : Prop where
  disposed : disposals s.log = acquisitions s.log
  acquired : (acquisitions s.log).length ≤ 1
  sound : ∀ r ∈ s.results, r.Sound setting
  clean : s.failure = none → Clean s.log

lemma Settled.done {s : State E U A σ} (h : Settled setting s) (failure : Option (Failure E))
    (hcl : failure = none → Clean s.log) : Done setting { s with failure } := by
  obtain ⟨session, hled⟩ := h
  refine ⟨hled.disposed.trans hled.acquired.symm, ?_, hled.sound, hcl⟩
  rw [hled.acquired]
  cases session <;> simp

lemma triple_conclude {cause cleanup : Option (Error E)} :
    Triple (fun s => Settled setting s ∧ (cause = none → cleanup = none → Clean s.log))
      (conclude cause cleanup : Run E U A σ Unit) (fun _ => Done setting)
      fun _ => Done setting := by
  cases cause with
  | some e =>
    exact triple_bind _ (triple_modify _ fun s hs => hs.1.done (some _) nofun)
      fun _ => triple_throw _ fun _ hs => hs
  | none =>
    cases cleanup with
    | some e =>
      exact triple_bind _ (triple_modify _ fun s hs => hs.1.done (some _) nofun)
        fun _ => triple_throw _ fun _ hs => hs
    | none => exact triple_pure _ fun s hs => hs.1.done s.failure fun _ => hs.2 rfl rfl

variable [DecidableEq A] {lib : IonLibrary X} {tools : Toolchain E U A} {frozen : Frozen U A}

lemma safe_check :
    Safe ok (Ledger setting session acquired disposed) (check lib tools setting frozen)
      fun _ => True := by
  have hstp : Safe ok (Ledger setting session acquired disposed) (stopped setting)
      fun _ => True := by
    rw [stopped]
    split
    · exact safe_pure _ trivial
    · exact safe_poll worldFree_ledger
  apply safe_bind hstp
  intro stop _
  cases stop with
  | true =>
    have hrec : Triple
        (fun s => Ledger setting session acquired disposed s ∧ (ok → Clean s.log))
        (record .cancelled : Run E U A σ Unit)
        (fun _ => Ledger setting session acquired disposed)
        (fun _ => Ledger setting session acquired disposed) :=
      triple_modify _ fun s hs => hs.1.trouble .cancelled trivial s.world
    exact triple_bind _ hrec fun _ => triple_throw _ fun _ hs => hs
  | false =>
    apply safe_bind (safe_get)
    intro s _
    apply safe_bind (safe_ofResult _)
    intro changed _
    split
    · exact safe_throw _
    · exact safe_pure _ trivial

lemma safe_compareCall {expected : Option Value} {actual : Value} :
    Safe ok (Ledger setting session acquired disposed)
      (compareCall lib tools setting frozen scope expected actual)
      fun mismatch => mismatch = none → expected.isSome = true → ∃ v, expected = some v ∧
        v.compare setting.tolerates setting.comparison actual = .ok true := by
  apply safe_observe worldFree_ledger
  intro _
  apply safe_bind safe_check
  intro _ _
  cases expected with
  | none => exact safe_pure none fun _ h => absurd h (by decide)
  | some v =>
    apply safe_mono (safe_require _)
    rintro mismatch h rfl -
    exact ⟨v, rfl, (mismatchPath_eq_none _ _).mp h⟩

lemma safe_compareCalls :
    ∀ (i : Nat) (calls : List (Call × InvocationEntry)) (values : List Value),
      Safe ok (Ledger setting session acquired disposed)
        (compareCalls lib tools setting frozen scope i calls values) fun _ => True
  | _, [], _ => safe_pure _ trivial
  | _, _ :: _, [] => safe_pure _ trivial
  | i, (call, entry) :: calls, actual :: values => by
    apply safe_bind safe_check
    intro _ _
    apply safe_bind (safe_setPhase _)
    intro _ _
    apply safe_bind safe_evaluateCall
    intro expected hexp
    apply safe_bind (safe_setPhase _)
    intro _ _
    apply safe_bind safe_compareCall
    intro mismatch hmis
    refine safe_bind (safe_modify ?_ fun _ => rfl) fun _ _ => safe_compareCalls (i + 1) calls values
    intro s h
    refine ⟨h.session, h.acquired, h.disposed, ?_, h.failure⟩
    intro r hr
    rcases mem_or_eq_of_mem_set hr with hr | rfl
    · exact h.sound r hr
    · intro hmat
      have hno : mismatch = none := Option.isNone_iff_eq_none.mp hmat
      exact ⟨hno, fun heva => hmis hno (hexp heva)⟩

lemma safe_useSession {lease : Session E U A σ} :
    Safe ok (Ledger setting session acquired disposed)
      (useSession lib tools setting frozen scope lease) fun _ => True := by
  have hses : ∀ (f : State E U A σ → State E U A σ),
      (∀ s, (f s).session = s.session ∧ (f s).log = s.log ∧ (f s).results = s.results ∧
        (f s).failure = s.failure) →
      Safe ok (Ledger setting session acquired disposed) (modify f : Run E U A σ PUnit)
        fun _ => True := by
    intro f hf
    refine safe_modify (fun s h => ?_) fun s => (hf s).2.1
    obtain ⟨hsess, hlog, hress, hfai⟩ := hf s
    exact ⟨hsess.trans h.session, hlog ▸ h.acquired, hlog ▸ h.disposed,
      hress ▸ h.sound, hfai.trans h.failure⟩
  rw [useSession]
  split
  · exact safe_throw _
  apply safe_bind (safe_setPhase _)
  intro _ _
  refine safe_bind (Q := fun _ => True) (safe_observe worldFree_ledger fun child => ?_) ?_
  · exact safe_bind safe_check fun _ _ => safe_bind safe_traceContext fun _ _ =>
      safe_bind safe_get fun _ _ => safe_behave
  intro evidence _
  refine safe_bind (hses _ ?_) fun _ _ => ?_
  · exact fun s => ⟨rfl, rfl, rfl, rfl⟩
  apply safe_bind (safe_setPhase _)
  intro _ _
  refine safe_bind (Q := fun _ => True) (safe_observe worldFree_ledger fun child => ?_) ?_
  · exact safe_bind safe_check fun _ _ => safe_bind safe_traceContext fun _ _ =>
      safe_bind safe_get fun _ _ => safe_behave
  intro invocation _
  apply safe_bind safe_check
  intro _ _
  refine safe_bind (hses _ ?_) fun _ _ => ?_
  · exact fun s => ⟨rfl, rfl, rfl, rfl⟩
  apply safe_bind safe_get
  intro s _
  dsimp only
  split
  · exact safe_throw _
  apply safe_bind (safe_collectResults _ _)
  intro actual _
  exact safe_bind (safe_compareCalls _ _ _) fun _ _ => safe_check

lemma triple_steps :
    Triple (fun s => Ledger setting none [] [] s ∧ (ok → Clean s.log))
      (steps lib tools setting frozen scope)
      (fun _ s => Held setting s ∧ (ok → Clean s.log)) fun _ => Held setting := by
  have hno : ∀ s, Ledger setting none [] [] s → Held setting s := fun s h => ⟨none, h⟩
  apply triple_bind (fun _ s => Ledger setting none [] [] s ∧ (ok → Clean s.log))
    (triple_mono safe_check (fun _ h => h) (fun _ _ h => h.1) fun _ s h => hno s h)
  intro _
  apply triple_bind
    (fun lease s => Ledger setting (some lease) [lease] [] s ∧ (ok → Clean s.log))
  · rw [acquire]
    split
    · apply triple_bind _ (triple_mono safe_behave (fun _ h => h) (fun _ _ h => h.1)
        fun _ s h => hno s h)
      intro lease
      refine triple_bind _ (triple_modify _ fun s hs => ?_) fun _ => triple_pure lease fun _ hs => hs
      obtain ⟨hled, hcl⟩ := hs
      refine ⟨⟨rfl, ?_, ?_, hled.sound, hled.failure⟩, fun hok => clean_append (hcl hok) id⟩
      · rw [acquisitions, filterMap_append, ← acquisitions, hled.acquired]
        rfl
      · rw [disposals, filterMap_append, ← disposals, hled.disposed]
        rfl
    · exact triple_throw _ fun s hs => hno s hs.1
  · intro lease
    exact triple_mono safe_useSession (fun _ h => h) (fun _ _ h => ⟨⟨some lease, h.1.1⟩, h.1.2⟩)
      fun _ _ h => ⟨some lease, h⟩

lemma triple_recheck {result : Except (Error E) Unit} {cleanup : Option (Error E)} :
    Triple (fun s => Settled setting s ∧ (raised result = none → cleanup = none → Clean s.log))
      (recheck lib tools setting frozen result)
      (fun result s => Settled setting s ∧
        (raised result = none → cleanup = none → Clean s.log)) R := by
  cases result with
  | error e => exact triple_pure _ fun s hs => hs
  | ok u =>
    apply triple_attempt
    have hchk : Triple
        (fun s => ∃ session : Option (Session E U A σ),
          Ledger setting session session.toList session.toList s ∧ (cleanup = none → Clean s.log))
        (check lib tools setting frozen)
        (fun _ s => Settled setting s ∧ (cleanup = none → Clean s.log))
        fun _ => Settled setting :=
      triple_exists fun session => triple_mono safe_check (fun _ hs => hs)
        (fun _ _ hs => ⟨⟨session, hs.1.1⟩, hs.1.2⟩) fun _ _ hs => ⟨session, hs⟩
    exact triple_mono hchk (fun s hs => hs.1.imp fun _ hled => ⟨hled, hs.2 rfl⟩)
      (fun _ _ hs => ⟨hs.1, fun _ => hs.2⟩) fun _ _ hs => ⟨hs, nofun⟩

lemma triple_execute :
    Triple (fun s => Ledger setting none [] [] s ∧ Clean s.log)
      (execute lib tools setting frozen scope) (fun _ => Done setting) fun _ => Done setting := by
  apply triple_bind (fun result s => Held setting s ∧ (raised result = none → Clean s.log))
  · apply triple_attempt
    exact triple_mono triple_steps (fun _ h => ⟨h.1, fun _ => h.2⟩)
      (fun _ _ h => ⟨h.1, fun _ => h.2 trivial⟩) fun _ _ h => ⟨h, fun hno => nomatch hno⟩
  intro result
  apply triple_bind _ triple_cleanUp
  intro cleanup
  exact triple_bind _ triple_recheck fun result => triple_conclude

end Ledgers

section Reports

variable [DecidableEq A] (lib : IonLibrary X) (tools : Toolchain E U A)
  (setting : Setting E U A σ) (frozen : Frozen U A)

lemma finalState_done (outside : σ) :
    Done setting (finalState lib tools setting frozen outside) := by
  have htri : Triple (fun s => Ledger setting none [] [] s ∧ Clean s.log)
      (observe setting .execute none ⟨setting.observer.runId, "", "", setting.observer.traceId⟩
        (execute lib tools setting frozen)) (fun _ => Done setting) fun _ => Done setting := by
    have hdo : WorldFree (Done setting) := fun _ _ h => ⟨h.disposed, h.acquired, h.sound, h.clean⟩
    exact triple_observe (fun s w hs => ⟨worldFree_ledger s w hs.1, hs.2⟩) (fun _ => hdo)
      (fun _ => hdo) fun _ => triple_execute
  have hfi := htri { world := ⟨frozen.plan, outside⟩ }
    ⟨⟨rfl, rfl, rfl, by simp, rfl⟩, by simp [Clean]⟩
  rw [finalState]
  split at hfi
  · rename_i heq
    rw [heq]
    exact hfi
  · rename_i heq
    rw [heq]
    exact hfi

lemma matched_of_succeeded {results : List CallResult} {failure : Option (Failure E)}
    {id : String} (h : terminalStatus results failure id = "succeeded") :
    ∃ r ∈ results, r.id = id ∧ r.matched = true := by
  have hunf : (if failure.any Failure.cancelled then "cancelled" else "failed") ≠
      "succeeded" := by
    split <;> simp
  rw [terminalStatus] at h
  split at h
  · rename_i r hr
    refine ⟨r, mem_of_find?_eq_some hr, by simpa using List.find?_some hr, ?_⟩
    by_contra hmat
    rw [if_neg hmat] at h
    split at h
    · simp at h
    · exact hunf h
  · exact absurd h hunf

/-- What a report says about the calls of a suite, and about the log of its run. -/
structure Reports (setting : Setting E U A σ) (suite : Suite) (report : Report E)
    (log : List (Event E U A σ)) : Prop where
  terminals : report.terminals.map Terminal.id = suite.calls.map Call.id
  distinct : (suite.calls.map Call.id).Nodup
  clean : report.successful = true → report.failure = none ∧ Clean log
  matched : report.successful = true → ∀ call ∈ suite.calls, ∃ r ∈ report.calls,
    r.id = call.id ∧ r.matched = true ∧ r.Sound setting

lemma reportOf_reports (outside : σ) :
    Reports setting frozen.plan.suite
      (reportOf setting frozen (finalState lib tools setting frozen outside))
      (finalState lib tools setting frozen outside).log := by
  have hdo := finalState_done lib tools setting frozen outside
  refine ⟨?_, frozen.distinct, fun h => ?_, fun h => ?_⟩
  · rw [reportOf, map_map]
    exact map_id _
  · simp only [Report.successful, Bool.and_eq_true, Option.isNone_iff_eq_none] at h
    exact ⟨h.1.1.1.1, hdo.clean h.1.1.1.1⟩
  · intro call hca
    simp only [Report.successful, Bool.and_eq_true, all_eq_true] at h
    have hsta := h.1.1.2 _ (mem_map_of_mem (mem_map_of_mem hca))
    obtain ⟨r, hr, hid, hmat⟩ := matched_of_succeeded (beq_iff_eq.mp hsta)
    exact ⟨r, hr, hid, hmat, hdo.sound r hr⟩

end Reports

def Suite.frozen (lib : IonLibrary X) (suite : Suite) : Except String Suite := do
  let bytes ← suite.encode lib "ion-binary"
  Suite.decode lib bytes "ion-binary"

lemma suiteOf_calls {lib : IonLibrary X} {read : Ion X → Except String (List UInt8)}
    {call : Ion X → Except String Call} {suite : Suite} {calls : List (Ion X)}
    {values : List Call} {extension : Option (Ion X)} (hcls : calls.mapM call = .ok values)
    (h : suiteOf lib read call (suiteRecord calls extension) = .ok suite) :
    suite.calls = values := by
  rw [suiteOf, fields_suiteRecord] at h
  simp only [cons_append, required_cons, if_true, bind_eq, string_string,
    refuse, ne_eq, not_true_eq_false] at h
  simp only [String.reduceEq, if_false, list_list, bind_eq, hcls] at h
  obtain ⟨bytes, -, h⟩ := bind_ok h
  obtain ⟨_, -, h⟩ := bind_ok h
  cases h
  rfl

lemma Suite.frozen_calls {lib : IonLibrary X} {suite back : Suite}
    (hlib : lib.Faithful suite.toJson) (h : suite.frozen lib = .ok back) :
    back.calls = suite.calls := by
  obtain ⟨bytes, henc, hdec⟩ := bind_ok h
  obtain ⟨value, hval, hwr⟩ := bind_ok henc
  obtain ⟨hvd, extension, -, rfl⟩ := suite_toIon hval
  obtain ⟨_, -, hdec⟩ := bind_ok hdec
  obtain ⟨read, hrd, hfrom⟩ := bind_ok hdec
  obtain ⟨hok, hdeep⟩ := hlib.binary _ _ hwr
  have hsm : read = suiteRecord (suite.calls.map Call.toIon) extension := by
    by_cases hnes : (suiteRecord (suite.calls.map Call.toIon) extension).nesting ≤ ionBudget
    · rw [hok hnes] at hrd
      exact (Except.ok.inj hrd).symm
    · obtain ⟨code, her⟩ := hdeep (not_le.mp hnes)
      rw [her] at hrd
      cases hrd
  rw [hsm] at hfrom
  exact suiteOf_calls (calls_read_ion hvd) hfrom

section Freeze

variable [DecidableEq A] {lib : IonLibrary X} {tools : Toolchain E U A}

lemma freeze_ok {given : Plan U A} {targets : List String} {comparison : ComparisonPolicy}
    {frozen : Frozen U A} (h : freeze lib tools given targets comparison = .ok frozen) :
    given.suite.frozen lib = .ok frozen.plan.suite := by
  obtain ⟨_, -, h⟩ := bind_ok h
  obtain ⟨_, -, h⟩ := bind_ok h
  obtain ⟨bytes, henc, h⟩ := bind_ok h
  obtain ⟨suite, hdec, h⟩ := bind_ok h
  obtain ⟨_, -, h⟩ := bind_ok h
  obtain ⟨source, -, h⟩ := bind_ok h
  obtain ⟨unit, -, h⟩ := bind_ok h
  rw [Suite.frozen, invalidly_ok henc, bind_eq, invalidly_ok hdec]
  split at h
  · cases h
  · rename_i p hplan
    obtain ⟨_, -, h⟩ := bind_ok h
    obtain ⟨identity, -, h⟩ := bind_ok h
    cases h
    exact congrArg Except.ok (plan_ok hplan).2.1.symm

end Freeze

/-- Every run disposes of what it acquired, once, and its report has one terminal for each
call; a successful report means that nothing failed and that every call matched. -/
theorem runReportInner_spec [DecidableEq A] (lib : IonLibrary X) (tools : Toolchain E U A)
    (setting : Setting E U A σ) (given : Plan U A) (outside : σ) :
    let run := runReportInner lib tools setting given outside
    (disposals run.2 = acquisitions run.2 ∧ (acquisitions run.2).length ≤ 1) ∧
      ∀ report, run.1 = .ok report → ∃ suite, given.suite.frozen lib = .ok suite ∧
        (lib.Faithful given.suite.toJson → suite.calls = given.suite.calls) ∧
          Reports setting suite report run.2 := by
  intro run
  rcases hfre : freeze lib tools given (setting.access.targets given.target)
    setting.comparison with e | frozen
  · have hrun : run = (.error e, []) := by
      simp only [run, runReportInner, hfre]
    rw [hrun]
    exact ⟨⟨rfl, Nat.zero_le 1⟩, fun report h => nomatch h⟩
  · have hrun : run = (.ok (reportOf setting frozen (finalState lib tools setting frozen outside)),
        (finalState lib tools setting frozen outside).log) := by
      simp only [run, runReportInner, hfre]
    have hdo := finalState_done lib tools setting frozen outside
    have hsuite := freeze_ok hfre
    rw [hrun]
    refine ⟨⟨hdo.disposed, hdo.acquired⟩, ?_⟩
    rintro _ ⟨⟩
    exact ⟨_, hsuite, fun hlib => Suite.frozen_calls hlib hsuite,
      reportOf_reports lib tools setting frozen outside⟩

lemma TraceContext.parse_ok {text : String} {t : TraceContext} (h : parse text = .ok t) :
    text.toList.splitOn '-' =
      [['0', '0'], t.traceId.toList, t.parentId.toList, t.flags.toList] := by
  rw [parse] at h
  split at h
  · rename_i hparts
    split_ifs at h with hrefused
    cases h
    push Not at hrefused
    simpa [hrefused.1] using hparts
  · cases h

lemma TraceContext.splitOn_header {trace parent flags a b c : List Char}
    (h : (['0', '0'] ++ '-' :: (trace ++ '-' :: (parent ++ '-' :: flags))).splitOn '-' =
      [['0', '0'], a, b, c]) : trace = a ∧ parent = b ∧ flags = c := by
  obtain ⟨x, xs, hx⟩ := exists_cons_of_ne_nil (splitOn_ne_nil '-' trace)
  obtain ⟨y, ys, hy⟩ := exists_cons_of_ne_nil (splitOn_ne_nil '-' parent)
  obtain ⟨z, zs, hz⟩ := exists_cons_of_ne_nil (splitOn_ne_nil '-' flags)
  have h00 : ['0', '0'].splitOn '-' = [['0', '0']] := rfl
  simp only [splitOn_append_cons_self, hx, hy, hz, h00] at h
  have hlen := congrArg length h
  simp only [length_append, length_cons, length_nil] at hlen
  obtain ⟨rfl, rfl, rfl⟩ : xs = [] ∧ ys = [] ∧ zs = [] := by
    simp only [← length_eq_zero_iff]
    omega
  simp only [cons_append, nil_append, List.cons.injEq, true_and, and_true] at h
  rwa [splitOn_one hx, splitOn_one hy, splitOn_one hz]

/-- A trace context is read from its own header and from no other text. -/
theorem TraceContext.parse_iff_header {text : String} {t : TraceContext} :
    parse text = .ok t ↔ t.header = .ok text := by
  have hlist : ("00-" ++ t.traceId ++ "-" ++ t.parentId ++ "-" ++ t.flags).toList =
      ['0', '0'] ++ '-' :: (t.traceId.toList ++ '-' ::
        (t.parentId.toList ++ '-' :: t.flags.toList)) := by
    simp
  constructor
  · intro h
    have htext : "00-" ++ t.traceId ++ "-" ++ t.parentId ++ "-" ++ t.flags = text := by
      apply String.toList_injective
      rw [hlist, ← join_splitOn '-' text.toList, parse_ok h]
      simp
    rw [header, htext, h]
    rfl
  · intro h
    obtain ⟨read, hread, heq⟩ := bind_ok h
    cases heq
    have hparts := parse_ok hread
    rw [hlist] at hparts
    obtain ⟨htrace, hparent, hflags⟩ := splitOn_header hparts
    cases t
    cases read
    cases String.toList_injective htrace
    cases String.toList_injective hparent
    cases String.toList_injective hflags
    exact hread

end Morphir.Execution
