import Morphir.Mep.GuestSession

/-!
# What a guest session keeps

The steps of a session, and from them what holds of every message of every run.
-/

namespace Morphir.Mep.Guest

open Recording List Session Option
open Host (Json)

def Request (message id : Json) (operation : String) : Prop :=
  ∃ fields, envelope message = some (fields, operation) ∧
    OrdMap.get? fields "id" = some id ∧ isId id = true

def Notification (message : Json) (operation : String) : Prop :=
  ∃ fields, envelope message = some (fields, operation) ∧ OrdMap.get? fields "id" = none

/-- The response to a request: its id with a result or with an error. -/
inductive Answers (id : Json) : Json → Prop
  | result (value : Json) : Answers id (result id value)
  | error (code : Int) (message : String) : Answers id (rpcError id code message)

def Succeeded (answer : Option Json) : Prop := ∃ id value, answer = some (result id value)

def Failed (answer : Option Json) : Prop :=
  ∃ id code message, answer = some (rpcError id code message)

variable {operation operation' : String}

lemma Request.id_eq {message id id' : Json} (h : Request message id operation)
    (h' : Request message id' operation') : id = id' ∧ operation = operation' := by
  obtain ⟨fields, hfs, hid, -⟩ := h
  obtain ⟨fields', hfs', hid', -⟩ := h'
  obtain ⟨rfl, rfl⟩ := Prod.mk.inj (some.inj (hfs.symm.trans hfs'))
  exact ⟨some.inj (hid.symm.trans hid'), rfl⟩

lemma Notification.not_request {message id : Json} (h : Notification message operation) :
    ¬ Request message id operation' := by
  obtain ⟨fields, hfs, hno⟩ := h
  rintro ⟨fields', hfs', hid, -⟩
  obtain ⟨rfl, rfl⟩ := Prod.mk.inj (some.inj (hfs.symm.trans hfs'))
  cases hno.symm.trans hid

lemma Notification.operation_eq {message : Json} (h : Notification message operation)
    (h' : Notification message operation') : operation = operation' := by
  obtain ⟨fields, hfs, -⟩ := h
  obtain ⟨fields', hfs', -⟩ := h'
  exact (Prod.mk.inj (some.inj (hfs.symm.trans hfs'))).2

lemma result_ne_rpcError (id id' value : Json) (code : Int) (message : String) :
    result id value ≠ rpcError id' code message := by
  simp [result, rpcError]

lemma Failed.not_succeeded {answer : Option Json} (h : Failed answer) : ¬ Succeeded answer := by
  rintro ⟨id, value, rfl⟩
  obtain ⟨id', code, message, h⟩ := h
  exact result_ne_rpcError _ _ _ _ _ (some.inj h)

section Work

variable {ι κ : Type} (work : Work ι κ)

lemma generate_answers (id params : Json) : Answers id (generate work id params) := by
  unfold generate
  split
  · apply Answers.error
  dsimp only
  split
  · split
    · apply Answers.error
    · split
      · apply Answers.error
      · split
        · apply Answers.result
        · apply Answers.result
        · split
          · apply Answers.result
          · apply Answers.result
  · apply Answers.error

lemma framed_answers {id response instead : Json} (h : Answers id response)
    (h' : Answers id instead) : Answers id (framed response instead) := by
  unfold framed
  split
  · exact h'
  · exact h

lemma generateModel_answers (self : Session) (id params : Json) :
    Answers id (self.generateModel work id params) := by
  unfold generateModel
  split
  · apply Answers.error
  · split
    · apply Answers.error
    · split
      · apply Answers.error
      · apply Answers.error
      · apply Answers.error
      · split
        · apply Answers.result
        · apply framed_answers
          · apply Answers.result
          · apply Answers.result

lemma compilationResult_answers (id output : Json) (transport : ModelTransport)
    (frontend : Frontend) (source : κ) (compilation : Compilation ι) :
    Answers id (compilationResult work id output transport frontend source compilation) := by
  unfold compilationResult
  split
  · apply framed_answers
    · apply Answers.result
    · apply Answers.result
  · split
    · apply Answers.result
    · apply Answers.result
    · apply framed_answers
      · apply Answers.result
      · apply Answers.result

lemma compileModel_answers (self : Session) (id params : Json) :
    Answers id (self.compileModel work id params) := by
  unfold compileModel
  split
  · dsimp only
    split
    · apply Answers.error
    · split
      · apply Answers.error
      · split
        · apply Answers.error
        · apply Answers.error
        · split
          · apply Answers.result
          · split
            · apply Answers.result
            · split
              · apply Answers.result
              · apply compilationResult_answers
  · apply Answers.error

inductive Step (self : Session) (message : Json) : Option Json → Session → Prop
  | malformed (code : Int) (text : String)
      (h : ∀ id operation, ¬ Request message id operation)
      (hnone : ∀ operation, ¬ Notification message operation) :
      Step self message (some (rpcError .null code text)) self
  | notified (operation : String) (h : Notification message operation)
      (hexit : operation ≠ "morphir.exit") : Step self message none self
  | exited (h : Notification message "morphir.exit") :
      Step self message none { self with lifecycle := .exited }
  | refused {id : Json} {operation : String} (code : Int) (text : String)
      (h : Request message id operation) :
      Step self message (some (rpcError id code text)) self
  | served {id : Json} {operation : String} (value : Json) (h : Request message id operation)
      (hallowed : self.lifecycle.refusal operation = none)
      (hother : operation ≠ "morphir.initialize" ∧ operation ≠ "morphir.shutdown") :
      Step self message (some (result id value)) self
  | initialized {id : Json} (value : Json) (models : Option ModelTransport)
      (h : Request message id "morphir.initialize")
      (hbefore : self.lifecycle = .beforeInitialize) :
      Step self message (some (result id value)) { self with models, lifecycle := .ready }
  | shutDown {id : Json} (value : Json) (h : Request message id "morphir.shutdown")
      (hready : self.lifecycle = .ready) :
      Step self message (some (result id value)) { self with lifecycle := .shutdown }

variable {operation : String} {self : Session}

variable {message : Json}

lemma Answers.step {id response : Json} (h : Answers id response)
    (hreq : Request message id operation) (halw : self.lifecycle.refusal operation = none)
    (ho : operation ≠ "morphir.initialize" ∧ operation ≠ "morphir.shutdown") :
    Step self message (some response) self := by
  cases h with
  | result value => exact .served value hreq halw ho
  | error code text => exact .refused code text hreq

lemma lifecycle_of_allowed {lifecycle : Lifecycle} (h : lifecycle.refusal operation = none) :
    (lifecycle = .beforeInitialize ∧
      operation ∈ ["morphir.initialize", "morphir.extension.describe", "morphir.ping"]) ∨
    (lifecycle = .ready ∧ operation ≠ "morphir.initialize") := by
  cases lifecycle with
  | beforeInitialize =>
    left
    unfold Lifecycle.refusal at h
    dsimp only at h
    split at h
    · cases h
    · next hmem => exact ⟨rfl, not_not.mp hmem⟩
  | ready =>
    right
    refine ⟨rfl, ?_⟩
    rintro rfl
    cases h
  | shutdown | exited => cases h

lemma acceptOffer_step {id params : Json} (hreq : Request message id "morphir.initialize")
    (hpre : self.lifecycle = .beforeInitialize) :
    Step self message (some (self.acceptOffer id params).1) (self.acceptOffer id params).2 := by
  unfold acceptOffer
  dsimp only
  split_ifs
  · cases selectModels (field params "modelTransport") self.frontend.isSome with
    | error error => exact .refused _ _ hreq
    | ok models => exact .initialized _ _ hreq hpre
  · exact .initialized _ _ hreq hpre
  · exact .refused _ _ hreq

lemma perform_step {id params : Json} (hreq : Request message id operation)
    (halw : self.lifecycle.refusal operation = none) :
    Step self message (some (self.perform work operation id params).1)
      (self.perform work operation id params).2 := by
  have ho {value : Json} (hne : operation ≠ "morphir.initialize" ∧
      operation ≠ "morphir.shutdown") : Step self message (some (result id value)) self :=
    .served value hreq halw hne
  unfold perform
  split
  · next hdes =>
      subst hdes
      split
      · exact .refused _ _ hreq
      · exact ho (by decide)
  split
  · next hinit =>
      subst hinit
      split
      · exact .refused _ _ hreq
      · rcases lifecycle_of_allowed halw with ⟨hpre, -⟩ | ⟨-, hne⟩
        · exact acceptOffer_step hreq hpre
        · exact absurd rfl hne
  next hinit =>
  split
  · next hping => exact ho (hping ▸ by decide)
  split
  · next hinfo => exact ho (hinfo ▸ by decide)
  split
  · next hcap => exact ho (hcap ▸ by decide)
  split
  · next hshu =>
      subst hshu
      rcases lifecycle_of_allowed halw with ⟨-, hmem⟩ | ⟨hrd, -⟩
      · exact absurd hmem (by decide)
      · exact .shutDown _ hreq hrd
  next hshu =>
  split
  · exact (generate_answers work id params).step hreq halw ⟨hinit, hshu⟩
  split
  · exact (generateModel_answers work self id params).step hreq halw
      ⟨hinit, hshu⟩
  split
  · exact (compileModel_answers work self id params).step hreq halw
      ⟨hinit, hshu⟩
  · exact .refused _ _ hreq

lemma handle_step (self : Session) (message : Json) :
    Step self message (self.handle work message).1 (self.handle work message).2 := by
  unfold handle
  split
  · next hno =>
      apply Step.malformed
      · rintro id operation ⟨fields, hfs, -⟩
        cases hno.symm.trans hfs
      · rintro operation ⟨fields, hfs, -⟩
        cases hno.symm.trans hfs
  · next fields operation henv =>
      split
      · next hid =>
          split
          · next hexit => exact .exited ⟨fields, hexit ▸ henv, hid⟩
          · next hexit => exact .notified operation ⟨fields, henv, hid⟩ hexit
      · next id hid =>
          split
          · next hinv =>
              apply Step.malformed
              · rintro id' operation' ⟨fields', hfs', hid', hvd⟩
                obtain ⟨rfl, rfl⟩ := Prod.mk.inj (some.inj (henv.symm.trans hfs'))
                obtain rfl := some.inj (hid.symm.trans hid')
                exact hinv hvd
              · rintro operation' ⟨fields', hfs', hno⟩
                obtain ⟨rfl, rfl⟩ := Prod.mk.inj (some.inj (henv.symm.trans hfs'))
                cases hid.symm.trans hno
          · next hvd =>
              have hreq : Request message id operation := ⟨fields, henv, hid, not_not.mp hvd⟩
              split
              · exact .refused _ _ hreq
              · split
                · exact .refused _ _ hreq
                · next halw =>
                    split
                    · exact perform_step work hreq halw
                    · exact .refused _ _ hreq

end Work

def Lifecycle.rank : Lifecycle → Nat
  | .beforeInitialize => 0
  | .ready => 1
  | .shutdown => 2
  | .exited => 3

lemma Lifecycle.rank_le_exited (lifecycle : Lifecycle) :
    lifecycle.rank ≤ Lifecycle.exited.rank := by
  cases lifecycle <;> decide

section Runs

variable {ι κ : Type}

def step (self : Session) (message : Work ι κ × Json) : Option Json × Session :=
  self.handle message.1 message.2

abbrev Exchange (ι κ : Type) := Entry Session (Work ι κ × Json) (Option Json)

namespace Exchange

def message (e : Exchange ι κ) : Json := e.action.2

def Does (e : Exchange ι κ) (operation : String) : Prop :=
  (∃ id, Request e.message id operation) ∧ Succeeded e.answer

def Exits (e : Exchange ι κ) : Prop := Notification e.message "morphir.exit"

end Exchange

/-- The lifecycles that a session goes through, in the order of the messages. -/
def lifecycles (history : List (Exchange ι κ)) : List Lifecycle :=
  history.flatMap fun e => [e.before.lifecycle, e.after.lifecycle]

/-- What holds of the exchanges of a session, whatever messages it gets. -/
structure Lawful (history : List (Exchange ι κ)) : Prop where
  ordered : (lifecycles history).Pairwise fun a b => a.rank ≤ b.rank
  moves : ∀ e ∈ history, e.after ≠ e.before →
    (e.Does "morphir.initialize" ∧ e.before.lifecycle = .beforeInitialize ∧
      e.after.lifecycle = .ready) ∨
    (e.Does "morphir.shutdown" ∧ e.before.lifecycle = .ready ∧ e.after.lifecycle = .shutdown) ∨
    (e.Exits ∧ e.after.lifecycle = .exited)
  before : ∀ past e rest, history = past ++ e :: rest → ∀ operation, e.Does operation →
    operation ∉ ["morphir.initialize", "morphir.extension.describe", "morphir.ping"] →
    ∃ f ∈ past, f.Does "morphir.initialize"
  after : ∀ past e rest, history = past ++ e :: rest → Succeeded e.answer →
    ∀ f ∈ past, ¬ f.Does "morphir.shutdown" ∧ ¬ f.Exits
  once : ∀ past e rest, history = past ++ e :: rest → e.Does "morphir.initialize" →
    ∀ f ∈ past, ¬ f.Does "morphir.initialize"
  failed : ∀ e ∈ history, Failed e.answer → e.after = e.before
  answered : ∀ e ∈ history, ∀ id operation, Request e.message id operation →
    ∃ response, e.answer = some response ∧ Answers id response
  silent : ∀ e ∈ history, ∀ operation, Notification e.message operation → e.answer = none

variable {self next : Session} {message : Json} {answer : Option Json}

section

variable (h : Step self message answer next)

include h

lemma Step.rank_le :
    self.lifecycle.rank ≤ next.lifecycle.rank := by
  cases h with
  | exited => exact self.lifecycle.rank_le_exited
  | initialized _ _ _ hpre =>
    rw [hpre]
    exact Nat.zero_le _
  | shutDown _ _ hrd =>
    rw [hrd]
    exact Nat.le_succ _
  | malformed | notified | refused | served => exact Nat.le_refl _

lemma Step.succeeded (hans : Succeeded answer) :
    ∃ id operation, Request message id operation ∧ self.lifecycle.refusal operation = none ∧
      (operation = "morphir.initialize" ∧ next.lifecycle = .ready ∨
        operation = "morphir.shutdown" ∧ next.lifecycle = .shutdown ∨
        operation ≠ "morphir.initialize" ∧ operation ≠ "morphir.shutdown" ∧ next = self) := by
  have hfai {id : Json} {code : Int} {text : String}
      (h : Succeeded (some (rpcError id code text))) : False :=
    Failed.not_succeeded ⟨id, code, text, rfl⟩ h
  cases h with
  | malformed | refused => exact (hfai hans).elim
  | notified | exited =>
    obtain ⟨id, value, heq⟩ := hans
    cases heq
  | served value hreq halw ho => exact ⟨_, _, hreq, halw, .inr (.inr ⟨ho.1, ho.2, rfl⟩)⟩
  | initialized value models hreq hpre => exact ⟨_, _, hreq, by rw [hpre]; decide, .inl ⟨rfl, rfl⟩⟩
  | shutDown value hreq hrd => exact ⟨_, _, hreq, by rw [hrd]; decide, .inr (.inl ⟨rfl, rfl⟩)⟩

lemma Step.failed (hans : Failed answer) : next = self := by
  cases h with
  | malformed | notified | refused | served => rfl
  | exited =>
    obtain ⟨id, code, text, heq⟩ := hans
    cases heq
  | initialized | shutDown => exact absurd ⟨_, _, rfl⟩ hans.not_succeeded

end

variable {operation : String}

section

variable (h : Step self message answer next)

include h

lemma Step.answered {id : Json} (hreq : Request message id operation) :
    ∃ response, answer = some response ∧ Answers id response := by
  cases h with
  | malformed code text hno => exact absurd hreq (hno id operation)
  | notified operation' hnot | exited hnot => exact absurd hreq hnot.not_request
  | refused code text h =>
    obtain ⟨rfl, -⟩ := h.id_eq hreq
    exact ⟨_, rfl, .error code text⟩
  | served value h | initialized value models h | shutDown value h =>
    obtain ⟨rfl, -⟩ := h.id_eq hreq
    exact ⟨_, rfl, .result value⟩

lemma Step.silent (hnotified : Notification message operation) : answer = none := by
  cases h with
  | malformed code text hno hnot => exact absurd hnotified (hnot operation)
  | notified | exited => rfl
  | refused code text h | served value h | initialized value models h | shutDown value h =>
    exact absurd h hnotified.not_request

lemma Step.exits (hexits : Notification message "morphir.exit") : next.lifecycle = .exited := by
  cases h with
  | malformed code text hno hnot => exact absurd hexits (hnot _)
  | notified operation hnotified hne => exact absurd (hnotified.operation_eq hexits) hne
  | exited => rfl
  | refused code text h | served value h | initialized value models h | shutDown value h =>
    exact absurd h hexits.not_request

end

variable {messages : List (Work ι κ × Json)} {e f : Exchange ι κ}

variable {s : Session}

lemma step_of_mem (h : e ∈ entries step s messages) : Step e.before e.message e.answer e.after := by
  have he : e = entry step e.before e.action :=
    (entry_of_mem (P := fun _ => True) (fun _ _ h => h) trivial h).1
  rw [he]
  exact handle_step e.action.1 e.before e.action.2

lemma rank_le_final (s : Session) (messages : List (Work ι κ × Json)) :
    s.lifecycle.rank ≤ (final step s messages).lifecycle.rank := by
  have hs (s : Session) (message : Work ι κ × Json) :
      s.lifecycle.rank ≤ (step s message).2.lifecycle.rank :=
    (handle_step message.1 s message.2).rank_le
  exact final_related (P := fun _ => True) (R := fun s t => s.lifecycle.rank ≤ t.lifecycle.rank)
    (fun _ => Nat.le_refl _) Nat.le_trans (fun _ _ h => h) (fun s message _ => hs s message)
    trivial messages

lemma rank_le_of_mem {past rest : List (Exchange ι κ)}
    (h : entries step s messages = past ++ e :: rest) (hf : f ∈ past) :
    f.after.lifecycle.rank ≤ e.before.lifecycle.rank := by
  obtain ⟨older, newer, rfl⟩ := append_of_mem hf
  rw [append_assoc] at h
  obtain ⟨_, middle, -, -, -, he⟩ := entries_between h
  rw [he]
  exact rank_le_final f.after middle

lemma lifecycles_sorted (s : Session) (messages : List (Work ι κ × Json)) :
    (lifecycles (entries step s messages)).Pairwise (fun a b => a.rank ≤ b.rank) ∧
      ∀ lifecycle ∈ lifecycles (entries step s messages),
        s.lifecycle.rank ≤ lifecycle.rank := by
  induction messages generalizing s with
  | nil => exact ⟨List.Pairwise.nil, by simp [lifecycles]⟩
  | cons message messages ih =>
    have hs := (handle_step message.1 s message.2).rank_le
    obtain ⟨hsor, hle⟩ := ih (step s message).2
    refine ⟨?_, ?_⟩
    · apply List.Pairwise.cons
      · intro lifecycle hmem
        rcases mem_cons.mp hmem with rfl | hmem
        · exact hs
        · exact hs.trans (hle lifecycle hmem)
      · exact .cons hle hsor
    · intro lifecycle hmem
      rcases mem_cons.mp hmem with rfl | hmem
      · exact Nat.le_refl _
      · rcases mem_cons.mp hmem with rfl | hmem
        · exact hs
        · exact hs.trans (hle lifecycle hmem)

lemma Exchange.Does.request (hdoes : e.Does operation)
    (h : Step e.before e.message e.answer e.after) :
    e.before.lifecycle.refusal operation = none ∧
      (operation = "morphir.initialize" → e.after.lifecycle = .ready) ∧
      (operation = "morphir.shutdown" → e.after.lifecycle = .shutdown) := by
  obtain ⟨⟨id, hreq⟩, hans⟩ := hdoes
  obtain ⟨id', operation', hreq', halw, hnx⟩ := h.succeeded hans
  obtain ⟨rfl, rfl⟩ := hreq.id_eq hreq'
  refine ⟨halw, ?_, ?_⟩
  · rintro rfl
    rcases hnx with ⟨-, hrd⟩ | ⟨heq, -⟩ | ⟨hne, -⟩
    · exact hrd
    · exact absurd heq (by decide)
    · exact absurd rfl hne
  · rintro rfl
    rcases hnx with ⟨heq, -⟩ | ⟨-, hshu⟩ | ⟨-, hne, -⟩
    · exact absurd heq (by decide)
    · exact hshu
    · exact absurd rfl hne

lemma moves_of_mem (he : e ∈ entries step s messages) (hmoved : e.after ≠ e.before) :
    (e.Does "morphir.initialize" ∧ e.before.lifecycle = .beforeInitialize ∧
      e.after.lifecycle = .ready) ∨
    (e.Does "morphir.shutdown" ∧ e.before.lifecycle = .ready ∧ e.after.lifecycle = .shutdown) ∨
    (e.Exits ∧ e.after.lifecycle = .exited) := by
  have h := step_of_mem he
  unfold Exchange.Does Exchange.Exits
  generalize e.after = next, e.answer = answer at h hmoved
  cases h with
  | malformed | notified | refused | served => exact absurd rfl hmoved
  | exited h => exact .inr (.inr ⟨h, rfl⟩)
  | initialized value models h hpre => exact .inl ⟨⟨⟨_, h⟩, _, _, rfl⟩, hpre, rfl⟩
  | shutDown value h hrd => exact .inr (.inl ⟨⟨⟨_, h⟩, _, _, rfl⟩, hrd, rfl⟩)

lemma exists_initialized (frontend : Option Frontend)
    (h : (final step (new frontend) messages).lifecycle = .ready) :
    ∃ f ∈ entries step (new frontend) messages,
      Exchange.Does f "morphir.initialize" := by
  obtain ⟨older, f, newer, hents, hpre, haft, -⟩ :=
    exists_since (P := fun s : Session => s.lifecycle = .ready) (fun heq => by cases heq) h
  have hf : f ∈ entries step (.new frontend) messages := by
    rw [hents]
    exact mem_append_right older mem_cons_self
  have hmoved : f.after ≠ f.before := fun heq => hpre (heq ▸ haft)
  rcases moves_of_mem hf hmoved with ⟨hdoes, -⟩ | ⟨-, -, hshu⟩ | ⟨-, hexi⟩
  · exact ⟨f, hf, hdoes⟩
  · cases haft.symm.trans hshu
  · cases haft.symm.trans hexi

theorem session_lawful (frontend : Option Frontend) (messages : List (Work ι κ × Json)) :
    Lawful (entries step (Session.new frontend) messages) where
  ordered := (lifecycles_sorted _ _).1
  moves e he hmoved := moves_of_mem he hmoved
  before := by
    intro past e rest h operation hdoes ho
    have he : e ∈ entries step (new frontend) messages := by
      rw [h]
      exact mem_append_right past mem_cons_self
    have halw := (hdoes.request (step_of_mem he)).1
    rcases lifecycle_of_allowed halw with ⟨-, hmem⟩ | ⟨hrd, -⟩
    · exact absurd hmem ho
    · obtain ⟨earlier, later, -, rfl, heq, -⟩ := entries_split h
      apply exists_initialized
      rw [heq] at hrd
      exact hrd
  after := by
    intro past e rest h hans f hf
    have he : e ∈ entries step (new frontend) messages := by
      rw [h]
      exact mem_append_right past mem_cons_self
    have hfmem : f ∈ entries step (new frontend) messages := by
      rw [h]
      exact mem_append_left _ hf
    have hle := rank_le_of_mem h hf
    obtain ⟨id, operation, -, halw, -⟩ := (step_of_mem he).succeeded hans
    have hlow : e.before.lifecycle.rank ≤ 1 := by
      rcases lifecycle_of_allowed halw with ⟨hpre, -⟩ | ⟨hrd, -⟩
      · rw [hpre]
        decide
      · rw [hrd]
        decide
    refine ⟨fun hdoes => ?_, fun hexits => ?_⟩
    · have hshu := (hdoes.request (step_of_mem hfmem)).2.2 rfl
      rw [hshu] at hle
      exact absurd (hle.trans hlow) (by decide)
    · rw [(step_of_mem hfmem).exits hexits] at hle
      exact absurd (hle.trans hlow) (by decide)
  once := by
    intro past e rest h hdoes f hf hdoes'
    have he : e ∈ entries step (new frontend) messages := by
      rw [h]
      exact mem_append_right past mem_cons_self
    have hfmem : f ∈ entries step (new frontend) messages := by
      rw [h]
      exact mem_append_left _ hf
    have hle := rank_le_of_mem h hf
    rw [(hdoes'.request (step_of_mem hfmem)).2.1 rfl] at hle
    rcases lifecycle_of_allowed (hdoes.request (step_of_mem he)).1 with ⟨hpre, -⟩ | ⟨-, hne⟩
    · rw [hpre] at hle
      exact absurd hle (by decide)
    · exact hne rfl
  failed e he hans := (step_of_mem he).failed hans
  answered e he id operation hreq := (step_of_mem he).answered hreq
  silent e he operation hnot := (step_of_mem he).silent hnot

end Runs

end Morphir.Mep.Guest
