import Morphir.Engine.ModelDocument
import Morphir.Library.Register

/-!
# Runs of calls on the document state

Openings may overlap in any order, with any tokens.  A stale token changes nothing,
no number is given twice, and what is returned for a revision is what was adopted at
that revision.
-/

namespace Morphir.Engine.ModelDocument

open Fallible Morphir.Host List State

inductive Call
  | begin (host : HostRetention)
  | reject (attempt : Int)
  | finish (attempt : Int) (reply : Json)
  | finishConnected (attempt : Int) (reply : Json) (inventory : OriginalInventory)
  | finishOriginals (attempt : Int) (inventory : OriginalInventory)
  | replace (reply : Json)
  | close (host : HostRetention)

namespace Call

def attempt : Call → Option Int
  | .reject attempt | .finish attempt _ | .finishConnected attempt _ _
  | .finishOriginals attempt _ => some attempt
  | .begin _ | .replace _ | .close _ => none

def reply : Call → Option Json
  | .finish _ reply | .finishConnected _ reply _ | .replace reply => some reply
  | .begin _ | .reject _ | .finishOriginals _ _ | .close _ => none

def inventory : Call → Option OriginalInventory
  | .finishConnected _ _ inventory | .finishOriginals _ inventory => some inventory
  | .begin _ | .reject _ | .finish _ _ | .replace _ | .close _ => none

end Call

inductive Answer
  | started (attempt : Int)
  | refused (host : HostRetention)
  | exhausted
  | done
  | failed (error : DocumentError)
  | closed (attempt : Option Int)

section

variable (fromReply : Json → Except DocumentError Document)

/-- The state after an operation that may raise: it stays when the operation does. -/
def settle (s : State) : Except DocumentError State → State × Answer
  | .ok s' => (s', .done)
  | .error error => (s, .failed error)

def step (s : State) : Call → State × Answer
  | .begin host =>
    match s.begin host with
    | .started s' attempt => (s', .started attempt)
    | .refused host => (s, .refused host)
    | .exhausted => (s, .exhausted)
  | .reject attempt => (s.reject attempt, .done)
  | .finish attempt reply => settle s (s.finish fromReply attempt reply)
  | .finishConnected attempt reply inventory =>
    settle s (s.finishConnected fromReply attempt reply inventory)
  | .finishOriginals attempt inventory => settle s (s.finishOriginals attempt inventory)
  | .replace reply => settle s (s.replace fromReply reply)
  | .close host =>
    match s.close host with
    | .closed s' attempt => (s', .closed attempt)
    | .retained host => (s, .refused host)

def run (s : State) (calls : List Call) : State :=
  calls.foldl (fun s call => (step fromReply s call).1) s

def startedBy (s : State) (call : Call) : Option Int :=
  match (step fromReply s call).2 with
  | .started attempt => some attempt
  | _ => none

/-- The document that a call adopts, with the revision it gets: the call moves the
revision, and the document is that of the reply it brings. -/
def adoptedBy (s : State) (call : Call) : Option (Int × Document) :=
  let revision := (step fromReply s call).1.revision
  if revision = s.revision then none
  else call.reply.bind fun reply =>
    (fromReply reply).toOption.map fun document => (revision, document)

def receivedBy (s : State) (call : Call) : Option (Int × OriginalInventory) :=
  let revision := (step fromReply s call).1.inventorySequence
  if revision = s.inventorySequence then none
  else call.inventory.map fun inventory => (revision, inventory)

def collect {α : Type} (by' : State → Call → Option α) : State → List Call → List α
  | _, [] => []
  | s, call :: calls => (by' s call).toList ++ collect by' (step fromReply s call).1 calls

end

def State.attempts (s : State) : Register.State Unit :=
  ⟨s.sequence, s.opening.map fun attempt => (attempt, ())⟩

def State.documents (s : State) : Register.State Document :=
  ⟨s.revision, s.semanticOwner.map fun owner => (owner.revision, owner.document)⟩

def State.inventories (s : State) : Register.State OriginalInventory :=
  ⟨s.inventorySequence, s.originalsOwner.map fun owner => (owner.revision, owner.inventory)⟩

section

variable {fromReply : Json → Except DocumentError Document} {s s' : State}

variable {attempt : Int}

lemma isCurrent_eq : s.isCurrent attempt = true ↔ s.opening = some attempt := by
  rw [isCurrent, beq_iff_eq]

lemma retained_reject (s : State) (attempt : Int) : (s.reject attempt).retained = s.retained := by
  unfold reject
  split
  · rfl
  · cases hret : s.retained with
    | none => rfl
    | some owners => rfl

lemma opening_reject (s : State) (attempt : Int) :
    (s.reject attempt).opening = s.opening ∨ (s.reject attempt).opening = none := by
  unfold reject
  split
  · exact .inl rfl
  · cases s.retained with
    | none => exact .inr rfl
    | some owners => exact .inr rfl

lemma replace_ok {reply : Json} (h : s.replace fromReply reply = .ok s') :
    ∃ document, fromReply reply = .ok document ∧ s.revision ≠ maxInt32 ∧
      s' = { s with revision := s.revision + 1
                    phase := .retained (.semantic ⟨document, s.revision + 1⟩) } := by
  obtain ⟨_, hlim, h⟩ := bind_ok h
  obtain ⟨document, hdoc, h⟩ := bind_ok h
  exact ⟨document, hdoc, refuse_ok hlim, (Except.ok.inj h).symm⟩

variable {inventory : OriginalInventory}

lemma finishConnected_ok {reply : Json} (hcur : s.isCurrent attempt = true)
    (h : s.finishConnected fromReply attempt reply inventory = .ok s') :
    ∃ document, fromReply reply = .ok document ∧ s.revision ≠ maxInt32 ∧
      s.inventorySequence ≠ maxInt32 ∧
      s' = { s with revision := s.revision + 1
                    inventorySequence := s.inventorySequence + 1
                    phase := .retained (.both ⟨document, s.revision + 1⟩
                      ⟨inventory, s.inventorySequence + 1⟩) } := by
  rw [finishConnected, if_neg (by simp [hcur])] at h
  obtain ⟨_, hlim, h⟩ := bind_ok h
  obtain ⟨document, hdoc, h⟩ := bind_ok h
  have hne := not_or.mp (refuse_ok hlim)
  exact ⟨document, hdoc, hne.1, hne.2, (Except.ok.inj h).symm⟩

lemma finishOriginals_ok (hcur : s.isCurrent attempt = true)
    (h : s.finishOriginals attempt inventory = .ok s') :
    s.inventorySequence ≠ maxInt32 ∧ s'.sequence = s.sequence ∧ s'.revision = s.revision ∧
      s'.opening = none ∧ s'.semanticOwner = s.semanticOwner ∧
      s'.inventorySequence = s.inventorySequence + 1 ∧
      s'.originalsOwner = some ⟨inventory, s.inventorySequence + 1⟩ := by
  rw [finishOriginals, if_neg (by simp [hcur])] at h
  obtain ⟨_, hlim, h⟩ := bind_ok h
  cases h
  refine ⟨refuse_ok hlim, rfl, rfl, rfl, ?_, rfl, ?_⟩
  · cases hsem : s.semanticOwner with
    | none => rfl
    | some owner => rfl
  · cases s.semanticOwner with
    | none => rfl
    | some owner => rfl

lemma step_stale {call : Call} (hatt : call.attempt = some attempt)
    (hstale : s.opening ≠ some attempt) : step fromReply s call = (s, .done) := by
  have hcur : s.isCurrent attempt = false := by
    rw [Bool.eq_false_iff]
    exact fun h => hstale (isCurrent_eq.mp h)
  cases call with
  | begin host => cases hatt
  | replace reply => cases hatt
  | close host => cases hatt
  | reject attempt' =>
    cases hatt
    rw [step, reject, if_pos hcur]
  | finish attempt' reply =>
    cases hatt
    rw [step, State.finish, if_pos hcur, settle]
  | finishConnected attempt' reply inventory =>
    cases hatt
    rw [step, finishConnected, if_pos hcur, settle]
  | finishOriginals attempt' inventory =>
    cases hatt
    rw [step, finishOriginals, if_pos hcur, settle]

lemma step_failed {call : Call} {error : DocumentError}
    (h : (step fromReply s call).2 = .failed error) : (step fromReply s call).1 = s := by
  have hset {result : Except DocumentError State}
      (h : (settle s result).2 = .failed error) : (settle s result).1 = s := by
    cases result with
    | ok s' => cases h
    | error e => rfl
  cases call with
  | begin host =>
    rw [step] at h ⊢
    split
    · rename_i hbegin
      rw [hbegin] at h
      cases h
    · rfl
    · rfl
  | reject attempt => cases h
  | finish attempt reply | finishConnected attempt reply inventory
  | finishOriginals attempt inventory | replace reply => exact hset h
  | close host =>
    rw [step] at h ⊢
    split
    · rename_i hclo
      rw [hclo] at h
      cases h
    · rfl

end

section

variable (fromReply : Json → Except DocumentError Document)

/-- The effect of a call: what it brings is adopted with the next number, or the counters
stay and what was retained stays or goes. -/
inductive Effect (s : State) (call : Call) : State × Answer → Prop
  | same (answer : Answer) (h : ∀ attempt, answer ≠ .started attempt) : Effect s call (s, answer)
  | opened (hlimit : s.sequence ≠ maxInt32) :
      Effect s call ({ s with sequence := s.sequence + 1
                              phase := .opening (s.sequence + 1) s.retained },
        .started (s.sequence + 1))
  | rejected (attempt : Int) : Effect s call (s.reject attempt, .done)
  | closed : Effect s call ({ s with phase := .empty }, .closed s.opening)
  | replaced {reply : Json} (document : Document) (hreply : call.reply = some reply)
      (hdocument : fromReply reply = .ok document) (hinventory : call.inventory = none)
      (hlimit : s.revision ≠ maxInt32) :
      Effect s call ({ s with revision := s.revision + 1
                              phase := .retained (.semantic ⟨document, s.revision + 1⟩) }, .done)
  | connected {reply : Json} (document : Document) (inventory : OriginalInventory)
      (hreply : call.reply = some reply) (hdocument : fromReply reply = .ok document)
      (hinventory : call.inventory = some inventory) (hlimit : s.revision ≠ maxInt32)
      (hlimit' : s.inventorySequence ≠ maxInt32) :
      Effect s call ({ s with revision := s.revision + 1
                              inventorySequence := s.inventorySequence + 1
                              phase := .retained (.both ⟨document, s.revision + 1⟩
                                ⟨inventory, s.inventorySequence + 1⟩) }, .done)
  | received {s' : State} (inventory : OriginalInventory) (hreply : call.reply = none)
      (hinventory : call.inventory = some inventory) (hlimit : s.inventorySequence ≠ maxInt32)
      (hsequence : s'.sequence = s.sequence) (hrevision : s'.revision = s.revision)
      (hopening : s'.opening = none) (hsemantic : s'.semanticOwner = s.semanticOwner)
      (hcounter : s'.inventorySequence = s.inventorySequence + 1)
      (howner : s'.originalsOwner = some ⟨inventory, s.inventorySequence + 1⟩) :
      Effect s call (s', .done)

variable {fromReply} {s : State}

lemma effect_replace {call : Call} {reply : Json} (hrep : call.reply = some reply)
    (hinv : call.inventory = none) :
    Effect fromReply s call (settle s (s.replace fromReply reply)) := by
  cases hres : s.replace fromReply reply with
  | error error => exact .same _ nofun
  | ok s' =>
    obtain ⟨document, hdoc, hlim, rfl⟩ := replace_ok hres
    exact .replaced document hrep hdoc hinv hlim

variable (calls : List Call) (call : Call)

lemma step_effect : Effect fromReply s call (step fromReply s call) := by
  cases call with
  | begin host =>
    rw [step, begin]
    by_cases hhost : host ≠ .idle
    · rw [if_pos hhost]
      exact .same _ nofun
    · by_cases hlim : s.sequence = maxInt32
      · rw [if_neg hhost, if_pos hlim]
        exact .same _ nofun
      · rw [if_neg hhost, if_neg hlim]
        exact .opened hlim
  | reject attempt => exact .rejected attempt
  | finish attempt reply =>
    rw [step, State.finish]
    by_cases hcur : s.isCurrent attempt = false
    · rw [if_pos hcur]
      exact .same _ nofun
    · rw [if_neg hcur]
      exact effect_replace rfl rfl
  | finishConnected attempt reply inventory =>
    by_cases hcur : s.isCurrent attempt = false
    · rw [step, finishConnected, if_pos hcur]
      exact .same _ nofun
    · rw [step]
      cases hres : s.finishConnected fromReply attempt reply inventory with
      | error error => exact .same _ nofun
      | ok s' =>
        obtain ⟨document, hdoc, hlim, hlim', rfl⟩ :=
          finishConnected_ok (Bool.not_eq_false _ ▸ hcur) hres
        exact .connected document inventory rfl hdoc rfl hlim hlim'
  | finishOriginals attempt inventory =>
    by_cases hcur : s.isCurrent attempt = false
    · rw [step, finishOriginals, if_pos hcur]
      exact .same _ nofun
    · rw [step]
      cases hres : s.finishOriginals attempt inventory with
      | error error => exact .same _ nofun
      | ok s' =>
        obtain ⟨hlim, hseq, hrev, hope, hsem, hcou, howner⟩ :=
          finishOriginals_ok (Bool.not_eq_false _ ▸ hcur) hres
        exact .received inventory rfl rfl hlim hseq hrev hope hsem
          hcou howner
  | replace reply => exact effect_replace rfl rfl
  | close host =>
    rw [step, close]
    by_cases hhost : host ≠ .idle
    · rw [if_pos hhost]
      exact .same _ nofun
    · rw [if_neg hhost]
      exact .closed

lemma rejected_counters (attempt : Int) : (s.reject attempt).sequence = s.sequence ∧
    (s.reject attempt).revision = s.revision ∧
      (s.reject attempt).inventorySequence = s.inventorySequence := by
  unfold reject
  split
  · exact ⟨rfl, rfl, rfl⟩
  · exact ⟨rfl, rfl, rfl⟩

lemma semanticOwner_reject (s : State) (attempt : Int) :
    (s.reject attempt).semanticOwner = s.semanticOwner := by
  unfold semanticOwner
  rw [retained_reject]

lemma originalsOwner_reject (s : State) (attempt : Int) :
    (s.reject attempt).originalsOwner = s.originalsOwner := by
  unfold originalsOwner
  rw [retained_reject]

lemma keep_map {α β : Type} {limit counter counter' : Int} {f : α → Int × β}
    {held held' : Option α} (hcou : counter' = counter) (h : held' = held ∨ held' = none) :
    Register.Move limit ⟨counter, held.map f⟩ none ⟨counter', held'.map f⟩ := by
  subst hcou
  rcases h with rfl | rfl
  · exact .keep (.inl rfl)
  · exact .keep (.inr rfl)

lemma step_attempts : Register.Move maxInt32 s.attempts
    ((startedBy fromReply s call).map fun attempt => (attempt, ()))
    (step fromReply s call).1.attempts := by
  have heff := @step_effect fromReply s call
  unfold startedBy
  generalize step fromReply s call = result at heff ⊢
  cases heff with
  | same answer h =>
    have hno : (match answer with
        | .started attempt => some attempt
        | _ => none) = none := by
      cases answer with
      | started attempt => exact absurd rfl (h attempt)
      | refused host => rfl
      | exhausted => rfl
      | done => rfl
      | failed error => rfl
      | closed attempt => rfl
    rw [hno]
    exact keep_map rfl (.inl rfl)
  | opened hlim => exact .take () hlim
  | rejected attempt => exact keep_map (rejected_counters attempt).1 (opening_reject s attempt)
  | closed => exact keep_map rfl (.inr rfl)
  | replaced document hrep hdoc hinv hlim => exact keep_map rfl (.inr rfl)
  | connected document inventory hrep hdoc hinv hlim hlim' => exact keep_map rfl (.inr rfl)
  | received inventory hrep hinv hlim hseq hrev hope => exact keep_map hseq (.inr hope)

lemma step_documents : Register.Move maxInt32 s.documents
    (adoptedBy fromReply s call) (step fromReply s call).1.documents := by
  have heff := @step_effect fromReply s call
  unfold adoptedBy
  generalize step fromReply s call = result at heff ⊢
  have htk {reply : Json} {document : Document} (hrep : call.reply = some reply)
      (hdoc : fromReply reply = .ok document) : (if s.revision + 1 = s.revision then none
        else call.reply.bind fun reply => (fromReply reply).toOption.map fun document =>
          (s.revision + 1, document)) = some (s.revision + 1, document) := by
    rw [if_neg (by omega), hrep, Option.bind_some, hdoc]
    rfl
  have hno {revision : Int} (h : revision = s.revision) : (if revision = s.revision then none
        else call.reply.bind fun reply => (fromReply reply).toOption.map fun document =>
          (revision, document)) = none := if_pos h
  cases heff with
  | same answer h | opened hlim =>
    rw [hno rfl]
    exact keep_map rfl (.inl rfl)
  | rejected attempt =>
    rw [hno (rejected_counters attempt).2.1]
    exact keep_map (rejected_counters attempt).2.1 (.inl (semanticOwner_reject s attempt))
  | closed =>
    rw [hno rfl]
    exact keep_map rfl (.inr rfl)
  | replaced document hrep hdoc hinv hlim
  | connected document inventory hrep hdoc hinv hlim hlim' =>
    rw [htk hrep hdoc]
    exact .take document hlim
  | received inventory hrep hinv hlim hseq hrev hope hsem =>
    rw [hno hrev]
    exact keep_map hrev (.inl hsem)

lemma step_inventories : Register.Move maxInt32 s.inventories
    (receivedBy fromReply s call) (step fromReply s call).1.inventories := by
  have heff := @step_effect fromReply s call
  unfold receivedBy
  generalize step fromReply s call = result at heff ⊢
  have htk {inventory : OriginalInventory} (hinv : call.inventory = some inventory) :
      (if s.inventorySequence + 1 = s.inventorySequence then none
        else call.inventory.map fun inventory => (s.inventorySequence + 1, inventory)) =
          some (s.inventorySequence + 1, inventory) := by
    rw [if_neg (by omega), hinv, Option.map_some]
  have hno {revision : Int} (h : revision = s.inventorySequence) :
      (if revision = s.inventorySequence then none
        else call.inventory.map fun inventory => (revision, inventory)) = none := if_pos h
  cases heff with
  | same answer h | opened hlim =>
    rw [hno rfl]
    exact keep_map rfl (.inl rfl)
  | rejected attempt =>
    rw [hno (rejected_counters attempt).2.2]
    exact keep_map (rejected_counters attempt).2.2 (.inl (originalsOwner_reject s attempt))
  | closed | replaced document hrep hdoc hinv hlim =>
    rw [hno rfl]
    exact keep_map rfl (.inr rfl)
  | connected document inventory hrep hdoc hinv hlim hlim' =>
    rw [htk hinv]
    exact .take inventory hlim'
  | @received s' inventory hrep hinv hlim hseq hrev hope hsem hcou
      howner =>
      have hst : s'.inventories = ⟨s.inventorySequence + 1,
          some (s.inventorySequence + 1, inventory)⟩ := by
        rw [inventories, hcou, howner, Option.map_some]
      rw [hcou, htk hinv, hst]
      exact .take inventory hlim

lemma collect_run {α β : Type} (by' : State → Call → Option β) (f : β → Int × α)
    (register : State → Register.State α)
    (hs : ∀ s call, Register.Move maxInt32 (register s) ((by' s call).map f)
      (register (step fromReply s call).1)) (calls : List Call) (s : State) :
    Register.Run maxInt32 (register s) ((collect fromReply by' s calls).map f)
      (register (run fromReply s calls)) := by
  induction calls generalizing s with
  | nil => exact .refl _
  | cons call calls ih =>
    have hrun := Register.Run.step (hs s call) (ih (step fromReply s call).1)
    rw [collect, map_append, ← Option.toList_map]
    exact hrun

variable {revision : Int} {s : State}

lemma held_documents {document : Document} (hrev : s.currentRevision = some revision)
    (hdoc : s.document = some document) : s.documents.held = some (revision, document) := by
  obtain ⟨owner, howner, rfl⟩ := Option.map_eq_some_iff.mp hrev
  obtain ⟨owner', howner', rfl⟩ := Option.map_eq_some_iff.mp hdoc
  rw [howner] at howner'
  obtain rfl := Option.some.inj howner'
  rw [documents, howner, Option.map_some]

lemma held_of_originalFor {file : OriginalFile} (h : s.originalFor revision = some file) :
    ∃ document, s.documents.held = some (revision, document) ∧
      document.source = .original file := by
  rw [originalFor] at h
  split at h
  · cases h
  · rename_i hrev
    rw [original] at h
    split at h
    · rename_i inspection file' hdoc
      cases h
      exact ⟨_, held_documents (not_not.mp hrev) hdoc, rfl⟩
    · cases h

lemma held_of_originalTreeFor {tree : OriginalTree} (h : s.originalTreeFor revision = some tree) :
    ∃ document, s.documents.held = some (revision, document) ∧ document.source = .tree tree := by
  rw [originalTreeFor] at h
  split at h
  · cases h
  · rename_i hrev
    rw [originalTree] at h
    split at h
    · rename_i inspection tree' hdoc
      cases h
      exact ⟨_, held_documents (not_not.mp hrev) hdoc, rfl⟩
    · cases h

lemma held_of_originalInventoryFor {inventory : OriginalInventory}
    (h : s.originalInventoryFor revision = some inventory) :
    s.inventories.held = some (revision, inventory) := by
  rw [originalInventoryFor] at h
  split at h
  · cases h
  · rename_i hrev
    obtain ⟨owner, howner, rfl⟩ := Option.map_eq_some_iff.mp h
    have hrev := not_not.mp hrev
    rw [inventoryRevision, howner] at hrev
    cases hrev
    rw [inventories, howner, Option.map_some]

lemma run_attempts (s : State) : Register.Run maxInt32 s.attempts
    ((collect fromReply (startedBy fromReply) s calls).map fun attempt => (attempt, ()))
    (run fromReply s calls).attempts :=
  collect_run (startedBy fromReply) (fun attempt => (attempt, ())) attempts
    (fun _ call => step_attempts call) calls s

lemma run_documents (s : State) : Register.Run maxInt32 s.documents
    (collect fromReply (adoptedBy fromReply) s calls) (run fromReply s calls).documents := by
  have hs (s : State) (call : Call) : Register.Move maxInt32 s.documents
      ((adoptedBy fromReply s call).map id) (step fromReply s call).1.documents := by
    rw [Option.map_id]
    exact step_documents call
  have hrun := collect_run (adoptedBy fromReply) id documents hs calls s
  rwa [map_id] at hrun

lemma run_inventories (s : State) : Register.Run maxInt32 s.inventories
    (collect fromReply (receivedBy fromReply) s calls) (run fromReply s calls).inventories := by
  have hs (s : State) (call : Call) : Register.Move maxInt32 s.inventories
      ((receivedBy fromReply s call).map id) (step fromReply s call).1.inventories := by
    rw [Option.map_id]
    exact step_inventories call
  have hrun := collect_run (receivedBy fromReply) id inventories hs calls s
  rwa [map_id] at hrun

lemma log_of_new {α : Type} (register : State → Register.State α) {log : List (Int × α)}
    (hnew : register .new = ⟨0, none⟩) (h : Register.Run maxInt32 (register .new) log (register s))
    :
    (log.map Prod.fst).Pairwise (· < ·) ∧ 0 ≤ (register s).counter ∧
      (register s).counter ≤ maxInt32 ∧
        ∀ entry, (register s).held = some entry → entry ∈ log := by
  rw [hnew] at h
  obtain ⟨hpai, hle, hmax, -, hhl⟩ := h.log (show (0 : Int) ≤ maxInt32 by decide)
  refine ⟨pairwise_map.mpr hpai, hle, hmax, fun entry hent => ?_⟩
  exact (hhl entry hent).resolve_left nofun

end

/-- In every run of calls from the new state, with any tokens: a stale token changes
nothing, the tokens that are started and the revisions of documents and of inventories
increase, what is returned for a revision was adopted with it, and a call that fails
leaves the state as it is.  The counters never leave `Int32`. -/
theorem run_document (parse : String → Option Json) (calls : List Call) :
    let s := run (fromReply parse) .new calls
    let adopted := collect (fromReply parse) (adoptedBy (fromReply parse)) .new calls
    let received := collect (fromReply parse) (receivedBy (fromReply parse)) .new calls
    (∀ call attempt, call.attempt = some attempt → s.opening ≠ some attempt →
      step (fromReply parse) s call = (s, .done)) ∧
    (collect (fromReply parse) (startedBy (fromReply parse)) .new calls).Pairwise (· < ·) ∧
    (adopted.map Prod.fst).Pairwise (· < ·) ∧ (received.map Prod.fst).Pairwise (· < ·) ∧
    (∀ revision file, s.originalFor revision = some file →
      ∃ document, (revision, document) ∈ adopted ∧ document.source = .original file) ∧
    (∀ revision tree, s.originalTreeFor revision = some tree →
      ∃ document, (revision, document) ∈ adopted ∧ document.source = .tree tree) ∧
    (∀ revision inventory, s.originalInventoryFor revision = some inventory →
      (revision, inventory) ∈ received) ∧
    (∀ call error, (step (fromReply parse) s call).2 = .failed error →
      (step (fromReply parse) s call).1 = s) ∧
    ∀ counter ∈ [s.sequence, s.revision, s.inventorySequence], 0 ≤ counter ∧ counter ≤ maxInt32 := by
  obtain ⟨hsta, hminA, hmaxA, -⟩ := log_of_new attempts rfl
    (@run_attempts (fromReply parse) calls .new)
  obtain ⟨hado, hminD, hmaxD, hdoc⟩ := log_of_new documents rfl
    (run_documents calls .new)
  obtain ⟨hrec, hminI, hmaxI, hinv⟩ := log_of_new inventories rfl
    (run_inventories calls .new)
  refine ⟨fun call attempt hatt hstale => step_stale hatt hstale, ?_, hado, hrec,
    fun revision file h => ?_, fun revision tree h => ?_, fun revision inventory h => ?_,
    fun call error h => step_failed h, ?_⟩
  · rw [map_map, show Prod.fst ∘ (fun attempt : Int => (attempt, ())) = id from rfl, map_id] at hsta
    exact hsta
  · obtain ⟨document, hhl, hsrc⟩ := held_of_originalFor h
    exact ⟨document, hdoc _ hhl, hsrc⟩
  · obtain ⟨document, hhl, hsrc⟩ := held_of_originalTreeFor h
    exact ⟨document, hdoc _ hhl, hsrc⟩
  · exact hinv _ (held_of_originalInventoryFor h)
  · simp only [mem_cons, not_mem_nil, or_false, forall_eq_or_imp, forall_eq]
    exact ⟨⟨hminA, hmaxA⟩, ⟨hminD, hmaxD⟩, hminI, hmaxI⟩

end Morphir.Engine.ModelDocument
