import Morphir.Host.Json
import Morphir.Library.Fallible

/-!
# Receipts of executions

A receipt says how far an execution is.  A cursor keeps the latest receipt as
canonical JSON and admits only receipts that move the execution forward.
Outcomes belong to the execution protocol; here they are a type with its JSON
codec and the IDs of its calls.
-/

namespace Morphir.Executions

open Morphir.Host Fallible OrdMap Except

mutual

/-- Equality of JSON.  Objects are compared in order: the two sides of a
comparison were written by one `to_json`. -/
def sameJson : Json → Json → Bool
  | .null, .null => true
  | .bool value, .bool other => value == other
  | .number value text, .number other otherText => value == other && text == otherText
  | .string text, .string other => text == other
  | .array items, .array others => sameItems items others
  | .object fields, .object others => sameFields fields others
  | _, _ => false

def sameItems : List Json → List Json → Bool
  | [], [] => true
  | item :: items, other :: others => sameJson item other && sameItems items others
  | _, _ => false

def sameFields : List (String × Json) → List (String × Json) → Bool
  | [], [] => true
  | (name, value) :: fields, (otherName, other) :: others =>
    name == otherName && sameJson value other && sameFields fields others
  | _, _ => false

end

instance : BEq Json := ⟨sameJson⟩

class OutcomeCodec (O : Type) where
  toJson : O → Json
  fromJson : Json → Except String O
  callIds : O → List String

def fields (value : Json) (keys : List String) (code : String) :
    Except String (List (String × Json)) :=
  match value with
  | .object values =>
    if values.length = keys.length ∧ keys.all (OrdMap.contains values) then .ok values
    else .error code
  | _ => .error code

def name (value : Option Json) : Except String String :=
  match value with
  | some (.string text) =>
    if 0 < utf16Length text ∧ utf16Length text ≤ 128 then .ok text
    else .error "workbench.execution_identity"
  | _ => .error "workbench.execution_identity"

structure Identity where
  host : String
  session : String
  provider : String
  execution : String
  snapshot : String
  deriving DecidableEq

namespace Identity

def fromJson (value : Json) : Except String Identity := do
  let values ← fields value ["hostId", "sessionId", "providerId", "executionId", "snapshotId"]
    "workbench.execution_identity"
  let host ← name (get? values "hostId")
  let session ← name (get? values "sessionId")
  let provider ← name (get? values "providerId")
  let execution ← name (get? values "executionId")
  let snapshot ← name (get? values "snapshotId")
  pure ⟨host, session, provider, execution, snapshot⟩

def toJson (self : Identity) : Json :=
  .object [("hostId", .string self.host), ("sessionId", .string self.session),
    ("providerId", .string self.provider), ("executionId", .string self.execution),
    ("snapshotId", .string self.snapshot)]

end Identity

structure Offer where
  host : String
  session : String
  provider : String
  cancel : Bool
  deriving DecidableEq

namespace Offer

def toJson (self : Offer) : Json :=
  .object [("profile", .string "morphir/workbench/executions"),
    ("contractVersion", .string "0.2.0-draft.1"), ("hostId", .string self.host),
    ("sessionId", .string self.session), ("providerId", .string self.provider),
    ("operations", .array (if self.cancel then [.string "query", .string "cancel"]
      else [.string "query"]))]

def bind (self : Offer) (identity : Identity) : Except String Unit :=
  if self.host = identity.host ∧ self.session = identity.session ∧
      self.provider = identity.provider then .ok ()
  else .error "workbench.execution_authority"

end Offer

inductive State (O : Type)
  | submitted
  | running
  | terminal (outcomes : O)

inductive Phase
  | submitted | running | terminal
  deriving DecidableEq

variable {O : Type}

def State.phase : State O → Phase
  | .submitted => .submitted
  | .running => .running
  | .terminal _ => .terminal

structure Receipt (O : Type) where
  identity : Identity
  sequence : Int
  state : State O
  cancelRequested : Bool

def receiptJson [OutcomeCodec O] (identity : Identity) (sequence : Int) (state : State O)
    (acknowledged : Bool) : Json :=
  .object [("contractVersion", .string "0.2.0-draft.1"), ("identity", identity.toJson),
    ("sequence", Json.ofInt sequence),
    ("state", .string (match state with
      | .submitted => "submitted" | .running => "running" | .terminal _ => "terminal")),
    ("cancelRequested", .bool acknowledged),
    ("outcomes", match state with
      | .terminal outcomes => OutcomeCodec.toJson outcomes
      | _ => .null)]

namespace Receipt

variable [OutcomeCodec O]

def readState (sequence : Int) (state outcomes : Option Json) : Except String (State O) :=
  match state, outcomes with
  | some (.string "submitted"), some .null => .ok .submitted
  | some (.string "running"), some .null =>
    if 0 < sequence then .ok .running else .error "workbench.execution_receipt"
  | some (.string "terminal"), some value =>
    if 0 < sequence then (OutcomeCodec.fromJson value).map .terminal
    else .error "workbench.execution_receipt"
  | _, _ => .error "workbench.execution_receipt"

/-- A number without a fraction that is not negative and fits 32 bits. -/
def readSequence (value : Option Json) : Except String Int :=
  match value with
  | some (.number (some value) _) =>
    if 0 ≤ value ∧ value ≤ 2147483647 ∧ (value.floor : Rat) = value then .ok value.floor
    else .error "workbench.execution_receipt"
  | _ => .error "workbench.execution_receipt"

def readAcknowledged (value : Option Json) : Except String Bool :=
  match value with
  | some (.bool acknowledged) => .ok acknowledged
  | _ => .error "workbench.execution_receipt"

def readVersion (value : Option Json) : Except String Unit :=
  match value with
  | some (.string "0.2.0-draft.1") => .ok ()
  | _ => .error "workbench.execution_receipt"

def fromJson (value : Json) : Except String (Receipt O) := do
  refuse (1024 * 1024 < utf8Length value.stringify) "workbench.execution_limit"
  let values ← fields value
    ["contractVersion", "identity", "sequence", "state", "cancelRequested", "outcomes"]
    "workbench.execution_receipt"
  readVersion (get? values "contractVersion")
  let sequence ← readSequence (get? values "sequence")
  let acknowledged ← readAcknowledged (get? values "cancelRequested")
  let state ← readState sequence (get? values "state") (get? values "outcomes")
  refuse (sequence = 0 ∧ (state.phase ≠ .submitted ∨ acknowledged))
    "workbench.execution_receipt"
  let identity ← Identity.fromJson ((get? values "identity").getD .null)
  pure ⟨identity, sequence, state, acknowledged⟩

def toJson (self : Receipt O) : Json :=
  receiptJson self.identity self.sequence self.state self.cancelRequested

end Receipt

inductive Disposition
  | advanced | replay | stale
  deriving DecidableEq

inductive CancelAction
  | send | pending | alreadyTerminal | unavailable | disconnected
  deriving DecidableEq

structure Cursor where
  identity : Identity
  calls : List String
  evidence : Json
  sequence : Int
  phase : Phase
  acknowledged : Bool
  canCancel : Bool
  online : Bool

namespace Cursor

variable [OutcomeCodec O]

/-- The loop over call IDs: each is a name that was not seen before. -/
def checkCalls : List String → List String → Except String Unit
  | _, [] => .ok ()
  | seen, call :: calls =>
    match name (some (.string call)) with
    | .error e => .error e
    | .ok _ =>
      if call ∈ seen then .error "execution.call_identity"
      else checkCalls (seen ++ [call]) calls

def start (offer : Offer) (expected : Identity) (calls : List String) (receipt : Receipt O) :
    Except String Cursor := do
  offer.bind expected
  refuse (receipt.identity ≠ expected) "workbench.execution_identity"
  refuse (receipt.sequence ≠ 0 ∨ receipt.state.phase ≠ .submitted ∨ receipt.cancelRequested)
    "workbench.execution_transition"
  refuse (calls = [] ∨ 1000 < calls.length) "workbench.execution_limit"
  checkCalls [] calls
  pure ⟨expected, calls, receipt.toJson, 0, .submitted, false, offer.cancel, true⟩

def latest (self : Cursor) : Except String (Receipt O) := Receipt.fromJson self.evidence

/-- The outcomes of a terminal receipt are those of the calls, in order. -/
def checkOutcomes (self : Cursor) : State O → Except String Unit
  | .terminal outcomes =>
    if (OutcomeCodec.callIds outcomes).length ≠ self.calls.length then
      .error "execution.result_count"
    else if OutcomeCodec.callIds outcomes ≠ self.calls then .error "execution.call_identity"
    else .ok ()
  | _ => .ok ()

/-- Whether a later receipt is a transition that the execution cannot make. -/
def refuses (self : Cursor) (receipt : Receipt O) : Bool :=
  self.phase = .terminal ∨ (self.phase = .running ∧ receipt.state.phase = .submitted) ∨
    (self.acknowledged ∧ ¬ receipt.cancelRequested) ∨
    (receipt.state.phase ≠ .terminal ∧ self.phase = receipt.state.phase ∧
      self.acknowledged = receipt.cancelRequested)

def observe (self : Cursor) (receipt : Receipt O) : Except String (Cursor × Disposition) := do
  refuse (¬ self.online) "workbench.execution_disconnected"
  refuse (receipt.identity ≠ self.identity) "workbench.execution_identity"
  let receipt : Receipt O ← Receipt.fromJson receipt.toJson
  self.checkOutcomes receipt.state
  refuse (receipt.cancelRequested ∧ ¬ self.canCancel) "workbench.execution_negotiation"
  if receipt.sequence < self.sequence then pure (self, .stale)
  else if receipt.sequence = self.sequence then do
    let latest : Receipt O ← self.latest
    refuse (receipt.toJson != latest.toJson) "workbench.execution_conflict"
    pure (self, .replay)
  else do
    refuse (self.refuses receipt) "workbench.execution_transition"
    pure ({ self with
      evidence := receipt.toJson, sequence := receipt.sequence, phase := receipt.state.phase,
      acknowledged := receipt.cancelRequested }, .advanced)

def disconnect (self : Cursor) : Cursor := { self with online := false }

def reconnect (self : Cursor) (offer : Offer) : Except String Cursor := do
  offer.bind self.identity
  refuse (offer.cancel ≠ self.canCancel) "workbench.execution_negotiation"
  pure { self with online := true }

def cancelAction (self : Cursor) : CancelAction :=
  if self.phase = .terminal then .alreadyTerminal
  else if ¬ self.online then .disconnected
  else if ¬ self.canCancel then .unavailable
  else if self.acknowledged then .pending
  else .send

end Cursor

mutual

theorem sameJson_self (value : Json) : sameJson value value = true := by
  cases value with
  | null => rfl
  | bool value => exact beq_self_eq_true value
  | number value text => simp [sameJson]
  | string text => exact beq_self_eq_true text
  | array items => exact sameItems_self items
  | object fields => exact sameFields_self fields

theorem sameItems_self (items : List Json) : sameItems items items = true := by
  cases items with
  | nil => rfl
  | cons item items =>
    rw [sameItems, sameJson_self item, sameItems_self items]
    rfl

theorem sameFields_self (fields : List (String × Json)) : sameFields fields fields = true := by
  match fields with
  | [] => rfl
  | (name, value) :: fields =>
    rw [sameFields, beq_self_eq_true name, sameJson_self value, sameFields_self fields]
    rfl

end

instance : ReflBEq Json := ⟨sameJson_self _⟩

variable [OutcomeCodec O]

lemma fields_ok {values out : List (String × Json)} {keys : List String} {code : String}
    (h : fields (.object values) keys code = .ok out) : out = values := by
  simp only [fields] at h
  split at h
  · exact (ok.inj h).symm
  · cases h

lemma name_ok {text out : String} (h : name (some (.string text)) = .ok out) : out = text := by
  simp only [name] at h
  split at h
  · exact (ok.inj h).symm
  · cases h

lemma Identity.fromJson_ok {host session provider execution snapshot : String} {i : Identity}
    (h : Identity.fromJson (.object [("hostId", .string host), ("sessionId", .string session),
      ("providerId", .string provider), ("executionId", .string execution),
      ("snapshotId", .string snapshot)]) = .ok i) :
    i = ⟨host, session, provider, execution, snapshot⟩ := by
  obtain ⟨values, hvals, hhost⟩ := bind_ok h
  obtain rfl := fields_ok hvals
  obtain ⟨host', hname, hsess⟩ := bind_ok hhost
  obtain rfl := name_ok hname
  obtain ⟨session', hname, hpro⟩ := bind_ok hsess
  obtain rfl := name_ok hname
  obtain ⟨provider', hname, hexec⟩ := bind_ok hpro
  obtain rfl := name_ok hname
  obtain ⟨execution', hname, hsna⟩ := bind_ok hexec
  obtain rfl := name_ok hname
  obtain ⟨snapshot', hname, hid⟩ := bind_ok hsna
  obtain rfl := name_ok hname
  exact (ok.inj hid).symm

lemma Receipt.readSequence_ok {n out : Int}
    (h : Receipt.readSequence (some (Json.ofInt n)) = .ok out) : out = n := by
  simp only [Receipt.readSequence, Json.ofInt] at h
  split at h
  · have := (ok.inj h).symm
    simpa using this
  · cases h

lemma Receipt.readState_ok {state : State O} {sequence : Int} {out : State O}
    (h : Receipt.readState sequence
      (some (.string (match state with
        | .submitted => "submitted" | .running => "running" | .terminal _ => "terminal")))
      (some (match state with
        | .terminal outcomes => OutcomeCodec.toJson outcomes
        | _ => .null)) = .ok out) : out.phase = state.phase := by
  cases state with
  | submitted =>
    obtain rfl := (ok.inj h).symm
    rfl
  | running =>
    simp only [Receipt.readState] at h
    split at h
    · obtain rfl := (ok.inj h).symm
      rfl
    · cases h
  | terminal outcomes =>
    simp only [Receipt.readState] at h
    split at h
    · obtain ⟨_, _, rfl⟩ := map_ok h
      rfl
    · cases h

lemma Receipt.fromJson_ok {identity : Identity} {sequence : Int} {state : State O}
    {acknowledged : Bool} {r : Receipt O}
    (h : Receipt.fromJson (receiptJson identity sequence state acknowledged) = .ok r) :
    r.identity = identity ∧ r.sequence = sequence ∧ r.state.phase = state.phase ∧
      r.cancelRequested = acknowledged := by
  obtain ⟨_, _, hfs⟩ := bind_ok h
  obtain ⟨values, hvals, hver⟩ := bind_ok hfs
  obtain rfl := fields_ok hvals
  obtain ⟨_, _, hnum⟩ := bind_ok hver
  obtain ⟨sequence', hseq, hrqd⟩ := bind_ok hnum
  obtain rfl := Receipt.readSequence_ok hseq
  obtain ⟨acknowledged', hack, hrd⟩ := bind_ok hrqd
  obtain rfl : acknowledged' = acknowledged := (ok.inj hack).symm
  obtain ⟨state', hst, hfst⟩ := bind_ok hrd
  obtain ⟨_, _, hl⟩ := bind_ok hfst
  obtain ⟨identity', hid, hrcp⟩ := bind_ok hl
  obtain rfl : identity' = identity := Identity.fromJson_ok hid
  obtain rfl := (ok.inj hrcp).symm
  exact ⟨rfl, rfl, Receipt.readState_ok hst, rfl⟩

/-- The evidence of a cursor is the receipt that its fields summarise. -/
structure Cursor.Consistent (O : Type) [OutcomeCodec O] (cursor : Cursor) : Prop where
  evidence : ∃ r : Receipt O, cursor.evidence = r.toJson ∧ r.identity = cursor.identity ∧
    r.sequence = cursor.sequence ∧ r.state.phase = cursor.phase ∧
    r.cancelRequested = cursor.acknowledged

variable {cursor : Cursor}

lemma Cursor.Consistent.latest (h : cursor.Consistent O) {r : Receipt O}
    (hr : cursor.latest = .ok r) : r.identity = cursor.identity ∧ r.sequence = cursor.sequence ∧
      r.state.phase = cursor.phase ∧ r.cancelRequested = cursor.acknowledged := by
  obtain ⟨r', hevi, hid, hseq, hph, hack⟩ := h.evidence
  rw [Cursor.latest, hevi] at hr
  obtain ⟨h₁, h₂, h₃, h₄⟩ := Receipt.fromJson_ok hr
  exact ⟨h₁.trans hid, h₂.trans hseq, h₃.trans hph, h₄.trans hack⟩

lemma Cursor.start_ok {offer : Offer} {expected : Identity} {calls : List String}
    {receipt : Receipt O} (h : Cursor.start offer expected calls receipt = .ok cursor) :
    cursor.Consistent O ∧ cursor.identity = expected ∧ cursor.sequence = 0 ∧
      cursor.evidence = receipt.toJson ∧ cursor.phase = .submitted := by
  obtain ⟨_, _, hexp⟩ := bind_ok h
  obtain ⟨_, hid, hfst⟩ := bind_ok hexp
  obtain ⟨_, htra, hcls⟩ := bind_ok hfst
  obtain ⟨_, _, hns⟩ := bind_ok hcls
  obtain ⟨_, _, hcur⟩ := bind_ok hns
  obtain rfl := (ok.inj hcur).symm
  have hsm := not_not.mp (refuse_ok hid)
  have hsub := refuse_ok htra
  simp only [not_or, not_not, Bool.not_eq_true] at hsub
  exact ⟨⟨receipt, rfl, hsm, hsub.1, hsub.2.1, hsub.2.2⟩, rfl, rfl, rfl, rfl⟩

lemma Cursor.observe_ok {next : Cursor} {receipt : Receipt O} {d : Disposition}
    (h : cursor.observe receipt = .ok (next, d)) :
    (d ≠ .advanced ∧ next = cursor ∧ receipt.sequence ≤ cursor.sequence) ∨
      (d = .advanced ∧ next.Consistent O ∧ next.identity = cursor.identity ∧
        cursor.sequence < next.sequence ∧ next.sequence = receipt.sequence ∧
        cursor.phase ≠ .terminal ∧ next.phase = receipt.state.phase ∧
        (cursor.phase = .running → next.phase ≠ .submitted)) := by
  obtain ⟨_, _, hbd⟩ := bind_ok h
  obtain ⟨_, hid, hrd⟩ := bind_ok hbd
  obtain ⟨admitted, hadm, hout⟩ := bind_ok hrd
  obtain ⟨_, _, hccl⟩ := bind_ok hout
  obtain ⟨_, _, horder⟩ := bind_ok hccl
  have hsm := not_not.mp (refuse_ok hid)
  obtain ⟨hrcp, hseq, hph, hack⟩ := Receipt.fromJson_ok hadm
  split at horder
  · cases horder
    exact .inl ⟨by simp, rfl, by omega⟩
  · split at horder
    · obtain ⟨_, _, hcon⟩ := bind_ok horder
      obtain ⟨_, _, hrep⟩ := bind_ok hcon
      cases hrep
      exact .inl ⟨by simp, rfl, by omega⟩
    · obtain ⟨_, href, hadv⟩ := bind_ok horder
      have hfwd := refuse_ok href
      simp only [Cursor.refuses, decide_eq_true_eq, not_or] at hfwd
      cases hadv
      refine .inr ⟨rfl, ⟨admitted, rfl, hrcp.trans hsm, rfl, rfl, rfl⟩, rfl, ?_, hseq,
        hfwd.1, hph, fun hrun hsub => hfwd.2.1 ⟨hrun, hsub⟩⟩
      dsimp only
      omega

end Morphir.Executions
