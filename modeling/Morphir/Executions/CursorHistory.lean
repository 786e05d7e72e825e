import Morphir.Executions.Receipts

/-!
# Cursors over lossy deliveries

A producer emits receipts that only move an execution forward.  A client gets some
of them, in any order and more than once, and loses its connection in between.
Its cursor is at the highest receipt that was delivered.
-/

namespace Morphir.Executions

open Morphir.Host Fallible Cursor Int

variable {O : Type}

def Phase.rank : Phase → Nat
  | .submitted => 0
  | .running => 1
  | .terminal => 2

lemma Phase.rank_injective {a b : Phase} (h : a.rank = b.rank) : a = b := by
  cases a <;> cases b <;> first | rfl | cases h

structure Receipt.Next (earlier later : Receipt O) : Prop where
  sequence : earlier.sequence < later.sequence
  phase : earlier.state.phase.rank ≤ later.state.phase.rank
  acknowledged : earlier.cancelRequested = true → later.cancelRequested = true
  differs : earlier.state.phase ≠ later.state.phase ∨
    earlier.cancelRequested ≠ later.cancelRequested
  unfinished : earlier.state.phase ≠ .terminal

lemma Receipt.Next.trans {a c : Receipt O} (h : a.Next b) (h' : b.Next c) : a.Next c := by
  refine ⟨lt_trans h.sequence h'.sequence, Nat.le_trans h.phase h'.phase,
    fun ha => h'.acknowledged (h.acknowledged ha), ?_, h.unfinished⟩
  by_contra hsm
  rw [not_or, not_not, not_not] at hsm
  obtain ⟨hph, hack⟩ := hsm
  have hrank : a.state.phase.rank = c.state.phase.rank := congrArg Phase.rank hph
  have hlow := h.phase
  have hhi := h'.phase
  have hmid : a.state.phase = b.state.phase := Phase.rank_injective (by omega)
  rcases h.differs with hdif | hdif
  · exact hdif hmid
  · cases ha : a.cancelRequested with
    | true => exact hdif (ha.trans (h.acknowledged ha).symm)
    | false =>
      have hb : b.cancelRequested = true := by
        cases hb : b.cancelRequested with
        | true => rfl
        | false => exact absurd (ha.trans hb.symm) hdif
      rw [hack, h'.acknowledged hb] at ha
      cases ha

instance : Trans (Receipt.Next (O := O)) Receipt.Next Receipt.Next := ⟨Receipt.Next.trans⟩

variable [OutcomeCodec O]

/-- A receipt of an execution: it is for these calls, it acknowledges a
cancellation only where one can be asked for, and it is read back as it was
written. -/
structure Receipt.Of (identity : Identity) (calls : List String) (canCancel : Bool)
    (receipt : Receipt O) : Prop where
  identity : receipt.identity = identity
  written : Receipt.fromJson receipt.toJson = .ok receipt
  calls : ∀ outcomes, receipt.state = .terminal outcomes → OutcomeCodec.callIds outcomes = calls
  acknowledged : receipt.cancelRequested = true → canCancel = true

structure History (identity : Identity) (calls : List String) (canCancel : Bool)
    (history : List (Receipt O)) : Prop where
  chain : history.IsChain Receipt.Next
  receipts : ∀ receipt ∈ history, receipt.Of identity calls canCancel

variable {calls : List String} {history : List (Receipt O)} {identity : Identity} {canCancel : Bool}
  {a b : Receipt O}

section

variable (h : History identity calls canCancel history)

include h

lemma History.compare (ha : a ∈ history) (hb : b ∈ history) : a = b ∨ a.Next b ∨ b.Next a := by
  have hord := List.isChain_iff_pairwise.mp h.chain
  have heit : history.Pairwise fun a b => a = b ∨ a.Next b ∨ b.Next a :=
    hord.imp fun hnx => .inr (.inl hnx)
  have : Std.Symm fun a b : Receipt O => a = b ∨ a.Next b ∨ b.Next a := by
    refine ⟨fun a b h => ?_⟩
    rcases h with h | h | h
    · exact .inl h.symm
    · exact .inr (.inr h)
    · exact .inr (.inl h)
  exact heit.forall_of_forall (fun _ _ => .inl rfl) ha hb

lemma History.next_of_lt (ha : a ∈ history) (hb : b ∈ history) (hlt : a.sequence < b.sequence) :
    a.Next b := by
  rcases h.compare ha hb with rfl | hnx | hnx
  · exact absurd hlt (lt_irrefl _)
  · exact hnx
  · exact absurd (lt_trans hlt hnx.sequence) (lt_irrefl _)

lemma History.eq_of_sequence (ha : a ∈ history) (hb : b ∈ history) (heq : a.sequence = b.sequence) :
    a = b := by
  rcases h.compare ha hb with hsm | hnx | hnx
  · exact hsm
  · exact absurd heq (ne_of_lt hnx.sequence)
  · exact absurd heq.symm (ne_of_lt hnx.sequence)

end

structure Cursor.Holds (cursor : Cursor) (receipt : Receipt O) : Prop where
  evidence : cursor.evidence = receipt.toJson
  identity : cursor.identity = receipt.identity
  sequence : cursor.sequence = receipt.sequence
  phase : cursor.phase = receipt.state.phase
  acknowledged : cursor.acknowledged = receipt.cancelRequested

lemma Cursor.start_holds {offer : Offer} {expected : Identity} {receipt : Receipt O}
    {cursor : Cursor} (h : start offer expected calls receipt = .ok cursor) :
    cursor.Holds receipt ∧ cursor.identity = expected ∧ cursor.calls = calls ∧
      cursor.canCancel = offer.cancel ∧ cursor.online = true ∧ cursor.acknowledged = false := by
  obtain ⟨_, _, hexp⟩ := bind_ok h
  obtain ⟨_, hid, hfst⟩ := bind_ok hexp
  obtain ⟨_, htra, hcls⟩ := bind_ok hfst
  obtain ⟨_, _, hns⟩ := bind_ok hcls
  obtain ⟨_, _, hcur⟩ := bind_ok hns
  obtain rfl := (Except.ok.inj hcur).symm
  have hsm := not_not.mp (refuse_ok hid)
  have hsub := refuse_ok htra
  simp only [not_or, not_not, Bool.not_eq_true] at hsub
  obtain ⟨hz, hph, hack⟩ := hsub
  exact ⟨⟨rfl, hsm.symm, hz.symm, hph.symm, hack.symm⟩, rfl, rfl, rfl, rfl, rfl⟩

lemma Cursor.observe_advanced {cursor next : Cursor} {last receipt : Receipt O}
    (hholds : cursor.Holds last) (h : cursor.observe receipt = .ok (next, .advanced)) :
    ∃ admitted : Receipt O, Receipt.fromJson receipt.toJson = .ok admitted ∧
      next.Holds admitted ∧ last.Next admitted ∧ next.identity = cursor.identity ∧
      next.calls = cursor.calls ∧ next.canCancel = cursor.canCancel ∧
      next.online = cursor.online ∧
      (∀ outcomes, admitted.state = .terminal outcomes →
        OutcomeCodec.callIds outcomes = cursor.calls) ∧
      (admitted.cancelRequested = true → cursor.canCancel = true) := by
  obtain ⟨_, _, hbd⟩ := bind_ok h
  obtain ⟨_, hid, hrd⟩ := bind_ok hbd
  obtain ⟨admitted, hadm, hout⟩ := bind_ok hrd
  obtain ⟨_, hcls, hccl⟩ := bind_ok hout
  obtain ⟨_, hneg, horder⟩ := bind_ok hccl
  have hsm := not_not.mp (refuse_ok hid)
  have hneg := refuse_ok hneg
  obtain ⟨hrcp, -, -, -⟩ := Receipt.fromJson_ok hadm
  split at horder
  · cases horder
  · split at horder
    · obtain ⟨_, _, hcon⟩ := bind_ok horder
      obtain ⟨_, _, hrep⟩ := bind_ok hcon
      cases hrep
    · rename_i hstale hlat
      obtain ⟨_, href, hadv⟩ := bind_ok horder
      have hfwd := refuse_ok href
      simp only [refuses, decide_eq_true_eq, not_or, not_and] at hfwd
      obtain ⟨hop, hrun, hk, hdif⟩ := hfwd
      cases hadv
      rw [hholds.phase] at hop hrun hdif
      rw [hholds.acknowledged] at hk hdif
      rw [hholds.sequence] at hstale hlat
      refine ⟨admitted, hadm, ⟨rfl, (hrcp.trans hsm).symm, rfl, rfl, rfl⟩,
        ⟨by omega, ?_, fun hack => ?_, ?_, hop⟩, rfl, rfl, rfl, rfl, ?_, ?_⟩
      · cases hl : last.state.phase with
        | submitted => exact Nat.zero_le _
        | running =>
          cases hph : admitted.state.phase with
          | submitted => exact absurd hph (hrun hl)
          | running => exact Nat.le_refl _
          | terminal => exact Nat.le_succ _
        | terminal => exact absurd hl hop
      · simpa using hk hack
      · by_cases hph : admitted.state.phase = .terminal
        · exact .inl fun heq => hop (heq.trans hph)
        · by_cases heq : last.state.phase = admitted.state.phase
          · exact .inr (hdif hph heq)
          · exact .inl heq
      · intro outcomes hter
        simp only [checkOutcomes, hter] at hcls
        split at hcls
        · cases hcls
        · split at hcls
          · cases hcls
          · rename_i hids
            exact not_not.mp hids
      · intro hack
        by_contra hccl
        exact hneg ⟨hack, hccl⟩

section Observation

variable {cursor : Cursor} {last receipt : Receipt O}

lemma Cursor.observe_of (honl : cursor.online = true)
    (hof : receipt.Of cursor.identity cursor.calls cursor.canCancel) :
    cursor.observe receipt = if receipt.sequence < cursor.sequence then .ok (cursor, .stale)
      else if receipt.sequence = cursor.sequence then do
        let latest : Receipt O ← cursor.latest
        refuse (receipt.toJson != latest.toJson) "workbench.execution_conflict"
        pure (cursor, .replay)
      else (do
        refuse (cursor.refuses receipt) "workbench.execution_transition"
        pure ({ cursor with
          evidence := receipt.toJson, sequence := receipt.sequence, phase := receipt.state.phase,
          acknowledged := receipt.cancelRequested }, .advanced)) := by
  have hcls : cursor.checkOutcomes receipt.state = .ok () := by
    cases hst : receipt.state with
    | terminal outcomes => simp [checkOutcomes, hof.calls outcomes hst]
    | _ => rfl
  have hneg : ¬ (receipt.cancelRequested = true ∧ ¬ cursor.canCancel = true) :=
    fun h => h.2 (hof.acknowledged h.1)
  have hid : ¬ receipt.identity ≠ cursor.identity := not_not.mpr hof.identity
  have hcon : ¬ ¬ cursor.online = true := not_not.mpr honl
  rw [observe, refuse, if_neg hcon, refuse, if_neg hid, hof.written]
  change (cursor.checkOutcomes receipt.state >>= fun _ => _) = _
  rw [hcls]
  rw [refuse, if_neg hneg]
  rfl

lemma Cursor.observe_stale (honl : cursor.online = true)
    (hof : receipt.Of cursor.identity cursor.calls cursor.canCancel)
    (hseq : receipt.sequence < cursor.sequence) :
    cursor.observe receipt = .ok (cursor, .stale) := by
  rw [observe_of honl hof, if_pos hseq]

lemma Cursor.observe_replay (hholds : cursor.Holds receipt) (honl : cursor.online = true)
    (hof : receipt.Of cursor.identity cursor.calls cursor.canCancel) :
    cursor.observe receipt = .ok (cursor, .replay) := by
  have hlat : cursor.latest = .ok receipt := by rw [latest, hholds.evidence, hof.written]
  have hsm : ¬ (receipt.toJson != receipt.toJson) = true := by simp [bne]
  rw [observe_of honl hof, if_neg (by rw [hholds.sequence]; exact lt_irrefl _),
    if_pos hholds.sequence.symm, hlat]
  change (refuse _ _ >>= fun _ => _) = _
  rw [refuse, if_neg hsm]
  rfl

lemma Cursor.observe_next (hholds : cursor.Holds last) (honl : cursor.online = true)
    (hof : receipt.Of cursor.identity cursor.calls cursor.canCancel) (hnx : last.Next receipt) :
    ∃ next : Cursor, cursor.observe receipt = .ok (next, .advanced) ∧ next.Holds receipt ∧
      next.identity = cursor.identity ∧ next.calls = cursor.calls ∧
      next.canCancel = cursor.canCancel ∧ next.online = true := by
  have hseq := hnx.sequence
  rw [← hholds.sequence] at hseq
  have hfwd : ¬ cursor.refuses receipt = true := by
    simp only [refuses, decide_eq_true_eq, hholds.phase, hholds.acknowledged]
    rintro (hter | ⟨hrun, hsub⟩ | ⟨hpre, haft⟩ | ⟨_, hph, hsm⟩)
    · exact hnx.unfinished hter
    · have hrank := hnx.phase
      rw [hrun, hsub] at hrank
      cases hrank
    · exact haft (hnx.acknowledged hpre)
    · exact hnx.differs.elim (· hph) (· hsm)
  refine ⟨{ cursor with
    evidence := receipt.toJson, sequence := receipt.sequence, phase := receipt.state.phase,
    acknowledged := receipt.cancelRequested }, ?_, ⟨rfl, hof.identity.symm, rfl, rfl, rfl⟩, rfl,
    rfl, rfl, honl⟩
  rw [observe_of honl hof, if_neg (by omega), if_neg (by omega), refuse, if_neg hfwd]
  rfl

end Observation

inductive Delivery (O : Type)
  | receipt (receipt : Receipt O)
  | disconnect
  | reconnect (offer : Offer)

/-- A client with what was delivered to it while it was online and what its cursor
accepted as Advanced. -/
structure Client (O : Type) where
  cursor : Cursor
  delivered : List (Receipt O)
  advanced : List (Receipt O)

namespace Client

/-- A client keeps its cursor when an operation of the cursor fails. -/
def receive (self : Client O) : Delivery O → Client O
  | .disconnect => { self with cursor := self.cursor.disconnect }
  | .reconnect offer =>
    match self.cursor.reconnect offer with
    | .error _ => self
    | .ok cursor => { self with cursor := cursor }
  | .receipt receipt =>
    let delivered := if self.cursor.online then self.delivered ++ [receipt] else self.delivered
    match self.cursor.observe receipt with
    | .error _ => { self with delivered := delivered }
    | .ok (cursor, .advanced) => ⟨cursor, delivered, self.advanced ++ [receipt]⟩
    | .ok (cursor, _) => { self with cursor := cursor, delivered := delivered }

def run (deliveries : List (Delivery O)) (self : Client O) : Client O :=
  deliveries.foldl receive self

end Client

def FromHistory (history : List (Receipt O)) (deliveries : List (Delivery O)) : Prop :=
  ∀ receipt, .receipt receipt ∈ deliveries → receipt ∈ history

/-- A client is at the highest receipt that was delivered, the last that its cursor
accepted. -/
structure Client.At (identity : Identity) (calls : List String) (canCancel : Bool)
    (history : List (Receipt O)) (first last : Receipt O) (client : Client O) : Prop where
  identity : client.cursor.identity = identity
  calls : client.cursor.calls = calls
  canCancel : client.cursor.canCancel = canCancel
  member : last ∈ history
  holds : client.cursor.Holds last
  highest : client.delivered.argmax Receipt.sequence = some last
  accepted : (first :: client.advanced).getLast? = some last

def Receipt.Reaches (earlier later : Receipt O) : Prop := earlier = later ∨ earlier.Next later

omit [OutcomeCodec O] in
lemma Receipt.Reaches.trans {a c : Receipt O} (h : a.Reaches b) (h' : b.Reaches c) :
    a.Reaches c := by
  rcases h with rfl | h
  · exact h'
  · rcases h' with rfl | h'
    · exact .inr h
    · exact .inr (h.trans h')

section Runs

variable {identity : Identity} {calls : List String} {canCancel : Bool}
  {history : List (Receipt O)} {first last : Receipt O} {client : Client O}

section

variable (h : client.At identity calls canCancel history first last)

include h

section

variable (hhist : History identity calls canCancel history)

include hhist

lemma Client.At.observe {receipt : Receipt O} (hmem : receipt ∈ history)
    (honl : client.cursor.online = true) :
    (receipt.sequence < last.sequence ∧
        client.cursor.observe receipt = .ok (client.cursor, .stale)) ∨
      (receipt = last ∧ client.cursor.observe receipt = .ok (client.cursor, .replay)) ∨
      (last.Next receipt ∧ ∃ next : Cursor,
        client.cursor.observe receipt = .ok (next, .advanced) ∧ next.Holds receipt ∧
          next.identity = identity ∧ next.calls = calls ∧ next.canCancel = canCancel) := by
  have hof : receipt.Of client.cursor.identity client.cursor.calls client.cursor.canCancel := by
    rw [h.identity, h.calls, h.canCancel]
    exact hhist.receipts receipt hmem
  rcases lt_trichotomy receipt.sequence last.sequence with hlt | heq | hgt
  · refine .inl ⟨hlt, observe_stale honl hof ?_⟩
    rwa [h.holds.sequence]
  · obtain rfl := hhist.eq_of_sequence hmem h.member heq
    exact .inr (.inl ⟨rfl, observe_replay h.holds honl hof⟩)
  · have hnx := hhist.next_of_lt h.member hmem hgt
    obtain ⟨next, hobs, hholds, hid, hcls, hccl, -⟩ := observe_next h.holds honl hof hnx
    exact .inr (.inr ⟨hnx, next, hobs, hholds, hid.trans h.identity,
      hcls.trans h.calls, hccl.trans h.canCancel⟩)

lemma Client.At.receive (delivery : Delivery O)
    (hfrom : ∀ receipt, delivery = .receipt receipt → receipt ∈ history) :
    ∃ last', (client.receive delivery).At identity calls canCancel history first last' ∧
      last.Reaches last' := by
  cases delivery with
  | disconnect =>
    exact ⟨last, ⟨h.identity, h.calls, h.canCancel, h.member, ⟨h.holds.evidence,
      h.holds.identity, h.holds.sequence, h.holds.phase, h.holds.acknowledged⟩, h.highest,
      h.accepted⟩, .inl rfl⟩
  | reconnect offer =>
    refine ⟨last, ?_, .inl rfl⟩
    rw [Client.receive]
    split
    · exact h
    · rename_i cursor hrec
      obtain ⟨_, _, hof⟩ := bind_ok hrec
      obtain ⟨_, _, hcur⟩ := bind_ok hof
      obtain rfl := (Except.ok.inj hcur).symm
      exact ⟨h.identity, h.calls, h.canCancel, h.member, ⟨h.holds.evidence,
        h.holds.identity, h.holds.sequence, h.holds.phase, h.holds.acknowledged⟩, h.highest,
        h.accepted⟩
  | receipt receipt =>
    have hmem := hfrom receipt rfl
    cases honl : client.cursor.online with
    | false =>
      have hfails : client.cursor.observe receipt = .error "workbench.execution_disconnected" := by
        rw [Cursor.observe, refuse, if_pos (by simp [honl])]
        rfl
      refine ⟨last, ?_, .inl rfl⟩
      simp only [Client.receive, hfails, honl]
      exact h
    | true =>
      have hdel : (client.delivered ++ [receipt]).argmax Receipt.sequence =
          if last.sequence < receipt.sequence then some receipt else some last := by
        rw [List.argmax_concat, h.highest]
      rcases h.observe hhist hmem honl with ⟨hlt, hobs⟩ | ⟨rfl, hobs⟩ |
        ⟨hnx, next, hobs, hholds, hid, hcls, hccl⟩
      · refine ⟨last, ?_, .inl rfl⟩
        simp only [Client.receive, hobs, honl]
        rw [if_neg (by omega)] at hdel
        exact { h with highest := hdel }
      · refine ⟨receipt, ?_, .inl rfl⟩
        simp only [Client.receive, hobs, honl]
        rw [if_neg (lt_irrefl _)] at hdel
        exact { h with highest := hdel }
      · refine ⟨receipt, ?_, .inr hnx⟩
        simp only [Client.receive, hobs, honl]
        rw [if_pos hnx.sequence] at hdel
        refine ⟨hid, hcls, hccl, hmem, hholds, hdel, ?_⟩
        rw [← List.cons_append]
        exact List.getLast?_concat

lemma Client.At.run {deliveries : List (Delivery O)} (hfrom : FromHistory history deliveries) :
    ∃ last', (client.run deliveries).At identity calls canCancel history first last' ∧
      last.Reaches last' := by
  induction deliveries generalizing client last with
  | nil => exact ⟨last, h, .inl rfl⟩
  | cons delivery deliveries ih =>
    obtain ⟨middle, hmid, hrea⟩ := h.receive hhist delivery
      fun receipt heq => hfrom receipt (heq ▸ List.mem_cons_self)
    obtain ⟨last', hl', hrea'⟩ := ih hmid
      fun receipt hmem => hfrom receipt (List.mem_cons_of_mem _ hmem)
    exact ⟨last', hl', hrea.trans hrea'⟩

end

end

end Runs

end Morphir.Executions
