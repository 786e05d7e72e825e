import Morphir.Executions.CursorHistory
import Morphir.Executions.OwnerRuns

/-!
# Histories that the owner publishes

The receipts that the owner publishes for an execution are a history of it: its own
cursor has admitted each of them.  So a client that gets some of them never fails.
-/

namespace Morphir.Executions

open Morphir.Host Fallible List Event Session Receipt Cursor OrdMap

variable {U S L K P O : Type} [OutcomeCodec O]

/-- Outcomes that are written and read back are the same, when they were read
before. -/
def OutcomeCodec.Exact (O : Type) [OutcomeCodec O] : Prop :=
  ∀ (value : Json) (outcomes outcomes' : O), OutcomeCodec.fromJson value = .ok outcomes →
    OutcomeCodec.fromJson (OutcomeCodec.toJson outcomes) = .ok outcomes' → outcomes' = outcomes

lemma Receipt.readState_terminal {sequence : Int} {state outcomes : Option Json} {o : O}
    (h : readState sequence state outcomes = .ok (.terminal o)) :
    ∃ value, OutcomeCodec.fromJson value = .ok o ∧ outcomes = some value := by
  unfold readState at h
  split at h
  · cases h
  · split at h <;> cases h
  · split at h
    · obtain ⟨o', hrd, heq⟩ := map_ok h
      obtain rfl := State.terminal.inj heq
      exact ⟨_, hrd, rfl⟩
    · cases h
  · cases h

lemma Receipt.fromJson_terminal {value : Json} {r : Receipt O} {o : O}
    (h : fromJson value = .ok r) (hst : r.state = .terminal o) :
    ∃ values outcomes, value = .object values ∧ get? values "outcomes" = some outcomes ∧
      OutcomeCodec.fromJson outcomes = .ok o := by
  obtain ⟨_, _, hfs⟩ := bind_ok h
  obtain ⟨values, hvals, hver⟩ := bind_ok hfs
  obtain ⟨_, _, hnum⟩ := bind_ok hver
  obtain ⟨sequence, _, hrqd⟩ := bind_ok hnum
  obtain ⟨acknowledged, _, hrd⟩ := bind_ok hrqd
  obtain ⟨state, hreadState, hfst⟩ := bind_ok hrd
  obtain ⟨_, _, hl⟩ := bind_ok hfst
  obtain ⟨identity, _, hrcp⟩ := bind_ok hl
  obtain rfl := (Except.ok.inj hrcp).symm
  dsimp only at hst
  rw [hst] at hreadState
  obtain ⟨outcomes, hout, hget⟩ := readState_terminal hreadState
  cases value with
  | object fields' =>
    obtain rfl := fields_ok hvals
    exact ⟨_, outcomes, rfl, hget, hout⟩
  | _ => cases hvals

lemma OutcomeCodec.Exact.receipt (hx : OutcomeCodec.Exact O) {value : Json} {r r' : Receipt O}
    (h : Receipt.fromJson value = .ok r) (h' : Receipt.fromJson r.toJson = .ok r') : r' = r := by
  obtain ⟨hid, hseq, hph, hack⟩ := Receipt.fromJson_ok h'
  obtain ⟨identity, sequence, state, acknowledged⟩ := r
  obtain ⟨identity', sequence', state', acknowledged'⟩ := r'
  obtain rfl : identity' = identity := hid
  obtain rfl : sequence' = sequence := hseq
  obtain rfl : acknowledged' = acknowledged := hack
  have hst : state' = state := by
    cases state with
    | submitted =>
      cases state' with
      | submitted => rfl
      | running => cases hph
      | terminal => cases hph
    | running =>
      cases state' with
      | submitted => cases hph
      | running => rfl
      | terminal => cases hph
    | terminal outcomes =>
      cases state' with
      | submitted => cases hph
      | running => cases hph
      | terminal outcomes' =>
        obtain ⟨_, value, _, _, hrd⟩ := fromJson_terminal h rfl
        obtain ⟨values, written, hobj, hget, hrd'⟩ := fromJson_terminal h' rfl
        obtain rfl := Json.object.inj hobj
        obtain rfl : OutcomeCodec.toJson outcomes = written := Option.some.inj hget
        rw [hx value outcomes outcomes' hrd hrd']
  rw [hst]

variable {services : Services U S L K P O} {execution : Execution P}

lemma Session.prepare_started {self : Session P} {unit : U} {suite : S} {policy : Option P}
    {initial : Receipt O} (h : self.prepare services unit suite policy = .ok (execution, initial)) :
    ∃ calls, start self.offer execution.identity calls initial = .ok execution.cursor ∧
      fromJson initial.toJson = .ok initial := by
  obtain ⟨_, _, hsna⟩ := bind_ok h
  obtain ⟨snapshot, _, henc⟩ := bind_ok hsna
  obtain ⟨encodedSuite, _, hcapture⟩ := bind_ok henc
  obtain ⟨capturedSuite, _, hcapacity⟩ := bind_ok hcapture
  obtain ⟨_, _, hdec⟩ := bind_ok hcapacity
  obtain ⟨captured, _, hval⟩ := bind_ok hdec
  obtain ⟨_, _, hsel⟩ := bind_ok hval
  obtain ⟨⟨kind, total⟩, _, hnx⟩ := bind_ok hsel
  obtain ⟨identity, _, hfst⟩ := bind_ok hnx
  obtain ⟨initial', hini, hsta⟩ := bind_ok hfst
  obtain ⟨cursor, hcur, hcd⟩ := bind_ok hsta
  cases hcd
  exact ⟨_, hcur, receipt_initial hini⟩

/-- The receipts that an owner published for an execution: its cursor, while the owner
keeps the execution, is at the last of them. -/
structure Owner.Recorded (offer : Offer) (owner : Owner P O) (identity : Identity)
    (calls : List String) (first : Receipt O) (rest : List (Receipt O)) : Prop where
  published : owner.log.filterMap (Event.receiptOf identity) = first :: rest
  started : ∃ cursor, Cursor.start offer identity calls first = .ok cursor
  history : History identity calls offer.cancel (first :: rest)
  held : ∀ execution, owner.session.lookup identity = .ok execution →
    execution.cursor.calls = calls ∧ execution.cursor.canCancel = offer.cancel ∧
      ∃ last, (first :: rest).getLast? = some last ∧ execution.cursor.Holds last

def Owner.Recording (offer : Offer) (owner : Owner P O) : Prop :=
  ∀ identity ∈ owner.log.filterMap Event.acceptedIdentity,
    ∃ calls first rest, owner.Recorded offer identity calls first rest

variable {offer : Offer} {maxExecutions maxBytes : Int}

variable {identity : Identity} {self next : Owner P O} {calls : List String}

variable {first receipt : Receipt O} {rest : List (Receipt O)}

lemma Owner.Recorded.frame
    (h : self.Recorded offer identity calls first rest)
    (hlog : next.log.filterMap (receiptOf identity) = self.log.filterMap (receiptOf identity))
    (hlk : ∀ execution, next.session.lookup identity = .ok execution →
      self.session.lookup identity = .ok execution) :
    next.Recorded offer identity calls first rest :=
  ⟨hlog.trans h.published, h.started, h.history,
    fun execution hnx => h.held execution (hlk execution hnx)⟩

omit [OutcomeCodec O] in
lemma receiptsOf_published {log : List (Event O)} (hid : receipt.identity = identity) :
    (log ++ [published receipt]).filterMap (receiptOf identity) =
      log.filterMap (receiptOf identity) ++ [receipt] := by
  simp [receiptOf, hid]

omit [OutcomeCodec O] in
lemma receiptsOf_published_ne {log : List (Event O)} (hid : receipt.identity ≠ identity) :
    (log ++ [published receipt]).filterMap (receiptOf identity) =
      log.filterMap (receiptOf identity) := by
  simp [receiptOf, hid]

lemma Owner.Inv.numbered (hinv : self.Inv offer maxExecutions maxBytes)
    (h : identity ∈ self.log.filterMap acceptedIdentity) :
    ∃ n, n < self.session.next ∧ identity = identityAt offer n := by
  rw [hinv.accepted] at h
  obtain ⟨k, hk, rfl⟩ := mem_map.mp h
  have hbd := mem_range.mp hk
  exact ⟨k + 1, by omega, rfl⟩

lemma Session.lookup_insert_ne {self : Session P} {m n : Nat} (execution : Execution P)
    {found : Execution P} (hid : execution.identity = identityAt offer m) (hne : m ≠ n)
    (h : lookup { self with
      executions := insert self.executions (key execution.identity) execution }
        (identityAt offer n) = .ok found) :
    self.lookup (identityAt offer n) = .ok found := by
  have hkey : key (identityAt offer n) ≠ key execution.identity := by
    rw [hid]
    exact fun heq => hne (key_injective heq).symm
  unfold lookup at h ⊢
  rwa [get?_insert_ne _ _ hkey.symm] at h

lemma Owner.Recording.accept {before after : Owner P O} (hrec : after.Recording offer)
    (hinv : after.Inv offer maxExecutions maxBytes) (hof : before.session.offer = offer)
    (hnx : after.session.next = before.session.next) {unit : U} {suite : S} {policy : Option P}
    {initial : Receipt O}
    (hprepare : before.session.prepare services unit suite policy = .ok (execution, initial)) :
    (Owner.mk (after.session.accept execution)
      (after.log ++ [.accepted execution.identity, .published initial])).Recording offer := by
  have hprepared := prepare_ok hprepare
  obtain ⟨calls, hsta, hwtn⟩ := prepare_started hprepare
  rw [hof] at hsta
  have hid : execution.identity = identityAt offer after.session.next := by
    rw [hprepared.identity, hof, hnx]
  have hfst : initial.identity = execution.identity := hprepared.first.1
  have hlog (identity : Identity) :
      (after.log ++ [accepted execution.identity, .published initial]).filterMap
        (receiptOf identity) =
      (after.log ++ [published initial]).filterMap (receiptOf identity) := by
    rw [filterMap_append, filterMap_append]
    rfl
  intro identity hmem
  have hcases : identity ∈ after.log.filterMap acceptedIdentity ∨
      identity = execution.identity := by
    rw [filterMap_append, mem_append] at hmem
    exact hmem.imp_right mem_singleton.mp
  rcases hcases with hmem | rfl
  · obtain ⟨calls', first, rest, hrcd⟩ := hrec identity hmem
    obtain ⟨n, hn, rfl⟩ := hinv.numbered hmem
    refine ⟨calls', first, rest, hrcd.frame ?_ fun found hfd => ?_⟩
    · refine (hlog _).trans (receiptsOf_published_ne ?_)
      rw [hfst, hid]
      exact fun heq => absurd (identityAt_injective heq).symm (Nat.ne_of_lt hn)
    · exact lookup_insert_ne execution hid (Nat.ne_of_gt hn) hfd
  · obtain ⟨hholds, -, hcls, hccl, -, hfirstOpen⟩ := start_holds hsta
    have hno : after.log.filterMap (receiptOf execution.identity) = [] := by
      refine filterMap_eq_nil_iff.mpr fun event hev => ?_
      cases event with
      | published receipt =>
        refine if_neg fun hsm => ?_
        obtain ⟨n, _, hn, hpast⟩ := hinv.past _ hev receipt rfl
        rw [hpast, hid] at hsm
        exact absurd (identityAt_injective hsm) (Nat.ne_of_lt hn)
      | _ => rfl
    refine ⟨calls, initial, [], ?_, ⟨_, hsta⟩, ⟨List.IsChain.singleton _, ?_⟩, fun found hfd => ?_⟩
    · rw [hlog, receiptsOf_published hfst, hno, nil_append]
    · intro receipt hrcp
      obtain rfl := mem_singleton.mp hrcp
      refine ⟨hfst, hwtn, fun outcomes hst => ?_, fun hack => ?_⟩
      · have hph := hprepared.first.2.2
        rw [hst] at hph
        cases hph
      · rw [← hholds.acknowledged, hfirstOpen] at hack
        cases hack
    · obtain ⟨hget, -⟩ := lookup_ok hfd
      rw [Session.accept, get?_insert_self] at hget
      cases hget
      exact ⟨hcls, hccl, initial, rfl, hholds⟩

lemma Owner.Recording.advance (hx : OutcomeCodec.Exact O) (hrec : self.Recording offer)
    (hinv : self.Inv offer maxExecutions maxBytes)
    (hlk : self.session.lookup identity = .ok execution) {result : Receipt O}
    (h : self.advance execution receipt = .ok (result, next)) : next.Recording offer := by
  obtain ⟨hget, rfl⟩ := lookup_ok hlk
  have hk := hinv.kept _ _ hget
  obtain ⟨m, _, _, hm⟩ := hk.numbered
  rcases Owner.advance_ok hget h with ⟨rfl, _⟩ | ⟨cursor, hobs, hlat, rfl⟩
  · exact hrec
  · intro identity hmem
    rw [acceptedIdentities_published] at hmem
    obtain ⟨calls, first, rest, hrcd⟩ := hrec identity hmem
    obtain ⟨n, _, rfl⟩ := hinv.numbered hmem
    by_cases hsm : m = n
    · obtain rfl := hsm
      rw [← hm] at hrcd ⊢
      obtain ⟨hcls, hccl, last, hl, hholds⟩ := hrcd.held execution hlk
      obtain ⟨admitted, hadm, hholds', hfwd, hid, hcls', hccl', -, hout,
        hack⟩ := observe_advanced hholds hobs
      have hwtn : fromJson admitted.toJson = .ok result := by rw [← hlat, latest, hholds'.evidence]
      obtain rfl := hx.receipt hadm hwtn
      have hof : result.identity = execution.identity := by rw [← hholds'.identity, hid, hk.cursor]
      refine ⟨calls, first, rest ++ [result], ⟨?_, hrcd.started, ⟨?_, ?_⟩, ?_⟩⟩
      · rw [receiptsOf_published hof, hrcd.published, cons_append]
      · refine isChain_append.mpr ⟨hrcd.history.chain, .singleton _, ?_⟩
        intro a ha b hb
        obtain rfl := Option.some.inj (hl.symm.trans ha)
        cases hb
        exact hfwd
      · intro r hr
        rw [← cons_append] at hr
        rcases mem_append.mp hr with hr | hr
        · exact hrcd.history.receipts r hr
        · obtain rfl := mem_singleton.mp hr
          exact ⟨hof, hwtn, fun outcomes hst => (hout outcomes hst).trans hcls,
            fun hr => hccl ▸ hack hr⟩
      · intro found hfd
        obtain ⟨hget', -⟩ := lookup_ok hfd
        rw [get?_insert_self] at hget'
        obtain rfl := Option.some.inj hget'
        refine ⟨hcls'.trans hcls, hccl'.trans hccl, result, ?_, hholds'⟩
        rw [← cons_append]
        exact List.getLast?_concat
    · refine ⟨calls, first, rest, hrcd.frame (receiptsOf_published_ne ?_) fun found hfd => ?_⟩
      · rcases observe_ok hobs with ⟨hne, _⟩ | ⟨_, hcon, hid, _⟩
        · exact absurd rfl hne
        · obtain ⟨hres, -⟩ := hcon.latest hlat
          rw [hres, hid, hk.cursor, hm]
          exact fun heq => hsm (identityAt_injective heq)
      · exact lookup_insert_ne { execution with cursor := cursor } hm hsm hfd

lemma Owner.Recording.claimed (h : self.Recording offer) (identity : Identity) :
    (Owner.mk self.session (self.log ++ [.claimed identity])).Recording offer := by
  intro other hmem
  have hacc : other ∈ self.log.filterMap acceptedIdentity := by simpa [acceptedIdentity] using hmem
  obtain ⟨calls, first, rest, hrcd⟩ := h other hacc
  refine ⟨calls, first, rest, hrcd.frame ?_ fun execution hlk => hlk⟩
  rw [filterMap_append]
  exact append_nil _

lemma Owner.Recording.release (h : self.Recording offer) (hrel : self.release identity = .ok next)
    : next.Recording offer := by
  obtain ⟨execution, _, hlat⟩ := bind_ok hrel
  obtain ⟨latest, _, hchk⟩ := bind_ok hlat
  obtain ⟨_, _, hnx⟩ := bind_ok hchk
  cases hnx
  intro other hmem
  obtain ⟨calls, first, rest, hrcd⟩ := h other hmem
  refine ⟨calls, first, rest, hrcd.frame rfl fun found hfd => ?_⟩
  unfold Session.lookup at hfd ⊢
  rw [get?_erase] at hfd
  split at hfd
  · rename_i hno
    split at hno
    · cases hno
    · rw [hno]
      exact hfd
  · cases hfd

lemma Owner.Changes.recording (hx : OutcomeCodec.Exact O) {before after : Owner P O}
    (h : Owner.Changes services before after) (hinv : before.Inv offer maxExecutions maxBytes)
    (hrec : before.Recording offer) : after.Recording offer := by
  induction h with
  | refl => exact hrec
  | trans hab _ ihab ihbc => exact ihbc (hab.keeps hinv).1 (ihab hinv hrec)
  | accept hpre hcha hnx ih =>
    exact (ih hinv hrec).accept (hcha.keeps hinv).1 hinv.sameOffer hnx hpre
  | advance hlk hadv => exact hrec.advance hx hinv hlk hadv
  | claim hlk _ _ hcm =>
    obtain ⟨running, _, hr⟩ := bind_ok hcm
    obtain ⟨⟨result, owner⟩, hadv, hnx⟩ := bind_ok hr
    cases hnx
    exact (hrec.advance hx hinv hlk hadv).claimed _
  | release hrel => exact hrec.release hrel

/-- What a client sees of a history, now and after further deliveries. -/
structure Client.Follows (history : List (Receipt O)) (first : Receipt O)
    (client final : Client O) : Prop where
  accepts : client.cursor.online = true → ∀ receipt ∈ history,
    ∃ next disposition, client.cursor.observe receipt = .ok (next, disposition)
  highest : ∃ last, client.delivered.argmax Receipt.sequence = some last ∧
    (first :: client.advanced).getLast? = some last ∧ client.cursor.latest = .ok last ∧
      client.cursor.sequence = last.sequence ∧ client.cursor.phase = last.state.phase ∧
        client.cursor.acknowledged = last.cancelRequested
  phase : client.cursor.phase.rank ≤ final.cursor.phase.rank
  acknowledged : client.cursor.acknowledged = true → final.cursor.acknowledged = true
  terminal : client.cursor.phase = .terminal →
    (final.cursor.latest : Except String (Receipt O)) = client.cursor.latest

lemma Client.At.follows {canCancel : Bool} {history : List (Receipt O)} {last : Receipt O}
    {client : Client O} (h : client.At identity calls canCancel history first last)
    (hhist : History identity calls canCancel history) {later : List (Delivery O)}
    (hlater : FromHistory history later) : client.Follows history first (client.run later) := by
  have hlatest {client : Client O} {last : Receipt O}
      (h : client.At identity calls canCancel history first last) :
      client.cursor.latest = .ok last := by
    rw [latest, h.holds.evidence, (hhist.receipts last h.member).written]
  obtain ⟨last', hl', hrea⟩ := h.run hhist hlater
  refine ⟨fun honl receipt hmem => ?_, ⟨last, h.highest, h.accepted, hlatest h, h.holds.sequence,
    h.holds.phase, h.holds.acknowledged⟩, ?_, fun hack => ?_, fun hter => ?_⟩
  · rcases h.observe hhist hmem honl with ⟨_, hobs⟩ | ⟨_, hobs⟩ |
      ⟨_, next, hobs, _⟩
    · exact ⟨_, _, hobs⟩
    · exact ⟨_, _, hobs⟩
    · exact ⟨_, _, hobs⟩
  · rw [h.holds.phase, hl'.holds.phase]
    rcases hrea with rfl | hnx
    · exact Nat.le_refl _
    · exact hnx.phase
  · rw [h.holds.acknowledged] at hack
    rw [hl'.holds.acknowledged]
    rcases hrea with rfl | hnx
    · exact hack
    · exact hnx.acknowledged hack
  · rw [h.holds.phase] at hter
    rcases hrea with rfl | hnx
    · rw [hlatest hl', hlatest h]
    · exact absurd hter hnx.unfinished

lemma Cursor.start_at {cursor : Cursor} (hsta : start offer identity calls first = .ok cursor) :
    (Client.mk cursor [first] []).At identity calls offer.cancel (first :: rest) first first := by
  obtain ⟨hholds, hid, hcls, hccl, -, -⟩ := start_holds hsta
  exact ⟨hid, hcls, hccl, mem_cons_self, hholds, argmax_singleton, rfl⟩

/-- Whatever is lost, repeated or reordered of a history, its client follows it, and
what an owner publishes for an execution is such a history. -/
theorem Client.follows_histories [DecidableEq P] :
    (∀ (offer : Offer) (identity : Identity) (calls : List String) (first : Receipt O)
      (rest : List (Receipt O)) (cursor : Cursor) (earlier later : List (Delivery O)),
      Cursor.start offer identity calls first = .ok cursor →
        History identity calls offer.cancel (first :: rest) →
          FromHistory (first :: rest) earlier → FromHistory (first :: rest) later →
            (Client.run earlier ⟨cursor, [first], []⟩).Follows (first :: rest) first
              (Client.run later (Client.run earlier ⟨cursor, [first], []⟩))) ∧
    ∀ (services : Services U S L K P O) (offer : Offer) (maxExecutions maxBytes : Int)
      (session : Session P) (operations : List (Operation U S L K P O)) (identity : Identity),
      OutcomeCodec.Exact O → Session.new offer maxExecutions maxBytes = .ok session →
        identity ∈ (Owner.run services operations ⟨session, []⟩).log.filterMap
          Event.acceptedIdentity →
        ∃ calls first rest cursor,
          (Owner.run services operations ⟨session, []⟩).log.filterMap (Event.receiptOf identity) =
            first :: rest ∧
          Cursor.start offer identity calls first = .ok cursor ∧
          History identity calls offer.cancel (first :: rest) := by
  constructor
  · intro offer identity calls first rest cursor earlier later hsta hhist hear hlat
    obtain ⟨last, hl, -⟩ := (start_at hsta).run hhist hear
    exact hl.follows hhist hlat
  · intro services offer maxExecutions maxBytes session operations identity hx hnew hmem
    have hrec : (Owner.mk (O := O) session []).Recording offer := nofun
    obtain ⟨calls, first, rest, hrcd⟩ :=
      (Owner.run_changes operations ⟨session, []⟩).recording hx (new_inv hnew)
        hrec identity hmem
    obtain ⟨cursor, hcur⟩ := hrcd.started
    exact ⟨calls, first, rest, cursor, hrcd.published, hcur, hrcd.history⟩

def queryOffer : Offer := ⟨"host", "session", "provider", false⟩

def queryIdentity : Identity := ⟨"host", "session", "provider", "execution", "snapshot"⟩

def queryReceipt (sequence : Int) (state : State Ran) (acknowledged : Bool) : Receipt Ran :=
  ⟨queryIdentity, sequence, state, acknowledged⟩

def queryCursor : Cursor :=
  ⟨queryIdentity, ["call"], (queryReceipt 0 .submitted false).toJson, 0, .submitted, false, false,
    true⟩

lemma queryCursor_started : start queryOffer queryIdentity ["call"]
    (queryReceipt 0 .submitted false) = .ok queryCursor := rfl

lemma names_written {written : List String}
    (h : ((written.map Json.string).map some).mapM name = .ok calls) : calls = written := by
  induction written generalizing calls with
  | nil => exact (Except.ok.inj h).symm
  | cons call written ih =>
    rw [map_cons, map_cons, mapM_cons] at h
    obtain ⟨call', hca, hr⟩ := bind_ok h
    obtain ⟨calls', hcls, heq⟩ := bind_ok hr
    cases heq
    rw [name_ok hca, ih hcls]

lemma Ran.exact : OutcomeCodec.Exact Ran := by
  intro _ outcomes outcomes' _ hrd
  obtain ⟨calls, hcls, rfl⟩ := map_ok hrd
  rw [bind_pure_comp] at hcls
  exact congrArg Ran.mk (names_written hcls)

set_option maxRecDepth 4000 in
theorem Client.follows_histories_query :
    (Client.run [.disconnect, .reconnect queryOffer,
        .receipt (queryReceipt 3 (.terminal ⟨["call"]⟩) false)]
      ⟨queryCursor, [queryReceipt 0 .submitted false], []⟩).Follows
        [queryReceipt 0 .submitted false, queryReceipt 3 (.terminal ⟨["call"]⟩) false]
        (queryReceipt 0 .submitted false)
        (Client.run [] (Client.run [.disconnect, .reconnect queryOffer,
          .receipt (queryReceipt 3 (.terminal ⟨["call"]⟩) false)]
          ⟨queryCursor, [queryReceipt 0 .submitted false], []⟩)) ∧
    ∃ calls first rest cursor,
      (Owner.run oneCall [.submit () ()] ⟨oneCallSession, []⟩).log.filterMap
          (Event.receiptOf (identityAt ⟨"host", "session", "provider", true⟩ 1)) = first :: rest ∧
        Cursor.start ⟨"host", "session", "provider", true⟩
          (identityAt ⟨"host", "session", "provider", true⟩ 1) calls first = .ok cursor ∧
        History (identityAt ⟨"host", "session", "provider", true⟩ 1) calls true
          (first :: rest) := by
  obtain ⟨hfol, hpub⟩ := Client.follows_histories (P := Unit) (O := Ran)
  have hhist : History queryIdentity ["call"] false
      [queryReceipt 0 .submitted false, queryReceipt 3 (.terminal ⟨["call"]⟩) false] := by
    refine ⟨isChain_pair.mpr ⟨by decide, by decide, nofun, .inl (by decide), by decide⟩, ?_⟩
    intro receipt hrcp
    rcases mem_pair.mp hrcp with rfl | rfl
    · exact ⟨rfl, rfl, nofun, nofun⟩
    · refine ⟨rfl, rfl, fun outcomes hst => ?_, nofun⟩
      obtain rfl := State.terminal.inj hst
      rfl
  refine ⟨hfol queryOffer queryIdentity ["call"] _ _ queryCursor _ [] queryCursor_started
      hhist ?_ nofun, ?_⟩
  · intro receipt hrcp
    simp only [mem_cons, reduceCtorEq, Delivery.receipt.injEq, not_mem_nil, or_false,
      false_or] at hrcp
    rw [hrcp]
    exact mem_cons_of_mem _ mem_cons_self
  · exact hpub oneCall _ 2 4194304 oneCallSession [.submit () ()] _ Ran.exact
      (if_neg (by decide)) (by decide +kernel)

set_option maxRecDepth 4000 in
/-- A producer that acknowledges a cancellation nobody could ask for is not followed,
though its receipts only move forward. -/
theorem Client.not_follows_acknowledged :
    ¬ ∀ (offer : Offer) (identity : Identity) (calls : List String) (first : Receipt Ran)
      (rest : List (Receipt Ran)) (cursor : Cursor),
      Cursor.start offer identity calls first = .ok cursor →
        (first :: rest).IsChain Receipt.Next →
          (∀ receipt ∈ first :: rest, receipt.identity = identity ∧
            Receipt.fromJson receipt.toJson = .ok receipt) →
            ∀ receipt ∈ first :: rest,
              cursor.observe receipt ≠ .error "workbench.execution_negotiation" := by
  intro h
  refine h queryOffer queryIdentity ["call"] (queryReceipt 0 .submitted false)
    [queryReceipt 1 .submitted true] queryCursor queryCursor_started
    (isChain_pair.mpr ⟨by decide, by decide, nofun, .inr (by decide), by decide⟩) ?_
    (queryReceipt 1 .submitted true) (mem_cons_of_mem _ mem_cons_self) rfl
  intro receipt hrcp
  rcases mem_pair.mp hrcp with rfl | rfl
  · exact ⟨rfl, rfl⟩
  · exact ⟨rfl, rfl⟩

end Morphir.Executions
