import Morphir.Executions.Owner
import Morphir.Library.Numbered

/-!
# Runs of the owner

Every operation is made of three changes: a candidate is accepted, a receipt
moves an execution forward, an execution is released.  Each keeps the invariant
of the owner and its log, and so does every run, whatever validators call.
-/

namespace Morphir.Executions

open Morphir.Host Fallible List OrdMap Event Nat Json

variable {U S L K P O : Type} [OutcomeCodec O]

def identityAt (offer : Offer) (n : Nat) : Identity :=
  ⟨offer.host, offer.session, offer.provider, "execution-" ++ toString n, "snapshot-" ++ toString n⟩

lemma escapeChar_digit {c : Char} (h : c.isDigit = true) : escapeChar c = String.singleton c := by
  have hne (d : Char) (hd : d.isDigit = false) : c ≠ d := by
    rintro rfl
    rw [h] at hd
    cases hd
  have hc : 48 ≤ c.toNat ∧ c.toNat ≤ 57 := by simpa [Char.isDigit, UInt32.le_iff_toNat_le] using h
  simp only [escapeChar]
  rw [if_neg (hne '"' (by decide)), if_neg (hne '\\' (by decide)), if_neg (hne '\n' (by decide)),
    if_neg (hne '\r' (by decide)), if_neg (hne '\t' (by decide)), if_neg (by omega),
    if_neg (by omega), if_neg (by omega)]

lemma join_escapeChar_digits {digits : List Char} (h : ∀ c ∈ digits, c.isDigit = true) :
    (String.join (digits.map Json.escapeChar)).toList = digits := by
  rw [String.toList_join, flatMap_map]
  induction digits with
  | nil => rfl
  | cons c digits ih =>
    rw [flatMap_cons, escapeChar_digit (h c mem_cons_self),
      ih fun d hd => h d (mem_cons_of_mem c hd)]
    simp

lemma quoted_numbered (front : String) (n : Nat) :
    (Json.quoted (front ++ toString n)).toList =
      ('"' :: (String.join (front.toList.map escapeChar)).toList) ++
        ((toString n).toList ++ ['"']) := by
  have hds := join_escapeChar_digits (Numbered.digits_toString n)
  simp only [Json.quoted, String.toList_append, map_append, String.toList_join,
    flatMap_append] at hds ⊢
  rw [hds]
  simp

lemma digits_before_quote {m n : Nat} {back back' : List Char}
    (h : (toString m).toList ++ '"' :: back = (toString n).toList ++ '"' :: back') : m = n := by
  have hquote (k : Nat) : '"' ∉ (toString k).toList := fun hmem => by
    have := Numbered.digits_toString k _ hmem
    cases this
  have htake (k : Nat) (rest : List Char) :
      ((toString k).toList ++ '"' :: rest).takeWhile (· ≠ '"') = (toString k).toList := by
    rw [takeWhile_append_of_pos]
    · simp
    · rintro c hc
      simpa using fun (he : c = '"') => hquote k (he ▸ hc)
  have hdigs := congrArg (List.takeWhile (· ≠ '"')) h
  rw [htake, htake] at hdigs
  exact Numbered.toString_injective (String.toList_injective hdigs)

lemma key_eq (offer : Offer) : ∃ front : String, ∀ k, ∃ back : String,
    key (identityAt offer k) = front ++ (quoted ("execution-" ++ toString k) ++ back) := by
  refine ⟨"\x7b" ++ (quoted "hostId" ++ ":" ++ quoted offer.host) ++ "," ++
      (quoted "sessionId" ++ ":" ++ quoted offer.session) ++ "," ++
      (quoted "providerId" ++ ":" ++ quoted offer.provider) ++ "," ++
      (quoted "executionId" ++ ":"), fun k => ⟨"," ++ (quoted "snapshotId" ++ ":" ++
        quoted ("snapshot-" ++ toString k)) ++ "\x7d", ?_⟩⟩
  simp only [key, identityAt, Identity.toJson, stringify, stringifyFields,
    String.intercalate_cons_cons, String.intercalate_singleton, String.append_assoc]

lemma key_injective {m n : Nat} (h : key (identityAt offer m) = key (identityAt offer n)) :
    m = n := by
  obtain ⟨front, hkey⟩ := key_eq offer
  obtain ⟨back, hm⟩ := hkey m
  obtain ⟨back', hn⟩ := hkey n
  rw [hm, hn] at h
  have hli := congrArg String.toList h
  simp only [String.toList_append, quoted_numbered] at hli
  have hr := append_cancel_left hli
  simp only [append_assoc] at hr
  exact digits_before_quote (append_cancel_left hr)

def Event.acceptedIdentity : Event O → Option Identity
  | .accepted identity => some identity
  | _ => none

def Event.claimedIdentity : Event O → Option Identity
  | .claimed identity => some identity
  | _ => none

def Event.receiptOf (identity : Identity) : Event O → Option (Receipt O)
  | .published receipt => if receipt.identity = identity then some receipt else none
  | _ => none

/-- A later receipt of an execution has a higher sequence, and none follows a
terminal one. -/
def Event.Before : Event O → Event O → Prop
  | .published earlier, .published later => earlier.identity = later.identity →
      earlier.sequence < later.sequence ∧ earlier.state.phase ≠ .terminal
  | _, _ => True

variable (log : List (Event O))

omit [OutcomeCodec O] in
lemma acceptedIdentities_published (receipt : Receipt O) :
    (log ++ [published receipt]).filterMap acceptedIdentity =
      log.filterMap acceptedIdentity := by
  rw [filterMap_append]
  exact append_nil _

omit [OutcomeCodec O] in
lemma claimedIdentities_published (receipt : Receipt O) :
    (log ++ [published receipt]).filterMap claimedIdentity =
      log.filterMap claimedIdentity := by
  rw [filterMap_append]
  exact append_nil _

omit [OutcomeCodec O] in
lemma claimedIdentities_accepted (identity : Identity) (receipt : Receipt O) :
    (log ++ [accepted identity, .published receipt]).filterMap claimedIdentity =
      log.filterMap claimedIdentity := by
  rw [filterMap_append]
  exact append_nil _

structure Execution.Kept (offer : Offer) (next : Nat) (log : List (Event O)) (entryKey : String)
    (execution : Execution P) : Prop where
  numbered : ∃ n, 0 < n ∧ n < next ∧ execution.identity = identityAt offer n
  keyed : entryKey = key execution.identity
  cursor : execution.cursor.identity = execution.identity
  consistent : execution.cursor.Consistent O
  reserved : 0 ≤ execution.reserved
  unclaimed : execution.cursor.phase = .submitted →
    execution.identity ∉ log.filterMap Event.claimedIdentity
  published : ∀ receipt, .published receipt ∈ log → receipt.identity = execution.identity →
    receipt.sequence ≤ execution.cursor.sequence ∧
      (receipt.state.phase = .terminal → execution.cursor.phase = .terminal)
  latest : ∃ receipt, (log.filterMap (Event.receiptOf execution.identity)).getLast? = some receipt ∧
    execution.cursor.latest = .ok receipt

structure Owner.Inv (offer : Offer) (maxExecutions maxBytes : Int) (owner : Owner P O) : Prop where
  sameOffer : owner.session.offer = offer
  limits : owner.session.maxExecutions = maxExecutions ∧ owner.session.maxBytes = maxBytes
  next : 0 < owner.session.next
  distinct : OrdMap.Distinct owner.session.executions
  kept : ∀ entryKey execution, get? owner.session.executions entryKey = some execution →
    execution.Kept offer owner.session.next owner.log entryKey
  reserved : owner.session.reserved = OrdMap.total Execution.reserved owner.session.executions
  within : owner.session.reserved ≤ maxBytes
  room : owner.session.executions.length ≤ maxExecutions
  accepted : owner.log.filterMap Event.acceptedIdentity =
    (List.range (owner.session.next - 1)).map fun k => identityAt offer (k + 1)
  claims : (owner.log.filterMap Event.claimedIdentity).Nodup
  past : ∀ event ∈ owner.log, ∀ receipt, event = .published receipt →
    ∃ n, 0 < n ∧ n < owner.session.next ∧ receipt.identity = identityAt offer n
  claimedPast : ∀ identity ∈ owner.log.filterMap Event.claimedIdentity,
    ∃ n, 0 < n ∧ n < owner.session.next ∧ identity = identityAt offer n
  ordered : owner.log.Pairwise Event.Before

structure Owner.Follows (before after : Owner P O) : Prop where
  next : before.session.next ≤ after.session.next
  frees : after.session.next = before.session.next →
    after.session.reserved ≤ before.session.reserved ∧
      after.session.executions.length ≤ before.session.executions.length
  log : before.log <+: after.log

omit [OutcomeCodec O] in
lemma Owner.Follows.refl (owner : Owner P O) : owner.Follows owner :=
  ⟨le_refl _, fun _ => ⟨Int.le_refl _, le_refl _⟩, prefix_rfl⟩

omit [OutcomeCodec O] in
lemma Owner.Follows.trans {a b c : Owner P O} (h : a.Follows b) (h' : b.Follows c) :
    a.Follows c := by
  have hab := h.next
  have hbc := h'.next
  refine ⟨le_trans hab hbc, fun heq => ?_, h.log.trans h'.log⟩
  obtain ⟨hresv, hlen⟩ := h.frees (by omega)
  obtain ⟨hresv', hlen'⟩ := h'.frees (by omega)
  exact ⟨Int.le_trans hresv' hresv, le_trans hlen' hlen⟩

structure Session.Prepared (session : Session P) (execution : Execution P) (initial : Receipt O) :
    Prop where
  room : (session.executions.length : Int) < session.maxExecutions
  identity : execution.identity = identityAt session.offer session.next
  cursor : execution.cursor.identity = execution.identity
  consistent : execution.cursor.Consistent O
  sequence : execution.cursor.sequence = 0
  phase : execution.cursor.phase = .submitted
  reserved : 0 ≤ execution.reserved
  within : session.reserved + execution.reserved ≤ session.maxBytes
  first : initial.identity = execution.identity ∧ initial.sequence = 0 ∧
    initial.state.phase = .submitted
  latest : execution.cursor.latest = .ok initial

variable {identity : Identity} {initial : Receipt O}

lemma receipt_initial (h : receipt identity 0 .submitted false = .ok initial) :
    Receipt.fromJson initial.toJson = .ok initial := by
  obtain ⟨hid, hseq, hph, hack⟩ := Receipt.fromJson_ok h
  obtain ⟨identity', sequence', state', acknowledged'⟩ := initial
  obtain rfl : identity' = identity := hid
  obtain rfl : sequence' = 0 := hseq
  obtain rfl : acknowledged' = false := hack
  cases state' with
  | submitted => exact h
  | running => cases hph
  | terminal outcomes => cases hph

variable {policy : Option P}

omit [OutcomeCodec O] in
lemma Session.selectKind_ok {self : Session P} {captured : U} {suite : S} {reserved : Int}
    {kind : ExecutionKind P} {total : Int}
    (h : self.selectKind services captured suite policy reserved = .ok (kind, total))
    (hresv : 0 ≤ reserved) (hwi : reserved ≤ self.maxBytes - self.reserved) :
    0 ≤ total ∧ total ≤ self.maxBytes - self.reserved := by
  cases policy with
  | none =>
    obtain ⟨plan, _, hkd⟩ := bind_ok h
    cases hkd
    exact ⟨hresv, hwi⟩
  | some policy =>
    obtain ⟨plan, _, hbou⟩ := bind_ok h
    obtain ⟨_, hcap, hkd⟩ := bind_ok hbou
    cases hkd
    have := refuse_ok hcap
    exact ⟨by omega, by omega⟩

variable {execution : Execution P}

lemma Session.prepare_ok {self : Session P} {unit : U} {suite : S}
    (h : self.prepare services unit suite policy = .ok (execution, initial)) :
    self.Prepared execution initial := by
  obtain ⟨_, hrm, hsna⟩ := bind_ok h
  obtain ⟨snapshot, _, henc⟩ := bind_ok hsna
  obtain ⟨encodedSuite, _, hcapture⟩ := bind_ok henc
  obtain ⟨capturedSuite, _, hcapacity⟩ := bind_ok hcapture
  obtain ⟨_, hwi, hdec⟩ := bind_ok hcapacity
  obtain ⟨captured, _, hval⟩ := bind_ok hdec
  obtain ⟨_, _, hsel⟩ := bind_ok hval
  obtain ⟨⟨kind, total⟩, hkd, hnx⟩ := bind_ok hsel
  obtain ⟨identity, hid, hfst⟩ := bind_ok hnx
  obtain ⟨initial', hini, hsta⟩ := bind_ok hfst
  obtain ⟨cursor, hcur, hcd⟩ := bind_ok hsta
  cases hcd
  have hrm := refuse_ok hrm
  have hwi := refuse_ok hwi
  obtain ⟨hpos, hto⟩ := Session.selectKind_ok hkd (by omega) (by omega)
  obtain ⟨hcon, hexp, hseq, hevi, hph⟩ := Cursor.start_ok hcur
  obtain ⟨hid', hz, hsub, _⟩ := Receipt.fromJson_ok hini
  refine ⟨by omega, Identity.fromJson_ok hid, hexp, hcon, hseq, hph, hpos, ?_, ⟨hid', hz, hsub⟩, ?_⟩
  · dsimp only
    omega
  · rw [Cursor.latest, hevi]
    exact receipt_initial hini

variable {offer : Offer} {maxExecutions maxBytes : Int}

lemma identityAt_injective {m n : Nat} (h : identityAt offer m = identityAt offer n) : m = n :=
  key_injective (congrArg key h)

lemma Execution.Kept.extend {next next' : Nat} {log events : List (Event O)} {entryKey : String}
    (h : execution.Kept offer next log entryKey) (hnx : next ≤ next')
    (heve : ∀ event ∈ events, event.claimedIdentity ≠ some execution.identity ∧
      event.receiptOf execution.identity = none) :
    execution.Kept offer next' (log ++ events) entryKey := by
  have hcla : execution.identity ∉ events.filterMap claimedIdentity := by
    intro hmem
    obtain ⟨event, hev, hid⟩ := mem_filterMap.mp hmem
    exact (heve event hev).1 hid
  have hrec : events.filterMap (receiptOf execution.identity) = [] :=
    filterMap_eq_nil_iff.mpr fun event hev => (heve event hev).2
  obtain ⟨n, hpos, hn, hid⟩ := h.numbered
  refine ⟨⟨n, hpos, lt_of_lt_of_le hn hnx, hid⟩, h.keyed, h.cursor, h.consistent,
    h.reserved, fun hph => ?_, fun receipt hrcp hsm => ?_, ?_⟩
  · rw [filterMap_append, mem_append, not_or]
    exact ⟨h.unclaimed hph, hcla⟩
  · rcases mem_append.mp hrcp with hrcp | hrcp
    · exact h.published receipt hrcp hsm
    · have hno := (heve _ hrcp).2
      simp [receiptOf, hsm] at hno
  · rw [filterMap_append, hrec, append_nil]
    exact h.latest

variable {before after : Owner P O}

lemma Owner.Inv.accept (hinv : after.Inv offer maxExecutions maxBytes)
    (hfol : before.Follows after) (hof : before.session.offer = offer)
    (hlim : before.session.maxExecutions = maxExecutions ∧ before.session.maxBytes = maxBytes)
    (hnx : after.session.next = before.session.next)
    (hpre : before.session.Prepared execution initial) :
    (Owner.mk (after.session.accept execution)
      (after.log ++ [.accepted execution.identity, .published initial])).Inv
        offer maxExecutions maxBytes := by
  obtain ⟨hfrees, hlen⟩ := hfol.frees hnx
  have hid : execution.identity = identityAt offer after.session.next := by
    rw [hpre.identity, hof, hnx]
  have hfr (n : Nat) (hn : n < after.session.next) : execution.identity ≠ identityAt offer n := by
    intro heq
    rw [hid] at heq
    exact absurd (identityAt_injective heq).symm (Nat.ne_of_lt hn)
  have hnew : get? after.session.executions (key execution.identity) = none := by
    cases hget : get? after.session.executions (key execution.identity) with
    | none => rfl
    | some other =>
      have hk := hinv.kept _ _ hget
      obtain ⟨n, _, hn, ho⟩ := hk.numbered
      have hkey := hk.keyed
      rw [ho, hid] at hkey
      exact absurd (key_injective hkey).symm (Nat.ne_of_lt hn)
  have hpos := hinv.next
  refine ⟨hinv.sameOffer, hinv.limits, succ_pos _, hinv.distinct.insert _ _, ?_, ?_, ?_, ?_, ?_,
    ?_, ?_, ?_, ?_⟩
  · intro entryKey entry hget
    rw [Session.accept, get?_insert] at hget
    split at hget
    · rename_i hkey
      cases hget
      refine ⟨⟨_, hpos, lt_succ_self _, hid⟩, hkey.symm, hpre.cursor,
        hpre.consistent, hpre.reserved, fun _ hcla => ?_, fun receipt hrcp hsm => ?_,
        initial, ?_, hpre.latest⟩
      · have hold : execution.identity ∈ after.log.filterMap claimedIdentity := by
          rwa [claimedIdentities_accepted] at hcla
        obtain ⟨n, _, hn, heq⟩ := hinv.claimedPast _ hold
        exact hfr n hn heq
      · rcases mem_append.mp hrcp with hrcp | hrcp
        · obtain ⟨n, _, hn, heq⟩ := hinv.past _ hrcp receipt rfl
          exact absurd (hsm.symm.trans heq) (hfr n hn)
        · obtain rfl : receipt = initial := by simpa using hrcp
          refine ⟨by rw [hpre.first.2.1, hpre.sequence], fun hter => ?_⟩
          rw [hpre.first.2.2] at hter
          cases hter
      · simp [receiptOf, hpre.first.1]
    · refine (hinv.kept _ _ hget).extend (le_succ _) fun event hev => ?_
      obtain ⟨n, _, hn, hent⟩ := (hinv.kept _ _ hget).numbered
      have hne := hfr n hn
      rcases mem_pair.mp hev with rfl | rfl
      · exact ⟨by simp [claimedIdentity], rfl⟩
      · refine ⟨by simp [claimedIdentity], ?_⟩
        simp [receiptOf, hpre.first.1, hent, hne]
  · rw [Session.accept, OrdMap.total_insert_new hnew, ← hinv.reserved]
  · have := hpre.within
    simp only [Session.accept]
    omega
  · have := hpre.room
    rw [Session.accept, insert_of_notMem (get?_eq_none_iff.mp hnew)]
    simp only [length_append, length_singleton]
    omega
  · have hsucc : after.session.next + 1 - 1 = after.session.next - 1 + 1 := by omega
    have hl : after.session.next - 1 + 1 = after.session.next := by omega
    have heve : [Event.accepted execution.identity, .published initial].filterMap
        Event.acceptedIdentity = [execution.identity] := rfl
    rw [filterMap_append, hinv.accepted, heve, Session.accept, hsucc, range_succ,
      map_append, map_singleton, hl, hid]
  · rw [claimedIdentities_accepted]
    exact hinv.claims
  · rintro event hev receipt rfl
    rcases mem_append.mp hev with hev | hev
    · obtain ⟨n, hz, hn, heq⟩ := hinv.past _ hev receipt rfl
      exact ⟨n, hz, lt_succ_of_lt hn, heq⟩
    · obtain rfl : receipt = initial := by simpa using hev
      exact ⟨_, hpos, lt_succ_self _, hpre.first.1.trans hid⟩
  · intro identity hcla
    rw [claimedIdentities_accepted] at hcla
    obtain ⟨n, hz, hn, heq⟩ := hinv.claimedPast _ hcla
    exact ⟨n, hz, lt_succ_of_lt hn, heq⟩
  · refine pairwise_append.mpr ⟨hinv.ordered, by simp [Before], ?_⟩
    intro earlier hear later hlat
    rcases mem_pair.mp hlat with rfl | rfl
    · cases earlier <;> trivial
    · cases earlier with
      | published receipt =>
        intro hsm
        obtain ⟨n, _, hn, heq⟩ := hinv.past _ hear receipt rfl
        rw [hpre.first.1, heq] at hsm
        exact absurd hsm.symm (hfr n hn)
      | _ => trivial

omit [OutcomeCodec O] in
lemma Session.lookup_ok {self : Session P} (h : self.lookup identity = .ok execution) :
    get? self.executions (key identity) = some execution ∧ execution.identity = identity := by
  unfold Session.lookup at h
  split at h
  · rename_i execution' hget
    split at h
    · cases h
      exact ⟨hget, by assumption⟩
    · cases h
  · cases h

variable {result : Receipt O}

lemma Owner.Inv.publish {self : Owner P O} (hinv : self.Inv offer maxExecutions maxBytes)
    (hget : get? self.session.executions (key execution.identity) = some execution)
    {cursor : Cursor} (hlatest : cursor.latest = .ok result) (hcon : cursor.Consistent O)
    (hid : cursor.identity = execution.cursor.identity)
    (hseq : execution.cursor.sequence < cursor.sequence) (hop : execution.cursor.phase ≠ .terminal)
    (hfwd : execution.cursor.phase = .running → cursor.phase ≠ .submitted) :
    (Owner.mk { self.session with
        executions := OrdMap.insert self.session.executions (key execution.identity)
          { execution with cursor := cursor } } (self.log ++ [.published result])).Inv
      offer maxExecutions maxBytes := by
  have hk := hinv.kept _ _ hget
  obtain ⟨hres, hnum, hph, _⟩ := hcon.latest hlatest
  rw [hid, hk.cursor] at hres
  refine ⟨hinv.sameOffer, hinv.limits, hinv.next, hinv.distinct.insert _ _, ?_, ?_, hinv.within, ?_, ?_,
    ?_, ?_, ?_, ?_⟩
  · intro entryKey entry hent
    rw [get?_insert] at hent
    split at hent
    · rename_i hkey
      cases hent
      refine ⟨hk.numbered, hkey.symm, hid.trans hk.cursor, hcon, hk.reserved,
        fun hsub => ?_, fun receipt hrcp hsm => ?_, result, ?_, hlatest⟩
      · have hpre : execution.cursor.phase = .submitted := by
          cases hc : execution.cursor.phase with
          | submitted => rfl
          | running => exact absurd hsub (hfwd hc)
          | terminal => exact absurd hc hop
        rw [claimedIdentities_published]
        exact hk.unclaimed hpre
      · rcases mem_append.mp hrcp with hrcp | hrcp
        · obtain ⟨hle, hter⟩ := hk.published receipt hrcp hsm
          exact ⟨Int.le_of_lt (Int.lt_of_le_of_lt hle hseq), fun hph => absurd (hter hph) hop⟩
        · obtain rfl : receipt = result := by simpa using hrcp
          exact ⟨Int.le_of_eq hnum, fun hter => hph ▸ hter⟩
      · simp [receiptOf, hres]
    · rename_i hkey
      refine (hinv.kept _ _ hent).extend (le_refl _) fun event hev => ?_
      obtain rfl := mem_singleton.mp hev
      refine ⟨by simp [claimedIdentity], if_neg fun hsm => hkey ?_⟩
      rw [(hinv.kept _ _ hent).keyed, ← hsm, hres]
  · rw [hinv.reserved]
    exact (OrdMap.total_insert_same hget
      (rfl : Execution.reserved { execution with cursor := cursor } = _)).symm
  · rw [length_insert_of_get? hget]
    exact hinv.room
  · rw [acceptedIdentities_published]
    exact hinv.accepted
  · rw [claimedIdentities_published]
    exact hinv.claims
  · rintro event hev receipt rfl
    rcases mem_append.mp hev with hev | hev
    · exact hinv.past _ hev receipt rfl
    · obtain rfl : receipt = result := by simpa using hev
      rw [hres]
      exact hk.numbered
  · intro identity hcla
    rw [claimedIdentities_published] at hcla
    exact hinv.claimedPast identity hcla
  · refine pairwise_append.mpr ⟨hinv.ordered, pairwise_singleton _ _, ?_⟩
    intro earlier hear later hlater
    obtain rfl := mem_singleton.mp hlater
    cases earlier with
    | published receipt =>
      intro hsm
      obtain ⟨hle, hter⟩ := hk.published receipt hear (hsm.trans hres)
      exact ⟨by omega, fun hph => hop (hter hph)⟩
    | _ => trivial

variable {self next : Owner P O}

lemma Owner.advance_ok
    (hget : get? self.session.executions (key execution.identity) = some execution)
    {receipt : Receipt O} (h : self.advance execution receipt = .ok (result, next)) :
    (next = self ∧ receipt.sequence ≤ execution.cursor.sequence) ∨
      ∃ cursor : Cursor, execution.cursor.observe receipt = .ok (cursor, .advanced) ∧
        cursor.latest = .ok result ∧
        next = Owner.mk { self.session with
          executions := OrdMap.insert self.session.executions (key execution.identity)
            { execution with cursor := cursor } } (self.log ++ [.published result]) := by
  obtain ⟨⟨cursor, disposition⟩, hobs, hr⟩ := bind_ok h
  obtain ⟨result', hlat, hnx⟩ := bind_ok hr
  obtain ⟨rfl, rfl⟩ := Prod.mk.inj (Except.ok.inj hnx)
  rcases Cursor.observe_ok hobs with ⟨hsm, rfl, hle⟩ | ⟨rfl, -⟩
  · refine .inl ⟨?_, hle⟩
    have hlog : disposition.events result' = [] := by
      cases disposition with
      | advanced => exact absurd rfl hsm
      | _ => rfl
    rw [hlog, insert_of_get? hget, append_nil]
  · exact .inr ⟨cursor, hobs, hlat, rfl⟩

lemma Owner.Inv.advance (hinv : self.Inv offer maxExecutions maxBytes)
    (hlk : self.session.lookup identity = .ok execution) {receipt : Receipt O}
    (h : self.advance execution receipt = .ok (result, next)) :
    (next = self ∧ receipt.sequence ≤ execution.cursor.sequence) ∨
      (next.Inv offer maxExecutions maxBytes ∧ self.Follows next ∧
        ∃ cursor : Cursor, cursor.phase = receipt.state.phase ∧
          next.session.lookup identity = .ok { execution with cursor := cursor } ∧
          next.log.filterMap claimedIdentity = self.log.filterMap claimedIdentity) := by
  obtain ⟨hget, rfl⟩ := Session.lookup_ok hlk
  rcases Owner.advance_ok hget h with hsm | ⟨cursor, hobs, hlat, rfl⟩
  · exact .inl hsm
  · rcases Cursor.observe_ok hobs with ⟨hne, _⟩ |
      ⟨_, hcon, hid, hseq, _, hop, hph, hfwd⟩
    · exact absurd rfl hne
    · refine .inr ⟨hinv.publish hget hlat hcon hid hseq hop hfwd,
        ⟨le_refl _, fun _ => ⟨Int.le_refl _, ?_⟩, prefix_append _ _⟩, cursor, hph, ?_, ?_⟩
      · rw [length_insert_of_get? hget]
      · simp [Session.lookup]
      · exact claimedIdentities_published _ _

lemma Owner.Inv.claimed {self : Owner P O} (hinv : self.Inv offer maxExecutions maxBytes)
    (hlk : self.session.lookup identity = .ok execution) (hph : execution.cursor.phase ≠ .submitted)
    (hfst : identity ∉ self.log.filterMap claimedIdentity) :
    (Owner.mk self.session (self.log ++ [.claimed identity])).Inv offer maxExecutions maxBytes := by
  obtain ⟨hget, rfl⟩ := Session.lookup_ok hlk
  have hcla : (self.log ++ [claimed execution.identity]).filterMap
      claimedIdentity =
      self.log.filterMap claimedIdentity ++ [execution.identity] := filterMap_append
  have hrec (other : Identity) :
      (self.log ++ [claimed execution.identity]).filterMap (receiptOf other) =
        self.log.filterMap (receiptOf other) := by
    rw [filterMap_append]
    exact append_nil _
  have hpub {receipt : Receipt O}
      (h : .published receipt ∈ self.log ++ [claimed execution.identity]) :
      .published receipt ∈ self.log := by
    simpa using h
  refine ⟨hinv.sameOffer, hinv.limits, hinv.next, hinv.distinct, fun entryKey entry hent => ?_,
    hinv.reserved, hinv.within, hinv.room, ?_, ?_, ?_, ?_, ?_⟩
  · have hk := hinv.kept _ _ hent
    refine ⟨hk.numbered, hk.keyed, hk.cursor, hk.consistent, hk.reserved,
      fun hsub hmem => ?_, fun receipt hrcp => hk.published receipt (hpub hrcp),
      ?_⟩
    · rw [hcla, mem_append, mem_singleton] at hmem
      rcases hmem with hmem | hsm
      · exact hk.unclaimed hsub hmem
      · rw [hk.keyed, hsm, hget] at hent
        cases hent
        exact hph hsub
    · rw [hrec]
      exact hk.latest
  · rw [filterMap_append]
    exact (append_nil _).trans hinv.accepted
  · rw [hcla]
    refine hinv.claims.append (nodup_singleton _) ?_
    exact disjoint_singleton.mpr hfst
  · rintro event hev receipt rfl
    exact hinv.past _ (hpub hev) receipt rfl
  · intro identity hmem
    rw [hcla, mem_append, mem_singleton] at hmem
    rcases hmem with hmem | rfl
    · exact hinv.claimedPast identity hmem
    · exact (hinv.kept _ _ hget).numbered
  · refine pairwise_append.mpr ⟨hinv.ordered, pairwise_singleton _ _, ?_⟩
    intro earlier _ later hlat
    obtain rfl := mem_singleton.mp hlat
    cases earlier <;> trivial

variable {latest : Receipt O}

lemma Owner.publishClaim_ok (hinv : self.Inv offer maxExecutions maxBytes)
    (hlk : self.session.lookup identity = .ok execution)
    (hlat : execution.cursor.latest = .ok latest) (hsub : latest.state.phase = .submitted)
    (h : publishClaim execution identity latest self = .ok next) :
    next.Inv offer maxExecutions maxBytes ∧ self.Follows next := by
  obtain ⟨running, hrun, hr⟩ := bind_ok h
  obtain ⟨⟨result, owner⟩, hadv, hnx⟩ := bind_ok hr
  cases hnx
  obtain ⟨_, hseq, hph, _⟩ := Receipt.fromJson_ok hrun
  obtain ⟨hget, rfl⟩ := Session.lookup_ok hlk
  have hk := hinv.kept _ _ hget
  obtain ⟨_, hnum, hpre, _⟩ := hk.consistent.latest hlat
  rcases hinv.advance hlk hadv with ⟨_, hle⟩ |
    ⟨howner, hfol, cursor, hcur, hmoved, hcla⟩
  · omega
  · refine ⟨howner.claimed hmoved ?_ ?_, ⟨hfol.next, hfol.frees,
      hfol.log.trans (prefix_append _ _)⟩⟩
    · rw [hcur, hph]
      simp [Publication.state, State.phase]
    · rw [hcla]
      exact hk.unclaimed (hpre.symm.trans hsub)

lemma Owner.Inv.release (hinv : self.Inv offer maxExecutions maxBytes)
    (h : self.release identity = .ok next) :
    next.Inv offer maxExecutions maxBytes ∧ self.Follows next := by
  obtain ⟨execution, hlk, hlat⟩ := bind_ok h
  obtain ⟨latest, _, hchk⟩ := bind_ok hlat
  obtain ⟨_, _, hnx⟩ := bind_ok hchk
  cases hnx
  obtain ⟨hget, rfl⟩ := Session.lookup_ok hlk
  have hresv := (hinv.kept _ _ hget).reserved
  have hlen := length_erase_le self.session.executions (key execution.identity)
  refine ⟨⟨hinv.sameOffer, hinv.limits, hinv.next, hinv.distinct.erase _,
    fun entryKey entry hent => ?_, ?_, ?_, ?_, hinv.accepted, hinv.claims, hinv.past,
    hinv.claimedPast, hinv.ordered⟩, le_refl _, fun _ => ⟨?_, hlen⟩, prefix_rfl⟩
  · rw [get?_erase] at hent
    split at hent
    · cases hent
    · exact hinv.kept _ _ hent
  · rw [OrdMap.total_erase hinv.distinct hget, ← hinv.reserved]
  · have := hinv.within
    dsimp only
    omega
  · have := hinv.room
    dsimp only
    omega
  · dsimp only
    omega

variable {services : Services U S L K P O}

/-- How operations change the owner: a candidate is accepted after the changes of its
validator, a receipt moves an execution, a worker claims one, one is released. -/
inductive Owner.Changes (services : Services U S L K P O) : Owner P O → Owner P O → Prop
  | refl (self : Owner P O) : Changes services self self
  | trans {a b c : Owner P O} (hab : Changes services a b) (hbc : Changes services b c) :
      Changes services a c
  | accept {before after : Owner P O} {unit : U} {suite : S} {policy : Option P}
      {execution : Execution P} {initial : Receipt O}
      (hprepare : before.session.prepare services unit suite policy = .ok (execution, initial))
      (hchanges : Changes services before after)
      (hnext : after.session.next = before.session.next) :
      Changes services before (Owner.mk (after.session.accept execution)
        (after.log ++ [.accepted execution.identity, .published initial]))
  | advance {self next : Owner P O} {identity : Identity} {execution : Execution P}
      {receipt result : Receipt O} (hlookup : self.session.lookup identity = .ok execution)
      (hadvance : self.advance execution receipt = .ok (result, next)) : Changes services self next
  | claim {self next : Owner P O} {identity : Identity} {execution : Execution P}
      {latest : Receipt O} (hlookup : self.session.lookup identity = .ok execution)
      (hlatest : execution.cursor.latest = .ok latest)
      (hsubmitted : latest.state.phase = .submitted)
      (hclaim : Owner.publishClaim execution identity latest self = .ok next) :
      Changes services self next
  | release {self next : Owner P O} {identity : Identity}
      (hrelease : self.release identity = .ok next) :
      Changes services self next

namespace Owner

lemma settle_changes {self : Owner P O} {α : Type} {reply : α → Reply L K P O}
    {result : Except String (α × Owner P O)}
    (h : ∀ value next, result = .ok (value, next) → Changes services self next) :
    Changes services self (self.settle reply result).2 := by
  cases result with
  | error e => exact .refl self
  | ok result => exact h result.1 result.2 rfl

lemma submitWith_changes {self : Owner P O} {unit : U} {suite : S}
    {validate : Option (Validator P O)}
    (hval : ∀ f ∈ validate, ∀ initial projection (owner : Owner P O),
      Changes services owner (f initial projection owner).2) :
    Changes services self (submitWith services unit suite policy validate self).2 := by
  unfold submitWith
  split
  · exact .refl self
  · rename_i execution initial hpre
    have hvd : Changes services self
        (validated services validate execution initial self).2 := by
      unfold validated
      split
      · exact .refl self
      · rename_i f
        split
        · exact .refl self
        · exact hval f rfl _ _ _
    split
    · rename_i hres
      rwa [hres] at hvd
    · rename_i owner hres
      rw [hres] at hvd
      split
      · rename_i hnx
        exact .accept hpre hvd hnx
      · exact hvd

omit [OutcomeCodec O] in
lemma checkSubmitted_ok (h : checkSubmitted latest = .ok ()) : latest.state.phase = .submitted := by
  unfold checkSubmitted at h
  split at h
  · rename_i hst
    rw [hst, State.phase]
  · cases h

lemma claim_changes {plan : L} (h : claim services identity self = .ok (plan, next)) :
    Changes services self next := by
  obtain ⟨execution, hlk, hr⟩ := bind_ok h
  obtain ⟨latest, hlat, hsub⟩ := bind_ok hr
  obtain ⟨_, hchk, hplan⟩ := bind_ok hsub
  obtain ⟨plan', _, hpub⟩ := bind_ok hplan
  obtain ⟨owner, howner, hnx⟩ := bind_ok hpub
  cases hnx
  exact .claim hlk hlat (checkSubmitted_ok hchk) howner

lemma claimScheme_changes [DecidableEq P] {planId providerId : String} {runtime : SchemeRuntime}
    {policy : P} {plan : K}
    (h : claimScheme services identity planId providerId runtime policy self = .ok (plan, next)) :
    Changes services self next := by
  obtain ⟨execution, hlk, hsel⟩ := bind_ok h
  obtain ⟨_, _, hr⟩ := bind_ok hsel
  obtain ⟨latest, hlat, hsub⟩ := bind_ok hr
  obtain ⟨_, hchk, hplan⟩ := bind_ok hsub
  obtain ⟨plan', _, hpub⟩ := bind_ok hplan
  obtain ⟨owner, howner, hnx⟩ := bind_ok hpub
  cases hnx
  exact .claim hlk hlat (checkSubmitted_ok hchk) howner

lemma cancel_changes (h : cancel identity self = .ok (result, next)) :
    Changes services self next := by
  obtain ⟨execution, hlk, hr⟩ := bind_ok h
  obtain ⟨latest, _, hact⟩ := bind_ok hr
  split at hact
  case h_1 | h_2 =>
    cases hact
    exact .refl _
  case h_3 | h_4 => cases hact
  case h_5 =>
    obtain ⟨next', _, hadv⟩ := bind_ok hact
    exact .advance hlk hadv

lemma complete_changes {outcomes : O}
    (h : complete services identity outcomes self = .ok (result, next)) :
    Changes services self next := by
  obtain ⟨execution, hlk, hchk⟩ := bind_ok h
  obtain ⟨_, _, hr⟩ := bind_ok hchk
  obtain ⟨latest, _, hrcp⟩ := bind_ok hr
  obtain ⟨terminal, _, hadv⟩ := bind_ok hrcp
  exact .advance hlk hadv

lemma observed_changes {α : Type} {result : Except String α} {value : α}
    (h : result.map (·, self) = .ok (value, next)) : Changes services self next := by
  obtain ⟨_, _, hnx⟩ := map_ok h
  cases hnx
  exact .refl _

variable [DecidableEq P]

mutual

theorem exec_changes (operation : Operation U S L K P O) (self : Owner P O) :
    Changes services self (exec services operation self).2 := by
  cases operation with
  | submit unit suite | submitScheme unit suite policy =>
    exact submitWith_changes fun f hf => by cases hf
  | submitSchemeWith unit suite policy validate =>
    refine submitWith_changes fun f hf initial projection owner => ?_
    cases hf
    exact calls_changes (validate initial projection) owner
  | query identity | describeScheme identity => exact settle_changes fun _ _ h => observed_changes h
  | claim identity => exact settle_changes fun _ _ h => claim_changes h
  | claimScheme identity planId providerId runtime policy =>
    exact settle_changes fun _ _ h => claimScheme_changes h
  | replanScheme identity planId providerId runtime policy =>
    rw [exec]
    split
    · exact .refl self
    · exact submitWith_changes fun f hf => by cases hf
  | cancel identity => exact settle_changes fun _ _ h => cancel_changes h
  | complete identity outcomes => exact settle_changes fun _ _ h => complete_changes h
  | release identity =>
    refine settle_changes fun _ next h => ?_
    obtain ⟨owner, howner, hnx⟩ := map_ok h
    obtain ⟨_, rfl⟩ := Prod.mk.inj hnx
    exact .release howner

theorem calls_changes (script : Calls U S L K P O) (self : Owner P O) :
    Changes services self (calls services script self).2 := by
  cases script with
  | finish => exact .refl self
  | fail code => exact .refl self
  | call operation next =>
    rw [calls]
    exact (exec_changes operation self).trans (calls_changes (next _) _)

end

lemma run_changes (operations : List (Operation U S L K P O)) (self : Owner P O) :
    Changes services self (run services operations self) := by
  induction operations generalizing self with
  | nil => exact .refl self
  | cons operation operations ih => exact (exec_changes operation self).trans (ih _)

end Owner

def Owner.Keeps (offer : Offer) (maxExecutions maxBytes : Int) (before after : Owner P O) : Prop :=
  before.Inv offer maxExecutions maxBytes →
    after.Inv offer maxExecutions maxBytes ∧ before.Follows after

lemma Owner.Changes.keeps (h : Owner.Changes services before after) :
    before.Keeps offer maxExecutions maxBytes after := by
  induction h with
  | refl self => exact fun hinv => ⟨hinv, .refl self⟩
  | trans _ _ ihab ihbc =>
    intro ha
    obtain ⟨hb, hab⟩ := ihab ha
    obtain ⟨hc, hbc⟩ := ihbc hb
    exact ⟨hc, hab.trans hbc⟩
  | accept hpre _ hnx ih =>
    intro hinv
    obtain ⟨haft, hfol⟩ := ih hinv
    refine ⟨haft.accept hfol hinv.sameOffer hinv.limits hnx (Session.prepare_ok hpre),
      le_succ_of_le hfol.next, fun heq => ?_,
      hfol.log.trans (prefix_append _ _)⟩
    simp only [Session.accept] at heq
    omega
  | advance hlk hadv =>
    intro hinv
    rcases hinv.advance hlk hadv with ⟨rfl, _⟩ | ⟨howner, hfol, _⟩
    · exact ⟨hinv, .refl _⟩
    · exact ⟨howner, hfol⟩
  | claim hlk hlat hsub hcm => exact fun hinv => publishClaim_ok hinv hlk hlat hsub hcm
  | release hrel => exact fun hinv => hinv.release hrel

variable [DecidableEq P]

lemma Owner.run_keeps (operations : List (Operation U S L K P O)) (self : Owner P O) :
    self.Keeps offer maxExecutions maxBytes (run services operations self) :=
  (run_changes operations self).keeps

omit [DecidableEq P] in
lemma Session.new_inv {session : Session P}
    (h : Session.new offer maxExecutions maxBytes = .ok session) :
    (Owner.mk (O := O) session []).Inv offer maxExecutions maxBytes := by
  unfold Session.new at h
  split at h
  · cases h
  · obtain rfl := (Except.ok.inj h).symm
    refine ⟨rfl, ⟨rfl, rfl⟩, one_pos, nodup_nil, nofun, rfl, ?_, ?_, rfl,
      nodup_nil, nofun, nofun, .nil⟩
    · dsimp only
      omega
    · dsimp only [length_nil]
      omega

omit [DecidableEq P] in
lemma Owner.Inv.terminal (hpre : before.Inv offer maxExecutions maxBytes)
    (haft : after.Inv offer maxExecutions maxBytes) (hfol : before.Follows after)
    {execution' : Execution P} (hlk : before.session.lookup identity = .ok execution)
    (hlk' : after.session.lookup identity = .ok execution')
    (hlatest : execution.cursor.latest = .ok latest) (hph : latest.state.phase = .terminal) :
    execution'.cursor.latest = .ok latest := by
  obtain ⟨hget, rfl⟩ := Session.lookup_ok hlk
  obtain ⟨hget', hid⟩ := Session.lookup_ok hlk'
  obtain ⟨receipt, hl, hrcp⟩ := (hpre.kept _ _ hget).latest
  obtain ⟨receipt', hl', hrcp'⟩ := (haft.kept _ _ hget').latest
  obtain rfl := Except.ok.inj (hrcp.symm.trans hlatest)
  obtain ⟨events, heve⟩ := hfol.log
  have hord := haft.ordered
  rw [← heve, pairwise_append] at hord
  obtain ⟨event, hev, hof⟩ := mem_filterMap.mp (mem_of_getLast? hl)
  have hno : events.filterMap (receiptOf execution.identity) = [] := by
    refine filterMap_eq_nil_iff.mpr fun later hlater => ?_
    have hpre' := hord.2.2 event hev later hlater
    cases event with
    | published earlier =>
      cases later with
      | published next =>
        simp only [receiptOf] at hof ⊢
        split at hof
        · rename_i hear
          cases hof
          refine if_neg fun hnx => ?_
          exact (hpre' (hear.trans hnx.symm)).2 hph
        · cases hof
      | _ => rfl
    | _ => cases hof
  rw [hid, ← heve, filterMap_append, hno, append_nil, hl] at hl'
  rw [hrcp', Option.some.inj hl']

lemma Owner.exec_error {operation : Operation U S L K P O} {code : String}
    (h : exec services operation self = (.error code, next)) :
    next = self ∨ ∃ unit suite policy validate initial projection,
      operation = .submitSchemeWith unit suite policy validate ∧
        next = (calls services (validate initial projection) self).2 := by
  have hset {α : Type} {reply : α → Reply L K P O} {result : Except String (α × Owner P O)}
      (h : self.settle reply result = (.error code, next)) : next = self := by
    cases result with
    | error e => exact (Prod.mk.inj h).2.symm
    | ok result => cases (Prod.mk.inj h).1
  have hsub {unit : U} {suite : S} {policy : Option P}
      (h : submitWith services unit suite policy none self = (.error code, next)) :
      next = self := by
    unfold submitWith at h
    split at h
    · exact (Prod.mk.inj h).2.symm
    · simp only [validated] at h
      cases (Prod.mk.inj h).1
  cases operation with
  | submit unit suite => exact .inl (hsub h)
  | submitScheme unit suite policy => exact .inl (hsub h)
  | submitSchemeWith unit suite policy validate =>
    unfold exec submitWith at h
    split at h
    · exact .inl (Prod.mk.inj h).2.symm
    · rename_i execution initial _
      simp only [validated] at h
      cases hpro : services.schemeProjection execution with
      | error e =>
        rw [hpro] at h
        exact .inl (Prod.mk.inj h).2.symm
      | ok projection =>
        rw [hpro] at h
        refine .inr ⟨unit, suite, policy, validate, initial, projection, rfl, ?_⟩
        dsimp only at h
        generalize calls services (validate initial projection) self = result at h ⊢
        obtain ⟨_ | _, owner⟩ := result
        · exact (Prod.mk.inj h).2.symm
        · dsimp only at h
          split at h
          · cases (Prod.mk.inj h).1
          · exact (Prod.mk.inj h).2.symm
  | query identity | describeScheme identity | claim identity
  | claimScheme identity planId providerId runtime policy | cancel identity
  | complete identity outcomes | release identity => exact .inl (hset h)
  | replanScheme identity planId providerId runtime policy =>
    unfold exec at h
    split at h
    · exact .inl (Prod.mk.inj h).2.symm
    · exact .inl (hsub h)

/-- After any operations on a new session its reservations add up and its limits
hold, IDs and claims are unique, the receipts of an execution only move forward
and end with a terminal one, and an operation that fails makes no change of its
own. -/
theorem Owner.run_accounts {session : Session P}
    (hnew : Session.new offer maxExecutions maxBytes = .ok session)
    (earlier later : List (Operation U S L K P O)) :
    let owner := run services earlier ⟨session, []⟩
    let final := run services (earlier ++ later) ⟨session, []⟩
    owner.session.reserved = OrdMap.total Execution.reserved owner.session.executions ∧
      owner.session.reserved ≤ maxBytes ∧
      owner.session.executions.length ≤ maxExecutions ∧
      (owner.log.filterMap acceptedIdentity).Nodup ∧
      (owner.log.filterMap claimedIdentity).Nodup ∧
      owner.log.Pairwise Before ∧
      (∀ identity execution, owner.session.lookup identity = .ok execution →
        identity ∈ owner.log.filterMap acceptedIdentity ∧
          ∃ latest, (owner.log.filterMap (receiptOf identity)).getLast? = some latest ∧
            execution.cursor.latest = .ok latest) ∧
      (∀ identity execution execution' (latest : Receipt O), owner.session.lookup identity = .ok execution →
        final.session.lookup identity = .ok execution' →
          execution.cursor.latest = .ok latest → latest.state.phase = .terminal →
            execution'.cursor.latest = .ok latest) ∧
      ∀ operation code next, exec services operation owner = (.error code, next) →
        next = owner ∨ ∃ unit suite policy validate initial projection,
          operation = .submitSchemeWith unit suite policy validate ∧
            next = (calls services (validate initial projection) owner).2 := by
  intro owner final
  have hinv : owner.Inv offer maxExecutions maxBytes :=
    (run_keeps earlier _ (Session.new_inv hnew)).1
  have hlater : final = run services later owner := foldl_append
  obtain ⟨hfi, hfol⟩ := run_keeps later owner hinv
  rw [← hlater] at hfi hfol
  refine ⟨hinv.reserved, hinv.within, hinv.room, ?_, hinv.claims, hinv.ordered, ?_, ?_,
    fun operation code next h => exec_error h⟩
  · rw [hinv.accepted]
    refine nodup_range.map fun m n h => ?_
    exact succ_injective (identityAt_injective h)
  · intro identity execution hlk
    obtain ⟨hget, rfl⟩ := Session.lookup_ok hlk
    have hk := hinv.kept _ _ hget
    obtain ⟨n, hpos, hn, hid⟩ := hk.numbered
    refine ⟨?_, hk.latest⟩
    rw [hinv.accepted, hid]
    refine mem_map.mpr ⟨n - 1, mem_range.mpr (by omega), ?_⟩
    rw [Nat.sub_add_cancel hpos]
  · intro identity execution execution' latest hlk hlk' hlatest hph
    exact hinv.terminal hfi hfol hlk hlk' hlatest hph

structure Ran where
  calls : List String

instance : OutcomeCodec Ran where
  toJson outcomes := .array (outcomes.calls.map .string)
  fromJson
    | .array values => (values.mapM name).map Ran.mk
    | _ => .error "execution.outcome"
  callIds := Ran.calls

def oneCall : Services Unit Unit Unit Unit Unit Ran where
  unitId _ := "unit"
  encodeUnit _ := .ok [0]
  decodeUnit _ _ := .ok ()
  validateUnit _ := .ok ()
  encodeSuite _ := .ok [1]
  decodeSuite _ := .ok ()
  callIds _ := ["call"]
  plan _ _ := .ok ()
  planScheme _ _ _ := .ok ()
  boundary _ := [2]
  planUnit _ := .ok ()
  planSuite _ := .ok ()
  planPolicy _ := ()
  validateOutcomes _ _ := .ok ()
  validateSchemeOutcomes _ _ := .ok ()

def submitTwice : Operation Unit Unit Unit Unit Unit Ran :=
  .submitSchemeWith () () () fun _ _ => .call (.submit () ()) fun _ => .finish

def oneCallSession : Session Unit := ⟨⟨"host", "session", "provider", true⟩, [], 2, 4194304, 0, 1⟩

theorem Owner.run_accounts_two_submissions :
    let owner := run oneCall [submitTwice, .submit () ()] ⟨oneCallSession, []⟩
    owner.session.reserved ≤ 4194304 ∧ owner.session.executions.length ≤ (2 : Int) := by
  have hnew : Session.new ⟨"host", "session", "provider", true⟩ 2 4194304 = .ok oneCallSession :=
    if_neg (by decide)
  obtain ⟨_, hwi, hrm, _⟩ := Owner.run_accounts hnew
    [submitTwice, .submit () ()] []
  exact ⟨hwi, hrm⟩

/-- The validator's own submission is accepted, so the outer one fails and the
owner has changed. -/
theorem Owner.not_failed_unchanged :
    ¬ ∀ (session : Session Unit) (operations : List (Operation Unit Unit Unit Unit Unit Ran))
      (operation : Operation Unit Unit Unit Unit Unit Ran) (code : String) (next : Owner Unit Ran),
      Session.new ⟨"host", "session", "provider", true⟩ 2 4194304 = .ok session →
        exec oneCall operation (run oneCall operations ⟨session, []⟩) = (.error code, next) →
          next = run oneCall operations ⟨session, []⟩ := by
  intro h
  have hfails : (match exec oneCall submitTwice ⟨oneCallSession, []⟩ with
      | (.error code, next) => code == "workbench.host_submission_changed" &&
          next.session.executions.length == 1
      | _ => false) = true := by decide +kernel
  have hnew : Session.new ⟨"host", "session", "provider", true⟩ 2 4194304 = .ok oneCallSession :=
    if_neg (by decide)
  split at hfails
  · rename_i code next hrun
    obtain rfl : next = ⟨oneCallSession, []⟩ := h _ [] submitTwice code next hnew hrun
    simp [oneCallSession] at hfails
  · cases hfails

end Morphir.Executions
