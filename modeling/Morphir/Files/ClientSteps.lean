import Morphir.Files.ClientRuns

/-!
# The steps of a client

The start and the end of a save, and the steps of the client's calls, keep what the client
keeps.
-/

namespace Morphir.Files.Client

open List Option OrdMap

variable {told : Told} {c : Client}

variable {grant : ClientGrant} {jobs : List Job} {bytes : Bytes}

variable {call : Nat}

lemma queued_cons (hjb : grant.jobs = .save call bytes :: jobs) :
    grant.queued = call :: ({ grant with jobs } : ClientGrant).queued := by
  simp [ClientGrant.queued, hjb, Job.call?]

variable {id : String}

section

variable (h : c.Valid told)

include h

lemma Valid.startSave (hgr : c.object? id = some grant) (hidle : grant.active = none)
    (hjb : grant.jobs = .save call bytes :: jobs) (hblo : grant.blocked = false) :
    Valid told { c.put id { grant with
        sequence := grant.sequence + 1, jobs,
        active := some { call, sequence := grant.sequence + 1, bytes } } with
      started := c.started ++ [⟨id, { call, sequence := grant.sequence + 1, bytes }⟩] } := by
  have hque := queued_cons hjb
  have hsor := h.queued_sorted id grant hgr
  rw [hque, pairwise_cons] at hsor
  obtain ⟨hlt, hunsettled, ho⟩ := h.queued id grant call hgr (by rw [hque]; simp)
  generalize hsv : ({ call, sequence := grant.sequence + 1, bytes } : Save) = save
  generalize hgr' : ({ grant with
    sequence := grant.sequence + 1, jobs, active := some save } : ClientGrant) = grant'
  have hca : save.call = call := by rw [← hsv]
  have hact' : grant'.active = some save := by rw [← hgr']
  have hque' : grant'.queued = ({ grant with jobs } : ClientGrant).queued := by
    rw [← hgr']
    rfl
  have hunsaved (x : Nat) (s : Save) (stage : Stage) : (x, .save id s stage) ∉ c.waiting := by
    intro hx
    obtain ⟨found, hfd, hact⟩ := h.saving x id s stage hx
    obtain rfl := some.inj (hgr.symm.trans hfd)
    cases hidle.symm.trans hact
  -- What the grants of the new client were before.
  have hold {other : String} {found : ClientGrant}
      (hfd : (c.put id grant').object? other = some found) :
      (other = id ∧ found = grant') ∨ (id ≠ other ∧ c.object? other = some found) := by
    rw [object?_put] at hfd
    split at hfd
    · rename_i hsm
      exact .inl ⟨hsm.symm, (some.inj hfd).symm⟩
    · rename_i hne
      exact .inr ⟨hne, hfd⟩
  have hbac {command : Command} (hcom : Backed c.started command) :
      Backed (c.started ++ [⟨id, save⟩]) command := by
    cases command with
    | commit | beginEdit | write =>
      obtain ⟨s, hs, hr⟩ := hcom
      exact ⟨s, mem_append_left _ hs, hr⟩
    | _ => trivial
  refine { h with
    backed := ?_, saving := ?_, active := ?_, started := ?_, ordered := ?_, called := ?_,
    queued := ?_, queued_sorted := ?_, queued_apart := ?_, settled_started := ?_, granted := ?_ }
  · exact fun x command hx => hbac (h.backed x command hx)
  · intro x other s stage hx
    obtain ⟨found, hfd, hact⟩ := h.saving x other s stage hx
    refine ⟨found, ?_, hact⟩
    change (c.put id grant').object? other = some found
    rw [object?_put, if_neg]
    · exact hfd
    · rintro rfl
      exact hunsaved x s stage hx
  · intro other found s hfd hact
    obtain ⟨rfl, rfl⟩ | ⟨-, hpre⟩ := hold hfd
    · obtain rfl := some.inj (hact'.symm.trans hact)
      exact ⟨mem_append_right _ mem_cons_self, hca.symm ▸ hunsettled⟩
    · obtain ⟨hmem, hnot⟩ := h.active other found s hpre hact
      exact ⟨mem_append_left _ hmem, hnot⟩
  · intro s hs
    obtain hs | hs := mem_append.mp hs
    · obtain ⟨found, hfd, hle, hlat, hst⟩ := h.started s hs
      change ∃ after, (c.put id grant').object? s.id = some after ∧ _
      rw [object?_put]
      split
      · rename_i hsm
        rw [← hsm] at hfd
        obtain rfl := some.inj (hgr.symm.trans hfd)
        refine ⟨grant', rfl, ?_, fun k hk => hlat k ?_, ?_⟩
        · rw [← hgr']
          dsimp only
          omega
        · rw [hque, ← hque']
          exact mem_cons_of_mem _ hk
        · obtain hact | hblock | hres := hst
          · cases hidle.symm.trans hact
          · cases hblo.symm.trans hblock
          · exact .inr (.inr hres)
      · exact ⟨found, hfd, hle, hlat, hst⟩
    · obtain rfl := mem_singleton.mp hs
      refine ⟨grant', ?_, ?_, fun k hk => ?_, .inl hact'⟩
      · change (c.put id grant').object? id = some grant'
        simp
      · rw [← hgr', ← hsv]
      · rw [hque'] at hk
        exact hca.symm ▸ hsor.1 k hk
  · refine pairwise_append.mpr ⟨h.ordered, pairwise_singleton _ _, fun s hs t ht => ?_⟩
    obtain rfl := mem_singleton.mp ht
    refine ⟨fun heq => ho s hs (heq.trans hca), fun hid => ?_⟩
    obtain ⟨found, hfd, hle, hlat, hst⟩ := h.started s hs
    rw [hid] at hfd
    obtain rfl := some.inj (hgr.symm.trans hfd)
    refine ⟨?_, ?_, ?_⟩
    · rw [hca]
      exact hlat call (by rw [hque]; exact mem_cons_self)
    · rw [← hsv]
      dsimp only
      omega
    · obtain hact | hblock | hres := hst
      · cases hidle.symm.trans hact
      · cases hblo.symm.trans hblock
      · exact hres
  · intro s hs
    obtain hs | hs := mem_append.mp hs
    · exact h.called s hs
    · obtain rfl := mem_singleton.mp hs
      exact hca.symm ▸ hlt
  · intro other found k hfd hk
    obtain ⟨rfl, rfl⟩ | ⟨hne, hpre⟩ := hold hfd
    · rw [hque'] at hk
      obtain ⟨hlt', huns', ho'⟩ :=
        h.queued other grant k hgr (by rw [hque]; exact mem_cons_of_mem _ hk)
      refine ⟨hlt', huns', fun s hs => ?_⟩
      obtain hs | hs := mem_append.mp hs
      · exact ho' s hs
      · obtain rfl := mem_singleton.mp hs
        exact hca.symm ▸ (hsor.1 k hk).ne
    · obtain ⟨hlt', huns', ho'⟩ := h.queued other found k hpre hk
      refine ⟨hlt', huns', fun s hs => ?_⟩
      obtain hs | hs := mem_append.mp hs
      · exact ho' s hs
      · obtain rfl := mem_singleton.mp hs
        intro heq
        have hk' : k ∈ grant.queued := by
          have hsm : call = k := hca.symm.trans heq
          rw [hque, hsm]
          exact mem_cons_self
        exact hne (h.queued_apart id other grant found k hgr hpre hk' hk)
  · intro other found hfd
    obtain ⟨rfl, rfl⟩ | ⟨-, hpre⟩ := hold hfd
    · rw [hque']
      exact hsor.2
    · exact h.queued_sorted other found hpre
  · intro first second found found' k hfd hfd' hk hk'
    obtain ⟨rfl, rfl⟩ | ⟨-, hpre⟩ := hold hfd
    · have hk : k ∈ grant.queued := by
        rw [hque, ← hque']
        exact mem_cons_of_mem _ hk
      obtain ⟨rfl, rfl⟩ | ⟨-, hpre'⟩ := hold hfd'
      · rfl
      · exact h.queued_apart first second grant found' k hgr hpre' hk hk'
    · obtain ⟨rfl, rfl⟩ | ⟨-, hpre'⟩ := hold hfd'
      · have hk' : k ∈ grant.queued := by
          rw [hque, ← hque']
          exact mem_cons_of_mem _ hk'
        exact h.queued_apart first second found grant k hpre hgr hk hk'
      · exact h.queued_apart first second found found' k hpre hpre' hk hk'
  · intro k revision hk
    obtain ⟨s, hs, hk⟩ := h.settled_started k revision hk
    exact ⟨s, mem_append_left _ hs, hk⟩
  · intro other found hfd
    obtain ⟨rfl, rfl⟩ | ⟨-, hpre⟩ := hold hfd
    · exact h.granted other grant hgr
    · exact h.granted other found hpre

lemma Valid.started_inj {s t : Started} (hs : s ∈ c.started) (ht : t ∈ c.started)
    (hca : s.save.call = t.save.call) : s = t := by
  have hnd : (c.started.map fun s => s.save.call).Nodup := by
    rw [List.Nodup, pairwise_map]
    exact h.ordered.imp fun hpre => hpre.1
  exact inj_on_of_nodup_map hnd hs ht hca

lemma Valid.endSave {save : Save} {blocked : Bool} {outcome : Except Fault Int}
    (hgr : c.object? id = some grant) (hact : grant.active = some save) (hunsaved : c.Unsaved id)
    (hblo : grant.blocked = true → blocked = true)
    (hout : blocked = true ∨ ∃ revision, outcome = .ok revision)
    (hcon : ∀ revision, outcome = .ok revision → told.confirmed id save.sequence revision) :
    Valid told ((c.put id { grant with blocked, active := none }).settle save.call outcome) := by
  obtain ⟨hmem, hunsettled⟩ := h.active id grant save hgr hact
  generalize hgr' : ({ grant with blocked, active := none } : ClientGrant) = grant'
  have hno : grant'.active = none := by rw [← hgr']
  have hque' : grant'.queued = grant.queued := by
    rw [← hgr']
    rfl
  have hold {other : String} {found : ClientGrant}
      (hfd : (c.put id grant').object? other = some found) :
      ∃ before, c.object? other = some before ∧ found.queued = before.queued ∧
        ((other = id ∧ found.active = none) ∨ (id ≠ other ∧ found = before)) := by
    rw [object?_put] at hfd
    split at hfd
    · rename_i hsm
      subst hsm
      cases hfd
      exact ⟨grant, hgr, hque', .inl ⟨rfl, hno⟩⟩
    · rename_i hne
      exact ⟨found, hfd, rfl, .inr ⟨hne, rfl⟩⟩
  refine { h with
    saving := ?_, active := ?_, started := ?_, ordered := ?_, queued := ?_, queued_sorted := ?_,
    queued_apart := ?_, settled_lt := ?_, settled_distinct := ?_, settled_started := ?_,
    granted := ?_ }
  · intro x other s stage hx
    obtain ⟨found, hfd, hsv⟩ := h.saving x other s stage hx
    refine ⟨found, ?_, hsv⟩
    rw [object?_settle, object?_put, if_neg]
    · exact hfd
    · rintro rfl
      exact hunsaved x s stage hx
  · intro other found s hfd hs
    obtain ⟨before, hpre, -, ⟨-, hid⟩ | ⟨hne, rfl⟩⟩ := hold hfd
    · cases hid.symm.trans hs
    · obtain ⟨hsta, hnot⟩ := h.active other found s hpre hs
      refine ⟨hsta, fun hk => ?_⟩
      rw [keys_settle, mem_append] at hk
      obtain hk | hk := hk
      · exact hnot hk
      · have hsm := h.started_inj hsta hmem (mem_singleton.mp hk)
        exact hne (congrArg Started.id hsm).symm
  · intro s hs
    obtain ⟨found, hfd, hle, hlat, hst⟩ := h.started s hs
    rw [object?_settle, object?_put]
    split
    · rename_i hsm
      rw [← hsm] at hfd
      obtain rfl := some.inj (hgr.symm.trans hfd)
      refine ⟨grant', rfl, ?_, fun k hk => hlat k (hque' ▸ hk), ?_⟩
      · rw [← hgr']
        exact hle
      · right
        have hblock (hb : blocked = true) : grant'.blocked = true := by rw [← hgr', hb]
        obtain hsv | hstill | ⟨revision, hrev⟩ := hst
        · obtain rfl := some.inj (hact.symm.trans hsv)
          obtain hb | ⟨revision, rfl⟩ := hout
          · exact .inl (hblock hb)
          · exact .inr ⟨revision, mem_append_right _ mem_cons_self⟩
        · exact .inl (hblock (hblo hstill))
        · exact .inr ⟨revision, mem_append_left _ hrev⟩
    · refine ⟨found, hfd, hle, hlat, hst.imp_right fun hr => hr.imp_right ?_⟩
      exact fun ⟨revision, hrev⟩ => ⟨revision, mem_append_left _ hrev⟩
  · exact h.ordered.imp fun hpre => hpre.settle _
  · intro other found k hfd hk
    obtain ⟨before, hpre, hsm, -⟩ := hold hfd
    obtain ⟨hlt, hnot, ho⟩ := h.queued other before k hpre (hsm ▸ hk)
    refine ⟨hlt, fun hmem' => ?_, ho⟩
    rw [keys_settle, mem_append] at hmem'
    obtain hmem' | hmem' := hmem'
    · exact hnot hmem'
    · exact ho _ hmem (mem_singleton.mp hmem').symm
  · intro other found hfd
    obtain ⟨before, hpre, hsm, -⟩ := hold hfd
    rw [hsm]
    exact h.queued_sorted other before hpre
  · intro first second found found' k hfd hfd' hk hk'
    obtain ⟨before, hpre, hsm, -⟩ := hold hfd
    obtain ⟨before', hpre', hsm', -⟩ := hold hfd'
    exact h.queued_apart first second before before' k hpre hpre' (hsm ▸ hk) (hsm' ▸ hk')
  · intro k hk
    rw [keys_settle, mem_append] at hk
    obtain hk | hk := hk
    · exact h.settled_lt k hk
    · obtain rfl := mem_singleton.mp hk
      exact h.called _ hmem
  · rw [Distinct, keys_settle]
    exact nodup_append.mpr ⟨h.settled_distinct, nodup_singleton _, fun k hk l hl heq =>
      hunsettled (by rw [mem_singleton.mp hl] at heq; exact heq ▸ hk)⟩
  · intro k revision hk
    obtain hk | hk := mem_append.mp hk
    · exact h.settled_started k revision hk
    · obtain ⟨rfl, rfl⟩ := Prod.mk.inj (mem_singleton.mp hk)
      exact ⟨_, hmem, rfl, hcon revision rfl⟩
  · intro other found hfd
    obtain ⟨before, hpre, -⟩ := hold hfd
    exact h.granted other before hpre

omit h in
lemma grant?_object (h : c.grant? id = some grant) : c.object? id = some grant := by
  unfold Client.grant? at h
  split at h
  · cases h
  · exact (filter_eq_some_iff.mp h).1

lemma Valid.save (id : String) (bytes : Bytes) : (c.save id bytes).Valid told := by
  unfold Client.save
  dsimp only
  split
  · exact h.reject _
  · split
    · exact h.reject _
    · rename_i grant hgr
      exact h.enqueue (grant?_object hgr) bytes

omit h in
lemma queued_revoke (grant : ClientGrant) (chooser : Bool) :
    ({ grant with blocked := true, jobs := grant.jobs ++ [.revoke chooser] } : ClientGrant).queued =
      grant.queued := by
  simp [ClientGrant.queued, Job.call?]

lemma Valid.revoke (id : String) (chooser : Bool) : (c.revoke id chooser).Valid told := by
  unfold Client.revoke
  split
  · split
    · exact h.of_same rfl rfl rfl rfl rfl rfl rfl
    · exact h
  · rename_i grant hgr
    refine h.put_sublist (grant?_object hgr) rfl ?_ le_rfl fun _ => rfl
    rw [queued_revoke]

lemma Valid.choose : c.choose.Valid told := by
  unfold Client.choose
  split
  · exact h
  · apply Valid.exchange
    · exact h.of_same rfl rfl rfl rfl rfl rfl rfl
    · trivial
    · trivial
    · trivial

lemma Valid.cancelPicker : c.cancelPicker.Valid told := by
  apply Valid.exchange
  · exact h.of_same rfl rfl rfl rfl rfl rfl rfl
  · trivial
  · trivial
  · trivial

lemma Valid.rejectSave (hgr : c.object? id = some grant)
    (hjb : grant.jobs = .save call bytes :: jobs) (fault : Fault) :
    ((c.put id { grant with jobs }).settle call (.error fault)).Valid told := by
  have hque := queued_cons hjb
  obtain ⟨hlt, huns, ho⟩ := h.queued id grant call hgr (by rw [hque]; simp)
  have hsor := h.queued_sorted id grant hgr
  rw [hque, pairwise_cons] at hsor
  have hput : (c.put id { grant with jobs }).Valid told := by
    refine h.put_sublist hgr rfl ?_ le_rfl fun hblo => hblo
    rw [hque]
    exact sublist_cons_self _ _
  apply hput.settle hlt huns ho
  intro other found hfd hk
  rw [object?_put] at hfd
  split at hfd
  · cases hfd
    exact lt_irrefl _ (hsor.1 _ hk)
  · rename_i hne
    exact hne (h.queued_apart id other grant found call hgr hfd (by rw [hque]; simp) hk)

lemma Valid.start (id : String) : (c.start id).Valid told := by
  unfold Client.start
  split
  · exact h
  · rename_i grant hgr
    split
    · rename_i call bytes jobs hid hjb
      split
      · exact h.rejectSave hgr hjb _
      · rename_i hblo
        split
        · exact h.rejectSave hgr hjb _
        · have hblo : grant.blocked = false := by simpa using hblo
          have hsta := h.startSave hgr hid hjb hblo
          apply hsta.exchange
          · refine ⟨fun x save stage hx => ?_, ⟨_, get?_insert_self _ _ _, rfl⟩, nofun⟩
            obtain ⟨found, hfd, hact⟩ := h.saving x id save stage hx
            obtain rfl := some.inj (hgr.symm.trans hfd)
            cases hid.symm.trans hact
          · trivial
          · trivial
    · rename_i chooser jobs hid hjb
      apply Valid.exchange
      · refine h.put_sublist hgr rfl ?_ le_rfl fun hblo => hblo
        have hque : ({ grant with jobs } : ClientGrant).queued = grant.queued := by
          simp only [ClientGrant.queued, hjb]
          rfl
        rw [hque]
      · trivial
      · trivial
      · trivial
    · exact h

end

/-- A client whose grant has an active save that waits for nothing. -/
structure Holds (told : Told) (c : Client) (id : String) (grant : ClientGrant) (save : Save) :
    Prop where
  valid : c.Valid told
  held : c.object? id = some grant
  current : grant.active = some save
  unsaved : c.Unsaved id

variable {save : Save}

lemma Holds.started (h : c.Holds told id grant save) : ⟨id, save⟩ ∈ c.started :=
  (h.valid.active id grant save h.held h.current).1

lemma Holds.exchange (h : c.Holds told id grant save) {stage : Stage} {command : Command}
    (hsends : (Waiter.save id save stage).Sends command) (hbac : Backed c.started command)
    (hcon : ∀ revision, stage = .release revision → told.confirmed id save.sequence revision) :
    (c.exchange (.save id save stage) command).Valid told :=
  h.valid.exchange ⟨h.unsaved, ⟨grant, h.held, h.current⟩, hcon⟩ hsends hbac

lemma Holds.failSave (h : c.Holds told id grant save) (fault : Fault) :
    (c.failSave id grant save fault).Valid told :=
  h.valid.endSave h.held h.current h.unsaved (fun _ => rfl) (.inl rfl) nofun

lemma Holds.writeFrom (h : c.Holds told id grant save) (offset : Nat) :
    (c.writeFrom id save offset).Valid told := by
  unfold Client.writeFrom
  split
  · apply h.exchange
    · trivial
    · refine ⟨⟨id, save⟩, h.started, rfl, rfl, ?_⟩
      rw [Int.toNat_natCast, length_take, take_eq_take_iff]
      omega
    · nofun
  · exact h.exchange rfl ⟨⟨id, save⟩, h.started, rfl, rfl⟩ nofun

lemma Holds.confirm (h : c.Holds told id grant save) {revision : Int}
    (hcon : told.confirmed id save.sequence revision) :
    (c.confirm id grant save revision).Valid told := by
  unfold Client.confirm
  split
  · exact h.failSave _
  · have hput : (c.put id { grant with revision }).Holds told id { grant with revision } save := by
      constructor
      · exact h.valid.put_sublist h.held rfl (.refl _) le_rfl fun hblo => hblo
      · simp
      · exact h.current
      · exact h.unsaved
    apply hput.exchange
    · trivial
    · trivial
    · rintro _ ⟨⟩
      exact hcon

lemma Holds.saveNext (h : c.Holds told id grant save) (stage : Stage)
    (result : Except Fault Value)
    (hcom : stage = .commit → ∀ m revision, result = .ok (.reply (.committed m revision)) →
      told.confirmed id save.sequence revision)
    (hst : (∃ error, stage = .status error) → ∀ m revision,
      result = .ok (.reply (.stateCommitted m revision)) →
      told.confirmed id save.sequence revision) (hrel : ∀ revision, stage = .release revision →
      told.confirmed id save.sequence revision) :
    (c.saveNext id grant save stage result).Valid told := by
  have hsta (fault : Fault) : (c.queryStatus id save fault).Valid told :=
    h.exchange rfl trivial nofun
  unfold Client.saveNext
  split
  · apply h.exchange
    · trivial
    · exact ⟨⟨id, save⟩, h.started, rfl, rfl, rfl⟩
    · nofun
  · exact h.writeFrom 0
  · exact h.writeFrom _
  · split
    · exact h.confirm (hcom rfl _ _ rfl)
    · exact hsta _
  · exact hsta _
  · exact hsta _
  · split
    · exact h.confirm (hst ⟨_, rfl⟩ _ _ rfl)
    · exact h.failSave _
  · exact h.failSave _
  · exact h.failSave _
  · exact h.failSave _
  · exact h.failSave _
  · apply h.valid.endSave h.held h.current h.unsaved (fun hb => hb) (.inr ⟨_, rfl⟩)
    rintro _ ⟨⟩
    exact hrel _ rfl
  · exact h.failSave _

section

variable (h : c.Valid told)

include h

lemma Valid.putPlain {grant' : ClientGrant} (hgr : c.object? id = some grant)
    (hact : grant'.active = grant.active) (hjb : grant'.jobs = grant.jobs)
    (hseq : grant.sequence ≤ grant'.sequence) (hblo : grant'.blocked = grant.blocked) :
    (c.put id grant').Valid told := by
  refine h.put_sublist hgr hact ?_ hseq fun hb => hblo.trans hb
  rw [ClientGrant.queued, hjb]
  exact .refl _

lemma Valid.exchangeChoose {epoch : Nat} {stage : Choosing} {command : Command}
    (hsends : (Waiter.choose epoch stage).Sends command) (hbac : Backed c.started command) :
    (c.exchange (.choose epoch stage) command).Valid told := h.exchange trivial hsends hbac

lemma Valid.beginSnapshot (epoch : Nat) (id : String) : (c.beginSnapshot epoch id).Valid told := by
  unfold Client.beginSnapshot
  split
  · exact h.revoke id true
  · rename_i grant hgr
    split
    · exact h.revoke id true
    · apply Valid.exchangeChoose
      · exact h.putPlain (grant?_object hgr) rfl rfl (by dsimp only; omega) rfl
      · trivial
      · trivial

lemma Valid.releaseSnapshot (epoch : Nat) (id : String) (sequence : Int)
    (outcome : Except Fault Unit) : (c.releaseSnapshot epoch id sequence outcome).Valid told := by
  apply h.exchangeChoose
  · trivial
  · trivial

lemma Valid.readFrom (valid : Bytes → Bool) (epoch : Nat) (id : String)
    (sequence revision size : Int) (bytes : Bytes) :
    (c.readFrom valid epoch id sequence revision size bytes).Valid told := by
  unfold Client.readFrom
  split
  · apply h.exchangeChoose
    · trivial
    · trivial
  · split
    · exact h.releaseSnapshot _ _ _ _
    · split
      · exact h.releaseSnapshot _ _ _ _
      · rename_i grant hgr
        apply Valid.releaseSnapshot
        exact h.putPlain hgr rfl rfl le_rfl rfl

lemma Valid.endChoice : Valid told { c with choosing := false } :=
  h.of_same rfl rfl rfl rfl rfl rfl rfl

lemma Valid.chooseNext (valid : Bytes → Bool) (epoch : Nat) {stage : Choosing}
    {result : Except Fault Value}
    (hnew : stage = .choose → ∀ id revision name, result = .ok (.reply (.chosen id revision name)) →
      c.object? id = none ∧ ∃ x, told.granted x id ∧ x < c.exchanges ∧ x ∉ keys c.waiting) :
    (c.chooseNext valid epoch stage result).Valid told := by
  unfold Client.chooseNext
  split
  · split
    · exact h.endChoice
    · apply h.exchangeChoose
      · rfl
      · trivial
  · obtain ⟨hno, x, hgra, hlt, hgo⟩ := hnew rfl _ _ _ rfl
    have hput := h.put_new hno hgra hlt hgo
    dsimp only
    split
    · exact (hput _).revoke _ true
    · exact (hput _).beginSnapshot _ _
  · exact h.readFrom _ _ _ _ _ _ _
  · exact h.releaseSnapshot _ _ _ _
  · exact h.releaseSnapshot _ _ _ _
  · split
    · exact h.releaseSnapshot _ _ _ _
    · exact h.readFrom _ _ _ _ _ _ _
  · exact h.releaseSnapshot _ _ _ _
  · exact h.releaseSnapshot _ _ _ _
  · split
    · split
      · exact h.revoke _ true
      · exact h.endChoice
    · exact h.revoke _ true
  · exact h.endChoice

lemma Valid.revokeNext (id : String) (chooser : Bool) (result : Except Fault Value) :
    (c.revokeNext id chooser result).Valid told := by
  have hcho : Valid told (if chooser then { c with choosing := false } else c) := by
    split
    · exact h.endChoice
    · exact h
  unfold Client.revokeNext
  dsimp only
  split
  · rename_i grant hgr
    exact hcho.putPlain hgr rfl rfl le_rfl rfl
  · exact hcho

lemma Valid.resume (valid : Bytes → Bool) (x : Nat)
    (result : Except Fault Value)
    (hnew : ∀ epoch, (x, .choose epoch .choose) ∈ c.waiting → ∀ id revision name,
      result = .ok (.reply (.chosen id revision name)) →
      c.object? id = none ∧ told.granted x id)
    (hcom : ∀ id save, (x, .save id save .commit) ∈ c.waiting → ∀ m revision,
      result = .ok (.reply (.committed m revision)) → told.confirmed id save.sequence revision)
    (hst : ∀ id save error, (x, .save id save (.status error)) ∈ c.waiting → ∀ m revision,
      result = .ok (.reply (.stateCommitted m revision)) →
      told.confirmed id save.sequence revision) :
    (c.resume valid x result).Valid told := by
  unfold Client.resume
  dsimp only
  split
  · exact h
  · rename_i waiter hwai
    have hmem := mem_of_get? hwai
    have hgo : x ∉ OrdMap.keys (OrdMap.erase c.waiting x) := by
      rw [← get?_eq_none_iff, get?_erase, if_pos rfl]
    have hrep {reply : Reply} (h : (if c.disposed then Except.error
        (.unknown "Invalid or obsolete workspace file reply.") else result) =
        .ok (.reply reply)) : result = .ok (.reply reply) := by
      split at h
      · cases h
      · exact h
    split
    · rename_i id save stage
      obtain ⟨grant, hgr, hact⟩ := h.saving x id save stage hmem
      have huns : Unsaved { c with waiting := OrdMap.erase c.waiting x } id := by
        intro y save' stage' hy
        obtain rfl := h.single x y id save save' stage stage' hmem (mem_erase hy)
        exact hgo (mem_map_of_mem hy)
      split
      · exact h.erase x
      · rename_i found hfd
        obtain rfl := some.inj (hgr.symm.trans hfd)
        apply Holds.saveNext ⟨h.erase x, hgr, hact, huns⟩
        · rintro rfl m revision hres
          exact hcom id save hmem m revision (hrep hres)
        · rintro ⟨error, rfl⟩ m revision hres
          exact hst id save error hmem m revision (hrep hres)
        · rintro revision rfl
          exact h.releasing x id save revision hmem
    · rename_i epoch stage
      apply (h.erase x).chooseNext
      rintro rfl id revision name hres
      obtain ⟨hno, hgra⟩ := hnew epoch hmem id revision name (hrep hres)
      exact ⟨hno, x, hgra, h.waiting_lt x (mem_map_of_mem hmem), hgo⟩
    · exact (h.erase x).revokeNext _ _ _
    · exact h.erase x

end

end Morphir.Files.Client
