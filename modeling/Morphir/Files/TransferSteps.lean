import Morphir.Files.Transfer
import Morphir.Library.Numbered

/-!
# What a request can do

Every request of a grant has one of a few effects, and every action on a service makes one
of a few moves.  The invariants of runs are read off these two lists.
-/

namespace Morphir.Files

open OrdMap FileGrant

variable {Root Files Edit : Type} [DecidableEq Files]

/-- What a request of the grant `id` can do to it. -/
inductive Effect (inv : Inventories Files Edit) (id : String) (grant : FileGrant Root Files) :
    Command → Disk Files → Except Raised Reply → List (Call Root Files Edit) →
      FileGrant Root Files → Prop
  | snapshot {n : Int} {disk : Disk Files} {snapshot : FileSnapshot Files} {bytes : Bytes}
      (hsequence : grant.retired < n) (hrevision : grant.revision < 2147483647)
      (htakes : grant.takesSnapshot = true) (hdisk : disk.snapshot = .ok snapshot)
      (hbytes : inv.inventory snapshot = some bytes) :
      Effect inv id grant (.snapshot id n) disk
        (.ok (.snapshot n bytes.length (grant.revision + 1))) [.snapshot grant.root]
        { grant with
          baseline := some snapshot
          revision := grant.revision + 1
          retired := n
          transfer := .download n bytes 0 }
  | read {n offset stop : Int} {disk : Disk Files} {bytes content : Bytes} {last : Bool}
      (htransfer : grant.transfer = .download n bytes offset) :
      Effect inv id grant (.read id n offset) disk (.ok (.content n offset content last)) []
        { grant with transfer := .download n bytes stop }
  | beginEdit {n size : Int} {disk : Disk Files} (hsequence : grant.retired < n)
      (hbaseline : grant.baseline.isSome) (hrevision : grant.revision < 2147483647)
      (hsize : 0 < size) (hlimit : size ≤ transferLimit) (htakes : grant.takesEdit = true) :
      Effect inv id grant (.beginEdit id n grant.revision size) disk (.ok (.offset n 0)) []
        { grant with retired := n, transfer := .upload n size [] 0 }
  | write {n size offset : Int} {chunks : List Bytes} {bytes : Bytes} {disk : Disk Files}
      (htransfer : grant.transfer = .upload n size chunks offset)
      (hfits : (bytes.length : Int) ≤ size - offset) :
      Effect inv id grant (.write id n offset bytes) disk
        (.ok (.offset n (offset + bytes.length))) []
        { grant with
          transfer := .upload n size (chunks ++ [bytes]) (offset + bytes.length) }
  | repeated {n revision : Int} {disk : Disk Files}
      (htransfer : grant.transfer = .committed n revision) :
      Effect inv id grant (.commit id n) disk (.ok (.committed n revision)) [] grant
  | saved {n size : Int} {chunks : List Bytes} {disk : Disk Files} {saved : FileSnapshot Files}
      {baseline : FileSnapshot Files} {calls : List (Call Root Files Edit)}
      (htransfer : grant.transfer = .upload n size chunks size)
      (hbaseline : grant.baseline = some baseline)
      (hsave : grant.save inv disk baseline (FileGrant.buffer size chunks) = (.ok saved, calls)) :
      Effect inv id grant (.commit id n) disk (.ok (.committed n (grant.revision + 1))) calls
        { grant with
          baseline := some saved
          revision := grant.revision + 1
          transfer := .committed n (grant.revision + 1) }
  | unsaved {n size : Int} {chunks : List Bytes} {disk : Disk Files} {error : Raised}
      {baseline : FileSnapshot Files} {calls : List (Call Root Files Edit)}
      (htransfer : grant.transfer = .upload n size chunks size)
      (hbaseline : grant.baseline = some baseline)
      (hsave : grant.save inv disk baseline (FileGrant.buffer size chunks) =
        (.error error, calls)) :
      Effect inv id grant (.commit id n) disk (.error error) calls
        { grant with transfer := .failed n (failureReason error) }
  | status {n : Int} {disk : Disk Files}
      (hsequence : transferSequence grant.transfer = some n ∨
        (grant.transfer = .idle ∧ n = grant.retired)) :
      Effect inv id grant (.status id n) disk (.ok (grant.standing n)) [] grant
  | release {n : Int} {disk : Disk Files} {transfer : FileTransfer}
      (hsequence : grant.retired ≤ n)
      (htransfer : (transfer = grant.transfer ∧
          ∃ m code message, grant.transfer = .failed m (.uncertain code message)) ∨
        (transfer = .idle ∧
          ∀ m code message, grant.transfer ≠ .failed m (.uncertain code message))) :
      Effect inv id grant (.release id n) disk (.ok .empty) []
        { grant with retired := n, transfer }
  | refused {command : Command} {disk : Disk Files} {error : Raised}
      {calls : List (Call Root Files Edit)}
      (herror : (∃ code, error = .rejected code) ∨ ∃ n, command = .snapshot id n)
      (hcalls : calls = [] ∨ (calls = [.snapshot grant.root] ∧ ∃ n, command = .snapshot id n))
      (hcommit : ∀ n, command = .commit id n →
        (∀ revision, grant.transfer ≠ .committed n revision) ∧
        ∀ size chunks, grant.transfer = .upload n size chunks size → grant.baseline = none) :
      Effect inv id grant command disk (.error error) calls grant

variable {id : String} {command : Command} {disk : Disk Files}

lemma Effect.reply_ne_ticket {inv : Inventories Files Edit} {grant grant' : FileGrant Root Files}
    {reply : Except Raised Reply} {calls : List (Call Root Files Edit)}
    (h : Effect inv id grant command disk reply calls grant') (t : Int) :
    reply ≠ .ok (.ticket t) := by
  cases h with
  | status =>
    unfold standing
    split <;> simp
  | _ => simp

namespace FileGrant

variable (inv : Inventories Files Edit) (id : String) (grant : FileGrant Root Files)
  (disk : Disk Files)

def Does (command : Command) (a : Answer Root Files Edit (FileGrant Root Files)) : Prop :=
  Effect inv id grant command disk a.reply a.calls a.left

variable {inv id grant disk}

omit [DecidableEq Files] in
lemma takesEdit_of_failed {n : Int} {code message : String}
    (h : grant.transfer = .failed n (.uncertain code message)) : grant.takesEdit = false := by
  simp [takesEdit, h]

lemma refused_does {code : String} (h : ∀ n, command ≠ .commit id n) :
    Does inv id grant disk command (.refused code grant) :=
  .refused (.inl ⟨code, rfl⟩) (.inl rfl) fun n hn => absurd hn (h n)

variable (n : Int)

lemma snapshot_does :
    Does inv id grant disk (.snapshot id n) (grant.snapshot inv disk n) := by
  unfold snapshot
  split
  · exact refused_does (by simp)
  · rename_i hg
    obtain ⟨hseq, hrev⟩ := not_not.mp hg
    split
    · exact refused_does (by simp)
    · rename_i htk
      have htk : grant.takesSnapshot = true := by simpa using htk
      split
      · exact .refused (.inr ⟨n, rfl⟩) (.inr ⟨rfl, n, rfl⟩) (by simp)
      · rename_i snapshot hdisk
        split
        · exact .refused (.inr ⟨n, rfl⟩) (.inr ⟨rfl, n, rfl⟩) (by simp)
        · rename_i bytes hbs
          exact .snapshot hseq hrev htk hdisk hbs

lemma read_does (offset : Int) :
    Does inv id grant disk (.read id n offset) (grant.read n offset) := by
  unfold read
  split
  · rename_i active bytes expected htr
    split
    · rename_i hg
      obtain ⟨rfl, rfl, -⟩ := hg
      exact .read htr
    · exact refused_does (by simp)
  · exact refused_does (by simp)

lemma beginEdit_does (revision size : Int) :
    Does inv id grant disk (.beginEdit id n revision size) (grant.beginEdit n revision size) := by
  unfold beginEdit
  split
  · exact refused_does (by simp)
  · rename_i hg
    obtain ⟨hseq, rfl, hbas, hrev⟩ := not_not.mp hg
    split
    · exact refused_does (by simp)
    · rename_i hquota
      obtain ⟨hsz, hlim⟩ := not_not.mp hquota
      split
      · exact refused_does (by simp)
      · rename_i htk
        have htk : grant.takesEdit = true := by simpa using htk
        exact .beginEdit hseq hbas hrev hsz hlim htk

lemma write_does (offset : Int) (bytes : Bytes) :
    Does inv id grant disk (.write id n offset bytes) (grant.write n offset bytes) := by
  unfold write
  split
  · rename_i active size chunks expected htr
    split
    · rename_i hg
      obtain ⟨rfl, rfl, -, -, hfi⟩ := hg
      exact .write htr hfi
    · exact refused_does (by simp)
  · exact refused_does (by simp)

lemma commit_does :
    Does inv id grant disk (.commit id n) (grant.commit inv disk n) := by
  unfold commit
  split
  · rename_i active revision baseline htr
    split
    · rename_i hsm
      subst hsm
      exact .repeated htr
    · rename_i ho
      refine .refused (.inl ⟨_, rfl⟩) (.inl rfl) fun m hm => ?_
      obtain rfl := (Command.commit.inj hm).2
      refine ⟨fun revision' h => ?_, fun size chunks h => ?_⟩
      · obtain ⟨rfl, -⟩ := FileTransfer.committed.inj (htr.symm.trans h)
        exact ho rfl
      · cases htr.symm.trans h
  · rename_i active size chunks offset baseline htr hbas
    split
    · rename_i hg
      obtain ⟨rfl, rfl⟩ := hg
      cases hsv : grant.save inv disk baseline (buffer offset chunks) with
      | mk outcome calls =>
        cases outcome with
        | error error => exact .unsaved htr hbas hsv
        | ok saved => exact .saved htr hbas hsv
    · rename_i hg
      refine .refused (.inl ⟨_, rfl⟩) (.inl rfl) fun m hm => ?_
      obtain rfl := (Command.commit.inj hm).2
      refine ⟨fun revision' h => ?_, fun size' chunks' h => ?_⟩
      · cases htr.symm.trans h
      · obtain ⟨rfl, rfl, -, rfl⟩ := FileTransfer.upload.inj (htr.symm.trans h)
        exact absurd ⟨rfl, rfl⟩ hg
  · rename_i hcom hupl
    refine .refused (.inl ⟨_, rfl⟩) (.inl rfl) fun m hm => ?_
    refine ⟨fun revision' h => hcom _ _ h, fun size' chunks' h => ?_⟩
    cases hbas : grant.baseline with
    | none => rfl
    | some baseline => exact absurd hbas (hupl _ _ _ _ _ h)

lemma status_does : Does inv id grant disk (.status id n) (grant.status n) := by
  unfold status
  split
  · exact refused_does (by simp)
  · rename_i hg
    exact .status (not_not.mp hg)

lemma release_does : Does inv id grant disk (.release id n) (grant.release n) := by
  unfold release
  split
  · exact refused_does (by simp)
  · rename_i hg
    have hseq : grant.retired ≤ n := not_not.mp hg
    split
    · rename_i m code message htr
      exact .release hseq (.inl ⟨rfl, m, code, message, htr⟩)
    · rename_i ho
      exact .release hseq (.inr ⟨rfl, ho⟩)

end FileGrant

def Command.target : Command → Option String
  | .snapshot id _ => some id
  | .read id _ _ => some id
  | .beginEdit id _ _ _ => some id
  | .write id _ _ _ => some id
  | .commit id _ => some id
  | .status id _ => some id
  | .release id _ => some id
  | .revoke id => some id
  | _ => none

/-- What an action does to the grant `id` of a service. -/
inductive Seen (inv : Inventories Files Edit) (self : FileService Root Files) (id : String)
    (action : Action Root Files) (reply : Except Raised Reply)
    (calls : List (Call Root Files Edit)) (after : Option (FileGrant Root Files)) : Prop
  | kept (hother : (∀ command disk, action = .request command disk → command.target ≠ some id) ∨
        ((∃ code, reply = .error (.rejected code)) ∧ calls = []))
      (hafter : after = self.grant? id)
  | created {ticket : Int} {path : String} {root : Root}
      (haction : action = .finishChoose ticket (some path) (.ok root))
      (hpending : self.closed = false ∧ self.picker = some ticket)
      (hid : id = FileService.grantId ticket) (hreply : ∃ name, reply = .ok (.chosen id 0 name))
      (hafter : after = some { root })
  | dropped (haction : action = .close ∨ ∃ disk, action = .request (.revoke id) disk)
      (hreply : reply = .ok .empty) (hafter : after = none)
  | acted {grant grant' : FileGrant Root Files} {command : Command} {disk : Disk Files}
      (haction : action = .request command disk) (hgrant : self.grant? id = some grant)
      (heffect : Effect inv id grant command disk reply calls grant')
      (hafter : after = some grant')

inductive Picks (self : FileService Root Files) (action : Action Root Files)
    (reply : Except Raised Reply) (next : Int) (picker : Option Int) : Prop
  | issued (haction : action = .beginChoose) (hclosed : self.closed = false)
      (hpicker : self.picker = none) (hgrants : self.grants.length < 8)
      (hreply : reply = .ok (.ticket (self.next + 1)))
      (hnext : next = self.next + 1) (hafter : picker = some (self.next + 1))
  | dropped (hreply : ∀ t, reply ≠ .ok (.ticket t)) (hnext : next = self.next)
      (hafter : picker = none)
  | kept (hreply : ∀ t, reply ≠ .ok (.ticket t)) (hclose : action ≠ .close)
      (hcancel : ∀ t, action = .cancelChoose t → t ≠ none ∧ self.picker ≠ t)
      (hfinish : ∀ t path opened, action = .finishChoose t path opened →
        self.closed = true ∨ self.picker ≠ some t)
      (hnext : next = self.next) (hafter : picker = self.picker)

namespace FileService

variable {inv : Inventories Files Edit} {self : FileService Root Files}

omit [DecidableEq Files] in
lemma grant?_insert (id other : String) (grant : FileGrant Root Files) :
    grant? { self with grants := OrdMap.insert self.grants id grant } other =
      if id = other then some grant else self.grant? other := get?_insert _ _ _ _

variable {act : FileGrant Root Files → Answer Root Files Edit (FileGrant Root Files)}

lemma withGrant_seen (htgt : command.target = some id)
    (hact : ∀ grant, Does inv id grant disk command (act grant)) (other : String) :
    Seen inv self other (.request command disk) (self.withGrant id act).reply
      (self.withGrant id act).calls ((self.withGrant id act).left.grant? other) := by
  unfold withGrant
  split
  · exact .kept (.inr ⟨⟨_, rfl⟩, rfl⟩) rfl
  · rename_i grant hgr
    rw [Answer.map]
    rw [grant?_insert]
    split
    · rename_i hsm
      subst hsm
      exact .acted rfl hgr (hact grant) rfl
    · rename_i ho
      refine .kept (.inl fun command' disk' h => ?_) rfl
      obtain ⟨rfl, rfl⟩ := Action.request.inj h
      rw [htgt]
      exact fun h => ho (Option.some.inj h)

lemma request_cases (inv : Inventories Files Edit) (self : FileService Root Files)
    (command : Command) (disk : Disk Files) :
    (∃ code, self.request inv command disk = .refused code self) ∨
    (∃ id, command = .revoke id ∧ self.request inv command disk = self.revoke id) ∨
    ∃ id act, command.target = some id ∧ self.request inv command disk = self.withGrant id act ∧
      ∀ grant, Does inv id grant disk command (act grant) := by
  unfold request
  split
  · exact .inl ⟨_, rfl⟩
  · cases command with
    | snapshot id n => exact .inr (.inr ⟨id, _, rfl, rfl, fun grant => snapshot_does n⟩)
    | read id n offset => exact .inr (.inr ⟨id, _, rfl, rfl, fun grant => read_does n offset⟩)
    | beginEdit id n revision size =>
      exact .inr (.inr ⟨id, _, rfl, rfl, fun grant => beginEdit_does n revision size⟩)
    | write id n offset bytes =>
      exact .inr (.inr ⟨id, _, rfl, rfl, fun grant => write_does n offset bytes⟩)
    | commit id n => exact .inr (.inr ⟨id, _, rfl, rfl, fun grant => commit_does n⟩)
    | status id n => exact .inr (.inr ⟨id, _, rfl, rfl, fun grant => status_does n⟩)
    | release id n => exact .inr (.inr ⟨id, _, rfl, rfl, fun grant => release_does n⟩)
    | revoke id => exact .inr (.inl ⟨id, rfl, rfl⟩)
    | checkSession | closeSession | chooseWrite | cancelPicker => exact .inl ⟨_, rfl⟩

lemma request_seen (command : Command) (disk : Disk Files) (id : String) :
    Seen inv self id (.request command disk) (self.request inv command disk).reply
      (self.request inv command disk).calls ((self.request inv command disk).left.grant? id) := by
  obtain ⟨code, h⟩ | ⟨target, rfl, h⟩ | ⟨target, act, htgt, h, hact⟩ :=
    request_cases inv self command disk
  · rw [h]
    exact .kept (.inr ⟨⟨_, rfl⟩, rfl⟩) rfl
  · rw [h]
    by_cases hsm : target = id
    · subst hsm
      apply Seen.dropped (.inr ⟨disk, rfl⟩) rfl
      simp [revoke, grant?, get?_erase]
    · refine .kept (.inl fun command' disk' h => ?_) ?_
      on_goal 2 => simp [revoke, grant?, get?_erase, hsm]
      obtain ⟨rfl, rfl⟩ := Action.request.inj h
      exact fun h => hsm (Option.some.inj h)
  · rw [h]
    exact withGrant_seen htgt hact id

lemma perform_seen (inv : Inventories Files Edit) (self : FileService Root Files)
    (action : Action Root Files) (id : String) :
    Seen inv self id action (self.perform inv action).reply (self.perform inv action).calls
      ((self.perform inv action).left.grant? id) := by
  have hk {action : Action Root Files} {reply : Except Raised Reply}
      {calls : List (Call Root Files Edit)} (h : ∀ command disk, action ≠ .request command disk) :
      Seen inv self id action reply calls (self.grant? id) :=
    .kept (.inl fun command disk hreq => absurd hreq (h command disk)) rfl
  cases action with
  | beginChoose =>
    simp only [perform, beginChoose]
    split
    · exact hk (by simp)
    · split
      · exact hk (by simp)
      · split <;> exact hk (by simp)
  | cancelChoose ticket =>
    simp only [perform, cancelChoose]
    split <;> exact hk (by simp)
  | close => exact .dropped (.inl rfl) rfl rfl
  | request command disk => exact request_seen command disk id
  | finishChoose ticket path opened =>
    simp only [perform, finishChoose]
    split
    · exact hk (by simp)
    · rename_i hg
      cases path with
      | none => exact hk (by simp)
      | some path =>
        cases opened with
        | error error => exact hk (by simp)
        | ok root =>
          dsimp only
          split
          · change Seen inv self id _ _ _
              (get? (OrdMap.insert self.grants (grantId ticket) { root }) id)
            rw [get?_insert]
            split
            · rename_i hid
              exact .created rfl (not_not.mp hg) hid.symm ⟨_, by rw [hid]⟩ rfl
            · exact hk (by simp)
          · exact hk (by simp)

lemma withGrant_picks (hact : ∀ grant, Does inv id grant disk command (act grant)) :
    (self.withGrant id act).left.next = self.next ∧
      (self.withGrant id act).left.picker = self.picker ∧
      ∀ t, (self.withGrant id act).reply ≠ .ok (.ticket t) := by
  unfold withGrant
  split
  · exact ⟨rfl, rfl, by simp [Answer.refused]⟩
  · rename_i grant hgr
    exact ⟨rfl, rfl, (hact grant).reply_ne_ticket⟩

lemma request_picks (inv : Inventories Files Edit) (self : FileService Root Files)
    (command : Command) (disk : Disk Files) :
    (self.request inv command disk).left.next = self.next ∧
      (self.request inv command disk).left.picker = self.picker ∧
      ∀ t, (self.request inv command disk).reply ≠ .ok (.ticket t) := by
  obtain ⟨code, h⟩ | ⟨target, rfl, h⟩ | ⟨target, act, -, h, hact⟩ :=
    request_cases inv self command disk
  · rw [h]
    exact ⟨rfl, rfl, by simp [Answer.refused]⟩
  · rw [h]
    exact ⟨rfl, rfl, by simp [revoke]⟩
  · rw [h]
    exact withGrant_picks hact

lemma perform_picks (inv : Inventories Files Edit) (self : FileService Root Files)
    (action : Action Root Files) :
    Picks self action (self.perform inv action).reply (self.perform inv action).left.next
      (self.perform inv action).left.picker := by
  cases action with
  | beginChoose =>
    have href (code : String) :
        Picks self .beginChoose (.error (.rejected code)) self.next self.picker :=
      .kept (by simp) (by simp) (by simp) (by simp) rfl rfl
    simp only [perform, beginChoose]
    split
    · exact href _
    · rename_i hcld
      have hcld : self.closed = false := by simpa using hcld
      split
      · exact href _
      · rename_i hpic
        split
        · exact href _
        · rename_i hquota
          have hpic : self.picker = none := by simpa using hpic
          exact .issued rfl hcld hpic (not_not.mp hquota).1 rfl rfl rfl
  | cancelChoose ticket =>
    simp only [perform, cancelChoose]
    split
    · exact .dropped (by simp) rfl rfl
    · rename_i hmiss
      refine .kept (by simp) (by simp) (fun t h => ?_) (by simp) rfl rfl
      obtain rfl := Action.cancelChoose.inj h
      exact not_or.mp hmiss
  | close => exact .dropped (by simp [perform, close]) rfl rfl
  | request command disk =>
    obtain ⟨hnx, hpic, hrep⟩ := request_picks inv self command disk
    exact .kept hrep (by simp) (by simp) (by simp) hnx hpic
  | finishChoose ticket path opened =>
    simp only [perform, finishChoose]
    split
    · rename_i hg
      refine .kept (by simp [Answer.refused]) (by simp) (by simp) (fun t path' opened' h => ?_)
        rfl rfl
      obtain ⟨rfl, -, -⟩ := Action.finishChoose.inj h
      by_cases hcld : self.closed = true
      · exact .inl hcld
      · exact .inr fun hpic => hg ⟨by simpa using hcld, hpic⟩
    · cases path with
      | none => exact .dropped (by simp) rfl rfl
      | some path =>
        cases opened with
        | error error => exact .dropped (by simp) rfl rfl
        | ok root =>
          dsimp only
          split <;> exact .dropped (by simp) rfl rfl

omit [DecidableEq Files] in
lemma withGrant_closed :
    (self.withGrant id act).left.closed = self.closed := by
  unfold withGrant
  split <;> rfl

lemma perform_closed (action : Action Root Files) (h : action ≠ .close) :
    (self.perform inv action).left.closed = self.closed := by
  cases action with
  | close => exact absurd rfl h
  | beginChoose =>
    simp only [perform, beginChoose]
    split
    · rfl
    · split
      · rfl
      · split <;> rfl
  | cancelChoose ticket =>
    simp only [perform, cancelChoose]
    split <;> rfl
  | request command disk =>
    obtain ⟨code, h⟩ | ⟨target, rfl, h⟩ | ⟨target, act, -, h, -⟩ :=
      request_cases inv self command disk
    · rw [perform, h]
      rfl
    · rw [perform, h]
      rfl
    · rw [perform, h, withGrant_closed]
  | finishChoose ticket path opened =>
    simp only [perform, finishChoose]
    split
    · rfl
    · cases path with
      | none => rfl
      | some path =>
        cases opened with
        | error error => rfl
        | ok root =>
          dsimp only
          split <;> rfl

end FileService

end Morphir.Files

/-!
## Runs of a workspace file service

What every reachable service keeps, and how its grants go on: identities are not used
again, revisions and retired sequences do not go back, and an upload is the writes that
were accepted for it.
-/

namespace Morphir.Files

open FileService OrdMap

variable {Root Files Edit : Type} [DecidableEq Files] {inv : Inventories Files Edit}

structure FileGrant.Valid (grant : FileGrant Root Files) : Prop where
  revision_le : grant.revision ≤ 2147483647
  sequence_le : ∀ n, transferSequence grant.transfer = some n → n ≤ grant.retired
  upload : ∀ n size chunks offset, grant.transfer = .upload n size chunks offset →
    n = grant.retired ∧ grant.baseline.isSome ∧ grant.revision < 2147483647 ∧
      offset = (chunks.flatten.length : Int) ∧ offset ≤ size ∧ size ≤ transferLimit

variable {reply : Except Raised Reply} {calls : List (Call Root Files Edit)}

lemma Effect.valid {id : String} {grant grant' : FileGrant Root Files} {command : Command}
    {disk : Disk Files} (h : Effect inv id grant command disk reply calls grant')
    (hvd : grant.Valid) : grant'.Valid := by
  cases h with
  | snapshot hseq hrev => exact ⟨by dsimp only; omega, by simp [transferSequence], by simp⟩
  | read htr =>
    refine ⟨hvd.revision_le, fun n hn => hvd.sequence_le n ?_, by simp⟩
    rw [htr]
    exact hn
  | beginEdit hseq hbas hrev hsz hlim =>
    refine ⟨hvd.revision_le, by simp [transferSequence], fun m size chunks offset h => ?_⟩
    obtain ⟨rfl, rfl, rfl, rfl⟩ := FileTransfer.upload.inj h
    exact ⟨rfl, hbas, hrev, rfl, hsz.le, hlim⟩
  | write htr hfi =>
    obtain ⟨hn, hbas, hrev, hoff, -, hlim⟩ := hvd.upload _ _ _ _ htr
    refine ⟨hvd.revision_le, fun m hm => ?_, fun m size' chunks' offset' h => ?_⟩
    · cases hm
      exact hn.le
    · obtain ⟨rfl, rfl, rfl, rfl⟩ := FileTransfer.upload.inj h
      refine ⟨hn, hbas, hrev, ?_, by omega, hlim⟩
      simp only [List.flatten_append, List.flatten_cons, List.flatten_nil, List.append_nil,
        List.length_append, Nat.cast_add, hoff]
  | saved htr =>
    obtain ⟨hn, -, hrev, -⟩ := hvd.upload _ _ _ _ htr
    refine ⟨by dsimp only; omega, fun m hm => ?_, by simp⟩
    cases hm
    exact hn.le
  | unsaved htr =>
    obtain ⟨hn, -⟩ := hvd.upload _ _ _ _ htr
    refine ⟨hvd.revision_le, fun m hm => ?_, by simp⟩
    cases hm
    exact hn.le
  | release hseq htr =>
    obtain ⟨rfl, m, code, message, hfai⟩ | ⟨rfl, -⟩ := htr
    · refine ⟨hvd.revision_le, fun m' hm => ?_, by simp [hfai]⟩
      exact (hvd.sequence_le m' hm).trans hseq
    · exact ⟨hvd.revision_le, by simp [transferSequence], by simp⟩
  | repeated | status | refused => exact hvd

lemma Effect.later {id : String} {grant grant' : FileGrant Root Files} {command : Command}
    {disk : Disk Files} (h : Effect inv id grant command disk reply calls grant') :
    grant.revision ≤ grant'.revision ∧ grant.retired ≤ grant'.retired := by
  cases h with
  | snapshot hseq => exact ⟨by dsimp only; omega, hseq.le⟩
  | beginEdit hseq => exact ⟨le_rfl, hseq.le⟩
  | saved => exact ⟨by dsimp only; omega, le_rfl⟩
  | release hseq => exact ⟨le_rfl, hseq⟩
  | read | write | repeated | unsaved | status | refused => exact ⟨le_rfl, le_rfl⟩

namespace FileService

variable {self : FileService Root Files}

def Unissued (self : FileService Root Files) (id : String) : Prop :=
  ∃ t, id = grantId t ∧ 0 ≤ t ∧ (self.next < t ∨ self.picker = some t)

structure Valid (service : FileService Root Files) : Prop where
  next_nonneg : 0 ≤ service.next
  picker_last : ∀ t, service.picker = some t → t = service.next ∧ service.grants.length < 8
  length_le : service.grants.length ≤ 8
  closed_picker : service.closed = true → service.picker = none
  issued : ∀ id grant, service.grant? id = some grant → ¬ service.Unissued id
  grants : ∀ id grant, service.grant? id = some grant → grant.Valid

lemma grantId_injective {t u : Int} (ht : 0 ≤ t) (hu : 0 ≤ u) (h : grantId t = grantId u) :
    t = u := Numbered.name_injective ht hu h

omit [DecidableEq Files] in
lemma valid_new : Valid ({} : FileService Root Files) where
  next_nonneg := le_rfl
  picker_last := by simp
  length_le := by simp
  closed_picker _ := rfl
  issued := by simp [grant?]
  grants := by simp [grant?]

omit [DecidableEq Files] in
lemma unissued_iff {t : Int} (ht : 0 ≤ t) :
    self.Unissued (grantId t) ↔ self.next < t ∨ self.picker = some t := by
  constructor
  · rintro ⟨u, hid, hu, h⟩
    obtain rfl := grantId_injective ht hu hid
    exact h
  · exact fun h => ⟨t, rfl, ht, h⟩

variable {id : String}

lemma unissued_of_perform {action : Action Root Files}
    (h : (self.perform inv action).left.Unissued id) : self.Unissued id := by
  obtain ⟨t, rfl, ht, h⟩ := h
  refine ⟨t, rfl, ht, ?_⟩
  cases perform_picks inv self action with
  | issued hact hcld hpic hgra hrep hnx haft =>
    rw [haft] at h
    obtain h | h := h
    · exact .inl (by omega)
    · cases h
      exact .inl (by omega)
  | dropped hrep hnx haft =>
    rw [hnx, haft] at h
    exact .inl (h.resolve_right nofun)
  | kept hrep hclo hccl hfin hnx haft =>
    rw [hnx, haft] at h
    exact h

omit [DecidableEq Files] in
lemma Valid.grant?_of_unissued (hvd : self.Valid) (h : self.Unissued id) :
    self.grant? id = none := by
  cases hgr : self.grant? id with
  | none => rfl
  | some grant => exact absurd h (hvd.issued id grant hgr)

omit [DecidableEq Files] in
lemma withGrant_length {act : FileGrant Root Files → Answer Root Files Edit (FileGrant Root Files)}
    : (self.withGrant id act).left.grants.length = self.grants.length := by
  unfold withGrant
  split
  · rfl
  · rename_i grant hgr
    exact length_insert_of_get? hgr

lemma perform_length (inv : Inventories Files Edit) (self : FileService Root Files)
    (action : Action Root Files) :
    (self.perform inv action).left.grants.length ≤ self.grants.length ∨
    ((self.perform inv action).left.picker = none ∧ self.picker.isSome ∧
      (self.perform inv action).left.grants.length ≤ self.grants.length + 1) := by
  cases action with
  | beginChoose =>
    simp only [perform, beginChoose]
    split
    · exact .inl le_rfl
    · split
      · exact .inl le_rfl
      · split <;> exact .inl le_rfl
  | cancelChoose ticket =>
    simp only [perform, cancelChoose]
    split <;> exact .inl le_rfl
  | close => exact .inl (Nat.zero_le _)
  | request command disk =>
    obtain ⟨code, h⟩ | ⟨target, rfl, h⟩ | ⟨target, act, -, h, -⟩ :=
      request_cases inv self command disk
    · rw [perform, h]
      exact .inl le_rfl
    · rw [perform, h]
      exact .inl (length_erase_le _ _)
    · rw [perform, h, withGrant_length]
      exact .inl le_rfl
  | finishChoose ticket path opened =>
    simp only [perform, finishChoose]
    split
    · exact .inl le_rfl
    · rename_i hg
      obtain ⟨-, hpic⟩ := not_not.mp hg
      cases path with
      | none => exact .inl le_rfl
      | some path =>
        cases opened with
        | error error => exact .inl le_rfl
        | ok root =>
          dsimp only
          split
          · refine .inr ⟨rfl, by rw [hpic]; rfl, ?_⟩
            exact length_insert_le _ _ _
          · exact .inl le_rfl

lemma not_unissued_of_finish (hvd : self.Valid) {ticket : Int} {path : Option String}
    {opened : Except Raised Root} (hpd : self.closed = false ∧ self.picker = some ticket) :
    ¬ (self.perform inv (.finishChoose ticket path opened)).left.Unissued (grantId ticket) := by
  obtain ⟨hl, -⟩ := hvd.picker_last ticket hpd.2
  have hnx := hvd.next_nonneg
  rw [unissued_iff (by omega)]
  cases perform_picks inv self (.finishChoose ticket path opened) with
  | issued hact => cases hact
  | dropped hrep hnx haft =>
    rw [haft]
    rintro (h | h)
    · omega
    · cases h
  | kept hrep hclo hccl hfin hnx haft =>
    obtain hcld | hpic := hfin _ _ _ rfl
    · rw [hpd.1] at hcld
      cases hcld
    · exact absurd hpd.2 hpic

lemma perform_valid (hvd : self.Valid) (action : Action Root Files) :
    (self.perform inv action).left.Valid := by
  have hpicks := perform_picks inv self action
  have hlen := perform_length inv self action
  have hse := perform_seen inv self action
  have hle := hvd.length_le
  refine ⟨?_, fun t ht => ?_, ?_, fun hcld => ?_, fun id grant hgr => ?_, fun id grant hgr => ?_⟩
  · have hnon := hvd.next_nonneg
    cases hpicks with
    | issued _ _ _ _ _ hnx | dropped _ hnx | kept _ _ _ _ hnx => omega
  · obtain hlen | ⟨hno, -⟩ := hlen
    · cases hpicks with
      | issued hact hcld hpic hgra hrep hnx haft =>
        obtain rfl := Option.some.inj (ht.symm.trans haft)
        exact ⟨hnx.symm, lt_of_le_of_lt hlen hgra⟩
      | dropped hrep hnx haft => cases ht.symm.trans haft
      | kept hrep hclo hccl hfin hnx haft =>
        obtain ⟨hl, hgra⟩ := hvd.picker_last t (haft.symm.trans ht)
        exact ⟨hl.trans hnx.symm, lt_of_le_of_lt hlen hgra⟩
    · cases ht.symm.trans hno
  · obtain hlen | ⟨-, hso, hlen⟩ := hlen
    · omega
    · obtain ⟨t, ht⟩ := Option.isSome_iff_exists.mp hso
      have := (hvd.picker_last t ht).2
      omega
  · by_cases hclo : action = .close
    · subst hclo
      rfl
    · rw [perform_closed action hclo] at hcld
      cases hpicks with
      | issued hact hop => rw [hop] at hcld; cases hcld
      | dropped hrep hnx haft => exact haft
      | kept hrep _ hccl hfin hnx haft =>
        rw [haft]
        exact hvd.closed_picker hcld
  · cases hse id with
    | kept ho haft =>
      have hiss := hvd.issued id grant (haft.symm.trans hgr)
      exact fun h => hiss (unissued_of_perform h)
    | created hact hpd hid hrep haft =>
      subst hact
      rw [hid]
      exact not_unissued_of_finish hvd hpd
    | dropped hact hrep haft => cases hgr.symm.trans haft
    | acted hact hgr' => exact fun h => hvd.issued id _ hgr' (unissued_of_perform h)
  · cases hse id with
    | kept ho haft => exact hvd.grants id grant (haft.symm.trans hgr)
    | created hact hpd hid hrep haft =>
      obtain rfl := Option.some.inj (hgr.symm.trans haft)
      exact ⟨by simp, by simp [transferSequence], by simp⟩
    | dropped hact hrep haft => cases hgr.symm.trans haft
    | acted hact hgr' heff haft =>
      obtain rfl := Option.some.inj (hgr.symm.trans haft)
      exact heff.valid (hvd.grants id _ hgr')

end FileService

end Morphir.Files
