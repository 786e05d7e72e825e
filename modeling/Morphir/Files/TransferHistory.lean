import Morphir.Files.TransferSteps

/-!
# What a history of transfers records

A history holds the writes that were accepted for an upload and the edits that were made
on disk.  A grant of the service agrees with them: its upload is exactly the accepted
writes, and no sequence that was applied can be applied again.
-/

namespace Morphir.Files

open FileService List Recording FileTransfer Prod Call

variable {Root Files Edit : Type}

def Call.isApply : Call Root Files Edit → Bool
  | .apply _ _ _ => true
  | _ => false

/-- The bytes that an entry adds to the upload `n` of a grant. -/
def acceptedWrite (id : String) (n : Int) (e : Entry Root Files Edit) : Option Bytes :=
  match e.action, e.answer.1 with
  | .request (.write id' n' _ bytes) _, .ok _ => if id' = id ∧ n' = n then some bytes else none
  | _, _ => none

def acceptedWrites (id : String) (n : Int) (past : List (Entry Root Files Edit)) : List Bytes :=
  past.filterMap (acceptedWrite id n)

def appliedBy (e : Entry Root Files Edit) : List (String × Int) :=
  match e.action with
  | .request (.commit id n) _ => (e.answer.2.filter Call.isApply).map fun _ => (id, n)
  | _ => []

def applied (past : List (Entry Root Files Edit)) : List (String × Int) := past.flatMap appliedBy

def Begun (past : List (Entry Root Files Edit)) (id : String) (n revision size : Int) : Prop :=
  ∃ e ∈ past, (∃ disk, e.action = .request (.beginEdit id n revision size) disk) ∧
    ∃ reply, e.answer.1 = .ok reply

lemma acceptedWrites_snoc (id : String) (n : Int) (past : List (Entry Root Files Edit))
    (e : Entry Root Files Edit) :
    acceptedWrites id n (past ++ [e]) =
      acceptedWrites id n past ++ (acceptedWrite id n e).toList := by
  cases h : acceptedWrite id n e <;> simp [h, acceptedWrites]

lemma applied_snoc (past : List (Entry Root Files Edit)) (e : Entry Root Files Edit) :
    applied (past ++ [e]) = applied past ++ appliedBy e := by
  simp [applied]

variable {past : List (Entry Root Files Edit)} {id : String}

variable {n size : Int}

lemma Begun.snoc {revision : Int} (h : Begun past id n revision size) (e : Entry Root Files Edit)
    : Begun (past ++ [e]) id n revision size := by
  obtain ⟨x, hx, hbegin⟩ := h
  exact ⟨x, mem_append_left _ hx, hbegin⟩

/-- An entry that writes nothing to a grant and applies nothing for it. -/
def Quiet (id : String) (e : Entry Root Files Edit) : Prop :=
  ∀ n, acceptedWrite id n e = none ∧ (id, n) ∉ appliedBy e

variable {e : Entry Root Files Edit}

lemma quiet_of_other
    (h : ∀ command disk, e.action = .request command disk → command.target ≠ some id) :
    Quiet id e := by
  intro n
  constructor
  · unfold acceptedWrite
    split
    · rename_i id' n' offset bytes disk reply hact hrep
      rw [if_neg]
      rintro ⟨rfl, rfl⟩
      exact h _ _ hact rfl
    · rfl
  · unfold appliedBy
    split
    · rename_i id' n' disk hact
      intro hmem
      obtain ⟨-, -, heq⟩ := mem_map.mp hmem
      cases heq
      exact h _ _ hact rfl
    · exact not_mem_nil

lemma quiet_of_refused {error : Raised} (hrep : e.answer.1 = .error error)
    (hcls : e.answer.2.filter isApply = []) : Quiet id e := by
  intro n
  constructor
  · unfold acceptedWrite
    split
    · rename_i hact hok
      cases hrep.symm.trans hok
    · rfl
  · unfold appliedBy
    split
    · rw [hcls]
      exact not_mem_nil
    · exact not_mem_nil

variable {disk : Disk Files} {command : Command}

lemma quiet_of_command (hact : e.action = .request command disk)
    (hwr : ∀ id n offset bytes, command ≠ .write id n offset bytes)
    (hcom : ∀ id n, command = .commit id n → e.answer.2.filter isApply = []) : Quiet id e := by
  intro n
  constructor
  · unfold acceptedWrite
    split
    · rename_i hact' _
      obtain ⟨rfl, -⟩ := Action.request.inj (hact.symm.trans hact')
      exact absurd rfl (hwr _ _ _ _)
    · rfl
  · unfold appliedBy
    split
    · rename_i hact'
      obtain ⟨rfl, -⟩ := Action.request.inj (hact.symm.trans hact')
      rw [hcom _ _ rfl]
      exact not_mem_nil
    · exact not_mem_nil

lemma Quiet.snoc (h : Quiet id e) (past : List (Entry Root Files Edit)) (n : Int) :
    acceptedWrites id n (past ++ [e]) = acceptedWrites id n past ∧
      ((id, n) ∈ applied (past ++ [e]) ↔ (id, n) ∈ applied past) := by
  obtain ⟨hwr, happly⟩ := h n
  constructor
  · rw [acceptedWrites_snoc, hwr]
    exact append_nil _
  · rw [applied_snoc, mem_append]
    exact or_iff_left happly

lemma buffer_eq {chunks : List Bytes} (h : (chunks.flatten.length : Int) = size) :
    FileGrant.buffer size chunks = chunks.flatten := by
  rw [FileGrant.buffer, ← h, Int.toNat_natCast, Nat.sub_self]
  exact append_nil _

variable [DecidableEq Files] {inv : Inventories Files Edit}

variable {calls : List (Call Root Files Edit)} {baseline : FileSnapshot Files}

variable {outcome : Except Raised (FileSnapshot Files)}

lemma save_applies {grant : FileGrant Root Files} {bytes : Bytes}
    (h : grant.save inv disk baseline bytes = (outcome, calls)) :
    calls.filter isApply = [] ∨ ∃ files edit, inv.decodeInventory bytes = some files ∧
      disk.snapshot = .ok baseline ∧ inv.difference baseline files = some edit ∧
      calls.filter isApply = [.apply grant.root baseline edit] := by
  unfold FileGrant.save at h
  split at h
  · obtain ⟨-, rfl⟩ := mk.inj h
    exact .inl rfl
  · rename_i files hfls
    split at h
    · obtain ⟨-, rfl⟩ := mk.inj h
      exact .inl rfl
    · rename_i current hcur
      split at h
      · obtain ⟨-, rfl⟩ := mk.inj h
        exact .inl rfl
      · rename_i hsm
        obtain ⟨hfilesSame, hdirs⟩ := not_not.mp hsm
        have hbas : current = baseline := by exact congrArg₂ FileSnapshot.mk hfilesSame hdirs
        subst hbas
        split at h
        · obtain ⟨-, rfl⟩ := mk.inj h
          exact .inl rfl
        · rename_i edit hedit
          refine .inr ⟨files, edit, hfls, hcur, hedit, ?_⟩
          split at h
          · obtain ⟨-, rfl⟩ := mk.inj h
            rfl
          · split at h
            · obtain ⟨-, rfl⟩ := mk.inj h
              rfl
            · split at h <;>
              · obtain ⟨-, rfl⟩ := mk.inj h
                rfl

structure Tracks (past : List (Entry Root Files Edit)) (id : String)
    (grant : FileGrant Root Files) : Prop where
  unwritten : ∀ n, grant.retired < n → acceptedWrites id n past = []
  upload : ∀ n size chunks offset, grant.transfer = .upload n size chunks offset →
    chunks = acceptedWrites id n past ∧ Begun past id n grant.revision size
  applied : ∀ n, (id, n) ∈ applied past →
    n ≤ grant.retired ∧ ∀ size chunks offset, grant.transfer ≠ .upload n size chunks offset

omit [DecidableEq Files] in
lemma Tracks.quiet {grant : FileGrant Root Files} (h : Tracks past id grant) (hq : Quiet id e) :
    Tracks (past ++ [e]) id grant := by
  constructor
  · intro n hn
    rw [(hq.snoc past n).1]
    exact h.unwritten n hn
  · intro n size chunks offset htr
    obtain ⟨hchu, hbegun⟩ := h.upload n size chunks offset htr
    rw [(hq.snoc past n).1]
    exact ⟨hchu, hbegun.snoc e⟩
  · intro n hn
    exact h.applied n ((hq.snoc past n).2.mp hn)

omit [DecidableEq Files] in
lemma tracks_new (root : Root) (hws : ∀ n, acceptedWrites id n past = [])
    (happ : ∀ n, (id, n) ∉ applied past) :
    Tracks past id ({ root } : FileGrant Root Files) where
  unwritten n _ := hws n
  upload := by simp
  applied n h := absurd h (happ n)

variable {grant grant' : FileGrant Root Files}

omit [DecidableEq Files] in
lemma Tracks.settle (h : Tracks past id grant) (hret : grant.retired ≤ grant'.retired)
    (htr : ∀ n size chunks offset, grant'.transfer ≠ .upload n size chunks offset) :
    Tracks past id grant' where
  unwritten n hn := h.unwritten n (lt_of_le_of_lt hret hn)
  upload n size chunks offset hupl := absurd hupl (htr n size chunks offset)
  applied n hn := ⟨((h.applied n hn).1).trans hret, htr n⟩

lemma attempt_records {grant : FileGrant Root Files} {bytes : Bytes}
    (h : grant.save inv disk baseline bytes = (outcome, calls))
    (hact : e.action = .request (.commit id n) disk) (hcls : e.answer.2 = calls) :
    (∀ m, acceptedWrite id m e = none) ∧ (appliedBy e = [] ∨ appliedBy e = [(id, n)]) := by
  constructor
  · intro m
    unfold acceptedWrite
    rw [hact]
  · unfold appliedBy
    rw [hact, hcls]
    obtain hno | ⟨files, edit, -, -, -, hone⟩ := save_applies h
    · exact .inl (by rw [hno]; rfl)
    · exact .inr (by rw [hone]; rfl)

omit [DecidableEq Files] in
lemma Tracks.attempted (h : Tracks past id grant) (hn : n ≤ grant.retired)
    (hws : ∀ m, acceptedWrite id m e = none) (happ : appliedBy e = [] ∨ appliedBy e = [(id, n)])
    (hret : grant.retired ≤ grant'.retired)
    (htr : ∀ n size chunks offset, grant'.transfer ≠ .upload n size chunks offset) :
    Tracks (past ++ [e]) id grant' where
  unwritten m hm := by
    rw [acceptedWrites_snoc, hws m, h.unwritten m (lt_of_le_of_lt hret hm)]
    rfl
  upload m size chunks offset hupl := absurd hupl (htr m size chunks offset)
  applied m hm := by
    refine ⟨?_, htr m⟩
    rw [applied_snoc, mem_append] at hm
    obtain hm | hm := hm
    · exact ((h.applied m hm).1).trans hret
    · obtain hno | hone := happ
      · rw [hno] at hm
        cases hm
      · rw [hone] at hm
        obtain ⟨-, rfl⟩ := mk.inj (mem_singleton.mp hm)
        exact hn.trans hret

variable {reply : Except Raised Reply}

lemma Effect.tracks (h : Effect inv id grant command disk reply calls grant') (hvd : grant.Valid)
    (htra : Tracks past id grant) (hact : e.action = .request command disk)
    (hans : e.answer = (reply, calls)) : Tracks (past ++ [e]) id grant' := by
  have hq (hwr : ∀ id n offset bytes, command ≠ .write id n offset bytes)
      (hcom : ∀ id n, command ≠ .commit id n) : Quiet id e :=
    quiet_of_command hact hwr fun id n heq => absurd heq (hcom id n)
  cases h with
  | snapshot hseq => exact (htra.quiet (hq (by simp) (by simp))).settle hseq.le (by simp)
  | read => exact (htra.quiet (hq (by simp) (by simp))).settle le_rfl (by simp)
  | beginEdit hseq =>
    have htra' := htra.quiet (hq (by simp) (by simp))
    constructor
    · intro m hm
      exact htra'.unwritten m (hseq.trans hm)
    · intro m size chunks offset hupl
      obtain ⟨rfl, rfl, rfl, -⟩ := upload.inj hupl
      refine ⟨(htra'.unwritten _ hseq).symm, e, by simp, ⟨disk, hact⟩, ?_⟩
      exact ⟨_, by rw [hans]⟩
    · intro m hm
      have hle := (htra'.applied m hm).1
      refine ⟨hle.trans hseq.le, fun size chunks offset hupl => ?_⟩
      obtain ⟨rfl, -⟩ := upload.inj hupl
      omega
  | write htr hfi =>
    rename_i n size offset chunks bytes
    obtain ⟨hn, -⟩ := hvd.upload _ _ _ _ htr
    obtain ⟨hchu, hbegun⟩ := htra.upload _ _ _ _ htr
    have hwr (m : Int) : acceptedWrite id m e = if n = m then some bytes else none := by
      unfold acceptedWrite
      rw [hact, hans]
      simp
    have happly : appliedBy e = [] := by
      unfold appliedBy
      rw [hact]
    constructor
    · intro m hm
      have hne : n ≠ m := by
        dsimp only at hm
        omega
      rw [acceptedWrites_snoc, hwr, htra.unwritten m hm, if_neg hne]
      rfl
    · intro m size' chunks' offset' hupl
      obtain ⟨rfl, rfl, rfl, -⟩ := upload.inj hupl
      rw [acceptedWrites_snoc, hwr, if_pos rfl, ← hchu]
      exact ⟨rfl, hbegun.snoc e⟩
    · intro m hm
      rw [applied_snoc, happly, append_nil] at hm
      obtain ⟨hle, ho⟩ := htra.applied m hm
      refine ⟨hle, fun size' chunks' offset' hupl => ?_⟩
      obtain ⟨rfl, -⟩ := upload.inj hupl
      exact ho _ _ _ htr
  | repeated htr =>
    apply htra.quiet
    exact quiet_of_command hact (by simp) fun _ _ _ => by rw [hans]; rfl
  | saved htr hbas hsv | unsaved htr hbas hsv =>
    obtain ⟨hn, -⟩ := hvd.upload _ _ _ _ htr
    obtain ⟨hws, happ⟩ := attempt_records hsv hact (by rw [hans])
    exact htra.attempted hn.le hws happ le_rfl (by simp)
  | status => exact htra.quiet (hq (by simp) (by simp))
  | release hseq htr =>
    have htra' := htra.quiet (hq (by simp) (by simp))
    apply htra'.settle hseq
    obtain ⟨rfl, m, code, message, hfai⟩ | ⟨rfl, -⟩ := htr
    · simp [hfai]
    · simp
  | refused her hcls =>
    apply htra.quiet
    apply quiet_of_refused (by rw [hans])
    rw [hans]
    obtain rfl | ⟨rfl, -⟩ := hcls <;> rfl

structure Tracked (past : List (Entry Root Files Edit)) (service : FileService Root Files) :
    Prop where
  unissued : ∀ id, service.Unissued id →
    (∀ n, acceptedWrites id n past = []) ∧ ∀ n, (id, n) ∉ applied past
  grants : ∀ id grant, service.grant? id = some grant → Tracks past id grant

omit [DecidableEq Files] in
lemma tracked_new :
    Tracked ([] : List (Entry Root Files Edit)) ({} : FileService Root Files) where
  unissued _ _ := ⟨fun _ => rfl, fun _ => not_mem_nil⟩
  grants := by simp [grant?]

abbrev entryOf (inv : Inventories Files Edit) (self : FileService Root Files)
    (action : Action Root Files) : Entry Root Files Edit :=
  Recording.entry (FileService.step inv) self action

lemma acted_or_quiet (inv : Inventories Files Edit) (self : FileService Root Files)
    (action : Action Root Files) (id : String) :
    (∃ grant grant' command disk, action = .request command disk ∧ self.grant? id = some grant ∧
      (self.perform inv action).left.grant? id = some grant' ∧
      Effect inv id grant command disk (self.perform inv action).reply
        (self.perform inv action).calls grant') ∨
    Quiet id (entryOf inv self action) := by
  cases perform_seen inv self action id with
  | kept ho haft =>
    right
    obtain ho | ⟨⟨code, hrep⟩, hcls⟩ := ho
    · exact quiet_of_other ho
    · apply quiet_of_refused hrep
      change (self.perform inv action).calls.filter isApply = []
      rw [hcls]
      rfl
  | created hact hpd hid hrep haft =>
    subst hact
    exact .inr (quiet_of_other (by simp [entry]))
  | dropped hact hrep haft =>
    right
    obtain rfl | ⟨disk, rfl⟩ := hact
    · exact quiet_of_other (by simp [entry])
    · exact quiet_of_command rfl (by simp) (by simp)
  | acted hact hgr heff haft => exact .inl ⟨_, _, _, _, hact, hgr, haft, heff⟩

lemma Tracked.step {self : FileService Root Files} (h : Tracked past self) (hvd : self.Valid)
    (action : Action Root Files) :
    Tracked (past ++ [entryOf inv self action]) (self.perform inv action).left := by
  constructor
  · intro id huni
    have hpre := unissued_of_perform huni
    obtain ⟨hws, happ⟩ := h.unissued id hpre
    obtain ⟨grant, _, _, _, _, hgr, -⟩ | hq := acted_or_quiet inv self action id
    · rw [hvd.grant?_of_unissued hpre] at hgr
      cases hgr
    · exact ⟨fun n => ((hq.snoc past n).1).trans (hws n),
        fun n hn => happ n ((hq.snoc past n).2.mp hn)⟩
  · intro id grant' hgr'
    obtain ⟨grant, _, _, _, hact, hgr, haft, heff⟩ | hq := acted_or_quiet inv self action id
    · obtain rfl := Option.some.inj (hgr'.symm.trans haft)
      exact heff.tracks (hvd.grants id grant hgr) (h.grants id grant hgr) hact rfl
    · cases perform_seen inv self action id with
      | kept ho haft => exact (h.grants id grant' (haft.symm.trans hgr')).quiet hq
      | created hact hpd hid hrep haft =>
        obtain rfl := Option.some.inj (hgr'.symm.trans haft)
        have huni : self.Unissued id := by
          obtain ⟨hl, -⟩ := hvd.picker_last _ hpd.2
          exact ⟨_, hid, hl ▸ hvd.next_nonneg, .inr hpd.2⟩
        obtain ⟨hws, happ⟩ := h.unissued id huni
        exact (tracks_new _ hws happ).quiet hq
      | dropped hact hrep haft => cases hgr'.symm.trans haft
      | acted hact hgr heff haft =>
        obtain rfl := Option.some.inj (hgr'.symm.trans haft)
        exact heff.tracks (hvd.grants id _ hgr) (h.grants id _ hgr) hact rfl

def lived (inv : Inventories Files Edit) (actions : List (Action Root Files)) :
    FileService Root Files := Recording.final (FileService.step inv) {} actions

section

variable (actions : List (Action Root Files))

lemma lived_snoc (action : Action Root Files) :
    lived inv (actions ++ [action]) = ((lived inv actions).perform inv action).left :=
  final_snoc actions action

lemma history_snoc (action : Action Root Files) :
    history inv (actions ++ [action]) =
      history inv actions ++ [entryOf inv (lived inv actions) action] :=
  entries_snoc actions action

omit actions in
lemma lived_valid (inv : Inventories Files Edit) (actions : List (Action Root Files)) :
    (lived inv actions).Valid :=
  final_keeps (P := Valid) (fun _ action h => perform_valid h action) valid_new actions

lemma lived_tracked :
    Tracked (history inv actions) (lived inv actions) := by
  induction actions using List.reverseRecOn with
  | nil => exact tracked_new
  | append_singleton actions action ih =>
    rw [history_snoc, lived_snoc]
    exact ih.step (lived_valid inv actions) action

end

variable {actions : List (Action Root Files)}

section

variable (h : e ∈ history inv actions)

include h

lemma entry_of_history :
    e = entryOf inv e.before e.action ∧ e.before.Valid :=
  entry_of_mem (fun _ action h => perform_valid h action) valid_new h

lemma entry_picks :
    Picks e.before e.action e.answer.1 e.after.next e.after.picker := by
  obtain ⟨he, -⟩ := entry_of_history h
  rw [he]
  exact perform_picks inv e.before e.action

lemma entry_seen (id : String) :
    Seen inv e.before id e.action e.answer.1 e.answer.2 (e.after.grant? id) := by
  obtain ⟨he, -⟩ := entry_of_history h
  rw [he]
  exact perform_seen inv e.before e.action id

lemma entry_of_request (hact : e.action = .request command disk) (htgt : command.target = some id)
    (hrevoke : command ≠ .revoke id) :
    ((∃ code, e.answer.1 = .error (.rejected code)) ∧ e.answer.2 = []) ∨
    ∃ grant grant', e.before.grant? id = some grant ∧ e.after.grant? id = some grant' ∧
      Effect inv id grant command disk e.answer.1 e.answer.2 grant' := by
  cases entry_seen h id with
  | kept ho hsm =>
    obtain ho | href := ho
    · exact absurd htgt (ho _ _ hact)
    · exact .inl href
  | created hact' => cases hact.symm.trans hact'
  | dropped hact' =>
    obtain hclo | ⟨disk', hrevoked⟩ := hact'
    · cases hact.symm.trans hclo
    · exact absurd (Action.request.inj (hact.symm.trans hrevoked)).1 hrevoke
  | acted hact' hgr heff hso =>
    obtain ⟨rfl, rfl⟩ := Action.request.inj (hact.symm.trans hact')
    exact .inr ⟨_, _, hgr, hso, heff⟩

lemma after_valid : e.after.Valid := by
  obtain ⟨he, hvd⟩ := entry_of_history h
  rw [he]
  exact perform_valid hvd e.action

end

lemma committed_of_reply {m revision : Int}
    (h : Effect inv id grant (.commit id n) disk reply calls grant')
    (hrep : reply = .ok (.committed m revision)) :
    m = n ∧ grant'.transfer = .committed n revision := by
  cases h with
  | repeated htr =>
    obtain ⟨rfl, rfl⟩ := Reply.committed.inj (Except.ok.inj hrep)
    exact ⟨rfl, htr⟩
  | saved htr =>
    obtain ⟨rfl, rfl⟩ := Reply.committed.inj (Except.ok.inj hrep)
    exact ⟨rfl, rfl⟩
  | unsaved | refused => cases hrep

lemma history_split {rest : List (Entry Root Files Edit)}
    (h : history inv actions = past ++ e :: rest) :
    ∃ earlier, past = history inv earlier ∧ e = entryOf inv (lived inv earlier) e.action := by
  obtain ⟨earlier, _, -, hpast, he, -⟩ := entries_split h
  exact ⟨earlier, hpast, he⟩

/-- An entry that applies an edit is the commit of a complete upload, on a folder that is
as the grant knew it. -/
structure Applies (inv : Inventories Files Edit) (e : Entry Root Files Edit) (id : String)
    (n size : Int) (chunks : List Bytes) (grant : FileGrant Root Files)
    (baseline : FileSnapshot Files) (edit : Edit) : Prop where
  requested : ∃ disk, e.action = .request (.commit id n) disk ∧ disk.snapshot = .ok baseline
  granted : e.before.grant? id = some grant
  uploaded : grant.transfer = .upload n size chunks size
  known : grant.baseline = some baseline
  edited : ∃ files, inv.decodeInventory (FileGrant.buffer size chunks) = some files ∧
    inv.difference baseline files = some edit
  called : e.answer.2.filter Call.isApply = [.apply grant.root baseline edit]

lemma Effect.applies (h : Effect inv id grant command disk reply calls grant')
    (hact : e.action = .request command disk) (hgr : e.before.grant? id = some grant)
    (hcls : e.answer.2 = calls) :
    calls.filter isApply = [] ∨
      ∃ n size chunks baseline edit, Applies inv e id n size chunks grant baseline edit := by
  cases h with
  | saved htr hbas hsv | unsaved htr hbas hsv =>
    obtain hno | ⟨files, edit, hfls, hdisk, hedit, hone⟩ := save_applies hsv
    · exact .inl hno
    · right
      exact ⟨_, _, _, _, _, ⟨disk, hact, hdisk⟩, hgr, htr, hbas, ⟨files, hfls, hedit⟩, hcls ▸ hone⟩
  | refused her hcls' =>
    left
    obtain rfl | ⟨rfl, -⟩ := hcls' <;> rfl
  | snapshot | read | beginEdit | write | repeated | status | release => exact .inl rfl

lemma perform_applies (inv : Inventories Files Edit) (self : FileService Root Files)
    (action : Action Root Files) :
    (self.perform inv action).calls.filter isApply = [] ∨
      ∃ id n size chunks grant baseline edit,
        Applies inv (entryOf inv self action) id n size chunks grant baseline edit := by
  cases action with
  | beginChoose =>
    simp only [perform, beginChoose]
    split
    · exact .inl rfl
    · split
      · exact .inl rfl
      · split <;> exact .inl rfl
  | cancelChoose ticket => exact .inl rfl
  | close =>
    left
    rw [filter_eq_nil_iff]
    intro call hca
    obtain ⟨entry, -, rfl⟩ := mem_map.mp hca
    exact Bool.false_ne_true
  | request command disk =>
    obtain ⟨code, h⟩ | ⟨target, rfl, h⟩ | ⟨target, act, -, h, hact⟩ :=
      request_cases inv self command disk
    · rw [perform, h]
      exact .inl rfl
    · left
      rw [perform, h, filter_eq_nil_iff]
      intro call hca
      obtain ⟨grant, -, rfl⟩ := mem_map.mp hca
      exact Bool.false_ne_true
    · cases hgr : self.grant? target with
      | none =>
        left
        rw [perform, h, withGrant, hgr]
        rfl
      | some grant =>
        have hcls : (self.perform inv (.request command disk)).calls = (act grant).calls := by
          rw [perform, h, withGrant, hgr]
          rfl
        rw [hcls]
        obtain hno | ⟨n, size, chunks, baseline, edit, happ⟩ :=
          Effect.applies (e := entryOf inv self (.request command disk)) (hact grant) rfl
            hgr hcls
        · exact .inl hno
        · exact .inr ⟨target, n, size, chunks, grant, baseline, edit, happ⟩
  | finishChoose ticket path opened =>
    left
    simp only [perform, finishChoose]
    split
    · rfl
    · cases path with
      | none => rfl
      | some path =>
        cases opened with
        | error error => rfl
        | ok root =>
          dsimp only
          split <;> rfl

omit [DecidableEq Files] in
lemma Applies.appliedBy_eq {chunks : List Bytes} {grant : FileGrant Root Files} {edit : Edit}
    (h : Applies inv e id n size chunks grant baseline edit) : appliedBy e = [(id, n)] := by
  obtain ⟨disk, hact, -⟩ := h.requested
  rw [appliedBy, hact]
  rw [h.called]
  rfl

lemma applied_nodup (actions : List (Action Root Files)) :
    (applied (history inv actions)).Nodup := by
  induction actions using List.reverseRecOn with
  | nil => exact nodup_nil
  | append_singleton actions action ih =>
    rw [history_snoc, applied_snoc]
    obtain hno | ⟨id, n, size, chunks, grant, baseline, edit, happ⟩ :=
      perform_applies inv (lived inv actions) action
    · have hnot : appliedBy (entryOf inv (lived inv actions) action) = [] := by
        unfold appliedBy
        split
        · exact map_eq_nil_iff.mpr hno
        · rfl
      rw [hnot, append_nil]
      exact ih
    · rw [happ.appliedBy_eq]
      refine nodup_append.mpr ⟨ih, nodup_singleton _, fun e he f hf heq => ?_⟩
      obtain rfl := mem_singleton.mp hf
      subst heq
      have htra := (lived_tracked actions).grants id grant happ.granted
      exact (htra.applied n he).2 _ _ _ happ.uploaded

end Morphir.Files
