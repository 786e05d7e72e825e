import Morphir.Files.TransferHistory

/-!
# Fenced grants

Over a service's whole life grants come from pending pickers only, an edit is made at
most once for a sequence and only from a complete upload onto an unchanged folder, and
repeats, refusals and uncertain saves do nothing more.
-/

namespace Morphir.Files

open FileService Recording Option FileTransfer

variable {Root Files Edit : Type}

def Drops (ticket : Int) (e : Entry Root Files Edit) : Prop :=
  e.action = .close ∨ e.action = .cancelChoose none ∨ e.action = .cancelChoose (some ticket) ∨
    (∃ path opened, e.action = .finishChoose ticket path opened) ∨
    ∃ other, e.answer.1 = .ok (.ticket other)

/-- A ticket was issued, and since then it was not cancelled, finished or replaced. -/
def PendingSince (past : List (Entry Root Files Edit)) (ticket : Int) : Prop :=
  ∃ older issue newer, past = older ++ issue :: newer ∧ issue.action = .beginChoose ∧
    issue.answer.1 = .ok (.ticket ticket) ∧ ∀ x ∈ newer, ¬ Drops ticket x

variable [DecidableEq Files] {inv : Inventories Files Edit}

variable {actions : List (Action Root Files)}

lemma pendingSince_of_picker {ticket : Int} (h : (lived inv actions).picker = some ticket) :
    PendingSince (history inv actions) ticket := by
  obtain ⟨older, issue, newer, hents, hpre, haft, hhl⟩ :=
    exists_since (P := fun service : FileService Root Files => service.picker = some ticket)
      (by simp) h
  have hmem (x : Entry Root Files Edit) (hx : x ∈ issue :: newer) : x ∈ history inv actions := by
    rw [history, hents]
    exact List.mem_append_right _ hx
  have hiss : issue.action = .beginChoose ∧ issue.answer.1 = .ok (.ticket ticket) := by
    cases entry_picks (hmem issue List.mem_cons_self) with
    | issued hact hcld hpic hgra hrep hnx hl =>
      obtain rfl := some.inj (haft.symm.trans hl)
      exact ⟨hact, hrep⟩
    | dropped hrep hnx hno => cases haft.symm.trans hno
    | kept hrep hclo hccl hfin hnx hsm => exact absurd (hsm ▸ haft) hpre
  refine ⟨older, issue, newer, hents, hiss.1, hiss.2, fun x hx hdrops => ?_⟩
  have hx' := hmem x (List.mem_cons_of_mem _ hx)
  obtain ⟨hpd, hstill⟩ := hhl x hx
  cases entry_picks hx' with
  | issued hact hcld hpic => cases hpd.symm.trans hpic
  | dropped hrep hnx hno => cases hstill.symm.trans hno
  | kept hrep hclo hccl hfin hnx hsm =>
    obtain hact | hact | hact | ⟨path, opened, hact⟩ | ⟨other, ho⟩ := hdrops
    · exact hclo hact
    · exact (hccl none hact).1 rfl
    · exact (hccl _ hact).2 hpd
    · obtain hcld | hpic := hfin _ _ _ hact
      · rw [(entry_of_history hx').2.closed_picker hcld] at hpd
        cases hpd
      · exact hpic hpd
    · exact hrep other ho

variable {e : Entry Root Files Edit} {id : String}

lemma created_from_pending {past rest : List (Entry Root Files Edit)}
    {grant : FileGrant Root Files} (h : history inv actions = past ++ e :: rest)
    (hpre : e.before.grant? id = none) (haft : e.after.grant? id = some grant) :
    ∃ ticket path root, id = grantId ticket ∧
      e.action = .finishChoose ticket (some path) (.ok root) ∧ PendingSince past ticket := by
  have hmem : e ∈ history inv actions := by rw [h]; simp
  cases entry_seen hmem id with
  | kept ho hsm =>
    rw [hsm, hpre] at haft
    cases haft
  | created hact hpd hid =>
    obtain ⟨earlier, rfl, he⟩ := history_split h
    rw [he] at hpd
    exact ⟨_, _, _, hid, hact, pendingSince_of_picker hpd.2⟩
  | dropped hact hrep hno => cases haft.symm.trans hno
  | acted hact hgr => cases hpre.symm.trans hgr

def GoesOn (id : String) (self later : FileService Root Files) : Prop :=
  (later.Unissued id → self.Unissued id) ∧
    ∀ grant', later.grant? id = some grant' → self.Unissued id ∨
      ∃ grant, self.grant? id = some grant ∧ grant.revision ≤ grant'.revision ∧
        grant.retired ≤ grant'.retired

omit [DecidableEq Files] in
lemma GoesOn.refl (id : String) (self : FileService Root Files) : GoesOn id self self :=
  ⟨fun h => h, fun grant h => .inr ⟨grant, h, le_rfl, le_rfl⟩⟩

omit [DecidableEq Files] in
lemma GoesOn.trans {later last : FileService Root Files} (h : GoesOn id self later)
    (h' : GoesOn id later last) : GoesOn id self last := by
  refine ⟨fun huni => h.1 (h'.1 huni), fun grant'' hl => ?_⟩
  obtain huni | ⟨grant', hlat, hrev', hret'⟩ := h'.2 grant'' hl
  · exact .inl (h.1 huni)
  · obtain huni | ⟨grant, hsf, hrev, hret⟩ := h.2 grant' hlat
    · exact .inl huni
    · exact .inr ⟨grant, hsf, hrev.trans hrev', hret.trans hret'⟩

variable {self : FileService Root Files}

lemma perform_goesOn (id : String) (hvd : self.Valid) (action : Action Root Files) :
    GoesOn id self (self.perform inv action).left := by
  refine ⟨unissued_of_perform, fun grant' hgr' => ?_⟩
  cases perform_seen inv self action id with
  | kept ho haft => exact .inr ⟨grant', haft.symm.trans hgr', le_rfl, le_rfl⟩
  | created hact hpd hid =>
    obtain ⟨hl, -⟩ := hvd.picker_last _ hpd.2
    exact .inl ⟨_, hid, hl ▸ hvd.next_nonneg, .inr hpd.2⟩
  | dropped hact hrep haft => cases hgr'.symm.trans haft
  | acted hact hgr heff haft =>
    obtain rfl := some.inj (hgr'.symm.trans haft)
    exact .inr ⟨_, hgr, heff.later⟩

lemma grants_monotone {earlier later : List (Action Root Files)}
    {grant grant' : FileGrant Root Files} (h : (lived inv earlier).grant? id = some grant)
    (h' : (lived inv (earlier ++ later)).grant? id = some grant') :
    grant.revision ≤ grant'.revision ∧ grant.retired ≤ grant'.retired := by
  have hvd := lived_valid inv earlier
  have hgoes : GoesOn id (lived inv earlier) (lived inv (earlier ++ later)) := by
    rw [lived, lived, final_append]
    apply final_related (P := Valid) (GoesOn.refl id) .trans
    · exact fun self action hsf => perform_valid hsf action
    · exact fun self action hsf => perform_goesOn id hsf action
    · exact hvd
  obtain huni | ⟨found, hfd, hle⟩ := hgoes.2 grant' h'
  · exact absurd huni (hvd.issued id grant h)
  · obtain rfl := some.inj (h.symm.trans hfd)
    exact hle

/-- The commit `n` of a grant is over, with a revision. -/
def Settled (id : String) (n revision : Int) (self : FileService Root Files) : Prop :=
  ¬ self.Unissued id ∧ ∀ grant, self.grant? id = some grant → n ≤ grant.retired ∧
    (∀ size chunks offset, grant.transfer ≠ .upload n size chunks offset) ∧
    ∀ revision', grant.transfer = .committed n revision' → revision' = revision

lemma keeps_of_effect {P : FileGrant Root Files → Prop} {action : Action Root Files}
    (hvd : self.Valid) (hiss : ¬ self.Unissued id)
    (h : ∀ grant, self.grant? id = some grant → P grant)
    (heff : ∀ grant grant' command disk reply calls, action = .request command disk →
      (self.perform inv action).reply = reply → self.grant? id = some grant → P grant →
      Effect inv id grant command disk reply calls grant' → P grant') :
    ¬ (self.perform inv action).left.Unissued id ∧
      ∀ grant, (self.perform inv action).left.grant? id = some grant → P grant := by
  refine ⟨fun huni => hiss (unissued_of_perform huni), fun grant' hgr' => ?_⟩
  cases perform_seen inv self action id with
  | kept ho haft => exact h grant' (haft.symm.trans hgr')
  | created hact hpd hid =>
    obtain ⟨hl, -⟩ := hvd.picker_last _ hpd.2
    exact absurd ⟨_, hid, hl ▸ hvd.next_nonneg, .inr hpd.2⟩ hiss
  | dropped hact hrep haft => cases hgr'.symm.trans haft
  | acted hact hgr hacted haft =>
    obtain rfl := some.inj (hgr'.symm.trans haft)
    exact heff _ _ _ _ _ _ hact rfl hgr (h _ hgr) hacted

variable {n revision : Int}

lemma Settled.step (hvd : self.Valid) (h : Settled id n revision self)
    (action : Action Root Files) : Settled id n revision (self.perform inv action).left := by
  apply keeps_of_effect hvd h.1 h.2
  intro grant grant' command disk reply calls hact hrep hgr hset heff
  obtain ⟨hle, hupl, hcom⟩ := hset
  cases heff with
  | snapshot hseq => exact ⟨hle.trans hseq.le, by simp, by simp⟩
  | read => exact ⟨hle, by simp, by simp⟩
  | beginEdit hseq =>
    refine ⟨hle.trans hseq.le, fun size chunks offset heq => ?_, by simp⟩
    obtain ⟨rfl, -⟩ := upload.inj heq
    omega
  | write htr =>
    refine ⟨hle, fun size chunks offset heq => ?_, by simp⟩
    obtain ⟨rfl, -⟩ := upload.inj heq
    exact hupl _ _ _ htr
  | saved htr =>
    refine ⟨hle, by simp, fun revision' heq => ?_⟩
    obtain ⟨rfl, -⟩ := committed.inj heq
    exact absurd htr (hupl _ _ _)
  | unsaved htr => exact ⟨hle, by simp, by simp⟩
  | release hseq htr =>
    refine ⟨hle.trans hseq, ?_⟩
    obtain ⟨rfl, m, code, message, hfai⟩ | ⟨rfl, -⟩ := htr
    · exact ⟨by simp [hfai], by simp [hfai]⟩
    · exact ⟨by simp, by simp⟩
  | repeated | status | refused => exact ⟨hle, hupl, hcom⟩

variable {disk : Disk Files}

variable {m : Int}

lemma settled_of_commit (h : e ∈ history inv actions)
    (hact : e.action = .request (.commit id n) disk)
    (hrep : e.answer.1 = .ok (.committed m revision)) :
    m = n ∧ Settled id n revision e.after ∧
      ∃ grant, e.after.grant? id = some grant ∧ grant.transfer = .committed n revision := by
  obtain ⟨⟨code, href⟩, -⟩ | ⟨grant, grant', hgr, haft, heff⟩ :=
    entry_of_request h hact rfl (by simp)
  · cases hrep.symm.trans href
  · have hvd := after_valid h
    obtain ⟨rfl, htr⟩ := committed_of_reply heff hrep
    refine ⟨rfl, ⟨hvd.issued id grant' haft, fun other ho => ?_⟩, grant', haft, htr⟩
    obtain rfl := some.inj (haft.symm.trans ho)
    refine ⟨(hvd.grants id _ haft).sequence_le m (by rw [htr]; rfl), by simp [htr],
      fun revision' h => ?_⟩
    exact (committed.inj (htr.symm.trans h)).2.symm

lemma commit_of_settled (h : e ∈ history inv actions)
    (hact : e.action = .request (.commit id n) disk) (hset : Settled id n revision e.before) :
    e.answer.2 = [] ∧
      (e.answer.1 = .ok (.committed n revision) ∨ ∃ error, e.answer.1 = .error error) := by
  obtain ⟨⟨code, href⟩, hcls⟩ | ⟨grant, grant', hgr, haft, heff⟩ :=
    entry_of_request h hact rfl (by simp)
  · exact ⟨hcls, .inr ⟨_, href⟩⟩
  · obtain ⟨-, hupl, hcom⟩ := hset.2 _ hgr
    generalize e.answer.1 = reply, e.answer.2 = calls at heff ⊢
    cases heff with
    | repeated htr =>
      rw [hcom _ htr]
      exact ⟨rfl, .inl rfl⟩
    | saved htr | unsaved htr => exact absurd htr (hupl _ _ _)
    | refused her hcls =>
      obtain rfl | ⟨-, m, heq⟩ := hcls
      · exact ⟨rfl, .inr ⟨_, rfl⟩⟩
      · cases heq

def Replaces (id : String) (e : Entry Root Files Edit) : Prop :=
  e.action = .close ∨ ∃ command disk, e.action = .request command disk ∧
    command.target = some id ∧ (∃ reply, e.answer.1 = .ok reply) ∧
    ((∃ n, command = .snapshot id n) ∨
      (∃ n revision size, command = .beginEdit id n revision size) ∨
      (∃ n, command = .release id n) ∨ command = .revoke id)

/-- The grant is in an open service and its transfer is the commit `n`. -/
def Committed (id : String) (n revision : Int) (self : FileService Root Files) : Prop :=
  self.closed = false ∧
    ∃ grant, self.grant? id = some grant ∧ grant.transfer = .committed n revision

lemma Committed.step (h : Committed id n revision self) (hvd : self.Valid)
    (action : Action Root Files) (hreplaces : ¬ Replaces id (entryOf inv self action)) :
    Committed id n revision (self.perform inv action).left := by
  obtain ⟨hop, grant, hgr, htr⟩ := h
  have hclo : action ≠ .close := fun heq => hreplaces (.inl heq)
  refine ⟨(perform_closed action hclo).trans hop, ?_⟩
  cases perform_seen inv self action id with
  | kept ho haft => exact ⟨grant, haft.trans hgr, htr⟩
  | created hact hpd hid =>
    obtain ⟨hl, -⟩ := hvd.picker_last _ hpd.2
    exact absurd ⟨_, hid, hl ▸ hvd.next_nonneg, .inr hpd.2⟩
      (hvd.issued id grant hgr)
  | dropped hact hreply haft =>
    obtain heq | ⟨disk, heq⟩ := hact
    · exact absurd heq hclo
    · exact absurd (.inr ⟨_, disk, heq, rfl, ⟨_, hreply⟩, .inr (.inr (.inr rfl))⟩) hreplaces
  | acted hact hgr' heff haft =>
    obtain rfl := some.inj (hgr.symm.trans hgr')
    generalize hreply : (self.perform inv action).reply = reply,
      (self.perform inv action).calls = calls at heff
    have hk {command : Command} {reply : Reply} {disk : Disk Files}
        (hact : action = .request command disk) (htgt : command.target = some id)
        (hreply : (self.perform inv action).reply = .ok reply)
        (hreplacing : (∃ n, command = .snapshot id n) ∨
          (∃ n revision size, command = .beginEdit id n revision size) ∨
          (∃ n, command = .release id n) ∨ command = .revoke id) : False :=
      hreplaces (.inr ⟨command, disk, hact, htgt, ⟨reply, hreply⟩, hreplacing⟩)
    refine ⟨_, haft, ?_⟩
    cases heff with
    | snapshot => exact (hk hact rfl hreply (.inl ⟨_, rfl⟩)).elim
    | beginEdit => exact (hk hact rfl hreply (.inr (.inl ⟨_, _, _, rfl⟩))).elim
    | release => exact (hk hact rfl hreply (.inr (.inr (.inl ⟨_, rfl⟩)))).elim
    | read htr' | write htr' | saved htr' | unsaved htr' => cases htr.symm.trans htr'
    | repeated | status | refused => exact htr

lemma Committed.repeat (h : Committed id n revision self) (disk : Disk Files) :
    (self.perform inv (.request (.commit id n) disk)).reply = .ok (.committed n revision) ∧
      (self.perform inv (.request (.commit id n) disk)).calls = [] := by
  obtain ⟨hop, grant, hgr, htr⟩ := h
  have hcom : (grant.commit inv disk n : Answer Root Files Edit _) =
      { reply := .ok (.committed n revision), left := grant } := by
    unfold FileGrant.commit
    simp [htr]
  simp [perform, request, hop, withGrant, hgr, Answer.map, hcom]

lemma open_of_reply {command : Command} {reply : Reply}
    (h : (self.perform inv (.request command disk)).reply = .ok reply) : self.closed = false := by
  cases hcld : self.closed with
  | false => rfl
  | true => simp [perform, request, hcld, Answer.refused] at h

variable {f : Entry Root Files Edit}

lemma commit_repeated {past between rest : List (Entry Root Files Edit)} {disk' : Disk Files}
    (h : history inv actions = past ++ e :: (between ++ f :: rest))
    (he : e.action = .request (.commit id n) disk) (hrep : e.answer.1 = .ok (.committed m revision))
    (hf : f.action = .request (.commit id n) disk') :
    f.answer.2 = [] ∧ (f.answer.1 = e.answer.1 ∨ ∃ error, f.answer.1 = .error error) ∧
      ((∀ x ∈ between, ¬ Replaces id x) → f.answer.1 = e.answer.1) := by
  have hmem : e ∈ history inv actions := by rw [h]; simp
  have hmemLast : f ∈ history inv actions := by rw [h]; simp
  obtain ⟨rfl, hset, grant, hgr, htr⟩ := settled_of_commit hmem he hrep
  have hvd := after_valid hmem
  obtain ⟨earlier, middle, -, hent, hbet, hl⟩ := entries_between h
  have hpre : f.before = final (step inv) e.after middle := by
    rw [hl]
    rfl
  have hstill : f.before.Valid ∧ Settled id m revision f.before := by
    rw [hpre]
    exact final_keeps (P := fun self => Valid self ∧ Settled id m revision self)
      (fun self action hsf => ⟨perform_valid hsf.1 action, hsf.2.step hsf.1 action⟩)
      ⟨hvd, hset⟩ middle
  obtain ⟨hcls, hag⟩ := commit_of_settled hmemLast hf hstill.2
  rw [hrep]
  refine ⟨hcls, hag, fun hk => ?_⟩
  have hop : e.after.closed = false := by
    rw [hent, he] at hrep ⊢
    have hcld := open_of_reply hrep
    exact (perform_closed (.request (.commit id m) disk) (by simp)).trans hcld
  have hcom : Valid f.before ∧ Committed id m revision f.before := by
    rw [hpre]
    apply final_keeps_of (P := fun self => Valid self ∧ Committed id m revision self)
    · exact fun self action hsf hnot => ⟨perform_valid hsf.1 action, hsf.2.step hsf.1 action hnot⟩
    · exact ⟨hvd, hop, grant, hgr, htr⟩
    · rw [← hbet]
      exact hk
  have hentryLast := (entry_of_history hmemLast).1
  rw [hentryLast, hf]
  exact (hcom.2.repeat disk').1

def Attempts (e : Entry Root Files Edit) (id : String) : Prop :=
  ∃ n disk grant size chunks, e.action = .request (.commit id n) disk ∧
    e.before.grant? id = some grant ∧ grant.transfer = .upload n size chunks size

lemma refused_keeps {error : Raised} (h : e ∈ history inv actions)
    (hrep : e.answer.1 = .error error) (id : String) (hatt : ¬ Attempts e id) :
    e.after.grant? id = e.before.grant? id := by
  cases entry_seen h id with
  | kept ho hsm => exact hsm
  | created hact hpd hid hname =>
    obtain ⟨name, hname⟩ := hname
    cases hrep.symm.trans hname
  | dropped hact hemp => cases hrep.symm.trans hemp
  | acted hact hgr heff hso =>
    rw [hso, hgr]
    rw [hrep] at heff
    cases heff with
    | unsaved htr => exact absurd ⟨_, _, _, _, _, hact, hgr, htr⟩ hatt
    | refused => rfl

/-- The last save of a grant has failed with an effect that is not known. -/
def Blocked (id : String) (self : FileService Root Files) : Prop :=
  ¬ self.Unissued id ∧ ∀ grant, self.grant? id = some grant →
    ∃ n code message, grant.transfer = .failed n (.uncertain code message)

def Refreshes (id : String) (e : Entry Root Files Edit) : Prop :=
  ∃ n disk reply, e.action = .request (.snapshot id n) disk ∧ e.answer.1 = .ok reply

lemma Blocked.step (hvd : self.Valid) (h : Blocked id self) (action : Action Root Files)
    (href : ¬ Refreshes id (entryOf inv self action)) :
    Blocked id (self.perform inv action).left := by
  apply keeps_of_effect hvd h.1 h.2
  rintro grant grant' command disk reply calls hact hrep hgr
    ⟨n, code, message, hfai⟩ heff
  cases heff with
  | snapshot => exact absurd ⟨_, disk, _, hact, hrep⟩ href
  | beginEdit _ _ _ _ _ htk =>
    rw [FileGrant.takesEdit_of_failed hfai] at htk
    cases htk
  | read htr | write htr | repeated htr | saved htr | unsaved htr => cases hfai.symm.trans htr
  | release hseq htr =>
    obtain ⟨rfl, -⟩ | ⟨-, ho⟩ := htr
    · exact ⟨n, code, message, hfai⟩
    · exact absurd hfai (ho n code message)
  | status | refused => exact ⟨n, code, message, hfai⟩

lemma blocked_of_commit {code : String} (h : e ∈ history inv actions)
    (hact : e.action = .request (.commit id n) disk) (hrep : e.answer.1 = .error (.uncertain code))
    : Blocked id e.after := by
  obtain ⟨⟨other, href⟩, -⟩ | ⟨grant, grant', hgr, haft, heff⟩ :=
    entry_of_request h hact rfl (by simp)
  · cases hrep.symm.trans href
  · refine ⟨(after_valid h).issued id grant' haft, fun found hfd => ?_⟩
    obtain rfl := some.inj (haft.symm.trans hfd)
    rw [hrep] at heff
    cases heff with
    | unsaved => exact ⟨_, _, _, rfl⟩
    | refused her =>
      obtain ⟨other, heq⟩ | ⟨m, heq⟩ := her
      · cases heq
      · cases heq

lemma beginEdit_of_blocked {size : Int} (h : e ∈ history inv actions)
    (hact : e.action = .request (.beginEdit id n revision size) disk) (hblo : Blocked id e.before) :
    ∃ error, e.answer.1 = .error error := by
  obtain ⟨⟨code, href⟩, -⟩ | ⟨grant, grant', hgr, haft, heff⟩ :=
    entry_of_request h hact rfl (by simp)
  · exact ⟨_, href⟩
  · obtain ⟨m, code, message, hfai⟩ := hblo.2 grant hgr
    generalize e.answer.1 = reply, e.answer.2 = calls at heff ⊢
    cases heff with
    | beginEdit _ _ _ _ _ htk =>
      rw [FileGrant.takesEdit_of_failed hfai] at htk
      cases htk
    | refused => exact ⟨_, rfl⟩

lemma uncertain_blocks {past between rest : List (Entry Root Files Edit)} {code : String}
    {size : Int} {disk' : Disk Files}
    (h : history inv actions = past ++ e :: (between ++ f :: rest))
    (he : e.action = .request (.commit id n) disk) (hrep : e.answer.1 = .error (.uncertain code))
    (hbet : ∀ x ∈ between, ¬ Refreshes id x)
    (hf : f.action = .request (.beginEdit id m revision size) disk') :
    ∃ error, f.answer.1 = .error error := by
  have hmem : e ∈ history inv actions := by rw [h]; simp
  have hmemLast : f ∈ history inv actions := by rw [h]; simp
  obtain ⟨earlier, middle, -, -, hmid, hl⟩ := entries_between h
  have hpre : f.before = final (step inv) e.after middle := by
    rw [hl]
    rfl
  have hblo : Valid f.before ∧ Blocked id f.before := by
    rw [hpre]
    apply final_keeps_of (P := fun self => Valid self ∧ Blocked id self)
    · exact fun self action hsf hnot => ⟨perform_valid hsf.1 action, hsf.2.step hsf.1 action hnot⟩
    · exact ⟨after_valid hmem, blocked_of_commit hmem he hrep⟩
    · rw [← hmid]
      exact hbet
  exact beginEdit_of_blocked hmemLast hf hblo.2

structure Fenced (inv : Inventories Files Edit) (actions : List (Action Root Files)) : Prop where
  bounded : ∀ e ∈ history inv actions, e.after.grants.length ≤ 8
  created : ∀ past e rest id grant, history inv actions = past ++ e :: rest →
    e.before.grant? id = none → e.after.grant? id = some grant →
    ∃ ticket path root, id = grantId ticket ∧
      e.action = .finishChoose ticket (some path) (.ok root) ∧ PendingSince past ticket
  monotone : ∀ earlier later id grant grant', actions = earlier ++ later →
    (lived inv earlier).grant? id = some grant → (lived inv actions).grant? id = some grant' →
    grant.revision ≤ grant'.revision ∧ grant.retired ≤ grant'.retired
  /-- An upload is what was accepted for it, and no more than was announced. -/
  uploads : ∀ id grant n size chunks offset, (lived inv actions).grant? id = some grant →
    grant.transfer = .upload n size chunks offset →
    chunks = acceptedWrites id n (history inv actions) ∧ offset = (chunks.flatten.length : Int) ∧
      offset ≤ size ∧ Begun (history inv actions) id n grant.revision size
  once : (applied (history inv actions)).Nodup
  /-- What is applied is a complete upload onto the revision that is still current and onto
  a folder that is still the baseline. -/
  applies : ∀ past e rest, history inv actions = past ++ e :: rest →
    ∀ call ∈ e.answer.2, call.isApply = true →
    ∃ id n size chunks grant baseline edit, Applies inv e id n size chunks grant baseline edit ∧
      chunks = acceptedWrites id n past ∧ (chunks.flatten.length : Int) = size ∧
      FileGrant.buffer size chunks = chunks.flatten ∧ Begun past id n grant.revision size
  /-- A commit that succeeded is not written again, and it answers the same until another
  transfer replaces it. -/
  repeats : ∀ past between rest e f id n m revision disk disk',
    history inv actions = past ++ e :: (between ++ f :: rest) →
    e.action = .request (.commit id n) disk → e.answer.1 = .ok (.committed m revision) →
    f.action = .request (.commit id n) disk' →
    f.answer.2 = [] ∧ (f.answer.1 = e.answer.1 ∨ ∃ error, f.answer.1 = .error error) ∧
      ((∀ x ∈ between, ¬ Replaces id x) → f.answer.1 = e.answer.1)
  refusals : ∀ e ∈ history inv actions, ∀ error, e.answer.1 = .error error →
    ∀ id, ¬ Attempts e id → e.after.grant? id = e.before.grant? id
  /-- After a save of unknown effect, no edit begins before a new snapshot. -/
  uncertain : ∀ past between rest e f id code n m revision size disk disk',
    history inv actions = past ++ e :: (between ++ f :: rest) →
    e.action = .request (.commit id n) disk → e.answer.1 = .error (.uncertain code) →
    (∀ x ∈ between, ¬ Refreshes id x) →
    f.action = .request (.beginEdit id m revision size) disk' → ∃ error, f.answer.1 = .error error

/-- Whatever is done with a service and however its folders answer, it is fenced. -/
theorem file_service_fenced (inv : Inventories Files Edit) (actions : List (Action Root Files)) :
    Fenced inv actions where
  bounded e he := (after_valid he).length_le
  created past e rest id grant h hpre haft := created_from_pending h hpre haft
  monotone earlier later id grant grant' h hgr hgr' := by
    subst h
    exact grants_monotone hgr hgr'
  uploads id grant n size chunks offset hgr htr := by
    obtain ⟨hchu, hbegun⟩ :=
      ((lived_tracked actions).grants id grant hgr).upload n size chunks offset htr
    obtain ⟨-, -, -, hoff, hle, -⟩ :=
      ((lived_valid inv actions).grants id grant hgr).upload n size chunks offset htr
    exact ⟨hchu, hoff, hle, hbegun⟩
  once := applied_nodup actions
  applies past e rest h call hca hisApply := by
    obtain ⟨earlier, rfl, he⟩ := history_split h
    obtain hno | ⟨id, n, size, chunks, grant, baseline, edit, happ⟩ :=
      perform_applies inv (lived inv earlier) e.action
    · have hmem : call ∈ ((lived inv earlier).perform inv e.action).calls.filter Call.isApply := by
        rw [he] at hca
        exact List.mem_filter.mpr ⟨hca, hisApply⟩
      rw [hno] at hmem
      cases hmem
    · rw [← he] at happ
      have hgr : (lived inv earlier).grant? id = some grant := by
        rw [he] at happ
        exact happ.granted
      obtain ⟨hchu, hbegun⟩ := ((lived_tracked earlier).grants id grant hgr).upload _ _ _ _
        happ.uploaded
      obtain ⟨-, -, -, hsz, -⟩ :=
        ((lived_valid inv earlier).grants id grant hgr).upload _ _ _ _ happ.uploaded
      exact ⟨id, n, size, chunks, grant, baseline, edit, happ, hchu, hsz.symm,
        buffer_eq hsz.symm, hbegun⟩
  repeats past between rest e f id n m revision disk disk' h he hrep hf :=
    commit_repeated h he hrep hf
  refusals e he error hrep id hatt := refused_keeps he hrep id hatt
  uncertain past between rest e f id code n m revision size disk disk' h he hrep hbet hf :=
    uncertain_blocks h he hrep hbet hf

def folderText (files : List (String × String)) : Bytes :=
  (("\x7b\"version\":1,\"files\":\x7b" ++ String.intercalate ","
    (files.map fun f => "\"" ++ f.1 ++ "\":\"" ++ f.2 ++ "\"") ++ "\x7d\x7d").toList).map
    fun c => UInt8.ofNat c.toNat

def texts : Inventories (List (String × String)) (List (String × String)) where
  inventory snapshot := some (folderText snapshot.files)
  decodeInventory bytes :=
    if bytes = folderText [("a.scm", "11")] then some [("a.scm", "11")] else none
  difference baseline files := some (files.filter fun f => f ∉ baseline.files)

def emptyFolder : Disk (List (String × String)) := { snapshot := .ok ⟨[], [""]⟩ }

def savedFolder : Disk (List (String × String)) :=
  { snapshot := .ok ⟨[], [""]⟩, saved := .ok ⟨[("a.scm", "11")], [""]⟩ }

def lockedFolder : Disk (List (String × String)) :=
  { snapshot := .error (.uncertain "workbench.workspace_recovery") }

def opened : List (Action String (List (String × String))) :=
  [.beginChoose, .finishChoose 1 (some "/work") (.ok "/work"),
    .request (.snapshot "workspace-files-1" 1) emptyFolder,
    .request (.release "workspace-files-1" 1) emptyFolder]

def saved : List (Action String (List (String × String))) :=
  opened ++
    [.request (.beginEdit "workspace-files-1" 2 1 (folderText [("a.scm", "11")]).length)
        emptyFolder,
      .request (.write "workspace-files-1" 2 0 (folderText [("a.scm", "11")])) emptyFolder,
      .request (.commit "workspace-files-1" 2) savedFolder,
      .request (.release "workspace-files-1" 2) emptyFolder,
      .request (.commit "workspace-files-1" 2) emptyFolder]

def failed : List (Action String (List (String × String))) :=
  opened ++
    [.request (.snapshot "workspace-files-1" 2) lockedFolder,
      .request (.beginEdit "workspace-files-1" 2 1 1) emptyFolder]

/-- A commit that succeeded is refused after its release, and an edit begins after a
snapshot whose effect is unknown. -/
theorem released_commit_and_failed_snapshot :
    ((history texts saved).map fun e => e.answer.1).drop 6 =
        [.ok (.committed 2 2), .ok .empty, .error (.rejected "workbench.workspace_sequence")] ∧
      ((history texts failed).map fun e => e.answer.1).drop 4 =
        [.error (.uncertain "workbench.workspace_recovery"), .ok (.offset 2 0)] := by
  constructor <;> rfl

end Morphir.Files
