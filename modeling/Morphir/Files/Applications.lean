import Morphir.Files.TransferHistory

/-!
# The edits of a service

The edits that a service makes for a grant go up in their sequences, a revision that it
reports was made by an edit, and an edit is made of the bytes that its upload was given.
-/

namespace Morphir.Files

open FileService List

variable {Root Files Edit : Type} [DecidableEq Files] {inv : Inventories Files Edit}

lemma appliedBy_cases (inv : Inventories Files Edit) (self : FileService Root Files)
    (action : Action Root Files) :
    appliedBy (entryOf inv self action) = [] ∨
      ∃ id n size chunks grant baseline edit,
        Applies inv (entryOf inv self action) id n size chunks grant baseline edit := by
  obtain hno | happ := perform_applies inv self action
  · left
    unfold appliedBy
    split
    · exact map_eq_nil_iff.mpr hno
    · rfl
  · exact .inr happ

lemma applied_increasing (inv : Inventories Files Edit) (actions : List (Action Root Files)) :
    (applied (history inv actions)).Pairwise fun a b => a.1 = b.1 → a.2 < b.2 := by
  induction actions using List.reverseRecOn with
  | nil => exact .nil
  | append_singleton actions action ih =>
    rw [history_snoc, applied_snoc]
    obtain hno | ⟨id, n, size, chunks, grant, baseline, edit, happ⟩ :=
      appliedBy_cases inv (lived inv actions) action
    · rw [hno, append_nil]
      exact ih
    · rw [happ.appliedBy_eq]
      refine pairwise_append.mpr ⟨ih, pairwise_singleton _ _, ?_⟩
      rintro ⟨other, m⟩ hm b hb hsm
      obtain rfl := mem_singleton.mp hb
      obtain rfl : other = id := hsm
      have hupl := ((lived_valid inv actions).grants other grant happ.granted).upload
        _ _ _ _ happ.uploaded
      obtain ⟨hle, ho⟩ := ((lived_tracked actions).grants other grant happ.granted).applied m hm
      have hne : m ≠ n := by
        rintro rfl
        exact ho _ _ _ happ.uploaded
      omega

def Confirmed (inv : Inventories Files Edit) (actions : List (Action Root Files)) (id : String)
    (n revision : Int) : Prop :=
  ∃ e ∈ history inv actions, (∃ disk, e.action = .request (.commit id n) disk) ∧
    e.answer.1 = .ok (.committed n revision) ∧ (id, n) ∈ appliedBy e

variable {actions : List (Action Root Files)} {id : String} {n revision : Int}

lemma Confirmed.snoc (h : Confirmed inv actions id n revision) (action : Action Root Files) :
    Confirmed inv (actions ++ [action]) id n revision := by
  obtain ⟨e, he, hcom⟩ := h
  refine ⟨e, ?_, hcom⟩
  rw [history_snoc]
  exact mem_append_left _ he

lemma Confirmed.applied (h : Confirmed inv actions id n revision) :
    (id, n) ∈ applied (history inv actions) := by
  obtain ⟨e, he, -, -, happ⟩ := h
  exact mem_flatMap.mpr ⟨e, he, happ⟩

variable {disk : Disk Files} {bytes : Bytes}

variable {baseline : FileSnapshot Files} {calls : List (Call Root Files Edit)}

lemma save_ok_applies {grant : FileGrant Root Files} {saved : FileSnapshot Files}
    (h : grant.save inv disk baseline bytes = (.ok saved, calls)) :
    ∃ edit, calls.filter Call.isApply = [.apply grant.root baseline edit] := by
  unfold FileGrant.save at h
  split at h
  · cases h
  · split at h
    · cases h
    · split at h
      · cases h
      · split at h
        · cases h
        · rename_i edit hedit
          split at h
          · cases h
          · split at h
            · cases h
            · split at h
              · obtain ⟨-, rfl⟩ := Prod.mk.inj h
                exact ⟨edit, rfl⟩
              · cases h

variable {e : Entry Root Files Edit}

omit [DecidableEq Files] in
lemma mem_appliedBy {call : Call Root Files Edit} (hact : e.action = .request (.commit id n) disk)
    (hcls : e.answer.2.filter Call.isApply = [call]) : (id, n) ∈ appliedBy e := by
  unfold appliedBy
  rw [hact]
  rw [hcls]
  exact mem_cons_self

lemma confirmed_of_transfer {grant : FileGrant Root Files}
    (hgr : (lived inv actions).grant? id = some grant)
    (htr : grant.transfer = .committed n revision) : Confirmed inv actions id n revision := by
  induction actions using List.reverseRecOn generalizing grant with
  | nil => simp [lived, grant?] at hgr
  | append_singleton actions action ih =>
    rw [lived_snoc] at hgr
    cases perform_seen inv (lived inv actions) action id with
    | kept ho haft => exact (ih (haft.symm.trans hgr) htr).snoc action
    | created hact hpd hid hrep haft =>
      obtain rfl := Option.some.inj (hgr.symm.trans haft)
      cases htr
    | dropped hact hrep haft => cases hgr.symm.trans haft
    | acted hact hpre heff haft =>
      obtain rfl := Option.some.inj (hgr.symm.trans haft)
      generalize hrep : ((lived inv actions).perform inv action).reply = reply,
        hcls : ((lived inv actions).perform inv action).calls = calls at heff
      cases heff with
      | snapshot | read | beginEdit | write | unsaved => cases htr
      | repeated | status | refused => exact (ih hpre htr).snoc action
      | release hseq hk =>
        obtain ⟨rfl, m, code, message, hfai⟩ | ⟨rfl, -⟩ := hk
        · cases hfai.symm.trans htr
        · cases htr
      | saved hupl hbas hsv =>
        obtain ⟨rfl, rfl⟩ := FileTransfer.committed.inj htr
        obtain ⟨edit, hedit⟩ := save_ok_applies hsv
        refine ⟨entryOf inv (lived inv actions) action, ?_, ⟨_, hact⟩, hrep, ?_⟩
        · rw [history_snoc]
          exact mem_append_right _ mem_cons_self
        · exact mem_appliedBy hact (hcls ▸ hedit)

lemma committed_of_standing {grant grant' : FileGrant Root Files} {m : Int}
    {reply : Except Raised Reply} (h : Effect inv id grant (.status id n) disk reply calls grant')
    (hrep : reply = .ok (.stateCommitted m revision)) :
    grant'.transfer = .committed n revision := by
  cases h with
  | status hseq =>
    have hsta := Except.ok.inj hrep
    unfold FileGrant.standing at hsta
    split at hsta
    · cases hsta
    · rename_i active found htr
      obtain ⟨-, rfl⟩ := Reply.stateCommitted.inj hsta
      obtain hseq | ⟨hid, -⟩ := hseq
      · rw [htr] at hseq ⊢
        rw [Option.some.inj hseq]
      · cases htr.symm.trans hid
    · cases hsta
    · cases hsta
    · cases hsta
  | refused => cases hrep

lemma confirmed_of_reply {command : Command} {m : Int} (h : e ∈ history inv actions)
    (hact : e.action = .request command disk)
    (hrep : (command = .commit id n ∧ e.answer.1 = .ok (.committed m revision)) ∨
      (command = .status id n ∧ e.answer.1 = .ok (.stateCommitted m revision))) :
    Confirmed inv actions id n revision := by
  induction actions using List.reverseRecOn with
  | nil => cases h
  | append_singleton actions action ih =>
    have hhere := h
    rw [history_snoc, mem_append] at h
    obtain hear | hl := h
    · exact (ih hear).snoc action
    · obtain rfl := mem_singleton.mp hl
      have haft (grant' : FileGrant Root Files)
          (hso : (lived inv (actions ++ [action])).grant? id = some grant')
          (htr : grant'.transfer = .committed n revision) :
          Confirmed inv (actions ++ [action]) id n revision :=
        confirmed_of_transfer hso htr
      rw [lived_snoc] at haft
      obtain ⟨rfl, hok⟩ | ⟨rfl, hok⟩ := hrep
      · obtain ⟨⟨code, href⟩, -⟩ | ⟨grant, grant', -, hso, heff⟩ :=
          entry_of_request hhere hact rfl (by simp)
        · cases hok.symm.trans href
        · exact haft grant' hso (committed_of_reply heff hok).2
      · obtain ⟨⟨code, href⟩, -⟩ | ⟨grant, grant', -, hso, heff⟩ :=
          entry_of_request hhere hact rfl (by simp)
        · cases hok.symm.trans href
        · exact haft grant' hso (committed_of_standing heff hok)

/-- The requests of the upload `n` of a grant write parts of some bytes at their places,
and announce their size. -/
structure Uploads (actions : List (Action Root Files)) (id : String) (n : Int) (bytes : Bytes) :
    Prop where
  write : ∀ offset chunk disk, Action.request (.write id n offset chunk) disk ∈ actions →
    chunk = (bytes.drop offset.toNat).take chunk.length
  announce : ∀ revision size disk, Action.request (.beginEdit id n revision size) disk ∈ actions →
    size = bytes.length

omit [DecidableEq Files] in
lemma Uploads.of_append {front back : List (Action Root Files)}
    (h : Uploads (front ++ back) id n bytes) : Uploads front id n bytes where
  write offset chunk disk hmem := h.write offset chunk disk (mem_append_left _ hmem)
  announce revision size disk hmem := h.announce revision size disk (mem_append_left _ hmem)

lemma chunks_of_uploads {size offset : Int} {grant : FileGrant Root Files} {chunks : List Bytes}
    (h : Uploads actions id n bytes) (hgr : (lived inv actions).grant? id = some grant)
    (htr : grant.transfer = .upload n size chunks offset) :
    chunks.flatten = bytes.take chunks.flatten.length := by
  induction actions using List.reverseRecOn generalizing grant size chunks offset with
  | nil => simp [lived, grant?] at hgr
  | append_singleton actions action ih =>
    have ih {grant : FileGrant Root Files} {size offset : Int} {chunks : List Bytes} :=
      @ih size offset grant chunks h.of_append
    rw [lived_snoc] at hgr
    cases perform_seen inv (lived inv actions) action id with
    | kept ho haft => exact ih (haft.symm.trans hgr) htr
    | created hact hpd hid hrep haft =>
      obtain rfl := Option.some.inj (hgr.symm.trans haft)
      cases htr
    | dropped hact hrep haft => cases hgr.symm.trans haft
    | acted hact hpre heff haft =>
      obtain rfl := Option.some.inj (hgr.symm.trans haft)
      generalize ((lived inv actions).perform inv action).reply = reply,
        ((lived inv actions).perform inv action).calls = calls at heff
      cases heff with
      | snapshot | read | saved | unsaved => cases htr
      | repeated | status | refused => exact ih hpre htr
      | release hseq hk =>
        obtain ⟨rfl, m, code, message, hfai⟩ | ⟨rfl, -⟩ := hk
        · cases hfai.symm.trans htr
        · cases htr
      | beginEdit =>
        obtain ⟨-, -, rfl, -⟩ := FileTransfer.upload.inj htr
        rfl
      | write hupl hfi =>
        obtain ⟨rfl, rfl, rfl, -⟩ := FileTransfer.upload.inj htr
        obtain ⟨-, -, -, hoff, -⟩ :=
          ((lived_valid inv actions).grants id _ hpre).upload _ _ _ _ hupl
        have hchunk := h.write _ _ _
          (mem_append_right _ (mem_singleton.mpr hact.symm))
        have hfr := ih hpre hupl
        rw [hoff, Int.toNat_natCast] at hchunk
        simp only [flatten_append, flatten_cons, flatten_nil, append_nil, length_append]
        rw [take_add, ← hfr, ← hchunk]

lemma applied_bytes {size : Int} {chunks : List Bytes} {grant : FileGrant Root Files} {edit : Edit}
    (he : e ∈ history inv actions) (happ : Applies inv e id n size chunks grant baseline edit)
    (h : Uploads actions id n bytes) : FileGrant.buffer size chunks = bytes := by
  obtain ⟨past, rest, hspl⟩ := append_of_mem he
  obtain ⟨earlier, later, hact, rfl, hent, -⟩ := Recording.entries_split hspl
  rw [hact] at h
  have h := h.of_append
  have hgr : (lived inv earlier).grant? id = some grant := by
    rw [hent] at happ
    exact happ.granted
  have hupl := ((lived_valid inv earlier).grants id grant hgr).upload _ _ _ _
    happ.uploaded
  obtain ⟨-, begun, hbegun, ⟨disk, hbegin⟩, -⟩ :=
    ((lived_tracked earlier).grants id grant hgr).upload _ _ _ _ happ.uploaded
  have hsz : size = bytes.length := by
    apply h.announce grant.revision size disk
    rw [← hbegin]
    exact Recording.action_mem hbegun
  have hlen : chunks.flatten.length = bytes.length := by omega
  rw [buffer_eq hupl.2.2.2.1.symm, chunks_of_uploads h hgr happ.uploaded, hlen, take_length]

end Morphir.Files
