import Morphir.Authority.Session

/-!
# Workspace services

The service of a session that opens a folder for reading.  A picker's ticket becomes the
grant of the folder, and one project of the folder is captured at a time.  What the disk
answers is an input of each request.
-/

namespace Morphir.Authority

abbrev Bytes := List UInt8

structure Project where
  id : String
  name : String
  path : String
  format : String
  error : String
deriving DecidableEq

structure Service (Root Files : Type) where
  root : Option Root := none
  snapshot : Option Files := none
  projects : List Project := []
  generation : Int := 0
  chooser : Option Int := none
  grant : String := ""
  capture : Option Bytes := none
  activeSequence : Int := 0
  retiredSequence : Int := 0
  offset : Int := 0
  closed : Bool := false

structure Opened (Root Files : Type) where
  root : Root
  files : Files
  projects : List Project

inductive Payload
  | cancelPicker
  | release (grantId : String) (sequence : Int)
  | revoke (grantId : String)
  | openProject (grantId : String) (sequence : Int) (projectId : String)
  | read (grantId : String) (sequence offset : Int)
  | malformed
deriving DecidableEq

/-- How the folder answers one request: whether it is still there, its files and the bytes
of a file. -/
structure Folder (Files : Type) where
  current : Bool
  snapshot : Option Files
  read : String → Option Bytes

inductive ServiceReply
  | ok
  | cancelled
  | chosen (grantId : String) (projects : List Project)
  | opened (sequence : Int) (size : Nat) (format filename : String)
  | content (sequence offset : Int) (content : Bytes) (done : Bool)
deriving DecidableEq

abbrev Left (R W : Type) := Except String R × W

namespace Service

variable {Root Files : Type} (self : Service Root Files)

def revoke : Service Root Files :=
  { self with
    root := none
    snapshot := none
    projects := []
    grant := ""
    capture := none
    activeSequence := 0
    retiredSequence := 0
    chooser := none }

def close : Service Root Files := { self.revoke with closed := true }

def beginChoose : Left Int (Service Root Files) :=
  if self.closed then (.error "workbench.workspace_revoked", self)
  else if self.chooser ≠ none then (.error "workbench.workspace_picker_busy", self)
  else if ¬ self.generation < 2147483647 then (.error "workbench.workspace_quota", self)
  else
    (.ok (self.generation + 1),
      { self with generation := self.generation + 1, chooser := some (self.generation + 1) })

def cancelChoose : Service Root Files := { self with chooser := none }

def cancelChooseIfCurrent (ticket : Int) : Service Root Files :=
  if self.chooser = some ticket then { self with chooser := none } else self

def grantId (ticket : Int) : String := Numbered.name "workspace-" ticket

def finishChoose (ticket : Int) (path : Option String)
    (opened : Except String (Opened Root Files)) : Left ServiceReply (Service Root Files) :=
  if ¬ (self.closed = false ∧ self.chooser = some ticket) then
    (.error "workbench.workspace_picker_stale", self)
  else
    let self := { self with chooser := none }
    match path with
    | none => (.ok .cancelled, self)
    | some _ =>
      match opened with
      | .error code => (.error code, self)
      | .ok opened =>
        (.ok (.chosen (grantId ticket) opened.projects),
          { self.revoke with
            root := some opened.root
            snapshot := some opened.files
            projects := opened.projects
            grant := grantId ticket })

def isIonBinary (bytes : Bytes) : Bool := bytes.take 4 == [0xe0, 0x01, 0x00, 0xea]

def lastPart (path : String) : String :=
  String.ofList (path.toList.reverse.takeWhile (· ≠ '/')).reverse

def openProject [DecidableEq Files] (folder : Folder Files) (sequence : Int) (projectId : String) :
    Left ServiceReply (Service Root Files) :=
  if self.capture ≠ none then (.error "workbench.workspace_busy", self)
  else if ¬ self.retiredSequence < sequence then (.error "workbench.workspace_retired", self)
  else
    match self.projects.find? fun p => p.id = projectId with
    | none => (.error "workbench.workspace_project", self)
    | some project =>
      if project.error ≠ "" then (.error "workbench.workspace_model_missing", self)
      else if folder.snapshot = none then (.error "workbench.workspace_configuration", self)
      else if folder.snapshot ≠ self.snapshot then (.error "workbench.workspace_changed", self)
      else
        match folder.read project.path with
        | none => (.error "workbench.workspace_configuration", self)
        | some bytes =>
          let codec :=
            if project.format ≠ "morphir-json" ∧ isIonBinary bytes then "ion-binary"
            else project.format
          (.ok (.opened sequence bytes.length codec (lastPart project.path)),
            { self with capture := some bytes, activeSequence := sequence, offset := 0 })

def read (sequence offset : Int) : Left ServiceReply (Service Root Files) :=
  if ¬ (sequence = self.activeSequence ∧ offset = self.offset) then
    (.error "workbench.workspace_sequence", self)
  else
    match self.capture with
    | none => (.error "workbench.workspace_capture", self)
    | some bytes =>
      let end_ := min bytes.length (self.offset.toNat + 192 * 1024)
      (.ok (.content sequence self.offset
          ((bytes.take end_).drop self.offset.toNat) (end_ == bytes.length)),
        { self with offset := end_ })

def release (sequence : Int) : Left ServiceReply (Service Root Files) :=
  if ¬ (self.capture = none ∨ sequence = self.activeSequence) then
    (.error "workbench.workspace_capture", self)
  else
    (.ok .ok, { self with
      capture := none
      activeSequence := 0
      retiredSequence := max self.retiredSequence sequence })

def withGrant (id : String)
    (act : Service Root Files → Left ServiceReply (Service Root Files)) :
    Left ServiceReply (Service Root Files) :=
  if self.closed = false ∧ self.root.isSome ∧ id = self.grant then act self
  else (.error "workbench.workspace_revoked", self)

def request [DecidableEq Files] (folder : Folder Files) :
    Payload → Left ServiceReply (Service Root Files)
  | .cancelPicker => (.ok .ok, self.cancelChoose)
  | .release id sequence => self.withGrant id fun self => self.release sequence
  | .revoke id => self.withGrant id fun self => (.ok .ok, self.revoke)
  | .openProject id sequence projectId =>
    self.withGrant id fun self =>
      if folder.current then self.openProject folder sequence projectId
      else (.error "workbench.workspace_configuration", self)
  | .read id sequence offset =>
    self.withGrant id fun self =>
      if folder.current then self.read sequence offset
      else (.error "workbench.workspace_configuration", self)
  | .malformed => (.error "workbench.workspace_request", self)

def Valid : Prop := self.closed = true → self.close = self

variable {self}

lemma valid_new : ({} : Service Root Files).Valid := by
  intro h
  cases h

lemma Valid.chooser_eq (h : self.Valid) (hcld : self.closed = true) : self.chooser = none := by
  rw [← h hcld]
  rfl

def kind : Kind (Service Root Files) where
  close := Service.close
  Valid := Service.Valid
  Closed w := w.closed = true
  Has w grant := w.grant = grant ∧ grant ≠ ""
  valid_close _ _ := rfl
  closed_close _ := rfl
  close_eq _ hvd hcld := hvd hcld
  not_has_close _ _ h := h.2 h.1.symm

abbrev Served (granted : Prop) (service left : Service Root Files) : Prop :=
  kind.Served granted service left

lemma not_has_new (grant : String) : ¬ kind.Has ({} : Service Root Files) grant :=
  fun h => h.2 h.1.symm

variable {granted : Prop}

lemma served_open {left : Service Root Files} (hop : self.closed = false)
    (hlt : left.closed = false) (hgr : left.grant = "" ∨ left.grant = self.grant ∨ granted) :
    Served granted self left where
  valid _ hcld := by
    rw [hlt] at hcld
    cases hcld
  kept _ hcld := by
    change self.closed = true at hcld
    rw [hop] at hcld
    cases hcld
  grant g hg := by
    obtain ⟨heq, hne⟩ := hg
    rcases hgr with hemp | hsm | hgra
    · exact absurd (heq.symm.trans hemp) hne
    · exact .inl ⟨hsm.symm.trans heq, hne⟩
    · exact .inr hgra

lemma served_cancelChoose (self : Service Root Files) : Served granted self self.cancelChoose := by
  have hsm (h : self.Valid) (hcld : self.closed = true) : self.cancelChoose = self := by
    rw [cancelChoose, ← h.chooser_eq hcld]
  refine ⟨fun h hcld => ?_, hsm, fun _ hg => .inl hg⟩
  rw [hsm h hcld]
  exact h hcld

lemma served_cancelChooseIfCurrent (self : Service Root Files) (ticket : Int) :
    Served granted self (self.cancelChooseIfCurrent ticket) := by
  unfold cancelChooseIfCurrent
  split
  · exact served_cancelChoose self
  · exact .refl self

def Reads (self left : Service Root Files) : Prop :=
  ∃ capture active retired offset, left = { self with
    capture, activeSequence := active, retiredSequence := retired, offset }

lemma reads_refl (self : Service Root Files) : self.Reads self := ⟨_, _, _, _, rfl⟩

lemma reads_release (self : Service Root Files) (sequence : Int) :
    self.Reads (self.release sequence).2 := by
  unfold release
  split
  · exact reads_refl self
  · exact ⟨_, _, _, _, rfl⟩

lemma reads_read (self : Service Root Files) (sequence offset : Int) :
    self.Reads (self.read sequence offset).2 := by
  unfold read
  split
  · exact reads_refl self
  · split
    · exact reads_refl self
    · exact ⟨_, _, _, _, rfl⟩

lemma reads_openProject [DecidableEq Files] (self : Service Root Files) (folder : Folder Files)
    (sequence : Int) (projectId : String) :
    self.Reads (self.openProject folder sequence projectId).2 := by
  unfold openProject
  split
  · exact reads_refl self
  split
  · exact reads_refl self
  split
  · exact reads_refl self
  · split
    · exact reads_refl self
    split
    · exact reads_refl self
    split
    · exact reads_refl self
    split
    · exact reads_refl self
    · exact ⟨_, _, _, _, rfl⟩

lemma withGrant_cases (self : Service Root Files) (id : String)
    (act : Service Root Files → Left ServiceReply (Service Root Files)) :
    (self.withGrant id act).2 = self ∨
      self.closed = false ∧ (self.withGrant id act).2 = (act self).2 := by
  unfold withGrant
  split
  · rename_i hg
    exact .inr ⟨hg.1, rfl⟩
  · exact .inl rfl

lemma served_reads {id : String} {act : Service Root Files → Left ServiceReply (Service Root Files)}
    (h : self.Reads (act self).2) : Served granted self (self.withGrant id act).2 := by
  obtain heq | ⟨hop, heq⟩ := withGrant_cases self id act
  · rw [heq]
    exact .refl self
  · obtain ⟨capture, active, retired, offset, hlt⟩ := h
    rw [heq, hlt]
    exact served_open hop hop (.inr (.inl rfl))

lemma served_revoke (self : Service Root Files) (id : String) :
    Served granted self (self.withGrant id fun self => (.ok .ok, self.revoke)).2 := by
  obtain heq | ⟨hop, heq⟩ := withGrant_cases self id fun self => (.ok .ok, self.revoke)
  · rw [heq]
    exact .refl self
  · rw [heq]
    exact served_open hop hop (.inl rfl)

lemma served_request [DecidableEq Files] (self : Service Root Files) (folder : Folder Files)
    (payload : Payload) : Served granted self (self.request folder payload).2 := by
  cases payload with
  | cancelPicker => exact served_cancelChoose self
  | malformed => exact .refl self
  | revoke id => exact served_revoke self id
  | release id sequence => exact served_reads (reads_release self sequence)
  | openProject id sequence projectId =>
    apply served_reads
    split
    · exact reads_openProject self folder sequence projectId
    · exact reads_refl self
  | read id sequence offset =>
    apply served_reads
    split
    · exact reads_read self sequence offset
    · exact reads_refl self

lemma served_beginChoose (self : Service Root Files) : Served granted self self.beginChoose.2 := by
  unfold beginChoose
  split
  · exact .refl self
  · rename_i hop
    have hop : self.closed = false := Bool.eq_false_iff.mpr hop
    split
    · exact .refl self
    · split
      · exact .refl self
      · exact served_open hop hop (.inr (.inl rfl))

lemma served_finishChoose {ticket : Int}
    (hgra : self.closed = false → self.chooser = some ticket → granted) (path : Option String)
    (opened : Except String (Opened Root Files)) :
    Served granted self (self.finishChoose ticket path opened).2 := by
  unfold finishChoose
  split
  · exact .refl self
  · rename_i hg
    obtain ⟨hop, hcho⟩ := not_not.mp hg
    split
    · exact served_open hop hop (.inr (.inl rfl))
    · split
      · exact served_open hop hop (.inr (.inl rfl))
      · exact served_open hop hop (.inr (.inr (hgra hop hcho)))

end Service

end Morphir.Authority
