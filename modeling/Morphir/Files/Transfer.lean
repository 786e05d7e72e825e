import Morphir.Host.Json
import Morphir.Library.Recording

/-!
# Workspace file grants

The native owner of a page grants it folders: a picker's ticket becomes a grant, and a
grant carries one transfer at a time, a download of the folder's inventory or an upload
of an edit.  What the disk answers is an input of each request.
-/

namespace Morphir.Files

inductive Raised
  | rejected (code : String)
  | uncertain (code : String)
  | other
deriving DecidableEq

inductive Failure
  | denied (code message : String)
  | uncertain (code message : String)
deriving DecidableEq

def failureReason : Raised → Failure
  | .uncertain code => .uncertain code
    "The save could not be confirmed. Retain the local draft and reopen the folder after recovery."
  | .rejected code => .denied code
      "The workspace request was refused. Reopen the folder to load current disk contents."
  | .other => .denied "workbench.workspace_invalid" "Invalid workspace file request."

def chunkLimit : Int := 196608

def transferLimit : Int := 25165824

abbrev Bytes := List UInt8

structure FileSnapshot (Files : Type) where
  files : Files
  directories : List String
deriving DecidableEq

inductive FileTransfer
  | idle
  | download (sequence : Int) (bytes : Bytes) (expected : Int)
  | upload (sequence size : Int) (chunks : List Bytes) (expected : Int)
  | committed (sequence revision : Int)
  | failed (sequence : Int) (reason : Failure)
deriving DecidableEq

structure FileGrant (Root Files : Type) where
  root : Root
  baseline : Option (FileSnapshot Files) := none
  revision : Int := 0
  retired : Int := 0
  transfer : FileTransfer := .idle
deriving DecidableEq

structure FileService (Root Files : Type) where
  grants : List (String × FileGrant Root Files) := []
  next : Int := 0
  picker : Option Int := none
  closed : Bool := false

inductive Command
  | checkSession
  | closeSession
  | chooseWrite
  | cancelPicker
  | snapshot (grant : String) (sequence : Int)
  | read (grant : String) (sequence offset : Int)
  | beginEdit (grant : String) (sequence baseRevision size : Int)
  | write (grant : String) (sequence offset : Int) (bytes : Bytes)
  | commit (grant : String) (sequence : Int)
  | status (grant : String) (sequence : Int)
  | release (grant : String) (sequence : Int)
  | revoke (grant : String)
deriving DecidableEq

inductive Reply
  | empty
  | ticket (ticket : Int)
  | cancelled
  | chosen (grantId : String) (revision : Int) (name : String)
  | snapshot (sequence size revision : Int)
  | content (sequence offset : Int) (content : Bytes) (done : Bool)
  | offset (sequence offset : Int)
  | committed (sequence revision : Int)
  | stateUploading (sequence offset size : Int)
  | stateCommitted (sequence revision : Int)
  | stateFailed (sequence : Int) (code message effect : String)
  | stateIdle (sequence : Int)
deriving DecidableEq

inductive Call (Root Files Edit : Type)
  | snapshot (root : Root)
  | apply (root : Root) (baseline : FileSnapshot Files) (edit : Edit)
  | close (root : Root)
deriving DecidableEq

/-- How the folder answers the calls of one request: the first snapshot, the edit, and
the snapshot after the edit. -/
structure Disk (Files : Type) where
  snapshot : Except Raised (FileSnapshot Files)
  apply : Except Raised Unit := .ok ()
  saved : Except Raised (FileSnapshot Files) := snapshot

/-- The inventory codec, whose failures are all invalid inventories. -/
structure Inventories (Files Edit : Type) where
  inventory : FileSnapshot Files → Option Bytes
  decodeInventory : Bytes → Option Files
  difference : FileSnapshot Files → Files → Option Edit

/-- What is left of an operation on something: its reply, the thing and the calls that it
made. -/
structure Answer (Root Files Edit G : Type) where
  reply : Except Raised Reply
  left : G
  calls : List (Call Root Files Edit) := []

section

variable {Root Files Edit G : Type}

def Answer.refused (code : String) (left : G) : Answer Root Files Edit G :=
  { reply := .error (.rejected code), left }

def Answer.map {H : Type} (f : G → H) (a : Answer Root Files Edit G) : Answer Root Files Edit H :=
  { reply := a.reply, left := f a.left, calls := a.calls }

def transferSequence : FileTransfer → Option Int
  | .idle => none
  | .download n _ _ => some n
  | .upload n _ _ _ => some n
  | .committed n _ => some n
  | .failed n _ => some n

namespace FileGrant

variable (grant : FileGrant Root Files)

def takesSnapshot : Bool :=
  match grant.transfer with
  | .idle => true
  | .committed _ _ => true
  | .failed _ _ => true
  | _ => false

def takesEdit : Bool :=
  match grant.transfer with
  | .idle => true
  | .committed _ _ => true
  | .failed _ (.denied _ _) => true
  | _ => false

def snapshot (inv : Inventories Files Edit) (disk : Disk Files) (sequence : Int) :
    Answer Root Files Edit (FileGrant Root Files) :=
  if ¬ (grant.retired < sequence ∧ grant.revision < 2147483647) then
    .refused "workbench.workspace_sequence" grant
  else if grant.takesSnapshot = false then
    .refused "workbench.workspace_busy" grant
  else
    let calls := [Call.snapshot grant.root]
    match disk.snapshot with
    | .error error => { reply := .error error, left := grant, calls }
    | .ok snapshot =>
      match inv.inventory snapshot with
      | none => { reply := .error .other, left := grant, calls }
      | some bytes =>
        { reply := .ok (.snapshot sequence bytes.length (grant.revision + 1))
          left := { grant with
            baseline := some snapshot
            revision := grant.revision + 1
            retired := sequence
            transfer := .download sequence bytes 0 }
          calls }

def read (sequence offset : Int) : Answer Root Files Edit (FileGrant Root Files) :=
  match grant.transfer with
  | .download active bytes expected =>
    if active = sequence ∧ offset = expected ∧ offset < bytes.length then
      let stop := min (offset + chunkLimit) bytes.length
      { reply := .ok (.content sequence offset
          ((bytes.drop offset.toNat).take (stop - offset).toNat)
          (decide (stop = bytes.length)))
        left := { grant with transfer := .download sequence bytes stop } }
    else .refused "workbench.workspace_sequence" grant
  | _ => .refused "workbench.workspace_sequence" grant

def beginEdit (sequence revision size : Int) : Answer Root Files Edit (FileGrant Root Files) :=
  if ¬ (grant.retired < sequence ∧ revision = grant.revision ∧ grant.baseline.isSome ∧
      grant.revision < 2147483647) then
    .refused "workbench.workspace_revision" grant
  else if ¬ (0 < size ∧ size ≤ transferLimit) then
    .refused "workbench.workspace_quota" grant
  else if grant.takesEdit = false then
    .refused "workbench.workspace_busy" grant
  else
    { reply := .ok (.offset sequence 0)
      left := { grant with retired := sequence, transfer := .upload sequence size [] 0 } }

def write (sequence offset : Int) (bytes : Bytes) :
    Answer Root Files Edit (FileGrant Root Files) :=
  match grant.transfer with
  | .upload active size chunks expected =>
    if active = sequence ∧ offset = expected ∧ 0 < bytes.length ∧
        (bytes.length : Int) ≤ chunkLimit ∧ (bytes.length : Int) ≤ size - offset then
      { reply := .ok (.offset sequence (offset + bytes.length))
        left := { grant with
          transfer := .upload active size (chunks ++ [bytes]) (offset + bytes.length) } }
    else .refused "workbench.workspace_sequence" grant
  | _ => .refused "workbench.workspace_sequence" grant

/-- A buffer of some size with the chunks one after the other at its front. -/
def buffer (size : Int) (chunks : List Bytes) : Bytes :=
  chunks.flatten ++ List.replicate (size.toNat - chunks.flatten.length) 0

def save [DecidableEq Files] (inv : Inventories Files Edit) (disk : Disk Files)
    (baseline : FileSnapshot Files) (bytes : Bytes) :
    Except Raised (FileSnapshot Files) × List (Call Root Files Edit) :=
  match inv.decodeInventory bytes with
  | none => (.error .other, [])
  | some files =>
    match disk.snapshot with
    | .error error => (.error error, [.snapshot grant.root])
    | .ok current =>
      if ¬ (current.files = baseline.files ∧ current.directories = baseline.directories) then
        (.error (.rejected "workbench.workspace_changed"), [.snapshot grant.root])
      else
        match inv.difference baseline files with
        | none => (.error .other, [.snapshot grant.root])
        | some edit =>
          match disk.apply with
          | .error error => (.error error, [.snapshot grant.root, .apply grant.root baseline edit])
          | .ok () =>
            let calls := [Call.snapshot grant.root, .apply grant.root baseline edit,
              .snapshot grant.root]
            match disk.saved with
            | .error _ => (.error (.uncertain "workbench.workspace_save_unconfirmed"), calls)
            | .ok saved =>
              if saved.files = files then (.ok saved, calls)
              else (.error (.uncertain "workbench.workspace_changed_after_save"), calls)

def commit [DecidableEq Files] (inv : Inventories Files Edit) (disk : Disk Files)
    (sequence : Int) : Answer Root Files Edit (FileGrant Root Files) :=
  match grant.transfer, grant.baseline with
  | .committed active revision, _ =>
    if active = sequence then { reply := .ok (.committed sequence revision), left := grant }
    else .refused "workbench.workspace_sequence" grant
  | .upload active size chunks offset, some baseline =>
    if active = sequence ∧ offset = size then
      match grant.save inv disk baseline (buffer size chunks) with
      | (.error error, calls) =>
        { reply := .error error
          left := { grant with transfer := .failed sequence (failureReason error) }
          calls }
      | (.ok saved, calls) =>
        { reply := .ok (.committed sequence (grant.revision + 1))
          left := { grant with
            baseline := some saved
            revision := grant.revision + 1
            transfer := .committed sequence (grant.revision + 1) }
          calls }
    else .refused "workbench.workspace_sequence" grant
  | _, _ => .refused "workbench.workspace_sequence" grant

def standing (sequence : Int) : Reply :=
  match grant.transfer with
  | .upload _ size _ offset => .stateUploading sequence offset size
  | .committed _ revision => .stateCommitted sequence revision
  | .failed _ (.denied code message) => .stateFailed sequence code message "none"
  | .failed _ (.uncertain code message) => .stateFailed sequence code message "unknown"
  | _ => .stateIdle sequence

def status (sequence : Int) : Answer Root Files Edit (FileGrant Root Files) :=
  if ¬ (transferSequence grant.transfer = some sequence ∨
      (grant.transfer = .idle ∧ sequence = grant.retired)) then
    .refused "workbench.workspace_sequence" grant
  else { reply := .ok (grant.standing sequence), left := grant }

/-- A late release cannot retire a newer transfer.  Uncertain saves remain blocked until
a fresh snapshot succeeds. -/
def release (sequence : Int) : Answer Root Files Edit (FileGrant Root Files) :=
  if ¬ grant.retired ≤ sequence then
    .refused "workbench.workspace_sequence" grant
  else
    match grant.transfer with
    | .failed _ (.uncertain _ _) =>
      { reply := .ok .empty, left := { grant with retired := sequence } }
    | _ => { reply := .ok .empty, left := { grant with retired := sequence, transfer := .idle } }

end FileGrant

namespace FileService

variable (self : FileService Root Files)

def grant? (id : String) : Option (FileGrant Root Files) := OrdMap.get? self.grants id

def close : Answer Root Files Edit (FileService Root Files) :=
  { reply := .ok .empty
    left := { self with closed := true, picker := none, grants := [] }
    calls := self.grants.map fun e => .close e.2.root }

def beginChoose : Answer Root Files Edit (FileService Root Files) :=
  if self.closed then .refused "workbench.workspace_revoked" self
  else if self.picker.isSome then .refused "workbench.workspace_picker_busy" self
  else if ¬ (self.grants.length < 8 ∧ self.next < 2147483647) then
    .refused "workbench.workspace_quota" self
  else
    { reply := .ok (.ticket (self.next + 1))
      left := { self with next := self.next + 1, picker := some (self.next + 1) } }

def cancelChoose (ticket : Option Int) : Answer Root Files Edit (FileService Root Files) :=
  { reply := .ok .empty
    left := if ticket = none ∨ self.picker = ticket then { self with picker := none } else self }

def grantId (ticket : Int) : String := "workspace-files-" ++ toString ticket

def baseName (path : String) : String :=
  String.ofList
    ((path.toList.reverse.dropWhile (· = '/')).takeWhile (· ≠ '/')).reverse

def goodName (name : String) : Bool :=
  decide (name ≠ "") && decide (Host.utf16Length name ≤ 1024) &&
    !name.toList.any fun c => decide (c < ' ') || decide (c = Char.ofNat 127)

def finishChoose (ticket : Int) (path : Option String) (opened : Except Raised Root) :
    Answer Root Files Edit (FileService Root Files) :=
  if ¬ (self.closed = false ∧ self.picker = some ticket) then
    .refused "workbench.workspace_discarded" self
  else
    let self := { self with picker := none }
    match path with
    | none => { reply := .ok .cancelled, left := self }
    | some path =>
      match opened with
      | .error error => { reply := .error error, left := self }
      | .ok root =>
        if goodName (baseName path) then
          { reply := .ok (.chosen (grantId ticket) 0 (baseName path))
            left := { self with
              grants := OrdMap.insert self.grants (grantId ticket) { root } } }
        else
          { reply := .error (.rejected "workbench.workspace_path")
            left := self
            calls := [.close root] }

def withGrant (id : String)
    (act : FileGrant Root Files → Answer Root Files Edit (FileGrant Root Files)) :
    Answer Root Files Edit (FileService Root Files) :=
  match self.grant? id with
  | none => .refused "workbench.workspace_revoked" self
  | some grant =>
    (act grant).map fun left => { self with grants := OrdMap.insert self.grants id left }

def revoke (id : String) : Answer Root Files Edit (FileService Root Files) :=
  { reply := .ok .empty
    left := { self with grants := OrdMap.erase self.grants id }
    calls := (self.grant? id).toList.map fun grant => .close grant.root }

def request [DecidableEq Files] (inv : Inventories Files Edit) (command : Command)
    (disk : Disk Files) : Answer Root Files Edit (FileService Root Files) :=
  if self.closed then .refused "workbench.workspace_revoked" self
  else
    match command with
    | .snapshot id n => self.withGrant id fun grant => grant.snapshot inv disk n
    | .read id n offset => self.withGrant id fun grant => grant.read n offset
    | .beginEdit id n revision size => self.withGrant id fun grant => grant.beginEdit n revision size
    | .write id n offset bytes => self.withGrant id fun grant => grant.write n offset bytes
    | .commit id n => self.withGrant id fun grant => grant.commit inv disk n
    | .status id n => self.withGrant id fun grant => grant.status n
    | .release id n => self.withGrant id fun grant => grant.release n
    | .revoke id => self.revoke id
    | _ => .refused "workbench.workspace_operation" self

end FileService

/-- What is done with a service: the host's picker calls, its closing, and a page's
requests with what the folder answers. -/
inductive Action (Root Files : Type)
  | beginChoose
  | cancelChoose (ticket : Option Int)
  | finishChoose (ticket : Int) (path : Option String) (opened : Except Raised Root)
  | close
  | request (command : Command) (disk : Disk Files)

def FileService.perform [DecidableEq Files] (inv : Inventories Files Edit)
    (self : FileService Root Files) :
    Action Root Files → Answer Root Files Edit (FileService Root Files)
  | .beginChoose => self.beginChoose
  | .cancelChoose ticket => self.cancelChoose ticket
  | .finishChoose ticket path opened => self.finishChoose ticket path opened
  | .close => self.close
  | .request command disk => self.request inv command disk

abbrev Outcome (Root Files Edit : Type) := Except Raised Reply × List (Call Root Files Edit)

def FileService.step [DecidableEq Files] (inv : Inventories Files Edit)
    (self : FileService Root Files) (action : Action Root Files) :
    Outcome Root Files Edit × FileService Root Files :=
  (((self.perform inv action).reply, (self.perform inv action).calls),
    (self.perform inv action).left)

abbrev Entry (Root Files Edit : Type) :=
  Recording.Entry (FileService Root Files) (Action Root Files) (Outcome Root Files Edit)

def history [DecidableEq Files] (inv : Inventories Files Edit)
    (actions : List (Action Root Files)) : List (Entry Root Files Edit) :=
  Recording.entries (FileService.step inv) {} actions

end

end Morphir.Files
