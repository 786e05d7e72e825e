import Morphir.Engine.Paths
import Morphir.Host.Json
import Morphir.Library.Base64

/-!
# The document of an open model

A reply of the engine is adopted together with the original bytes it offers.  The
state keeps the owner of the semantic document, the owner of an inventory of
originals and the token of the opening that runs.
-/

namespace Morphir.Engine.ModelDocument

open Fallible Morphir.Host

inductive DocumentError
  | invalidFilename
  | invalidCodec
  | invalidVersion
  | invalidBytes
  | tooLarge
  | invalidReply
  | revisionLimit
  deriving DecidableEq

def DocumentError.code : DocumentError → String
  | .invalidFilename => "model.invalid_filename"
  | .invalidCodec => "model.invalid_codec"
  | .invalidVersion => "model.invalid_version"
  | .invalidBytes => "model.invalid_bytes"
  | .tooLarge => "model.capacity"
  | .invalidReply => "model.invalid_reply"
  | .revisionLimit => "model.revision_limit"

structure FormatVersion where
  major : Nat
  minor : Nat
  patch : Nat
  deriving DecidableEq

namespace FormatVersion

def parseComponent (text : List Char) : Option Nat :=
  if text = [] ∨ (1 < text.length ∧ text.head? = some '0') ∨ ¬ text.all Char.isDigit then none
  else
    let value := Nat.ofDigitChars 10 text 0
    if value ≤ 4294967295 then some value else none

def parse (text : String) : Option FormatVersion :=
  match text.toList.splitOn '.' with
  | [major, minor, patch] => do
    let major ← parseComponent major
    let minor ← parseComponent minor
    let patch ← parseComponent patch
    if major < 3 then none else some ⟨major, minor, patch⟩
  | _ => none

def supported (version : FormatVersion) : Bool :=
  match version.major with
  | 1 | 2 => true
  | 3 => decide (version.minor < 2)
  | 4 => version.minor == 0
  | _ => false

end FormatVersion

def checkSupported (version : FormatVersion) : Except DocumentError Unit :=
  refuse (version.supported = false) .invalidVersion

def sourceVersion (text : String) : Except DocumentError FormatVersion := do
  let version ← if text = "1.0.0" then .ok ⟨1, 0, 0⟩
    else if text = "2.0.0" then .ok ⟨2, 0, 0⟩
    else match FormatVersion.parse text with
      | some version => .ok version
      | none => .error .invalidVersion
  checkSupported version
  pure version

inductive SourceCodec
  | morphirJson
  | morphirYaml
  | ionText
  | ionBinary
  deriving DecidableEq

/-- Only the names of the codecs themselves, none of their other spellings. -/
def SourceCodec.parse (text : String) : Except DocumentError SourceCodec :=
  if text = "morphir-json" then .ok .morphirJson
  else if text = "morphir-yaml" then .ok .morphirYaml
  else if text = "ion-text" then .ok .ionText
  else if text = "ion-binary" then .ok .ionBinary
  else .error .invalidCodec

abbrev Bytes := List UInt8

def parseFilename (text : String) : Except DocumentError String := do
  refuse (text.toList.any (fun c => c.toNat < 32 || c.toNat = 127 || c = '/' || c = '\\') = true)
    .invalidFilename
  refuse (text.toList.length = 0 ∨ 256 < text.toList.length ∨ text = "." ∨ text = "..")
    .invalidFilename
  pure text

structure OriginalFile where
  filename : String
  codec : SourceCodec
  formatVersion : FormatVersion
  bytes : Bytes
  deriving DecidableEq

def OriginalFile.new (filename : String) (codec : SourceCodec) (formatVersion : FormatVersion)
    (bytes : Bytes) : Except DocumentError OriginalFile := do
  checkSupported formatVersion
  refuse (16 * 1024 * 1024 < bytes.length) .tooLarge
  pure ⟨filename, codec, formatVersion, bytes⟩

structure InventoryStorage where
  files : List (String × Bytes)
  directories : List String
  deriving DecidableEq

structure OriginalTree where
  formatVersion : FormatVersion
  storage : InventoryStorage
  deriving DecidableEq

inductive OriginalSourceHeader
  | notReported
  | reported (major minor patch : UInt32)
  deriving DecidableEq

inductive OriginalInventoryEntry
  | file (path : String)
  | directory (path : String)
  deriving DecidableEq

structure OriginalInventory where
  sourceHeader : OriginalSourceHeader
  storage : InventoryStorage
  entries : List OriginalInventoryEntry
  deriving DecidableEq

inductive ProjectionReason
  | originalsNotProvided
  | generatedModel
  deriving DecidableEq

inductive Source
  | original (file : OriginalFile)
  | tree (tree : OriginalTree)
  | projection (reason : ProjectionReason)
  deriving DecidableEq

structure Document where
  inspection : Json
  source : Source

structure SemanticOwner where
  document : Document
  revision : Int

structure OriginalsOwner where
  inventory : OriginalInventory
  revision : Int

/-- A received inventory never changes which bytes belong to prior semantics. -/
inductive RetainedOwners
  | semantic (owner : SemanticOwner)
  | originals (owner : OriginalsOwner)
  | both (semantic : SemanticOwner) (originals : OriginalsOwner)

inductive Phase
  | empty
  | retained (owners : RetainedOwners)
  | opening (attempt : Int) (previous : Option RetainedOwners)

structure State where
  sequence : Int
  revision : Int
  inventorySequence : Int
  phase : Phase

inductive HostRetention
  | idle
  | submitting
  | running
  | disconnected
  | unknownSubmission
  deriving DecidableEq

inductive BeginDecision
  | started (state : State) (attempt : Int)
  | refused (host : HostRetention)
  | exhausted

inductive CloseDecision
  | closed (state : State) (attempt : Option Int)
  | retained (host : HostRetention)

def maxInt32 : Int := 2147483647

namespace State

def new : State := ⟨0, 0, 0, .empty⟩

variable (s : State)

def retained : Option RetainedOwners :=
  match s.phase with
  | .empty => none
  | .retained owners => some owners
  | .opening _ previous => previous

def semanticOwner : Option SemanticOwner :=
  match s.retained with
  | some (.semantic owner) | some (.both owner _) => some owner
  | _ => none

def originalsOwner : Option OriginalsOwner :=
  match s.retained with
  | some (.originals owner) | some (.both _ owner) => some owner
  | _ => none

def document : Option Document := s.semanticOwner.map SemanticOwner.document

def original : Option OriginalFile :=
  match s.document with
  | some ⟨_, .original file⟩ => some file
  | _ => none

def originalTree : Option OriginalTree :=
  match s.document with
  | some ⟨_, .tree tree⟩ => some tree
  | _ => none

def opening : Option Int :=
  match s.phase with
  | .opening attempt _ => some attempt
  | _ => none

def currentRevision : Option Int := s.semanticOwner.map SemanticOwner.revision

def originalInventory : Option OriginalInventory := s.originalsOwner.map OriginalsOwner.inventory

def inventoryRevision : Option Int := s.originalsOwner.map OriginalsOwner.revision

def originalTreeFor (revision : Int) : Option OriginalTree :=
  if s.currentRevision ≠ some revision then none else s.originalTree

def originalInventoryFor (revision : Int) : Option OriginalInventory :=
  if s.inventoryRevision ≠ some revision then none else s.originalInventory

def originalFor (revision : Int) : Option OriginalFile :=
  if s.currentRevision ≠ some revision then none else s.original

def isCurrent (attempt : Int) : Bool := s.opening == some attempt

def begin (host : HostRetention) : BeginDecision :=
  if host ≠ .idle then .refused host
  else if s.sequence = maxInt32 then .exhausted
  else
    let attempt := s.sequence + 1
    .started { s with sequence := s.sequence + 1, phase := .opening attempt s.retained } attempt

def reject (attempt : Int) : State :=
  if s.isCurrent attempt = false then s
  else
    { s with phase :=
        match s.retained with
        | some owners => .retained owners
        | none => .empty }

section

variable (fromReply : Json → Except DocumentError Document)

/-- Adoption retires any opening that runs, and an earlier inventory. -/
def replace (reply : Json) : Except DocumentError State := do
  refuse (s.revision = maxInt32) .revisionLimit
  let document ← fromReply reply
  pure { s with revision := s.revision + 1
                phase := .retained (.semantic ⟨document, s.revision + 1⟩) }

def finish (attempt : Int) (reply : Json) : Except DocumentError State :=
  if s.isCurrent attempt = false then .ok s else s.replace fromReply reply

/-- Publishes a reply and the originals received with it for one opening. -/
def finishConnected (attempt : Int) (reply : Json) (inventory : OriginalInventory) :
    Except DocumentError State :=
  if s.isCurrent attempt = false then .ok s
  else do
    refuse (s.revision = maxInt32 ∨ s.inventorySequence = maxInt32) .revisionLimit
    let document ← fromReply reply
    pure { s with revision := s.revision + 1
                  inventorySequence := s.inventorySequence + 1
                  phase := .retained (.both ⟨document, s.revision + 1⟩
                    ⟨inventory, s.inventorySequence + 1⟩) }

end

def finishOriginals (attempt : Int) (inventory : OriginalInventory) : Except DocumentError State :=
  if s.isCurrent attempt = false then .ok s
  else do
    refuse (s.inventorySequence = maxInt32) .revisionLimit
    let owner : OriginalsOwner := ⟨inventory, s.inventorySequence + 1⟩
    let owners : RetainedOwners :=
      match s.semanticOwner with
      | some semantic => .both semantic owner
      | none => .originals owner
    pure { s with inventorySequence := s.inventorySequence + 1, phase := .retained owners }

def close (host : HostRetention) : CloseDecision :=
  if host ≠ .idle then .retained host
  else .closed { s with phase := .empty } s.opening

end State

end Morphir.Engine.ModelDocument

/-!
## Replies that offer a document

A reply carries the inspection of a model and may offer its original file or tree.
What is offered is decoded and checked before anything is adopted.
-/

namespace Morphir.Engine.ModelDocument

open Fallible Morphir.Host

def field (value : Json) (name : String) : Json :=
  match value with
  | .object fields => (OrdMap.get? fields name).getD .null
  | _ => .null

def string : Json → Except DocumentError String
  | .string text => .ok text
  | _ => .error .invalidReply

def isString (value : Json) (text : String) : Bool :=
  match value with
  | .string text' => text' == text
  | _ => false

def base64Digit (value : Nat) : Char :=
  if value < 26 then Char.ofNat (65 + value)
  else if value < 52 then Char.ofNat (71 + value)
  else if value < 62 then Char.ofNat (value - 4)
  else if value = 62 then '+'
  else '/'

def encodeBase64 : Bytes → List Char
  | [] => []
  | [a] =>
    let bits := a.toNat * 65536
    [base64Digit (bits / 262144), base64Digit (bits / 4096 % 64), '=', '=']
  | [a, b] =>
    let bits := a.toNat * 65536 + b.toNat * 256
    [base64Digit (bits / 262144), base64Digit (bits / 4096 % 64), base64Digit (bits / 64 % 64), '=']
  | a :: b :: c :: rest =>
    let bits := a.toNat * 65536 + b.toNat * 256 + c.toNat
    base64Digit (bits / 262144) :: base64Digit (bits / 4096 % 64) ::
      base64Digit (bits / 64 % 64) :: base64Digit (bits % 64) :: encodeBase64 rest

def decodeBase64 (encoded : String) : Except DocumentError Bytes :=
  match Base64.decode encoded.toList with
  | none => .error .invalidBytes
  | some bytes => do
    refuse (encodeBase64 bytes ≠ encoded.toList) .invalidBytes
    pure bytes

def parsePath (path : String) : Except DocumentError String := do
  refuse (path = "" ∨ 4096 < (codeUnits path).length) .invalidFilename
  match Workspace.normalize path with
  | .error _ => .error .invalidFilename
  | .ok normalized => do
    refuse (normalized ≠ path) .invalidFilename
    let parts := path.toList.splitOn '/'
    refuse (128 < parts.length) .invalidFilename
    parts.forM fun part => do
      let _ ← parseFilename (String.ofList part)
    pure path

structure PathCheck where
  foldedFiles : List String
  spelling : List (String × String)
  seenDirectories : List String
  pathUnits : Nat

def checkParts (foldedFiles : List String) :
    List (List Char) → String → List (String × String) →
      Except DocumentError (List (String × String))
  | [], _, spelling => .ok spelling
  | part :: parts, parent, spelling => do
    let parent := if parent = "" then String.ofList part else parent ++ "/" ++ String.ofList part
    let key := toLower parent
    refuse (key ∈ foldedFiles ∨ (OrdMap.get? spelling key).any (· ≠ parent) = true)
      .invalidFilename
    checkParts foldedFiles parts parent (OrdMap.insert spelling key parent)

def checkPath (check : PathCheck) (path : String) : Except DocumentError PathCheck := do
  let _ ← parsePath path
  let pathUnits := check.pathUnits + (codeUnits path).length
  refuse (1048576 < pathUnits) .tooLarge
  let spelling ← checkParts check.foldedFiles (path.toList.splitOn '/') "" check.spelling
  pure { check with pathUnits, spelling }

def sortTexts (texts : List String) : List String :=
  texts.insertionSort fun a b => (compareText a b).isLE = true

/-- Paths only; nothing is said of the format or the provenance of a model. -/
def validateInventoryPaths (files directories : List String) : Except DocumentError Unit := do
  refuse (4096 < files.length ∨ 4096 < directories.length ∨
    100064 < files.length + directories.length) .tooLarge
  let check ← (sortTexts files).foldlM (fun check path => do
    let check ← checkPath check path
    let key := toLower path
    refuse (key ∈ check.foldedFiles) .invalidFilename
    pure { check with foldedFiles := key :: check.foldedFiles }) (PathCheck.mk [] [] [] 0)
  let _ ← directories.foldlM (fun check path => do
    let check ← checkPath check path
    let key := toLower path
    refuse (key ∈ check.seenDirectories) .invalidFilename
    pure { check with seenDirectories := key :: check.seenDirectories }) check
  pure ()

def checkBytes : List (String × Bytes) → Nat → Except DocumentError Unit
  | [], _ => .ok ()
  | (_, bytes) :: files, total => do
    refuse (16777216 - total < bytes.length) .tooLarge
    checkBytes files (total + bytes.length)

def InventoryStorage.capture (files : List (String × Bytes)) (directories : List String) :
    Except DocumentError InventoryStorage := do
  refuse (100064 < directories.length ∨ 100064 - directories.length < files.length ∨
    4096 < files.length ∨ 4096 < directories.length) .tooLarge
  validateInventoryPaths (OrdMap.keys files) directories
  checkBytes files 0
  pure ⟨files, sortTexts directories⟩

def OriginalTree.new (files : List (String × Bytes)) (directories : List String)
    (formatVersion : FormatVersion) : Except DocumentError OriginalTree := do
  checkSupported formatVersion
  refuse (files = []) .tooLarge
  let storage ← InventoryStorage.capture files directories
  pure ⟨formatVersion, storage⟩

def treeFiles : List Json → List (String × Bytes) → Nat →
    Except DocumentError (List (String × Bytes))
  | [], files, _ => .ok files
  | entry :: entries, files, total =>
    match entry with
    | .object fields => do
      refuse (fields.length ≠ 2) .invalidReply
      let path ← string (field entry "path")
      let _ ← parsePath path
      refuse (OrdMap.contains files path = true) .invalidFilename
      let encoded ← string (field entry "contentBase64")
      refuse ((16777216 - total + 2) / 3 * 4 < (codeUnits encoded).length) .tooLarge
      let bytes ← decodeBase64 encoded
      refuse (16777216 - total < bytes.length) .tooLarge
      treeFiles entries (OrdMap.insert files path bytes) (total + bytes.length)
    | _ => .error .invalidReply

def treeFromReply (value sourceVersionValue : Json) : Except DocumentError OriginalTree := do
  match value with
  | .object fields =>
    refuse (fields.length ≠ 5 ∨ isString (field value "codec") "morphir-yaml" = false)
      .invalidReply
  | _ => .error .invalidReply
  let versionText ← string (field value "formatVersion")
  refuse (isString sourceVersionValue versionText = false) .invalidVersion
  match field value "files", field value "directories" with
  | .array entries, .array rawDirectories => do
    refuse (4096 < entries.length ∨ 4096 < rawDirectories.length) .tooLarge
    let files ← treeFiles entries [] 0
    let directories ← rawDirectories.mapM string
    let version ← sourceVersion versionText
    OriginalTree.new files directories version
  | _, _ => .error .tooLarge

def fileFromReply (reply value : Json) (fields : List (String × Json)) :
    Except DocumentError OriginalFile := do
  refuse (fields.length ≠ 5) .invalidReply
  let filename ← string (field value "filename")
  let filename ← parseFilename filename
  let codec ← string (field value "codec")
  let codec ← SourceCodec.parse codec
  let versionText ← string (field value "formatVersion")
  refuse (isString (field reply "sourceFormatVersion") versionText = false) .invalidVersion
  let version ← sourceVersion versionText
  let encoded ← string (field value "contentBase64")
  refuse (22369624 < (codeUnits encoded).length) .tooLarge
  let bytes ← decodeBase64 encoded
  OriginalFile.new filename codec version bytes

def sourceFromReply (reply : Json) (fields : List (String × Json)) :
    Except DocumentError Source :=
  match OrdMap.get? fields "modelSource" with
  | none => .ok (.projection .originalsNotProvided)
  | some (.object source) => do
    let value := Json.object source
    let kind ← string (field value "kind")
    if kind = "original-file" then do
      let file ← fileFromReply reply value source
      pure (.original file)
    else if kind = "semantic-projection" then do
      refuse (source.length ≠ 2) .invalidReply
      let reason ← string (field value "reason")
      if reason = "originals-not-provided" then pure (.projection .originalsNotProvided)
      else if reason = "generated-model" then pure (.projection .generatedModel)
      else .error .invalidReply
    else if kind = "original-tree" then do
      let tree ← treeFromReply value (field reply "sourceFormatVersion")
      pure (.tree tree)
    else .error .invalidReply
  | some _ => .error .invalidReply

/-- The document of a reply; `parse` reads the text of the inspection again. -/
def fromReply (parse : String → Option Json) (reply : Json) : Except DocumentError Document :=
  match reply with
  | .object fields => do
    let source ← sourceFromReply reply fields
    let view := OrdMap.erase (OrdMap.erase fields "modelSource") "originalArtifact"
    match parse (Json.object view).stringify with
    | some inspection => pure ⟨inspection, source⟩
    | none => .error .invalidReply
  | _ => .error .invalidReply

end Morphir.Engine.ModelDocument
