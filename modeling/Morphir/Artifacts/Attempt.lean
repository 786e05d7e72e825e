import Morphir.Library.OrdMap
import Morphir.Library.Recording

/-!
# Artifact transfer attempts

One attempt owns one connection.  It asks for a generation, reads every artifact of it,
verifies the bytes and releases the generation.  It can be cancelled at any time between two
parts of its run, and what it owns says who cleans up.
-/

namespace Morphir.Artifacts

abbrev Bytes := List UInt8

def chunkLimit : Nat := 65536

def maxSafeInteger : Nat := 9007199254740991

structure Artifact where
  id : String
  byteLength : Nat
  sha256 : String
deriving DecidableEq

structure Manifest where
  generationId : String
  artifacts : List Artifact
  count_le : artifacts.length ≤ 256
  nodup : (artifacts.map Artifact.id).Nodup
  aggregate_le : (artifacts.map Artifact.byteLength).sum ≤ 67108864

inductive Generated
  | ready (manifest : Manifest)
  | failed (diagnostics : List String)

structure Read where
  generationId : String
  artifact : Artifact
  offset : Nat
  maxBytes : Nat
deriving DecidableEq

def captureRead (manifest : Manifest) (artifactId : String) (offset maxBytes : Nat) : Option Read :=
  match manifest.artifacts.find? fun a => a.id = artifactId with
  | none => none
  | some artifact =>
    if offset ≤ artifact.byteLength ∧ 1 ≤ maxBytes ∧ maxBytes ≤ chunkLimit then
      some ⟨manifest.generationId, artifact, offset, maxBytes⟩
    else none

structure Chunk where
  generationId : String
  artifactId : String
  offset : Nat
  nextOffset : Nat
  content : Bytes
deriving DecidableEq

def Chunk.accepted (chunk : Chunk) (read : Read) : Bool :=
  decide (chunk.generationId = read.generationId ∧ chunk.artifactId = read.artifact.id ∧
    chunk.offset = read.offset ∧
    chunk.content.length = min read.maxBytes (read.artifact.byteLength - read.offset) ∧
    chunk.nextOffset = chunk.offset + chunk.content.length)

/-- The wire codec: how replies are decoded, and which requests can be encoded. -/
structure Codec where
  /-- Whether the session is initialized, unless the reply is not JSON. -/
  initialized : String → Option Bool
  generated : String → Option Generated
  read : String → Nat → Option Chunk
  released : String → Nat → Bool
  encodesRead : Read → Nat → Bool
  encodesRelease : String → Nat → Bool

inductive Frame
  | sessionInitialize
  | generate
  | read (read : Read) (id : Nat)
  | release (generationId : String) (id : Nat)
deriving DecidableEq

inductive Traffic
  /-- An exchange was asked for; it is sent on an open connection only. -/
  | exchange (frame : Frame) (sent : Bool)
  | close
  | lost
deriving DecidableEq

inductive Reason
  | pendingExchange
  | unknownRetention
  | releaseFailed
deriving DecidableEq

inductive Cleanup
  | notConnected
  | notRetained
  | released (generationId : String)
  | connectionClosed (generationId : Option String) (reason : Reason)
deriving DecidableEq

inductive VerificationFailure
  | obsolete
  | inventory
  | length
  | digest
  | digestUnavailable
deriving DecidableEq

inductive Cause
  | obsolete
  | connect
  | unavailable
  | exchange
  | sessionInitialize
  | protocol
  | verification (failure : VerificationFailure)
  | release
deriving DecidableEq

structure Verified where
  manifest : Manifest
  files : List (Artifact × Bytes)

inductive Result
  | verified (files : Verified) (cleanup : Cleanup)
  | generationFailed (diagnostics : List String) (cleanup : Cleanup)
  | failed (cause : Cause) (cleanup : Cleanup)
  | discarded (cleanup : Cleanup)
  | raised

def Result.cleanup? : Result → Option Cleanup
  | .verified _ cleanup => some cleanup
  | .generationFailed _ cleanup => some cleanup
  | .failed _ cleanup => some cleanup
  | .discarded cleanup => some cleanup
  | .raised => none

inductive Phase
  | captured
  | connecting
  | initializing
  | generating
  | receiving
  | verifying
  | releasing
  | finished
deriving DecidableEq

inductive Resource
  | unconnected
  | connected
  | retained (manifest : Manifest)
  | exchanging (manifest : Option Manifest)
  | releasing
  | closed (cleanup : Cleanup)

structure Progress where
  manifest : Manifest
  bytes : List (String × Bytes)
  artifact : Artifact
  rest : List Artifact
  received : Bytes
  offset : Nat

inductive Next
  | sessionInitialize
  | generate
  | read (progress : Progress) (read : Read) (id : Nat)

def Next.manifest? : Next → Option Manifest
  | .sessionInitialize | .generate => none
  | .read progress _ _ => some progress.manifest

inductive Task
  | idle
  | connecting
  | exchanging (next : Next)
  | settled (next : Next) (reply : Option String)
  | digesting (files : Verified) (pending : List (Artifact × Bytes))
  | checked (outcome : Except VerificationFailure Verified)
  /-- The clean-up is awaited, of a run that failed unless it has files.  What is known
  already is `report`. -/
  | cleaning (outcome : Except Cause Verified) (report : Option Cleanup)
  | finished

inductive Release
  | none
  | started (manifest : Manifest)
  | waiting (manifest : Manifest) (id : Nat)
  | settled (cleanup : Cleanup)
  | done (cleanup : Cleanup)
  | raised

structure Attempt where
  resource : Resource := .unconnected
  phase : Phase := .captured
  aborted : Bool := false
  nextId : Nat := 2
  channel : Option Bool := none
  task : Task := .idle
  release : Release := .none
  result : Option Result := none
  /-- The calls of `cancel` that wait for the release, and the reports of the others. -/
  cancels : Nat := 0
  waiting : List Nat := []
  reports : List (Nat × Cleanup) := []
  /-- What happened to the connection, what was read and what was measured. -/
  traffic : List Traffic := []
  reads : List (Read × Chunk) := []
  measured : List (Bytes × String) := []
  acknowledged : List (String × Nat × String) := []
  /-- The calls of `cancel` that came during the release. -/
  joined : List Nat := []

namespace Attempt

variable (a : Attempt)

def isOpen : Bool := a.channel == some false

def closeChannel : Attempt :=
  match a.channel with
  | none => a
  | some _ => { a with channel := some true, traffic := a.traffic ++ [.close] }

/-- `ArtifactExchange::exchange`: a closed connection sends nothing. -/
def send (frame : Frame) : Attempt := { a with traffic := a.traffic ++ [.exchange frame a.isOpen] }

def requestId : Option Nat := if a.nextId + 1 ≤ maxSafeInteger then some (a.nextId + 1) else none

def exchange (next : Next) (frame : Frame) : Attempt :=
  match a.resource with
  | .connected => { (a.send frame) with resource := .exchanging none, task := .exchanging next }
  | .retained manifest =>
    { (a.send frame) with resource := .exchanging (some manifest), task := .exchanging next }
  | _ => { a with task := .settled next none }

/-- `#cleanup`: what is left, and the report where it is known at once. -/
def cleanup : Attempt × Option Cleanup :=
  let closed (a : Attempt) (report : Cleanup) : Attempt × Option Cleanup :=
    ({ a with resource := .closed report }, some report)
  match a.resource with
  | .closed report => (a, some report)
  | .releasing => (a, none)
  | .unconnected => closed a .notConnected
  | .connected => closed a.closeChannel (.connectionClosed none .unknownRetention)
  | .exchanging manifest =>
    closed a.closeChannel
      (.connectionClosed (manifest.map Manifest.generationId) .pendingExchange)
  | .retained manifest =>
    if a.isOpen then
      ({ a with phase := .releasing, resource := .releasing, release := .started manifest }, none)
    else
      closed a.closeChannel (.connectionClosed (some manifest.generationId) .unknownRetention)

def fail (cause : Cause) : Attempt :=
  { a.cleanup.1 with task := .cleaning (.error cause) a.cleanup.2 }

def cancel : Attempt :=
  let left := { a with aborted := true, cancels := a.cancels + 1 }.cleanup
  match left.2 with
  | some report => { left.1 with reports := a.reports ++ [(a.cancels, report)] }
  | none =>
    { left.1 with
      waiting := a.waiting ++ [a.cancels]
      joined := a.joined ++ [a.cancels] }

/-- The run may go on: it is not cancelled, and the host still wants it. -/
def current (wanted : Bool) : Bool := !a.aborted && wanted

def inventory (manifest : Manifest) (bytes : List (String × Bytes)) :
    Except VerificationFailure Verified :=
  if bytes.length ≠ manifest.artifacts.length then .error .inventory
  else
    let rec files : List Artifact → Except VerificationFailure (List (Artifact × Bytes))
      | [] => .ok []
      | artifact :: rest =>
        match OrdMap.get? bytes artifact.id with
        | none => .error .inventory
        | some source =>
          if source.length ≠ artifact.byteLength then .error .length
          else
            match files rest with
            | .error failure => .error failure
            | .ok files => .ok ((artifact, source) :: files)
    match files manifest.artifacts with
    | .error failure => .error failure
    | .ok files => .ok ⟨manifest, files⟩

def digest (files : Verified) : List (Artifact × Bytes) → Attempt
  | [] => { a with task := .checked (.ok files) }
  | pending => { a with task := .digesting files pending }

/-- `VerifiedArtifactSet.verify`, up to its first await. -/
def verify (manifest : Manifest) (bytes : List (String × Bytes)) (wanted : Bool) : Attempt :=
  if a.current wanted then
    match inventory manifest bytes with
    | .error failure => { a with task := .checked (.error failure) }
    | .ok files => a.digest files files.files
  else { a with task := .checked (.error .obsolete) }

def digested (files : Verified) (file : Artifact × Bytes) (rest : List (Artifact × Bytes))
    (measured : Option String) (wanted : Bool) : Attempt :=
  if a.current wanted then
    match measured with
    | none => { a with task := .checked (.error .digestUnavailable) }
    | some sum =>
      if sum = file.1.sha256 then
        { a with measured := a.measured ++ [(file.2, sum)] }.digest files rest
      else { a with task := .checked (.error .digest) }
  else { a with task := .checked (.error .obsolete) }

def set (received content : Bytes) (offset : Nat) : Bytes :=
  received.take offset ++ content ++ received.drop (offset + content.length)

variable (codec : Codec)

def readNext (p : Progress) : Attempt :=
  match captureRead p.manifest p.artifact.id p.offset chunkLimit with
  | none => a.fail .protocol
  | some read =>
    match a.requestId with
    | none => a.fail .protocol
    | some id =>
      if codec.encodesRead read id then
        { a with nextId := id }.exchange (.read p read id) (.read read id)
      else { a with nextId := id }.fail .protocol

def receive (manifest : Manifest) (bytes : List (String × Bytes)) (wanted : Bool) :
    List Artifact → Attempt
  | [] => { a with phase := .verifying }.verify manifest bytes wanted
  | artifact :: rest =>
    a.readNext codec
      { manifest, bytes, artifact, rest
        received := List.replicate artifact.byteLength 0
        offset := 0 }

def received (p : Progress) (read : Read) (chunk : Chunk) (wanted : Bool) : Attempt :=
  let bytes := set p.received chunk.content p.offset
  let a := { a with reads := a.reads ++ [(read, chunk)] }
  if chunk.nextOffset < p.artifact.byteLength then
    a.readNext codec { p with received := bytes, offset := chunk.nextOffset }
  else a.receive codec p.manifest (OrdMap.insert p.bytes p.artifact.id bytes) wanted p.rest

def run (wanted : Bool) : Attempt :=
  if a.phase ≠ .captured then a
  else if a.current wanted then { a with phase := .connecting, task := .connecting }
  else a.fail .obsolete

def connected (wanted : Bool) : Attempt :=
  let a := { a with resource := .connected, channel := some false }
  if a.current wanted then
    { a with phase := .initializing }.exchange .sessionInitialize .sessionInitialize
  else a.fail .obsolete

def settle (next : Next) (reply : Option String) : Attempt :=
  match a.resource with
  | .exchanging none => { a with resource := .connected, task := .settled next reply }
  | .exchanging (some manifest) =>
    { a with resource := .retained manifest, task := .settled next reply }
  | _ => { a with task := .settled next reply }

/-- The exact generation is known before the attempt is reconciled. -/
def retain (manifest : Manifest) : Attempt :=
  match a.resource with
  | .connected => { a with resource := .retained manifest }
  | _ => a

def generated (wanted : Bool) : Generated → Attempt
  | .ready manifest =>
    let a := a.retain manifest
    if a.current wanted then
      { a with phase := .receiving }.receive codec manifest [] wanted manifest.artifacts
    else a.fail .obsolete
  | .failed diagnostics =>
    if a.current wanted then
      { a.closeChannel with
        resource := .closed .notRetained
        phase := .finished
        task := .finished
        result := some (.generationFailed diagnostics .notRetained) }
    else a.fail .obsolete

def goOn (wanted : Bool) : Next → Option String → Attempt
  | _, none => a.fail .exchange
  | .sessionInitialize, some reply =>
    match codec.initialized reply with
    | none => a.fail .sessionInitialize
    | some initialized =>
      if a.current wanted then
        if initialized then { a with phase := .generating }.exchange .generate .generate
        else a.fail .sessionInitialize
      else a.fail .obsolete
  | .generate, some reply =>
    match codec.generated reply with
    | none => a.fail .protocol
    | some generated => a.generated codec wanted generated
  | .read p read id, some reply =>
    if a.current wanted then
      match codec.read reply id with
      | none => a.fail .protocol
      | some chunk =>
        if chunk.accepted read then a.received codec p read chunk wanted else a.fail .protocol
    else a.fail .obsolete

def goOnChecked (wanted : Bool) : Except VerificationFailure Verified → Attempt
  | .error failure => a.fail (.verification failure)
  | .ok files =>
    if a.current wanted then { a.cleanup.1 with task := .cleaning (.ok files) a.cleanup.2 }
    else a.fail .obsolete

def conclude (result : Result) : Attempt :=
  { a with phase := .finished, task := .finished, result := some result }

def finish (wanted : Bool) (report : Cleanup) : Except Cause Verified → Attempt
  | .ok files =>
    if a.current wanted then
      match report with
      | .released _ => a.conclude (.verified files report)
      | _ => a.fail .release
    else a.fail .obsolete
  | .error cause =>
    if a.current wanted then a.conclude (.failed cause report) else a.conclude (.discarded report)

def startRelease (manifest : Manifest) : Attempt :=
  match a.requestId with
  | none => { a with release := .raised }
  | some id =>
    let a := { a with nextId := id }
    if codec.encodesRelease manifest.generationId id then
      { (a.send (.release manifest.generationId id)) with release := .waiting manifest id }
    else
      { a.closeChannel with
        release := .settled (.connectionClosed (some manifest.generationId) .releaseFailed) }

def answerRelease (manifest : Manifest) (id : Nat) : Option String → Attempt
  | none =>
    { a.closeChannel with
      release := .settled (.connectionClosed (some manifest.generationId) .releaseFailed) }
  | some reply =>
    if codec.released reply id then
      { a.closeChannel with
        release := .settled (.released manifest.generationId)
        acknowledged := a.acknowledged ++ [(manifest.generationId, id, reply)] }
    else
      { a.closeChannel with
        release := .settled (.connectionClosed (some manifest.generationId) .releaseFailed) }

def endRelease (report : Cleanup) : Attempt :=
  { a with
    resource := .closed report
    release := .done report
    waiting := []
    reports := a.reports ++ a.waiting.map fun k => (k, report) }

end Attempt

/-- What happens to an attempt.  The host's wish for it is read in each part of the run. -/
inductive Event
  | run (wanted : Bool)
  | connect (connected wanted : Bool)
  | reply (reply : Option String)
  | goOn (wanted : Bool)
  | digest (measured : Option String) (wanted : Bool)
  | cancel
  | release
  | releaseReply (reply : Option String)
  | releaseEnd
  | lost

def Attempt.continue (a : Attempt) (codec : Codec) (wanted : Bool) : Attempt :=
  match a.task with
  | .settled next reply => a.goOn codec wanted next reply
  | .checked outcome => a.goOnChecked wanted outcome
  | .cleaning outcome (some report) => a.finish wanted report outcome
  | .cleaning outcome none =>
    match a.release with
    | .done report => a.finish wanted report outcome
    | .raised => a.conclude .raised
    | _ => a
  | _ => a

def Attempt.step (codec : Codec) (a : Attempt) : Event → Attempt
  | .run wanted =>
    match a.task with
    | .idle => a.run wanted
    | _ => a
  | .connect connected wanted =>
    match a.task with
    | .connecting => if connected then a.connected wanted else a.fail .connect
    | _ => a
  | .reply reply =>
    match a.task with
    | .exchanging next => a.settle next reply
    | _ => a
  | .goOn wanted => a.continue codec wanted
  | .digest measured wanted =>
    match a.task with
    | .digesting files (file :: rest) => a.digested files file rest measured wanted
    | _ => a
  | .cancel => a.cancel
  | .release =>
    match a.release with
    | .started manifest => a.startRelease codec manifest
    | _ => a
  | .releaseReply reply =>
    match a.release with
    | .waiting manifest id => a.answerRelease codec manifest id reply
    | _ => a
  | .releaseEnd =>
    match a.release with
    | .settled report => a.endRelease report
    | _ => a
  | .lost =>
    if a.isOpen then { a with channel := some true, traffic := a.traffic ++ [.lost] } else a

def history (codec : Codec) (events : List Event) : List (Recording.Entry Attempt Event Unit) :=
  Recording.entries (fun a event => ((), a.step codec event)) {} events

end Morphir.Artifacts
