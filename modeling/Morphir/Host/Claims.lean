import Morphir.Host.Json

/-!
# Operations, model tuples and claims

The closed sets of the extension protocol, the limits of a session and what
an extension claims to be and do.
-/

namespace Morphir.Host

open Json (ofInt)

inductive RefusalCode
  | requestLimit | protocolUnavailable | tupleUnavailable | agreementMismatch
  | claimsMismatch | capabilityUnavailable | platformMismatch | runtimeUnavailable
  | digestMismatch | abiUnsupported | abiMismatch | wasmFeatureUnsupported
  | workerRuntimeMismatch
  deriving DecidableEq

inductive FaultCode
  | incompleteSession | frameInvalid | unexpectedResponse | responseLimit
  | describeFailed | memoryLimit | guestTrap | treeTerminationFailed
  | budgetExhausted
  deriving DecidableEq

def FaultCode.toString : FaultCode → String
  | .incompleteSession => "extension.incomplete_session"
  | .frameInvalid => "extension.frame_invalid"
  | .unexpectedResponse => "extension.unexpected_response"
  | .responseLimit => "extension.response_limit"
  | .describeFailed => "extension.describe_failed"
  | .memoryLimit => "extension.memory_limit"
  | .guestTrap => "extension.guest_trap"
  | .treeTerminationFailed => "execution.tree_termination_failed"
  | .budgetExhausted => "extension.budget_exhausted"

/-- Why a session failed: a host check found a fault, or the guest returned
an error, with its `data` member kept as sent. -/
inductive Fault
  | host (code : FaultCode) (message : String)
  | guest (code : Int) (message : String) (data : Option Json)

/-- A value from outside the host that does not fit its domain type. -/
inductive ValueError
  | invalidExtensionId (text : String)
  | invalidExtensionVersion (text : String)
  | unknownProtocolLine (text : String)
  | unknownModelTuplePart (text : String)
  | invalidLimit (text : String)
  | emptyLanguageClaim (text : String)
  | invalidIrVersionName (text : String)
  | invalidDiagnostic (text : String)
  | invalidClaim (text : String)
  deriving DecidableEq

def ValueError.toString : ValueError → String
  | .invalidExtensionId text => "invalid extension ID " ++ text
  | .invalidExtensionVersion text => "invalid extension version " ++ text
  | .unknownProtocolLine text => "unknown protocol version " ++ text
  | .unknownModelTuplePart text => "unknown model tuple part " ++ text
  | .invalidLimit text => "invalid limit " ++ text
  | .emptyLanguageClaim text => "language " ++ text ++ " has no file extensions"
  | .invalidIrVersionName text => "invalid IR version name " ++ text
  | .invalidDiagnostic text => "invalid diagnostic: " ++ text
  | .invalidClaim text => "invalid claim: " ++ text

inductive ProtocolLine
  | mep0_1
  | mep0_2Draft1
  deriving DecidableEq

namespace ProtocolLine

def toString : ProtocolLine → String
  | .mep0_1 => "0.1"
  | .mep0_2Draft1 => "0.2.0-draft.1"

def parse (text : String) : Except ValueError ProtocolLine :=
  if text = "0.1" then .ok .mep0_1
  else if text = "0.2.0-draft.1" then .ok .mep0_2Draft1
  else .error (.unknownProtocolLine text)

end ProtocolLine

/-- A model operation: the only operations a model tuple can carry. -/
inductive ModelOperation
  | compileModel
  | generateModel
  deriving DecidableEq

/-- `compile` and `generate` belong to the legacy line, the model operations
to the model line. -/
inductive Operation
  | compile
  | generate
  | compileModel
  | generateModel
  deriving DecidableEq

namespace Operation

def toString : Operation → String
  | .compile => "morphir.frontend.compile"
  | .generate => "morphir.backend.generate"
  | .compileModel => "morphir.frontend.compileModel"
  | .generateModel => "morphir.backend.generateModel"

def model : Operation → Option ModelOperation
  | .compile => none
  | .generate => none
  | .compileModel => some .compileModel
  | .generateModel => some .generateModel

end Operation

def ModelOperation.operation : ModelOperation → Operation
  | .compileModel => .compileModel
  | .generateModel => .generateModel

def ModelOperation.toString (operation : ModelOperation) : String := operation.operation.toString

inductive ModelProfile
  | morphirModel
  | morphirIr
  deriving DecidableEq

def ModelProfile.toString : ModelProfile → String
  | .morphirModel => "morphir-model"
  | .morphirIr => "morphir-ir"

inductive ModelCodec
  | ionBinary
  | morphirJson
  deriving DecidableEq

def ModelCodec.toString : ModelCodec → String
  | .ionBinary => "ion-binary"
  | .morphirJson => "morphir-json"

inductive EnvelopeVersion
  | v0_1_0Draft1
  deriving DecidableEq

def EnvelopeVersion.toString : EnvelopeVersion → String
  | .v0_1_0Draft1 => "0.1.0-draft.1"

inductive IrVersion
  | v3_0_0
  | v4_0_0
  deriving DecidableEq

def IrVersion.toString : IrVersion → String
  | .v3_0_0 => "3.0.0"
  | .v4_0_0 => "4.0.0"

structure ModelTuple where
  operation : ModelOperation
  profile : ModelProfile
  codec : ModelCodec
  envelopeVersion : EnvelopeVersion
  irVersion : IrVersion
  deriving DecidableEq

def closedPart {α : Type} (show' : α → String) (values : List α) (text : String) :
    Except ValueError α :=
  match values.find? fun value => show' value = text with
  | some value => .ok value
  | none => .error (.unknownModelTuplePart text)

namespace ModelTuple

/-- Decodes the five wire strings of a tuple.  A part outside the closed set
is refused. -/
def parse (operation profile codec envelopeVersion irVersion : String) :
    Except ValueError ModelTuple := do
  let operation ← closedPart ModelOperation.toString [.compileModel, .generateModel] operation
  let profile ← closedPart ModelProfile.toString [.morphirModel, .morphirIr] profile
  let codec ← closedPart ModelCodec.toString [.ionBinary, .morphirJson] codec
  let envelopeVersion ← closedPart EnvelopeVersion.toString [.v0_1_0Draft1] envelopeVersion
  let irVersion ← closedPart IrVersion.toString [.v3_0_0, .v4_0_0] irVersion
  return ⟨operation, profile, codec, envelopeVersion, irVersion⟩

def toJson (tuple : ModelTuple) : Json :=
  .object [("operation", .string tuple.operation.toString),
    ("profile", .string tuple.profile.toString),
    ("codec", .string tuple.codec.toString),
    ("envelopeVersion", .string tuple.envelopeVersion.toString),
    ("irVersion", .string tuple.irVersion.toString)]

lemma parse_toString (tuple : ModelTuple) :
    parse tuple.operation.toString tuple.profile.toString tuple.codec.toString
      tuple.envelopeVersion.toString tuple.irVersion.toString = .ok tuple := by
  obtain ⟨operation, profile, codec, envelopeVersion, irVersion⟩ := tuple
  cases operation <;> cases profile <;> cases codec <;> cases envelopeVersion <;>
    cases irVersion <;> rfl

end ModelTuple

def tupleParts : List String := ["operation", "profile", "codec", "envelopeVersion", "irVersion"]

/-- The tuple an object spells, when all its parts are in the closed sets. -/
def tupleOf (value : Json) : Option ModelTuple :=
  let parts := tupleParts.filterMap fun name =>
    match fieldAt value [name] with
    | some (.string text) => some text
    | _ => none
  match parts with
  | [operation, profile, codec, envelopeVersion, irVersion] =>
    (ModelTuple.parse operation profile codec envelopeVersion irVersion).toOption
  | _ => none

lemma tupleOf_toJson (tuple : ModelTuple) : tupleOf tuple.toJson = some tuple := by
  have hprs := ModelTuple.parse_toString tuple
  -- the parts of the object are its five texts, in the order of `tupleParts`
  change (ModelTuple.parse tuple.operation.toString tuple.profile.toString tuple.codec.toString
    tuple.envelopeVersion.toString tuple.irVersion.toString).toOption = some tuple
  rw [hprs]
  rfl

structure ModelLimits where
  encodedBytes : Int
  decodedBytes : Int
  depth : Int
  nodes : Int
  deriving DecidableEq

def positive (name : String) (value : Int) : Except ValueError Int :=
  if 0 < value then .ok value
  else .error (.invalidLimit (name ++ "=" ++ toString value))

namespace ModelLimits

def new (encodedBytes decodedBytes depth nodes : Int) : Except ValueError ModelLimits := do
  let encodedBytes ← positive "encoded_bytes" encodedBytes
  let decodedBytes ← positive "decoded_bytes" decodedBytes
  let depth ← positive "depth" depth
  let nodes ← positive "nodes" nodes
  return ⟨encodedBytes, decodedBytes, depth, nodes⟩

def min (a b : ModelLimits) : ModelLimits :=
  ⟨Min.min a.encodedBytes b.encodedBytes, Min.min a.decodedBytes b.decodedBytes,
    Min.min a.depth b.depth, Min.min a.nodes b.nodes⟩

def toJson (limits : ModelLimits) : Json :=
  .object [("maxEncodedBytes", ofInt limits.encodedBytes),
    ("maxDecodedBytes", ofInt limits.decodedBytes),
    ("maxDepth", ofInt limits.depth), ("maxNodes", ofInt limits.nodes)]

end ModelLimits

structure Limits where
  requestBytes : Int
  responseBytes : Int
  model : ModelLimits
  deriving DecidableEq

def Limits.host : Limits :=
  ⟨4 * 1024 * 1024, 16 * 1024 * 1024, ⟨2796204, 2 * 1024 * 1024, 128, 100000⟩⟩

def sortedSet {α : Type} [DecidableEq α] (compare : α → α → Ordering) (values : List α) :
    List α :=
  (values.insertionSort fun a b => (compare a b).isLE = true).destutter (· ≠ ·)

/-- The order of a closed set, by the position of its constructors. -/
def compareIndex {α : Type} (index : α → Nat) (a b : α) : Ordering := compare (index a) (index b)

/-- A non-empty text of at most `limit` printable ASCII characters. -/
def printableToken (text : String) (limit : Nat) : Bool :=
  decide (0 < utf16Length text) && decide (utf16Length text ≤ limit) &&
    text.toList.all fun c => decide (' ' < c ∧ c ≤ '~')

def parseExtensionId (text : String) : Except ValueError String :=
  if printableToken text 128 then .ok text else .error (.invalidExtensionId text)

def parseExtensionVersion (text : String) : Except ValueError String :=
  if printableToken text 64 then .ok text else .error (.invalidExtensionVersion text)

def parseIrVersionName (text : String) : Except ValueError String :=
  if printableToken text 32 then .ok text else .error (.invalidIrVersionName text)

/-- A lowercase letter, then lowercase letters, digits and `-`, at most 64
characters: the identifier of a language or of a backend. -/
def isWord (text : String) : Bool :=
  match text.toList with
  | [] => false
  | c :: cs =>
    decide ((c :: cs).length ≤ 64) && decide ('a' ≤ c ∧ c ≤ 'z') &&
      (c :: cs).all fun c => decide (('a' ≤ c ∧ c ≤ 'z') ∨ ('0' ≤ c ∧ c ≤ '9') ∨ c = '-')

def isFileExtension (text : String) : Bool :=
  decide (1 < utf16Length text) && decide (utf16Length text ≤ 256) &&
    text.toList.head? == some '.' &&
    text.toList.all fun c =>
      decide (¬ (c.toNat < 32 ∨ c.toNat = 127) ∧ c ≠ '/' ∧ c ≠ '\\' ∧ c ≠ ':')

structure LanguageClaim where
  languageId : String
  fileExtensions : List String
  deriving DecidableEq

def compareTexts : List String → List String → Ordering
  | [], [] => .eq
  | [], _ :: _ => .lt
  | _ :: _, [] => .gt
  | a :: as, b :: bs =>
    (compare as.length bs.length).then ((compareText a b).then (compareTexts as bs))

namespace LanguageClaim

def new (languageId : String) (fileExtensions : List String) :
    Except ValueError LanguageClaim :=
  if fileExtensions.isEmpty then .error (.emptyLanguageClaim languageId)
  else .ok ⟨languageId, sortedSet compareText fileExtensions⟩

def compare (a b : LanguageClaim) : Ordering :=
  (compareText a.languageId b.languageId).then (compareTexts a.fileExtensions b.fileExtensions)

/-- Claims of one language, which the order makes neighbours, are merged. -/
def merge (claims : List LanguageClaim) : List LanguageClaim :=
  claims.foldl (fun merged claim =>
    match merged.getLast? with
    | some last =>
      if last.languageId = claim.languageId then
        merged.dropLast ++ [⟨last.languageId,
          sortedSet compareText (last.fileExtensions ++ claim.fileExtensions)⟩]
      else merged ++ [claim]
    | none => merged ++ [claim]) []

end LanguageClaim

structure FrontendFlags where
  incremental : Bool
  multiDocument : Bool
  deriving DecidableEq

def FrontendFlags.droppedIn (self live : FrontendFlags) : List String :=
  (if self.incremental && !live.incremental then ["incremental"] else []) ++
    (if self.multiDocument && !live.multiDocument then ["multiDocument"] else [])

def compareProtocolLine : ProtocolLine → ProtocolLine → Ordering :=
  compareIndex fun | .mep0_1 => 0 | .mep0_2Draft1 => 1

def compareOperation : Operation → Operation → Ordering :=
  compareIndex fun | .compile => 0 | .generate => 1 | .compileModel => 2 | .generateModel => 3

def ModelTuple.compare (a b : ModelTuple) : Ordering :=
  (compareIndex (fun | .compileModel => 0 | .generateModel => 1) a.operation b.operation).then
    ((compareIndex (fun | .morphirModel => 0 | .morphirIr => 1) a.profile b.profile).then
      ((compareIndex (fun | .ionBinary => 0 | .morphirJson => 1) a.codec b.codec).then
        (compareIndex (fun | .v3_0_0 => 0 | .v4_0_0 => 1) a.irVersion b.irVersion)))

/-- What an extension says it is and does.  Each list is a sorted set. -/
structure Claims where
  extensionId : String
  version : String
  protocolLines : List ProtocolLine
  operations : List Operation
  languages : List LanguageClaim
  frontendIrVersions : List String
  frontendFlags : FrontendFlags
  targets : List String
  backendIrVersions : List String
  modelTuples : List ModelTuple
  deriving DecidableEq

def Claims.new (parts : Claims) : Claims :=
  { extensionId := parts.extensionId
    version := parts.version
    protocolLines := sortedSet compareProtocolLine parts.protocolLines
    operations := sortedSet compareOperation parts.operations
    languages := LanguageClaim.merge (sortedSet LanguageClaim.compare parts.languages)
    frontendIrVersions := sortedSet compareText parts.frontendIrVersions
    frontendFlags := parts.frontendFlags
    targets := sortedSet compareText parts.targets
    backendIrVersions := sortedSet compareText parts.backendIrVersions
    modelTuples := sortedSet ModelTuple.compare parts.modelTuples }

def Claims.offers (claims : Claims) (operation : Operation) : Bool :=
  claims.operations.contains operation

/-- What the host offers in `initialize`: the legacy methods, or the model
tuples of one operation in the host's order of preference. -/
inductive Offer
  | legacy
  | model (tuples : List ModelTuple)
  deriving DecidableEq

namespace Offer

def line : Offer → ProtocolLine
  | .legacy => .mep0_1
  | .model _ => .mep0_2Draft1

def operations : Offer → List Operation
  | .legacy => [.compile, .generate]
  | .model tuples =>
    tuples.foldl (fun operations tuple =>
      if operations.contains tuple.operation.operation then operations
      else operations ++ [tuple.operation.operation]) []

end Offer

structure Negotiated where
  offer : Offer
  tuple : Option ModelTuple
  limits : Limits
  deriving DecidableEq

def hostName : String := "morphir-moonbit-cli"

def hostVersion : String := "0.1.0"

def describeMessage (id : Int) : Message :=
  requestMessage id "morphir.extension.describe"
    [("protocolVersions",
      .array [.string ProtocolLine.mep0_2Draft1.toString, .string ProtocolLine.mep0_1.toString])]

def initializeMessage (id : Int) (offer : Offer) (limits : Limits) : Message :=
  let params := [("protocolVersions", .array [.string offer.line.toString]),
    ("host", .object [("name", .string hostName), ("version", .string hostVersion)])]
  let transport := match offer with
    | .legacy => []
    | .model tuples =>
      [("modelTransport",
        .object [("tuples", .array (tuples.map ModelTuple.toJson)),
          ("limits", limits.model.toJson), ("guarantees", .array [])])]
  requestMessage id "morphir.initialize" (params ++ transport)

def shutdownMessage (id : Int) : Message := requestMessage id "morphir.shutdown" []

/-- Which kind of call a request makes; the negotiated line chooses the
method. -/
inductive CallKind
  | compileCall
  | generateCall
  deriving DecidableEq

def CallKind.operation : CallKind → Offer → Operation
  | .compileCall, .legacy => .compile
  | .generateCall, .legacy => .generate
  | .compileCall, .model _ => .compileModel
  | .generateCall, .model _ => .generateModel

structure Call where
  kind : CallKind
  params : List (String × Json)

def Call.message (call : Call) (id : Int) (operation : Operation) : Message :=
  requestMessage id operation.toString call.params

/-- The bytes of a Content-Length frame that carries `body` bytes. -/
def framedSize (body : Nat) : Nat :=
  utf16Length ("Content-Length: " ++ toString body ++ "\r\n\r\n") + body

end Morphir.Host
