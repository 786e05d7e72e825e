import Morphir.Host.Claims

/-!
# Reading the answers of a worker

Replies, claims, model limits, agreed tuples and diagnostics, decoded from
the JSON that a worker sends.
-/

namespace Morphir.Host

open OrdMap

inductive Reply
  | answer (result : Json)
  | guestError (code : Int) (message : String) (data : Option Json)

def unexpected (message : String) : Fault := .host .unexpectedResponse message

/-- Checks one message from the worker against the pending request: its size
first, then its ID and its shape.  A notification is `none`, which the host
skips. -/
def readReply (message : Message) (pending : Int) (answered : List Int) (limit : Int) :
    Except Fault (Option Reply) :=
  if ¬ (message.size : Int) ≤ limit then
    .error (.host .responseLimit ("a response has " ++ toString message.size ++
      " bytes; the limit is " ++ toString limit))
  else
    match message.json with
    | .object fields =>
      match get? fields "jsonrpc" with
      | some (.string "2.0") =>
        if (get? fields "method").isSome then
          if (get? fields "id").isSome then
            .error (unexpected "the worker sent a request to the host")
          else .ok none
        else
          match integer (get? fields "id") with
          | none => .error (unexpected "the reply has no request ID")
          | some id =>
            if id ≠ pending then
              .error (unexpected
                (if answered.contains id then
                  "a second response to request " ++ toString id
                else if pending < id then
                  "a response with ID " ++ toString id ++ " to request " ++ toString pending
                else "an unsolicited response with ID " ++ toString id))
            else
              match get? fields "result", get? fields "error" with
              | some result, none => .ok (some (.answer result))
              | none, some (.object error) =>
                match integer (get? error "code"), get? error "message" with
                | some code, some (.string text) =>
                  .ok (some (.guestError code text (get? error "data")))
                | _, _ =>
                  .error (unexpected ("the error of request " ++ toString id ++
                    " has no code or message"))
              | _, _ =>
                .error (unexpected ("the reply to request " ++ toString id ++
                  " must have exactly one of result or error"))
      | _ => .error (unexpected "the reply is not JSON-RPC 2.0")
    | _ => .error (unexpected "the reply is not JSON-RPC 2.0")

def textItem (name : String) : Json → Except ValueError String
  | .string text => .ok text
  | _ => .error (.invalidClaim (name ++ " has an item that is not text"))

def texts (value : Option Json) (name : String) : Except ValueError (List String) :=
  match value with
  | none => .ok []
  | some (.array items) => items.mapM (textItem name)
  | some _ => .error (.invalidClaim (name ++ " is not a list"))

def flag : Option Json → Bool
  | some (.bool true) => true
  | _ => false

def tuplePart (item : Json) (name : String) : Except ValueError String :=
  match fieldAt item [name] with
  | some (.string text) => .ok text
  | _ => .error (.invalidClaim ("a model tuple has no " ++ name))

/-- The tuple of one item; a tuple of text parts outside the closed sets is
skipped. -/
def readTuple (item : Json) : Except ValueError (Option ModelTuple) := do
  let operation ← tuplePart item "operation"
  let profile ← tuplePart item "profile"
  let codec ← tuplePart item "codec"
  let envelopeVersion ← tuplePart item "envelopeVersion"
  let irVersion ← tuplePart item "irVersion"
  match ModelTuple.parse operation profile codec envelopeVersion irVersion with
  | .ok tuple => return some tuple
  | .error (.unknownModelTuplePart _) => return none
  | .error error => throw error

def readTuples (transport : Option Json) : Except ValueError (List ModelTuple) :=
  match transport with
  | none => .ok []
  | some transport =>
    match fieldAt transport ["tuples"] with
    | some (.array items) => do
      let tuples ← items.mapM readTuple
      return tuples.filterMap fun tuple => tuple
    | _ => .error (.invalidClaim "modelTransport has no tuples")

def readLimit (transport : Option Json) (name : String) : Except ValueError Int :=
  match integer (transport.bind (fieldAt · ["limits", name])) with
  | some value => .ok value
  | none => .error (.invalidLimit ("modelTransport has no " ++ name))

def readModelLimits (transport : Option Json) : Except ValueError ModelLimits := do
  let encodedBytes ← readLimit transport "maxEncodedBytes"
  let decodedBytes ← readLimit transport "maxDecodedBytes"
  let depth ← readLimit transport "maxDepth"
  let nodes ← readLimit transport "maxNodes"
  ModelLimits.new encodedBytes decodedBytes depth nodes

def readIrVersions (value : Option Json) (name : String) : Except ValueError (List String) := do
  let versions ← texts value name
  versions.mapM parseIrVersionName

def understoodPaths : List String :=
  ["protocolVersions", "protocolVersion", "extension", "extension.id", "extension.version",
    "capabilities", "capabilities.frontend", "capabilities.frontend.languages",
    "capabilities.frontend.irVersions", "capabilities.frontend.compile",
    "capabilities.frontend.incremental", "capabilities.frontend.multiDocument",
    "capabilities.backend", "capabilities.backend.targets", "capabilities.backend.irVersions",
    "capabilities.backend.generate", "capabilities.modelTransport",
    "capabilities.modelTransport.tuples", "capabilities.modelTransport.limits", "critical"]

def checkCritical (path : String) : Except ValueError Unit :=
  if understoodPaths.contains path then .ok ()
  else .error (.invalidClaim ("critical names " ++ path ++ ", which the host does not read"))

def requiredText (result : Json) (path : List String) : Except ValueError String :=
  match fieldAt result path with
  | some (.string text) => .ok text
  | _ => .error (.invalidClaim (String.intercalate "." path ++ " is not text"))

def readLanguage (item : Json) : Except ValueError LanguageClaim :=
  match fieldAt item ["id"] with
  | some (.string id) => do
    let extensions ← texts (fieldAt item ["fileExtensions"]) "fileExtensions"
    if isWord id && extensions.all isFileExtension then LanguageClaim.new id extensions
    else throw (.invalidClaim ("invalid language " ++ id ++ " or file extension"))
  | _ => .error (.invalidClaim "a language has no id")

def readLanguages (value : Option Json) : Except ValueError (List LanguageClaim) :=
  match value with
  | none => .ok []
  | some (.array items) => items.mapM readLanguage
  | some _ => .error (.invalidClaim "languages is not a list")

def readTarget (target : String) : Except ValueError String :=
  if isWord target then .ok target
  else .error (.invalidClaim ("invalid target " ++ target))

def readClaims (result : Json) : Except ValueError Claims := do
  let critical ← texts (fieldAt result ["critical"]) "critical"
  critical.forM checkCritical
  let versions ← match fieldAt result ["protocolVersion"] with
    | some (.string version) => pure [version]
    | _ => texts (fieldAt result ["protocolVersions"]) "protocolVersions"
  let protocolLines := versions.filterMap fun version => (ProtocolLine.parse version).toOption
  match fieldAt result ["capabilities"] with
  | some (.object _) => pure ()
  | _ => throw (.invalidClaim "capabilities is not an object")
  let frontend := fieldAt result ["capabilities", "frontend"]
  let backend := fieldAt result ["capabilities", "backend"]
  let modelTuples ← readTuples (fieldAt result ["capabilities", "modelTransport"])
  let operations :=
    (if flag (fieldAt result ["capabilities", "frontend", "compile"]) then
      [Operation.compile] else []) ++
    (if flag (fieldAt result ["capabilities", "backend", "generate"]) then
      [Operation.generate] else []) ++
    modelTuples.map fun tuple => tuple.operation.operation
  let languages ← readLanguages (fieldAt result ["capabilities", "frontend", "languages"])
  let targets ← texts (fieldAt result ["capabilities", "backend", "targets"]) "targets"
  let targets ← targets.mapM readTarget
  let extensionId ← requiredText result ["extension", "id"]
  let extensionId ← parseExtensionId extensionId
  let version ← requiredText result ["extension", "version"]
  let version ← parseExtensionVersion version
  let frontendIrVersions ←
    readIrVersions (frontend.bind (fieldAt · ["irVersions"])) "frontend irVersions"
  let backendIrVersions ←
    readIrVersions (backend.bind (fieldAt · ["irVersions"])) "backend irVersions"
  return Claims.new
    { extensionId, version, protocolLines, operations, languages, frontendIrVersions
      frontendFlags :=
        { incremental := flag (fieldAt result ["capabilities", "frontend", "incremental"])
          multiDocument := flag (fieldAt result ["capabilities", "frontend", "multiDocument"]) }
      targets, backendIrVersions, modelTuples }

def missing {α : Type} [DecidableEq α] (show' : α → String) (name : String)
    (expected live : List α) : Option String :=
  let lost := expected.filter fun value => !live.contains value
  if lost.isEmpty then none
  else some (name ++ " " ++ String.intercalate ", " (lost.map show'))

def languageDrift (expected live : Claims) : Option String :=
  let dropped := expected.frontendFlags.droppedIn live.frontendFlags
  if !dropped.isEmpty then
    some ("the worker dropped the frontend flags " ++ String.intercalate ", " dropped)
  else
    let changed := expected.languages.filter fun claim => !live.languages.contains claim
    if !changed.isEmpty then
      some ("the worker dropped or changed languages " ++
        String.intercalate ", " (changed.map LanguageClaim.languageId))
    else none

/-- Compares the claims of a live worker with the claims recorded for it,
within the protocol line of the offer. -/
def compareClaims (expected live : Claims) (offer : Offer) : Option String :=
  if expected.extensionId ≠ live.extensionId then
    some ("extension ID " ++ live.extensionId ++ ", recorded " ++ expected.extensionId)
  else if expected.version ≠ live.version then
    some ("version " ++ live.version ++ ", recorded " ++ expected.version)
  else
    let (languages, others) := match offer with
      | .legacy =>
        (true,
          [missing Operation.toString "operations"
              (expected.operations.filter fun operation => operation.model.isNone)
              live.operations,
            missing id "targets" expected.targets live.targets,
            missing id "frontend IR versions" expected.frontendIrVersions
              live.frontendIrVersions,
            missing id "backend IR versions" expected.backendIrVersions
              live.backendIrVersions])
      | .model tuples =>
        if tuples.any fun tuple => tuple.operation == ModelOperation.generateModel then
          (false, [missing id "targets" expected.targets live.targets])
        else (true, [])
    (if languages then languageDrift expected live else none).or
      ((others.findSome? fun lost => lost).map fun text => "the worker dropped " ++ text)

/-- What a worker's answer to `initialize` agreed on the model line. -/
inductive Agreement
  | agreed (tuple : ModelTuple)
  | empty
  | mismatch (text : String)
  deriving DecidableEq

/-- The first problem among the agreed tuples, each of which is offered after
the one before; `last` is the position of the one before. -/
def agreementProblem (offered : List ModelTuple) : Option Nat → List Json → Option String
  | _, [] => none
  | last, item :: items =>
    match (tupleOf item).bind fun tuple => offered.findIdx? (· == tuple) with
    | none => some ("the worker agreed on a tuple that the host did not offer: " ++ item.stringify)
    | some index =>
      if last.all (· < index) then agreementProblem offered (some index) items
      else some "the agreed tuples do not keep the host's order"

/-- Checks the agreed tuples in an `initialize` result against the offer. -/
def agreement (offered : List ModelTuple) (result : Json) : Agreement :=
  let items := match fieldAt result ["capabilities", "modelTransport", "tuples"] with
    | some (.array items) => items
    | _ => []
  match agreementProblem offered none items with
  | some text => .mismatch text
  | none =>
    match items.head?.bind tupleOf with
    | some tuple => .agreed tuple
    | none => .empty

def base64Digit (c : Char) : Bool :=
  decide (('A' ≤ c ∧ c ≤ 'Z') ∨ ('a' ≤ c ∧ c ≤ 'z') ∨ ('0' ≤ c ∧ c ≤ '9') ∨ c = '+' ∨ c = '/')

/-- The number of `=` at the end of base64 text, from the position `index`
and after `padding` of them. -/
def base64Padding (length : Nat) : Nat → Nat → List Char → Option Nat
  | _, padding, [] => some padding
  | index, padding, c :: cs =>
    if c = '=' then
      if length ≤ index + 2 then base64Padding length (index + 1) (padding + 1) cs else none
    else if padding = 0 ∧ base64Digit c = true then base64Padding length (index + 1) padding cs
    else none

def base64DecodedLength (content : String) : Option Int :=
  let length := utf16Length content
  if length % 4 = 0 then
    (base64Padding length 0 0 content.toList).map fun padding => (length / 4 * 3 : Int) - padding
  else none

def modelPayloadProblem (payload : Option Json) (limits : ModelLimits) : Option String :=
  match payload with
  | none => none
  | some payload =>
    match fieldAt payload ["content"] with
    | some (.string content) =>
      match integer (fieldAt payload ["decodedByteLength"]) with
      | none => some "the model payload has no decodedByteLength"
      | some declared =>
        let encoded : Int := utf8Length content
        if limits.encodedBytes < encoded then
          some ("the model has " ++ toString encoded ++
            " encoded bytes; the effective limit is " ++ toString limits.encodedBytes)
        else
          match base64DecodedLength content with
          | none => some "the model content is not padded base64"
          | some decoded =>
            if decoded ≠ declared then
              some ("the model declares " ++ toString declared ++
                " decoded bytes; its content decodes to " ++ toString decoded)
            else if limits.decodedBytes < decoded then
              some ("the model has " ++ toString decoded ++
                " decoded bytes; the effective limit is " ++
                toString limits.decodedBytes)
            else none
    | _ => some "the model payload has no base64 content"

inductive Severity
  | error | warning | info | hint
  deriving DecidableEq

def Severity.toString : Severity → String
  | .error => "error"
  | .warning => "warning"
  | .info => "info"
  | .hint => "hint"

def Severity.parse (text : String) : Except ValueError Severity :=
  match [Severity.error, .warning, .info, .hint].find? fun severity =>
      severity.toString = text with
  | some severity => .ok severity
  | none => .error (.invalidDiagnostic ("unknown severity " ++ text))

structure SourcePosition where
  line : Int
  character : Int
  deriving DecidableEq

structure SourceLocation where
  uri : String
  start : SourcePosition
  stop : SourcePosition
  deriving DecidableEq

structure RelatedInformation where
  location : SourceLocation
  message : String
  deriving DecidableEq

/-- A diagnostic from a guest, with every member as the guest sent it. -/
structure Diagnostic where
  severity : Severity
  code : Option String
  message : String
  location : Option SourceLocation
  related : List RelatedInformation
  data : Option Json

def diagnosticText (fields : List (String × Json)) (name : String) : Except ValueError String :=
  match get? fields name with
  | some (.string text) => .ok text
  | _ => .error (.invalidDiagnostic (name ++ " is not text"))

def readCoordinate (value : Json) (name : String) : Except ValueError Int :=
  match fieldAt value [name] with
  | some (.number (some number) _) =>
    if 0 ≤ number ∧ number ≤ 4294967295 ∧ (number.floor : Rat) = number then .ok number.floor
    else .error (.invalidDiagnostic ("position " ++ name ++ " is not a line or column"))
  | _ => .error (.invalidDiagnostic ("position " ++ name ++ " is not a line or column"))

def SourcePosition.decode (value : Json) : Except ValueError SourcePosition := do
  let line ← readCoordinate value "line"
  let character ← readCoordinate value "character"
  return ⟨line, character⟩

def SourceLocation.decode (value : Json) : Except ValueError SourceLocation :=
  match value, fieldAt value ["range", "start"], fieldAt value ["range", "end"] with
  | .object fields, some start, some stop => do
    let uri ← diagnosticText fields "uri"
    let start ← SourcePosition.decode start
    let stop ← SourcePosition.decode stop
    return ⟨uri, start, stop⟩
  | _, _, _ => .error (.invalidDiagnostic "location has no range")

def RelatedInformation.decode (item : Json) : Except ValueError RelatedInformation :=
  match item, fieldAt item ["location"] with
  | .object entry, some location => do
    let location ← SourceLocation.decode location
    let message ← diagnosticText entry "message"
    return ⟨location, message⟩
  | _, _ => .error (.invalidDiagnostic "related information has no location")

def Diagnostic.decode (value : Json) : Except ValueError Diagnostic :=
  match value with
  | .object fields => do
    let related ← match get? fields "related" with
      | none => pure []
      | some (.array items) => items.mapM RelatedInformation.decode
      | some _ => throw (.invalidDiagnostic "related is not a list")
    let severity ← diagnosticText fields "severity"
    let severity ← Severity.parse severity
    let code ← match get? fields "code" with
      | none => pure none
      | some _ => some <$> diagnosticText fields "code"
    let message ← diagnosticText fields "message"
    let location ← match get? fields "location" with
      | none => pure none
      | some location => some <$> SourceLocation.decode location
    return { severity, code, message, location, related, data := get? fields "data" }
  | _ => .error (.invalidDiagnostic "diagnostic is not an object")

def malformedDiagnostic (operation : Operation) (index : Nat) (error : ValueError) :
    Diagnostic :=
  { severity := .warning
    code := some FaultCode.unexpectedResponse.toString
    message := operation.toString ++ " returned a malformed diagnostic " ++ toString index ++
      ": " ++ error.toString
    location := none
    related := []
    data := none }

def decodeDiagnostics (items : List Json) (operation : Operation) : List Diagnostic :=
  let decoded := items.zipIdx.map fun (item, index) => ((Diagnostic.decode item), index)
  (decoded.filterMap fun (result, _) => result.toOption) ++
    decoded.filterMap fun (result, index) =>
      match result with
      | .ok _ => none
      | .error error => some (malformedDiagnostic operation index error)

end Morphir.Host
