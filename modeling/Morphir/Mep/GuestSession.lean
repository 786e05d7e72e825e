import Morphir.Library.Recording
import Morphir.Mep.ModelTransport

/-!
# The session of a guest

A guest answers one message after the other.  The work of the generator and of the
front end of the application is left open; it sees the parameters of a request and the
transport of the session, and may be different at every message.
-/

namespace Morphir.Mep.Guest

open Fallible
open Host (Json utf8Length)

inductive Lifecycle
  | beforeInitialize
  | ready
  | shutdown
  | exited
  deriving DecidableEq

structure Frontend where
  languageId : String
  fileExtensions : List String
  profiles : List Json

structure Session where
  lifecycle : Lifecycle
  models : Option ModelTransport
  frontend : Option Frontend

namespace Session

def new (frontend : Option Frontend) : Session := ⟨.beforeInitialize, none, frontend⟩

def exited (self : Session) : Bool := self.lifecycle = .exited

def info (self : Session) : Json :=
  .object [("id", .string "morphir-moonbit"), ("name", .string "Morphir MoonBit"),
    ("version", .string "0.1.0"),
    ("types", .array (if self.frontend.isSome then [.string "frontend", .string "backend"]
      else [.string "backend"])),
    ("license", .string "Apache-2.0")]

def capabilities (self : Session) (models : Option ModelTransport) : Json :=
  let backend : List (String × Json) :=
    [("backend", .object [("targets", .array [.string "moonbit"]),
        ("irVersions", .array [.string "4"]), ("generate", .bool true)]),
      ("streaming", .bool false), ("incremental", .bool false), ("cancellation", .bool false),
      ("progress", .bool false)]
  let transport := match models with
    | some support => [("modelTransport", support.toJson)]
    | none => []
  let frontend := match self.frontend with
    | some frontend =>
      [("frontend", .object [("languages", .array [.object [("id", .string frontend.languageId),
          ("fileExtensions", .array (frontend.fileExtensions.map .string))]]),
        ("irVersions", .array [.string "4.0.0"]), ("compile", .bool false),
        ("incremental", .bool false), ("fragments", .bool false)]),
      ("moonbitFrontendProfiles", .array frontend.profiles)]
    | none => []
  .object (backend ++ transport ++ frontend)

end Session

def result (id value : Json) : Json :=
  .object [("jsonrpc", .string "2.0"), ("id", id), ("result", value)]

def rpcError (id : Json) (code : Int) (message : String) : Json :=
  .object [("jsonrpc", .string "2.0"), ("id", id),
    ("error", .object [("code", Json.ofInt code), ("message", .string message)])]

def field (value : Json) (key : String) : Json :=
  match value with
  | .object fields => (OrdMap.get? fields key).getD .null
  | _ => .null

def isText (value : Json) (text : String) : Bool :=
  match value with
  | .string other => other = text
  | _ => false

/-- Whether a value is the object of a tuple, its members in any order. -/
def isTuple (value : Json) (tuple : Tuple) : Bool :=
  match value with
  | .object fields =>
    fields.length = 5 ∧ isText (field value "operation") tuple.operation ∧
      isText (field value "profile") tuple.profile ∧ isText (field value "codec") tuple.codec ∧
      isText (field value "envelopeVersion") tuple.envelopeVersion ∧
      isText (field value "irVersion") tuple.irVersion
  | _ => false

def isFilled (value : Json) : Bool :=
  match value with
  | .string text => text ≠ ""
  | _ => false

/-- The error of parameters that offer no version, or no supported one. -/
def negotiation (params : Json) (initializing : Bool) : Option Int :=
  match params, field params "protocolVersions" with
  | .object _, .array versions =>
    if versions = [] then some (-32602)
    else if versions.any (fun version => match version with | .string _ => false | _ => true) then
      some (-32602)
    else if initializing ∧ ¬ (isFilled (field (field params "host") "name") ∧
        isFilled (field (field params "host") "version")) then some (-32602)
    else if versions.any (isText · "0.1") ∨ versions.any (isText · MODEL_PROTOCOL) then none
    else some (-32011)
  | _, _ => some (-32602)

inductive Content
  | text (text : String)
  | binary (bytes : List UInt8)

structure Artifact where
  path : String
  content : Content

structure Warning where
  code : String
  message : String
  fix : String

structure Output where
  artifacts : List Artifact
  warnings : List Warning

structure GeneratorInvalid where
  code : String
  context : String
  message : String

inductive DocumentRaised
  | wire (code detail : String)
  | other (text : String)

structure RetainedInput (ι : Type) where
  input : ι
  bytes : List UInt8
  model : Json

inductive Compilation (ι : Type)
  | compiled (input : ι) (modules : List String) (diagnostics : List Json)
  | compilationFailed (diagnostics : List Json)

/-- The functions that a message may call.  `cancelled` says what the application answers
before and after a compilation. -/
structure Work (ι κ : Type) where
  fromJson : Json → Except DocumentRaised ι
  generate : ι → Except GeneratorInvalid Output
  retainInput : Json → ModelTransport → Except Raised (RetainedInput ι)
  compileInput : Json → Frontend → Except Raised κ
  compile : κ → Option (Compilation ι)
  compileEnvelope : ι → κ → String → Json → Limits → List String → Except Raised Json
  cancelled : Bool × Bool
  base64 : List UInt8 → String

section Operations

variable {ι κ : Type} (work : Work ι κ)

def generationFailure (code message : String) : Json :=
  .object [("success", .bool false), ("artifacts", .array []),
    ("diagnostics", .array [.object [("severity", .string "error"), ("code", .string code),
      ("message", .string message)]])]

def generationResult (id : Json) (output : Output) (artifacts : List Json) : Json :=
  let written := output.artifacts.map fun artifact =>
    let content : String × Bool := match artifact.content with
      | .text text => (text, false)
      | .binary bytes => (work.base64 bytes, true)
    Json.object [("path", .string artifact.path), ("content", .string content.1),
      ("binary", .bool content.2)]
  let diagnostics := output.warnings.map fun warning =>
    Json.object [("severity", .string "warning"), ("code", .string warning.code),
      ("message", .string (warning.message ++ " Fix: " ++ warning.fix))]
  result id (.object [("success", .bool true), ("artifacts", .array (artifacts ++ written)),
    ("diagnostics", .array diagnostics)])

def generate (id params : Json) : Json :=
  if ¬ isText (field params "target") "moonbit" then
    rpcError id (-32602) "Expected target moonbit"
  else
    let options := match params with
      | .object fields => (OrdMap.get? fields "options").getD (.object [])
      | _ => .null
    match options with
    | .object [] =>
      match Wire.fields params ["ir", "target", "options"] with
      | .error _ => rpcError id (-32602) "Unknown generation parameter"
      | .ok () =>
        match Wire.field params "ir" with
        | .error _ => rpcError id (-32602) "Missing ir parameter"
        | .ok document =>
          match work.fromJson document with
          | .error (.wire code detail) =>
            result id (generationFailure ("moonbit.invalid_ir." ++ code) detail)
          | .error (.other text) => result id (generationFailure "moonbit.invalid_ir" text)
          | .ok ir =>
            match work.generate ir with
            | .error error =>
              result id (generationFailure error.code (error.context ++ ": " ++ error.message))
            | .ok output => generationResult work id output []
    | _ => rpcError id (-32602) "This backend accepts no generation options"

def framed (response instead : Json) : Json :=
  if MAX_FRAME_BYTES < utf8Length response.stringify then instead else response

def Session.generateModel (self : Session) (id params : Json) : Json :=
  match self.models with
  | none => rpcError id (-32013) "Model transport is unavailable in this session"
  | some transport =>
    if transport.tuples.any (fun tuple => tuple.operation = GENERATE_MODEL) = false then
      rpcError id (-32013) "Model transport is unavailable in this session"
    else
      match work.retainInput params transport with
      | .error (.refused code) | .error (.invalid code _) =>
        rpcError id (-32602) ("Model admission refused: " ++ code)
      | .error _ => rpcError id (-32602) "Model admission refused: invalid_model"
      | .ok retained =>
        match work.generate retained.input with
        | .error error =>
          result id (generationFailure error.code (error.context ++ ": " ++ error.message))
        | .ok output =>
          let path := if isText (field (field retained.model "payload") "codec")
            "ion-binary" then "mep/source-model.ionb" else "mep/source-model.json"
          framed
            (generationResult work id output [.object [("path", .string path),
                  ("content", .string (work.base64 retained.bytes)), ("binary", .bool true)],
                .object [("path", .string "mep/source-envelope.json"),
                  ("content", .string retained.model.stringify), ("binary", .bool false)]])
            (result id (generationFailure "mep.response_limit"
              "Generated artifacts and retained model exceed the MEP frame budget"))

def compilationFailure (code message : String) : Json :=
  .object [("success", .bool false),
    ("diagnostics", .array [.object [("severity", .string "error"), ("code", .string code),
      ("message", .string message)]])]

def compilationResult (id output : Json) (transport : ModelTransport) (frontend : Frontend)
    (source : κ) : Compilation ι → Json
  | .compilationFailed diagnostics =>
    framed (result id (.object [("success", .bool false), ("diagnostics", .array diagnostics)]))
      (result id (compilationFailure "mep.response_limit"
        "Compiled model exceeds the MEP frame budget"))
  | .compiled input modules diagnostics =>
    match work.compileEnvelope input source frontend.languageId output transport.limits
      modules with
    | .error (.refused code) =>
      result id (compilationFailure code ("Compiled model cannot be exported: " ++ code))
    | .error _ =>
      result id (compilationFailure "mep.invalid_model" "Compiled model cannot be exported")
    | .ok model =>
      framed
        (result id (.object [("success", .bool true), ("model", model),
          ("diagnostics", .array diagnostics), ("modules", .array (modules.map .string))]))
        (result id (compilationFailure "mep.response_limit"
          "Compiled model exceeds the MEP frame budget"))

def Session.compileModel (self : Session) (id params : Json) : Json :=
  match self.frontend, self.models with
  | some frontend, some transport =>
    let output := field params "output"
    if transport.tuples.any (fun tuple => tuple.operation = COMPILE_MODEL) = false then
      rpcError id (-32013) "Model compilation is unavailable in this session"
    else if ¬ (transport.tuples.any (isTuple output) ∧
        isText (field output "operation") COMPILE_MODEL) then
      rpcError id (-32602) "Model admission refused: unsupported_tuple"
    else
      match work.compileInput params frontend with
      | .error (.refused code) => rpcError id (-32602) ("Compilation admission refused: " ++ code)
      | .error _ => rpcError id (-32602) "Compilation admission refused: invalid_request"
      | .ok source =>
        if work.cancelled.1 then
          result id (compilationFailure "moonbit_frontend.cancelled" "Frontend cancelled")
        else
          match work.compile source with
          | none => result id (compilationFailure "mep.frontend_failed" "Frontend failed")
          | some compiled =>
            if work.cancelled.2 then
              result id (compilationFailure "moonbit_frontend.cancelled" "Frontend cancelled")
            else compilationResult work id output transport frontend source compiled
  | _, _ => rpcError id (-32013) "Model compilation is unavailable in this session"

/-- The answer to `morphir.initialize` once its parameters are accepted. -/
def Session.acceptOffer (self : Session) (id params : Json) : Json × Session :=
  let versions := match field params "protocolVersions" with
    | .array items => items
    | _ => []
  let offered := match params with
    | .object fields => OrdMap.contains fields "modelTransport"
    | _ => false
  let accept (models : Option ModelTransport) (version : String) : Json × Session :=
    (result id (.object [("protocolVersion", .string version), ("extension", self.info),
        ("capabilities", self.capabilities models)]),
      { self with models, lifecycle := .ready })
  if versions.any (isText · MODEL_PROTOCOL) && offered then
    match selectModels (field params "modelTransport") self.frontend.isSome with
    | .error _ => (rpcError id (-32602) "Invalid model transport offer", self)
    | .ok models => accept (some models) MODEL_PROTOCOL
  else if versions.any (isText · "0.1") then accept none "0.1"
  else (rpcError id (-32011) "Rich initialization requires a model transport offer", self)

def Session.perform (self : Session) (operation : String) (id params : Json) : Json × Session :=
  if operation = "morphir.extension.describe" then
    match negotiation params false with
    | some code =>
      (rpcError id code "Invalid negotiation parameters or unsupported MEP version", self)
    | none =>
      (result id (.object [("claimsVersion", .string "0.1.0-draft.2"),
        ("protocolVersions", .array [.string MODEL_PROTOCOL, .string "0.1"]),
        ("extension", self.info),
        ("capabilities", self.capabilities (some (modelSupport self.frontend.isSome)))]), self)
  else if operation = "morphir.initialize" then
    match negotiation params true with
    | some code =>
      (rpcError id code "Invalid negotiation parameters or unsupported MEP version", self)
    | none => self.acceptOffer id params
  else if operation = "morphir.ping" then (result id (.object [("ok", .bool true)]), self)
  else if operation = "morphir.extension.info" then (result id self.info, self)
  else if operation = "morphir.extension.capabilities" then
    (result id (self.capabilities self.models), self)
  else if operation = "morphir.shutdown" then
    (result id (.object []), { self with lifecycle := .shutdown })
  else if operation = "morphir.backend.generate" then (generate work id params, self)
  else if operation = "morphir.backend.generateModel" then
    (self.generateModel work id params, self)
  else if operation = "morphir.frontend.compileModel" then
    (self.compileModel work id params, self)
  else (rpcError id (-32601) "Unknown MEP operation", self)

def Lifecycle.refusal (lifecycle : Lifecycle) (operation : String) : Option (Int × String) :=
  match lifecycle with
  | .exited | .shutdown => some (-32014, "Session has shut down")
  | .beforeInitialize =>
    if operation ∉ ["morphir.initialize", "morphir.extension.describe", "morphir.ping"] then
      some (-32014, "Initialize the extension first")
    else none
  | .ready =>
    if operation = "morphir.initialize" then some (-32600, "Extension is already initialized")
    else none

def isId (id : Json) : Bool := ((Wire.integerText id).bind parseUint64).toOption.isSome

def envelope (request : Json) : Option (List (String × Json) × String) :=
  match request with
  | .object fields =>
    match field request "jsonrpc", field request "method" with
    | .string "2.0", .string operation => some (fields, operation)
    | _, _ => none
  | _ => none

def Session.handle (self : Session) (request : Json) : Option Json × Session :=
  match envelope request with
  | none => (some (rpcError .null (-32600) "Invalid JSON-RPC request"), self)
  | some (fields, operation) =>
    match OrdMap.get? fields "id" with
    | none =>
      (none, if operation = "morphir.exit" then { self with lifecycle := .exited } else self)
    | some id =>
      if ¬ isId id then
        (some (rpcError .null (-32600) "MEP request ID must be an unsigned integer"), self)
      else if operation = "morphir.exit" then
        (some (rpcError id (-32600) "morphir.exit must be a notification"), self)
      else
        match self.lifecycle.refusal operation with
        | some (code, message) => (some (rpcError id code message), self)
        | none =>
          match (OrdMap.get? fields "params").getD (.object []) with
          | .object params =>
            let (response, next) := self.perform work operation id (.object params)
            (some response, next)
          | _ => (some (rpcError id (-32602) "Object parameters required"), self)

end Operations

end Morphir.Mep.Guest
