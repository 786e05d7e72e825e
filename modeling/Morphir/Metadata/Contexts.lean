import Morphir.Execution.Outcomes
import Morphir.Metadata.Addresses

/-!
# Contexts of linked metadata

A context binds terms.  It is written inline or imported, and the imports of a list are
merged before an inline part can override them.
-/

namespace Morphir.Metadata

open Fallible Engine.ModelDocument OrdMap
open Morphir.Execution (Ion IonLibrary)

variable {X : Type}

structure Term where
  iri : String
  coercion : Option String
  isPrefix : Bool
  isProtected : Bool
  deriving DecidableEq

structure Context where
  terms : List (String × Term)
  vocab : Option String
  distinct : OrdMap.Distinct terms

namespace Context

def empty : Context := ⟨[], none, distinct_nil⟩

def term? (c : Context) (name : String) : Option Term := get? c.terms name

def bind (c : Context) (name : String) (term : Term) : Context :=
  ⟨OrdMap.insert c.terms name term, c.vocab, c.distinct.insert name term⟩

def withVocab (c : Context) (stem : String) : Context := { c with vocab := some stem }

end Context

def invalidForm (about message : String) : MetadataError :=
  .invalid "metadata.invalid_context_form" about message

def collectFields (owner : String) : List (Option String × Ion X) → List (String × Ion X) →
    Except MetadataError (List (String × Ion X))
  | [], result => .ok result
  | (none, _) :: _, _ =>
    .error (.invalid "metadata.symbol_catalog_missing" owner
      "Resolve field symbols before interpretation")
  | (some key, value) :: entries, result => do
    refuse (OrdMap.contains result key = true)
      (.invalid "metadata.duplicate_field" owner
        ("Duplicate field '" ++ key ++ "'; retain one unambiguous value"))
    collectFields owner entries (OrdMap.insert result key value)

def fields (value : Ion X) (owner : String) : Except MetadataError (List (String × Ion X)) :=
  match value with
  | .struct _ entries => collectFields owner entries []
  | _ => .error (.invalid "metadata.invalid_object" owner "Expected an Ion struct")

def required (values : List (String × Ion X)) (key owner : String) :
    Except MetadataError (Ion X) :=
  match get? values key with
  | some value => .ok value
  | none =>
    .error (.invalid "metadata.missing_field" owner ("Supply required field '" ++ key ++ "'"))

def text (value : Ion X) (owner : String) : Except MetadataError String :=
  match value with
  | .scalar [] (.string result) => .ok result
  | _ => .error (.invalid "metadata.invalid_string" owner "Expected an unannotated string")

def isText : Ion X → Bool
  | .scalar _ (.string _) => true
  | _ => false

def startsWith (text start : String) : Bool := start.toList.isPrefixOf text.toList

def invalidPredicate (uri message : String) : MetadataError :=
  .invalid "metadata.invalid_predicate_uri" uri message

def isCanonicalName (localName : List Char) : Bool :=
  match Name.parse (String.ofList localName) with
  | .error _ => false
  | .ok name => name.toCanonical.toList = localName

def checkReference (uri : String) (stem : Bool) : Except MetadataError Unit := do
  let parsed ← address uri.toList
  match parsed.fragment.splitOn '/' with
  | [empty, moduleKey, module, kind, localName] => do
    refuse (empty ≠ [] ∨ moduleKey ≠ "module".toList ∨
        (kind ≠ "value".toList ∧ kind ≠ "type".toList) ∨ (stem = true ∧ localName ≠ []))
      (invalidPredicate uri "Use a declaration URI or declaration stem")
    match Path.parse (String.ofList (['/'].intercalate (splitEncoded module))) with
    | .error _ => .error (invalidPredicate uri "Invalid module path")
    | .ok moduleName => do
      refuse (encodePath moduleName ≠ module)
        (invalidPredicate uri "Noncanonical module encoding")
      refuse (stem = false ∧ isCanonicalName localName = false) (invalidPredicate uri
        "Use a canonical local name; camelCase requires an explicit alias")
  | _ => .error (invalidPredicate uri "Use a declaration URI or declaration stem")

/-- The prefix that a compact key starts with and what is behind it. -/
def Context.prefixOf (c : Context) (key : String) : Option (Term × String) :=
  match key.toList.splitOn ':' with
  | [start, rest] =>
    match c.term? (String.ofList start) with
    | some term => if term.isPrefix = true then some (term, String.ofList rest) else none
    | none => none
  | _ => none

def Context.alias? (c : Context) (key : String) : Option Term :=
  (c.term? key).filter fun term => !term.isPrefix

def Context.expand (c : Context) (key : String) :
    Except MetadataError (String × Option String) :=
  match c.alias? key with
  | some term => .ok (term.iri, term.coercion)
  | none =>
    if startsWith key "morphir://ir/" = true then do
      checkReference key false
      pure (key, none)
    else match c.prefixOf key with
      | some (term, rest) => do
        checkReference (term.iri ++ rest) false
        pure (term.iri ++ rest, none)
      | none =>
        match c.vocab with
        | some stem =>
          if ':' ∈ key.toList then unresolved else do
            checkReference (stem ++ key) false
            pure (stem ++ key, none)
        | none => unresolved
where
  unresolved : Except MetadataError (String × Option String) :=
    .error (.invalid "metadata.unresolved_term" key
      "Supply an explicit alias, declared prefix or @vocab")

def setTerm (c : Context) (name : String) (term : Term) (imports : Bool) :
    Except MetadataError Context := do
  match c.term? name with
  | some old =>
    if old ≠ term then
      refuse (old.isProtected = true) (.invalid "metadata.protected_term_redefinition" name
        "Retain the protected binding")
      refuse (imports = true) (.invalid "metadata.context_term_collision" name
        "Imported contexts disagree; a trailing override cannot cure the collision")
  | none => pure ()
  pure (c.bind name term)

def boolTrue (owner : String) : Ion X → Except MetadataError Unit
  | .scalar [] (.bool true) => .ok ()
  | _ => .error (invalidForm owner "This context flag only admits true")

def unsupportedKeyword (name message : String) : MetadataError :=
  .invalid "metadata.unsupported_context_keyword" name message

def readTerm (name : String) (value : Ion X) : Except MetadataError Term :=
  match value with
  | .scalar _ (.string _) => do
    let iri ← text value name
    pure ⟨iri, none, false, false⟩
  | .struct _ _ => do
    let definition ← fields value name
    (OrdMap.keys definition).forM fun key =>
      refuse (key ∉ ["@id", "@type", "@prefix", "@protected"])
        (unsupportedKeyword key "Remove unsupported term-definition keyword")
    let coercion ← (get? definition "@type").mapM (text · name)
    refuse (∃ c ∈ coercion, c ≠ "@json" ∧ c ≠ "@id")
      (invalidForm name "Only @json and @id coercions are admitted")
    (get? definition "@prefix").forM (boolTrue name)
    (get? definition "@protected").forM (boolTrue name)
    let iri ← text (← required definition "@id" name) name
    pure ⟨iri, coercion, OrdMap.contains definition "@prefix",
      OrdMap.contains definition "@protected"⟩
  | _ => .error (invalidForm name "Term definitions must be strings or objects")

/-- Prefixes are declared first; compact targets can refer forward to them. -/
def declareTerms (imports : Bool) : List (String × Ion X) → Context → List (String × Term) →
    Except MetadataError (Context × List (String × Term))
  | [], c, pending => .ok (c, pending)
  | (name, value) :: entries, c, pending =>
    if name = "@vocab" then do
      let stem ← text value name
      checkReference stem true
      refuse (imports = true ∧ ∃ old ∈ c.vocab, old ≠ stem)
        (.invalid "metadata.context_vocab_collision" name "Imported contexts disagree on @vocab")
      declareTerms imports entries (c.withVocab stem) pending
    else do
      refuse (name = "" ∨ startsWith name "@" = true) (invalidForm name "Invalid term name")
      let term ← readTerm name value
      if term.isPrefix = true then do
        refuse (term.coercion.isSome = true)
          (invalidForm name "Prefixes cannot carry a coercion")
        checkReference term.iri true
        let c ← setTerm c name term imports
        declareTerms imports entries c pending
      else declareTerms imports entries c (pending ++ [(name, term)])

def Context.target (c : Context) (iri : String) : Except MetadataError String :=
  if startsWith iri "morphir://ir/" = true then .ok iri else (·.1) <$> c.expand iri

def bindTerms (imports : Bool) : List (String × Term) → Context → Except MetadataError Context
  | [], c => .ok c
  | (name, term) :: pending, c => do
    refuse (startsWith term.iri "morphir://ir/" = false ∧ ':' ∉ term.iri.toList)
      (invalidForm name "A term target must be an absolute declaration URI or compact IRI")
    let iri ← c.target term.iri
    checkReference iri false
    let c ← setTerm c name { term with iri } imports
    bindTerms imports pending c

def applyInline (c : Context) (value : Ion X) (imports : Bool) : Except MetadataError Context := do
  let record ← fields value "@context"
  let entries := record.insertionSort fun a b => (compareText a.1 b.1).isLE = true
  entries.forM fun entry => refuse (startsWith entry.1 "@" = true ∧ entry.1 ≠ "@vocab")
    (unsupportedKeyword entry.1 "Remove unsupported context keyword")
  let (c, pending) ← declareTerms imports entries c []
  bindTerms imports pending c

def bindAll (imports : Bool) : List (String × Term) → Context → Except MetadataError Context
  | [], c => .ok c
  | (name, term) :: terms, c => do
    let c ← setTerm c name term imports
    bindAll imports terms c

def Context.mergeImport (self other : Context) : Except MetadataError Context := do
  let self ← match other.vocab with
    | some stem => do
      refuse (∃ old ∈ self.vocab, old ≠ stem)
        (.invalid "metadata.context_vocab_collision" "@vocab" "Imported contexts disagree")
      pure (self.withVocab stem)
    | none => pure self
  bindAll true other.terms self

def mergeImports : List Context → Context → Except MetadataError Context
  | [], imports => .ok imports
  | c :: cs, imports => do
    let imports ← imports.mergeImport c
    mergeImports cs imports

def Context.bindImports (output imports : Context) : Except MetadataError Context :=
  bindAll false imports.terms (match imports.vocab with
    | some stem => output.withVocab stem
    | none => output)

structure ContextDocument where
  url : String
  bytes : List UInt8
  sha256 : String

/-- What the host gives: the Ion library, the hash and the loader of contexts. -/
structure Capabilities (X : Type) where
  lib : IonLibrary X
  sha256 : List UInt8 → String
  loadContext : Option (String → String → Except MetadataError ContextDocument)

def contentPrefix : String := "morphir://context/sha256/"

def contentDigest (resource : String) : List Char :=
  resource.toList.drop contentPrefix.toList.length

def checkResource (resource base : String) : Except MetadataError Unit :=
  if startsWith resource contentPrefix = true then
    refuse (digest (contentDigest resource) = false)
      (.invalid "metadata.invalid_context_reference" resource "Invalid content digest")
  else do
    refuse (':' ∈ resource.toList ∨ startsWith resource "/" = true ∨ '\\' ∈ resource.toList ∨
        ".jsonld".toList.isSuffixOf resource.toList = false)
      (.invalid "metadata.remote_context_forbidden" resource
        "Use a confined relative .jsonld path or content-addressed context")
    refuse (base = "") (.invalid "metadata.relative_import_without_base" resource
      "Content-addressed contexts have no relative file base")

def contextLimit (about message : String) : MetadataError :=
  .invalid "metadata.context_limit" about message

section Loading

variable (host : Capabilities X)

def loadDocument (resource base : String) (active : List String) :
    Except MetadataError ContextDocument := do
  checkResource resource base
  match host.loadContext with
  | none => .error (.invalid "metadata.context_resource_unavailable" resource
      "Configure an explicit trusted context loader")
  | some load => do
    let document ← load resource base
    refuse (document.url ∈ active)
      (.invalid "metadata.context_import_cycle" document.url "Remove the cyclic import")
    pure document

def readDocument (resource : String) (document : ContextDocument) :
    Except MetadataError (Ion X) := do
  refuse (1048576 < document.bytes.length) (contextLimit resource "Context exceeds 1 MiB")
  let hash := host.sha256 document.bytes
  refuse (digest document.sha256.toList = false ∨ hash ≠ document.sha256 ∨
      (startsWith resource contentPrefix = true ∧ hash.toList ≠ contentDigest resource))
    (.invalid "metadata.context_digest_mismatch" resource "Use exact inventoried context bytes")
  match Execution.utf8Text document.bytes with
  | .error _ => .error (invalidForm resource "Context must be UTF-8 JSON")
  | .ok source =>
    match host.lib.parseJson source with
    | .error _ => .error (invalidForm resource "Context must be JSON, not general Ion")
    | .ok _ => do
      let value ← (host.lib.readText source).mapError .host
      let record ← fields value resource
      refuse (record.length ≠ 1)
        (invalidForm resource "Context document needs exactly one @context member")
      match get? record "@context" with
      | none => .error (invalidForm resource "Context document needs exactly one @context member")
      | some context => pure context

/-- The context of a reference, with the resources seen.  `resolve` resolves a context with a
base, the resources seen and those around it. -/
def importReference (resolve : Ion X → String → List String → List String →
      Except MetadataError (Context × List String)) (base : String) (active : List String)
    (resource : String) (seen : List String) : Except MetadataError (Context × List String) := do
  let document ← loadDocument host resource base active
  refuse (document.url ∈ seen) (.invalid "metadata.duplicate_context_import" document.url
    "Import each resource once per transitive closure")
  refuse (256 ≤ seen.length) (contextLimit resource "Context closure exceeds 256 resources")
  let context ← readDocument host resource document
  resolve context (if startsWith resource contentPrefix = true then "" else document.url)
    (seen ++ [document.url]) (document.url :: active)

end Loading

def importItems (reference : String → List String → Except MetadataError (Context × List String)) :
    List (Ion X) → Context → Option (Ion X) → List String →
      Except MetadataError ((Context × Option (Ion X)) × List String)
  | [], imports, trailing, seen => .ok ((imports, trailing), seen)
  | item :: items, imports, trailing, seen =>
    match item, trailing with
    | .scalar _ (.string _), none => do
      let resource ← text item "@context"
      let (context, seen) ← reference resource seen
      let imports ← imports.mergeImport context
      importItems reference items imports none seen
    | .struct _ _, none => importItems reference items imports (some item) seen
    | _, _ => .error (invalidForm "@context"
        "No repeated object, nested array or reference after an object")

def applyTrailing (trailing : Option (Ion X)) (output : Context) : Except MetadataError Context :=
  match trailing with
  | some value => applyInline output value false
  | none => .ok output

def startsWithText : List (Ion X) → Bool
  | item :: _ => isText item
  | [] => false

def contextLevels : Nat := 33

/-- `resolve_context`, with the levels that are left. -/
def resolveContext (host : Capabilities X) : Nat → Ion X → Context → String → List String →
    List String → Except MetadataError (Context × List String)
  | 0, value, _, base, _, _ => do
    refuse (value.annotations ≠ []) (invalidForm base "Context must be unannotated JSON data")
    .error (contextLimit base "Context import depth exceeds 32")
  | levels + 1, value, inherited, base, seen, active => do
    refuse (value.annotations ≠ []) (invalidForm base "Context must be unannotated JSON data")
    let reference := importReference host
      (fun value base seen active => resolveContext host levels value .empty base seen active)
      base active
    match value with
    | .struct _ _ => do
      let output ← applyInline inherited value false
      pure (output, seen)
    | .scalar _ (.string _) => do
      let resource ← text value "@context"
      let (imported, seen) ← reference resource seen
      let output ← inherited.bindImports imported
      pure (output, seen)
    | .list _ items => do
      refuse (startsWithText items = false) (invalidForm "@context"
        "An array needs one or more reference strings, then at most one object")
      let ((imports, trailing), seen) ← importItems reference items .empty none seen
      let output ← inherited.bindImports imports
      let output ← applyTrailing trailing output
      pure (output, seen)
    | _ => .error (invalidForm "@context" "Use an object, reference string or bounded array")

def rootContext (host : Capabilities X) (value : Ion X) (inherited : Context) (base : String) :
    Except MetadataError Context :=
  (·.1) <$> resolveContext host contextLevels value inherited base [] []

def nestedContexts (host : Capabilities X) : List (Ion X × String) → Context →
    Except MetadataError Context
  | [], c => .ok c
  | (value, base) :: rest, c => do
    let c ← rootContext host value c base
    nestedContexts host rest c

end Morphir.Metadata
