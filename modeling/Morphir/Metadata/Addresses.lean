import Morphir.IR.LegacyNames
import Morphir.Metadata.Releases

/-!
# Addresses of declarations

The URI of a value has the path of its package, a release and a fragment, in which the slashes
of the module path are encoded.
-/

namespace Morphir.Metadata

open Fallible Engine.ModelDocument List

/-- `Invalid` with its code, what it is about and its message, or the error of a name or of
a host. -/
inductive MetadataError
  | invalid (code about message : String)
  | name (error : NameError)
  | host (error : String)
  deriving DecidableEq

structure IRFile where
  formatVersion : FormatVersion
  family : formatVersion.major = 4 ∧ formatVersion.supported = true
  patch_le : formatVersion.patch ≤ 4294967295

def encodedSlash : List Char := ['%', '2', 'F']

def splitEncoded : List Char → List (List Char)
  | [] => [[]]
  | '%' :: '2' :: 'F' :: rest => [] :: splitEncoded rest
  | c :: rest => (splitEncoded rest).modifyHead (c :: ·)

def encodePath (path : Path) : List Char :=
  encodedSlash.intercalate (path.toCanonical.toList.splitOn '/')

def uriPrefix : List Char := "morphir://ir/pkg/".toList

def valueUri (file : IRFile) (name : FQName) : Except MetadataError (List Char) :=
  match FQName.parse name.toCanonical with
  | .error e => .error (.name e)
  | .ok _ => .ok (uriPrefix ++ name.packageName.toCanonical.toList ++ "?format=".toList ++
      (releaseText file.formatVersion).toList ++ "#/module/".toList ++
      encodePath name.moduleName ++ "/value/".toList ++ name.localName.toCanonical.toList)

structure Address where
  packageName : Path
  format : List Char
  revision : Option (List Char)
  fragment : List Char
  deriving DecidableEq

/-- `digest`: 64 lower case hexadecimal digits. -/
def digest (value : List Char) : Bool :=
  value.length = 64 && value.all fun c => ('0' ≤ c && c ≤ '9') || ('a' ≤ c && c ≤ 'f')

def invalidNodeUri (uri : List Char) (message : String) : MetadataError :=
  .invalid "metadata.invalid_node_uri" (String.ofList uri) message

def readParameters (uri : List Char) : List (List Char × List Char) → List (List Char) →
    Except MetadataError (List (List Char × List Char))
  | parameters, [] => .ok parameters
  | parameters, p :: ps =>
    match p.splitOn '=' with
    | [key, value] => do
      refuse (OrdMap.contains parameters key = true)
        (invalidNodeUri uri "Duplicate or malformed query parameter")
      readParameters uri (OrdMap.insert parameters key value) ps
    | _ => .error (invalidNodeUri uri "Duplicate or malformed query parameter")

def addressText (packageName : Path) (format : List Char) (revision : Option (List Char))
    (fragment : List Char) : List Char :=
  uriPrefix ++ packageName.toCanonical.toList ++ "?format=".toList ++ format ++
    (revision.elim [] fun r => "&rev=".toList ++ r) ++ '#' :: fragment

def formatKey : List Char := "format".toList

def revisionKey : List Char := "rev".toList

def isRevision (r : List Char) : Bool := "sha256:".toList.isPrefixOf r && digest (r.drop 7)

/-- What the query says: an exact release and, when there is one, a revision. -/
def readQuery (uri query : List Char) : Except MetadataError (List Char × Option (List Char)) := do
  let parameters ← readParameters uri [] (query.splitOn '&')
  match OrdMap.get? parameters formatKey with
  | none => .error (invalidNodeUri uri "Missing format")
  | some format => do
    refuse (FormatVersion.parse (String.ofList format) = none)
      (invalidNodeUri uri "Use an exact three-component format release")
    refuse (2 < parameters.length ∨ ∃ key ∈ OrdMap.keys parameters,
        key ≠ formatKey ∧ key ≠ revisionKey)
      (invalidNodeUri uri "Unsupported query parameter for a named declaration")
    let revision := OrdMap.get? parameters revisionKey
    refuse (revision.any (! isRevision ·) = true)
      (invalidNodeUri uri "Use rev=sha256:<64 lowercase hex digits>")
    pure (format, revision)

def address (uri : List Char) : Except MetadataError Address :=
  if uriPrefix.isPrefixOf uri = true then
    match (uri.drop uriPrefix.length).splitOn '#' with
    | [before, fragment] =>
      match before.splitOn '?' with
      | [package, query] =>
        match Path.parse (String.ofList package) with
        | .error _ => .error (invalidNodeUri uri "Package path must use canonical Morphir names")
        | .ok packageName => do
          refuse (packageName.toCanonical.toList ≠ package)
            (invalidNodeUri uri "Noncanonical package path")
          let (format, revision) ← readQuery uri query
          refuse (addressText packageName format revision fragment ≠ uri)
            (invalidNodeUri uri "Use canonical query order: format, then rev")
          pure { packageName, format, revision, fragment }
      | _ => .error (invalidNodeUri uri "Supply an exact format release")
    | _ => .error (invalidNodeUri uri "Supply one semantic fragment")
  else .error (invalidNodeUri uri "Use a canonical package Node URI")

def unsupportedSubject (uri : List Char) : MetadataError :=
  .invalid "metadata.unsupported_subject_role" (String.ofList uri)
    "This consumer requires a ValueDefinition URI, not its body or attributes"

def declaration (uri : List Char) : Except MetadataError (FQName × Address) := do
  let parsed ← address uri
  match parsed.fragment.splitOn '/' with
  | [empty, moduleKey, module, valueKey, value] => do
    refuse (empty ≠ [] ∨ moduleKey ≠ "module".toList ∨ valueKey ≠ "value".toList)
      (unsupportedSubject uri)
    match Path.parse (String.ofList (['/'].intercalate (splitEncoded module))) with
    | .error _ => .error (invalidNodeUri uri "Invalid canonical module path")
    | .ok moduleName =>
      match Name.parse (String.ofList value) with
      | .error _ => .error (invalidNodeUri uri "Invalid canonical value name")
      | .ok localName => do
        refuse (encodePath moduleName ≠ module ∨ localName.toCanonical.toList ≠ value)
          (invalidNodeUri uri "Noncanonical fragment encoding")
        pure (⟨parsed.packageName, moduleName, localName⟩, parsed)
  | _ => .error (unsupportedSubject uri)

lemma splitEncoded_plain : ∀ {part : List Char}, '%' ∉ part → splitEncoded part = [part]
  | [], _ => rfl
  | c :: part, h => by
    have hc : c ≠ '%' := fun hc => h (hc ▸ mem_cons_self)
    have hpa := splitEncoded_plain fun hmem => h (mem_cons_of_mem c hmem)
    rw [splitEncoded.eq_def]
    split
    · rename_i heq
      cases heq
    · rename_i heq
      exact absurd (List.cons.inj heq).1 hc
    · rename_i heq
      cases heq
      rw [hpa]
      rfl

lemma splitEncoded_append : ∀ {part rest : List Char}, '%' ∉ part →
    splitEncoded (part ++ encodedSlash ++ rest) = part :: splitEncoded rest
  | [], rest, _ => by rfl
  | c :: part, rest, h => by
    have hc : c ≠ '%' := fun hc => h (hc ▸ mem_cons_self)
    have hpa : splitEncoded (part ++ encodedSlash ++ rest) = part :: splitEncoded rest :=
      splitEncoded_append fun hmem => h (mem_cons_of_mem c hmem)
    rw [cons_append, cons_append, splitEncoded.eq_def]
    split
    · rename_i heq
      cases heq
    · rename_i heq
      exact absurd (List.cons.inj heq).1 hc
    · rename_i heq
      cases heq
      rw [hpa]
      rfl

lemma splitEncoded_intercalate : ∀ {parts : List (List Char)}, parts ≠ [] →
    (∀ part ∈ parts, '%' ∉ part) → splitEncoded (encodedSlash.intercalate parts) = parts
  | [], hne, _ => absurd rfl hne
  | [part], _, h => by
    rw [intercalate_singleton]
    exact splitEncoded_plain (h part mem_cons_self)
  | part :: next :: parts, _, h => by
    rw [intercalate_cons_cons, splitEncoded_append (h part mem_cons_self),
      splitEncoded_intercalate (by simp) fun p hp => h p (mem_cons_of_mem part hp)]

end Morphir.Metadata
