import Morphir.Moonbit.Allocation

/-!
# Names of a generated library

Values, types and constructors of a library get names before anything is generated,
in one namespace each; fields get theirs when a shape is met and locals when a
declaration is; `fresh` makes names of temporaries.
-/

namespace Morphir.Moonbit

open Fallible FreshSearch IR

/-- The definition of a type, as far as names go: the constructors of a custom type. -/
inductive TypeDefinition
  | typeAliasDefinition
  | customTypeDefinition (constructors : List Name)
  | incompleteTypeDefinition

/-- The names that a module defines.  Values and types are keys of maps. -/
structure ModuleDefinition where
  moduleName : Path
  values : List Name
  types : List (Name × TypeDefinition)
  valuesNodup : values.Nodup
  typesNodup : (types.map Prod.fst).Nodup

structure LibraryDefinition where
  packageName : Path
  modules : List ModuleDefinition
  modulesNodup : (modules.map ModuleDefinition.moduleName).Nodup

/-- What source hints and linked metadata say of the owner of a name. -/
structure Hints where
  requested : String → Option String
  original : String → Option String
  source : String → Option Span

def constructorNames (name : FQName) (constructors : List Name) : List FQName :=
  constructors.map fun ctor => ⟨name.packageName, name.moduleName, ctor⟩

def typeNode (name : FQName) : String := "type:" ++ name.toCanonical

def constructorNode (name : FQName) : String := "constructor:" ++ name.toCanonical

/-- The candidates of a library, and the names that types and constructors have in the
legacy style. -/
structure Candidates where
  values : List NamingCandidate
  types : List NamingCandidate
  constructors : List NamingCandidate
  legacy : List (String × String)

def Candidates.empty : Candidates := ⟨[], [], [], []⟩

def Candidates.append (a b : Candidates) : Candidates :=
  ⟨a.values ++ b.values, a.types ++ b.types, a.constructors ++ b.constructors, a.legacy ++ b.legacy⟩

def checkRequest (owner : String) : Option String → Except Invalid Unit
  | some text =>
    refuse (usableIdentifier text false = false ∨ keyword text = true)
      (.invalid "metadata.invalid_target_request" owner
        ("Requested MoonBit name '" ++ text ++ "' must be a portable lowercase or underscore " ++
          "identifier and a non-keyword; edit backend.moonbit"))
  | none => .ok ()

def valueCandidate (style : NamingStyle) (hints : Hints) (name : FQName) :
    Except Invalid NamingCandidate := do
  let text ← valueName name
  let owner := valueNode name
  let requested := hints.requested owner
  checkRequest owner requested
  let c := candidate owner "value" name.localName name.moduleName (hints.original owner)
    (hints.source owner) false requested
  pure (if style = .legacyHex then
      { c with candidate := text, qualified := "value_" ++ text, reason := "legacy" }
    else c)

def upperCandidate (owner role : String) (name : FQName) : NamingCandidate :=
  candidate owner role name.localName name.moduleName none none true none

def typeCandidates (style : NamingStyle) (name : FQName) (definition : TypeDefinition) :
    Except Invalid Candidates := do
  let _ ← valueName name
  match definition with
  | .customTypeDefinition constructors =>
    let constructors := constructorNames name constructors
    pure (if style = .legacyHex then
        { Candidates.empty with
          legacy := (typeNode name, "T_" ++ hex name.toCanonical) ::
            constructors.map fun ctor => (constructorNode ctor, "C_" ++ hex ctor.toCanonical) }
      else
        { Candidates.empty with
          types := [upperCandidate (typeNode name) "type" name]
          constructors := constructors.map fun ctor =>
            upperCandidate (constructorNode ctor) "constructor" ctor })
  | _ => pure Candidates.empty

def moduleCandidates (style : NamingStyle) (hints : Hints) (packageName : Path)
    (definition : ModuleDefinition) : Except Invalid Candidates := do
  let values ← definition.values.mapM fun name =>
    valueCandidate style hints ⟨packageName, definition.moduleName, name⟩
  let types ← definition.types.mapM fun entry =>
    typeCandidates style ⟨packageName, definition.moduleName, entry.1⟩ entry.2
  pure (types.foldl Candidates.append { Candidates.empty with values })

def libraryCandidates (style : NamingStyle) (hints : Hints) (library : LibraryDefinition) :
    Except Invalid Candidates := do
  let modules ← library.modules.mapM (moduleCandidates style hints library.packageName)
  pure (modules.foldl Candidates.append Candidates.empty)

def checkRequests : List NamingCandidate → (String → Option String) → Except Invalid Unit
  | [], _ => .ok ()
  | c :: cs, requests =>
    match c.requested with
    | none => checkRequests cs requests
    | some text =>
      match requests text with
      | some previous =>
        .error (.invalid "metadata.conflicting_target_request" c.owner
          ("Exact name '" ++ text ++ "' is also requested by " ++ previous ++
            "; set distinct backend.moonbit names for both owners"))
      | none => checkRequests cs (Function.update requests text (some c.owner))

def builtinTypes : List String :=
  ["Int", "Int16", "Int32", "Int64", "UInt", "UInt16", "UInt32", "UInt64", "Bool",
    "Double", "Float", "String", "StringView", "Char", "Byte", "Bytes", "BytesView",
    "Unit", "Array", "FixedArray", "Option", "Result"]

def builtinConstructors : List String := ["Some", "None", "Ok", "Err"]

namespace TargetNames

def withNames (plan : TargetNames) (names : List (String × String)) : TargetNames :=
  { plan with
    names := names.foldl (fun names entry => Function.update names entry.1 (some entry.2))
      plan.names }

def allocateAll (fuel : Nat) (plan : TargetNames) (values types constructors : List NamingCandidate) :
    Option TargetNames := do
  let plan ← allocateNamespace fuel plan values ∅ true
  let plan ← allocateNamespace fuel plan types builtinTypes.toFinset true
  allocateNamespace fuel plan constructors builtinConstructors.toFinset true

/-- The names of a library; there is no plan without fuel for the searches. -/
def new (fuel : Nat) (style : NamingStyle) (hints : Hints) (library : LibraryDefinition) :
    Except Invalid (Option TargetNames) := do
  let candidates ← libraryCandidates style hints library
  let values := sortByOwner candidates.values
  checkRequests values fun _ => none
  pure (allocateAll fuel ((TargetNames.empty style).withNames candidates.legacy) values
    candidates.types candidates.constructors)

end TargetNames

def comparePath : List Name → List Name → Ordering
  | [], [] => .eq
  | [], _ :: _ => .lt
  | _ :: _, [] => .gt
  | a :: as, b :: bs => (Name.compareSegments a.segments b.segments).then (comparePath as bs)

def compareFQName (a b : FQName) : Ordering :=
  (comparePath a.packageName.segments b.packageName.segments).then
    ((comparePath a.moduleName.segments b.moduleName.segments).then
      (Name.compareSegments a.localName.segments b.localName.segments))

def customType (name : FQName) : TypeDefinition → List (FQName × List Name)
  | .customTypeDefinition constructors => [(name, constructors)]
  | _ => []

def customTypes (library : LibraryDefinition) : List (FQName × List Name) :=
  library.modules.flatMap fun definition => definition.types.flatMap fun entry =>
    customType ⟨library.packageName, definition.moduleName, entry.1⟩ entry.2

def declareAll (context : String) : List FQName → List FQName → Except Invalid (List FQName)
  | [], declared => .ok declared
  | name :: names, declared => do
    refuse (name ∈ declared) (.invalid "moonbit.name_collision" context name.toCanonical)
    declareAll context names (name :: declared)

def declareTypes : List (FQName × List Name) → List FQName → Except Invalid (List FQName)
  | [], declared => .ok declared
  | (name, constructors) :: types, declared => do
    let declared ← declareAll (typeNode name) (constructorNames name (sortNames constructors))
      declared
    declareTypes types declared

/-- The constructors are declared type by type, and one that was declared before is
refused. -/
def declareConstructors (library : LibraryDefinition) : Except Invalid (List FQName) :=
  declareTypes ((customTypes library).insertionSort fun a b => (compareFQName a.1 b.1).isLE = true)
    []

def fieldOwner (shape : String) (name : Name) : String :=
  "shape:" ++ shape ++ "/field/" ++ name.toCanonical

def fieldCandidate (shape : String) (name : Name) : NamingCandidate :=
  let rendered := renderName name false
  { owner := fieldOwner shape name, role := "field", original := none, requested := none
    candidate := if keyword rendered then rendered ++ "_value" else rendered
    qualified := rendered ++ "_field", source := none
    reason := if keyword rendered then "keyword" else "automatic" }

def allocateFields (fuel : Nat) (plan : TargetNames) (shape : String) (names : List Name) :
    Option TargetNames :=
  if (plan.fields shape).isSome then some plan
  else do
    let candidates := if plan.style = .legacyHex then [] else names.map (fieldCandidate shape)
    let plan ← allocateNamespace fuel plan candidates ∅ false
    let mapped (name : Name) : Option String :=
      if name ∈ names then
        if plan.style = .legacyHex then some ("f_" ++ hex name.toCanonical)
        else plan.names (fieldOwner shape name)
      else none
    pure { plan with fields := Function.update plan.fields shape (some mapped) }

structure NameSet where
  names : List Name
  nodup : names.Nodup

namespace NameSet

def insert (set : NameSet) (name : Name) : NameSet :=
  if h : name ∈ set.names then set
  else ⟨set.names ++ [name], List.nodup_append.mpr ⟨set.nodup, List.nodup_singleton name,
    fun _ ha _ hb heq => h (List.mem_singleton.mp hb ▸ heq ▸ ha)⟩⟩

def ofList (names : List Name) : NameSet := names.foldl insert ⟨[], .nil⟩

end NameSet

mutual
def collectPatternNames : Pattern → NameSet → NameSet
  | .as _ inner name, names => collectPatternNames inner (names.insert name)
  | .tuple _ ps, names => collectPatternsNames ps names
  | .constructor _ _ ps, names => collectPatternsNames ps names
  | .headTail _ a b, names => collectPatternNames b (collectPatternNames a names)
  | .wildcard _, names | .emptyList _, names | .literal _ _, names | .unit _, names => names

def collectPatternsNames : List Pattern → NameSet → NameSet
  | [], names => names
  | p :: ps, names => collectPatternsNames ps (collectPatternNames p names)
end

mutual
/-- The locals of a value.  Definitions that are recursive have none. -/
def collectLocalNames : Value → NameSet → NameSet
  | .variable _ name, names => names.insert name
  | .lambda _ pattern body, names => collectLocalNames body (collectPatternNames pattern names)
  | .letDefinition _ name (.expressionBody inputs _ value) body, names =>
    collectLocalNames body (collectLocalNames value
      (inputs.foldl (fun names input => names.insert input.1) (names.insert name)))
  | .letDefinition _ name _ body, names => collectLocalNames body (names.insert name)
  | .apply _ a b, names => collectLocalNames b (collectLocalNames a names)
  | .tuple _ xs, names | .list _ xs, names => collectItemNames xs names
  | .record _ fields, names => collectFieldNames fields names
  | .field _ value _, names => collectLocalNames value names
  | .destructure _ pattern value body, names =>
    collectLocalNames body (collectLocalNames value (collectPatternNames pattern names))
  | .ifThenElse _ a b c, names =>
    collectLocalNames c (collectLocalNames b (collectLocalNames a names))
  | .patternMatch _ value cases, names => collectCaseNames cases (collectLocalNames value names)
  | .updateRecord _ value fields, names => collectFieldNames fields (collectLocalNames value names)
  | .literal _ _, names | .constructor _ _, names | .reference _ _, names
  | .fieldFunction _ _, names | .letRecursion _ _ _, names | .unit _, names
  | .hole _ _ _, names => names

def collectItemNames : List Value → NameSet → NameSet
  | [], names => names
  | x :: xs, names => collectItemNames xs (collectLocalNames x names)

def collectFieldNames : List (Name × Value) → NameSet → NameSet
  | [], names => names
  | (_, value) :: fields, names => collectFieldNames fields (collectLocalNames value names)

def collectCaseNames : List (Pattern × Value) → NameSet → NameSet
  | [], names => names
  | (pattern, body) :: cases, names =>
    collectCaseNames cases (collectLocalNames body (collectPatternNames pattern names))
end

structure Declaration where
  fqname : FQName
  inputs : List Name
  body : Value

structure LocalNames where
  names : Name → Option String
  used : Finset String
  plan : TargetNames
  owner : String

def localOwner (owner : String) (name : Name) : String := owner ++ "/local/" ++ name.toCanonical

def localCandidate (style : NamingStyle) (hints : String → Option (String × Option Span))
    (declaration : Declaration) (name : Name) : Except Invalid NamingCandidate := do
  validateName name
  let hint := hints name.toCanonical
  let c := candidate (localOwner (valueNode declaration.fqname) name) "local" name
    declaration.fqname.moduleName (hint.map Prod.fst) (hint.bind Prod.snd) false none
  if style = .legacyHex then do
    let text ← localName name
    pure { c with candidate := text, qualified := text ++ "_local", reason := "legacy" }
  else pure { c with qualified := c.candidate ++ "_local" }

namespace LocalNames

def keys (declaration : Declaration) : List Name :=
  sortNames (collectLocalNames declaration.body (NameSet.ofList declaration.inputs)).names

/-- The names of the locals of a declaration, apart from all names that are reserved. -/
def new (fuel : Nat) (plan : TargetNames) (hints : String → Option (String × Option Span))
    (declaration : Declaration) : Except Invalid (Option LocalNames) := do
  let owner := valueNode declaration.fqname
  let names := keys declaration
  let candidates ← names.mapM (localCandidate plan.style hints declaration)
  pure do
    let plan' ← allocateNamespace fuel plan candidates plan.reserved false
    let mapped (name : Name) : Option String :=
      if name ∈ names then plan'.names (localOwner owner name) else none
    pure { names := mapped, used := plan.reserved ∪ (names.filterMap mapped).toFinset
           plan := plan', owner }

/-- A name for a temporary: the role with the first number that is not used. -/
def fresh (fuel : Nat) (locals : LocalNames) (role : String) : Option (String × LocalNames) := do
  let name ← search (fun ordinal : Nat => role ++ "_" ++ toString ordinal) Nat.succ
    (fun text => decide (text ∈ locals.used)) fuel 1
  pure (name, { locals with
    used := insert name locals.used
    plan := { locals.plan with
      allocations := locals.plan.allocations ++
        [⟨locals.owner ++ "/temporary/" ++ name, "temporary", none, none, role, name, "fresh"⟩] } })

def freshAll (fuel : Nat) : LocalNames → List String → Option (List String × LocalNames)
  | locals, [] => some ([], locals)
  | locals, role :: roles => do
    let (name, locals) ← fresh fuel locals role
    let (names, locals) ← freshAll fuel locals roles
    pure (name :: names, locals)

end LocalNames

end Morphir.Moonbit
