import Mathlib

/-!
# Models of intent

Records of intent, requirements, contracts, claims and evidence, and the links that
models assert between them.  Values that no inspection reads are left out.
-/

namespace Morphir.Intent

structure Id where
  value : String
  nonempty : value ≠ ""
  deriving DecidableEq

structure Revision where
  value : String
  nonempty : value ≠ ""
  deriving DecidableEq

structure Snapshot where
  id : Id
  revision : Revision
  deriving DecidableEq

structure ResolvedRef where
  model : Snapshot
  entity : Snapshot
  deriving DecidableEq

structure SourceRef where
  sourceId : Id
  anchor : Id
  deriving DecidableEq

structure Document where
  id : Id
  revision : Option Revision
  deriving DecidableEq

inductive SourceResolution
  | retained
  | unresolved
  deriving DecidableEq

structure Source where
  id : Id
  document : Document
  resolution : SourceResolution
  fragments : List Id

/-- A dependency set without an identity twice in one of its lists. -/
structure RevisionContext where
  model : Snapshot
  entityRevisions : List Snapshot
  sourceRevisions : List Snapshot
  implementationRevisions : List Snapshot
  entities_nodup : (entityRevisions.map Snapshot.id).Nodup
  sources_nodup : (sourceRevisions.map Snapshot.id).Nodup
  implementations_nodup : (implementationRevisions.map Snapshot.id).Nodup

inductive DeclarationRole
  | function
  | type
  | field
  | parameter
  | result
  deriving DecidableEq

inductive ClauseKind
  | refinement
  | invariant
  | precondition
  | postcondition
  deriving DecidableEq

inductive Expression
  | unresolved
  | resolved
  deriving DecidableEq

structure Claim where
  subject : ResolvedRef
  context : RevisionContext

/-- `Observation`: a run has the snapshots of its clauses. -/
inductive Observation
  | run (clauses : List Snapshot)
  | analysis
  | review

structure Evidence where
  context : RevisionContext
  observation : Observation

inductive Content
  | intent
  | requirement
  | sourceFragment (reference : SourceRef)
  | declaration (role : DeclarationRole) (binding : Option ResolvedRef)
  | contract (subject : ResolvedRef) (kind : ClauseKind) (expression : Expression)
  | scenario
  | implementation (artifact : Snapshot)
  | claim (claim : Claim)
  | evidence (evidence : Evidence)

structure Entity where
  identity : Snapshot
  sourceRefs : List SourceRef
  content : Content

inductive EntityKind
  | intent
  | requirement
  | sourceFragment
  | declaration
  | contract
  | scenario
  | implementation
  | claim
  | evidence
  deriving DecidableEq

def Entity.kind (entity : Entity) : EntityKind :=
  match entity.content with
  | .intent => .intent
  | .requirement => .requirement
  | .sourceFragment _ => .sourceFragment
  | .declaration _ _ => .declaration
  | .contract _ _ _ => .contract
  | .scenario => .scenario
  | .implementation _ => .implementation
  | .claim _ => .claim
  | .evidence _ => .evidence

inductive Predicate
  | derivedFrom
  | refines
  | formalizes
  | governedBy
  | exercises
  | implements
  | supports
  | contradicts
  deriving DecidableEq

def Predicate.signature : Predicate → EntityKind × EntityKind
  | .derivedFrom => (.requirement, .sourceFragment)
  | .refines => (.requirement, .intent)
  | .formalizes => (.contract, .requirement)
  | .governedBy => (.declaration, .contract)
  | .exercises => (.scenario, .contract)
  | .implements => (.implementation, .declaration)
  | .supports | .contradicts => (.evidence, .claim)

/-- `EntityRef`: a target that is not resolved has its expected kind. -/
inductive EntityRef
  | resolved (reference : ResolvedRef)
  | unresolved (kind : EntityKind)
  deriving DecidableEq

structure Relationship where
  id : Id
  predicate : Predicate
  subject : ResolvedRef
  target : EntityRef
  sourceRefs : List SourceRef

structure Model where
  identity : Snapshot
  sources : List Source
  entities : List Entity
  relationships : List Relationship
  dependencies : List Model

end Morphir.Intent

/-!
## Closures and links

The supplied models of a root, the resolution of references in them, and the errors of
links.
-/

namespace Morphir.Intent

inductive DiagnosticCode
  | duplicateIdentity
  | relationshipKind
  | missingResolvedTarget
  | referenceRevision
  | missingSourceFragment
  | invalidSource
  | unresolvedReference
  | sourceUnpinned
  | missingFormalization
  | missingExamples
  | missingEvidence
  | staleEvidence
  | inconclusiveEvidence
  | implementationUnbound
  | unsupportedSemantics
  deriving DecidableEq

def DiagnosticCode.isError : DiagnosticCode → Bool
  | .duplicateIdentity | .relationshipKind | .missingResolvedTarget | .referenceRevision
  | .missingSourceFragment | .invalidSource => true
  | _ => false

mutual

def Model.nested : Model → List Model
  | ⟨identity, sources, entities, relationships, dependencies⟩ =>
    ⟨identity, sources, entities, relationships, dependencies⟩ :: Model.nestedAll dependencies

def Model.nestedAll : List Model → List Model
  | [] => []
  | model :: models => model.nested ++ Model.nestedAll models

end

/-- The models found with their paths, and the snapshots found again. -/
structure Closure where
  found : List (Model × String)
  duplicates : List (Snapshot × String)

def dependencyPaths (model : Model) (path : String) : List (Model × String) :=
  model.dependencies.mapIdx fun i dependency => (dependency, path ++ "/dependencies/" ++ toString i)

/-- The loop of `model_closure` over the models that are pending. -/
def closureLoop : Nat → List (Model × String) → Closure → Closure
  | 0, _, result => result
  | _, [], result => result
  | fuel + 1, (current, path) :: pending, result =>
    if result.found.any (fun entry => entry.1.identity = current.identity) = true then
      closureLoop fuel pending
        { result with duplicates := result.duplicates ++ [(current.identity, path)] }
    else
      closureLoop fuel (pending ++ dependencyPaths current path)
        { result with found := result.found ++ [(current, path)] }

/-- `model_closure`: the loop meets each model inside the root once at most. -/
def modelClosure (model : Model) : Closure := closureLoop model.nested.length [(model, "")] ⟨[], []⟩

def Model.scope (model : Model) : List Model := (modelClosure model).found.map Prod.fst

def findModel (model : Model) (identity : Snapshot) : Option Model :=
  model.scope.find? fun candidate => candidate.identity = identity

def resolve (model : Model) (reference : ResolvedRef) : Except DiagnosticCode Entity :=
  match findModel model reference.model with
  | none => .error .referenceRevision
  | some owner =>
    match owner.entities.filter fun e => e.identity.id = reference.entity.id with
    | [] => .error .missingResolvedTarget
    | [entity] =>
      if entity.identity ≠ reference.entity then .error .referenceRevision else .ok entity
    | _ => .error .duplicateIdentity

/-- The error of a link whose endpoints resolve to entities of the right kinds. -/
def endpointError (relationship : Relationship) (subject target : Entity) :
    Option DiagnosticCode :=
  match relationship.predicate with
  | .governedBy =>
    match subject.content, target.content with
    | .declaration role _, .contract contractSubject _ _ =>
      if (role = .function ∨ role = .type) ∧ contractSubject = relationship.subject then none
      else some .relationshipKind
    | _, _ => some .relationshipKind
  | .implements =>
    match target.content with
    | .declaration .function _ => none
    | _ => some .relationshipKind
  | _ => none

/-- The error of the target of a link whose subject resolves to an entity of the right kind. -/
def targetError (model : Model) (relationship : Relationship) (subject : Entity) :
    Option DiagnosticCode :=
  let expectedTarget := relationship.predicate.signature.2
  match relationship.target with
  | .unresolved kind =>
    if kind ≠ expectedTarget then some .relationshipKind else some .unresolvedReference
  | .resolved reference =>
    match resolve model reference with
    | .error code => some code
    | .ok target =>
      if target.kind ≠ expectedTarget then some .relationshipKind
      else endpointError relationship subject target

def relationshipError (model : Model) (relationship : Relationship) : Option DiagnosticCode :=
  match resolve model relationship.subject with
  | .error code => some code
  | .ok subject =>
    if subject.kind ≠ relationship.predicate.signature.1 then some .relationshipKind
    else targetError model relationship subject

def sourceRefValid (model : Model) (reference : SourceRef) : Bool :=
  match model.sources.filter fun s => s.id = reference.sourceId with
  | [source] => (source.fragments.filter fun anchor => anchor = reference.anchor).length = 1
  | _ => false

def usableRelationships (model : Model) : List Relationship :=
  model.relationships.filter fun r =>
    (model.relationships.filter fun other => other.id = r.id).length = 1 &&
      relationshipError model r = none && r.sourceRefs.all (sourceRefValid model)

def usableLinks (model : Model) : List (Model × Relationship) :=
  model.scope.flatMap fun owner => (usableRelationships owner).map fun link => (owner, link)

end Morphir.Intent
