import Morphir.Intent.Context

/-!
# Inspection and assessment

The diagnostics of a model and of the models inside it, and the currency of a claim and
of the observations that support or contradict it.
-/

namespace Morphir.Intent

open Traversal

structure Diagnostic where
  code : DiagnosticCode
  owner : Id
  path : String

def indexed {α β : Type} (path : String) (items : List α) (f : String → α → List β) : List β :=
  (items.mapIdx fun index item => f (path ++ "/" ++ toString index) item).flatten

/-- The identities of a model with their paths, in the order in which `identity` is called. -/
def identities (model : Model) : List (Id × String) :=
  indexed "/sources" model.sources (fun path s => [(s.id, path)]) ++
    indexed "/entities" model.entities (fun path e => [(e.identity.id, path)]) ++
    indexed "/relationships" model.relationships fun path r => [(r.id, path)]

def repeated (report : Id → String → Diagnostic) : List Id → List (Id × String) → List Diagnostic
  | _, [] => []
  | seen, (id, path) :: rest =>
    (if id ∈ seen then [report id path] else []) ++ repeated report (seen ++ [id]) rest

def duplicateIdentities (model : Model) : List Diagnostic :=
  repeated (fun id path => ⟨.duplicateIdentity, id, path⟩) [] (identities model)

def inspectRefs (model : Model) (references : List SourceRef) (owner : Id) (path : String) :
    List Diagnostic :=
  indexed path references fun path reference =>
    if sourceRefValid model reference = true then [] else [⟨.missingSourceFragment, owner, path⟩]

def inspectFragments (path : String) (source : Source) : List Diagnostic :=
  repeated (fun _ path => ⟨.invalidSource, source.id, path⟩) []
    (indexed (path ++ "/fragments") source.fragments fun path anchor => [(anchor, path)])

def inspectSource (path : String) (source : Source) : List Diagnostic :=
  (if source.document.revision = none then [⟨.sourceUnpinned, source.id, path ++ "/document"⟩]
    else []) ++
  (match source.resolution with
    | .retained =>
      if source.fragments.isEmpty = true then
        [⟨.invalidSource, source.id, path ++ "/fragments"⟩]
      else []
    | .unresolved => [⟨.unresolvedReference, source.id, path⟩]) ++
  inspectFragments path source

def clauseFits (kind : ClauseKind) (subject : Entity) : Bool :=
  match kind, subject.content with
  | .refinement, .declaration .type _ | .invariant, .declaration .type _
  | .precondition, .declaration .function _ | .postcondition, .declaration .function _ => true
  | _, _ => false

/-- The diagnostic of a reference that must resolve to an entity that fits. -/
def inspectReference (model : Model) (reference : ResolvedRef) (fits : Entity → Bool) (owner : Id)
    (path : String) : List Diagnostic :=
  match resolve model reference with
  | .error code => [⟨code, owner, path⟩]
  | .ok entity => if fits entity = true then [] else [⟨.relationshipKind, owner, path⟩]

def Expression.gap : Expression → DiagnosticCode
  | .unresolved => .unresolvedReference
  | .resolved => .unsupportedSemantics

def inspectContent (model : Model) (owner : Id) (path : String) : Content → List Diagnostic
  | .sourceFragment reference =>
    if sourceRefValid model reference = true then []
    else [⟨.missingSourceFragment, owner, path ++ "/content"⟩]
  | .declaration _ none => [⟨.implementationUnbound, owner, path⟩]
  | .declaration _ (some binding) =>
    inspectReference model binding (fun e => e.kind = .implementation) owner
      (path ++ "/content/binding")
  | .contract subject kind expression =>
    inspectReference model subject (clauseFits kind) owner (path ++ "/content/subject") ++
      [⟨expression.gap, owner, path ++ "/content/expression"⟩]
  | .claim claim =>
    inspectReference model claim.subject (fun _ => true) owner (path ++ "/content/subject")
  | _ => []

def inspectEntity (model : Model) (path : String) (entity : Entity) : List Diagnostic :=
  inspectRefs model entity.sourceRefs entity.identity.id (path ++ "/sourceRefs") ++
    inspectContent model entity.identity.id path entity.content

def inspectRelationship (model : Model) (path : String) (relationship : Relationship) :
    List Diagnostic :=
  inspectRefs model relationship.sourceRefs relationship.id (path ++ "/sourceRefs") ++
    match relationshipError model relationship with
    | some code => [⟨code, relationship.id, path⟩]
    | none => []

def evidenceLinks (root : Model) : List (Model × Relationship) :=
  (usableLinks root).filter fun entry =>
    entry.2.predicate = .supports || entry.2.predicate = .contradicts

def linksTo (predicate : Predicate) (target : ResolvedRef) (link : Relationship) : Bool :=
  link.predicate = predicate && link.target = .resolved target

def inspectRequirement (root model : Model) (path : String) (entity : Entity) :
    List Diagnostic :=
  let links := (usableLinks root).map Prod.snd
  let reference : ResolvedRef := ⟨model.identity, entity.identity⟩
  let contracts := links.filter (linksTo .formalizes reference)
  let claims := model.entities.filter fun e =>
    match e.content with
    | .claim claim => claim.subject = reference
    | _ => false
  (if contracts.isEmpty = true then [⟨.missingFormalization, entity.identity.id, path⟩] else []) ++
  (if contracts.any (fun c => links.any (linksTo .exercises c.subject)) = true then []
    else [⟨.missingExamples, entity.identity.id, path⟩]) ++
  (if claims.any (fun claim => (evidenceLinks root).any fun entry =>
      entry.2.target = .resolved ⟨model.identity, claim.identity⟩) = true then []
    else [⟨.missingEvidence, entity.identity.id, path⟩])

def inspectObservation (root : Model) (required : RequiredContext) (claim : Claim) (path : String)
    (entry : Model × Relationship) : List Diagnostic :=
  match resolve entry.1 entry.2.subject with
  | .error _ => []
  | .ok entity =>
    match entity.content with
    | .evidence evidence =>
      match compareContext evidence.context claim.context
          (observationContext root required entry.1 entry.2 entity evidence) with
      | .current => []
      | .stale => [⟨.staleEvidence, entity.identity.id, path ++ "/content/context"⟩]
      | .inconclusive => [⟨.inconclusiveEvidence, entity.identity.id, path ++ "/content/context"⟩]
    | _ => []

def inspectClaim (root model : Model) (path : String) (entity : Entity) : List Diagnostic :=
  match entity.content with
  | .claim claim =>
    let observations := (evidenceLinks root).filter fun entry =>
      entry.2.target = .resolved ⟨model.identity, entity.identity⟩
    (if observations.isEmpty = true then [⟨.missingEvidence, entity.identity.id, path⟩]
      else []) ++
      observations.flatMap (inspectObservation root
        (requiredContext root model claim entity.sourceRefs) claim path)
  | _ => []

def inspectGaps (root model : Model) (path : String) (entity : Entity) : List Diagnostic :=
  (if entity.kind = .requirement then inspectRequirement root model path entity else []) ++
    inspectClaim root model path entity

/-- `inspect_local`, the duplicate identities before the other diagnostics. -/
def inspectLocal (root model : Model) : List Diagnostic :=
  duplicateIdentities model ++ indexed "/sources" model.sources inspectSource ++
    indexed "/entities" model.entities (inspectEntity model) ++
    indexed "/relationships" model.relationships (inspectRelationship model) ++
    indexed "/entities" model.entities (inspectGaps root model)

def inspect (model : Model) : List Diagnostic :=
  ((modelClosure model).found.flatMap fun entry =>
    (inspectLocal model entry.1).map fun diagnostic =>
      { diagnostic with path := entry.2 ++ diagnostic.path }) ++
    (modelClosure model).duplicates.map fun entry => ⟨.duplicateIdentity, entry.1.id, entry.2⟩

def hasErrors (diagnostics : List Diagnostic) : Bool := diagnostics.any fun d => d.code.isError

inductive Polarity
  | supporting
  | contradicting
  deriving DecidableEq

inductive EvidenceAvailability
  | unknown
  | present
  | invalidClaim
  deriving DecidableEq

structure EvidenceAssessment where
  relationshipModel : Snapshot
  relationship : Id
  reference : ResolvedRef
  polarity : Polarity
  evidence : Evidence
  freshness : Freshness

structure ClaimAssessment where
  claim : ResolvedRef
  claimFreshness : Freshness
  availability : EvidenceAvailability
  observations : List EvidenceAssessment
  inspection : List Diagnostic

def assessObservation (model : Model) (required : RequiredContext) (requested : RevisionContext)
    (entry : Model × Relationship) : Option EvidenceAssessment :=
  match resolve model entry.2.subject with
  | .error _ => none
  | .ok entity =>
    match entity.content with
    | .evidence evidence =>
      some {
        relationshipModel := entry.1.identity
        relationship := entry.2.id
        reference := entry.2.subject
        polarity := if entry.2.predicate = .supports then .supporting else .contradicting
        evidence := evidence
        freshness := compareContext evidence.context requested
          (observationContext model required entry.1 entry.2 entity evidence) }
    | _ => none

def assessClaim (model : Model) (reference : ResolvedRef) (requested : RevisionContext) :
    ClaimAssessment :=
  let invalid : ClaimAssessment := ⟨reference, .inconclusive, .invalidClaim, [], inspect model⟩
  if hasErrors (inspect model) = true then invalid
  else
    match resolve model reference, findModel model reference.model with
    | .ok entity, some owner =>
      match entity.content with
      | .claim claim =>
        let required := requiredContext model owner claim entity.sourceRefs
        let observations := ((evidenceLinks model).filter fun entry =>
          entry.2.target = .resolved reference).filterMap
            (assessObservation model required requested)
        { claim := reference
          claimFreshness := compareContext claim.context requested required
          availability := if observations.isEmpty = true then .unknown else .present
          observations := observations
          inspection := inspect model }
      | _ => invalid
    | _, _ => invalid

end Morphir.Intent
