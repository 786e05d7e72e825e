import Morphir.Intent.Model
import Morphir.Library.Traversal

/-!
# Revision contexts

The entities, sources and artifacts that a claim or an observation rests on, and the
comparison of contexts with them.
-/

namespace Morphir.Intent

open Traversal

inductive Freshness
  | current
  | stale
  | inconclusive
  deriving DecidableEq

structure RequiredContext where
  entities : List Id
  sources : List Id
  implementations : List Id
  actualModel : Snapshot
  actualEntities : List Snapshot
  actualSources : List Snapshot
  actualImplementations : List Snapshot
  selectedEntities : List Id
  selectedSources : List Id
  selectedImplementations : List Id
  unavailable : Bool

def includesIds (entries : List Snapshot) (required : List Id) : Bool :=
  required.all fun id => entries.any fun entry => entry.id = id

def sameSet (a b : List Snapshot) : Bool := a.length = b.length && a.all (b.contains ·)

def compareContext (recorded requested : RevisionContext) (required : RequiredContext) :
    Freshness :=
  if required.unavailable = true ∨
      ¬ includesIds recorded.entityRevisions required.entities = true ∨
      ¬ includesIds requested.entityRevisions required.entities = true ∨
      ¬ includesIds recorded.sourceRevisions required.sources = true ∨
      ¬ includesIds requested.sourceRevisions required.sources = true ∨
      ¬ includesIds recorded.implementationRevisions required.implementations = true ∨
      ¬ includesIds requested.implementationRevisions required.implementations = true then
    .inconclusive
  else if recorded.model = requested.model ∧ requested.model = required.actualModel ∧
      required.actualEntities.all (requested.entityRevisions.contains ·) = true ∧
      required.actualSources.all (requested.sourceRevisions.contains ·) = true ∧
      required.actualImplementations.all (requested.implementationRevisions.contains ·) = true ∧
      sameSet recorded.entityRevisions requested.entityRevisions = true ∧
      sameSet recorded.sourceRevisions requested.sourceRevisions = true ∧
      sameSet recorded.implementationRevisions requested.implementationRevisions = true then
    .current
  else .stale

def addId (ids : List Id) (id : Id) : List Id := if id ∈ ids then ids else ids ++ [id]

/-- Whether an entry has the identity of a snapshot in another revision. -/
def conflicts (entries : List Snapshot) (snapshot : Snapshot) : Bool :=
  entries.any fun entry => entry.id = snapshot.id && entry ≠ snapshot

def addSnapshot (entries : List Snapshot) (snapshot : Snapshot) : List Snapshot :=
  if snapshot ∈ entries then entries else entries ++ [snapshot]

namespace RequiredContext

def markUnavailable (self : RequiredContext) : RequiredContext := { self with unavailable := true }

def addActualEntity (self : RequiredContext) (snapshot : Snapshot) : RequiredContext :=
  { self with
    unavailable := self.unavailable || conflicts self.actualEntities snapshot
    actualEntities := addSnapshot self.actualEntities snapshot }

def addActualSource (self : RequiredContext) (snapshot : Snapshot) : RequiredContext :=
  { self with
    unavailable := self.unavailable || conflicts self.actualSources snapshot
    actualSources := addSnapshot self.actualSources snapshot }

def addActualImplementation (self : RequiredContext) (snapshot : Snapshot) : RequiredContext :=
  { self with
    unavailable := self.unavailable || conflicts self.actualImplementations snapshot
    actualImplementations := addSnapshot self.actualImplementations snapshot }

def includeSource (self : RequiredContext) (source : Source) : RequiredContext :=
  let self :=
    match source.document.revision with
    | some revision => self.addActualSource ⟨source.document.id, revision⟩
    | none => self.markUnavailable
  if source.resolution = .unresolved then self.markUnavailable else self

end RequiredContext

def requireSource (required : RequiredContext) (owner : Model) (reference : SourceRef) :
    RequiredContext :=
  match owner.sources.find? fun s => s.id = reference.sourceId with
  | none => required.markUnavailable
  | some found =>
    RequiredContext.includeSource
      { required with
        sources := addId required.sources found.document.id
        selectedSources := addId required.selectedSources found.document.id } found

/-- What an entity contributes to declared dependencies that are not selected. -/
def includeEntity (entities implementations : List Id) (required : RequiredContext)
    (entity : Entity) : RequiredContext :=
  let required :=
    if entity.identity.id ∈ entities then required.addActualEntity entity.identity else required
  match entity.content with
  | .implementation artifact =>
    if artifact.id ∈ implementations then required.addActualImplementation artifact else required
  | _ => required

def includeDeclaredSource (sources : List Id) (required : RequiredContext) (source : Source) :
    RequiredContext :=
  if source.document.id ∈ sources then required.includeSource source else required

def notSelected (declared : List Snapshot) (selected : List Id) : List Id :=
  (declared.filter fun entry => entry.id ∉ selected).map Snapshot.id

def includeDeclaredContext (required : RequiredContext) (owner : Model)
    (declared : RevisionContext) : RequiredContext :=
  let required := { required with
    entities := declared.entityRevisions.foldl (fun ids s => addId ids s.id) required.entities
    sources := declared.sourceRevisions.foldl (fun ids s => addId ids s.id) required.sources
    implementations :=
      declared.implementationRevisions.foldl (fun ids s => addId ids s.id)
        required.implementations }
  let entities := notSelected declared.entityRevisions required.selectedEntities
  let sources := notSelected declared.sourceRevisions required.selectedSources
  let implementations :=
    notSelected declared.implementationRevisions required.selectedImplementations
  owner.scope.foldl (fun required candidate =>
    candidate.sources.foldl (includeDeclaredSource sources)
      (candidate.entities.foldl (includeEntity entities implementations) required)) required

inductive Need
  | entity (id : Id)
  | unavailable
  | selected (identity : Snapshot)
  | source (owner : Model) (reference : SourceRef)
  | artifact (snapshot : Snapshot)

def Need.add : Need → RequiredContext → RequiredContext
  | .entity id, required => { required with entities := addId required.entities id }
  | .unavailable, required => required.markUnavailable
  | .selected identity, required =>
    let required := required.addActualEntity identity
    { required with selectedEntities := addId required.selectedEntities identity.id }
  | .source owner reference, required => requireSource required owner reference
  | .artifact snapshot, required =>
    RequiredContext.addActualImplementation
      { required with
        implementations := addId required.implementations snapshot.id
        selectedImplementations := addId required.selectedImplementations snapshot.id } snapshot

def contentSteps (owner : Model) : Content → List (Step Need ResolvedRef)
  | .sourceFragment reference => [.note (.source owner reference)]
  | .contract subject _ _ => [.visit subject]
  | .declaration _ (some binding) => [.visit binding]
  | .implementation artifact => [.note (.artifact artifact)]
  | _ => []

def follows (reference : ResolvedRef) (link : Relationship) : Bool :=
  link.subject = reference &&
    (link.predicate = .refines || link.predicate = .derivedFrom || link.predicate = .governedBy)

def reverses (reference : ResolvedRef) (link : Relationship) : Bool :=
  link.target = .resolved reference &&
    (link.predicate = .formalizes || link.predicate = .exercises || link.predicate = .implements)

def linkSteps (reference : ResolvedRef) (linkOwner : Model) (link : Relationship) :
    List (Step Need ResolvedRef) :=
  if follows reference link = true ∨ reverses reference link = true then
    link.sourceRefs.map (fun r => .note (.source linkOwner r)) ++
      (if relationshipError linkOwner link = none then [] else [.note .unavailable]) ++
      (if follows reference link = true then
        match link.target with
        | .resolved target => [.visit target]
        | .unresolved _ => [.note .unavailable]
      else []) ++
      (if reverses reference link = true then [.visit link.subject] else [])
  else []

/-- The steps of `visit` in `require_entity_context`. -/
def entitySteps (root : Model) (reference : ResolvedRef) : List (Step Need ResolvedRef) :=
  .note (.entity reference.entity.id) ::
    match resolve root reference, findModel root reference.model with
    | .ok entity, some owner =>
      .note (.selected entity.identity) ::
        (entity.sourceRefs.map (fun r => .note (.source owner r)) ++
          contentSteps owner entity.content ++
          root.scope.flatMap fun linkOwner =>
            linkOwner.relationships.flatMap (linkSteps reference linkOwner))
    | .ok entity, none => [.note (.selected entity.identity), .note .unavailable]
    | .error _, _ => [.note .unavailable]

def Content.references : Content → List ResolvedRef
  | .contract subject _ _ => [subject]
  | .declaration _ (some binding) => [binding]
  | _ => []

def Relationship.references (link : Relationship) : List ResolvedRef :=
  match link.target with
  | .resolved target => [link.subject, target]
  | .unresolved _ => [link.subject]

def Model.references (root : Model) : List ResolvedRef :=
  root.scope.flatMap fun owner =>
    owner.entities.flatMap (fun e => e.content.references) ++
      owner.relationships.flatMap Relationship.references

/-- The traversal of `require_entity_context`, with fuel for the entities. -/
def visitEntities (fuel : Nat) (root : Model) (required : RequiredContext)
    (selected : ResolvedRef) : Option (List ResolvedRef × RequiredContext) :=
  Traversal.visit (entitySteps root) Need.add fuel selected ([], required)

def enoughVisits (root : Model) : Nat := root.references.length + 2

def requireEntityContext (root : Model) (required : RequiredContext) (selected : ResolvedRef) :
    RequiredContext :=
  ((visitEntities (enoughVisits root) root required selected).map Prod.snd).getD required

def requiredContext (root model : Model) (claim : Claim) (sourceRefs : List SourceRef) :
    RequiredContext :=
  let required : RequiredContext :=
    { entities := claim.context.entityRevisions.map Snapshot.id
      sources := claim.context.sourceRevisions.map Snapshot.id
      implementations := claim.context.implementationRevisions.map Snapshot.id
      actualModel := model.identity
      actualEntities := []
      actualSources := []
      actualImplementations := []
      selectedEntities := []
      selectedSources := []
      selectedImplementations := []
      unavailable := false }
  let required := requireEntityContext root required claim.subject
  let required := sourceRefs.foldl (fun required r => requireSource required model r) required
  includeDeclaredContext required model claim.context

def clauseCandidates (owner : Model) (clause : Snapshot) : List ResolvedRef :=
  owner.scope.flatMap fun candidate =>
    (candidate.entities.filter fun entity =>
      entity.identity = clause && entity.kind = .contract).map fun entity =>
        ⟨candidate.identity, entity.identity⟩

def declareClause (evidence : Evidence) (required : RequiredContext) (clause : Snapshot) :
    RequiredContext :=
  let required := { required with entities := addId required.entities clause.id }
  if clause ∈ evidence.context.entityRevisions then required else required.markUnavailable

def requireClause (model : Model) (subject : ResolvedRef) (evidence : Evidence)
    (required : RequiredContext) (clause : Snapshot) : RequiredContext :=
  let required := declareClause evidence required clause
  match findModel model subject.model with
  | none => required.markUnavailable
  | some owner =>
    match clauseCandidates owner clause with
    | [candidate] => requireEntityContext model required candidate
    | _ => required.markUnavailable

def observationContext (model : Model) (base : RequiredContext) (linkOwner : Model)
    (link : Relationship) (entity : Entity) (evidence : Evidence) : RequiredContext :=
  let required :=
    match findModel model link.subject.model with
    | some owner => entity.sourceRefs.foldl (fun required r => requireSource required owner r) base
    | none => base
  let required :=
    link.sourceRefs.foldl (fun required r => requireSource required linkOwner r) required
  let required :=
    match evidence.observation with
    | .run clauses => clauses.foldl (requireClause model link.subject evidence) required
    | _ => required
  match findModel model link.subject.model with
  | some owner => includeDeclaredContext required owner evidence.context
  | none => required

end Morphir.Intent
