import Morphir.Intent.Context

/-!
# The facts of a required context

Every step of the requirements adds facts, and a required context is its facts in some
order.  It is unavailable when a fact says so or when two revisions of one identity are
supplied.
-/

namespace Morphir.Intent

open List RequiredContext Fact RevisionContext

inductive Dependency
  | entity
  | source
  | implementation
  deriving DecidableEq

def RevisionContext.revisions (context : RevisionContext) : Dependency → List Snapshot
  | .entity => context.entityRevisions
  | .source => context.sourceRevisions
  | .implementation => context.implementationRevisions

lemma RevisionContext.revisions_nodup (context : RevisionContext) (kind : Dependency) :
    ((context.revisions kind).map Snapshot.id).Nodup := by
  cases kind with
  | entity => exact context.entities_nodup
  | source => exact context.sources_nodup
  | implementation => exact context.implementations_nodup

lemma RevisionContext.eq_of_id (context : RevisionContext) (kind : Dependency)
    {first second : Snapshot} (hfst : first ∈ context.revisions kind)
    (hsnd : second ∈ context.revisions kind) (hid : first.id = second.id) : first = second :=
  inj_on_of_nodup_map (context.revisions_nodup kind) hfst hsnd hid

namespace RequiredContext

def ids (required : RequiredContext) : Dependency → List Id
  | .entity => required.entities
  | .source => required.sources
  | .implementation => required.implementations

def actuals (required : RequiredContext) : Dependency → List Snapshot
  | .entity => required.actualEntities
  | .source => required.actualSources
  | .implementation => required.actualImplementations

def selectedIds (required : RequiredContext) : Dependency → List Id
  | .entity => required.selectedEntities
  | .source => required.selectedSources
  | .implementation => required.selectedImplementations

end RequiredContext

/-- What a step of the requirements finds: an identity that contexts must name, a supplied
snapshot, an identity that an exact reference selects, or something that is missing. -/
inductive Fact
  | required (kind : Dependency) (id : Id)
  | actual (kind : Dependency) (snapshot : Snapshot)
  | selected (kind : Dependency) (id : Id)
  | unavailable
  deriving DecidableEq

def Contested (facts : Set Fact) : Prop :=
  ∃ kind first second, .actual kind first ∈ facts ∧ .actual kind second ∈ facts ∧
    first.id = second.id ∧ first ≠ second

structure Describes (context : RequiredContext) (model : Snapshot) (facts : Set Fact) : Prop where
  model : context.actualModel = model
  required : ∀ kind id, id ∈ context.ids kind ↔ .required kind id ∈ facts
  actual : ∀ kind snapshot, snapshot ∈ context.actuals kind ↔ .actual kind snapshot ∈ facts
  selected : ∀ kind id, id ∈ context.selectedIds kind ↔ .selected kind id ∈ facts
  unavailable : context.unavailable = true ↔ .unavailable ∈ facts ∨ Contested facts

def Fact.record : Fact → RequiredContext → RequiredContext
  | .required .entity id, r => { r with entities := addId r.entities id }
  | .required .source id, r => { r with sources := addId r.sources id }
  | .required .implementation id, r => { r with implementations := addId r.implementations id }
  | .actual .entity snapshot, r => r.addActualEntity snapshot
  | .actual .source snapshot, r => r.addActualSource snapshot
  | .actual .implementation snapshot, r => r.addActualImplementation snapshot
  | .selected .entity id, r => { r with selectedEntities := addId r.selectedEntities id }
  | .selected .source id, r => { r with selectedSources := addId r.selectedSources id }
  | .selected .implementation id, r =>
    { r with selectedImplementations := addId r.selectedImplementations id }
  | .unavailable, r => r.markUnavailable

@[simp]
lemma mem_addId {ids : List Id} {id other : Id} :
    other ∈ addId ids id ↔ other = id ∨ other ∈ ids := by
  rw [addId]
  split
  · rename_i hmem
    exact ⟨Or.inr, fun h => h.elim (fun heq => heq ▸ hmem) fun ho => ho⟩
  · rw [mem_append, mem_singleton, or_comm]

@[simp]
lemma mem_addSnapshot {entries : List Snapshot} {snapshot other : Snapshot} :
    other ∈ addSnapshot entries snapshot ↔ other = snapshot ∨ other ∈ entries := by
  rw [addSnapshot]
  split
  · rename_i hmem
    exact ⟨Or.inr, fun h => h.elim (fun heq => heq ▸ hmem) fun ho => ho⟩
  · rw [mem_append, mem_singleton, or_comm]

lemma conflicts_iff {entries : List Snapshot} {snapshot : Snapshot} :
    conflicts entries snapshot = true ↔
      ∃ entry ∈ entries, entry.id = snapshot.id ∧ entry ≠ snapshot := by
  simp [conflicts]

section

variable (fact : Fact)

section

variable (r : RequiredContext)

lemma Fact.record_ids (kind : Dependency) (id : Id) :
    id ∈ (fact.record r).ids kind ↔ .required kind id = fact ∨ id ∈ r.ids kind := by
  cases fact with
  | unavailable => cases kind <;> simp [record, ids, markUnavailable]
  | actual other snapshot =>
    cases kind <;> cases other <;>
      simp [record, ids, addActualEntity, addActualSource, addActualImplementation]
  | _ other id => cases kind <;> cases other <;> simp [record, ids]

lemma Fact.record_actuals (kind : Dependency) (snapshot : Snapshot) :
    snapshot ∈ (fact.record r).actuals kind ↔
      .actual kind snapshot = fact ∨ snapshot ∈ r.actuals kind := by
  cases fact with
  | unavailable => cases kind <;> simp [record, actuals, markUnavailable]
  | actual other snapshot =>
    cases kind <;> cases other <;>
      simp [record, actuals, addActualEntity, addActualSource, addActualImplementation]
  | _ other id => cases kind <;> cases other <;> simp [record, actuals]

lemma Fact.record_selectedIds (kind : Dependency) (id : Id) :
    id ∈ (fact.record r).selectedIds kind ↔ .selected kind id = fact ∨ id ∈ r.selectedIds kind := by
  cases fact with
  | unavailable =>
    cases kind <;>
      simp [record, selectedIds, markUnavailable]
  | actual other snapshot =>
    cases kind <;> cases other <;>
      simp [record, selectedIds, addActualEntity, addActualSource, addActualImplementation]
  | _ other id => cases kind <;> cases other <;> simp [record, selectedIds]

lemma Fact.record_unavailable :
    (fact.record r).unavailable = true ↔ r.unavailable = true ∨ .unavailable = fact ∨
      ∃ kind snapshot, .actual kind snapshot = fact ∧
        conflicts (r.actuals kind) snapshot = true := by
  cases fact with
  | unavailable => simp [record, markUnavailable]
  | actual kind snapshot =>
    cases kind <;>
      simp [record, actuals, addActualEntity, addActualSource, addActualImplementation]
  | _ kind id => cases kind <;> simp [record]

lemma Fact.record_actualModel :
    (fact.record r).actualModel = r.actualModel := by
  cases fact with
  | unavailable => rfl
  | _ kind => cases kind <;> rfl

end

end

variable {fact : Fact}

lemma contested_insert {facts : Set Fact} :
    Contested (insert fact facts) ↔
      Contested facts ∨ ∃ kind snapshot, .actual kind snapshot = fact ∧
        ∃ entry, .actual kind entry ∈ facts ∧ entry.id = snapshot.id ∧ entry ≠ snapshot := by
  constructor
  · rintro ⟨kind, first, second, hfst, hsnd, hid, hne⟩
    rcases hfst with rfl | hfst
    · rcases hsnd with heq | hsnd
      · exact absurd (Fact.actual.inj heq).2.symm hne
      · exact .inr ⟨kind, first, rfl, second, hsnd, hid.symm, hne.symm⟩
    · rcases hsnd with rfl | hsnd
      · exact .inr ⟨kind, second, rfl, first, hfst, hid, hne⟩
      · exact .inl ⟨kind, first, second, hfst, hsnd, hid, hne⟩
  · rintro (⟨kind, first, second, hfst, hsnd, hid, hne⟩ | ⟨kind, snapshot, rfl, entry, hent,
      hid, hne⟩)
    · exact ⟨kind, first, second, .inr hfst, .inr hsnd, hid, hne⟩
    · exact ⟨kind, entry, snapshot, .inr hent, .inl rfl, hid, hne⟩

namespace Describes

variable {context : RequiredContext} {model : Snapshot} {facts : Set Fact}

lemma record (h : Describes context model facts) (fact : Fact) :
    Describes (fact.record context) model (insert fact facts) where
  model := (fact.record_actualModel context).trans h.model
  required kind id := by rw [Fact.record_ids, Set.mem_insert_iff, h.required]
  actual kind snapshot := by rw [Fact.record_actuals, Set.mem_insert_iff, h.actual]
  selected kind id := by rw [Fact.record_selectedIds, Set.mem_insert_iff, h.selected]
  unavailable := by
    rw [Fact.record_unavailable, contested_insert, h.unavailable, Set.mem_insert_iff]
    simp only [conflicts_iff, h.actual]
    tauto

end Describes

def recordAll (facts : List Fact) (context : RequiredContext) : RequiredContext :=
  facts.foldl (fun context fact => fact.record context) context

lemma recordAll_append (front back : List Fact) (context : RequiredContext) :
    recordAll (front ++ back) context = recordAll back (recordAll front context) :=
  foldl_append

lemma foldl_recordAll {α : Type} {step : RequiredContext → α → RequiredContext}
    {found : α → List Fact} (h : ∀ context a, step context a = recordAll (found a) context)
    (items : List α) (context : RequiredContext) :
    items.foldl step context = recordAll (items.flatMap found) context := by
  induction items generalizing context with
  | nil => rfl
  | cons a items ih => rw [foldl_cons, ih, h, flatMap_cons, recordAll_append]

lemma Describes.recordAll {context : RequiredContext} {model : Snapshot} {facts : Set Fact}
    (h : Describes context model facts) (found : List Fact) :
    Describes (recordAll found context) model (facts ∪ {f | f ∈ found}) := by
  induction found generalizing context facts with
  | nil => simpa [Intent.recordAll] using h
  | cons fact found ih =>
    have hr := ih (h.record fact)
    have hset : insert fact facts ∪ {f | f ∈ found} = facts ∪ {f | f ∈ fact :: found} := by
      ext f
      simp only [Set.mem_union, Set.mem_insert_iff, Set.mem_ofPred_eq, mem_cons]
      tauto
    rw [hset] at hr
    exact hr

def documentFacts (source : Source) : List Fact :=
  (match source.document.revision with
    | some revision => [.actual .source ⟨source.document.id, revision⟩]
    | none => [.unavailable]) ++
  if source.resolution = .unresolved then [.unavailable] else []

def sourceFacts (owner : Model) (reference : SourceRef) : List Fact :=
  match owner.sources.find? fun s => s.id = reference.sourceId with
  | none => [.unavailable]
  | some found =>
    .required .source found.document.id :: .selected .source found.document.id ::
      documentFacts found

def Need.facts : Need → List Fact
  | .entity id => [.required .entity id]
  | .unavailable => [.unavailable]
  | .selected identity => [.actual .entity identity, .selected .entity identity.id]
  | .source owner reference => sourceFacts owner reference
  | .artifact snapshot =>
    [.required .implementation snapshot.id, .selected .implementation snapshot.id,
      .actual .implementation snapshot]

variable (entries : List Snapshot) (context : RequiredContext)

lemma includeSource_eq (source : Source) :
    context.includeSource source = recordAll (documentFacts source) context := by
  rw [includeSource, documentFacts]
  cases source.document.revision with
  | none => by_cases h : source.resolution = .unresolved <;> simp [h, recordAll, Fact.record]
  | some revision =>
    by_cases h : source.resolution = .unresolved <;> simp [h, recordAll, Fact.record]

lemma requireSource_eq (owner : Model) (reference : SourceRef) :
    requireSource context owner reference = recordAll (sourceFacts owner reference) context := by
  rw [requireSource, sourceFacts]
  cases owner.sources.find? fun s => s.id = reference.sourceId with
  | none => rfl
  | some found => exact includeSource_eq _ found

lemma Need.add_eq (need : Need) (context : RequiredContext) :
    need.add context = recordAll need.facts context := by
  cases need with
  | source owner reference => exact requireSource_eq context owner reference
  | _ => rfl

lemma applyNotes_eq (needs : List Need) (context : RequiredContext) :
    Traversal.applyNotes Need.add needs context = recordAll (needs.flatMap Need.facts) context :=
  foldl_recordAll (fun context need => need.add_eq context) needs context

/-- The identities that a context declares and no exact reference selects. -/
def Unselected (facts : Set Fact) (declared : RevisionContext) (kind : Dependency) (id : Id) :
    Prop :=
  (∃ entry ∈ declared.revisions kind, entry.id = id) ∧ .selected kind id ∉ facts

/-- What the models of a closure contribute to declared dependencies that are not selected. -/
inductive Declared (facts : Set Fact) (owner : Model) (declared : RevisionContext) : Fact → Prop
  | required (kind : Dependency) (entry : Snapshot) :
      entry ∈ declared.revisions kind → Declared facts owner declared (.required kind entry.id)
  | entity (candidate : Model) (entity : Entity) :
      candidate ∈ owner.scope → entity ∈ candidate.entities →
      Unselected facts declared .entity entity.identity.id →
      Declared facts owner declared (.actual .entity entity.identity)
  | implementation (candidate : Model) (entity : Entity) (artifact : Snapshot) :
      candidate ∈ owner.scope → entity ∈ candidate.entities →
      entity.content = .implementation artifact →
      Unselected facts declared .implementation artifact.id →
      Declared facts owner declared (.actual .implementation artifact)
  | source (candidate : Model) (source : Source) (fact : Fact) :
      candidate ∈ owner.scope → source ∈ candidate.sources →
      Unselected facts declared .source source.document.id → fact ∈ documentFacts source →
      Declared facts owner declared fact

def entityFacts (entities implementations : List Id) (entity : Entity) : List Fact :=
  (if entity.identity.id ∈ entities then [.actual .entity entity.identity] else []) ++
    match entity.content with
    | .implementation artifact =>
      if artifact.id ∈ implementations then [.actual .implementation artifact] else []
    | _ => []

lemma includeEntity_eq (entities implementations : List Id) (context : RequiredContext)
    (entity : Entity) : includeEntity entities implementations context entity =
      recordAll (entityFacts entities implementations entity) context := by
  rw [includeEntity, entityFacts]
  by_cases hid : entity.identity.id ∈ entities
  · simp only [if_pos hid]
    cases entity.content with
    | implementation artifact =>
      by_cases hart : artifact.id ∈ implementations <;> simp [hart, recordAll, Fact.record]
    | _ => rfl
  · simp only [if_neg hid]
    cases entity.content with
    | implementation artifact =>
      by_cases hart : artifact.id ∈ implementations <;> simp [hart, recordAll, Fact.record]
    | _ => rfl

lemma includeDeclaredSource_eq (sources : List Id) (context : RequiredContext) (source : Source) :
    includeDeclaredSource sources context source =
      recordAll (if source.document.id ∈ sources then documentFacts source else []) context := by
  rw [includeDeclaredSource]
  by_cases hid : source.document.id ∈ sources
  · rw [if_pos hid, if_pos hid, includeSource_eq]
  · rw [if_neg hid, if_neg hid]
    rfl

def requiredFacts (declared : RevisionContext) : List Fact :=
  [Dependency.entity, .source, .implementation].flatMap fun kind =>
    (declared.revisions kind).map fun entry => .required kind entry.id

lemma mem_requiredFacts {declared : RevisionContext} :
    fact ∈ requiredFacts declared ↔
      ∃ kind, ∃ entry ∈ declared.revisions kind, .required kind entry.id = fact := by
  constructor
  · intro h
    obtain ⟨kind, -, h⟩ := mem_flatMap.mp h
    obtain ⟨entry, hent, rfl⟩ := mem_map.mp h
    exact ⟨kind, entry, hent, rfl⟩
  · rintro ⟨kind, entry, hent, rfl⟩
    refine mem_flatMap.mpr ⟨kind, ?_, mem_map.mpr ⟨entry, hent, rfl⟩⟩
    cases kind <;> simp

def candidateFacts (entities sources implementations : List Id) (candidate : Model) : List Fact :=
  candidate.entities.flatMap (entityFacts entities implementations) ++
    candidate.sources.flatMap fun source =>
      if source.document.id ∈ sources then documentFacts source else []

lemma recordAll_entities :
    recordAll (entries.map fun entry => .required .entity entry.id) context =
      { context with entities := entries.foldl (fun ids s => addId ids s.id) context.entities } := by
  induction entries generalizing context with
  | nil => rfl
  | cons entry entries ih => exact ih _

lemma recordAll_sources :
    recordAll (entries.map fun entry => .required .source entry.id) context =
      { context with sources := entries.foldl (fun ids s => addId ids s.id) context.sources } := by
  induction entries generalizing context with
  | nil => rfl
  | cons entry entries ih => exact ih _

lemma recordAll_implementations :
    recordAll (entries.map fun entry => .required .implementation entry.id) context =
      { context with
        implementations :=
          entries.foldl (fun ids s => addId ids s.id) context.implementations } := by
  induction entries generalizing context with
  | nil => rfl
  | cons entry entries ih => exact ih _

lemma recordAll_required (declared : RevisionContext) (context : RequiredContext) :
    recordAll (requiredFacts declared) context = { context with
      entities := declared.entityRevisions.foldl (fun ids s => addId ids s.id) context.entities
      sources := declared.sourceRevisions.foldl (fun ids s => addId ids s.id) context.sources
      implementations :=
        declared.implementationRevisions.foldl (fun ids s => addId ids s.id)
          context.implementations } := by
  have hspl : requiredFacts declared =
      (declared.entityRevisions.map fun entry => .required .entity entry.id) ++
        ((declared.sourceRevisions.map fun entry => .required .source entry.id) ++
          declared.implementationRevisions.map fun entry => .required .implementation entry.id) := by
    simp [requiredFacts, revisions]
  rw [hspl, recordAll_append, recordAll_append, recordAll_entities, recordAll_sources,
    recordAll_implementations]

lemma includeDeclaredContext_eq (owner : Model) (declared : RevisionContext) :
    includeDeclaredContext context owner declared =
      recordAll (requiredFacts declared ++ owner.scope.flatMap (candidateFacts
        (notSelected declared.entityRevisions context.selectedEntities)
        (notSelected declared.sourceRevisions context.selectedSources)
        (notSelected declared.implementationRevisions context.selectedImplementations)))
        context := by
  rw [recordAll_append, recordAll_required]
  apply foldl_recordAll
  intro context candidate
  rw [candidateFacts, recordAll_append]
  rw [foldl_recordAll fun context source => includeDeclaredSource_eq _ context source]
  rw [foldl_recordAll fun context entity => includeEntity_eq _ _ context entity]

lemma mem_notSelected {declared : List Snapshot} {selected : List Id} {id : Id} :
    id ∈ notSelected declared selected ↔ (∃ entry ∈ declared, entry.id = id) ∧ id ∉ selected := by
  simp only [notSelected, mem_map, mem_filter, decide_eq_true_eq]
  constructor
  · rintro ⟨entry, ⟨hent, hid⟩, rfl⟩
    exact ⟨⟨entry, hent, rfl⟩, hid⟩
  · rintro ⟨⟨entry, hent, rfl⟩, hid⟩
    exact ⟨entry, ⟨hent, hid⟩, rfl⟩

lemma mem_candidateFacts {entities sources implementations : List Id} {candidate : Model} :
    fact ∈ candidateFacts entities sources implementations candidate ↔
      (∃ entity ∈ candidate.entities,
        entity.identity.id ∈ entities ∧ fact = .actual .entity entity.identity) ∨
      (∃ entity ∈ candidate.entities, ∃ artifact, entity.content = .implementation artifact ∧
        artifact.id ∈ implementations ∧ fact = .actual .implementation artifact) ∨
      ∃ source ∈ candidate.sources, source.document.id ∈ sources ∧ fact ∈ documentFacts source := by
  have hety (entity : Entity) : fact ∈ entityFacts entities implementations entity ↔
      (entity.identity.id ∈ entities ∧ fact = .actual .entity entity.identity) ∨
      ∃ artifact, entity.content = .implementation artifact ∧
        artifact.id ∈ implementations ∧ fact = .actual .implementation artifact := by
    rw [entityFacts]
    cases entity.content <;> simp
  simp only [candidateFacts, mem_append, mem_flatMap, hety,
    mem_ite_nil_right, and_or_left, exists_or, or_assoc]

namespace Describes

variable {context : RequiredContext} {model : Snapshot} {facts : Set Fact}

section

variable (h : Describes context model facts)

include h

lemma unselected (declared : RevisionContext) (kind : Dependency) (id : Id) :
    id ∈ notSelected (declared.revisions kind) (context.selectedIds kind) ↔
      Unselected facts declared kind id := by
  rw [mem_notSelected, Unselected, h.selected]

lemma mem_declaredFacts {owner : Model} {declared : RevisionContext} :
    fact ∈ requiredFacts declared ++ owner.scope.flatMap (candidateFacts
        (notSelected declared.entityRevisions context.selectedEntities)
        (notSelected declared.sourceRevisions context.selectedSources)
        (notSelected declared.implementationRevisions context.selectedImplementations)) ↔
      Declared facts owner declared fact := by
  have hety (id : Id) := h.unselected declared .entity id
  have hsrc (id : Id) := h.unselected declared .source id
  have himp (id : Id) := h.unselected declared .implementation id
  simp only [revisions, selectedIds] at hety hsrc
  simp only [revisions, selectedIds] at himp
  simp only [mem_append, mem_requiredFacts, mem_flatMap, mem_candidateFacts, hety, hsrc, himp]
  constructor
  · rintro (⟨kind, entry, hent, rfl⟩ | ⟨candidate, hcd, hft⟩)
    · exact .required kind entry hent
    · rcases hft with ⟨entity, hmem, hid, rfl⟩ | ⟨entity, hmem, artifact, hct, hid, rfl⟩ |
        ⟨source, hmem, hid, hft⟩
      · exact .entity candidate entity hcd hmem hid
      · exact .implementation candidate entity artifact hcd hmem hct hid
      · exact .source candidate source fact hcd hmem hid hft
  · intro hft
    cases hft with
    | required kind entry hent => exact .inl ⟨kind, entry, hent, rfl⟩
    | entity candidate entity hcd hmem hid =>
      exact .inr ⟨candidate, hcd, .inl ⟨entity, hmem, hid, rfl⟩⟩
    | implementation candidate entity artifact hcd hmem hct hid =>
      exact .inr ⟨candidate, hcd, .inr (.inl ⟨entity, hmem, artifact, hct, hid, rfl⟩)⟩
    | source candidate source _ hcd hmem hid hft =>
      exact .inr ⟨candidate, hcd, .inr (.inr ⟨source, hmem, hid, hft⟩)⟩

lemma includeDeclaredContext (owner : Model) (declared : RevisionContext) :
    Describes (includeDeclaredContext context owner declared) model
      (facts ∪ {f | Declared facts owner declared f}) := by
  rw [includeDeclaredContext_eq]
  have hres := h.recordAll (requiredFacts declared ++ owner.scope.flatMap (candidateFacts
        (notSelected declared.entityRevisions context.selectedEntities)
        (notSelected declared.sourceRevisions context.selectedSources)
        (notSelected declared.implementationRevisions context.selectedImplementations)))
  simpa only [h.mem_declaredFacts] using hres

end

end Describes

end Morphir.Intent
