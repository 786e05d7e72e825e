import Morphir.Intent.OrderFacts

/-!
# Freshness of claims and observations

What a current verdict of an assessment says, and that the verdicts do not depend on the
order of models and contexts.
-/

namespace Morphir.Intent

open Relation Reordering List

def ClaimUpheld (root : Model) (reference : ResolvedRef) (requested : RevisionContext) : Prop :=
  ∃ owner entity claim, Supplies root reference owner entity ∧ entity.content = .claim claim ∧
    Upholds root (claimBasis owner claim entity.sourceRefs) owner.identity claim.context requested

/-- The evidence of an assessment stands in a model, a link asserts it of the claim, its
context is upheld, and each clause of its run is declared and is one contract. -/
def ObservationUpheld (root : Model) (reference : ResolvedRef) (requested : RevisionContext)
    (assessment : EvidenceAssessment) : Prop :=
  ∃ owner entity claim linkOwner link evidenceOwner evidenceEntity,
    Supplies root reference owner entity ∧ entity.content = .claim claim ∧
    (Asserted root linkOwner link ∧ linkOwner.identity = assessment.relationshipModel ∧
      link.id = assessment.relationship ∧ link.subject = assessment.reference ∧
      link.target = .resolved reference) ∧
    Supplies root assessment.reference evidenceOwner evidenceEntity ∧
    evidenceEntity.content = .evidence assessment.evidence ∧
    Upholds root (observationBasis (claimBasis owner claim entity.sourceRefs) evidenceOwner linkOwner
      link evidenceEntity assessment.evidence) owner.identity assessment.evidence.context
      requested ∧
    ∀ clause ∈ assessment.evidence.observation.clauses,
      clause ∈ assessment.evidence.context.entityRevisions ∧
        ∃ contract, ∀ other, ContractAt evidenceOwner clause other ↔ other = contract

section Sound

variable {root : Model} (h : WellFormed root)
include h

variable {entry : Model × Relationship}

lemma WellFormed.mem_evidenceLinks (hent : entry ∈ evidenceLinks root) :
    Asserted root entry.1 entry.2 := by
  have husa := (mem_filter.mp hent).1
  obtain ⟨owner, howner, hlk⟩ := mem_flatMap.mp husa
  obtain ⟨link, hmem, rfl⟩ := mem_map.mp hlk
  exact ⟨h.models.mem_scope.mp howner, (mem_filter.mp hmem).1⟩

variable {entity : Entity}

lemma observation_describes (owner : Model) (claim : Claim) (citations : List SourceRef)
    {entityOwner : Model} {link : Relationship}
    (hsup : Supplies root link.subject entityOwner entity) (linkOwner : Model)
    (evidence : Evidence) :
    Describes (observationContext root (requiredContext root owner claim citations) linkOwner link
      entity evidence) owner.identity
      (ObservationFacts root entityOwner (ClaimFacts root owner claim citations) linkOwner link entity
        evidence) :=
  (requiredContext_describes h owner claim citations).observationContext h
    (h.models.findModel_eq_some.mpr ⟨hsup.nested, hsup.model⟩) linkOwner entity evidence

variable {reference : ResolvedRef}

lemma observation_upheld {owner : Model} {claim : Claim} {requested : RevisionContext}
    {assessment : EvidenceAssessment} (hsup : Supplies root reference owner entity)
    (hct : entity.content = .claim claim)
    (hent : entry ∈ evidenceLinks root) (htgt : entry.2.target = .resolved reference)
    (hasse : assessObservation root (requiredContext root owner claim entity.sourceRefs) requested
      entry = some assessment) (hcur : assessment.freshness = .current) :
    ObservationUpheld root reference requested assessment := by
  rw [assessObservation] at hasse
  cases hrsv : resolve root entry.2.subject with
  | error code => simp [hrsv] at hasse
  | ok evidenceEntity =>
    simp only [hrsv] at hasse
    split at hasse
    · rename_i evidence hevi
      cases hasse
      obtain ⟨evidenceOwner, hevidenceOwner⟩ := h.resolvable.resolve_eq_ok.mp hrsv
      have hdes := observation_describes h owner claim entity.sourceRefs hevidenceOwner
        entry.1 evidence
      obtain ⟨hdet, hmat⟩ := (hdes.current_iff _ _).mp hcur
      have hwi := observationBasis_within hevidenceOwner.nested h
        (claimBasis_within hsup.nested claim entity.sourceRefs)
        (fun kind id => selected_of_claimFacts) hdet.available
      refine ⟨owner, entity, claim, entry.1, entry.2, evidenceOwner, evidenceEntity, hsup,
        hct, ⟨h.mem_evidenceLinks hent, rfl, rfl, rfl, htgt⟩, hevidenceOwner, hevi,
        upholds_of_within h hdet hmat hwi, fun clause hmem => ?_⟩
      obtain ⟨hdc, contract, -, huni⟩ := clause_of_available hevidenceOwner.nested h
        fun hmis => hdet.available (.inl (.inr ⟨clause, hmem, hmis⟩))
      exact ⟨hdc, contract, huni⟩
    · cases hasse

lemma assessClaim_supplied {owner : Model} {claim : Claim} (requested : RevisionContext)
    (hsup : Supplies root reference owner entity) (hct : entity.content = .claim claim) :
    let required := requiredContext root owner claim entity.sourceRefs
    let observations := ((evidenceLinks root).filter fun entry =>
      entry.2.target = .resolved reference).filterMap (assessObservation root required requested)
    assessClaim root reference requested =
      ⟨reference, compareContext claim.context requested required,
        if observations.isEmpty = true then .unknown else .present,
        observations, inspect root⟩ := by
  have hcl := (inspect_clean_iff root).mpr h
  have hrsv := h.resolvable.resolve_eq_ok.mpr ⟨owner, hsup⟩
  have hfn := h.models.findModel_eq_some.mpr ⟨hsup.nested, hsup.model⟩
  simp only [assessClaim, hcl, hrsv, hfn, hct]
  rfl

lemma assessClaim_invalid (requested : RevisionContext)
    (hno : ∀ owner entity claim, Supplies root reference owner entity →
      entity.content ≠ .claim claim) :
    assessClaim root reference requested =
      ⟨reference, .inconclusive, .invalidClaim, [], inspect root⟩ := by
  cases hrsv : resolve root reference with
  | error code => simp [assessClaim, hrsv]
  | ok entity =>
    obtain ⟨owner, hsup⟩ := h.resolvable.resolve_eq_ok.mp hrsv
    have hfn := h.models.findModel_eq_some.mpr ⟨hsup.nested, hsup.model⟩
    cases hct : entity.content with
    | claim claim => exact absurd hct (hno owner entity claim hsup)
    | _ => simp [assessClaim, hrsv, hfn, hct]

lemma assessment_upheld (reference : ResolvedRef) (requested : RevisionContext) :
    ((assessClaim root reference requested).claimFreshness = .current →
      ClaimUpheld root reference requested) ∧
    ∀ observation ∈ (assessClaim root reference requested).observations,
      observation.freshness = .current →
        ObservationUpheld root reference requested observation := by
  by_cases hcm : ∃ owner entity claim, Supplies root reference owner entity ∧
      entity.content = .claim claim
  · obtain ⟨owner, entity, claim, hsup, hct⟩ := hcm
    rw [assessClaim_supplied h requested hsup hct]
    constructor
    · intro hcur
      have hdes := requiredContext_describes h owner claim entity.sourceRefs
      obtain ⟨hdet, hmat⟩ := (hdes.current_iff _ _).mp hcur
      exact ⟨owner, entity, claim, hsup, hct, upholds_of_within h hdet hmat
        (claimBasis_within hsup.nested claim entity.sourceRefs)⟩
    · intro observation hmem hcur
      obtain ⟨entry, hent, hasse⟩ := mem_filterMap.mp hmem
      obtain ⟨hlk, htgt⟩ := mem_filter.mp hent
      exact observation_upheld h hsup hct hlk (by simpa using htgt) hasse hcur
  · have hno : ∀ owner entity claim, Supplies root reference owner entity →
        entity.content ≠ .claim claim :=
      fun owner entity claim hsup hct => hcm ⟨owner, entity, claim, hsup, hct⟩
    rw [assessClaim_invalid h requested hno]
    constructor
    · intro hcur
      cases hcur
    · intro observation hmem
      cases hmem

end Sound

structure EvidenceAssessment.Alike (first second : EvidenceAssessment) : Prop where
  relationshipModel : first.relationshipModel = second.relationshipModel
  relationship : first.relationship = second.relationship
  reference : first.reference = second.reference
  polarity : first.polarity = second.polarity
  evidence : first.evidence.Alike second.evidence
  freshness : first.freshness = second.freshness

structure ClaimAssessment.Alike (first second : ClaimAssessment) : Prop where
  claim : first.claim = second.claim
  claimFreshness : first.claimFreshness = second.claimFreshness
  availability : first.availability = second.availability
  observations : Reordered EvidenceAssessment.Alike first.observations second.observations

def EntryAlike (first second : Model × Relationship) : Prop :=
  first.1.Alike second.1 ∧ first.2.Alike second.2

section Order

variable {root root' : Model} (h : root.Alike root') (hwell : WellFormed root)
include h hwell

omit h in
lemma usable_iff {owner : Model} (howner : owner ∈ root.nested) {link : Relationship}
    (hlk : link ∈ owner.relationships) :
    ((owner.relationships.filter fun other => other.id = link.id).length = 1 &&
      relationshipError owner link = none && link.sourceRefs.all (sourceRefValid owner)) = true ↔
      ∃ target, link.target = .resolved target := by
  have hfi := hwell.fits owner howner
  have hcnt := Keyed.filter_eq_singleton (recordIds_relationships hfi.identities) hlk
  have hrefs : link.sourceRefs.all (sourceRefValid owner) = true := by
    rw [all_eq_true]
    intro r hr
    have hcites := (hfi.links link hlk).1 r hr
    exact (sourceRefValid_iff (recordIds_sources hfi.identities) hfi.sources r).mpr hcites
  rw [hcnt, hrefs, ← relationshipError_eq_none (hwell.resolvable.of_nested howner)
    (hfi.links link hlk).2]
  simp

lemma evidenceLinks_alike : Reordered EntryAlike (evidenceLinks root) (evidenceLinks root') := by
  have hwell' := hwell.alike h
  have hscope : Reordered Model.Alike root.scope root'.scope :=
    (h.nested.perm_left hwell.models.scope_perm).perm_right hwell'.models.scope_perm.symm
  have husa : Reordered EntryAlike (usableLinks root) (usableLinks root') := by
    apply hscope.flatMap
    intro owner howner owner' howner' hal
    have hnes := hwell.models.mem_scope.mp howner
    have hnes' := hwell'.models.mem_scope.mp howner'
    have hfil : Reordered Relationship.Alike (usableRelationships owner)
        (usableRelationships owner') := by
      apply hal.relationships.filter
      intro link hlk link' hlk' hsm
      rw [Bool.eq_iff_iff, usable_iff hwell hnes hlk, usable_iff hwell' hnes' hlk', hsm.target]
    exact hfil.map fun link _ link' _ hsm => ⟨hal, hsm⟩
  apply husa.filter
  intro entry _ entry' _ hsm
  rw [hsm.2.predicate]

lemma assessObservation_alike {owner owner' : Model} (howner : owner ∈ root.nested)
    (hal : owner.Alike owner') {claim claim' : Claim} (hcm : claim.Alike claim')
    {citations citations' : List SourceRef} (hcit : citations.Perm citations')
    {requested requested' : RevisionContext} (hrqd : requested.Alike requested')
    {entry entry' : Model × Relationship} (hent : EntryAlike entry entry')
    (hnes : entry.1 ∈ root.nested) :
    Reordered EvidenceAssessment.Alike
      (assessObservation root (requiredContext root owner claim citations) requested entry).toList
      (assessObservation root' (requiredContext root' owner' claim' citations') requested'
        entry').toList := by
  have hwell' := hwell.alike h
  have hsub := hent.2.subject
  rw [assessObservation, assessObservation]
  cases hrsv : resolve root entry.2.subject with
  | error code =>
    cases hrsv' : resolve root' entry'.2.subject with
    | error code' => exact .nil
    | ok entity' =>
      obtain ⟨evidenceOwner', hsup'⟩ := hwell'.resolvable.resolve_eq_ok.mp hrsv'
      obtain ⟨evidenceOwner, entity, hsup, -, -⟩ := h.symm.supplies hsup'
      rw [← hsub] at hsup
      rw [hwell.resolvable.resolve_eq_ok.mpr ⟨evidenceOwner, hsup⟩] at hrsv
      cases hrsv
  | ok entity =>
    obtain ⟨evidenceOwner, hsup⟩ := hwell.resolvable.resolve_eq_ok.mp hrsv
    obtain ⟨evidenceOwner', entity', hsup', hevidenceOwner, hety⟩ := h.supplies hsup
    rw [hsub] at hsup'
    have hrsv' := hwell'.resolvable.resolve_eq_ok.mpr ⟨evidenceOwner', hsup'⟩
    simp only [hrsv']
    have hct := hety.content
    cases hc : entity.content with
    | evidence evidence =>
      rw [hc] at hct
      obtain ⟨evidence', hc', hevi⟩ :
          ∃ evidence', entity'.content = .evidence evidence' ∧
          evidence.Alike evidence' := by
        generalize entity'.content = b at hct ⊢
        cases hct with
        | same => exact ⟨evidence, rfl, ⟨⟨rfl, .refl _, .refl _, .refl _⟩, by
            cases evidence.observation
            · exact .run (.refl _)
            · exact .analysis
            · exact .review⟩⟩
        | evidence hsm => exact ⟨_, rfl, hsm⟩
      simp only [hc']
      have hfa := observation_describes hwell owner claim citations hsup entry.1 evidence
      have hfa' := observation_describes hwell' owner' claim' citations' hsup' entry'.1
        evidence'
      rw [← claimFacts_eq h hwell howner hal hcm hcit,
        ← observationFacts_eq h hwell hsup.nested hevidenceOwner _ hent.1 hnes hent.2 hety hevi,
        ← hal.identity] at hfa'
      apply Reordered.single
      refine ⟨hent.1.identity, hent.2.id, hsub, ?_, hevi, ?_⟩
      · simp only [hent.2.predicate]
      · exact compareContext_alike hfa hfa' hevi.context hrqd
    | _ =>
      rw [hc] at hct
      generalize entity'.content = b at hct ⊢
      cases hct <;> exact .nil

lemma assessClaim_alike (reference : ResolvedRef) {requested requested' : RevisionContext}
    (hrqd : requested.Alike requested') :
    (assessClaim root reference requested).Alike (assessClaim root' reference requested') := by
  have hwell' := hwell.alike h
  by_cases hcm : ∃ owner entity claim, Supplies root reference owner entity ∧
      entity.content = .claim claim
  · obtain ⟨owner, entity, claim, hsup, hct⟩ := hcm
    obtain ⟨owner', entity', hsup', howner, hety⟩ := h.supplies hsup
    obtain ⟨claim', hct', hsm⟩ : ∃ claim', entity'.content = .claim claim' ∧
        claim.Alike claim' := by
      have hal := hety.content
      rw [hct] at hal
      generalize entity'.content = b at hal ⊢
      cases hal with
      | same => exact ⟨claim, rfl, rfl, rfl, .refl _, .refl _, .refl _⟩
      | claim hsm => exact ⟨_, rfl, hsm⟩
    rw [assessClaim_supplied hwell requested hsup hct,
      assessClaim_supplied hwell' requested' hsup' hct']
    have hfa := requiredContext_describes hwell owner claim entity.sourceRefs
    have hfa' := requiredContext_describes hwell' owner' claim' entity'.sourceRefs
    rw [← claimFacts_eq h hwell hsup.nested howner hsm hety.sourceRefs, ← howner.identity] at hfa'
    have hobs := ((evidenceLinks_alike h hwell).filter
      (p := fun entry => entry.2.target = .resolved reference)
      fun entry _ entry' _ hent => by rw [hent.2.target]).filterMap
      fun entry hmem entry' _ hent => assessObservation_alike h hwell hsup.nested howner hsm
        hety.sourceRefs hrqd hent
        (hwell.mem_evidenceLinks (mem_filter.mp hmem).1).nested
    refine ⟨rfl, compareContext_alike hfa hfa' hsm.context hrqd, ?_, hobs⟩
    simp only [hobs.isEmpty_eq]
  · have hno : ∀ owner entity claim, Supplies root reference owner entity →
        entity.content ≠ .claim claim :=
      fun owner entity claim hsup hct => hcm ⟨owner, entity, claim, hsup, hct⟩
    have hno' : ∀ owner entity claim, Supplies root' reference owner entity →
        entity.content ≠ .claim claim := by
      intro owner' entity' claim' hsup' hct'
      obtain ⟨owner, entity, hsup, -, hety⟩ := h.symm.supplies hsup'
      have hal := hety.content
      rw [hct'] at hal
      cases hc : entity.content with
      | claim claim => exact hno owner entity claim hsup hc
      | _ =>
        rw [hc] at hal
        cases hal
    rw [assessClaim_invalid hwell requested hno, assessClaim_invalid hwell' requested' hno']
    exact ⟨rfl, rfl, rfl, .nil⟩

end Order

/-- The assessment of a model whose inspection has no errors: a current claim or observation
is upheld, every traversal ends, and the verdicts do not depend on an order. -/
theorem assessment_fresh (model : Model) (hcl : hasErrors (inspect model) = false)
    (reference : ResolvedRef) (requested : RevisionContext) :
    ((assessClaim model reference requested).claimFreshness = .current →
      ClaimUpheld model reference requested) ∧
    (∀ observation ∈ (assessClaim model reference requested).observations,
      observation.freshness = .current → ObservationUpheld model reference requested observation) ∧
    (∀ context selected, ∃ visited, ∀ fuel, enoughVisits model ≤ fuel →
      visitEntities fuel model context selected =
        some (visited, requireEntityContext model context selected)) ∧
    ∀ model' requested', model.Alike model' → requested.Alike requested' →
      hasErrors (inspect model') = false ∧
      (assessClaim model reference requested).Alike (assessClaim model' reference requested') := by
  have hwell := (inspect_clean_iff model).mp hcl
  obtain ⟨hcm, hobs⟩ := assessment_upheld hwell reference requested
  refine ⟨hcm, hobs, visitEntities_ends model, fun model' requested' hal hrqd => ?_⟩
  refine ⟨(inspect_clean_iff model').mpr (hwell.alike hal), ?_⟩
  exact assessClaim_alike hal hwell reference hrqd

namespace Example

def first : Revision := ⟨"1", by decide⟩

def second : Revision := ⟨"2", by decide⟩

def requirement : Snapshot := ⟨⟨"requirement", by decide⟩, first⟩

def claim : Snapshot := ⟨⟨"claim", by decide⟩, first⟩

def evidence : Snapshot := ⟨⟨"evidence", by decide⟩, first⟩

def model : Snapshot := ⟨⟨"model", by decide⟩, first⟩

def document : Snapshot := ⟨⟨"document", by decide⟩, first⟩

def anchor : Id := ⟨"anchor", by decide⟩

def source : Source where
  id := ⟨"source", by decide⟩
  document := ⟨document.id, some first⟩
  resolution := .retained
  fragments := [anchor]

def context : RevisionContext where
  model := model
  entityRevisions := [requirement]
  sourceRevisions := [document]
  implementationRevisions := []
  entities_nodup := nodup_singleton _
  sources_nodup := nodup_singleton _
  implementations_nodup := nodup_nil

def dependency : Model where
  identity := ⟨⟨"dependency", by decide⟩, first⟩
  sources := []
  entities := [⟨⟨requirement.id, second⟩, [], .requirement⟩]
  relationships := []
  dependencies := []

/-- A requirement with a reviewed claim, beside a dependency that supplies another revision
of the requirement. -/
def root : Model where
  identity := model
  sources := [source]
  entities := [⟨requirement, [⟨source.id, anchor⟩], .requirement⟩,
    ⟨claim, [], .claim ⟨⟨model, requirement⟩, context⟩⟩,
    ⟨evidence, [], .evidence ⟨context, .review⟩⟩]
  relationships := [⟨⟨"supports", by decide⟩, .supports, ⟨model, evidence⟩,
    .resolved ⟨model, claim⟩, []⟩]
  dependencies := [dependency]

lemma root_clean : hasErrors (inspect root) = false := by decide +kernel

lemma root_current :
    (assessClaim root ⟨model, claim⟩ context).claimFreshness = .current := by decide +kernel

end Example

open Example in
theorem assessment_fresh_root :
    hasErrors (inspect root) = false ∧ ClaimUpheld root ⟨model, claim⟩ context :=
  ⟨root_clean, (assessment_fresh root root_clean ⟨model, claim⟩ context).1 root_current⟩

open Example in
/-- A current claim whose subject is supplied in two revisions: the exact reference selects
one of them. -/
theorem current_with_two_revisions :
    ¬ ∀ (model : Model) (reference : ResolvedRef) (requested : RevisionContext),
      hasErrors (inspect model) = false →
      (assessClaim model reference requested).claimFreshness = .current →
      ∀ owner entity claim, Supplies model reference owner entity → entity.content = .claim claim →
      ∀ reached, ReflTransGen (Depends model) claim.subject reached →
      ∀ candidate ∈ model.nested, ∀ other ∈ candidate.entities,
        other.identity.id = reached.entity.id → other.identity = reached.entity := by
  intro h
  have heq := h root ⟨model, claim⟩ context root_clean root_current root
    ⟨claim, [], .claim ⟨⟨model, requirement⟩, context⟩⟩ ⟨⟨model, requirement⟩, context⟩
    ⟨root.mem_nested_self, rfl, by simp [root], rfl⟩ rfl ⟨model, requirement⟩ .refl dependency
    (by simp [root, Model.nested, Model.nestedAll, dependency])
    ⟨⟨requirement.id, second⟩, [], .requirement⟩ (by simp [dependency]) rfl
  have hrev : second = first := congrArg Snapshot.revision heq
  exact absurd hrev (by decide)

end Morphir.Intent
