import Morphir.Intent.Requirements

/-!
# Comparison of contexts

What a comparison says of the facts that a required context holds.
-/

namespace Morphir.Intent

open List

def RevisionContext.Names (context : RevisionContext) (facts : Set Fact) : Prop :=
  ∀ kind id, .required kind id ∈ facts → ∃ entry ∈ context.revisions kind, entry.id = id

structure Determined (facts : Set Fact) (recorded requested : RevisionContext) : Prop where
  available : .unavailable ∉ facts
  agreed : ¬ Contested facts
  recordedNames : recorded.Names facts
  requestedNames : requested.Names facts

/-- The contexts are the same sets, of the model, with every supplied snapshot. -/
structure Matches (facts : Set Fact) (model : Snapshot) (recorded requested : RevisionContext) :
    Prop where
  recordedModel : recorded.model = model
  requestedModel : requested.model = model
  actual : ∀ kind snapshot, .actual kind snapshot ∈ facts → snapshot ∈ requested.revisions kind
  same : ∀ kind snapshot, snapshot ∈ recorded.revisions kind ↔ snapshot ∈ requested.revisions kind

lemma sameSet_iff {a b : List Snapshot} (ha : (a.map Snapshot.id).Nodup)
    (hb : (b.map Snapshot.id).Nodup) :
    sameSet a b = true ↔ ∀ snapshot, snapshot ∈ a ↔ snapshot ∈ b := by
  have ha' : a.Nodup := ha.of_map
  have hb' : b.Nodup := hb.of_map
  rw [sameSet, Bool.and_eq_true, all_eq_true]
  simp only [decide_eq_true_eq, contains_iff_mem]
  constructor
  · rintro ⟨hlen, hsub⟩ snapshot
    exact ((ha'.subperm hsub).perm_of_length_le hlen.ge).mem_iff
  · intro hmem
    exact ⟨((perm_ext_iff_of_nodup ha' hb').mpr hmem).length_eq,
      fun snapshot hsna => (hmem snapshot).mp hsna⟩

lemma includesIds_iff {entries : List Snapshot} {required : List Id} :
    includesIds entries required = true ↔ ∀ id ∈ required, ∃ entry ∈ entries, entry.id = id := by
  simp [includesIds]

lemma forall_dependency {P : Dependency → Prop} :
    (∀ kind, P kind) ↔ P .entity ∧ P .source ∧ P .implementation := by
  constructor
  · intro h
    exact ⟨h .entity, h .source, h .implementation⟩
  · rintro ⟨hety, hsrc, himp⟩ kind
    cases kind with
    | entity => exact hety
    | source => exact hsrc
    | implementation => exact himp

section Compare

variable {context : RequiredContext} {model : Snapshot} {facts : Set Fact}
  (h : Describes context model facts) (recorded requested : RevisionContext)
include h

lemma Describes.names_iff : recorded.Names facts ↔
    includesIds recorded.entityRevisions context.entities = true ∧
      includesIds recorded.sourceRevisions context.sources = true ∧
      includesIds recorded.implementationRevisions context.implementations = true := by
  rw [RevisionContext.Names, forall_dependency, includesIds_iff, includesIds_iff, includesIds_iff]
  simp only [← h.required, RequiredContext.ids, RevisionContext.revisions]

lemma Describes.unavailable_eq_false :
    context.unavailable = false ↔ .unavailable ∉ facts ∧ ¬ Contested facts := by
  rw [← not_or, ← h.unavailable, Bool.not_eq_true]

lemma Describes.determined_iff : Determined facts recorded requested ↔
    ¬ (context.unavailable = true ∨ ¬ includesIds recorded.entityRevisions context.entities = true ∨
      ¬ includesIds requested.entityRevisions context.entities = true ∨
      ¬ includesIds recorded.sourceRevisions context.sources = true ∨
      ¬ includesIds requested.sourceRevisions context.sources = true ∨
      ¬ includesIds recorded.implementationRevisions context.implementations = true ∨
      ¬ includesIds requested.implementationRevisions context.implementations = true) := by
  have hrcd := h.names_iff recorded
  have hrqd := h.names_iff requested
  have hava := h.unavailable_eq_false
  simp only [not_or, not_not]
  rw [Bool.not_eq_true]
  constructor
  · rintro ⟨huna, hagr, hfst, hsnd⟩
    obtain ⟨he, hs, hi⟩ := hrcd.mp hfst
    obtain ⟨he', hs', hi'⟩ := hrqd.mp hsnd
    exact ⟨hava.mpr ⟨huna, hagr⟩, he, he', hs, hs', hi, hi'⟩
  · rintro ⟨huna, he, he', hs, hs', hi, hi'⟩
    obtain ⟨hmis, hagr⟩ := hava.mp huna
    exact ⟨hmis, hagr, hrcd.mpr ⟨he, hs, hi⟩, hrqd.mpr ⟨he', hs', hi'⟩⟩

lemma Describes.matches_iff : Matches facts model recorded requested ↔
    recorded.model = requested.model ∧ requested.model = context.actualModel ∧
      context.actualEntities.all (requested.entityRevisions.contains ·) = true ∧
      context.actualSources.all (requested.sourceRevisions.contains ·) = true ∧
      context.actualImplementations.all (requested.implementationRevisions.contains ·) = true ∧
      sameSet recorded.entityRevisions requested.entityRevisions = true ∧
      sameSet recorded.sourceRevisions requested.sourceRevisions = true ∧
      sameSet recorded.implementationRevisions requested.implementationRevisions = true := by
  have hact : (∀ kind snapshot, .actual kind snapshot ∈ facts →
      snapshot ∈ requested.revisions kind) ↔
      context.actualEntities.all (requested.entityRevisions.contains ·) = true ∧
        context.actualSources.all (requested.sourceRevisions.contains ·) = true ∧
        context.actualImplementations.all
          (requested.implementationRevisions.contains ·) = true := by
    rw [forall_dependency]
    simp only [← h.actual, RequiredContext.actuals, RevisionContext.revisions, all_eq_true,
      contains_iff_mem]
  have hsm : (∀ kind snapshot, snapshot ∈ recorded.revisions kind ↔
      snapshot ∈ requested.revisions kind) ↔
      sameSet recorded.entityRevisions requested.entityRevisions = true ∧
        sameSet recorded.sourceRevisions requested.sourceRevisions = true ∧
        sameSet recorded.implementationRevisions requested.implementationRevisions = true := by
    rw [forall_dependency, sameSet_iff recorded.entities_nodup requested.entities_nodup,
      sameSet_iff recorded.sources_nodup requested.sources_nodup,
      sameSet_iff recorded.implementations_nodup requested.implementations_nodup]
    rfl
  rw [h.model]
  constructor
  · rintro ⟨hrcd, hrqd, hfst, hsnd⟩
    obtain ⟨he, hs, hi⟩ := hact.mp hfst
    exact ⟨hrcd.trans hrqd.symm, hrqd, he, hs, hi, hsm.mp hsnd⟩
  · rintro ⟨hrcd, hrqd, he, hs, hi, hsnd⟩
    exact ⟨hrcd.trans hrqd, hrqd, hact.mpr ⟨he, hs, hi⟩, hsm.mpr hsnd⟩

open Classical in
lemma Describes.compareContext_eq : compareContext recorded requested context =
    if ¬ Determined facts recorded requested then .inconclusive
    else if Matches facts model recorded requested then .current else .stale := by
  rw [compareContext]
  simp only [h.determined_iff recorded requested, h.matches_iff recorded requested, not_not]

lemma Describes.current_iff : compareContext recorded requested context = .current ↔
    Determined facts recorded requested ∧ Matches facts model recorded requested := by
  rw [h.compareContext_eq]
  by_cases hdet : Determined facts recorded requested
  · by_cases hmat : Matches facts model recorded requested
    · simp [hmat]
    · simp [hdet]
  · simp [hdet]

end Compare

end Morphir.Intent

/-!
## Currency

What current contexts name: the supplied revision of everything that a claim or an
observation rests on.
-/

namespace Morphir.Intent

open Relation List

def RevisionContext.Lists (context : RevisionContext) (kind : Dependency) (snapshot : Snapshot) :
    Prop :=
  snapshot ∈ context.revisions kind ∧
    ∀ other ∈ context.revisions kind, other.id = snapshot.id → other = snapshot

/-- A source reference leads to a retained source with a pinned document. -/
def Pinned (owner : Model) (citation : SourceRef) (snapshot : Snapshot) : Prop :=
  ∃ source ∈ owner.sources, source.id = citation.sourceId ∧ source.resolution = .retained ∧
    source.document.id = snapshot.id ∧ source.document.revision = some snapshot.revision

/-- A visited reference leads to a source reference of a model, through its entity or
through a link that is followed from it. -/
inductive CitedFrom (root : Model) (reference : ResolvedRef) : Model → SourceRef → Prop
  | entity (owner : Model) (entity : Entity) (citation : SourceRef) :
      Supplies root reference owner entity → citation ∈ entity.citations →
      CitedFrom root reference owner citation
  | link (owner : Model) (link : Relationship) (citation : SourceRef) :
      Asserted root owner link → Touches reference link → citation ∈ link.sourceRefs →
      CitedFrom root reference owner citation

/-- What a claim or an observation rests on: the entities from which dependencies are
followed, source references of its own, and the dependencies that it declares. -/
structure Basis where
  subjects : Set ResolvedRef
  citations : Set (Model × SourceRef)
  declarations : Set (Model × RevisionContext)

namespace Basis

variable (basis : Basis) (root : Model)

def Reached (reference : ResolvedRef) : Prop :=
  ∃ subject ∈ basis.subjects, ReflTransGen (Depends root) subject reference

def Cited (owner : Model) (citation : SourceRef) : Prop :=
  (owner, citation) ∈ basis.citations ∨
    ∃ reference, basis.Reached root reference ∧ CitedFrom root reference owner citation

def Selected : Dependency → Id → Prop
  | .entity, id => ∃ reference, basis.Reached root reference ∧ reference.entity.id = id
  | .source, id => ∃ owner citation, basis.Cited root owner citation ∧
      ∃ source ∈ owner.sources, source.id = citation.sourceId ∧ source.document.id = id
  | .implementation, id => ∃ reference owner entity artifact, basis.Reached root reference ∧
      Supplies root reference owner entity ∧ entity.content = .implementation artifact ∧
      artifact.id = id

end Basis

/-- A model has a snapshot of an entity, of a document or of an artifact. -/
def Model.Has (candidate : Model) (snapshot : Snapshot) : Dependency → Prop
  | .entity => ∃ entity ∈ candidate.entities, entity.identity = snapshot
  | .source => ∃ source ∈ candidate.sources,
      source.document.id = snapshot.id ∧ source.document.revision = some snapshot.revision
  | .implementation => ∃ entity ∈ candidate.entities, entity.content = .implementation snapshot

/-- Recorded and requested contexts are the same sets, of a model, and list exactly the
supplied revisions of a basis, none of which is unresolved. -/
structure Upholds (root : Model) (basis : Basis) (model : Snapshot)
    (recorded requested : RevisionContext) : Prop where
  same : ∀ kind snapshot, snapshot ∈ recorded.revisions kind ↔ snapshot ∈ requested.revisions kind
  recordedModel : recorded.model = model
  requestedModel : requested.model = model
  entities : ∀ reference, basis.Reached root reference →
    Supplied root reference ∧ requested.Lists .entity reference.entity
  links : ∀ reference, basis.Reached root reference → ∀ owner link, Asserted root owner link →
    Touches reference link → ∃ target, link.target = .resolved target
  artifacts : ∀ reference, basis.Reached root reference → ∀ owner entity artifact,
    Supplies root reference owner entity → entity.content = .implementation artifact →
    requested.Lists .implementation artifact
  sources : ∀ owner citation, basis.Cited root owner citation →
    ∃ snapshot, Pinned owner citation snapshot ∧ requested.Lists .source snapshot
  /-- Declared dependencies are named, and where no exact reference selects one, every
  model of the closure that has it has the revision listed. -/
  declared : ∀ owner declared, (owner, declared) ∈ basis.declarations →
    ∀ kind, ∀ entry ∈ declared.revisions kind,
      (∃ listed ∈ requested.revisions kind, listed.id = entry.id) ∧
      (¬ basis.Selected root kind entry.id → ∀ candidate ∈ owner.nested, ∀ snapshot,
        candidate.Has snapshot kind → snapshot.id = entry.id → requested.Lists kind snapshot)

section Sound

variable {root : Model} (h : WellFormed root) {facts : Set Fact} {model : Snapshot}
  {recorded requested : RevisionContext} (hdetermined : Determined facts recorded requested)
  (hmatches : Matches facts model recorded requested)

include hmatches in
lemma Matches.lists {kind : Dependency} {snapshot : Snapshot}
    (hactual : .actual kind snapshot ∈ facts) : requested.Lists kind snapshot := by
  have hmem := hmatches.actual kind snapshot hactual
  exact ⟨hmem, fun other hother hid => requested.eq_of_id kind hother hmem hid⟩

include hdetermined hmatches in
lemma lists_of_documentFacts {source : Source} (hfa : ∀ f ∈ documentFacts source, f ∈ facts) :
    ∃ snapshot, source.resolution = .retained ∧ source.document.id = snapshot.id ∧
      source.document.revision = some snapshot.revision ∧ requested.Lists .source snapshot := by
  have hresolution : source.resolution = .retained := by
    cases hc : source.resolution with
    | retained => rfl
    | unresolved =>
      have hmissing : Fact.unavailable ∈ documentFacts source := by simp [documentFacts, hc]
      exact absurd (hfa _ hmissing) hdetermined.available
  cases hrev : source.document.revision with
  | none =>
    have hmissing : Fact.unavailable ∈ documentFacts source := by simp [documentFacts, hrev]
    exact absurd (hfa _ hmissing) hdetermined.available
  | some revision =>
    have hactual : Fact.actual .source ⟨source.document.id, revision⟩ ∈ documentFacts source := by
      simp [documentFacts, hrev]
    exact ⟨⟨source.document.id, revision⟩, hresolution, rfl, rfl, hmatches.lists (hfa _ hactual)⟩

include hdetermined hmatches in
lemma pinned_of_sourceFacts {owner : Model} {citation : SourceRef}
    (hfa : ∀ f ∈ sourceFacts owner citation, f ∈ facts) :
    ∃ snapshot, Pinned owner citation snapshot ∧ requested.Lists .source snapshot := by
  rw [sourceFacts] at hfa
  cases hfn : owner.sources.find? fun s => s.id = citation.sourceId with
  | none =>
    simp only [hfn] at hfa
    exact absurd (hfa _ (mem_singleton_self _)) hdetermined.available
  | some source =>
    simp only [hfn] at hfa
    obtain ⟨snapshot, hresolution, hid, hrev, hlists⟩ :=
      lists_of_documentFacts hdetermined hmatches fun f hf =>
        hfa f (mem_cons_of_mem _ (mem_cons_of_mem _ hf))
    have hmem := mem_of_find?_eq_some hfn
    have hsrc : source.id = citation.sourceId := by simpa using List.find?_some hfn
    exact ⟨snapshot, ⟨source, hmem, hsrc, hresolution, hid, hrev⟩, hlists⟩

include hdetermined in
lemma reaches_of_depends {subject : ResolvedRef} (hfa : ∀ f, ReachFact root subject f → f ∈ facts)
    {reference : ResolvedRef} (hreach : ReflTransGen (Depends root) subject reference) :
    Reaches root subject reference ∧ Supplied root reference := by
  have hsupplied : ∀ x, Reaches root subject x → Supplied root x := by
    intro x hx
    by_contra hmissing
    exact hdetermined.available (hfa _ ⟨x, hx, .missing hmissing⟩)
  induction hreach with
  | refl => exact ⟨.refl, hsupplied subject .refl⟩
  | tail _ hs ih =>
    have hnx := ReflTransGen.tail ih.1 ⟨ih.2, hs⟩
    exact ⟨hnx, hsupplied _ hnx⟩

variable {basis : Basis}

structure Basis.Within (basis : Basis) (root : Model) (facts : Set Fact) : Prop where
  subjects : ∀ subject ∈ basis.subjects, ∀ f, ReachFact root subject f → f ∈ facts
  citations : ∀ owner citation, (owner, citation) ∈ basis.citations →
    ∀ f ∈ sourceFacts owner citation, f ∈ facts
  declarations : ∀ owner declared, (owner, declared) ∈ basis.declarations →
    owner ∈ root.nested ∧ ∃ exact : Set Fact,
      (∀ kind id, .selected kind id ∈ exact → basis.Selected root kind id) ∧
      ∀ f, Declared exact owner declared f → f ∈ facts

include h hdetermined hmatches in
lemma upholds_of_within (hwithin : basis.Within root facts) :
    Upholds root basis model recorded requested := by
  have hreached : ∀ reference, basis.Reached root reference →
      Supplied root reference ∧ ∀ f, VisitFact root reference f → f ∈ facts := by
    rintro reference ⟨subject, hsubject, hdepends⟩
    obtain ⟨hreach, hsupplied⟩ :=
      reaches_of_depends hdetermined (hwithin.subjects subject hsubject) hdepends
    exact ⟨hsupplied, fun f hf => hwithin.subjects subject hsubject f ⟨reference, hreach, hf⟩⟩
  refine ⟨hmatches.same, hmatches.recordedModel, hmatches.requestedModel, ?_, ?_, ?_, ?_, ?_⟩
  · intro reference hreach
    obtain ⟨hsupplied, hfa⟩ := hreached reference hreach
    exact ⟨hsupplied, hmatches.lists (hfa _ (.entity _ hsupplied (by simp [Need.facts])))⟩
  · intro reference hreach owner link hasserted htouches
    obtain ⟨hsupplied, hfa⟩ := hreached reference hreach
    cases htarget : link.target with
    | resolved target => exact ⟨target, rfl⟩
    | unresolved kind =>
      have hmissing := hfa _ (.unresolved owner link kind hsupplied hasserted htouches htarget)
      exact absurd hmissing hdetermined.available
  · intro reference hreach owner entity artifact hsup hct
    obtain ⟨-, hfa⟩ := hreached reference hreach
    apply hmatches.lists
    exact hfa _ (.artifact owner entity artifact _ hsup hct (by simp [Need.facts]))
  · rintro owner citation (hci | ⟨reference, hreach, hci⟩)
    · exact pinned_of_sourceFacts hdetermined hmatches (hwithin.citations owner citation hci)
    · obtain ⟨hsupplied, hfa⟩ := hreached reference hreach
      apply pinned_of_sourceFacts hdetermined hmatches
      intro f hf
      cases hci with
      | entity entity _ hsup hmem => exact hfa f (.source owner entity citation f hsup hmem hf)
      | link link _ hasserted htouches hmem =>
        exact hfa f (.link owner link citation f hsupplied hasserted htouches hmem hf)
  · intro owner declared hdc kind entry hentry
    obtain ⟨howner, exact, hselected, hfa⟩ := hwithin.declarations owner declared hdc
    refine ⟨hdetermined.requestedNames kind entry.id (hfa _ (.required kind entry hentry)), ?_⟩
    intro hunselected candidate hcd snapshot hhas hid
    have hscope := (h.models.of_nested howner).mem_scope.mpr hcd
    have hop : Unselected exact declared kind snapshot.id :=
      ⟨⟨entry, hentry, hid.symm⟩, fun hmem => hunselected (hid ▸ hselected kind _ hmem)⟩
    cases kind with
    | entity =>
      obtain ⟨entity, hmem, rfl⟩ := hhas
      exact hmatches.lists (hfa _ (.entity candidate entity hscope hmem hop))
    | implementation =>
      obtain ⟨entity, hmem, hct⟩ := hhas
      exact hmatches.lists
        (hfa _ (.implementation candidate entity snapshot hscope hmem hct hop))
    | source =>
      obtain ⟨source, hmem, hdoc, hrev⟩ := hhas
      apply hmatches.lists
      apply hfa _ (.source candidate source _ hscope hmem (hdoc ▸ hop) ?_)
      simp [documentFacts, hdoc, hrev]

end Sound

variable {id : Id}

variable {kind : Dependency}

lemma selected_of_documentFacts {source : Source} : .selected kind id ∉ documentFacts source := by
  rw [documentFacts]
  cases source.document.revision <;> by_cases h : source.resolution = .unresolved <;> simp

variable {owner root : Model}

lemma selected_of_sourceFacts {citation : SourceRef}
    (h : .selected kind id ∈ sourceFacts owner citation) : kind = .source ∧
      ∃ source ∈ owner.sources, source.id = citation.sourceId ∧ source.document.id = id := by
  rw [sourceFacts] at h
  split at h
  · simp at h
  · rename_i source hfn
    have hid : source.id = citation.sourceId := by simpa using List.find?_some hfn
    rcases mem_cons.mp h with h | h
    · cases h
    · rcases mem_cons.mp h with h | h
      · cases h
        exact ⟨rfl, source, mem_of_find?_eq_some hfn, hid, rfl⟩
      · exact absurd h selected_of_documentFacts

lemma Reaches.depends {subject reference : ResolvedRef} (h : Reaches root subject reference) :
    ReflTransGen (Depends root) subject reference := by
  induction h with
  | refl => exact .refl
  | tail _ hs ih => exact ih.tail hs.2

section Selected

variable {basis : Basis} {root : Model} {kind : Dependency} {id : Id}

lemma selected_of_reachFact {subject : ResolvedRef} (hsub : subject ∈ basis.subjects)
    (h : ReachFact root subject (.selected kind id)) : basis.Selected root kind id := by
  obtain ⟨reference, hrch, hv⟩ := h
  have hrea : basis.Reached root reference := ⟨subject, hsub, hrch.depends⟩
  cases hv with
  | entity _ hspd hft =>
    simp only [Need.facts, mem_cons, reduceCtorEq, false_or, not_mem_nil, or_false] at hft
    obtain ⟨rfl, rfl⟩ := hft
    exact ⟨reference, hrea, rfl⟩
  | source owner entity citation _ hsup hmem hft =>
    obtain ⟨rfl, hsrc⟩ := selected_of_sourceFacts hft
    exact ⟨owner, citation, .inr ⟨reference, hrea, .entity owner entity citation hsup hmem⟩, hsrc⟩
  | artifact owner entity artifact _ hsup hct hft =>
    simp only [Need.facts, mem_cons, reduceCtorEq, false_or, not_mem_nil, or_false] at hft
    obtain ⟨rfl, rfl⟩ := hft
    exact ⟨reference, owner, entity, artifact, hrea, hsup, hct, rfl⟩
  | link owner link citation _ _ hast htou hmem hft =>
    obtain ⟨rfl, hsrc⟩ := selected_of_sourceFacts hft
    exact ⟨owner, citation, .inr ⟨reference, hrea, .link owner link citation hast htou hmem⟩, hsrc⟩

lemma selected_of_citedFact {owner : Model} {citations : List SourceRef}
    (hci : ∀ r ∈ citations, (owner, r) ∈ basis.citations)
    (h : CitedFact owner citations (.selected kind id)) : basis.Selected root kind id := by
  obtain ⟨citation, hmem, hft⟩ := h
  obtain ⟨rfl, hsrc⟩ := selected_of_sourceFacts hft
  exact ⟨owner, citation, .inl (hci citation hmem), hsrc⟩

lemma not_selected_of_declared {exact : Set Fact} {owner : Model} {declared : RevisionContext} :
    ¬ Declared exact owner declared (.selected kind id) := by
  intro h
  cases h with
  | source candidate source _ _ _ _ hft => exact selected_of_documentFacts hft

end Selected

def claimBasis (owner : Model) (claim : Claim) (citations : List SourceRef) : Basis where
  subjects := {claim.subject}
  citations := {p | p.1 = owner ∧ p.2 ∈ citations}
  declarations := {(owner, claim.context)}

def ContractAt (owner : Model) (clause : Snapshot) (reference : ResolvedRef) : Prop :=
  reference.entity = clause ∧ ∃ candidate ∈ owner.nested, candidate.identity = reference.model ∧
    ∃ entity ∈ candidate.entities, entity.identity = clause ∧ entity.kind = .contract

/-- The basis of an observation: that of its claim, the contracts of its clauses, the
sources of the evidence and of the link, and what the evidence declares. -/
def observationBasis (base : Basis) (owner linkOwner : Model) (link : Relationship)
    (entity : Entity) (evidence : Evidence) : Basis where
  subjects := base.subjects ∪
    {c | ∃ clause ∈ evidence.observation.clauses, ContractAt owner clause c}
  citations := base.citations ∪ {p | p.1 = owner ∧ p.2 ∈ entity.sourceRefs} ∪
    {p | p.1 = linkOwner ∧ p.2 ∈ link.sourceRefs}
  declarations := insert (owner, evidence.context) base.declarations

variable {citations : List SourceRef}

lemma selected_of_claimExact {claim : Claim}
    (h : .selected kind id ∈ ClaimExact root owner claim citations) :
    (claimBasis owner claim citations).Selected root kind id := by
  rcases h with (⟨other, entry, -, heq⟩ | hrch) | hci
  · cases heq
  · exact selected_of_reachFact rfl hrch
  · exact selected_of_citedFact (fun r hr => ⟨rfl, hr⟩) hci

lemma selected_of_claimFacts {claim : Claim}
    (h : .selected kind id ∈ ClaimFacts root owner claim citations) :
    (claimBasis owner claim citations).Selected root kind id :=
  h.elim selected_of_claimExact fun hdc => absurd hdc not_selected_of_declared

lemma Basis.Selected.mono {basis larger : Basis} (hsubjects : basis.subjects ⊆ larger.subjects)
    (hcit : basis.citations ⊆ larger.citations) (h : basis.Selected root kind id) :
    larger.Selected root kind id := by
  have hrea : ∀ reference, basis.Reached root reference → larger.Reached root reference := by
    rintro reference ⟨subject, hsubject, hdep⟩
    exact ⟨subject, hsubjects hsubject, hdep⟩
  cases kind with
  | entity =>
    obtain ⟨reference, hrch, hid⟩ := h
    exact ⟨reference, hrea reference hrch, hid⟩
  | implementation =>
    obtain ⟨reference, owner, entity, artifact, hrch, hr⟩ := h
    exact ⟨reference, owner, entity, artifact, hrea reference hrch, hr⟩
  | source =>
    obtain ⟨owner, citation, hci, hr⟩ := h
    refine ⟨owner, citation, ?_, hr⟩
    rcases hci with hci | ⟨reference, hrch, hci⟩
    · exact .inl (hcit hci)
    · exact .inr ⟨reference, hrea reference hrch, hci⟩

section Within

variable {root owner : Model} (howner : owner ∈ root.nested)
include howner

lemma claimBasis_within (claim : Claim) (citations : List SourceRef) :
    (claimBasis owner claim citations).Within root (ClaimFacts root owner claim citations) := by
  refine ⟨?_, ?_, ?_⟩
  · rintro _ rfl f hf
    exact .inl (.inl (.inr hf))
  · rintro model citation ⟨rfl, hmem⟩ f hf
    exact .inl (.inr ⟨citation, hmem, hf⟩)
  · rintro model declared hdc
    cases hdc
    exact ⟨howner, ClaimExact root owner claim citations,
      fun kind id => selected_of_claimExact, fun f hf => .inr hf⟩

omit howner in
lemma mem_clauseCandidates (h : owner.Distinct) {clause : Snapshot} {reference : ResolvedRef} :
    reference ∈ clauseCandidates owner clause ↔ ContractAt owner clause reference := by
  simp only [clauseCandidates, mem_flatMap, mem_map, mem_filter, h.mem_scope,
    Bool.and_eq_true, decide_eq_true_eq]
  constructor
  · rintro ⟨candidate, hcd, entity, ⟨hety, hid, hkd⟩, rfl⟩
    exact ⟨hid, candidate, hcd, rfl, entity, hety, hid, hkd⟩
  · rintro ⟨hcla, candidate, hcd, hmo, entity, hety, hid, hkd⟩
    refine ⟨candidate, hcd, entity, ⟨hety, hid, hkd⟩, ?_⟩
    rw [hmo, hid, ← hcla]

lemma clause_of_available (h : WellFormed root) {context : RevisionContext} {clause : Snapshot}
    (hava : ¬ ClauseFact root owner context clause .unavailable) :
    clause ∈ context.entityRevisions ∧
      ∃ candidate, clauseCandidates owner clause = [candidate] ∧
        ∀ other, ContractAt owner clause other ↔ other = candidate := by
  refine ⟨?_, ?_⟩
  · by_contra hmem
    exact hava (.undeclared hmem)
  · by_contra hno
    apply hava
    apply ClauseFact.ambiguous
    intro candidate heq
    apply hno
    refine ⟨candidate, heq, fun other => ?_⟩
    rw [← mem_clauseCandidates (h.models.of_nested howner), heq, mem_singleton]

variable {base : Basis} {facts : Set Fact} {linkOwner : Model} {link : Relationship}
  {entity : Entity} {evidence : Evidence}

lemma observationBasis_within (h : WellFormed root) (hba : base.Within root facts)
    (hsel : ∀ kind id, .selected kind id ∈ facts → base.Selected root kind id)
    (hava : .unavailable ∉ ObservationFacts root owner facts linkOwner link entity evidence) :
    (observationBasis base owner linkOwner link entity evidence).Within root
      (ObservationFacts root owner facts linkOwner link entity evidence) := by
  have hsubjects : base.subjects ⊆
      (observationBasis base owner linkOwner link entity evidence).subjects := Set.subset_union_left
  have hcit : base.citations ⊆
      (observationBasis base owner linkOwner link entity evidence).citations :=
    Set.subset_union_left.trans Set.subset_union_left
  have hcla : ∀ clause ∈ evidence.observation.clauses, ∀ candidate,
      ContractAt owner clause candidate → clauseCandidates owner clause = [candidate] := by
    intro clause hmem candidate hcon
    obtain ⟨-, found, heq, huni⟩ := clause_of_available howner h fun hmis =>
      hava (.inl (.inr ⟨clause, hmem, hmis⟩))
    rw [(huni candidate).mp hcon, heq]
  refine ⟨?_, ?_, ?_⟩
  · rintro subject (hsubject | ⟨clause, hmem, hcon⟩) f hf
    · exact .inl (.inl (.inl (.inl (hba.subjects subject hsubject f hf))))
    · exact .inl (.inr ⟨clause, hmem, .reached subject f (hcla clause hmem subject hcon) hf⟩)
  · rintro model citation ((hci | ⟨rfl, hmem⟩) | ⟨rfl, hmem⟩) f hf
    · exact .inl (.inl (.inl (.inl (hba.citations model citation hci f hf))))
    · exact .inl (.inl (.inl (.inr ⟨citation, hmem, hf⟩)))
    · exact .inl (.inl (.inr ⟨citation, hmem, hf⟩))
  · rintro model declared (heq | hdc)
    · cases heq
      refine ⟨howner, ObservationExact root owner facts linkOwner link entity evidence, ?_,
        fun f hf => .inr hf⟩
      rintro kind id (((hft | hci) | hci) | ⟨clause, hmem, hft⟩)
      · exact (hsel kind id hft).mono hsubjects hcit
      · exact selected_of_citedFact (fun r hr => .inl (.inr ⟨rfl, hr⟩)) hci
      · exact selected_of_citedFact (fun r hr => .inr ⟨rfl, hr⟩) hci
      · cases hft with
        | reached candidate _ heq hrch =>
          have hcon : ContractAt owner clause candidate := by
            rw [← mem_clauseCandidates (h.models.of_nested howner), heq]
            exact mem_singleton_self _
          refine selected_of_reachFact ?_ hrch
          exact .inr ⟨clause, hmem, hcon⟩
    · obtain ⟨hmo, exact, hx, hfa⟩ := hba.declarations model declared hdc
      exact ⟨hmo, exact, fun kind id hmem => (hx kind id hmem).mono hsubjects hcit,
        fun f hf => .inl (.inl (.inl (.inl (hfa f hf))))⟩

end Within

end Morphir.Intent
