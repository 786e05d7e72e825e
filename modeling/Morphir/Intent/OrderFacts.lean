import Morphir.Intent.Currency
import Morphir.Library.Reordering

/-!
# Models in another order

Models and contexts that differ in the order of their lists, and what they share.
-/

namespace Morphir.Intent

open Relation Reordering

structure Source.Alike (first second : Source) : Prop where
  id : first.id = second.id
  document : first.document = second.document
  resolution : first.resolution = second.resolution
  fragments : first.fragments.Perm second.fragments

structure RevisionContext.Alike (first second : RevisionContext) : Prop where
  model : first.model = second.model
  entities : first.entityRevisions.Perm second.entityRevisions
  sources : first.sourceRevisions.Perm second.sourceRevisions
  implementations : first.implementationRevisions.Perm second.implementationRevisions

structure Claim.Alike (first second : Claim) : Prop where
  subject : first.subject = second.subject
  context : first.context.Alike second.context

inductive Observation.Alike : Observation → Observation → Prop
  | run {clauses clauses' : List Snapshot} : clauses.Perm clauses' →
      Observation.Alike (.run clauses) (.run clauses')
  | analysis : Observation.Alike .analysis .analysis
  | review : Observation.Alike .review .review

structure Evidence.Alike (first second : Evidence) : Prop where
  context : first.context.Alike second.context
  observation : first.observation.Alike second.observation

inductive Content.Alike : Content → Content → Prop
  | same (content : Content) : Content.Alike content content
  | claim {first second : Claim} : first.Alike second → Content.Alike (.claim first) (.claim second)
  | evidence {first second : Evidence} : first.Alike second →
      Content.Alike (.evidence first) (.evidence second)

structure Entity.Alike (first second : Entity) : Prop where
  identity : first.identity = second.identity
  sourceRefs : first.sourceRefs.Perm second.sourceRefs
  content : first.content.Alike second.content

structure Relationship.Alike (first second : Relationship) : Prop where
  id : first.id = second.id
  predicate : first.predicate = second.predicate
  subject : first.subject = second.subject
  target : first.target = second.target
  sourceRefs : first.sourceRefs.Perm second.sourceRefs

inductive Model.Alike : Model → Model → Prop
  | intro {first second : Model} : first.identity = second.identity →
      Multiset.Rel Source.Alike (first.sources : Multiset Source) second.sources →
      Multiset.Rel Entity.Alike (first.entities : Multiset Entity) second.entities →
      Multiset.Rel Relationship.Alike (first.relationships : Multiset Relationship)
        second.relationships →
      Multiset.Rel Model.Alike (first.dependencies : Multiset Model) second.dependencies →
      Model.Alike first second

lemma Source.Alike.symm {first second : Source} (h : first.Alike second) : second.Alike first :=
  ⟨h.id.symm, h.document.symm, h.resolution.symm, h.fragments.symm⟩

lemma RevisionContext.Alike.symm {first second : RevisionContext} (h : first.Alike second) :
    second.Alike first :=
  ⟨h.model.symm, h.entities.symm, h.sources.symm, h.implementations.symm⟩

lemma RevisionContext.Alike.mem {first second : RevisionContext} (h : first.Alike second)
    (kind : Dependency) (snapshot : Snapshot) :
    snapshot ∈ first.revisions kind ↔ snapshot ∈ second.revisions kind := by
  cases kind with
  | entity => exact h.entities.mem_iff
  | source => exact h.sources.mem_iff
  | implementation => exact h.implementations.mem_iff

lemma Evidence.Alike.symm {first second : Evidence} (h : first.Alike second) :
    second.Alike first := by
  refine ⟨h.context.symm, ?_⟩
  have hal := h.observation
  generalize first.observation = a at hal ⊢
  generalize second.observation = b at hal ⊢
  cases hal with
  | run hcla => exact .run hcla.symm
  | analysis => exact .analysis
  | review => exact .review

lemma Content.Alike.symm {first second : Content} (h : first.Alike second) :
    second.Alike first := by
  cases h with
  | same => exact .same _
  | claim h => exact .claim ⟨h.subject.symm, h.context.symm⟩
  | evidence h => exact .evidence h.symm

lemma Entity.Alike.symm {first second : Entity} (h : first.Alike second) : second.Alike first :=
  ⟨h.identity.symm, h.sourceRefs.symm, h.content.symm⟩

lemma Relationship.Alike.symm {first second : Relationship} (h : first.Alike second) :
    second.Alike first :=
  ⟨h.id.symm, h.predicate.symm, h.subject.symm, h.target.symm, h.sourceRefs.symm⟩

namespace Model.Alike

variable {first second : Model}

section

variable (h : first.Alike second)

include h

lemma identity : first.identity = second.identity := by
  cases h
  assumption

lemma sources : Reordered Source.Alike first.sources second.sources := by
  cases h
  assumption

lemma entities :
    Reordered Entity.Alike first.entities second.entities := by
  cases h
  assumption

lemma relationships :
    Reordered Relationship.Alike first.relationships second.relationships := by
  cases h
  assumption

lemma dependencies :
    Reordered Model.Alike first.dependencies second.dependencies := by
  cases h
  assumption

lemma symm : second.Alike first := by
  induction first using Model.nested_induction generalizing second with
  | step first ih =>
    apply Model.Alike.intro h.identity.symm
    · exact h.sources.flip.mono fun _ _ _ _ hab => hab.symm
    · exact h.entities.flip.mono fun _ _ _ _ hab => hab.symm
    · exact h.relationships.flip.mono fun _ _ _ _ hab => hab.symm
    · exact h.dependencies.flip.mono fun _ _ d hd hab => ih d hd hab

lemma nested : Reordered Model.Alike first.nested second.nested := by
  induction first using Model.nested_induction generalizing second with
  | step first ih =>
    rw [first.nested_eq, second.nested_eq]
    exact (Reordered.single h).append (h.dependencies.flatMap fun d hd _ _ hab => ih d hd hab)

lemma distinct (hdi : first.Distinct) : second.Distinct :=
  (h.nested.map_perm fun _ _ hab => hab.identity).nodup_iff.mp hdi

lemma recordIds : first.recordIds.Perm second.recordIds := by
  apply List.Perm.append
  · apply List.Perm.append
    · exact h.sources.map_perm fun _ _ hab => hab.id
    · exact h.entities.map_perm fun _ _ hab => congrArg Snapshot.id hab.identity
  · exact h.relationships.map_perm fun _ _ hab => hab.id

end

variable {reference : ResolvedRef}

section

variable (h : first.Alike second)

include h

lemma supplies {owner : Model} {entity : Entity} (hsup : Supplies first reference owner entity) :
    ∃ owner' entity', Supplies second reference owner' entity' ∧ owner.Alike owner' ∧
      entity.Alike entity' := by
  obtain ⟨owner', howner', hal⟩ := h.nested.exists_mem hsup.nested
  obtain ⟨entity', hety', hent⟩ := hal.entities.exists_mem hsup.mem
  refine ⟨owner', entity', ⟨howner', ?_, hety', ?_⟩, hal, hent⟩
  · rw [← hal.identity, hsup.model]
  · rw [← hent.identity, hsup.entity]

lemma asserted {owner : Model} {link : Relationship} (hast : Asserted first owner link) :
    ∃ owner' link', Asserted second owner' link' ∧ owner.Alike owner' ∧ link.Alike link' := by
  obtain ⟨owner', howner', hal⟩ := h.nested.exists_mem hast.nested
  obtain ⟨link', hlk', hlks⟩ := hal.relationships.exists_mem hast.mem
  exact ⟨owner', link', ⟨howner', hlk'⟩, hal, hlks⟩

lemma supplied (hspd : Supplied first reference) : Supplied second reference := by
  obtain ⟨owner, entity, hsup⟩ := hspd
  obtain ⟨owner', entity', hsup', -, -⟩ := h.supplies hsup
  exact ⟨owner', entity', hsup'⟩

lemma refersTo {fits fits' : Entity → Prop} (hfi : ∀ e e', e.Alike e' → fits e → fits' e')
    (href : RefersTo first reference fits) : RefersTo second reference fits' := by
  obtain ⟨owner, entity, hsup, hety⟩ := href
  obtain ⟨owner', entity', hsup', -, hal⟩ := h.supplies hsup
  exact ⟨owner', entity', hsup', hfi entity entity' hal hety⟩

lemma cites {reference : SourceRef} (hcites : Cites first reference) : Cites second reference := by
  obtain ⟨source, hsrc, hid, hanc⟩ := hcites
  obtain ⟨source', hsrc', hal⟩ := h.sources.exists_mem hsrc
  exact ⟨source', hsrc', hal.id ▸ hid, hal.fragments.mem_iff.mp hanc⟩

end

end Model.Alike

namespace Entity.Alike

variable {first second : Entity}

section

variable (h : first.Alike second)

include h

lemma kind : first.kind = second.kind := by
  have hal := h.content
  rw [Entity.kind, Entity.kind]
  generalize first.content = a at hal ⊢
  generalize second.content = b at hal ⊢
  cases hal <;> rfl

lemma clauseFits (kind : ClauseKind) : clauseFits kind first = clauseFits kind second := by
  have hal := h.content
  rw [Intent.clauseFits.eq_def, Intent.clauseFits.eq_def]
  generalize first.content = a at hal ⊢
  generalize second.content = b at hal ⊢
  cases hal with
  | same => rfl
  | _ => cases kind <;> rfl

lemma references :
    first.content.references = second.content.references := by
  have hal := h.content
  generalize first.content = a at hal ⊢
  generalize second.content = b at hal ⊢
  cases hal <;> rfl

lemma citations : first.citations.Perm second.citations := by
  have hal := h.content
  apply h.sourceRefs.append
  generalize first.content = a at hal ⊢
  generalize second.content = b at hal ⊢
  cases hal <;> rfl

lemma implementation {artifact : Snapshot} (hct : first.content = .implementation artifact) :
    second.content = .implementation artifact := by
  have hal := h.content
  rw [hct] at hal
  generalize second.content = b at hal ⊢
  cases hal
  rfl

end

end Entity.Alike

lemma endpointError_alike {link link' : Relationship} {subject subject' target target' : Entity}
    (hlk : link.Alike link') (hsub : subject.Alike subject') (htgt : target.Alike target') :
    endpointError link subject target = endpointError link' subject' target' := by
  have hfst := hsub.content
  have hsnd := htgt.content
  rw [endpointError.eq_def, endpointError.eq_def, hlk.predicate, hlk.subject]
  generalize subject.content = a at hfst ⊢
  generalize subject'.content = a' at hfst ⊢
  generalize target.content = b at hsnd ⊢
  generalize target'.content = b' at hsnd ⊢
  cases hfst with
  | same =>
    cases hsnd with
    | same => rfl
    | _ => cases link'.predicate <;> simp
  | _ => cases hsnd <;> cases link'.predicate <;> simp

end Morphir.Intent

/-!
## Facts in another order

Models in another order are well formed together and have the same facts.
-/

namespace Morphir.Intent

open Relation Reordering

section Fits

variable {first second : Model} (h : first.Alike second)
include h

lemma contentFits_alike {content content' : Content} (hct : content.Alike content')
    (hfi : ContentFits first content) : ContentFits second content' := by
  cases hct with
  | same =>
    cases content with
    | sourceFragment reference => exact h.cites hfi
    | declaration role binding =>
      cases binding with
      | none => trivial
      | some binding => exact h.refersTo (fun _ _ hal hkd => hal.kind ▸ hkd) hfi
    | contract subject kind expression =>
      exact h.refersTo (fun _ _ hal hkd => hal.clauseFits kind ▸ hkd) hfi
    | claim claim => exact h.refersTo (fun _ _ _ _ => trivial) hfi
    | _ => trivial
  | claim hcm =>
    rw [ContentFits, ← hcm.subject]
    exact h.refersTo (fun _ _ _ _ => trivial) hfi
  | evidence _ => trivial

lemma linkFits_alike {link link' : Relationship} (hlk : link.Alike link')
    (hfi : LinkFits first link) : LinkFits second link' := by
  rw [LinkFits, ← hlk.subject, ← hlk.predicate]
  apply h.refersTo _ hfi
  rintro subject subject' hsub ⟨hkd, htgt⟩
  refine ⟨hsub.kind ▸ hkd, ?_⟩
  rw [TargetFits, ← hlk.predicate, ← hlk.target]
  rw [TargetFits] at htgt
  cases hc : link.target with
  | unresolved kind => simpa only [hc] using htgt
  | resolved reference =>
    simp only [hc] at htgt ⊢
    apply h.refersTo _ htgt
    rintro target target' hal ⟨htargetKind, hend⟩
    exact ⟨hal.kind ▸ htargetKind, endpointError_alike hlk hsub hal ▸ hend⟩

lemma fits_alike (hfi : Fits first) : Fits second := by
  refine ⟨h.recordIds.nodup_iff.mp hfi.identities, ?_, ?_, ?_⟩
  · intro source hsrc
    obtain ⟨other, ho, hal⟩ := h.symm.sources.exists_mem hsrc
    have hsourceFits := hfi.sources other ho
    refine ⟨fun hret hemp => ?_, hal.fragments.nodup_iff.mpr hsourceFits.anchors⟩
    apply hsourceFits.retained (hal.resolution ▸ hret)
    exact (hal.fragments.symm.trans (hemp ▸ .refl _)).eq_nil
  · intro entity hety
    obtain ⟨other, ho, hal⟩ := h.symm.entities.exists_mem hety
    obtain ⟨hrefs, hct⟩ := hfi.entities other ho
    refine ⟨fun r hr => h.cites (hrefs r (hal.sourceRefs.mem_iff.mp hr)), ?_⟩
    exact contentFits_alike h hal.symm.content hct
  · intro link hlk
    obtain ⟨other, ho, hal⟩ := h.symm.relationships.exists_mem hlk
    obtain ⟨hrefs, hlinkFits⟩ := hfi.links other ho
    refine ⟨fun r hr => h.cites (hrefs r (hal.sourceRefs.mem_iff.mp hr)), ?_⟩
    exact linkFits_alike h hal.symm hlinkFits

lemma WellFormed.alike (hwell : WellFormed first) : WellFormed second := by
  refine ⟨h.distinct hwell.models, fun owner howner => ?_⟩
  obtain ⟨other, ho, hal⟩ := h.symm.nested.exists_mem howner
  exact fits_alike hal.symm (hwell.fits other ho)

end Fits

lemma documentFacts_alike {source source' : Source} (h : source.Alike source') :
    documentFacts source = documentFacts source' := by
  rw [documentFacts, documentFacts, h.document, h.resolution]

variable {owner owner' : Model}

lemma sourceFacts_alike (h : owner.Alike owner') (hids : owner.recordIds.Nodup)
    (citation : SourceRef) : sourceFacts owner citation = sourceFacts owner' citation := by
  have hnd := recordIds_sources hids
  have hnd' := recordIds_sources (h.recordIds.nodup_iff.mp hids)
  rw [sourceFacts, sourceFacts]
  cases hfn : owner.sources.find? fun s => s.id = citation.sourceId with
  | some source =>
    obtain ⟨hmem, hid⟩ := (Keyed.find?_eq_some hnd).mp hfn
    obtain ⟨source', hmem', hal⟩ := h.sources.exists_mem hmem
    have hfn' := (Keyed.find?_eq_some hnd').mpr ⟨hmem', hal.id ▸ hid⟩
    rw [hfn']
    simp only [documentFacts_alike hal, hal.document]
  | none =>
    cases hfn' : owner'.sources.find? fun s => s.id = citation.sourceId with
    | none => rfl
    | some source' =>
      obtain ⟨hmem', hid'⟩ := (Keyed.find?_eq_some hnd').mp hfn'
      obtain ⟨source, hmem, hal⟩ := h.symm.sources.exists_mem hmem'
      have hso := (Keyed.find?_eq_some hnd).mpr ⟨hmem, hal.id ▸ hid'⟩
      rw [hso] at hfn
      cases hfn

lemma touches_alike {reference : ResolvedRef} {link link' : Relationship} (h : link.Alike link')
    (htou : Touches reference link) : Touches reference link' := by
  rw [Touches, ← h.subject, ← h.predicate, ← h.target]
  exact htou

section Facts

variable {root root' : Model} (h : root.Alike root') (hwell : WellFormed root)
include h

lemma depends_alike {source target : ResolvedRef} (hdep : Depends root source target) :
    Depends root' source target := by
  cases hdep with
  | forward owner link _ hast hfwd htgt =>
    obtain ⟨owner', link', hast', -, hal⟩ := h.asserted hast
    rw [hal.subject]
    exact .forward owner' link' target hast' (hal.predicate ▸ hfwd)
      (hal.target ▸ htgt)
  | backward owner link _ hast hbac htgt =>
    obtain ⟨owner', link', hast', -, hal⟩ := h.asserted hast
    rw [hal.subject]
    exact .backward owner' link' source hast' (hal.predicate ▸ hbac)
      (hal.target ▸ htgt)
  | content owner entity _ _ hsup hct =>
    obtain ⟨owner', entity', hsup', -, hal⟩ := h.supplies hsup
    exact .content owner' entity' source target hsup' (hal.references ▸ hct)

lemma reaches_alike {source target : ResolvedRef} (hrch : Reaches root source target) :
    Reaches root' source target := by
  induction hrch with
  | refl => exact .refl
  | tail _ hs ih => exact ih.tail ⟨h.supplied hs.1, depends_alike h hs.2⟩

include hwell

lemma visitFact_alike {reference : ResolvedRef} {fact : Fact} (hv : VisitFact root reference fact)
    : VisitFact root' reference fact := by
  cases hv with
  | required => exact .required
  | missing hmis => exact .missing fun hspd => hmis (h.symm.supplied hspd)
  | entity _ hspd hft => exact .entity fact (h.supplied hspd) hft
  | source owner entity citation _ hsup hmem hft =>
    obtain ⟨owner', entity', hsup', howner, hety⟩ := h.supplies hsup
    rw [sourceFacts_alike howner (hwell.fits owner hsup.nested).identities] at hft
    exact .source owner' entity' citation fact hsup'
      (hety.citations.mem_iff.mp hmem) hft
  | artifact owner entity artifact _ hsup hct hft =>
    obtain ⟨owner', entity', hsup', -, hety⟩ := h.supplies hsup
    exact .artifact owner' entity' artifact fact hsup'
      (hety.implementation hct) hft
  | link owner link citation _ hspd hast htou hmem hft =>
    obtain ⟨owner', link', hast', howner, hlk⟩ := h.asserted hast
    rw [sourceFacts_alike howner (hwell.fits owner hast.nested).identities] at hft
    exact .link owner' link' citation fact (h.supplied hspd) hast'
      (touches_alike hlk htou) (hlk.sourceRefs.mem_iff.mp hmem) hft
  | unresolved owner link kind hspd hast htou htgt =>
    obtain ⟨owner', link', hast', -, hlk⟩ := h.asserted hast
    exact .unresolved owner' link' kind (h.supplied hspd) hast'
      (touches_alike hlk htou) (hlk.target ▸ htgt)

lemma reachFact_alike {selected : ResolvedRef} {fact : Fact} (hft : ReachFact root selected fact)
    : ReachFact root' selected fact := by
  obtain ⟨reference, hrch, hv⟩ := hft
  exact ⟨reference, reaches_alike h hrch, visitFact_alike h hwell hv⟩

lemma reachFact_eq (selected : ResolvedRef) :
    {f | ReachFact root selected f} = {f | ReachFact root' selected f} := by
  ext fact
  exact ⟨reachFact_alike h hwell, reachFact_alike h.symm (hwell.alike h)⟩

end Facts

lemma citedFact_eq (h : owner.Alike owner') (hids : owner.recordIds.Nodup)
    {citations citations' : List SourceRef} (hcit : citations.Perm citations') :
    {f | CitedFact owner citations f} = {f | CitedFact owner' citations' f} := by
  ext fact
  simp only [CitedFact, sourceFacts_alike h hids, hcit.mem_iff]

lemma context_facts_eq {context context' : RevisionContext} (h : context.Alike context') :
    context.facts = context'.facts := by
  simp only [RevisionContext.facts, h.mem]

lemma declared_alike {exact : Set Fact} (h : owner.Alike owner') (hdi : owner.Distinct)
    {declared declared' : RevisionContext} (hdc : declared.Alike declared') {fact : Fact}
    (hft : Declared exact owner declared fact) : Declared exact owner' declared' fact := by
  have hscope : ∀ candidate ∈ owner.scope, ∃ candidate' ∈ owner'.scope,
    candidate.Alike candidate' := by
    intro candidate hcd
    obtain ⟨candidate', hnes, hal⟩ := h.nested.exists_mem (hdi.mem_scope.mp hcd)
    exact ⟨candidate', (h.distinct hdi).mem_scope.mpr hnes, hal⟩
  have hop : ∀ kind id, Unselected exact declared kind id →
    Unselected exact declared' kind id := by
    rintro kind id ⟨⟨entry, hent, hid⟩, hsel⟩
    exact ⟨⟨entry, (hdc.mem kind entry).mp hent, hid⟩, hsel⟩
  cases hft with
  | required kind entry hent => exact .required kind entry ((hdc.mem kind entry).mp hent)
  | entity candidate entity hcd hmem hid =>
    obtain ⟨candidate', hcd', hal⟩ := hscope candidate hcd
    obtain ⟨entity', hmem', hety⟩ := hal.entities.exists_mem hmem
    rw [hety.identity] at hid ⊢
    exact .entity candidate' entity' hcd' hmem' (hop _ _ hid)
  | implementation candidate entity artifact hcd hmem hct hid =>
    obtain ⟨candidate', hcd', hal⟩ := hscope candidate hcd
    obtain ⟨entity', hmem', hety⟩ := hal.entities.exists_mem hmem
    exact .implementation candidate' entity' artifact hcd' hmem'
      (hety.implementation hct) (hop _ _ hid)
  | source candidate source _ hcd hmem hid hdoc =>
    obtain ⟨candidate', hcd', hal⟩ := hscope candidate hcd
    obtain ⟨source', hmem', hsrc⟩ := hal.sources.exists_mem hmem
    rw [hsrc.document] at hid
    rw [documentFacts_alike hsrc] at hdoc
    exact .source candidate' source' fact hcd' hmem' (hop _ _ hid) hdoc

lemma declared_eq {exact : Set Fact} (h : owner.Alike owner') (hdi : owner.Distinct)
    {declared declared' : RevisionContext} (hdc : declared.Alike declared') :
    {f | Declared exact owner declared f} = {f | Declared exact owner' declared' f} := by
  ext fact
  exact ⟨declared_alike h hdi hdc, declared_alike h.symm (h.distinct hdi) hdc.symm⟩

section Contexts

variable {root root' owner owner' : Model} (h : root.Alike root') (hwell : WellFormed root)
  (howner : owner ∈ root.nested) (halike : owner.Alike owner')
include h hwell howner halike

lemma claimFacts_eq {claim claim' : Claim} (hcm : claim.Alike claim')
    {citations citations' : List SourceRef} (hcitations : citations.Perm citations') :
    ClaimFacts root owner claim citations = ClaimFacts root' owner' claim' citations' := by
  have hx : ClaimExact root owner claim citations =
    ClaimExact root' owner' claim' citations' := by
    rw [ClaimExact, ClaimExact, context_facts_eq hcm.context, hcm.subject,
      reachFact_eq h hwell, citedFact_eq halike (hwell.fits owner howner).identities hcitations]
  rw [ClaimFacts, ClaimFacts, hx, declared_eq halike (hwell.models.of_nested howner) hcm.context]

omit howner halike in
lemma clauseFact_alike {context context' : RevisionContext} (hcontext : context.Alike context')
    {clause : Snapshot} (hcands : ∀ candidate, clauseCandidates owner clause = [candidate] ↔
      clauseCandidates owner' clause = [candidate]) {fact : Fact}
    (hft : ClauseFact root owner context clause fact) :
    ClauseFact root' owner' context' clause fact := by
  cases hft with
  | required => exact .required
  | undeclared hmem => exact .undeclared fun hmem' => hmem (hcontext.entities.mem_iff.mpr hmem')
  | ambiguous hno => exact .ambiguous fun candidate heq => hno candidate ((hcands _).mpr heq)
  | reached candidate _ heq hreach =>
    exact .reached candidate fact ((hcands _).mp heq) (reachFact_alike h hwell hreach)

omit h hwell howner halike in
lemma clauseCandidates_perm (hal : owner.Alike owner') (hdi : owner.Distinct) (clause : Snapshot)
    : (clauseCandidates owner clause).Perm
      (clauseCandidates owner' clause) := by
  have hscope : Reordered Model.Alike owner.scope owner'.scope :=
    (hal.nested.perm_left hdi.scope_perm).perm_right
      (hal.distinct hdi).scope_perm.symm
  have hrel : Reordered Eq (clauseCandidates owner clause) (clauseCandidates owner' clause) := by
    apply hscope.flatMap
    intro candidate _ candidate' _ hcd
    have hfil := hcd.entities.filter
      (p := fun e => e.identity = clause && e.kind = .contract)
      fun e _ e' _ hety => by rw [hety.identity, hety.kind]
    apply hfil.map
    intro e _ e' _ hety
    rw [hcd.identity, hety.identity]
  have hpm := hrel.map_perm fun _ _ heq => heq
  simpa using hpm

lemma clausesFact_eq {evidence evidence' : Evidence} (hevidence : evidence.Alike evidence') :
    {f | ClausesFact root owner evidence f} = {f | ClausesFact root' owner' evidence' f} := by
  have hclauses : evidence.observation.clauses.Perm evidence'.observation.clauses := by
    have hobs := hevidence.observation
    generalize evidence.observation = a at hobs ⊢
    generalize evidence'.observation = b at hobs ⊢
    cases hobs with
    | run hclauses => exact hclauses
    | _ => exact .refl _
  have hcands : ∀ clause candidate, clauseCandidates owner clause = [candidate] ↔
      clauseCandidates owner' clause = [candidate] := by
    intro clause candidate
    have hpm := clauseCandidates_perm halike (hwell.models.of_nested howner) clause
    constructor
    · intro heq
      rw [heq] at hpm
      exact List.singleton_perm.mp hpm |>.symm
    · intro heq
      rw [heq] at hpm
      exact List.perm_singleton.mp hpm
  ext fact
  constructor
  · rintro ⟨clause, hmem, hft⟩
    exact ⟨clause, hclauses.mem_iff.mp hmem,
      clauseFact_alike h hwell hevidence.context (hcands clause) hft⟩
  · rintro ⟨clause, hmem, hft⟩
    exact ⟨clause, hclauses.mem_iff.mpr hmem, clauseFact_alike h.symm (hwell.alike h)
      hevidence.context.symm (fun candidate => (hcands clause candidate).symm) hft⟩

lemma observationFacts_eq (base : Set Fact) {linkOwner linkOwner' : Model}
    (hlinkOwner : linkOwner.Alike linkOwner') (hlinkNested : linkOwner ∈ root.nested)
    {link link' : Relationship} (hlk : link.Alike link') {entity entity' : Entity}
    (hentity : entity.Alike entity') {evidence evidence' : Evidence}
    (hevidence : evidence.Alike evidence') :
    ObservationFacts root owner base linkOwner link entity evidence =
      ObservationFacts root' owner' base linkOwner' link' entity' evidence' := by
  have hx : ObservationExact root owner base linkOwner link entity evidence =
      ObservationExact root' owner' base linkOwner' link' entity' evidence' := by
    rw [ObservationExact, ObservationExact,
      citedFact_eq halike (hwell.fits owner howner).identities hentity.sourceRefs,
      citedFact_eq hlinkOwner (hwell.fits linkOwner hlinkNested).identities hlk.sourceRefs,
      clausesFact_eq h hwell howner halike hevidence]
  rw [ObservationFacts, ObservationFacts, hx,
    declared_eq halike (hwell.models.of_nested howner) hevidence.context]

end Contexts

lemma compareContext_alike {context context' : RequiredContext} {model : Snapshot}
    {facts : Set Fact} (h : Describes context model facts) (h' : Describes context' model facts)
    {recorded recorded' requested requested' : RevisionContext} (hrcd : recorded.Alike recorded')
    (hrqd : requested.Alike requested') :
    compareContext recorded requested context = compareContext recorded' requested' context' := by
  have hdet : Determined facts recorded requested ↔
      Determined facts recorded' requested' := by
    have hns : ∀ {a b : RevisionContext}, a.Alike b → (a.Names facts ↔ b.Names facts) := by
      intro a b hab
      simp only [RevisionContext.Names, hab.mem]
    constructor
    · rintro ⟨hava, hagr, hfst, hsnd⟩
      exact ⟨hava, hagr, (hns hrcd).mp hfst, (hns hrqd).mp hsnd⟩
    · rintro ⟨hava, hagr, hfst, hsnd⟩
      exact ⟨hava, hagr, (hns hrcd).mpr hfst, (hns hrqd).mpr hsnd⟩
  have hmat : Matches facts model recorded requested ↔
      Matches facts model recorded' requested' := by
    constructor
    · rintro ⟨hfst, hsnd, hact, hsm⟩
      refine ⟨hrcd.model ▸ hfst, hrqd.model ▸ hsnd, ?_, ?_⟩
      · exact fun kind s hs => (hrqd.mem kind s).mp (hact kind s hs)
      · intro kind s
        rw [← hrcd.mem, ← hrqd.mem, hsm]
    · rintro ⟨hfst, hsnd, hact, hsm⟩
      refine ⟨hrcd.model.symm ▸ hfst, hrqd.model.symm ▸ hsnd, ?_, ?_⟩
      · exact fun kind s hs => (hrqd.mem kind s).mpr (hact kind s hs)
      · intro kind s
        rw [hrcd.mem, hrqd.mem, hsm]
  rw [h.compareContext_eq recorded requested, h'.compareContext_eq recorded' requested',
    propext hdet, propext hmat]

end Morphir.Intent
