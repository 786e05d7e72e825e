import Morphir.Intent.Facts
import Morphir.Intent.WellFormed

/-!
# Dependencies

The entities that an entity depends on, over the supplied models, and the facts of the
traversal that visits them.
-/

namespace Morphir.Intent

open Relation Traversal List Need

def Predicate.Forward (predicate : Predicate) : Prop :=
  predicate = .refines ∨ predicate = .derivedFrom ∨ predicate = .governedBy

def Predicate.Backward (predicate : Predicate) : Prop :=
  predicate = .formalizes ∨ predicate = .exercises ∨ predicate = .implements

structure Asserted (root owner : Model) (link : Relationship) : Prop where
  nested : owner ∈ root.nested
  mem : link ∈ owner.relationships

def Touches (reference : ResolvedRef) (link : Relationship) : Prop :=
  (link.subject = reference ∧ link.predicate.Forward) ∨
    (link.target = .resolved reference ∧ link.predicate.Backward)

/-- What a reference depends on: through a link from its subject, through a link from its
target, or as the subject of a contract or the binding of a declaration. -/
inductive Depends (root : Model) : ResolvedRef → ResolvedRef → Prop
  | forward (owner : Model) (link : Relationship) (target : ResolvedRef) :
      Asserted root owner link → link.predicate.Forward → link.target = .resolved target →
      Depends root link.subject target
  | backward (owner : Model) (link : Relationship) (target : ResolvedRef) :
      Asserted root owner link → link.predicate.Backward → link.target = .resolved target →
      Depends root target link.subject
  | content (owner : Model) (entity : Entity) (source target : ResolvedRef) :
      Supplies root source owner entity → target ∈ entity.content.references →
      Depends root source target

def Supplied (root : Model) (reference : ResolvedRef) : Prop :=
  ∃ owner entity, Supplies root reference owner entity

def Reaches (root : Model) : ResolvedRef → ResolvedRef → Prop :=
  ReflTransGen fun source target => Supplied root source ∧ Depends root source target

def Entity.citations (entity : Entity) : List SourceRef :=
  entity.sourceRefs ++
    match entity.content with
    | .sourceFragment reference => [reference]
    | _ => []

inductive VisitFact (root : Model) (reference : ResolvedRef) : Fact → Prop
  | required : VisitFact root reference (.required .entity reference.entity.id)
  | missing : ¬ Supplied root reference → VisitFact root reference .unavailable
  | entity (fact : Fact) :
      Supplied root reference → fact ∈ (Need.selected reference.entity).facts →
      VisitFact root reference fact
  | source (owner : Model) (entity : Entity) (citation : SourceRef) (fact : Fact) :
      Supplies root reference owner entity → citation ∈ entity.citations →
      fact ∈ sourceFacts owner citation → VisitFact root reference fact
  | artifact (owner : Model) (entity : Entity) (artifact : Snapshot) (fact : Fact) :
      Supplies root reference owner entity → entity.content = .implementation artifact →
      fact ∈ (Need.artifact artifact).facts → VisitFact root reference fact
  | link (owner : Model) (link : Relationship) (citation : SourceRef) (fact : Fact) :
      Supplied root reference → Asserted root owner link → Touches reference link →
      citation ∈ link.sourceRefs → fact ∈ sourceFacts owner citation →
      VisitFact root reference fact
  | unresolved (owner : Model) (link : Relationship) (kind : EntityKind) :
      Supplied root reference → Asserted root owner link → Touches reference link →
      link.target = .unresolved kind → VisitFact root reference .unavailable

variable {reference : ResolvedRef} {link : Relationship}

lemma follows_iff :
    follows reference link = true ↔ link.subject = reference ∧ link.predicate.Forward := by
  simp [follows, Predicate.Forward, or_assoc]

lemma reverses_iff :
    reverses reference link = true ↔
      link.target = .resolved reference ∧ link.predicate.Backward := by
  simp [reverses, Predicate.Backward, or_assoc]

lemma touches_iff :
    Touches reference link ↔ follows reference link = true ∨ reverses reference link = true := by
  rw [follows_iff, reverses_iff, Touches]

variable {owner : Model}

variable {step : Step Need ResolvedRef}

lemma mem_linkSteps : step ∈ linkSteps reference owner link ↔
      Touches reference link ∧
        ((∃ r ∈ link.sourceRefs, step = .note (.source owner r)) ∨
          (relationshipError owner link ≠ none ∧ step = .note .unavailable) ∨
          (follows reference link = true ∧ ∃ target, link.target = .resolved target ∧
            step = .visit target) ∨
          (follows reference link = true ∧ ∃ kind, link.target = .unresolved kind ∧
            step = .note .unavailable) ∨
          (reverses reference link = true ∧ step = .visit link.subject)) := by
  rw [linkSteps, touches_iff]
  by_cases htou : follows reference link = true ∨ reverses reference link = true
  · rw [if_pos htou]
    simp only [htou, true_and, mem_append, mem_map]
    constructor
    · rintro (((⟨r, hr, rfl⟩ | hs) | hs) | hs)
      · exact .inl ⟨r, hr, rfl⟩
      · split at hs
        · cases hs
        · rename_i her
          exact .inr (.inl ⟨her, mem_singleton.mp hs⟩)
      · split at hs
        · rename_i hfol
          split at hs
          · rename_i target htgt
            exact .inr (.inr (.inl ⟨hfol, target, htgt, mem_singleton.mp hs⟩))
          · rename_i kind htgt
            exact .inr (.inr (.inr (.inl ⟨hfol, kind, htgt, mem_singleton.mp hs⟩)))
        · cases hs
      · split at hs
        · rename_i hrev
          exact .inr (.inr (.inr (.inr ⟨hrev, mem_singleton.mp hs⟩)))
        · cases hs
    · rintro (⟨r, hr, rfl⟩ | ⟨her, rfl⟩ | ⟨hfol, target, htgt, rfl⟩ |
        ⟨hfol, kind, htgt, rfl⟩ | ⟨hrev, rfl⟩)
      · exact .inl (.inl (.inl ⟨r, hr, rfl⟩))
      · rw [if_neg her]
        exact .inl (.inl (.inr (mem_singleton_self _)))
      · rw [if_pos hfol, htgt]
        exact .inl (.inr (mem_singleton_self _))
      · rw [if_pos hfol, htgt]
        exact .inl (.inr (mem_singleton_self _))
      · rw [if_pos hrev]
        exact .inr (mem_singleton_self _)
  · simp [htou]

lemma visit_mem_contentSteps {content : Content} {target : ResolvedRef} :
    .visit target ∈ contentSteps owner content ↔ target ∈ content.references := by
  cases content with
  | declaration role binding => cases binding <;> simp [contentSteps, Content.references]
  | _ => simp [contentSteps, Content.references]

lemma note_mem_contentSteps {content : Content} {need : Need} :
    .note need ∈ contentSteps owner content ↔
      (∃ r, content = .sourceFragment r ∧ need = .source owner r) ∨
        ∃ artifact, content = .implementation artifact ∧ need = .artifact artifact := by
  cases content with
  | declaration role binding => cases binding <;> simp [contentSteps]
  | _ => simp [contentSteps]

lemma mem_citations {entity : Entity} {r : SourceRef} :
    r ∈ entity.citations ↔ r ∈ entity.sourceRefs ∨ entity.content = .sourceFragment r := by
  rw [Entity.citations]
  cases entity.content with
  | sourceFragment reference => simp [eq_comm]
  | _ => simp

lemma mem_entitySteps {root : Model} {entity : Entity} (h : root.Resolvable)
    (hsup : Supplies root reference owner entity) :
    step ∈ entitySteps root reference ↔
      step = .note (.entity reference.entity.id) ∨ step = .note (.selected entity.identity) ∨
        (∃ r ∈ entity.sourceRefs, step = .note (.source owner r)) ∨
        step ∈ contentSteps owner entity.content ∨
        ∃ linkOwner link, Asserted root linkOwner link ∧
          step ∈ linkSteps reference linkOwner link := by
  have hrsv := h.resolve_eq_ok.mpr ⟨owner, hsup⟩
  have hfn := h.models.findModel_eq_some.mpr ⟨hsup.nested, hsup.model⟩
  simp only [entitySteps, hrsv, hfn, mem_cons, mem_append, mem_map, mem_flatMap, h.models.mem_scope]
  constructor
  · rintro (hs | hs | (⟨r, hr, rfl⟩ | hs) | ⟨linkOwner, howner, link, hlk, hs⟩)
    · exact .inl hs
    · exact .inr (.inl hs)
    · exact .inr (.inr (.inl ⟨r, hr, rfl⟩))
    · exact .inr (.inr (.inr (.inl hs)))
    · exact .inr (.inr (.inr (.inr ⟨linkOwner, link, ⟨howner, hlk⟩, hs⟩)))
  · rintro (hs | hs | ⟨r, hr, rfl⟩ | hs | ⟨linkOwner, link, hast, hs⟩)
    · exact .inl hs
    · exact .inr (.inl hs)
    · exact .inr (.inr (.inl (.inl ⟨r, hr, rfl⟩)))
    · exact .inr (.inr (.inl (.inr hs)))
    · exact .inr (.inr (.inr ⟨linkOwner, hast.nested, link, hast.mem, hs⟩))

lemma entitySteps_missing {root : Model} (h : root.Resolvable)
    (hmis : ¬ Supplied root reference) : entitySteps root reference =
      [.note (.entity reference.entity.id), .note .unavailable] := by
  cases hrsv : resolve root reference with
  | ok entity =>
    obtain ⟨owner, hsup⟩ := h.resolve_eq_ok.mp hrsv
    exact absurd ⟨owner, entity, hsup⟩ hmis
  | error code => simp [entitySteps, hrsv]

lemma relationshipError_eq_none (h : owner.Resolvable) (hfi : LinkFits owner link) :
    relationshipError owner link = none ↔ ∃ target, link.target = .resolved target := by
  obtain ⟨subject, hrsv, hkd, htgt⟩ := (refersTo_iff h).mp hfi
  rw [TargetFits] at htgt
  rw [relationshipError, hrsv]
  simp only [hkd, ne_eq, not_true_eq_false, targetError]
  cases hc : link.target with
  | unresolved kind =>
    simp only [hc] at htgt
    simp [htgt]
  | resolved reference =>
    simp only [hc] at htgt
    obtain ⟨target, hres, htargetKind, hend⟩ := (refersTo_iff h).mp htgt
    simp [hres, htargetKind, hend]

section WellFormed

variable {root : Model} (h : WellFormed root)
include h

lemma WellFormed.relationshipError_ne_none (hast : Asserted root owner link) :
    relationshipError owner link ≠ none ↔ ∃ kind, link.target = .unresolved kind := by
  have howner := h.resolvable.of_nested hast.nested
  rw [ne_eq, relationshipError_eq_none howner ((h.fits owner hast.nested).links link hast.mem).2]
  cases link.target <;> simp

lemma WellFormed.next_iff {source target : ResolvedRef} :
    Next (entitySteps root) source target ↔ Supplied root source ∧ Depends root source target := by
  by_cases hspd : Supplied root source
  · obtain ⟨owner, entity, hsup⟩ := hspd
    rw [Next, mem_entitySteps h.resolvable hsup, visit_mem_contentSteps]
    constructor
    · rintro (hs | hs | ⟨r, -, hs⟩ | hct | ⟨linkOwner, link, hast, hs⟩)
      · cases hs
      · cases hs
      · cases hs
      · exact ⟨⟨owner, entity, hsup⟩, .content owner entity source target hsup hct⟩
      · refine ⟨⟨owner, entity, hsup⟩, ?_⟩
        obtain ⟨-, ⟨r, -, hs⟩ | ⟨-, hs⟩ | ⟨hfol, other, htgt, hs⟩ |
          ⟨-, kind, -, hs⟩ | ⟨hrev, hs⟩⟩ := mem_linkSteps.mp hs
        · cases hs
        · cases hs
        · cases hs
          obtain ⟨rfl, hfwd⟩ := follows_iff.mp hfol
          exact .forward linkOwner link target hast hfwd htgt
        · cases hs
        · cases hs
          obtain ⟨htgt, hbac⟩ := reverses_iff.mp hrev
          exact .backward linkOwner link source hast hbac htgt
    · rintro ⟨-, hdep⟩
      cases hdep with
      | forward linkOwner link _ hast hfwd htgt =>
        refine .inr (.inr (.inr (.inr ⟨linkOwner, link, hast, mem_linkSteps.mpr ?_⟩)))
        have hfol := follows_iff.mpr ⟨rfl, hfwd⟩
        exact ⟨touches_iff.mpr (.inl hfol), .inr (.inr (.inl ⟨hfol, target, htgt, rfl⟩))⟩
      | backward linkOwner link _ hast hbac htgt =>
        refine .inr (.inr (.inr (.inr ⟨linkOwner, link, hast, mem_linkSteps.mpr ?_⟩)))
        have hrev := reverses_iff.mpr ⟨htgt, hbac⟩
        exact ⟨touches_iff.mpr (.inr hrev), .inr (.inr (.inr (.inr ⟨hrev, rfl⟩)))⟩
      | content owner' entity' _ _ hsup' hct =>
        obtain ⟨rfl, rfl⟩ := h.resolvable.supplies_unique hsup hsup'
        exact .inr (.inr (.inr (.inl hct)))
  · rw [Next, entitySteps_missing h.resolvable hspd]
    constructor
    · intro hs
      simp at hs
    · rintro ⟨hsrc, -⟩
      exact absurd hsrc hspd

lemma WellFormed.visitFact_iff {fact : Fact} :
    (∃ need, .note need ∈ entitySteps root reference ∧ fact ∈ need.facts) ↔
      VisitFact root reference fact := by
  by_cases hspd : Supplied root reference
  · have hspd' := hspd
    obtain ⟨owner, entity, hsup⟩ := hspd
    simp only [mem_entitySteps h.resolvable hsup, note_mem_contentSteps]
    constructor
    · rintro ⟨need, hs | hs | ⟨r, hr, hs⟩ | hs | ⟨linkOwner, link, hast, hs⟩, hft⟩
      · cases hs
        rw [facts, mem_singleton] at hft
        subst hft
        exact .required
      · cases hs
        rw [hsup.entity] at hft
        exact .entity fact hspd' hft
      · cases hs
        exact .source owner entity r fact hsup (mem_citations.mpr (.inl hr)) hft
      · rcases hs with ⟨r, hct, rfl⟩ | ⟨artifact, hct, rfl⟩
        · exact .source owner entity r fact hsup (mem_citations.mpr (.inr hct)) hft
        · exact .artifact owner entity artifact fact hsup hct hft
      · obtain ⟨htou, ⟨r, hr, hs⟩ | ⟨her, hs⟩ | ⟨-, target, -, hs⟩ |
          ⟨hfol, kind, htgt, hs⟩ | ⟨-, hs⟩⟩ := mem_linkSteps.mp hs
        · cases hs
          exact .link linkOwner link r fact hspd' hast htou hr hft
        · cases hs
          rw [facts, mem_singleton] at hft
          subst hft
          obtain ⟨kind, htgt⟩ := (h.relationshipError_ne_none hast).mp her
          exact .unresolved linkOwner link kind hspd' hast htou htgt
        · cases hs
        · cases hs
          rw [facts, mem_singleton] at hft
          subst hft
          exact .unresolved linkOwner link kind hspd' hast htou htgt
        · cases hs
    · intro hft
      cases hft with
      | required => exact ⟨_, .inl rfl, mem_singleton_self _⟩
      | missing hmis => exact absurd hspd' hmis
      | entity _ _ hft =>
        refine ⟨_, .inr (.inl rfl), ?_⟩
        rw [hsup.entity]
        exact hft
      | source owner' entity' r _ hsup' hr hft =>
        obtain ⟨rfl, rfl⟩ := h.resolvable.supplies_unique hsup hsup'
        refine ⟨.source owner r, ?_, hft⟩
        rcases mem_citations.mp hr with hr | hct
        · exact .inr (.inr (.inl ⟨r, hr, rfl⟩))
        · exact .inr (.inr (.inr (.inl (.inl ⟨r, hct, rfl⟩))))
      | artifact owner' entity' artifact _ hsup' hct hft =>
        obtain ⟨rfl, rfl⟩ := h.resolvable.supplies_unique hsup hsup'
        exact ⟨.artifact artifact, .inr (.inr (.inr (.inl (.inr ⟨artifact, hct, rfl⟩)))), hft⟩
      | link linkOwner link r _ _ hast htou hr hft =>
        refine ⟨.source linkOwner r, .inr (.inr (.inr (.inr ⟨linkOwner, link, hast, ?_⟩))), hft⟩
        exact mem_linkSteps.mpr ⟨htou, .inl ⟨r, hr, rfl⟩⟩
      | unresolved linkOwner link kind _ hast htou htgt =>
        refine ⟨.unavailable, .inr (.inr (.inr (.inr ⟨linkOwner, link, hast, ?_⟩))),
          mem_singleton_self _⟩
        have her := (h.relationshipError_ne_none hast).mpr ⟨kind, htgt⟩
        exact mem_linkSteps.mpr ⟨htou, .inr (.inl ⟨her, rfl⟩)⟩
  · rw [entitySteps_missing h.resolvable hspd]
    constructor
    · rintro ⟨need, hs, hft⟩
      rcases mem_cons.mp hs with hs | hs
      · cases hs
        rw [facts, mem_singleton] at hft
        subst hft
        exact .required
      · rw [mem_singleton] at hs
        cases hs
        rw [facts, mem_singleton] at hft
        subst hft
        exact .missing hspd
    · intro hft
      cases hft with
      | required => exact ⟨_, mem_cons_self, mem_singleton_self _⟩
      | missing _ => exact ⟨.unavailable, by simp, mem_singleton_self _⟩
      | entity _ hsrc _ | link _ _ _ _ hsrc _ _ _ _ | unresolved _ _ _ hsrc _ _ _ =>
        exact absurd hsrc hspd
      | source owner entity _ _ hsrc _ _ | artifact owner entity _ _ hsrc _ _ =>
        exact absurd ⟨owner, entity, hsrc⟩ hspd

end WellFormed

end Morphir.Intent

/-!
## Requirements

The facts that the requirements of a claim and of an observation hold, and what a
comparison with them says.
-/

namespace Morphir.Intent

open Relation Traversal List

variable {root owner : Model} {reference subject : ResolvedRef}

lemma resolve_mem {entity : Entity} (h : resolve root reference = .ok entity) :
    ∃ owner ∈ root.scope, entity ∈ owner.entities := by
  rw [resolve] at h
  cases hfn : findModel root reference.model with
  | none => simp [hfn] at h
  | some owner =>
    simp only [hfn] at h
    refine ⟨owner, mem_of_find?_eq_some hfn, ?_⟩
    split at h
    · cases h
    · rename_i found hfil
      have hfd := mem_singleton_self found
      rw [← hfil] at hfd
      split at h
      · cases h
      · cases h
        exact (mem_filter.mp hfd).1
    · cases h

lemma visit_mem_references {source target : ResolvedRef}
    (h : .visit target ∈ entitySteps root source) : target ∈ root.references := by
  cases hrsv : resolve root source with
  | error code => simp [entitySteps, hrsv] at h
  | ok entity =>
    obtain ⟨owner, howner, hety⟩ := resolve_mem hrsv
    cases hfn : findModel root source.model with
    | none => simp [entitySteps, hrsv, hfn] at h
    | some found =>
      simp only [entitySteps, hrsv, hfn, mem_cons, reduceCtorEq, mem_append, mem_map, and_false,
        exists_false, false_or, visit_mem_contentSteps, mem_flatMap] at h
      rcases h with hct | ⟨linkOwner, hlinkOwner, link, hlk, hs⟩
      · apply mem_flatMap.mpr
        refine ⟨owner, howner, mem_append_left _ ?_⟩
        exact mem_flatMap.mpr ⟨entity, hety, hct⟩
      · apply mem_flatMap.mpr
        refine ⟨linkOwner, hlinkOwner, mem_append_right _ ?_⟩
        refine mem_flatMap.mpr ⟨link, hlk, ?_⟩
        obtain ⟨-, ⟨r, -, hs⟩ | ⟨-, hs⟩ | ⟨-, other, htgt, hs⟩ |
          ⟨-, kind, -, hs⟩ | ⟨-, hs⟩⟩ := mem_linkSteps.mp hs
        · cases hs
        · cases hs
        · cases hs
          simp [Relationship.references, htgt]
        · cases hs
        · cases hs
          rw [Relationship.references]
          split <;> exact mem_cons_self

lemma visits_bounded (root : Model) (selected : ResolvedRef) :
    ∀ source ∈ selected :: root.references, ∀ target, .visit target ∈ entitySteps root source →
      target ∈ selected :: root.references :=
  fun _ _ _ hv => mem_cons_of_mem _ (visit_mem_references hv)

lemma visits_fuel (root : Model) (selected : ResolvedRef) {fuel : Nat}
    (hfuel : enoughVisits root ≤ fuel) : (selected :: root.references).length < fuel := by
  rw [enoughVisits] at hfuel
  rw [length_cons]
  omega

lemma visitEntities_ends (root : Model) (context : RequiredContext) (selected : ResolvedRef) :
    ∃ visited, ∀ fuel, enoughVisits root ≤ fuel →
      visitEntities fuel root context selected =
        some (visited, requireEntityContext root context selected) := by
  obtain ⟨visited, needs, hres, -, -⟩ := visit_reaches Need.add
    (visits_bounded root selected) mem_cons_self (visits_fuel root selected le_rfl) context
  refine ⟨visited, fun fuel hfuel => ?_⟩
  have hend : visitEntities (enoughVisits root) root context selected =
      some (visited, applyNotes Need.add needs context) := hres
  rw [requireEntityContext, hend]
  exact visit_mono hfuel selected ([], context) _ hres

def ReachFact (root : Model) (selected : ResolvedRef) (fact : Fact) : Prop :=
  ∃ reference, Reaches root selected reference ∧ VisitFact root reference fact

lemma WellFormed.reaches_iff (h : WellFormed root) {selected : ResolvedRef} :
    ReflTransGen (Next (entitySteps root)) selected reference ↔
      Reaches root selected reference := by
  have hnx : Next (entitySteps root) =
      fun source target => Supplied root source ∧ Depends root source target := by
    funext source target
    exact propext h.next_iff
  rw [hnx, Reaches]

variable {context : RequiredContext} {model : Snapshot}

lemma Describes.requireEntityContext (h : WellFormed root) {facts : Set Fact}
    (hfa : Describes context model facts) (selected : ResolvedRef) :
    Describes (requireEntityContext root context selected) model
      (facts ∪ {f | ReachFact root selected f}) := by
  obtain ⟨visited, needs, hres, -, hneeds⟩ := visit_reaches Need.add
    (visits_bounded root selected) mem_cons_self (visits_fuel root selected le_rfl) context
  have hend : visitEntities (enoughVisits root) root context selected =
      some (visited, applyNotes Need.add needs context) := hres
  have hset : ∀ fact, fact ∈ needs.flatMap Need.facts ↔ ReachFact root selected fact := by
    intro fact
    rw [mem_flatMap]
    constructor
    · rintro ⟨need, hneed, hft⟩
      obtain ⟨reference, hrch, hs⟩ := (hneeds need).mp hneed
      exact ⟨reference, h.reaches_iff.mp hrch, h.visitFact_iff.mp ⟨need, hs, hft⟩⟩
    · rintro ⟨reference, hrch, hv⟩
      obtain ⟨need, hs, hft⟩ := h.visitFact_iff.mpr hv
      exact ⟨need, (hneeds need).mpr ⟨reference, h.reaches_iff.mpr hrch, hs⟩, hft⟩
  rw [Intent.requireEntityContext, hend]
  have hrec := hfa.recordAll (needs.flatMap Need.facts)
  rw [← applyNotes_eq] at hrec
  simpa only [hset, Option.map_some, Option.getD_some] using hrec

def CitedFact (owner : Model) (citations : List SourceRef) (fact : Fact) : Prop :=
  ∃ citation ∈ citations, fact ∈ sourceFacts owner citation

lemma Describes.requireSources {facts : Set Fact} (h : Describes context model facts)
    (owner : Model) (citations : List SourceRef) :
    Describes (citations.foldl (fun context r => requireSource context owner r) context) model
      (facts ∪ {f | CitedFact owner citations f}) := by
  rw [foldl_recordAll fun context r => requireSource_eq context owner r]
  simpa only [CitedFact, mem_flatMap] using h.recordAll (citations.flatMap (sourceFacts owner))

def RevisionContext.facts (declared : RevisionContext) : Set Fact :=
  {f | ∃ kind, ∃ entry ∈ declared.revisions kind, .required kind entry.id = f}

def ClaimExact (root owner : Model) (claim : Claim) (citations : List SourceRef) : Set Fact :=
  claim.context.facts ∪ {f | ReachFact root claim.subject f} ∪ {f | CitedFact owner citations f}

def ClaimFacts (root owner : Model) (claim : Claim) (citations : List SourceRef) : Set Fact :=
  ClaimExact root owner claim citations ∪
    {f | Declared (ClaimExact root owner claim citations) owner claim.context f}

lemma requiredContext_describes (h : WellFormed root) (owner : Model) (claim : Claim)
    (citations : List SourceRef) :
    Describes (requiredContext root owner claim citations) owner.identity
      (ClaimFacts root owner claim citations) := by
  apply Describes.includeDeclaredContext
  apply Describes.requireSources
  apply Describes.requireEntityContext h
  refine ⟨rfl, fun kind id => ?_, fun kind snapshot => ?_, fun kind id => ?_, ?_⟩
  · cases kind <;> simp [RequiredContext.ids, RevisionContext.facts, RevisionContext.revisions]
  · cases kind <;> simp [RequiredContext.actuals, RevisionContext.facts]
  · cases kind <;> simp [RequiredContext.selectedIds, RevisionContext.facts]
  · simp [RevisionContext.facts, Contested]

def Observation.clauses : Observation → List Snapshot
  | .run clauses => clauses
  | _ => []

/-- The facts of a clause of a run: it must be declared, and it must be one contract in the
closure of the evidence. -/
inductive ClauseFact (root owner : Model) (context : RevisionContext) (clause : Snapshot) :
    Fact → Prop
  | required : ClauseFact root owner context clause (.required .entity clause.id)
  | undeclared : clause ∉ context.entityRevisions →
      ClauseFact root owner context clause .unavailable
  | ambiguous : (∀ candidate, clauseCandidates owner clause ≠ [candidate]) →
      ClauseFact root owner context clause .unavailable
  | reached (candidate : ResolvedRef) (fact : Fact) :
      clauseCandidates owner clause = [candidate] → ReachFact root candidate fact →
      ClauseFact root owner context clause fact

def ClausesFact (root owner : Model) (evidence : Evidence) (fact : Fact) : Prop :=
  ∃ clause ∈ evidence.observation.clauses, ClauseFact root owner evidence.context clause fact

def ObservationExact (root owner : Model) (base : Set Fact) (linkOwner : Model)
    (link : Relationship) (entity : Entity) (evidence : Evidence) : Set Fact :=
  base ∪ {f | CitedFact owner entity.sourceRefs f} ∪ {f | CitedFact linkOwner link.sourceRefs f} ∪
    {f | ClausesFact root owner evidence f}

def ObservationFacts (root owner : Model) (base : Set Fact) (linkOwner : Model)
    (link : Relationship) (entity : Entity) (evidence : Evidence) : Set Fact :=
  ObservationExact root owner base linkOwner link entity evidence ∪
    {f | Declared (ObservationExact root owner base linkOwner link entity evidence) owner
      evidence.context f}

lemma Describes.declareClause {facts : Set Fact} (hfa : Describes context model facts)
    (evidence : Evidence) (clause : Snapshot) :
    Describes (declareClause evidence context clause) model
      (insert (.required .entity clause.id) facts ∪
        {f | clause ∉ evidence.context.entityRevisions ∧ .unavailable = f}) := by
  have hreq := hfa.record (.required .entity clause.id)
  rw [Intent.declareClause]
  by_cases hmem : clause ∈ evidence.context.entityRevisions
  · simp only [hmem, not_true_eq_false, false_and, Set.ofPred_false, Set.union_empty]
    exact hreq
  · rw [if_neg hmem]
    refine cast (congrArg (Describes _ _) ?_) (hreq.record .unavailable)
    ext fact
    simp only [Set.mem_insert_iff, Set.mem_union, Set.mem_ofPred_eq]
    tauto

lemma Describes.requireClause (h : WellFormed root) {facts : Set Fact}
    (hfa : Describes context model facts) (howner : findModel root subject.model = some owner)
    (evidence : Evidence) (clause : Snapshot) :
    Describes (requireClause root subject evidence context clause) model
      (facts ∪ {f | ClauseFact root owner evidence.context clause f}) := by
  have hdc := hfa.declareClause evidence clause
  simp only [Intent.requireClause, howner]
  split
  · rename_i candidate hcd
    refine cast (congrArg (Describes _ _) ?_) (hdc.requireEntityContext h candidate)
    ext fact
    constructor
    · rintro (((rfl | hft) | ⟨hmem, rfl⟩) | hft)
      · exact .inr .required
      · exact .inl hft
      · exact .inr (.undeclared hmem)
      · exact .inr (.reached candidate fact hcd hft)
    · rintro (hft | hft)
      · exact .inl (.inl (.inr hft))
      · cases hft with
        | required => exact .inl (.inl (.inl rfl))
        | undeclared hmem => exact .inl (.inr ⟨hmem, rfl⟩)
        | ambiguous hno => exact absurd hcd (hno candidate)
        | reached other _ ho hft =>
          rw [hcd] at ho
          cases ho
          exact .inr hft
  · rename_i hno
    refine cast (congrArg (Describes _ _) ?_) (hdc.record .unavailable)
    ext fact
    constructor
    · rintro (rfl | (rfl | hft) | ⟨hmem, rfl⟩)
      · exact .inr (.ambiguous hno)
      · exact .inr .required
      · exact .inl hft
      · exact .inr (.undeclared hmem)
    · rintro (hft | hft)
      · exact .inr (.inl (.inr hft))
      · cases hft with
        | required => exact .inr (.inl (.inl rfl))
        | undeclared hmem => exact .inl rfl
        | ambiguous hno => exact .inl rfl
        | reached other _ ho _ => exact absurd ho (hno other)

lemma Describes.requireClauses (h : WellFormed root) {facts : Set Fact}
    (hfa : Describes context model facts) (howner : findModel root subject.model = some owner)
    (evidence : Evidence) (clauses : List Snapshot) :
    Describes (clauses.foldl (Intent.requireClause root subject evidence) context) model
      (facts ∪ {f | ∃ clause ∈ clauses, ClauseFact root owner evidence.context clause f}) := by
  induction clauses generalizing context facts with
  | nil => simpa using hfa
  | cons clause clauses ih =>
    have hr := ih (hfa.requireClause h howner evidence clause)
    refine cast (congrArg (Describes _ _) ?_) hr
    ext fact
    simp only [Set.mem_union, Set.mem_ofPred_eq, exists_mem_cons_iff]
    rw [or_assoc]

lemma Describes.observationContext (h : WellFormed root) {base : RequiredContext}
    {facts : Set Fact} (hfa : Describes base model facts) {link : Relationship}
    (howner : findModel root link.subject.model = some owner) (linkOwner : Model) (entity : Entity)
    (evidence : Evidence) :
    Describes (observationContext root base linkOwner link entity evidence) model
      (ObservationFacts root owner facts linkOwner link entity evidence) := by
  rw [Intent.observationContext, howner]
  apply Describes.includeDeclaredContext
  have hsou := (hfa.requireSources owner entity.sourceRefs).requireSources linkOwner
    link.sourceRefs
  cases hobs : evidence.observation with
  | run clauses =>
    have hcla := hsou.requireClauses h howner evidence clauses
    simpa only [ObservationExact, ClausesFact, hobs, Observation.clauses] using hcla
  | analysis | review => simpa [ObservationExact, ClausesFact, hobs, Observation.clauses] using hsou

end Morphir.Intent
