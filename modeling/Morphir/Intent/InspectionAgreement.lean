import Morphir.Intent.Assessment
import Morphir.Library.Numbered

/-!
# Inspection agrees with assessment

What `inspect` reports at the path of a claim are the verdicts of the assessment of the
claim in its own context.
-/

namespace Morphir.Intent

open List DiagnosticCode Diagnostic

section Paths

def stepsText (steps : List Nat) : List Char :=
  steps.flatMap fun i => "/dependencies/".toList ++ (toString i).toList

/-- The path of a model leads to it from the root, through the dependencies that it names. -/
def Leads (root : Model) (entry : Model × String) : Prop :=
  ∃ steps, foldlM (fun model i => model.dependencies[i]?) root steps = some entry.1 ∧
    entry.2.toList = stepsText steps

variable {root : Model} {entry : Model × String}

lemma Leads.dependency (h : Leads root entry) :
    ∀ next ∈ dependencyPaths entry.1 entry.2, Leads root next := by
  obtain ⟨steps, hat, hpath⟩ := h
  intro next hnext
  obtain ⟨i, hi, rfl⟩ := mem_mapIdx.mp hnext
  exact ⟨steps ++ [i], by simp [hat], by simp [stepsText, hpath]⟩

lemma closureLoop_leads (fuel : Nat) (pending : List (Model × String)) (result : Closure)
    (hp : ∀ entry ∈ pending, Leads root entry) (hf : ∀ entry ∈ result.found, Leads root entry) :
    ∀ entry ∈ (closureLoop fuel pending result).found, Leads root entry := by
  induction fuel generalizing pending result with
  | zero => exact hf
  | succ fuel ih =>
    cases pending with
    | nil => exact hf
    | cons entry pending =>
      obtain ⟨hentry, hp⟩ := forall_mem_cons.mp hp
      rw [closureLoop]
      split_ifs
      · exact ih _ _ hp hf
      · refine ih _ _ (forall_mem_append.mpr ⟨hp, hentry.dependency⟩) ?_
        exact forall_mem_append.mpr ⟨hf, forall_mem_singleton.mpr hentry⟩

lemma found_leads (root : Model) : ∀ entry ∈ (modelClosure root).found, Leads root entry :=
  closureLoop_leads _ _ _ (forall_mem_singleton.mpr ⟨[], rfl, rfl⟩) (by simp)

lemma slash_not_mem (n : Nat) : '/' ∉ (toString n).toList :=
  fun hmem => absurd (Numbered.digits_toString n _ hmem) (by decide)

lemma toString_inj {m n : Nat} (h : (toString m).toList = (toString n).toList) : m = n :=
  Numbered.toString_injective (String.toList_injective h)

lemma stepsText_cons_slash (steps : List Nat) (rest : List Char) :
    ∃ tail, stepsText steps ++ '/' :: rest = '/' :: tail := by
  cases steps with
  | nil => exact ⟨rest, rfl⟩
  | cons i steps => exact ⟨_, rfl⟩

lemma stepsText_inj {steps steps' : List Nat} {rest rest' : List Char}
    (h : stepsText steps ++ '/' :: 'e' :: rest = stepsText steps' ++ '/' :: 'e' :: rest') :
    steps = steps' ∧ rest = rest' := by
  induction steps generalizing steps' with
  | nil =>
    cases steps' with
    | nil => simpa using h
    | cons i steps' => simp [stepsText] at h
  | cons i steps ih =>
    cases steps' with
    | nil => simp [stepsText] at h
    | cons j steps' =>
      obtain ⟨tail, htail⟩ := stepsText_cons_slash steps ('e' :: rest)
      obtain ⟨tail', htail'⟩ := stepsText_cons_slash steps' ('e' :: rest')
      rw [stepsText, stepsText, flatMap_cons, flatMap_cons, append_assoc, append_assoc,
        append_assoc, append_assoc, append_cancel_left_eq] at h
      change _ ++ (stepsText steps ++ _) = _ ++ (stepsText steps' ++ _) at h
      rw [htail, htail'] at h
      obtain ⟨hi, hrest⟩ := append_sep_inj (slash_not_mem i) (slash_not_mem j) h
      obtain ⟨rfl, rfl⟩ := ih (by rw [htail, htail', hrest])
      exact ⟨by rw [toString_inj hi], rfl⟩

/-- The path of an entity in the model that stands at a path. -/
def entityPath (path : String) (index : Nat) : String :=
  path ++ ("/entities" ++ "/" ++ toString index)

lemma entityPath_inj {other : Model × String} (h : Leads root entry) (ho : Leads root other)
    {i j : Nat} {suffix : String}
    (heq : entityPath entry.2 i ++ suffix = entityPath other.2 j ++ suffix) :
    entry = other ∧ i = j := by
  obtain ⟨steps, hat, hpath⟩ := h
  obtain ⟨steps', hat', hpath'⟩ := ho
  have hchars := congrArg String.toList (String.append_left_inj _ |>.mp heq)
  simp only [entityPath, String.toList_append, hpath, hpath'] at hchars
  obtain ⟨rfl, hrest⟩ := stepsText_inj hchars
  refine ⟨Prod.ext (Option.some.inj (hat.symm.trans hat')) ?_, toString_inj ?_⟩
  · exact String.toList_injective (hpath.trans hpath'.symm)
  · simpa using hrest

end Paths

lemma flatMap_single {α β : Type} {items : List α} (hnd : items.Nodup) {a : α} (ha : a ∈ items)
    {f : α → List β} (h : ∀ b ∈ items, b ≠ a → f b = []) : items.flatMap f = f a := by
  obtain ⟨front, back, rfl⟩ := append_of_mem ha
  obtain ⟨hnot, -⟩ := nodup_middle.mp hnd |> nodup_cons.mp
  have hrest : ∀ b ∈ front ++ back, f b = [] := fun b hb =>
    h b (by simp_all; tauto) fun heq => hnot (heq ▸ hb)
  rw [forall_mem_append, ← flatMap_eq_nil_iff, ← flatMap_eq_nil_iff] at hrest
  rw [flatMap_append, flatMap_cons, hrest.1, hrest.2, append_nil, nil_append]

/-- The gaps that `inspect` finds in the evidence. -/
def DiagnosticCode.isEvidenceGap (code : DiagnosticCode) : Bool :=
  code = .missingEvidence || code = .staleEvidence || code = .inconclusiveEvidence

/-- Where `inspect` reports a gap in the evidence of the claim at a path. -/
def gapPath (path : String) (code : DiagnosticCode) : String :=
  if code = .missingEvidence then path else path ++ "/content/context"

def gapAt (path : String) (d : Diagnostic) : Bool :=
  d.code.isEvidenceGap && d.path = gapPath path d.code

def Gapless (diagnostics : List Diagnostic) : Prop :=
  ∀ d ∈ diagnostics, d.code.isEvidenceGap = false

section Gapless

lemma not_gap_of_isError {code : DiagnosticCode} (h : code.isError = true) :
    code.isEvidenceGap = false := by
  cases code <;> first | rfl | cases h

lemma Gapless.append {front back : List Diagnostic} (hf : Gapless front) (hb : Gapless back) :
    Gapless (front ++ back) :=
  forall_mem_append.mpr ⟨hf, hb⟩

variable {α : Type} {f : String → α → List Diagnostic}

lemma indexed_gapless (h : ∀ path a, Gapless (f path a)) (path : String) (items : List α) :
    Gapless (indexed path items f) := by
  intro d hd
  obtain ⟨l, hl, hd⟩ := mem_flatten.mp hd
  obtain ⟨i, hi, rfl⟩ := mem_mapIdx.mp hl
  exact h _ _ d hd

lemma repeated_gapless {report : Id → String → Diagnostic}
    (h : ∀ id path, (report id path).code.isEvidenceGap = false) (seen : List Id)
    (items : List (Id × String)) : Gapless (repeated report seen items) := by
  induction items generalizing seen with
  | nil => simp [Gapless, repeated]
  | cons item items ih => exact .append (by grind [Gapless]) (ih _)

variable (model : Model) (owner : Id) (path : String)

lemma inspectRefs_gapless (references : List SourceRef) :
    Gapless (inspectRefs model references owner path) :=
  indexed_gapless (by grind [Gapless, isEvidenceGap]) path references

lemma inspectSource_gapless (source : Source) : Gapless (inspectSource path source) := by
  refine .append ?_ (repeated_gapless (fun _ _ => rfl) _ _)
  grind [Gapless, isEvidenceGap]

lemma inspectReference_gapless (reference : ResolvedRef) (fits : Entity → Bool) :
    Gapless (inspectReference model reference fits owner path) := by
  grind [inspectReference, Gapless, isEvidenceGap, not_gap_of_isError, resolve_error]

lemma inspectEntity_gapless (entity : Entity) : Gapless (inspectEntity model path entity) := by
  refine .append (inspectRefs_gapless _ _ _ _) ?_
  generalize entity.content = content
  fun_cases inspectContent <;>
    grind [inspectReference_gapless, Expression.gap.eq_def, Gapless, isEvidenceGap]

variable {model} {link : Relationship} {code : DiagnosticCode}

lemma targetError_gapless {subject : Entity} (h : targetError model link subject = some code) :
    code.isEvidenceGap = false := by
  grind [targetError, resolve_error, endpointError_isError, isEvidenceGap, not_gap_of_isError]

lemma relationshipError_gapless (h : relationshipError model link = some code) :
    code.isEvidenceGap = false := by
  grind [relationshipError, targetError_gapless, resolve_error, isEvidenceGap, not_gap_of_isError]

lemma inspectRelationship_gapless (model : Model) (path : String) (link : Relationship) :
    Gapless (inspectRelationship model path link) := by
  refine .append (inspectRefs_gapless _ _ _ _) ?_
  grind [relationshipError_gapless, Gapless]

end Gapless

variable {root : Model}

lemma inspectGaps_path (model : Model) (path : String) (entity : Entity) :
    ∀ d ∈ inspectGaps root model path entity, d.code.isEvidenceGap = true →
      d.path = gapPath path d.code := by
  have hrequirement : ∀ d ∈ inspectRequirement root model path entity,
      d.code.isEvidenceGap = true → d.path = gapPath path d.code := by
    grind [inspectRequirement, gapPath, isEvidenceGap]
  have hobservation (required : RequiredContext) (claim : Claim) (entry : Model × Relationship) :
      ∀ d ∈ inspectObservation root required claim path entry, d.path = gapPath path d.code := by
    grind [inspectObservation, gapPath]
  grind [inspectGaps, inspectClaim, gapPath]

def Diagnostic.within (path : String) (d : Diagnostic) : Diagnostic :=
  { d with path := path ++ d.path }

section Filter

variable {entry : Model × String} {i : Nat}

lemma filter_gapless {l : List Diagnostic} (h : Gapless l) (path place : String) :
    (l.map (within path)).filter (gapAt place) = [] := by
  simp_all [Gapless, gapAt, within]

lemma filter_elsewhere (hentry : Leads root entry) {other : Model × String}
    (hother : Leads root other) {j : Nat} (hne : other = entry → j ≠ i) (entity : Entity) :
    ((inspectGaps root other.1 ("/entities" ++ "/" ++ toString j) entity).map
      (within other.2)).filter (gapAt (entityPath entry.2 i)) = [] := by
  rw [filter_eq_nil_iff]
  intro d hd hgap
  obtain ⟨inner, hin, rfl⟩ := mem_map.mp hd
  rw [gapAt, Bool.and_eq_true, decide_eq_true_eq] at hgap
  obtain ⟨hgap, hpath⟩ := hgap
  have hat := inspectGaps_path _ _ _ inner hin hgap
  obtain ⟨suffix, hsuffix⟩ : ∃ suffix, ∀ path, gapPath path inner.code = path ++ suffix := by
    unfold gapPath
    split
    · exact ⟨"", fun path => String.append_empty.symm⟩
    · exact ⟨_, fun path => rfl⟩
  simp only [within, hat, hsuffix] at hpath
  obtain ⟨rfl, rfl⟩ := entityPath_inj hother hentry
    (by simpa only [entityPath, String.append_assoc] using hpath)
  exact hne rfl rfl

lemma filter_local (place : String) (other : Model × String) :
    ((inspectLocal root other.1).map (within other.2)).filter (gapAt place) =
      other.1.entities.zipIdx.flatMap fun item =>
        ((inspectGaps root other.1 ("/entities" ++ "/" ++ toString item.2) item.1).map
          (within other.2)).filter (gapAt place) := by
  have hbefore : Gapless (duplicateIdentities other.1 ++
      indexed "/sources" other.1.sources inspectSource ++
      indexed "/entities" other.1.entities (inspectEntity other.1) ++
      indexed "/relationships" other.1.relationships (inspectRelationship other.1)) :=
    .append (.append (.append (repeated_gapless (fun _ _ => rfl) _ _)
      (indexed_gapless inspectSource_gapless _ _)) (indexed_gapless (inspectEntity_gapless _) _ _))
      (indexed_gapless (inspectRelationship_gapless _) _ _)
  rw [inspectLocal, map_append, filter_append, filter_gapless hbefore, indexed,
    mapIdx_eq_zipIdx_map, map_flatten, filter_flatten, map_map, map_map]
  rfl

/-- The gaps at the path of an entity are those that the entity has. -/
theorem filter_inspect (h : WellFormed root) (hentry : entry ∈ (modelClosure root).found)
    {entity : Entity} (hi : entry.1.entities[i]? = some entity) :
    (inspect root).filter (gapAt (entityPath entry.2 i)) =
      ((inspectGaps root entry.1 ("/entities" ++ "/" ++ toString i) entity).map
        (within entry.2)).filter (gapAt (entityPath entry.2 i)) := by
  have hleads := found_leads root
  have hids : (root.scope.map Model.identity).Nodup :=
    (h.models.scope_perm.map Model.identity).nodup_iff.mpr h.models
  rw [inspect, duplicates_eq_nil.mpr h.models, map_nil, append_nil, filter_flatMap]
  refine (flatMap_single ((hids.of_map _).of_map _) hentry fun other hother hne => ?_).trans ?_
  · refine (filter_local _ other).trans (flatMap_eq_nil_iff.mpr fun item _ => ?_)
    exact filter_elsewhere (hleads entry hentry) (hleads other hother)
      (fun heq => absurd heq hne) _
  · refine (filter_local _ entry).trans
      (flatMap_single ((nodup_zipIdx_map_snd _).of_map _) (mk_mem_zipIdx_iff_getElem?.mpr hi) ?_)
    intro item hitem hne
    refine filter_elsewhere (hleads entry hentry) (hleads entry hentry) (fun _ heq => hne ?_) _
    rw [mem_zipIdx_iff_getElem?, heq, hi] at hitem
    exact Prod.ext (Option.some.inj hitem).symm heq

end Filter

/-- What `inspect` reports of an observation of the claim at a path. -/
def verdict (path : String) (observation : EvidenceAssessment) : Option Diagnostic :=
  let report (code : DiagnosticCode) : Option Diagnostic :=
    some ⟨code, observation.reference.entity.id, path ++ "/content/context"⟩
  match observation.freshness with
  | .current => none
  | .stale => report .staleEvidence
  | .inconclusive => report .inconclusiveEvidence

/-- The gaps in the evidence of the claim at a path, as an assessment has them. -/
def ClaimAssessment.gaps (path : String) (assessment : ClaimAssessment) : List Diagnostic :=
  (if assessment.availability = .unknown then
    [⟨.missingEvidence, assessment.claim.entity.id, path⟩] else []) ++
    assessment.observations.filterMap (verdict path)

/-- The scope of the model that asserts a link and the scope of the root supply one
evidence. -/
theorem assessObservation_verdict (h : WellFormed root) {entry : Model × Relationship}
    (hentry : entry ∈ evidenceLinks root) (required : RequiredContext) (claim : Claim)
    (path : String) :
    ∃ observation, assessObservation root required claim.context entry = some observation ∧
      inspectObservation root required claim path entry = (verdict path observation).toList := by
  have hast := h.mem_evidenceLinks hentry
  have hres := h.resolvable.of_nested hast.nested
  have hfits := ((h.fits entry.1 hast.nested).links entry.2 hast.mem).2
  obtain ⟨subject, hrsv, hkind, -⟩ := (refersTo_iff hres).mp hfits
  obtain ⟨owner, hsup⟩ := hres.resolve_eq_ok.mp hrsv
  have hroot : resolve root entry.2.subject = .ok subject :=
    h.resolvable.resolve_eq_ok.mpr ⟨owner, (root.nested_sublist _ hast.nested).subset hsup.nested,
      hsup.model, hsup.mem, hsup.entity⟩
  have hsign : entry.2.predicate.signature.1 = .evidence := by
    have hpred := (mem_filter.mp hentry).2
    rw [Bool.or_eq_true, decide_eq_true_eq, decide_eq_true_eq] at hpred
    rcases hpred with hpred | hpred <;> rw [hpred] <;> rfl
  have hcontent : ∃ evidence, subject.content = .evidence evidence := by
    rw [hsign, Entity.kind] at hkind
    split at hkind <;> first | exact ⟨_, ‹_›⟩ | cases hkind
  obtain ⟨evidence, hev⟩ := hcontent
  simp only [assessObservation, hroot, hev, inspectObservation, hrsv]
  refine ⟨_, rfl, ?_⟩
  simp only [verdict, ← hsup.entity]
  split <;> simp_all

lemma inspectGaps_claim (h : WellFormed root) {reference : ResolvedRef} {owner : Model}
    {entity : Entity} {claim : Claim} (hsup : Supplies root reference owner entity)
    (hct : entity.content = .claim claim) (path inner : String) :
    (inspectGaps root owner inner entity).map (within path) =
      (assessClaim root reference claim.context).gaps (path ++ inner) := by
  obtain ⟨model, identity⟩ := reference
  obtain ⟨-, rfl, -, rfl⟩ := id hsup
  rw [assessClaim_supplied h claim.context hsup hct, inspectGaps,
    if_neg (by simp [Entity.kind, hct]), inspectClaim, hct, nil_append, map_append]
  generalize hlinks : ((evidenceLinks root).filter fun entry =>
    entry.2.target = .resolved ⟨owner.identity, entity.identity⟩) = links
  have hassessed : ∀ link ∈ links, _ := fun link hlink =>
    assessObservation_verdict h (mem_filter.mp (hlinks ▸ hlink)).1
      (requiredContext root owner claim entity.sourceRefs) claim inner
  congr 1
  · have hempty : filterMap (assessObservation root
        (requiredContext root owner claim entity.sourceRefs) claim.context) links = [] ↔
        links = [] := by
      rw [filterMap_eq_nil_iff, eq_nil_iff_forall_not_mem]
      refine forall₂_congr fun link hlink => ?_
      obtain ⟨observation, hassess, -⟩ := hassessed link hlink
      simp [hassess]
    simp only [List.isEmpty_iff]
    split <;> simp [*, within]
  · rw [map_flatMap, filterMap_filterMap, filterMap_eq_flatMap_toList]
    refine flatMap_congr fun link hlink => ?_
    obtain ⟨observation, hassess, hreport⟩ := hassessed link hlink
    rw [hreport, hassess, Option.bind_some]
    unfold verdict
    split <;> simp [within, String.append_assoc]

/-- The gaps that `inspect` reports for a claim of the closure are those of the assessment of
the claim in its own context: evidence is missing exactly when its availability is unknown,
and stale or inconclusive as each observation is. -/
theorem inspect_agrees (hcl : hasErrors (inspect root) = false) {entry : Model × String}
    (hentry : entry ∈ (modelClosure root).found) {i : Nat} {entity : Entity}
    (hi : entry.1.entities[i]? = some entity) {claim : Claim} (hct : entity.content = .claim claim) :
    (inspect root).filter (gapAt (entityPath entry.2 i)) =
      (assessClaim root ⟨entry.1.identity, entity.identity⟩ claim.context).gaps
        (entityPath entry.2 i) := by
  have h := (inspect_clean_iff root).mp hcl
  have howner := h.models.mem_scope.mp (mem_map_of_mem hentry)
  have hsup : Supplies root ⟨entry.1.identity, entity.identity⟩ entry.1 entity :=
    ⟨howner, rfl, mem_of_getElem? hi, rfl⟩
  rw [filter_inspect h hentry hi, inspectGaps_claim h hsup hct]
  refine filter_eq_self.mpr ?_
  grind [ClaimAssessment.gaps, verdict, gapAt, gapPath, isEvidenceGap, entityPath]

open Example in
theorem inspect_agrees_root : (inspect Example.root).filter (gapAt (entityPath "" 1)) =
    (assessClaim Example.root ⟨model, claim⟩ context).gaps (entityPath "" 1) :=
  inspect_agrees root_clean mem_cons_self (i := 1) rfl rfl

end Morphir.Intent
