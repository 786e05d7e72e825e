import Morphir.Intent.Evidence
import Morphir.Library.ListRel

/-!
# The models of a closure

The closure of a model without duplicate identities holds the models inside it, and a
reference resolves to the entity that the closure supplies under it.
-/

namespace Morphir.Intent

open List Model Prod

lemma Model.nestedAll_eq (models : List Model) : nestedAll models = models.flatMap nested := by
  induction models with
  | nil => rfl
  | cons model models ih => rw [nestedAll, ih, flatMap_cons]

variable (root model : Model)

lemma Model.nested_eq :
    model.nested = model :: model.dependencies.flatMap nested := by
  cases model
  rw [nested, nestedAll_eq]

lemma Model.mem_nested_self : model ∈ model.nested := by
  rw [model.nested_eq]
  exact mem_cons_self

lemma Model.nested_induction {motive : Model → Prop}
    (step : ∀ model : Model, (∀ d ∈ model.dependencies, motive d) → motive model) (model : Model) :
    motive model := by
  refine @rec motive (fun models => ∀ d ∈ models, motive d) ?_ ?_ ?_ model
  · intro identity sources entities relationships dependencies ih
    exact step ⟨identity, sources, entities, relationships, dependencies⟩ ih
  · intro d hd
    cases hd
  · intro model models hmo hmod d hd
    rcases mem_cons.mp hd with rfl | hd
    · exact hmo
    · exact hmod d hd

lemma Model.nested_sublist :
    ∀ owner ∈ root.nested, owner.nested.Sublist root.nested := by
  induction root using nested_induction with
  | step root ih =>
    intro owner howner
    rw [root.nested_eq] at howner
    rcases mem_cons.mp howner with rfl | howner
    · exact .refl _
    · obtain ⟨d, hd, howner⟩ := mem_flatMap.mp howner
      have hdeep := ih d hd owner howner
      obtain ⟨front, back, hspl⟩ := append_of_mem hd
      have hwide : d.nested.Sublist (root.dependencies.flatMap nested) := by
        rw [hspl, flatMap_append]
        exact (sublist_append_left _ _).trans (sublist_append_right _ _)
      rw [root.nested_eq]
      exact (hdeep.trans hwide).cons _

def pendingModels (pending : List (Model × String)) : List Model :=
  pending.flatMap fun entry => entry.1.nested

lemma dependencyPaths_models (path : String) :
    (dependencyPaths model path).map fst = model.dependencies := by
  apply ext_getElem
  · simp [dependencyPaths]
  · simp [dependencyPaths]

def visible (found pending : List (Model × String)) : List Snapshot :=
  (found.map Prod.fst ++ pendingModels pending).map Model.identity

lemma visible_step (found : List (Model × String)) (current : Model) (path : String)
    (pending : List (Model × String)) :
    ((found ++ [(current, path)]).map fst ++
        pendingModels (pending ++ dependencyPaths current path)).Perm
      (found.map fst ++ pendingModels ((current, path) :: pending)) := by
  have hpaths : pendingModels (dependencyPaths current path) =
      current.dependencies.flatMap nested := by
    rw [← dependencyPaths_models current path, pendingModels, flatMap_map]
  have hc : pendingModels ((current, path) :: pending) =
      current :: (current.dependencies.flatMap nested ++ pendingModels pending) := by
    rw [pendingModels, flatMap_cons, current.nested_eq]
    rfl
  have happ : pendingModels (pending ++ dependencyPaths current path) =
      pendingModels pending ++ current.dependencies.flatMap nested := by
    rw [← hpaths, pendingModels, flatMap_append]
    rfl
  rw [hc, happ, map_append, append_assoc]
  apply List.Perm.append_left
  change (current :: (pendingModels pending ++ current.dependencies.flatMap nested)).Perm _
  exact perm_append_comm.cons current

/-- What a loop with enough fuel does: it reports no duplicate when the models found and
pending have distinct identities, and it finds them then. -/
def Gathers (pending : List (Model × String)) (before after : Closure) : Prop :=
  (after.duplicates = [] ↔ before.duplicates = [] ∧ (visible before.found pending).Nodup) ∧
  ((visible before.found pending).Nodup →
    (after.found.map Prod.fst).Perm (before.found.map Prod.fst ++ pendingModels pending))

lemma gathers_nil (result : Closure)
    (hfd : ((result.found.map fst).map identity).Nodup) : Gathers [] result result := by
  simp only [Gathers, visible, pendingModels, flatMap_nil, append_nil]
  exact ⟨⟨fun h => ⟨h, hfd⟩, And.left⟩, fun _ => .refl _⟩

lemma mem_found {found : List (Model × String)} {identity : Snapshot} :
    found.any (fun entry => entry.1.identity = identity) = true ↔
      identity ∈ (found.map fst).map Model.identity := by
  simp

lemma closureLoop_gathers (fuel : Nat) (pending : List (Model × String)) (result : Closure)
    (hfuel : (pendingModels pending).length ≤ fuel)
    (hfd : ((result.found.map fst).map identity).Nodup) :
    Gathers pending result (closureLoop fuel pending result) := by
  induction fuel generalizing pending result with
  | zero =>
    cases pending with
    | nil => exact gathers_nil result hfd
    | cons entry pending =>
      have hpos := length_pos_of_mem entry.1.mem_nested_self
      rw [pendingModels, flatMap_cons, length_append] at hfuel
      omega
  | succ fuel ih =>
    cases pending with
    | nil => exact gathers_nil result hfd
    | cons entry pending =>
      obtain ⟨current, path⟩ := entry
      have hc : pendingModels ((current, path) :: pending) =
          current.nested ++ pendingModels pending := flatMap_cons
      have hcur := length_pos_of_mem current.mem_nested_self
      rw [closureLoop]
      by_cases hmem : current.identity ∈ (result.found.map fst).map identity
      · -- The model is reported, and its identity stands twice in what is visible.
        have hlat := ih pending
          { result with duplicates := result.duplicates ++ [(current.identity, path)] }
          (by rw [hc, length_append] at hfuel; omega) hfd
        have hnd : ¬ (visible result.found ((current, path) :: pending)).Nodup := by
          intro hnd
          rw [visible, map_append] at hnd
          have hdis := disjoint_of_nodup_append hnd
          apply hdis hmem
          exact mem_map_of_mem (mem_append_left _ current.mem_nested_self)
        rw [if_pos (mem_found.mpr hmem)]
        refine ⟨⟨fun h => ?_, fun h => absurd h.2 hnd⟩, fun h => absurd h hnd⟩
        have habs := (hlat.1.mp h).1
        simp at habs
      · have hs := visible_step result.found current path pending
        have hlat := ih (pending ++ dependencyPaths current path)
          { result with found := result.found ++ [(current, path)] } ?_ ?_
        · rw [if_neg (mt mem_found.mp hmem)]
          have hpm := hs.map identity
          refine ⟨hlat.1.trans (and_congr_right fun _ => hpm.nodup_iff), fun h => ?_⟩
          exact (hlat.2 (hpm.nodup_iff.mpr h)).trans hs
        · have hlen := hs.length_eq
          simp only [length_append, length_map, length_cons] at hlen
          omega
        · simp only [map_append]
          apply List.Nodup.append hfd (nodup_singleton _)
          intro identity hfst hsnd
          rw [mem_singleton] at hsnd
          exact hmem (hsnd ▸ hfst)

def Model.Distinct (root : Model) : Prop := (root.nested.map Model.identity).Nodup

lemma modelClosure_gathers :
    Gathers [(root, "")] ⟨[], []⟩ (modelClosure root) := by
  apply closureLoop_gathers
  · simp [pendingModels]
  · exact nodup_nil

lemma visible_root : visible [] [(root, "")] = root.nested.map identity := by
  simp [visible, pendingModels]

lemma duplicates_eq_nil {root : Model} : (modelClosure root).duplicates = [] ↔ root.Distinct := by
  rw [(modelClosure_gathers root).1, visible_root]
  exact ⟨And.right, fun h => ⟨rfl, h⟩⟩

namespace Model.Distinct

variable {root : Model}

lemma scope_perm (h : root.Distinct) : root.scope.Perm root.nested := by
  have hpm := (modelClosure_gathers root).2
  rw [visible_root] at hpm
  simpa [scope, pendingModels] using hpm h

variable {owner : Model}

section

variable (h : root.Distinct)

include h

lemma mem_scope : owner ∈ root.scope ↔ owner ∈ root.nested := h.scope_perm.mem_iff

lemma of_nested (howner : owner ∈ root.nested) : owner.Distinct :=
  h.sublist ((root.nested_sublist owner howner).map identity)

lemma eq_of_identity {first second : Model} (hfst : first ∈ root.nested)
    (hsnd : second ∈ root.nested) (heq : first.identity = second.identity) : first = second :=
  inj_on_of_nodup_map h hfst hsnd heq

lemma findModel_eq_some {identity : Snapshot} :
    findModel root identity = some owner ↔ owner ∈ root.nested ∧ owner.identity = identity := by
  have hnd : (root.scope.map Model.identity).Nodup :=
    (h.scope_perm.map Model.identity).nodup_iff.mpr h
  rw [findModel, Keyed.find?_eq_some hnd, h.mem_scope]

end

end Model.Distinct

/-- No two entities of a model have the same identity in one revision or in two. -/
def Model.DistinctEntities (owner : Model) : Prop := (owner.entities.map (·.identity.id)).Nodup

structure Supplies (root : Model) (reference : ResolvedRef) (owner : Model) (entity : Entity) :
    Prop where
  nested : owner ∈ root.nested
  model : owner.identity = reference.model
  mem : entity ∈ owner.entities
  entity : entity.identity = reference.entity

/-- A root whose models, and whose entities in each model, have distinct identities. -/
structure Model.Resolvable (root : Model) : Prop where
  models : root.Distinct
  entities : ∀ owner ∈ root.nested, owner.DistinctEntities

namespace Model.Resolvable

variable {root : Model}

lemma of_nested (h : root.Resolvable) {owner : Model} (howner : owner ∈ root.nested) :
    owner.Resolvable where
  models := h.models.of_nested howner
  entities inner hin := h.entities inner ((root.nested_sublist owner howner).subset hin)

variable {reference : ResolvedRef}

lemma resolve_eq_ok (h : root.Resolvable) {entity : Entity} :
    resolve root reference = .ok entity ↔ ∃ owner, Supplies root reference owner entity := by
  constructor
  · intro hrsv
    rw [resolve] at hrsv
    cases hfn : findModel root reference.model with
    | none => simp [hfn] at hrsv
    | some owner =>
      simp only [hfn] at hrsv
      obtain ⟨hnes, hmo⟩ := h.models.findModel_eq_some.mp hfn
      split at hrsv
      · cases hrsv
      · rename_i found hfil
        have hmem : found ∈ owner.entities := by
          have hfd := mem_singleton_self found
          rw [← hfil] at hfd
          exact (mem_filter.mp hfd).1
        split at hrsv
        · cases hrsv
        · rename_i heq
          cases hrsv
          exact ⟨owner, hnes, hmo, hmem, not_not.mp heq⟩
      · cases hrsv
  · rintro ⟨owner, hnes, hmo, hmem, hety⟩
    have hfn := h.models.findModel_eq_some.mpr ⟨hnes, hmo⟩
    have hfil := Keyed.filter_eq_singleton (h.entities owner hnes) hmem
    rw [hety] at hfil
    simp [resolve, hfn, hfil, hety]

lemma supplies_unique (h : root.Resolvable) {owner owner' : Model} {entity entity' : Entity}
    (hfst : Supplies root reference owner entity) (hsnd : Supplies root reference owner' entity') :
    owner = owner' ∧ entity = entity' := by
  have howner := h.models.eq_of_identity hfst.nested hsnd.nested
    (hfst.model.trans hsnd.model.symm)
  subst howner
  refine ⟨rfl, inj_on_of_nodup_map (h.entities owner hfst.nested) hfst.mem hsnd.mem ?_⟩
  rw [hfst.entity, hsnd.entity]

end Model.Resolvable

end Morphir.Intent

/-!
## Models whose inspection has no errors

An inspection has no errors exactly when the identities are distinct, the source
references name a fragment, and the references and links fit what is supplied.
-/

namespace Morphir.Intent

open List

def Cites (owner : Model) (reference : SourceRef) : Prop :=
  ∃ source ∈ owner.sources, source.id = reference.sourceId ∧ reference.anchor ∈ source.fragments

def RefersTo (owner : Model) (reference : ResolvedRef) (fits : Entity → Prop) : Prop :=
  ∃ model entity, Supplies owner reference model entity ∧ fits entity

def ContentFits (owner : Model) : Content → Prop
  | .sourceFragment reference => Cites owner reference
  | .declaration _ (some binding) => RefersTo owner binding fun e => e.kind = .implementation
  | .contract subject kind _ => RefersTo owner subject fun e => clauseFits kind e = true
  | .claim claim => RefersTo owner claim.subject fun _ => True
  | _ => True

/-- The target of a link from this subject has the kind that its predicate asks for. -/
def TargetFits (owner : Model) (link : Relationship) (subject : Entity) : Prop :=
  match link.target with
  | .unresolved kind => kind = link.predicate.signature.2
  | .resolved reference =>
    RefersTo owner reference fun target =>
      target.kind = link.predicate.signature.2 ∧ endpointError link subject target = none

/-- The subject and the target of a link have the kinds that its predicate asks for. -/
def LinkFits (owner : Model) (link : Relationship) : Prop :=
  RefersTo owner link.subject fun subject =>
    subject.kind = link.predicate.signature.1 ∧ TargetFits owner link subject

def Model.recordIds (owner : Model) : List Id :=
  owner.sources.map Source.id ++ owner.entities.map (·.identity.id) ++
    owner.relationships.map Relationship.id

structure SourceFits (source : Source) : Prop where
  retained : source.resolution = .retained → source.fragments ≠ []
  anchors : source.fragments.Nodup

structure Fits (owner : Model) : Prop where
  identities : owner.recordIds.Nodup
  sources : ∀ source ∈ owner.sources, SourceFits source
  entities : ∀ entity ∈ owner.entities,
    (∀ r ∈ entity.sourceRefs, Cites owner r) ∧ ContentFits owner entity.content
  links : ∀ link ∈ owner.relationships, (∀ r ∈ link.sourceRefs, Cites owner r) ∧ LinkFits owner link

structure WellFormed (root : Model) : Prop where
  models : root.Distinct
  fits : ∀ owner ∈ root.nested, Fits owner

lemma hasErrors_append (front back : List Diagnostic) :
    hasErrors (front ++ back) = (hasErrors front || hasErrors back) := any_append

lemma hasErrors_append_eq_false {front back : List Diagnostic} :
    hasErrors (front ++ back) = false ↔ hasErrors front = false ∧ hasErrors back = false := by
  rw [hasErrors_append, Bool.or_eq_false_iff]

lemma hasErrors_eq_false {diagnostics : List Diagnostic} :
    hasErrors diagnostics = false ↔ ∀ d ∈ diagnostics, d.code.isError = false := by
  simp [hasErrors]

lemma mapIdx_flatten_clean {α : Type} {f : Nat → α → List Diagnostic} {P : α → Prop}
    (h : ∀ i a, hasErrors (f i a) = false ↔ P a) (items : List α) :
    hasErrors (items.mapIdx f).flatten = false ↔ ∀ a ∈ items, P a := by
  induction items generalizing f with
  | nil => simp [hasErrors]
  | cons a items ih =>
    rw [mapIdx_cons, flatten_cons, hasErrors_append_eq_false, h,
      ih fun i a => h (i + 1) a, forall_mem_cons]

lemma indexed_clean {α : Type} {f : String → α → List Diagnostic} {P : α → Prop}
    (h : ∀ path a, hasErrors (f path a) = false ↔ P a) (path : String) (items : List α) :
    hasErrors (indexed path items f) = false ↔ ∀ a ∈ items, P a :=
  mapIdx_flatten_clean (fun _ a => h _ a) items

lemma indexed_fst {α β : Type} (f : α → β) (path : String) (items : List α) :
    (indexed path items fun path a => [(f a, path)]).map Prod.fst = items.map f := by
  have hflat : ∀ g : Nat → α → String, ((items.mapIdx fun i a => [(f a, g i a)]).flatten).map
      Prod.fst = items.map f := by
    induction items with
    | nil => intro g; rfl
    | cons a items ih =>
      intro g
      rw [mapIdx_cons, flatten_cons, map_append, ih fun i a => g (i + 1) a]
      rfl
  exact hflat fun i _ => path ++ "/" ++ toString i

variable {report : Id → String → Diagnostic}

section

variable (hrpt : ∀ id path, (report id path).code.isError = true)

include hrpt

lemma repeated_clean (seen : List Id) (items : List (Id × String)) :
    hasErrors (repeated report seen items) = false ↔
      (∀ id ∈ items.map Prod.fst, id ∉ seen) ∧ (items.map Prod.fst).Nodup := by
  induction items generalizing seen with
  | nil => simp [repeated, hasErrors]
  | cons item items ih =>
    obtain ⟨id, path⟩ := item
    rw [repeated, hasErrors_append_eq_false, ih, map_cons, forall_mem_cons, nodup_cons]
    have hfst : hasErrors (if id ∈ seen then [report id path] else []) = false ↔ id ∉ seen := by
      by_cases hse : id ∈ seen
      · simp [hasErrors, hrpt]
      · simp [hse, hasErrors]
    rw [hfst]
    constructor
    · rintro ⟨hid, hr, hnd⟩
      refine ⟨⟨hid, fun other ho hse => ?_⟩, fun hmem => ?_, hnd⟩
      · exact hr other ho (mem_append_left _ hse)
      · exact hr id hmem (mem_append_right _ (mem_singleton_self _))
    · rintro ⟨⟨hid, hr⟩, hmem, hnd⟩
      refine ⟨hid, fun other ho hse => ?_, hnd⟩
      rcases mem_append.mp hse with hse | hse
      · exact hr other ho hse
      · exact hmem (mem_singleton.mp hse ▸ ho)

lemma repeated_nil_clean (items : List (Id × String)) :
    hasErrors (repeated report [] items) = false ↔ (items.map Prod.fst).Nodup := by
  rw [repeated_clean hrpt]
  exact ⟨And.right, fun h => ⟨fun _ _ => not_mem_nil, h⟩⟩

end

lemma inspectObservation_clean (root : Model) (required : RequiredContext) (claim : Claim)
    (path : String) (entry : Model × Relationship) :
    hasErrors (inspectObservation root required claim path entry) = false := by
  rw [inspectObservation]
  split
  · rfl
  · split
    · split <;> rfl
    · rfl

lemma inspectRequirement_clean (root model : Model) (path : String) (entity : Entity) :
    hasErrors (inspectRequirement root model path entity) = false := by
  have hif : ∀ (c : Prop) [Decidable c] (code : DiagnosticCode), code.isError = false →
      hasErrors (if c then [⟨code, entity.identity.id, path⟩] else []) = false ∧
        hasErrors (if c then [] else [⟨code, entity.identity.id, path⟩]) = false := by
    intro c _ code hcode
    by_cases hc : c <;> simp [hasErrors, hcode]
  apply hasErrors_append_eq_false.mpr
  refine ⟨hasErrors_append_eq_false.mpr ⟨?_, ?_⟩, ?_⟩
  · exact (hif _ .missingFormalization rfl).1
  · exact (hif _ .missingExamples rfl).2
  · exact (hif _ .missingEvidence rfl).2

lemma inspectClaim_clean (root model : Model) (path : String) (entity : Entity) :
    hasErrors (inspectClaim root model path entity) = false := by
  rw [inspectClaim]
  split
  · rw [hasErrors_append_eq_false]
    constructor
    · split <;> rfl
    · rw [hasErrors_eq_false]
      intro d hd
      obtain ⟨entry, _, hd⟩ := mem_flatMap.mp hd
      exact hasErrors_eq_false.mp (inspectObservation_clean _ _ _ _ entry) d hd
  · rfl

lemma inspectGaps_clean (root model : Model) (path : String) (entity : Entity) :
    hasErrors (inspectGaps root model path entity) = false := by
  rw [inspectGaps, hasErrors_append_eq_false]
  refine ⟨?_, inspectClaim_clean root model path entity⟩
  split
  · exact inspectRequirement_clean root model path entity
  · rfl

variable {path : String}

lemma inspectFragments_clean {source : Source} :
    hasErrors (inspectFragments path source) = false ↔ source.fragments.Nodup := by
  rw [inspectFragments, repeated_nil_clean (fun _ _ => rfl), indexed_fst fun anchor : Id => anchor,
    map_id'']
  intro anchor
  rfl

lemma inspectSource_clean (path : String) (source : Source) :
    hasErrors (inspectSource path source) = false ↔ SourceFits source := by
  rw [inspectSource, hasErrors_append_eq_false, hasErrors_append_eq_false, inspectFragments_clean]
  constructor
  · rintro ⟨⟨-, hret⟩, hanc⟩
    refine ⟨fun hres hemp => ?_, hanc⟩
    simp [hres, hemp, hasErrors, DiagnosticCode.isError] at hret
  · rintro ⟨hret, hanc⟩
    refine ⟨⟨?_, ?_⟩, hanc⟩
    · split <;> rfl
    · cases hres : source.resolution with
      | unresolved => rfl
      | retained => simp [hret hres, hasErrors]

variable {owner root : Model}

lemma sourceRefValid_iff (hids : (owner.sources.map Source.id).Nodup)
    (hsou : ∀ source ∈ owner.sources, SourceFits source) (reference : SourceRef) :
    sourceRefValid owner reference = true ↔ Cites owner reference := by
  rw [sourceRefValid]
  constructor
  · intro h
    split at h
    · rename_i source hfil
      have hmem := mem_singleton_self source
      rw [← hfil, mem_filter] at hmem
      have hcnt :
          (source.fragments.filter fun anchor => anchor = reference.anchor).length = 1 := by
        simpa using h
      obtain ⟨anchor, hanc⟩ := length_eq_one_iff.mp hcnt
      have hfd := mem_singleton_self anchor
      rw [← hanc, mem_filter] at hfd
      have heq : anchor = reference.anchor := by simpa using hfd.2
      exact ⟨source, hmem.1, by simpa using hmem.2, heq ▸ hfd.1⟩
    · cases h
  · rintro ⟨source, hmem, hid, hanc⟩
    have hfil := Keyed.filter_eq_singleton hids hmem
    have hnd : (source.fragments.map id).Nodup := by
      rw [map_id]
      exact (hsou source hmem).anchors
    have hfra := Keyed.filter_eq_singleton hnd hanc
    rw [hid] at hfil
    simp only [id] at hfra
    simp [hfil, hfra]

variable {code : DiagnosticCode}

lemma resolve_error {reference : ResolvedRef} (h : resolve root reference = .error code) :
    code.isError = true := by
  rw [resolve] at h
  split at h
  · cases h
    rfl
  · split at h
    · cases h
      rfl
    · split at h <;> cases h
      rfl
    · cases h
      rfl

lemma single_clean {id : Id} : hasErrors [⟨code, id, path⟩] = false ↔ code.isError = false := by
  simp [hasErrors]

section Resolvable

variable {owner : Model} (h : owner.Resolvable)
include h

variable {reference : ResolvedRef}

lemma refersTo_iff {fits : Entity → Prop} :
    RefersTo owner reference fits ↔ ∃ entity, resolve owner reference = .ok entity ∧
      fits entity := by
  constructor
  · rintro ⟨model, entity, hsup, hfi⟩
    exact ⟨entity, h.resolve_eq_ok.mpr ⟨model, hsup⟩, hfi⟩
  · rintro ⟨entity, hrsv, hfi⟩
    obtain ⟨model, hsup⟩ := h.resolve_eq_ok.mp hrsv
    exact ⟨model, entity, hsup, hfi⟩

lemma inspectReference_clean {fits : Entity → Bool} {id : Id} :
    hasErrors (inspectReference owner reference fits id path) = false ↔
      RefersTo owner reference fun e => fits e = true := by
  rw [refersTo_iff h, inspectReference]
  cases hrsv : resolve owner reference with
  | error code =>
    simp only [single_clean, resolve_error hrsv]
    simp
  | ok entity =>
    by_cases hfi : fits entity = true
    · simp [hfi, hasErrors]
    · simp [hasErrors, DiagnosticCode.isError]

variable {link : Relationship}

omit h in
lemma endpointError_isError {subject target : Entity}
    (her : endpointError link subject target = some code) : code.isError = true := by
  rw [endpointError] at her
  split at her
  · split at her
    · split at her <;> cases her
      rfl
    · cases her
      rfl
  · split at her <;> cases her
    rfl
  · cases her

lemma targetError_clean {subject : Entity} :
    (∀ code, targetError owner link subject = some code → code.isError = false) ↔
      TargetFits owner link subject := by
  rw [targetError, TargetFits]
  cases link.target with
  | unresolved kind =>
    by_cases hkd : kind = link.predicate.signature.2
    · simp [hkd, DiagnosticCode.isError]
    · simp [hkd, DiagnosticCode.isError]
  | resolved reference =>
    simp only [refersTo_iff h]
    cases hrsv : resolve owner reference with
    | error code =>
      have her := resolve_error hrsv
      simp [her]
    | ok target =>
      by_cases hkd : target.kind = link.predicate.signature.2
      · cases hend : endpointError link subject target with
        | none => simp [hkd, hend]
        | some code =>
          have her := endpointError_isError hend
          simp [hkd, hend, her]
      · simp [hkd, DiagnosticCode.isError]

lemma relationshipError_clean :
    (∀ code, relationshipError owner link = some code → code.isError = false) ↔
      LinkFits owner link := by
  rw [relationshipError, LinkFits, refersTo_iff h]
  cases hrsv : resolve owner link.subject with
  | error code =>
    have her := resolve_error hrsv
    simp [her]
  | ok subject =>
    by_cases hkd : subject.kind = link.predicate.signature.1
    · simp [hkd, targetError_clean h]
    · simp [hkd, DiagnosticCode.isError]

variable (hids : (owner.sources.map Source.id).Nodup)
  (hsources : ∀ source ∈ owner.sources, SourceFits source)
include hids hsources

omit h in
lemma inspectRefs_clean (references : List SourceRef) (id : Id) (path : String) :
    hasErrors (inspectRefs owner references id path) = false ↔ ∀ r ∈ references, Cites owner r := by
  apply indexed_clean
  intro path reference
  rw [← sourceRefValid_iff hids hsources]
  by_cases hvalid : sourceRefValid owner reference = true
  · simp [hvalid, hasErrors]
  · simp [hasErrors, DiagnosticCode.isError]

lemma inspectContent_clean (id : Id) (path : String) (content : Content) :
    hasErrors (inspectContent owner id path content) = false ↔ ContentFits owner content := by
  cases content with
  | sourceFragment reference =>
    rw [inspectContent, ContentFits, ← sourceRefValid_iff hids hsources]
    by_cases hvalid : sourceRefValid owner reference = true
    · simp [hvalid, hasErrors]
    · simp [hasErrors, DiagnosticCode.isError]
  | declaration role binding =>
    cases binding with
    | none => simp [inspectContent, ContentFits, hasErrors, DiagnosticCode.isError]
    | some binding =>
      rw [inspectContent, ContentFits, inspectReference_clean h]
      simp
  | contract subject kind expression =>
    rw [inspectContent, hasErrors_append_eq_false, inspectReference_clean h]
    apply and_iff_left
    cases expression <;> rfl
  | claim claim =>
    rw [inspectContent, ContentFits, inspectReference_clean h]
    simp
  | _ => simp [inspectContent, ContentFits, hasErrors]

lemma inspectEntity_clean (path : String) (entity : Entity) :
    hasErrors (inspectEntity owner path entity) = false ↔
      (∀ r ∈ entity.sourceRefs, Cites owner r) ∧ ContentFits owner entity.content := by
  rw [inspectEntity, hasErrors_append_eq_false, inspectRefs_clean hids hsources,
    inspectContent_clean h hids hsources]

lemma inspectRelationship_clean (path : String) (link : Relationship) :
    hasErrors (inspectRelationship owner path link) = false ↔
      (∀ r ∈ link.sourceRefs, Cites owner r) ∧ LinkFits owner link := by
  rw [inspectRelationship, hasErrors_append_eq_false, inspectRefs_clean hids hsources,
    ← relationshipError_clean h]
  apply and_congr_right
  cases relationshipError owner link with
  | none => simp [hasErrors]
  | some code => simp [single_clean]

end Resolvable

lemma duplicateIdentities_clean :
    hasErrors (duplicateIdentities owner) = false ↔ owner.recordIds.Nodup := by
  rw [duplicateIdentities, repeated_nil_clean (fun _ _ => rfl), identities, map_append,
    map_append, indexed_fst Source.id, indexed_fst fun e : Entity => e.identity.id,
    indexed_fst Relationship.id]
  rfl

section

variable (h : owner.recordIds.Nodup)

include h

lemma recordIds_sources :
    (owner.sources.map Source.id).Nodup := h.of_append_left.of_append_left

lemma recordIds_entities : owner.DistinctEntities := h.of_append_left.of_append_right

lemma recordIds_relationships :
    (owner.relationships.map Relationship.id).Nodup := h.of_append_right

end

lemma inspectLocal_recordIds (h : hasErrors (inspectLocal root owner) = false) :
    owner.recordIds.Nodup := by
  rw [inspectLocal] at h
  simp only [hasErrors_append_eq_false] at h
  exact duplicateIdentities_clean.mp h.1.1.1.1

lemma inspectLocal_clean (hres : owner.Resolvable) :
    hasErrors (inspectLocal root owner) = false ↔ Fits owner := by
  rw [inspectLocal]
  simp only [hasErrors_append_eq_false, duplicateIdentities_clean]
  rw [indexed_clean inspectSource_clean, indexed_clean
    fun path entity => iff_of_true (inspectGaps_clean root owner path entity) trivial]
  constructor
  · rintro ⟨⟨⟨⟨hids, hsou⟩, hent⟩, hlks⟩, -⟩
    have hsourceIds := recordIds_sources hids
    refine ⟨hids, hsou, ?_, ?_⟩
    · exact (indexed_clean (inspectEntity_clean hres hsourceIds hsou) _ _).mp hent
    · exact (indexed_clean (inspectRelationship_clean hres hsourceIds hsou) _ _).mp
        hlks
  · rintro ⟨hids, hsou, hent, hlks⟩
    have hsourceIds := recordIds_sources hids
    refine ⟨⟨⟨⟨hids, hsou⟩, ?_⟩, ?_⟩, fun _ _ => trivial⟩
    · exact (indexed_clean (inspectEntity_clean hres hsourceIds hsou) _ _).mpr hent
    · exact (indexed_clean (inspectRelationship_clean hres hsourceIds hsou) _ _).mpr
        hlks

lemma WellFormed.resolvable (h : WellFormed root) : root.Resolvable where
  models := h.models
  entities owner howner := recordIds_entities (h.fits owner howner).identities

lemma inspect_clean : hasErrors (inspect root) = false ↔
    (∀ owner ∈ root.scope, hasErrors (inspectLocal root owner) = false) ∧ root.Distinct := by
  rw [inspect, hasErrors_append_eq_false, ← duplicates_eq_nil]
  apply and_congr
  · simp only [hasErrors_eq_false, Model.scope, mem_flatMap, mem_map]
    constructor
    · rintro h owner ⟨entry, hent, rfl⟩ d hd
      exact h { d with path := entry.2 ++ d.path } ⟨entry, hent, d, hd, rfl⟩
    · rintro h d ⟨entry, hent, inner, hin, rfl⟩
      exact h entry.1 ⟨entry, hent, rfl⟩ inner hin
  · cases (modelClosure root).duplicates with
    | nil => simp [hasErrors]
    | cons entry entries => simp [hasErrors, DiagnosticCode.isError]

lemma inspect_clean_iff (root : Model) : hasErrors (inspect root) = false ↔ WellFormed root := by
  rw [inspect_clean]
  constructor
  · rintro ⟨hlo, hmod⟩
    have hcl : ∀ owner ∈ root.nested, hasErrors (inspectLocal root owner) = false :=
      fun owner howner => hlo owner (hmod.mem_scope.mpr howner)
    have hres : root.Resolvable :=
      ⟨hmod, fun owner howner => recordIds_entities (inspectLocal_recordIds (hcl owner howner))⟩
    exact ⟨hmod, fun owner howner =>
      (inspectLocal_clean (hres.of_nested howner)).mp (hcl owner howner)⟩
  · intro h
    refine ⟨fun owner howner => ?_, h.models⟩
    have hnes := h.models.mem_scope.mp howner
    exact (inspectLocal_clean (h.resolvable.of_nested hnes)).mpr (h.fits owner hnes)

end Morphir.Intent
