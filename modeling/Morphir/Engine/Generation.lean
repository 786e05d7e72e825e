import Morphir.Engine.CanonicalPaths
import Morphir.Library.OrdMap

/-!
# Generation batches

A backend gives the files of a unit as a batch and divides them into library projects.
The batch is checked as a whole before an artifact or a project of it is reported.
-/

namespace Morphir.Engine.Generation

open Fallible List Except
open Workspace (within)

inductive BuildPolicy
  | sourceOnly
  | required (target : String)
  deriving DecidableEq

structure ProjectDependency where
  moduleName : String
  version : String
  apiProfile : String
  semanticPin : String
  deriving DecidableEq

inductive Content
  | text (text : String)
  | binary (bytes : List UInt8)
  deriving DecidableEq

structure GeneratedFile where
  path : String
  content : Content
  format : String
  deriving DecidableEq

structure GeneratedProject where
  id : String
  root : String
  members : List String
  dependencies : List ProjectDependency
  buildContract : String
  deriving DecidableEq

structure GenerationBatch where
  files : List GeneratedFile
  projects : List GeneratedProject
  deriving DecidableEq

structure ContentArtifact where
  path : String
  source : String
  content : Content
  format : String
  deriving DecidableEq

structure LibraryProject where
  id : String
  source : String
  root : String
  members : List String
  dependencies : List ProjectDependency
  buildContract : String
  policy : BuildPolicy
  deriving DecidableEq

structure Collected where
  artifacts : List ContentArtifact
  projects : List LibraryProject
  deriving DecidableEq

def Nonportable (part : List Char) : Prop :=
  part.getLast? = some '.' ∨ part.getLast? = some ' ' ∨ ∃ c ∈ part, c.toNat < 32 ∨ 126 < c.toNat

instance (part : List Char) : Decidable (Nonportable part) :=
  inferInstanceAs (Decidable (_ ∨ _ ∨ ∃ c ∈ part, _))

def portablePath (path : String) (allowEmpty : Bool) : Except String Unit := do
  refuse (path = "" ∧ allowEmpty = false) ("generation.invalid_path: " ++ path)
  let normal ← normalize path
  refuse (normal ≠ path ∨ ':' ∈ path.toList ∨ '\\' ∈ path.toList ∨ '\x00' ∈ path.toList)
    ("generation.invalid_path: " ++ path)
  refuse (∃ part ∈ path.toList.splitOn '/', Nonportable part)
    ("generation.nonportable_path: " ++ path)

def checkFile (seen : List String) (file : GeneratedFile) : Except String (List String) := do
  portablePath file.path false
  let key := toLower file.path
  refuse (key ∈ seen ∨ ∃ existing ∈ seen, within existing key = true ∨ within key existing = true)
    ("generation.path_collision: " ++ file.path)
  pure (seen ++ [key])

def checkMember (files : List GeneratedFile) (root : String) (members : List String)
    (memberPath : String) : Except String (List String) := do
  portablePath memberPath false
  let path ← join root memberPath
  refuse ((∀ file ∈ files, file.path ≠ path) ∨ path ∈ members)
    ("generation.invalid_membership: " ++ path)
  pure (members ++ [path])

structure ProjectCheck where
  roots : List String
  members : List String
  ids : List String

def checkProject (files : List GeneratedFile) (check : ProjectCheck) (project : GeneratedProject) :
    Except String ProjectCheck := do
  portablePath project.root true
  refuse (project.id = "" ∨ project.id ∈ check.ids ∨ project.buildContract = "")
    ("generation.invalid_project: " ++ project.id)
  let key := toLower project.root
  refuse (∃ root ∈ check.roots, within root key = true ∨ within key root = true)
    ("generation.project_overlap: " ++ project.root)
  refuse (project.members = []) ("generation.empty_project: " ++ project.id)
  let members ← project.members.foldlM (checkMember files project.root) check.members
  pure { roots := check.roots ++ [key], members, ids := check.ids ++ [project.id] }

/-- The part of `validate_batch` before the first artifact is reported. -/
def checkBatch (batch : GenerationBatch) : Except String Unit := do
  let _ ← batch.files.foldlM checkFile []
  let check ← batch.projects.foldlM (checkProject batch.files) ⟨[], [], []⟩
  refuse (check.members.length ≠ batch.files.length ∨ batch.projects = [])
    "generation.unclaimed_artifact"

section Report

variable (base source : String)

def reportFiles : List GeneratedFile → Collected → Except String Unit × Collected
  | [], collected => (.ok (), collected)
  | file :: files, collected =>
    match join base file.path with
    | .error e => (.error e, collected)
    | .ok path =>
      reportFiles files { collected with
        artifacts := collected.artifacts ++
          [{ path, source, content := file.content, format := file.format }] }

def libraryProject (policy : BuildPolicy) (project : GeneratedProject) :
    Except String LibraryProject := do
  let root ← join base project.root
  let members ← project.members.mapM fun member => do
    let root ← join base project.root
    join root member
  pure {
    id := project.id, source, root, members, dependencies := project.dependencies,
    buildContract := project.buildContract, policy }

def reportProjects (policy : BuildPolicy) :
    List GeneratedProject → Collected → Except String Unit × Collected
  | [], collected => (.ok (), collected)
  | project :: projects, collected =>
    match libraryProject base source policy project with
    | .error e => (.error e, collected)
    | .ok library =>
      reportProjects policy projects
        { collected with projects := collected.projects ++ [library] }

end Report

/-- `validate_batch`, with the arrays that it pushes to. -/
def validateBatch (batch : GenerationBatch) (base source : String) (policy : BuildPolicy)
    (collected : Collected) : Except String Unit × Collected :=
  match checkBatch batch with
  | .error e => (.error e, collected)
  | .ok () =>
    match reportFiles base source batch.files collected with
    | (.error e, collected) => (.error e, collected)
    | (.ok (), collected) => reportProjects base source policy batch.projects collected

lemma join_eq {root path : String} (h : normalize path = .ok path) :
    join root path = .ok (below root path) := by
  simp only [join, h]
  rfl

lemma toLower_below (root path : String) :
    toLower (below root path) = below (toLower root) (toLower path) := by
  simp only [below, apply_ite toLower, toLower_eq_empty]
  congr 2
  simp [toLower, ← String.toList_inj]

lemma within_below_below {root a b : String} (ha : a ≠ "") (hb : b ≠ "") :
    within (below root a) (below root b) = within a b := by
  unfold below
  by_cases hro : root = ""
  · rw [if_pos hro, if_pos hro]
  · have hne : root ++ "/" ++ a ≠ "" := by
      simp
    rw [if_neg hro, if_neg hro, if_neg ha, if_neg hb, Bool.eq_iff_iff, within_iff, within_iff]
    simp only [hne, ha, String.toList_append, append_assoc, prefix_append_right_inj]

lemma overlaps_below {base a b : String} (ha : a ≠ "") (hb : b ≠ "") :
    overlaps (below base a) (below base b) = overlaps a b := by
  have ha' : toLower a ≠ "" := mt toLower_eq_empty.mp ha
  have hb' : toLower b ≠ "" := mt toLower_eq_empty.mp hb
  unfold overlaps
  rw [toLower_below, toLower_below, within_below_below ha' hb', within_below_below hb' ha']

lemma portablePath_ok {path : String} {allowEmpty : Bool} {u : Unit}
    (h : portablePath path allowEmpty = .ok u) :
    normalize path = .ok path ∧ (allowEmpty = false → path ≠ "") := by
  obtain ⟨_, hemp, h⟩ := bind_ok h
  obtain ⟨normal, hnor, h⟩ := bind_ok h
  obtain ⟨_, hcan, _⟩ := bind_ok h
  have hcan := refuse_ok hcan
  rw [not_or, not_not] at hcan
  obtain ⟨rfl, -⟩ := hcan
  exact ⟨hnor, fun hallow hp => refuse_ok hemp ⟨hp, hallow⟩⟩

def Apart (a b : String) : Prop := within a b = false ∧ within b a = false

variable {files : List GeneratedFile}

lemma checkFiles_ok {seen out : List String} (hse : seen.Pairwise Apart)
    (h : files.foldlM checkFile seen = .ok out) :
    out = seen ++ files.map (fun file => toLower file.path) ∧ out.Pairwise Apart ∧
      ∀ file ∈ files, normalize file.path = .ok file.path ∧ file.path ≠ "" := by
  induction files generalizing seen with
  | nil =>
    obtain rfl := ok.inj h
    exact ⟨(append_nil seen).symm, hse, by simp⟩
  | cons file files ih =>
    obtain ⟨next, hnx, h⟩ := bind_ok h
    obtain ⟨_, hpor, hnx⟩ := bind_ok hnx
    obtain ⟨_, hkey, hnx⟩ := bind_ok hnx
    obtain rfl := ok.inj hnx
    obtain ⟨hcan, hemp⟩ := portablePath_ok hpor
    have hkey := refuse_ok hkey
    push Not at hkey
    have hap : (seen ++ [toLower file.path]).Pairwise Apart := by
      rw [pairwise_append]
      refine ⟨hse, pairwise_singleton _ _, fun existing hexi key hmem => ?_⟩
      rw [mem_singleton.mp hmem]
      have hwi := hkey.2 existing hexi
      exact ⟨Bool.eq_false_iff.mpr hwi.1, Bool.eq_false_iff.mpr hwi.2⟩
    obtain ⟨rfl, hout, hfls⟩ := ih hap h
    refine ⟨by simp, hout, forall_mem_cons.mpr ⟨⟨hcan, hemp rfl⟩, hfls⟩⟩

def memberPaths (project : GeneratedProject) : List String :=
  project.members.map (below project.root)

lemma checkMembers_ok {root : String} {named members out : List String} (hmembers : members.Nodup)
    (h : named.foldlM (checkMember files root) members = .ok out) :
    out = members ++ named.map (below root) ∧ out.Nodup ∧
      (∀ path ∈ named.map (below root), path ∈ files.map (·.path)) ∧
      ∀ member ∈ named, normalize member = .ok member := by
  induction named generalizing members with
  | nil =>
    obtain rfl := ok.inj h
    exact ⟨(append_nil members).symm, hmembers, by simp, by simp⟩
  | cons member named ih =>
    obtain ⟨next, hnx, h⟩ := bind_ok h
    obtain ⟨_, hpor, hnx⟩ := bind_ok hnx
    obtain ⟨path, hp, hnx⟩ := bind_ok hnx
    obtain ⟨_, hmember, hnx⟩ := bind_ok hnx
    obtain rfl := ok.inj hnx
    obtain ⟨hcan, -⟩ := portablePath_ok hpor
    obtain rfl : below root member = path := ok.inj ((join_eq hcan).symm.trans hp)
    have hmember := refuse_ok hmember
    push Not at hmember
    obtain ⟨⟨file, hfl, hp⟩, hnew⟩ := hmember
    have hnd : (members ++ [below root member]).Nodup := by
      rw [nodup_append_comm]
      exact nodup_cons.mpr ⟨hnew, hmembers⟩
    obtain ⟨rfl, hout, hpaths, hnm⟩ := ih hnd h
    refine ⟨by simp, hout, ?_, forall_mem_cons.mpr ⟨hcan, hnm⟩⟩
    rw [map_cons, forall_mem_cons]
    exact ⟨mem_map.mpr ⟨file, hfl, hp⟩, hpaths⟩

lemma checkProjects_ok {projects : List GeneratedProject} {check out : ProjectCheck}
    (hmem : check.members.Nodup) (h : projects.foldlM (checkProject files) check = .ok out) :
    out.members = check.members ++ projects.flatMap memberPaths ∧ out.members.Nodup ∧
      (∀ path ∈ projects.flatMap memberPaths, path ∈ files.map (·.path)) ∧
      ∀ project ∈ projects, normalize project.root = .ok project.root ∧
        ∀ member ∈ project.members, normalize member = .ok member := by
  induction projects generalizing check with
  | nil =>
    cases h
    exact ⟨(append_nil _).symm, hmem, by simp, by simp⟩
  | cons project projects ih =>
    obtain ⟨next, hnx, h⟩ := bind_ok h
    obtain ⟨_, hpor, hnx⟩ := bind_ok hnx
    obtain ⟨_, _, hnx⟩ := bind_ok hnx
    obtain ⟨_, _, hnx⟩ := bind_ok hnx
    obtain ⟨_, _, hnx⟩ := bind_ok hnx
    obtain ⟨members, hfo, hnx⟩ := bind_ok hnx
    cases hnx
    obtain ⟨rfl, hnd, hpaths, hcan⟩ := checkMembers_ok hmem hfo
    obtain ⟨hout, houtNodup, houtPaths, hpro⟩ := ih hnd h
    refine ⟨?_, houtNodup, ?_, ?_⟩
    · rw [hout, append_assoc]
      rfl
    · rw [flatMap_cons, forall_mem_append]
      exact ⟨hpaths, houtPaths⟩
    · exact forall_mem_cons.mpr ⟨⟨(portablePath_ok hpor).1, hcan⟩, hpro⟩

structure Checked (batch : GenerationBatch) : Prop where
  files : ∀ file ∈ batch.files, normalize file.path = .ok file.path ∧ file.path ≠ ""
  apart : batch.files.Pairwise fun a b => overlaps a.path b.path = false
  projects : ∀ project ∈ batch.projects, normalize project.root = .ok project.root ∧
    ∀ member ∈ project.members, normalize member = .ok member
  nodup : (batch.projects.flatMap memberPaths).Nodup
  owned : ∀ file ∈ batch.files, file.path ∈ batch.projects.flatMap memberPaths

variable {batch : GenerationBatch}

lemma checkBatch_ok {u : Unit} (h : checkBatch batch = .ok u) : Checked batch := by
  obtain ⟨seen, hfls, h⟩ := bind_ok h
  obtain ⟨check, hpro, h⟩ := bind_ok h
  have hcnt := refuse_ok h
  rw [not_or, not_not] at hcnt
  obtain ⟨rfl, hap, hcan⟩ := checkFiles_ok .nil hfls
  obtain ⟨hmem, hnd, hpaths, hroots⟩ := checkProjects_ok nodup_nil hpro
  rw [nil_append] at hap hmem
  rw [hmem] at hnd hcnt
  refine ⟨hcan, ?_, hroots, hnd, fun file hfl => ?_⟩
  · rw [pairwise_map] at hap
    refine hap.imp fun {a b} hab => ?_
    rw [overlaps, hab.1, hab.2]
    rfl
  · -- the members are as many as the files, and all of them are paths of files
    have hsub := hnd.subperm hpaths
    have hlen : (batch.files.map (·.path)).length ≤
        (batch.projects.flatMap memberPaths).length := by
      rw [length_map, hcnt.1]
    have hpm := hsub.perm_of_length_le hlen
    exact hpm.mem_iff.mpr (mem_map_of_mem hfl)

lemma reportFiles_eq (base source : String) (files : List GeneratedFile) (collected : Collected)
    (h : ∀ file ∈ files, normalize file.path = .ok file.path) :
    reportFiles base source files collected = (.ok (), { collected with
      artifacts := collected.artifacts ++ files.map fun file =>
        { path := below base file.path, source, content := file.content,
          format := file.format } }) := by
  induction files generalizing collected with
  | nil => simp [reportFiles]
  | cons file files ih =>
    obtain ⟨hfl, hfls⟩ := forall_mem_cons.mp h
    rw [reportFiles, join_eq hfl]
    simp only [ih _ hfls, map_cons, append_assoc, singleton_append]

/-- The project that is reported for a project with canonical paths. -/
def reportedProject (base source : String) (policy : BuildPolicy) (project : GeneratedProject) :
    LibraryProject where
  id := project.id
  source := source
  root := below base project.root
  members := project.members.map (below (below base project.root))
  dependencies := project.dependencies
  buildContract := project.buildContract
  policy := policy

variable {project : GeneratedProject}

lemma libraryProject_eq (base source : String) (policy : BuildPolicy)
    (hro : normalize project.root = .ok project.root)
    (hmembers : ∀ member ∈ project.members, normalize member = .ok member) :
    libraryProject base source policy project =
      .ok (reportedProject base source policy project) := by
  have hall : (project.members.mapM fun member => do
      let root ← join base project.root
      join root member) =
        ok (project.members.map (below (below base project.root))) := by
    rw [mapM_eq_ok, List.forall₂_map_right_iff, List.forall₂_same]
    intro member hmember
    rw [join_eq hro, bind_eq, join_eq (hmembers member hmember)]
  rw [libraryProject, join_eq hro]
  rw [join_eq hro] at hall
  rw [hall]
  rfl

lemma reportProjects_eq (base source : String) (policy : BuildPolicy)
    (projects : List GeneratedProject) (collected : Collected)
    (h : ∀ project ∈ projects, normalize project.root = .ok project.root ∧
      ∀ member ∈ project.members, normalize member = .ok member) :
    reportProjects base source policy projects collected = (.ok (), { collected with
      projects := collected.projects ++ projects.map (reportedProject base source policy) }) := by
  induction projects generalizing collected with
  | nil => simp [reportProjects]
  | cons project projects ih =>
    obtain ⟨hproject, hprojects⟩ := forall_mem_cons.mp h
    rw [reportProjects, libraryProject_eq base source policy hproject.1 hproject.2]
    simp only [ih _ hprojects, map_cons, append_assoc, singleton_append]

def GeneratedProject.Owns (project : GeneratedProject) (path : String) : Prop :=
  ∃ member ∈ project.members, join project.root member = .ok path

lemma Checked.owns_iff (h : Checked batch) (hpro : project ∈ batch.projects) (path : String) :
    project.Owns path ↔ path ∈ memberPaths project := by
  unfold GeneratedProject.Owns memberPaths
  rw [mem_map]
  refine exists_congr fun member => and_congr_right fun hmem => ?_
  rw [join_eq ((h.projects project hpro).2 member hmem), ok.injEq]

lemma Checked.existsUnique_owner (h : Checked batch) {file : GeneratedFile}
    (hfl : file ∈ batch.files) :
    ∃! index : Nat, ∃ project : GeneratedProject, batch.projects[index]? = some project ∧
      project.Owns file.path := by
  obtain ⟨project, hpro, hmem⟩ := mem_flatMap.mp (h.owned file hfl)
  obtain ⟨index, hix⟩ := List.getElem?_of_mem hpro
  refine ⟨index, ⟨project, hix, (h.owns_iff hpro _).mpr hmem⟩, ?_⟩
  rintro other ⟨project', ho, howns⟩
  have hmem' := (h.owns_iff (mem_of_getElem? ho) _).mp howns
  have hap := (nodup_flatMap.mp h.nodup).2
  rw [pairwise_iff_getElem] at hap
  obtain ⟨hlt, rfl⟩ := List.getElem?_eq_some_iff.mp hix
  obtain ⟨hlt', rfl⟩ := List.getElem?_eq_some_iff.mp ho
  rcases Nat.lt_trichotomy other index with hless | heq | hless
  · exact absurd hmem (disjoint_left.mp (hap other index hlt' hlt hless) hmem')
  · exact heq
  · exact absurd hmem' (disjoint_left.mp (hap index other hlt hlt' hless) hmem)

section Batch

variable {batch : GenerationBatch} {base source : String} {policy : BuildPolicy}
  {collected after : Collected}

lemma validateBatch_error {e : String}
    (h : validateBatch batch base source policy collected = (.error e, after)) :
    after = collected := by
  unfold validateBatch at h
  cases hchk : checkBatch batch with
  | error e' =>
    rw [hchk] at h
    exact (Prod.mk.inj h).2.symm
  | ok _ =>
    -- after the checks, no report is refused
    have hckd := checkBatch_ok hchk
    have hrpt := reportFiles_eq base source batch.files collected
      fun file hfl => (hckd.files file hfl).1
    simp only [hchk, hrpt, reportProjects_eq base source policy batch.projects _ hckd.projects] at h
    cases (Prod.mk.inj h).1

/-- Artifacts that are neither of one path nor one in the other, ignoring letter case. -/
def ContentArtifact.Apart (a b : ContentArtifact) : Prop :=
  toLower a.path ≠ toLower b.path ∧ overlaps a.path b.path = false

lemma ContentArtifact.apart {a b : ContentArtifact} (h : overlaps a.path b.path = false) :
    a.Apart b := by
  refine ⟨fun heq => ?_, h⟩
  rw [overlaps, heq, within_refl] at h
  cases h

lemma validateBatch_ok (h : validateBatch batch base source policy collected = (.ok (), after)) :
    Checked batch ∧ ∃ added, after.artifacts = collected.artifacts ++ added ∧
      added.map (·.content) = batch.files.map (·.content) ∧
      (∀ artifact ∈ added, within base artifact.path = true) ∧
      added.Pairwise ContentArtifact.Apart := by
  unfold validateBatch at h
  cases hchk : checkBatch batch with
  | error e =>
    rw [hchk] at h
    cases (Prod.mk.inj h).1
  | ok _ =>
    have hckd := checkBatch_ok hchk
    have hrpt := reportFiles_eq base source batch.files collected
      fun file hfl => (hckd.files file hfl).1
    simp only [hchk, hrpt, reportProjects_eq base source policy batch.projects _ hckd.projects] at h
    obtain rfl := (Prod.mk.inj h).2
    refine ⟨hckd, _, rfl, ?_, ?_, ?_⟩
    · rw [map_map]
      rfl
    · rw [forall_mem_map]
      exact fun file _ => within_below base file.path
    · rw [pairwise_map]
      refine hckd.apart.imp_of_mem fun {a b} ha hb hab => ?_
      exact ContentArtifact.apart (by rw [overlaps_below (hckd.files a ha).2 (hckd.files b hb).2, hab])

end Batch

/-- An accepted batch adds the artifacts of its files, which are apart, and each of its files
is of one project.  A refused batch changes nothing. -/
theorem validateBatch_spec (batch : GenerationBatch) (base source : String) (policy : BuildPolicy)
    (collected : Collected) :
    (∀ after, validateBatch batch base source policy collected = (.ok (), after) →
      (∃ added, after.artifacts = collected.artifacts ++ added ∧
        added.map (·.content) = batch.files.map (·.content) ∧
        added.Pairwise ContentArtifact.Apart) ∧
      ∀ file ∈ batch.files, ∃! index : Nat, ∃ project : GeneratedProject,
        batch.projects[index]? = some project ∧ project.Owns file.path) ∧
    ∀ e after, validateBatch batch base source policy collected = (.error e, after) →
      after = collected := by
  constructor
  · intro after h
    obtain ⟨hckd, added, hadded, hct, -, hap⟩ := validateBatch_ok h
    exact ⟨⟨added, hadded, hct, hap⟩, fun file hfl => hckd.existsUnique_owner hfl⟩
  · exact fun e after => validateBatch_error

structure Reported where
  batch : GenerationBatch
  base : String
  source : String
  policy : BuildPolicy

def validateBatches (collected : Collected) (run : List Reported) : Collected :=
  run.foldl (fun collected item =>
    (validateBatch item.batch item.base item.source item.policy collected).2) collected

/-- Batches below bases that are apart give artifacts that are apart, each batch accepted or not. -/
theorem validateBatches_apart {run : List Reported} {collected : Collected}
    (hap : run.Pairwise fun a b => overlaps a.base b.base = false)
    (hart : collected.artifacts.Pairwise ContentArtifact.Apart)
    (hnew : ∀ artifact ∈ collected.artifacts, ∀ item ∈ run,
      overlaps artifact.path item.base = false) (hbases : ∀ item ∈ run, item.base ≠ "") :
    (validateBatches collected run).artifacts.Pairwise ContentArtifact.Apart := by
  induction run generalizing collected with
  | nil => exact hart
  | cons item run ih =>
    obtain ⟨hitem, hap⟩ := pairwise_cons.mp hap
    obtain ⟨hbase, hbases⟩ := forall_mem_cons.mp hbases
    change (validateBatches (validateBatch item.batch item.base item.source item.policy
      collected).2 run).artifacts.Pairwise _
    rcases hval : validateBatch item.batch item.base item.source item.policy collected with
      ⟨result, after⟩
    cases result with
    | error e =>
      rw [validateBatch_error hval]
      exact ih hap hart (fun a ha => (forall_mem_cons.mp (hnew a ha)).2) hbases
    | ok =>
      obtain ⟨-, added, hadded, -, hwithin, hpw⟩ := validateBatch_ok hval
      refine ih hap ?_ ?_ hbases
      · rw [hadded, pairwise_append]
        refine ⟨hart, hpw, fun a ha b hb => a.apart ?_⟩
        have hout := hnew a ha item mem_cons_self
        refine Bool.eq_false_iff.mpr fun hover => Bool.eq_false_iff.mp hout ?_
        refine overlaps_of_within ?_ hbase (within_refl a.path) (hwithin b hb) hover
        rintro hnil
        rw [hnil] at hout
        cases hout
      · rw [hadded]
        intro a ha other hother
        rcases mem_append.mp ha with ha | ha
        · exact hnew a ha other (mem_cons_of_mem _ hother)
        · refine Bool.eq_false_iff.mpr fun hover => Bool.eq_false_iff.mp (hitem other hother) ?_
          exact overlaps_of_within hbase (hbases other hother) (hwithin a ha) (within_refl _) hover

def oneFile (base : String) : Reported where
  batch := ⟨[⟨"a.mbt", .text "", "moonbit"⟩], [⟨"a", "", ["a.mbt"], [], "moonbit"⟩]⟩
  base
  source := "src/a"
  policy := .sourceOnly

theorem validateBatches_apart_two :
    (validateBatches ⟨[], []⟩ [oneFile "out/a", oneFile "out/b"]).artifacts.Pairwise
      ContentArtifact.Apart :=
  validateBatches_apart (by decide +kernel) .nil nofun (by decide)

end Morphir.Engine.Generation
