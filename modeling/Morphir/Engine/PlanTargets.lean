import Morphir.Engine.Paths
import Morphir.IR.Names

/-!
# Generation plans

`plan` decides, before anything is compiled, which sources each selected project
has and where their outputs go.  What configuration files, scripts and registries
say about a project is resolved before any of its paths is looked at; here a
resolution gives it as `Settings`.
-/

namespace Morphir.Engine

open Fallible
open Workspace (within)

structure Host where
  list : String → Except String (List String)

structure Project where
  root : String
  name : String
  deriving DecidableEq

structure Workspace where
  root : String
  /-- `workspace.out_dir`, `.morphir/out` by default. -/
  outDir : String
  /-- `workspace.default_member`, empty by default. -/
  defaultMember : String
  projects : List Project

structure Request where
  selector : String
  all : Bool
  invocation : String
  file : Option String
  directory : Option String

/-- What is resolved for a project: its source directory and output, and what its
frontend and its backend say about files. -/
structure Settings where
  frontend : String
  source : String
  output : String
  suffix : String
  generator : Bool
  projectCompiler : Bool
  extensions : List String
  maxDocuments : Option Nat
  /-- `canonical_path` of the package of a project compiler. -/
  unitId : Except String String

abbrev Resolver := Host → Workspace → Project → Request → Except String Settings

structure Job where
  root : String
  sourceRoot : String
  /-- The directory of the job's task; the source lists it under `destinations`. -/
  task : String
  destination : String
  paths : List String
  suffix : String
  generator : Bool
  project : Option String

structure Plan where
  jobs : List Job
  sources : List String
  destinations : List String
  outputRoot : String

namespace Workspace

def select (self : Workspace) (request : Request) : Except String (List Project) := do
  refuse (request.all ∧ request.selector ≠ "") "--all and --project cannot be combined"
  if request.all then pure self.projects
  else if request.selector ≠ "" then do
    let canonical ← normalize request.selector
    let byPath := self.projects.filter fun p => suffix self.root p.root = canonical
    if byPath.length = 1 then pure byPath
    else do
      let byName := self.projects.filter fun p => p.name = request.selector
      refuse (byName.length ≠ 1) ("Unknown or ambiguous project: " ++ request.selector)
      pure byName
  else
    let owners := self.projects.filter fun p =>
      within p.root request.invocation ∧ p.root ≠ self.root
    match owners.insertionSort fun a b => utf16Length b.root ≤ utf16Length a.root with
    | owner :: _ => pure [owner]
    | [] =>
      if self.defaultMember ≠ "" then do
        let member ← join self.root self.defaultMember
        pure (self.projects.filter fun p => p.root = member)
      else pure self.projects
where
  utf16Length (text : String) : Nat := (codeUnits text).length

def owned (self : Workspace) (selected : Project) (path : String) : Bool :=
  ! self.projects.any fun other =>
    other.root ≠ selected.root ∧ within selected.root other.root ∧ within other.root path

end Workspace

def target (output suffix : String) (generator : Bool) (rel : String) : Except String String :=
  join output (stem rel ++ if generator then "" else suffix)

structure Scan where
  unique : List String
  seen : List String

def scanPath (owned : String → Bool) (sourceRoot output : String) (settings : Settings)
    (scan : Scan) (path : String) : Except String Scan := do
  let path ← normalize path
  if ¬ owned path then pure scan
  else do
    refuse (¬ within sourceRoot path ∨ path = sourceRoot)
      ("Host listed a path outside source root: " ++ path)
    if settings.projectCompiler then pure { scan with unique := scan.unique ++ [path] }
    else do
      let rel ← relative sourceRoot path
      let target ← target output settings.suffix settings.generator rel
      let key := toLower target
      refuse (key ∈ scan.seen ∨ scan.seen.any fun existing => within existing key ∨ within key existing)
        ("Duplicate output path: " ++ target)
      pure ⟨scan.unique ++ [path], scan.seen ++ [key]⟩

/-- The paths that a request names or the host lists below the source root. -/
def candidates (host : Host) (workspace : Workspace) (request : Request) (selected : Project)
    (settings : Settings) (outputRoot sourceRoot rootScript projectScript : String) :
    Except String (List String) :=
  match request.file with
  | some file => do
    let path ← normalize file
    refuse (¬ workspace.owned selected path)
      ("File belongs to another workspace project: " ++ path)
    refuse (¬ within sourceRoot path ∨ path = sourceRoot)
      ("File is outside selected source directory: " ++ path)
    pure [path]
  | none => do
    let paths ← host.list sourceRoot
    pure (paths.filter fun path =>
      workspace.owned selected path ∧ ¬ within outputRoot path ∧ path ≠ rootScript ∧
        path ≠ projectScript ∧
        String.ofList ((path.toList.splitOn '/').getLastD []) ∉
          ["morphir.json", "morphir-workspace.json"] ∧
        settings.extensions.any fun extension => extension.toList.isSuffixOf path.toList)

def relativeProject (workspace : Workspace) (selected : Project) : String :=
  if selected.root = workspace.root then ""
  else if workspace.root = "" then selected.root
  else String.ofList (selected.root.toList.drop (workspace.root.toList.length + 1))

def taskDestination (workspace : Workspace) (outputRoot : String) (selected : Project) :
    Except String String := do
  let directory ← join outputRoot (relativeProject workspace selected)
  join directory "compile.dest"

def requestedDirectory (request : Request) (projectSource : String) : Except String String :=
  match request.directory with
  | some directory => normalize directory
  | none => .ok projectSource

def layout (engine : Resolver) (host : Host) (workspace : Workspace) (request : Request)
    (outputRoot : String) (selected : Project) : Except String (Settings × Job) := do
  let settings ← engine host workspace selected request
  let rootScript ← join workspace.root "morphir.config.scm"
  let projectScript ← join selected.root "morphir.config.scm"
  let wholeProject := "frontend.project_compiler_file: " ++ settings.frontend ++
    " compiles whole projects; select the project, not a file or directory"
  refuse (settings.projectCompiler ∧ request.file.isSome) wholeProject
  refuse (settings.suffix.toList.head? ≠ some '.' ∨ '/' ∈ settings.suffix.toList ∨
    '\\' ∈ settings.suffix.toList) "Invalid backend file suffix"
  let projectSource ← join selected.root settings.source
  let requested ← requestedDirectory request projectSource
  refuse (¬ workspace.owned selected requested)
    "Input directory belongs to another workspace project"
  refuse (¬ within selected.root requested) "Input directory is outside selected project"
  refuse (settings.projectCompiler ∧ ¬ within requested projectSource) wholeProject
  let sourceRoot := if settings.projectCompiler then projectSource else requested
  refuse (within outputRoot sourceRoot) "Source directory is inside output directory"
  let task ← taskDestination workspace outputRoot selected
  let output ← join task settings.output
  let paths ← candidates host workspace request selected settings outputRoot sourceRoot rootScript
    projectScript
  let sorted := paths.insertionSort fun a b => (compareText a b).isLE
  let scan ← sorted.foldlM (scanPath (workspace.owned selected) sourceRoot output settings) ⟨[], []⟩
  refuse (settings.projectCompiler ∧ settings.maxDocuments.any (· < scan.unique.length))
    ("frontend.too_many_documents: " ++ toString scan.unique.length ++ " sources; " ++
      settings.frontend ++ " accepts at most " ++ toString (settings.maxDocuments.getD 0))
  pure (settings,
    { root := selected.root, sourceRoot, task, destination := output, paths := scan.unique
      suffix := settings.suffix, generator := settings.generator, project := none })

def finish (settings : Settings) (job : Job) : Except String Job :=
  if settings.projectCompiler then do
    let unitId ← settings.unitId
    pure { job with project := some unitId }
  else pure job

def jobOf (engine : Resolver) (host : Host) (workspace : Workspace) (request : Request)
    (outputRoot : String) (selected : Project) : Except String Job := do
  let (settings, job) ← layout engine host workspace request outputRoot selected
  finish settings job

def planProject (engine : Resolver) (host : Host) (workspace : Workspace) (request : Request)
    (outputRoot : String) (plan : Plan) (selected : Project) : Except String Plan := do
  let (settings, job) ← layout engine host workspace request outputRoot selected
  refuse (plan.destinations.any fun existing => within existing job.task ∨ within job.task existing)
    ("Task output destinations overlap: " ++ job.task)
  let job ← finish settings job
  pure { plan with
    jobs := plan.jobs ++ [job]
    sources := plan.sources ++ job.paths
    destinations := plan.destinations ++ [job.task] }

def outputRootOf (workspace : Workspace) : Except String String := do
  let outDir ← normalize workspace.outDir
  refuse (outDir = "") "workspace.out_dir must be nonempty"
  join workspace.root outDir

def plan (engine : Resolver) (host : Host) (workspace : Workspace) (request : Request) :
    Except String Plan := do
  let outputRoot ← outputRootOf workspace
  let selection ← workspace.select request
  selection.foldlM (planProject engine host workspace request outputRoot)
    { jobs := [], sources := [], destinations := [], outputRoot }

def Job.target (job : Job) (path : String) : Except String String := do
  let rel ← relative job.sourceRoot path
  Engine.target job.destination job.suffix job.generator rel

lemma Job.target_of_relative {job : Job} {path rel : String}
    (h : relative job.sourceRoot path = .ok rel) :
    job.target path = Engine.target job.destination job.suffix job.generator rel := by
  simp only [Job.target, h, bind, Except.bind]

/-- The output paths of a job: one for each source, or one for the unit of a
project compiler that has sources. -/
def Job.targets (job : Job) : List String :=
  match job.project with
  | some unitId =>
    if job.paths = [] then []
    else (join job.destination (unitId ++ if job.generator then "" else job.suffix)).toOption.toList
  | none => job.paths.filterMap fun path => (job.target path).toOption

end Morphir.Engine

/-!
## Targets of a plan

The sources of one job never share an output path, not even up to letter case.
Between jobs only the directories of their tasks are compared, with regard to
letter case, so the targets of a plan are apart exactly where that comparison
misses nothing.
-/

namespace Morphir.Engine

open Fallible List
open Workspace (within)

variable {engine : Resolver} {host : Host} {workspace : Workspace} {request : Request}
  {outputRoot : String} {selected : Project}

/-- The accepted sources of a file compiler have targets with the keys that were
seen, which lie apart. -/
structure Scan.Inv (sourceRoot output : String) (settings : Settings) (scan : Scan) : Prop where
  apart : scan.seen.Pairwise fun a b => within a b = false ∧ within b a = false
  keys : settings.projectCompiler = false → List.Forall₂ (fun path key => ∃ rel out,
    relative sourceRoot path = .ok rel ∧
      target output settings.suffix settings.generator rel = .ok out ∧ toLower out = key)
    scan.unique scan.seen

variable {owned : String → Bool}

lemma scanPath_inv {sourceRoot output : String} {settings : Settings} {scan next : Scan}
    {path : String} (hinv : scan.Inv sourceRoot output settings)
    (h : scanPath owned sourceRoot output settings scan path = .ok next) :
    next.Inv sourceRoot output settings := by
  obtain ⟨path', _, howned⟩ := bind_ok h
  split at howned
  · cases howned
    exact hinv
  · obtain ⟨_, _, hacc⟩ := bind_ok howned
    split at hacc
    · rename_i hcom
      cases hacc
      exact ⟨hinv.apart, fun hfl => absurd hcom (by rw [hfl]; exact Bool.false_ne_true)⟩
    · obtain ⟨rel, hrel, htgt⟩ := bind_ok hacc
      obtain ⟨out, hout, hse⟩ := bind_ok htgt
      obtain ⟨_, hdup, hnx⟩ := bind_ok hse
      cases hnx
      have hf := refuse_ok hdup
      rw [not_or] at hf
      refine ⟨pairwise_append.mpr ⟨hinv.apart, pairwise_singleton _ _, ?_⟩,
        fun hfl => rel_append (hinv.keys hfl) (.cons ⟨rel, out, hrel, hout, rfl⟩ .nil)⟩
      intro existing hexi key hkey
      obtain rfl := mem_singleton.mp hkey
      have hno := hf.2
      simp only [any_eq_true, decide_eq_true_eq, not_exists, not_and, not_or,
        Bool.not_eq_true] at hno
      exact hno existing hexi

lemma scan_inv {sourceRoot output : String} {settings : Settings} {paths : List String}
    {scan next : Scan} (hinv : scan.Inv sourceRoot output settings)
    (h : paths.foldlM (scanPath owned sourceRoot output settings) scan = .ok next) :
    next.Inv sourceRoot output settings := by
  induction paths generalizing scan with
  | nil =>
    cases h
    exact hinv
  | cons path paths ih =>
    obtain ⟨scan', hscan, hr⟩ := bind_ok (by simpa only [foldlM_cons] using h)
    exact ih (scanPath_inv hinv hscan) hr

structure Job.Laid (workspace : Workspace) (outputRoot : String) (selected : Project) (job : Job) :
    Prop where
  task : taskDestination workspace outputRoot selected = .ok job.task
  inTask : within job.task job.destination = true
  targets : job.project = none → ∃ keys : List String,
    keys.Pairwise (fun a b => within a b = false ∧ within b a = false) ∧
      List.Forall₂ (fun path key => ∃ out, job.target path = .ok out ∧ toLower out = key)
        job.paths keys

variable {job : Job}

lemma jobOf_laid (h : jobOf engine host workspace request outputRoot selected = .ok job) :
    job.Laid workspace outputRoot selected := by
  obtain ⟨⟨settings, laid⟩, hlay, hfin⟩ := bind_ok h
  obtain ⟨settings', _, h₁⟩ := bind_ok hlay
  obtain ⟨rootScript, _, h₂⟩ := bind_ok h₁
  obtain ⟨projectScript, _, h₃⟩ := bind_ok h₂
  obtain ⟨_, _, h₄⟩ := bind_ok h₃
  obtain ⟨_, _, h₅⟩ := bind_ok h₄
  obtain ⟨projectSource, _, h₆⟩ := bind_ok h₅
  obtain ⟨requested, _, h₇⟩ := bind_ok h₆
  obtain ⟨_, _, h₈⟩ := bind_ok h₇
  obtain ⟨_, _, h₉⟩ := bind_ok h₈
  obtain ⟨_, _, h₁₀⟩ := bind_ok h₉
  obtain ⟨_, _, h₁₁⟩ := bind_ok h₁₀
  obtain ⟨task, htk, h₁₂⟩ := bind_ok h₁₁
  obtain ⟨output, houtput, h₁₃⟩ := bind_ok h₁₂
  obtain ⟨paths, _, h₁₄⟩ := bind_ok h₁₃
  obtain ⟨scan, hscan, h₁₅⟩ := bind_ok h₁₄
  obtain ⟨_, _, h₁₆⟩ := bind_ok h₁₅
  cases h₁₆
  have hinv := scan_inv ⟨.nil, fun _ => .nil⟩ hscan
  unfold finish at hfin
  dsimp only at hfin
  split at hfin
  · obtain ⟨unitId, _, hjob⟩ := bind_ok hfin
    cases hjob
    exact ⟨htk, within_join houtput, nofun⟩
  · rename_i hcom
    cases hfin
    refine ⟨htk, within_join houtput, fun _ => ⟨scan.seen, hinv.apart, ?_⟩⟩
    refine (hinv.keys (by simpa using hcom)).imp fun path key ⟨rel, out, hrel, hout, hkey⟩ => ?_
    rw [if_neg hcom] at hrel
    exact ⟨out, (Job.target_of_relative hrel).trans hout, hkey⟩

section

variable (h : job.Laid workspace outputRoot selected)

include h

lemma Job.Laid.task_ne : job.task ≠ "" := by
  obtain ⟨directory, _, htk⟩ := bind_ok h.task
  obtain ⟨name, hname, hbe⟩ := bind_ok htk
  have hnor : normalize "compile.dest" = .ok "compile.dest" := by decide +kernel
  obtain rfl := Except.ok.inj (hnor.symm.trans hname)
  rw [← Except.ok.inj hbe, below, if_neg (by decide : "compile.dest" ≠ "")]
  split
  · decide
  · intro hemp
    have hlen := congrArg String.length hemp
    rw [String.length_append] at hlen
    exact absurd (Nat.eq_zero_of_add_eq_zero_left hlen) (by decide)

lemma Job.Laid.mem_targets {out : String} (hout : out ∈ job.targets) :
    within job.task out = true := by
  have hjn {path : String} (hp : join job.destination path = .ok out) :
      within job.task out = true := by
    refine within_trans ?_ h.inTask (within_join hp)
    exact ne_empty_of_within h.task_ne h.inTask
  unfold Job.targets at hout
  split at hout
  · split at hout
    · cases hout
    · exact hjn (toOption_eq_some.mp (Option.mem_toList.mp hout))
  · obtain ⟨path, _, htgt⟩ := mem_filterMap.mp hout
    obtain ⟨rel, _, hp⟩ := bind_ok (toOption_eq_some.mp htgt)
    exact hjn hp

lemma Job.Laid.apart :
    (job.project = none → ∀ path ∈ job.paths, ∃ out ∈ job.targets, job.target path = .ok out) ∧
      job.targets.Pairwise fun s t => overlaps s t = false := by
  unfold Job.targets
  cases hpro : job.project with
  | some unitId =>
    refine ⟨nofun, ?_⟩
    dsimp only
    split
    · exact .nil
    · cases (join job.destination (unitId ++ if job.generator then "" else job.suffix)).toOption
      · exact .nil
      · exact pairwise_singleton _ _
  | none =>
    obtain ⟨keys, hks, htar⟩ := h.targets hpro
    refine ⟨fun _ path hp => ?_, ?_⟩
    · obtain ⟨key, _, out, hout, _⟩ := htar.exists_right _ hp
      exact ⟨out, mem_filterMap.mpr ⟨path, hp, toOption_eq_some.mpr hout⟩, hout⟩
    · generalize job.paths = paths at htar
      induction htar with
      | nil => exact .nil
      | @cons path key paths keys hfst hr ih =>
        obtain ⟨out, hout, rfl⟩ := hfst
        obtain ⟨hpre, hks⟩ := pairwise_cons.mp hks
        have hso : (job.target path).toOption = some out := toOption_eq_some.mpr hout
        simp only [filterMap_cons, hso]
        refine pairwise_cons.mpr ⟨fun other ho => ?_, ih hks⟩
        obtain ⟨path', hp', ho⟩ := mem_filterMap.mp ho
        obtain ⟨key, hkey, out', hout', rfl⟩ := hr.exists_right _ hp'
        obtain rfl := Except.ok.inj (hout'.symm.trans (toOption_eq_some.mp ho))
        obtain ⟨hfr, hbk⟩ := hpre _ hkey
        rw [overlaps, hfr, hbk]
        rfl

end

variable {selection : List Project}

lemma foldlM_planProject {before after : Plan}
    (h : selection.foldlM (planProject engine host workspace request outputRoot) before = .ok after)
    :
    ∃ jobs, after.jobs = before.jobs ++ jobs ∧ List.Forall₂ (fun selected job =>
      jobOf engine host workspace request outputRoot selected = .ok job) selection jobs := by
  induction selection generalizing before with
  | nil =>
    cases h
    exact ⟨[], (append_nil _).symm, .nil⟩
  | cons selected selection ih =>
    obtain ⟨next, hnx, hr⟩ := bind_ok (by simpa only [foldlM_cons] using h)
    obtain ⟨⟨settings, laid⟩, hlay, hchk⟩ := bind_ok hnx
    obtain ⟨_, _, hfin⟩ := bind_ok hchk
    obtain ⟨job, hjob, hplan⟩ := bind_ok hfin
    cases hplan
    obtain ⟨jobs, hjb, hall⟩ := ih hr
    refine ⟨job :: jobs, ?_, .cons ?_ hall⟩
    · rw [hjb, append_assoc]
      rfl
    · rw [jobOf, hlay]
      exact hjob

/-- Where the tasks of two projects overlap up to letter case, their targets do
not. -/
def Clear (engine : Resolver) (host : Host) (workspace : Workspace) (request : Request)
    (outputRoot : String) (a b : Project) : Prop :=
  ∀ taskA taskB, taskDestination workspace outputRoot a = .ok taskA →
    taskDestination workspace outputRoot b = .ok taskB → overlaps taskA taskB = true →
      ∀ jobA jobB, jobOf engine host workspace request outputRoot a = .ok jobA →
        jobOf engine host workspace request outputRoot b = .ok jobB →
          ∀ s ∈ jobA.targets, ∀ t ∈ jobB.targets, overlaps s t = false

lemma clear_iff {a b : Project} {jobA jobB : Job}
    (ha : jobOf engine host workspace request outputRoot a = .ok jobA)
    (hb : jobOf engine host workspace request outputRoot b = .ok jobB) :
    Clear engine host workspace request outputRoot a b ↔
      ∀ s ∈ jobA.targets, ∀ t ∈ jobB.targets, overlaps s t = false := by
  have hlaidA := jobOf_laid ha
  have hlaidB := jobOf_laid hb
  constructor
  · intro hclear s hs t ht
    by_contra hover
    have hts := overlaps_of_within hlaidA.task_ne hlaidB.task_ne (hlaidA.mem_targets hs)
      (hlaidB.mem_targets ht) (Bool.eq_true_of_not_eq_false hover)
    exact hover (hclear _ _ hlaidA.task hlaidB.task hts _ _ ha hb s hs t ht)
  · intro htar _ _ _ _ _ jobA' jobB' ha' hb'
    obtain rfl := Except.ok.inj (ha.symm.trans ha')
    obtain rfl := Except.ok.inj (hb.symm.trans hb')
    exact htar

lemma pairwise_clear_iff {jobs : List Job}
    (h : List.Forall₂ (fun selected job =>
      jobOf engine host workspace request outputRoot selected = .ok job) selection jobs) :
    selection.Pairwise (Clear engine host workspace request outputRoot) ↔
      jobs.Pairwise fun jobA jobB =>
        ∀ s ∈ jobA.targets, ∀ t ∈ jobB.targets, overlaps s t = false := by
  induction h with
  | nil => exact iff_of_true .nil .nil
  | @cons selected job selection jobs hjob hjb ih =>
    rw [pairwise_cons, pairwise_cons, ih]
    refine and_congr_left fun _ => ⟨fun hall job' hjob' => ?_, fun hall other ho => ?_⟩
    · obtain ⟨other, ho, hof⟩ := hjb.exists_left _ hjob'
      exact (clear_iff hjob hof).mp (hall other ho)
    · obtain ⟨job', hjob', hof⟩ := hjb.exists_right _ ho
      exact (clear_iff hjob hof).mpr (hall job' hjob')

/-- Scheme sources below `src` with outputs in JSON. -/
def schemeSettings : Resolver := fun _ _ _ _ =>
  .ok { frontend := "scheme", source := "src", output := "", suffix := ".ir.json"
        generator := false, projectCompiler := false, extensions := [".scm", ".ss"]
        maxDocuments := none, unitId := .error "frontend.invalid_package" }

def mainFiles : Host where
  list root := .ok (["A/src/Main.scm", "a/src/Main.scm"].filter (inside root))

def caseWorkspace : Workspace := ⟨"", ".morphir/out", "", [⟨"A", "first"⟩, ⟨"a", "second"⟩]⟩

def wholeWorkspace : Request := ⟨"", true, "", none, none⟩

lemma plan_caseWorkspace : ∃ result,
    plan schemeSettings mainFiles caseWorkspace wholeWorkspace = .ok result ∧
      result.jobs.flatMap Job.targets = [".morphir/out/A/compile.dest/Main.ir.json",
        ".morphir/out/a/compile.dest/Main.ir.json"] := by
  have h : (match plan schemeSettings mainFiles caseWorkspace wholeWorkspace with
      | .ok result => result.jobs.flatMap Job.targets ==
          [".morphir/out/A/compile.dest/Main.ir.json", ".morphir/out/a/compile.dest/Main.ir.json"]
      | .error _ => false) = true := by decide +kernel
  split at h
  · rename_i result hres
    exact ⟨result, hres, eq_of_beq h⟩
  · cases h

end Morphir.Engine
