import Morphir.Engine.CanonicalPaths
import Morphir.Engine.Inventory

/-!
# Edits of a workspace tree

An edit deletes subtrees, writes files and names directories.  The result is checked:
a file is not also a directory.  What the check does not see is a directory that is named
without the directories that it is in.
-/

namespace Morphir.Engine.Scaffold

open Fallible List OrdMap
open Workspace (within normalize parent)
open ModelDocument (sortTexts)

structure Tree where
  files : List (String × String)
  directories : List String
  distinct : OrdMap.Distinct files := by decide
  deriving DecidableEq

structure Edit where
  writes : List (String × String)
  directories : List String
  deletes : List String
  warnings : List String
  distinct : OrdMap.Distinct writes := by decide

section Source

variable (files : List (String × String))

/-- The loop of `Tree::from_files` over the directories that a file is in.  Each parent is
shorter than its path, whose length is fuel enough. -/
def markParents : Nat → String → List (String × Bool) → Except String (List (String × Bool))
  | 0, _, directories => .ok directories
  | fuel + 1, directory, directories =>
    if directory = "" then .ok directories
    else do
      refuse (OrdMap.contains files directory) ("File is also a directory: " ++ directory)
      markParents fuel (parent directory) (OrdMap.insert directories directory true)

/-- The body of the loop of `Tree::from_files` over the files. -/
def markFile (directories : List (String × Bool)) (path : String) :
    Except String (List (String × Bool)) := do
  refuse (path = "") ("Expected a canonical file path: " ++ path)
  let normal ← normalize path
  refuse (normal ≠ path) ("Expected a canonical file path: " ++ path)
  markParents files path.toList.length (parent path) directories

/-- `Tree::from_files`: directories are inferred from canonical file paths. -/
def Tree.fromFiles (distinct : OrdMap.Distinct files) : Except String Tree := do
  let directories ← (OrdMap.keys files).foldlM (markFile files) [("", true)]
  pure { files, directories := sortTexts (OrdMap.keys directories), distinct }

/-- The body of the loop of `Edit::apply` over the directories. -/
def addDirectory (deletes : List String) (directories : List String) (directory : String) :
    Except String (List String) := do
  let directory ← normalize directory
  if deletes.any (within · directory) = false ∧ directory ∉ directories then do
    refuse (OrdMap.contains files directory) ("File is also a directory: " ++ directory)
    pure (directories ++ [directory])
  else pure directories

end Source

def keptFiles (deletes : List String) (files : List (String × String)) : List (String × String) :=
  files.filter fun file => !deletes.any (within · file.1)

def writeFiles (writes files : List (String × String)) : List (String × String) :=
  writes.foldl (fun files file => OrdMap.insert files file.1 file.2) files

lemma distinct_writeFiles (writes : List (String × String)) (deletes : List String)
    {files : List (String × String)} (h : OrdMap.Distinct files) :
    OrdMap.Distinct (writeFiles writes (keptFiles deletes files)) := by
  refine .foldl_insert Prod.fst Prod.snd writes ?_
  exact .sublist (filter_sublist.map Prod.fst) h

def Edit.apply (edit : Edit) (tree : Tree) : Except String Tree := do
  let deletes ← edit.deletes.mapM normalize
  refuse ("" ∈ deletes) "Cannot delete the workspace root"
  let files := writeFiles edit.writes (keptFiles deletes tree.files)
  let result ← Tree.fromFiles files (distinct_writeFiles edit.writes deletes tree.distinct)
  let directories ← (tree.directories ++ edit.directories).foldlM (addDirectory files deletes)
    result.directories
  pure { files := result.files, directories := sortTexts directories, distinct := result.distinct }

/-- Paths are canonical, a file is neither at nor above a directory or another file, and the
parents of all paths are listed. -/
structure Tree.WellFormed (tree : Tree) : Prop where
  root : "" ∈ tree.directories
  file : ∀ path ∈ OrdMap.keys tree.files, path ≠ "" ∧ normalize path = .ok path
  directory : ∀ path ∈ tree.directories, normalize path = .ok path
  files_apart : ∀ path ∈ OrdMap.keys tree.files, ∀ other ∈ OrdMap.keys tree.files,
    path ≠ other → within path other = false
  directories_apart : ∀ path ∈ OrdMap.keys tree.files, ∀ other ∈ tree.directories,
    within path other = false
  parents : ∀ path ∈ OrdMap.keys tree.files ++ tree.directories, path ≠ "" →
    parent path ∈ tree.directories

namespace Edit

variable (edit : Edit) (tree : Tree)

def deleted (path : String) : Bool :=
  edit.deletes.any fun delete =>
    match normalize delete with
    | .ok delete => within delete path
    | .error _ => false

/-- The text that a path has after the edit: a written one, or that of a file that was not
deleted. -/
def text? (path : String) : Option String :=
  (get? edit.writes path).or
    (if edit.deleted path then none else get? tree.files path)

def Adds (directory : String) : Prop :=
  edit.deleted directory = false ∧ ∃ named ∈ edit.directories, normalize named = .ok directory

inductive Needs : String → Prop
  | kept {directory} : directory ∈ tree.directories → edit.deleted directory = false →
      Needs directory
  | added {directory} : edit.Adds directory → Needs directory
  | above {directory path} : directory ≠ "" → (edit.text? tree path).isSome →
      within directory (parent path) = true → Needs directory

/-- What an edit is for: the result is well formed, its files are those that were written or
not deleted, and none of them is where a directory is needed. -/
structure Applied (result : Tree) : Prop where
  wellFormed : result.WellFormed
  files : ∀ path, get? result.files path = edit.text? tree path
  apart : ∀ path directory, (edit.text? tree path).isSome → edit.Needs tree directory →
    within path directory = false

/-- Every directory that the edit names is at the root, or in one that is a directory too. -/
def ParentsNeeded : Prop :=
  ∀ directory, edit.Adds directory → parent directory ≠ "" → edit.Needs tree (parent directory)

end Edit

section Loops

variable {files : List (String × String)}

variable {directories out : List (String × Bool)}

lemma markParents_ok {fuel : Nat} {directory : String} (hfuel : directory.toList.length ≤ fuel)
    (h : markParents files fuel directory directories = .ok out) :
    (∀ x, x ∈ OrdMap.keys out ↔
      x ∈ OrdMap.keys directories ∨ (x ≠ "" ∧ within x directory = true)) ∧
    ∀ x, x ≠ "" → within x directory = true → x ∉ OrdMap.keys files := by
  have hro : ∀ x : String, x ≠ "" → ¬ within x "" = true :=
    fun x hx hwi => ne_empty_of_within hx hwi rfl
  induction fuel generalizing directory directories with
  | zero =>
    obtain rfl : directory = "" := String.toList_eq_nil_iff.mp
      (eq_nil_of_length_eq_zero (Nat.le_zero.mp hfuel))
    cases h
    exact ⟨fun x => ⟨.inl, fun hx => hx.resolve_right fun hx => hro x hx.1 hx.2⟩,
      fun x hx hwi => absurd hwi (hro x hx)⟩
  | succ fuel ih =>
    rw [markParents] at h
    split at h
    · rename_i hemp
      subst hemp
      cases h
      exact ⟨fun x => ⟨.inl, fun hx => hx.resolve_right fun hx => hro x hx.1 hx.2⟩,
        fun x hx hwi => absurd hwi (hro x hx)⟩
    · rename_i hemp
      obtain ⟨_, hfl, h⟩ := bind_ok h
      have hfl : directory ∉ OrdMap.keys files := by
        rw [← OrdMap.contains_iff]
        exact refuse_ok hfl
      have hsho := length_parent_lt hemp
      obtain ⟨hmar, hfls⟩ := ih (by omega) h
      constructor
      · intro x
        rw [hmar, mem_keys_insert]
        constructor
        · rintro ((rfl | hx) | ⟨hx, hwi⟩)
          · exact .inr ⟨hemp, within_refl x⟩
          · exact .inl hx
          · exact .inr ⟨hx, (within_iff_parent hx).mpr (.inr hwi)⟩
        · rintro (hx | ⟨hx, hwi⟩)
          · exact .inl (.inr hx)
          · rcases (within_iff_parent hx).mp hwi with rfl | hwi
            · exact .inl (.inl rfl)
            · exact .inr ⟨hx, hwi⟩
      · intro x hx hwi
        rcases (within_iff_parent hx).mp hwi with rfl | hwi
        · exact hfl
        · exact hfls x hx hwi

structure Placed (files : List (String × String)) (path : String) : Prop where
  ne_empty : path ≠ ""
  canonical : normalize path = .ok path
  parents : ∀ x, x ≠ "" → within x (parent path) = true → x ∉ OrdMap.keys files

lemma markFile_ok {path : String} (h : markFile files directories path = .ok out) :
    Placed files path ∧ ∀ x, x ∈ OrdMap.keys out ↔
      x ∈ OrdMap.keys directories ∨ (x ≠ "" ∧ within x (parent path) = true) := by
  obtain ⟨_, hemp, h⟩ := bind_ok h
  obtain ⟨normal, hnor, h⟩ := bind_ok h
  obtain ⟨_, hcan, h⟩ := bind_ok h
  have hne := refuse_ok hemp
  obtain rfl : normal = path := not_not.mp (refuse_ok hcan)
  obtain ⟨hmar, hfls⟩ := markParents_ok (length_parent_lt hne).le h
  exact ⟨⟨hne, hnor, hfls⟩, hmar⟩

lemma markFiles_ok {paths : List String} (h : paths.foldlM (markFile files) directories = .ok out) :
    (∀ path ∈ paths, Placed files path) ∧ ∀ x, x ∈ OrdMap.keys out ↔
      x ∈ OrdMap.keys directories ∨ ∃ path ∈ paths, x ≠ "" ∧ within x (parent path) = true := by
  induction paths generalizing directories with
  | nil =>
    cases h
    simp
  | cons path paths ih =>
    obtain ⟨next, hnx, h⟩ := bind_ok h
    obtain ⟨hpla, hmar⟩ := markFile_ok hnx
    obtain ⟨hpla', hmar'⟩ := ih h
    constructor
    · exact forall_mem_cons.mpr ⟨hpla, hpla'⟩
    · intro x
      rw [hmar', hmar, exists_mem_cons_iff, or_assoc]

lemma fromFiles_ok {distinct : OrdMap.Distinct files} {tree : Tree}
    (h : Tree.fromFiles files distinct = .ok tree) :
    tree.files = files ∧ (∀ path ∈ OrdMap.keys files, Placed files path) ∧
      ∀ x, x ∈ tree.directories ↔
        x = "" ∨ ∃ path ∈ OrdMap.keys files, x ≠ "" ∧ within x (parent path) = true := by
  obtain ⟨directories, hfo, h⟩ := bind_ok h
  cases h
  obtain ⟨hpla, hmar⟩ := markFiles_ok hfo
  refine ⟨rfl, hpla, fun x => ?_⟩
  rw [(Inventory.sortTexts_perm _).mem_iff, hmar]
  simp

lemma addDirectories_ok {deletes named directories out : List String}
    (hfls : ∀ x ∈ directories, x ∉ OrdMap.keys files)
    (h : named.foldlM (addDirectory files deletes) directories = .ok out) :
    (∀ x ∈ out, x ∉ OrdMap.keys files) ∧ ∀ x, x ∈ out ↔ x ∈ directories ∨
      (deletes.any (within · x) = false ∧ ∃ name ∈ named, normalize name = .ok x) := by
  induction named generalizing directories with
  | nil =>
    cases h
    exact ⟨hfls, by simp⟩
  | cons name named ih =>
    obtain ⟨next, hnx, h⟩ := bind_ok h
    obtain ⟨directory, hname, hnx⟩ := bind_ok hnx
    have hs : (∀ x ∈ next, x ∉ OrdMap.keys files) ∧ ∀ x, x ∈ next ↔
        x ∈ directories ∨ (deletes.any (within · x) = false ∧ x = directory) := by
      split at hnx
      · rename_i hadd
        obtain ⟨_, hfl, hnx⟩ := bind_ok hnx
        cases hnx
        have hfl : directory ∉ OrdMap.keys files := by
          rw [← OrdMap.contains_iff]
          exact refuse_ok hfl
        constructor
        · intro x hx
          rcases mem_append.mp hx with hx | hx
          · exact hfls x hx
          · rw [mem_singleton.mp hx]
            exact hfl
        · intro x
          rw [mem_append, mem_singleton]
          refine or_congr_right ⟨?_, And.right⟩
          rintro rfl
          exact ⟨hadd.1, rfl⟩
      · rename_i hkp
        cases hnx
        refine ⟨hfls, fun x => ⟨.inl, ?_⟩⟩
        rintro (hx | ⟨hdel, rfl⟩)
        · exact hx
        · by_contra hx
          exact hkp ⟨hdel, hx⟩
    obtain ⟨hout, hmem⟩ := ih hs.1 h
    refine ⟨hout, fun x => ?_⟩
    have hfst : normalize name = .ok x ↔ x = directory := by
      rw [hname]
      exact ⟨fun h => (Except.ok.inj h).symm, fun h => h ▸ rfl⟩
    rw [hmem, hs.2, exists_mem_cons_iff, hfst, or_assoc, and_or_left]

end Loops

lemma get?_keptFiles (deletes : List String) (files : List (String × String)) (path : String) :
    get? (keptFiles deletes files) path =
      if deletes.any (within · path) = true then none else get? files path := by
  induction files with
  | nil => simp [keptFiles]
  | cons file files ih =>
    obtain ⟨name, text⟩ := file
    unfold keptFiles at ih ⊢
    rw [get?_cons]
    by_cases hname : name = path
    · subst hname
      by_cases hdel : deletes.any (within · name) = true
      · simpa [hdel] using ih
      · simp [hdel]
    · by_cases hdel : deletes.any (within · name) = true
      · simpa [hdel, hname] using ih
      · simpa [hdel, hname, get?_cons] using ih

lemma get?_writeFiles {writes : List (String × String)} (hws : OrdMap.Distinct writes)
    (files : List (String × String)) (path : String) :
    get? (writeFiles writes files) path =
      (get? writes path).or (get? files path) := by
  induction writes generalizing files with
  | nil => rfl
  | cons write writes ih =>
    obtain ⟨name, text⟩ := write
    obtain ⟨hname, hws⟩ := nodup_cons.mp hws
    unfold writeFiles at ih ⊢
    rw [foldl_cons, ih hws, get?_insert, get?_cons]
    by_cases hp : name = path
    · subst hp
      rw [get?_eq_none_iff.mpr hname]
      simp
    · simp [hp]

namespace Edit

variable {edit : Edit} {tree result : Tree}

lemma deleted_eq {deletes : List String} (h : edit.deletes.mapM normalize = .ok deletes)
    (path : String) : deletes.any (within · path) = edit.deleted path := by
  have hrel := mapM_eq_ok.mp h
  unfold deleted
  generalize edit.deletes = named at hrel
  clear h
  induction hrel with
  | nil => rfl
  | cons hdel _ ih => simp only [any_cons, hdel, ih]

lemma deleted_parent {path : String} (h : edit.deleted path = false) :
    edit.deleted (parent path) = false := by
  unfold deleted at *
  rw [any_eq_false] at *
  intro delete hdel
  have hp := h delete hdel
  cases hnor : normalize delete with
  | error _ => simp
  | ok root =>
    simp only [hnor] at hp ⊢
    intro hwi
    by_cases hro : root = ""
    · exact hp (by simp [within, hro])
    · exact hp ((within_iff_parent hro).mpr (.inr hwi))

structure Accepted (edit : Edit) (tree result : Tree) : Prop where
  files : ∀ path, get? result.files path = edit.text? tree path
  placed : ∀ path ∈ OrdMap.keys result.files, Placed result.files path
  apart : ∀ x ∈ result.directories, x ∉ OrdMap.keys result.files
  directories : ∀ x, x ∈ result.directories ↔
    (x = "" ∨ ∃ path ∈ OrdMap.keys result.files, x ≠ "" ∧ within x (parent path) = true) ∨
      (edit.deleted x = false ∧
        ∃ name ∈ tree.directories ++ edit.directories, normalize name = .ok x)

lemma apply_ok (h : edit.apply tree = .ok result) : Accepted edit tree result := by
  obtain ⟨deletes, hdeletes, h⟩ := bind_ok h
  obtain ⟨_, _, h⟩ := bind_ok h
  obtain ⟨inferred, hinf, h⟩ := bind_ok h
  obtain ⟨directories, hfo, h⟩ := bind_ok h
  cases h
  obtain ⟨hfls, hpla, hmar⟩ := fromFiles_ok hinf
  have hdeleted := deleted_eq hdeletes
  have hinf : ∀ x ∈ inferred.directories, x ∉ OrdMap.keys inferred.files := by
    intro x hx hfl
    rw [hfls] at hfl
    rcases (hmar x).mp hx with rfl | ⟨path, hp, hne, hwi⟩
    · exact (hpla _ hfl).ne_empty rfl
    · exact (hpla path hp).parents x hne hwi hfl
  rw [← hfls] at hfo hpla hmar
  obtain ⟨hout, hmem⟩ := addDirectories_ok hinf hfo
  have hsort (x : String) : x ∈ sortTexts directories ↔ x ∈ directories :=
    (Inventory.sortTexts_perm directories).mem_iff
  refine ⟨fun path => ?_, hpla, fun x hx => hout x ((hsort x).mp hx), fun x => ?_⟩
  · rw [hfls, get?_writeFiles edit.distinct, get?_keptFiles, hdeleted]
    rfl
  · rw [hsort, hmem, hmar, hdeleted]

namespace Accepted

variable (h : Accepted edit tree result) (htree : tree.WellFormed)

include h

lemma mem_keys {path : String} :
    path ∈ OrdMap.keys result.files ↔ (edit.text? tree path).isSome = true := by
  rw [← get?_isSome_iff, h.files]

include htree

lemma mem_directories {x : String} : x ∈ result.directories ↔ x = "" ∨ edit.Needs tree x := by
  rw [h.directories, or_assoc]
  refine or_congr_right ⟨?_, ?_⟩
  · rintro (⟨path, hp, hx, hwi⟩ | ⟨hdel, name, hname, hx⟩)
    · exact .above hx (h.mem_keys.mp hp) hwi
    · rcases mem_append.mp hname with hname | hname
      · obtain rfl := Except.ok.inj ((htree.directory name hname).symm.trans hx)
        exact .kept hname hdel
      · exact .added ⟨hdel, name, hname, hx⟩
  · intro hneeds
    cases hneeds with
    | kept hmem hdel => exact .inr ⟨hdel, x, mem_append_left _ hmem, htree.directory x hmem⟩
    | added hadds =>
      obtain ⟨hdel, name, hname, hx⟩ := hadds
      exact .inr ⟨hdel, name, mem_append_right _ hname, hx⟩
    | above hx hp hwi => exact .inl ⟨_, h.mem_keys.mpr hp, hx, hwi⟩

lemma parent_mem (hnee : edit.ParentsNeeded tree) {x : String}
    (hx : x ∈ result.directories) : parent x ∈ result.directories := by
  rw [h.mem_directories htree] at *
  by_cases hro : parent x = ""
  · exact .inl hro
  · right
    rcases hx with rfl | hx
    · exact absurd rfl hro
    · cases hx with
      | kept hmem hdel =>
        have hx : x ≠ "" := by
          rintro rfl
          exact hro rfl
        exact .kept (htree.parents x (mem_append_right _ hmem) hx) (deleted_parent hdel)
      | added hadds => exact hnee x hadds hro
      | above hx hp hwi =>
        have hab : within (parent x) x = true := (within_iff_parent hro).mpr (.inr (within_refl _))
        exact .above hro hp (within_trans hx hab hwi)

lemma directories_apart (hnee : edit.ParentsNeeded tree) {path : String}
    (hp : path ∈ OrdMap.keys result.files) (other : String)
    (ho : other ∈ result.directories) : ¬ within path other = true := by
  intro hwi
  rcases (within_iff_parent (h.placed path hp).ne_empty).mp hwi with rfl | hpar
  · exact h.apart path ho hp
  · have hne := ne_empty_of_within (h.placed path hp).ne_empty hwi
    have hsho := length_parent_lt hne
    exact directories_apart hnee hp (parent other) (h.parent_mem htree hnee ho) hpar
termination_by other.toList.length

lemma wellFormed (hnee : edit.ParentsNeeded tree) : result.WellFormed where
  root := (h.mem_directories htree).mpr (.inl rfl)
  file path hp := ⟨(h.placed path hp).ne_empty, (h.placed path hp).canonical⟩
  directory path hp := by
    rcases (h.mem_directories htree).mp hp with rfl | hneeds
    · rfl
    · cases hneeds with
      | kept hmem _ => exact htree.directory path hmem
      | added hadds =>
        obtain ⟨_, name, _, hname⟩ := hadds
        exact normalizeWith_normalized hname
      | @above file hne hfl hwi =>
        have hcan := (h.placed file (h.mem_keys.mpr hfl)).canonical
        exact normalizeWith_within hne hwi (normalizeWith_parent hcan)
  files_apart path hp other ho hne := by
    rw [Bool.eq_false_iff]
    intro hwi
    have hpla := h.placed path hp
    have hpar := ((within_iff_parent hpla.ne_empty).mp hwi).resolve_left hne
    exact (h.placed other ho).parents path hpla.ne_empty hpar hp
  directories_apart path hp other ho :=
    Bool.eq_false_iff.mpr (h.directories_apart htree hnee hp other ho)
  parents path hp hne := by
    rcases mem_append.mp hp with hp | hp
    · rw [h.mem_directories htree]
      by_cases hro : parent path = ""
      · exact .inl hro
      · exact .inr (.above hro (h.mem_keys.mp hp) (within_refl _))
    · exact h.parent_mem htree hnee hp

end Accepted

/-- Of a well-formed tree, an accepted edit does what it is for exactly when it names no
directory without the one that it is in. -/
theorem apply_applied_iff (htree : tree.WellFormed) (h : edit.apply tree = .ok result) :
    edit.Applied tree result ↔ edit.ParentsNeeded tree := by
  have hacc := apply_ok h
  constructor
  · intro happ directory hadds hro
    have hmem := (hacc.mem_directories htree).mpr (.inr (.added hadds))
    have hne : directory ≠ "" := by
      rintro rfl
      exact hro rfl
    have hpar := happ.wellFormed.parents directory (mem_append_right _ hmem) hne
    exact ((hacc.mem_directories htree).mp hpar).resolve_left hro
  · intro hnee
    have hres := hacc.wellFormed htree hnee
    refine ⟨hres, hacc.files, fun path directory hp hneeds => ?_⟩
    exact hres.directories_apart path (hacc.mem_keys.mpr hp) directory
      ((hacc.mem_directories htree).mpr (.inr hneeds))

def oneFile : Tree where
  files := [("a", "text")]
  directories := [""]

lemma oneFile_wellFormed : oneFile.WellFormed where
  root := by decide
  file := by decide +kernel
  directory := by decide +kernel
  files_apart := by decide +kernel
  directories_apart := by decide +kernel
  parents := by decide +kernel

/-- An edit that moves the file to a directory of its name, and names another. -/
def move : Edit where
  writes := [("a/b", "text")]
  directories := ["c/"]
  deletes := ["a"]
  warnings := []

def nest : Edit where
  writes := []
  directories := ["a/b"]
  deletes := []
  warnings := []

theorem nest_not_applied : ∃ result, oneFile.WellFormed ∧ nest.apply oneFile = .ok result ∧
    ¬ nest.Applied oneFile result := by
  refine ⟨⟨[("a", "text")], ["", "a/b"], by decide⟩, oneFile_wellFormed, by decide +kernel, ?_⟩
  intro h
  have hap := h.wellFormed.directories_apart "a" (by decide) "a/b" (by decide)
  cases hap

theorem move_applied_iff : ∃ result, move.apply oneFile = .ok result ∧
    (move.Applied oneFile result ↔ move.ParentsNeeded oneFile) :=
  ⟨⟨[("a/b", "text")], ["", "a", "c"], by decide⟩, by decide +kernel,
    apply_applied_iff oneFile_wellFormed (by decide +kernel)⟩

end Edit

end Morphir.Engine.Scaffold
