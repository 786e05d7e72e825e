import Morphir.Engine.ModelDocument
import Morphir.Library.Admission
import Morphir.Library.Reordering
import Morphir.Moonbit.AllocationFacts

/-!
# The paths of a captured inventory

The paths of an inventory are checked before a byte is read or published.  A local
inventory and a connected one have bounds of their own.
-/

namespace Morphir.Engine.Inventory

open Fallible Admission ModelDocument Morphir.Host List Nat
open Workspace (within)

/-- Connected originals use their own published path and inventory bounds. -/
inductive InventoryPathProfile
  | localTree
  | connected
  deriving DecidableEq

namespace InventoryPathProfile

def pathUnits : InventoryPathProfile → Nat
  | .localTree => 4096
  | .connected => 8000

def depth : InventoryPathProfile → Nat
  | .localTree => 128
  | .connected => 256

def inventoryUnits : InventoryPathProfile → Nat
  | .localTree => 1048576
  | .connected => 67108864

end InventoryPathProfile

def parsePath (profile : InventoryPathProfile) (path : String) : Except DocumentError String := do
  refuse (path = "" ∨ profile.pathUnits < utf16Length path) .invalidFilename
  refuse (profile = .connected ∧ (16000 < utf8Length path ∨ 4000 < path.toList.length))
    .invalidFilename
  match Workspace.normalize path with
  | .error _ => .error .invalidFilename
  | .ok normalized => do
    refuse (normalized ≠ path) .invalidFilename
    let parts := path.toList.splitOn '/'
    refuse (profile.depth < parts.length) .invalidFilename
    parts.forM fun part => do
      let _ ← parseFilename (String.ofList part)
    pure path

def checkPath (profile : InventoryPathProfile) (check : PathCheck) (path : String) :
    Except DocumentError PathCheck := do
  let _ ← parsePath profile path
  let pathUnits := check.pathUnits + utf16Length path
  refuse (profile.inventoryUnits < pathUnits) .tooLarge
  let spelling ← checkParts check.foldedFiles (path.toList.splitOn '/') "" check.spelling
  pure { check with pathUnits, spelling }

def checkFile (profile : InventoryPathProfile) (check : PathCheck) (path : String) :
    Except DocumentError PathCheck := do
  let check ← checkPath profile check path
  refuse (toLower path ∈ check.foldedFiles) .invalidFilename
  pure { check with foldedFiles := toLower path :: check.foldedFiles }

def checkDirectory (profile : InventoryPathProfile) (check : PathCheck) (path : String) :
    Except DocumentError PathCheck := do
  let check ← checkPath profile check path
  refuse (toLower path ∈ check.seenDirectories) .invalidFilename
  pure { check with seenDirectories := toLower path :: check.seenDirectories }

/-- `validate_inventory_paths`: the files in the order of their texts, then the
directories. -/
def validateInventoryPaths (profile : InventoryPathProfile) (files directories : List String) :
    Except DocumentError Unit := do
  refuse ((profile = .localTree ∧ (4096 < files.length ∨ 4096 < directories.length)) ∨
    100064 < files.length + directories.length) .tooLarge
  let check ← (sortTexts files).foldlM (checkFile profile) ⟨[], [], [], 0⟩
  let _ ← directories.foldlM (checkDirectory profile) check
  pure ()

/-- The condition on a path of an inventory: its parts are file names. -/
structure Portable (profile : InventoryPathProfile) (path : String) : Prop where
  units : utf16Length path ≤ profile.pathUnits
  connected : profile = .connected → utf8Length path ≤ 16000 ∧ path.toList.length ≤ 4000
  drive : ':' ∉ path.toList
  depth : (path.toList.splitOn '/').length ≤ profile.depth
  parts : ∀ part ∈ path.toList.splitOn '/', part ≠ [] ∧ part.length ≤ 256 ∧ part ≠ ['.'] ∧
    part ≠ ['.', '.'] ∧ ∀ c ∈ part, 32 ≤ c.toNat ∧ c.toNat ≠ 127 ∧ c ≠ '/' ∧ c ≠ '\\'

lemma parseFilename_iff {part : List Char} :
    Succeeds (parseFilename (String.ofList part)) ↔ part ≠ [] ∧ part.length ≤ 256 ∧
      part ≠ ['.'] ∧ part ≠ ['.', '.'] ∧
      ∀ c ∈ part, 32 ≤ c.toNat ∧ c.toNat ≠ 127 ∧ c ≠ '/' ∧ c ≠ '\\' := by
  have hdot : String.ofList part = "." ↔ part = ['.'] := by
    rw [← String.toList_inj, String.toList_ofList]
    rfl
  have hdots : String.ofList part = ".." ↔ part = ['.', '.'] := by
    rw [← String.toList_inj, String.toList_ofList]
    rfl
  unfold parseFilename
  rw [succeeds_refuse, succeeds_refuse, String.toList_ofList, hdot, hdots,
    length_eq_zero_iff, any_eq_true]
  constructor
  · rintro ⟨hchs, hsh, -⟩
    push Not at hchs hsh
    refine ⟨hsh.1, hsh.2.1, hsh.2.2.1, hsh.2.2.2, ?_⟩
    intro c hc
    simpa [and_assoc] using hchs c hc
  · rintro ⟨hne, hlen, h₁, h₂, hchs⟩
    refine ⟨?_, ?_, succeeds_ok⟩
    · rintro ⟨c, hc, hbad⟩
      obtain ⟨hlow, hdel, hsl, hbk⟩ := hchs c hc
      simp [hdel, hsl, hbk, not_lt.mpr hlow] at hbad
    · push Not
      exact ⟨hne, hlen, h₁, h₂⟩

variable {path : String}

lemma normalize_eq (hdrive : ':' ∉ path.toList)
    (hpts : ∀ part ∈ path.toList.splitOn '/', part ≠ [] ∧ part ≠ ['.'] ∧ part ≠ ['.', '.'] ∧
      ∀ c ∈ part, 32 ≤ c.toNat ∧ c ≠ '\\') :
    Workspace.normalize path = .ok path := by
  have hchs : ∀ c ∈ path.toList, c = '/' ∨ (32 ≤ c.toNat ∧ c ≠ '\\') := by
    intro c hc
    rcases mem_splitOn '/' hc with rfl | ⟨part, hpa, hc⟩
    · exact .inl rfl
    · exact .inr ((hpts part hpa).2.2.2 c hc)
  have hh : path.toList.head? ≠ some '/' := by
    intro hh
    obtain ⟨rest, hr⟩ := List.head?_eq_some_iff.mp hh
    have hnil : [] ∈ path.toList.splitOn '/' := by
      rw [hr]
      exact mem_cons_self
    exact (hpts [] hnil).1 rfl
  have hfil : (path.toList.splitOn '/').filter (fun part => part ≠ [] ∧ part ≠ ['.']) =
      path.toList.splitOn '/' := by
    rw [filter_eq_self]
    intro part hpa
    exact decide_eq_true ⟨(hpts part hpa).1, (hpts part hpa).2.1⟩
  have hjn : String.intercalate "/" ((path.toList.splitOn '/').map String.ofList) = path := by
    rw [← String.toList_inj]
    simp
  have hbk : '\\' ∉ path.toList := by
    intro hc
    rcases hchs _ hc with heq | ⟨-, hne⟩
    · cases heq
    · exact hne rfl
  have hnul : '\x00' ∉ path.toList := by
    intro hc
    rcases hchs _ hc with heq | ⟨hlow, -⟩
    · cases heq
    · cases hlow
  have hesc : ['.', '.'] ∉ path.toList.splitOn '/' := fun h => (hpts _ h).2.2.1 rfl
  have hsta : ¬ (path.toList.head? = some '/' ∨ '\\' ∈ path.toList ∨ ':' ∈ path.toList ∨
      '\x00' ∈ path.toList) := by
    simp [hh, hbk, hdrive, hnul]
  simp only [Workspace.normalize, normalizeWith, refuse, if_neg hsta, if_neg hesc, hfil, hjn]
  rfl

lemma not_mem_of_normalize {normalized : String} (h : Workspace.normalize path = .ok normalized) :
    ':' ∉ path.toList := by
  obtain ⟨_, hsta, -⟩ := bind_ok h
  have hsta := refuse_ok hsta
  tauto

lemma succeeds_forM {ε α : Type} {f : α → Except ε Unit} {items : List α} :
    Succeeds (items.forM f) ↔ ∀ a ∈ items, Succeeds (f a) := by
  induction items with
  | nil => exact iff_of_true succeeds_ok fun a ha => absurd ha not_mem_nil
  | cons a items ih =>
    have hc : (a :: items).forM f = f a >>= fun _ => items.forM f := rfl
    rw [hc, succeeds_bind, forall_mem_cons, ← ih]
    constructor
    · rintro ⟨u, ha, hr⟩
      exact ⟨⟨u, ha⟩, hr⟩
    · rintro ⟨⟨u, ha⟩, hr⟩
      exact ⟨u, ha, hr⟩

variable {profile : InventoryPathProfile}

lemma parsePath_iff :
    Succeeds (parsePath profile path) ↔ Portable profile path := by
  have hpa (part : List Char) : Succeeds (do
      let _ ← parseFilename (String.ofList part)
      pure () : Except DocumentError Unit) ↔ Succeeds (parseFilename (String.ofList part)) := by
    rw [succeeds_bind]
    exact exists_congr fun a => and_iff_left succeeds_ok
  unfold parsePath
  rw [succeeds_refuse, succeeds_refuse]
  constructor
  · rintro ⟨hlen, hcon, h⟩
    cases hnor : Workspace.normalize path with
    | error e =>
      rw [hnor] at h
      obtain ⟨_, h⟩ := h
      cases h
    | ok normalized =>
      rw [hnor] at h
      obtain ⟨-, hdep, h⟩ := succeeds_refuse.mp h |>.imp_right succeeds_refuse.mp
      obtain ⟨_, hpts, -⟩ := succeeds_bind.mp h
      have hpts := succeeds_forM.mp ⟨_, hpts⟩
      push Not at hlen hcon
      exact {
        units := hlen.2
        connected := hcon
        drive := not_mem_of_normalize hnor
        depth := not_lt.mp hdep
        parts := fun part hmem => parseFilename_iff.mp ((hpa part).mp (hpts part hmem)) }
  · intro h
    have hne : path ≠ "" := by
      rintro rfl
      exact (h.parts [] (by simp)).1 rfl
    have hnor := normalize_eq h.drive fun part hmem => by
      obtain ⟨h₁, -, h₂, h₃, hchs⟩ := h.parts part hmem
      exact ⟨h₁, h₂, h₃, fun c hc => ⟨(hchs c hc).1, (hchs c hc).2.2.2⟩⟩
    refine ⟨?_, ?_, ?_⟩
    · push Not
      exact ⟨hne, h.units⟩
    · push Not
      exact h.connected
    · rw [hnor]
      refine succeeds_refuse.mpr ⟨not_not.mpr rfl, ?_⟩
      refine succeeds_refuse.mpr ⟨not_lt.mpr h.depth, ?_⟩
      rw [succeeds_bind]
      obtain ⟨u, hu⟩ := succeeds_forM.mpr fun part hmem =>
        (hpa part).mpr (parseFilename_iff.mpr (h.parts part hmem))
      exact ⟨u, hu, succeeds_ok⟩

/-- The paths that `check_path` builds from the parts behind a parent. -/
def parents : String → List (List Char) → List String
  | _, [] => []
  | parent, part :: parts =>
    let path := if parent = "" then String.ofList part else parent ++ "/" ++ String.ofList part
    path :: parents path parts

def parentsOf (path : String) : List String := parents "" (path.toList.splitOn '/')

lemma part_prefix {part rest text : List Char} (hpa : '/' ∉ part) (ht : '/' ∈ text)
    (h : text <+: part ++ '/' :: rest) : part ++ ['/'] <+: text := by
  have hfst : part ++ ['/'] <+: part ++ '/' :: rest := ⟨rest, by simp⟩
  rcases prefix_or_prefix_of_prefix hfst h with h | h
  · exact h
  · rcases prefix_concat_iff.mp h with rfl | h
    · exact prefix_rfl
    · exact absurd (h.subset ht) hpa

lemma exists_slash (parts : List (List Char)) :
    ∃ rest, parts.flatMap ('/' :: ·) ++ ['/'] = '/' :: rest := by
  cases parts <;> simp

lemma mem_parents {parent s : String} {parts : List (List Char)} (hpar : parent ≠ "")
    (hpts : ∀ part ∈ parts, '/' ∉ part) :
    (s = parent ∨ s ∈ parents parent parts) ↔
      parent.toList ++ ['/'] <+: s.toList ++ ['/'] ∧
        s.toList ++ ['/'] <+: parent.toList ++ parts.flatMap ('/' :: ·) ++ ['/'] := by
  induction parts generalizing parent with
  | nil =>
    simp only [parents, not_mem_nil, or_false, flatMap_nil, append_nil]
    constructor
    · rintro rfl
      exact ⟨prefix_rfl, prefix_rfl⟩
    · rintro ⟨h, h'⟩
      exact String.toList_injective (append_cancel_right (h'.eq_of_length_le h.length_le))
  | cons part parts ih =>
    have hne : parent ++ "/" ++ String.ofList part ≠ "" := by simp
    have ih := ih hne fun p hp => hpts p (mem_cons_of_mem part hp)
    have hpa := hpts part mem_cons_self
    rw [parents, if_neg hpar, mem_cons, ih, flatMap_cons]
    constructor
    · rintro (rfl | ⟨h, h'⟩)
      · refine ⟨prefix_rfl, ?_⟩
        exact ⟨part ++ (parts.flatMap ('/' :: ·) ++ ['/']), by simp⟩
      · refine ⟨List.IsPrefix.trans ⟨part ++ ['/'], by simp⟩ h, ?_⟩
        simpa using h'
    · rintro ⟨⟨tail, htl⟩, h'⟩
      cases tail with
      | nil =>
        rw [append_nil] at htl
        exact .inl (String.toList_injective (append_cancel_right htl)).symm
      | cons c tail =>
        right
        rw [← htl]
        have hl : '/' ∈ c :: tail := by
          have hend : (s.toList ++ ['/']).getLast (by simp) = '/' := by simp
          simp only [← htl] at hend
          rw [getLast_append_of_ne_nil _ (cons_ne_nil c tail)] at hend
          exact hend ▸ getLast_mem _
        obtain ⟨rest, hr⟩ := exists_slash parts
        have hwh : parent.toList ++ (('/' :: part) ++ parts.flatMap ('/' :: ·)) ++ ['/'] =
            (parent.toList ++ ['/']) ++ (part ++ '/' :: rest) := by
          rw [← hr]
          simp
        rw [← htl, hwh, prefix_append_right_inj] at h'
        have hfst := part_prefix hpa hl h'
        constructor
        · simpa using hfst
        · rw [← hr] at h'
          simpa using h'

lemma mem_parentsOf {s : String} (hpts : ∀ part ∈ path.toList.splitOn '/', part ≠ [] ∧ '/' ∉ part)
    : s ∈ parentsOf path ↔ s ≠ "" ∧ within s path = true := by
  unfold parentsOf
  have hjn := join_splitOn '/' path.toList
  cases hspl : path.toList.splitOn '/' with
  | nil => exact absurd hspl (splitOn_ne_nil '/' path.toList)
  | cons part parts =>
    rw [hspl] at hpts hjn
    obtain ⟨hne, hpa⟩ := hpts part mem_cons_self
    have hfst : String.ofList part ≠ "" := by
      rw [← String.toList_inj.ne, String.toList_ofList]
      exact hne
    have hmem := mem_parents (s := s) hfst fun p hp => (hpts p (mem_cons_of_mem part hp)).2
    simp only [intercalate_cons_eq_flatMap, singleton_append] at hjn
    rw [parents, if_pos rfl, mem_cons, hmem, String.toList_ofList, hjn, within_iff]
    constructor
    · rintro ⟨h, h'⟩
      refine ⟨?_, .inr h'⟩
      rintro rfl
      have hlen := h.length_le
      simp only [length_append, String.toList_empty, length_nil] at hlen
      exact hne (eq_nil_of_length_eq_zero (by omega))
    · rintro ⟨hs, h⟩
      have h := h.resolve_left hs
      refine ⟨?_, h⟩
      obtain ⟨rest, hr⟩ := exists_slash parts
      rw [← hjn, append_assoc, hr] at h
      exact part_prefix hpa (by simp) h

lemma toLower_cases (c : Char) :
    c.toLower = c ∨ (65 ≤ c.toNat ∧ c.toNat ≤ 90 ∧ c.toLower.toNat = c.toNat + 32) := by
  unfold Char.toLower
  split
  case isTrue hc =>
    obtain ⟨hlow, hhi⟩ := hc
    rw [UInt32.le_iff_toNat_le] at hhi
    have hA : 'A'.val.toNat = 65 := rfl
    have hZ : 'Z'.val.toNat = 90 := rfl
    have hshift : ('a'.val - 'A'.val).toNat = 32 := rfl
    refine .inr ⟨hA ▸ hlow, hZ ▸ hhi, ?_⟩
    have hsum : (c.val + ('a'.val - 'A'.val)).toNat = c.val.toNat + 32 := by
      rw [UInt32.toNat_add]
      omega
    exact hsum
  case isFalse => exact .inl rfl

lemma toLower_eq_slash {c : Char} (h : c.toLower = '/') : c = '/' := by
  rcases toLower_cases c with heq | ⟨hlow, -, hc⟩
  · exact heq ▸ h
  · have hsl : '/'.toNat = 47 := rfl
    rw [h] at hc
    omega

lemma utf16Length_toLower (text : String) : utf16Length (toLower text) = utf16Length text := by
  have hus (c : Char) : (unitsOf c.toLower).length = (unitsOf c).length := by
    rcases toLower_cases c with heq | ⟨-, hhi, hc⟩
    · rw [heq]
    · unfold unitsOf
      rw [if_pos (by omega), if_pos (by omega)]
      rfl
  unfold utf16Length
  rw [codeUnits_eq, codeUnits_eq, toLower, String.toList_ofList, length_flatMap,
    length_flatMap, map_map]
  congr 2
  exact funext hus

lemma within_toLower_iff {root : String} (hro : root ≠ "") :
    within (toLower root) (toLower path) = true ↔
      ∃ s, s ≠ "" ∧ within s path = true ∧ toLower s = toLower root := by
  have hro' := mt toLower_eq_empty.mp hro
  constructor
  · intro h
    have h := (within_iff.mp h).resolve_left hro'
    have hmap : (toLower path).toList ++ ['/'] = (path.toList ++ ['/']).map Char.toLower := by
      simp [toLower]
    rw [hmap] at h
    obtain ⟨text, ht, heq⟩ := prefix_map_iff.mp h
    obtain ⟨front, last, rfl, hfr, hl⟩ := map_eq_append_iff.mp heq.symm
    obtain ⟨c, rfl, hc⟩ := map_eq_singleton_iff.mp hl
    obtain rfl := toLower_eq_slash hc
    have hfo : toLower (String.ofList front) = toLower root := by
      rw [toLower, String.toList_ofList, hfr, String.ofList_toList]
    refine ⟨String.ofList front, ?_, ?_, hfo⟩
    · intro hemp
      rw [hemp] at hfo
      exact hro' (hfo ▸ toLower_eq_empty.mpr rfl)
    · rw [within_iff, String.toList_ofList]
      exact .inr ht
  · rintro ⟨s, -, hs, heq⟩
    exact heq ▸ within_toLower hs

def prefixes (paths : Set String) : Set String :=
  {s | s ≠ "" ∧ ∃ path ∈ paths, within s path = true}

variable {paths : Set String}

lemma prefixes_insert (hpts : ∀ part ∈ path.toList.splitOn '/', part ≠ [] ∧ '/' ∉ part) :
    prefixes (insert path paths) = prefixes paths ∪ {s | s ∈ parentsOf path} := by
  ext s
  simp only [prefixes, Set.mem_ofPred_eq, Set.mem_union, Set.exists_mem_insert, mem_parentsOf hpts]
  rw [and_or_left, or_comm]

lemma checkParts_iff (folded : List String) (parts : List (List Char)) (parent : String)
    {index : List (String × String)} {S : Set String} (hix : Indexes toLower index S) :
    (Succeeds (checkParts folded parts parent index) ↔
      (∀ s ∈ parents parent parts, toLower s ∉ folded) ∧
        Set.InjOn toLower (S ∪ {s | s ∈ parents parent parts})) ∧
    ∀ index', checkParts folded parts parent index = .ok index' →
      Indexes toLower index' (S ∪ {s | s ∈ parents parent parts}) := by
  induction parts generalizing parent index S with
  | nil =>
    have hset : S ∪ {s | s ∈ parents parent []} = S := by simp [parents]
    rw [hset]
    refine ⟨iff_of_true succeeds_ok ⟨?_, hix.injOn⟩, ?_⟩
    · exact fun s hs => absurd hs not_mem_nil
    · intro index' h
      obtain rfl : index = index' := Except.ok.inj h
      exact hix
  | cons part parts ih =>
    generalize hnx : (if parent = "" then String.ofList part
      else parent ++ "/" ++ String.ofList part) = next
    have hset : S ∪ {s | s ∈ parents parent (part :: parts)} =
        insert next S ∪ {s | s ∈ parents next parts} := by
      ext s
      simp only [parents, hnx, Set.mem_union, Set.mem_ofPred_eq, mem_cons, Set.mem_insert_iff]
      tauto
    have hsp : ¬ (OrdMap.get? index (toLower next)).any (· ≠ next) = true ↔
        Set.InjOn toLower (insert next S) := by
      rw [← hix.admits next]
      cases OrdMap.get? index (toLower next) <;> simp
    have hunf : checkParts folded (part :: parts) parent index =
        refuse (toLower next ∈ folded ∨
          (OrdMap.get? index (toLower next)).any (· ≠ next) = true) .invalidFilename >>= fun _ =>
        checkParts folded parts next (OrdMap.insert index (toLower next) next) := by
      rw [← hnx]
      rfl
    rw [hset, hunf, parents, hnx, forall_mem_cons, succeeds_refuse, not_or, hsp]
    constructor
    · constructor
      · rintro ⟨⟨hfl, hinj⟩, hr⟩
        obtain ⟨hfls, hall⟩ := (ih next (hix.insert hinj)).1.mp hr
        exact ⟨⟨hfl, hfls⟩, hall⟩
      · rintro ⟨⟨hfl, hfls⟩, hall⟩
        have hinj : Set.InjOn toLower (insert next S) := hall.mono Set.subset_union_left
        exact ⟨⟨hfl, hinj⟩, (ih next (hix.insert hinj)).1.mpr ⟨hfls, hall⟩⟩
    · intro index' h
      obtain ⟨_, href, h⟩ := bind_ok h
      have hinj := hsp.mp (not_or.mp (refuse_ok href)).2
      exact (ih next (hix.insert hinj)).2 index' h

structure Describes (check : PathCheck) (files directories : List String) : Prop where
  folded : ∀ key, key ∈ check.foldedFiles ↔ ∃ f ∈ files, toLower f = key
  spelling : Indexes toLower check.spelling (prefixes {path | path ∈ files ++ directories})
  seen : ∀ key, key ∈ check.seenDirectories ↔ ∃ d ∈ directories, toLower d = key
  units : check.pathUnits = ((files ++ directories).map utf16Length).sum

/-- The files and the directories that have been seen can be in one inventory.  A file is
compared with those behind it only. -/
structure Fits (profile : InventoryPathProfile) (files directories : List String) : Prop where
  portable : ∀ path ∈ files ++ directories, Portable profile path
  units : ((files ++ directories).map utf16Length).sum ≤ profile.inventoryUnits
  filesApart : files.Pairwise fun f g => within (toLower f) (toLower g) = false
  directoriesApart : ∀ f ∈ files, ∀ d ∈ directories, within (toLower f) (toLower d) = false
  spelled : Set.InjOn toLower (prefixes {path | path ∈ files ++ directories})
  once : directories.Nodup

lemma Portable.ne_nil (h : Portable profile path) : path ≠ "" := by
  rintro rfl
  exact (h.parts [] (by simp)).1 rfl

lemma Portable.slashFree (h : Portable profile path) :
    ∀ part ∈ path.toList.splitOn '/', part ≠ [] ∧ '/' ∉ part := by
  intro part hpa
  obtain ⟨hne, -, -, -, hchs⟩ := h.parts part hpa
  exact ⟨hne, fun hsl => (hchs _ hsl).2.2.1 rfl⟩

lemma mem_prefixes_self (hne : path ≠ "") (hp : path ∈ paths) : path ∈ prefixes paths :=
  ⟨hne, path, hp, within_refl path⟩

variable {profile : InventoryPathProfile} {check check' : PathCheck}
  {files directories : List String} {path : String}

lemma checkPath_iff (profile : InventoryPathProfile) (path : String)
    (h : Describes check files directories) (hfls : ∀ f ∈ files, f ≠ "") :
    (Succeeds (checkPath profile check path) ↔ Portable profile path ∧
      check.pathUnits + utf16Length path ≤ profile.inventoryUnits ∧
      (∀ f ∈ files, within (toLower f) (toLower path) = false) ∧
      Set.InjOn toLower (prefixes (insert path {path | path ∈ files ++ directories}))) ∧
    ∀ check', checkPath profile check path = .ok check' → check'.foldedFiles = check.foldedFiles ∧
      check'.seenDirectories = check.seenDirectories ∧
      check'.pathUnits = check.pathUnits + utf16Length path ∧
      Indexes toLower check'.spelling
        (prefixes (insert path {path | path ∈ files ++ directories})) := by
  have hpts := checkParts_iff check.foldedFiles (path.toList.splitOn '/') "" h.spelling
  have hab (hp : Portable profile path) :
      (∀ s ∈ parentsOf path, toLower s ∉ check.foldedFiles) ↔
        ∀ f ∈ files, within (toLower f) (toLower path) = false := by
    simp only [h.folded, mem_parentsOf hp.slashFree]
    constructor
    · intro hs f hf
      rw [Bool.eq_false_iff]
      intro hwi
      obtain ⟨s, hne, hspath, heq⟩ := (within_toLower_iff (hfls f hf)).mp hwi
      exact hs s ⟨hne, hspath⟩ ⟨f, hf, heq.symm⟩
    · rintro hf s ⟨hne, hspath⟩ ⟨f, hmem, heq⟩
      have hwi := (within_toLower_iff (hfls f hmem)).mpr ⟨s, hne, hspath, heq.symm⟩
      rw [hf f hmem] at hwi
      exact Bool.false_ne_true hwi
  unfold checkPath
  rw [succeeds_bind]
  constructor
  · constructor
    · rintro ⟨parsed, hprs, hr⟩
      have hp := parsePath_iff.mp ⟨parsed, hprs⟩
      obtain ⟨hus, hr⟩ := succeeds_refuse.mp hr
      obtain ⟨index, hix, -⟩ := succeeds_bind.mp hr
      obtain ⟨hfol, hinj⟩ := hpts.1.mp ⟨index, hix⟩
      rw [prefixes_insert hp.slashFree]
      exact ⟨hp, not_lt.mp hus, (hab hp).mp hfol, hinj⟩
    · rintro ⟨hp, hus, hfol, hinj⟩
      rw [prefixes_insert hp.slashFree] at hinj
      obtain ⟨parsed, hprs⟩ := parsePath_iff.mpr hp
      obtain ⟨index, hix⟩ := hpts.1.mpr ⟨(hab hp).mpr hfol, hinj⟩
      refine ⟨parsed, hprs, succeeds_refuse.mpr ⟨not_lt.mpr hus, ?_⟩⟩
      exact succeeds_bind.mpr ⟨index, hix, succeeds_ok⟩
  · intro check' hchk
    obtain ⟨parsed, hprs, hchk⟩ := bind_ok hchk
    obtain ⟨_, _, hchk⟩ := bind_ok hchk
    obtain ⟨index, hix, hchk⟩ := bind_ok hchk
    cases hchk
    have hp := parsePath_iff.mp ⟨parsed, hprs⟩
    rw [prefixes_insert hp.slashFree]
    exact ⟨rfl, rfl, rfl, hpts.2 index hix⟩

lemma insert_files (path : String) (files directories : List String) :
    insert path {path | path ∈ files ++ directories} =
      ({p | p ∈ files ++ [path] ++ directories} : Set String) := by
  ext p
  simp only [Set.mem_insert_iff, Set.mem_ofPred_eq, mem_append, mem_singleton]
  tauto

lemma insert_directories (path : String) (files directories : List String) :
    insert path {path | path ∈ files ++ directories} =
      ({p | p ∈ files ++ (directories ++ [path])} : Set String) := by
  ext p
  simp only [Set.mem_insert_iff, Set.mem_ofPred_eq, mem_append, mem_singleton]
  tauto

lemma sum_files (path : String) (files directories : List String) :
    ((files ++ [path] ++ directories).map utf16Length).sum =
      ((files ++ directories).map utf16Length).sum + utf16Length path := by
  simp only [map_append, sum_append_nat, map_cons, map_nil, sum_singleton]
  omega

lemma sum_directories (path : String) (files directories : List String) :
    ((files ++ (directories ++ [path])).map utf16Length).sum =
      ((files ++ directories).map utf16Length).sum + utf16Length path := by
  simp only [map_append, sum_append_nat, map_cons, map_nil, sum_singleton]
  omega

lemma mem_folded {keys paths : List String} (h : ∀ key, key ∈ keys ↔ ∃ p ∈ paths, toLower p = key)
    (path key : String) : key ∈ toLower path :: keys ↔ ∃ p ∈ paths ++ [path], toLower p = key := by
  rw [mem_cons, h]
  constructor
  · rintro (rfl | ⟨p, hp, heq⟩)
    · exact ⟨path, by simp, rfl⟩
    · exact ⟨p, mem_append_left _ hp, heq⟩
  · rintro ⟨p, hp, rfl⟩
    rcases mem_append.mp hp with hp | hp
    · exact .inr ⟨p, hp, rfl⟩
    · exact .inl (mem_singleton.mp hp ▸ rfl)

lemma checkFile_iff (hfit : Fits profile files []) (h : Describes check files []) :
    (Succeeds (checkFile profile check path) ↔ Fits profile (files ++ [path]) []) ∧
      ∀ check', checkFile profile check path = .ok check' →
        Describes check' (files ++ [path]) [] := by
  have hne : ∀ f ∈ files, f ≠ "" := fun f hf => (hfit.portable f (mem_append_left _ hf)).ne_nil
  obtain ⟨hacc, hkeeps⟩ := checkPath_iff profile path h hne
  have hnew : (∀ f ∈ files, within (toLower f) (toLower path) = false) →
      toLower path ∉ check.foldedFiles := by
    intro hfls hmem
    obtain ⟨f, hf, heq⟩ := (h.folded _).mp hmem
    have hwi := hfls f hf
    rw [heq, within_refl] at hwi
    exact Bool.false_ne_true hwi.symm
  rw [insert_files] at hacc hkeeps
  unfold checkFile
  rw [succeeds_bind]
  constructor
  · constructor
    · rintro ⟨check₁, hchk, -⟩
      obtain ⟨hp, hus, hfls, hinj⟩ := hacc.mp ⟨check₁, hchk⟩
      refine ⟨?_, ?_, ?_, fun _ _ d hd => absurd hd not_mem_nil, hinj, hfit.once⟩
      · intro p hmem
        rw [append_nil, mem_append, mem_singleton] at hmem
        rcases hmem with hmem | rfl
        · exact hfit.portable p (mem_append_left _ hmem)
        · exact hp
      · rw [sum_files, ← h.units]
        exact hus
      · refine pairwise_append.mpr ⟨hfit.filesApart, pairwise_singleton _ _, ?_⟩
        intro f hf g hg
        exact mem_singleton.mp hg ▸ hfls f hf
    · intro hall
      have hmem : path ∈ files ++ [path] ++ [] := by simp
      have hfls : ∀ f ∈ files, within (toLower f) (toLower path) = false := fun f hf =>
        (pairwise_append.mp hall.filesApart).2.2 f hf path (mem_singleton_self path)
      have hus := hall.units
      rw [sum_files, ← h.units] at hus
      obtain ⟨check₁, hchk⟩ := hacc.mpr ⟨hall.portable path hmem, hus, hfls, hall.spelled⟩
      refine ⟨check₁, hchk, succeeds_refuse.mpr ⟨?_, succeeds_ok⟩⟩
      rw [(hkeeps check₁ hchk).1]
      exact hnew hfls
  · intro check' hchk
    obtain ⟨check₁, hfst, hr⟩ := bind_ok hchk
    obtain ⟨_, _, hr⟩ := bind_ok hr
    cases hr
    obtain ⟨hfol, hse, hus, hspe⟩ := hkeeps check₁ hfst
    refine ⟨?_, hspe, ?_, ?_⟩
    · exact mem_folded (hfol ▸ h.folded) path
    · simp only [hse, h.seen, not_mem_nil, false_and, implies_true]
    · simp only [hus, h.units, sum_files]

lemma checkDirectory_iff (hfit : Fits profile files directories)
    (h : Describes check files directories) :
    (Succeeds (checkDirectory profile check path) ↔ Fits profile files (directories ++ [path])) ∧
      ∀ check', checkDirectory profile check path = .ok check' →
        Describes check' files (directories ++ [path]) := by
  have hne : ∀ f ∈ files, f ≠ "" := fun f hf => (hfit.portable f (mem_append_left _ hf)).ne_nil
  obtain ⟨hacc, hkeeps⟩ := checkPath_iff profile path h hne
  rw [insert_directories] at hacc hkeeps
  -- a directory that folds to one seen is that one, as both are spelled alike
  have hnew (hp : Portable profile path)
      (hinj : Set.InjOn toLower (prefixes {p | p ∈ files ++ (directories ++ [path])})) :
      toLower path ∈ check.seenDirectories ↔ path ∈ directories := by
    rw [h.seen]
    constructor
    · rintro ⟨d, hd, heq⟩
      have hsf : path ∈ prefixes {p | p ∈ files ++ (directories ++ [path])} :=
        mem_prefixes_self hp.ne_nil (by simp)
      have ho : d ∈ prefixes {p | p ∈ files ++ (directories ++ [path])} :=
        mem_prefixes_self (hfit.portable d (mem_append_right _ hd)).ne_nil (by simp [hd])
      exact hinj ho hsf heq ▸ hd
    · exact fun hd => ⟨path, hd, rfl⟩
  unfold checkDirectory
  rw [succeeds_bind]
  constructor
  · constructor
    · rintro ⟨check₁, hchk, hr⟩
      obtain ⟨hp, hus, hfls, hinj⟩ := hacc.mp ⟨check₁, hchk⟩
      have honce := (succeeds_refuse.mp hr).1
      rw [(hkeeps check₁ hchk).2.1, hnew hp hinj] at honce
      refine ⟨?_, ?_, hfit.filesApart, ?_, hinj, ?_⟩
      · intro p hmem
        rw [← append_assoc, mem_append, mem_singleton] at hmem
        rcases hmem with hmem | rfl
        · exact hfit.portable p hmem
        · exact hp
      · rw [sum_directories, ← h.units]
        exact hus
      · intro f hf d hd
        rcases mem_append.mp hd with hd | hd
        · exact hfit.directoriesApart f hf d hd
        · exact mem_singleton.mp hd ▸ hfls f hf
      · rw [nodup_append]
        refine ⟨hfit.once, nodup_singleton path, ?_⟩
        rintro d hd _ hpath rfl
        exact honce (mem_singleton.mp hpath ▸ hd)
    · intro hall
      have hmem : path ∈ files ++ (directories ++ [path]) := by simp
      have hp := hall.portable path hmem
      have hus := hall.units
      rw [sum_directories, ← h.units] at hus
      obtain ⟨check₁, hchk⟩ := hacc.mpr ⟨hp, hus,
        fun f hf => hall.directoriesApart f hf path (by simp), hall.spelled⟩
      refine ⟨check₁, hchk, succeeds_refuse.mpr ⟨?_, succeeds_ok⟩⟩
      rw [(hkeeps check₁ hchk).2.1, hnew hp hall.spelled]
      intro hd
      exact (nodup_append.mp hall.once).2.2 path hd path (mem_singleton_self path) rfl
  · intro check' hchk
    obtain ⟨check₁, hfst, hr⟩ := bind_ok hchk
    obtain ⟨_, _, hr⟩ := bind_ok hr
    cases hr
    obtain ⟨hfol, hse, hus, hspe⟩ := hkeeps check₁ hfst
    refine ⟨?_, hspe, ?_, ?_⟩
    · simp only [hfol, h.folded, implies_true]
    · exact mem_folded (hse ▸ h.seen) path
    · simp only [hus, h.units, sum_directories]

lemma sortTexts_perm (texts : List String) : (sortTexts texts).Perm texts :=
  perm_insertionSort _ texts

lemma sortTexts_sorted (texts : List String) :
    (sortTexts texts).Pairwise fun a b => utf16Length a ≤ utf16Length b := by
  have hto : Std.Total fun a b => (compareText a b).isLE = true :=
    ⟨fun a b => Bool.or_eq_true_iff.mp (atMost_total a b)⟩
  have htr : IsTrans String fun a b => (compareText a b).isLE = true :=
    ⟨fun _ _ _ => Std.TransCmp.isLE_trans⟩
  refine (pairwise_insertionSort _ texts).imp ?_
  intro a b h
  by_contra hlen
  have hgt : compare (codeUnits a).length (codeUnits b).length = .gt :=
    Nat.compare_eq_gt.mpr (Nat.lt_of_not_le hlen)
  rw [compareText, hgt] at h
  exact Bool.false_ne_true h

lemma within_of_length {f g : String} (hne : g ≠ "") (hlen : utf16Length f ≤ utf16Length g)
    (h : within (toLower g) (toLower f) = true) : within (toLower f) (toLower g) = true := by
  obtain ⟨rest, hr⟩ := (within_iff.mp h).resolve_left (mt toLower_eq_empty.mp hne)
  have hus := congrArg (fun text => (text.flatMap unitsOf).length) hr
  simp only [flatMap_append, length_append] at hus
  rw [← utf16Length_toLower f, ← utf16Length_toLower g] at hlen
  unfold utf16Length at hlen
  rw [codeUnits_eq, codeUnits_eq] at hlen
  have hnil : rest.flatMap unitsOf = [] := eq_nil_of_length_eq_zero (by omega)
  have hr' : rest = [] := by
    apply flatMap_unitsOf_inj
    rw [hnil]
    rfl
  rw [hr', append_nil] at hr
  have heq : toLower g = toLower f := String.toList_injective (append_cancel_right hr)
  rw [heq]
  exact within_refl _

/-- The conditions of an inventory: no file is in the place of another file or of a
directory when letter case is ignored, every directory has one spelling, and none is listed
twice. -/
structure Consistent (files directories : List String) : Prop where
  distinct : (files.map toLower).Nodup
  filesApart : ∀ f ∈ files, ∀ g ∈ files, toLower f ≠ toLower g →
    within (toLower f) (toLower g) = false
  directoriesApart : ∀ f ∈ files, ∀ d ∈ directories, within (toLower f) (toLower d) = false
  spelled : ∀ p ∈ files ++ directories, ∀ q ∈ files ++ directories, ∀ s t,
    within s p = true → within t q = true → toLower s = toLower t → s = t
  once : directories.Nodup

structure WithinLimits (profile : InventoryPathProfile) (files directories : List String) :
    Prop where
  counts : profile = .localTree → files.length ≤ 4096 ∧ directories.length ≤ 4096
  entries : files.length + directories.length ≤ 100064
  units : ((files ++ directories).map utf16Length).sum ≤ profile.inventoryUnits

lemma pairwise_sortTexts (hne : ∀ f ∈ files, f ≠ "") :
    (sortTexts files).Pairwise (fun f g => within (toLower f) (toLower g) = false) ↔
      (files.map toLower).Nodup ∧ ∀ f ∈ files, ∀ g ∈ files, toLower f ≠ toLower g →
        within (toLower f) (toLower g) = false := by
  constructor
  · intro h
    have hb : (sortTexts files).Pairwise fun f g =>
        within (toLower f) (toLower g) = false ∧ within (toLower g) (toLower f) = false := by
      refine ((sortTexts_sorted files).and h).imp_of_mem ?_
      rintro f g - hg ⟨hlen, hfg⟩
      refine ⟨hfg, Bool.eq_false_iff.mpr fun hgf => ?_⟩
      have hg := hne g ((sortTexts_perm files).mem_iff.mp hg)
      exact Bool.false_ne_true (hfg ▸ within_of_length hg hlen hgf)
    have hfls := ((sortTexts_perm files).pairwise_iff And.symm).mp hb
    have hsymm : Std.Symm fun f g : String => within (toLower f) (toLower g) = false ∧
        within (toLower g) (toLower f) = false := ⟨fun _ _ h => h.symm⟩
    constructor
    · refine pairwise_map.mpr (hfls.imp ?_)
      rintro f g ⟨hfg, -⟩ heq
      rw [heq, within_refl] at hfg
      exact Bool.false_ne_true hfg.symm
    · intro f hf g hg hfo
      exact (hfls.forall hf hg fun heq => hfo (heq ▸ rfl)).1
  · rintro ⟨hdi, hap⟩
    have hfolds := (sortTexts_perm files).map toLower |>.nodup_iff.mpr hdi
    refine (pairwise_map.mp hfolds).imp_of_mem ?_
    intro f g hf hg hfo
    exact hap f ((sortTexts_perm files).mem_iff.mp hf) g
      ((sortTexts_perm files).mem_iff.mp hg) hfo

lemma prefixes_mono {paths' : Set String} (h : paths ⊆ paths') :
    prefixes paths ⊆ prefixes paths' := by
  rintro s ⟨hne, path, hp, hs⟩
  exact ⟨hne, path, h hp, hs⟩

lemma Fits.mono {files' directories' : List String} (h : Fits profile files directories)
    (hf : files'.Sublist files) (hd : directories'.Sublist directories) :
    Fits profile files' directories' where
  portable path hp := h.portable path ((hf.append hd).subset hp)
  units := (((hf.append hd).map utf16Length).sum_le_sum fun _ _ => zero_le _).trans h.units
  filesApart := h.filesApart.sublist hf
  directoriesApart f hfl d hdir := h.directoriesApart f (hf.subset hfl) d (hd.subset hdir)
  spelled := h.spelled.mono (prefixes_mono fun _ hp => (hf.append hd).subset hp)
  once := h.once.sublist hd

lemma fits_nil : Fits profile [] [] where
  portable _ h := absurd h not_mem_nil
  units := zero_le _
  filesApart := List.Pairwise.nil
  directoriesApart _ h := absurd h not_mem_nil
  spelled := by
    rintro s ⟨-, path, hp, -⟩
    exact absurd hp not_mem_nil
  once := nodup_nil

lemma describes_nil : Describes ⟨[], [], [], 0⟩ [] [] where
  folded := by simp
  spelling := by
    intro key s
    simp [prefixes]
  seen := by simp
  units := rfl

lemma run_iff : Succeeds (do
      let check ← (sortTexts files).foldlM (checkFile profile) ⟨[], [], [], 0⟩
      let _ ← directories.foldlM (checkDirectory profile) check
      pure () : Except DocumentError Unit) ↔ Fits profile (sortTexts files) directories := by
  have hfls := succeeds_foldlM (fun files check => Describes check files [])
    (fun files => Fits profile files [])
    (fun done rest h => h.mono (sublist_append_left done rest) (.refl _))
    (fun done check path hfit h => checkFile_iff hfit h) fits_nil describes_nil (sortTexts files)
  have hdirs {check : PathCheck} (hfit : Fits profile (sortTexts files) [])
      (h : Describes check (sortTexts files) []) :=
    succeeds_foldlM (fun directories check => Describes check (sortTexts files) directories)
      (fun directories => Fits profile (sortTexts files) directories)
      (fun done rest h => h.mono (.refl _) (sublist_append_left done rest))
      (fun done check path hfit h => checkDirectory_iff hfit h) hfit h directories
  rw [succeeds_bind]
  constructor
  · rintro ⟨check, hchk, hr⟩
    obtain ⟨check', hchk', -⟩ := succeeds_bind.mp hr
    have hfit := hfls.1.mp ⟨check, hchk⟩
    exact (hdirs hfit (hfls.2 check hchk)).1.mp ⟨check', hchk'⟩
  · intro h
    have hfit : Fits profile (sortTexts files) [] := h.mono (.refl _)
      (nil_sublist _)
    obtain ⟨check, hchk⟩ := hfls.1.mpr hfit
    obtain ⟨check', hchk'⟩ := (hdirs hfit (hfls.2 check hchk)).1.mpr h
    exact ⟨check, hchk, succeeds_bind.mpr ⟨check', hchk', succeeds_ok⟩⟩

lemma fits_iff : Fits profile (sortTexts files) directories ↔
    (∀ path ∈ files ++ directories, Portable profile path) ∧
      ((files ++ directories).map utf16Length).sum ≤ profile.inventoryUnits ∧
      Consistent files directories := by
  have hpm : (sortTexts files ++ directories).Perm (files ++ directories) :=
    (sortTexts_perm files).append_right directories
  have hset : {path | path ∈ sortTexts files ++ directories} =
      ({path | path ∈ files ++ directories} : Set String) := Set.ext fun _ => hpm.mem_iff
  constructor
  · intro h
    have hpor : ∀ path ∈ files ++ directories, Portable profile path := fun path hpath =>
      h.portable path (hpm.mem_iff.mpr hpath)
    have hap := (pairwise_sortTexts fun f hf =>
      (hpor f (mem_append_left _ hf)).ne_nil).mp h.filesApart
    refine ⟨hpor, ?_, hap.1, hap.2, ?_, ?_, h.once⟩
    · rw [← (hpm.map utf16Length).sum_eq]
      exact h.units
    · intro f hf d hd
      exact h.directoriesApart f ((sortTexts_perm files).mem_iff.mpr hf) d hd
    · intro p hp q hq s t hs ht heq
      have hsp := h.spelled
      rw [hset] at hsp
      by_cases hemp : s = ""
      · subst hemp
        have ht : toLower t = "" := by rw [← heq]; rfl
        exact (toLower_eq_empty.mp ht).symm
      · have hemp' : t ≠ "" := by
          rintro rfl
          exact hemp (toLower_eq_empty.mp heq)
        exact hsp ⟨hemp, p, hp, hs⟩ ⟨hemp', q, hq, ht⟩ heq
  · rintro ⟨hpor, hus, hcon⟩
    refine ⟨?_, ?_, ?_, ?_, ?_, hcon.once⟩
    · exact fun path hpath => hpor path (hpm.mem_iff.mp hpath)
    · rw [(hpm.map utf16Length).sum_eq]
      exact hus
    · exact (pairwise_sortTexts fun f hf =>
        (hpor f (mem_append_left _ hf)).ne_nil).mpr
        ⟨hcon.distinct, hcon.filesApart⟩
    · intro f hf d hd
      exact hcon.directoriesApart f ((sortTexts_perm files).mem_iff.mp hf) d hd
    · rw [hset]
      rintro s ⟨-, p, hp, hs⟩ t ⟨-, q, hq, ht⟩ heq
      exact hcon.spelled p hp q hq s t hs ht heq

lemma accepts_iff : validateInventoryPaths profile files directories = .ok () ↔
    WithinLimits profile files directories ∧
      (∀ path ∈ files ++ directories, Portable profile path) ∧ Consistent files directories := by
  have hsuc : validateInventoryPaths profile files directories = .ok () ↔
      Succeeds (validateInventoryPaths profile files directories) := by
    exact ⟨fun h => ⟨(), h⟩, fun ⟨_, h⟩ => h⟩
  rw [hsuc, validateInventoryPaths, succeeds_refuse, run_iff, fits_iff]
  push Not
  constructor
  · rintro ⟨⟨hcou, hents⟩, hpor, hus, hcon⟩
    exact ⟨⟨hcou, hents, hus⟩, hpor, hcon⟩
  · rintro ⟨⟨hcou, hents, hus⟩, hpor, hcon⟩
    exact ⟨⟨hcou, hents⟩, hpor, hus, hcon⟩

section Order

variable {files' directories' : List String}

lemma WithinLimits.perm (h : WithinLimits profile files directories) (hf : files'.Perm files)
    (hd : directories'.Perm directories) :
    WithinLimits profile files' directories' where
  counts hlo := hf.length_eq ▸ hd.length_eq ▸ h.counts hlo
  entries := hf.length_eq ▸ hd.length_eq ▸ h.entries
  units := ((hf.append hd).map utf16Length).sum_eq ▸ h.units

lemma Consistent.perm (h : Consistent files directories) (hf : files'.Perm files)
    (hd : directories'.Perm directories) : Consistent files' directories' where
  distinct := (hf.map toLower).nodup_iff.mpr h.distinct
  filesApart f hfl g ho := h.filesApart f (hf.mem_iff.mp hfl) g (hf.mem_iff.mp ho)
  directoriesApart f hfl d hdir := h.directoriesApart f (hf.mem_iff.mp hfl) d (hd.mem_iff.mp hdir)
  spelled p hp q hq := h.spelled p ((hf.append hd).mem_iff.mp hp) q ((hf.append hd).mem_iff.mp hq)
  once := hd.nodup_iff.mpr h.once

lemma accepts_perm (hf : files'.Perm files) (hd : directories'.Perm directories)
    (h : validateInventoryPaths profile files directories = .ok ()) :
    validateInventoryPaths profile files' directories' = .ok () := by
  obtain ⟨hlim, hpor, hcon⟩ := accepts_iff.mp h
  refine accepts_iff.mpr ⟨hlim.perm hf hd, ?_, hcon.perm hf hd⟩
  exact fun path hp => hpor path ((hf.append hd).mem_iff.mp hp)

end Order

/-- An inventory within its limits is accepted when its paths are portable and consistent,
in whatever order it lists them. -/
theorem validateInventoryPaths_spec (profile : InventoryPathProfile)
    (files directories : List String) (hlim : WithinLimits profile files directories) :
    (validateInventoryPaths profile files directories = .ok () ↔
      (∀ path ∈ files ++ directories, Portable profile path) ∧ Consistent files directories) ∧
    ∀ files' directories', files'.Perm files → directories'.Perm directories →
      (validateInventoryPaths profile files' directories' = .ok () ↔
        validateInventoryPaths profile files directories = .ok ()) := by
  constructor
  · rw [accepts_iff, and_iff_right hlim]
  · intro files' directories' hf hd
    exact ⟨accepts_perm hf.symm hd.symm, accepts_perm hf hd⟩

theorem validateInventoryPaths_spec_nested :
    WithinLimits .localTree ["a/B"] ["a"] ∧
      (validateInventoryPaths .localTree ["a/B"] ["a"] = .ok () ↔
        (∀ path ∈ ["a/B"] ++ ["a"], Portable .localTree path) ∧ Consistent ["a/B"] ["a"]) := by
  have hlim : WithinLimits .localTree ["a/B"] ["a"] := ⟨by decide, by decide, by decide⟩
  exact ⟨hlim, (validateInventoryPaths_spec .localTree ["a/B"] ["a"] hlim).1⟩

/-- Consistent paths are refused when one of them has a part that is no file name. -/
theorem validateInventoryPaths_refuses_escape :
    WithinLimits .localTree [".."] [] ∧ Consistent [".."] [] ∧
      validateInventoryPaths .localTree [".."] [] = .error .invalidFilename := by
  have hpre (s : String) (h : within s ".." = true) : s = "" ∨ s = ".." := by
    rcases within_iff.mp h with h | h
    · exact .inl h
    · rcases prefix_concat_iff.mp h with h | h
      · exact .inr (String.toList_injective (append_cancel_right h))
      · exact absurd (h.subset (mem_append_right _ (mem_singleton_self '/'))) (by decide)
  refine ⟨⟨by decide, by decide, by decide⟩, ⟨by decide, by decide, by decide, ?_, by decide⟩, rfl⟩
  intro p hp q hq s t hs ht heq
  rw [mem_singleton.mp hp] at hs
  rw [mem_singleton.mp hq] at ht
  rcases hpre s hs with rfl | rfl <;> rcases hpre t ht with rfl | rfl
  · rfl
  · cases heq
  · cases heq
  · rfl

end Morphir.Engine.Inventory
