import Morphir.IR.LegacyNames

/-!
# File names of a document tree

The names of modules and definitions become file names: hyphens join the
segments, an underscore marks an initialism, and one more underscore ends the
name of a device.  A hash follows a double underscore.
-/

namespace Morphir.TreeNames

open Name List Bool

def escapedSegment : NameSegment → String
  | .word text => text
  | .initialism text => "_" ++ text.toLower

def devices : List String :=
  ["con", "prn", "aux", "nul", "com1", "com2", "com3", "com4", "com5", "com6", "com7", "com8",
    "com9", "lpt1", "lpt2", "lpt3", "lpt4", "lpt5", "lpt6", "lpt7", "lpt8", "lpt9"]

def joinedSegments (name : Name) : String :=
  String.intercalate "-" (name.segments.map escapedSegment)

def escapedName (name : Name) : String :=
  let stem := joinedSegments name
  if devices.contains stem then stem ++ "_" else stem

def escapedPath (path : Path) : String := String.intercalate "/" (path.segments.map escapedName)

/-- The parts between double underscores. -/
def splitDouble : List Char → List (List Char)
  | [] => [[]]
  | '_' :: '_' :: rest => [] :: splitDouble rest
  | c :: rest =>
    match splitDouble rest with
    | [] => [[c]]
    | part :: parts => (c :: part) :: parts

def withoutLast (text : List Char) : List Char :=
  if text.getLast? = some '_' then text.dropLast else text

def withoutFirst : List Char → List Char
  | '_' :: rest => rest
  | text => text

def isHexDigit (c : Char) : Bool := isDigit c || decide ('a' ≤ c ∧ c ≤ 'f')

def validHash (hash : List Char) : Bool :=
  (withoutLast hash).length = 8 && (withoutLast hash).all isHexDigit

def validBase (base : List Char) : Bool :=
  ((withoutLast base).splitOn '-').all fun part =>
    !(withoutFirst part).isEmpty && (withoutFirst part).all isLegacyChar

def validStem (text : String) : Bool :=
  if text.isEmpty || 4096 < (codeUnits text).length then false
  else match splitDouble text.toList with
    | [base] => validBase base
    | [base, hash] => validHash hash && validBase base
    | _ => false

/-- A stem without a hash: double underscores are absent, and the last
character is that of a segment. -/
structure IsStem (l : List Char) : Prop where
  nonempty : l ≠ []
  single : l.IsChain fun a b => a = '_' → b ≠ '_'
  last : l.getLast? ≠ some '_'
  chars : ∀ c ∈ l, isLegacyChar c = true ∨ c = '-' ∨ c = '_'

variable {c : Char}

lemma legacy_ne {d : Char} (h : isLegacyChar c = true) (hd : isLegacyChar d = false) : c ≠ d := by
  rintro rfl
  rw [h] at hd
  cases hd

lemma isStem_legacy {cs : List Char} (hne : cs ≠ []) (h : ∀ c ∈ cs, isLegacyChar c = true) :
    IsStem cs := by
  refine ⟨hne, ?_, fun hlast => ?_, fun c hc => .inl (h c hc)⟩
  · refine isChain_iff_forall_rel_of_append_cons_cons.mpr ?_
    rintro a b front back rfl -
    exact legacy_ne (h b (by simp)) (by decide)
  · exact legacy_ne (h '_' (mem_of_getLast? hlast)) (by decide) rfl

lemma isStem_initialism {cs : List Char} (hne : cs ≠ []) (h : ∀ c ∈ cs, isLegacyChar c = true) :
    IsStem ('_' :: cs) := by
  have hcs := isStem_legacy hne h
  obtain ⟨c, rest, rfl⟩ := exists_cons_of_ne_nil hne
  have hc := legacy_ne (h c mem_cons_self) (by decide : isLegacyChar '_' = false)
  refine ⟨by simp, isChain_cons_cons.mpr ⟨fun _ => hc, hcs.single⟩, ?_, ?_⟩
  · exact hcs.last
  · exact forall_mem_cons.mpr ⟨.inr (.inr rfl), hcs.chars⟩

lemma IsStem.append {front back : List Char} (hf : IsStem front) (hb : IsStem back) :
    IsStem (front ++ '-' :: back) := by
  obtain ⟨c, rest, rfl⟩ := exists_cons_of_ne_nil hb.nonempty
  have hhy : List.IsChain (fun a b => a = '_' → b ≠ '_') ('-' :: c :: rest) :=
    isChain_cons_cons.mpr ⟨fun h => absurd h (by decide), hb.single⟩
  refine ⟨by simp, isChain_append.mpr ⟨hf.single, hhy, ?_⟩, ?_, fun d hd => ?_⟩
  · rintro a - b hb' -
    cases hb'
    decide
  · rw [List.getLast?_append_of_ne_nil _ (by simp)]
    exact hb.last
  · rcases mem_append.mp hd with hd | hd
    · exact hf.chars d hd
    · rcases mem_cons.mp hd with rfl | hd
      · exact .inr (.inl rfl)
      · exact hb.chars d hd

lemma IsStem.join {parts : List (List Char)} (hne : parts ≠ []) (h : ∀ p ∈ parts, IsStem p) :
    IsStem (['-'].intercalate parts) := by
  induction parts with
  | nil => exact absurd rfl hne
  | cons part parts ih =>
    obtain ⟨hpart, hparts⟩ := forall_mem_cons.mp h
    cases parts with
    | nil => simpa using hpart
    | cons next parts => exact hpart.append (ih (by simp) hparts)

lemma splitDouble_single {l : List Char} (h : l.IsChain fun a b => a = '_' → b ≠ '_') :
    splitDouble l = [l] := by
  induction l using splitDouble.induct with
  | case1 => rfl
  | case2 rest => exact absurd rfl ((isChain_cons_cons.mp h).1 rfl)
  | case3 c rest hno hnil ih => simp [ih h.tail] at hnil
  | case4 c rest hno part parts heq ih =>
    rw [splitDouble, ih h.tail]
    exact hno

variable {segment : NameSegment} {name : Name}

lemma parseSegment_cases {text : List Char} (h : parseSegment text = some segment) :
    text ≠ [] ∧ ((segment = .word (String.ofList text) ∧ ∀ c ∈ text, isLegacyChar c = true) ∨
      (segment = .initialism (String.ofList text) ∧
        ∀ c ∈ text, isDigit c = true ∨ isUpperLetter c = true)) := by
  unfold parseSegment at h
  split_ifs at h with hemp hchars hupper
  all_goals
    rw [and_eq_true, not_and_or, not_eq_true', not_eq_true', not_eq_false,
      not_eq_false, all_eq_true, all_eq_true] at hchars
    refine ⟨by simpa using hemp, ?_⟩
  · obtain ⟨d, hd, hup⟩ := any_eq_true.mp hupper
    refine .inr ⟨(Option.some.inj h).symm, fun c hc => ?_⟩
    rcases hchars with hall | hall
    · have hlegacy := hall d hd
      rw [Bool.or_comm] at hlegacy
      exact absurd hup (eq_false_iff.mp (not_upper hlegacy))
    · exact or_eq_true_iff.mp (hall c hc)
  · refine .inl ⟨(Option.some.inj h).symm, fun c hc => ?_⟩
    rcases hchars with hall | hall
    · exact (or_comm _ _).trans (hall c hc)
    · have hup := eq_false_iff.mpr fun hup => hupper (any_eq_true.mpr ⟨c, hc, hup⟩)
      have hdigit := hall c hc
      rw [hup, Bool.or_false] at hdigit
      rw [isLegacyChar, hdigit, Bool.or_true]

lemma toLower_legacy (h : isLegacyChar c = true) : c.toLower = c := by
  have hup := not_upper h
  rw [isUpperLetter, decide_eq_false_iff_not] at hup
  exact dif_neg hup

lemma lower_letter (h : isDigit c = true ∨ isUpperLetter c = true) :
    isLegacyChar c.toLower = true ∧ c.toLower.toUpper = c := by
  have hc : (48 ≤ c.toNat ∧ c.toNat ≤ 57) ∨ (65 ≤ c.toNat ∧ c.toNat ≤ 90) := by
    simpa [isDigit, isUpperLetter, Char.le_def, UInt32.le_iff_toNat_le] using h
  rw [← Char.ofNat_toNat c]
  generalize c.toNat = n at hc ⊢
  obtain ⟨hlow, hhi⟩ | ⟨hlow, hhi⟩ := hc <;> interval_cases n <;> decide

/-- A segment is spelled by the characters of its legacy spelling, after an underscore where
it is an initialism. -/
theorem escapedSegment_cases (h : NameSegment.Reads segment) :
    ∃ cs, cs ≠ [] ∧ (∀ c ∈ cs, isLegacyChar c = true) ∧
      ((segment = .word (String.ofList cs) ∧ (escapedSegment segment).toList = cs) ∨
        (segment = .initialism (String.ofList (cs.map Char.toUpper)) ∧
          (escapedSegment segment).toList = '_' :: cs)) := by
  obtain ⟨hne, ⟨hseg, hall⟩ | ⟨hseg, hall⟩⟩ := parseSegment_cases h
  · refine ⟨_, hne, hall, .inl ⟨hseg, ?_⟩⟩
    rw [hseg]
    rfl
  · refine ⟨segment.text.toList.map Char.toLower, by simpa using hne, fun c hc => ?_, .inr ⟨?_, ?_⟩⟩
    · obtain ⟨d, hd, rfl⟩ := mem_map.mp hc
      exact (lower_letter (hall d hd)).1
    · have hup : (segment.text.toList.map Char.toLower).map Char.toUpper = segment.text.toList := by
        rw [map_map]
        exact (map_congr_left fun d hd => (lower_letter (hall d hd)).2).trans
          (map_id _)
      rw [hup]
      exact hseg
    · rw [hseg]
      simp [escapedSegment, String.toLower, NameSegment.text]

lemma isStem_segment (h : NameSegment.Reads segment) : IsStem (escapedSegment segment).toList := by
  obtain ⟨cs, hne, hall, ⟨-, heq⟩ | ⟨-, heq⟩⟩ := escapedSegment_cases h
  · rw [heq]
    exact isStem_legacy hne hall
  · rw [heq]
    exact isStem_initialism hne hall

lemma escapedSegment_inj {a b : NameSegment} (ha : NameSegment.Reads a) (hb : NameSegment.Reads b)
    (h : (escapedSegment a).toList = (escapedSegment b).toList) : a = b := by
  have hno {cs ds : List Char} (hds : ∀ c ∈ ds, isLegacyChar c = true) : '_' :: cs ≠ ds := by
    rintro rfl
    exact legacy_ne (hds '_' mem_cons_self) (by decide) rfl
  obtain ⟨cs, -, hcs, ⟨rfl, hac⟩ | ⟨rfl, hac⟩⟩ := escapedSegment_cases ha <;>
    obtain ⟨ds, -, hds, ⟨rfl, hbd⟩ | ⟨rfl, hbd⟩⟩ := escapedSegment_cases hb <;>
    rw [hac, hbd] at h
  · rw [h]
  · exact absurd h.symm (hno hcs)
  · exact absurd h (hno hds)
  · rw [cons_eq_cons.mp h |>.2]

lemma toList_joined (name : Name) : (joinedSegments name).toList =
    ['-'].intercalate (name.segments.map fun s => (escapedSegment s).toList) := by
  rw [joinedSegments, String.toList_intercalate, map_map]
  rfl

lemma isStem_joined (h : name.IsCanonical) : IsStem (joinedSegments name).toList := by
  rw [toList_joined]
  refine .join (by simpa using h.1) fun part hpart => ?_
  obtain ⟨s, hs, rfl⟩ := mem_map.mp hpart
  exact isStem_segment (h.2 s hs)

lemma splitOn_joined (h : name.IsCanonical) : (joinedSegments name).toList.splitOn '-' =
    name.segments.map fun s => (escapedSegment s).toList := by
  rw [toList_joined]
  refine splitOn_intercalate '-' (fun part hpart hmem => ?_) (by simpa using h.1)
  obtain ⟨s, hs, rfl⟩ := mem_map.mp hpart
  obtain ⟨cs, -, hcs, ⟨-, heq⟩ | ⟨-, heq⟩⟩ := escapedSegment_cases (h.2 s hs) <;> rw [heq] at hmem
  · exact legacy_ne (hcs _ hmem) (by decide) rfl
  · exact legacy_ne (hcs _ (mem_of_ne_of_mem (by decide) hmem)) (by decide) rfl

lemma map_inj_on {α β : Type} {f : α → β} {p : α → Prop}
    (hf : ∀ a b, p a → p b → f a = f b → a = b) {xs ys : List α} (hx : ∀ a ∈ xs, p a)
    (hy : ∀ a ∈ ys, p a) (h : xs.map f = ys.map f) : xs = ys := by
  induction xs generalizing ys with
  | nil => exact (map_eq_nil_iff.mp h.symm).symm
  | cons x xs ih =>
    obtain ⟨y, ys, rfl, hxy, hrest⟩ := map_eq_cons_iff.mp h.symm
    obtain ⟨hpx, hpxs⟩ := forall_mem_cons.mp hx
    obtain ⟨hpy, hpys⟩ := forall_mem_cons.mp hy
    rw [hf x y hpx hpy hxy.symm, ih hpxs hpys hrest.symm]

lemma joinedSegments_inj {a b : Name} (ha : a.IsCanonical) (hb : b.IsCanonical)
    (h : joinedSegments a = joinedSegments b) : a = b := by
  have hparts := congrArg (fun text : String => text.toList.splitOn '-') h
  simp only [splitOn_joined ha, splitOn_joined hb] at hparts
  rw [Name.mk.injEq]
  exact map_inj_on (fun s t => escapedSegment_inj) ha.2 hb.2 hparts

lemma devices_last : ∀ device ∈ devices, device.toList.getLast? ≠ some '_' := by decide +kernel

/-- The escaped name is the joined segments, once the underscore after a device is dropped. -/
theorem withoutLast_escaped (h : name.IsCanonical) :
    withoutLast (escapedName name).toList = (joinedSegments name).toList := by
  have hlast := (isStem_joined h).last
  rw [escapedName]
  split_ifs with hdev
  · rw [withoutLast]
    simp
  · rw [withoutLast, if_neg hlast]

lemma isChain_escaped (h : name.IsCanonical) :
    (escapedName name).toList.IsChain fun a b => a = '_' → b ≠ '_' := by
  have hstem := isStem_joined h
  rw [escapedName]
  split_ifs
  · rw [String.toList_append]
    refine isChain_append.mpr ⟨hstem.single, isChain_singleton _, ?_⟩
    rintro a ha b - rfl
    exact absurd ha hstem.last
  · exact hstem.single

lemma escaped_chars (h : name.IsCanonical) :
    ∀ c ∈ (escapedName name).toList, isLegacyChar c = true ∨ c = '-' ∨ c = '_' := by
  have hstem := isStem_joined h
  rw [escapedName]
  split_ifs
  · intro c hc
    rw [String.toList_append] at hc
    rcases mem_append.mp hc with hc | hc
    · exact hstem.chars c hc
    · exact .inr (.inr (mem_singleton.mp hc))
  · exact hstem.chars

lemma escapedName_inj {a b : Name} (ha : a.IsCanonical) (hb : b.IsCanonical)
    (h : escapedName a = escapedName b) : a = b := by
  have heq := congrArg (fun text : String => withoutLast text.toList) h
  simp only [withoutLast_escaped ha, withoutLast_escaped hb] at heq
  exact joinedSegments_inj ha hb (String.toList_injective heq)

lemma escapedName_unreserved (name : Name) : escapedName name ∉ devices := by
  rw [escapedName]
  split_ifs with hdev
  · intro hmem
    exact devices_last _ hmem (by simp)
  · simpa using hdev

lemma validBase_escaped (h : name.IsCanonical) : validBase (escapedName name).toList = true := by
  rw [validBase, withoutLast_escaped h, splitOn_joined h, all_map, all_eq_true]
  intro s hs
  obtain ⟨cs, hne, hcs, ⟨-, heq⟩ | ⟨-, heq⟩⟩ := escapedSegment_cases (h.2 s hs)
  all_goals rw [Function.comp_apply, heq]
  · have hfirst : withoutFirst cs = cs := by
      obtain ⟨c, rest, rfl⟩ := exists_cons_of_ne_nil hne
      have hc := legacy_ne (hcs c mem_cons_self) (by decide : isLegacyChar '_' = false)
      rw [withoutFirst]
      exact fun _ heq => hc (cons_eq_cons.mp heq).1
    rw [hfirst, all_eq_true.mpr hcs]
    simpa using hne
  · rw [withoutFirst, all_eq_true.mpr hcs]
    simpa using hne

/-- The files of a tree: the module of a package, or a listed entry of it. -/
inductive EntryKind
  | type
  | value
  deriving DecidableEq

def EntryKind.text : EntryKind → String
  | .type => "type"
  | .value => "value"

structure TreeMember where
  dependency : Option Path
  modulePath : Path
  entry : Option (EntryKind × Name)

def packagePrefix (package : Path) : Option Path → String
  | none => "pkg/" ++ escapedPath package
  | some dependency => "deps/" ++ escapedPath dependency ++ "/@"

def memberFile (package : Path) (member : TreeMember) : String :=
  let directory := packagePrefix package member.dependency ++ "/" ++ escapedPath member.modulePath
  match member.entry with
  | none => directory ++ "/module"
  | some (kind, name) => directory ++ "/" ++ escapedName name ++ "." ++ kind.text

def IsCanonicalPath (path : Path) : Prop :=
  path.segments ≠ [] ∧ ∀ name ∈ path.segments, name.IsCanonical

structure TreeMember.IsCanonical (member : TreeMember) : Prop where
  dependency : ∀ path ∈ member.dependency, IsCanonicalPath path
  modulePath : IsCanonicalPath member.modulePath
  entry : ∀ entry ∈ member.entry, entry.2.IsCanonical

def names (path : Path) : List (List Char) :=
  path.segments.map fun name => (escapedName name).toList

def lastPart : Option (EntryKind × Name) → List Char
  | none => "module".toList
  | some (kind, name) => (escapedName name).toList ++ '.' :: kind.text.toList

def prefixParts (package : Path) : Option Path → List (List Char)
  | none => "pkg".toList :: names package
  | some dependency => "deps".toList :: names dependency ++ ["@".toList]

variable {path package : Path} {member : TreeMember}

lemma splitOn_path (h : IsCanonicalPath path) :
    (escapedPath path).toList.splitOn '/' = names path := by
  rw [escapedPath, String.toList_intercalate, map_map]
  refine splitOn_intercalate '/' (fun part hpart hmem => ?_) (by simpa using h.1)
  obtain ⟨name, hname, rfl⟩ := mem_map.mp hpart
  rcases escaped_chars (h.2 name hname) _ hmem with hc | hc | hc <;> cases hc

variable {dependency : Option Path}

lemma splitOn_prefix (hpackage : IsCanonicalPath package)
    (h : ∀ path ∈ dependency, IsCanonicalPath path) :
    (packagePrefix package dependency).toList.splitOn '/' = prefixParts package dependency := by
  cases dependency with
  | none =>
    have htext : (packagePrefix package none).toList =
        "pkg".toList ++ '/' :: (escapedPath package).toList := by
      simp [packagePrefix]
    rw [htext, splitOn_append_cons_self, splitOn_path hpackage]
    rfl
  | some path =>
    have htext : (packagePrefix package (some path)).toList =
        "deps".toList ++ '/' :: ((escapedPath path).toList ++ '/' :: "@".toList) := by
      simp [packagePrefix]
    rw [htext, splitOn_append_cons_self, splitOn_append_cons_self, splitOn_path (h path rfl)]
    rfl

lemma splitOn_file (hpackage : IsCanonicalPath package) (h : member.IsCanonical) :
    (memberFile package member).toList.splitOn '/' =
      prefixParts package member.dependency ++
        (names member.modulePath ++ [lastPart member.entry]) := by
  have htext : (memberFile package member).toList =
      (packagePrefix package member.dependency).toList ++ '/' ::
        ((escapedPath member.modulePath).toList ++ '/' :: lastPart member.entry) := by
    rw [memberFile]
    cases member.entry with
    | none => simp [lastPart]
    | some entry => simp [lastPart]
  have hlast : '/' ∉ lastPart member.entry := by
    cases hentry : member.entry with
    | none => decide
    | some entry =>
      intro hmem
      rcases mem_append.mp hmem with hmem | hmem
      · rcases escaped_chars (h.entry _ hentry) _ hmem with hc | hc | hc <;> cases hc
      · obtain ⟨kind, name⟩ := entry
        cases kind <;> simp [EntryKind.text] at hmem
  rw [htext, splitOn_append_cons_self, splitOn_append_cons_self,
    splitOn_prefix hpackage h.dependency, splitOn_path h.modulePath, splitOn_eq_singleton hlast]

lemma lower_escaped (h : name.IsCanonical) : ∀ c ∈ (escapedName name).toList, c.toLower = c := by
  intro c hc
  rcases escaped_chars h c hc with hc | rfl | rfl
  · exact toLower_legacy hc
  · rfl
  · rfl

lemma lower_names (h : IsCanonicalPath path) : ∀ part ∈ names path, ∀ c ∈ part, c.toLower = c := by
  intro part hpart
  obtain ⟨name, hname, rfl⟩ := mem_map.mp hpart
  exact lower_escaped (h.2 name hname)

lemma lower_literal {text : String} (h : (text.toList.all fun c => c.toLower = c) = true) :
    ∀ c ∈ text.toList, c.toLower = c :=
  fun c hc => of_decide_eq_true (all_eq_true.mp h c hc)

lemma lower_prefix (hpackage : IsCanonicalPath package)
    (h : ∀ path ∈ dependency, IsCanonicalPath path) :
    ∀ part ∈ prefixParts package dependency, ∀ c ∈ part, c.toLower = c := by
  cases dependency with
  | none => exact forall_mem_cons.mpr ⟨lower_literal rfl, lower_names hpackage⟩
  | some path =>
    refine forall_mem_cons.mpr ⟨lower_literal rfl, ?_⟩
    refine forall_mem_append.mpr ⟨lower_names (h path rfl), ?_⟩
    exact forall_mem_singleton.mpr (lower_literal rfl)

lemma lower_last {entry : Option (EntryKind × Name)} (h : ∀ e ∈ entry, e.2.IsCanonical) :
    ∀ c ∈ lastPart entry, c.toLower = c := by
  match entry, h with
  | none, _ => exact lower_literal rfl
  | some (kind, name), h =>
    refine forall_mem_append.mpr ⟨lower_escaped (h _ rfl), ?_⟩
    refine forall_mem_cons.mpr ⟨rfl, ?_⟩
    cases kind <;> exact lower_literal rfl

lemma toLower_file (hpackage : IsCanonicalPath package) (h : member.IsCanonical) :
    (memberFile package member).toLower = memberFile package member := by
  apply String.toList_injective
  rw [String.toLower, String.toList_map]
  refine (map_congr_left fun c hc => ?_).trans (map_id _)
  rcases mem_splitOn '/' hc with rfl | ⟨part, hpart, hmem⟩
  · rfl
  rw [splitOn_file hpackage h, mem_append, mem_append, mem_singleton] at hpart
  rcases hpart with hpart | hpart | rfl
  · exact lower_prefix hpackage h.dependency part hpart c hmem
  · exact lower_names h.modulePath part hpart c hmem
  · exact lower_last h.entry c hmem

lemma names_inj {p q : Path} (hp : IsCanonicalPath p) (hq : IsCanonicalPath q)
    (h : names p = names q) : p = q := by
  rw [Path.mk.injEq]
  exact map_inj_on (fun a b ha hb hab => escapedName_inj ha hb (String.toList_injective hab))
    hp.2 hq.2 h

lemma not_mem_escaped (h : name.IsCanonical) (hc : isLegacyChar c = false) (hhyphen : c ≠ '-')
    (hunderscore : c ≠ '_') : c ∉ (escapedName name).toList := by
  intro hmem
  rcases escaped_chars h c hmem with hlegacy | rfl | rfl
  · exact legacy_ne hlegacy hc rfl
  · exact hhyphen rfl
  · exact hunderscore rfl

lemma lastPart_inj {a b : Option (EntryKind × Name)} (ha : ∀ e ∈ a, e.2.IsCanonical)
    (hb : ∀ e ∈ b, e.2.IsCanonical) (h : lastPart a = lastPart b) : a = b := by
  have hdot {kind : EntryKind} {name : Name} :
      (escapedName name).toList ++ '.' :: kind.text.toList ≠ "module".toList := by
    intro heq
    have hmem : '.' ∈ "module".toList := heq ▸ by simp
    exact absurd hmem (by decide)
  match a, b, ha, hb, h with
  | none, none, _, _, _ => rfl
  | none, some _, _, _, h => exact absurd h.symm hdot
  | some _, none, _, _, h => exact absurd h hdot
  | some (kind, name), some (kind', name'), ha, hb, h =>
    have hno {n : Name} (hn : n.IsCanonical) : '.' ∉ (escapedName n).toList :=
      not_mem_escaped hn (by decide) (by decide) (by decide)
    obtain ⟨hname, hkind⟩ := append_sep_inj (hno (ha _ rfl)) (hno (hb _ rfl)) h
    obtain rfl := escapedName_inj (ha _ rfl) (hb _ rfl) (String.toList_injective hname)
    cases kind <;> cases kind' <;> first | rfl | exact absurd hkind (by decide)

lemma at_not_mem (h : IsCanonicalPath path) : "@".toList ∉ names path := by
  intro hmem
  obtain ⟨name, hname, heq⟩ := mem_map.mp hmem
  refine not_mem_escaped (h.2 name hname) (by decide) (by decide) (by decide) ?_ (c := '@')
  rw [heq]
  decide

lemma memberFile_inj (hpackage : IsCanonicalPath package) {a b : TreeMember} (ha : a.IsCanonical)
    (hb : b.IsCanonical) (h : memberFile package a = memberFile package b) : a = b := by
  have hparts := congrArg (fun text : String => text.toList.splitOn '/') h
  simp only [splitOn_file hpackage ha, splitOn_file hpackage hb] at hparts
  have hrest : a.dependency = b.dependency ∧
      names a.modulePath ++ [lastPart a.entry] = names b.modulePath ++ [lastPart b.entry] := by
    cases hda : a.dependency with
    | none =>
      cases hdb : b.dependency with
      | none =>
        rw [hda, hdb] at hparts
        exact ⟨rfl, append_cancel_left hparts⟩
      | some path =>
        rw [hda, hdb] at hparts
        exact absurd (cons_eq_cons.mp hparts).1 (by decide)
    | some path =>
      cases hdb : b.dependency with
      | none =>
        rw [hda, hdb] at hparts
        exact absurd (cons_eq_cons.mp hparts).1 (by decide)
      | some path' =>
        have hpath := ha.dependency path hda
        have hpath' := hb.dependency path' hdb
        simp only [hda, hdb, prefixParts, cons_append, append_assoc] at hparts
        obtain ⟨hnames, htail⟩ :=
          append_sep_inj (at_not_mem hpath) (at_not_mem hpath') (cons_eq_cons.mp hparts).2
        exact ⟨congrArg some (names_inj hpath hpath' hnames), htail⟩
  obtain ⟨hmodule, hlast⟩ := append_inj' hrest.2 rfl
  have hentry := lastPart_inj ha.entry hb.entry (cons_eq_cons.mp hlast).1
  have hpath := names_inj ha.modulePath hb.modulePath hmodule
  cases a
  simp_all

/-- What the file names of a tree are for. -/
structure Laws : Prop where
  injective : ∀ a b : Name, a.IsCanonical → b.IsCanonical →
    (escapedName a).toLower = (escapedName b).toLower → a = b
  unreserved : ∀ name : Name, name.IsCanonical → (escapedName name).toLower ∉ devices
  accepted : ∀ name : Name, name.IsCanonical → (codeUnits (escapedName name)).length ≤ 4096 →
    validStem (escapedName name) = true ∧
      splitDouble (escapedName name).toList = [(escapedName name).toList]
  files : ∀ package : Path, IsCanonicalPath package → ∀ a b : TreeMember, a.IsCanonical →
    b.IsCanonical → (memberFile package a).toLower = (memberFile package b).toLower → a = b

lemma toLower_escaped (h : name.IsCanonical) : (escapedName name).toLower = escapedName name := by
  apply String.toList_injective
  rw [String.toLower, String.toList_map]
  exact (map_congr_left (lower_escaped h)).trans (map_id _)

theorem escapedName_laws : Laws := by
  refine ⟨fun a b ha hb h => ?_, fun name h => ?_, fun name h hlen => ?_,
    fun package hpackage a b ha hb h => ?_⟩
  · rw [toLower_escaped ha, toLower_escaped hb] at h
    exact escapedName_inj ha hb h
  · rw [toLower_escaped h]
    exact escapedName_unreserved name
  · have hsplit := splitDouble_single (isChain_escaped h)
    have hne : (escapedName name).isEmpty = false := by
      rw [← not_eq_true, String.isEmpty_iff]
      intro hempty
      have hstem := withoutLast_escaped h
      rw [hempty] at hstem
      exact (isStem_joined h).nonempty hstem.symm
    refine ⟨?_, hsplit⟩
    rw [validStem, hne, if_neg (by simpa using hlen), hsplit]
    exact validBase_escaped h
  · rw [toLower_file hpackage ha, toLower_file hpackage hb] at h
    exact memberFile_inj hpackage ha hb h

end Morphir.TreeNames
