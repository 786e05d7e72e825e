import Morphir.IR.Values
import Morphir.Library.Fallible
import Morphir.Library.FreshSearch

/-!
# Identifiers of the MoonBit target

A name of the IR is rendered in words, as an identifier of the target, or in the
legacy style as the hex digits of its canonical spelling.
-/

namespace Morphir.Moonbit

open Fallible List String

inductive Invalid
  | invalid (code owner message : String)
  deriving DecidableEq

def hexDigits : List Char :=
  ['0', '1', '2', '3', '4', '5', '6', '7', '8', '9', 'a', 'b', 'c', 'd', 'e', 'f']

def hexByte (byte : UInt8) : List Char :=
  [hexDigits.getD (byte.toNat / 16) '0', hexDigits.getD (byte.toNat % 16) '0']

def hexChars (text : String) : List Char := text.toByteArray.data.toList.flatMap hexByte

def hex (text : String) : String := String.ofList (hexChars text)

def validateName (name : Name) : Except Invalid Unit :=
  match Name.parse name.toCanonical with
  | .ok name' =>
    refuse (name' ≠ name) (.invalid "moonbit.invalid_name" name.toCanonical
      "Name segments do not round-trip through canonical spelling")
  | .error _ => .error (.invalid "moonbit.invalid_name" name.toCanonical "Invalid canonical name")

def validatePath (path : Path) : Except Invalid Unit := do
  refuse (path.segments = []) (.invalid "moonbit.invalid_name" "" "Empty path")
  path.segments.forM validateName

def valueName (name : FQName) : Except Invalid String := do
  validatePath name.packageName
  validatePath name.moduleName
  validateName name.localName
  pure ("v_" ++ hex name.toCanonical)

def valueNode (name : FQName) : String := "value:" ++ name.toCanonical

def keywords : List String :=
  ["as", "else", "extern", "fn", "if", "let", "const", "match", "using", "mut",
    "type", "struct", "enum", "extenum", "trait", "derive", "while", "break", "continue",
    "import", "return", "throw", "raise", "try", "catch", "pub", "priv", "readonly",
    "true", "false", "_", "test", "loop", "for", "in", "impl", "with", "guard", "async",
    "is", "suberror", "and", "letrec", "enumview", "noraise", "nocancel", "defer",
    "lexmatch", "lexscan", "where", "declare", "nobreak", "proof_assert", "proof_let",
    "main", "init", "module", "move", "ref", "static", "super", "unsafe", "use",
    "await", "dyn", "abstract", "do", "final", "macro", "override", "typeof", "virtual",
    "yield", "local", "method", "alias", "assert", "package", "recur", "isnot", "define",
    "downcast", "inherit", "member", "namespace", "upcast", "void", "lazy", "include",
    "mixin", "protected", "sealed", "constructor", "atomic", "volatile", "anyframe",
    "anytype", "asm", "comptime", "errdefer", "export", "opaque", "orelse", "resume",
    "threadlocal", "unreachable", "dynclass", "dynobj", "dynrec", "var", "finally",
    "noasync", "assume", "extend"]

def keyword (text : String) : Bool := keywords.contains text

def isLower (c : Char) : Bool := decide ('a' ≤ c ∧ c ≤ 'z')

def isUpper (c : Char) : Bool := decide ('A' ≤ c ∧ c ≤ 'Z')

def isDigit (c : Char) : Bool := decide ('0' ≤ c ∧ c ≤ '9')

def isIdentifier (c : Char) : Bool := isLower c || isUpper c || isDigit c || c == '_'

def startsIdentifier (upper : Bool) (c : Char) : Bool :=
  if upper then isUpper c else isLower c || c == '_'

def usableIdentifier (text : String) (upper : Bool) : Bool :=
  match text.toList with
  | [] => false
  | c :: cs => startsIdentifier upper c && text != "_" && (c :: cs).all isIdentifier

def capitalized : List Char → List Char
  | [] => []
  | c :: cs => c.toUpper :: cs

def renderName (name : Name) (upper : Bool) : String :=
  let parts := name.toCanonical.toList.splitOn '-'
  let text :=
    if upper then String.ofList (parts.flatMap capitalized)
    else String.ofList (['_'].intercalate parts)
  if usableIdentifier text upper then text
  else (if upper then "Type_" else "value_") ++ text

def localName (name : Name) : Except Invalid String := do
  validateName name
  pure ("x_" ++ hex name.toCanonical)

structure Portable (upper : Bool) (text : String) : Prop where
  usable : usableIdentifier text upper = true
  noKeyword : keyword text = false

variable {text : String} {upper : Bool}

lemma usableIdentifier_iff :
    usableIdentifier text upper = true ↔
      (∃ c cs, text.toList = c :: cs ∧ startsIdentifier upper c = true) ∧ text ≠ "_" ∧
        ∀ c ∈ text.toList, isIdentifier c = true := by
  unfold usableIdentifier
  split
  · rename_i hnil
    simp [hnil]
  · rename_i c cs hc
    simp [hc, and_assoc]

lemma usableIdentifier_append {more : String} (h : usableIdentifier text upper = true)
    (hm : ∀ c ∈ more.toList, isIdentifier c = true) :
    usableIdentifier (text ++ more) upper = true := by
  obtain ⟨⟨c, cs, ht, hsta⟩, hne, hall⟩ := usableIdentifier_iff.mp h
  refine usableIdentifier_iff.mpr ⟨⟨c, cs ++ more.toList, by simp [ht], hsta⟩, ?_, ?_⟩
  · intro hsm
    have hli := congrArg String.toList hsm
    rw [toList_append, ht, show "_".toList = ['_'] from rfl] at hli
    simp only [cons_append, List.cons.injEq, append_eq_nil_iff] at hli
    refine hne (toList_inj.mp ?_)
    rw [ht, hli.1, hli.2.1]
    rfl
  · intro c hc
    rw [toList_append] at hc
    rcases mem_append.mp hc with hc | hc
    · exact hall c hc
    · exact hm c hc

lemma keyword_eq_false (h : ∀ word ∈ keywords, text ≠ word) : keyword text = false := by
  simp only [keyword, contains_eq_mem, decide_eq_false_iff_not]
  exact fun hmem => h text hmem rfl

variable {c : Char}

lemma keyword_of_underscore {front back : List Char} (h : text.toList = c :: (front ++ '_' :: back))
    (hasse : text ≠ "proof_assert") (hlet : text ≠ "proof_let") : keyword text = false := by
  refine keyword_eq_false fun word hw heq => ?_
  have hchk : ∀ word ∈ keywords, word = "proof_assert" ∨ word = "proof_let" ∨
      ¬ '_' ∈ word.toList.drop 1 := by decide +kernel
  rcases hchk word hw with rfl | rfl | hno
  · exact hasse heq
  · exact hlet heq
  · apply hno
    rw [← heq, h]
    simp

lemma portable_append {base more : String} (hba : usableIdentifier base upper = true)
    {back : List Char} (hm : more.toList = '_' :: back) (hbk : ∀ c ∈ back, isIdentifier c = true)
    (hasse : base ++ more ≠ "proof_assert") (hlet : base ++ more ≠ "proof_let") :
    Portable upper (base ++ more) := by
  obtain ⟨⟨c, cs, ht, -⟩, -⟩ := usableIdentifier_iff.mp hba
  refine ⟨usableIdentifier_append hba fun c hc => ?_, ?_⟩
  · rw [hm] at hc
    rcases mem_cons.mp hc with rfl | hc
    · decide
    · exact hbk c hc
  · have hli : (base ++ more).toList = c :: (cs ++ '_' :: back) := by
      rw [toList_append, ht, hm]
      rfl
    exact keyword_of_underscore hli hasse hlet

def ValidName (name : Name) : Prop := Name.parse name.toCanonical = .ok name

variable {name : Name}

lemma validName_of_validate (h : validateName name = .ok ()) : ValidName name := by
  unfold validateName at h
  split at h
  · rename_i name' hprs
    rw [ValidName, hprs, not_not.mp (refuse_ok h)]
  · cases h

structure ValidPath (path : Path) : Prop where
  nonempty : path.segments ≠ []
  names : ∀ name ∈ path.segments, ValidName name

variable {path : Path}

lemma validPath_of_validate (h : validatePath path = .ok ()) : ValidPath path := by
  obtain ⟨_, hnon, hns⟩ := bind_ok h
  exact ⟨refuse_ok hnon, fun name hname => validName_of_validate (forM_ok hns name hname)⟩

structure ValidFQName (name : FQName) : Prop where
  packageName : ValidPath name.packageName
  moduleName : ValidPath name.moduleName
  localName : ValidName name.localName

lemma validFQName_of_valueName {name : FQName} (h : valueName name = .ok text) :
    ValidFQName name ∧ text = "v_" ++ hex name.toCanonical := by
  obtain ⟨_, hpkg, h⟩ := bind_ok h
  obtain ⟨_, hmod, h⟩ := bind_ok h
  obtain ⟨_, hlo, h⟩ := bind_ok h
  exact ⟨⟨validPath_of_validate hpkg, validPath_of_validate hmod,
    validName_of_validate hlo⟩, (Except.ok.inj h).symm⟩

lemma ValidName.chars (h : ValidName name) :
    ∀ c ∈ name.toCanonical.toList, IsNameChar c ∨ c = '-' := by
  intro c hc
  simpa using (Name.parse_spelling h).chars c hc

lemma ValidName.notMem (h : ValidName name) (hc : ¬ IsNameChar c) (hne : c ≠ '-') :
    c ∉ name.toCanonical.toList :=
  fun hmem => (h.chars c hmem).elim hc hne

lemma ValidName.eq_of_canonical {name' : Name} (h : ValidName name) (h' : ValidName name')
    (heq : name.toCanonical = name'.toCanonical) : name = name' := by
  unfold ValidName at h h'
  rw [heq, h'] at h
  exact (Except.ok.inj h).symm

lemma Path.toCanonical_toList (path : Path) :
    path.toCanonical.toList =
      ['/'].intercalate (path.segments.map fun name => name.toCanonical.toList) := by
  simp [Path.toCanonical, Function.comp_def]

lemma eq_of_map_canonical {names names' : List Name} (h : ∀ name ∈ names, ValidName name)
    (h' : ∀ name ∈ names', ValidName name)
    (heq : names.map (fun name => name.toCanonical.toList) =
      names'.map fun name => name.toCanonical.toList) : names = names' := by
  induction names generalizing names' with
  | nil =>
    cases names' with
    | nil => rfl
    | cons => cases heq
  | cons name names ih =>
    cases names' with
    | nil => cases heq
    | cons name' names' =>
      rw [map_cons, map_cons, List.cons.injEq] at heq
      rw [(h name mem_cons_self).eq_of_canonical (h' name' mem_cons_self)
          (toList_inj.mp heq.1),
        ih (fun n hn => h n (mem_cons_of_mem _ hn))
          (fun n hn => h' n (mem_cons_of_mem _ hn)) heq.2]

lemma ValidPath.splitOn (h : ValidPath path) :
    path.toCanonical.toList.splitOn '/' = path.segments.map fun name => name.toCanonical.toList := by
  rw [Path.toCanonical_toList]
  refine splitOn_intercalate '/' (fun l hl => ?_) (by simpa using h.nonempty)
  obtain ⟨name, hname, rfl⟩ := mem_map.mp hl
  exact (h.names name hname).notMem (by unfold IsNameChar; decide) (by decide)

lemma ValidPath.notMem (h : ValidPath path) (hc : ¬ IsNameChar c) (hne : c ≠ '-') (hne' : c ≠ '/')
    : c ∉ path.toCanonical.toList := by
  intro hmem
  rcases mem_splitOn '/' hmem with rfl | ⟨part, hpa, hcp⟩
  · exact hne' rfl
  · rw [h.splitOn] at hpa
    obtain ⟨name, hname, rfl⟩ := mem_map.mp hpa
    exact (h.names name hname).notMem hc hne hcp

lemma ValidPath.eq_of_canonical {path' : Path} (h : ValidPath path) (h' : ValidPath path')
    (heq : path.toCanonical = path'.toCanonical) : path = path' := by
  have hlists : path.segments.map (fun name => name.toCanonical.toList) =
      path'.segments.map fun name => name.toCanonical.toList := by
    rw [← h.splitOn, ← h'.splitOn, heq]
  exact congrArg Path.mk (eq_of_map_canonical h.names h'.names hlists)

lemma ValidFQName.eq_of_canonical {name name' : FQName} (h : ValidFQName name)
    (h' : ValidFQName name') (heq : name.toCanonical = name'.toCanonical) : name = name' := by
  have ht (name : FQName) : name.toCanonical.toList = name.packageName.toCanonical.toList ++
      ':' :: (name.moduleName.toCanonical.toList ++ '#' :: name.localName.toCanonical.toList) := by
    simp [FQName.toCanonical]
  have hli := congrArg String.toList heq
  have hp {path : Path} (h : ValidPath path) {c : Char} (hc : c = ':' ∨ c = '#') :
      c ∉ path.toCanonical.toList := by
    rcases hc with rfl | rfl
    · exact h.notMem (by unfold IsNameChar; decide) (by decide) (by decide)
    · exact h.notMem (by unfold IsNameChar; decide) (by decide) (by decide)
  have hname {name : Name} (h : ValidName name) {c : Char} (hc : c = ':' ∨ c = '#') :
      c ∉ name.toCanonical.toList := by
    rcases hc with rfl | rfl
    · exact h.notMem (by unfold IsNameChar; decide) (by decide)
    · exact h.notMem (by unfold IsNameChar; decide) (by decide)
  have hr : ':' ∉ name.moduleName.toCanonical.toList ++ '#' :: name.localName.toCanonical.toList
      := by
    simp [hp h.moduleName (.inl rfl), hname h.localName (.inl rfl)]
  rw [ht, ht, append_cons_inj_of_notMem (hp h.packageName (.inl rfl)) hr] at hli
  obtain ⟨hpkg, -, hr⟩ := hli
  rw [append_cons_inj_of_notMem (hp h.moduleName (.inr rfl)) (hname h.localName (.inr rfl))] at hr
  obtain ⟨packageName, moduleName, localName⟩ := name
  obtain ⟨packageName', moduleName', localName'⟩ := name'
  simp only [FQName.mk.injEq]
  exact ⟨h.packageName.eq_of_canonical h'.packageName (toList_inj.mp hpkg),
    h.moduleName.eq_of_canonical h'.moduleName (toList_inj.mp hr.1),
    h.localName.eq_of_canonical h'.localName (toList_inj.mp hr.2.2)⟩

end Morphir.Moonbit

/-!
## The allocation of target names

`allocateNamespace` gives every candidate of a namespace a name: the requested
names first, then the others in the order of their owners.  A candidate whose
spelling is wanted twice or blocked takes its qualified spelling, and a spelling
that is taken gets a suffix of the owner's digits and at last a number.  The
searches for a free name are bounded by fuel; without fuel there is no result.
-/

namespace Morphir.Moonbit

open FreshSearch

inductive NamingStyle
  | readable
  | legacyHex
  deriving DecidableEq

structure Span where
  startLine : Int
  startColumn : Int
  endLine : Int
  endColumn : Int
  deriving DecidableEq

structure Location where
  owner : String
  original : String
  allocated : String
  source : Option Span
  deriving DecidableEq

structure Warning where
  code : String
  stage : String
  message : String
  locations : List Location
  fix : String
  deriving DecidableEq

structure NamingAllocation where
  owner : String
  role : String
  original : Option String
  requested : Option String
  candidate : String
  allocated : String
  reason : String
  deriving DecidableEq

structure NamingCandidate where
  owner : String
  role : String
  original : Option String
  requested : Option String
  candidate : String
  qualified : String
  source : Option Span
  reason : String
  deriving DecidableEq

structure TargetNames where
  style : NamingStyle
  names : String → Option String
  fields : String → Option (Name → Option String)
  reserved : Finset String
  reservedLocations : String → List Location
  allocations : List NamingAllocation
  warnings : List Warning

def TargetNames.empty (style : NamingStyle) : TargetNames :=
  ⟨style, fun _ => none, fun _ => none, ∅, fun _ => [], [], []⟩

def candidate (owner role : String) (name : Name) (moduleName : Path) (original : Option String)
    (source : Option Span) (upper : Bool) (requested : Option String) : NamingCandidate :=
  let hint := original.filter fun text => usableIdentifier text upper
  let base := hint.getD (renderName name upper)
  let reason :=
    if keyword base then "keyword"
    else if original.any fun text => !usableIdentifier text upper then "invalid-source-hint"
    else "automatic"
  let base := if keyword base then base ++ "_value" else base
  let qualifier := String.intercalate "_" (moduleName.segments.map fun n => renderName n upper)
  { owner, role, original, requested, source, candidate := base
    qualified := qualifier ++ "_" ++ base, reason }

abbrev Suffix := Nat × Nat

def spellSuffix (base : String) (token : List Char) (suffix : Suffix) : String :=
  base ++ "_source_" ++ String.ofList (token.take (suffix.1 * 2)) ++
    (if suffix.2 = 0 then "" else "_" ++ toString suffix.2)

def nextSuffix (token : List Char) (suffix : Suffix) : Suffix :=
  if suffix.1 * 2 < token.length then (suffix.1 + 1, suffix.2) else (suffix.1, suffix.2 + 1)

def firstSuffix (token : List Char) : Suffix :=
  (if token.length < 8 then token.length / 2 else 4, 0)

def sortByOwner (candidates : List NamingCandidate) : List NamingCandidate :=
  candidates.insertionSort fun a b => (compareText a.owner b.owner).isLE = true

def sortLocations (locations : List Location) : List Location :=
  locations.insertionSort fun a b => (compareText a.owner b.owner).isLE = true

namespace TargetNames

def record (plan : TargetNames) (reserveGlobal : Bool) (c : NamingCandidate)
    (allocated reason : String) : TargetNames :=
  { plan with
    names := Function.update plan.names c.owner (some allocated)
    reserved := if reserveGlobal then insert allocated plan.reserved else plan.reserved
    reservedLocations :=
      if reserveGlobal then
        Function.update plan.reservedLocations allocated (plan.reservedLocations allocated ++
          [⟨c.owner, c.original.getD c.candidate, allocated, c.source⟩])
      else plan.reservedLocations
    allocations := plan.allocations ++
      [⟨c.owner, c.role, c.original, c.requested, c.candidate, allocated, reason⟩] }

end TargetNames

/-- What the loop over a namespace reads: the sorted candidates without a request
and the blocked names. -/
structure Namespace where
  candidates : List NamingCandidate
  blocked : Finset String

namespace Namespace

variable (scope : Namespace)

def group (text : String) : List NamingCandidate :=
  scope.candidates.filter fun c => c.candidate = text

def collision (c : NamingCandidate) : Bool :=
  decide (1 < (scope.group c.candidate).length) || decide (c.candidate ∈ scope.blocked)

/-- All blocked spellings and those of the candidates.  Qualified spellings are
reserved too, so recovery cannot take the spelling of a later owner. -/
def reserved : Finset String :=
  scope.blocked ∪ (scope.candidates.map NamingCandidate.candidate).toFinset ∪
    ((scope.candidates.filter fun c => scope.collision c).map NamingCandidate.qualified).toFinset

def wanted (c : NamingCandidate) : String := if scope.collision c then c.qualified else c.candidate

def choose (fuel : Nat) (used : Finset String) (c : NamingCandidate) : Option String :=
  let allocated := scope.wanted c
  if allocated ∈ used ∨ (scope.collision c = true ∧ scope.group allocated ≠ []) then
    let token := hexChars c.owner
    search (spellSuffix allocated token) (nextSuffix token)
      (fun text => decide (text ∈ scope.reserved ∨ text ∈ used)) fuel (firstSuffix token)
  else some allocated

def allocate (fuel : Nat) (reserveGlobal : Bool) :
    List NamingCandidate → Finset String → TargetNames → Option TargetNames
  | [], _, plan => some plan
  | c :: cs, used, plan => do
    let allocated ← scope.choose fuel used c
    let reason := if scope.collision c then "namespace-collision" else c.reason
    allocate fuel reserveGlobal cs (insert allocated used)
      (plan.record reserveGlobal c allocated reason)

def warning (plan : TargetNames) (c : NamingCandidate) : Warning :=
  let collision := scope.collision c
  let allocated (owner : String) := (plan.names owner).getD ""
  let related := if collision then scope.group c.candidate else [c]
  let locations := related.map fun r =>
    Location.mk r.owner (r.original.getD r.candidate) (allocated r.owner) r.source
  let locations :=
    if c.candidate ∈ scope.blocked then locations ++ plan.reservedLocations c.candidate
    else locations
  { code := "moonbit_backend.name_" ++ (if collision then "collision" else "recovery")
    stage := "backend"
    message := "Allocated a portable MoonBit " ++ c.role ++ " name" ++
      (if collision then " after a namespace collision" else " after " ++ c.reason)
    locations := sortLocations locations
    fix := "Rename " ++ c.owner ++ " to a distinct non-keyword spelling such as '" ++
      allocated c.owner ++ "'. Consult symbols.10n for the final allocation." }

/-- Warns once for each spelling that collides and each owner whose name was
recovered. -/
def warn : List NamingCandidate → List String → TargetNames → TargetNames
  | [], _, plan => plan
  | c :: cs, emitted, plan =>
    let collision := scope.collision c
    let key := if collision then c.candidate else c.owner
    if (collision = true ∨ (c.reason ≠ "automatic" ∧ c.reason ≠ "legacy")) ∧ key ∉ emitted then
      warn cs (key :: emitted) { plan with warnings := plan.warnings ++ [scope.warning plan c] }
    else warn cs emitted plan

end Namespace

def honour (reserveGlobal : Bool) (plan : TargetNames) (c : NamingCandidate) : TargetNames :=
  match c.requested with
  | some name => plan.record reserveGlobal c name "explicit-request"
  | none => plan

/-- The candidates without a request and all that is blocked for them. -/
def namespaceOf (candidates : List NamingCandidate) (blocked : Finset String) : Namespace :=
  ⟨sortByOwner (candidates.filter fun c => c.requested.isNone),
    blocked ∪ (candidates.filterMap NamingCandidate.requested).toFinset⟩

def allocateNamespace (fuel : Nat) (plan : TargetNames) (candidates : List NamingCandidate)
    (blocked : Finset String) (reserveGlobal : Bool) : Option TargetNames := do
  let scope := namespaceOf candidates blocked
  let plan := candidates.foldl (honour reserveGlobal) plan
  let plan ← scope.allocate fuel reserveGlobal scope.candidates scope.blocked plan
  pure (scope.warn scope.candidates [] plan)

end Morphir.Moonbit
