import Morphir.IR.Distributions
import Morphir.Library.Tarjan
import Morphir.Typing.Env

/-!
# The references of a value

The driver collects the names that the body of a definition refers to.  A name is
collected exactly when a reference to it occurs somewhere in the body.
-/

namespace Morphir.Typing

open IR List Value

def definitionBody (definition : ValueDefinition) : Option Value := (definitionParts definition).2.2

/-- The values directly inside a value, including the bodies of its let definitions. -/
def valueChildren : Value → List Value
  | .tuple _ items | .list _ items => items
  | .record _ fields => fields.map Prod.snd
  | .updateRecord _ subject fields => subject :: fields.map Prod.snd
  | .field _ subject _ => [subject]
  | .apply _ f a => [f, a]
  | .lambda _ _ body => [body]
  | .letDefinition _ _ definition rest => (definitionBody definition).toList ++ [rest]
  | .letRecursion _ definitions rest =>
    definitions.filterMap (fun e => definitionBody e.2) ++ [rest]
  | .destructure _ _ value rest => [value, rest]
  | .ifThenElse _ c t e => [c, t, e]
  | .patternMatch _ subject cases => subject :: cases.map Prod.snd
  | .literal _ _ | .constructor _ _ | .variable _ _ | .reference _ _ | .fieldFunction _ _
  | .unit _ | .hole _ _ _ => []

lemma sizeOf_snd_lt {α β : Type} [SizeOf α] [SizeOf β] {entries : List (α × β)} {b : β}
    (h : b ∈ entries.map Prod.snd) : sizeOf b < sizeOf entries := by
  obtain ⟨⟨a, b⟩, he, rfl⟩ := mem_map.mp h
  have hent := sizeOf_lt_of_mem he
  rw [Prod.mk.sizeOf_spec] at hent
  change sizeOf b < sizeOf entries
  omega

lemma sizeOf_definitionBody {definition : ValueDefinition} {body : Value}
    (h : definitionBody definition = some body) : sizeOf body < sizeOf definition := by
  cases definition with
  | expressionBody inputs output body' =>
    cases h
    rw [ValueDefinition.expressionBody.sizeOf_spec]
    omega
  | nativeBody inputs output info => cases h
  | externalBody inputs output bindings fallback =>
    obtain rfl : fallback = some body := h
    rw [ValueDefinition.externalBody.sizeOf_spec, Option.some.sizeOf_spec]
    omega
  | incompleteBody inputs output incompleteness sketch => cases h

variable {v : Value}

lemma sizeOf_child {child : Value} (h : child ∈ valueChildren v) : sizeOf child < sizeOf v := by
  cases v with
  | tuple attrs items =>
    have : sizeOf child < sizeOf items := sizeOf_lt_of_mem h
    rw [tuple.sizeOf_spec]
    omega
  | list attrs items =>
    have : sizeOf child < sizeOf items := sizeOf_lt_of_mem h
    rw [list.sizeOf_spec]
    omega
  | record attrs fields =>
    have := sizeOf_snd_lt h
    rw [record.sizeOf_spec]
    omega
  | updateRecord attrs subject fields =>
    rw [updateRecord.sizeOf_spec]
    rcases mem_cons.mp h with rfl | h
    · omega
    · have := sizeOf_snd_lt h
      omega
  | letDefinition attrs name definition rest =>
    rw [letDefinition.sizeOf_spec]
    rcases mem_append.mp h with h | h
    · have := sizeOf_definitionBody (Option.mem_toList.mp h)
      omega
    · rw [mem_singleton.mp h]
      omega
  | letRecursion attrs definitions rest =>
    rw [letRecursion.sizeOf_spec]
    rcases mem_append.mp h with h | h
    · obtain ⟨e, he, hbo⟩ := mem_filterMap.mp h
      have := sizeOf_definitionBody hbo
      have := sizeOf_snd_lt (mem_map_of_mem he)
      omega
    · rw [mem_singleton.mp h]
      omega
  | patternMatch attrs subject cases =>
    rw [patternMatch.sizeOf_spec]
    rcases mem_cons.mp h with rfl | h
    · omega
    · have := sizeOf_snd_lt h
      omega
  | field attrs subject name =>
    rw [mem_singleton.mp h, field.sizeOf_spec]
    omega
  | lambda attrs pattern body =>
    rw [mem_singleton.mp h, lambda.sizeOf_spec]
    omega
  | apply attrs f a =>
    rw [apply.sizeOf_spec]
    simp only [valueChildren, mem_cons, not_mem_nil, or_false] at h
    rcases h with rfl | rfl <;> omega
  | destructure attrs pattern value rest =>
    rw [destructure.sizeOf_spec]
    simp only [valueChildren, mem_cons, not_mem_nil, or_false] at h
    rcases h with rfl | rfl <;> omega
  | ifThenElse attrs c t e =>
    rw [ifThenElse.sizeOf_spec]
    simp only [valueChildren, mem_cons, not_mem_nil, or_false] at h
    rcases h with rfl | rfl | rfl <;> omega
  | literal | constructor | «variable» | reference | fieldFunction | unit | hole => cases h

def ownReference : Value → List String
  | .reference _ name => [name.toCanonical]
  | _ => []

def referencesIn (v : Value) (out : List String) : List String :=
  (valueChildren v).attach.foldl (fun out child => referencesIn child.1 out)
    (out ++ ownReference v)
termination_by sizeOf v
decreasing_by exact sizeOf_child child.2

inductive Mentions (name : FQName) : Value → Prop
  | reference (attrs) : Mentions name (.reference attrs name)
  | tuple {attrs items item} : item ∈ items → Mentions name item →
      Mentions name (.tuple attrs items)
  | list {attrs items item} : item ∈ items → Mentions name item → Mentions name (.list attrs items)
  | record {attrs fields label value} : (label, value) ∈ fields → Mentions name value →
      Mentions name (.record attrs fields)
  | updated {attrs subject fields} : Mentions name subject →
      Mentions name (.updateRecord attrs subject fields)
  | updating {attrs subject fields label value} : (label, value) ∈ fields → Mentions name value →
      Mentions name (.updateRecord attrs subject fields)
  | field {attrs subject label} : Mentions name subject → Mentions name (.field attrs subject label)
  | function {attrs f a} : Mentions name f → Mentions name (.apply attrs f a)
  | argument {attrs f a} : Mentions name a → Mentions name (.apply attrs f a)
  | lambda {attrs pattern body} : Mentions name body → Mentions name (.lambda attrs pattern body)
  | letBody {attrs label definition rest body} : definitionBody definition = some body →
      Mentions name body → Mentions name (.letDefinition attrs label definition rest)
  | letRest {attrs label definition rest} : Mentions name rest →
      Mentions name (.letDefinition attrs label definition rest)
  | recursionBody {attrs definitions rest label definition body} :
      (label, definition) ∈ definitions → definitionBody definition = some body →
      Mentions name body → Mentions name (.letRecursion attrs definitions rest)
  | recursionRest {attrs definitions rest} : Mentions name rest →
      Mentions name (.letRecursion attrs definitions rest)
  | destructured {attrs pattern value rest} : Mentions name value →
      Mentions name (.destructure attrs pattern value rest)
  | destructureRest {attrs pattern value rest} : Mentions name rest →
      Mentions name (.destructure attrs pattern value rest)
  | condition {attrs c t e} : Mentions name c → Mentions name (.ifThenElse attrs c t e)
  | yes {attrs c t e} : Mentions name t → Mentions name (.ifThenElse attrs c t e)
  | no {attrs c t e} : Mentions name e → Mentions name (.ifThenElse attrs c t e)
  | matched {attrs subject cases} : Mentions name subject →
      Mentions name (.patternMatch attrs subject cases)
  | branch {attrs subject cases pattern value} : (pattern, value) ∈ cases → Mentions name value →
      Mentions name (.patternMatch attrs subject cases)

lemma mentions_iff {name : FQName} :
    Mentions name v ↔
      (∃ attrs, v = .reference attrs name) ∨ ∃ child ∈ valueChildren v, Mentions name child := by
  constructor
  · intro h
    cases h with
    | reference attrs => exact Or.inl ⟨attrs, rfl⟩
    | tuple hmem h | list hmem h => exact Or.inr ⟨_, hmem, h⟩
    | record hmem h => exact Or.inr ⟨_, mem_map_of_mem hmem, h⟩
    | updated h | matched h => exact Or.inr ⟨_, mem_cons_self, h⟩
    | updating hmem h | branch hmem h =>
      exact Or.inr ⟨_, mem_cons_of_mem _ (mem_map_of_mem hmem), h⟩
    | field h | lambda h | function h | destructured h | condition h =>
      exact Or.inr ⟨_, mem_cons_self, h⟩
    | argument h | destructureRest h | yes h => exact Or.inr ⟨_, mem_cons_of_mem _ mem_cons_self, h⟩
    | no h => exact Or.inr ⟨_, mem_cons_of_mem _ (mem_cons_of_mem _ mem_cons_self), h⟩
    | letBody hbo h => exact Or.inr ⟨_, mem_append_left _ (Option.mem_toList.mpr hbo), h⟩
    | letRest h | recursionRest h => exact Or.inr ⟨_, mem_append_right _ mem_cons_self, h⟩
    | recursionBody hmem hbo h =>
      exact Or.inr ⟨_, mem_append_left _ (mem_filterMap.mpr ⟨_, hmem, hbo⟩), h⟩
  · rintro (⟨attrs, rfl⟩ | ⟨child, hch, h⟩)
    · exact .reference attrs
    · cases v with
      | tuple attrs items => exact .tuple hch h
      | list attrs items => exact .list hch h
      | record attrs fields =>
        obtain ⟨⟨label, value⟩, hmem, rfl⟩ := mem_map.mp hch
        exact .record hmem h
      | updateRecord attrs subject fields =>
        rcases mem_cons.mp hch with rfl | hch
        · exact .updated h
        · obtain ⟨⟨label, value⟩, hmem, rfl⟩ := mem_map.mp hch
          exact .updating hmem h
      | field attrs subject label =>
        obtain rfl := mem_singleton.mp hch
        exact .field h
      | apply attrs f a =>
        rcases mem_pair.mp hch with rfl | rfl
        · exact .function h
        · exact .argument h
      | lambda attrs pattern body =>
        obtain rfl := mem_singleton.mp hch
        exact .lambda h
      | letDefinition attrs label definition rest =>
        rcases mem_append.mp hch with hch | hch
        · exact .letBody (Option.mem_toList.mp hch) h
        · obtain rfl := mem_singleton.mp hch
          exact .letRest h
      | letRecursion attrs definitions rest =>
        rcases mem_append.mp hch with hch | hch
        · obtain ⟨⟨label, definition⟩, hmem, hbo⟩ := mem_filterMap.mp hch
          exact .recursionBody hmem hbo h
        · obtain rfl := mem_singleton.mp hch
          exact .recursionRest h
      | destructure attrs pattern value rest =>
        rcases mem_pair.mp hch with rfl | rfl
        · exact .destructured h
        · exact .destructureRest h
      | ifThenElse attrs c t e =>
        rcases mem_cons.mp hch with rfl | hch
        · exact .condition h
        · rcases mem_pair.mp hch with rfl | rfl
          · exact .yes h
          · exact .no h
      | patternMatch attrs subject cases =>
        rcases mem_cons.mp hch with rfl | hch
        · exact .matched h
        · obtain ⟨⟨pattern, value⟩, hmem, rfl⟩ := mem_map.mp hch
          exact .branch hmem h
      | literal | constructor | «variable» | reference | fieldFunction | unit | hole => cases hch

lemma mem_ownReference {text : String} :
    text ∈ ownReference v ↔ ∃ attrs name, v = .reference attrs name ∧ name.toCanonical = text := by
  constructor
  · intro h
    cases v with
    | reference attrs name => exact ⟨attrs, name, rfl, (mem_singleton.mp h).symm⟩
    | _ => cases h
  · rintro ⟨attrs, name, rfl, rfl⟩
    exact mem_singleton_self _

lemma mem_foldl_collect {α : Type} {collect : List String → α → List String}
    {has : α → String → Prop} {items : List α}
    (h : ∀ out, ∀ item ∈ items, ∀ text, text ∈ collect out item ↔ text ∈ out ∨ has item text)
    (out : List String) (text : String) :
    text ∈ items.foldl collect out ↔ text ∈ out ∨ ∃ item ∈ items, has item text := by
  induction items generalizing out with
  | nil => simp
  | cons item items ih =>
    have hr := ih (fun out other ho => h out other (mem_cons_of_mem _ ho))
    rw [foldl_cons, hr, h out item mem_cons_self, exists_mem_cons_iff, or_assoc]

lemma mem_referencesIn (v : Value) (out : List String) (text : String) :
    text ∈ referencesIn v out ↔
      text ∈ out ∨ ∃ name : FQName, Mentions name v ∧ name.toCanonical = text := by
  induction hsz : sizeOf v using Nat.strong_induction_on generalizing v out text with
  | _ size ih =>
    subst hsz
    have hs : ∀ (out : List String), ∀ child ∈ (valueChildren v).attach, ∀ text,
        text ∈ referencesIn child.1 out ↔
          text ∈ out ∨ ∃ name : FQName, Mentions name child.1 ∧ name.toCanonical = text :=
      fun out child _ text => ih _ (sizeOf_child child.2) child.1 out text rfl
    have hki : (∃ child ∈ (valueChildren v).attach,
          ∃ name : FQName, Mentions name child.1 ∧ name.toCanonical = text) ↔
        ∃ name : FQName, (∃ child ∈ valueChildren v, Mentions name child) ∧
          name.toCanonical = text := by
      constructor
      · rintro ⟨⟨child, hch⟩, -, name, h, ht⟩
        exact ⟨name, ⟨child, hch, h⟩, ht⟩
      · rintro ⟨name, ⟨child, hch, h⟩, ht⟩
        exact ⟨⟨child, hch⟩, mem_attach _ _, name, h, ht⟩
    rw [referencesIn, mem_foldl_collect hs, hki, mem_append, mem_ownReference, or_assoc]
    apply or_congr_right
    constructor
    · rintro (⟨attrs, name, rfl, ht⟩ | ⟨name, h, ht⟩)
      · exact ⟨name, .reference attrs, ht⟩
      · exact ⟨name, mentions_iff.mpr (Or.inr h), ht⟩
    · rintro ⟨name, h, ht⟩
      rcases mentions_iff.mp h with ⟨attrs, rfl⟩ | h
      · exact Or.inl ⟨attrs, name, rfl, ht⟩
      · exact Or.inr ⟨name, h, ht⟩

end Morphir.Typing

/-!
## Binding groups

The driver orders the definitions of a file into binding groups and infers one group
after another.  Definitions with a declared signature have their schemes before any
group is inferred.
-/

namespace Morphir.Typing

open IR

structure Decl where
  key : String
  root : String
  definition : ValueDefinition
  declared : Bool

def noteMarker (_ : String) (attrs : TypeAttributes) : StateM Bool Ty := do
  modify fun found => found || attrs.isUnknown
  return .unit

/-- Whether a signature type has a variable with the unknown marker. -/
def hasMarker (t : IRType) : Bool := ((toTyM noteMarker t).run false).2

/-- A definition is declared when it has an output type and no signature variable carries
the unknown marker. -/
def isDeclared (definition : ValueDefinition) : Bool :=
  match definitionParts definition with
  | (inputs, some output, _) => !hasMarker output && !inputs.any fun input => hasMarker input.2
  | (_, none, _) => false

def valueRoot (name : FQName) : String := "value:" ++ name.toCanonical

/-- The value declarations of a library or an application, in their order. -/
def collectDeclarations : Distribution → List Decl
  | .library package _ definition | .application package _ definition _ =>
    definition.modules.flatMap fun m =>
      m.2.value.values.map fun v =>
        let name : FQName := ⟨package, m.1, v.1⟩
        let definition := v.2.value.value
        ⟨name.toCanonical, valueRoot name, definition, isDeclared definition⟩
  | .specs _ _ _ => []

def curry (inputs : List Ty) (output : Ty) : Ty := inputs.foldr Ty.fn output

def noteGen (name : String) (attrs : TypeAttributes) :
    StateM (List (String × Nat) × List (List String)) Ty := do
  let (ids, gens) ← get
  match OrdMap.get? ids name with
  | some id => return .gen id
  | none =>
    set (OrdMap.insert ids name gens.length, gens ++ [classesOf name attrs])
    return .gen gens.length

def polyOfSignature (inputs : List (Name × IRType)) (output : IRType) : Poly :=
  let converted := (do
    let ins ← inputs.mapM fun input => toTyM noteGen input.2
    let out ← toTyM noteGen output
    return curry ins out : StateM (List (String × Nat) × List (List String)) Ty).run ([], [])
  ⟨converted.2.2, converted.1⟩

def noteUnknownClass (_ : String) (attrs : TypeAttributes) : StateM (Option String) Ty := do
  let found ← get
  match found, OrdMap.get? attrs.constraints typeclass with
  | none, some (.text c) => if isClass c then pure () else set (some c)
  | _, _ => pure ()
  return .unit

/-- The first `typeclass` constraint that is not one of the four classes. -/
def unknownClass (types : List IRType) : Option String :=
  ((types.forM fun t => discard (toTyM noteUnknownClass t)).run none).2

def rigidKey (owner name : String) : String := if owner = "" then name else owner ++ "|" ++ name

inductive Mode
  | fill
  | check
  deriving DecidableEq

structure InferenceProblem where
  code : String
  node : String
  message : String
  expected : Option IRType
  found : Option IRType
  source : Option SourceLocation

/-- The inference of one group: the monomorphic types of its members, and a solver with
all that the bodies have recorded. -/
structure Infer (S : Type) where
  current : List (String × Ty)
  state : S

/-- The inference of bodies, as the driver uses it; a failure of a body is an `E`. -/
structure Bodies (S E : Type) where
  new : Env → S
  signature : Decl → S → (List Ty × Ty) × S
  topLevel : Env → List (String × Ty) → Decl → List Ty × Ty → S → Option E × S
  generalizeWith : S → Ty → List String → Poly
  classAt : String → String → E
  problemOf : Decl → E → S → InferenceProblem

structure Driver (S : Type) where
  env : Env
  mode : Mode
  decls : List Decl
  index : List (String × Nat)
  problems : List InferenceProblem
  solved : List (Nat × Infer S)

namespace Driver

variable {S E : Type}

def indexOf (decls : List Decl) : List (String × Nat) :=
  decls.zipIdx.foldl (fun index d => OrdMap.insert index d.1.key d.2) []

def new (env : Env) (file : Distribution) (mode : Mode) : Driver S :=
  let decls := collectDeclarations file
  ⟨env, mode, decls, indexOf decls, [], []⟩

def setValue (driver : Driver S) (key : String) (poly : Poly) : Driver S :=
  { driver with env := { driver.env with values := OrdMap.insert driver.env.values key poly } }

def declareSignature (driver : Driver S) (d : Decl) : Driver S :=
  if d.declared then
    match definitionParts d.definition with
    | (inputs, some output, _) => driver.setValue d.key (polyOfSignature inputs output)
    | (_, none, _) => driver
  else driver

/-- Puts the scheme of every declared signature into the environment. -/
def declareSignatures (driver : Driver S) : Driver S := driver.decls.foldl declareSignature driver

def undeclared (driver : Driver S) (key : String) : Option Nat :=
  match OrdMap.get? driver.index key with
  | some j =>
    match driver.decls[j]? with
    | some d => if d.declared then none else some j
    | none => none
  | none => none

def addEdge (driver : Driver S) (out : List Nat) (key : String) : List Nat :=
  match driver.undeclared key with
  | some j => if j ∈ out then out else out ++ [j]
  | none => out

/-- The undeclared declarations that the body of `d` refers to, in first-seen order. -/
def edges (driver : Driver S) (d : Decl) : List Nat :=
  let refs :=
    match definitionBody d.definition with
    | some body => referencesIn body []
    | none => []
  refs.foldl driver.addEdge []

def edgesAt (driver : Driver S) (i : Nat) : List Nat :=
  match driver.decls[i]? with
  | some d => driver.edges d
  | none => []

def groups (driver : Driver S) : Option (List (List Nat)) :=
  Tarjan.components driver.edgesAt (List.range driver.decls.length)

def members (driver : Driver S) (group : List Nat) : List Decl :=
  group.filterMap fun i => driver.decls[i]?

def unconstrained : Poly := ⟨[[]], .gen 0⟩

/-- Gives each undeclared member of a failed group an unconstrained scheme. -/
def fail (driver : Driver S) (group : List Nat) : Driver S :=
  (driver.members group).foldl
    (fun driver d => if d.declared then driver else driver.setValue d.key unconstrained) driver

def report (driver : Driver S) (problem : InferenceProblem) : Driver S :=
  { driver with problems := driver.problems ++ [problem] }

def signatures (bodies : Bodies S E) : List Decl → S → List (Decl × List Ty × Ty) × S
  | [], s => ([], s)
  | d :: ds, s =>
    let (signature, s) := bodies.signature d s
    let (rest, s) := signatures bodies ds s
    ((d, signature) :: rest, s)

def currentOf (signed : List (Decl × List Ty × Ty)) : List (String × Ty) :=
  signed.foldl
    (fun current e =>
      if e.1.declared then current
      else OrdMap.insert current e.1.key (curry e.2.1 e.2.2))
    []

def inferBodies (bodies : Bodies S E) (env : Env) (current : List (String × Ty)) :
    List (Decl × List Ty × Ty) → S → Option (Decl × E) × S
  | [], s => (none, s)
  | (d, signature) :: rest, s =>
    match bodies.topLevel env current d signature s with
    | (some failure, s) => (some (d, failure), s)
    | (none, s) => inferBodies bodies env current rest s

/-- In Check a mismatch has the inferred type as expected and the type of the node as found. -/
def turned (mode : Mode) (problem : InferenceProblem) : InferenceProblem :=
  if mode = .check ∧ problem.code = "annotation_mismatch" then
    { problem with expected := problem.found, found := problem.expected }
  else problem

def generalize (bodies : Bodies S E) (infer : Infer S) (rigids : List String)
    (driver : Driver S) (members : List Decl) : Driver S :=
  members.foldl
    (fun driver d =>
      if d.declared then driver
      else
        match OrdMap.get? infer.current d.key with
        | some t => driver.setValue d.key (bodies.generalizeWith infer.state t rigids)
        | none => driver)
    driver

def solve (bodies : Bodies S E) (driver : Driver S) (group : List Nat) : Driver S :=
  let members := driver.members group
  let start := bodies.new driver.env
  match members.findSome? fun d => (unknownClass (signatureTypes d.definition)).map (d, ·) with
  | some (d, c) => (driver.report (bodies.problemOf d (bodies.classAt d.root c) start)).fail group
  | none =>
    let (signed, s) := signatures bodies members start
    let current := currentOf signed
    match inferBodies bodies driver.env current signed s with
    | (some (d, failure), s) =>
      (driver.report (turned driver.mode (bodies.problemOf d failure s))).fail group
    | (none, s) =>
      let infer : Infer S := ⟨current, s⟩
      let rigids := members.flatMap fun d => (rigidNames d.definition).map (rigidKey d.key)
      let generalized := generalize bodies infer rigids driver members
      { generalized with
        solved := group.foldl (fun solved i => OrdMap.insert solved i infer)
          generalized.solved }

def solveAll (bodies : Bodies S E) (driver : Driver S) (groups : List (List Nat)) : Driver S :=
  groups.foldl (solve bodies) driver

end Driver

end Morphir.Typing
