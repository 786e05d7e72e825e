import Morphir.Elm.Types

/-!
# Elm generation

The modules of a package as files of Elm.  Names that collide in a module are refused; modules
that share a file and type variables that share a name are not.
-/

namespace Morphir.Elm

open IR Fallible List OrdMap

inductive TypeSource
  | defined (definition : TypeDefinition)
  | specified (specification : TypeSpecification)

inductive ValueSource
  | defined (definition : ValueDefinition)
  | specified (specification : ValueSpecification)

structure ModuleInput where
  packageName : Path
  modulePath : Path
  types : List (Name × TypeSource)
  values : List (Name × ValueSource)

def ModuleInput.fromDefinition (packageName modulePath : Path) (definition : ModuleDefinition) :
    ModuleInput where
  packageName
  modulePath
  types := definition.types.map fun t => (t.1, .defined t.2.value.value)
  values := definition.values.map fun v => (v.1, .defined v.2.value.value)

def ModuleInput.fromSpecification (packageName modulePath : Path)
    (specification : ModuleSpecification) : ModuleInput where
  packageName
  modulePath
  types := specification.types.map fun t => (t.1, .specified t.2.value)
  values := specification.values.map fun v => (v.1, .specified v.2.value)

/-- The modules that a distribution defines. -/
def moduleInputs : Distribution → List ModuleInput
  | .library name _ definition | .application name _ definition _ =>
    definition.modules.map fun m => .fromDefinition name m.1 m.2.value
  | .specs name _ specification =>
    specification.modules.map fun m => .fromSpecification name m.1 m.2

namespace ModuleInput

/-- The canonical name of a declaration of the module. -/
def fq (input : ModuleInput) (name : Name) : String :=
  input.packageName.toCanonical ++ ":" ++ input.modulePath.toCanonical ++ "#" ++ name.toCanonical

/-- The path of the module's file. -/
def file (input : ModuleInput) : String :=
  "src/" ++ "/".intercalate (moduleName input.packageName input.modulePath) ++ ".elm"

end ModuleInput

/-- The constructor that hides an opaque type. -/
def hiddenConstructor (name : Name) : Name :=
  match Name.parse (name.toCanonical ++ "-opaque") with
  | .ok hidden => hidden
  | .error _ => name

/-- The constructors of a type. -/
def constructorsOf (name : Name) : TypeSource → List Name
  | .defined (.custom _ constructors) => OrdMap.keys constructors.value
  | .specified ⟨_, .custom _ constructors⟩ => OrdMap.keys constructors
  | .specified ⟨_, .opaqueType _⟩ => [hiddenConstructor name]
  | _ => []

/-- The parameters of a type and the types that its declaration has. -/
def typeParts : TypeSource → List Name × List IRType
  | .defined (.typeAlias params body) | .specified ⟨_, .typeAlias params body⟩ => (params, [body])
  | .defined (.custom params ⟨_, constructors⟩) | .specified ⟨_, .custom params constructors⟩ =>
    (params, constructors.flatMap fun c => c.2.map Prod.snd)
  | .specified ⟨_, .opaqueType params⟩ => (params, [])
  | _ => ([], [])

/-- The inputs and the output of a value. -/
def valueParts : ValueSource → List (Name × IRType) × Option IRType
  | .defined (.expressionBody inputs output _) | .defined (.nativeBody inputs output _)
  | .defined (.externalBody inputs output _ _) => (inputs, some output)
  | .defined (.incompleteBody inputs output _ _) => (inputs, output)
  | .specified specification => (specification.inputs, some specification.output)

/-- A declaration of Elm; `E` is what a value has besides its name and its signature. -/
inductive Declaration (E : Type)
  | alias (name : String) (generics : List String) ( annotation : TypeAnnotation)
  | customType (name : String) (generics : List String)
      (constructors : List (String × List TypeAnnotation))
  | function (name : String) (signature : Option TypeAnnotation) (rest : E)

structure ModuleOutput (E : Type) where
  elmModule : List String
  declarations : List (Declaration E)

variable {E : Type}

/-- The other parts of the generation: the resolution of names, the arguments and the expression
of a value, and the printer. -/
structure Backend (E : Type) where
  resolve : ModuleInput → FQName → Resolved
  body : ModuleInput → Name → ValueSource → Except Problem E
  print : ModuleOutput E → Except Problem String

section Module

variable (b : Backend E) (input : ModuleInput)

/-- Lowers with one Elm name for each type variable of a declaration. -/
def withTypeVariables {α : Type} (params : List Name) (types : List IRType) (nodePath : String)
    (body : Context → Except Problem α) : Except Problem α := do
  let names ← typeVariables params types nodePath
  body ⟨b.resolve input, names⟩

def lowerConstructors (ctx : Context) (nodePath : String) :
    Constructors → Except Problem (List (String × List TypeAnnotation))
  | [] => .ok []
  | (name, args) :: constructors => do
    let args ← lowerTypes ctx nodePath (args.map Prod.snd)
    let constructors ← lowerConstructors ctx nodePath constructors
    pure ((typeName name, args) :: constructors)

def customType (name : Name) (params : List Name) (constructors : Constructors)
    (nodePath : String) : Except Problem (Declaration E) :=
  if constructors = [] then
    refuse "placeholder" nodePath "a custom type needs at least one constructor"
  else withTypeVariables b input params (constructors.flatMap fun c => c.2.map Prod.snd) nodePath
    fun ctx => do
      let constructors ← lowerConstructors ctx nodePath constructors
      pure (.customType (typeName name) (generics ctx params) constructors)

def lowerAlias (name : Name) (params : List Name) (body : IRType) (nodePath : String) :
    Except Problem (Declaration E) :=
  withTypeVariables b input params [body] nodePath fun ctx => do
    let annotation ← lowerType ctx nodePath body
    pure (.alias (typeName name) (generics ctx params) annotation)

/-- `lower_type_definition` and `lower_type_specification`. -/
def typeDeclaration (name : Name) (nodePath : String) :
    TypeSource → Except Problem (Declaration E)
  | .defined (.typeAlias params body) | .specified ⟨_, .typeAlias params body⟩ =>
    lowerAlias b input name params body nodePath
  | .defined (.custom params ⟨_, constructors⟩) | .specified ⟨_, .custom params constructors⟩ =>
    customType b input name params constructors nodePath
  | .defined (.incomplete _ _ _) =>
    refuse "placeholder" nodePath "an incomplete type definition has no Elm form"
  | .specified ⟨_, .opaqueType params⟩ =>
    match Name.parse (name.toCanonical ++ "-opaque") with
    | .ok hidden => customType b input name params [(hidden, [])] nodePath
    | .error _ => refuse "print" nodePath "cannot name the opaque constructor"
  | .specified ⟨_, .derived _ _⟩ =>
    refuse "derived_type" nodePath "derived types are not supported yet"

def signature (inputs : List (Name × IRType)) (output : IRType) (nodePath : String) :
    Except Problem TypeAnnotation :=
  withTypeVariables b input [] (inputs.map Prod.snd ++ [output]) nodePath fun ctx => do
    let output ← lowerType ctx nodePath output
    inputs.reverse.foldlM (fun result i => do
      let i ← lowerType ctx nodePath i.2
      pure (.function i result)) output

def valueDeclaration (name : Name) (source : ValueSource) : Except Problem (Declaration E) := do
  let rest ← b.body input name source
  match valueParts source with
  | (inputs, some output) => do
    let annotation ← signature b input inputs output (input.fq name)
    pure (.function (valueName name) (some annotation) rest)
  | (_, none) => pure (.function (valueName name) none rest)

/-- Every name of a list has a spelling that no other one has and that is not seen yet. -/
def reserve (spell : Name → String) (what : String) :
    List (Name × String) → List String → Except Problem (List String)
  | [], seen => .ok seen
  | (name, nodePath) :: names, seen =>
    if spell name ∈ seen then refuse "name_collision" nodePath
      ("another " ++ what ++ " in this module is also " ++ spell name)
    else reserve spell what names (seen ++ [spell name])

/-- The loop over the types: their names and the names of their constructors. -/
def reserveTypes : List (Name × TypeSource) → List String → List String → Except Problem Unit
  | [], _, _ => .ok ()
  | (name, source) :: types, typeNames, constructorNames => do
    let typeNames ← reserve typeName "type" [(name, input.fq name)] typeNames
    let constructorNames ← reserve typeName "constructor"
      ((constructorsOf name source).map fun c => (c, input.fq name)) constructorNames
    reserveTypes types typeNames constructorNames

def generateModule : Except Problem (ModuleOutput E × String) := do
  let _ ← reserve valueName "value" (input.values.map fun v => (v.1, input.fq v.1)) []
  reserveTypes input input.types [] []
  let types ← input.types.mapM fun t => typeDeclaration b input t.1 (input.fq t.1) t.2
  let values ← input.values.mapM fun v => valueDeclaration b input v.1 v.2
  let output := ⟨moduleName input.packageName input.modulePath, types ++ values⟩
  let source ← b.print output
  pure (output, source)

end Module

/-- The loop over the modules: the problems, and the modules with their texts. -/
def generateModules (b : Backend E) (cancelled : ModuleInput → Bool) (unitId : String) :
    List ModuleInput → List Problem × List (ModuleInput × ModuleOutput E × String)
  | [] => ([], [])
  | input :: inputs =>
    if cancelled input = true then ([⟨"elm.cancelled", unitId, "Cancelled"⟩], [])
    else
      let (problems, sources) := generateModules b cancelled unitId inputs
      match generateModule b input with
      | .ok (output, source) => (problems, (input, output, source) :: sources)
      | .error e => (e :: problems, sources)

/-- The modules of a generation that is not refused.  `untagged` says that a type that the file
requires has an untagged union. -/
def generate (b : Backend E) (cancelled : ModuleInput → Bool) (untagged : Bool) (unitId : String)
    (distribution : Distribution) :
    Except (List Problem) (List (ModuleInput × ModuleOutput E × String)) :=
  if untagged = true then .error [⟨"elm.unsupported_type", unitId,
    "Untagged unions are not supported by Elm generation"⟩]
  else
    let (problems, sources) := generateModules b cancelled unitId (moduleInputs distribution)
    if problems = [] then .ok sources else .error problems

/-- The setters of a record or an update, with the lowering of their values. -/
def setters {V : Type} (lowerValue : Value → Except Problem V) (fields : List (Name × Value))
    (nodePath : String) : Except Problem (List (String × V)) := do
  checkFieldCollisions [] nodePath (OrdMap.keys fields)
  fields.mapM fun f => do
    let value ← lowerValue f.2
    pure (valueName f.1, value)

namespace Declaration

def name : Declaration E → String
  | .alias name _ _ | .customType name _ _ | .function name _ _ => name

/-- The fields of every record in the types of a declaration are distinct. -/
def FieldsApart : Declaration E → Prop
  | .alias _ _ annotation => annotation.FieldsApart
  | .customType _ _ constructors => ∀ c ∈ constructors, AllFieldsApart c.2
  | .function _ signature _ => ∀ annotation ∈ signature, annotation.FieldsApart

end Declaration

namespace ModuleInput

/-- The parameters and the types of each declaration, with its canonical name. -/
def scopes (input : ModuleInput) : List (List Name × List IRType × String) :=
  (input.types.map fun t => ((typeParts t.2).1, (typeParts t.2).2, input.fq t.1)) ++
    input.values.filterMap fun v => (valueParts v.2).2.map fun output =>
      ([], (valueParts v.2).1.map Prod.snd ++ [output], input.fq v.1)

/-- The values of a module, its types and their constructors have distinct names. -/
structure NamesApart (input : ModuleInput) : Prop where
  values : (input.values.map fun v => valueName v.1).Nodup
  types : (input.types.map fun t => typeName t.1).Nodup
  constructors : (input.types.flatMap fun t => (constructorsOf t.1 t.2).map typeName).Nodup

/-- The type variables of each declaration are renamed apart. -/
def VariablesApart (input : ModuleInput) : Prop :=
  ∀ s ∈ input.scopes, ∀ names, typeVariables s.1 s.2.1 s.2.2 = .ok names →
    ∀ k l x, get? names k = some x → get? names l = some x → k = l

/-- In each declaration, no two variables have one spelling with the classes of their
occurrences. -/
def SpellsVariables (input : ModuleInput) : Prop :=
  ∀ s ∈ input.scopes, ∀ found, foundIn s.1 s.2.1 s.2.2 = .ok found →
    ∀ k l v w, get? found k = some v → get? found l = some w →
      typeVariableName v.1 v.2 = typeVariableName w.1 w.2 → k = l

end ModuleInput

section Names

variable {spell : Name → String} {what : String} {nodePath : String}

lemma reserve_ok {names : List (Name × String)} {seen after : List String}
    (h : reserve spell what names seen = .ok after) (hse : seen.Nodup) :
    after = seen ++ names.map (fun n => spell n.1) ∧ after.Nodup := by
  induction names generalizing seen with
  | nil =>
    cases h
    simpa using hse
  | cons n names ih =>
    rw [reserve] at h
    split at h
    · cases h
    · rename_i hnew
      obtain ⟨rfl, hnd⟩ := ih h (nodup_append.mpr
        ⟨hse, nodup_singleton _, fun a ha b hb => by
          rw [mem_singleton.mp hb]
          exact fun heq => hnew (heq ▸ ha)⟩)
      refine ⟨?_, hnd⟩
      rw [map_cons, append_assoc, singleton_append]

lemma reserveTypes_ok {input : ModuleInput} {types : List (Name × TypeSource)}
    {typeNames constructorNames : List String} {u : Unit}
    (h : reserveTypes input types typeNames constructorNames = .ok u) (htys : typeNames.Nodup)
    (hcs : constructorNames.Nodup) :
    (typeNames ++ types.map fun t => typeName t.1).Nodup ∧
      (constructorNames ++
        types.flatMap fun t => (constructorsOf t.1 t.2).map typeName).Nodup := by
  induction types generalizing typeNames constructorNames with
  | nil => simpa using ⟨htys, hcs⟩
  | cons t types ih =>
    obtain ⟨_, hname, h⟩ := bind_ok h
    obtain ⟨_, hns, h⟩ := bind_ok h
    obtain ⟨rfl, htys⟩ := reserve_ok hname htys
    obtain ⟨rfl, hcs⟩ := reserve_ok hns hcs
    simpa [Function.comp_def] using ih h htys hcs

lemma setters_apart {V : Type} {lowerValue : Value → Except Problem V}
    {fields : List (Name × Value)} {lowered : List (String × V)}
    (h : setters lowerValue fields nodePath = .ok lowered) : (OrdMap.keys lowered).Nodup := by
  obtain ⟨_, hchk, h⟩ := bind_ok h
  have hks : (OrdMap.keys fields).map valueName = OrdMap.keys lowered := by
    rw [OrdMap.keys, OrdMap.keys, map_map, ← List.forall₂_eq_eq_eq,
      List.forall₂_map_left_iff, List.forall₂_map_right_iff]
    refine (mapM_eq_ok.mp h).imp fun f entry hent => ?_
    obtain ⟨value, -, hent⟩ := bind_ok hent
    cases hent
    rfl
  exact hks ▸ (checkFieldCollisions_ok hchk).1

end Names

section Fields

variable {b : Backend E} {input : ModuleInput} {nodePath : String} {name : Name}
  {d : Declaration E}

variable {constructors : Constructors}

lemma lowerConstructors_fieldsApart {ctx : Context} {lowered : List (String × List TypeAnnotation)}
    (h : lowerConstructors ctx nodePath constructors = .ok lowered) :
    ∀ c ∈ lowered, AllFieldsApart c.2 := by
  induction constructors generalizing lowered with
  | nil =>
    cases h
    simp
  | cons c constructors ih =>
    obtain ⟨args, hargs, h⟩ := bind_ok h
    obtain ⟨rest, hr, h⟩ := bind_ok h
    cases h
    exact forall_mem_cons.mpr ⟨lowerTypes_fieldsApart _ hargs, ih hr⟩

lemma customType_fieldsApart {params : List Name}
    (h : customType b input name params constructors nodePath = .ok d) : d.FieldsApart := by
  rw [customType] at h
  split at h
  · cases h
  · obtain ⟨_, -, h⟩ := bind_ok h
    obtain ⟨lowered, hlow, h⟩ := bind_ok h
    cases h
    exact lowerConstructors_fieldsApart hlow

lemma lowerAlias_fieldsApart {params : List Name} {body : IRType}
    (h : lowerAlias b input name params body nodePath = .ok d) : d.FieldsApart := by
  obtain ⟨_, -, h⟩ := bind_ok h
  obtain ⟨ annotation, hannot, h⟩ := bind_ok h
  cases h
  exact lowerType_fieldsApart body hannot

lemma typeDeclaration_fieldsApart {source : TypeSource}
    (h : typeDeclaration b input name nodePath source = .ok d) : d.FieldsApart := by
  rw [typeDeclaration.eq_def] at h
  split at h
  · exact lowerAlias_fieldsApart h
  · exact lowerAlias_fieldsApart h
  · exact customType_fieldsApart h
  · exact customType_fieldsApart h
  · cases h
  · split at h
    · exact customType_fieldsApart h
    · cases h
  · cases h

lemma signature_fieldsApart {inputs : List (Name × IRType)} {output : IRType}
    { annotation : TypeAnnotation}
    (h : signature b input inputs output nodePath = .ok annotation) : annotation.FieldsApart := by
  obtain ⟨names, -, h⟩ := bind_ok h
  obtain ⟨result, hres, h⟩ := bind_ok h
  have hap := lowerType_fieldsApart output hres
  clear hres
  revert result
  generalize inputs.reverse = inputs
  induction inputs with
  | nil =>
    intro result h hap
    cases h
    exact hap
  | cons i inputs ih =>
    intro result h hap
    obtain ⟨result', hres', h⟩ := bind_ok h
    obtain ⟨i', hi', hres'⟩ := bind_ok hres'
    cases hres'
    exact ih _ h ⟨lowerType_fieldsApart _ hi', hap⟩

lemma valueDeclaration_fieldsApart {source : ValueSource}
    (h : valueDeclaration b input name source = .ok d) : d.FieldsApart := by
  obtain ⟨rest, -, h⟩ := bind_ok h
  split at h
  · obtain ⟨ annotation, hannot, h⟩ := bind_ok h
    cases h
    intro other ho
    cases ho
    exact signature_fieldsApart hannot
  · cases h
    exact fun _ => nofun

/-- A module that is generated has names apart, and its records have fields apart. -/
theorem generateModule_apart {output : ModuleOutput E} {text : String}
    (h : generateModule b input = .ok (output, text)) :
    input.NamesApart ∧ ∀ d ∈ output.declarations, d.FieldsApart := by
  obtain ⟨_, hvals, h⟩ := bind_ok h
  obtain ⟨_, htys, h⟩ := bind_ok h
  obtain ⟨types, hlow, h⟩ := bind_ok h
  obtain ⟨values, hdc, h⟩ := bind_ok h
  obtain ⟨source, -, h⟩ := bind_ok h
  cases h
  obtain ⟨heq, hnd⟩ := reserve_ok hvals nodup_nil
  rw [heq, map_map] at hnd
  obtain ⟨htys, hcs⟩ := reserveTypes_ok htys nodup_nil nodup_nil
  refine ⟨⟨hnd, htys, hcs⟩, fun d hd => ?_⟩
  rcases mem_append.mp hd with hd | hd
  · obtain ⟨t, -, ht⟩ := (mapM_eq_ok.mp hlow).exists_left d hd
    exact typeDeclaration_fieldsApart ht
  · obtain ⟨v, -, hv⟩ := (mapM_eq_ok.mp hdc).exists_left d hd
    exact valueDeclaration_fieldsApart hv

end Fields

lemma variablesApart_iff (input : ModuleInput) : input.VariablesApart ↔ input.SpellsVariables := by
  refine forall₂_congr fun s _ => ?_
  have hget (found : Found) (k : String) (x : String) :
      get? (mapValues (fun e => typeVariableName e.1 e.2) found) k = some x ↔
        ∃ v, get? found k = some v ∧ typeVariableName v.1 v.2 = x := by
    rw [get?_mapValues, Option.map_eq_some_iff]
  constructor
  · intro h found hfd k l v w hv hw heq
    refine h _ (by rw [typeVariables, hfd]; rfl) k l _ ((hget _ _ _).mpr ⟨v, hv, rfl⟩)
      ((hget _ _ _).mpr ⟨w, hw, heq.symm⟩)
  · intro h names hns k l x hk hl
    obtain ⟨found, hfd, hns⟩ := bind_ok hns
    cases hns
    obtain ⟨v, hv, hvx⟩ := (hget _ _ _).mp hk
    obtain ⟨w, hw, hwx⟩ := (hget _ _ _).mp hl
    exact h found hfd k l v w hv hw (hvx.trans hwx.symm)

lemma file_eq_file {input other : ModuleInput} : input.file = other.file ↔
    "/".intercalate (moduleName input.packageName input.modulePath) =
      "/".intercalate (moduleName other.packageName other.modulePath) := by
  rw [ModuleInput.file, ModuleInput.file, String.append_left_inj, String.append_right_inj]

section Runs

variable {b : Backend E} {cancelled : ModuleInput → Bool} {unitId : String}

variable {sources : List (ModuleInput × ModuleOutput E × String)}

/-- Without a problem, each module is generated. -/
theorem generateModules_ok {inputs : List ModuleInput}
    (h : generateModules b cancelled unitId inputs = ([], sources)) :
    sources.map Prod.fst = inputs ∧ ∀ s ∈ sources, generateModule b s.1 = .ok s.2 := by
  induction inputs generalizing sources with
  | nil =>
    cases h
    simp
  | cons input inputs ih =>
    rw [generateModules] at h
    split at h
    · cases h
    · cases hr : generateModules b cancelled unitId inputs with
      | mk problems rest =>
        rw [hr] at h
        dsimp only at h
        split at h
        · rename_i hmod
          cases h
          obtain ⟨rfl, hall⟩ := ih hr
          exact ⟨rfl, forall_mem_cons.mpr ⟨hmod, hall⟩⟩
        · cases h

lemma generate_ok {untagged : Bool} {distribution : Distribution}
    (h : generate b cancelled untagged unitId distribution = .ok sources) :
    sources.map Prod.fst = moduleInputs distribution ∧
      ∀ s ∈ sources, generateModule b s.1 = .ok s.2 := by
  rw [generate] at h
  split at h
  · cases h
  · dsimp only at h
    split at h
    · rename_i hpro
      cases h
      exact generateModules_ok (Prod.ext hpro rfl)
    · cases h

end Runs

section Cases

/-- A backend that prints nothing. -/
def blank : Backend Unit := ⟨fun _ _ => .qualified [] "", fun _ _ _ => .ok (), fun _ => .ok ""⟩

/-- A library `p` with modules of these paths, which define the same types. -/
def library (paths : List Name) (types : List (Name × TypeDefinition)) : Distribution :=
  .library ⟨[⟨[.word "p"]⟩]⟩ [] ⟨paths.map fun path => (⟨[path]⟩, ⟨.public,
    ⟨types.map fun t => (t.1, ⟨.public, ⟨none, t.2⟩⟩), [], none⟩⟩)⟩

end Cases

end Morphir.Elm
