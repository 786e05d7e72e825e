import Morphir.IR.Values

/-!
# Specifications of types, modules and packages
-/

namespace Morphir.IR

structure Documented (α : Type) where
  doc : Option String
  value : α

abbrev Constructors := List (Name × List (Name × IRType))

structure DerivedTypeDetails where
  baseType : IRType
  fromBaseType : FQName
  toBaseType : FQName

inductive TypeSpecificationBody
  | typeAlias (params : List Name) (target : IRType)
  | opaqueType (params : List Name)
  | custom (params : List Name) (constructors : Constructors)
  | derived (params : List Name) (details : DerivedTypeDetails)

structure TypeSpecification where
  annotations : List Annotation
  body : TypeSpecificationBody

structure ModuleSpecification where
  annotations : List Annotation
  types : List (Name × Documented TypeSpecification)
  values : List (Name × Documented ValueSpecification)
  doc : Option String

structure PackageSpecification where
  modules : List (Path × ModuleSpecification)

namespace ValueAttributes

def default : ValueAttributes := ⟨none, none, []⟩

end ValueAttributes

end Morphir.IR

/-!
## Definitions of modules and packages, and distributions
-/

namespace Morphir.IR

inductive Access
  | «public»
  | «private»
  deriving DecidableEq

structure AccessControlled (α : Type) where
  access : Access
  value : α

inductive TypeDefinition
  | typeAlias (params : List Name) (target : IRType)
  | custom (params : List Name) (constructors : AccessControlled Constructors)
  | incomplete (params : List Name) (incompleteness : Incompleteness) (sketch : Option IRType)

structure ModuleDefinition where
  types : List (Name × AccessControlled (Documented TypeDefinition))
  values : List (Name × AccessControlled (Documented ValueDefinition))
  doc : Option String

structure PackageDefinition where
  modules : List (Path × AccessControlled ModuleDefinition)

inductive EntryPointKind
  | main
  | command
  | handler
  | job
  | policy
  deriving DecidableEq

structure EntryPoint where
  target : FQName
  kind : EntryPointKind
  doc : Option String

/-- The dependencies of an application are definitions, for static linking. -/
inductive Distribution
  | library (name : Path) (dependencies : List (Path × PackageSpecification))
      (definition : PackageDefinition)
  | specs (name : Path) (dependencies : List (Path × PackageSpecification))
      (specification : PackageSpecification)
  | application (name : Path) (bundled : List (Path × PackageDefinition))
      (definition : PackageDefinition) (entryPoints : List (String × EntryPoint))

end Morphir.IR
