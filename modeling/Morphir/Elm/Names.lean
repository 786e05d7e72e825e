import Morphir.IR.Distributions

/-!
# Elm names

The Elm spellings of names, of module paths and of type variables.
-/

namespace Morphir.Elm

open IR

structure Problem where
  code : String
  nodePath : String
  detail : String
  deriving DecidableEq

def refuse {α : Type} (code nodePath detail : String) : Except Problem α :=
  .error ⟨"elm." ++ code, nodePath, detail⟩

def reservedWords : List String :=
  ["if", "then", "else", "case", "of", "let", "in", "type", "module", "where", "import",
    "exposing", "as", "port", "alias", "infix", "effect"]

def constraintPrefixes : List String := ["number", "comparable", "appendable", "compappend"]

/-- Names are ASCII by their grammar, so only `a` to `z` change. -/
def upperFirst (word : String) : String :=
  match word.toList with
  | [] => ""
  | c :: rest =>
    String.ofList ((if Name.isLowerLetter c = true then Char.ofNat (c.toNat - 32) else c) :: rest)

def escapeReserved (name : String) : String := if name ∈ reservedWords then name ++ "_" else name

def lowerSegment : NameSegment → String
  | .word word => word
  | .initialism letters => letters.toLower

def upperSegment : NameSegment → String
  | .word word => upperFirst word
  | .initialism letters => letters

def valueName (name : Name) : String :=
  escapeReserved (match name.segments with
    | [] => ""
    | first :: rest => lowerSegment first ++ String.join (rest.map upperSegment))

def typeName (name : Name) : String := String.join (name.segments.map upperSegment)

def moduleName (packageName modulePath : Path) : List String :=
  packageName.segments.map typeName ++ modulePath.segments.map typeName

/-- The classes that the `typeclass` constraint of attributes names. -/
def classesOf (attributes : TypeAttributes) (nodePath : String) : Except Problem (List String) :=
  match OrdMap.get? attributes.constraints "typeclass" with
  | none => .ok []
  | some (.text name) => .ok [name]
  | some (.array items) => items.mapM fun item =>
      match item with
      | .text name => .ok name
      | _ => refuse "unsupported_constraint" nodePath "typeclass entries must be text"
  | some _ => refuse "unsupported_constraint" nodePath "typeclass must be text or a list"

def constraintOf (attributes : TypeAttributes) (nodePath : String) :
    Except Problem (Option String) :=
  if OrdMap.contains attributes.constraints "typeclass" = false then .ok none
  else do
    let classes ← classesOf attributes nodePath
    let classes := classes.mergeSort fun a b => (compareText a b).isLE
    let unsupported := refuse "unsupported_constraint" nodePath
      ("Elm has no class for " ++ ", ".intercalate classes)
    match classes with
    | [single] => if single ∈ constraintPrefixes then pure (some single) else unsupported
    | ["appendable", "comparable"] => pure (some "compappend")
    | _ => unsupported

/-- An unconstrained variable keeps its name, and another has the name of its class in front. -/
def typeVariableName (name : Name) : Option String → String
  | some p =>
    let base := valueName name
    if p.toList.isPrefixOf base.toList = true then base else p ++ upperFirst base
  | none => valueName name

end Morphir.Elm
