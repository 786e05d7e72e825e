import Morphir.IR.Distributions
import Morphir.Scheme.Positions

/-!
# Printing specifications

The canonical layout of the specification language.
-/

namespace Morphir.Scheme.Spec

open IR

def join (separator : List Char) (parts : List (List Char)) : List Char :=
  separator.intercalate parts

def parens (parts : List (List Char)) : List Char := '(' :: (join [' '] parts ++ [')'])

def quote (text : String) : List Char := escaped text.toList '"'

def nameText (name : Name) : List Char := name.toCanonical.toList

def printReference (packageName : Path) (name : FQName) : List Char :=
  let localName := name.moduleName.toCanonical ++ "#" ++ name.localName.toCanonical
  if name.packageName = packageName then localName.toList
  else (name.packageName.toCanonical ++ ":" ++ localName).toList

def single (text : List Char) : List Char × List (List Char) := (text, [text])

mutual

/-- The text of a type, with the texts of its arguments and its result as a
curried function. -/
def typeTexts (packageName : Path) : IRType → List Char × List (List Char)
  | .variable _ name => single (nameText name)
  | .unit _ => single "()".toList
  | .reference _ name [] => single (printReference packageName name)
  | .reference _ name (arg :: args) =>
    single (parens (printReference packageName name :: printTypes packageName (arg :: args)))
  | .tuple _ items => single (parens ("tuple".toList :: printTypes packageName items))
  | .union _ items =>
    single ("(union ".toList ++ join [' '] (printTypes packageName items) ++ [')'])
  | .record _ fields => single (parens ("record".toList :: printFields packageName fields))
  | .extensibleRecord _ base fields =>
    single (parens ("record".toList :: nameText base :: printFields packageName fields))
  | .function _ argument result =>
    let parts := (typeTexts packageName argument).1 :: (typeTexts packageName result).2
    (parens ("->".toList :: parts), parts)
termination_by structural type => type

def printTypes (packageName : Path) : List IRType → List (List Char)
  | [] => []
  | type :: types => (typeTexts packageName type).1 :: printTypes packageName types
termination_by structural types => types

def printFields (packageName : Path) : List (Name × IRType) → List (List Char)
  | [] => []
  | (name, type) :: fields =>
    parens [nameText name, (typeTexts packageName type).1] :: printFields packageName fields
termination_by structural fields => fields

end

def printType (packageName : Path) (type : IRType) : List Char := (typeTexts packageName type).1

variable [Doubles Double]

def printLiteral : Literal → List Char
  | .string s => quote s
  | .integer s => s.toList
  | .bool true => ['#', 't']
  | .bool false => ['#', 'f']
  | .decimal s => s.toList
  | .float d => (Doubles.toText d).toList
  | .char c => ['#', '\\', c]
  | .document _ => "()".toList

mutual

def printData : Value → List Char
  | .literal _ literal => printLiteral literal
  | .list _ items => parens (printDataAll items)
  | _ => "()".toList
termination_by structural value => value

def printDataAll : List Value → List (List Char)
  | [] => []
  | value :: values => printData value :: printDataAll values
termination_by structural values => values

end

def printArgument : AnnotationArgument → List Char
  | .positional value => printData value
  | .named _ value => printData value

def printAnnotation : Annotation → List Char
  | .compact name none => parens ["annotation".toList, name.toCanonical.toList]
  | .compact name (some text) => parens ["annotation".toList, name.toCanonical.toList, quote text]
  | .structured name args =>
    parens ("annotation".toList :: name.toCanonical.toList :: args.map printArgument)

def printDoc (text : String) : List Char := "(doc ".toList ++ quote text ++ [')']

def printConstructor (packageName : Path) (constructor : Name × List (Name × IRType)) :
    List Char :=
  parens (nameText constructor.1 :: constructor.2.map fun arg => printType packageName arg.2)

def printTypeBody (packageName : Path) : TypeSpecificationBody → List Char × List Name
  | .opaqueType params => ("(opaque)".toList, params)
  | .typeAlias params target => ("(alias ".toList ++ printType packageName target ++ [')'], params)
  | .custom params constructors =>
    (parens ("custom".toList :: constructors.map (printConstructor packageName)), params)
  | .derived params details =>
    ("(derived ".toList ++ printType packageName details.baseType ++ [' '] ++
      printReference packageName details.fromBaseType ++ [' '] ++
      printReference packageName details.toBaseType ++ [')'], params)

def printTypeItem (packageName : Path) (item : Name × Documented TypeSpecification) : List Char :=
  let (body, params) := printTypeBody packageName item.2.value.body
  let doc := item.2.doc.toList.map printDoc
  join [' '] ("(type".toList :: nameText item.1 :: (doc ++ body :: params.map nameText)) ++ [')']

def printParam (packageName : Path) (input : Name × IRType) : List Char :=
  parens [nameText input.1, printType packageName input.2]

def line (indent text : List Char) : List Char := '\n' :: (indent ++ text)

def printValueItem (packageName : Path) (indent : List Char)
    (item : Name × Documented ValueSpecification) : List Char :=
  let spec := item.2.value
  "(val ".toList ++ nameText item.1 ++ [' '] ++
    parens (spec.inputs.map (printParam packageName)) ++ [' '] ++
    printType packageName spec.output ++
    item.2.doc.toList.flatMap (fun text => line (indent ++ "  ".toList) (printDoc text)) ++
    spec.annotations.flatMap (fun a => line (indent ++ "  ".toList) ( printAnnotation a)) ++ [')']

def printModule (packageName : Path) (entry : Path × ModuleSpecification) : List Char :=
  "(module ".toList ++ entry.1.toCanonical.toList ++
    entry.2.doc.toList.flatMap (fun text => line "    ".toList (printDoc text)) ++
    entry.2.types.flatMap (fun t => line "    ".toList (printTypeItem packageName t)) ++
    entry.2.values.flatMap
      (fun v => line "    ".toList (printValueItem packageName "    ".toList v)) ++ [')']

def printPackage (name : Path) (spec : PackageSpecification) : List Char :=
  "(package ".toList ++ quote name.toCanonical ++
    spec.modules.flatMap (fun m => line "  ".toList (printModule name m)) ++ [')']

end Morphir.Scheme.Spec

/-!
## Reading specifications

The specification language reads types, annotations, modules and packages
from located data.
-/

namespace Morphir.Scheme.Spec

open IR

/-- An error with its position.  An error of the reader that is no syntax
error stands at the start of the text with its own message. -/
inductive SpecError
  | specError (line column : Nat) (message : String)
  | reader (error : SchemeError)
  deriving DecidableEq

abbrev Result (α : Type) := Except SpecError α

structure Context where
  source : List Char
  packageName : Path

def lineColumn (source : List Char) (offset : Nat) : Nat × Nat :=
  (source.take offset).foldl
    (fun (line, column) c => if c = '\n' then (line + 1, 1) else (line, column + 1)) (1, 1)

variable {F : Type}

def Context.fail {α : Type} (ctx : Context) (at_ : Located F) (message : String) : Result α :=
  let (line, column) := lineColumn ctx.source at_.start
  .error (.specError line column message)

def symbol (at_ : Located F) : Option String :=
  match at_.datum with
  | .symbol text => some text
  | _ => none

def suggest (text : String) : String :=
  match text.toList with
  | [] => ""
  | c :: cs => String.ofList (c :: cs.flatMap fun c =>
      if 'A' ≤ c ∧ c ≤ 'Z' then ['-', c.toLower] else [c])

def readName (ctx : Context) (at_ : Located F) : Result Name :=
  match symbol at_ with
  | none => ctx.fail at_ "expected a name"
  | some text =>
    match Name.parse text with
    | .error _ =>
      ctx.fail at_ ("name `" ++ text ++ "` is not canonical (use `" ++ suggest text ++ "`)")
    | .ok name =>
      if name.toCanonical ≠ text then
        ctx.fail at_
          ("name `" ++ text ++ "` is not canonical (use `" ++ name.toCanonical ++ "`)")
      else .ok name

def readReference (ctx : Context) (at_ : Located F) (text : String) : Result FQName :=
  let full := if ':' ∈ text.toList then text else ctx.packageName.toCanonical ++ ":" ++ text
  match FQName.parse full with
  | .error _ => ctx.fail at_ ("`" ++ text ++ "` is not a reference")
  | .ok name =>
    if name.toCanonical ≠ full then
      ctx.fail at_
        ("reference `" ++ text ++ "` is not canonical (use `" ++ name.toCanonical ++ "`)")
    else .ok name

def readPath (ctx : Context) (at_ : Located F) (text what : String) : Result Path :=
  match Path.parse text with
  | .error _ => ctx.fail at_ (what ++ " `" ++ text ++ "` is not canonical")
  | .ok path =>
    if path.toCanonical ≠ text then
      ctx.fail at_
        (what ++ " `" ++ text ++ "` is not canonical (use `" ++ path.toCanonical ++ "`)")
    else .ok path

def classOf (name : Name) : Option String :=
  ["compappend", "appendable", "comparable", "number"].find? fun cls =>
    cls.toList.isPrefixOf name.toCanonical.toList

def variableAttributes (name : Name) : TypeAttributes :=
  { TypeAttributes.default with
    constraints := match classOf name with
      | some cls => [("typeclass", .text cls)]
      | none => [] }

def checkHead (ctx : Context) (at_ : Located F) (head : String) : Result Unit :=
  if head.toList.getLast? = some '!' then
    ctx.fail at_ ("`" ++ head ++ "` is reserved for macros")
  else .ok ()

def headOf (at_ : Located F) : Option String :=
  match at_.datum, at_.children with
  | .sequence _ none, head :: _ => symbol head
  | _, _ => none

def foldFunction : List IRType → Option IRType
  | [] => none
  | [result] => some result
  | argument :: types => (foldFunction types).map fun result => .function .default argument result

def listForm (items : List (Datum F)) (start : Nat) (head : Located F) (rest : List (Located F)) :
    Located F :=
  .mk (.sequence items none) start (head :: rest)

mutual

def readType (ctx : Context) : Located F → Result IRType
  | .mk (.symbol text) start children =>
    if '#' ∈ text.toList then
      (readReference ctx (.mk (F := F) (.symbol text) start children) text).map fun name =>
        .reference .default name []
    else
      match checkHead ctx (.mk (F := F) (.symbol text) start children) text with
      | .error error => .error error
      | .ok _ =>
        (readName ctx (.mk (F := F) (.symbol text) start children)).map fun name =>
          .variable (variableAttributes name) name
  | .mk (.sequence items none) start [] =>
    if items.isEmpty then .ok (.unit .default)
    else ctx.fail (.mk (.sequence items none) start []) "expected a type form"
  | .mk (.sequence items none) start (head :: rest) =>
    if items.isEmpty then .ok (.unit .default)
    else
      match symbol head with
      | none => ctx.fail (listForm items start head rest) "expected a type form"
      | some text =>
        match checkHead ctx (listForm items start head rest) text with
        | .error error => .error error
        | .ok _ =>
          if text = "union" then
            if rest.length < 2 then
              ctx.fail (listForm items start head rest) "a union needs at least two types"
            else (readTypes ctx rest).map (.union .default)
          else if text = "->" then
            if rest.length < 2 then
              ctx.fail (listForm items start head rest)
                "a function type needs at least two types"
            else
              match readTypes ctx rest with
              | .error error => .error error
              | .ok types => .ok ((foldFunction types).getD (.unit .default))
          else if text = "tuple" then
            if rest.length < 2 then
              ctx.fail (listForm items start head rest) "a tuple needs at least two types"
            else (readTypes ctx rest).map (.tuple .default)
          else if text = "record" then
            match rest with
            | [] => (readFields ctx [] []).map (.record .default)
            | first :: tail =>
              if (symbol first).isSome then
                match readName ctx first with
                | .error error => .error error
                | .ok row => (readFields ctx [] tail).map (.extensibleRecord .default row)
              else (readFields ctx [] (first :: tail)).map (.record .default)
          else if '#' ∈ text.toList then
            match readReference ctx head text with
            | .error error => .error error
            | .ok name => (readTypes ctx rest).map (.reference .default name)
          else
            ctx.fail (listForm items start head rest) ("unknown type form `" ++ text ++ "`")
  | .mk datum start children => ctx.fail (.mk datum start children) "expected a type"
termination_by structural at_ => at_

def readTypes (ctx : Context) : List (Located F) → Result (List IRType)
  | [] => .ok []
  | form :: forms =>
    match readType ctx form with
    | .error error => .error error
    | .ok type => (readTypes ctx forms).map (type :: ·)
termination_by structural forms => forms

def readFields (ctx : Context) (fields : List (Name × IRType)) :
    List (Located F) → Result (List (Name × IRType))
  | [] => .ok fields
  | .mk datum start [nameForm, typeForm] :: forms =>
    match readName ctx nameForm with
    | .error error => .error error
    | .ok name =>
      if OrdMap.contains fields name then
        ctx.fail (.mk datum start [nameForm, typeForm])
          ("duplicate field `" ++ name.toCanonical ++ "`")
      else
        match readType ctx typeForm with
        | .error error => .error error
        | .ok type => readFields ctx (OrdMap.insert fields name type) forms
  | field :: _ => ctx.fail field "a record field is (name type)"
termination_by structural forms => forms

end

mutual

def readData (ctx : Context) : Located F → Result Value
  | .mk (.text s) _ _ => .ok (.literal .default (.string s))
  | .mk (.number (.integer n)) _ _ => .ok (.literal .default (.integer (toString n)))
  | .mk (.boolean b) _ _ => .ok (.literal .default (.bool b))
  | .mk (.sequence _ none) _ children => (readDataAll ctx children).map (.list .default)
  | .mk datum start children => ctx.fail (.mk datum start children) "annotation arguments are data"
termination_by structural at_ => at_

def readDataAll (ctx : Context) : List (Located F) → Result (List Value)
  | [] => .ok []
  | form :: forms =>
    match readData ctx form with
    | .error error => .error error
    | .ok value => (readDataAll ctx forms).map (value :: ·)
termination_by structural forms => forms

end

def readQualified (ctx : Context) (form : Located F) (message : String) : Result FQName :=
  match symbol form with
  | none => ctx.fail form message
  | some text => if '#' ∈ text.toList then readReference ctx form text else ctx.fail form message

def readAnnotation (ctx : Context) (at_ : Located F) : Result Annotation :=
  match at_.children with
  | _ :: nameForm :: args =>
    match readQualified ctx nameForm "an annotation needs a qualified name" with
    | .error error => .error error
    | .ok name =>
      if args.isEmpty then .ok (.compact name none)
      else (readDataAll ctx args).map fun values => .structured name (values.map .positional)
  | _ => ctx.fail at_ "an annotation is (annotation name arg...)"

def readDoc (ctx : Context) (at_ : Located F) : Result String :=
  match at_.children with
  | [_, .mk (.text text) _ _] => .ok text
  | _ => ctx.fail at_ "a doc is (doc \"text\")"

def readParam (ctx : Context) (at_ : Located F) : Result (Name × IRType) :=
  match at_.children with
  | [nameForm, typeForm] =>
    match readName ctx nameForm with
    | .error error => .error error
    | .ok name => (readType ctx typeForm).map fun type => (name, type)
  | _ => ctx.fail at_ "a parameter is (name type)"

def readAll {α β : Type} (f : α → Result β) : List α → Result (List β)
  | [] => .ok []
  | form :: forms =>
    match f form with
    | .error error => .error error
    | .ok b => (readAll f forms).map (b :: ·)

/-- The name of an argument of a constructor, by its position from one. -/
def argumentName (position : Nat) : Name := ⟨[.word "arg", .word (toString position)]⟩

def nameArguments (types : List IRType) : List (Name × IRType) :=
  types.zipIdx.map fun (type, i) => (argumentName (i + 1), type)

def readConstructors (ctx : Context) (constructors : Constructors) :
    List (Located F) → Result Constructors
  | [] => .ok constructors
  | form :: forms =>
    match headOf form, form.children with
    | some _, nameForm :: args =>
      match readName ctx nameForm with
      | .error error => .error error
      | .ok name =>
        if OrdMap.contains constructors name then
          ctx.fail form ("duplicate constructor `" ++ name.toCanonical ++ "`")
        else
          match readTypes ctx args with
          | .error error => .error error
          | .ok types =>
            readConstructors ctx (OrdMap.insert constructors name (nameArguments types))
              forms
    | _, _ => ctx.fail form "a constructor is (name type...)"

def readTypeBody (ctx : Context) (at_ : Located F) (params : List Name) :
    Result TypeSpecificationBody :=
  match headOf at_ with
  | none => ctx.fail at_ "expected a type body"
  | some head =>
    match checkHead ctx at_ head with
    | .error error => .error error
    | .ok _ =>
      let rest := at_.children.tail
      if head = "opaque" then
        if rest.isEmpty then .ok (.opaqueType params)
        else ctx.fail at_ "opaque takes no arguments"
      else if head = "alias" then
        match rest with
        | [target] => (readType ctx target).map (.typeAlias params)
        | _ => ctx.fail at_ "alias takes one type"
      else if head = "custom" then
        (readConstructors ctx [] rest).map (.custom params)
      else if head = "derived" then
        match rest with
        | [base, fromForm, toForm] =>
          match readType ctx base with
          | .error error => .error error
          | .ok baseType =>
            match readQualified ctx fromForm "expected a qualified name" with
            | .error error => .error error
            | .ok fromBaseType =>
              (readQualified ctx toForm "expected a qualified name").map
                fun toBaseType => .derived params ⟨baseType, fromBaseType, toBaseType⟩
        | _ => ctx.fail at_ "derived is (derived type from-name to-name)"
      else ctx.fail at_ ("unknown type body `" ++ head ++ "`")

def readTypeDoc (ctx : Context) : List (Located F) → Result (Option String × List (Located F))
  | [] => .ok (none, [])
  | form :: forms =>
    if headOf form = some "doc" then
      (readDoc ctx form).map fun text => (some text, forms)
    else .ok (none, form :: forms)

def readTypeItem (ctx : Context) (item : Located F)
    (types : List (Name × Documented TypeSpecification)) :
    Result (List (Name × Documented TypeSpecification)) :=
  match item.children with
  | _ :: nameForm :: form :: forms =>
    match readName ctx nameForm with
    | .error error => .error error
    | .ok name =>
      if OrdMap.contains types name then
        ctx.fail item ("duplicate type `" ++ name.toCanonical ++ "`")
      else
        match readTypeDoc ctx (form :: forms) with
        | .error error => .error error
        | .ok (_, []) => ctx.fail item "a type is (type name body param...)"
        | .ok (doc, bodyForm :: paramForms) =>
          match readAll (readName ctx) paramForms with
          | .error error => .error error
          | .ok params =>
            (readTypeBody ctx bodyForm params).map fun body =>
              OrdMap.insert types name ⟨doc, ⟨[], body⟩⟩
  | _ => ctx.fail item "a type is (type name body param...)"

/-- Reads what follows the result type of a value: a documentation, only as
the first one, and annotations. -/
def readExtras (ctx : Context) (first : Bool) (doc : Option String)
    (annotations : List Annotation) :
    List (Located F) → Result (Option String × List Annotation)
  | [] => .ok (doc, annotations)
  | extra :: extras =>
    match headOf extra with
    | none => ctx.fail extra "expected a doc or an annotation"
    | some head =>
      match checkHead ctx extra head with
      | .error error => .error error
      | .ok _ =>
        if head = "doc" then
          if !first then ctx.fail extra "a doc must be the first item"
          else
            match readDoc ctx extra with
            | .error error => .error error
            | .ok text => readExtras ctx false (some text) annotations extras
        else if head = "annotation" then
          match readAnnotation ctx extra with
          | .error error => .error error
          | .ok note => readExtras ctx false doc (annotations ++ [note]) extras
        else ctx.fail extra ("unknown item form `" ++ head ++ "`")

def readValueItem (ctx : Context) (item : Located F)
    (values : List (Name × Documented ValueSpecification)) :
    Result (List (Name × Documented ValueSpecification)) :=
  match item.children with
  | _ :: nameForm :: paramsForm :: outputForm :: extras =>
    match readName ctx nameForm with
    | .error error => .error error
    | .ok name =>
      if OrdMap.contains values name then
        ctx.fail item ("duplicate value `" ++ name.toCanonical ++ "`")
      else
        match paramsForm.datum with
        | .sequence _ none =>
          match readAll (readParam ctx) paramsForm.children with
          | .error error => .error error
          | .ok inputs =>
            match readType ctx outputForm with
            | .error error => .error error
            | .ok output =>
              (readExtras ctx true none [] extras).map fun (doc, annotations) =>
                OrdMap.insert values name ⟨doc, ⟨annotations, inputs, output⟩⟩
        | _ => ctx.fail paramsForm "expected a parameter list"
  | _ => ctx.fail item "a val is (val name ((arg type)...) result item...)"

def readItems (ctx : Context) (first : Bool) (spec : ModuleSpecification) :
    List (Located F) → Result ModuleSpecification
  | [] => .ok spec
  | item :: items =>
    match headOf item with
    | none => ctx.fail item "expected an item form"
    | some head =>
      match checkHead ctx item head with
      | .error error => .error error
      | .ok _ =>
        if head = "doc" then
          if !first then ctx.fail item "a doc must be the first item"
          else
            match readDoc ctx item with
            | .error error => .error error
            | .ok text => readItems ctx false { spec with doc := some text } items
        else if head = "type" then
          match readTypeItem ctx item spec.types with
          | .error error => .error error
          | .ok types => readItems ctx false { spec with types } items
        else if head = "val" then
          match readValueItem ctx item spec.values with
          | .error error => .error error
          | .ok values => readItems ctx false { spec with values } items
        else ctx.fail item ("unknown item form `" ++ head ++ "`")

def readModule (ctx : Context) (at_ : Located F) : Result (Path × ModuleSpecification) :=
  match at_.children with
  | _ :: nameForm :: items =>
    match symbol nameForm with
    | none => ctx.fail nameForm "expected a module name"
    | some text =>
      match readPath ctx nameForm text "module name" with
      | .error error => .error error
      | .ok path => (readItems ctx true ⟨[], [], [], none⟩ items).map fun spec => (path, spec)
  | _ => ctx.fail at_ "a module is (module name item...)"

def readModules (ctx : Context) (modules : List (Path × ModuleSpecification)) :
    List (Located F) → Result (List (Path × ModuleSpecification))
  | [] => .ok modules
  | form :: forms =>
    match headOf form with
    | none => ctx.fail form "expected (module name item...)"
    | some head =>
      match checkHead ctx form head with
      | .error error => .error error
      | .ok _ =>
        if head ≠ "module" then ctx.fail form "expected (module name item...)"
        else
          match readModule ctx form with
          | .error error => .error error
          | .ok (path, spec) =>
            if OrdMap.contains modules path then
              ctx.fail form ("duplicate module `" ++ path.toCanonical ++ "`")
            else readModules ctx (OrdMap.insert modules path spec) forms

variable (F) in
def parseForms [Doubles F] (text : List Char) : Result (List (Located F)) :=
  match parseProgramLocated F text with
  | .ok forms => .ok forms
  | .error (.syntaxError message offset) =>
    let (line, column) := lineColumn text offset
    .error (.specError line column message)
  | .error error => .error (.reader error)

def readPackageForm (source : List Char) (form : Located F) :
    Result (Path × PackageSpecification) :=
  let blank : Context := ⟨source, Path.fromNames []⟩
  let nameForm := form.children.tail.head?.getD form
  match nameForm.datum with
  | .text nameText =>
    match readPath blank nameForm nameText "package name" with
    | .error error => .error error
    | .ok packageName =>
      (readModules ⟨source, packageName⟩ [] (form.children.drop 2)).map fun modules =>
        (packageName, ⟨modules⟩)
  | _ => blank.fail nameForm "expected a package name"

variable (F) in
def readPackage [Doubles F] (source : List Char) : Result (Path × PackageSpecification) :=
  match parseForms F source with
  | .error error => .error error
  | .ok [] => .error (.specError 1 1 "expected (package \"name\" module...)")
  | .ok (form :: forms) =>
    if forms.isEmpty ∧ headOf form = some "package" then readPackageForm source form
    else Context.fail ⟨source, Path.fromNames []⟩ form "expected (package \"name\" module...)"

end Morphir.Scheme.Spec
