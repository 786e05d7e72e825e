import Morphir.Scheme.SpecTypes

/-!
# The round trip of annotations and items

The items of a module are printed as texts that read as the items, exactly
when no word of them starts with a digit.
-/

namespace Morphir.Scheme.Spec

open IR List Located

variable {F : Type} [Doubles F] {packageName : Path} {depth : Nat}

lemma prints_atom {f : Form} {d : Datum F} (hdep : depth ≤ 256) (hla : f.Laid)
    (hhei : f.height = 0) (hdt : f.datum = some d) (hpts : d.parts = []) :
    Prints (F := F) depth f.source ⟨[], fun l => ∃ start, l = .mk d start []⟩ := by
  refine ⟨f, hla, rfl, by omega, fun _ => ⟨d, hdt⟩, fun {k l} hl hd => ?_⟩
  rw [hdt] at hd
  exact word_start hpts hl (Option.some.inj hd).symm

variable {l : Located F}

omit [Doubles F] in
lemma Headed.headOf_eq {keyword : String} {Rs : List (Meaning F)}
    (h : Headed (IsKeyword keyword) Rs l) : headOf l = some keyword := by
  obtain ⟨items, start, head, children, rfl, _, ⟨start', rfl⟩, _⟩ := h
  rfl

section Annotations

variable [Doubles Double]

omit [Doubles F] [Doubles Double] in
lemma readDataAll_eq (ctx : Context) (ls : List (Located F)) :
    readDataAll ctx ls = readAll (readData ctx) ls := by
  induction ls with
  | nil => rfl
  | cons l ls ih =>
    rw [readDataAll, readAll, ih]
    cases readData ctx l <;> rfl

variable (values : List Value)

lemma printDataAll_eq : printDataAll values = values.map printData := by
  induction values with
  | nil => rfl
  | cons value values ih => simp [printDataAll, ih]

def dataMeaning (F : Type) (packageName : Path) (value : Value) : Meaning F :=
  ⟨[], Rereads packageName readData [] value⟩

omit [Doubles F] [Doubles Double] in
lemma allWords_dataMeaning :
    allWords (values.map (dataMeaning F packageName)) = [] := by
  simp [allWords, dataMeaning]

variable {ctx : Context}

lemma readData_prints (hl : Fits depth l) :
    ∀ value, readData ctx l = .ok value →
      Prints depth (printData value) (dataMeaning F packageName value) := by
  induction hl with
  | @mk depth start d children hdep hpts hki ih =>
    intro value h
    cases d with
    | text s =>
      cases h
      refine (prints_atom hdep .text rfl rfl rfl).imp id ?_
      rintro l ⟨start', rfl⟩ source
      exact gives_ok.congr (by simp [bare_nil])
    | boolean b =>
      cases h
      have hpri := prints_atom (F := F) (f := .boolean b) hdep .boolean rfl rfl rfl
      have ht : printData (.literal .default (.bool b)) = (Form.boolean b).source := by
        cases b <;> rfl
      rw [ht]
      refine hpri.imp id ?_
      rintro l ⟨start', rfl⟩ source
      exact gives_ok.congr (by simp [bare_nil])
    | number n =>
      cases n with
      | integer n =>
        cases h
        refine (prints_atom hdep .integer rfl rfl rfl).imp id ?_
        rintro l ⟨start', rfl⟩ source
        exact gives_ok.congr (by simp [bare_nil])
      | _ => cases h
    | sequence items tail =>
      cases tail with
      | some d => cases h
      | none =>
        rw [readData, readDataAll_eq] at h
        obtain ⟨values, hvals, rfl⟩ := exists_of_map_ok h
        have hpri := Prints.parens depth
          (values.map fun v => (printData v, dataMeaning F packageName v))
          hdep ?_
        · simp only [map_map, Function.comp_def] at hpri
          rw [printData, printDataAll_eq]
          refine hpri.imp (fun _ => ?_) ?_
          · simp only [allWords_dataMeaning, bare_nil]
          rintro l ⟨items', start', children', rfl, _, hall⟩ source
          rw [readData, readDataAll_eq]
          exact ((readAll_gives hall source).map _).congr
            (by simp [Bare])
        · intro i hi
          obtain ⟨value, hval, rfl⟩ := mem_map.mp hi
          exact readAll_forall hvals
            (fun c hc => ih c hc) value hval
    | _ => cases h

def annotationWords : Annotation → List (List Char)
  | .compact name _ => [name.toCanonical.toList]
  | .structured name _ => [name.toCanonical.toList]

variable {name : FQName}

omit [Doubles F] [Doubles Double] in
lemma readQualified_canonical {message : String} (h : readQualified ctx l message = .ok name) :
    CanonicalReference name := by
  unfold readQualified at h
  split at h
  · cases h
  · split at h
    · exact readReference_canonical h
    · cases h

omit [Doubles F] [Doubles Double] in
lemma readQualified_gives (ctx : Context) {w : List Char} (hha : '#' ∈ w)
    (hrd : ∀ l : Located F, readReference ctx l (String.ofList w) = .ok name) (hl : IsWord w l)
    (message : String) : Gives (readQualified ctx l message) (Bare [w]) name := by
  by_cases hb : Bare [w]
  · obtain ⟨start, rfl⟩ := hl.symbol hb
    rw [readQualified, symbol_symbol]
    simp only [String.toList_ofList, if_pos hha, hrd]
    exact gives_ok.congr (by simp [hb])
  · obtain ⟨n, start, rfl⟩ := hl.number hb
    exact gives_fail hb

omit [Doubles F] [Doubles Double] in
lemma mem_toCanonical (name : FQName) : '#' ∈ name.toCanonical.toList := by
  simp [toCanonical_eq, localText]

/-- A named form: its head is the keyword and it reads as the value. -/
def Carries {α : Type} (packageName : Path) (keyword : String)
    (read : Context → Located F → Result α) (words : List (List Char)) (x : α) (l : Located F) : Prop :=
  headOf l = some keyword ∧ Rereads packageName read words x l

def annotationMeaning (F : Type) (packageName : Path) (note : Annotation) : Meaning F :=
  ⟨annotationWords note,
    Carries packageName "annotation" readAnnotation (annotationWords note) note⟩

variable [JsonSyntax F]

def annotationOf (name : FQName) (values : List Value) : Annotation :=
  if values.isEmpty then .compact name none else .structured name (values.map .positional)

omit [Doubles F] [JsonSyntax F] in
lemma printAnnotation_annotationOf (name : FQName) (values : List Value) :
    printAnnotation (annotationOf name values) =
      parens ("annotation".toList :: name.toCanonical.toList :: values.map printData) := by
  cases values with
  | nil => rfl
  | cons value values => simp [annotationOf, printAnnotation, printArgument, Function.comp_def]

omit [Doubles F] [Doubles Double] [JsonSyntax F] in
lemma annotationWords_annotationOf (name : FQName) (values : List Value) :
    annotationWords (annotationOf name values) = [name.toCanonical.toList] := by
  cases values <;> rfl

lemma annotation_prints (h : CanonicalReference name) (hdep : depth + 1 ≤ 256) (values : List Value)
    (hvals : ∀ v ∈ values, Prints (depth + 1) (printData v) (dataMeaning F packageName v)) :
    Prints depth ( printAnnotation (annotationOf name values))
      (annotationMeaning F packageName (annotationOf name values)) := by
  rw [printAnnotation_annotationOf, annotationMeaning, annotationWords_annotationOf]
  have hpri := Prints.parens depth
    (("annotation".toList, ⟨[], IsKeyword "annotation"⟩) ::
      (name.toCanonical.toList, ⟨[name.toCanonical.toList], IsWord name.toCanonical.toList⟩) ::
      values.map fun v => (printData v, dataMeaning F packageName v))
    (Nat.le_of_succ_le hdep) ?_
  · simp only [map_cons, map_map] at hpri
    refine hpri.imp (fun hb => ?_) fun l hl => ⟨hl.headed.headOf_eq, fun source => ?_⟩
    · show Bare ([name.toCanonical.toList] ++ allWords (values.map (dataMeaning F packageName)))
      rw [allWords_dataMeaning]
      exact hb
    obtain ⟨items, start, head, children, rfl, _, _, hki⟩ := hl.headed
    cases hki with
    | @cons _ nameForm _ args hname hargs =>
      have hgives := readQualified_gives ⟨source, packageName⟩ (mem_toCanonical name)
        (fun l => by rw [String.ofList_toList, readReference_toCanonical h]) hname
        "an annotation needs a qualified name"
      rcases hgives.cases with ⟨hb, hrd⟩ | ⟨hb, error, hrd⟩
      · simp only [ readAnnotation, children, hrd, readDataAll_eq]
        cases values with
        | nil =>
          cases hargs
          exact gives_ok.congr (iff_of_true trivial hb)
        | cons value values =>
          have hall := (readAll_gives hargs source).map fun values =>
            Annotation.structured name (values.map .positional)
          cases hargs
          exact hall.congr (iff_of_true (by simp [Bare]) hb)
      · simp only [ readAnnotation, children, hrd]
        exact gives_error hb
  · intro i hi
    rcases mem_cons.mp hi with rfl | hi
    · exact prints_keyword _ hdep rfl (by decide) (by decide)
    rcases mem_cons.mp hi with rfl | hi
    · exact prints_word hdep h.fullSpelling (by decide)
    · obtain ⟨v, hv, rfl⟩ := mem_map.mp hi
      exact hvals v hv

lemma readAnnotation_prints (hl : Fits depth l) {note : Annotation}
    (h : readAnnotation ctx l = .ok note) :
    Prints depth ( printAnnotation note) (annotationMeaning F packageName note) := by
  have hki := hl.children
  unfold readAnnotation at h
  split at h
  · next head nameForm args hargs =>
    rw [hargs] at hki
    have hdep := (hki head mem_cons_self).depth_le
    split at h
    · cases h
    · next name hname =>
      have hcan := readQualified_canonical hname
      split at h
      · cases h
        exact annotation_prints hcan hdep [] (by simp)
      · next hne =>
        rw [readDataAll_eq] at h
        obtain ⟨values, hvals, rfl⟩ := exists_of_map_ok h
        have hpri :
            Prints depth _ (annotationMeaning F packageName (annotationOf name values)) :=
          annotation_prints hcan hdep values (readAll_forall hvals
            fun c hc => readData_prints (hki c (by simp [hc])))
        cases values with
        | nil =>
          cases readAll_ok hvals
          exact absurd rfl hne
        | cons value values => exact hpri
  · cases h

end Annotations

def docMeaning (F : Type) (packageName : Path) (text : String) : Meaning F :=
  ⟨[], Carries packageName "doc" readDoc [] text⟩

lemma prints_doc [JsonSyntax F] (hdep : depth + 1 ≤ 256) (text : String) :
    Prints depth (printDoc text) (docMeaning F packageName text) := by
  have hpri := Prints.headed quote
    (fun text => ⟨[], fun l => ∃ start, l = .mk (.text text) start []⟩) [text]
    (prints_keyword (F := F) "doc" hdep rfl (by decide) (by decide)) ?_
  · have ht : printDoc text = parens ("doc".toList :: [text].map quote) := by
      rw [map_singleton, parens_cons_cons, join, intercalate_singleton]
      rfl
    rw [ht]
    refine hpri.imp (by simp [allWords]) fun l hl => ⟨hl.headOf_eq, fun source => ?_⟩
    obtain ⟨items, start, head, children, rfl, _, _, hki⟩ := hl
    cases hki with
    | cons ht hnil =>
      cases hnil
      obtain ⟨start', rfl⟩ := ht
      exact gives_ok.congr (by simp [bare_nil])
  · intro text' ht
    exact prints_atom hdep .text rfl rfl rfl

omit [Doubles F] in
lemma readParam_gives {field : Name × IRType} (hname : Canonical field.1)
    (hl : IsField packageName field l) :
    Rereads packageName readParam (fieldWords packageName field) field l := by
  intro source
  obtain ⟨items, start, children, rfl, _, hki⟩ := hl
  cases hki with
  | cons hfst hr =>
    cases hr with
    | cons hty hnil =>
      cases hnil
      have hws : Bare (fieldWords packageName field) ↔
          Bare [nameText field.1] ∧ Bare (typeWords packageName field.2) := bare_cons
      rcases (readName_gives ⟨source, packageName⟩ hname hfst).cases with
        ⟨hb, hrd⟩ | ⟨hb, error, hrd⟩
      · simp only [readParam, children, hrd]
        exact ((hty source).map fun type => (field.1, type)).congr (by simp [hws, hb])
      · simp only [readParam, children, hrd]
        exact gives_error (by simp [hws, hb])

variable {ctx : Context}

lemma readParam_reprints [JsonSyntax F] (hl : Fits depth l) {field : Name × IRType}
    (h : readParam ctx l = .ok field) : FieldReprints F ctx.packageName depth field := by
  have hki := hl.children
  unfold readParam at h
  split at h
  · next nameForm typeForm hforms =>
    rw [hforms] at hki
    split at h
    · cases h
    · next name hname =>
      obtain ⟨type, hty, rfl⟩ := exists_of_map_ok h
      exact ⟨readName_canonical hname, (readType_reprints (hki typeForm (by simp))).1 _ hty⟩
  · cases h

structure ConstructorReprints (F : Type) [Doubles F] (packageName : Path) (depth : Nat)
    (constructor : Name × List (Name × IRType)) : Prop where
  name : Canonical constructor.1
  named : constructor.2 = nameArguments (constructor.2.map Prod.snd)
  types : ∀ t ∈ constructor.2.map Prod.snd, Reprints F packageName (depth + 1) t
  depth_le : depth + 1 ≤ 256

def constructorWords (packageName : Path) (constructor : Name × List (Name × IRType)) :
    List (List Char) :=
  nameText constructor.1 :: (constructor.2.map Prod.snd).flatMap (typeWords packageName)

def IsConstructor (packageName : Path) (constructor : Name × List (Name × IRType))
    (l : Located F) : Prop :=
  Headed (IsWord (nameText constructor.1))
    ((constructor.2.map Prod.snd).map (typeMeaning F packageName)) l

def constructorMeaning (F : Type) (packageName : Path)
    (constructor : Name × List (Name × IRType)) : Meaning F :=
  ⟨constructorWords packageName constructor, IsConstructor packageName constructor⟩

lemma ConstructorReprints.prints [JsonSyntax F] {constructor : Name × List (Name × IRType)}
    (h : ConstructorReprints F packageName depth constructor) :
    Prints depth (printConstructor packageName constructor)
      (constructorMeaning F packageName constructor) := by
  have htext : printConstructor packageName constructor =
      parens (nameText constructor.1 :: printTypes packageName (constructor.2.map Prod.snd)) := by
    simp [printConstructor, printTypes_eq, Function.comp_def]
  rw [htext]
  refine (Reprints.headed _ (prints_word h.depth_le h.name.spelling (by decide))
    fun t ht => (h.types t ht).prints).imp ?_ fun _ hl => hl
  rw [typesWords_eq]
  exact id

variable {constructors : Constructors}

lemma readConstructors_gives (before : Constructors) {children : List (Located F)}
    (hrep : ∀ c ∈ constructors, ConstructorReprints F packageName depth c)
    (hdi : OrdMap.Distinct (before ++ constructors))
    (h : List.Forall₂ Meaning.reads (constructors.map (constructorMeaning F packageName)) children)
    (source : List Char) :
    Gives (readConstructors ⟨source, packageName⟩ before children)
      (Bare (constructors.flatMap (constructorWords packageName))) (before ++ constructors) := by
  induction constructors generalizing before children with
  | nil =>
    cases h
    rw [append_nil]
    exact gives_ok.congr (by simp [bare_nil])
  | cons constructor constructors ih =>
    cases h with
    | cons hfst hr =>
      obtain ⟨items, start, head, args, rfl, _, hh, hargs⟩ := hfst
      have hctor := hrep constructor mem_cons_self
      obtain ⟨hcon, hins⟩ := contains_eq_false hdi
      have hcs := ih (before ++ [constructor])
        (fun c hc => hrep c (mem_cons_of_mem _ hc)) (by simpa using hdi) hr
      rw [append_assoc] at hcs
      have hws :
          Bare ((constructor :: constructors).flatMap (constructorWords packageName)) ↔
          Bare [nameText constructor.1] ∧
            Bare ((constructor.2.map Prod.snd).flatMap (typeWords packageName)) ∧
            Bare (constructors.flatMap (constructorWords packageName)) := by
        rw [flatMap_cons, bare_append, constructorWords, bare_cons, and_assoc]
      by_cases hb : Bare [nameText constructor.1]
      · obtain ⟨start', rfl⟩ := hh.symbol hb
        have hname := (readName_gives ⟨source, packageName⟩ hctor.name hh
          constructor.1).mpr ⟨hb, rfl⟩
        rcases (readAll_gives hargs source).cases with
          ⟨hb', hrd⟩ | ⟨hb', error, hrd⟩
        · simp only [readConstructors, headOf, datum, children, symbol_symbol,
            hname, hcon, readTypes_eq, hrd]
          rw [← hctor.named, hins]
          exact hcs.congr
            (by rw [hws, and_iff_right hb, and_iff_right hb'])
        · simp only [readConstructors, headOf, datum, children, symbol_symbol,
            hname, hcon, readTypes_eq, hrd]
          exact gives_error fun h => hb' (hws.mp h).2.1
      · obtain ⟨n, start', rfl⟩ := hh.number hb
        exact gives_fail fun h => hb (hws.mp h).1

omit [Doubles F] in
lemma nameArguments_snd (types : List IRType) : (nameArguments types).map Prod.snd = types := by
  rw [nameArguments, map_map]
  exact zipIdx_map_fst 0 types

lemma readConstructors_ok [JsonSyntax F] {before : Constructors} {ls : List (Located F)}
    (hls : ∀ l ∈ ls, Fits depth l) (hdi : OrdMap.Distinct before)
    (hpre : ∀ c ∈ before, ConstructorReprints F ctx.packageName depth c)
    (h : readConstructors ctx before ls = .ok constructors) :
    OrdMap.Distinct constructors ∧
      ∀ c ∈ constructors, ConstructorReprints F ctx.packageName depth c := by
  induction ls generalizing before with
  | nil =>
    cases h
    exact ⟨hdi, hpre⟩
  | cons l ls ih =>
    have hki := (hls l mem_cons_self).children
    unfold readConstructors at h
    split at h
    · next nameForm args _ hargs =>
      rw [hargs] at hki
      split at h
      · cases h
      · next name hname =>
        split at h
        · cases h
        · split at h
          · cases h
          · next types htys =>
            rw [readTypes_eq] at htys
            refine ih (fun l hl => hls l (mem_cons_of_mem _ hl)) (hdi.insert _ _) ?_ h
            intro c hc
            rcases OrdMap.mem_insert hc with rfl | hc
            · refine ⟨readName_canonical hname, ?_, ?_, (hki nameForm mem_cons_self).depth_le⟩
              · rw [nameArguments_snd]
              · rw [nameArguments_snd]
                exact readAll_forall htys fun c hc =>
                  (readType_reprints (hki c (mem_cons_of_mem _ hc))).1
            · exact hpre c hc
    · cases h

def bodyParams : TypeSpecificationBody → List Name
  | .opaqueType params => params
  | .typeAlias params _ => params
  | .custom params _ => params
  | .derived params _ => params

def bodyWords (packageName : Path) : TypeSpecificationBody → List (List Char)
  | .opaqueType _ => []
  | .typeAlias _ target => typeWords packageName target
  | .custom _ constructors => constructors.flatMap (constructorWords packageName)
  | .derived _ details =>
    typeWords packageName details.baseType ++
      [printReference packageName details.fromBaseType,
        printReference packageName details.toBaseType]

omit [Doubles F] in
lemma printTypeBody_snd (packageName : Path) (body : TypeSpecificationBody) :
    (printTypeBody packageName body).2 = bodyParams body := by
  cases body <;> rfl

def IsBody (packageName : Path) (body : TypeSpecificationBody) (l : Located F) : Prop :=
  headOf l ≠ some "doc" ∧ ∀ source, Gives (readTypeBody ⟨source, packageName⟩ l (bodyParams body))
      (Bare (bodyWords packageName body)) body

def BodyPrints (F : Type) [Doubles F] (packageName : Path) (depth : Nat)
    (body : TypeSpecificationBody) : Prop :=
  Prints (F := F) depth (printTypeBody packageName body).1
    ⟨bodyWords packageName body, IsBody packageName body⟩

variable [JsonSyntax F]

lemma opaque_prints (hdep : depth + 1 ≤ 256) (params : List Name) :
    BodyPrints F packageName depth (.opaqueType params) := by
  refine (Prints.headed nameText (fun _ => ⟨[], fun _ => True⟩) []
    (prints_keyword "opaque" hdep rfl (by decide) (by decide)) (by simp)).imp
    id ?_
  intro l hl
  have hh := hl.headOf_eq
  obtain ⟨items, start, head, children, rfl, _, _, hki⟩ := hl
  cases hki
  refine ⟨by simp [hh], fun source => ?_⟩
  simp only [readTypeBody, hh]
  exact gives_ok.congr (by simp [bodyWords, bare_nil])

lemma alias_prints {target : IRType} (h : Reprints F packageName (depth + 1) target)
    (params : List Name) : BodyPrints F packageName depth (.typeAlias params target) := by
  have ht : (printTypeBody packageName (.typeAlias params target)).1 =
      parens ("alias".toList :: printTypes packageName [target]) := by
    rw [printTypes, printTypes, parens_cons_cons, join, intercalate_singleton]
    rfl
  unfold BodyPrints
  rw [ht]
  refine (Reprints.headed [target] (prints_keyword "alias" h.prints.depth_le rfl
    (by decide) (by decide)) (by simpa using h.prints)).imp
    (by simp [typesWords, bodyWords]) ?_
  intro l hl
  have hh := hl.headOf_eq
  obtain ⟨items, start, head, children, rfl, _, _, hki⟩ := hl
  cases hki with
  | cons htgt hnil =>
    cases hnil
    refine ⟨by simp [hh], fun source => ?_⟩
    simp only [readTypeBody, hh]
    exact (htgt source).map _

lemma custom_prints (hdep : depth + 1 ≤ 256)
    (h : ∀ c ∈ constructors, ConstructorReprints F packageName (depth + 1) c)
    (hdi : OrdMap.Distinct constructors) (params : List Name) :
    BodyPrints F packageName depth (.custom params constructors) := by
  refine (Prints.headed _ _ _ (prints_keyword "custom" hdep rfl (by decide)
    (by decide)) fun c hc => (h c hc).prints).imp
    (by simp [allWords, flatMap_map, constructorMeaning, bodyWords]) ?_
  intro l hl
  have hh := hl.headOf_eq
  obtain ⟨items, start, head, children, rfl, _, _, hki⟩ := hl
  refine ⟨by simp [hh], fun source => ?_⟩
  simp only [readTypeBody, hh]
  exact (readConstructors_gives [] h hdi hki source).map _

omit [Doubles F] [JsonSyntax F] in
lemma derivedText (base first second : List Char) :
    "(derived ".toList ++ base ++ [' '] ++ first ++ [' '] ++ second ++ [')'] =
      parens ["derived".toList, base, first, second] := by
  rw [parens_cons_cons, show "(derived ".toList = '(' :: ("derived".toList ++ [' ']) by decide]
  simp only [join, intercalate_cons_cons, intercalate_singleton, append_assoc,
    cons_append, nil_append]

lemma derived_prints {details : DerivedTypeDetails}
    (h : Reprints F packageName (depth + 1) details.baseType)
    (hfrom : CanonicalReference details.fromBaseType) (hto : CanonicalReference details.toBaseType)
    (params : List Name) : BodyPrints F packageName depth (.derived params details) := by
  have hdep := h.prints.depth_le
  have ht : (printTypeBody packageName (.derived params details)).1 =
      parens ["derived".toList, printType packageName details.baseType,
        printReference packageName details.fromBaseType,
        printReference packageName details.toBaseType] := derivedText _ _ _
  unfold BodyPrints
  rw [ht]
  have hpri := Prints.parens depth
    ([("derived".toList, ⟨[], IsKeyword "derived"⟩),
      (printType packageName details.baseType, typeMeaning F packageName details.baseType),
      (printReference packageName details.fromBaseType,
        ⟨[printReference packageName details.fromBaseType],
          IsWord (printReference packageName details.fromBaseType)⟩),
      (printReference packageName details.toBaseType,
        ⟨[printReference packageName details.toBaseType],
          IsWord (printReference packageName details.toBaseType)⟩)])
    (Nat.le_of_succ_le hdep) ?_
  · refine hpri.imp (by simp [allWords, typeMeaning, bodyWords]) fun l hl => ?_
    have hh := hl.headed.headOf_eq
    obtain ⟨items, start, head, children, rfl, _, _, hki⟩ := hl.headed
    refine ⟨by simp [hh], fun source => ?_⟩
    rcases hki with _ | ⟨hba, hr⟩
    rcases hr with _ | ⟨hfst, hr⟩
    rcases hr with _ | ⟨hsnd, hnil⟩
    cases hnil
    have hws : Bare (bodyWords packageName (.derived params details)) ↔
        Bare (typeWords packageName details.baseType) ∧
          Bare [printReference packageName details.fromBaseType] ∧
          Bare [printReference packageName details.toBaseType] := by
      rw [bodyWords, bare_append, bare_cons]
    have hfrom := readQualified_gives ⟨source, packageName⟩
      (mem_printReference packageName details.fromBaseType)
      (fun l => readReference_printReference hfrom) hfst "expected a qualified name"
    have hto := readQualified_gives ⟨source, packageName⟩
      (mem_printReference packageName details.toBaseType)
      (fun l => readReference_printReference hto) hsnd "expected a qualified name"
    simp only [readTypeBody, hh, children, tail_cons]
    rcases (hba source).cases with ⟨hb, hrd⟩ | ⟨hb, error, hrd⟩
    · rcases hfrom.cases with ⟨hb', hrd'⟩ | ⟨hb', error, hrd'⟩
      · simp only [hrd, hrd']
        exact (hto.map _).congr (by rw [hws, and_iff_right hb, and_iff_right hb'])
      · simp only [hrd, hrd']
        exact gives_error fun h => hb' (hws.mp h).2.1
    · simp only [hrd]
      exact gives_error fun h => hb (hws.mp h).1
  · intro i hi
    simp only [mem_cons, not_mem_nil, or_false] at hi
    rcases hi with rfl | rfl | rfl | rfl
    · exact prints_keyword _ hdep rfl (by decide) (by decide)
    · exact h.prints
    · exact prints_word hdep (hfrom.spelling packageName) (by decide)
    · exact prints_word hdep (hto.spelling packageName) (by decide)

lemma readTypeBody_prints (hl : Fits depth l) {params : List Name} {body : TypeSpecificationBody}
    (h : readTypeBody ctx l params = .ok body) :
    BodyPrints F ctx.packageName depth body ∧ bodyParams body = params := by
  have hki := hl.children
  unfold readTypeBody at h
  split at h
  · cases h
  · next head hh =>
    obtain ⟨first, rest, hforms⟩ : ∃ first rest, l.children = first :: rest := by
      unfold headOf at hh
      split at hh
      · exact ⟨_, _, ‹_›⟩
      · cases hh
    rw [hforms] at hki
    have hdep := (hki first mem_cons_self).depth_le
    have htl : ∀ c ∈ rest, Fits (depth + 1) c := fun c hc => hki c (mem_cons_of_mem first hc)
    simp only [hforms, tail_cons] at h
    split at h
    · cases h
    split at h
    · split at h
      · cases h
        exact ⟨opaque_prints hdep params, rfl⟩
      · cases h
    split at h
    · split at h
      · next target =>
        obtain ⟨type, hty, rfl⟩ := exists_of_map_ok h
        exact ⟨alias_prints ((readType_reprints (htl target (by simp))).1 _ hty) params, rfl⟩
      · cases h
    split at h
    · obtain ⟨constructors, hcs, rfl⟩ := exists_of_map_ok h
      obtain ⟨hdi, hrep⟩ := readConstructors_ok htl OrdMap.distinct_nil (by simp) hcs
      exact ⟨custom_prints hdep hrep hdi params, rfl⟩
    split at h
    · split at h
      · next base fromForm toForm =>
        split at h
        · cases h
        · next baseType hba =>
          split at h
          · cases h
          · next fromBaseType hfrom =>
            obtain ⟨toBaseType, hto, rfl⟩ := exists_of_map_ok h
            exact ⟨derived_prints ((readType_reprints (htl base (by simp))).1 _ hba)
              (readQualified_canonical hfrom) (readQualified_canonical hto) params, rfl⟩
      · cases h
    · cases h

end Morphir.Scheme.Spec
