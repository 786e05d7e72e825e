import Morphir.Scheme.SpecItems

/-!
# The round trip of items and modules

A module that was read is printed as a text that reads as the module, exactly
when no word of it starts with a digit.
-/

namespace Morphir.Scheme.Spec

open IR List Located OrdMap Meaning

variable {F : Type} [Doubles F] [JsonSyntax F] {packageName : Path} {depth : Nat}

omit [Doubles F] [JsonSyntax F] in
lemma flatMap_const_nil {α β : Type} (l : List α) : l.flatMap (fun _ => ([] : List β)) = [] :=
  flatMap_eq_nil_iff.mpr fun _ _ => rfl

variable {doc : Option String}

lemma prints_docs (hdoc : ∀ text ∈ doc, depth + 1 ≤ 256) :
    ∀ text ∈ doc.toList, Prints depth (printDoc text) (docMeaning F packageName text) :=
  fun text ht => prints_doc (hdoc text (Option.mem_toList.mp ht)) text

variable {l : Located F}

omit [Doubles F] [JsonSyntax F] in
lemma Carries.readDoc {text : String} (h : Carries packageName "doc" readDoc [] text l)
    (source : List Char) : Spec.readDoc ⟨source, packageName⟩ l = .ok text :=
  (h.2 source text).mpr ⟨bare_nil, rfl⟩

variable {ctx : Context}

omit [Doubles F] [JsonSyntax F] in
lemma readDoc_depth (hl : Fits depth l) {text : String} (h : readDoc ctx l = .ok text) :
    depth + 1 ≤ 256 := by
  have hki := hl.children
  unfold readDoc at h
  split at h
  · next head _ _ _ hforms =>
    rw [hforms] at hki
    exact (hki head mem_cons_self).depth_le
  · cases h

def typeItemWords (packageName : Path) (item : Name × Documented TypeSpecification) :
    List (List Char) :=
  nameText item.1 :: (bodyWords packageName item.2.value.body ++
    (bodyParams item.2.value.body).flatMap fun p => [nameText p])

structure TypeItemReprints (F : Type) [Doubles F] (packageName : Path) (depth : Nat)
    (item : Name × Documented TypeSpecification) : Prop where
  name : Canonical item.1
  annotations : item.2.value.annotations = []
  doc : ∀ text ∈ item.2.doc, depth + 1 + 1 ≤ 256
  body : BodyPrints F packageName (depth + 1) item.2.value.body
  params : ∀ p ∈ bodyParams item.2.value.body, Canonical p

/-- The located data carry an item of a map, which is read into the map. -/
def IsItem {α : Type} (packageName : Path) (keyword : String)
    (read : Context → Located F → List (Name × α) → Result (List (Name × α)))
    (words : List (List Char)) (item : Name × α) (l : Located F) : Prop :=
  headOf l = some keyword ∧ ∀ source before, OrdMap.contains before item.1 = false →
    Gives (read ⟨source, packageName⟩ l before) (Bare words)
      (OrdMap.insert before item.1 item.2)

omit [JsonSyntax F] in
lemma printTypeItem_eq (item : Name × Documented TypeSpecification) :
    printTypeItem packageName item =
      parens ("type".toList :: nameText item.1 :: (item.2.doc.toList.map printDoc ++
        (printTypeBody packageName item.2.value.body).1 ::
          (bodyParams item.2.value.body).map nameText)) := by
  rw [parens_cons_cons, ← printTypeBody_snd packageName]
  unfold printTypeItem
  simp only [join, intercalate_cons_cons, append_assoc, cons_append, nil_append]
  rw [show "(type".toList = '(' :: "type".toList by decide, cons_append]

def typeItemMeaning (F : Type) (packageName : Path)
    (item : Name × Documented TypeSpecification) : Meaning F :=
  ⟨typeItemWords packageName item,
    IsItem packageName "type" readTypeItem (typeItemWords packageName item) item⟩

lemma TypeItemReprints.prints {item : Name × Documented TypeSpecification}
    (h : TypeItemReprints F packageName depth item) :
    Prints depth (printTypeItem packageName item) (typeItemMeaning F packageName item) := by
  obtain ⟨name, doc, ⟨annotations, body⟩⟩ := item
  obtain ⟨hname, hann, hdoc, hbo, hpar⟩ := h
  obtain rfl : annotations = [] := hann
  have hdep := Prints.depth_le hbo
  rw [printTypeItem_eq]
  have hpri := Prints.parens depth
    (("type".toList, ⟨[], IsKeyword "type"⟩) ::
      (nameText name, ⟨[nameText name], IsWord (nameText name)⟩) ::
      (doc.toList.map (fun text => (printDoc text, docMeaning F packageName text)) ++
        ((printTypeBody packageName body).1,
          ⟨bodyWords packageName body, IsBody packageName body⟩) ::
          (bodyParams body).map fun p =>
            (nameText p, ⟨[nameText p], Rereads packageName readName [nameText p] p⟩)))
    (Nat.le_of_succ_le hdep) ?_
  · simp only [map_cons, map_append, map_map] at hpri
    refine hpri.imp (fun hb => ?_) fun l hl => ⟨hl.headed.headOf_eq, fun source before hcon => ?_⟩
    · simpa [allWords, docMeaning, flatMap_map, typeItemWords, flatMap_const_nil] using hb
    obtain ⟨items, start, head, children, rfl, _, _, hki⟩ := hl.headed
    rcases hki with _ | ⟨hnameForm, hr⟩
    next nameForm forms =>
    have hreadBody : ∀ bodyForm paramForms, IsBody packageName body bodyForm →
        RereadsAll packageName readName (fun p => [nameText p]) (bodyParams body) paramForms →
        readTypeDoc ⟨source, packageName⟩ forms = .ok (doc, bodyForm :: paramForms) →
        forms ≠ [] →
        Gives (readTypeItem ⟨source, packageName⟩
          (.mk (.sequence items none) start (head :: nameForm :: forms)) before)
          (Bare (typeItemWords packageName (name, ⟨doc, ⟨[], body⟩⟩)))
          (insert before name ⟨doc, ⟨[], body⟩⟩) := by
      intro bodyForm paramForms hbodyForm hparamForms hdocs hne
      obtain ⟨form, forms, rfl⟩ := exists_cons_of_ne_nil hne
      have hws : Bare (typeItemWords packageName (name, ⟨doc, ⟨[], body⟩⟩)) ↔
          Bare [nameText name] ∧ Bare (bodyWords packageName body) ∧
            Bare ((bodyParams body).flatMap fun p => [nameText p]) := by
        rw [typeItemWords, bare_cons, bare_append]
      rcases (readName_gives ⟨source, packageName⟩ hname hnameForm).cases with
        ⟨hb, hrd⟩ | ⟨hb, error, hrd⟩
      · rcases (readAll_gives hparamForms source).cases with
          ⟨hb', hrd'⟩ | ⟨hb', error, hrd'⟩
        · simp only [readTypeItem, children, hrd, hcon, hdocs, hrd']
          exact ((hbodyForm.2 source).map _).congr
            (by rw [hws, and_iff_right hb, and_iff_left hb'])
        · simp only [readTypeItem, children, hrd, hcon, hdocs, hrd']
          exact gives_error fun h => hb' (hws.mp h).2.2
      · simp only [readTypeItem, children]
        cases forms <;> simp only [hrd] <;> exact gives_error fun h => hb (hws.mp h).1
    cases doc with
    | none =>
      rcases hr with _ | ⟨hbodyForm, hparamForms⟩
      refine hreadBody _ _ hbodyForm hparamForms ?_ (cons_ne_nil _ _)
      rw [readTypeDoc, if_neg hbodyForm.1]
    | some text =>
      rcases hr with _ | ⟨hdocForm, hr⟩
      rcases hr with _ | ⟨hbodyForm, hparamForms⟩
      refine hreadBody _ _ hbodyForm hparamForms ?_ (cons_ne_nil _ _)
      rw [readTypeDoc, if_pos hdocForm.1, hdocForm.readDoc source]
      rfl
  · intro i hi
    rcases mem_cons.mp hi with rfl | hi
    · exact prints_keyword _ hdep rfl (by decide) (by decide)
    rcases mem_cons.mp hi with rfl | hi
    · exact prints_word hdep hname.spelling (by decide)
    rcases mem_append.mp hi with hi | hi
    · obtain ⟨text, ht, rfl⟩ := mem_map.mp hi
      exact prints_docs hdoc text ht
    rcases mem_cons.mp hi with rfl | hi
    · exact hbo
    · obtain ⟨p, hp, rfl⟩ := mem_map.mp hi
      exact (prints_word hdep (hpar p hp).spelling (by decide)).imp id
        fun l hl source => readName_gives _ (hpar p hp) hl

omit [Doubles F] [JsonSyntax F] in
lemma readTypeDoc_ok {ls rest : List (Located F)} (hls : ∀ l ∈ ls, Fits depth l)
    (h : readTypeDoc ctx ls = .ok (doc, rest)) :
    (∀ text ∈ doc, depth + 1 ≤ 256) ∧ ∀ l ∈ rest, Fits depth l := by
  cases ls with
  | nil =>
    cases h
    simp
  | cons l ls =>
    rw [readTypeDoc] at h
    split at h
    · obtain ⟨text, ht, heq⟩ := exists_of_map_ok h
      cases heq
      exact ⟨fun _ _ => readDoc_depth (hls l mem_cons_self) ht,
        fun l' hl' => hls l' (mem_cons_of_mem l hl')⟩
    · cases h
      exact ⟨by simp, hls⟩

lemma readTypeItem_ok (hl : Fits depth l)
    {before types : List (Name × Documented TypeSpecification)}
    (h : readTypeItem ctx l before = .ok types) :
    ∃ item, TypeItemReprints F ctx.packageName depth item ∧
      types = insert before item.1 item.2 := by
  have hki := hl.children
  unfold readTypeItem at h
  split at h
  · next head nameForm form forms hforms =>
    rw [hforms] at hki
    split at h
    · cases h
    · next name hname =>
      split at h
      · cases h
      · split at h
        · cases h
        · cases h
        · next doc bodyForm paramForms hdocs =>
          obtain ⟨hdoc, hr⟩ := readTypeDoc_ok
            (fun l hl => hki l (mem_cons_of_mem _ (mem_cons_of_mem _ hl))) hdocs
          split at h
          · cases h
          · next params hpar =>
            obtain ⟨body, hbo, rfl⟩ := exists_of_map_ok h
            obtain ⟨hpri, rfl⟩ := readTypeBody_prints (hr bodyForm mem_cons_self) hbo
            exact ⟨(name, ⟨doc, ⟨[], body⟩⟩), ⟨readName_canonical hname, rfl, hdoc, hpri,
              readAll_forall hpar fun p _ _ hp => readName_canonical hp⟩, rfl⟩
  · cases h

section ValueItems

variable [Doubles Double]

def AnnotationPrints (F : Type) [Doubles F] (packageName : Path) (depth : Nat)
    (note : Annotation) : Prop :=
  Prints depth ( printAnnotation note) (annotationMeaning F packageName note)

def valueItemWords (packageName : Path) (item : Name × Documented ValueSpecification) :
    List (List Char) :=
  nameText item.1 :: (item.2.value.inputs.flatMap (fieldWords packageName) ++
    (typeWords packageName item.2.value.output ++ item.2.value.annotations.flatMap annotationWords))

structure ValueItemReprints (F : Type) [Doubles F] (packageName : Path) (depth : Nat)
    (item : Name × Documented ValueSpecification) : Prop where
  name : Canonical item.1
  inputs : ∀ i ∈ item.2.value.inputs, FieldReprints F packageName (depth + 1 + 1) i
  output : Reprints F packageName (depth + 1) item.2.value.output
  doc : ∀ text ∈ item.2.doc, depth + 1 + 1 ≤ 256
  annotations : ∀ a ∈ item.2.value.annotations, AnnotationPrints F packageName (depth + 1) a

variable {ls : List (Located F)}

omit [Doubles F] [Doubles Double] [JsonSyntax F] in
lemma readExtras_annotations (first : Bool) (before : List Annotation)
    {annotations : List Annotation}
    (h : List.Forall₂ reads (annotations.map (annotationMeaning F packageName)) ls)
    (source : List Char) :
    Gives (readExtras ⟨source, packageName⟩ first doc before ls)
      (Bare (annotations.flatMap annotationWords)) (doc, before ++ annotations) := by
  induction annotations generalizing first before ls with
  | nil =>
    cases h
    rw [append_nil]
    exact gives_ok.congr (by simp [bare_nil])
  | cons note annotations ih =>
    rcases h with _ | ⟨hfst, hr⟩
    have hann := ih false (before ++ [note]) hr
    rw [append_assoc] at hann
    have hws : Bare ((note :: annotations).flatMap annotationWords) ↔
        Bare (annotationWords note) ∧ Bare (annotations.flatMap annotationWords) := by
      rw [flatMap_cons, bare_append]
    rcases (hfst.2 source).cases with ⟨hb, hrd⟩ | ⟨hb, error, hrd⟩
    · simp only [readExtras, hfst.1, hrd]
      exact hann.congr (by rw [hws, and_iff_right hb])
    · simp only [readExtras, hfst.1, hrd]
      exact gives_error fun h => hb (hws.mp h).1

omit [Doubles F] [Doubles Double] [JsonSyntax F] in
lemma readExtras_gives {annotations : List Annotation}
    (h : List.Forall₂ reads (doc.toList.map (docMeaning F packageName) ++
      annotations.map (annotationMeaning F packageName)) ls) (source : List Char) :
    Gives (readExtras ⟨source, packageName⟩ true none [] ls)
      (Bare (annotations.flatMap annotationWords)) (doc, annotations) := by
  cases doc with
  | none => exact readExtras_annotations true [] h source
  | some text =>
    rcases h with _ | ⟨hdoc, hr⟩
    simp only [readExtras, hdoc.1, Bool.not_true, Bool.false_eq_true, hdoc.readDoc source]
    exact readExtras_annotations false [] hr source

lemma readExtras_ok {first : Bool} {doc doc' : Option String} {before annotations : List Annotation}
    (hls : ∀ l ∈ ls, Fits depth l) (hdoc : ∀ text ∈ doc, depth + 1 ≤ 256)
    (hpre : ∀ a ∈ before, AnnotationPrints F packageName depth a)
    (h : readExtras ctx first doc before ls = .ok (doc', annotations)) :
    (∀ text ∈ doc', depth + 1 ≤ 256) ∧
      ∀ a ∈ annotations, AnnotationPrints F packageName depth a := by
  induction ls generalizing first doc before with
  | nil =>
    cases h
    exact ⟨hdoc, hpre⟩
  | cons l ls ih =>
    have hl := hls l mem_cons_self
    have hr : ∀ l ∈ ls, Fits depth l := fun l' hl' => hls l' (mem_cons_of_mem l hl')
    unfold readExtras at h
    split at h
    · cases h
    split at h
    · cases h
    split at h
    · split at h
      · cases h
      · split at h
        · cases h
        · next text ht => exact ih hr (fun _ _ => readDoc_depth hl ht) hpre h
    split at h
    · split at h
      · cases h
      · next note hannot =>
        refine ih hr hdoc (fun a ha => ?_) h
        rcases mem_append.mp ha with ha | ha
        · exact hpre a ha
        · obtain rfl := mem_singleton.mp ha
          exact readAnnotation_prints hl hannot
    · cases h

omit [Doubles Double] in
lemma inputs_print {inputs : List (Name × IRType)} (hdep : depth ≤ 256)
    (h : ∀ i ∈ inputs, FieldReprints F packageName (depth + 1) i) :
    Prints depth (parens (inputs.map (printField packageName)))
      ⟨allWords (inputs.map (fieldMeaning F packageName)),
        Listed (inputs.map (fieldMeaning F packageName))⟩ := by
  have hpri := Prints.parens depth
    (inputs.map fun i => (printField packageName i, fieldMeaning F packageName i)) hdep ?_
  · simpa only [map_map, Function.comp_def] using hpri
  · intro i hi
    obtain ⟨input, hin, rfl⟩ := mem_map.mp hi
    exact (h input hin).prints

def valueParts (F : Type) (packageName : Path) (indent : List Char)
    (item : Name × Documented ValueSpecification) : List (Part F) :=
  let blanks := '\n' :: (indent ++ [' ', ' '])
  ⟨[], "val".toList, [], IsKeyword "val"⟩ ::
    ⟨[' '], nameText item.1, [nameText item.1], IsWord (nameText item.1)⟩ ::
    ⟨[' '], parens (item.2.value.inputs.map (printField packageName)),
      allWords (item.2.value.inputs.map (fieldMeaning F packageName)),
      Listed (item.2.value.inputs.map (fieldMeaning F packageName))⟩ ::
    ⟨[' '], printType packageName item.2.value.output,
      typeMeaning F packageName item.2.value.output⟩ ::
    (item.2.doc.toList.map (fun text => ⟨blanks, printDoc text, docMeaning F packageName text⟩) ++
    item.2.value.annotations.map fun a =>
      ⟨blanks, printAnnotation a, annotationMeaning F packageName a⟩)

omit [Doubles F] [JsonSyntax F] in
lemma printValueItem_eq (indent : List Char) (item : Name × Documented ValueSpecification) :
    printValueItem packageName indent item =
      '(' :: ((valueParts F packageName indent item).flatMap (fun i => i.blanks ++ i.text) ++
        [')']) := by
  have hparam : printParam packageName = printField packageName := rfl
  unfold printValueItem valueParts
  rw [hparam, show "(val ".toList = '(' :: ("val".toList ++ [' ']) by decide,
    show "  ".toList = [' ', ' '] by decide]
  simp only [flatMap_cons, flatMap_append, flatMap_map, line, nil_append, append_assoc, cons_append]

def valueItemMeaning (F : Type) (packageName : Path)
    (item : Name × Documented ValueSpecification) : Meaning F :=
  ⟨valueItemWords packageName item,
    IsItem packageName "val" readValueItem (valueItemWords packageName item) item⟩

lemma ValueItemReprints.prints {item : Name × Documented ValueSpecification}
    (h : ValueItemReprints F packageName depth item) {indent : List Char}
    (hind : ∀ c ∈ indent, isBlank c = true) :
    Prints depth (printValueItem packageName indent item)
      (valueItemMeaning F packageName item) := by
  obtain ⟨name, doc, ⟨annotations, inputs, output⟩⟩ := item
  obtain ⟨hname, hinp, hout, hdoc, hann⟩ := h
  have hdep := hout.prints.depth_le
  rw [printValueItem_eq]
  have hbla : ∀ c ∈ '\n' :: (indent ++ [' ', ' ']), isBlank c = true := by
    intro c hc
    rcases mem_cons.mp hc with rfl | hc
    · decide
    rcases mem_append.mp hc with hc | hc
    · exact hind c hc
    · rcases mem_pair.mp hc with rfl | rfl <;> decide
  have hsp : ∀ c ∈ [' '], isBlank c = true := by
    intro c hc
    obtain rfl := mem_singleton.mp hc
    decide
  refine (Prints.list _ (Nat.le_of_succ_le hdep) ?_ ?_ ?_).imp (fun hb => ?_) fun l hl => ?_
  · intro i hi
    rcases mem_cons.mp hi with rfl | hi
    · exact prints_keyword _ hdep rfl (by decide) (by decide)
    rcases mem_cons.mp hi with rfl | hi
    · exact prints_word hdep hname.spelling (by decide)
    rcases mem_cons.mp hi with rfl | hi
    · exact inputs_print hdep hinp
    rcases mem_cons.mp hi with rfl | hi
    · exact hout.prints
    rcases mem_append.mp hi with hi | hi
    · obtain ⟨text, ht, rfl⟩ := mem_map.mp hi
      exact prints_docs hdoc text ht
    · obtain ⟨a, ha, rfl⟩ := mem_map.mp hi
      exact hann a ha
  · intro i hi
    rcases mem_cons.mp hi with rfl | hi
    · simp
    rcases mem_cons.mp hi with rfl | hi
    · exact hsp
    rcases mem_cons.mp hi with rfl | hi
    · exact hsp
    rcases mem_cons.mp hi with rfl | hi
    · exact hsp
    rcases mem_append.mp hi with hi | hi
    all_goals
      obtain ⟨a, _, rfl⟩ := mem_map.mp hi
      exact hbla
  · intro i hi
    rcases mem_cons.mp hi with rfl | hi
    · exact cons_ne_nil _ _
    rcases mem_cons.mp hi with rfl | hi
    · exact cons_ne_nil _ _
    rcases mem_cons.mp hi with rfl | hi
    · exact cons_ne_nil _ _
    rcases mem_append.mp hi with hi | hi
    all_goals
      obtain ⟨a, _, rfl⟩ := mem_map.mp hi
      exact cons_ne_nil _ _
  · simpa [valueParts, allWords, flatMap_map, fieldMeaning, typeMeaning, docMeaning,
      annotationMeaning, valueItemWords, flatMap_const_nil] using hb
  · simp only [valueParts, map_cons, map_append, map_map] at hl
    refine ⟨hl.headed.headOf_eq, fun source before hcon => ?_⟩
    obtain ⟨items, start, head, children, rfl, _, _, hki⟩ := hl.headed
    rcases hki with _ | ⟨hnameForm, hr⟩
    rcases hr with _ | ⟨hpar, hr⟩
    rcases hr with _ | ⟨houtputForm, hext⟩
    obtain ⟨items', start', params, rfl, _, hpar⟩ := hpar
    have hinp : RereadsAll packageName readParam (fieldWords packageName) inputs params := by
      have himp : ∀ {inputs : List (Name × IRType)} {params : List (Located F)},
          (∀ i ∈ inputs, Canonical i.1) →
          List.Forall₂ reads (inputs.map (fieldMeaning F packageName)) params →
          RereadsAll packageName readParam (fieldWords packageName) inputs params := by
        intro inputs params hns hfor
        induction inputs generalizing params with
        | nil =>
          cases hfor
          exact .nil
        | cons input inputs ih =>
          rcases hfor with _ | ⟨hin, hfor⟩
          exact .cons (readParam_gives (hns input mem_cons_self) hin)
            (ih (fun i hi => hns i (mem_cons_of_mem _ hi)) hfor)
      exact himp (fun i hi => (hinp i hi).name) hpar
    have hws : Bare (valueItemWords packageName (name, ⟨doc, ⟨annotations, inputs, output⟩⟩)) ↔
        Bare [nameText name] ∧ Bare (inputs.flatMap (fieldWords packageName)) ∧
          Bare (typeWords packageName output) ∧ Bare (annotations.flatMap annotationWords) := by
      rw [valueItemWords, bare_cons, bare_append, bare_append]
    rcases (readName_gives ⟨source, packageName⟩ hname hnameForm).cases with
      ⟨hb, hrd⟩ | ⟨hb, error, hrd⟩
    · rcases (readAll_gives hinp source).cases with ⟨hb', hrd'⟩ | ⟨hb', error, hrd'⟩
      · rcases (houtputForm source).cases with
          ⟨hb'', hrd''⟩ | ⟨hb'', error, hrd''⟩
        · simp only [readValueItem, children, hrd, hcon, Bool.false_eq_true, hrd', hrd'']
          exact ((readExtras_gives hext source).map _).congr (by
            rw [hws, and_iff_right hb, and_iff_right hb', and_iff_right hb''])
        · simp only [readValueItem, children, datum, hrd, hcon,
            Bool.false_eq_true, if_false, hrd', hrd'']
          exact gives_error fun h => hb'' (hws.mp h).2.2.1
      · simp only [readValueItem, children, datum, hrd, hcon, Bool.false_eq_true, if_false, hrd']
        exact gives_error fun h => hb' (hws.mp h).2.1
    · simp only [readValueItem, children, hrd]
      exact gives_error fun h => hb (hws.mp h).1

lemma readValueItem_ok (hl : Fits depth l)
    {before values : List (Name × Documented ValueSpecification)}
    (h : readValueItem ctx l before = .ok values) :
    ∃ item, ValueItemReprints F ctx.packageName depth item ∧
      values = insert before item.1 item.2 := by
  have hki := hl.children
  unfold readValueItem at h
  split at h
  · next head nameForm paramsForm outputForm extras hforms =>
    rw [hforms] at hki
    split at h
    · cases h
    · next name hname =>
      split at h
      · cases h
      · split at h
        · split at h
          · cases h
          · next inputs hinp =>
            split at h
            · cases h
            · next output hout =>
              obtain ⟨⟨doc, annotations⟩, hext, rfl⟩ := exists_of_map_ok h
              obtain ⟨hdoc, hann⟩ := readExtras_ok
                (fun l hl => hki l (by simp [hl])) (by simp) (by simp) hext
              refine ⟨(name, ⟨doc, ⟨annotations, inputs, output⟩⟩),
                ⟨readName_canonical hname, ?_, ?_, hdoc, hann⟩, rfl⟩
              · exact readAll_forall hinp fun c hc _ hrd =>
                  readParam_reprints ((hki paramsForm (by simp)).children c hc) hrd
              · exact (readType_reprints (hki outputForm (by simp))).1 _ hout
        · cases h
  · cases h

end ValueItems

section Modules

variable [Doubles Double]

def moduleWords (packageName : Path) (entry : Path × ModuleSpecification) : List (List Char) :=
  entry.1.toCanonical.toList :: (entry.2.types.flatMap (typeItemWords packageName) ++
    entry.2.values.flatMap (valueItemWords packageName))

structure ItemsReprint (F : Type) [Doubles F] (packageName : Path) (depth : Nat)
    (spec : ModuleSpecification) : Prop where
  annotations : spec.annotations = []
  doc : ∀ text ∈ spec.doc, depth + 1 ≤ 256
  types : ∀ t ∈ spec.types, TypeItemReprints F packageName depth t
  typesDistinct : OrdMap.Distinct spec.types
  values : ∀ v ∈ spec.values, ValueItemReprints F packageName depth v
  valuesDistinct : OrdMap.Distinct spec.values

omit [Doubles F] [JsonSyntax F] [Doubles Double] in
lemma readItems_values (first : Bool) (spec : ModuleSpecification)
    {values : List (Name × Documented ValueSpecification)} {ls : List (Located F)}
    (hdi : Distinct (spec.values ++ values))
    (h : List.Forall₂ reads (values.map (valueItemMeaning F packageName)) ls) (source : List Char) :
    Gives (readItems ⟨source, packageName⟩ first spec ls)
      (Bare (values.flatMap (valueItemWords packageName)))
      { spec with values := spec.values ++ values } := by
  induction values generalizing first spec ls with
  | nil =>
    cases h
    rw [append_nil]
    exact gives_ok.congr (by simp [bare_nil])
  | cons value values ih =>
    rcases h with _ | ⟨hval, hr⟩
    obtain ⟨hcon, hins⟩ := contains_eq_false hdi
    have hvals := ih false { spec with values := spec.values ++ [value] }
      (by simpa using hdi) hr
    rw [append_assoc] at hvals
    have hws : Bare ((value :: values).flatMap (valueItemWords packageName)) ↔
        Bare (valueItemWords packageName value) ∧
          Bare (values.flatMap (valueItemWords packageName)) := by
      rw [flatMap_cons, bare_append]
    rcases (hval.2 source spec.values hcon).cases with
      ⟨hb, hrd⟩ | ⟨hb, error, hrd⟩
    · rw [hins] at hrd
      simp only [readItems, hval.1, hrd]
      exact hvals.congr (by rw [hws, and_iff_right hb])
    · simp only [readItems, hval.1, hrd]
      exact gives_error fun h => hb (hws.mp h).1

omit [Doubles F] [JsonSyntax F] [Doubles Double] in
lemma readItems_types (first : Bool) (spec : ModuleSpecification)
    {types : List (Name × Documented TypeSpecification)}
    {values : List (Name × Documented ValueSpecification)} {ls : List (Located F)}
    (htys : Distinct (spec.types ++ types))
    (hvals : Distinct (spec.values ++ values))
    (h : List.Forall₂ reads (types.map (typeItemMeaning F packageName) ++
      values.map (valueItemMeaning F packageName)) ls) (source : List Char) :
    Gives (readItems ⟨source, packageName⟩ first spec ls)
      (Bare (types.flatMap (typeItemWords packageName) ++
        values.flatMap (valueItemWords packageName)))
      { spec with types := spec.types ++ types, values := spec.values ++ values } := by
  induction types generalizing first spec ls with
  | nil =>
    rw [append_nil]
    exact readItems_values first spec hvals h source
  | cons type types ih =>
    rcases h with _ | ⟨hty, hr⟩
    obtain ⟨hcon, hins⟩ := contains_eq_false htys
    have hits := ih false { spec with types := spec.types ++ [type] }
      (by simpa using htys) hvals hr
    rw [append_assoc] at hits
    have hws : Bare ((type :: types).flatMap (typeItemWords packageName) ++
        values.flatMap (valueItemWords packageName)) ↔
        Bare (typeItemWords packageName type) ∧
          Bare (types.flatMap (typeItemWords packageName) ++
            values.flatMap (valueItemWords packageName)) := by
      rw [flatMap_cons, append_assoc, bare_append]
    rcases (hty.2 source spec.types hcon).cases with
      ⟨hb, hrd⟩ | ⟨hb, error, hrd⟩
    · rw [hins] at hrd
      simp only [readItems, hty.1, hrd]
      exact hits.congr (by rw [hws, and_iff_right hb])
    · simp only [readItems, hty.1, hrd]
      exact gives_error fun h => hb (hws.mp h).1

def moduleParts (F : Type) (packageName : Path) (entry : Path × ModuleSpecification) :
    List (Part F) :=
  let blanks := ['\n', ' ', ' ', ' ', ' ']
  ⟨[], "module".toList, [], IsKeyword "module"⟩ ::
    ⟨[' '], entry.1.toCanonical.toList, [entry.1.toCanonical.toList],
      IsWord entry.1.toCanonical.toList⟩ ::
    (entry.2.doc.toList.map (fun text => ⟨blanks, printDoc text, docMeaning F packageName text⟩) ++
    (entry.2.types.map (fun t =>
      ⟨blanks, printTypeItem packageName t, typeItemMeaning F packageName t⟩) ++
    entry.2.values.map fun v =>
      ⟨blanks, printValueItem packageName [' ', ' ', ' ', ' '] v,
        valueItemMeaning F packageName v⟩))

omit [Doubles F] [JsonSyntax F] in
lemma printModule_eq (entry : Path × ModuleSpecification) :
    printModule packageName entry =
      '(' :: ((moduleParts F packageName entry).flatMap (fun i => i.blanks ++ i.text) ++ [')']) := by
  unfold printModule moduleParts
  rw [show "(module ".toList = '(' :: ("module".toList ++ [' ']) by decide,
    show "    ".toList = [' ', ' ', ' ', ' '] by decide]
  simp only [flatMap_cons, flatMap_append, flatMap_map, line, nil_append, append_assoc, cons_append]

structure ModuleReprints (F : Type) [Doubles F] (packageName : Path) (depth : Nat)
    (entry : Path × ModuleSpecification) : Prop where
  path : Path.parse entry.1.toCanonical = .ok entry.1
  items : ItemsReprint F packageName (depth + 1) entry.2
  depth_le : depth + 1 ≤ 256

omit [Doubles F] [JsonSyntax F] [Doubles Double] in
lemma readPath_canonical {text what : String} {path : Path}
    (h : readPath ctx l text what = .ok path) : Path.parse path.toCanonical = .ok path := by
  unfold readPath at h
  split at h
  · cases h
  · next path' hprs =>
    split at h
    · cases h
    · next hcan =>
      cases h
      rw [not_not] at hcan
      rw [hcan, hprs]

omit [Doubles F] [JsonSyntax F] [Doubles Double] in
lemma readPath_toCanonical {what : String} {path : Path}
    (h : Path.parse path.toCanonical = .ok path) :
    readPath ctx l path.toCanonical what = .ok path := by
  simp [readPath, h]

def moduleMeaning (F : Type) (packageName : Path) (entry : Path × ModuleSpecification) :
    Meaning F :=
  ⟨moduleWords packageName entry,
    Carries packageName "module" readModule (moduleWords packageName entry) entry⟩

variable {entry : Path × ModuleSpecification}

lemma ModuleReprints.prints (h : ModuleReprints F packageName depth entry) :
    Prints depth (printModule packageName entry) (moduleMeaning F packageName entry) := by
  obtain ⟨path, ⟨annotations, types, values, doc⟩⟩ := entry
  obtain ⟨hp, ⟨hann, hdoc, htys, htypesDistinct, hvals, hvaluesDistinct⟩, hdep⟩ := h
  obtain rfl : annotations = [] := hann
  rw [printModule_eq]
  have hbla : ∀ c ∈ ['\n', ' ', ' ', ' ', ' '], isBlank c = true := by simp [isBlank]
  refine (Prints.list _ (Nat.le_of_succ_le hdep) ?_ ?_ ?_).imp (fun hb => ?_) fun l hl => ?_
  · intro i hi
    rcases mem_cons.mp hi with rfl | hi
    · exact prints_keyword _ hdep rfl (by decide) (by decide)
    rcases mem_cons.mp hi with rfl | hi
    · exact prints_word hdep (Path.parse_spelling hp) (by decide)
    rcases mem_append.mp hi with hi | hi
    · obtain ⟨text, htext, rfl⟩ := mem_map.mp hi
      exact prints_docs hdoc text htext
    rcases mem_append.mp hi with hi | hi
    · obtain ⟨t, ht, rfl⟩ := mem_map.mp hi
      exact (htys t ht).prints
    · obtain ⟨v, hv, rfl⟩ := mem_map.mp hi
      exact (hvals v hv).prints (by simp [isBlank])
  · intro i hi
    rcases mem_cons.mp hi with rfl | hi
    · simp
    rcases mem_cons.mp hi with rfl | hi
    · exact show ∀ c ∈ [' '], isBlank c = true by simp [isBlank]
    rcases mem_append.mp hi with hi | hi
    · obtain ⟨a, _, rfl⟩ := mem_map.mp hi
      exact hbla
    rcases mem_append.mp hi with hi | hi
    all_goals
      obtain ⟨a, _, rfl⟩ := mem_map.mp hi
      exact hbla
  · intro i hi
    rcases mem_cons.mp hi with rfl | hi
    · exact cons_ne_nil _ _
    rcases mem_append.mp hi with hi | hi
    · obtain ⟨a, _, rfl⟩ := mem_map.mp hi
      exact cons_ne_nil _ _
    rcases mem_append.mp hi with hi | hi
    all_goals
      obtain ⟨a, _, rfl⟩ := mem_map.mp hi
      exact cons_ne_nil _ _
  · simpa [moduleParts, allWords, flatMap_map, docMeaning, typeItemMeaning, valueItemMeaning,
      moduleWords, flatMap_const_nil] using hb
  · simp only [moduleParts, map_cons, map_append, map_map] at hl
    refine ⟨hl.headed.headOf_eq, fun source => ?_⟩
    obtain ⟨items, start, head, children, rfl, _, _, hki⟩ := hl.headed
    rcases hki with _ | ⟨hnameForm, hr⟩
    next nameForm itemForms =>
    by_cases hb : Bare [path.toCanonical.toList]
    · obtain ⟨start', rfl⟩ := hnameForm.symbol hb
      have hits : Gives (readItems ⟨source, packageName⟩ true ⟨[], [], [], none⟩ itemForms)
          (Bare (types.flatMap (typeItemWords packageName) ++
            values.flatMap (valueItemWords packageName))) ⟨[], types, values, doc⟩ := by
        cases doc with
        | none =>
          exact readItems_types true ⟨[], [], [], none⟩ htypesDistinct hvaluesDistinct hr
            source
        | some text =>
          rcases hr with _ | ⟨hdocForm, hr⟩
          simp only [readItems, hdocForm.1, Bool.not_true, Bool.false_eq_true, if_false,
            hdocForm.readDoc source]
          exact readItems_types false ⟨[], [], [], some text⟩ htypesDistinct hvaluesDistinct
            hr source
      simp only [readModule, children, symbol_symbol, String.ofList_toList, readPath_toCanonical hp]
      exact (hits.map fun spec => (path, spec)).congr
        (by rw [moduleWords, bare_cons, and_iff_right hb])
    · obtain ⟨n, start', rfl⟩ := hnameForm.number hb
      simp only [readModule, children, symbol_number]
      exact gives_fail fun h => hb (bare_cons.mp h).1

lemma readItems_ok {first : Bool} {spec spec' : ModuleSpecification} {ls : List (Located F)}
    (hls : ∀ l ∈ ls, Fits depth l) (hspec : ItemsReprint F ctx.packageName depth spec)
    (h : readItems ctx first spec ls = .ok spec') : ItemsReprint F ctx.packageName depth spec' := by
  induction ls generalizing first spec with
  | nil =>
    cases h
    exact hspec
  | cons l ls ih =>
    have hl := hls l mem_cons_self
    have hr : ∀ l ∈ ls, Fits depth l := fun l' hl' => hls l' (mem_cons_of_mem l hl')
    unfold readItems at h
    split at h
    · cases h
    split at h
    · cases h
    split at h
    · split at h
      · cases h
      · split at h
        · cases h
        · next text htext =>
          refine ih hr ?_ h
          exact { hspec with doc := fun _ _ => readDoc_depth hl htext }
    split at h
    · split at h
      · cases h
      · next types htys =>
        obtain ⟨item, hi, rfl⟩ := readTypeItem_ok hl htys
        refine ih hr ?_ h
        refine { hspec with
          types := fun t ht => ?_
          typesDistinct := hspec.typesDistinct.insert _ _ }
        rcases mem_insert ht with rfl | ht
        · exact hi
        · exact hspec.types t ht
    split at h
    · split at h
      · cases h
      · next values hvals =>
        obtain ⟨item, hi, rfl⟩ := readValueItem_ok hl hvals
        refine ih hr ?_ h
        refine { hspec with
          values := fun v hv => ?_
          valuesDistinct := hspec.valuesDistinct.insert _ _ }
        rcases mem_insert hv with rfl | hv
        · exact hi
        · exact hspec.values v hv
    · cases h

lemma readModule_ok (hl : Fits depth l) (h : readModule ctx l = .ok entry) :
    ModuleReprints F ctx.packageName depth entry := by
  have hki := hl.children
  unfold readModule at h
  split at h
  · next head nameForm items hforms =>
    rw [hforms] at hki
    split at h
    · cases h
    · split at h
      · cases h
      · next path hp =>
        obtain ⟨spec, hspec, rfl⟩ := exists_of_map_ok h
        refine ⟨readPath_canonical hp, readItems_ok (fun l hl => hki l (by simp [hl]))
          ?_ hspec, (hki head mem_cons_self).depth_le⟩
        exact ⟨rfl, by simp, by simp, distinct_nil, by simp, distinct_nil⟩
  · cases h

end Modules

end Morphir.Scheme.Spec
