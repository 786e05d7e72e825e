import Morphir.Scheme.SpecTexts

/-!
# The round trip of types

A type that was read is printed as a text that reads as the type, exactly when
no word of it starts with a digit.
-/

namespace Morphir.Scheme.Spec

open IR List OrdMap Bool

variable {F : Type}

mutual

def typeWords (packageName : Path) : IRType → List (List Char)
  | .variable _ name => [nameText name]
  | .unit _ => []
  | .reference _ name args => printReference packageName name :: typesWords packageName args
  | .tuple _ items => typesWords packageName items
  | .union _ items => typesWords packageName items
  | .record _ fields => fieldsWords packageName fields
  | .extensibleRecord _ base fields => nameText base :: fieldsWords packageName fields
  | .function _ argument result => typeWords packageName argument ++ typeWords packageName result
termination_by structural type => type

def typesWords (packageName : Path) : List IRType → List (List Char)
  | [] => []
  | type :: types => typeWords packageName type ++ typesWords packageName types
termination_by structural types => types

def fieldsWords (packageName : Path) : List (Name × IRType) → List (List Char)
  | [] => []
  | (name, type) :: fields =>
    nameText name :: (typeWords packageName type ++ fieldsWords packageName fields)
termination_by structural fields => fields

end

def fieldWords (packageName : Path) (field : Name × IRType) : List (List Char) :=
  nameText field.1 :: typeWords packageName field.2

lemma typesWords_eq (packageName : Path) (types : List IRType) :
    typesWords packageName types = types.flatMap (typeWords packageName) := by
  induction types with
  | nil => rfl
  | cons type types ih => simp [typesWords, ih]

lemma fieldsWords_eq (packageName : Path) (fields : List (Name × IRType)) :
    fieldsWords packageName fields = fields.flatMap (fieldWords packageName) := by
  induction fields with
  | nil => rfl
  | cons field fields ih => simp [fieldsWords, fieldWords, ih]

lemma printTypes_eq (packageName : Path) (types : List IRType) :
    printTypes packageName types = types.map (printType packageName) := by
  induction types with
  | nil => rfl
  | cons type types ih => simp [printTypes, printType, ih]

def printField (packageName : Path) (field : Name × IRType) : List Char :=
  parens [nameText field.1, printType packageName field.2]

lemma printFields_eq (packageName : Path) (fields : List (Name × IRType)) :
    printFields packageName fields = fields.map (printField packageName) := by
  induction fields with
  | nil => rfl
  | cons field fields ih => simp [printFields, printField, printType, ih]

def curried : IRType → List IRType
  | .function _ argument result => argument :: curried result
  | type => [type]

lemma typeTexts_snd (packageName : Path) (type : IRType) :
    (typeTexts packageName type).2 = (curried type).map (printType packageName) := by
  induction type using curried.induct with
  | case1 attrs argument result ih => simp [typeTexts, curried, printType, ih]
  | case2 type hfun =>
    cases type with
    | function attrs argument result => exact absurd rfl (hfun attrs argument result)
    | reference attrs name args => cases args <;> rfl
    | _ => rfl

lemma curried_words (packageName : Path) (type : IRType) :
    (curried type).flatMap (typeWords packageName) = typeWords packageName type := by
  induction type using curried.induct with
  | case1 attrs argument result ih => simp [curried, typeWords, ih]
  | case2 type hfun => simp [curried]

/-- Reading the located data gives the value exactly where no word starts with
a digit. -/
def Rereads {α : Type} (packageName : Path) (read : Context → Located F → Result α)
    (words : List (List Char)) (x : α) (l : Located F) : Prop :=
  ∀ source, Gives (read ⟨source, packageName⟩ l) (Bare words) x

def RereadsAll {α : Type} (packageName : Path) (read : Context → Located F → Result α)
    (words : α → List (List Char)) (xs : List α) (ls : List (Located F)) : Prop :=
  List.Forall₂ Meaning.reads
    (xs.map fun x => Meaning.mk (words x) (Rereads packageName read (words x) x)) ls

variable {ls rest : List (Located F)}

lemma readAll_gives {α : Type} {read : Context → Located F → Result α}
    {words : α → List (List Char)} {xs : List α} (h : RereadsAll packageName read words xs ls)
    (source : List Char) :
    Gives (readAll (read ⟨source, packageName⟩) ls) (Bare (xs.flatMap words)) xs := by
  induction xs generalizing ls with
  | nil =>
    cases h
    exact gives_ok.congr (by simp [bare_nil])
  | cons x xs ih =>
    cases h with
    | cons hx hxs =>
      rcases (hx source).cases with ⟨hb, hrd⟩ | ⟨hb, error, hrd⟩
      · simp only [readAll, hrd]
        exact ((ih hxs).map _).congr (by simp [bare_append, hb])
      · simp only [readAll, hrd]
        exact gives_error (by simp [bare_append, hb])

lemma readAll_ok {α β : Type} {f : α → Result β} {ls : List α} {xs : List β}
    (h : readAll f ls = .ok xs) : List.Forall₂ (fun l x => f l = .ok x) ls xs := by
  induction ls generalizing xs with
  | nil =>
    cases h
    exact .nil
  | cons l ls ih =>
    unfold readAll at h
    cases hl : f l with
    | error error => simp [hl] at h
    | ok x =>
      cases hls : readAll f ls with
      | error error => simp [hl, hls, Except.map] at h
      | ok xs' =>
        simp only [hl, hls, Except.map, Except.ok.injEq] at h
        subst h
        exact .cons hl (ih hls)

lemma readTypes_eq (ctx : Context) (ls : List (Located F)) :
    readTypes ctx ls = readAll (readType ctx) ls := by
  induction ls with
  | nil => rfl
  | cons l ls ih =>
    rw [readTypes, readAll, ih]
    cases readType ctx l <;> rfl

def typeMeaning (F : Type) (packageName : Path) (type : IRType) : Meaning F :=
  ⟨typeWords packageName type, Rereads packageName readType (typeWords packageName type) type⟩

/-- A curried function whose arguments and result are printed so that they
read again. -/
structure PartsReprint (F : Type) [Doubles F] (packageName : Path) (depth : Nat)
    (type : IRType) : Prop where
  parts : ∀ t ∈ curried type, Prints depth (printType packageName t) (typeMeaning F packageName t)
  fold : foldFunction (curried type) = some type

/-- A type that is printed so that it reads again, alone and, as a curried
function, by its parts. -/
structure Reprints (F : Type) [Doubles F] (packageName : Path) (depth : Nat) (type : IRType) :
    Prop extends PartsReprint F packageName depth type where
  prints : Prints depth (printType packageName type) (typeMeaning F packageName type)

variable [Doubles F] {packageName : Path} {depth : Nat}

variable {type : IRType}

lemma reprints_of_prints (hcur : curried type = [type])
    (h : Prints depth (printType packageName type) (typeMeaning F packageName type)) :
    Reprints F packageName depth type where
  prints := h
  parts := by
    rw [hcur]
    simpa using h
  fold := by
    rw [hcur]
    rfl

variable [JsonSyntax F]

omit [JsonSyntax F] in
lemma unit_reprints (hdep : depth ≤ 256) : Reprints F packageName depth (.unit .default) := by
  refine reprints_of_prints rfl ?_
  refine (Prints.parens _ [] hdep (by simp)).imp id ?_
  rintro l ⟨items, start, children, rfl, hlen, hki⟩ source
  cases hki
  obtain rfl := eq_nil_of_length_eq_zero hlen
  exact gives_ok.congr (by simp [typeWords, bare_nil])

example (ctx : Context) :
    readType (F := F) ctx (.mk (.sequence [] none) 0 []) = .ok (.unit .default) := by
  simp only [readType, isEmpty_nil, if_true]

lemma variable_reprints (hdep : depth ≤ 256) {name : Name} (h : Canonical name) :
    Reprints F packageName depth (.variable (variableAttributes name) name) := by
  refine reprints_of_prints rfl ?_
  refine (prints_word hdep h.spelling (by decide)).imp id fun l hl source => ?_
  by_cases hb : Bare [nameText name]
  · obtain ⟨start, rfl⟩ := hl.symbol hb
    have hha := not_mem_of_spelling h.spelling (c := '#') (by decide) (by decide)
    have hbang := not_mem_of_spelling h.spelling (c := '!') (by decide) (by decide)
    simp only [readType, String.toList_ofList, if_neg hha,
      checkHead_of_not_mem (String.ofList (nameText name)) (by simpa using hbang)]
    exact (readName_gives _ h hl).map _
  · obtain ⟨n, start, rfl⟩ := hl.number hb
    exact gives_fail hb

variable {name : FQName}

lemma reference_reprints (hdep : depth ≤ 256) (h : CanonicalReference name) :
    Reprints F packageName depth (.reference .default name []) := by
  refine reprints_of_prints rfl ?_
  refine (prints_word hdep (h.spelling packageName) (by decide)).imp id fun l hl source => ?_
  simp only [typeWords, typesWords]
  by_cases hb : Bare [printReference packageName name]
  · obtain ⟨start, rfl⟩ := hl.symbol hb
    simp only [readType, String.toList_ofList, if_pos (mem_printReference packageName name),
      readReference_printReference h]
    exact gives_ok.congr (by simp [hb])
  · obtain ⟨n, start, rfl⟩ := hl.number hb
    exact gives_fail hb

section Forms

omit [Doubles F] [JsonSyntax F]

variable {ctx : Context} {items : List (Datum F)} {start start' : Nat}
  {children : List (Located F)} {text : String}

@[simp] lemma symbol_symbol (text : String) (start : Nat) (children : List (Located F)) :
    symbol (.mk (.symbol text) start children) = some text := rfl

@[simp] lemma symbol_number (n : Number F) (start : Nat) (children : List (Located F)) :
    symbol (.mk (.number n) start children) = none := rfl

section

variable (hits : items.isEmpty = false)

include hits

lemma readType_application (hbang : '!' ∉ text.toList) (hha : '#' ∈ text.toList)
    (hname : readReference ctx (.mk (F := F) (.symbol text) start' []) text = .ok name) :
    readType ctx (.mk (.sequence items none) start (.mk (.symbol text) start' [] :: children)) =
      (readTypes ctx children).map (.reference .default name) := by
  have hne : ∀ keyword : String, '#' ∉ keyword.toList → text ≠ keyword := by
    rintro keyword hkey rfl
    exact hkey hha
  cases children <;>
    simp only [readType, hits, false_eq_true, if_false, symbol_symbol,
      checkHead_of_not_mem text hbang, hne "union" (by decide), hne "->" (by decide),
      hne "tuple" (by decide), hne "record" (by decide), if_pos hha, hname]

lemma readType_headless {n : Number F} :
    readType ctx (.mk (.sequence items none) start (.mk (.number n) start' [] :: children)) =
      ctx.fail (listForm items start (.mk (.number n) start' []) children)
        "expected a type form" := by
  cases children <;>
    simp only [readType, hits, false_eq_true, if_false, symbol_number]

section

variable (hmy : 2 ≤ children.length)

include hmy

lemma readType_tuple :
    readType ctx (.mk (.sequence items none) start (.mk (.symbol "tuple") start' [] :: children)) =
      (readTypes ctx children).map (.tuple .default) := by
  cases children with
  | nil => simp at hmy
  | cons first tail =>
    simp only [readType, hits, false_eq_true, if_false, symbol_symbol,
      checkHead_of_not_mem "tuple" (by decide), String.reduceEq, if_true,
      Nat.not_lt.mpr hmy]

lemma readType_union :
    readType ctx (.mk (.sequence items none) start (.mk (.symbol "union") start' [] :: children)) =
      (readTypes ctx children).map (.union .default) := by
  cases children with
  | nil => simp at hmy
  | cons first tail =>
    simp only [readType, hits, false_eq_true, if_false, symbol_symbol,
      checkHead_of_not_mem "union" (by decide), if_true, Nat.not_lt.mpr hmy]

lemma readType_function :
    readType ctx (.mk (.sequence items none) start (.mk (.symbol "->") start' [] :: children)) =
      (readTypes ctx children).map fun types => (foldFunction types).getD (.unit .default) := by
  cases children with
  | nil => simp at hmy
  | cons first tail =>
    simp only [readType, hits, symbol_symbol, Nat.not_lt.mpr hmy]
    cases readTypes ctx (first :: tail) <;> rfl

end

lemma readType_record (hfst : ∀ first ∈ children.head?, symbol first = none) :
    readType ctx (.mk (.sequence items none) start (.mk (.symbol "record") start' [] :: children)) =
      (readFields ctx [] children).map (.record .default) := by
  cases children with
  | nil =>
    simp only [readType, hits, false_eq_true, if_false, symbol_symbol,
      checkHead_of_not_mem "record" (by decide), String.reduceEq, if_true]
  | cons first tail =>
    have hno : symbol first = none := hfst first rfl
    simp only [readType, hits, false_eq_true, if_false, symbol_symbol,
      checkHead_of_not_mem "record" (by decide), String.reduceEq, if_true, hno,
      Option.isSome_none]

lemma readType_extensible {row : String} {start'' : Nat} {name : Name}
    (hname : readName ctx (.mk (F := F) (.symbol row) start'' []) = .ok name) :
    readType ctx (.mk (.sequence items none) start (.mk (.symbol "record") start' [] ::
      .mk (.symbol row) start'' [] :: children)) =
        (readFields ctx [] children).map (.extensibleRecord .default name) := by
  simp only [readType, hits, false_eq_true, if_false, symbol_symbol,
    checkHead_of_not_mem "record" (by decide), String.reduceEq, if_true,
    Option.isSome_some, hname]

end

end Forms

omit [JsonSyntax F] in
lemma Reprints.headed {text : List Char} {H : Meaning F} (types : List IRType)
    (h : Prints (depth + 1) text H)
    (htys : ∀ t ∈ types, Prints (depth + 1) (printType packageName t) (typeMeaning F packageName t))
    :
    Prints depth (parens (text :: printTypes packageName types))
      ⟨H.words ++ typesWords packageName types,
        Headed H.reads (types.map (typeMeaning F packageName))⟩ := by
  rw [printTypes_eq, typesWords_eq]
  refine (Prints.headed _ _ _ h htys).imp (fun hb => ?_) fun _ hl => hl
  simpa only [allWords, flatMap_map, typeMeaning] using hb

lemma application_reprints (h : CanonicalReference name) {args : List IRType} (hne : args ≠ [])
    (hargs : ∀ t ∈ args, Reprints F packageName (depth + 1) t) :
    Reprints F packageName depth (.reference .default name args) := by
  obtain ⟨arg, rest, rfl⟩ := exists_cons_of_ne_nil hne
  have hdep := (hargs arg mem_cons_self).prints.depth_le
  refine reprints_of_prints rfl ?_
  refine (Reprints.headed _ (prints_word hdep (h.spelling packageName) (by decide))
    fun t ht => (hargs t ht).prints).imp id ?_
  rintro l ⟨items, start, head, children, rfl, hits, hh, hki⟩ source
  simp only [typeWords, typesWords_eq]
  by_cases hb : Bare [printReference packageName name]
  · obtain ⟨start', rfl⟩ := hh.symbol hb
    have hha : '#' ∈ (String.ofList (printReference packageName name)).toList := by
      simpa using mem_printReference packageName name
    have hbang := not_mem_of_spelling (h.spelling packageName) (c := '!') (by decide) (by decide)
    rw [readType_application hits (by simpa using hbang) hha
      (readReference_printReference h), readTypes_eq]
    refine ((readAll_gives hki source).map _).congr ?_
    rw [bare_cons, and_iff_right hb]
  · obtain ⟨n, start', rfl⟩ := hh.number hb
    rw [readType_headless hits]
    exact gives_fail fun h => hb (bare_cons.mp h).1

variable {types : List IRType} {children : List (Located F)}

omit [Doubles F] [JsonSyntax F] in
lemma length_of_rereads (h : RereadsAll packageName readType (typeWords packageName) types children)
    : children.length = types.length := by
  have hlen := h.length_eq
  rw [length_map] at hlen
  exact hlen.symm

lemma tuple_reprints (hlen : 2 ≤ types.length)
    (htys : ∀ t ∈ types, Reprints F packageName (depth + 1) t) (hdep : depth + 1 ≤ 256) :
    Reprints F packageName depth (.tuple .default types) := by
  refine reprints_of_prints rfl ?_
  refine (Reprints.headed _ (prints_keyword "tuple" hdep rfl (by decide) (by decide))
    fun t ht => (htys t ht).prints).imp id ?_
  rintro l ⟨items, start, head, children, rfl, hits, ⟨start', rfl⟩, hki⟩ source
  rw [readType_tuple hits (length_of_rereads hki ▸ hlen), readTypes_eq]
  simp only [typeWords, typesWords_eq]
  exact (readAll_gives hki source).map _

lemma union_reprints (hlen : 2 ≤ types.length)
    (htys : ∀ t ∈ types, Reprints F packageName (depth + 1) t) (hdep : depth + 1 ≤ 256) :
    Reprints F packageName depth (.union .default types) := by
  refine reprints_of_prints rfl ?_
  have htext : printType packageName (.union .default types) =
      parens ("union".toList :: printTypes packageName types) := by
    obtain ⟨t, ts, rfl⟩ := exists_cons_of_length_pos (show 0 < types.length by omega)
    rfl
  rw [htext]
  refine (Reprints.headed _ (prints_keyword "union" hdep rfl (by decide) (by decide))
    fun t ht => (htys t ht).prints).imp id ?_
  rintro l ⟨items, start, head, children, rfl, hits, ⟨start', rfl⟩, hki⟩ source
  rw [readType_union hits (length_of_rereads hki ▸ hlen), readTypes_eq]
  simp only [typeWords, typesWords_eq]
  exact (readAll_gives hki source).map _

omit [JsonSyntax F] in
lemma prints_arrow (hdep : depth ≤ 256) :
    Prints (F := F) depth "->".toList ⟨[], IsKeyword "->"⟩ := by
  have hpl : PlainToken "->".toList := by
    refine ⟨fun c hc => ?_, by simp, by decide, by decide, by decide⟩
    rcases mem_pair.mp (hc) with rfl | rfl <;> decide
  exact prints_symbol hdep hpl rfl (by decide)

lemma foldFunction_cons (argument : IRType) {result : IRType} (h : foldFunction types = some result)
    : foldFunction (argument :: types) = some (.function .default argument result) := by
  cases types with
  | nil => cases h
  | cons type types => simp [foldFunction, h]

lemma exists_foldFunction (type : IRType) (types : List IRType) :
    ∃ result, foldFunction (type :: types) = some result := by
  induction types generalizing type with
  | nil => exact ⟨type, rfl⟩
  | cons next types ih =>
    obtain ⟨result, hres⟩ := ih next
    exact ⟨_, foldFunction_cons type hres⟩

lemma curried_ne_nil (type : IRType) : curried type ≠ [] := by cases type <;> simp [curried]

omit [JsonSyntax F] in
lemma PartsReprint.cons {argument result : IRType} (harg : Reprints F packageName depth argument)
    (hres : PartsReprint F packageName depth result) :
    PartsReprint F packageName depth (.function .default argument result) where
  parts := forall_mem_cons.mpr ⟨harg.prints, hres.parts⟩
  fold := foldFunction_cons _ hres.fold

omit [JsonSyntax F] in
lemma function_reprints {argument result : IRType}
    (h : PartsReprint F packageName (depth + 1) (.function .default argument result)) :
    Reprints F packageName depth (.function .default argument result) := by
  obtain ⟨hpts, hfo⟩ := h
  have hdep := (hpts argument mem_cons_self).depth_le
  have htext : printType packageName (.function .default argument result) =
      parens ("->".toList :: printTypes packageName (argument :: curried result)) := by
    simp [printType, typeTexts, typeTexts_snd, printTypes_eq]
  refine ⟨⟨fun t ht => (hpts t ht).mono (Nat.le_succ depth), hfo⟩, ?_⟩
  rw [htext]
  refine (Reprints.headed _ (prints_arrow hdep) hpts).imp ?_ ?_
  · rw [← curried_words packageName, typesWords_eq]
    exact id
  rintro l ⟨items, start, head, children, rfl, hits, ⟨start', rfl⟩, hki⟩ source
  have hki : RereadsAll packageName readType (typeWords packageName)
    (argument :: curried result) children := hki
  have hmy : 2 ≤ children.length := by
    rw [length_of_rereads hki, length_cons]
    have := length_pos_iff.mpr (curried_ne_nil result)
    omega
  rw [readType_function hits hmy, readTypes_eq]
  have hgives := (readAll_gives hki source).map fun types =>
    (foldFunction types).getD (.unit .default)
  change foldFunction (argument :: curried result) = _ at hfo
  rw [hfo, flatMap_cons, curried_words] at hgives
  exact hgives

omit [JsonSyntax F] in
lemma PartsReprint.of_fold (h : ∀ t ∈ types, Reprints F packageName depth t)
    (hfo : foldFunction types = some type) : PartsReprint F packageName depth type := by
  induction types generalizing type with
  | nil => cases hfo
  | cons argument types ih =>
    cases types with
    | nil =>
      cases hfo
      exact (h argument mem_cons_self).toPartsReprint
    | cons next types =>
      simp only [foldFunction, Option.map_eq_some_iff] at hfo
      obtain ⟨result, hres, rfl⟩ := hfo
      exact .cons (h argument mem_cons_self)
        (ih (fun t ht => h t (mem_cons_of_mem _ ht)) hres)

def IsField (packageName : Path) (field : Name × IRType) (l : Located F) : Prop :=
  Listed [⟨[nameText field.1], IsWord (nameText field.1)⟩, typeMeaning F packageName field.2] l

def fieldMeaning (F : Type) (packageName : Path) (field : Name × IRType) : Meaning F :=
  ⟨fieldWords packageName field, IsField packageName field⟩

structure FieldReprints (F : Type) [Doubles F] (packageName : Path) (depth : Nat)
    (field : Name × IRType) : Prop where
  name : Canonical field.1
  type : Reprints F packageName (depth + 1) field.2

lemma FieldReprints.prints {field : Name × IRType} (h : FieldReprints F packageName depth field) :
    Prints depth (printField packageName field) (fieldMeaning F packageName field) := by
  have hdep := h.type.prints.depth_le
  refine (Prints.parens _ [(_, _), (_, _)] (Nat.le_of_succ_le hdep) ?_).imp ?_
    fun _ hl => hl
  swap
  · simp [allWords, fieldWords]
  intro i hi
  rcases mem_pair.mp hi with rfl | rfl
  · exact prints_word hdep h.name.spelling (by decide)
  · exact h.type.prints

omit [Doubles F] [JsonSyntax F] in
lemma IsField.symbol_eq_none {field : Name × IRType} {l : Located F}
    (h : IsField packageName field l) : symbol l = none := by
  obtain ⟨items, start, children, rfl, _⟩ := h
  rfl

lemma contains_eq_false {κ α : Type} [DecidableEq κ] {before after : List (κ × α)} {entry : κ × α}
    (h : Distinct (before ++ entry :: after)) :
    contains before entry.1 = false ∧
      OrdMap.insert before entry.1 entry.2 = before ++ [entry] := by
  have hmem : entry.1 ∉ keys before := by
    intro hmem
    rw [OrdMap.Distinct, OrdMap.keys, map_append, nodup_append] at h
    exact h.2.2 entry.1 hmem entry.1 (by simp) rfl
  refine ⟨?_, insert_of_notMem hmem⟩
  rw [← not_eq_true, OrdMap.contains_iff]
  exact hmem

variable {fields : List (Name × IRType)}

omit [Doubles F] [JsonSyntax F] in
lemma readFields_gives (before : List (Name × IRType)) (hns : ∀ f ∈ fields, Canonical f.1)
    (hdi : Distinct (before ++ fields))
    (h : List.Forall₂ Meaning.reads (fields.map (fieldMeaning F packageName)) children)
    (source : List Char) :
    Gives (readFields ⟨source, packageName⟩ before children)
      (Bare (fieldsWords packageName fields)) (before ++ fields) := by
  induction fields generalizing before children with
  | nil =>
    cases h
    rw [append_nil]
    exact gives_ok.congr (by simp [fieldsWords, bare_nil])
  | cons field fields ih =>
    cases h with
    | cons hfield hr =>
      obtain ⟨name, type⟩ := field
      obtain ⟨items, start, parts, rfl, _, hpts⟩ := hfield
      cases hpts with
      | cons hname hpts =>
        cases hpts with
        | cons hty hnil =>
          cases hnil
          obtain ⟨hcon, hins⟩ := contains_eq_false hdi
          have hfs := ih (before ++ [(name, type)])
            (fun f hf => hns f (mem_cons_of_mem _ hf)) (by simpa using hdi)
            hr
          rw [append_assoc] at hfs
          have hws : Bare (fieldsWords packageName ((name, type) :: fields)) ↔
              Bare [nameText name] ∧ Bare (typeWords packageName type) ∧
                Bare (fieldsWords packageName fields) := by
            rw [fieldsWords, bare_cons, bare_append]
          rw [readFields]
          rcases (readName_gives ⟨source, packageName⟩
            (hns _ mem_cons_self) hname).cases with
            ⟨hb, hrd⟩ | ⟨hb, error, hrd⟩
          · rcases (hty source).cases with ⟨hb', hrd'⟩ | ⟨hb', error, hrd'⟩
            · simp only [hrd, hrd', hcon, hins]
              exact hfs.congr (by simp [hws, hb, hb'])
            · simp only [hrd, hrd', hcon]
              exact gives_error (by simp [hws, hb'])
          · simp only [hrd]
            exact gives_error (by simp [hws, hb])

lemma record_reprints (hdep : depth + 1 ≤ 256)
    (hfs : ∀ f ∈ fields, FieldReprints F packageName (depth + 1) f) (hdi : Distinct fields) :
    Reprints F packageName depth (.record .default fields) := by
  refine reprints_of_prints rfl ?_
  have ht : printType packageName (.record .default fields) =
      parens ("record".toList :: fields.map (printField packageName)) := by
    simp [printType, typeTexts, single, printFields_eq]
  rw [ht]
  refine (Prints.headed _ _ _ (prints_keyword "record" hdep rfl (by decide) (by decide))
    fun f hf => (hfs f hf).prints).imp ?_ ?_
  · rw [typeWords, fieldsWords_eq]
    simp [allWords, flatMap_map, fieldMeaning]
  rintro l ⟨items, start, head, children, rfl, hits, ⟨start', rfl⟩, hki⟩ source
  rw [readType_record hits]
  · exact (readFields_gives [] (fun f hf => (hfs f hf).name) hdi hki source).map _
  · intro first hfst
    cases fields with
    | nil =>
      cases hki
      cases hfst
    | cons field fields =>
      cases hki with
      | cons hfield _ =>
        cases hfst
        exact hfield.symbol_eq_none

lemma extensible_reprints {row : Name} (hrow : Canonical row) (hdep : depth + 1 ≤ 256)
    (hfs : ∀ f ∈ fields, FieldReprints F packageName (depth + 1) f) (hdi : Distinct fields) :
    Reprints F packageName depth (.extensibleRecord .default row fields) := by
  refine reprints_of_prints rfl ?_
  have hpri := Prints.parens depth
    (("record".toList, ⟨[], IsKeyword "record"⟩) ::
      (nameText row, ⟨[nameText row], IsWord (nameText row)⟩) ::
      fields.map fun f => (printField packageName f, fieldMeaning F packageName f))
    (Nat.le_of_succ_le hdep) ?_
  · have ht : printType packageName (.extensibleRecord .default row fields) =
        parens ("record".toList :: nameText row :: fields.map (printField packageName)) := by
      simp [printType, typeTexts, single, printFields_eq]
    rw [ht]
    simp only [map_cons, map_map] at hpri
    refine hpri.imp ?_ fun l hl source => ?_
    · rw [typeWords, fieldsWords_eq]
      simp [allWords, flatMap_map, fieldMeaning]
    obtain ⟨items, start, head, children, rfl, hits, ⟨start', rfl⟩, hki⟩ := hl.headed
    cases hki with
    | @cons _ first _ children hfst hr =>
      by_cases hb : Bare [nameText row]
      · obtain ⟨start'', rfl⟩ := hfst.symbol hb
        have hrd := (readName_gives ⟨source, packageName⟩ hrow hfst row).mpr
          ⟨hb, rfl⟩
        rw [readType_extensible hits hrd]
        refine ((readFields_gives [] (fun f hf => (hfs f hf).name) hdi hr source).map _).congr ?_
        rw [typeWords, bare_cons, and_iff_right hb]
      · obtain ⟨n, start'', rfl⟩ := hfst.number hb
        rw [readType_record hits (by simp)]
        rw [readFields]
        · exact gives_fail fun h => hb (bare_cons.mp h).1
        · simp
  · intro i hi
    rcases mem_cons.mp hi with rfl | hi
    · exact prints_keyword _ hdep rfl (by decide) (by decide)
    rcases mem_cons.mp hi with rfl | hi
    · exact prints_word hdep hrow.spelling (by decide)
    · obtain ⟨f, hf, rfl⟩ := mem_map.mp hi
      exact (hfs f hf).prints

variable {ctx : Context}

omit [Doubles F] [JsonSyntax F] in
lemma readFields_ok {before fields : List (Name × IRType)} (hdi : Distinct before)
    (h : readFields ctx before ls = .ok fields) :
    Distinct fields ∧ ∀ f ∈ fields, f ∈ before ∨ ∃ l ∈ ls, ∃ nameForm typeForm,
      l.children = [nameForm, typeForm] ∧ readName ctx nameForm = .ok f.1 ∧
        readType ctx typeForm = .ok f.2 := by
  induction ls generalizing before with
  | nil =>
    cases h
    exact ⟨hdi, fun f hf => .inl hf⟩
  | cons l ls ih =>
    cases l with
    | mk d start children =>
      match children with
      | [nameForm, typeForm] =>
        rw [readFields] at h
        cases hname : readName ctx nameForm with
        | error error => simp [hname] at h
        | ok name =>
          simp only [hname] at h
          split at h
          · cases h
          · cases hty : readType ctx typeForm with
            | error error => simp [hty] at h
            | ok type =>
              simp only [hty] at h
              obtain ⟨hfs, hmem⟩ := ih (hdi.insert name type) h
              refine ⟨hfs, fun f hf => ?_⟩
              rcases hmem f hf with hpre | ⟨l, hl, hrd⟩
              · rcases mem_insert hpre with rfl | hpre
                · exact .inr ⟨_, mem_cons_self, nameForm, typeForm, rfl, hname, hty⟩
                · exact .inl hpre
              · exact .inr ⟨l, mem_cons_of_mem _ hl, hrd⟩
      | [] => cases h
      | [_] => cases h
      | _ :: _ :: _ :: _ => cases h

omit [Doubles F] [JsonSyntax F] in
lemma exists_of_map_ok {ε α β : Type} {r : Except ε α} {f : α → β} {y : β} (h : r.map f = .ok y) :
    ∃ x, r = .ok x ∧ f x = y := by
  cases r with
  | error e => cases h
  | ok x => exact ⟨x, rfl, Except.ok.inj h⟩

inductive FormRead (ctx : Context) (rest : List (Located F)) : IRType → Prop
  | union {types : List IRType} (hmany : ¬ rest.length < 2)
      (h : readAll (readType ctx) rest = .ok types) : FormRead ctx rest (.union .default types)
  | function {types : List IRType} (hmany : ¬ rest.length < 2)
      (h : readAll (readType ctx) rest = .ok types) :
      FormRead ctx rest ((foldFunction types).getD (.unit .default))
  | tuple {types : List IRType} (hmany : ¬ rest.length < 2)
      (h : readAll (readType ctx) rest = .ok types) : FormRead ctx rest (.tuple .default types)
  | record {fields : List (Name × IRType)} (h : readFields ctx [] rest = .ok fields) :
      FormRead ctx rest (.record .default fields)
  | extensible {first : Located F} {tail : List (Located F)} {row : Name}
      {fields : List (Name × IRType)} (hrest : rest = first :: tail)
      (hrow : readName ctx first = .ok row) (h : readFields ctx [] tail = .ok fields) :
      FormRead ctx rest (.extensibleRecord .default row fields)
  | reference {head : Located F} {text : String} {name : FQName} {args : List IRType}
      (hname : readReference ctx head text = .ok name)
      (h : readAll (readType ctx) rest = .ok args) :
      FormRead ctx rest (.reference .default name args)

omit [Doubles F] [JsonSyntax F] in
lemma readType_form {items : List (Datum F)} {start : Nat} {head : Located F}
    (hits : items.isEmpty = false)
    (h : readType ctx (.mk (.sequence items none) start (head :: rest)) = .ok type) :
    FormRead ctx rest type := by
  cases rest
  all_goals
    simp only [readType, hits, false_eq_true, if_false] at h
    split at h
    · cases h
    split at h
    · cases h
    split at h
    · split at h
      · cases h
      · next hmy =>
        obtain ⟨types, htys, rfl⟩ := exists_of_map_ok h
        exact .union hmy (readTypes_eq ctx _ ▸ htys)
    split at h
    · split at h
      · cases h
      · next hmy =>
        split at h
        · cases h
        · next types htys =>
          cases h
          exact .function hmy (readTypes_eq ctx _ ▸ htys)
    split at h
    · split at h
      · cases h
      · next hmy =>
        obtain ⟨types, htys, rfl⟩ := exists_of_map_ok h
        exact .tuple hmy (readTypes_eq ctx _ ▸ htys)
    split at h
    · first
      | obtain ⟨fields, hfs, rfl⟩ := exists_of_map_ok h
        exact .record hfs
      | split at h
        · split at h
          · cases h
          · next row hrow =>
            obtain ⟨fields, hfs, rfl⟩ := exists_of_map_ok h
            exact .extensible rfl hrow hfs
        · obtain ⟨fields, hfs, rfl⟩ := exists_of_map_ok h
          exact .record hfs
    split at h
    · split at h
      · cases h
      · next name hname =>
        obtain ⟨args, hargs, rfl⟩ := exists_of_map_ok h
        exact .reference hname (readTypes_eq ctx _ ▸ hargs)
    · cases h

omit [Doubles F] [JsonSyntax F] in
lemma readAll_forall {α β : Type} {f : α → Result β} {ls : List α} {xs : List β}
    (h : readAll f ls = .ok xs) {P : β → Prop} (hP : ∀ l ∈ ls, ∀ x, f l = .ok x → P x) :
    ∀ x ∈ xs, P x := by
  have hfor := readAll_ok h
  clear h
  induction hfor with
  | nil => simp
  | @cons l x ls xs hl _ ih =>
    exact forall_mem_cons.mpr ⟨hP l mem_cons_self x hl,
      ih fun l' hl' => hP l' (mem_cons_of_mem l hl')⟩

lemma readType_symbol_reprints {text : String} {start : Nat} (hdep : depth ≤ 256)
    (h : readType ctx (.mk (.symbol text) start children) = .ok type) :
    Reprints F ctx.packageName depth type := by
  simp only [readType] at h
  split at h
  · obtain ⟨name, hname, rfl⟩ := exists_of_map_ok h
    exact reference_reprints hdep (readReference_canonical hname)
  · split at h
    · cases h
    · obtain ⟨name, hname, rfl⟩ := exists_of_map_ok h
      exact variable_reprints hdep (readName_canonical hname)

lemma FormRead.reprints (h : FormRead ctx rest type)
    (hdep : depth + 1 ≤ 256)
    (hr : ∀ c ∈ rest, ∀ t, readType ctx c = .ok t → Reprints F ctx.packageName (depth + 1) t)
    (hpts : ∀ c ∈ rest, ∀ c' ∈ c.children, ∀ t, readType ctx c' = .ok t →
      Reprints F ctx.packageName (depth + 2) t) :
    Reprints F ctx.packageName depth type := by
  have hfs : ∀ {ls : List (Located F)} {fields : List (Name × IRType)}, ls ⊆ rest →
      readFields ctx [] ls = .ok fields →
        Distinct fields ∧ ∀ f ∈ fields, FieldReprints F ctx.packageName (depth + 1) f := by
    intro ls fields hls hrd
    obtain ⟨hdi, hmem⟩ := readFields_ok distinct_nil hrd
    refine ⟨hdi, fun f hf => ?_⟩
    obtain hnil | ⟨l, hl, nameForm, typeForm, hki, hname, hty⟩ := hmem f hf
    · cases hnil
    · exact ⟨readName_canonical hname, hpts l (hls hl) typeForm (by simp [hki]) _ hty⟩
  cases h with
  | union hmy h =>
    have hlen := (readAll_ok h).length_eq
    exact union_reprints (by omega) (readAll_forall h hr) hdep
  | tuple hmy h =>
    have hlen := (readAll_ok h).length_eq
    exact tuple_reprints (by omega) (readAll_forall h hr) hdep
  | @function types hmy h =>
    have hlen := (readAll_ok h).length_eq
    have htys := readAll_forall h hr
    match types with
    | [] => exact absurd hlen (by rw [length_nil]; omega)
    | [_] => exact absurd hlen (by rw [length_singleton]; omega)
    | argument :: next :: types =>
      obtain ⟨result, hres⟩ := exists_foldFunction next types
      have hfo := foldFunction_cons argument hres
      rw [hfo]
      exact function_reprints (.of_fold htys hfo)
  | record h =>
    obtain ⟨hdi, hfs⟩ := hfs (.refl rest) h
    exact record_reprints hdep hfs hdi
  | extensible hr hrow h =>
    subst hr
    obtain ⟨hdi, hfs⟩ := hfs (subset_cons_self _ _) h
    exact extensible_reprints (readName_canonical hrow) hdep hfs hdi
  | @reference head text name args hname h =>
    cases args with
    | nil => exact reference_reprints (by omega) (readReference_canonical hname)
    | cons arg args =>
      exact application_reprints (readReference_canonical hname) (cons_ne_nil arg args)
        (readAll_forall h hr)

lemma readType_reprints {l : Located F} (hl : Fits depth l) :
    (∀ t, readType ctx l = .ok t → Reprints F ctx.packageName depth t) ∧
      ∀ c ∈ l.children, ∀ t, readType ctx c = .ok t → Reprints F ctx.packageName (depth + 1) t := by
  induction hl with
  | @mk depth start d children hdep hpts hki ih =>
    refine ⟨fun t h => ?_, fun c hc t h => (ih c hc).1 t h⟩
    cases d with
    | symbol text => exact readType_symbol_reprints hdep h
    | sequence items tail =>
      cases tail with
      | some d => cases h
      | none =>
        simp only [Datum.parts, Option.toList_none, append_nil] at hpts
        cases children with
        | nil =>
          obtain rfl := hpts
          cases h
          exact unit_reprints hdep
        | cons head rest =>
          subst hpts
          exact (readType_form rfl h).reprints
            (hki head mem_cons_self).depth_le
            (fun c hc => (ih c (mem_cons_of_mem head hc)).1)
            fun c hc => (ih c (mem_cons_of_mem head hc)).2
    | _ => cases h

end Morphir.Scheme.Spec
