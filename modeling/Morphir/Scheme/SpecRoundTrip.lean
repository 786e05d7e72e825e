import Morphir.Scheme.SpecModules

/-!
# The round trip of packages

A package that was read prints as a text that reads as the package, exactly
when no name or reference in the text starts with a digit.
-/

namespace Morphir.Scheme.Spec

open IR List

variable {F : Type} [Doubles F]

variable {source : List Char}

lemma readable_of_points {l : Located F} (h : Points source l) : Readable 0 l.datum := by
  cases h with
  | mk h hpts hki =>
    rcases h with ⟨_, _, fuel, depth, r', hrd⟩ | ⟨hq, _⟩
    · have hrs := (follows fuel).2.1 _ _ _ _ hrd
      exact Readable.mono hrs.produces (Nat.zero_le depth)
    · rw [show Located.datum (.mk _ _ _) = _ from rfl, hq]
      exact .symbol (Nat.zero_le 256)

variable {ls : List (Located F)}

lemma parseProgramLocated_fits (h : parseProgramLocated F source = .ok ls) : ∀ l ∈ ls, Fits 0 l :=
  fun l hl =>
    have hpoi := (parseProgramLocated_forms source).2 ls h l hl
    fits_of_points hpoi (readable_of_points hpoi)

lemma ends_nil : Ends [] := by
  rintro c cs h
  cases h

variable {f : Form}

lemma parseProgram_source (hla : f.Laid) (hhei : 0 + f.height ≤ 256) {d : Datum F}
    (hd : f.datum = some d) : parseProgram F f.source = .ok [d] := by
  have hspe := hla.spells (F := F) 0
  have hsta := hspe.starts []
  have hrs := (hspe.reads (b := []) ends_nil).mpr ⟨⟨hhei, hd⟩, rfl⟩
  rw [append_nil] at hsta hrs
  rw [append_nil] at hrs
  exact parseProgram_of_reads hsta.notTrivia hsta.ne_nil hrs

lemma parseProgramLocated_source (hla : f.Laid) (hhei : 0 + f.height ≤ 256) {d : Datum F}
    (hd : f.datum = some d) :
    ∃ l, parseProgramLocated F f.source = .ok [l] ∧ l.datum = d ∧ Fits 0 l := by
  have hforms := (parseProgramLocated_forms (F := F) f.source).1
  rw [parseProgram_source hla hhei hd] at hforms
  obtain ⟨ls, hls, hdata⟩ := exists_of_map_ok hforms
  cases ls with
  | nil => cases hdata
  | cons l ls =>
    simp only [map_cons, List.cons.injEq, map_eq_nil_iff] at hdata
    obtain ⟨rfl, rfl⟩ := hdata
    exact ⟨l, hls, rfl, parseProgramLocated_fits hls l mem_cons_self⟩

lemma exists_datum_of_parseProgramLocated (hla : f.Laid)
    (h : parseProgramLocated F f.source = .ok ls) : ∃ d, f.datum (F := F) = some d := by
  have hforms := (parseProgramLocated_forms (F := F) f.source).1
  rw [h] at hforms
  have hspe := hla.spells (F := F) 0
  have hsta := hspe.starts []
  rw [append_nil] at hsta
  obtain ⟨d, r, hrs⟩ := reads_of_parseProgram hsta hforms.symm
  rw [← append_nil f.source] at hrs
  exact ⟨d, ((hspe.reads ends_nil).mp hrs).1.2⟩

section Packages

variable [JsonSyntax F] [Doubles Double]

def packageWords (name : Path) (spec : PackageSpecification) : List (List Char) :=
  spec.modules.flatMap (moduleWords name)

structure PackageReprints (F : Type) [Doubles F] (packageName : Path)
    (spec : PackageSpecification) : Prop where
  name : Path.parse packageName.toCanonical = .ok packageName
  modules : ∀ m ∈ spec.modules, ModuleReprints F packageName 1 m
  distinct : OrdMap.Distinct spec.modules

variable {name : Path}

omit [Doubles F] [JsonSyntax F] [Doubles Double] in
lemma readModules_gives (before : List (Path × ModuleSpecification))
    {modules : List (Path × ModuleSpecification)} (hdi : OrdMap.Distinct (before ++ modules))
    (h : List.Forall₂ Meaning.reads (modules.map (moduleMeaning F name)) ls) (source : List Char) :
    Gives (readModules ⟨source, name⟩ before ls) (Bare (modules.flatMap (moduleWords name)))
      (before ++ modules) := by
  induction modules generalizing before ls with
  | nil =>
    cases h
    rw [append_nil]
    exact gives_ok.congr (by simp [bare_nil])
  | cons entry modules ih =>
    rcases h with _ | ⟨hmod, hr⟩
    obtain ⟨path, spec⟩ := entry
    obtain ⟨hcon, hins⟩ := contains_eq_false hdi
    have hmods := ih (before ++ [(path, spec)]) (by simpa using hdi) hr
    rw [append_assoc, singleton_append] at hmods
    have hws : Bare (((path, spec) :: modules).flatMap (moduleWords name)) ↔
        Bare (moduleWords name (path, spec)) ∧ Bare (modules.flatMap (moduleWords name)) := by
      rw [flatMap_cons, bare_append]
    rcases (hmod.2 source).cases with ⟨hb, hrd⟩ | ⟨hb, error, hrd⟩
    · simp only [readModules, hmod.1, checkHead_of_not_mem "module" (by decide),
        ne_eq, not_true_eq_false, if_false, hrd, hcon, Bool.false_eq_true, hins]
      exact hmods.congr (by rw [hws, and_iff_right hb])
    · simp only [readModules, hmod.1, checkHead_of_not_mem "module" (by decide),
        ne_eq, not_true_eq_false, if_false, hrd]
      exact gives_error fun h => hb (hws.mp h).1

lemma readModules_ok {ctx : Context} {before modules : List (Path × ModuleSpecification)}
    (hls : ∀ l ∈ ls, Fits 1 l) (hdi : OrdMap.Distinct before)
    (hpre : ∀ m ∈ before, ModuleReprints F ctx.packageName 1 m)
    (h : readModules ctx before ls = .ok modules) :
    OrdMap.Distinct modules ∧ ∀ m ∈ modules, ModuleReprints F ctx.packageName 1 m := by
  induction ls generalizing before with
  | nil =>
    cases h
    exact ⟨hdi, hpre⟩
  | cons l ls ih =>
    unfold readModules at h
    split at h
    · cases h
    split at h
    · cases h
    split at h
    · cases h
    split at h
    · cases h
    · next path spec hmod =>
      split at h
      · cases h
      · refine ih (fun l' hl' => hls l' (mem_cons_of_mem l hl')) (hdi.insert _ _) ?_ h
        intro m hm
        rcases OrdMap.mem_insert hm with rfl | hm
        · exact readModule_ok (hls l mem_cons_self) hmod
        · exact hpre m hm

def packageParts (F : Type) (name : Path) (spec : PackageSpecification) : List (Part F) :=
  ⟨[], "package".toList, [], IsKeyword "package"⟩ ::
    ⟨[' '], quote name.toCanonical, [],
      fun l => ∃ start, l = .mk (.text name.toCanonical) start []⟩ ::
    spec.modules.map fun m => ⟨['\n', ' ', ' '], printModule name m, moduleMeaning F name m⟩

omit [Doubles F] [JsonSyntax F] in
lemma printPackage_eq (name : Path) (spec : PackageSpecification) :
    printPackage name spec =
      '(' :: ((packageParts F name spec).flatMap (fun i => i.blanks ++ i.text) ++ [')']) := by
  unfold printPackage packageParts
  rw [show "(package ".toList = '(' :: ("package".toList ++ [' ']) by decide,
    show "  ".toList = [' ', ' '] by decide]
  generalize "package".toList = keyword
  simp only [flatMap_cons, flatMap_map, line, nil_append, append_assoc, cons_append]

def packageMeaning (F : Type) (name : Path) (spec : PackageSpecification) : Meaning F :=
  ⟨packageWords name spec, fun l => headOf l = some "package" ∧
    ∀ source, Gives (readPackageForm source l) (Bare (packageWords name spec)) (name, spec)⟩

variable {spec : PackageSpecification}

lemma PackageReprints.prints (h : PackageReprints F name spec) :
    Prints 0 (printPackage name spec) (packageMeaning F name spec) := by
  obtain ⟨hname, hmods, hdi⟩ := h
  rw [printPackage_eq]
  refine (Prints.list _ (Nat.zero_le 256) ?_ ?_ ?_).imp (fun hb => ?_) fun l hl => ?_
  · intro i hi
    rcases mem_cons.mp hi with rfl | hi
    · exact prints_keyword _ (by omega) rfl (by decide) (by decide)
    rcases mem_cons.mp hi with rfl | hi
    · exact prints_atom (by omega) .text rfl rfl rfl
    · obtain ⟨m, hm, rfl⟩ := mem_map.mp hi
      exact (hmods m hm).prints
  · intro i hi
    rcases mem_cons.mp hi with rfl | hi
    · simp
    rcases mem_cons.mp hi with rfl | hi
    · exact show ∀ c ∈ [' '], isBlank c = true by simp [isBlank]
    · obtain ⟨m, _, rfl⟩ := mem_map.mp hi
      exact show ∀ c ∈ ['\n', ' ', ' '], isBlank c = true by simp [isBlank]
  · intro i hi
    rcases mem_cons.mp hi with rfl | hi
    · exact cons_ne_nil _ _
    · obtain ⟨m, _, rfl⟩ := mem_map.mp hi
      exact cons_ne_nil _ _
  · simpa [packageParts, allWords, flatMap_map, moduleMeaning, packageWords] using hb
  · simp only [packageParts, map_cons, map_map, Function.comp_def] at hl
    refine ⟨hl.headed.headOf_eq, fun source => ?_⟩
    obtain ⟨items, start, head, children, rfl, _, _, hki⟩ := hl.headed
    rcases hki with _ | ⟨⟨start', rfl⟩, hr⟩
    simp only [readPackageForm, Located.children, tail_cons, List.head?_cons, Option.getD_some,
      Located.datum, readPath_toCanonical hname, drop_succ_cons, drop_zero]
    exact (readModules_gives [] hdi hr source).map fun modules =>
      (name, PackageSpecification.mk modules)

lemma readPackageForm_ok {l : Located F} (hl : Fits 0 l)
    (h : readPackageForm source l = .ok (name, spec)) : PackageReprints F name spec := by
  unfold readPackageForm at h
  simp only at h
  split at h
  · split at h
    · cases h
    · next packageName hname =>
      obtain ⟨modules, hmods, heq⟩ := exists_of_map_ok h
      cases heq
      obtain ⟨hdi, hrep⟩ := readModules_ok
        (fun c hc => hl.children c (mem_of_mem_drop hc)) OrdMap.distinct_nil (by simp) hmods
      exact ⟨readPath_canonical hname, hrep, hdi⟩
  · cases h

omit [JsonSyntax F] [Doubles Double] in
lemma readPackage_ok (h : readPackage F source = .ok (name, spec)) :
    ∃ l, parseProgramLocated F source = .ok [l] ∧ readPackageForm source l = .ok (name, spec) := by
  unfold readPackage parseForms at h
  cases hforms : parseProgramLocated F source with
  | error error =>
    rw [hforms] at h
    cases error <;> cases h
  | ok ls =>
    rw [hforms] at h
    cases ls with
    | nil => cases h
    | cons l ls =>
      simp only at h
      split at h
      · next hone =>
        obtain rfl : ls = [] := by simpa using hone.1
        exact ⟨l, rfl, h⟩
      · cases h

end Packages

/-- Doubles whose JSON syntax spells no number, as no text of letters does. -/
@[reducible]
def unspelled : Doubles Double where
  isNegativeZero _ := false
  isFinite _ := true
  toText _ := "0"
  jsonNumber _ := none

/-- A package that was read prints as a text that reads as the package exactly
when no name or reference in the text starts with a digit. -/
theorem readPackage_printPackage_iff [Doubles Double] [JsonSyntax Double] {source : List Char}
    {name : Path} {spec : PackageSpecification}
    (h : readPackage Double source = .ok (name, spec)) :
    readPackage Double (printPackage name spec) = .ok (name, spec) ↔
      ∀ w ∈ packageWords name spec, startsWithDigit w = false := by
  obtain ⟨l, hl, hrd⟩ := readPackage_ok h
  have hrep := readPackageForm_ok (parseProgramLocated_fits hl l mem_cons_self) hrd
  obtain ⟨f, hla, hsrc, hhei, hdt, hmea⟩ := hrep.prints
  rw [← hsrc]
  constructor
  · intro hag
    obtain ⟨l', hl', hrd'⟩ := readPackage_ok hag
    obtain ⟨d, hd⟩ := exists_datum_of_parseProgramLocated hla hl'
    obtain ⟨l'', hl'', rfl, hfi⟩ := parseProgramLocated_source hla hhei hd
    rw [hl'] at hl''
    obtain rfl := (List.cons.inj (Except.ok.inj hl'')).1
    exact (((hmea hfi hd).2 _ _).mp hrd').1
  · intro hb
    obtain ⟨d, hd⟩ := hdt hb
    obtain ⟨l', hl', rfl, hfi⟩ := parseProgramLocated_source hla hhei hd
    obtain ⟨hh, hgives⟩ := hmea hfi hd
    unfold readPackage parseForms
    rw [hl']
    simp only [isEmpty_nil, hh, and_self, if_true]
    exact (hgives _ _).mpr ⟨hb, rfl⟩

theorem readPackage_printPackage_iff_value :
    let spec : PackageSpecification := ⟨[(⟨[⟨[.word "m"]⟩]⟩, ⟨[], [],
      [(⟨[.word "f"]⟩, ⟨none, ⟨[], [], .reference .default
        ⟨⟨[⟨[.word "p"]⟩]⟩, ⟨[⟨[.word "m"]⟩]⟩, ⟨[.word "t"]⟩⟩ []⟩⟩)], none⟩)]⟩
    @readPackage Double unspelled (@printPackage unspelled ⟨[⟨[.word "p"]⟩]⟩ spec) =
      .ok (⟨[⟨[.word "p"]⟩]⟩, spec) := by
  let _ := unspelled
  have _ : JsonSyntax Double := ⟨fun _ _ _ => rfl⟩
  have hrd : readPackage Double ['(', 'p', 'a', 'c', 'k', 'a', 'g', 'e', ' ', '"', 'p', '"', ' ',
      '(', 'm', 'o', 'd', 'u', 'l', 'e', ' ', 'm', ' ', '(', 'v', 'a', 'l', ' ', 'f', ' ', '(',
      ')', ' ', 'm', '#', 't', ')', ')', ')'] = .ok (⟨[⟨[.word "p"]⟩]⟩, ⟨[(⟨[⟨[.word "m"]⟩]⟩,
        ⟨[], [], [(⟨[.word "f"]⟩, ⟨none, ⟨[], [], .reference .default
          ⟨⟨[⟨[.word "p"]⟩]⟩, ⟨[⟨[.word "m"]⟩]⟩, ⟨[.word "t"]⟩⟩ []⟩⟩)], none⟩)]⟩) := rfl
  exact (readPackage_printPackage_iff hrd).mpr (by decide)

/-- The module name `|1|` is read, and its text is not. -/
theorem not_forall_readPackage_printPackage :
    ¬ ∀ (source : List Char) (name : Path) (spec : PackageSpecification),
      @readPackage Double unspelled source = .ok (name, spec) →
        @readPackage Double unspelled (@printPackage unspelled name spec) = .ok (name, spec) := by
  let _ := unspelled
  intro h
  have hrd : readPackage Double ['(', 'p', 'a', 'c', 'k', 'a', 'g', 'e', ' ', '"', 'p', '"', ' ',
      '(', 'm', 'o', 'd', 'u', 'l', 'e', ' ', '|', '1', '|', ')', ')'] =
      .ok (⟨[⟨[.word "p"]⟩]⟩, ⟨[(⟨[⟨[.word "1"]⟩]⟩, ⟨[], [], [], none⟩)]⟩) := rfl
  have hprint : printPackage ⟨[⟨[.word "p"]⟩]⟩ ⟨[(⟨[⟨[.word "1"]⟩]⟩, ⟨[], [], [], none⟩)]⟩ =
      ['(', 'p', 'a', 'c', 'k', 'a', 'g', 'e', ' ', '"', 'p', '"', '\n', ' ', ' ',
        '(', 'm', 'o', 'd', 'u', 'l', 'e', ' ', '1', ')', ')'] := by decide
  have her : readPackage Double ['(', 'p', 'a', 'c', 'k', 'a', 'g', 'e', ' ', '"', 'p', '"',
      '\n', ' ', ' ', '(', 'm', 'o', 'd', 'u', 'l', 'e', ' ', '1', ')', ')'] =
      .error (.specError 2 11 "expected a module name") := rfl
  have hag := h _ _ _ hrd
  rw [hprint, her] at hag
  cases hag

end Morphir.Scheme.Spec
