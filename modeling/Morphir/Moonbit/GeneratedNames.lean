import Morphir.Moonbit.Spellings
import Morphir.Moonbit.TargetNames

/-!
# Names of a generated library are apart

The candidates that the generator builds are wellformed, so no two values, types or
constructors of a library share a name, nor do two fields of a shape, two locals of a
declaration or a temporary with anything.
-/

namespace Morphir.Moonbit

open Fallible FreshSearch IR List NamingCandidate Function

structure NamesApart {α : Type} (names : α → Option String) (keys : List α) : Prop where
  named : ∀ key ∈ keys, ∃ name, names key = some name
  apart : keys.Pairwise fun key key' => names key ≠ names key'

namespace NamesApart

variable {α β : Type} {names names' : α → Option String} {keys keys' : List α}

lemma congr (h : NamesApart names keys) (hsm : ∀ key ∈ keys, names' key = names key) :
    NamesApart names' keys := by
  refine ⟨fun key hkey => hsm key hkey ▸ h.named key hkey, ?_⟩
  refine h.apart.imp_of_mem fun hkey hkey' hne => ?_
  rwa [hsm _ hkey, hsm _ hkey']

lemma perm (h : NamesApart names keys) (hpm : keys.Perm keys') : NamesApart names keys' := by
  refine ⟨fun key hkey => h.named key (hpm.mem_iff.mpr hkey), ?_⟩
  exact (hpm.pairwise_iff fun hne => hne.symm).mp h.apart

lemma of_map (key : β → α) {keys : List β} (h : NamesApart names (keys.map key)) :
    NamesApart (fun k => names (key k)) keys where
  named k hk := h.named (key k) (mem_map_of_mem hk)
  apart := by
    have hap := h.apart
    rwa [pairwise_map] at hap

lemma of_inj (text : α → String) (hnd : keys.Nodup)
    (hns : ∀ key ∈ keys, names key = some (text key))
    (hinj : ∀ key ∈ keys, ∀ key' ∈ keys, text key = text key' → key = key') :
    NamesApart names keys := by
  refine ⟨fun key hkey => ⟨_, hns key hkey⟩, ?_⟩
  refine hnd.pairwise_of_forall_ne fun key hkey key' hkey' hne heq => ?_
  rw [hns key hkey, hns key' hkey'] at heq
  exact hne (hinj key hkey key' hkey' (Option.some.inj heq))

end NamesApart

variable {candidates : List NamingCandidate} {upper : Bool}

variable {blocked : Finset String} {fuel : Nat} {plan : TargetNames}

lemma allocateNamespace_apart (hw : Wellformed upper candidates blocked) {reserveGlobal : Bool}
    {plan' : TargetNames}
    (h : allocateNamespace fuel plan candidates blocked reserveGlobal = some plan') :
    NamesApart plan'.names (candidates.map owner) := by
  obtain ⟨hns, hap, -⟩ := allocateNamespace_names hw h
  refine ⟨fun owner howner => ?_, pairwise_map.mpr hap⟩
  obtain ⟨c, hc, rfl⟩ := mem_map.mp howner
  obtain ⟨name, hname, -⟩ := hns c hc
  exact ⟨name, hname⟩

lemma wellformed_of_spelled (blocked : Finset String) (hown : (candidates.map owner).Nodup)
    (hno : ∀ c ∈ candidates, c.requested = none) (hsp : ∀ c ∈ candidates, Spelled upper c) :
    Wellformed upper candidates blocked where
  owners := hown
  requests := by
    rw [filterMap_eq_nil_iff.mpr hno]
    exact .nil
  unblocked c hc name hname := by
    rw [hno c hc] at hname
    cases hname
  requested c hc := (hsp c hc).requested
  candidate c hc _ := (hsp c hc).candidate
  qualified c hc _ := (hsp c hc).qualified

variable {a b : FQName}

lemma valueNode_inj (ha : ValidFQName a) (hb : ValidFQName b) (h : valueNode a = valueNode b) :
    a = b :=
  ha.eq_of_canonical hb ((String.append_right_inj _).mp h)

lemma typeNode_inj (ha : ValidFQName a) (hb : ValidFQName b) (h : typeNode a = typeNode b) :
    a = b :=
  ha.eq_of_canonical hb ((String.append_right_inj _).mp h)

lemma constructorNode_inj (ha : ValidFQName a) (hb : ValidFQName b)
    (h : constructorNode a = constructorNode b) : a = b :=
  ha.eq_of_canonical hb ((String.append_right_inj _).mp h)

lemma head_owner (name : FQName) : (valueNode name).toList.head? = some 'v' ∧
    (typeNode name).toList.head? = some 't' ∧
      (constructorNode name).toList.head? = some 'c' := by
  simp [valueNode, typeNode, constructorNode]

lemma valueNode_ne_typeNode (a b : FQName) : valueNode a ≠ typeNode b := by
  intro heq
  have hh := (head_owner a).1
  rw [heq, (head_owner b).2.1] at hh
  cases hh

lemma valueNode_ne_constructorNode (a b : FQName) : valueNode a ≠ constructorNode b := by
  intro heq
  have hh := (head_owner a).1
  rw [heq, (head_owner b).2.2] at hh
  cases hh

lemma typeNode_ne_constructorNode (a b : FQName) : typeNode a ≠ constructorNode b := by
  intro heq
  have hh := (head_owner a).2.1
  rw [heq, (head_owner b).2.2] at hh
  cases hh

def libraryValues (library : LibraryDefinition) : List FQName :=
  library.modules.flatMap fun definition => definition.values.map fun name =>
    ⟨library.packageName, definition.moduleName, name⟩

def constructorsOf (types : List (FQName × List Name)) : List FQName :=
  types.flatMap fun entry => constructorNames entry.1 entry.2

def legacyOf (entry : FQName × List Name) : List (String × String) :=
  (typeNode entry.1, "T_" ++ hex entry.1.toCanonical) ::
    (constructorNames entry.1 entry.2).map fun ctor =>
      (constructorNode ctor, "C_" ++ hex ctor.toCanonical)

structure Collected (style : NamingStyle) (values : List FQName)
    (types : List (FQName × List Name)) (c : Candidates) : Prop where
  owners : c.values.map NamingCandidate.owner = values.map valueNode
  spelled : ∀ v ∈ c.values, Spelled false v
  validValues : ∀ name ∈ values, ValidFQName name
  validTypes : ∀ entry ∈ types, ValidFQName entry.1
  typeCandidates : c.types = if style = .legacyHex then [] else
    types.map fun entry => upperCandidate (typeNode entry.1) "type" entry.1
  constructorCandidates : c.constructors = if style = .legacyHex then [] else
    (constructorsOf types).map fun ctor => upperCandidate (constructorNode ctor) "constructor" ctor
  legacyNames : c.legacy = if style = .legacyHex then types.flatMap legacyOf else []

namespace Collected

variable {style : NamingStyle} {values values' : List FQName}
  {types types' : List (FQName × List Name)} {c c' : Candidates}

lemma empty (style : NamingStyle) : Collected style [] [] .empty :=
  ⟨rfl, fun _ hv => absurd hv not_mem_nil, fun _ hn => absurd hn not_mem_nil,
    fun _ he => absurd he not_mem_nil, by cases style <;> rfl, by cases style <;> rfl,
    by cases style <;> rfl⟩

lemma append (h : Collected style values types c) (h' : Collected style values' types' c') :
    Collected style (values ++ values') (types ++ types') (c.append c') where
  owners := by rw [Candidates.append, map_append, map_append, h.owners, h'.owners]
  spelled v hv := (mem_append.mp hv).elim (h.spelled v) (h'.spelled v)
  validValues name hname := (mem_append.mp hname).elim (h.validValues name)
    (h'.validValues name)
  validTypes entry hent := (mem_append.mp hent).elim (h.validTypes entry)
    (h'.validTypes entry)
  typeCandidates := by
    rw [Candidates.append, h.typeCandidates, h'.typeCandidates]
    split <;> simp
  constructorCandidates := by
    rw [Candidates.append, h.constructorCandidates, h'.constructorCandidates]
    split <;> simp [constructorsOf]
  legacyNames := by
    rw [Candidates.append, h.legacyNames, h'.legacyNames]
    split <;> simp

lemma foldl {α : Type} {f : α → Except Invalid Candidates} {v : α → List FQName}
    {t : α → List (FQName × List Name)} {l : List α} {cs : List Candidates} (hl : l.mapM f = .ok cs)
    (hf : ∀ a ∈ l, ∀ c, f a = .ok c → Collected style (v a) (t a) c)
    (h : Collected style values types c) :
    Collected style (values ++ l.flatMap v) (types ++ l.flatMap t)
      (cs.foldl Candidates.append c) := by
  induction l generalizing values types c cs with
  | nil =>
    cases hl
    simpa using h
  | cons a l ih =>
    rw [mapM_cons] at hl
    obtain ⟨b, hb, hl⟩ := bind_ok hl
    obtain ⟨bs, hbs, hl⟩ := bind_ok hl
    cases hl
    have hr := ih hbs (fun a ha => hf a (mem_cons_of_mem _ ha))
      (h.append (hf a mem_cons_self b hb))
    rw [flatMap_cons, flatMap_cons, ← append_assoc, ← append_assoc]
    exact hr

end Collected

variable {owner : String}

lemma checkRequest_ok {requested : Option String} (h : checkRequest owner requested = .ok ()) :
    ∀ text, requested = some text → Portable false text := by
  rintro text rfl
  have hchk := refuse_ok h
  rw [not_or, Bool.not_eq_false, Bool.not_eq_true] at hchk
  exact ⟨hchk.1, hchk.2⟩

lemma isIdentifier_nil : ∀ c ∈ "".toList, isIdentifier c = true := fun _ hc => absurd hc (by simp)

lemma spelled_legacy (start : String) (hsta : usableIdentifier start false = true)
    (hh : start.toList.head? ≠ some 'p') (text : String) :
    Portable false (start ++ "_" ++ hex text) := by
  have h := portable_hex hsta hh text "" isIdentifier_nil
  rwa [String.append_empty, ← String.append_assoc] at h

variable {style : NamingStyle} {hints : Hints}

lemma valueCandidate_ok {name : FQName} {c : NamingCandidate}
    (h : valueCandidate style hints name = .ok c) :
    c.owner = valueNode name ∧ ValidFQName name ∧ Spelled false c := by
  obtain ⟨text, ht, h⟩ := bind_ok h
  obtain ⟨_, hreq, h⟩ := bind_ok h
  cases h
  obtain ⟨hvd, rfl⟩ := validFQName_of_valueName ht
  have hsp := spelled_candidate (valueNode name) "value" hvd.localName hvd.moduleName
    (hints.original (valueNode name)) (hints.source (valueNode name)) false
    (checkRequest_ok hreq)
  split
  · refine ⟨rfl, hvd, ⟨hsp.requested, ?_, ?_⟩⟩
    · exact spelled_legacy "v" (by decide) (by decide) _
    · have hqual := spelled_legacy "value_v" (by decide) (by decide)
        name.toCanonical
      have hspl : "value_" ++ ("v_" ++ hex name.toCanonical) =
          "value_v" ++ "_" ++ hex name.toCanonical := by
        apply String.toList_inj.mp
        simp
      exact hspl ▸ hqual
  · exact ⟨rfl, hvd, hsp⟩

variable {cs : List NamingCandidate}

lemma valueCandidates_ok {names : List Name} {package moduleName : Path}
    (h : names.mapM (fun name => valueCandidate style hints ⟨package, moduleName, name⟩) = .ok cs) :
    Collected style (names.map fun name => ⟨package, moduleName, name⟩) []
      { Candidates.empty with values := cs } := by
  have hall : cs.map owner = (names.map fun name => .mk package moduleName name).map valueNode ∧
      (∀ v ∈ cs, Spelled false v) ∧
        ∀ name ∈ names.map fun name => .mk package moduleName name, ValidFQName name := by
    induction names generalizing cs with
    | nil =>
      cases h
      simp
    | cons name names ih =>
      rw [mapM_cons] at h
      obtain ⟨c, hc, h⟩ := bind_ok h
      obtain ⟨cs, hcs, h⟩ := bind_ok h
      cases h
      obtain ⟨howner, hvd, hsp⟩ := valueCandidate_ok hc
      obtain ⟨hown, hspe, hval⟩ := ih hcs
      simp only [map_cons, mem_cons, howner, hown, forall_eq_or_imp]
      exact ⟨trivial, ⟨hsp, hspe⟩, hvd, hval⟩
  refine ⟨hall.1, hall.2.1, hall.2.2, fun _ he => absurd he not_mem_nil, ?_, ?_, ?_⟩
  · cases style <;> rfl
  · cases style <;> rfl
  · cases style <;> rfl

variable {c : Candidates}

lemma typeCandidates_ok {name : FQName} {definition : TypeDefinition}
    (h : typeCandidates style name definition = .ok c) :
    Collected style [] (customType name definition) c := by
  obtain ⟨text, ht, h⟩ := bind_ok h
  have hvd := (validFQName_of_valueName ht).1
  cases definition with
  | customTypeDefinition constructors =>
    cases h
    have htys : ∀ entry ∈ customType name (.customTypeDefinition constructors),
        ValidFQName entry.1 := by
      intro entry hent
      rw [mem_singleton.mp hent]
      exact hvd
    split
    · rename_i hst
      refine ⟨rfl, nofun, nofun, htys, ?_, ?_, ?_⟩
      · rw [if_pos hst]
        rfl
      · rw [if_pos hst]
        rfl
      · rw [if_pos hst, customType, flatMap_singleton]
        rfl
    · rename_i hst
      refine ⟨rfl, nofun, nofun, htys, ?_, ?_, ?_⟩
      · rw [if_neg hst]
        rfl
      · rw [if_neg hst, constructorsOf, customType, flatMap_singleton]
      · rw [if_neg hst]
        rfl
  | typeAliasDefinition | incompleteTypeDefinition =>
    cases h
    exact .empty style

lemma moduleCandidates_ok {package : Path} {definition : ModuleDefinition}
    (h : moduleCandidates style hints package definition = .ok c) :
    Collected style (definition.values.map fun name => ⟨package, definition.moduleName, name⟩)
      (definition.types.flatMap fun entry =>
        customType ⟨package, definition.moduleName, entry.1⟩ entry.2) c := by
  obtain ⟨values, hvals, h⟩ := bind_ok h
  obtain ⟨types, htys, h⟩ := bind_ok h
  cases h
  have hall := Collected.foldl htys
    (fun entry _ c hc => typeCandidates_ok hc) (valueCandidates_ok hvals)
  have hno : definition.types.flatMap (fun _ => ([] : List FQName)) = [] :=
    flatMap_eq_nil_iff.mpr fun _ _ => rfl
  rwa [hno, append_nil] at hall

variable {library : LibraryDefinition}

lemma libraryCandidates_ok (h : libraryCandidates style hints library = .ok c) :
    Collected style (libraryValues library) (customTypes library) c := by
  obtain ⟨modules, hmods, h⟩ := bind_ok h
  cases h
  exact .foldl hmods (fun definition _ c hc => moduleCandidates_ok hc) (.empty style)

lemma nodup_moduleNames (library : LibraryDefinition) {f : ModuleDefinition → List Name}
    (hf : ∀ definition, (f definition).Nodup) :
    (library.modules.flatMap fun definition => (f definition).map fun name =>
      FQName.mk library.packageName definition.moduleName name).Nodup := by
  refine nodup_flatMap.mpr ⟨fun definition _ => ?_, ?_⟩
  · exact (hf definition).map fun name name' heq => (FQName.mk.inj heq).2.2
  · refine (pairwise_map.mp library.modulesNodup).imp fun hne name hname hname' => ?_
    obtain ⟨local₁, -, rfl⟩ := mem_map.mp hname
    obtain ⟨local₂, -, heq⟩ := mem_map.mp hname'
    exact hne (FQName.mk.inj heq).2.1.symm

lemma nodup_libraryValues (library : LibraryDefinition) : (libraryValues library).Nodup :=
  nodup_moduleNames library ModuleDefinition.valuesNodup

lemma customType_sublist (name : FQName) (definition : TypeDefinition) :
    ((customType name definition).map Prod.fst).Sublist [name] := by
  cases definition with
  | customTypeDefinition constructors => exact .refl _
  | typeAliasDefinition => exact nil_sublist _
  | incompleteTypeDefinition => exact nil_sublist _

lemma nodup_customTypes (library : LibraryDefinition) :
    ((customTypes library).map Prod.fst).Nodup := by
  refine (nodup_moduleNames library ModuleDefinition.typesNodup).sublist ?_
  rw [customTypes, map_flatMap]
  refine .flatMap_right _ fun definition _ => ?_
  rw [map_flatMap, map_map, map_eq_flatMap]
  exact .flatMap_right _ fun entry _ => customType_sublist _ entry.2

variable {declared declared' : List FQName}

lemma declareAll_ok {context : String} {names : List FQName}
    (h : declareAll context names declared = .ok declared') (hdc : declared.Nodup) :
    declared'.Nodup ∧ declared'.Perm (names ++ declared) := by
  induction names generalizing declared with
  | nil =>
    cases h
    exact ⟨hdc, .refl _⟩
  | cons name names ih =>
    obtain ⟨_, href, h⟩ := bind_ok h
    obtain ⟨hnd, hpm⟩ := ih h (nodup_cons.mpr ⟨refuse_ok href, hdc⟩)
    exact ⟨hnd, hpm.trans perm_middle⟩

variable {types : List (FQName × List Name)}

lemma declareTypes_ok (h : declareTypes types declared = .ok declared') (hdc : declared.Nodup) :
    declared'.Nodup ∧ declared'.Perm (constructorsOf types ++ declared) := by
  induction types generalizing declared with
  | nil =>
    cases h
    exact ⟨hdc, .refl _⟩
  | cons entry types ih =>
    obtain ⟨name, constructors⟩ := entry
    obtain ⟨middle, hall, h⟩ := bind_ok h
    obtain ⟨hmid, hpermAll⟩ := declareAll_ok hall hdc
    obtain ⟨hnd, hpm⟩ := ih h hmid
    have hsor : (constructorNames name (sortNames constructors)).Perm
        (constructorNames name constructors) := (perm_insertionSort _ constructors).map _
    refine ⟨hnd, hpm.trans ?_⟩
    have hc : constructorsOf ((name, constructors) :: types) =
        constructorNames name constructors ++ constructorsOf types := flatMap_cons
    rw [hc, append_assoc]
    refine (hpermAll.append_left _).trans (perm_append_comm_assoc ..|>.trans ?_)
    exact hsor.append_right _

lemma nodup_constructors (h : declareConstructors library = .ok declared) :
    (constructorsOf (customTypes library)).Nodup := by
  obtain ⟨hnd, hpm⟩ := declareTypes_ok h .nil
  rw [append_nil] at hpm
  have hsor := (perm_insertionSort
    (fun a b : FQName × List Name => (compareFQName a.1 b.1).isLE = true) (customTypes library))
  exact ((hpm.trans (hsor.flatMap_right _)).nodup_iff).mp hnd

variable {requests : String → Option String}

lemma checkRequests_ok (h : checkRequests cs requests = .ok ()) :
    (cs.filterMap requested).Nodup ∧
      ∀ text ∈ cs.filterMap requested, requests text = none := by
  induction cs generalizing requests with
  | nil => exact ⟨.nil, fun _ ht => absurd ht not_mem_nil⟩
  | cons c cs ih =>
    rw [checkRequests] at h
    split at h
    · rename_i hno
      rw [filterMap_cons_none hno]
      exact ih h
    · rename_i text hso
      split at h
      · cases h
      · rename_i hf
        obtain ⟨hnd, hreq⟩ := ih h
        rw [filterMap_cons_some hso]
        have ho (other : String) (hmem : other ∈ cs.filterMap requested) :
            other ≠ text ∧ requests other = none := by
          have ho := hreq other hmem
          by_cases heq : other = text
          · rw [heq, update_self] at ho
            cases ho
          · rw [update_of_ne heq] at ho
            exact ⟨heq, ho⟩
        refine ⟨nodup_cons.mpr ⟨fun hmem => (ho text hmem).1 rfl, hnd⟩, ?_⟩
        intro other hmem
        rcases mem_cons.mp hmem with rfl | hmem
        · exact hf
        · exact (ho other hmem).2

lemma withNames_names {entries : List (String × String)} {text : String}
    (hsm : ∀ entry ∈ entries, entry.1 = owner → entry.2 = text)
    (hmem : plan.names owner = some text ∨ ∃ entry ∈ entries, entry.1 = owner) :
    (plan.withNames entries).names owner = some text := by
  induction entries generalizing plan with
  | nil =>
    rcases hmem with hmem | ⟨entry, hent, -⟩
    · exact hmem
    · cases hent
  | cons entry entries ih =>
    have hr := @ih { plan with names := update plan.names entry.1 (some entry.2) }
    apply hr
    · exact fun entry' hent' => hsm entry' (mem_cons_of_mem _ hent')
    · by_cases howner : entry.1 = owner
      · refine .inl ?_
        rw [← hsm entry mem_cons_self howner, ← howner]
        exact update_self ..
      · rcases hmem with hmem | ⟨entry', hent', howner'⟩
        · refine .inl ?_
          rw [← hmem]
          exact update_of_ne (Ne.symm howner) ..
        · rcases mem_cons.mp hent' with rfl | hent'
          · exact absurd howner' howner
          · exact .inr ⟨entry', hent', howner'⟩

lemma Collected.wellformed_values (h : Collected style (libraryValues library) types c)
    (hreq : checkRequests (sortByOwner c.values) requests = .ok ()) :
    Wellformed false (sortByOwner c.values) ∅ := by
  have hpm : (sortByOwner c.values).Perm c.values := perm_insertionSort _ _
  have hsp : ∀ v ∈ sortByOwner c.values, Spelled false v :=
    fun v hv => h.spelled v (hpm.mem_iff.mp hv)
  refine ⟨?_, (checkRequests_ok hreq).1, fun _ _ _ _ => Finset.notMem_empty _,
    fun v hv => (hsp v hv).requested, fun v hv _ => (hsp v hv).candidate,
    fun v hv _ => (hsp v hv).qualified⟩
  rw [(hpm.map owner).nodup_iff, h.owners]
  exact (nodup_libraryValues library).map_on fun a ha b hb heq =>
    valueNode_inj (h.validValues a ha) (h.validValues b hb) heq

lemma upperCandidate_requested (owner role : String) (name : FQName) :
    (upperCandidate owner role name).requested = none := rfl

lemma wellformed_upper {names : List FQName} {node : FQName → String} (role : String)
    (blocked : Finset String) (hnd : names.Nodup) (hvd : ∀ name ∈ names, ValidFQName name)
    (hnode : ∀ a ∈ names, ∀ b ∈ names, node a = node b → a = b) :
    Wellformed true (names.map fun name => upperCandidate (node name) role name) blocked := by
  apply wellformed_of_spelled
  · rw [map_map]
    exact hnd.map_on hnode
  · intro c hc
    obtain ⟨name, -, rfl⟩ := mem_map.mp hc
    exact upperCandidate_requested ..
  · intro c hc
    obtain ⟨name, hname, rfl⟩ := mem_map.mp hc
    exact spelled_candidate _ role (hvd name hname).localName (hvd name hname).moduleName
      none none true nofun

lemma validFQName_constructorsOf (htys : ∀ entry ∈ types, ValidFQName entry.1)
    (hns : ∀ ctor ∈ constructorsOf types, ValidName ctor.localName) :
    ∀ ctor ∈ constructorsOf types, ValidFQName ctor := by
  intro ctor hctor
  obtain ⟨entry, hent, hmem⟩ := mem_flatMap.mp hctor
  obtain ⟨name, -, rfl⟩ := mem_map.mp hmem
  exact ⟨(htys entry hent).packageName, (htys entry hent).moduleName, hns _ hctor⟩

lemma mem_legacy {entry : String × String} :
    entry ∈ types.flatMap legacyOf ↔
      (∃ name ∈ types.map Prod.fst, entry = (typeNode name, "T_" ++ hex name.toCanonical)) ∨
        ∃ ctor ∈ constructorsOf types,
          entry = (constructorNode ctor, "C_" ++ hex ctor.toCanonical) := by
  constructor
  · intro h
    obtain ⟨type, hty, h⟩ := mem_flatMap.mp h
    rcases mem_cons.mp h with rfl | h
    · exact .inl ⟨type.1, mem_map_of_mem hty, rfl⟩
    · obtain ⟨ctor, hctor, rfl⟩ := mem_map.mp h
      exact .inr ⟨ctor, mem_flatMap.mpr ⟨type, hty, hctor⟩, rfl⟩
  · rintro (⟨name, hname, rfl⟩ | ⟨ctor, hctor, rfl⟩)
    · obtain ⟨type, hty, rfl⟩ := mem_map.mp hname
      exact mem_flatMap.mpr ⟨type, hty, mem_cons_self⟩
    · obtain ⟨type, hty, hctor⟩ := mem_flatMap.mp hctor
      exact mem_flatMap.mpr
        ⟨type, hty, mem_cons_of_mem _ (mem_map_of_mem hctor)⟩

lemma legacy_typeNames (plan : TargetNames) :
    ∀ name ∈ types.map Prod.fst, (plan.withNames (types.flatMap legacyOf)).names (typeNode name) =
      some ("T_" ++ hex name.toCanonical) := by
  intro name hname
  refine withNames_names (fun entry hent howner => ?_)
    (.inr ⟨_, mem_legacy.mpr (.inl ⟨name, hname, rfl⟩), rfl⟩)
  rcases mem_legacy.mp hent with ⟨name', -, rfl⟩ | ⟨ctor, -, rfl⟩
  · rw [(String.append_right_inj _).mp howner]
  · exact absurd howner.symm (typeNode_ne_constructorNode name ctor)

lemma legacy_constructorNames (plan : TargetNames) :
    ∀ ctor ∈ constructorsOf types,
      (plan.withNames (types.flatMap legacyOf)).names (constructorNode ctor) =
        some ("C_" ++ hex ctor.toCanonical) := by
  intro ctor hctor
  refine withNames_names (fun entry hent howner => ?_)
    (.inr ⟨_, mem_legacy.mpr (.inr ⟨ctor, hctor, rfl⟩), rfl⟩)
  rcases mem_legacy.mp hent with ⟨name, -, rfl⟩ | ⟨ctor', -, rfl⟩
  · cases howner
  · rw [(String.append_right_inj _).mp howner]

lemma allocateNamespace_frame (hw : Wellformed upper candidates blocked) {reserveGlobal : Bool}
    {plan' : TargetNames}
    (h : allocateNamespace fuel plan candidates blocked reserveGlobal = some plan')
    (howner : ∀ c ∈ candidates, c.owner ≠ owner) : plan'.names owner = plan.names owner := by
  refine (allocateNamespace_names hw h).2.2 owner fun hmem => ?_
  obtain ⟨c, hc, heq⟩ := mem_map.mp hmem
  exact howner c hc heq

variable {values : List FQName}

section

variable (h : Collected style values types c)

include h

lemma Collected.owner_type {t : NamingCandidate} (ht : t ∈ c.types) :
    ∃ name, t.owner = typeNode name := by
  rw [h.typeCandidates] at ht
  split at ht
  · cases ht
  · obtain ⟨entry, -, rfl⟩ := mem_map.mp ht
    exact ⟨entry.1, rfl⟩

lemma Collected.owner_constructor {t : NamingCandidate} (ht : t ∈ c.constructors) :
    ∃ name, t.owner = constructorNode name := by
  rw [h.constructorCandidates] at ht
  split at ht
  · cases ht
  · obtain ⟨ctor, -, rfl⟩ := mem_map.mp ht
    exact ⟨ctor, rfl⟩

lemma Collected.owner_value {v : NamingCandidate} (hv : v ∈ sortByOwner c.values) :
    ∃ name, v.owner = valueNode name := by
  have hv := (perm_insertionSort _ c.values).mem_iff.mp hv
  have howner := mem_map_of_mem (f := owner) hv
  rw [h.owners] at howner
  obtain ⟨name, -, heq⟩ := mem_map.mp howner
  exact ⟨name, heq.symm⟩

end

lemma wellformed_nil (upper : Bool) (blocked : Finset String) : Wellformed upper [] blocked :=
  wellformed_of_spelled blocked .nil nofun nofun

lemma new_apart (h : TargetNames.new fuel style hints library = .ok (some plan))
    (hdc : declareConstructors library = .ok declared)
    (hns : ∀ ctor ∈ constructorsOf (customTypes library), ValidName ctor.localName) :
    NamesApart (fun name => plan.names (valueNode name)) (libraryValues library) ∧
    NamesApart (fun name => plan.names (typeNode name)) ((customTypes library).map Prod.fst) ∧
    NamesApart (fun ctor => plan.names (constructorNode ctor))
      (constructorsOf (customTypes library)) := by
  obtain ⟨c, hc, h⟩ := bind_ok h
  obtain ⟨_, hreq, h⟩ := bind_ok h
  have hcoll := libraryCandidates_ok hc
  obtain ⟨planA, hA, h⟩ := Option.bind_eq_some_iff.mp (Except.ok.inj h)
  obtain ⟨planB, hB, hC⟩ := Option.bind_eq_some_iff.mp h
  have hvalidTypes : ∀ name ∈ (customTypes library).map Prod.fst, ValidFQName name := by
    intro name hname
    obtain ⟨entry, hent, rfl⟩ := mem_map.mp hname
    exact hcoll.validTypes entry hent
  have hvalidCtors := validFQName_constructorsOf hcoll.validTypes hns
  have hwA := hcoll.wellformed_values hreq
  have hwTypes := wellformed_upper "type" builtinTypes.toFinset (nodup_customTypes library)
    hvalidTypes fun a ha b hb => typeNode_inj (hvalidTypes a ha) (hvalidTypes b hb)
  have hwCtors := wellformed_upper "constructor" builtinConstructors.toFinset
    (nodup_constructors hdc) hvalidCtors
    fun a ha b hb => constructorNode_inj (hvalidCtors a ha) (hvalidCtors b hb)
  have hwB : Wellformed true c.types builtinTypes.toFinset := by
    rw [hcoll.typeCandidates]
    split
    · exact wellformed_nil _ _
    · rwa [map_map] at hwTypes
  have hwC : Wellformed true c.constructors builtinConstructors.toFinset := by
    rw [hcoll.constructorCandidates]
    split
    · exact wellformed_nil _ _
    · exact hwCtors
  -- each allocation leaves the names of the two other kinds alone
  have hframeA {owner : String} (howner : ∀ name, valueNode name ≠ owner) :
      planA.names owner = ((TargetNames.empty style).withNames c.legacy).names owner := by
    refine allocateNamespace_frame hwA hA fun v hv heq => ?_
    obtain ⟨name, hname⟩ := hcoll.owner_value hv
    exact howner name (hname ▸ heq)
  have hframeB {owner : String} (howner : ∀ name, typeNode name ≠ owner) :
      planB.names owner = planA.names owner := by
    refine allocateNamespace_frame hwB hB fun t ht heq => ?_
    obtain ⟨name, hname⟩ := hcoll.owner_type ht
    exact howner name (hname ▸ heq)
  have hframeC {owner : String} (howner : ∀ name, constructorNode name ≠ owner) :
      plan.names owner = planB.names owner := by
    refine allocateNamespace_frame hwC hC fun t ht heq => ?_
    obtain ⟨name, hname⟩ := hcoll.owner_constructor ht
    exact howner name (hname ▸ heq)
  refine ⟨?_, ?_, ?_⟩
  · have hvals := (allocateNamespace_apart hwA hA).perm
      ((perm_insertionSort _ c.values).map owner)
    rw [hcoll.owners] at hvals
    refine (hvals.of_map valueNode).congr fun name _ => ?_
    rw [hframeC fun other => (valueNode_ne_constructorNode name other).symm,
      hframeB fun other => (valueNode_ne_typeNode name other).symm]
  · by_cases hst : style = .legacyHex
    · refine .of_inj (fun name => "T_" ++ hex name.toCanonical) (nodup_customTypes library)
        (fun name hname => ?_) fun a ha b hb heq => ?_
      · have hemp : c.types = [] := by rw [hcoll.typeCandidates, if_pos hst]
        rw [hframeC fun other => (typeNode_ne_constructorNode name other).symm,
          allocateNamespace_frame hwB hB (by simp [hemp]),
          hframeA fun other => valueNode_ne_typeNode other name, hcoll.legacyNames,
          if_pos hst]
        exact legacy_typeNames _ name hname
      · exact (hvalidTypes a ha).eq_of_canonical (hvalidTypes b hb)
          (hex_inj ((String.append_right_inj _).mp heq))
    · have htys := allocateNamespace_apart hwB hB
      rw [hcoll.typeCandidates, if_neg hst, map_map] at htys
      have hmap : NamesApart planB.names (((customTypes library).map Prod.fst).map typeNode) := by
        rw [map_map]
        exact htys
      refine (hmap.of_map typeNode).congr fun name _ => ?_
      exact hframeC fun other => (typeNode_ne_constructorNode name other).symm
  · by_cases hst : style = .legacyHex
    · refine .of_inj (fun ctor => "C_" ++ hex ctor.toCanonical) (nodup_constructors hdc)
        (fun ctor hctor => ?_) fun a ha b hb heq => ?_
      · have hemp : c.constructors = [] := by
          rw [hcoll.constructorCandidates, if_pos hst]
        rw [allocateNamespace_frame hwC hC (by simp [hemp]),
          hframeB fun other => typeNode_ne_constructorNode other ctor,
          hframeA fun other => valueNode_ne_constructorNode other ctor, hcoll.legacyNames,
          if_pos hst]
        exact legacy_constructorNames _ ctor hctor
      · exact (hvalidCtors a ha).eq_of_canonical (hvalidCtors b hb)
          (hex_inj ((String.append_right_inj _).mp heq))
    · have hcs := allocateNamespace_apart hwC hC
      rw [hcoll.constructorCandidates, if_neg hst, map_map] at hcs
      have hmap : NamesApart plan.names
          ((constructorsOf (customTypes library)).map constructorNode) := hcs
      exact hmap.of_map constructorNode

end Morphir.Moonbit
