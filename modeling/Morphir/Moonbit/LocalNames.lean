import Morphir.Moonbit.GeneratedNames

/-!
# Fields, locals and temporaries are apart

A shape is met once and its fields get names that are apart; the names of locals are
apart from each other and from all that is reserved; a temporary is none of what was
used before.
-/

namespace Morphir.Moonbit

open Fallible FreshSearch IR List LocalNames

variable {plan plan' : TargetNames} {fuel : Nat}

variable {cs : List NamingCandidate}

lemma Namespace.allocate_kept {scope : Namespace} {reserveGlobal : Bool} {used : Finset String}
    (h : scope.allocate fuel reserveGlobal cs used plan = some plan') :
    plan'.style = plan.style ∧ plan'.fields = plan.fields := by
  induction cs generalizing used plan with
  | nil =>
    cases h
    exact ⟨rfl, rfl⟩
  | cons c cs ih =>
    obtain ⟨allocated, -, hr⟩ := Option.bind_eq_some_iff.mp h
    have hk := ih hr
    exact hk

lemma Namespace.warn_kept (scope : Namespace) (cs : List NamingCandidate) (emitted : List String)
    (plan : TargetNames) : (scope.warn cs emitted plan).style = plan.style ∧
      (scope.warn cs emitted plan).fields = plan.fields := by
  induction cs generalizing emitted plan with
  | nil => exact ⟨rfl, rfl⟩
  | cons c cs ih =>
    rw [warn]
    split <;> split
    · exact ih _ _
    · exact ih _ _
    · exact ih _ _
    · exact ih _ _

lemma foldl_honour_kept (reserveGlobal : Bool) (cs : List NamingCandidate) (plan : TargetNames) :
    (cs.foldl (honour reserveGlobal) plan).style = plan.style ∧
      (cs.foldl (honour reserveGlobal) plan).fields = plan.fields := by
  induction cs generalizing plan with
  | nil => exact ⟨rfl, rfl⟩
  | cons c cs ih =>
    obtain ⟨hst, hfs⟩ := ih (honour reserveGlobal plan c)
    rw [foldl_cons, hst, hfs, honour]
    split
    · exact ⟨rfl, rfl⟩
    · exact ⟨rfl, rfl⟩

lemma allocateNamespace_kept {candidates : List NamingCandidate} {blocked : Finset String}
    {reserveGlobal : Bool}
    (h : allocateNamespace fuel plan candidates blocked reserveGlobal = some plan') :
    plan'.style = plan.style ∧ plan'.fields = plan.fields := by
  obtain ⟨middle, halloc, hwarn⟩ := Option.bind_eq_some_iff.mp h
  cases hwarn
  obtain ⟨hst, hfs⟩ := Namespace.allocate_kept halloc
  obtain ⟨hst', hfs'⟩ := foldl_honour_kept reserveGlobal candidates plan
  obtain ⟨hst'', hfs''⟩ := Namespace.warn_kept (namespaceOf candidates blocked)
    (namespaceOf candidates blocked).candidates [] middle
  exact ⟨hst''.trans (hst.trans hst'), hfs''.trans (hfs.trans hfs')⟩

variable {shape : String}

lemma fieldOwner_inj {a b : Name} (ha : ValidName a) (hb : ValidName b)
    (h : fieldOwner shape a = fieldOwner shape b) : a = b :=
  ha.eq_of_canonical hb ((String.append_right_inj _).mp h)

lemma fieldCandidate_candidate (shape : String) (name : Name) :
    (fieldCandidate shape name).candidate = escaped (renderName name false) := by
  simp only [fieldCandidate, escaped]

lemma spelled_field {name : Name} (h : ValidName name) :
    Spelled false (fieldCandidate shape name) := by
  have hren := usable_renderName h false
  refine ⟨nofun, ?_, ?_⟩
  · rw [fieldCandidate_candidate]
    exact portable_escaped hren
  · exact portable_suffix hren "field".toList rfl
      (all_eq_true.mp (by decide)) (by decide)

variable {names : List Name}

lemma allocateFields_apart (hns : ∀ name ∈ names, ValidName name) (hnd : names.Nodup)
    (hnew : plan.fields shape = none) (h : allocateFields fuel plan shape names = some plan') :
    ∃ mapped, plan'.fields shape = some mapped ∧ NamesApart mapped names ∧
      ∀ name, name ∉ names → mapped name = none := by
  rw [allocateFields, if_neg (by simp [hnew])] at h
  obtain ⟨middle, hmid, h⟩ := Option.bind_eq_some_iff.mp h
  cases h
  have hst := (allocateNamespace_kept hmid).1
  refine ⟨_, Function.update_self .., ?_, fun name hname => if_neg hname⟩
  by_cases hleg : plan.style = .legacyHex
  · refine .of_inj (fun name => "f_" ++ hex name.toCanonical) hnd (fun name hname => ?_)
      fun a ha b hb heq => ?_
    · rw [if_pos hname, hst, if_pos hleg]
    · exact (hns a ha).eq_of_canonical (hns b hb)
        (hex_inj ((String.append_right_inj _).mp heq))
  · rw [if_neg hleg] at hmid
    have hw : Wellformed false (names.map (fieldCandidate shape)) ∅ := by
      apply wellformed_of_spelled
      · rw [map_map]
        exact hnd.map_on fun a ha b hb heq => fieldOwner_inj (hns a ha) (hns b hb) heq
      · intro c hc
        obtain ⟨name, -, rfl⟩ := mem_map.mp hc
        rfl
      · intro c hc
        obtain ⟨name, hname, rfl⟩ := mem_map.mp hc
        exact spelled_field (hns name hname)
    have hap := allocateNamespace_apart hw hmid
    rw [map_map] at hap
    refine (NamesApart.of_map (fieldOwner shape) hap).congr fun name hname => ?_
    rw [if_pos hname, hst, if_neg hleg]

/-- In every shape that was met fields with one name are one field. -/
def FieldsApart (plan : TargetNames) : Prop :=
  ∀ shape mapped, plan.fields shape = some mapped → ∀ a b text, mapped a = some text →
    mapped b = some text → a = b

lemma NamesApart.inj {α : Type} {names : α → Option String} {keys : List α}
    (h : NamesApart names keys) {a b : α} (ha : a ∈ keys) (hb : b ∈ keys) (heq : names a = names b)
    : a = b := by
  by_contra hne
  have : Std.Symm fun key key' => names key ≠ names key' := ⟨fun _ _ hne => hne.symm⟩
  exact h.apart.forall ha hb hne heq

lemma FieldsApart.allocateFields (hap : FieldsApart plan) (hns : ∀ name ∈ names, ValidName name)
    (hnd : names.Nodup) (h : allocateFields fuel plan shape names = some plan') :
    FieldsApart plan' := by
  cases hnew : plan.fields shape with
  | some mapped =>
    rw [Moonbit.allocateFields, if_pos (by simp [hnew])] at h
    cases h
    exact hap
  | none =>
    obtain ⟨mapped, hmap, hnamesApart, hno⟩ := allocateFields_apart hns hnd hnew h
    intro shape' mapped' hsh a b text ha hb
    by_cases hsm : shape' = shape
    · rw [hsm, hmap] at hsh
      cases hsh
      have hmem {name : Name} (hname : mapped name = some text) : name ∈ names := by
        by_contra hnot
        rw [hno name hnot] at hname
        cases hname
      exact hnamesApart.inj (hmem ha) (hmem hb) (ha.trans hb.symm)
    · refine hap shape' mapped' ?_ a b text ha hb
      rw [Moonbit.allocateFields, if_neg (by simp [hnew])] at h
      obtain ⟨middle, hmid, h⟩ := Option.bind_eq_some_iff.mp h
      cases h
      rw [← hsh, ← (allocateNamespace_kept hmid).2]
      exact (Function.update_of_ne hsm ..).symm

lemma localOwner_inj {owner : String} {a b : Name} (ha : ValidName a) (hb : ValidName b)
    (h : localOwner owner a = localOwner owner b) : a = b :=
  ha.eq_of_canonical hb ((String.append_right_inj _).mp h)

variable {hints : String → Option (String × Option Span)} {declaration : Declaration}
  {style : NamingStyle}

lemma localCandidate_ok {name : Name} {c : NamingCandidate}
    (h : localCandidate style hints declaration name = .ok c) :
    c.owner = localOwner (valueNode declaration.fqname) name ∧ c.requested = none ∧
      ValidName name ∧ Spelled false c := by
  obtain ⟨_, hval, h⟩ := bind_ok h
  have hvd := validName_of_validate hval
  split at h
  · obtain ⟨text, ht, h⟩ := bind_ok h
    obtain ⟨_, -, ht⟩ := bind_ok ht
    cases ht
    cases h
    refine ⟨rfl, rfl, hvd, nofun, ?_, ?_⟩
    · exact spelled_legacy "x" (by decide) (by decide) _
    · have husa : usableIdentifier "x" false = true := by decide
      have h := portable_hex husa (by decide) name.toCanonical "_local"
        (all_eq_true.mp (by decide))
      rwa [← String.append_assoc] at h
  · cases h
    have hba := portable_escaped
      (usable_hint hvd ((hints name.toCanonical).map Prod.fst) false)
    refine ⟨rfl, rfl, hvd, nofun, hba, ?_⟩
    exact portable_suffix hba.usable "local".toList rfl
      (all_eq_true.mp (by decide)) (by decide)

lemma localCandidates_ok (h : names.mapM (localCandidate style hints declaration) = .ok cs) :
    cs.map NamingCandidate.owner = names.map (localOwner (valueNode declaration.fqname)) ∧
      (∀ c ∈ cs, c.requested = none) ∧ (∀ name ∈ names, ValidName name) ∧
        ∀ c ∈ cs, Spelled false c := by
  induction names generalizing cs with
  | nil =>
    cases h
    simp
  | cons name names ih =>
    rw [mapM_cons] at h
    obtain ⟨c, hc, h⟩ := bind_ok h
    obtain ⟨cs, hcs, h⟩ := bind_ok h
    cases h
    obtain ⟨howner, hno, hvd, hsp⟩ := localCandidate_ok hc
    obtain ⟨hown, hnones, hval, hspe⟩ := ih hcs
    simp only [map_cons, mem_cons, howner, hown, forall_eq_or_imp]
    exact ⟨trivial, ⟨hno, hnones⟩, ⟨hvd, hval⟩, hsp, hspe⟩

namespace LocalNames

lemma nodup_keys (declaration : Declaration) : (keys declaration).Nodup :=
  (perm_insertionSort _ _).nodup_iff.mpr (NameSet.nodup _)

/-- What locals have: names that are apart and used, and none that is reserved. -/
structure Apart (plan : TargetNames) (declaration : Declaration) (locals : LocalNames) : Prop where
  apart : NamesApart locals.names (keys declaration)
  fresh : ∀ name ∈ keys declaration, ∀ text, locals.names name = some text →
    text ∉ plan.reserved ∧ Portable false text
  used : ∀ name ∈ keys declaration, ∀ text, locals.names name = some text → text ∈ locals.used
  reserved : plan.reserved ⊆ locals.used

variable {locals : LocalNames}

lemma new_apart {plan : TargetNames} (h : new fuel plan hints declaration = .ok (some locals)) :
    Apart plan declaration locals := by
  obtain ⟨cs, hcs, h⟩ := bind_ok h
  obtain ⟨plan', halloc, h⟩ := Option.bind_eq_some_iff.mp (Except.ok.inj h)
  cases h
  obtain ⟨hown, hno, hvd, hsp⟩ := localCandidates_ok hcs
  have hw : Wellformed false cs plan.reserved := by
    refine wellformed_of_spelled _ ?_ hno hsp
    rw [hown]
    exact (nodup_keys declaration).map_on fun a ha b hb heq =>
      localOwner_inj (hvd a ha) (hvd b hb) heq
  have hmap : ∀ name ∈ keys declaration, (if name ∈ keys declaration then
      plan'.names (localOwner (valueNode declaration.fqname) name) else none) =
        plan'.names (localOwner (valueNode declaration.fqname) name) :=
    fun name hname => if_pos hname
  refine ⟨?_, fun name hname text ht => ?_, fun name hname text ht => ?_, Finset.subset_union_left⟩
  · have hap := allocateNamespace_apart hw halloc
    rw [hown] at hap
    exact (hap.of_map (localOwner (valueNode declaration.fqname))).congr hmap
  · have hmem : localOwner (valueNode declaration.fqname) name ∈ cs.map NamingCandidate.owner := by
      rw [hown]
      exact mem_map_of_mem hname
    obtain ⟨c, hc, howner⟩ := mem_map.mp hmem
    obtain ⟨found, hfd, hblo, hpor, -⟩ := (allocateNamespace_names hw halloc).1 c hc
    have hsm : some text = some found := by
      rw [← hfd, howner, ← hmap name hname]
      exact ht.symm
    rw [Option.some.inj hsm]
    exact ⟨hblo, hpor⟩
  · apply Finset.mem_union_right
    exact mem_toFinset.mpr (mem_filterMap.mpr ⟨name, hname, ht⟩)

lemma fresh_spec {locals' : LocalNames} {role name : String}
    (h : fresh fuel locals role = some (name, locals')) :
    name ∉ locals.used ∧ locals'.used = insert name locals.used ∧
      locals'.names = locals.names := by
  obtain ⟨found, hfd, h⟩ := Option.bind_eq_some_iff.mp h
  cases h
  exact ⟨of_decide_eq_false (search_spec hfd).1, rfl, rfl⟩

lemma freshAll_apart {locals' : LocalNames} {roles names : List String}
    (h : freshAll fuel locals roles = some (names, locals')) :
    names.Nodup ∧ ∀ name ∈ names, name ∉ locals.used := by
  induction roles generalizing locals names with
  | nil =>
    obtain ⟨rfl, -⟩ := Prod.mk.inj (Option.some.inj h)
    exact ⟨.nil, fun _ hn => absurd hn not_mem_nil⟩
  | cons role roles ih =>
    obtain ⟨⟨name, middle⟩, hfr, h⟩ := Option.bind_eq_some_iff.mp h
    obtain ⟨⟨rest, last⟩, hr, h⟩ := Option.bind_eq_some_iff.mp h
    cases h
    obtain ⟨hf, hu, -⟩ := fresh_spec hfr
    obtain ⟨hnd, hnot⟩ := ih hr
    rw [hu] at hnot
    refine ⟨nodup_cons.mpr ⟨fun hmem => ?_, hnd⟩, fun other ho => ?_⟩
    · exact hnot name hmem (Finset.mem_insert_self ..)
    · rcases mem_cons.mp ho with rfl | ho
      · exact hf
      · exact fun hmem => hnot other ho (Finset.mem_insert_of_mem hmem)

lemma exists_fresh (locals : LocalNames) (role : String) :
    ∃ fuel name locals', ∀ fuel', fuel ≤ fuel' →
      fresh fuel' locals role = some (name, locals') := by
  have hite (k n : Nat) : Nat.succ^[k] n = n + k := by
    induction k with
    | zero => rfl
    | succ k ih =>
      rw [Function.iterate_succ_apply', ih]
      rfl
  have hinj : Function.Injective fun k => role ++ "_" ++ toString (Nat.succ^[0 + k] 1) := by
    intro k k' heq
    have hsm := Numbered.toString_injective ((String.append_right_inj _).mp heq)
    rw [hite, hite] at hsm
    omega
  have hsea : ∃ fuel found, ∀ fuel', fuel ≤ fuel' →
      search (fun ordinal : Nat => role ++ "_" ++ toString ordinal) Nat.succ
        (fun text => decide (text ∈ locals.used)) fuel' 1 = some found :=
    exists_search locals.used (fun _ htaken => of_decide_eq_true htaken) 0 hinj
  obtain ⟨fuel, name, hname⟩ := hsea
  exact ⟨fuel, name, _, fun fuel' hle => Option.bind_eq_some_iff.mpr ⟨name, hname fuel' hle, rfl⟩⟩

lemma exists_freshAll (locals : LocalNames) (roles : List String) :
    ∃ fuel names locals', ∀ fuel', fuel ≤ fuel' →
      freshAll fuel' locals roles = some (names, locals') := by
  induction roles generalizing locals with
  | nil => exact ⟨0, [], locals, fun _ _ => rfl⟩
  | cons role roles ih =>
    obtain ⟨fuel, name, middle, hfr⟩ := exists_fresh locals role
    obtain ⟨fuel', names, locals', hr⟩ := ih middle
    refine ⟨max fuel fuel', name :: names, locals', fun fuel'' hle => ?_⟩
    rw [freshAll, hfr fuel'' (le_trans (le_max_left ..) hle)]
    refine Option.bind_eq_some_iff.mpr ⟨_, rfl, ?_⟩
    exact Option.bind_eq_some_iff.mpr ⟨_, hr fuel'' (le_trans (le_max_right ..) hle), rfl⟩

end LocalNames

lemma new_fieldsApart {hints : Hints} {library : LibraryDefinition}
    (h : TargetNames.new fuel style hints library = .ok (some plan)) : FieldsApart plan := by
  obtain ⟨c, _, h⟩ := bind_ok h
  obtain ⟨_, _, h⟩ := bind_ok h
  obtain ⟨planA, hA, h⟩ := Option.bind_eq_some_iff.mp (Except.ok.inj h)
  obtain ⟨planB, hB, hC⟩ := Option.bind_eq_some_iff.mp h
  intro shape mapped hsh
  rw [(allocateNamespace_kept hC).2, (allocateNamespace_kept hB).2,
    (allocateNamespace_kept hA).2] at hsh
  cases hsh

/-- An allocation of candidates that are wellformed ends, its names are apart, portable and
not blocked, requests are honoured, and the order of the candidates does not matter.  So no
two values, types or constructors of a library share a name, nor do two fields of a shape or
two locals of a declaration, and a temporary has a name of its own. -/
theorem generated_apart :
    (∀ (upper : Bool) (candidates : List NamingCandidate) (blocked : Finset String)
      (reserveGlobal : Bool) (plan : TargetNames), Wellformed upper candidates blocked →
      (∃ fuel result, ∀ fuel', fuel ≤ fuel' →
        allocateNamespace fuel' plan candidates blocked reserveGlobal = some result) ∧
      ∀ fuel result, allocateNamespace fuel plan candidates blocked reserveGlobal = some result →
        NamesApart result.names (candidates.map NamingCandidate.owner) ∧
        (∀ c ∈ candidates, ∃ name, result.names c.owner = some name ∧ name ∉ blocked ∧
          Portable upper name ∧ ∀ request, c.requested = some request → name = request) ∧
        ∀ candidates', candidates.Perm candidates' → ∃ result',
          allocateNamespace fuel plan candidates' blocked reserveGlobal = some result' ∧
            Alike result result') ∧
    (∀ fuel style hints library plan declared,
      TargetNames.new fuel style hints library = .ok (some plan) →
      declareConstructors library = .ok declared →
      (∀ ctor ∈ constructorsOf (customTypes library), ValidName ctor.localName) →
      NamesApart (fun name => plan.names (valueNode name)) (libraryValues library) ∧
      NamesApart (fun name => plan.names (typeNode name)) ((customTypes library).map Prod.fst) ∧
      NamesApart (fun ctor => plan.names (constructorNode ctor))
        (constructorsOf (customTypes library)) ∧ FieldsApart plan) ∧
    (∀ fuel plan plan' shape names, FieldsApart plan → (∀ name ∈ names, ValidName name) →
      names.Nodup → allocateFields fuel plan shape names = some plan' → FieldsApart plan') ∧
    ∀ fuel plan hints declaration locals,
      LocalNames.new fuel plan hints declaration = .ok (some locals) →
      locals.Apart plan declaration ∧
      ∀ roles, (∃ fuel names locals', ∀ fuel', fuel ≤ fuel' →
          locals.freshAll fuel' roles = some (names, locals')) ∧
        ∀ fuel names locals', locals.freshAll fuel roles = some (names, locals') →
          names.Nodup ∧ ∀ name ∈ names, name ∉ plan.reserved ∧
            ∀ key ∈ LocalNames.keys declaration, locals.names key ≠ some name := by
  refine ⟨fun upper candidates blocked reserveGlobal plan hw => ⟨?_, ?_⟩, ?_, ?_, ?_⟩
  · exact exists_allocateNamespace plan candidates blocked reserveGlobal
  · intro fuel result h
    refine ⟨allocateNamespace_apart hw h, (allocateNamespace_names hw h).1, ?_⟩
    exact fun candidates' hpm => allocateNamespace_perm hw hpm h
  · intro fuel style hints library plan declared h hdc hns
    obtain ⟨hvals, htys, hcs⟩ := new_apart h hdc hns
    exact ⟨hvals, htys, hcs, new_fieldsApart h⟩
  · intro fuel plan plan' shape names hap hns hnd h
    exact hap.allocateFields hns hnd h
  · intro fuel plan hints declaration locals h
    have hloc := LocalNames.new_apart h
    refine ⟨hloc, fun roles => ⟨exists_freshAll locals roles, ?_⟩⟩
    intro fuel' names locals' hfr
    obtain ⟨hnd, hunu⟩ := freshAll_apart hfr
    refine ⟨hnd, fun name hname => ⟨fun hresv => ?_, fun key hkey hsm => ?_⟩⟩
    · exact hunu name hname (hloc.reserved hresv)
    · exact hunu name hname (hloc.used key hkey name hsm)

def noHints : Hints := ⟨fun _ => none, fun _ => none, fun _ => none⟩

def wordName (text : String) : Name := ⟨[.word text]⟩

/-- A module `m` with a value `let` and a type `t` with a constructor `some`. -/
def smallModule : ModuleDefinition where
  moduleName := ⟨[wordName "m"]⟩
  values := [wordName "let"]
  types := [(wordName "t", .customTypeDefinition [wordName "some"])]
  valuesNodup := by decide
  typesNodup := by decide

def smallLibrary : LibraryDefinition where
  packageName := ⟨[wordName "a"]⟩
  modules := [smallModule]
  modulesNodup := by decide

/-- The declaration of `let` with one parameter. -/
def smallDeclaration : Declaration :=
  ⟨⟨⟨[wordName "a"]⟩, ⟨[wordName "m"]⟩, wordName "let"⟩, [wordName "x"],
    .variable ⟨none, none, []⟩ (wordName "x")⟩

def smallCandidate (owner : String) (requested : Option String) : NamingCandidate :=
  ⟨owner, "value", none, requested, "x", "m_x", none, "automatic"⟩

theorem not_allocated_apart :
    ¬ ∀ (candidates : List NamingCandidate) (blocked : Finset String) (fuel : Nat)
      (plan result : TargetNames),
      allocateNamespace fuel plan candidates blocked true = some result →
        NamesApart result.names (candidates.map NamingCandidate.owner) := by
  intro hall
  have hap := hall [smallCandidate "a" (some "y"), smallCandidate "b" (some "y")] ∅ 0
    (.empty .readable) _ rfl
  have hne := (pairwise_cons.mp hap.apart).1 "b" (mem_singleton.mpr rfl)
  exact hne (by decide +kernel)

lemma exists_ok_some {ε α : Type} {x : Except ε (Option α)} (h : x.toOption.join.isSome = true) :
    ∃ a, x = .ok (some a) := by
  match x, h with
  | .ok (some a), _ => exact ⟨a, rfl⟩

/-- The small library and its declaration have names that are apart, and so has a
namespace with a request. -/
theorem generated_apart_small :
    (∃ fuel result, allocateNamespace fuel (.empty .readable)
      [smallCandidate "a" (some "y"), smallCandidate "b" none] ∅ true = some result ∧
        NamesApart result.names ["a", "b"]) ∧
    (∃ plan, TargetNames.new 3 .readable noHints smallLibrary = .ok (some plan) ∧
      NamesApart (fun ctor => plan.names (constructorNode ctor))
        (constructorsOf (customTypes smallLibrary)) ∧
      ∀ plan', allocateFields 3 plan "T" [wordName "x"] = some plan' → FieldsApart plan') ∧
    ∃ locals, LocalNames.new 3 (.empty .readable) (fun _ => none) smallDeclaration =
        .ok (some locals) ∧ locals.Apart (.empty .readable) smallDeclaration := by
  obtain ⟨hns, hlib, hfs, hloc⟩ := generated_apart
  have hw : Wellformed false [smallCandidate "a" (some "y"), smallCandidate "b" none] ∅ := by
    have hpor (text : String) (h : usableIdentifier text false = true ∧ keyword text = false) :
        Portable false text := ⟨h.1, h.2⟩
    refine ⟨by decide, by decide, by simp, ?_, ?_, ?_⟩
    · intro c hc name hname
      rcases mem_pair.mp hc with rfl | rfl
      · cases hname
        exact hpor _ (by decide)
      · cases hname
    · exact fun c hc _ => by rcases mem_pair.mp hc with rfl | rfl <;> exact hpor _ (by decide)
    · exact fun c hc _ => by rcases mem_pair.mp hc with rfl | rfl <;> exact hpor _ (by decide)
  refine ⟨?_, ?_, ?_⟩
  · obtain ⟨⟨fuel, result, hends⟩, hall⟩ := hns false _ ∅ true (.empty .readable) hw
    have hres := hends fuel (le_refl fuel)
    exact ⟨fuel, result, hres, (hall fuel result hres).1⟩
  · obtain ⟨plan, hplan⟩ := exists_ok_some (x := TargetNames.new 3 .readable noHints smallLibrary)
      (by decide +kernel)
    have hvd : ∀ ctor ∈ constructorsOf (customTypes smallLibrary), ValidName ctor.localName := by
      intro ctor hctor
      obtain rfl := mem_singleton.mp hctor
      rfl
    obtain ⟨-, -, hcs, hap⟩ := hlib 3 .readable noHints smallLibrary plan
      [⟨⟨[wordName "a"]⟩, ⟨[wordName "m"]⟩, wordName "some"⟩] hplan rfl hvd
    refine ⟨plan, hplan, hcs, fun plan' h => ?_⟩
    refine hfs 3 plan plan' "T" [wordName "x"] hap ?_ (nodup_singleton _) h
    intro name hname
    obtain rfl := mem_singleton.mp hname
    rfl
  · obtain ⟨locals, hnew⟩ := exists_ok_some
      (x := new 3 (.empty .readable) (fun _ => none) smallDeclaration) (by decide +kernel)
    exact ⟨locals, hnew, (hloc 3 _ _ _ locals hnew).1⟩

end Morphir.Moonbit
