import Morphir.Metadata.Addresses

/-!
# Addresses are canonical

The URI of a value is read as the value, and what is read is printed as the same URI.
-/

namespace Morphir

open List FQName

variable {text : String}

variable {path : Path}

section

variable (h : Path.parse text = .ok path)

include h

lemma Path.parse_ok :
    List.Forall₂ (fun part name => Name.parse (String.ofList part) = .ok name)
      (text.toList.splitOn '/') path.segments := by
  obtain ⟨segments, hseg, hp⟩ := Fallible.bind_ok h
  cases hp
  exact mapM_eq_ok.mp hseg

lemma Path.toCanonical_of_parse : path.toCanonical = text := by
  have hpts : path.segments.map (fun name => name.toCanonical.toList) =
      text.toList.splitOn '/' := by
    have hns := Path.parse_ok h
    generalize text.toList.splitOn '/' = parts at hns ⊢
    generalize path.segments = names at hns ⊢
    induction hns with
    | nil => rfl
    | cons hname _ ih => rw [map_cons, ih, Name.toCanonical_of_parse hname, String.toList_ofList]
  apply String.toList_injective
  rw [Path.toCanonical, String.toList_intercalate, map_map]
  exact (congrArg ['/'].intercalate hpts).trans (join_splitOn '/' _)

lemma Path.parse_toCanonical :
    Path.parse path.toCanonical = .ok path := by
  rw [Path.toCanonical_of_parse h, h]

end

def FQName.Valid (name : FQName) : Prop := FQName.parse name.toCanonical = .ok name

instance (name : FQName) : Decidable name.Valid :=
  inferInstanceAs (Decidable (FQName.parse name.toCanonical = .ok name))

lemma FQName.toCanonical_toList (name : FQName) :
    name.toCanonical.toList = name.packageName.toCanonical.toList ++
      ':' :: (name.moduleName.toCanonical.toList ++ '#' :: name.localName.toCanonical.toList) := by
  simp [toCanonical]

instance (c : Char) : Decidable (IsNameChar c) := inferInstanceAs (Decidable (_ ∨ _ ∨ _))

lemma Spelling.notMem {separators text : List Char} (h : Spelling separators text) {c : Char}
    (hname : ¬ IsNameChar c) (hsep : c ∉ separators) : c ∉ text :=
  fun hmem => (h.chars c hmem).elim hname hsep

lemma FQName.valid_of_parts {name : FQName}
    (hpkg : Path.parse name.packageName.toCanonical = .ok name.packageName)
    (hmod : Path.parse name.moduleName.toCanonical = .ok name.moduleName)
    (hlo : Name.parse name.localName.toCanonical = .ok name.localName) : name.Valid := by
  have hpackageText := Path.parse_spelling hpkg
  have hmoduleText := Path.parse_spelling hmod
  have hlocalText := Name.parse_spelling hlo
  have hco : ':' ∉ name.moduleName.toCanonical.toList ++
      '#' :: name.localName.toCanonical.toList := by
    rw [mem_append, mem_cons, not_or, not_or]
    exact ⟨hmoduleText.notMem (by decide) (by decide), by decide,
      hlocalText.notMem (by decide) (by decide)⟩
  rw [Valid, parse, toCanonical_toList,
    splitOn_append_cons_self_of_not_mem (hpackageText.notMem (by decide) (by decide)),
    splitOn_eq_singleton hco]
  dsimp only
  rw [splitOn_append_cons_self_of_not_mem (hmoduleText.notMem (by decide) (by decide)),
    splitOn_eq_singleton (hlocalText.notMem (by decide) (by decide))]
  simp only [String.ofList_toList, hpkg, hmod, hlo]
  rfl

end Morphir

namespace Morphir.Metadata

open Fallible Engine.ModelDocument List

lemma splitEncoded_encodePath {path : Path} (h : Path.parse path.toCanonical = .ok path) :
    ['/'].intercalate (splitEncoded (encodePath path)) = path.toCanonical.toList := by
  rw [encodePath, splitEncoded_intercalate (splitOn_ne_nil _ _), intercalate_splitOn]
  intro part hpa
  obtain ⟨name, -, hname⟩ := (Path.parse_ok h).exists_right part hpa
  have hspe := Name.parse_spelling hname
  rw [String.toList_ofList] at hspe
  exact hspe.notMem (by decide) (by decide)

/-- What an accepted URI and its address have to do with each other. -/
structure IsAddress (uri : List Char) (a : Address) : Prop where
  text : addressText a.packageName a.format a.revision a.fragment = uri
  package : Path.parse a.packageName.toCanonical = .ok a.packageName
  format : ∃ version, FormatVersion.parse (String.ofList a.format) = some version ∧
    (releaseText version).toList = a.format
  revision : ∀ r ∈ a.revision, isRevision r = true

variable {revision : Option (List Char)}

variable {format : List Char}

lemma readQuery_ok {query : List Char} (h : readQuery uri query = .ok (format, revision)) :
    (∃ version, FormatVersion.parse (String.ofList format) = some version ∧
      (releaseText version).toList = format) ∧ ∀ r ∈ revision, isRevision r = true := by
  obtain ⟨parameters, -, h⟩ := bind_ok h
  split at h
  · cases h
  obtain ⟨_, hfor, h⟩ := bind_ok h
  obtain ⟨_, -, h⟩ := bind_ok h
  obtain ⟨_, hrev, h⟩ := bind_ok h
  cases h
  constructor
  · obtain ⟨version, hver⟩ := Option.ne_none_iff_exists'.mp (refuse_ok hfor)
    refine ⟨version, hver, ?_⟩
    rw [releaseText_of_parse hver, String.toList_ofList]
  · intro r hr
    have hany := refuse_ok hrev
    rw [Option.mem_def.mp hr] at hany
    simpa using hany

variable {uri : List Char}

lemma address_ok {a : Address} (h : address uri = .ok a) : IsAddress uri a := by
  rw [address] at h
  split at h
  · split at h
    · split at h
      · split at h
        · cases h
        · rename_i packageName hpkg
          obtain ⟨_, -, h⟩ := bind_ok h
          obtain ⟨⟨format, revision⟩, hquery, h⟩ := bind_ok h
          obtain ⟨_, ht, h⟩ := bind_ok h
          cases h
          obtain ⟨hfor, hrev⟩ := readQuery_ok hquery
          exact ⟨not_not.mp (refuse_ok ht), Path.parse_toCanonical hpkg, hfor, hrev⟩
      · cases h
    · cases h
  · cases h

def valueFragment (moduleName : Path) (localName : Name) : List Char :=
  "/module/".toList ++ encodePath moduleName ++ "/value/".toList ++ localName.toCanonical.toList

lemma marked_eq {first second key other : List Char} (hfst : first = '/' :: (key ++ ['/']))
    (hsnd : second = '/' :: (other ++ ['/'])) (a b : List Char) :
    first ++ a ++ second ++ b = ['/'].intercalate [[], key, a, other, b] := by
  rw [hfst, hsnd]
  simp

lemma valueFragment_eq (moduleName : Path) (localName : Name) :
    valueFragment moduleName localName = ['/'].intercalate
      [[], "module".toList, encodePath moduleName, "value".toList, localName.toCanonical.toList] :=
  marked_eq (by decide) (by decide) _ _

structure IsDeclaration (uri : List Char) (name : FQName) (a : Address) : Prop where
  address : address uri = .ok a
  package : name.packageName = a.packageName
  valid : name.Valid
  fragment : valueFragment name.moduleName name.localName = a.fragment

variable {name : FQName}

lemma declaration_ok {a : Address} (h : declaration uri = .ok (name, a)) :
    IsDeclaration uri name a := by
  obtain ⟨parsed, hadd, h⟩ := bind_ok h
  split at h
  · rename_i empty moduleKey module valueKey value hspl
    obtain ⟨_, hks, h⟩ := bind_ok h
    split at h
    · cases h
    · rename_i moduleName hmod
      split at h
      · cases h
      · rename_i localName hlo
        obtain ⟨_, htexts, h⟩ := bind_ok h
        cases h
        have hks := refuse_ok hks
        have htexts := refuse_ok htexts
        simp only [not_or, not_not] at hks htexts
        obtain ⟨rfl, rfl, rfl⟩ := hks
        obtain ⟨rfl, rfl⟩ := htexts
        refine ⟨hadd, rfl, ?_, ?_⟩
        · refine FQName.valid_of_parts (address_ok hadd).package ?_ ?_
          · exact Path.parse_toCanonical hmod
          · rw [String.ofList_toList] at hlo
            exact hlo
        · have hjn := join_splitOn '/' a.fragment
          rw [hspl] at hjn
          exact (valueFragment_eq _ _).trans hjn
  · cases h

variable {version : FormatVersion}

variable {c : Char}

lemma notMem_releaseText (hdig : c.isDigit = false) (hpt : c ≠ '.') :
    c ∉ (releaseText version).toList := by
  intro hmem
  rcases mem_releaseText hmem with h | h
  · rw [hdig] at h
    cases h
  · exact hpt h

lemma readQuery_format (hver : FormatVersion.parse (releaseText version) = some version) :
    readQuery uri (formatKey ++ '=' :: (releaseText version).toList) =
      .ok ((releaseText version).toList, none) := by
  have hamp : '&' ∉ formatKey ++ '=' :: (releaseText version).toList := by
    rw [mem_append, mem_cons, not_or, not_or]
    exact ⟨by decide, by decide, notMem_releaseText (by decide) (by decide)⟩
  have hpar : readParameters uri [] [formatKey ++ '=' :: (releaseText version).toList] =
      .ok [(formatKey, (releaseText version).toList)] := by
    rw [readParameters, splitOn_append_cons_self_of_not_mem (by decide),
      splitOn_eq_singleton (notMem_releaseText (by decide) (by decide))]
    rfl
  rw [readQuery, splitOn_eq_singleton hamp, hpar, bind_eq, OrdMap.get?_cons, if_pos rfl]
  dsimp only
  rw [String.ofList_toList, hver]
  rfl

lemma address_eq {before package query fragment : List Char} {packageName : Path}
    (hpre : uriPrefix <+: uri) (hha : (uri.drop uriPrefix.length).splitOn '#' = [before, fragment])
    (hque : before.splitOn '?' = [package, query])
    (hpkg : Path.parse (String.ofList package) = .ok packageName)
    (hquery : readQuery uri query = .ok (format, revision))
    (ht : addressText packageName format revision fragment = uri) :
    address uri = .ok ⟨packageName, format, revision, fragment⟩ := by
  have hcan : packageName.toCanonical.toList = package := by
    rw [Path.toCanonical_of_parse hpkg, String.toList_ofList]
  rw [address, if_pos ( isPrefixOf_iff_prefix.mpr hpre), hha]
  dsimp only
  rw [hque]
  dsimp only
  rw [hpkg]
  dsimp only
  rw [refuse, if_neg (not_not.mpr hcan), bind_eq, hquery, bind_eq]
  rw [refuse, if_neg (not_not.mpr ht)]
  rfl

lemma address_addressText {packageName : Path} {fragment : List Char}
    (hpkg : Path.parse packageName.toCanonical = .ok packageName)
    (hver : FormatVersion.parse (releaseText version) = some version) (hfra : '#' ∉ fragment) :
    address (addressText packageName (releaseText version).toList none fragment) =
      .ok ⟨packageName, (releaseText version).toList, none, fragment⟩ := by
  have hspe := Path.parse_spelling hpkg
  have hmk : "?format=".toList = '?' :: (formatKey ++ ['=']) := by decide
  have ht : addressText packageName (releaseText version).toList none fragment =
      uriPrefix ++ ((packageName.toCanonical.toList ++
        '?' :: (formatKey ++ '=' :: (releaseText version).toList)) ++ '#' :: fragment) := by
    rw [addressText, hmk]
    simp
  have hquery : '?' ∉ formatKey ++ '=' :: (releaseText version).toList := by
    rw [mem_append, mem_cons, not_or, not_or]
    exact ⟨by decide, by decide, notMem_releaseText (by decide) (by decide)⟩
  have hpre : '#' ∉ packageName.toCanonical.toList ++
      '?' :: (formatKey ++ '=' :: (releaseText version).toList) := by
    rw [mem_append, mem_cons, mem_append, mem_cons, not_or, not_or, not_or, not_or]
    exact ⟨hspe.notMem (by decide) (by decide), by decide, by decide, by decide,
      notMem_releaseText (by decide) (by decide)⟩
  have hha : ((addressText packageName (releaseText version).toList none fragment).drop
      uriPrefix.length).splitOn '#' = [packageName.toCanonical.toList ++
        '?' :: (formatKey ++ '=' :: (releaseText version).toList), fragment] := by
    rw [ht, drop_left, splitOn_append_cons_self_of_not_mem hpre, splitOn_eq_singleton hfra]
  have hque : (packageName.toCanonical.toList ++
      '?' :: (formatKey ++ '=' :: (releaseText version).toList)).splitOn '?' =
        [packageName.toCanonical.toList, formatKey ++ '=' :: (releaseText version).toList] := by
    rw [splitOn_append_cons_self_of_not_mem (hspe.notMem (by decide) (by decide)),
      splitOn_eq_singleton hquery]
  refine address_eq ?_ hha hque ?_ (readQuery_format hver) rfl
  · rw [ht]
    exact prefix_append _ _
  · rw [String.ofList_toList]
    exact hpkg

lemma notMem_intercalate {sep : List Char} (hsep : c ∉ sep) :
    ∀ {parts : List (List Char)}, (∀ part ∈ parts, c ∉ part) → c ∉ sep.intercalate parts
  | [], _ => by simp
  | [part], h => by
    rw [intercalate_singleton]
    exact h part mem_cons_self
  | part :: next :: parts, h => by
    rw [intercalate_cons_cons, mem_append, mem_append, not_or, not_or]
    exact ⟨⟨h part mem_cons_self, hsep⟩,
      notMem_intercalate hsep fun p hp => h p (mem_cons_of_mem part hp)⟩

lemma notMem_encodePath {path : Path} (h : Path.parse path.toCanonical = .ok path)
    (hname : ¬ IsNameChar c) (hhyp : c ≠ '-') (hsl : c ∉ encodedSlash) : c ∉ encodePath path := by
  apply notMem_intercalate hsl
  intro part hpa
  obtain ⟨name, -, hpartName⟩ := (Path.parse_ok h).exists_right part hpa
  have hspe := Name.parse_spelling hpartName
  rw [String.toList_ofList] at hspe
  exact hspe.notMem hname (by simpa using hhyp)

lemma splitOn_valueFragment {moduleName : Path} {localName : Name}
    (hmod : Path.parse moduleName.toCanonical = .ok moduleName)
    (hlo : Name.parse localName.toCanonical = .ok localName) :
    (valueFragment moduleName localName).splitOn '/' =
      [[], "module".toList, encodePath moduleName, "value".toList,
        localName.toCanonical.toList] := by
  have henc : '/' ∉ encodePath moduleName :=
    notMem_encodePath hmod (by decide) (by decide) (by decide)
  have hname : '/' ∉ localName.toCanonical.toList :=
    (Name.parse_spelling hlo).notMem (by decide) (by decide)
  have hks : '/' ∉ "module".toList ∧ '/' ∉ "value".toList := by decide
  rw [valueFragment_eq]
  apply splitOn_intercalate _ _ (cons_ne_nil _ _)
  simp only [forall_mem_cons, not_mem_nil, not_false_eq_true, true_and,
    IsEmpty.forall_iff, implies_true, and_true]
  exact ⟨hks.1, henc, hks.2, hname⟩

lemma declaration_eq (hvd : name.Valid)
    (hadd : address uri = .ok
      ⟨name.packageName, format, revision, valueFragment name.moduleName name.localName⟩) :
    declaration uri = .ok (name,
      ⟨name.packageName, format, revision, valueFragment name.moduleName name.localName⟩) := by
  obtain ⟨-, hmod, hlo⟩ := FQName.parse_toCanonical hvd
  rw [declaration, hadd, bind_eq]
  rw [splitOn_valueFragment hmod hlo]
  dsimp only
  rw [refuse, if_neg (by simp), splitEncoded_encodePath hmod, String.ofList_toList, hmod]
  rw [String.ofList_toList, hlo]
  dsimp only
  rw [refuse, if_neg (by simp)]
  rfl

lemma hashed_eq {mark fragmentMark : List Char} (h : mark = '#' :: fragmentMark)
    (a b c d : List Char) :
    a ++ mark ++ b ++ c ++ d = a ++ [] ++ '#' :: (fragmentMark ++ b ++ c ++ d) := by
  rw [h]
  simp

lemma valueUri_eq (file : IRFile) (h : name.Valid) :
    valueUri file name = .ok (addressText name.packageName
      (releaseText file.formatVersion).toList none
        (valueFragment name.moduleName name.localName)) := by
  rw [valueUri, h]
  exact congrArg Except.ok (hashed_eq (by decide) _ _ _ _)

lemma parse_release (file : IRFile) :
    FormatVersion.parse (releaseText file.formatVersion) = some file.formatVersion := by
  obtain ⟨hmajor, hsupp⟩ := file.family
  have hminor : file.formatVersion.minor = 0 := by
    simpa [FormatVersion.supported, hmajor] using hsupp
  have hpatch := file.patch_le
  apply parse_releaseText <;> omega

lemma hash_notMem_valueFragment {moduleName : Path} {localName : Name}
    (hmod : Path.parse moduleName.toCanonical = .ok moduleName)
    (hlo : Name.parse localName.toCanonical = .ok localName) :
    '#' ∉ valueFragment moduleName localName := by
  rw [valueFragment_eq]
  apply notMem_intercalate (by decide)
  have hks : '#' ∉ "module".toList ∧ '#' ∉ "value".toList := by decide
  simp only [forall_mem_cons, not_mem_nil, not_false_eq_true, true_and,
    IsEmpty.forall_iff, implies_true, and_true]
  exact ⟨hks.1, notMem_encodePath hmod (by decide) (by decide) (by decide), hks.2,
    (Name.parse_spelling hlo).notMem (by decide) (by decide)⟩

/-- The URI of a valid name of a file is read as the name; an address and a declaration are
read from their own texts only. -/
theorem addresses_canonical :
    (∀ (file : IRFile) (name : FQName), name.Valid → ∃ uri a, valueUri file name = .ok uri ∧
      declaration uri = .ok (name, a)) ∧
      (∀ uri a, address uri = .ok a → IsAddress uri a) ∧
      ∀ uri name a, declaration uri = .ok (name, a) → IsDeclaration uri name a ∧
        addressText name.packageName a.format a.revision
          (valueFragment name.moduleName name.localName) = uri ∧
        ∀ file : IRFile, a.revision = none → (releaseText file.formatVersion).toList = a.format →
          valueUri file name = .ok uri := by
  refine ⟨fun file name hvd => ?_, fun uri a h => address_ok h, fun uri name a h => ?_⟩
  · obtain ⟨hpkg, hmod, hlo⟩ := FQName.parse_toCanonical hvd
    have hha := hash_notMem_valueFragment hmod hlo
    exact ⟨_, _, valueUri_eq file hvd,
      declaration_eq hvd (address_addressText hpkg (parse_release file) hha)⟩
  · have hdec := declaration_ok h
    have ht : addressText name.packageName a.format a.revision
        (valueFragment name.moduleName name.localName) = uri := by
      rw [hdec.package, hdec.fragment]
      exact (address_ok hdec.address).text
    refine ⟨hdec, ht, fun file hrev hfor => ?_⟩
    rw [valueUri_eq file hdec.valid, hfor, ← hrev, ht]

end Morphir.Metadata
