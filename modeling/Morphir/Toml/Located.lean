import Morphir.Toml.DefinitionOnce

/-!
# The element paths of statements

The edits of a document find the tables of its headers again without the store
of the check: for every array of tables they count the elements so far, under a
path that itself contains indices.
-/

namespace Morphir.Toml

open List Option

abbrev Counts := List (Location × Nat)

def countedKey (counts : Counts) (path : Location) (key : String) : Location :=
  match OrdMap.get? counts (path ++ [.key key]) with
  | some index => path ++ [.key key, .index index]
  | none => path ++ [.key key]

def nextIndex (counts : Counts) (array : Location) : Nat :=
  match OrdMap.get? counts array with
  | some index => index + 1
  | none => 0

lemma nextIndex_insert (counts : Counts) (path array : Location) (index : Nat) :
    nextIndex (OrdMap.insert counts path index) array =
      if path = array then index + 1 else nextIndex counts array := by
  rw [nextIndex, OrdMap.get?_insert]
  split_ifs <;> rfl

def headerPath (counts : Counts) (keys : KeyPath) : TableKind → Counts × Location
  | .standard => (counts, keys.segments.foldl (countedKey counts) [])
  | .arrayOfTables =>
    let path := keys.parents.foldl (countedKey counts) [] ++ [.key keys.last]
    let index := nextIndex counts path
    (OrdMap.insert counts path index, path ++ [.index index])

structure Located where
  counts : Counts
  current : Location
  result : List (Location × Statement)

def locatedStep (l : Located) : Statement → Located
  | .header keys kind span =>
    let (counts, path) := headerPath l.counts keys kind
    ⟨counts, path, l.result ++ [(path, .header keys kind span)]⟩
  | .assignment table entry =>
    { l with result := l.result ++ [(l.current, .assignment table entry)] }

def locating (statements : List Statement) : Located := statements.foldl locatedStep ⟨[], [], []⟩

def located (statements : List Statement) : List (Location × Statement) :=
  (locating statements).result

def openedTable : Location × Statement → Option Location
  | (path, .header _ _ _) => some path
  | (_, .assignment _ _) => none

/-- The index of a header that adds an element to the array. -/
def elementIndex (array : Location) : Location × Statement → Option Nat
  | (path, .header _ .arrayOfTables _) =>
    match path.getLast? with
    | some (.index i) => if path.dropLast = array then some i else none
    | _ => none
  | _ => none

def Binding.length? : Binding → Option Nat
  | .tableArray length => some length
  | _ => none

namespace Tables

def arrayLength (tables : Tables) (t : Location) (key : String) : Option Nat :=
  (tables.binding t key).bind Binding.length?

variable {tables : Tables} {t u : Location} {key : String}

lemma arrayLength_newTable (hnew : tables.declaration u = none) (d : Declaration) :
    (tables.newTable u d).arrayLength = tables.arrayLength := by
  funext p name
  rw [arrayLength, arrayLength, binding_newTable]
  split_ifs with he
  · cases hb : tables.binding p name with
    | none => rfl
    | some b => exact absurd he (ne_of_binding hnew hb)
  · rfl

lemma arrayLength_setField (ht : (tables.declaration t).isSome) (b : Binding) (p : Location)
    (name : String) : (tables.setField t key b).arrayLength p name =
      if t = p ∧ key = name then b.length? else tables.arrayLength p name := by
  rw [arrayLength, binding_setField ht]
  split_ifs <;> rfl

lemma arrayLength_single (ht : (tables.declaration t).isSome)
    (hf : tables.binding t key = none) {b : Binding} (hb : b.length? = none) :
    (tables.setField t key b).arrayLength = tables.arrayLength := by
  funext p name
  rw [arrayLength_setField ht, hb]
  split_ifs with he
  · rw [← he.1, ← he.2, arrayLength, hf]
    rfl
  · rfl

end Tables

open Tables

variable {source : String} {tables tables' : Tables} {t t' : Location} {offset : Nat}
  {dotted : Bool} {keys : List String} {key : String} {counts : Counts}

def Agrees (counts : Counts) (tables : Tables) : Prop :=
  ∀ p key, tables.arrayLength p key = (OrdMap.get? counts (p ++ [.key key])).map (· + 1)

lemma child_arrays (hp : tables.Placed) (ht : (tables.declaration t).isSome)
    (h : child source tables t key offset dotted = .ok (tables', t')) :
    tables'.arrayLength = tables.arrayLength := by
  rcases child_cases h with ⟨rfl, -⟩ | ⟨rfl, -⟩ | ⟨hf, rfl, rfl⟩
  · rfl
  · rfl
  · have hnew := hp.declaration_eq_none hf
    rw [arrayLength_newTable (by rwa [declaration_setField]), arrayLength_single ht hf rfl]

lemma child_counted (hag : Agrees counts tables)
    (h : child source tables t key offset false = .ok (tables', t')) :
    t' = countedKey counts t key := by
  have hlen := hag t key
  rw [countedKey]
  rcases child_cases h with ⟨-, hb, rfl, -⟩ | ⟨-, -, length, hb, rfl⟩ | ⟨hf, rfl, -⟩
  · rw [arrayLength, hb] at hlen
    rw [map_eq_none_iff.mp hlen.symm]
  · rw [arrayLength, hb] at hlen
    obtain ⟨n, hn, rfl⟩ := map_eq_some_iff.mp hlen.symm
    rw [hn]
    rfl
  · rw [arrayLength, hf] at hlen
    rw [map_eq_none_iff.mp hlen.symm]

lemma descend_arrays (hp : tables.Placed) (ht : (tables.declaration t).isSome)
    (h : descend source offset dotted tables t keys = .ok (tables', t')) :
    tables'.arrayLength = tables.arrayLength := by
  induction keys generalizing tables t with
  | nil =>
    cases h
    rfl
  | cons key keys ih =>
    obtain ⟨⟨tables₁, t₁⟩, hch, hr⟩ := descend_cons h
    obtain ⟨hp₁, -, ht₁⟩ := child_placed hp ht hch
    exact (ih hp₁ ht₁ hr).trans (child_arrays hp ht hch)

lemma descend_counted (hp : tables.Placed) (ht : (tables.declaration t).isSome)
    (hag : Agrees counts tables) (h : descend source offset false tables t keys = .ok (tables', t'))
    : t' = keys.foldl (countedKey counts) t := by
  induction keys generalizing tables t with
  | nil =>
    cases h
    rfl
  | cons key keys ih =>
    obtain ⟨⟨tables₁, t₁⟩, hch, hr⟩ := descend_cons h
    obtain ⟨hp₁, -, ht₁⟩ := child_placed hp ht hch
    have hag₁ : Agrees counts tables₁ := by
      intro p name
      rw [child_arrays hp ht hch, hag]
    rw [ih hp₁ ht₁ hag₁ hr, foldl_cons]
    rw [child_counted hag hch]

variable (statements front : List Statement) (statement : Statement)

lemma locating_snoc :
    locating (front ++ [statement]) = locatedStep (locating front) statement := by
  rw [locating, foldl_append]
  rfl

/-- What the counts know of the tables of the check. -/
structure Tracks (l : Located) (state : State) : Prop where
  placed : state.tables.Placed
  root : state.tables.declaration [] = some .explicit
  current : l.current = state.current
  stored : state.tables.declaration state.current = some .explicit
  arrays : Agrees l.counts state.tables
  explicit : ∀ path ∈ l.result.filterMap openedTable, state.tables.declaration path = some .explicit
  distinct : (l.result.filterMap openedTable).Nodup

namespace Tracks

variable {l : Located} {state next : State}

lemma start : Tracks ⟨[], [], []⟩ .start := by
  refine ⟨root_placed, rfl, rfl, rfl, fun p key => ?_, by simp, .nil⟩
  rw [arrayLength, State.start, Tables.root, binding_newTable]
  split_ifs <;> rfl

/-- A header that opens a table of its own. -/
theorem opened (h : Tracks l state) {path : KeyPath} {kind : TableKind} {span : Span}
    {u : Location} (hpla : tables.Placed)
    (hexp : ∀ t, state.tables.declaration t = some .explicit →
      tables.declaration t = some .explicit)
    (hnew : state.tables.declaration u ≠ some .explicit)
    (hopen : tables.declaration u = some .explicit) (hag : Agrees counts tables) :
    Tracks ⟨counts, u, l.result ++ [(u, .header path kind span)]⟩ ⟨tables, u⟩ := by
  have hpaths : (l.result ++ [(u, Statement.header path kind span)]).filterMap openedTable =
      l.result.filterMap openedTable ++ [u] := by
    rw [filterMap_append]
    rfl
  refine ⟨hpla, hexp _ h.root, rfl, hopen, hag, ?_, ?_⟩
  · intro path hpath
    rw [hpaths] at hpath
    rcases mem_append.mp hpath with hold | hadd
    · exact hexp _ (h.explicit _ hold)
    · rwa [mem_singleton.mp hadd]
  · rw [hpaths, nodup_append']
    refine ⟨h.distinct, nodup_singleton _, ?_⟩
    rw [disjoint_singleton]
    exact fun hmem => hnew (h.explicit _ hmem)

lemma entry (h : Tracks l state) {table : List String} {entry : Entry}
    (hs : validateStatement source state (.assignment table entry) = .ok next) :
    Tracks (locatedStep l (.assignment table entry)) next := by
  simp only [validateStatement] at hs
  split at hs
  · cases hs
  next tables hent =>
  cases hs
  unfold declareEntry at hent
  split at hent
  · cases hent
  next tables₁ t hdes =>
  split_ifs at hent with hdup
  · cases hent
  cases hent
  have hf := not_isSome_iff_eq_none.mp hdup
  have hcur : (state.tables.declaration state.current).isSome := by rw [h.stored]; rfl
  obtain ⟨hpla, hexs, ht⟩ := descend_placed h.placed hcur hdes
  have hpaths : (l.result ++ [(l.current, Statement.assignment table entry)]).filterMap openedTable
      = l.result.filterMap openedTable := by
    rw [filterMap_append, filterMap_cons_none rfl, filterMap_nil, append_nil]
  have hexp (path : Location) (hpath : state.tables.declaration path = some .explicit) :
      (tables₁.setField t entry.keys.last .leaf).declaration path = some .explicit := by
    rw [declaration_setField]
    exact hexs.declaration _ _ hpath
  refine ⟨hpla.setField_leaf ht hf, hexp _ h.root, h.current, hexp _ h.stored, ?_, ?_, ?_⟩
  · intro p name
    rw [arrayLength_single ht hf rfl, descend_arrays h.placed hcur hdes]
    exact h.arrays p name
  · intro path hpath
    rw [locatedStep, hpaths] at hpath
    exact hexp _ (h.explicit _ hpath)
  · rw [locatedStep, hpaths]
    exact h.distinct

lemma header (h : Tracks l state) {path : KeyPath} {kind : TableKind} {span : Span}
    (hs : validateStatement source state (.header path kind span) = .ok next) :
    Tracks (locatedStep l (.header path kind span)) next := by
  simp only [validateStatement] at hs
  split at hs
  · cases hs
  next tables t hdes =>
  have hro : (state.tables.declaration []).isSome := by rw [h.root]; rfl
  obtain ⟨hpla, hexs, ht⟩ := descend_placed h.placed hro hdes
  have hag : Agrees l.counts tables := by
    intro p name
    rw [descend_arrays h.placed hro hdes]
    exact h.arrays p name
  have ht' := descend_counted h.placed hro h.arrays hdes
  have hlen := hag t path.last
  have hnot {u : Location} (hu : tables.declaration u ≠ some .explicit) :
      state.tables.declaration u ≠ some .explicit := fun hexp => hu (hexs.declaration _ _ hexp)
  have hpath (hb : tables.arrayLength t path.last = none) :
      path.segments.foldl (countedKey l.counts) [] = t ++ [.key path.last] := by
    rw [KeyPath.segments, foldl_append, ← ht', foldl_cons, foldl_nil, countedKey,
      map_eq_none_iff.mp (hlen.symm.trans hb)]
  rcases openHeader_cases hs with ⟨rfl, hb, rfl⟩ | ⟨rfl, hb, himp, rfl⟩ | ⟨rfl, n, hb, rfl⟩
  · have hnew := hpla.declaration_eq_none hb
    have hne := hnot (hnew.trans_ne (by simp))
    simp only [locatedStep, headerPath, hpath (by rw [arrayLength, hb]; rfl)]
    refine h.opened (hpla.newChild ht hb _) (fun u hu => ?_) hne ?_ ?_
    · rw [declaration_newTable, declaration_setField, hexs.declaration _ _ hu, ite_self]
    · rw [declaration_newTable, if_pos rfl]
    · intro p name
      rw [arrayLength_newTable (by rwa [declaration_setField]), arrayLength_single ht hb rfl]
      exact hag p name
  · have hsto : (tables.declaration (t ++ [.key path.last])).isSome := by rw [himp]; rfl
    have hne := hnot (himp.trans_ne (by simp))
    simp only [locatedStep, headerPath, hpath (by rw [arrayLength, hb]; rfl)]
    refine h.opened (hpla.declare hsto _) (fun u hu => ?_) hne ?_ ?_
    · rw [declaration_declare hsto, hexs.declaration _ _ hu, ite_self]
    · rw [declaration_declare hsto, if_pos rfl]
    · intro p name
      rw [arrayLength, binding_declare]
      exact hag p name
  · have hnew : tables.declaration (t ++ [.key path.last, .index n]) = none := by
      rw [← not_isSome_iff_eq_none]
      intro hso
      obtain ⟨m, hm, hlt⟩ := hpla.binding_of_index hso
      rcases hb with ⟨-, hf⟩ | harray
      · cases hf.symm.trans hm
      · cases harray.symm.trans hm
        exact lt_irrefl _ hlt
    have hindex : nextIndex l.counts (t ++ [.key path.last]) = n := by
      rw [nextIndex]
      rcases hb with ⟨rfl, hf⟩ | harray
      · rw [arrayLength, hf] at hlen
        rw [map_eq_none_iff.mp hlen.symm]
      · rw [arrayLength, harray] at hlen
        obtain ⟨m, hm, rfl⟩ := map_eq_some_iff.mp hlen.symm
        rw [hm]
    simp only [locatedStep, headerPath, ← ht', hindex, append_assoc, singleton_append]
    have hne := hnot (hnew.trans_ne (by simp))
    refine h.opened (hpla.newElement ht hb _) (fun u hu => ?_) hne ?_ ?_
    · rw [declaration_newTable, declaration_setField, hexs.declaration _ _ hu, ite_self]
    · rw [declaration_newTable, if_pos rfl]
    · intro p name
      rw [arrayLength_newTable (by rwa [declaration_setField]), arrayLength_setField ht,
        OrdMap.get?_insert]
      split_ifs with he hne hne
      · rfl
      · exact absurd (by rw [he.1, he.2]) hne
      · exact absurd (append_key_inj hne) he
      · exact hag p name

lemma run {statements : List Statement} (h : validateStatements source statements = .ok state) :
    Tracks (locating statements) state := by
  induction statements using List.reverseRecOn generalizing state with
  | nil =>
    cases h
    exact start
  | append_singleton front statement ih =>
    obtain ⟨before, hfr, hs⟩ := validateStatements_snoc h
    rw [locating_snoc]
    cases statement with
    | assignment table entry => exact (ih hfr).entry hs
    | header path kind span => exact (ih hfr).header hs

end Tracks

lemma result_step (l : Located) (statement : Statement) :
    (locatedStep l statement).result =
      l.result ++ [((locatedStep l statement).current, statement)] := by
  cases statement <;> rfl

lemma located_snoc :
    located (front ++ [statement]) =
      located front ++ [((locating (front ++ [statement])).current, statement)] := by
  rw [located, locating_snoc, result_step]
  rfl

lemma located_statements :
    (located statements).map Prod.snd = statements := by
  induction statements using List.reverseRecOn with
  | nil => rfl
  | append_singleton front statement ih => rw [located_snoc, map_append, ih, map_singleton]

lemma located_prefix (back : List Statement) : located front <+: located (front ++ back) := by
  induction back using List.reverseRecOn with
  | nil => rw [append_nil]
  | append_singleton back statement ih =>
    rw [← append_assoc, located_snoc]
    exact ih.trans (prefix_append _ _)

/-- The elements of every array are counted from 0 on, in a document that the check rejects
as well. -/
theorem elementIndex_range (array : Location) :
    (located statements).filterMap (elementIndex array) =
      List.range (nextIndex (locating statements).counts array) := by
  induction statements using List.reverseRecOn with
  | nil => rfl
  | append_singleton front statement ih =>
    rw [located_snoc, filterMap_append, ih, locating_snoc]
    cases statement with
    | assignment table entry => exact append_nil _
    | header path kind span =>
      cases kind with
      | standard => exact append_nil _
      | arrayOfTables =>
        simp only [locatedStep, headerPath, filterMap_cons, elementIndex,
          List.getLast?_concat, dropLast_concat, filterMap_nil]
        split_ifs with he
        · rw [← he, nextIndex_insert, if_pos rfl, range_succ]
        · rw [nextIndex_insert, if_neg he, append_nil]

/-- The paths that `located` gives to the statements of a document. -/
structure LocatedAsChecked (source : String) (statements : List Statement) : Prop where
  total : (located statements).map Prod.snd = statements
  table : ∀ before statement after state, statements = before ++ statement :: after →
    validateStatements source (before ++ [statement]) = .ok state →
    (located statements)[before.length]? = some (state.current, statement)
  distinct : ((located statements).filterMap openedTable).Nodup
  indices : ∀ array, ∃ n, (located statements).filterMap (elementIndex array) = List.range n

/-- In an accepted document every statement has the path of its table, no table is opened
twice, and the elements of an array have the indices from 0 on. -/
theorem locatedAsChecked (source : String) (statements : List Statement)
    (h : validateDocument source statements = .ok ()) : LocatedAsChecked source statements := by
  have hrun : ∃ state, validateStatements source statements = .ok state := by
    unfold validateDocument at h
    cases hl : validateStatements source statements with
    | error error => simp [hl, Except.map] at h
    | ok last => exact ⟨last, rfl⟩
  obtain ⟨last, hl⟩ := hrun
  refine ⟨located_statements statements, ?_, (Tracks.run hl).distinct,
    fun array => ⟨_, elementIndex_range statements array⟩⟩
  rintro before statement after state rfl hs
  have hpre := located_prefix (before ++ [statement]) after
  rw [append_assoc, singleton_append, located_snoc, (Tracks.run hs).current] at hpre
  have hlen : (located before).length = before.length := by
    rw [← congrArg List.length (located_statements before), length_map]
  obtain ⟨rest, hrest⟩ := hpre
  rw [← hrest, ← hlen]
  simp

/-- Nested arrays restart in every element of the array above them. -/
theorem locatedAsChecked_nested :
    LocatedAsChecked "" [.header ⟨[], "a"⟩ .arrayOfTables ⟨0, 5⟩,
      .header ⟨["a"], "b"⟩ .arrayOfTables ⟨6, 13⟩, .header ⟨[], "a"⟩ .arrayOfTables ⟨14, 19⟩,
      .header ⟨["a"], "b"⟩ .arrayOfTables ⟨20, 27⟩] :=
  locatedAsChecked _ _ (by decide)

end Morphir.Toml
