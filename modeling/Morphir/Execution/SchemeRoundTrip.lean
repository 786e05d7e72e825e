import Morphir.Execution.SchemeValues

/-!
# Values through Scheme and back

A valid value comes back from Scheme with the fields of its records in the order of its type.
-/

namespace Morphir.Execution

open Fallible Morphir.Host List OrdMap
open Morphir.Scheme (Doubles)

mutual

def Value.decimals : Value → List (Int × Int)
  | .decimal n e => [(n, e)]
  | .sequence items | .product items | .constructor _ _ items => decimalsItems items
  | .record fields => decimalsFields fields
  | .just v | .ok v | .err v => v.decimals
  | .integer _ | .boolean _ | .unit | .float64 _ | .text _ | .character _ | .nothing
  | .modelError _ => []

def Value.decimalsItems : List Value → List (Int × Int)
  | [] => []
  | item :: items => item.decimals ++ decimalsItems items

def Value.decimalsFields : List (String × Value) → List (Int × Int)
  | [] => []
  | (_, v) :: fields => v.decimals ++ decimalsFields fields

end

def Value.Normalized (v : Value) : Prop := ∀ d ∈ v.decimals, normalizeDecimal d.1 d.2 = .ok d

instance (v : Value) : Decidable v.Normalized :=
  inferInstanceAs (Decidable (∀ d ∈ v.decimals, normalizeDecimal d.1 d.2 = .ok d))

mutual

def ValueType.recordNames : ValueType → List (List String)
  | .record fields => fields.map Prod.fst :: recordNamesFields fields
  | .sequence t | .optional t => t.recordNames
  | .product types => recordNamesItems types
  | .outcome ok err => ok.recordNames ++ err.recordNames
  | .int | .bool | .unit | .decimal | .float64 | .text | .character | .custom _ | .function => []

def ValueType.recordNamesItems : List ValueType → List (List String)
  | [] => []
  | t :: types => t.recordNames ++ recordNamesItems types

def ValueType.recordNamesFields : List (String × ValueType) → List (List String)
  | [] => []
  | (_, t) :: fields => t.recordNames ++ recordNamesFields fields

end

def ValueType.Proper (t : ValueType) : Prop := ∀ names ∈ t.recordNames, names.Nodup

instance (t : ValueType) : Decidable t.Proper :=
  inferInstanceAs (Decidable (∀ names ∈ t.recordNames, names.Nodup))

def ProperDefinitions (definitions : List CustomType) : Prop :=
  ∀ definition ∈ definitions, ∀ variant ∈ definition.constructors, ∀ t ∈ variant.inputs, t.Proper

variable {items : List Value}

lemma Value.mem_decimalsItems {d : Int × Int} :
    d ∈ decimalsItems items ↔ ∃ item ∈ items, d ∈ item.decimals := by
  induction items with
  | nil => simp [decimalsItems]
  | cons item items ih => rw [decimalsItems, mem_append, ih, exists_mem_cons_iff]

variable {fields : List (String × Value)}

lemma Value.mem_decimalsFields {d : Int × Int} :
    d ∈ decimalsFields fields ↔ ∃ p ∈ fields, d ∈ p.2.decimals := by
  induction fields with
  | nil => simp [decimalsFields]
  | cons p fields ih => rw [decimalsFields, mem_append, ih, exists_mem_cons_iff]

lemma ValueType.mem_recordNamesItems {types : List ValueType} {names : List String} :
    names ∈ recordNamesItems types ↔ ∃ t ∈ types, names ∈ t.recordNames := by
  induction types with
  | nil => simp [recordNamesItems]
  | cons t types ih => rw [recordNamesItems, mem_append, ih, exists_mem_cons_iff]

lemma ValueType.mem_recordNamesFields {fields : List (String × ValueType)} {names : List String} :
    names ∈ recordNamesFields fields ↔ ∃ p ∈ fields, names ∈ p.2.recordNames := by
  induction fields with
  | nil => simp [recordNamesFields]
  | cons p fields ih => rw [recordNamesFields, mem_append, ih, exists_mem_cons_iff]

/-- Values that differ at most in the order in which their records list their fields. -/
inductive Alike : Value → Value → Prop
  | refl (v : Value) : Alike v v
  | sequence {items items' : List Value} : List.Forall₂ Alike items items' →
      Alike (.sequence items) (.sequence items')
  | product {items items' : List Value} : List.Forall₂ Alike items items' →
      Alike (.product items) (.product items')
  | record {fields fields' out : List (String × Value)} :
      fields.map Prod.fst = fields'.map Prod.fst →
      List.Forall₂ Alike (fields.map Prod.snd) (fields'.map Prod.snd) → fields'.Perm out →
      Alike (.record fields) (.record out)
  | constructor {owner tag : String} {items items' : List Value} : List.Forall₂ Alike items items' →
      Alike (.constructor owner tag items) (.constructor owner tag items')
  | just {v v' : Value} : Alike v v' → Alike (.just v) (.just v')
  | ok {v v' : Value} : Alike v v' → Alike (.ok v) (.ok v')
  | err {v v' : Value} : Alike v v' → Alike (.err v) (.err v')

section Arrange

variable (definitions : List CustomType)

/-- The value with the fields of its records in the order of its type. -/
def arrange : Nat → Value → ValueType → Value
  | 0, value, _ => value
  | levels + 1, value, expected =>
    match value, expected with
    | .sequence items, .sequence t => .sequence (items.map fun v => arrange levels v t)
    | .product items, .product types => .product (List.zipWith (arrange levels) items types)
    | .record fields, .record types =>
      .record (types.filterMap fun p => (get? fields p.1).map fun v => (p.1, arrange levels v p.2))
    | .constructor owner tag items, .custom name =>
      match findConstructor definitions name tag "" "" with
      | .ok variant => .constructor owner tag (List.zipWith (arrange levels) items variant.inputs)
      | .error _ => value
    | .just v, .optional t => .just (arrange levels v t)
    | .ok v, .outcome ok _ => .ok (arrange levels v ok)
    | .err v, .outcome _ err => .err (arrange levels v err)
    | value, _ => value

/-- The records of the value list their fields in the order of its type. -/
def InOrder : Nat → Value → ValueType → Prop
  | 0, _, _ => True
  | levels + 1, value, expected =>
    match value, expected with
    | .sequence items, .sequence t => ∀ v ∈ items, InOrder levels v t
    | .product items, .product types => List.Forall₂ (InOrder levels) items types
    | .record fields, .record types =>
      List.Forall₂ (fun p q => p.1 = q.1 ∧ InOrder levels p.2 q.2) fields types
    | .constructor _ tag items, .custom name =>
      ∀ variant, findConstructor definitions name tag "" "" = .ok variant →
        List.Forall₂ (InOrder levels) items variant.inputs
    | .just v, .optional t => InOrder levels v t
    | .ok v, .outcome ok _ => InOrder levels v ok
    | .err v, .outcome _ err => InOrder levels v err
    | _, _ => True

end Arrange

/-- A value that passes validation at some depth, with some budget. -/
def Bounded (v : Value) : Prop := ∃ depth budget rest, validateValue v depth budget = .ok rest

lemma bounded_of_validateItems {depth : Nat} {budget rest : Int}
    (h : validateItems items depth budget = .ok rest) : ∀ item ∈ items, Bounded item := by
  induction items generalizing budget with
  | nil => exact fun item hi => absurd hi not_mem_nil
  | cons item items ih =>
    obtain ⟨left, hi, hits⟩ := bind_ok h
    exact forall_mem_cons.mpr ⟨⟨depth, budget, left, hi⟩, ih hits⟩

lemma bounded_of_validateFields {seen : List String} {depth : Nat} {budget rest : Int}
    (h : validateFields seen fields depth budget = .ok rest) :
    OrdMap.Distinct fields ∧ (∀ p ∈ fields, p.1 ∉ seen) ∧ ∀ p ∈ fields, Bounded p.2 := by
  induction fields generalizing seen budget with
  | nil => exact ⟨nodup_nil, by simp, by simp⟩
  | cons p fields ih =>
    obtain ⟨_, hname, h⟩ := bind_ok h
    obtain ⟨left, hv, h⟩ := bind_ok h
    have hname := refuse_ok hname
    rw [not_or] at hname
    obtain ⟨hdi, hse, hbou⟩ := ih h
    refine ⟨nodup_cons.mpr ⟨?_, hdi⟩, ?_, ?_⟩
    · rintro hmem
      obtain ⟨q, hq, hqname⟩ := mem_map.mp hmem
      exact hse q hq (by rw [hqname]; simp)
    · rw [forall_mem_cons]
      exact ⟨hname.2, fun q hq hmem => hse q hq (mem_append_left _ hmem)⟩
    · exact forall_mem_cons.mpr ⟨⟨depth, budget, left, hv⟩, hbou⟩

variable {u : Unit}

lemma validateSdkItems_ok (h : validateSdkItems items = .ok u) :
    ∀ item ∈ items, validateSdkBoundary item = .ok () := by
  induction items with
  | nil => exact fun item hi => absurd hi not_mem_nil
  | cons item items ih =>
    obtain ⟨_, hi, hits⟩ := bind_ok h
    exact forall_mem_cons.mpr ⟨hi, ih hits⟩

lemma validateSdkFields_ok (h : validateSdkFields fields = .ok u) :
    ∀ p ∈ fields, validateSdkBoundary p.2 = .ok () := by
  induction fields with
  | nil => exact fun p hp => absurd hp not_mem_nil
  | cons p fields ih =>
    obtain ⟨_, hi, hfs⟩ := bind_ok h
    exact forall_mem_cons.mpr ⟨hi, ih hfs⟩

lemma validateSdkInteger_ok {owner tag : String}
    (hw : owner = int32Owner ∨ (sdkIntegerWidth owner).isSome = true)
    (h : validateSdkInteger owner tag items = .ok u) : ∃ n, items = [.integer n] := by
  unfold validateSdkInteger at h
  split at h
  · split at h
    · exact ⟨_, rfl⟩
    · cases h
  · rename_i howner
    obtain ⟨width, hso⟩ := Option.isSome_iff_exists.mp (hw.resolve_left howner)
    rw [hso] at h
    dsimp only at h
    split at h
    · exact ⟨_, rfl⟩
    · cases h

lemma validateSdkBoundary_constructor {owner tag : String}
    (h : validateSdkBoundary (.constructor owner tag items) = .ok u) :
    ∀ item ∈ items, validateSdkBoundary item = .ok () := by
  rw [validateSdkBoundary] at h
  split at h
  · rename_i hw
    obtain ⟨n, rfl⟩ := validateSdkInteger_ok hw h
    rw [forall_mem_singleton, validateSdkBoundary]
  · exact validateSdkItems_ok h

section RoundTrip

variable {F O : Type} [Doubles F] (doubles : F ≃ UInt64) (definitions : List CustomType)

lemma schemeInteger_toString (n : Int) :
    schemeInteger (F := F) (O := O) (toString n) = .ok (.number (.integer n)) := by
  rw [schemeInteger, Scheme.parseNumber_integer]

lemma schemeUnits_read {units : List Int} (h : ∀ n ∈ units, 0 ≤ n ∧ n ≤ 65535) :
    ∃ values : List (Scheme.Value F O),
      (units.mapM fun n => schemeInteger (toString n)) = .ok values ∧
        values.mapM schemeUnit = .ok units := by
  refine ⟨units.map fun n => .number (.integer n), ?_, ?_⟩
  · rw [mapM_eq_ok, List.forall₂_map_right_iff, List.forall₂_same]
    exact fun n _ => schemeInteger_toString n
  · rw [mapM_eq_ok, List.forall₂_map_left_iff, List.forall₂_same]
    intro n hn
    have hrg : ¬ (n < 0 ∨ 65535 < n) := by
      have := h n hn
      omega
    rw [schemeUnit, if_neg hrg]

variable (values : List (Scheme.Value F O))

omit [Doubles F] in
lemma toArray_schemeList :
    toArray (schemeList values) = .ok values := by
  induction values with
  | nil => rfl
  | cons v values ih =>
    unfold schemeList at ih ⊢
    rw [foldr_cons, toArray, ih]
    rfl

def Returns (O : Type) (levels : Nat) (v : Value) (t : ValueType) : Prop :=
  ∃ s : Scheme.Value F O, schemeInput doubles v = .ok s ∧
    schemeOutput doubles definitions levels s t = .ok (arrange definitions levels v t) ∧
    Alike v (arrange definitions levels v t)

variable {doubles definitions} {levels : Nat}

lemma returns_sequence {t : ValueType} (h : ∀ v ∈ items, Returns doubles definitions O levels v t) :
    ∃ values : List (Scheme.Value F O), schemeInputs doubles items = .ok values ∧
      values.mapM (fun v => schemeOutput doubles definitions levels v t) =
        .ok (items.map fun v => arrange definitions levels v t) ∧
      List.Forall₂ Alike items (items.map fun v => arrange definitions levels v t) := by
  induction items with
  | nil => exact ⟨[], rfl, rfl, .nil⟩
  | cons v items ih =>
    obtain ⟨⟨s, hin, hout, hal⟩, hits⟩ := forall_mem_cons.mp h
    obtain ⟨values, hinp, houtputs, hali⟩ := ih hits
    refine ⟨s :: values, ?_, ?_, .cons hal hali⟩
    · rw [schemeInputs, hin, hinp]
      rfl
    · rw [mapM_cons, hout, houtputs]
      rfl

lemma returns_items {types : List ValueType}
    (h : List.Forall₂ (Returns doubles definitions O levels) items types) :
    ∃ values : List (Scheme.Value F O), schemeInputs doubles items = .ok values ∧
      values.length = items.length ∧
      outputItems (schemeOutput doubles definitions levels) values types =
        .ok (List.zipWith (arrange definitions levels) items types) ∧
      List.Forall₂ Alike items (List.zipWith (arrange definitions levels) items types) := by
  induction h with
  | nil => exact ⟨[], rfl, rfl, rfl, .nil⟩
  | cons hv _ ih =>
    obtain ⟨s, hin, hout, hal⟩ := hv
    obtain ⟨values, hinp, hlen, houtputs, hali⟩ := ih
    refine ⟨s :: values, ?_, ?_, ?_, .cons hal hali⟩
    · rw [schemeInputs, hin, hinp]
      rfl
    · rw [length_cons, length_cons, hlen]
    · rw [outputItems, hout, houtputs]
      rfl

lemma schemeInputFields_ok
    (h : ∀ p ∈ fields, ∃ s : Scheme.Value F O, schemeInput doubles p.2 = .ok s) :
    ∃ values : List (String × Scheme.Value F O), schemeInputFields doubles fields = .ok values ∧
      OrdMap.keys values = OrdMap.keys fields ∧
      ∀ name v, get? fields name = some v →
        ∃ s, get? values name = some s ∧ schemeInput doubles v = .ok s := by
  induction fields with
  | nil => exact ⟨[], rfl, rfl, by simp⟩
  | cons p fields ih =>
    obtain ⟨name, v⟩ := p
    obtain ⟨⟨s, hin⟩, hfs⟩ := forall_mem_cons.mp h
    obtain ⟨values, hinp, hks, hget⟩ := ih hfs
    refine ⟨(name, s) :: values, ?_, ?_, fun other w hw => ?_⟩
    · rw [schemeInputFields, hin, hinp]
      rfl
    · rw [OrdMap.keys_cons, OrdMap.keys_cons, hks]
    · rw [get?_cons] at hw ⊢
      split at hw
      · rename_i hname
        cases hw
        exact ⟨s, by rw [if_pos hname], hin⟩
      · rename_i hname
        obtain ⟨s', hs', hw⟩ := hget other w hw
        exact ⟨s', by rw [if_neg hname, hs'], hw⟩

variable {child : Value → ValueType → String → Except String Unit}

lemma typedItems_ok {i : Nat} {types : List ValueType} (hlen : items.length = types.length)
    (h : typedItems child i items types = .ok u) :
    List.Forall₂ (fun v t => ∃ name, child v t name = .ok ()) items types := by
  induction items generalizing i types with
  | nil =>
    obtain rfl : types = [] := eq_nil_of_length_eq_zero hlen.symm
    exact .nil
  | cons v items ih =>
    cases types with
    | nil => cases hlen
    | cons t types =>
      obtain ⟨_, hch, h⟩ := bind_ok h
      exact .cons ⟨_, hch⟩ (ih (Nat.succ.inj hlen) h)

omit [Doubles F] in
lemma schemeOutput_sequence (t : ValueType) :
    schemeOutput doubles definitions (levels + 1) (schemeList values) (.sequence t) = (do
      let items ← values.mapM fun v => schemeOutput doubles definitions levels v t
      pure (.sequence items)) := by
  have hli : schemeOutput doubles definitions (levels + 1) (schemeList values) (.sequence t) =
      (do
        let values ← toArray (schemeList values)
        let items ← values.mapM fun v => schemeOutput doubles definitions levels v t
        pure (.sequence items)) := by
    cases values <;> rfl
  rw [hli, toArray_schemeList, bind_eq]

lemma ofList_of_distinct {υ : Type} {entries : List (String × υ)} (h : OrdMap.Distinct entries) :
    OrdMap.ofList entries = entries := by
  suffices hfo : ∀ front back : List (String × υ), OrdMap.Distinct (front ++ back) →
      back.foldl (fun m e => OrdMap.insert m e.1 e.2) front = front ++ back from
    hfo [] entries h
  intro front back
  induction back generalizing front with
  | nil => simp
  | cons e back ih =>
    intro hdi
    have hnew : e.1 ∉ OrdMap.keys front := by
      rw [OrdMap.Distinct, OrdMap.keys, map_append] at hdi
      exact fun hmem => disjoint_of_nodup_append hdi hmem mem_cons_self
    rw [append_cons] at hdi ⊢
    rw [foldl_cons, insert_of_notMem hnew, ih _ hdi]

variable {types : List (String × ValueType)}

lemma returns_fields {values : List (String × Scheme.Value F O)}
    (hvals : ∀ name v, get? fields name = some v →
      ∃ s, get? values name = some s ∧ schemeInput doubles v = .ok s)
    (h : ∀ p ∈ types, ∃ v, get? fields p.1 = some v ∧ Returns doubles definitions O levels v p.2) :
    types.mapM (outputField (schemeOutput doubles definitions levels) values) =
      .ok (types.filterMap fun p =>
        (get? fields p.1).map fun v => (p.1, arrange definitions levels v p.2)) := by
  induction types with
  | nil => rfl
  | cons p types ih =>
    obtain ⟨⟨v, hv, s, hin, hout, -⟩, htys⟩ := forall_mem_cons.mp h
    obtain ⟨s', hs', hin'⟩ := hvals p.1 v hv
    obtain rfl := Except.ok.inj (hin.symm.trans hin')
    have hfield : outputField (schemeOutput doubles definitions levels) values p =
        .ok (p.1, arrange definitions levels v p.2) := by
      rw [outputField, hs']
      simp only [hout, Except.map]
    rw [mapM_cons, hfield, ih htys, filterMap_cons, hv]
    rfl

lemma alike_fields (hfs : OrdMap.Distinct fields) (htys : OrdMap.Distinct types)
    (hns : ∀ p ∈ fields, p.1 ∈ OrdMap.keys types)
    (h : ∀ p ∈ types, ∃ v, get? fields p.1 = some v ∧ Alike v (arrange definitions levels v p.2)) :
    Alike (.record fields) (.record (types.filterMap fun p =>
      (get? fields p.1).map fun v => (p.1, arrange definitions levels v p.2))) := by
  -- the fields in their own order, each arranged
  let arranged : String × Value → String × Value := fun p =>
    (p.1, ((get? types p.1).map (arrange definitions levels p.2)).getD p.2)
  have harr : ∀ p ∈ fields, ∃ t, get? types p.1 = some t ∧
      arranged p = (p.1, arrange definitions levels p.2 t) ∧
      Alike p.2 (arrange definitions levels p.2 t) := by
    intro p hp
    obtain ⟨t, ht⟩ := exists_get?_of_mem_keys (hns p hp)
    obtain ⟨v, hv, hal⟩ := h (p.1, t) (mem_of_get? ht)
    obtain rfl := Option.some.inj ((get?_of_mem hfs hp).symm.trans hv)
    exact ⟨t, ht, by simp [arranged, ht], hal⟩
  have hks : OrdMap.keys (types.filterMap fun p => (get? fields p.1).map fun v =>
      (p.1, arrange definitions levels v p.2)) = OrdMap.keys types := by
    rw [OrdMap.keys, map_filterMap, OrdMap.keys, ← filterMap_eq_map]
    refine filterMap_congr fun p hp => ?_
    obtain ⟨v, hv, -⟩ := h p hp
    simp [hv]
  refine @Alike.record fields (fields.map arranged) _ ?_ ?_ ?_
  · rw [map_map]
    rfl
  · rw [map_map, List.forall₂_map_left_iff, List.forall₂_map_right_iff, List.forall₂_same]
    intro p hp
    obtain ⟨t, -, heq, hal⟩ := harr p hp
    rwa [Function.comp_apply, heq]
  · have hnd : (fields.map arranged).Nodup := by
      refine .of_map Prod.fst ?_
      rw [map_map]
      exact hfs
    refine (perm_ext_iff_of_nodup hnd (.of_map Prod.fst ?_)).mpr fun e => ?_
    · exact (congrArg List.Nodup hks).mpr htys
    · rw [mem_map, mem_filterMap]
      constructor
      · rintro ⟨p, hp, rfl⟩
        obtain ⟨t, ht, heq, -⟩ := harr p hp
        refine ⟨(p.1, t), mem_of_get? ht, ?_⟩
        rw [get?_of_mem hfs hp, heq]
        rfl
      · rintro ⟨p, hp, hout⟩
        obtain ⟨v, hv, rfl⟩ := Option.map_eq_some_iff.mp hout
        refine ⟨(p.1, v), mem_of_get? hv, ?_⟩
        obtain ⟨t, ht, heq, -⟩ := harr (p.1, v) (mem_of_get? hv)
        obtain rfl := Option.some.inj ((get?_of_mem htys hp).symm.trans ht)
        exact heq

lemma forall₂_of_typedItems {i : Nat} {types : List ValueType} {P : Value → ValueType → Prop}
    (hlen : items.length = types.length) (h : typedItems child i items types = .ok u)
    (hP : ∀ v ∈ items, ∀ t ∈ types, ∀ name, child v t name = .ok () → P v t) :
    List.Forall₂ P items types := by
  have hall := typedItems_ok hlen h
  rw [List.forall₂_iff_zip] at hall ⊢
  refine ⟨hall.1, fun {v t} hmem => ?_⟩
  obtain ⟨name, hch⟩ := hall.2 hmem
  exact hP v (of_mem_zip hmem).1 t (of_mem_zip hmem).2 name hch

lemma typedRecord_ok {path : String} (hfs : OrdMap.Distinct fields) (h : (do
      types.forM (typedField child path (OrdMap.ofList fields))
      fields.forM fun p => refuse (∀ t ∈ types, t.1 ≠ p.1)
        ("execution.extra_record_field: " ++ path ++ "." ++ p.1)) = .ok u) :
    (∀ p ∈ fields, p.1 ∈ OrdMap.keys types) ∧
      ∀ p ∈ types, ∃ v, get? fields p.1 = some v ∧ child v p.2 p.1 = .ok () := by
  obtain ⟨_, htys, hextra⟩ := bind_ok h
  rw [ofList_of_distinct hfs] at htys
  constructor
  · intro p hp
    have hname := refuse_ok (forM_ok hextra p hp)
    push Not at hname
    obtain ⟨t, ht, hname⟩ := hname
    exact mem_map.mpr ⟨t, ht, hname⟩
  · intro p hp
    have hch := forM_ok htys p hp
    unfold typedField at hch
    cases hv : get? fields p.1 with
    | none =>
      rw [hv] at hch
      cases hch
    | some v =>
      rw [hv] at hch
      exact ⟨v, rfl, hch⟩

variable {v : Value}

lemma text_units {units : List Int} (hv : v = .text units ∨ v = .character units) (h : Bounded v)
    : ∀ n ∈ units, 0 ≤ n ∧ n ≤ 65535 := by
  obtain ⟨depth, budget, rest, h⟩ := h
  rcases hv with rfl | rfl
  · obtain ⟨_, -, h⟩ := bind_ok h
    exact chargeUnits_ok h
  · obtain ⟨_, -, h⟩ := bind_ok h
    exact chargeUnits_ok h

lemma bounded_items
    (hv : v = .sequence items ∨ v = .product items ∨ ∃ owner tag, v = .constructor owner tag items)
    (h : Bounded v) : ∀ item ∈ items, Bounded item := by
  obtain ⟨depth, budget, rest, h⟩ := h
  rcases hv with rfl | rfl | ⟨owner, tag, rfl⟩
  · obtain ⟨_, -, h⟩ := bind_ok h
    exact bounded_of_validateItems h
  · obtain ⟨_, -, h⟩ := bind_ok h
    exact bounded_of_validateItems h
  · obtain ⟨_, -, h⟩ := bind_ok h
    obtain ⟨_, -, h⟩ := bind_ok h
    exact bounded_of_validateItems h

lemma bounded_inner {inner : Value} (hv : v = .just inner ∨ v = .ok inner ∨ v = .err inner)
    (h : Bounded v) : Bounded inner := by
  obtain ⟨depth, budget, rest, h⟩ := h
  rcases hv with rfl | rfl | rfl
  · obtain ⟨left, -, h⟩ := bind_ok h
    exact ⟨depth + 1, left, rest, h⟩
  · obtain ⟨left, -, h⟩ := bind_ok h
    exact ⟨depth + 1, left, rest, h⟩
  · obtain ⟨left, -, h⟩ := bind_ok h
    exact ⟨depth + 1, left, rest, h⟩

lemma findConstructor_ok {owner tag unresolved unknown : String} {variant : ConstructorType}
    (h : findConstructor definitions owner tag unresolved unknown = .ok variant) :
    (∀ unresolved' unknown' : String,
      findConstructor definitions owner tag unresolved' unknown' = .ok variant) ∧
      ∃ definition ∈ definitions, variant ∈ definition.constructors := by
  unfold findConstructor at *
  cases hdef : definitions.find? (·.name == owner) with
  | none =>
    rw [hdef] at h
    cases h
  | some definition =>
    rw [hdef] at h
    cases hvar : definition.constructors.find? (·.name == tag) with
    | none =>
      simp only [hvar] at h
      cases h
    | some found =>
      simp only [hvar] at h ⊢
      cases h
      exact ⟨fun _ _ => rfl, definition, mem_of_find?_eq_some hdef, mem_of_find?_eq_some hvar⟩

lemma bounded_fields (h : Bounded (.record fields)) :
    OrdMap.Distinct fields ∧ ∀ p ∈ fields, Bounded p.2 := by
  obtain ⟨depth, budget, rest, h⟩ := h
  obtain ⟨_, -, h⟩ := bind_ok h
  obtain ⟨hdi, -, hfs⟩ := bounded_of_validateFields h
  exact ⟨hdi, hfs⟩

lemma returns_of_typed (hdefs : ProperDefinitions definitions) {t : ValueType} {path : String}
    (h : validateTyped definitions levels v t path = .ok u) (hbou : Bounded v) (hnor : v.Normalized)
    (hsdk : validateSdkBoundary v = .ok ()) (ht : t.Proper) :
    Returns doubles definitions O levels v t := by
  induction levels generalizing v t path with
  | zero => cases h
  | succ levels ih =>
    rw [validateTyped.eq_def] at h
    dsimp only at h
    split at h
    · exact ⟨.number (.integer _), schemeInteger_toString _, rfl, .refl _⟩
    · exact ⟨.boolean _, rfl, rfl, .refl _⟩
    · exact ⟨.unit, rfl, rfl, .refl _⟩
    · rename_i n e
      have hdec := hnor (n, e) (mem_singleton_self _)
      obtain ⟨source, hsrc, hrd⟩ := fromString_decimalSource hdec
      refine ⟨.tagged "decimal" [.text source], ?_, ?_, .refl _⟩
      · rw [schemeInput, hsrc]
        rfl
      · rw [schemeOutput, hrd]
        rfl
    · rename_i bits
      refine ⟨.number (.real (doubles.symm bits)), rfl, ?_, .refl _⟩
      rw [schemeOutput, Equiv.apply_symm_apply]
      rfl
    · obtain ⟨values, hin, hout⟩ := schemeUnits_read (F := F)
        (text_units (.inl rfl) hbou)
      refine ⟨.tagged "sdk-text" [.vector values], ?_, ?_, .refl _⟩
      · rw [schemeInput, hin]
        rfl
      · rw [schemeOutput, hout]
        rfl
    · obtain ⟨values, hin, hout⟩ := schemeUnits_read (F := F)
        (text_units (.inr rfl) hbou)
      refine ⟨.tagged "sdk-character" [.vector values], ?_, ?_, .refl _⟩
      · rw [schemeInput, hin]
        rfl
      · rw [schemeOutput, hout]
        rfl
    · rename_i items t
      have hits : ∀ v ∈ items, Returns doubles definitions O levels v t := by
        have hall := forall₂_of_typedItems
          (by simp) h fun v hv t' ht' name hch => by
            obtain rfl := (mem_map.mp ht').choose_spec.2
            exact ih hch (bounded_items (.inl rfl) hbou v hv)
              (fun d hd => hnor d (Value.mem_decimalsItems.mpr ⟨v, hv, hd⟩))
              (validateSdkItems_ok hsdk v hv) ht
        rwa [List.forall₂_map_right_iff, List.forall₂_same] at hall
      obtain ⟨values, hinp, houtputs, hal⟩ := returns_sequence hits
      refine ⟨schemeList values, ?_, ?_, .sequence hal⟩
      · rw [schemeInput, hinp]
        rfl
      · rw [schemeOutput_sequence, houtputs]
        rfl
    · rename_i items types
      obtain ⟨_, harity, h⟩ := bind_ok h
      have hlen := not_not.mp (refuse_ok harity)
      rw [validateSdkBoundary] at hsdk
      have hits := forall₂_of_typedItems (P := Returns doubles definitions O levels) hlen h
        fun v hv t ht' name hch => ih hch (bounded_items (.inr (.inl rfl)) hbou v hv)
          (fun d hd => hnor d (Value.mem_decimalsItems.mpr ⟨v, hv, hd⟩))
          (validateSdkItems_ok hsdk v hv)
          (fun names hns => ht names (ValueType.mem_recordNamesItems.mpr ⟨t, ht', hns⟩))
      obtain ⟨values, hinp, hvals, houtputs, hal⟩ := returns_items hits
      refine ⟨.vector values, ?_, ?_, .product hal⟩
      · rw [schemeInput, hinp]
        rfl
      · rw [schemeOutput, refuse, if_neg (not_not.mpr (hvals.trans hlen)), bind_eq, houtputs]
        rfl
    · rename_i fields types
      obtain ⟨hfs, htyped⟩ := typedRecord_ok (bounded_fields hbou).1 h
      rw [validateSdkBoundary] at hsdk
      have htys : OrdMap.Distinct types := ht _ mem_cons_self
      have hret : ∀ p ∈ types, ∃ v, get? fields p.1 = some v ∧
          Returns doubles definitions O levels v p.2 := by
        intro p hp
        obtain ⟨v, hv, hch⟩ := htyped p hp
        have hmem := mem_of_get? hv
        refine ⟨v, hv, ih hch ((bounded_fields hbou).2 _ hmem)
          (fun d hd => hnor d (Value.mem_decimalsFields.mpr ⟨_, hmem, hd⟩))
          (validateSdkFields_ok hsdk _ hmem) (fun names hns => ht names ?_)⟩
        exact mem_cons_of_mem _ (ValueType.mem_recordNamesFields.mpr ⟨p, hp, hns⟩)
      have hin : ∀ p ∈ fields, ∃ s : Scheme.Value F O, schemeInput doubles p.2 = .ok s := by
        intro p hp
        obtain ⟨q, hq, hname⟩ := mem_map.mp (hfs p hp)
        obtain ⟨v, hv, s, hin, -⟩ := hret q hq
        rw [hname] at hv
        obtain rfl := Option.some.inj ((get?_of_mem (bounded_fields hbou).1 hp).symm.trans hv)
        exact ⟨s, hin⟩
      obtain ⟨values, hinp, hks, hvals⟩ := schemeInputFields_ok hin
      have hdi : OrdMap.Distinct values := by
        rw [OrdMap.Distinct, hks]
        exact (bounded_fields hbou).1
      have hlen : values.length = types.length := by
        have hpm : (OrdMap.keys values).Perm (OrdMap.keys types) := by
          rw [hks, perm_ext_iff_of_nodup (bounded_fields hbou).1 htys]
          refine fun name => ⟨fun hmem => ?_, fun hmem => ?_⟩
          · obtain ⟨p, hp, rfl⟩ := mem_map.mp hmem
            exact hfs p hp
          · obtain ⟨p, hp, rfl⟩ := mem_map.mp hmem
            obtain ⟨v, hv, -⟩ := hret p hp
            exact mem_map.mpr ⟨_, mem_of_get? hv, rfl⟩
        have hsm := hpm.length_eq
        rwa [OrdMap.keys, OrdMap.keys, length_map, length_map] at hsm
      refine ⟨.record values, ?_, ?_, ?_⟩
      · rw [schemeInput, hinp, bind_eq, ofList_of_distinct hdi]
        rfl
      · rw [schemeOutput, refuse, if_neg (not_not.mpr hlen), bind_eq, returns_fields hvals hret]
        rfl
      · exact alike_fields (bounded_fields hbou).1 htys hfs fun p hp => by
          obtain ⟨v, hv, _, _, _, hal⟩ := hret p hp
          exact ⟨v, hv, hal⟩
    · rename_i owner tag items name
      obtain ⟨_, howner, h⟩ := bind_ok h
      obtain rfl := not_not.mp (refuse_ok howner)
      obtain ⟨variant, hvar, h⟩ := bind_ok h
      obtain ⟨_, harity, h⟩ := bind_ok h
      have hlen := not_not.mp (refuse_ok harity)
      obtain ⟨hfd, definition, hdef, hmember⟩ := findConstructor_ok hvar
      have hits := forall₂_of_typedItems (P := Returns doubles definitions O levels)
        hlen.symm h
        fun v hv t ht' name hch => ih hch
          (bounded_items (.inr (.inr ⟨_, _, rfl⟩)) hbou v hv)
          (fun d hd => hnor d (Value.mem_decimalsItems.mpr ⟨v, hv, hd⟩))
          (validateSdkBoundary_constructor hsdk v hv)
          (hdefs definition hdef variant hmember t ht')
      obtain ⟨values, hinp, hvals, houtputs, hal⟩ := returns_items hits
      refine ⟨.tagged tag values, ?_, ?_, ?_⟩
      · rw [schemeInput, hsdk, hinp]
        split <;> rfl
      · rw [schemeOutput, hfd, bind_eq, refuse,
          if_neg (not_not.mpr (hvals.trans hlen.symm)), bind_eq, houtputs, arrange, hfd]
        rfl
      · rw [arrange, hfd]
        exact .constructor hal
    · exact ⟨.tagged "morphir/SDK:maybe#nothing" [], rfl, rfl, .refl _⟩
    · rename_i v t
      rw [validateSdkBoundary] at hsdk
      obtain ⟨s, hin, hout, hal⟩ := ih h (bounded_inner (.inl rfl) hbou) hnor hsdk ht
      refine ⟨.tagged "morphir/SDK:maybe#just" [s], ?_, ?_, .just hal⟩
      · rw [schemeInput, hin]
        rfl
      · rw [schemeOutput, hout]
        rfl
    · rename_i v ok err
      rw [validateSdkBoundary] at hsdk
      obtain ⟨s, hin, hout, hal⟩ := ih h (bounded_inner (.inr (.inl rfl)) hbou)
        hnor hsdk (fun names hns => ht names (mem_append_left _ hns))
      refine ⟨.tagged "morphir/SDK:result#ok" [s], ?_, ?_, .ok hal⟩
      · rw [schemeInput, hin]
        rfl
      · rw [schemeOutput, hout]
        rfl
    · rename_i v ok err
      rw [validateSdkBoundary] at hsdk
      obtain ⟨s, hin, hout, hal⟩ := ih h (bounded_inner (.inr (.inr rfl)) hbou)
        hnor hsdk (fun names hns => ht names (mem_append_right _ hns))
      refine ⟨.tagged "morphir/SDK:result#err" [s], ?_, ?_, .err hal⟩
      · rw [schemeInput, hin]
        rfl
      · rw [schemeOutput, hout]
        rfl
    · cases h
    · cases h

omit [Doubles F] in
lemma zipWith_arrange {types : List ValueType} {P : Value → ValueType → Prop}
    (h : List.Forall₂ P items types)
    (hP : ∀ v ∈ items, ∀ t, P v t → arrange definitions levels v t = v) :
    List.zipWith (arrange definitions levels) items types = items := by
  induction h with
  | nil => rfl
  | cons hv _ ih =>
    obtain ⟨hfst, hits⟩ := forall_mem_cons.mp hP
    rw [zipWith_cons_cons, hfst _ hv, ih hits]

end RoundTrip

section Ordered

variable {definitions : List CustomType} {levels : Nat}

lemma arrange_fields {types : List (String × ValueType)} {P : Value → ValueType → Prop}
    (hfs : OrdMap.Distinct fields)
    (h : List.Forall₂ (fun p q => p.1 = q.1 ∧ P p.2 q.2) fields types)
    (hP : ∀ p ∈ fields, ∀ t, P p.2 t → arrange definitions levels p.2 t = p.2) :
    (types.filterMap fun p =>
      (get? fields p.1).map fun v => (p.1, arrange definitions levels v p.2)) = fields := by
  suffices hsub : ∀ (part : List (String × Value)) (types : List (String × ValueType)),
      part ⊆ fields → List.Forall₂ (fun p q => p.1 = q.1 ∧ P p.2 q.2) part types →
      (types.filterMap fun p =>
        (get? fields p.1).map fun v => (p.1, arrange definitions levels v p.2)) = part from
    hsub fields types (.refl fields) h
  intro part types hpa hall
  induction hall with
  | nil => rfl
  | @cons p q part types hpq _ ih =>
    obtain ⟨hmem, hr⟩ := cons_subset.mp hpa
    obtain ⟨name, v⟩ := p
    obtain ⟨hname, hv⟩ := hpq
    dsimp only at hname hv
    have hget : get? fields q.1 = some v := by
      rw [← hname]
      exact get?_of_mem hfs hmem
    have hsf : arrange definitions levels v q.2 = v := hP (name, v) hmem q.2 hv
    rw [filterMap_cons, hget]
    simp only [Option.map_some, hsf, ih hr, hname]

lemma arrange_of_inOrder {v : Value} {t : ValueType} (hbou : Bounded v)
    (h : InOrder definitions levels v t) : arrange definitions levels v t = v := by
  induction levels generalizing v t with
  | zero => rfl
  | succ levels ih =>
    rw [arrange.eq_def]
    dsimp only at h ⊢
    split
    · rename_i items t
      have hits : ∀ v ∈ items, arrange definitions levels v t = v :=
        fun v hv => ih (bounded_items (.inl rfl) hbou v hv) (h v hv)
      rw [map_congr_left hits, map_id']
    · rw [zipWith_arrange h fun v hv t => ih (bounded_items (.inr (.inl rfl)) hbou v hv)]
    · rw [arrange_fields (bounded_fields hbou).1 h fun p hp t => ih ((bounded_fields hbou).2 p hp)]
    · split
      · rename_i variant hvar
        rw [zipWith_arrange (h variant hvar)
          fun v hv t => ih (bounded_items (.inr (.inr ⟨_, _, rfl⟩)) hbou v hv)]
      · rfl
    · rw [ih (bounded_inner (.inl rfl) hbou) h]
    · rw [ih (bounded_inner (.inr (.inl rfl)) hbou) h]
    · rw [ih (bounded_inner (.inr (.inr rfl)) hbou) h]
    · rfl

end Ordered

section Whole

variable {F O : Type} [Doubles F] (doubles : F ≃ UInt64) {definitions : List CustomType}

end Whole

structure DoubleBits where
  bits : UInt64

instance : Doubles DoubleBits where
  isNegativeZero v := v.bits == 0x8000000000000000
  isFinite v := v.bits &&& 0x7ff0000000000000 != 0x7ff0000000000000
  toText v := toString v.bits
  jsonNumber _ := none

def doubleBits : DoubleBits ≃ UInt64 where
  toFun := DoubleBits.bits
  invFun := DoubleBits.mk
  left_inv _ := rfl
  right_inv _ := rfl

def quantityType : ValueType :=
  .record [("amount", .optional .decimal), ("unit", .text), ("exact", .bool)]

def quantity : Value :=
  .record [("amount", .just (.decimal 125 (-2))), ("unit", .text [107, 103]),
    ("exact", .boolean true)]

end Morphir.Execution
