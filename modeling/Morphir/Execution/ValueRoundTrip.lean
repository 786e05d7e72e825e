import Morphir.Execution.Values

/-!
# The value codec

A value that passes validation is read back from its payload.
-/

namespace Morphir.Execution

open Fallible Morphir.Host List Ion Nat

variable {X : Type}

variable {allowed : List String}

lemma collectFields_eq :
    ∀ result pairs : List (String × Ion X), (result ++ pairs).map Prod.fst |>.Nodup →
      (∀ p ∈ pairs, p.1 ∈ allowed) →
        collectFields allowed result (pairs.map fun p => (some p.1, p.2)) = .ok (result ++ pairs)
  | result, [], _, _ => by simp [collectFields]
  | result, (name, value) :: pairs, hnd, halw => by
    have hname : name ∉ OrdMap.keys result := by
      intro hmem
      rw [map_append, nodup_append] at hnd
      exact hnd.2.2 name hmem name (mem_map_of_mem mem_cons_self) rfl
    have hcon : ¬ OrdMap.contains result name = true := fun h => hname (OrdMap.contains_iff.mp h)
    have hin : name ∈ allowed := halw _ mem_cons_self
    rw [append_cons] at hnd
    rw [map_cons, collectFields, Option.getD_some,
      if_neg (not_or.mpr ⟨not_not.mpr hin, hcon⟩), OrdMap.insert_of_notMem hname,
      collectFields_eq _ pairs hnd fun p hp => halw p (mem_cons_of_mem _ hp),
      ← append_cons result]

lemma fields_record (pairs : List (String × Ion X)) (hnd : (pairs.map Prod.fst).Nodup)
    (halw : ∀ p ∈ pairs, p.1 ∈ allowed) : fields (.record pairs) allowed = .ok pairs :=
  collectFields_eq [] pairs hnd halw

@[simp] lemma required_cons (name other : String) (value : Ion X) (fields : List (String × Ion X)) :
    required ((name, value) :: fields) other =
      if name = other then .ok value else required fields other := by
  rw [required, OrdMap.get?_cons]
  by_cases h : name = other
  · rw [if_pos h, if_pos h]
  · rw [if_neg h, if_neg h]
    rfl

@[simp] lemma string_string (text : String) : string (Ion.string (X := X) text) = .ok text := rfl

lemma checkPlain_of_plain {value : Ion X} (h : value.annotations = []) :
    checkPlain value = .ok () := if_neg (not_not.mpr h)

@[simp] lemma list_list (items : List (Ion X)) : list (.list [] items) = .ok items := rfl

lemma integerString_repr {n : Int} (h : (toString n).length ≤ 10000) :
    integerString n.repr = .ok n := by
  have hnot : ∀ m : Nat, (toDigits 10 m).head? ≠ some '-' := by
    intro m hh
    have hmem : '-' ∈ toDigits 10 m := mem_of_mem_head? hh
    exact absurd (isDigit_of_mem_toDigits (by decide) (by decide) hmem) (by decide)
  have hds : ∀ (m : Nat) (chars : List Char), chars.length ≤ 10000 →
      ¬ (toDigits 10 m = [] ∨ 10000 < chars.length ∨
        ¬ (toDigits 10 m).all Char.isDigit = true) := by
    rintro m chars hlen (hnil | hlg | ho)
    · exact toDigits_ne_nil hnil
    · exact absurd hlen (not_le.mpr hlg)
    · apply ho
      exact all_eq_true.mpr fun c hc => isDigit_of_mem_toDigits (by decide) (by decide) hc
  change n.repr.toList.length ≤ _ at h
  cases n with
  | ofNat m =>
    have hli : (Int.ofNat m).repr.toList = toDigits 10 m := toList_repr
    rw [hli] at h
    simp only [integerString, hli, if_neg (hnot m)]
    rw [if_neg (hds m _ h), ofDigitChars_ten_toDigits]
    rfl
  | negSucc m =>
    have hli : (Int.negSucc m).repr.toList = '-' :: toDigits 10 (m + 1) := by
      change (("-" : String) ++ Nat.repr (m + 1)).toList = _
      rw [String.toList_append, toList_repr]
      rfl
    rw [hli] at h
    simp only [integerString, hli, List.head?_cons, tail_cons, if_true]
    rw [if_neg (hds (m + 1) _ h), ofDigitChars_ten_toDigits]
    rfl

@[simp] lemma floatBits_repr (bits : UInt64) : floatBits bits.toNat.repr = .ok bits := by
  have hlt : bits.toNat < 18446744073709551616 := bits.toNat_lt
  have hlen : (toString ((bits.toNat : Int))).length ≤ 10000 := by
    rw [← String.length_toList]
    have hds : (toDigits 10 bits.toNat).length ≤ 20 :=
      (length_toDigits_le_iff (by decide) (by decide)).mpr (by omega)
    have hli : (toString (bits.toNat : Int)).toList = toDigits 10 bits.toNat := toList_repr
    rw [hli]
    omega
  have hrd : integerString bits.toNat.repr = .ok bits.toNat :=
    integerString_repr (n := (bits.toNat : Int)) hlen
  rw [floatBits, hrd, bind_eq, refuse, if_neg (by omega), Int.toNat_natCast, UInt64.ofNat_toNat]
  rfl

lemma smallInteger_int {n : Int} (h : -2147483648 ≤ n ∧ n ≤ 2147483647) :
    smallInteger (.scalar (X := X) [] (.int n)) = .ok n := by
  change (if n < -2147483648 ∨ 2147483647 < n then _ else _) = _
  rw [if_neg (by omega)]
  rfl

variable {units : List Int}

lemma units_read (h : ∀ n ∈ units, 0 ≤ n ∧ n ≤ 65535) :
    (units.map fun n => scalar (X := X) [] (.int n)).mapM smallInteger = .ok units := by
  induction units with
  | nil => rfl
  | cons n units ih =>
    have hn := h n mem_cons_self
    rw [map_cons, mapM_cons, smallInteger_int (by omega), ih fun m hm => h m (mem_cons_of_mem _ hm)]
    rfl

variable {budget rest : Int}

variable {depth : Nat}

lemma chargeValue_ok (h : chargeValue depth budget = .ok rest) :
    depth ≤ 64 ∧ 0 ≤ rest ∧ rest = budget - 1 := by
  obtain ⟨_, href, hr⟩ := bind_ok h
  have := refuse_ok href
  cases hr
  omega

lemma payloadValue_record {depths : Nat} {kind : String} {rest : List (String × Ion X)}
    (hns : payloadNames (("type", .string kind) :: rest) kind = .ok ("type" :: rest.map Prod.fst))
    (hnd : ("type" :: rest.map Prod.fst).Nodup)
    (hknown : ∀ name ∈ rest.map Prod.fst, name ∈ ["type", "value", "coefficient", "exponent",
      "bits", "units", "items", "fields", "owner", "tag", "case", "code"]) :
    payloadValue (depths + 1) (.record (("type", .string kind) :: rest)) =
      payloadOf (payloadValue depths) kind (("type", .string kind) :: rest) := by
  have hhea : fields (.record (("type", .string kind) :: rest)) ["type", "value",
      "coefficient", "exponent", "bits", "units", "items", "fields", "owner", "tag", "case",
      "code"] = .ok (("type", .string kind) :: rest) := by
    apply fields_record (("type", .string kind) :: rest) hnd
    intro p hp
    rcases mem_cons.mp hp with rfl | hp
    · exact mem_cons_self
    · exact hknown _ (mem_map_of_mem hp)
  have hfs : fields (.record (("type", .string kind) :: rest))
      ("type" :: rest.map Prod.fst) = .ok (("type", .string kind) :: rest) :=
    fields_record (("type", .string kind) :: rest) hnd fun p hp => mem_map_of_mem hp
  rw [payloadValue, checkPlain_of_plain rfl, bind_eq, hhea, bind_eq]
  have hkd : required (("type", Ion.string kind) :: rest) "type" = .ok (.string kind) := rfl
  rw [hkd, bind_eq, string_string, bind_eq, hns, bind_eq, hfs, bind_eq, refuse,
    if_neg (by simp), bind_eq]

lemma chargeUnits_ok (h : chargeUnits units budget = .ok rest) :
    ∀ n ∈ units, 0 ≤ n ∧ n ≤ 65535 := by
  obtain ⟨_, href, -⟩ := bind_ok h
  have hno := refuse_ok href
  intro n hn
  by_contra hout
  apply hno
  left
  refine any_eq_true.mpr ⟨n, hn, ?_⟩
  simp only [Bool.or_eq_true, decide_eq_true_eq]
  omega

lemma normalizeDecimal_ok {coefficient exponent : Int} {normal : Int × Int}
    (h : normalizeDecimal coefficient exponent = .ok normal) :
    (toString coefficient).length ≤ 10000 ∧ -10000 ≤ exponent ∧ exponent ≤ 10000 := by
  rw [normalizeDecimal] at h
  split at h
  · cases h
  · omega

variable {v : Value}

lemma recordItem_record {child : Ion X → Except String Value} {name : String} {value : Ion X}
    (h : child value = .ok v) :
    recordItem child (.record [("name", .string name), ("value", value)]) = .ok (name, v) := by
  rw [recordItem, checkPlain_of_plain rfl,
    fields_record [("name", .string name), ("value", value)] (by simp) (by simp)]
  simp [bind_eq, h]

lemma validateValue_depth : ∀ {v : Value} {depth : Nat} {budget rest : Int},
    validateValue v depth budget = .ok rest → depth ≤ 64
  | .boolean _, _, _, _, h | .unit, _, _, _, h | .float64 _, _, _, _, h | .nothing, _, _, _, h => by
    exact (chargeValue_ok h).1
  | .integer _, _, _, _, h | .decimal _ _, _, _, _, h | .text _, _, _, _, h
  | .character _, _, _, _, h | .sequence _, _, _, _, h | .product _, _, _, _, h
  | .record _, _, _, _, h | .constructor _ _ _, _, _, _, h | .just _, _, _, _, h
  | .ok _, _, _, _, h | .err _, _, _, _, h | .modelError _, _, _, _, h => by
    obtain ⟨_, hcha, -⟩ := bind_ok h
    exact (chargeValue_ok hcha).1

lemma depths_left {depths : Nat} (h : validateValue v depth budget = .ok rest)
    (hdep : 65 ≤ depths + depth) : ∃ left, depths = left + 1 := by
  have := validateValue_depth h
  exact ⟨depths - 1, by omega⟩

mutual

theorem payloadValue_valuePayload : ∀ (v : Value) {depth depths : Nat} {budget rest : Int},
    validateValue v depth budget = .ok rest → 65 ≤ depths + depth →
      payloadValue depths (valuePayload (X := X) v) = .ok v
  | .integer n, depth, depths, budget, rest, h, hdep => by
    obtain ⟨depths, rfl⟩ := depths_left h hdep
    obtain ⟨_, -, h⟩ := bind_ok h
    obtain ⟨_, href, -⟩ := bind_ok h
    have hrd := integerString_repr (not_lt.mp (refuse_ok href))
    rw [valuePayload, payloadValue_record (by simp [payloadNames]) (by simp) (by simp)]
    simp [payloadOf, bind_eq, hrd]
  | .boolean value, depth, depths, budget, rest, h, hdep => by
    obtain ⟨depths, rfl⟩ := depths_left h hdep
    rw [valuePayload, payloadValue_record (by simp [payloadNames]) (by simp) (by simp)]
    simp [payloadOf, bind_eq, boolean, refuse]
  | .unit, depth, depths, budget, rest, h, hdep => by
    obtain ⟨depths, rfl⟩ := depths_left h hdep
    rfl
  | .decimal n e, depth, depths, budget, rest, h, hdep => by
    obtain ⟨depths, rfl⟩ := depths_left h hdep
    obtain ⟨_, -, h⟩ := bind_ok h
    obtain ⟨_, hnor, -⟩ := bind_ok h
    obtain ⟨hlen, hlow, hhi⟩ := normalizeDecimal_ok hnor
    have hrd := integerString_repr hlen
    have hexp := smallInteger_int (X := X) (n := e) (by omega)
    rw [valuePayload, payloadValue_record (by simp [payloadNames]) (by simp) (by simp)]
    simp [payloadOf, bind_eq, hrd, hexp]
  | .float64 bits, depth, depths, budget, rest, h, hdep => by
    obtain ⟨depths, rfl⟩ := depths_left h hdep
    rw [valuePayload, payloadValue_record (by simp [payloadNames]) (by simp) (by simp)]
    simp [payloadOf, bind_eq]
  | .text units, depth, depths, budget, rest, h, hdep
  | .character units, depth, depths, budget, rest, h, hdep => by
    obtain ⟨depths, rfl⟩ := depths_left h hdep
    rw [validateValue] at h
    obtain ⟨_, -, h⟩ := bind_ok h
    have hus := units_read (X := X) (chargeUnits_ok h)
    rw [valuePayload, payloadValue_record (by simp [payloadNames]) (by simp) (by simp)]
    simp [payloadOf, bind_eq, hus]
  | .sequence items, depth, depths, budget, rest, h, hdep
  | .product items, depth, depths, budget, rest, h, hdep => by
    obtain ⟨depths, rfl⟩ := depths_left h hdep
    rw [validateValue] at h
    obtain ⟨_, -, h⟩ := bind_ok h
    have hits := payloadItems_read items h (show 65 ≤ depths + (depth + 1) by omega)
    rw [valuePayload, payloadValue_record (by simp [payloadNames]) (by simp) (by simp)]
    simp [payloadOf, bind_eq, hits]
  | .record fields, depth, depths, budget, rest, h, hdep => by
    obtain ⟨depths, rfl⟩ := depths_left h hdep
    rw [validateValue] at h
    obtain ⟨_, -, h⟩ := bind_ok h
    have hfs := payloadFields_read fields h (show 65 ≤ depths + (depth + 1) by omega)
    rw [valuePayload, payloadValue_record (by simp [payloadNames]) (by simp) (by simp)]
    simp [payloadOf, bind_eq, hfs]
  | .constructor owner tag items, depth, depths, budget, rest, h, hdep => by
    obtain ⟨depths, rfl⟩ := depths_left h hdep
    rw [validateValue] at h
    obtain ⟨_, -, h⟩ := bind_ok h
    obtain ⟨_, -, h⟩ := bind_ok h
    have hits := payloadItems_read items h (show 65 ≤ depths + (depth + 1) by omega)
    rw [valuePayload, payloadValue_record (by simp [payloadNames]) (by simp) (by simp)]
    simp [payloadOf, bind_eq, hits]
  | .nothing, depth, depths, budget, rest, h, hdep => by
    obtain ⟨depths, rfl⟩ := depths_left h hdep
    rw [valuePayload, payloadValue_record (by simp [payloadNames, bind_eq]) (by simp) (by simp)]
    simp [payloadOf, bind_eq]
    rfl
  | .just value, depth, depths, budget, rest, h, hdep
  | .ok value, depth, depths, budget, rest, h, hdep
  | .err value, depth, depths, budget, rest, h, hdep => by
    obtain ⟨depths, rfl⟩ := depths_left h hdep
    rw [validateValue] at h
    obtain ⟨_, -, h⟩ := bind_ok h
    have hval := payloadValue_valuePayload value h (show 65 ≤ depths + (depth + 1) by omega)
    rw [valuePayload, payloadValue_record (by simp [payloadNames, bind_eq]) (by simp) (by simp)]
    simp [payloadOf, bind_eq, hval]
  | .modelError code, depth, depths, budget, rest, h, hdep => by
    obtain ⟨depths, rfl⟩ := depths_left h hdep
    rw [valuePayload, payloadValue_record (by simp [payloadNames]) (by simp) (by simp)]
    simp [payloadOf, bind_eq]

theorem payloadItems_read : ∀ (items : List Value) {depth depths : Nat} {budget rest : Int},
    validateItems items depth budget = .ok rest → 65 ≤ depths + depth →
      (payloadItems (X := X) items).mapM (payloadValue depths) = .ok items
  | [], depth, depths, budget, rest, h, hdep => rfl
  | item :: items, depth, depths, budget, rest, h, hdep => by
    rw [validateItems] at h
    obtain ⟨left, hi, hits⟩ := bind_ok h
    rw [payloadItems, mapM_cons, payloadValue_valuePayload item hi hdep, bind_eq,
      payloadItems_read items hits hdep, bind_eq]
    rfl

theorem payloadFields_read : ∀ (fields : List (String × Value)) {seen : List String}
    {depth depths : Nat} {budget rest : Int},
    validateFields seen fields depth budget = .ok rest → 65 ≤ depths + depth →
      (payloadFields (X := X) fields).mapM (recordItem (payloadValue depths)) = .ok fields
  | [], _, depth, depths, budget, rest, h, hdep => rfl
  | (name, value) :: fields, seen, depth, depths, budget, rest, h, hdep => by
    rw [validateFields] at h
    obtain ⟨_, -, h⟩ := bind_ok h
    obtain ⟨left, hval, hfs⟩ := bind_ok h
    rw [payloadFields, mapM_cons, recordItem_record (payloadValue_valuePayload value hval hdep),
      bind_eq, payloadFields_read fields hfs hdep, bind_eq]
    rfl

end

lemma rootPayload_valuePayload (h : validateValue v 0 budget = .ok rest) :
    rootPayload (valuePayload (X := X) v) = .ok v :=
  payloadValue_valuePayload v h (le_refl _)

def Value.isNative : Value → Bool
  | .integer _ | .boolean _ | .unit | .decimal _ _ => true
  | _ => false

lemma toIon_of_not_native (h : v.isNative = false) :
    v.toIon (X := X) = (valuePayload v).annotated [some "morphir_value"] := by
  cases v <;> first | rfl | cases h

lemma annotated_valuePayload (v : Value) :
    ((valuePayload (X := X) v).annotated [some "morphir_value"]).annotated [] = valuePayload v := by
  cases v <;> rfl

lemma ionValue_toIon (h : validateValue v 0 budget = .ok rest) :
    ionValue (v.toIon (X := X)) = .ok v := by
  have hro := rootPayload_valuePayload (X := X) h
  cases hnat : v.isNative with
  | true => cases v <;> first | rfl | cases hnat
  | false =>
    rw [toIon_of_not_native hnat]
    have hval : ionValue ((valuePayload (X := X) v).annotated [some "morphir_value"]) =
        rootPayload
          (((valuePayload (X := X) v).annotated [some "morphir_value"]).annotated []) := by
      cases v <;> rfl
    rw [hval, annotated_valuePayload, hro]

lemma jsonIon_ofInt (n : Int) : jsonIon (X := X) (Json.ofInt n) = some (.scalar [] (.int n)) := by
  simp [Json.ofInt, jsonIon]

lemma jsonIonItems_units (units : List Int) :
    jsonIonItems (X := X) (units.map Json.ofInt) =
      some (units.map fun n => .scalar [] (.int n)) := by
  induction units with
  | nil => rfl
  | cons n units ih => simp [jsonIonItems, jsonIon_ofInt, ih]

mutual

theorem jsonIon_toJson : ∀ v : Value, jsonIon (X := X) v.toJson = some (valuePayload v)
  | .integer n | .boolean value | .unit | .float64 bits | .nothing | .modelError code => by
    simp [Value.toJson, valuePayload, jsonIon, jsonIonFields, record]
  | .decimal n e => by
    simp [Value.toJson, valuePayload, jsonIon, jsonIonFields, record, jsonIon_ofInt]
  | .text units | .character units => by
    simp [Value.toJson, valuePayload, jsonIon, jsonIonFields, record, jsonIonItems_units]
  | .sequence items | .product items | .constructor owner tag items => by
    simp [Value.toJson, valuePayload, jsonIon, jsonIonFields, record, jsonIonItems_toJson items]
  | .record fields => by
    simp [Value.toJson, valuePayload, jsonIon, jsonIonFields, record, jsonIonItems_fields fields]
  | .just value | .ok value | .err value => by
    simp [Value.toJson, valuePayload, jsonIon, jsonIonFields, record, jsonIon_toJson value]

theorem jsonIonItems_toJson : ∀ items : List Value,
    jsonIonItems (X := X) (Value.toJsonItems items) = some (payloadItems items)
  | [] => rfl
  | item :: items => by
    simp [Value.toJsonItems, payloadItems, jsonIonItems, jsonIon_toJson item,
      jsonIonItems_toJson items]

theorem jsonIonItems_fields : ∀ fields : List (String × Value),
    jsonIonItems (X := X) (Value.toJsonFields fields) = some (payloadFields fields)
  | [] => rfl
  | (name, value) :: fields => by
    simp [Value.toJsonFields, payloadFields, jsonIonItems, jsonIon, jsonIonFields, record,
      jsonIon_toJson value, jsonIonItems_fields fields]

end

mutual

def Value.containers : Value → Nat
  | .integer _ | .boolean _ | .unit | .decimal _ _ | .float64 _ | .nothing | .modelError _ => 1
  | .text _ | .character _ => 2
  | .sequence items | .product items | .constructor _ _ items => containersItems items + 2
  | .record fields => containersFields fields + 2
  | .just value | .ok value | .err value => value.containers + 1

def Value.containersItems : List Value → Nat
  | [] => 0
  | item :: items => max item.containers (containersItems items)

def Value.containersFields : List (String × Value) → Nat
  | [] => 0
  | (_, value) :: fields => max (value.containers + 1) (containersFields fields)

end

lemma nestingItems_units (units : List Int) :
    nestingItems (units.map fun n => scalar (X := X) [] (.int n)) = 0 := by
  induction units with
  | nil => rfl
  | cons n units ih => simp [nestingItems, nesting, ih]

mutual

theorem nesting_valuePayload : ∀ v : Value, (valuePayload (X := X) v).nesting = v.containers
  | .integer n | .boolean value | .unit | .decimal n e | .float64 bits | .nothing
  | .modelError code => by
    simp [valuePayload, Value.containers, Ion.record, Ion.nesting, Ion.nestingFields, Ion.string]
  | .text units | .character units => by
    simp [valuePayload, Value.containers, Ion.record, Ion.nesting, Ion.nestingFields, Ion.string,
      nestingItems_units]
  | .sequence items | .product items | .constructor owner tag items => by
    simp [valuePayload, Value.containers, Ion.record, Ion.nesting, Ion.nestingFields, Ion.string,
      nesting_payloadItems items]
  | .record fields => by
    simp [valuePayload, Value.containers, Ion.record, Ion.nesting, Ion.nestingFields, Ion.string,
      nesting_payloadFields fields]
  | .just value | .ok value | .err value => by
    simp [valuePayload, Value.containers, Ion.record, Ion.nesting, Ion.nestingFields, Ion.string,
      nesting_valuePayload value]

theorem nesting_payloadItems : ∀ items : List Value,
    nestingItems (payloadItems (X := X) items) = Value.containersItems items
  | [] => rfl
  | item :: items => by
    rw [payloadItems, nestingItems, Value.containersItems, nesting_valuePayload item,
      nesting_payloadItems items]

theorem nesting_payloadFields : ∀ fields : List (String × Value),
    Ion.nestingItems (payloadFields (X := X) fields) = Value.containersFields fields
  | [] => rfl
  | (name, value) :: fields => by
    rw [payloadFields, Ion.nestingItems, Value.containersFields, nesting_payloadFields fields]
    simp [Ion.record, Ion.nesting, Ion.nestingFields, Ion.string, nesting_valuePayload value]

end

/-- How many Ion containers are inside each other for an Ion argument: a scalar with a
native form has none. -/
def Value.ionContainers (v : Value) : Nat := if v.isNative = true then 0 else v.containers

lemma nesting_toIon (v : Value) : (v.toIon (X := X)).nesting = v.ionContainers := by
  rw [Value.ionContainers]
  cases hnat : v.isNative with
  | true => cases v <;> first | rfl | cases hnat
  | false =>
    rw [toIon_of_not_native hnat, nesting_annotated, nesting_valuePayload]
    rfl

lemma chargeValue_add {more : Int} (hm : 0 ≤ more) (h : chargeValue depth budget = .ok rest) :
    chargeValue depth (budget + more) = .ok (rest + more) := by
  obtain ⟨hdep, hr, heq⟩ := chargeValue_ok h
  rw [chargeValue, refuse, if_neg (by omega)]
  apply congrArg Except.ok
  omega

lemma chargeUnits_add {more : Int} (hm : 0 ≤ more) (h : chargeUnits units budget = .ok rest) :
    rest ≤ budget ∧ chargeUnits units (budget + more) = .ok (rest + more) := by
  obtain ⟨_, href, hr⟩ := bind_ok h
  obtain ⟨hus, hbud⟩ := not_or.mp (refuse_ok href)
  cases hr
  refine ⟨by omega, ?_⟩
  rw [chargeUnits, refuse, if_neg (not_or.mpr ⟨hus, by omega⟩)]
  apply congrArg Except.ok
  omega

mutual

theorem validateValue_add : ∀ (v : Value) {depth : Nat} {budget rest more : Int}, 0 ≤ more →
    validateValue v depth budget = .ok rest →
      rest ≤ budget ∧ validateValue v depth (budget + more) = .ok (rest + more)
  | .boolean _, depth, budget, rest, more, hm, h
  | .unit, depth, budget, rest, more, hm, h
  | .float64 _, depth, budget, rest, more, hm, h
  | .nothing, depth, budget, rest, more, hm, h => by
    have := chargeValue_ok h
    exact ⟨by omega, chargeValue_add hm h⟩
  | .integer n, depth, budget, rest, more, hm, h
  | .modelError n, depth, budget, rest, more, hm, h
  | .decimal n e, depth, budget, rest, more, hm, h => by
    rw [validateValue] at h ⊢
    obtain ⟨left, hcha, h⟩ := bind_ok h
    obtain ⟨_, hchk, hr⟩ := bind_ok h
    have := chargeValue_ok hcha
    cases hr
    rw [chargeValue_add hm hcha, hchk]
    exact ⟨by omega, rfl⟩
  | .text units, depth, budget, rest, more, hm, h
  | .character units, depth, budget, rest, more, hm, h => by
    rw [validateValue] at h ⊢
    obtain ⟨left, hcha, h⟩ := bind_ok h
    have := chargeValue_ok hcha
    obtain ⟨hle, hadd⟩ := chargeUnits_add hm h
    rw [chargeValue_add hm hcha, bind_eq, hadd]
    exact ⟨by omega, rfl⟩
  | .sequence items, depth, budget, rest, more, hm, h
  | .product items, depth, budget, rest, more, hm, h => by
    rw [validateValue] at h ⊢
    obtain ⟨left, hcha, h⟩ := bind_ok h
    have := chargeValue_ok hcha
    obtain ⟨hle, hadd⟩ := validateItems_add items hm h
    rw [chargeValue_add hm hcha, bind_eq, hadd]
    exact ⟨by omega, rfl⟩
  | .record fields, depth, budget, rest, more, hm, h => by
    rw [validateValue] at h ⊢
    obtain ⟨left, hcha, h⟩ := bind_ok h
    have := chargeValue_ok hcha
    obtain ⟨hle, hadd⟩ := validateFields_add fields hm h
    rw [chargeValue_add hm hcha, bind_eq, hadd]
    exact ⟨by omega, rfl⟩
  | .constructor owner tag items, depth, budget, rest, more, hm, h => by
    rw [validateValue] at h ⊢
    obtain ⟨left, hcha, h⟩ := bind_ok h
    obtain ⟨_, hchk, h⟩ := bind_ok h
    have := chargeValue_ok hcha
    obtain ⟨hle, hadd⟩ := validateItems_add items hm h
    rw [chargeValue_add hm hcha, hchk, bind_eq, hadd]
    exact ⟨by omega, rfl⟩
  | .just value, depth, budget, rest, more, hm, h
  | .ok value, depth, budget, rest, more, hm, h
  | .err value, depth, budget, rest, more, hm, h => by
    rw [validateValue] at h ⊢
    obtain ⟨left, hcha, h⟩ := bind_ok h
    have := chargeValue_ok hcha
    obtain ⟨hle, hadd⟩ := validateValue_add value hm h
    rw [chargeValue_add hm hcha, bind_eq, hadd]
    exact ⟨by omega, rfl⟩

theorem validateItems_add : ∀ (items : List Value) {depth : Nat} {budget rest more : Int},
    0 ≤ more → validateItems items depth budget = .ok rest →
      rest ≤ budget ∧ validateItems items depth (budget + more) = .ok (rest + more)
  | [], depth, budget, rest, more, hm, h => by
    cases h
    exact ⟨le_refl _, rfl⟩
  | item :: items, depth, budget, rest, more, hm, h => by
    rw [validateItems] at h ⊢
    obtain ⟨left, hi, h⟩ := bind_ok h
    obtain ⟨hlt, hi⟩ := validateValue_add item hm hi
    obtain ⟨hr, hits⟩ := validateItems_add items hm h
    rw [hi, bind_eq, hits]
    exact ⟨by omega, rfl⟩

theorem validateFields_add : ∀ (fields : List (String × Value)) {seen : List String} {depth : Nat}
    {budget rest more : Int}, 0 ≤ more → validateFields seen fields depth budget = .ok rest →
      rest ≤ budget ∧ validateFields seen fields depth (budget + more) = .ok (rest + more)
  | [], seen, depth, budget, rest, more, hm, h => by
    cases h
    exact ⟨le_refl _, rfl⟩
  | (name, value) :: fields, seen, depth, budget, rest, more, hm, h => by
    rw [validateFields] at h ⊢
    obtain ⟨_, hchk, h⟩ := bind_ok h
    obtain ⟨left, hval, h⟩ := bind_ok h
    obtain ⟨hlt, hval⟩ := validateValue_add value hm hval
    obtain ⟨hr, hfs⟩ := validateFields_add fields hm h
    rw [hchk, bind_eq, hval, bind_eq, hfs]
    exact ⟨by omega, rfl⟩

end

lemma validateValue_of_validateItems {items : List Value} {whole : Int}
    (h : validateItems items 0 budget = .ok rest) (hwh : budget ≤ whole) :
    ∀ v ∈ items, ∃ left, validateValue v 0 whole = .ok left := by
  induction items generalizing budget with
  | nil => intro v hv; cases hv
  | cons item items ih =>
    obtain ⟨left, hi, hits⟩ := bind_ok h
    have hadd := validateValue_add item (show 0 ≤ whole - budget by omega) hi
    intro v hv
    rcases mem_cons.mp hv with rfl | hv
    · rw [show budget + (whole - budget) = whole by omega] at hadd
      exact ⟨_, hadd.2⟩
    · exact ih hits (by omega) v hv

lemma fromIon_toIon (h : validateValue v 0 valueBudget = .ok rest) :
    Value.fromIon (v.toIon (X := X)) = .ok v := by
  rw [Value.fromIon, ionValue_toIon h, bind_eq, h]
  rfl

end Morphir.Execution
