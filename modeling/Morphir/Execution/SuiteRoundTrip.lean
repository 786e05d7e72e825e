import Morphir.Execution.Outcomes
import Morphir.Execution.ValueRoundTrip

/-!
# The suite codec

When a suite is read back from its bytes.  The budget of the readers counts the
containers around the arguments too, and an Ion suite has the extension as a value, whose
bytes are written again.
-/

namespace Morphir.Execution

open Fallible Morphir.Host List Ion Call

variable {X : Type}

lemma mapM_map_eq {α β : Type} {f : α → Except String β} {g : β → α} :
    ∀ items : List β, (∀ item ∈ items, f (g item) = .ok item) → (items.map g).mapM f = .ok items
  | [], _ => rfl
  | item :: items, h => by
    rw [map_cons, mapM_cons, h item mem_cons_self,
      mapM_map_eq items fun other ho => h other (mem_cons_of_mem _ ho)]
    rfl

lemma jsonIonItems_map {α : Type} {f : α → Json} {g : α → Ion X} :
    ∀ items : List α, (∀ item ∈ items, jsonIon (f item) = some (g item)) →
      jsonIonItems (items.map f) = some (items.map g)
  | [], _ => rfl
  | item :: items, h => by
    have hits := jsonIonItems_map items fun other ho => h other (mem_cons_of_mem _ ho)
    simp [jsonIonItems, h item mem_cons_self, hits]

lemma nestingItems_le {n : Nat} : ∀ {items : List (Ion X)},
    nestingItems items ≤ n ↔ ∀ item ∈ items, item.nesting ≤ n
  | [] => by simp [nestingItems]
  | item :: items => by rw [nestingItems, max_le_iff, nestingItems_le, forall_mem_cons]

variable {result : Except String (Ion X)} {value : Ion X}

lemma readsBack_bind {α : Type} {f : Ion X → Except String α} {a : α} (h : ReadsBack result value) :
    result >>= f = .ok a ↔ value.nesting ≤ ionBudget ∧ f value = .ok a := by
  by_cases hle : value.nesting ≤ ionBudget
  · rw [h.1 hle]
    exact ⟨fun hf => ⟨hle, hf⟩, fun hf => hf.2⟩
  · obtain ⟨code, hc⟩ := h.2 (not_le.mp hle)
    rw [hc]
    exact ⟨fun hf => absurd hf (by nofun), fun hf => absurd hf.1 hle⟩

lemma utf8Text_utf8Bytes (text : String) : utf8Text (utf8Bytes text) = .ok text := by
  rw [utf8Text, utf8Bytes, Mep.utf8Decode_utf8Encode]
  exact congrArg Except.ok String.ofList_toList

def Call.payload (call : Call) : Ion X :=
  .record [("id", .string call.id), ("entry", .string call.entry),
    ("arguments", .list [] (call.arguments.map valuePayload))]

lemma callOf_record {argument : Ion X → Except String Value} {call : Call}
    {items : List (Ion X)} (h : items.mapM argument = .ok call.arguments) :
    callOf argument (.record [("id", .string call.id), ("entry", .string call.entry),
      ("arguments", .list [] items)]) = .ok call := by
  rw [callOf, fields_record [("id", .string call.id), ("entry", .string call.entry),
    ("arguments", .list [] items)] (by simp) (by simp)]
  simp [bind_eq, h]

lemma validateCalls_arguments : ∀ {calls : List Call} {seen : List String},
    validateCalls seen calls = .ok () → ∀ call ∈ calls, ∀ v ∈ call.arguments,
      ∃ rest, validateValue v 0 valueBudget = .ok rest
  | [], _, _, call, hca => nomatch hca
  | first :: calls, seen, h, call, hca => by
    obtain ⟨_, -, h⟩ := bind_ok h
    obtain ⟨_, -, h⟩ := bind_ok h
    obtain ⟨_, hargs, hcls⟩ := bind_ok h
    rcases mem_cons.mp hca with rfl | hca
    · exact validateValue_of_validateItems hargs (le_refl _)
    · exact validateCalls_arguments hcls call hca

variable {lib : IonLibrary X} {suite : Suite}

section

variable (h : suite.validate lib = .ok ())

include h

lemma validate_ok :
    validateExtensions lib suite.extensions = .ok () ∧ validateCalls [] suite.calls = .ok () := by
  obtain ⟨_, -, h⟩ := bind_ok h
  obtain ⟨_, hexts, hcls⟩ := bind_ok h
  exact ⟨hexts, hcls⟩

lemma calls_read_ion :
    (suite.calls.map toIon).mapM
      (fun v : Ion X => do checkPlain v; callOf Value.fromIon v) = .ok suite.calls := by
  apply mapM_map_eq
  intro call hca
  apply callOf_record
  apply mapM_map_eq
  intro v hv
  obtain ⟨rest, hr⟩ := validateCalls_arguments (validate_ok h).2 call hca v hv
  exact fromIon_toIon hr

lemma calls_read_json :
    (suite.calls.map (payload (X := X))).mapM (callOf rootPayload) = .ok suite.calls := by
  apply mapM_map_eq
  intro call hca
  apply callOf_record
  apply mapM_map_eq
  intro v hv
  obtain ⟨rest, hr⟩ := validateCalls_arguments (validate_ok h).2 call hca v hv
  exact rootPayload_valuePayload hr

end

def suiteRecord (calls : List (Ion X)) (extension : Option (Ion X)) : Ion X :=
  .record ([("profile", .string "morphir-invocations-v1"), ("calls", .list [] calls)] ++
    extension.toList.map fun v => ("extensions", v))

variable {extension : Option (Ion X)}

lemma fields_suiteRecord {calls : List (Ion X)} :
    fields (suiteRecord calls extension) ["profile", "calls", "extensions"] =
      .ok ([("profile", .string "morphir-invocations-v1"), ("calls", .list [] calls)] ++
        extension.toList.map fun v => ("extensions", v)) := by
  apply fields_record
  · cases extension <;> simp
  · cases extension <;> simp

lemma suiteOf_record {read : Ion X → Except String (List UInt8)}
    {call : Ion X → Except String Call} {calls : List (Ion X)} (hvd : suite.validate lib = .ok ())
    (hcls : calls.mapM call = .ok suite.calls) :
    suiteOf lib read call (suiteRecord calls extension) = .ok suite ↔
      extension.mapM read = .ok suite.extensions := by
  have hget : OrdMap.get? ([("profile", .string "morphir-invocations-v1"),
      ("calls", .list [] calls)] ++ extension.toList.map fun v => ("extensions", v))
        "extensions" = extension := by
    cases extension <;> simp [OrdMap.get?_cons]
  rw [suiteOf, fields_suiteRecord]
  simp only [cons_append, nil_append, required_cons, if_true, bind_eq, string_string,
    refuse, ne_eq, not_true_eq_false]
  rw [cons_append, cons_append, nil_append] at hget
  rw [hget]
  simp only [String.reduceEq, if_false, list_list, bind_eq, hcls]
  cases extension.mapM read with
  | error code => exact ⟨nofun, nofun⟩
  | ok bytes =>
    rw [bind_eq]
    constructor
    · intro h
      obtain ⟨_, -, hsuite⟩ := bind_ok h
      exact congrArg (fun s => Except.ok s.extensions) (Except.ok.inj hsuite)
    · intro h
      cases h
      rw [hvd]
      rfl

lemma suite_toIon (h : suite.toIon lib = .ok value) :
    suite.validate lib = .ok () ∧ ∃ extension : Option (Ion X),
      suite.extensions.mapM lib.readBinary = .ok extension ∧
        value = suiteRecord (suite.calls.map toIon) extension := by
  obtain ⟨_, hvd, h⟩ := bind_ok h
  refine ⟨hvd, ?_⟩
  cases hexts : suite.extensions with
  | none =>
    rw [hexts] at h
    cases h
    exact ⟨none, rfl, rfl⟩
  | some bytes =>
    rw [hexts] at h
    obtain ⟨extension, hrd, hval⟩ := bind_ok h
    cases hval
    refine ⟨some extension, ?_, rfl⟩
    rw [Option.mapM_some, hrd]
    rfl

def extensionPayload (bytes : List UInt8) : Ion X :=
  .record [("format", .string "ion-binary"),
    ("bytes", .list [] (bytes.map fun b => .scalar [] (.int b.toNat)))]

lemma jsonIon_extensionJson (bytes : List UInt8) :
    jsonIon (extensionJson bytes) = some (extensionPayload (X := X) bytes) := by
  have hbs : jsonIonItems (bytes.map fun b => Json.ofInt b.toNat) =
      some (bytes.map fun b => scalar (X := X) [] (.int b.toNat)) :=
    jsonIonItems_map bytes fun b _ => jsonIon_ofInt b.toNat
  simp [extensionJson, extensionPayload, jsonIon, jsonIonFields, record, hbs]

lemma extensionByte_int (b : UInt8) :
    extensionByte (.scalar (X := X) [] (.int b.toNat)) = .ok b := by
  have hlt : b.toNat < 256 := b.toNat_lt
  rw [extensionByte, smallInteger_int (by omega), bind_eq, refuse, if_neg (by omega),
    Int.toNat_natCast, UInt8.ofNat_toNat]
  rfl

lemma jsonExtension_payload {bytes : List UInt8} (h : lib.readBinary bytes = .ok value) :
    jsonExtension lib (extensionPayload bytes) = .ok bytes := by
  rw [jsonExtension, extensionPayload, checkPlain_of_plain rfl,
    fields_record [("format", .string "ion-binary"),
      ("bytes", .list [] (bytes.map fun b => .scalar [] (.int b.toNat)))] (by simp) (by simp)]
  have hbs := mapM_map_eq bytes fun b _ => extensionByte_int (X := X) b
  simp [bind_eq, refuse, hbs, h]

lemma nesting_extensionPayload (bytes : List UInt8) :
    (extensionPayload (X := X) bytes).nesting ≤ 2 := by
  have hus := nestingItems_units (X := X) (bytes.map fun b => (b.toNat : Int))
  rw [map_map] at hus
  change max 0 (max (nestingItems (List.map _ bytes) + 1) 0) + 1 ≤ 2
  rw [show (fun b : UInt8 => scalar [] (.int b.toNat)) =
    (fun n => scalar [] (.int n)) ∘ fun b : UInt8 => (b.toNat : Int) from rfl, hus]
  decide

lemma jsonIon_suite (suite : Suite) :
    jsonIon suite.toJson = some (suiteRecord (suite.calls.map (payload (X := X)))
      (suite.extensions.map extensionPayload)) := by
  have hca : ∀ call ∈ suite.calls, jsonIon call.toJson = some (call.payload (X := X)) := by
    intro call _
    have hargs := jsonIonItems_map call.arguments fun v _ => jsonIon_toJson (X := X) v
    simp [toJson, payload, jsonIon, jsonIonFields, record, hargs]
  cases hexts : suite.extensions with
  | none =>
    simp [Suite.toJson, suiteRecord, jsonIon, jsonIonFields, record, hexts, jsonIonItems_map _ hca]
  | some bytes =>
    simp [Suite.toJson, suiteRecord, jsonIon, jsonIonFields, record, hexts,
      jsonIonItems_map _ hca, jsonIon_extensionJson]

/-- The suites that come back from the bytes of a format.  Four containers are around
each argument.  In the Ion formats the extension is inside the struct of the suite, and
its bytes are those that its value has when it is written. -/
def Suite.Returns (lib : IonLibrary X) (format : String) (suite : Suite) : Prop :=
  if format = "json" then ∀ call ∈ suite.calls, ∀ v ∈ call.arguments, v.containers + 4 ≤ ionBudget
  else
    (∀ call ∈ suite.calls, ∀ v ∈ call.arguments, v.ionContainers + 4 ≤ ionBudget) ∧
      ∀ bytes, suite.extensions = some bytes → ∀ value, lib.readBinary bytes = .ok value →
        value.nesting + 1 ≤ ionBudget ∧ lib.writeBinary value = .ok bytes

lemma nesting_suiteRecord {calls : List Call} {f : Value → Ion X} (g : Call → Ion X)
    {size : Value → Nat} (hf : ∀ v, (f v).nesting = size v)
    (hg : ∀ call, g call = .record [("id", .string call.id), ("entry", .string call.entry),
      ("arguments", .list [] (call.arguments.map f))]) (extension : Option (Ion X)) :
    (suiteRecord (calls.map g) extension).nesting ≤ ionBudget ↔
      (∀ call ∈ calls, ∀ v ∈ call.arguments, size v + 4 ≤ ionBudget) ∧
        ∀ value, extension = some value → value.nesting + 1 ≤ ionBudget := by
  have hca : ∀ call : Call, (g call).nesting ≤ 126 ↔
      ∀ v ∈ call.arguments, size v + 4 ≤ ionBudget := by
    intro call
    have hargs : nestingItems (call.arguments.map f) ≤ 124 ↔
        ∀ v ∈ call.arguments, size v ≤ 124 := by
      rw [nestingItems_le, forall_mem_map]
      simp only [hf]
    have hrm : (∀ v ∈ call.arguments, size v + 4 ≤ ionBudget) ↔
        ∀ v ∈ call.arguments, size v ≤ 124 := by
      apply forall₂_congr
      rw [ionBudget]
      omega
    rw [hg, hrm, ← hargs, record]
    simp only [map_cons, map_nil, Ion.nestingFields, Ion.nesting, Ion.string]
    omega
  have hcls : Ion.nestingItems (calls.map g) ≤ 126 ↔
      ∀ call ∈ calls, ∀ v ∈ call.arguments, size v + 4 ≤ ionBudget := by
    rw [nestingItems_le, forall_mem_map]
    simp only [hca]
  rw [← hcls]
  cases extension with
  | none =>
    rw [and_iff_left (fun value hval => nomatch hval), suiteRecord, record]
    simp only [Option.toList_none, map_cons, map_nil, append_nil,
      Ion.nestingFields, Ion.nesting, Ion.string, ionBudget]
    omega
  | some value =>
    have hval : (∀ other, some value = some other → other.nesting + 1 ≤ ionBudget) ↔
        value.nesting + 1 ≤ ionBudget :=
      ⟨fun h => h value rfl, fun h other ho => Option.some.inj ho ▸ h⟩
    rw [hval, suiteRecord, record]
    simp only [Option.toList_some, cons_append, nil_append, map_cons,
      map_nil, Ion.nestingFields, Ion.nesting, Ion.string, ionBudget]
    omega

lemma fromIon_suiteRecord (hvd : suite.validate lib = .ok ()) :
    Suite.fromIon lib (suiteRecord (suite.calls.map toIon) extension) = .ok suite ↔
      extension.mapM lib.writeBinary = .ok suite.extensions := by
  exact suiteOf_record hvd (calls_read_ion hvd)

lemma fromIon_returns {format : String} (hfor : format ≠ "json")
    (hval : suite.toIon lib = .ok value) (hrd : ReadsBack result value) :
    result >>= Suite.fromIon lib = .ok suite ↔ suite.Returns lib format := by
  obtain ⟨hvd, extension, hext, rfl⟩ := suite_toIon hval
  rw [readsBack_bind hrd, fromIon_suiteRecord hvd,
    nesting_suiteRecord toIon (fun v => nesting_toIon v) (fun call => rfl), Suite.Returns,
    if_neg hfor, and_assoc]
  apply and_congr_right'
  cases hexts : suite.extensions with
  | none =>
    rw [hexts] at hext
    cases hext
    exact ⟨fun _ => nofun, fun _ => ⟨nofun, rfl⟩⟩
  | some bytes =>
    rw [hexts] at hext
    obtain ⟨read, hbs, hso⟩ := map_ok hext
    cases hso
    rw [Option.mapM_some]
    constructor
    · rintro ⟨hnes, hwr⟩ _ ⟨⟩ value hval
      rw [hbs] at hval
      cases hval
      obtain ⟨written, hwtn, hsm⟩ := map_ok hwr
      cases hsm
      exact ⟨hnes read rfl, hwtn⟩
    · intro h
      obtain ⟨hnes, hwtn⟩ := h bytes rfl read hbs
      rw [hwtn]
      refine ⟨?_, rfl⟩
      rintro _ ⟨⟩
      exact hnes

lemma jsonIonSuite_returns (hvd : suite.validate lib = .ok ())
    (hval : jsonIon suite.toJson = some value) (hrd : ReadsBack result value) :
    result >>= jsonIonSuite lib = .ok suite ↔ suite.Returns lib "json" := by
  rw [jsonIon_suite] at hval
  cases hval
  rw [readsBack_bind hrd, jsonIonSuite, suiteOf_record hvd (calls_read_json hvd),
    nesting_suiteRecord payload nesting_valuePayload (fun call => rfl)]
  have hext : (suite.extensions.map extensionPayload).mapM (jsonExtension lib) =
      .ok suite.extensions := by
    have hexts := (validate_ok hvd).1
    cases hbs : suite.extensions with
    | none => rfl
    | some bytes =>
      rw [hbs] at hexts
      obtain ⟨_, -, hexts⟩ := bind_ok hexts
      obtain ⟨_, hrd, -⟩ := bind_ok hexts
      rw [Option.map_some, Option.mapM_some, jsonExtension_payload hrd]
      rfl
  constructor
  · rintro ⟨⟨hcls, -⟩, -⟩
    exact hcls
  · intro hcls
    refine ⟨⟨hcls, ?_⟩, hext⟩
    intro value hval
    obtain ⟨bytes, -, rfl⟩ := Option.map_eq_some_iff.mp hval
    exact le_trans (Nat.add_le_add_right (nesting_extensionPayload bytes) 1) (by decide)

lemma decode_encode {format : String} {bytes : List UInt8} (hlib : lib.Faithful suite.toJson)
    (henc : suite.encode lib format = .ok bytes) (hlim : bytes.length ≤ inputLimit) :
    Suite.decode lib bytes format = .ok suite ↔ suite.Returns lib format := by
  obtain ⟨value, hval, hwr⟩ := bind_ok henc
  rw [Suite.decode, refuse, if_neg (not_lt.mpr hlim), bind_eq]
  by_cases hbin : format = "ion-binary"
  · rw [if_pos hbin] at hwr ⊢
    apply fromIon_returns _ hval (hlib.binary _ _ hwr)
    simp [hbin]
  rw [if_neg hbin] at hwr ⊢
  by_cases ht : format = "ion-text"
  · rw [if_pos ht] at hwr ⊢
    obtain ⟨source, hsrc, hbs⟩ := bind_ok hwr
    cases hbs
    rw [utf8Text_utf8Bytes]
    apply fromIon_returns _ hval (hlib.text _ _ hsrc)
    simp [ht]
  rw [if_neg ht] at hwr ⊢
  by_cases hjson : format = "json"
  · rw [if_pos hjson] at hwr ⊢
    cases hwr
    obtain ⟨hrd, hprs⟩ := hlib.json _ (jsonIon_suite suite)
    rw [utf8Text_utf8Bytes, bind_eq, hprs, hjson]
    exact jsonIonSuite_returns (suite_toIon hval).1 (jsonIon_suite suite) hrd
  · rw [if_neg hjson] at hwr
    cases hwr

end Morphir.Execution
