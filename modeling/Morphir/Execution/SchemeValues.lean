import Morphir.Execution.Types
import Morphir.Execution.ValueRoundTrip
import Morphir.Scheme.NumberText
import Morphir.Scheme.Values
import Morphir.Sdk.DecimalText

/-!
# Execution values in Scheme

An argument is handed to Scheme without its type.  A result is read back by the type that is
declared for it, which brings the fields of a record into the order of the type.
-/

namespace Morphir.Execution

open Fallible Morphir.Host List Nat
open Morphir.Scheme (Doubles)

/-- Scientific form that the concrete SDK accepts without loss of precision. -/
def decimalSource (coefficient exponent : Int) : Except String String := do
  let (n, e) ← normalizeDecimal coefficient exponent
  if n = 0 then pure "0"
  else
    let source := (toString n).toList
    let negative := source.head? == some '-'
    let digits := if negative then source.drop 1 else source
    pure (String.ofList ((if negative then ['-'] else []) ++ digits.take 1 ++
      (if 1 < digits.length then '.' :: digits.drop 1 else []) ++ ['e'] ++
      (toString (e + digits.length - 1)).toList))

/-- The width of an opaque integer of the SDK other than that of 32 bits. -/
def sdkIntegerWidth (owner : String) : Option String :=
  match owner with
  | "morphir/SDK:int#int-16" => some "int16"
  | "morphir/SDK:int#int-64" => some "int64"
  | "morphir/SDK:int#byte" => some "byte"
  | "morphir/SDK:int#uint-16" => some "uint16"
  | "morphir/SDK:int#uint-32" => some "uint32"
  | "morphir/SDK:int#uint-64" => some "uint64"
  | _ => none

def fitsWidth (width : String) (n : Int) : Bool :=
  match width with
  | "int16" => decide (-32768 ≤ n ∧ n ≤ 32767)
  | "int32" => decide (-2147483648 ≤ n ∧ n ≤ 2147483647)
  | "int64" => decide (-9223372036854775808 ≤ n ∧ n ≤ 9223372036854775807)
  | "byte" => decide (0 ≤ n ∧ n ≤ 255)
  | "uint16" => decide (0 ≤ n ∧ n ≤ 65535)
  | "uint32" => decide (0 ≤ n ∧ n ≤ 4294967295)
  | "uint64" => decide (0 ≤ n ∧ n ≤ 18446744073709551615)
  | _ => false

def int32Owner : String := "morphir/SDK:int#int-32"

def validateSdkInteger (owner tag : String) (items : List Value) : Except String Unit :=
  if owner = int32Owner then
    match items with
    | [.integer n] =>
      if tag = "morphir/SDK:int#int32" then
        refuse (¬ fitsWidth "int32" n) "execution.int32_range"
      else .error "execution.wrong_type"
    | _ => .error "execution.wrong_type"
  else
    match sdkIntegerWidth owner with
    | none => .ok ()
    | some width =>
      match items with
      | [.integer n] => do
        let suffix :=
          if ['i', 'n', 't'].isPrefixOf width.toList then width
          else String.ofList (owner.toList.drop "morphir/SDK:int#".length)
        refuse (tag ≠ "morphir/SDK:int#" ++ suffix) "execution.wrong_type"
        refuse (¬ fitsWidth width n) ("execution." ++ width ++ "_range")
      | _ => .error "execution.wrong_type"

mutual

/-- `validate_sdk_boundary`: the opaque bounded integers keep their representation. -/
def validateSdkBoundary : Value → Except String Unit
  | .constructor owner tag items =>
    if owner = int32Owner ∨ (sdkIntegerWidth owner).isSome then
      validateSdkInteger owner tag items
    else validateSdkItems items
  | .product items | .sequence items => validateSdkItems items
  | .record fields => validateSdkFields fields
  | .just item | .ok item | .err item => validateSdkBoundary item
  | .integer _ | .boolean _ | .unit | .decimal _ _ | .float64 _ | .text _ | .character _
  | .nothing | .modelError _ => .ok ()

def validateSdkItems : List Value → Except String Unit
  | [] => .ok ()
  | item :: items => do
    validateSdkBoundary item
    validateSdkItems items

def validateSdkFields : List (String × Value) → Except String Unit
  | [] => .ok ()
  | (_, item) :: fields => do
    validateSdkBoundary item
    validateSdkFields fields

end

section Scheme

variable {F O : Type} [Doubles F]

def schemeInteger (text : String) : Except String (Scheme.Value F O) :=
  match Scheme.parseNumber (F := F) text.toList with
  | .ok (some (.integer n)) => .ok (.number (.integer n))
  | _ => .error "Expected integer"

def schemeList (values : List (Scheme.Value F O)) : Scheme.Value F O := values.foldr .pair .nil

def toArray : Scheme.Value F O → Except String (List (Scheme.Value F O))
  | .pair head tail => do
    let rest ← toArray tail
    pure (head :: rest)
  | .nil => .ok []
  | _ => .error "Expected proper list"

-- a double has the bits that it is reinterpreted as
variable (doubles : F ≃ UInt64)

mutual

def schemeInput : Value → Except String (Scheme.Value F O)
  | .integer n => schemeInteger (toString n)
  | .boolean b => .ok (.boolean b)
  | .unit => .ok .unit
  | .decimal n e => do
    let source ← decimalSource n e
    pure (.tagged "decimal" [.text source])
  | .float64 bits => .ok (.number (.real (doubles.symm bits)))
  | .text units => do
    let values ← units.mapM fun n => schemeInteger (toString n)
    pure (.tagged "sdk-text" [.vector values])
  | .character units => do
    let values ← units.mapM fun n => schemeInteger (toString n)
    pure (.tagged "sdk-character" [.vector values])
  | .sequence items => do
    let values ← schemeInputs items
    pure (schemeList values)
  | .product items => do
    let values ← schemeInputs items
    pure (.vector values)
  | .record fields => do
    let values ← schemeInputFields fields
    pure (.record (OrdMap.ofList values))
  | .constructor owner tag items => do
    if owner = int32Owner then validateSdkBoundary (.constructor owner tag items)
    let values ← schemeInputs items
    pure (.tagged tag values)
  | .nothing => .ok (.tagged "morphir/SDK:maybe#nothing" [])
  | .just v => do
    let value ← schemeInput v
    pure (.tagged "morphir/SDK:maybe#just" [value])
  | .ok v => do
    let value ← schemeInput v
    pure (.tagged "morphir/SDK:result#ok" [value])
  | .err v => do
    let value ← schemeInput v
    pure (.tagged "morphir/SDK:result#err" [value])
  | .modelError _ => .error "execution.model_error_argument"

def schemeInputs : List Value → Except String (List (Scheme.Value F O))
  | [] => .ok []
  | item :: items => do
    let value ← schemeInput item
    let values ← schemeInputs items
    pure (value :: values)

def schemeInputFields : List (String × Value) → Except String (List (String × Scheme.Value F O))
  | [] => .ok []
  | (name, item) :: fields => do
    let value ← schemeInput item
    let values ← schemeInputFields fields
    pure ((name, value) :: values)

end

def schemeUnit : Scheme.Value F O → Except String Int
  | .number (.integer n) => if n < 0 ∨ 65535 < n then .error "execution.evaluator_utf16" else .ok n
  | _ => .error "execution.evaluator_utf16"

def outputItems (child : Scheme.Value F O → ValueType → Except String Value) :
    List (Scheme.Value F O) → List ValueType → Except String (List Value)
  | v :: values, t :: types => do
    let item ← child v t
    let items ← outputItems child values types
    pure (item :: items)
  | _, _ => .ok []

def outputField (child : Scheme.Value F O → ValueType → Except String Value)
    (fields : List (String × Scheme.Value F O)) (p : String × ValueType) :
    Except String (String × Value) :=
  match OrdMap.get? fields p.1 with
  | none => .error ("execution.evaluator_record_field: " ++ p.1)
  | some v => (child v p.2).map fun item => (p.1, item)

variable (definitions : List CustomType)

/-- `scheme_output`, with the levels that are left under the depth limit. -/
def schemeOutput : Nat → Scheme.Value F O → ValueType → Except String Value
  | 0, _, _ => .error "execution.value_limit"
  | levels + 1, value, expected =>
    let child := schemeOutput levels
    match value, expected with
    | .number (.integer n), .int => .ok (.integer n)
    | .boolean b, .bool => .ok (.boolean b)
    | .unit, .unit => .ok .unit
    | .number (.real x), .float64 => .ok (.float64 (doubles x))
    | .tagged "decimal" [.text source], .decimal => do
      match ← Sdk.Decimal.fromString source with
      | some d => pure (.decimal d.coefficient d.exponent)
      | none => throw "execution.evaluator_decimal"
    | .text source, .text => .ok (.text ((codeUnits source).map fun n => (n : Int)))
    | .character c, .character =>
      .ok (.character ((codeUnits (String.ofList [c])).map fun n => (n : Int)))
    | .tagged "sdk-text" [.vector values], .text => do
      let units ← values.mapM schemeUnit
      pure (.text units)
    | .tagged "sdk-character" [.vector values], .character => do
      let units ← values.mapM schemeUnit
      pure (.character units)
    | value, .sequence t => do
      let values ← toArray value
      let items ← values.mapM fun v => child v t
      pure (.sequence items)
    | .vector values, .product types => do
      refuse (values.length ≠ types.length) "execution.evaluator_tuple_arity"
      let items ← outputItems child values types
      pure (.product items)
    | .record fields, .record types => do
      refuse (fields.length ≠ types.length) "execution.evaluator_record_fields"
      let items ← types.mapM (outputField child fields)
      pure (.record items)
    | .tagged tag values, .custom owner => do
      let variant ← findConstructor definitions owner tag
        ("execution.unresolved_custom_type: " ++ owner) "execution.evaluator_constructor"
      refuse (values.length ≠ variant.inputs.length) "execution.evaluator_constructor_arity"
      let items ← outputItems child values variant.inputs
      pure (.constructor owner tag items)
    | .tagged "morphir/SDK:maybe#nothing" [], .optional _ => .ok .nothing
    | .tagged "morphir/SDK:maybe#just" [v], .optional t => (child v t).map .just
    | .tagged "morphir/SDK:result#ok" [v], .outcome ok _ => (child v ok).map .ok
    | .tagged "morphir/SDK:result#err" [v], .outcome _ err => (child v err).map .err
    | _, _ => .error ("execution.evaluator_type: " ++ expected.name)

end Scheme

section Decimals

open Numeral (DecimalText Exponent Sign IsDigits number)
open Sdk.Decimal (minus signOf readInteger readInteger_eq text_signOf signOf_ne_plus)

lemma toList_toString (z : Int) :
    (toString z).toList = minus (decide (z < 0)) ++ toDigits 10 z.natAbs := by
  cases z with
  | ofNat m =>
    have hsg : decide (Int.ofNat m < 0) = false := decide_eq_false (by simp)
    exact toList_repr
  | negSucc m =>
    have hsg : decide (Int.negSucc m < 0) = true := decide_eq_true (Int.negSucc_lt_zero m)
    rw [hsg]
    change ("-" ++ Nat.repr (m + 1)).toList = _
    rw [String.toList_append, toList_repr]
    rfl

lemma readInteger_toDigits (z : Int) : readInteger (decide (z < 0)) (toDigits 10 z.natAbs) = z := by
  rw [readInteger, ofDigitChars_ten_toDigits]
  by_cases hz : z < 0
  · simp only [hz, decide_true, if_true]
    omega
  · simp only [hz, decide_false, Bool.false_eq_true, if_false]
    omega

lemma isDigits_toDigits (n : Nat) : IsDigits (toDigits 10 n) :=
  fun _ hc => isDigit_of_mem_toDigits (by decide) (by decide) hc

lemma le_dropZeros (fuel : Nat) (n e : Int) : e ≤ (dropZeros fuel n e).2 := by
  induction fuel generalizing n e with
  | zero => exact Int.le_refl e
  | succ fuel ih =>
    rw [dropZeros]
    split
    · exact Int.le_trans (by omega) (ih (n.tdiv 10) (e + 1))
    · exact Int.le_refl e

lemma not_dvd_of_normalized {n e : Int} (hn : n ≠ 0) (h : normalizeDecimal n e = .ok (n, e)) :
    ¬ (10 : Int) ∣ n ∧ -32 ≤ e ∧ e ≤ 10000 ∧ (toString n).length ≤ 10000 := by
  have hlim := normalizeDecimal_ok h
  rw [normalizeDecimal, if_neg (by omega), if_neg hn] at h
  cases hdr : dropZeros n.natAbs n e with
  | mk m x =>
    simp only [hdr] at h
    split at h
    · cases h
    · obtain ⟨rfl, rfl⟩ := Prod.mk.inj (Except.ok.inj h)
      refine ⟨fun hdvd => ?_, by omega, by omega, hlim.1⟩
      obtain ⟨fuel, hfuel⟩ := exists_eq_succ_of_ne_zero (Int.natAbs_ne_zero.mpr hn)
      rw [hfuel, dropZeros, if_pos (Int.tdiv_mul_cancel hdvd)] at hdr
      have hle := le_dropZeros fuel (m.tdiv 10) (x + 1)
      rw [hdr] at hle
      omega

lemma getLast?_toDigits {n : Int} (h : ¬ (10 : Int) ∣ n) :
    (toDigits 10 n.natAbs).getLast? ≠ some '0' := by
  intro hl
  obtain ⟨front, hfr⟩ := List.getLast?_eq_some_iff.mp hl
  have hnum : number (toDigits 10 n.natAbs) = n.natAbs := ofDigitChars_ten_toDigits
  rw [hfr, Numeral.number_append_singleton] at hnum
  have hz : '0'.toNat - '0'.toNat = 0 := rfl
  omega

lemma decimalSource_eq {n e : Int} (hn : n ≠ 0) (h : normalizeDecimal n e = .ok (n, e))
    {d : Char} {rest : List Char} (hds : toDigits 10 n.natAbs = d :: rest) :
    decimalSource n e = .ok (String.ofList (minus (decide (n < 0)) ++ ([d] ++
      ((if 0 < rest.length then '.' :: rest else []) ++
        'e' :: (toString (e + rest.length)).toList)))) := by
  have hdig : d.isDigit = true := isDigits_toDigits n.natAbs d (by rw [hds]; exact mem_cons_self)
  have hexp : e + ((rest.length : Int) + 1) - 1 = e + rest.length := by omega
  simp only [decimalSource, h, bind_eq, if_neg hn, toList_toString n, hds]
  by_cases hneg : n < 0
  · simp [hneg, minus, hexp, pure, Except.pure]
  · have hne : ¬ d = '-' := by
      rintro rfl
      cases hdig
    simp [hneg, minus, hexp, hne, pure, Except.pure]

lemma fromString_decimalSource {n e : Int} (h : normalizeDecimal n e = .ok (n, e)) :
    ∃ source, decimalSource n e = .ok source ∧
      Sdk.Decimal.fromString source = .ok (some ⟨n, e⟩) := by
  by_cases hz : n = 0
  · subst hz
    have hlim := normalizeDecimal_ok h
    rw [normalizeDecimal, if_neg (by omega)] at h
    obtain ⟨-, rfl⟩ := Prod.mk.inj (Except.ok.inj h)
    exact ⟨"0", rfl, rfl⟩
  · obtain ⟨hdvd, hlow, hhi, hlen⟩ := not_dvd_of_normalized hz h
    have hds := isDigits_toDigits n.natAbs
    have hl := getLast?_toDigits hdvd
    have hrd := readInteger_toDigits n
    have hsz : (toDigits 10 n.natAbs).length ≤ 10000 := by
      have ht := congrArg List.length (toList_toString n)
      rw [String.length_toList, length_append] at ht
      omega
    obtain ⟨d, rest, hcons⟩ := exists_cons_of_ne_nil
      (toDigits_ne_nil)
    refine ⟨_, decimalSource_eq hz h hcons, ?_⟩
    rw [hcons] at hds hl hrd hsz
    have hr : IsDigits rest := fun c hc => hds c (mem_cons_of_mem d hc)
    let x : Int := e + rest.length
    let spelling : DecimalText := {
      sign := signOf (decide (n < 0))
      whole := [d]
      fraction := if 0 < rest.length then some rest else none
      exponent := some ⟨'e', signOf (decide (x < 0)), toDigits 10 x.natAbs, .inl rfl,
        isDigits_toDigits _, toDigits_ne_nil⟩
      isWhole := fun c hc => hds c (mem_singleton.mp hc ▸ mem_cons_self)
      isFraction := by
        intro digits hmem
        split at hmem
        · rwa [← Option.some.inj hmem]
        · cases hmem
      nonempty := .inl (cons_ne_nil d []) }
    have hexp : Exponent.value spelling.exponent = x := by
      rw [← readInteger_toDigits x, readInteger_eq]
      rfl
    have hpla : spelling.places = rest := by
      by_cases hpos : 0 < rest.length
      · simp [DecimalText.places, spelling, hpos]
      · have hnil : rest = [] := eq_nil_of_length_eq_zero (by omega)
        simp [DecimalText.places, spelling, hnil]
    rw [length_cons] at hsz
    have hpts : Sdk.Decimal.readParts (String.ofList (minus (decide (n < 0)) ++ ([d] ++
        ((if 0 < rest.length then '.' :: rest else []) ++ 'e' :: (toString x).toList)))) =
          some (n, e) := by
      rw [Sdk.Decimal.readParts_iff]
      refine ⟨spelling, ?_, ⟨signOf_ne_plus _, cons_ne_nil d [], ?_, ?_⟩, ?_, ?_, ?_, ?_⟩
      · have hpt : DecimalText.pointText spelling.fraction =
            if 0 < rest.length then '.' :: rest else [] := by
          by_cases hpos : 0 < rest.length
          · simp [spelling, hpos, DecimalText.pointText]
          · simp [spelling, hpos, DecimalText.pointText]
        rw [String.toList_ofList, toList_toString x, DecimalText.text, hpt]
        simp only [spelling, Exponent.text, text_signOf]
      · by_cases hpos : 0 < rest.length
        · simpa [spelling, hpos] using ne_nil_of_length_pos hpos
        · simp [spelling, hpos]
      · intro exponent hexp
        obtain rfl := (Option.some.inj hexp).symm
        refine ⟨rfl, signOf_ne_plus _, rfl, ?_⟩
        rw [hpla]
        cases rest with
        | nil => simp
        | cons c rest => rwa [List.getLast?_cons_cons] at hl
      · omega
      · omega
      · rw [DecimalText.digits, hpla, ← readInteger_eq]
        exact hrd.symm
      · have hscale : spelling.scale = e := by
          rw [DecimalText.scale, hexp, hpla]
          omega
        rw [hscale, Sdk.wrap_of_inRange ⟨by omega, by omega⟩]
    have hcan : Sdk.Decimal.Canonical ⟨n, e⟩ :=
      ⟨fun h => absurd h hz, fun _ => hdvd, hlow, by dsimp only; omega⟩
    have hnor := Sdk.Decimal.normalize_scaled hcan hz 0 (by dsimp only; omega)
    simp only [pow_zero, mul_one, cast_zero, sub_zero] at hnor
    rw [Sdk.Decimal.fromString, hpts]
    simp only [hnor]
    rfl

end Decimals

end Morphir.Execution
