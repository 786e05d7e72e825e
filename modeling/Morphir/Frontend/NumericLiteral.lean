import Morphir.IR.Values
import Morphir.Library.Fallible

/-!
# Integer literals

The two readers of a MoonBit integer literal: one for `Int`, in machine integers, and one for
every other integer type, in unbounded ones.  A literal is a sign, a radix and digits, and both
readers accept it by its magnitude and the width of its type.
-/

namespace Morphir.Frontend

open List

open Fallible (bind_ok)

structure FrontendDiagnostic where
  code : String
  detail : String
  source : Option SourceLocation
  deriving DecidableEq

def reject {α : Type} (code detail : String) (source : SourceLocation) :
    Except FrontendDiagnostic α :=
  .error ⟨"moonbit_frontend." ++ code, detail, some source⟩

inductive LibraryScalar
  | boolean | signedInt32 | signedInt16 | signedInt64
  | unsignedByte | unsignedInt16 | unsignedInt32 | unsignedInt64
  | unboundedInteger | sdkInteger | sdkDecimal | optionalSdkInteger | optionalDouble
  | floating32 | floating64 | text
  deriving DecidableEq

namespace LibraryScalar

def isSigned (self : LibraryScalar) : Bool :=
  self = signedInt16 ∨ self = signedInt32 ∨ self = signedInt64 ∨ self = unboundedInteger

def bits : LibraryScalar → Nat
  | signedInt16 | unsignedInt16 => 16
  | signedInt32 | unsignedInt32 => 32
  | signedInt64 | unsignedInt64 => 64
  | unsignedByte => 8
  | _ => 0

/-- The family of suffixes that the lexer chooses. -/
def suffix : LibraryScalar → List Char
  | signedInt64 => ['L']
  | unsignedInt32 => ['U']
  | unsignedInt64 => ['U', 'L']
  | unboundedInteger => ['N']
  | _ => []

end LibraryScalar

/-- The sign, the radix and the rest of a literal. -/
def literalHead (chars : List Char) : Bool × Nat × List Char :=
  let (negative, chars) := match chars with
    | '-' :: rest => (true, rest)
    | _ => (false, chars)
  match chars with
  | '0' :: c :: rest =>
    if c = 'x' ∨ c = 'X' then (negative, 16, rest)
    else if c = 'b' ∨ c = 'B' then (negative, 2, rest)
    else if c = 'o' ∨ c = 'O' then (negative, 8, rest)
    else (negative, 10, chars)
  | _ => (negative, 10, chars)

def digitOf (radix : Nat) (c : Char) : Option Nat :=
  let code := c.toNat
  let digit :=
    if 48 ≤ code ∧ code ≤ 57 then some (code - 48)
    else if 65 ≤ code ∧ code ≤ 70 then some (code - 55)
    else if 97 ≤ code ∧ code ≤ 102 then some (code - 87)
    else none
  digit.filter (· < radix)

/-! ### The reader for `Int`

`int64` is what an operation of `Int64` makes of an exact result. -/

def int32Digits (int64 : Int → Int) (source : SourceLocation) (radix : Nat) :
    List Char → Int → Nat → Except FrontendDiagnostic (Int × Nat)
  | [], value, digits => .ok (value, digits)
  | c :: chars, value, digits =>
    if c = '_' then int32Digits int64 source radix chars value digits
    else
      match digitOf radix c with
      | none => reject "invalid_literal" "Invalid signed Int32 literal" source
      | some digit =>
        let value := int64 (int64 (value * radix) + digit)
        if value > 4294967295 then
          reject "invalid_literal" "Signed Int32 literal exceeds 32 bits" source
        else int32Digits int64 source radix chars value (digits + 1)

def int32Text (int64 : Int → Int) (source : SourceLocation) (negative : Bool) (radix : Nat)
    (value : Int) (digits : Nat) : Except FrontendDiagnostic String :=
  let decimalLimit := if negative = true then 2147483648 else 2147483647
  if digits = 0 ∨ radix = 10 ∧ value > decimalLimit ∨ negative = true ∧ value > 2147483648 then
    reject "invalid_literal" "Signed Int32 literal is out of range" source
  else
    .ok (toString (if negative = true then int64 (-value)
      else if radix ≠ 10 ∧ value > 2147483647 then int64 (value - 4294967296)
      else value))

def int32Literal (int64 : Int → Int) (raw : String) (source : SourceLocation) :
    Except FrontendDiagnostic String := do
  let (negative, radix, chars) := literalHead raw.toList
  let (value, digits) ← int32Digits int64 source radix chars 0 0
  int32Text int64 source negative radix value digits

def libraryInt32Literal : String → SourceLocation → Except FrontendDiagnostic String :=
  int32Literal fun n => n.bmod (2 ^ 64)

/-! ### The reader for the other integer types -/

def integerDigits (source : SourceLocation) (radix : Nat) :
    List Char → Int → Nat → Except FrontendDiagnostic (Int × Nat)
  | [], value, digits => .ok (value, digits)
  | c :: chars, value, digits =>
    if c = '_' then integerDigits source radix chars value digits
    else
      match digitOf radix c with
      | none => reject "invalid_literal" "Invalid integer digit" source
      | some digit =>
        if digits + 1 > 4096 then
          reject "literal_limit" "Integer literal exceeds the digit budget" source
        else integerDigits source radix chars (value * radix + digit) (digits + 1)

/-- The text of a literal without the suffix of its type. -/
def digitsText (raw : String) (scalar : LibraryScalar) : List Char :=
  if scalar.suffix ≠ [] ∧ scalar.suffix <:+ raw.toList then
    raw.toList.take (raw.toList.length - scalar.suffix.length)
  else raw.toList

def wideText (source : SourceLocation) (scalar : LibraryScalar) (negative : Bool) (radix : Nat)
    (value : Int) (digits : Nat) : Except FrontendDiagnostic String :=
  if digits = 0 ∨ negative = true ∧ scalar.isSigned = false then
    reject "invalid_literal" "Invalid integer literal" source
  else if scalar.bits ≠ 0 then
    let modulus : Int := 2 ^ scalar.bits
    if value > modulus - 1 then
      reject "invalid_literal" "Integer literal exceeds its source width" source
    else if scalar.isSigned = true then
      let signedLimit : Int := 2 ^ (scalar.bits - 1)
      if negative = true then
        if value > signedLimit then
          reject "invalid_literal" "Signed literal is out of range" source
        else .ok (toString (-value))
      else if radix = 10 then
        if value ≥ signedLimit then
          reject "invalid_literal" "Signed literal is out of range" source
        else .ok (toString value)
      else .ok (toString (if value ≥ signedLimit then value - modulus else value))
    else .ok (toString value)
  else .ok (toString (if negative = true then -value else value))

/-- The part of `library_integer_literal` behind the special path for `Int`. -/
def wideLiteral (raw : String) (scalar : LibraryScalar) (source : SourceLocation) :
    Except FrontendDiagnostic String := do
  let (negative, radix, chars) := literalHead (digitsText raw scalar)
  let (value, digits) ← integerDigits source radix chars 0 0
  wideText source scalar negative radix value digits

def libraryIntegerLiteral (raw : String) (scalar : LibraryScalar) (source : SourceLocation) :
    Except FrontendDiagnostic String :=
  if scalar = .signedInt32 then libraryInt32Literal raw source else wideLiteral raw scalar source

/-! ### What a literal means -/

/-- The digits of a text, in which underscores count for nothing. -/
def digitsOf (radix : Nat) : List Char → Option (List Nat)
  | [] => some []
  | c :: chars =>
    if c = '_' then digitsOf radix chars
    else
      match digitOf radix c with
      | none => none
      | some digit => (digitsOf radix chars).map (digit :: ·)

def accumulate (radix : Nat) : Int → List Nat → Int :=
  List.foldl fun value digit => value * radix + digit

structure Literal where
  negative : Bool
  radix : Nat
  digits : List Nat

namespace Literal

def Reads (chars : List Char) (l : Literal) : Prop :=
  (literalHead chars).1 = l.negative ∧ (literalHead chars).2.1 = l.radix ∧
    digitsOf l.radix (literalHead chars).2.2 = some l.digits ∧ l.digits ≠ []

def magnitude (l : Literal) : Int := accumulate l.radix 0 l.digits

/-- The range of a type: only a signed type has negated literals, and all bits of a signed type
can be written in another base than ten.  No bits stand for an unbounded type. -/
def InRange (l : Literal) (signed : Bool) (bits : Nat) : Prop :=
  (l.negative = true → signed = true) ∧
    (bits ≠ 0 → l.magnitude ≤ if signed = false then 2 ^ bits - 1
        else if l.negative = true then 2 ^ (bits - 1)
        else if l.radix = 10 then 2 ^ (bits - 1) - 1
        else 2 ^ bits - 1)

/-- The two's complement of a literal in another base than ten. -/
def value (l : Literal) (signed : Bool) (bits : Nat) : Int :=
  if l.negative = true then -l.magnitude
  else if signed = true ∧ bits ≠ 0 ∧ l.radix ≠ 10 ∧ 2 ^ (bits - 1) ≤ l.magnitude then
    l.magnitude - 2 ^ bits
  else l.magnitude

end Literal

variable {int64 : Int → Int} {source : SourceLocation} {radix : Nat}

lemma digitOf_lt {c : Char} {digit : Nat} (h : digitOf radix c = some digit) : digit < radix := by
  have hlt := (Option.filter_eq_some_iff.mp h).2
  simpa using hlt

variable {value : Int}

lemma le_accumulate (hradix : 0 < radix) (hvalue : 0 ≤ value) (digits : List Nat) :
    value ≤ accumulate radix value digits := by
  induction digits generalizing value with
  | nil => exact le_rfl
  | cons digit digits ih =>
    have hstep : value ≤ value * radix + digit := by nlinarith
    exact hstep.trans (ih (hvalue.trans hstep))

lemma exists_map_cons {α : Type} {a : α} {x : Option (List α)} {p : List α → Prop} :
    (∃ l, x.map (a :: ·) = some l ∧ p l) ↔ ∃ l, x = some l ∧ p (a :: l) := by
  cases x <;> simp

lemma step_bounds (hradix : 0 < radix ∧ radix ≤ 16) (hvalue : 0 ≤ value ∧ value ≤ 4294967295)
    {c : Char} {digit : Nat} (hdigit : digitOf radix c = some digit) :
    (0 ≤ value * radix ∧ value * radix ≤ 4294967295 * 16) ∧ digit < 16 := by
  have hlt := digitOf_lt hdigit
  exact ⟨⟨by nlinarith, by nlinarith⟩, by omega⟩

variable {chars : List Char} {digits : Nat}

/-- No result that the reader for `Int` meets is outside the range of `Int64`. -/
theorem int32Digits_exact (hint64 : ∀ n, -2 ^ 63 ≤ n → n < 2 ^ 63 → int64 n = n)
    (hradix : 0 < radix ∧ radix ≤ 16) (hvalue : 0 ≤ value ∧ value ≤ 4294967295) :
    int32Digits int64 source radix chars value digits =
      int32Digits id source radix chars value digits := by
  induction chars generalizing value digits with
  | nil => rfl
  | cons c chars ih =>
    rw [int32Digits, int32Digits]
    split
    · exact ih hvalue
    split
    · rfl
    rename_i digit hdigit
    obtain ⟨hmul, hdigit⟩ := step_bounds hradix hvalue hdigit
    simp only [id_eq, hint64 (value * radix) (by omega) (by omega),
      hint64 (value * radix + digit) (by omega) (by omega)]
    split
    · rfl
    · exact ih ⟨by omega, by omega⟩

lemma int32Digits_ok (hradix : 0 < radix ∧ radix ≤ 16) (hvalue : 0 ≤ value ∧ value ≤ 4294967295)
    {result : Int × Nat} :
    int32Digits id source radix chars value digits = .ok result ↔
      ∃ more, digitsOf radix chars = some more ∧ result.2 = digits + more.length ∧
        result.1 = accumulate radix value more ∧ result.1 ≤ 4294967295 := by
  induction chars generalizing value digits with
  | nil =>
    constructor
    · rintro ⟨⟩
      exact ⟨[], rfl, rfl, rfl, hvalue.2⟩
    · rintro ⟨more, hmore, hcount, hresult, -⟩
      cases hmore
      exact congrArg _ (Prod.ext hresult.symm hcount.symm)
  | cons c chars ih =>
    rw [int32Digits, digitsOf]
    split
    · exact ih hvalue
    split
    · simp [reject]
    rename_i digit hdigit
    obtain ⟨hmul, -⟩ := step_bounds hradix hvalue hdigit
    simp only [id_eq]
    split
    · -- The value of a prefix is a lower bound of the value of all digits.
      simp only [reject, reduceCtorEq, false_iff]
      rintro ⟨more, hmore, -, hresult, hle⟩
      obtain ⟨more, -, rfl⟩ := Option.map_eq_some_iff.mp hmore
      have hmono := le_accumulate hradix.1 (by omega : 0 ≤ value * radix + digit) more
      have hsame : result.1 = accumulate radix (value * radix + digit) more := hresult
      omega
    · rw [ih ⟨by omega, by omega⟩, exists_map_cons]
      simp only [Nat.add_assoc, Nat.add_comm 1]
      rfl

lemma integerDigits_ok (hdigits : digits ≤ 4096) {result : Int × Nat} :
    integerDigits source radix chars value digits = .ok result ↔
      ∃ more, digitsOf radix chars = some more ∧ result.2 = digits + more.length ∧
        result.1 = accumulate radix value more ∧ result.2 ≤ 4096 := by
  induction chars generalizing value digits with
  | nil =>
    constructor
    · rintro ⟨⟩
      exact ⟨[], rfl, rfl, rfl, hdigits⟩
    · rintro ⟨more, hmore, hcount, hresult, -⟩
      cases hmore
      exact congrArg _ (Prod.ext hresult.symm hcount.symm)
  | cons c chars ih =>
    rw [integerDigits, digitsOf]
    split
    · exact ih hdigits
    split
    · simp [reject]
    split
    · simp only [reject, reduceCtorEq, false_iff]
      rintro ⟨more, hmore, hcount, -, hle⟩
      obtain ⟨more, -, rfl⟩ := Option.map_eq_some_iff.mp hmore
      rw [length_cons] at hcount
      omega
    · rw [ih (by omega), exists_map_cons]
      simp only [Nat.add_assoc, Nat.add_comm 1]
      rfl

lemma literalHead_radix (chars : List Char) :
    0 < (literalHead chars).2.1 ∧ (literalHead chars).2.1 ≤ 16 := by
  unfold literalHead
  split
  split
  · split_ifs <;> simp
  · simp

lemma accumulate_nonneg (hvalue : 0 ≤ value) (digits : List Nat) (hradix : 0 < radix) :
    0 ≤ accumulate radix value digits :=
  hvalue.trans (le_accumulate hradix hvalue digits)

variable {l : Literal} {text : String}

lemma ok_toString_iff {c : Prop} [Decidable c] {value' : Int} {code detail : String} {p : Prop}
    (hp : p ↔ ¬ c) (hvalue : ¬ c → value = value') :
    (if c then reject code detail source else .ok (toString value)) = .ok text ↔
      p ∧ text = toString value' := by
  rw [hp]
  split
  · simp_all [reject]
  · rename_i hc
    rw [hvalue hc, Except.ok.injEq, eq_comm]
    exact (and_iff_right hc).symm

lemma ok_iff {p : Prop} {value' : Int} (hp : p) (hvalue : value = value') :
    (Except.ok (toString value) : Except FrontendDiagnostic String) = .ok text ↔
      p ∧ text = toString value' := by
  rw [and_iff_right hp, Except.ok.injEq, hvalue, eq_comm]

lemma int32Text_ok (hhigh : l.magnitude ≤ 4294967295) :
    int32Text id source l.negative l.radix l.magnitude l.digits.length = .ok text ↔
      (l.digits ≠ [] ∧ l.InRange true 32) ∧ text = toString (l.value true 32) := by
  unfold int32Text Literal.InRange Literal.value
  norm_num
  apply ok_toString_iff
  · cases l.negative <;> by_cases hten : l.radix = 10 <;> simp
    all_goals omega
  · split_ifs <;> omega

variable {scalar : LibraryScalar}

lemma wideText_ok :
    wideText source scalar l.negative l.radix l.magnitude l.digits.length = .ok text ↔
      (l.digits ≠ [] ∧ l.InRange scalar.isSigned scalar.bits) ∧
        text = toString (l.value scalar.isSigned scalar.bits) := by
  unfold wideText Literal.InRange Literal.value
  generalize scalar.isSigned = signed, scalar.bits = bits
  have hmodulus : bits ≠ 0 → (2 : Int) ^ bits = 2 * 2 ^ (bits - 1) := by
    intro hbits
    rw [← pow_succ', Nat.sub_add_cancel (Nat.pos_of_ne_zero hbits)]
  have hlimit : (0 : Int) < 2 ^ (bits - 1) := by positivity
  by_cases hrefused : l.digits.length = 0 ∨ l.negative = true ∧ signed = false
  · rw [if_pos hrefused]
    simp only [reject, reduceCtorEq, false_iff]
    rintro ⟨⟨hne, hsigned, -⟩, -⟩
    rcases hrefused with hnil | ⟨hnegative, hunsigned⟩
    · exact hne (length_eq_zero_iff.mp hnil)
    · exact absurd (hsigned hnegative) (by simp [hunsigned])
  rw [if_neg hrefused]
  obtain ⟨hne, hsigned⟩ : l.digits ≠ [] ∧ (l.negative = true → signed = true) := by
    simpa using hrefused
  rw [and_iff_right hne, and_iff_right hsigned]
  by_cases hbits : bits = 0
  · rw [eq_comm]
    simp [hbits]
  rw [if_pos hbits, imp_iff_right hbits]
  by_cases hlarge : l.magnitude > 2 ^ bits - 1
  · simp only [if_pos hlarge, reject, reduceCtorEq, false_iff]
    rintro ⟨hle, -⟩
    split_ifs at hle <;> omega
  simp only [if_neg hlarge]
  cases signed <;> cases hneg : l.negative
  · exact ok_iff (by simpa using hlarge) (by simp)
  · exact absurd (hsigned hneg) Bool.false_ne_true
  · by_cases hten : l.radix = 10
    · simp only [hten, if_true, if_false, Bool.true_eq_false, Bool.false_eq_true]
      exact ok_toString_iff (by omega) fun _ => by simp
    · simp only [hten, if_false, Bool.false_eq_true]
      exact ok_iff (by omega) (by simp [hbits, hten])
  · simp only [if_true, Bool.true_eq_false, if_false]
    exact ok_toString_iff (by omega) fun _ => rfl

lemma int32Literal_exact (hint64 : ∀ n, -2 ^ 63 ≤ n → n < 2 ^ 63 → int64 n = n) (raw : String) :
    int32Literal int64 raw source = int32Literal id raw source := by
  have hradix := literalHead_radix raw.toList
  unfold int32Literal
  generalize literalHead raw.toList = head at hradix ⊢
  obtain ⟨negative, radix, chars⟩ := head
  simp only [int32Digits_exact hint64 hradix (by decide : (0 : Int) ≤ 0 ∧ (0 : Int) ≤ 4294967295)]
  cases hloop : int32Digits id source radix chars 0 0 with
  | error e => rfl
  | ok result =>
    obtain ⟨value, digits⟩ := result
    obtain ⟨more, -, -, rfl, hle⟩ := (int32Digits_ok hradix (by decide)).mp hloop
    have hlow : 0 ≤ accumulate radix 0 more := accumulate_nonneg (le_refl 0) more hradix.1
    dsimp only at hle
    simp only [bind, Except.bind, int32Text, id_eq, hint64 (-accumulate radix 0 more) (by omega)
      (by omega), hint64 (accumulate radix 0 more - 4294967296) (by omega) (by omega)]

/-- The reader for `Int` accepts what is in range for 32 bits. -/
theorem int32Literal_ok {raw : String} :
    int32Literal id raw source = .ok text ↔
      ∃ l : Literal, l.Reads raw.toList ∧ l.InRange true 32 ∧
        text = toString (l.value true 32) := by
  have hradix := literalHead_radix raw.toList
  unfold int32Literal Literal.Reads
  generalize literalHead raw.toList = head at hradix ⊢
  obtain ⟨negative, radix, chars⟩ := head
  constructor
  · intro h
    obtain ⟨⟨value, digits⟩, hloop, h⟩ := bind_ok h
    obtain ⟨more, hmore, rfl, rfl, hle⟩ := (int32Digits_ok hradix (by decide)).mp hloop
    rw [Nat.zero_add] at h
    obtain ⟨⟨hne, hrange⟩, htext⟩ := (int32Text_ok (l := ⟨negative, radix, more⟩) hle).mp h
    exact ⟨_, ⟨rfl, rfl, hmore, hne⟩, hrange, htext⟩
  · rintro ⟨l, ⟨rfl, rfl, hdigits, hne⟩, hrange, htext⟩
    have hhigh : l.magnitude ≤ 4294967295 := by
      refine (hrange.2 (by decide)).trans ?_
      split_ifs <;> norm_num
    have hloop : int32Digits id source l.radix chars 0 0 = .ok (l.magnitude, 0 + l.digits.length) :=
      (int32Digits_ok hradix (by decide)).mpr ⟨_, hdigits, rfl, rfl, hhigh⟩
    simp only [hloop]
    rw [Nat.zero_add]
    exact (int32Text_ok hhigh).mpr ⟨⟨hne, hrange⟩, htext⟩

lemma wideLiteral_ok {raw : String} :
    wideLiteral raw scalar source = .ok text ↔
      ∃ l : Literal, l.Reads (digitsText raw scalar) ∧ l.digits.length ≤ 4096 ∧
        l.InRange scalar.isSigned scalar.bits ∧
        text = toString (l.value scalar.isSigned scalar.bits) := by
  have hradix := literalHead_radix (digitsText raw scalar)
  unfold wideLiteral Literal.Reads
  generalize literalHead (digitsText raw scalar) = head at hradix ⊢
  obtain ⟨negative, radix, chars⟩ := head
  constructor
  · intro h
    obtain ⟨⟨value, digits⟩, hloop, h⟩ := bind_ok h
    obtain ⟨more, hmore, rfl, rfl, hle⟩ := (integerDigits_ok (Nat.zero_le 4096)).mp hloop
    rw [Nat.zero_add] at h hle
    obtain ⟨⟨hne, hrange⟩, htext⟩ := (wideText_ok (l := ⟨negative, radix, more⟩)).mp h
    exact ⟨_, ⟨rfl, rfl, hmore, hne⟩, hle, hrange, htext⟩
  · rintro ⟨l, ⟨rfl, rfl, hdigits, hne⟩, hle, hrange, htext⟩
    have hloop : integerDigits source l.radix chars 0 0 = .ok (l.magnitude, 0 + l.digits.length) :=
      (integerDigits_ok (Nat.zero_le 4096)).mpr ⟨_, hdigits, rfl, rfl, by simpa using hle⟩
    simp only [hloop]
    rw [Nat.zero_add]
    exact wideText_ok.mpr ⟨⟨hne, hrange⟩, htext⟩

lemma libraryInt32Literal_eq (raw : String) (source : SourceLocation) :
    libraryInt32Literal raw source = int32Literal id raw source := by
  refine int32Literal_exact (fun n hlow hhigh => ?_) raw
  rw [Int.bmod_def]
  omega

lemma Literal.Reads.unique {l' : Literal} (h : l.Reads chars) (h' : l'.Reads chars) : l = l' := by
  obtain ⟨hneg, hradix, hdigits, -⟩ := h
  obtain ⟨hneg', hradix', hdigits', -⟩ := h'
  cases l
  cases l'
  simp_all

/-- A literal is accepted when its type has room for it, and a literal of another type than
`Int` must keep to the budget of digits.  No operation of the reader for `Int` leaves the range
of `Int64`, and within the budget the reader for the other types agrees with it. -/
theorem libraryIntegerLiteral_ok (raw : String) (scalar : LibraryScalar) (source : SourceLocation) :
    (∀ text, libraryIntegerLiteral raw scalar source = .ok text ↔
      ∃ l : Literal, l.Reads (digitsText raw scalar) ∧
        (scalar = .signedInt32 ∨ l.digits.length ≤ 4096) ∧
        l.InRange scalar.isSigned scalar.bits ∧
        text = toString (l.value scalar.isSigned scalar.bits)) ∧
      (∀ int64 : Int → Int, (∀ n, -2 ^ 63 ≤ n → n < 2 ^ 63 → int64 n = n) →
        int32Literal int64 raw source = libraryInt32Literal raw source) ∧
      ∀ text, wideLiteral raw .signedInt32 source = .ok text ↔
        libraryInt32Literal raw source = .ok text ∧
          ∃ l : Literal, l.Reads raw.toList ∧ l.digits.length ≤ 4096 := by
  refine ⟨fun text => ?_, fun int64 hint64 => ?_, fun text => ?_⟩
  · unfold libraryIntegerLiteral
    split
    · rename_i hscalar
      subst hscalar
      rw [libraryInt32Literal_eq, int32Literal_ok]
      simp [digitsText, LibraryScalar.suffix, LibraryScalar.isSigned, LibraryScalar.bits]
    · rename_i hscalar
      simp [wideLiteral_ok, hscalar]
  · rw [int32Literal_exact hint64, libraryInt32Literal_eq]
  · rw [wideLiteral_ok, libraryInt32Literal_eq, int32Literal_ok]
    constructor
    · rintro ⟨l, hreads, hle, hrange, htext⟩
      exact ⟨⟨l, hreads, hrange, htext⟩, l, hreads, hle⟩
    · rintro ⟨⟨l, hreads, hrange, htext⟩, l', hreads', hle⟩
      cases hreads.unique hreads'
      exact ⟨l, hreads, hle, hrange, htext⟩

def zeros (n : Nat) : String := String.ofList (List.replicate n '0')

lemma reads_zeros (n : Nat) : (⟨false, 10, replicate (n + 2) 0⟩ : Literal).Reads
    (zeros (n + 2)).toList := by
  have hdigits (k : Nat) : digitsOf 10 (replicate k '0') = some (replicate k 0) := by
    induction k with
    | zero => rfl
    | succ k ih =>
      rw [replicate_succ, digitsOf, ih]
      rfl
  rw [zeros, String.toList_ofList]
  exact ⟨rfl, rfl, hdigits _, by simp⟩

lemma accumulate_zeros (n : Nat) : accumulate 10 0 (replicate n 0) = 0 := by
  induction n with
  | zero => rfl
  | succ n ih => simpa [replicate_succ, accumulate] using ih

lemma zeros_disagree {n : Nat} (hn : 4096 < n + 2) :
    libraryInt32Literal (zeros (n + 2)) source = .ok "0" ∧
      wideLiteral (zeros (n + 2)) .signedInt32 source ≠ .ok "0" := by
  have hreads := reads_zeros n
  have hzero : (⟨false, 10, replicate (n + 2) 0⟩ : Literal).magnitude = 0 :=
    accumulate_zeros (n + 2)
  constructor
  · rw [libraryInt32Literal_eq, int32Literal_ok]
    refine ⟨_, hreads, ?_, ?_⟩
    · rw [Literal.InRange, hzero]
      norm_num
    · rw [Literal.value, hzero]
      rfl
  · intro h
    obtain ⟨l, hreads', hle, -⟩ := wideLiteral_ok.mp h
    rw [hreads'.unique hreads, length_replicate] at hle
    omega

/-- More zeros than the budget has digits. -/
theorem zeros_not_agree : ¬ ∀ raw source text,
    wideLiteral raw .signedInt32 source = .ok text ↔ libraryInt32Literal raw source = .ok text := by
  intro h
  obtain ⟨hint, hwide⟩ := @zeros_disagree ⟨1, 1, 1, 1⟩ 4095 (by decide)
  exact hwide ((h _ _ _).mpr hint)

end Morphir.Frontend
