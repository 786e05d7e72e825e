import Mathlib

/-!
# Numbers and data of the Scheme reader

Exact integers, normalized rationals and finite inexact reals.  The reals are
the double-precision numbers of the host: their printer and the number syntax
of its JSON parser are given by `Doubles`.
-/

namespace Morphir.Scheme

class Doubles (F : Type) where
  isNegativeZero : F → Bool
  isFinite : F → Bool
  toText : F → String
  jsonNumber : String → Option F

def isDoubleChar (c : Char) : Bool :=
  c.isDigit || c = '-' || c = '+' || c = '.' || c = 'e' || c = 'E'

def hasPointOrExponent (text : List Char) : Bool := text.any fun c => c = '.' || c = 'e' || c = 'E'

/-- What the printer of doubles and the JSON number syntax promise: a printed
finite number starts with a digit or a minus sign, has only the characters of
a decimal, and reads back, also with the point and zero that the Scheme
printer adds to an integral one. -/
class LawfulDoubles (F : Type) [Doubles F] : Prop where
  first : ∀ v : F, Doubles.isFinite v = true → ∃ c cs, (Doubles.toText v).toList = c :: cs ∧
    (c.isDigit = true ∨ c = '-')
  chars : ∀ v : F, Doubles.isFinite v = true →
    ∀ c ∈ (Doubles.toText v).toList, isDoubleChar c = true
  reads : ∀ v : F, Doubles.isFinite v = true → Doubles.isNegativeZero v = false →
    hasPointOrExponent (Doubles.toText v).toList = true →
    Doubles.jsonNumber (Doubles.toText v) = some v
  readsIntegral : ∀ v : F, Doubles.isFinite v = true → Doubles.isNegativeZero v = false →
    hasPointOrExponent (Doubles.toText v).toList = false →
    Doubles.jsonNumber (Doubles.toText v ++ ".0") = some v
  negativeZero : ∀ v : F, Doubles.isNegativeZero v = true →
    Doubles.isFinite v = true ∧ Doubles.jsonNumber "-0.0" = some v

inductive Number (F : Type)
  | integer (value : Int)
  | rational (numerator denominator : Int)
  | real (value : F)
  deriving DecidableEq

inductive Datum (F : Type)
  | number (value : Number F)
  | boolean (value : Bool)
  | character (value : Char)
  | text (value : String)
  | symbol (value : String)
  | sequence (items : List (Datum F)) (tail : Option (Datum F))
  | vector (items : List (Datum F))

/-- The errors of the reader.  `outOfFuel` belongs to the model: a run with
the fuel of `parseProgram` never ends with it. -/
inductive SchemeError
  | syntaxError (message : String) (index : Nat)
  | unsupported (message : String)
  | invalid (message : String)
  | outOfFuel
  deriving DecidableEq

def integerToken (text : List Char) : Bool :=
  let digits := match text with
    | '-' :: cs => cs
    | '+' :: cs => cs
    | cs => cs
  !digits.isEmpty && digits.all Char.isDigit

def bigint : List Char → Int
  | '-' :: cs => -(Nat.ofDigitChars 10 cs 0)
  | '+' :: cs => Nat.ofDigitChars 10 cs 0
  | cs => Nat.ofDigitChars 10 cs 0

variable {F : Type}

def rational (numerator denominator : Int) : Except SchemeError (Number F) :=
  if denominator = 0 then .error (.invalid "Division by zero")
  else
    let a : Int := Int.gcd numerator denominator
    let divisor := if denominator < 0 then -a else a
    let n := numerator.tdiv divisor
    let d := denominator.tdiv divisor
    if d = 1 then .ok (.integer n) else .ok (.rational n d)

def splitSlash : List Char → List (List Char)
  | [] => [[]]
  | c :: cs =>
    if c = '/' then [] :: splitSlash cs
    else
      match splitSlash cs with
      | part :: parts => (c :: part) :: parts
      | [] => [[c]]

def unsigned : List Char → List Char
  | '+' :: cs => cs
  | cs => cs

variable [Doubles F]

def parseReal (text : List Char) : Except SchemeError (Option (Number F)) :=
  if hasPointOrExponent text then
    match Doubles.jsonNumber (F := F) (String.ofList (unsigned text)) with
    | none => .ok none
    | some value =>
      if Doubles.isFinite value then .ok (some (.real value))
      else .error (.invalid "Nonfinite number")
  else .ok none

def parseNumber (text : List Char) : Except SchemeError (Option (Number F)) :=
  if integerToken text then .ok (some (.integer (bigint text)))
  else
    match splitSlash text with
    | [numerator, denominator] =>
      if integerToken numerator && integerToken denominator then
        (rational (bigint numerator) (bigint denominator)).map some
      else parseReal text
    | _ => parseReal text

def Number.toText : Number F → List Char
  | .integer value => (toString value).toList
  | .rational n d => (toString n).toList ++ '/' :: (toString d).toList
  | .real value =>
    if Doubles.isNegativeZero value then "-0.0".toList
    else
      let text := (Doubles.toText value).toList
      if hasPointOrExponent text then text else text ++ ".0".toList

def delimiter (c : Char) : Bool :=
  c = ' ' || c = '\n' || c = '\r' || c = '\t' || c = '(' || c = ')' || c = '[' || c = ']' ||
    c = ';' || c = '`' || c = ',' || c = '\'' || c = '"'

def escapedChar (terminator c : Char) : List Char :=
  if c = terminator ∨ c = '\\' then ['\\', c]
  else if c = '\n' then ['\\', 'n']
  else if c = '\r' then ['\\', 'r']
  else if c = '\t' then ['\\', 't']
  else [c]

def escaped (text : List Char) (terminator : Char) : List Char :=
  terminator :: (text.flatMap (escapedChar terminator) ++ [terminator])

/-- A text that may be a symbol without bars, were it not for numbers. -/
def bareText (text : List Char) : Bool :=
  !text.isEmpty && !(text.any fun c => delimiter c || c = '|' || c = '\\') && text != ['.'] &&
    text.head? != some '#' && !(text.head?.any Char.isDigit)

/-- The number that a text spells; an error of the number parser counts as
none. -/
def numberOrNone (text : List Char) : Option (Number F) :=
  match parseNumber text with
  | .ok number => number
  | .error _ => none

variable (F) in
def symbolText (text : List Char) : List Char :=
  if bareText text && (numberOrNone (F := F) text).isNone then text else escaped text '|'

def characterText (c : Char) : List Char :=
  if c = ' ' then "space".toList
  else if c = '\n' then "newline".toList
  else if c = '\t' then "tab".toList
  else if c = '\r' then "return".toList
  else [c]

namespace Datum

mutual

def toSource : Datum F → List Char
  | .number n => n.toText
  | .boolean true => ['#', 't']
  | .boolean false => ['#', 'f']
  | .character c => '#' :: '\\' :: characterText c
  | .text s => escaped s.toList '"'
  | .symbol s => symbolText F s.toList
  | .sequence items tail => '(' :: (joined items ++ tailSource tail ++ [')'])
  | .vector items => '#' :: '(' :: (joined items ++ [')'])
termination_by structural d => d

def joined : List (Datum F) → List Char
  | [] => []
  | d :: ds => d.toSource ++ following ds
termination_by structural ds => ds

def following : List (Datum F) → List Char
  | [] => []
  | d :: ds => ' ' :: (d.toSource ++ following ds)
termination_by structural ds => ds

def tailSource : Option (Datum F) → List Char
  | none => []
  | some d => ' ' :: '.' :: ' ' :: d.toSource
termination_by structural d => d

end

end Datum

end Morphir.Scheme
