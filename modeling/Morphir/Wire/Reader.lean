import Morphir.Library.Budget
import Morphir.Library.Fallible
import Morphir.Library.OrdMap

/-!
# JSON of the wire

JSON values with the spelling of their numbers, and the tokens of strings and
scalars.  Texts are UTF-16 units, as in the source; the value of a number is
left open.
-/

namespace Morphir.Wire

abbrev Units := List UInt16

def charUnits (c : Char) : Units :=
  if c.toNat < 0x10000 then [c.toNat.toUInt16]
  else [(0xD800 + (c.toNat - 0x10000) / 0x400).toUInt16,
    (0xDC00 + (c.toNat - 0x10000) % 0x400).toUInt16]

def units (text : String) : Units := text.toList.flatMap charUnits

/-- `Json`, with the fields of an object in their order. -/
inductive Json (F : Type) : Type
  | null
  | bool (value : Bool)
  | number (value : F) (repr : Option (List Char))
  | string (text : Units)
  | array (items : List (Json F))
  | object (fields : List (Units × Json F))

variable {F : Type}

namespace Json

mutual

def depth : Json F → Nat
  | .array items => depthItems items
  | .object fields => depthFields fields
  | _ => 0

def depthItems : List (Json F) → Nat
  | [] => 0
  | item :: items => max (item.depth + 1) (depthItems items)

def depthFields : List (Units × Json F) → Nat
  | [] => 0
  | (_, value) :: fields => max (value.depth + 1) (depthFields fields)

end

mutual

def count : Json F → Nat
  | .array items => countItems items + 1
  | .object fields => countFields fields + 1
  | _ => 1

def countItems : List (Json F) → Nat
  | [] => 0
  | item :: items => item.count + countItems items

def countFields : List (Units × Json F) → Nat
  | [] => 0
  | (_, value) :: fields => value.count + countFields fields

end

mutual

/-- The lengths of the keys and strings of a tree, in the order of the text. -/
def lengths : Json F → List Nat
  | .string text => [text.length]
  | .array items => lengthsItems items
  | .object fields => lengthsFields fields
  | _ => []

def lengthsItems : List (Json F) → List Nat
  | [] => []
  | item :: items => item.lengths ++ lengthsItems items

def lengthsFields : List (Units × Json F) → List Nat
  | [] => []
  | (key, value) :: fields => key.length :: (value.lengths ++ lengthsFields fields)

end

mutual

def NoRepeats : Json F → Prop
  | .array items => NoRepeatsItems items
  | .object fields => (fields.map Prod.fst).Nodup ∧ NoRepeatsFields fields
  | _ => True

def NoRepeatsItems : List (Json F) → Prop
  | [] => True
  | item :: items => item.NoRepeats ∧ NoRepeatsItems items

def NoRepeatsFields : List (Units × Json F) → Prop
  | [] => True
  | (_, value) :: fields => value.NoRepeats ∧ NoRepeatsFields fields

end

end Json

def hexValue (c : Char) : Option Nat :=
  if '0' ≤ c ∧ c ≤ '9' then some (c.toNat - '0'.toNat)
  else if 'a' ≤ c ∧ c ≤ 'f' then some (c.toNat - 'a'.toNat + 10)
  else if 'A' ≤ c ∧ c ≤ 'F' then some (c.toNat - 'A'.toNat + 10)
  else none

def shortEscape : Char → Option UInt16
  | '"' => some 0x22
  | '\\' => some 0x5C
  | '/' => some 0x2F
  | 'b' => some 0x08
  | 'f' => some 0x0C
  | 'n' => some 0x0A
  | 'r' => some 0x0D
  | 't' => some 0x09
  | _ => none

def hexUnit (a b c d : Char) : Option UInt16 := do
  let a ← hexValue a
  let b ← hexValue b
  let c ← hexValue c
  let d ← hexValue d
  some (((a * 16 + b) * 16 + c) * 16 + d).toUInt16

def stringBody : List Char → Option Units
  | [] => none
  | ['"'] => some []
  | '\\' :: 'u' :: a :: b :: c :: d :: rest => do
    let unit ← hexUnit a b c d
    let tail ← stringBody rest
    some (unit :: tail)
  | '\\' :: c :: rest => do
    let unit ← shortEscape c
    let tail ← stringBody rest
    some (unit :: tail)
  | c :: rest =>
    if c = '"' ∨ c = '\\' ∨ c.toNat < 0x20 then none
    else (stringBody rest).map (charUnits c ++ ·)

def stringToken : List Char → Option Units
  | '"' :: body => stringBody body
  | _ => none

def isExponent : List Char → Bool
  | [] => true
  | c :: rest =>
    (c = 'e' || c = 'E') &&
      match rest with
      | '+' :: digits | '-' :: digits => digits ≠ [] && digits.all Char.isDigit
      | digits => digits ≠ [] && digits.all Char.isDigit

def isFraction : List Char → Bool
  | '.' :: rest => rest.takeWhile Char.isDigit ≠ [] && isExponent (rest.dropWhile Char.isDigit)
  | rest => isExponent rest

/-- A whole number without leading zeros, then its fraction and exponent. -/
def isMagnitude (text : List Char) : Bool :=
  text.takeWhile Char.isDigit ≠ [] &&
    (text.head? ≠ some '0' || (text.takeWhile Char.isDigit).length = 1) &&
      isFraction (text.dropWhile Char.isDigit)

def isNumber : List Char → Bool
  | '-' :: text => isMagnitude text
  | text => isMagnitude text

def scalarToken (number : List Char → Json F) (text : List Char) : Option (Json F) :=
  if text = "null".toList then some .null
  else if text = "true".toList then some (.bool true)
  else if text = "false".toList then some (.bool false)
  else if isNumber text then some (number text)
  else none

end Morphir.Wire

/-!
## The JSON reader

The reader cuts the tokens of strings and scalars and gives each to a JSON library.
It charges its budgets while it reads.  Its loops are given fuel.
-/

namespace Morphir.Wire

open Fallible

variable {F : Type}

/-- `CodecError`, or a loop that has no fuel left. -/
inductive Failure
  | invalid (code detail : Units)
  | outOfFuel
  deriving DecidableEq

def invalid (code detail : String) : Failure := .invalid (units code) (units detail)

def isSpace (c : Char) : Bool := c = ' ' || c = '\n' || c = '\r' || c = '\t'

def isDelimiter (c : Char) : Bool := c = ',' || c = ']' || c = '}' || isSpace c

/-- The characters from the index on, and what is left of the budgets. -/
structure Reader where
  chars : List Char
  index : Nat
  maxDepth : Int
  nodes : Option Int
  stringUnits : Option Int

namespace Reader

def advance (self : Reader) (n : Nat) : Reader :=
  { self with chars := self.chars.drop n, index := self.index + n }

def space (self : Reader) : Reader := self.advance (self.chars.takeWhile isSpace).length

def next (self : Reader) (c : Char) : Bool := self.chars.head? = some c

def take (self : Reader) (expected : Char) : Except Failure Reader :=
  let self := self.space
  if self.next expected then .ok (self.advance 1)
  else .error (invalid "invalid_json"
    ("Expected " ++ String.singleton expected ++ " at character " ++ toString self.index))

def closing : List Char → Option Nat
  | [] => none
  | '"' :: _ => some 1
  | '\\' :: _ :: rest => (closing rest).map (· + 2)
  | _ :: rest => (closing rest).map (· + 1)

def chargeUnits (self : Reader) (value : Units) : Except Failure (Units × Reader) :=
  match Budget.charge self.stringUnits value.length with
  | some left => .ok (value, { self with stringUnits := left })
  | none => .error (invalid "json_limit" "Decoded string budget exceeded")

variable (parse : List Char → Option (Json F))

def string (self : Reader) : Except Failure (Units × Reader) := do
  let opened ← self.take '"'
  match closing opened.chars with
  | none => throw (invalid "invalid_json" "Unterminated string")
  | some n =>
    match parse ('"' :: opened.chars.take n) with
    | none => throw (invalid "invalid_json" "Invalid JSON string")
    | some (.string value) => (opened.advance n).chargeUnits value
    | some _ => throw (invalid "invalid_json" "Expected string")

def checkDepth (self : Reader) (depth : Int) : Except Failure Unit :=
  refuse (self.maxDepth < depth)
    (invalid (if self.nodes = none then "invalid_json" else "json_limit") "Depth budget exceeded")

def chargeNode (self : Reader) : Except Failure Reader :=
  match Budget.charge self.nodes 1 with
  | some left => .ok { self with nodes := left }
  | none => .error (invalid "json_limit" "Node budget exceeded")

def scalar (self : Reader) : Except Failure (Json F × Reader) :=
  let text := self.chars.takeWhile fun c => !isDelimiter c
  match parse text with
  | none =>
    .error (.invalid (units "invalid_json") (units "Invalid scalar: " ++ text.flatMap charUnits))
  | some (.number number _) => .ok (.number number (some text), self.advance text.length)
  | some .null => .ok (.null, self.advance text.length)
  | some (.bool value) => .ok (.bool value, self.advance text.length)
  | some _ => .error (invalid "invalid_json" "Invalid scalar")

def checkMember (fields : List (Units × Json F)) (depth : Int) (key : Units) :
    Except Failure Unit :=
  refuse (OrdMap.contains fields key = true)
    (.invalid (if key = units "formatVersion" ∧ depth = 0 then units "duplicate_format_version"
      else units "duplicate_member") key)

mutual

def value : Nat → Int → Reader → Except Failure (Json F × Reader)
  | 0, _, _ => .error .outOfFuel
  | fuel + 1, depth, self => do
    let self := self.space
    self.checkDepth depth
    let self ← self.chargeNode
    match self.chars with
    | [] => throw (invalid "invalid_json" "Unexpected end of input")
    | '"' :: _ => do
      let (text, self) ← self.string parse
      pure (.string text, self)
    | '\x7b' :: _ =>
      let self := (self.advance 1).space
      if self.next '\x7d' then pure (.object [], self.advance 1)
      else members fuel depth [] self
    | '[' :: _ =>
      let self := (self.advance 1).space
      if self.next ']' then pure (.array [], self.advance 1)
      else items fuel depth [] self
    | _ => self.scalar parse

def items : Nat → Int → List (Json F) → Reader → Except Failure (Json F × Reader)
  | 0, _, _, _ => .error .outOfFuel
  | fuel + 1, depth, done, self => do
    let (item, self) ← value fuel (depth + 1) self
    let self := self.space
    if self.next ']' then pure (.array (done ++ [item]), self.advance 1)
    else do
      let self ← self.take ','
      items fuel depth (done ++ [item]) self

def members : Nat → Int → List (Units × Json F) → Reader → Except Failure (Json F × Reader)
  | 0, _, _, _ => .error .outOfFuel
  | fuel + 1, depth, done, self => do
    let (key, self) ← self.string parse
    checkMember done depth key
    let self ← self.take ':'
    let (item, self) ← value fuel (depth + 1) self
    let self := self.space
    if self.next '\x7d' then pure (.object (done ++ [(key, item)]), self.advance 1)
    else do
      let self ← self.take ','
      members fuel depth (done ++ [(key, item)]) self

end

end Reader

variable (parse : List Char → Option (Json F))

/-- `parse_with_limits`, with fuel for the loops. -/
def parseWithLimits (fuel : Nat) (text : List Char) (maxDepth : Int)
    (nodes stringUnits : Option Int) : Except Failure (Json F) := do
  let (result, reader) ← Reader.value parse fuel 0 ⟨text, 0, maxDepth, nodes, stringUnits⟩
  refuse (reader.space.chars ≠ []) (invalid "invalid_json" "Trailing input")
  pure result

/-- The fuel that a text needs: each character is met by two calls at most. -/
def enough (text : List Char) : Nat := 2 * text.length + 1

def parseText (text : List Char) : Except Failure (Json F) :=
  parseWithLimits parse (enough text) text 512 none none

def parseBounded (text : List Char) (maxDepth maxNodes maxStringUnits : Int) :
    Except Failure (Json F) :=
  parseWithLimits parse (enough text) text maxDepth (some maxNodes) (some maxStringUnits)

end Morphir.Wire

/-!
## The JSON grammar

Derivations relate a text to what is left of it behind a value.
-/

namespace Morphir.Wire

variable {F : Type}

/-- What a JSON library does with the tokens that the reader gives it: a string token
gives its units, a scalar token its value, and other texts are refused. -/
structure Decodes (parse : List Char → Option (Json F)) (number : List Char → F)
    (repr : List Char → Option (List Char)) : Prop where
  string : ∀ body, parse ('"' :: body) = (stringToken ('"' :: body)).map .string
  scalar : ∀ text, text.all (fun c => !isDelimiter c) = true →
    text.head? ≠ some '"' → text.head? ≠ some '\x7b' → text.head? ≠ some '[' →
      parse text = scalarToken (fun token => .number (number token) (repr token)) text

namespace Grammar

inductive Space : List Char → List Char → Prop
  | nil (text : List Char) : Space text text
  | cons {c : Char} {text rest : List Char} (hc : isSpace c = true) (h : Space text rest) :
      Space (c :: text) rest

variable (number : List Char → F)

def spelled (token : List Char) : Json F := .number (number token) (some token)

mutual

inductive Value : List Char → Json F → List Char → Prop
  | string {token rest : List Char} {text : Units} (h : stringToken token = some text) :
      Value (token ++ rest) (.string text) rest
  | scalar {token rest : List Char} {value : Json F}
      (h : scalarToken (spelled number) token = some value) : Value (token ++ rest) value rest
  | emptyArray {text rest : List Char} (h : Space text (']' :: rest)) :
      Value ('[' :: text) (.array []) rest
  | array {text rest : List Char} {items : List (Json F)} (h : Items text items rest) :
      Value ('[' :: text) (.array items) rest
  | emptyObject {text rest : List Char} (h : Space text ('\x7d' :: rest)) :
      Value ('\x7b' :: text) (.object []) rest
  | object {text rest : List Char} {fields : List (Units × Json F)} (h : Members text fields rest) :
      Value ('\x7b' :: text) (.object fields) rest

inductive Items : List Char → List (Json F) → List Char → Prop
  | last {text start stop rest : List Char} {item : Json F} (hstart : Space text start)
      (hitem : Value start item stop) (hstop : Space stop (']' :: rest)) : Items text [item] rest
  | cons {text start stop next rest : List Char} {item : Json F} {items : List (Json F)}
      (hstart : Space text start) (hitem : Value start item stop) (hstop : Space stop (',' :: next))
      (hitems : Items next items rest) : Items text (item :: items) rest

inductive Members : List Char → List (Units × Json F) → List Char → Prop
  | last {text token behind colon start stop rest : List Char} {key : Units} {item : Json F}
      (hkey : Space text (token ++ behind)) (htoken : stringToken token = some key)
      (hcolon : Space behind (':' :: colon)) (hstart : Space colon start)
      (hitem : Value start item stop) (hstop : Space stop ('\x7d' :: rest)) :
      Members text [(key, item)] rest
  | cons {text token behind colon start stop next rest : List Char} {key : Units} {item : Json F}
      {fields : List (Units × Json F)}
      (hkey : Space text (token ++ behind)) (htoken : stringToken token = some key)
      (hcolon : Space behind (':' :: colon)) (hstart : Space colon start)
      (hitem : Value start item stop) (hstop : Space stop (',' :: next))
      (hfields : Members next fields rest) : Members text ((key, item) :: fields) rest

end

def Document (text : List Char) (value : Json F) : Prop :=
  ∃ start stop, Space text start ∧ Value number start value stop ∧ Space stop []

end Grammar

end Morphir.Wire
