import Morphir.IR.Names
import Morphir.Library.OrdMap

/-!
# JSON messages

A number carries its value and the text that `stringify` prints for it; the
value is absent for a number that is not finite.  An object is an
insertion-ordered map.
-/

namespace Morphir.Host

open OrdMap

inductive Json
  | null
  | bool (value : Bool)
  | number (value : Option Rat) (text : String)
  | string (text : String)
  | array (items : List Json)
  | object (fields : List (String × Json))

namespace Json

def ofInt (value : Int) : Json := .number (some value) (toString value)

def hexDigit (value : Nat) : Char :=
  if value < 10 then Char.ofNat (48 + value) else Char.ofNat (87 + value)

def escapeChar (c : Char) : String :=
  if c = '"' then "\\\""
  else if c = '\\' then "\\\\"
  else if c = '\n' then "\\n"
  else if c = '\r' then "\\r"
  else if c = '\t' then "\\t"
  else if c.toNat = 8 then "\\b"
  else if c.toNat = 12 then "\\f"
  else if c.toNat < 32 then
    "\\u00" ++ String.ofList [hexDigit (c.toNat / 16), hexDigit (c.toNat % 16)]
  else String.singleton c

def quoted (text : String) : String := "\"" ++ String.join (text.toList.map escapeChar) ++ "\""

mutual

def stringify : Json → String
  | .null => "null"
  | .bool true => "true"
  | .bool false => "false"
  | .number _ text => text
  | .string text => quoted text
  | .array items => "[" ++ String.intercalate "," (stringifyItems items) ++ "]"
  | .object fields => "\x7b" ++ String.intercalate "," (stringifyFields fields) ++ "\x7d"

def stringifyItems : List Json → List String
  | [] => []
  | item :: items => item.stringify :: stringifyItems items

def stringifyFields : List (String × Json) → List String
  | [] => []
  | (name, value) :: fields => (quoted name ++ ":" ++ value.stringify) :: stringifyFields fields

end

end Json

open Json (ofInt)

def fieldAt (value : Json) : List String → Option Json
  | [] => some value
  | name :: rest =>
    match value with
    | .object fields => (get? fields name).bind (fieldAt · rest)
    | _ => none

def integer : Option Json → Option Int
  | some (.number (some value) _) =>
    if (value.floor : Rat) = value ∧ -2147483648 ≤ value ∧ value ≤ 2147483647 then
      some value.floor
    else none
  | _ => none

def utf8Length (text : String) : Nat := text.utf8ByteSize

def utf16Length (text : String) : Nat := (codeUnits text).length

/-- One whole message and its size in bytes, as encoded or as read.  A
message is always a JSON object. -/
structure Message where
  body : List (String × Json)
  bytes : Nat

namespace Message

/-- `Message::new`: the size is that of the encoded text. -/
def new (body : List (String × Json)) : Message := ⟨body, utf8Length (Json.object body).stringify⟩

def json (message : Message) : Json := .object message.body

def size (message : Message) : Nat := message.bytes

def method (message : Message) : Option String :=
  match get? message.body "method" with
  | some (.string text) => some text
  | _ => none

def id (message : Message) : Option Int :=
  match get? message.body "id" with
  | some (.number (some value) _) => some value.floor
  | _ => none

end Message

def requestMessage (id : Int) (methodName : String) (params : List (String × Json)) : Message :=
  .new [("jsonrpc", .string "2.0"), ("id", ofInt id), ("method", .string methodName),
    ("params", .object params)]

def notificationMessage (methodName : String) : Message :=
  .new [("jsonrpc", .string "2.0"), ("method", .string methodName)]

@[simp] lemma method_requestMessage (id : Int) (methodName : String) (params : List (String × Json))
    : (requestMessage id methodName params).method = some methodName := by
  simp [requestMessage, Message.new, Message.method, get?]

@[simp] lemma id_requestMessage (id : Int) (methodName : String) (params : List (String × Json)) :
    (requestMessage id methodName params).id = some id := by
  simp [requestMessage, Message.new, Message.id, get?, ofInt]

variable (methodName : String)

@[simp] lemma method_notificationMessage :
    (notificationMessage methodName).method = some methodName := by
  simp [notificationMessage, Message.new, Message.method, get?]

@[simp] lemma id_notificationMessage :
    (notificationMessage methodName).id = none := by
  simp [notificationMessage, Message.new, Message.id, get?]

end Morphir.Host
