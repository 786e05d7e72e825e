import Morphir.IR.Names
import Morphir.Library.CodeUnits
import Morphir.Library.Fallible
import Morphir.Scheme.Datum

/-!
# Runtime values and their printer

The payloads that no printer looks into, closures, functions of the host and
documents, are of a type that is left open.
-/

namespace Morphir.Scheme

/-- A runtime value.  The fields of a record are an insertion-ordered map. -/
inductive Value (F O : Type)
  | number (value : Number F)
  | boolean (value : Bool)
  | character (value : Char)
  | text (value : String)
  | symbol (value : String)
  | nil
  | pair (head tail : Value F O)
  | vector (items : List (Value F O))
  | record (fields : List (String × Value F O))
  | tagged (tag : String) (items : List (Value F O))
  | unit
  | closure (payload : O)
  | native (name : String)
  | nativeFunction (payload : O)
  | ir (payload : O)
  | irType (payload : O)
  | irFile (payload : O)

inductive PrintError
  | limit (message : String)
  | invalid (message : String)
  deriving DecidableEq

variable {F O : Type}

namespace Value

lemma inductionOn {P : Value F O → Prop} (number : ∀ value, P (.number value))
    (boolean : ∀ value, P (.boolean value)) (character : ∀ value, P (.character value))
    (text : ∀ value, P (.text value)) (symbol : ∀ value, P (.symbol value)) (nil : P .nil)
    (pair : ∀ head tail, P head → P tail → P (.pair head tail))
    (vector : ∀ items, (∀ v ∈ items, P v) → P (.vector items))
    (record : ∀ fields, (∀ e ∈ fields, P e.2) → P (.record fields))
    (tagged : ∀ tag items, (∀ v ∈ items, P v) → P (.tagged tag items)) (unit : P .unit)
    (closure : ∀ payload, P (.closure payload)) (native : ∀ name, P (.native name))
    (nativeFunction : ∀ payload, P (.nativeFunction payload)) (ir : ∀ payload, P (.ir payload))
    (irType : ∀ payload, P (.irType payload)) (irFile : ∀ payload, P (.irFile payload))
    (v : Value F O) : P v := by
  refine Value.rec (motive_4 := fun e => P e.2)
    number boolean character text symbol nil pair vector record tagged unit closure native
    nativeFunction ir irType irFile ?_ ?_ ?_ ?_ ?_ v
  · exact fun v hv => absurd hv List.not_mem_nil
  · intro head tail hh htl
    exact List.forall_mem_cons.mpr ⟨hh, htl⟩
  · exact fun e he => absurd he List.not_mem_nil
  · intro head tail hh htl
    exact List.forall_mem_cons.mpr ⟨hh, htl⟩
  · intro name v hv
    exact hv

variable [Doubles F]

mutual

def render (depth : Nat) (v : Value F O) : Except PrintError (List Char) :=
  if 256 < depth then .error (.limit "value printing depth") else v.renderShape depth
termination_by (sizeOf v, 1)

def renderShape (depth : Nat) (v : Value F O) : Except PrintError (List Char) :=
  match v with
  | .number n => .ok n.toText
  | .boolean b => .ok (if b then ['#', 't'] else ['#', 'f'])
  | .character c => .ok (['#', '\\'] ++ characterText c)
  | .text s => .ok (escaped s.toList '"')
  | .symbol s => .ok (symbolText F s.toList)
  | .nil => .ok ['(', ')']
  | .pair head tail => do
    let item ← head.render (depth + 1)
    let rest ← tail.renderRest depth
    pure (['('] ++ (item ++ (rest ++ [')'])))
  | .vector items => do
    let texts ← renderItems (depth + 1) items
    pure ("#(".toList ++ ([' '].intercalate texts ++ [')']))
  | .record fields => do
    let texts ← renderFields (depth + 1) fields
    pure ("#<record ".toList ++ ([' '].intercalate texts ++ ['>']))
  | .tagged tag items => do
    let texts ← renderItems (depth + 1) items
    pure ("#<".toList ++ (tag.toList ++ ([' '] ++ ([' '].intercalate texts ++ ['>']))))
  | .unit => .ok "#<unit>".toList
  | .closure _ | .native _ | .nativeFunction _ => .ok "#<procedure>".toList
  | .ir _ => .ok "#<morphir-value>".toList
  | .irType _ => .ok "#<morphir-type>".toList
  | .irFile _ => .ok "#<morphir-file>".toList
termination_by (sizeOf v, 0)

/-- The rest of a list behind its first item: more items, and a last tail. -/
def renderRest (depth : Nat) (v : Value F O) : Except PrintError (List Char) :=
  match v with
  | .nil => .ok []
  | .pair head tail => do
    let item ← head.render (depth + 1)
    let rest ← tail.renderRest depth
    pure ([' '] ++ (item ++ rest))
  | v => do
    let last ← v.render (depth + 1)
    pure (" . ".toList ++ last)
termination_by (sizeOf v, 2)

def renderItems (depth : Nat) (items : List (Value F O)) :
    Except PrintError (List (List Char)) :=
  match items with
  | [] => .ok []
  | v :: items => do
    let text ← v.render depth
    let texts ← renderItems depth items
    pure (text :: texts)
termination_by (sizeOf items, 0)

def renderFields (depth : Nat) (fields : List (String × Value F O)) :
    Except PrintError (List (List Char)) :=
  match fields with
  | [] => .ok []
  | (name, v) :: fields => do
    let text ← v.render depth
    let texts ← renderFields depth fields
    pure ((name.toList ++ (['='] ++ text)) :: texts)
termination_by (sizeOf fields, 0)

end

end Value

def valueToString [Doubles F] (v : Value F O) : Except PrintError (List Char) := v.render 0

end Morphir.Scheme

/-!
## Bounded previews

The second printer of values writes one character after the other, as long as the
units of the preview last, and expands no more of a value than it writes.
-/

namespace Morphir.Scheme

open CodeUnits Fallible

structure PreviewWriter where
  output : List Char
  remaining : Nat
  steps : Int
  stopped : Bool

namespace PreviewWriter

def tick (self : PreviewWriter) : Except PrintError PreviewWriter :=
  if self.steps - 1 < 0 then .error (.limit "value preview traversal")
  else .ok { self with steps := self.steps - 1 }

def character (self : PreviewWriter) (c : Char) : Except PrintError PreviewWriter :=
  if self.stopped then .ok self
  else do
    let self ← self.tick
    let units := if 65535 < c.toNat then 2 else 1
    if self.remaining < units then pure { self with stopped := true }
    else
      pure { self with
        output := self.output ++ [c]
        remaining := self.remaining - units
        stopped := decide (self.remaining - units = 0) }

def text (self : PreviewWriter) : List Char → Except PrintError PreviewWriter
  | [] => .ok self
  | c :: cs =>
    if self.stopped then .ok self
    else do
      let self ← self.character c
      self.text cs

def quotedChar (self : PreviewWriter) (terminator c : Char) : Except PrintError PreviewWriter :=
  if c = terminator ∨ c = '\\' then do
    let self ← self.character '\\'
    self.character c
  else if c = '\n' then self.text ['\\', 'n']
  else if c = '\r' then self.text ['\\', 'r']
  else if c = '\t' then self.text ['\\', 't']
  else self.character c

def quotedChars (self : PreviewWriter) (terminator : Char) :
    List Char → Except PrintError PreviewWriter
  | [] => .ok self
  | c :: cs =>
    if self.stopped then .ok self
    else do
      let self ← self.quotedChar terminator c
      self.quotedChars terminator cs

def quoted (self : PreviewWriter) (text : List Char) (terminator : Char) :
    Except PrintError PreviewWriter := do
  let self ← self.character terminator
  let self ← self.quotedChars terminator text
  self.character terminator

def plainChars (self : PreviewWriter) : List Char → Except PrintError (Bool × PreviewWriter)
  | [] => .ok (true, self)
  | c :: cs => do
    let self ← self.tick
    if delimiter c || c = '|' || c = '\\' then pure (false, self)
    else self.plainChars cs

def isPlain (self : PreviewWriter) (text : List Char) : Except PrintError (Bool × PreviewWriter) :=
  if !text.isEmpty && text != ['.'] then self.plainChars text else .ok (false, self)

section Printing

variable (F : Type) [Doubles F]

/-- Whether a text is a symbol and no number, when it has no such characters. -/
def isSymbol (plain : Bool) (text : List Char) : Except PrintError Bool :=
  match text.head? with
  | none => .ok false
  | some first =>
    if !plain then .ok false
    else if first = '#' ∨ first.isDigit then .ok false
    else if first = '+' ∨ first = '-' ∨ first = '.' then
      if 10000 < (ofChars text).length then .error (.limit "value preview numeric atom")
      else .ok (numberOrNone (F := F) text).isNone
    else .ok true

def symbol (self : PreviewWriter) (text : List Char) : Except PrintError PreviewWriter := do
  let (plain, self) ← self.isPlain text
  let plain ← isSymbol F plain text
  if plain then self.text text else self.quoted text '|'

variable {F}

def characterName (self : PreviewWriter) (c : Char) : Except PrintError PreviewWriter :=
  if c = ' ' then self.text "space".toList
  else if c = '\n' then self.text "newline".toList
  else if c = '\t' then self.text "tab".toList
  else if c = '\r' then self.text "return".toList
  else self.character c

def bitLength (value : Int) : Nat := value.natAbs.size

def checkNumber : Number F → Except PrintError Unit
  | .integer value => refuse (65536 < bitLength value) (.limit "value preview numeric atom")
  | .rational numerator denominator =>
    refuse (65536 < bitLength numerator ∨ 65536 < bitLength denominator)
      (.limit "value preview numeric atom")
  | .real _ => .ok ()

def number (self : PreviewWriter) (n : Number F) : Except PrintError PreviewWriter := do
  checkNumber n
  self.text n.toText

def separator (self : PreviewWriter) (first : Bool) : Except PrintError PreviewWriter :=
  if first then .ok self else self.text [' ']

variable {O : Type}

mutual

def value (self : PreviewWriter) (v : Value F O) (depth : Nat) :
    Except PrintError PreviewWriter :=
  if self.stopped then .ok self
  else do
    let self ← self.tick
    refuse (256 < depth) (PrintError.limit "value printing depth")
    self.shape v depth
termination_by (sizeOf v, 1)

/-- The text of a value by its constructor.  A loop that ends because the writer has
stopped leaves nothing for the text behind it to write. -/
def shape (self : PreviewWriter) (v : Value F O) (depth : Nat) :
    Except PrintError PreviewWriter :=
  match v with
  | .number n => self.number n
  | .boolean b => self.text (if b then ['#', 't'] else ['#', 'f'])
  | .character c => do
    let self ← self.text ['#', '\\']
    self.characterName c
  | .text s => self.quoted s.toList '"'
  | .symbol s => self.symbol F s.toList
  | .nil => self.text ['(', ')']
  | .pair head tail => do
    let self ← self.text ['(']
    if self.stopped then pure self
    else do
      let self ← self.tick
      let self ← self.value head (depth + 1)
      self.pairs tail depth
  | .vector items => do
    let self ← self.text "#(".toList
    let self ← self.items true items (depth + 1)
    self.text [')']
  | .record fields => do
    let self ← self.text "#<record ".toList
    let self ← self.fields true fields (depth + 1)
    self.text ['>']
  | .tagged tag items => do
    let self ← self.text "#<".toList
    let self ← self.text tag.toList
    let self ← self.text [' ']
    let self ← self.items true items (depth + 1)
    self.text ['>']
  | .unit => self.text "#<unit>".toList
  | .closure _ | .native _ | .nativeFunction _ => self.text "#<procedure>".toList
  | .ir _ => self.text "#<morphir-value>".toList
  | .irType _ => self.text "#<morphir-type>".toList
  | .irFile _ => self.text "#<morphir-file>".toList
termination_by (sizeOf v, 0)

/-- The loop over a list from behind its first item on, its tail and its end. -/
def pairs (self : PreviewWriter) (v : Value F O) (depth : Nat) :
    Except PrintError PreviewWriter :=
  match v with
  | .nil => self.text [')']
  | .pair head tail =>
    if self.stopped then .ok self
    else do
      let self ← self.tick
      let self ← self.text [' ']
      let self ← self.value head (depth + 1)
      self.pairs tail depth
  | v => do
    let self ← self.text " . ".toList
    let self ← self.value v (depth + 1)
    self.text [')']
termination_by (sizeOf v, 2)

/-- The loop over items, the first of which has no blank before it. -/
def items (self : PreviewWriter) (first : Bool) (vs : List (Value F O)) (depth : Nat) :
    Except PrintError PreviewWriter :=
  match vs with
  | [] => .ok self
  | v :: vs =>
    if self.stopped then .ok self
    else do
      let self ← self.separator first
      let self ← self.value v depth
      self.items false vs depth
termination_by (sizeOf vs, 0)

def fields (self : PreviewWriter) (first : Bool) (es : List (String × Value F O))
    (depth : Nat) : Except PrintError PreviewWriter :=
  match es with
  | [] => .ok self
  | (name, v) :: es =>
    if self.stopped then .ok self
    else do
      let self ← self.tick
      let self ← self.separator first
      let self ← self.text name.toList
      let self ← self.text ['=']
      let self ← self.value v depth
      self.fields false es depth
termination_by (sizeOf es, 0)

end

end Printing

end PreviewWriter

/-- A prefix of the text of a value, of at most a number of UTF-16 units. -/
def valuePreview {F O : Type} [Doubles F] (v : Value F O) (maxUnits : Int) :
    Except PrintError (List Char) := do
  refuse (maxUnits < 0 ∨ 65536 < maxUnits)
    (PrintError.invalid "Value preview limit must be between 0 and 65536")
  let writer : PreviewWriter := ⟨[], maxUnits.toNat, 100000, decide (maxUnits = 0)⟩
  let writer ← writer.value v 0
  pure writer.output

end Morphir.Scheme
