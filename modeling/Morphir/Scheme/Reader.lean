import Morphir.Scheme.Datum

/-!
# The Scheme reader

The reader walks over the characters of a source.  Its position splits them
into the part before, last character first, and the rest.  The mutual
recursion of skipping and reading takes fuel.
-/

namespace Morphir.Scheme

structure RangedComment where
  start : Nat
  stop : Nat
  deriving DecidableEq

structure Reader where
  before : List Char
  rest : List Char
  record : Option (List Nat)
  comments : Option (List RangedComment)
  deriving DecidableEq

namespace Reader

def index (r : Reader) : Nat := r.before.length

def move (r : Reader) (n : Nat) : Reader :=
  { r with before := (r.rest.take n).reverse ++ r.before, rest := r.rest.drop n }

def push (r : Reader) : Reader := { r with record := r.record.map (· ++ [r.index]) }

def mark (r : Reader) : Nat := (r.record.map List.length).getD 0

def truncate (r : Reader) (n : Nat) : Reader := { r with record := r.record.map (·.take n) }

def unrecord (r : Reader) (n : Nat) : Reader := { r with record := r.record.map (·.eraseIdx n) }

/-- Records a comment from here to the end of its line, when it stands alone
on the line between forms. -/
def comment (r : Reader) (topLevel : Bool) (length : Nat) : Reader :=
  let alone := (r.before.takeWhile (· ≠ '\n')).all fun c => c = ' ' || c = '\t' || c = '\r'
  if topLevel ∧ [';', ';'] <+: r.rest ∧ alone = true then
    { r with comments := r.comments.map (· ++ [⟨r.index, r.index + length⟩]) }
  else r

end Reader

abbrev Read (α : Type) := Except SchemeError α

def isBlank (c : Char) : Bool := c = ' ' || c = '\t' || c = '\n' || c = '\r'

/-- The length of the rest of a block comment at a depth of nesting. -/
def blockComment : Nat → List Char → Option Nat
  | 0, _ => some 0
  | _ + 1, [] => none
  | nesting + 1, '#' :: '|' :: cs => (blockComment (nesting + 2) cs).map (· + 2)
  | nesting + 1, '|' :: '#' :: cs => (blockComment nesting cs).map (· + 2)
  | nesting + 1, _ :: cs => (blockComment (nesting + 1) cs).map (· + 1)

def unescape (c : Char) : Option Char :=
  if c = 'n' then some '\n'
  else if c = 'r' then some '\r'
  else if c = 't' then some '\t'
  else if c = '\\' then some '\\'
  else if c = '"' then some '"'
  else if c = '|' then some '|'
  else none

/-- Quoted text up to its terminator, and its length with the terminator. -/
def quoted (terminator : Char) : Nat → List Char → Read (List Char × Nat)
  | index, [] => .error (.syntaxError "Unclosed quoted text" index)
  | index, c :: cs =>
    if c = terminator then .ok ([], 1)
    else if c = '\\' then
      match cs with
      | [] => .error (.syntaxError "Unclosed escape" (index + 1))
      | escape :: cs =>
        match unescape escape with
        | none => .error (.syntaxError "Unsupported escape" (index + 2))
        | some c => (quoted terminator (index + 2) cs).map fun (text, n) => (c :: text, n + 2)
    else (quoted terminator (index + 1) cs).map fun (text, n) => (c :: text, n + 1)

def token (rest : List Char) : List Char := rest.takeWhile fun c => !delimiter c

/-- The character that a token after `#\` names. -/
def namedCharacter (token : List Char) : Option Char :=
  if token = "space".toList then some ' '
  else if token = "newline".toList then some '\n'
  else if token = "tab".toList then some '\t'
  else if token = "return".toList then some '\r'
  else
    match token with
    | [c] => some c
    | _ => none

/-- The token of a character literal after `#\`. -/
def characterToken : List Char → List Char
  | [] => []
  | c :: cs => if delimiter c then [c] else token (c :: cs)

variable {F : Type} [Doubles F]

def tokenDatum (token : List Char) (index : Nat) : Read (Datum F) :=
  if token = "#t".toList ∨ token = "#true".toList then .ok (.boolean true)
  else if token = "#f".toList ∨ token = "#false".toList then .ok (.boolean false)
  else
    match parseNumber (F := F) token with
    | .error error => .error error
    | .ok (some number) => .ok (.number number)
    | .ok none =>
      if token.isEmpty ∨ token.head? = some '#' then
        .error (.syntaxError ("Unknown reader token: " ++ String.ofList token) index)
      else if token.head?.any Char.isDigit then
        .error (.syntaxError "Invalid numeric token" index)
      else .ok (.symbol (String.ofList token))

def readAtom (r : Reader) : Read (Datum F × Reader) :=
  match r.rest with
  | '"' :: cs =>
    match quoted '"' (r.index + 1) cs with
    | .error error => .error error
    | .ok (text, n) => .ok (.text (String.ofList text), r.move (n + 1))
  | '|' :: cs =>
    match quoted '|' (r.index + 1) cs with
    | .error error => .error error
    | .ok (text, n) => .ok (.symbol (String.ofList text), r.move (n + 1))
  | '#' :: '\\' :: cs =>
    let word := characterToken cs
    let r := r.move (2 + word.length)
    if cs.isEmpty then .error (.syntaxError "Expected character" r.index)
    else
      match namedCharacter word with
      | some c => .ok (.character c, r)
      | none => .error (.syntaxError "Expected one character" r.index)
  | cs =>
    let word := token cs
    let r := r.move word.length
    match tokenDatum word r.index with
    | .error error => .error error
    | .ok datum => .ok (datum, r)

def closing (c : Char) : Char := if c = '(' then ')' else ']'

def isDot : List Char → Bool
  | '.' :: cs => cs.head?.all delimiter
  | _ => false

mutual

def skip (F : Type) [Doubles F] :
    (fuel : Nat) → (depth : Nat) → (topLevel : Bool) → Reader → Read Reader
  | 0, _, _, _ => .error .outOfFuel
  | fuel + 1, depth, topLevel, r =>
    match r.rest with
    | [] => .ok r
    | c :: cs =>
      if isBlank c then skip F fuel depth topLevel (r.move 1)
      else if c = ';' then
        let length := ((c :: cs).takeWhile (· ≠ '\n')).length
        skip F fuel depth topLevel ((r.comment topLevel length).move length)
      else if ['#', '|'] <+: c :: cs then
        match blockComment 1 (cs.drop 1) with
        | none => .error (.syntaxError "Unclosed block comment" (r.index + (c :: cs).length))
        | some n => skip F fuel depth topLevel (r.move (n + 2))
      else if ['#', ';'] <+: c :: cs then
        match read F fuel (depth + 1) (r.move 2) with
        | .error error => .error error
        | .ok (_, next) => skip F fuel depth topLevel (next.truncate r.mark)
      else .ok r
termination_by structural fuel => fuel

def read (F : Type) [Doubles F] :
    (fuel : Nat) → (depth : Nat) → Reader → Read (Datum F × Reader)
  | 0, _, _ => .error .outOfFuel
  | fuel + 1, depth, r =>
    if 256 < depth then .error (.syntaxError "Reader nesting limit" r.index)
    else
      match skip F fuel depth false r with
      | .error error => .error error
      | .ok r => readDatum F fuel depth r
termination_by structural fuel => fuel

def readDatum (F : Type) [Doubles F] :
    (fuel : Nat) → (depth : Nat) → Reader → Read (Datum F × Reader)
  | 0, _, _ => .error .outOfFuel
  | fuel + 1, depth, r =>
    match r.rest with
    | [] => .error (.syntaxError "Expected datum" r.index)
    | c :: cs =>
      if c = '(' ∨ c = '[' then readItems F fuel depth (closing c) [] (r.push.move 1)
      else if c = ')' ∨ c = ']' then
        .error (.syntaxError "Unexpected closing delimiter" r.index)
      else if c = '\'' then
        match read F fuel (depth + 1) (r.push.push.move 1) with
        | .error error => .error error
        | .ok (datum, r) => .ok (.sequence [.symbol "quote", datum] none, r)
      else if c = '`' ∨ c = ',' then
        .error (.unsupported "Quasiquotation is not in the Morphir Scheme core")
      else if ['#', '('] <+: c :: cs then
        match read F fuel (depth + 1) (r.push.move 1) with
        | .error error => .error error
        | .ok (.sequence items none, next) => .ok (.vector items, next.unrecord r.push.mark)
        | .ok (_, next) => .error (.syntaxError "Invalid vector" next.index)
      else readAtom r.push
termination_by structural fuel => fuel

def readItems (F : Type) [Doubles F] :
    (fuel : Nat) → (depth : Nat) → (close : Char) → List (Datum F) → Reader →
      Read (Datum F × Reader)
  | 0, _, _, _, _ => .error .outOfFuel
  | fuel + 1, depth, close, items, r =>
    match skip F fuel depth false r with
    | .error error => .error error
    | .ok r =>
      match r.rest with
      | [] => .error (.syntaxError "Unclosed list" r.index)
      | c :: cs =>
        if c = close then .ok (.sequence items none, r.move 1)
        else if isDot (c :: cs) then
          if items.isEmpty then .error (.syntaxError "Dot requires a head" r.index)
          else
            match read F fuel (depth + 1) (r.move 1) with
            | .error error => .error error
            | .ok (tail, r) =>
              match skip F fuel depth false r with
              | .error error => .error error
              | .ok r =>
                if r.rest.head? = some close then
                  .ok (.sequence items (some tail), r.move 1)
                else
                  .error (.syntaxError "Expected closing delimiter after tail" r.index)
        else
          match read F fuel (depth + 1) r with
          | .error error => .error error
          | .ok (item, r) => readItems F fuel depth close (items ++ [item]) r
termination_by structural fuel => fuel

end

def fuelFor (length : Nat) : Nat := 4 * length + 4

def Reader.ofText (text : List Char) (record : Option (List Nat))
    (comments : Option (List RangedComment)) : Reader :=
  ⟨[], text, record, comments⟩

def readForms (F : Type) [Doubles F] (length : Nat) :
    (fuel : Nat) → List (Datum F) → Reader → Read (List (Datum F) × Reader)
  | 0, _, _ => .error .outOfFuel
  | fuel + 1, forms, r =>
    match skip F (fuelFor length) 0 true r with
    | .error error => .error error
    | .ok r =>
      if r.rest.isEmpty then .ok (forms, r)
      else
        match read F (fuelFor length) 0 r with
        | .error error => .error error
        | .ok (form, r) => readForms F length fuel (forms ++ [form]) r

variable (F) in
def parseProgram (source : List Char) : Read (List (Datum F)) :=
  (readForms F source.length (source.length + 1) [] (.ofText source none none)).map Prod.fst

structure RangedForm (F : Type) where
  form : Datum F
  start : Nat
  stop : Nat

def readRangedForms (F : Type) [Doubles F] (length : Nat) :
    (fuel : Nat) → List (RangedForm F) → Reader → Read (List (RangedForm F) × Reader)
  | 0, _, _ => .error .outOfFuel
  | fuel + 1, forms, r =>
    match skip F (fuelFor length) 0 true r with
    | .error error => .error error
    | .ok r =>
      if r.rest.isEmpty then .ok (forms, r)
      else
        match read F (fuelFor length) 0 r with
        | .error error => .error error
        | .ok (form, next) =>
          readRangedForms F length fuel (forms ++ [⟨form, r.index, next.index⟩]) next

variable (F) in
def readProgramRanged (source : List Char) (comments : Option (List RangedComment)) :
    Read (List (RangedForm F) × Reader) :=
  readRangedForms F source.length (source.length + 1) [] (.ofText source none comments)

variable (F) in
def parseProgramRanged (source : List Char) : Read (List (RangedForm F)) :=
  (readProgramRanged F source none).map Prod.fst

variable (F) in
def parseProgramWithComments (source : List Char) :
    Read (List (RangedForm F) × List RangedComment) :=
  (readProgramRanged F source (some [])).map fun (forms, r) => (forms, r.comments.getD [])

inductive Located (F : Type)
  | mk (datum : Datum F) (start : Nat) (children : List (Located F))

mutual

def attach : Datum F → List Nat → Located F × List Nat
  | .sequence items tail, offsets =>
    let (children, rest) := attachAll items offsets.tail
    let (last, rest) := attachTail tail rest
    (.mk (.sequence items tail) (offsets.head?.getD 0) (children ++ last), rest)
  | .vector items, offsets =>
    let (children, rest) := attachAll items offsets.tail
    (.mk (.vector items) (offsets.head?.getD 0) children, rest)
  | .number n, offsets => (.mk (.number n) (offsets.head?.getD 0) [], offsets.tail)
  | .boolean b, offsets => (.mk (.boolean b) (offsets.head?.getD 0) [], offsets.tail)
  | .character c, offsets => (.mk (.character c) (offsets.head?.getD 0) [], offsets.tail)
  | .text s, offsets => (.mk (.text s) (offsets.head?.getD 0) [], offsets.tail)
  | .symbol s, offsets => (.mk (.symbol s) (offsets.head?.getD 0) [], offsets.tail)
termination_by structural d => d

def attachAll : List (Datum F) → List Nat → List (Located F) × List Nat
  | [], offsets => ([], offsets)
  | d :: ds, offsets =>
    let (first, rest) := attach d offsets
    let (others, rest) := attachAll ds rest
    (first :: others, rest)
termination_by structural ds => ds

def attachTail : Option (Datum F) → List Nat → List (Located F) × List Nat
  | none, offsets => ([], offsets)
  | some d, offsets =>
    let (first, rest) := attach d offsets
    ([first], rest)
termination_by structural d => d

end

variable (F) in
def parseProgramLocated (source : List Char) : Read (List (Located F)) :=
  (readForms F source.length (source.length + 1) [] (.ofText source (some []) none)).map
    fun (forms, r) => (attachAll forms (r.record.getD [])).1

end Morphir.Scheme
