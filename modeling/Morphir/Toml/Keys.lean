import Morphir.IR.Names
import Morphir.Library.OrdMap

/-!
# The table declarations of a TOML document

The statements of a parsed document are checked against a store of tables.
A table is stored under its element path: an array-of-tables element adds its
position to the path of the array.
-/

namespace Morphir.Toml

open OrdMap

structure Position where
  offset : Nat
  line : Nat
  column : Nat
  deriving DecidableEq

inductive DiagnosticKind
  | invalidToml | unsupportedDottedKey | unsupportedArrayOfTables | missingPath | wrongKind
  | invalidIndex
  deriving DecidableEq

structure Diagnostic where
  kind : DiagnosticKind
  message : String
  position : Position
  deriving DecidableEq

def position (source : String) (offset : Nat) : Position :=
  let (line, column) := ((codeUnits source).take offset).foldl
    (fun (line, column) unit => if unit = 10 then (line + 1, 1) else (line, column + 1)) (1, 1)
  ⟨offset, line, column⟩

def problem (source : String) (offset : Nat) (kind : DiagnosticKind) (message : String) :
    Diagnostic :=
  ⟨kind, message, position source offset⟩

structure Span where
  start : Nat
  stop : Nat
  deriving DecidableEq

structure KeyPath where
  parents : List String
  last : String
  deriving DecidableEq

def KeyPath.segments (path : KeyPath) : List String := path.parents ++ [path.last]

mutual

inductive Value
  | atom (span : Span)
  | sequence (span : Span) (values : List Value) (commas : List Nat)
  | inline (span : Span) (entries : List Entry) (commas : List Nat)

inductive Entry
  | mk (keys : KeyPath) (start : Nat) (value : Value)

end

namespace Entry

def keys : Entry → KeyPath
  | mk keys _ _ => keys

def start : Entry → Nat
  | mk _ start _ => start

def value : Entry → Value
  | mk _ _ value => value

end Entry

inductive TableKind
  | standard
  | arrayOfTables
  deriving DecidableEq

/-- A statement; an assignment keeps the path of the header above it. -/
inductive Statement
  | assignment (table : List String) (entry : Entry)
  | header (path : KeyPath) (kind : TableKind) (span : Span)

inductive Declaration
  | implicit
  | explicit
  | dotted
  deriving DecidableEq

/-- One step of an element path: a key, or the position of an element. -/
inductive PathStep
  | key (name : String)
  | index (position : Nat)
  deriving DecidableEq

abbrev Location := List PathStep

/-- What a key of a table is bound to.  The table of a `child` and the
elements of a `tableArray` are stored under their own locations. -/
inductive Binding
  | child
  | tableArray (length : Nat)
  | leaf
  deriving DecidableEq

structure Table where
  fields : List (String × Binding)
  declaration : Declaration
  deriving DecidableEq

abbrev Tables := List (Location × Table)

namespace Tables

def declaration (tables : Tables) (t : Location) : Option Declaration :=
  (get? tables t).map Table.declaration

def binding (tables : Tables) (t : Location) (key : String) : Option Binding :=
  (get? tables t).bind fun table => get? table.fields key

def newTable (tables : Tables) (t : Location) (declaration : Declaration) : Tables :=
  OrdMap.insert tables t ⟨[], declaration⟩

def setField (tables : Tables) (t : Location) (key : String) (value : Binding) : Tables :=
  match get? tables t with
  | some table =>
    OrdMap.insert tables t { table with fields := OrdMap.insert table.fields key value }
  | none => tables

def declare (tables : Tables) (t : Location) (declaration : Declaration) : Tables :=
  match get? tables t with
  | some table => OrdMap.insert tables t { table with declaration }
  | none => tables

def root : Tables := newTable [] [] .explicit

variable (tables : Tables) (t : Location)

lemma declaration_newTable (d : Declaration) (other : Location) :
    (tables.newTable t d).declaration other =
      if t = other then some d else tables.declaration other := by
  simp only [declaration, newTable, get?_insert]
  split_ifs <;> rfl

lemma binding_newTable (d : Declaration) (other : Location) (key : String) :
    (tables.newTable t d).binding other key =
      if t = other then none else tables.binding other key := by
  simp only [binding, newTable, get?_insert]
  split_ifs <;> rfl

@[simp] lemma declaration_setField (key : String) (value : Binding) (other : Location) :
    (tables.setField t key value).declaration other = tables.declaration other := by
  unfold setField
  cases h : get? tables t with
  | none => rfl
  | some table =>
    simp only [declaration, get?_insert]
    split_ifs with he
    · rw [← he, h]
      rfl
    · rfl

lemma binding_setField {tables : Tables} {t : Location} (h : (tables.declaration t).isSome)
    (key : String) (value : Binding) (other : Location) (name : String) :
    (tables.setField t key value).binding other name =
      if t = other ∧ key = name then some value else tables.binding other name := by
  unfold setField
  cases hget : get? tables t with
  | none => simp [declaration, hget] at h
  | some table =>
    simp only [binding, get?_insert]
    by_cases he : t = other
    · subst he
      by_cases hk : key = name <;> simp [hget, get?_insert]
    · simp [he]

lemma declaration_declare {tables : Tables} {t : Location} (h : (tables.declaration t).isSome)
    (d : Declaration) (other : Location) :
    (tables.declare t d).declaration other =
      if t = other then some d else tables.declaration other := by
  unfold declare
  cases hget : get? tables t with
  | none => simp [declaration, hget] at h
  | some table =>
    simp only [declaration, get?_insert]
    split_ifs <;> rfl

@[simp] lemma binding_declare (d : Declaration) (other : Location) (key : String) :
    (tables.declare t d).binding other key = tables.binding other key := by
  unfold declare
  cases hget : get? tables t with
  | none => rfl
  | some table =>
    simp only [binding, get?_insert]
    split_ifs with he
    · rw [← he, hget]
      rfl
    · rfl

end Tables

def conflict (source : String) (offset : Nat) (message : String) : Except Diagnostic α :=
  .error (problem source offset .invalidToml message)

def child (source : String) (tables : Tables) (t : Location) (key : String) (offset : Nat)
    (dotted : Bool) : Except Diagnostic (Tables × Location) :=
  match tables.binding t key with
  | some .child =>
    if dotted ∧ tables.declaration (t ++ [.key key]) = some .explicit then
      conflict source offset "Cannot extend an explicit table with dotted keys"
    else .ok (tables, t ++ [.key key])
  | some (.tableArray length) =>
    if dotted then conflict source offset ("Key is already a value: " ++ key)
    else .ok (tables, t ++ [.key key, .index (length - 1)])
  | some .leaf => conflict source offset ("Key is already a value: " ++ key)
  | none =>
    .ok ((tables.setField t key .child).newTable (t ++ [.key key])
      (if dotted then .dotted else .implicit), t ++ [.key key])

def descend (source : String) (offset : Nat) (dotted : Bool) :
    Tables → Location → List String → Except Diagnostic (Tables × Location)
  | tables, t, [] => .ok (tables, t)
  | tables, t, key :: keys =>
    match child source tables t key offset dotted with
    | .error error => .error error
    | .ok (tables, t) => descend source offset dotted tables t keys

def declareEntry (source : String) (tables : Tables) (table : Location) (entry : Entry) :
    Except Diagnostic Tables :=
  match descend source entry.start true tables table entry.keys.parents with
  | .error error => .error error
  | .ok (tables, t) =>
    if (tables.binding t entry.keys.last).isSome then
      conflict source entry.start ("Duplicate key: " ++ entry.keys.last)
    else .ok (tables.setField t entry.keys.last .leaf)

structure State where
  tables : Tables
  current : Location

namespace State

def start : State := ⟨.root, []⟩

end State

/-- A header opens the table it names, or a new element of the array it
names. -/
def openHeader (source : String) (tables : Tables) (t : Location) (key : String)
    (kind : TableKind) (span : Span) : Except Diagnostic State :=
  match tables.binding t key, kind with
  | none, .standard =>
    let current := t ++ [.key key]
    .ok ⟨(tables.setField t key .child).newTable current .explicit, current⟩
  | none, .arrayOfTables =>
    let current := t ++ [.key key, .index 0]
    .ok ⟨(tables.setField t key (.tableArray 1)).newTable current .explicit, current⟩
  | some (.tableArray length), .arrayOfTables =>
    let current := t ++ [.key key, .index length]
    .ok ⟨(tables.setField t key (.tableArray (length + 1))).newTable current .explicit, current⟩
  | some .child, .standard =>
    if tables.declaration (t ++ [.key key]) = some .implicit then
      .ok ⟨tables.declare (t ++ [.key key]) .explicit, t ++ [.key key]⟩
    else conflict source span.start "Table is already defined"
  | _, _ => conflict source span.start "Conflicting table definition"

def validateStatement (source : String) (state : State) :
    Statement → Except Diagnostic State
  | .assignment _ entry =>
    match declareEntry source state.tables state.current entry with
    | .error error => .error error
    | .ok tables => .ok { state with tables }
  | .header path kind span =>
    match descend source span.start false state.tables [] path.parents with
    | .error error => .error error
    | .ok (tables, t) => openHeader source tables t path.last kind span

def validateStatements (source : String) (statements : List Statement) :
    Except Diagnostic State :=
  statements.foldlM (validateStatement source) State.start

def validateDocument (source : String) (statements : List Statement) :
    Except Diagnostic Unit :=
  (validateStatements source statements).map fun _ => ()

/-- The entries of an inline table are declared below a table of their own. -/
def validateInline (source : String) (entries : List Entry) : Except Diagnostic Unit :=
  (entries.foldlM (fun tables entry => declareEntry source tables [] entry)
    Tables.root).map fun _ => ()

mutual

/-- The checks that reading a value makes: every inline table in it is
validated. -/
def Value.validate (source : String) : Value → Except Diagnostic Unit
  | .atom _ => .ok ()
  | .sequence _ values _ => Value.validateAll source values
  | .inline _ entries _ => do
    Entry.validateAll source entries
    validateInline source entries

def Value.validateAll (source : String) : List Value → Except Diagnostic Unit
  | [] => .ok ()
  | value :: values => do
    value.validate source
    Value.validateAll source values

def Entry.validateAll (source : String) : List Entry → Except Diagnostic Unit
  | [] => .ok ()
  | .mk _ _ value :: entries => do
    value.validate source
    Entry.validateAll source entries

end

def Statement.validate (source : String) : Statement → Except Diagnostic Unit
  | .assignment _ entry => entry.value.validate source
  | .header _ _ _ => .ok ()

/-- The checks that `parse` makes on the statements it reads. -/
def checkDocument (source : String) (statements : List Statement) : Except Diagnostic Unit := do
  statements.forM (Statement.validate source)
  validateDocument source statements

end Morphir.Toml

/-!
## Keys and strings of a TOML document

The part of the parser that reads keys: the offset in the source, spaces and
line ends, quoted strings with their escapes, bare keys and dotted keys.  Units
are UTF-16 units, as in the source.
-/

namespace Morphir.Toml

structure Parser where
  source : String
  pos : Nat
  deriving DecidableEq

namespace Parser

def rest (p : Parser) : List Nat := (codeUnits p.source).drop p.pos

def peekAt (p : Parser) (ahead : Nat) : Option Nat := p.rest[ahead]?

def peek (p : Parser) : Option Nat := p.peekAt 0

def skip (p : Parser) (n : Nat) : Parser := { p with pos := p.pos + n }

def bad {α : Type} (p : Parser) (message : String) : Except Diagnostic α :=
  .error (problem p.source p.pos .invalidToml message)

def expect (p : Parser) (c : Nat) : Except Diagnostic Parser :=
  if p.peek ≠ some c then p.bad ("Expected '" ++ String.singleton (Char.ofNat c) ++ "'")
  else .ok (p.skip 1)

def isSpace (c : Nat) : Bool := c = 32 || c = 9

def isNewline (c : Nat) : Bool := c = 10 || c = 13

def spaces (p : Parser) : Parser := p.skip (p.rest.takeWhile isSpace).length

def newline (p : Parser) : Except Diagnostic Parser :=
  if p.peek = some 13 then (p.skip 1).expect 10 else p.expect 10

@[simp] lemma skip_skip (p : Parser) (m n : Nat) : (p.skip m).skip n = p.skip (m + n) := by
  simp only [skip, Nat.add_assoc]

@[simp] lemma skip_zero (p : Parser) : p.skip 0 = p := rfl

@[simp] lemma rest_skip (p : Parser) (n : Nat) : (p.skip n).rest = p.rest.drop n := by
  simp only [rest, skip, List.drop_drop]

lemma peekAt_eq {p : Parser} {units : List Nat} (h : p.rest = units) (ahead : Nat) :
    p.peekAt ahead = units[ahead]? := by
  rw [peekAt, h]

lemma peek_eq_head {p : Parser} {units : List Nat} (h : p.rest = units) : p.peek = units.head? := by
  rw [peek, peekAt_eq h, List.head?_eq_getElem?]

variable {c : Nat}

lemma rest_of_peek {p : Parser} (h : p.peek = some c) : ∃ units, p.rest = c :: units := by
  rw [peek_eq_head rfl] at h
  exact List.head?_eq_some_iff.mp h

lemma skip_shorter {p : Parser} (h : p.peek = some c) (n : Nat) :
    (p.skip (n + 1)).rest.length < p.rest.length := by
  obtain ⟨units, hr⟩ := rest_of_peek h
  rw [rest_skip, hr, List.length_drop, List.length_cons]
  omega

lemma skip_le (p : Parser) (n : Nat) : (p.skip n).rest.length ≤ p.rest.length := by
  rw [rest_skip, List.length_drop]
  exact Nat.sub_le _ _

lemma spaces_le (p : Parser) : p.spaces.rest.length ≤ p.rest.length := p.skip_le _

variable {p next : Parser}

lemma expect_ok (h : p.expect c = .ok next) : p.peek = some c ∧ next = p.skip 1 := by
  unfold expect at h
  split at h
  · cases h
  · next hpk => exact ⟨not_not.mp hpk, (Except.ok.inj h).symm⟩

lemma newline_shorter (h : p.newline = .ok next) : next.rest.length < p.rest.length := by
  unfold newline at h
  split at h
  · next hpk =>
      obtain ⟨-, rfl⟩ := expect_ok h
      exact skip_shorter hpk 1
  · obtain ⟨hpk, rfl⟩ := expect_ok h
    exact skip_shorter hpk 0

/-- Spaces and line ends, after the line end that a backslash hides. -/
def lineSpaces (p : Parser) : Except Diagnostic Parser :=
  match _ : p.peek with
  | none => .ok p
  | some c =>
    if isNewline c then
      match _ : p.newline with
      | .error error => .error error
      | .ok next => lineSpaces next
    else if isSpace c then lineSpaces (p.skip 1)
    else .ok p
termination_by p.rest.length
decreasing_by
  · apply newline_shorter
    assumption
  · apply skip_shorter
    assumption

lemma lineSpaces_le (h : p.lineSpaces = .ok next) : next.rest.length ≤ p.rest.length := by
  fun_induction lineSpaces p with
  | case1 | case5 =>
    cases h
    apply Nat.le_refl
  | case2 => cases h
  | case3 p c _ _ line hln ih => exact (ih h).trans (newline_shorter hln).le
  | case4 p c _ _ _ ih => exact (ih h).trans (p.skip_le 1)

def hex (c : Nat) : Option Nat :=
  if 48 ≤ c ∧ c ≤ 57 then some (c - 48)
  else if 65 ≤ c ∧ c ≤ 70 then some (c - 55)
  else if 97 ≤ c ∧ c ≤ 102 then some (c - 87)
  else none

/-- The digits of a Unicode escape, and their number after a number. -/
def hexDigits : Nat → Parser → Nat → Except Diagnostic (Nat × Parser)
  | 0, p, scalar => .ok (scalar, p)
  | n + 1, p, scalar =>
    match p.peek.bind hex with
    | none => p.bad "Invalid Unicode escape"
    | some digit => hexDigits n (p.skip 1) (scalar * 16 + digit)

def unicodeEscape (p : Parser) (n : Nat) : Except Diagnostic (Char × Parser) :=
  match hexDigits n p 0 with
  | .error error => .error error
  | .ok (scalar, next) =>
    if 0x10ffff < scalar ∨ 0xd800 ≤ scalar ∧ scalar ≤ 0xdfff then
      next.bad "Unicode escape is not a scalar value"
    else .ok (Char.ofNat scalar, next)

def escape (p : Parser) : Except Diagnostic (Char × Parser) :=
  match p.peek with
  | none => p.bad "Unterminated escape"
  | some 98 => .ok ('\x08', p.skip 1)
  | some 116 => .ok ('\t', p.skip 1)
  | some 110 => .ok ('\n', p.skip 1)
  | some 102 => .ok ('\x0c', p.skip 1)
  | some 114 => .ok ('\r', p.skip 1)
  | some 34 => .ok ('"', p.skip 1)
  | some 92 => .ok ('\\', p.skip 1)
  | some 117 => (p.skip 1).unicodeEscape 4
  | some 85 => (p.skip 1).unicodeEscape 8
  | some _ => (p.skip 1).bad "Invalid string escape"

lemma hexDigits_le {n : Nat} {scalar scalar' : Nat}
    (h : hexDigits n p scalar = .ok (scalar', next)) : next.rest.length ≤ p.rest.length := by
  induction n generalizing p scalar with
  | zero =>
    obtain ⟨-, rfl⟩ := Prod.mk.inj (Except.ok.inj h)
    exact Nat.le_refl _
  | succ n ih =>
    unfold hexDigits at h
    split at h
    · cases h
    · exact (ih h).trans (p.skip_le 1)

lemma unicodeEscape_le {n : Nat} {c : Char} (h : p.unicodeEscape n = .ok (c, next)) :
    next.rest.length ≤ p.rest.length := by
  unfold unicodeEscape at h
  split at h
  · cases h
  · next hds =>
      split at h
      · cases h
      · obtain ⟨-, rfl⟩ := Prod.mk.inj (Except.ok.inj h)
        exact hexDigits_le hds

lemma escape_le {c : Char} (h : p.escape = .ok (c, next)) : next.rest.length ≤ p.rest.length := by
  unfold escape at h
  split at h
  case h_1 | h_11 => cases h
  case h_9 | h_10 => exact (unicodeEscape_le h).trans (p.skip_le 1)
  all_goals
    obtain ⟨-, rfl⟩ := Prod.mk.inj (Except.ok.inj h)
    exact p.skip_le 1

/-- The string from a unit on, after the characters that were read.  A string
of one line ends at its quote; one of several lines at three of them, and up
to two more before these belong to it. -/
def quotedFrom (quote : Nat) (multi : Bool) (p : Parser) (out : List Char) :
    Except Diagnostic (String × Parser) :=
  match _ : p.peek with
  | none => p.bad "Unterminated string"
  | some c =>
    let n := (p.rest.takeWhile fun unit => unit = quote).length
    if c = quote ∧ multi = false then .ok (String.ofList out, p.skip 1)
    else if c = quote ∧ 3 ≤ n then
      if 5 < n then p.bad "Too many closing quotes"
      else .ok (String.ofList (out ++ List.replicate (n - 3) (Char.ofNat quote)), p.skip n)
    else if c = 92 ∧ quote = 34 then
      if multi ∧ (p.peekAt 1).any (fun unit => isSpace unit || isNewline unit) then
        match _ : (p.skip 1).spaces.newline with
        | .error error => .error error
        | .ok line =>
          match _ : line.lineSpaces with
          | .error error => .error error
          | .ok next => quotedFrom quote multi next out
      else
        match _ : (p.skip 1).escape with
        | .error error => .error error
        | .ok (char, next) => quotedFrom quote multi next (out ++ [char])
    else if multi ∧ isNewline c then
      match _ : p.newline with
      | .error error => .error error
      | .ok next => quotedFrom quote multi next (out ++ ['\n'])
    else if c < 32 ∧ c ≠ 9 ∨ c = 127 then p.bad "Control character in string"
    else if 0xd800 ≤ c ∧ c ≤ 0xdbff then
      match p.peekAt 1 with
      | none => p.bad "Unpaired Unicode surrogate"
      | some low =>
        if low < 0xdc00 ∨ 0xdfff < low then p.bad "Unpaired Unicode surrogate"
        else
          quotedFrom quote multi (p.skip 2)
            (out ++ [Char.ofNat (0x10000 + (c - 0xd800) * 1024 + (low - 0xdc00))])
    else if 0xdc00 ≤ c ∧ c ≤ 0xdfff then p.bad "Unpaired Unicode surrogate"
    else quotedFrom quote multi (p.skip 1) (out ++ [Char.ofNat c])
termination_by p.rest.length
decreasing_by
  · calc next.rest.length
      _ ≤ line.rest.length := lineSpaces_le ‹_›
      _ < (p.skip 1).spaces.rest.length := newline_shorter ‹_›
      _ ≤ p.rest.length := ((p.skip 1).spaces_le).trans (p.skip_le 1)
  · exact (escape_le ‹_›).trans_lt (skip_shorter ‹_› 0)
  · exact newline_shorter ‹_›
  · exact skip_shorter ‹_› 1
  · exact skip_shorter ‹_› 0

lemma quotedFrom_le {quote : Nat} {multi : Bool} {out : List Char} {text : String}
    (h : quotedFrom quote multi p out = .ok (text, next)) : next.rest.length ≤ p.rest.length := by
  fun_induction quotedFrom quote multi p out with
  | case1 | case3 | case5 | case6 | case8 | case10 | case12 | case13 | case14 | case16 => cases h
  | case2 p | case4 p =>
    obtain ⟨-, rfl⟩ := Prod.mk.inj (Except.ok.inj h)
    apply p.skip_le
  | case7 p =>
    rename_i line hln next hnx ih
    calc _ ≤ next.rest.length := ih h
      _ ≤ line.rest.length := lineSpaces_le hnx
      _ ≤ (p.skip 1).spaces.rest.length := (newline_shorter hln).le
      _ ≤ p.rest.length := ((p.skip 1).spaces_le).trans (p.skip_le 1)
  | case9 p =>
    rename_i hnx ih
    exact (ih h).trans ((escape_le hnx).trans (p.skip_le 1))
  | case11 p =>
    rename_i hnx ih
    exact (ih h).trans (newline_shorter hnx).le
  | case15 p =>
    rename_i ih
    exact (ih h).trans (p.skip_le 2)
  | case17 p =>
    rename_i ih
    exact (ih h).trans (p.skip_le 1)

def quoted (p : Parser) (key : Bool) : Except Diagnostic (String × Parser) :=
  match p.peek with
  | none => (p.skip 1).bad "Unterminated string"
  | some quote =>
    if !key ∧ p.peekAt 1 = some quote ∧ p.peekAt 2 = some quote then
      if ((p.skip 3).peek).any isNewline then
        match (p.skip 3).newline with
        | .error error => .error error
        | .ok line => quotedFrom quote true line []
      else quotedFrom quote true (p.skip 3) []
    else quotedFrom quote false (p.skip 1) []

lemma quoted_le {key : Bool} {text : String} (h : p.quoted key = .ok (text, next)) :
    next.rest.length ≤ p.rest.length := by
  unfold quoted at h
  split at h
  · cases h
  · split at h
    · split at h
      · split at h
        · cases h
        · next line hln =>
            calc next.rest.length
              _ ≤ line.rest.length := quotedFrom_le h
              _ ≤ (p.skip 3).rest.length := (newline_shorter hln).le
              _ ≤ p.rest.length := p.skip_le 3
      · exact (quotedFrom_le h).trans (p.skip_le 3)
    · exact (quotedFrom_le h).trans (p.skip_le 1)

end Parser

def bare (c : Nat) : Bool :=
  65 ≤ c ∧ c ≤ 90 || 97 ≤ c ∧ c ≤ 122 || 48 ≤ c ∧ c ≤ 57 || c = 95 || c = 45

namespace Parser

/-- One segment of a key: a quoted string of either kind, or a bare key. -/
def segment (p : Parser) : Except Diagnostic (String × Parser) :=
  if p.peek = some 34 ∨ p.peek = some 39 then p.quoted true
  else
    let units := p.rest.takeWhile bare
    if units = [] then p.bad "Expected a key"
    else .ok (String.ofList (units.map Char.ofNat), p.skip units.length)

lemma segment_le {p next : Parser} {text : String} (h : p.segment = .ok (text, next)) :
    next.rest.length ≤ p.rest.length := by
  unfold segment at h
  split at h
  · exact quoted_le h
  · dsimp only at h
    split at h
    · cases h
    · obtain ⟨-, rfl⟩ := Prod.mk.inj (Except.ok.inj h)
      apply p.skip_le

def keysFrom (p : Parser) (keys : List String) : Except Diagnostic (List String × Parser) :=
  match _ : p.spaces.segment with
  | .error error => .error error
  | .ok (key, next) =>
    if next.spaces.peek = some 46 then keysFrom (next.spaces.skip 1) (keys ++ [key])
    else .ok (keys ++ [key], next.spaces)
termination_by p.rest.length
decreasing_by
  calc (next.spaces.skip 1).rest.length
    _ < next.spaces.rest.length := skip_shorter ‹_› 0
    _ ≤ next.rest.length := next.spaces_le
    _ ≤ p.spaces.rest.length := segment_le ‹_›
    _ ≤ p.rest.length := p.spaces_le

def keys (p : Parser) : Except Diagnostic (List String × Parser) := p.keysFrom []

end Parser

end Morphir.Toml
