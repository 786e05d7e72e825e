import Morphir.Mep.ModelTransport

/-!
# The budget of a model

Before a document is decoded, its values are counted from the lengths in its bytes.  The
values of local symbol tables have a count of their own.
-/

namespace Morphir.Mep.Guest

/-- Why a scan does not return: the document is refused, or a read is behind the end of the
bytes and stops the program. -/
inductive ScanStop
  | refused (code : String)
  | outOfBounds
  deriving DecidableEq

structure ModelBudget where
  limits : Limits
  nodes : Nat
  systemNodes : Nat
  deriving DecidableEq

namespace ModelBudget

def new (limits : Limits) : ModelBudget := ⟨limits, 0, 0⟩

def charge (budget : ModelBudget) (depth : Nat) (system : Bool) : Except ScanStop ModelBudget :=
  if ¬ (depth : Int) ≤ budget.limits.depth then .error (.refused "depth_limit")
  else if system then
    if ¬ (budget.systemNodes : Int) < budget.limits.nodes then
      .error (.refused "symbol_table_limit")
    else .ok { budget with systemNodes := budget.systemNodes + 1 }
  else
    if ¬ (budget.nodes : Int) < budget.limits.nodes then .error (.refused "node_limit")
    else .ok { budget with nodes := budget.nodes + 1 }

end ModelBudget

namespace BinaryCursor

def read (bytes : List UInt8) (pos : Nat) : Except ScanStop Nat :=
  match bytes[pos]? with
  | some octet => .ok octet.toNat
  | none => .error .outOfBounds

/-- The rest of a variable-length number when so many bytes are left of its frame: the number
and the position after it. -/
def varUintFrom (bytes : List UInt8) (value pos : Nat) : Nat → Except ScanStop (Nat × Nat)
  | 0 => .error (.refused "invalid_ion")
  | left + 1 => do
    let octet ← read bytes pos
    let low := octet % 128
    if ¬ value ≤ (2147483647 - low) / 128 then .error (.refused "invalid_ion")
    else if octet / 128 ≠ 0 then pure (value * 128 + low, pos + 1)
    else varUintFrom bytes (value * 128 + low) (pos + 1) left

def varUint (bytes : List UInt8) (pos last : Nat) : Except ScanStop (Nat × Nat) :=
  varUintFrom bytes 0 pos (last - pos)

/-- The kind of a value, the low half of its descriptor and the position after the value. -/
structure Header where
  kind : Nat
  nibble : Nat
  last : Nat
  deriving DecidableEq

/-- The length of a value in the rest of a frame and the position after it. -/
def bodyLength (bytes : List UInt8) (kind nibble pos last : Nat) : Except ScanStop (Nat × Nat) :=
  if kind = 1 ∨ nibble = 15 then pure (0, pos)
  else if nibble = 14 ∨ (kind = 13 ∧ nibble = 1) then varUint bytes pos last
  else pure (nibble, pos)

def header (bytes : List UInt8) (pos last : Nat) : Except ScanStop (Header × Nat) :=
  if ¬ pos < last then .error (.refused "invalid_ion")
  else do
    let descriptor ← read bytes pos
    let kind := descriptor / 16
    let nibble := descriptor % 16
    let (length, pos) ← bodyLength bytes kind nibble (pos + 1) last
    if ¬ length ≤ last - pos then .error (.refused "invalid_ion")
    else pure (⟨kind, nibble, pos + length⟩, pos)

/-- The position after the numbers of a frame, when so many bytes are left of it. -/
def skipUints (bytes : List UInt8) (pos last : Nat) : Nat → Except ScanStop Nat
  | 0 => pure pos
  | left + 1 =>
    if pos < last then do
      let (_, pos) ← varUint bytes pos last
      skipUints bytes pos last left
    else pure pos

end BinaryCursor

structure BinaryFrame where
  last : Nat
  isStruct : Bool
  depth : Nat
  system : Bool
  localTable : Bool
  deriving DecidableEq

/-- What a scan meets: the end of a frame, a version marker, padding with the position after
it, or a value. -/
inductive Item
  | close
  | marker
  | padding (last : Nat)
  | value (header : BinaryCursor.Header) (pos depth : Nat) (system localTable : Bool)
  deriving DecidableEq

structure Scan where
  budget : ModelBudget
  pos : Nat
  frames : List BinaryFrame
  deriving DecidableEq

namespace Scan

open BinaryCursor

/-- The value in an annotation wrapper, the position after its header and whether it is a
local symbol table when it is at the top. -/
def annotated (bytes : List UInt8) (pos wrapperEnd : Nat) (top : Bool) :
    Except ScanStop (Header × Nat × Bool) := do
  let (size, pos) ← varUint bytes pos wrapperEnd
  if ¬ (0 < size ∧ size ≤ wrapperEnd - pos) then .error (.refused "invalid_ion")
  else do
    let annotationEnd := pos + size
    let (first, pos) ← varUint bytes pos annotationEnd
    let pos ← skipUints bytes pos annotationEnd (annotationEnd - pos)
    let (inner, pos) ← header bytes pos wrapperEnd
    if ¬ (inner.kind ≠ 14 ∧ (inner.kind ≠ 0 ∨ inner.nibble = 15) ∧ inner.last = wrapperEnd) then
      .error (.refused "invalid_ion")
    else pure (inner, pos, top && first == 3 && inner.kind == 13 && inner.nibble != 15)

/-- The value that a header is about, in the wrapper of its annotations or not. -/
def unwrap (bytes : List UInt8) (outer : Header) (pos : Nat) (top : Bool) :
    Except ScanStop (Header × Nat × Bool) :=
  if outer.kind = 14 then annotated bytes pos outer.last top else pure (outer, pos, false)

def fieldSid (bytes : List UInt8) (frame : BinaryFrame) (pos : Nat) :
    Except ScanStop (Nat × Nat) :=
  if frame.isStruct then varUint bytes pos frame.last else pure (0, pos)

/-- The imports of a local symbol table are empty or the symbol that appends to the table. -/
def checkImports (bytes : List UInt8) (frame : BinaryFrame) (sid : Nat) (header : Header)
    (pos : Nat) : Except ScanStop Unit :=
  if ¬ (frame.localTable ∧ sid = 6 ∧ header.nibble ≠ 15) then pure ()
  else if header.kind = 11 ∧ pos = header.last then pure ()
  else if header.kind = 7 ∧ header.last - pos = 1 then do
    let octet ← read bytes pos
    if octet = 3 then pure () else .error (.refused "unsupported_shared_symbols")
  else .error (.refused "unsupported_shared_symbols")

def nextValue (bytes : List UInt8) (frame : BinaryFrame) (top : Bool) (pos : Nat) :
    Except ScanStop Item := do
  let (sid, pos) ← fieldSid bytes frame pos
  let (outer, pos) ← header bytes pos frame.last
  if outer.kind = 0 ∧ outer.nibble ≠ 15 then pure (.padding outer.last)
  else do
    let (inner, pos, localTable) ← unwrap bytes outer pos top
    checkImports bytes frame sid inner pos
    pure (.value inner pos (frame.depth + 1) (frame.system || localTable) localTable)

def nextItem (hasVersionMarker : List UInt8 → Nat → Bool) (bytes : List UInt8)
    (frame : BinaryFrame) (top : Bool) (pos : Nat) : Except ScanStop Item :=
  if pos = frame.last then pure .close
  else if ¬ pos < frame.last then .error (.refused "invalid_ion")
  else if top && hasVersionMarker bytes pos then pure .marker
  else nextValue bytes frame top pos

def take (scan : Scan) (outer : List BinaryFrame) : Item → Except ScanStop Scan
  | .close => pure { scan with frames := outer }
  | .marker => pure { scan with pos := scan.pos + 4 }
  | .padding last => pure { scan with pos := last }
  | .value header pos depth system localTable => do
    let budget ← scan.budget.charge depth system
    if header.kind ∈ [11, 12, 13] ∧ header.nibble ≠ 15 then
      pure ⟨budget, pos, ⟨header.last, header.kind == 13, depth, system, localTable⟩ :: scan.frames⟩
    else pure { scan with budget, pos := header.last }

def step (hasVersionMarker : List UInt8 → Nat → Bool) (bytes : List UInt8) (scan : Scan)
    (frame : BinaryFrame) (outer : List BinaryFrame) : Except ScanStop (Item × Scan) := do
  let item ← nextItem hasVersionMarker bytes frame outer.isEmpty scan.pos
  let next ← take scan outer item
  pure (item, next)

/-- The items of a scan to the end of its frames and the budget that they leave, when the
scan needs no more steps than it is given. -/
def walk (hasVersionMarker : List UInt8 → Nat → Bool) (bytes : List UInt8) :
    Nat → Scan → Option (Except ScanStop (List Item × ModelBudget))
  | 0, scan => if scan.frames = [] then some (.ok ([], scan.budget)) else none
  | steps + 1, scan =>
    match scan.frames with
    | [] => some (.ok ([], scan.budget))
    | frame :: outer =>
      match step hasVersionMarker bytes scan frame outer with
      | .error stop => some (.error stop)
      | .ok (item, next) =>
        (walk hasVersionMarker bytes steps next).map fun result =>
          result.map fun (items, budget) => (item :: items, budget)

def start (budget : ModelBudget) (bytes : List UInt8) : Scan :=
  ⟨budget, 4, [⟨bytes.length, false, 0, false, false⟩]⟩

end Scan

def ModelBudget.inspectBinary (hasVersionMarker : List UInt8 → Nat → Bool) (budget : ModelBudget)
    (bytes : List UInt8) (steps : Nat) : Option (Except ScanStop (List Item × ModelBudget)) :=
  if ¬ hasVersionMarker bytes 0 then some (.error (.refused "invalid_ion"))
  else Scan.walk hasVersionMarker bytes steps (Scan.start budget bytes)

end Morphir.Mep.Guest
