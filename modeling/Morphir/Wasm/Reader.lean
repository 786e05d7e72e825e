import Morphir.Library.Reading
import Morphir.Mep.Framing

/-!
# Reading a WASM module

The type, import, function, memory and export sections of a core WASM module.
-/

namespace Morphir.Wasm

open Reading

inductive ModuleError where
  | malformed (offset : Nat) (reason : String)
deriving DecidableEq

inductive ValueType where
  | i32 | i64 | f32 | f64 | v128 | funcRef | externRef
  | other (code : Nat)
deriving DecidableEq

structure FunctionType where
  params : List ValueType
  results : List ValueType
deriving DecidableEq

structure MemoryType where
  minimum : Int
  maximum : Option Int
  shared : Bool
  memory64 : Bool
deriving DecidableEq

inductive ExternKind where
  | function (type : FunctionType)
  | table
  | memory (type : MemoryType)
  | global
  | tag
deriving DecidableEq

structure ImportName where
  moduleName : List Char
  name : List Char
deriving DecidableEq

structure Import where
  name : ImportName
  kind : ExternKind
deriving DecidableEq

structure Export where
  name : List Char
  kind : ExternKind
deriving DecidableEq

structure DefinedMemory where
  memory : MemoryType
deriving DecidableEq

structure WasmModule where
  bytes : List UInt8
  imports : List Import
  exports : List Export
  memories : List DefinedMemory
  memorySection : Option (Nat × Nat)
deriving DecidableEq

abbrev ByteReader := Reader UInt8 ModuleError

namespace Cursor

def fail {α : Type} (reason : String) : ByteReader α := fun c => .error (.malformed c.offset reason)

def byte : ByteReader Nat := fun c =>
  match c.rest with
  | [] => .error (.malformed c.offset "unexpected end")
  | b :: rest => .ok (b.toNat, ⟨c.offset + 1, rest⟩)

/-- The bits of a LEB128 integer, from the byte whose payload starts at `shift`. -/
def groups (bits : Nat) : List UInt8 → (offset value shift : Nat) →
    Except ModuleError (Nat × Reading.Cursor UInt8)
  | [], offset, _, _ => .error (.malformed offset "unexpected end")
  | b :: rest, offset, value, shift =>
    let payload := b.toNat &&& 0x7f
    if bits ≤ shift then .error (.malformed offset "integer too long")
    else if bits - shift < 7 ∧ payload >>> (bits - shift) ≠ 0 then
      .error (.malformed offset "integer too large")
    else if b.toNat &&& 0x80 = 0 then
      .ok (value ||| payload <<< shift, ⟨offset + 1, rest⟩)
    else groups bits rest (offset + 1) (value ||| payload <<< shift) (shift + 7)

def int64 (bits : Nat) : Int := if bits < 2 ^ 63 then bits else (bits : Int) - 2 ^ 64

/-- An unsigned LEB128 integer of at most `bits` bits. -/
def unsigned (bits : Nat) : ByteReader Int := do
  let value ← fun c => groups bits c.rest c.offset 0 0
  pure (int64 value)

def u32 : ByteReader Nat := do
  let start ← position
  let value ← unsigned 32
  if value ≤ 0x7fffffff then pure value.toNat
  else throw (.malformed start "count or size too large")

def name : ByteReader (List Char) := do
  let length ← u32
  let start ← position
  let bytes ← takeItems (.malformed start "name runs past its section") length
  match Mep.utf8Decode bytes with
  | some text => pure text
  | none => throw (.malformed start "name is not valid UTF-8")

def toValueType : Nat → ValueType
  | 0x7f => .i32
  | 0x7e => .i64
  | 0x7d => .f32
  | 0x7c => .f64
  | 0x7b => .v128
  | 0x70 => .funcRef
  | 0x6f => .externRef
  | code => .other code

def valueType : ByteReader ValueType := do
  let code ← byte
  pure (toValueType code)

/-- A vector: its count, and so many items put after those that are there. -/
def pushes {α : Type} (item : ByteReader α) (items : List α) : ByteReader (List α) := do
  let count ← u32
  times (fun items => do let a ← item; pure (items ++ [a])) count items

def valueTypes : ByteReader (List ValueType) := pushes valueType []

def maximum (flags bits : Nat) : ByteReader (Option Int) :=
  if flags &&& 1 ≠ 0 then do
    let value ← unsigned bits
    pure (some value)
  else pure none

def limitBits (flags : Nat) : Nat := if flags &&& 4 ≠ 0 then 64 else 32

def limits : ByteReader MemoryType := do
  let start ← position
  let flags ← byte
  if flags &&& 0xf8 ≠ 0 then throw (.malformed start "unknown memory limit flags")
  else do
    let minimum ← unsigned (limitBits flags)
    let maximum ← maximum flags (limitBits flags)
    pure ⟨minimum, maximum, flags &&& 2 ≠ 0, flags &&& 4 ≠ 0⟩

def table : ByteReader Unit := do
  let _ ← valueType
  let flags ← byte
  let _ ← unsigned 64
  let _ ← maximum flags 64
  pure ()

def global : ByteReader Unit := do
  let _ ← valueType
  let _ ← byte
  pure ()

end Cursor

open Cursor

def functionType (types : List FunctionType) (index place : Nat) :
    Except ModuleError FunctionType :=
  match types[index]? with
  | some type => .ok type
  | none => .error (.malformed place s!"type index {index} out of range")

structure RawExport where
  name : List Char
  kind : Nat
  index : Nat
  place : Nat
deriving DecidableEq

structure Draft where
  types : List FunctionType
  imports : List Import
  functions : List Nat
  memories : List DefinedMemory
  exports : List RawExport
  memorySection : Option (Nat × Nat)
deriving DecidableEq

def Draft.empty : Draft := ⟨[], [], [], [], [], none⟩

def functionTypeEntry : ByteReader FunctionType := do
  let start ← position
  let form ← byte
  if form ≠ 0x60 then throw (.malformed start "type is not a function type")
  else do
    let params ← valueTypes
    let results ← valueTypes
    pure ⟨params, results⟩

/-- The kind of an import, and the type index that a function adds. -/
def importKind (types : List FunctionType) : ByteReader (ExternKind × List Nat) := do
  let start ← position
  let kind ← byte
  match kind with
  | 0 => do
    let index ← u32
    let type ← (functionType types index start : ByteReader FunctionType)
    pure (.function type, [index])
  | 1 => do
    table
    pure (.table, [])
  | 2 => do
    let memory ← limits
    pure (.memory memory, [])
  | 3 => do
    global
    pure (.global, [])
  | 4 => do
    let _ ← byte
    let _ ← u32
    pure (.tag, [])
  | _ => throw (.malformed start "unknown import kind")

def importEntry (types : List FunctionType) (read : List Import × List Nat) :
    ByteReader (List Import × List Nat) := do
  let moduleName ← name
  let field ← name
  let kind ← importKind types
  pure (read.1 ++ [⟨⟨moduleName, field⟩, kind.1⟩], read.2 ++ kind.2)

def memoryEntry : ByteReader DefinedMemory := do
  let memory ← limits
  pure ⟨memory⟩

def exportEntry : ByteReader RawExport := do
  let name ← name
  let place ← position
  let kind ← byte
  let index ← u32
  pure ⟨name, kind, index, place⟩

/-- The entries of a section that the reader reads, from the section's own bytes. -/
def entries (id : Nat) (span : Nat × Nat) (draft : Draft) : Option (ByteReader Draft) :=
  match id with
  | 1 => some do
    let types ← pushes functionTypeEntry draft.types
    pure { draft with types }
  | 2 => some do
    let count ← u32
    let read ← times (importEntry draft.types) count (draft.imports, draft.functions)
    pure { draft with imports := read.1, functions := read.2 }
  | 3 => some do
    let functions ← pushes u32 draft.functions
    pure { draft with functions }
  | 5 => some do
    let memories ← pushes memoryEntry draft.memories
    pure { draft with memories, memorySection := some span }
  | 7 => some do
    let exports ← pushes exportEntry draft.exports
    pure { draft with exports }
  | _ => none

def whole {α : Type} (id : Nat) (p : ByteReader α) (body : Reading.Cursor UInt8) :
    Except ModuleError α := do
  let (a, c) ← p body
  if c.rest = [] then .ok a
  else .error (.malformed c.offset s!"section {id} has trailing bytes")

def sectionBody (id : Nat) (span : Nat × Nat) (draft : Draft) (body : Reading.Cursor UInt8) :
    Except ModuleError Draft :=
  match entries id span draft with
  | some p => whole id p body
  | none => .ok draft

def frame : ByteReader (Nat × Reading.Cursor UInt8) := do
  let start ← position
  let id ← byte
  let size ← u32
  let offset ← position
  let rest ← takeItems (.malformed start "section runs past the end") size
  pure (id, ⟨offset, rest⟩)

def readSection (draft : Draft) : ByteReader Draft := do
  let start ← position
  let (id, body) ← frame
  let stop ← position
  (sectionBody id (start, stop) draft body : ByteReader Draft)

/-- The sections of what is left.  A section takes a byte at least, so that as many rounds
as there are bytes are enough. -/
def sectionsFor : Nat → Draft → Reading.Cursor UInt8 → Except ModuleError Draft
  | 0, draft, _ => .ok draft
  | fuel + 1, draft, c =>
    if c.rest = [] then .ok draft
    else do
      let (draft, c) ← readSection draft c
      sectionsFor fuel draft c

def header : List UInt8 := [0x00, 0x61, 0x73, 0x6d, 0x01, 0x00, 0x00, 0x00]

def readSections (bytes : List UInt8) : Except ModuleError Draft :=
  if 8 ≤ bytes.length ∧ bytes.take 8 = header then
    sectionsFor (bytes.drop 8).length .empty ⟨8, bytes.drop 8⟩
  else .error (.malformed 0 "not a core WASM module, version 1")

def Import.memory? (imported : Import) : Option MemoryType :=
  match imported.kind with
  | .memory memory => some memory
  | _ => none

/-- The memories that the module imports, and then those that it defines. -/
def Draft.memoryTypes (draft : Draft) : List MemoryType :=
  draft.imports.filterMap Import.memory? ++ draft.memories.map DefinedMemory.memory

def exportKind (draft : Draft) (entry : RawExport) : Except ModuleError ExternKind :=
  match entry.kind with
  | 0 =>
    match draft.functions[entry.index]? with
    | some index => (functionType draft.types index entry.place).map .function
    | none => .error (.malformed entry.place "function index out of range")
  | 1 => .ok .table
  | 2 =>
    match draft.memoryTypes[entry.index]? with
    | some memory => .ok (.memory memory)
    | none => .error (.malformed entry.place "memory index out of range")
  | 3 => .ok .global
  | 4 => .ok .tag
  | _ => .error (.malformed entry.place "unknown export kind")

def resolve (draft : Draft) (entry : RawExport) : Except ModuleError Export :=
  (exportKind draft entry).map (Export.mk entry.name)

def WasmModule.read (bytes : List UInt8) : Except ModuleError WasmModule := do
  let draft ← readSections bytes
  let exports ← draft.exports.mapM (resolve draft)
  pure ⟨bytes, draft.imports, exports, draft.memories, draft.memorySection⟩

end Morphir.Wasm
