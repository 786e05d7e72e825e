import Morphir.Wasm.SectionRuns

/-!
# The memory ceiling of a module

The memory section is written again with a maximum, and the description of the module is
changed by hand.  What the rewritten bytes read back as, and when that is the description.
-/

namespace Morphir.Wasm

open Reading Cursor List Nat

structure MemoryCeiling where
  pages : Nat
  positive : 1 ≤ pages
  most : pages ≤ 65536

def MemoryCeiling.ofPages (pages : Int) : Except ModuleError MemoryCeiling :=
  if h : 1 ≤ pages ∧ pages ≤ 65536 then .ok ⟨pages.toNat, by omega, by omega⟩
  else .error (.malformed 0 s!"a memory ceiling of {pages} pages")

def pageBytes : Nat := 65536

def MemoryCeiling.restricted : MemoryCeiling :=
  ⟨256 * 1024 * 1024 / pageBytes, by decide, by decide⟩

inductive MemoryRefusal where
  | memoryFeature (feature : String)
  | initialAboveCeiling (initial : Int) (ceiling : Nat)
deriving DecidableEq

def lebGroups : Nat → Nat → List UInt8
  | 0, _ => []
  | fuel + 1, rest =>
    let byte := rest &&& 0x7f
    if rest >>> 7 = 0 then [UInt8.ofNat byte]
    else UInt8.ofNat (byte ||| 0x80) :: lebGroups fuel (rest >>> 7)

/-- The LEB128 bytes of a number that is not negative: 64 bits are at most ten groups. -/
def unsignedLeb (value : Nat) : List UInt8 := lebGroups 10 value

def MemoryType.cappedMaximum (memory : MemoryType) (limit : Int) : Int :=
  match memory.maximum with
  | some declared => if declared < limit then declared else limit
  | none => limit

/-- One memory with a maximum: the count, the flags and the limits. -/
def memoryBody (minimum maximum : Nat) : List UInt8 :=
  [0x01, 0x01] ++ unsignedLeb minimum ++ unsignedLeb maximum

def memorySectionOf (minimum maximum : Nat) : List UInt8 :=
  let body := memoryBody minimum maximum
  [0x05] ++ unsignedLeb body.length ++ body

/-- The module with its defined memory's maximum set to at most `ceiling` pages. -/
def WasmModule.withMemoryCeiling (self : WasmModule) (ceiling : MemoryCeiling) :
    Except MemoryRefusal WasmModule :=
  match self.memorySection, self.memories with
  | some _, _ :: _ :: _ => .error (.memoryFeature "multi-memory")
  | some (start, stop), [defined] =>
    let memory := defined.memory
    if memory.shared then .error (.memoryFeature "threads")
    else if memory.memory64 then .error (.memoryFeature "memory64")
    else if memory.minimum > ceiling.pages then
      .error (.initialAboveCeiling memory.minimum ceiling.pages)
    else
      let maximum := memory.cappedMaximum ceiling.pages
      let bytes := memorySectionOf memory.minimum.toNat maximum.toNat
      .ok { self with
        bytes := self.bytes.take start ++ bytes ++ self.bytes.drop stop
        memories := [⟨{ memory with maximum := some maximum }⟩]
        memorySection := some (start, start + bytes.length) }
  | _, _ => .ok self

lemma low_bits (low : Nat) (h : low < 128) : (UInt8.ofNat low).toNat = low ∧
    (UInt8.ofNat (low ||| 0x80)).toNat &&& 0x7f = low ∧
    (UInt8.ofNat (low ||| 0x80)).toNat &&& 0x80 ≠ 0 ∧
    low &&& 0x7f = low ∧ low &&& 0x80 = 0 := by
  decide +revert

lemma or_shiftRight (value v shift : Nat) :
    value ||| (v &&& 0x7f) <<< shift ||| (v >>> 7) <<< (shift + 7) = value ||| v <<< shift := by
  have hpts : v &&& 0x7f ||| (v >>> 7) <<< 7 = v := by
    apply eq_of_testBit_eq
    intro i
    have hmask : (0x7f : Nat) = 2 ^ 7 - 1 := rfl
    rw [testBit_or, testBit_and, hmask, testBit_two_pow_sub_one]
    by_cases hi : i < 7
    · simp [hi]
    · have hle : 7 ≤ i := Nat.le_of_not_lt hi
      simp [hle]
  have hshift : (v >>> 7) <<< (shift + 7) = ((v >>> 7) <<< 7) <<< shift := by
    rw [add_comm, shiftLeft_add]
  rw [hshift, Nat.or_assoc, ← Nat.shiftLeft_or_distrib, hpts]

variable {v : Nat}

lemma groups_last {bits shift : Nat} (value start : Nat) (tail : List UInt8)
    (hv : v < 2 ^ (bits - shift)) (hshift : shift < bits) (hlow : v < 128) :
    groups bits (UInt8.ofNat v :: tail) start value shift =
      .ok (value ||| v <<< shift, ⟨start + 1, tail⟩) := by
  obtain ⟨htoNat, -, -, hsf, hl⟩ := low_bits v hlow
  have hlarge : ¬ (bits - shift < 7 ∧ v >>> (bits - shift) ≠ 0) := by
    rintro ⟨-, hne⟩
    exact hne (by rw [shiftRight_eq_div_pow, div_eq_of_lt hv])
  simp only [groups, htoNat, hsf, hl, if_neg (not_le.mpr hshift), if_neg hlarge, if_true]

lemma groups_lebGroups {bits shift : Nat} (fuel value start : Nat) (tail : List UInt8)
    (hv : v < 2 ^ (bits - shift)) (hshift : shift < bits) (hfuel : v < 2 ^ (7 * (fuel + 1))) :
    groups bits (lebGroups (fuel + 1) v ++ tail) start value shift =
      .ok (value ||| v <<< shift, ⟨start + (lebGroups (fuel + 1) v).length, tail⟩) := by
  have hmask (v : Nat) : v &&& 0x7f = v % 128 := and_two_pow_sub_one_eq_mod v 7
  have hhi (v : Nat) : v >>> 7 = v / 128 := shiftRight_eq_div_pow v 7
  induction fuel generalizing v shift value start with
  | zero =>
    have hlow : v < 128 := hfuel
    have hno : v >>> 7 = 0 := by rw [hhi, div_eq_of_lt hlow]
    rw [lebGroups, if_pos hno, hmask, mod_eq_of_lt hlow]
    exact groups_last value start tail hv hshift hlow
  | succ fuel ih =>
    by_cases hno : v >>> 7 = 0
    · have hlow : v < 128 := by
        omega
      rw [lebGroups, if_pos hno, hmask, mod_eq_of_lt hlow]
      exact groups_last value start tail hv hshift hlow
    · have hwide : 7 < bits - shift := by
        by_contra hnar
        have hle : 2 ^ (bits - shift) ≤ 2 ^ 7 :=
          Nat.pow_le_pow_right (by decide) (Nat.le_of_not_lt hnar)
        omega
      have hpow : 2 ^ (bits - shift) = 128 * 2 ^ (bits - (shift + 7)) := by
        rw [← Nat.sub_sub, show bits - shift = 7 + (bits - shift - 7) by omega, Nat.pow_add]
        congr 2
        omega
      have hv' : v >>> 7 < 2 ^ (bits - (shift + 7)) := by omega
      have hfuel' : v >>> 7 < 2 ^ (7 * (fuel + 1)) := by
        rw [mul_succ, pow_add] at hfuel
        omega
      have hlow : v &&& 0x7f < 128 := by
        rw [hmask]
        exact mod_lt v (by decide)
      obtain ⟨-, hpay, hm, -, -⟩ := low_bits _ hlow
      have hlarge (n : Nat) : ¬ (bits - shift < 7 ∧ n ≠ 0) := fun h => by omega
      rw [lebGroups, if_neg hno, cons_append, groups]
      simp only [hpay, hm, if_neg (not_le.mpr hshift), if_neg (hlarge _), if_false]
      rw [ih _ _ hv' (by omega) hfuel', or_shiftRight, length_cons, add_assoc, add_comm 1]

lemma length_lebGroups_le (fuel v : Nat) : (lebGroups fuel v).length ≤ fuel := by
  induction fuel generalizing v with
  | zero => exact le_refl 0
  | succ fuel ih =>
    rw [lebGroups]
    split_ifs
    · exact succ_le_succ (zero_le fuel)
    · exact succ_le_succ (ih _)

lemma unsigned_unsignedLeb (hv : v < 2 ^ 32) (start : Nat) (tail : List UInt8) :
    unsigned 32 ⟨start, unsignedLeb v ++ tail⟩ =
      .ok ((v : Int), ⟨start + (unsignedLeb v).length, tail⟩) := by
  have hgro : groups 32 (unsignedLeb v ++ tail) start 0 0 =
      .ok (0 ||| v <<< 0, ⟨start + (unsignedLeb v).length, tail⟩) :=
    groups_lebGroups 9 0 start tail hv (by decide) (lt_trans hv (by decide))
  rw [zero_or] at hgro
  have hint : int64 v = v := if_pos (lt_trans hv (by decide))
  have hrd : (fun c => groups 32 c.rest c.offset 0 0 : ByteReader Nat)
      ⟨start, unsignedLeb v ++ tail⟩ = .ok (v, ⟨start + (unsignedLeb v).length, tail⟩) := hgro
  rw [unsigned, bind_run hrd, hint]
  rfl

lemma u32_unsignedLeb (hv : v ≤ 0x7fffffff) (start : Nat) (tail : List UInt8) :
    u32 ⟨start, unsignedLeb v ++ tail⟩ = .ok (v, ⟨start + (unsignedLeb v).length, tail⟩) := by
  have hle : (v : Int) ≤ 0x7fffffff := by omega
  rw [u32, bind_run (position_run _), bind_run (unsigned_unsignedLeb (by omega) start tail),
    if_pos hle]
  rfl

variable {minimum maximum : Nat}

lemma limits_written (hmin : minimum < 2 ^ 32) (hmax : maximum < 2 ^ 32) (start : Nat)
    (tail : List UInt8) :
    limits ⟨start, 0x01 :: (unsignedLeb minimum ++ (unsignedLeb maximum ++ tail))⟩ =
      .ok (⟨minimum, some maximum, false, false⟩,
        ⟨start + 1 + (unsignedLeb minimum).length + (unsignedLeb maximum).length, tail⟩) := by
  have hbyte : byte ⟨start, 0x01 :: (unsignedLeb minimum ++ (unsignedLeb maximum ++ tail))⟩ =
      .ok (1, ⟨start + 1, unsignedLeb minimum ++ (unsignedLeb maximum ++ tail)⟩) := rfl
  have hflags : ¬ 1 &&& 0xf8 ≠ 0 := by decide
  have hone : 1 &&& 1 ≠ 0 := by decide
  have hbits : limitBits 1 = 32 := rfl
  have hmaximum : Cursor.maximum 1 32 ⟨start + 1 + (unsignedLeb minimum).length,
      unsignedLeb maximum ++ tail⟩ = .ok (some (maximum : Int),
        ⟨start + 1 + (unsignedLeb minimum).length + (unsignedLeb maximum).length, tail⟩) := by
    rw [Cursor.maximum, if_pos hone, bind_run (unsigned_unsignedLeb hmax _ tail)]
    rfl
  rw [limits, bind_run (position_run _), bind_run hbyte, if_neg hflags, hbits,
    bind_run (unsigned_unsignedLeb hmin _ _), bind_run hmaximum]
  rfl

def writtenMemory (minimum maximum : Nat) : DefinedMemory := ⟨⟨minimum, some maximum, false, false⟩⟩

lemma frame_written {body : List UInt8} (hsz : body.length ≤ 0x7fffffff) (start : Nat)
    (tail : List UInt8) :
    frame ⟨start, [0x05] ++ unsignedLeb body.length ++ body ++ tail⟩ =
      .ok ((5, ⟨start + 1 + (unsignedLeb body.length).length, body⟩),
        ⟨start + ([0x05] ++ unsignedLeb body.length ++ body).length, tail⟩) := by
  have hbyte : byte ⟨start, 0x05 :: (unsignedLeb body.length ++ (body ++ tail))⟩ =
      .ok (5, ⟨start + 1, unsignedLeb body.length ++ (body ++ tail)⟩) := rfl
  have htk : takeItems (ModuleError.malformed start "section runs past the end") body.length
      ⟨start + 1 + (unsignedLeb body.length).length, body ++ tail⟩ = .ok (body,
        ⟨start + 1 + (unsignedLeb body.length).length + body.length, tail⟩) := by
    have hle : body.length ≤ (body ++ tail).length := by
      rw [length_append]
      omega
    rw [takeItems, if_pos hle, take_left, drop_left]
  have hsh : [0x05] ++ unsignedLeb body.length ++ body ++ tail =
      0x05 :: (unsignedLeb body.length ++ (body ++ tail)) := by
    rw [append_assoc, append_assoc, singleton_append]
  have hlen : ([0x05] ++ unsignedLeb body.length ++ body).length =
      1 + (unsignedLeb body.length).length + body.length := by
    rw [length_append, length_append, length_singleton]
  rw [hsh, hlen, frame, bind_run (position_run _), bind_run hbyte,
    bind_run (u32_unsignedLeb hsz _ _), bind_run (position_run _), bind_run htk,
    add_assoc, add_assoc]
  rfl

lemma length_memoryBody_le (minimum maximum : Nat) :
    (memoryBody minimum maximum).length ≤ 0x7fffffff := by
  have hmin := length_lebGroups_le 10 minimum
  have hmax := length_lebGroups_le 10 maximum
  rw [memoryBody, length_append, length_append, unsignedLeb, unsignedLeb]
  simp only [length_cons, length_nil]
  omega

lemma sectionBody_written (hmin : minimum < 2 ^ 32) (hmax : maximum < 2 ^ 32) (d : Draft)
    (span : Nat × Nat) (offset : Nat) :
    sectionBody 5 span d ⟨offset, memoryBody minimum maximum⟩ = .ok { d with
      memories := d.memories ++ [writtenMemory minimum maximum], memorySection := some span } := by
  have hcnt : u32 ⟨offset, memoryBody minimum maximum⟩ =
      .ok (1, ⟨offset + 1, 0x01 :: (unsignedLeb minimum ++ (unsignedLeb maximum ++ []))⟩) := by
    rw [append_nil]
    exact u32_unsignedLeb (v := 1) (by decide) offset _
  have hent : memoryEntry ⟨offset + 1,
      0x01 :: (unsignedLeb minimum ++ (unsignedLeb maximum ++ []))⟩ =
      .ok (writtenMemory minimum maximum, ⟨offset + 1 + 1 + (unsignedLeb minimum).length +
        (unsignedLeb maximum).length, []⟩) :=
    bind_run (limits_written hmin hmax (offset + 1) []) _
  have hpus : pushes memoryEntry d.memories ⟨offset, memoryBody minimum maximum⟩ =
      .ok (d.memories ++ [writtenMemory minimum maximum], ⟨offset + 1 + 1 +
        (unsignedLeb minimum).length + (unsignedLeb maximum).length, []⟩) := by
    rw [pushes, bind_run hcnt, times, bind_assoc, bind_run hent]
    rfl
  exact whole_eq 5 (bind_run hpus _) rfl

lemma readSection_written (hmin : minimum < 2 ^ 32) (hmax : maximum < 2 ^ 32) (d : Draft)
    (start : Nat) (tail : List UInt8) :
    readSection d ⟨start, memorySectionOf minimum maximum ++ tail⟩ =
      .ok ({ d with
        memories := d.memories ++ [writtenMemory minimum maximum]
        memorySection := some (start, start + (memorySectionOf minimum maximum).length) },
        ⟨start + (memorySectionOf minimum maximum).length, tail⟩) :=
  readSection_eq (frame_written (length_memoryBody_le minimum maximum) start tail)
    (sectionBody_written hmin hmax d _ _)

end Morphir.Wasm
