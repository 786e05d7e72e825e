import Morphir.Wasm.Ceiling

/-!
# When a capped module reads back as its description

`withMemoryCeiling` keeps the exports that it was given, and writes one memory in place of
the last memory section.  Both are seen when the rewritten bytes are read again.
-/

namespace Morphir.Wasm

open Reading Cursor List WasmModule

variable {bytes : List UInt8} {draft : Draft} {m m' : WasmModule} {ceiling : MemoryCeiling}

lemma read_eq_iff (hdr : readSections bytes = .ok draft) :
    read bytes = .ok m ↔ m.bytes = bytes ∧ m.imports = draft.imports ∧
      List.Forall₂ (fun e i => resolve draft e = .ok i) draft.exports m.exports ∧
      m.memories = draft.memories ∧ m.memorySection = draft.memorySection := by
  rw [WasmModule.read, hdr, Fallible.bind_eq]
  constructor
  · intro h
    obtain ⟨exports, hexp, h⟩ := Fallible.bind_ok h
    cases h
    exact ⟨rfl, rfl, mapM_eq_ok.mp hexp, rfl, rfl⟩
  · rintro ⟨hbs, himp, hexp, hmem, hsec⟩
    rw [mapM_eq_ok.mpr hexp, ← hbs, ← himp, ← hmem, ← hsec]
    rfl

lemma read_ok (h : read bytes = .ok m) : ∃ draft, readSections bytes = .ok draft := by
  obtain ⟨draft, hdr, -⟩ := Fallible.bind_ok h
  exact ⟨draft, hdr⟩

lemma withMemoryCeiling_ok (h : m.withMemoryCeiling ceiling = .ok m') :
    (m' = m ∧ (m.memorySection = none ∨ m.memories = [])) ∨
      ∃ start stop memory, m.memorySection = some (start, stop) ∧ m.memories = [⟨memory⟩] ∧
        memory.shared = false ∧ memory.memory64 = false ∧ memory.minimum ≤ ceiling.pages ∧
        m' = { m with
          bytes := m.bytes.take start ++ memorySectionOf memory.minimum.toNat
            (memory.cappedMaximum ceiling.pages).toNat ++ m.bytes.drop stop
          memories := [⟨{ memory with maximum := some (memory.cappedMaximum ceiling.pages) }⟩]
          memorySection := some (start, start + (memorySectionOf memory.minimum.toNat
            (memory.cappedMaximum ceiling.pages).toNat).length) } := by
  rw [withMemoryCeiling] at h
  split at h
  · cases h
  · rename_i start stop defined hsec hmem
    dsimp only at h
    split_ifs at h with hsha hwide hmin
    refine .inr ⟨start, stop, defined.memory, hsec, hmem, ?_, ?_, ?_, ?_⟩
    · exact Bool.eq_false_iff.mpr hsha
    · exact Bool.eq_false_iff.mpr hwide
    · exact Int.not_lt.mp hmin
    · exact (Except.ok.inj h).symm
  · rename_i hmy hone
    refine .inl ⟨(Except.ok.inj h).symm, ?_⟩
    cases hsec : m.memorySection with
    | none => exact .inl rfl
    | some span =>
      cases hmem : m.memories with
      | nil => exact .inr rfl
      | cons defined others =>
        cases others with
        | nil => exact (hone span.1 span.2 defined hsec hmem).elim
        | cons other more => exact (hmy span defined other more hsec hmem).elim

def DefinedMemory.capped (ceiling : MemoryCeiling) (defined : DefinedMemory) : DefinedMemory :=
  ⟨{ defined.memory with
    maximum := some (defined.memory.maximum.elim (ceiling.pages : Int) (min · ceiling.pages)) }⟩

lemma cappedMaximum_eq (memory : MemoryType) (limit : Int) :
    memory.cappedMaximum limit = memory.maximum.elim limit (min · limit) := by
  rw [MemoryType.cappedMaximum]
  cases memory.maximum with
  | none => rfl
  | some declared =>
    by_cases hlt : declared < limit
    · exact (if_pos hlt).trans (min_eq_left (Int.le_of_lt hlt)).symm
    · exact (if_neg hlt).trans (min_eq_right (Int.not_lt.mp hlt)).symm

/-- The sections of two modules are the same, but for one that is the memory section of the
first. -/
def SectionsKept (m m' : WasmModule) : Prop :=
  m' = m ∨ ∃ before old new after, sectionsOf m.bytes = .ok (before ++ old :: after) ∧
    sectionsOf m'.bytes = .ok (before ++ new :: after) ∧
    m.memorySection = some (8 + before.flatten.length, 8 + before.flatten.length + old.length)

/-- A capped module is what its bytes say, with the maximum that the ceiling allows and
with every other section as it was. -/
structure Reproduced (ceiling : MemoryCeiling) (m m' : WasmModule) : Prop where
  again : WasmModule.read m'.bytes = .ok m'
  memories : m'.memories = m.memories.map (DefinedMemory.capped ceiling)
  sections : SectionsKept m m'

def WasmModule.memorySectionBytes (m : WasmModule) : List UInt8 :=
  match m.memorySection with
  | some (start, stop) => (m.bytes.take stop).drop start
  | none => []

/-- An entry of the export section names the memory that the module defines. -/
def WasmModule.ExportsOwnMemory (m : WasmModule) : Prop :=
  ∃ draft, readSections m.bytes = .ok draft ∧ ∃ entry ∈ draft.exports, draft.NamesOwnMemory entry

/-- The module has no memory, or the last memory section has it, and a memory that is
exported has a maximum that the ceiling allows. -/
def WasmModule.Cappable (m : WasmModule) (ceiling : MemoryCeiling) : Prop :=
  m.memories = [] ∨ (memoryCount m.memorySectionBytes ≠ .ok 0 ∧
    (m.ExportsOwnMemory → ∀ defined ∈ m.memories,
      ∃ declared ∈ defined.memory.maximum, declared ≤ ceiling.pages))

variable {memory : MemoryType}

lemma cappedMaximum_bounds {limit : Int} (hlim : 0 ≤ limit)
    (h : ∀ declared ∈ memory.maximum, 0 ≤ declared) :
    0 ≤ memory.cappedMaximum limit ∧ memory.cappedMaximum limit ≤ limit := by
  rw [cappedMaximum_eq]
  cases hmax : memory.maximum with
  | none => exact ⟨hlim, Int.le_refl limit⟩
  | some declared => exact ⟨le_min (h declared hmax) hlim, min_le_right declared limit⟩

lemma maximum_kept_iff {limit : Int} :
    memory = { memory with maximum := some (memory.cappedMaximum limit) } ↔
      ∃ declared ∈ memory.maximum, declared ≤ limit := by
  rw [cappedMaximum_eq]
  obtain ⟨minimum, maximum, shared, memory64⟩ := memory
  rw [MemoryType.mk.injEq]
  cases maximum with
  | none => exact iff_of_false (fun h => nomatch h.2.1) (fun ⟨_, h, _⟩ => nomatch h)
  | some declared =>
    constructor
    · rintro ⟨-, h, -⟩
      have hmin : declared = min declared limit := Option.some.inj h
      exact ⟨declared, rfl, hmin ▸ min_le_right declared limit⟩
    · rintro ⟨found, hfd, hle⟩
      have hle' : declared ≤ limit := (Option.some.inj hfd).le.trans hle
      exact ⟨rfl, congrArg some (min_eq_left hle').symm, rfl, rfl⟩

lemma writtenMemory_eq {maximum : Int} (hsha : memory.shared = false)
    (hwide : memory.memory64 = false) (hmin : 0 ≤ memory.minimum) (hmax : 0 ≤ maximum) :
    writtenMemory memory.minimum.toNat maximum.toNat =
      ⟨{ memory with maximum := some maximum }⟩ := by
  rw [writtenMemory, Int.toNat_of_nonneg hmin, Int.toNat_of_nonneg hmax, hsha, hwide]

lemma Parted.around {rest : List UInt8} {before after : List (List UInt8)} {more : List UInt8}
    {kept added : List DefinedMemory} (h : Parted rest draft before after more kept added) :
    (header ++ rest).take (8 + before.flatten.length) = header ++ before.flatten ∧
    (header ++ rest).drop (8 + before.flatten.length + (5 :: more).length) = after.flatten ∧
    ((header ++ rest).take (8 + before.flatten.length + (5 :: more).length)).drop
      (8 + before.flatten.length) = 5 :: more := by
  have hsta : (header ++ before.flatten).length = 8 + before.flatten.length := length_append
  have hsp : (header ++ before.flatten ++ (5 :: more)).length =
      8 + before.flatten.length + (5 :: more).length := by
    rw [length_append, hsta]
  rw [h.bytes]
  refine ⟨?_, ?_, ?_⟩
  · rw [← append_assoc, take_left' hsta]
  · rw [← append_assoc, ← append_assoc, drop_left' hsp]
  · rw [← append_assoc, ← append_assoc, take_left' hsp, drop_left' hsta]

lemma read_rewritten_iff {draft' : Draft} {memory memory' : MemoryType} {kept : List DefinedMemory}
    {exports : List Export} (hrew : draft.Rewritten draft') (hmem : draft.memories = [⟨memory⟩])
    (hexp : List.Forall₂ (fun e i => resolve draft e = .ok i) draft.exports exports)
    (hmem' : draft'.memories = kept ++ [⟨memory'⟩]) (hdr' : readSections bytes = .ok draft')
    {span : Option (Nat × Nat)} (hspan : draft'.memorySection = span) :
    read bytes = .ok ⟨bytes, draft.imports, exports, [⟨memory'⟩], span⟩ ↔
      kept = [] ∧ ∀ entry ∈ draft.exports, draft.NamesOwnMemory entry → memory = memory' := by
  rw [read_eq_iff hdr', hmem']
  constructor
  · rintro ⟨-, -, hag, hk, -⟩
    have hlen := congrArg List.length hk
    rw [length_append, length_singleton] at hlen
    obtain rfl : kept = [] := length_eq_zero_iff.mp (by omega)
    exact ⟨rfl, (exports_rewritten hrew hmem hmem' hrew.exports hexp).mp hag⟩
  · rintro ⟨rfl, hns⟩
    exact ⟨rfl, hrew.imports, (exports_rewritten hrew hmem hmem'
      hrew.exports hexp).mpr hns, rfl, hspan.symm⟩

lemma exportsOwnMemory_iff (hdr : readSections m.bytes = .ok draft) {P : Prop} :
    (m.ExportsOwnMemory → P) ↔ ∀ entry ∈ draft.exports, draft.NamesOwnMemory entry → P := by
  constructor
  · intro h entry hent hown
    exact h ⟨draft, hdr, entry, hent, hown⟩
  · rintro h ⟨draft', hdr', entry, hent, hown⟩
    obtain rfl := Except.ok.inj (hdr.symm.trans hdr')
    exact h entry hent hown

theorem withMemoryCeiling_reproduced_iff (hrd : WasmModule.read bytes = .ok m)
    (hcap : m.withMemoryCeiling ceiling = .ok m') :
    Reproduced ceiling m m' ↔ m.Cappable ceiling := by
  obtain ⟨draft, hdraft⟩ := read_ok hrd
  obtain ⟨rfl, himp, hexp, hmem, hsec⟩ := (read_eq_iff hdraft).mp hrd
  obtain ⟨rest, sections, c, hr, hruns, hend⟩ := readSections_ok hdraft
  have hpar := parted_or_none hruns hend
  rcases withMemoryCeiling_ok hcap with ⟨rfl, hno⟩ |
    ⟨start, stop, memory, hspan, hone, hsha, hwide, hmin, hm'⟩
  · -- nothing is rewritten
    have hemp : m'.memories = [] := by
      rcases hno with hno | hemp
      · rcases hpar with ⟨hemp, -⟩ | ⟨before, after, more, kept, added, hpar⟩
        · exact hmem.trans hemp
        · rw [hsec, hpar.span] at hno
          cases hno
      · exact hemp
    refine iff_of_true ⟨hrd, ?_, .inl rfl⟩ (.inl hemp)
    rw [hemp]
    rfl
  rcases hpar with ⟨hemp, -⟩ | ⟨before, after, more, kept, added, hpar⟩
  · rw [hmem, hemp] at hone
    cases hone
  -- the last memory section is written again, between the same bytes
  have hdef : draft.memories = [⟨memory⟩] := hmem.symm.trans hone
  have hsized : memory.Sized := by
    refine hruns.sized (fun _ h => absurd h not_mem_nil) ⟨memory⟩ ?_
    rw [hdef]
    exact mem_singleton_self _
  obtain ⟨hminimum, hdc⟩ := hsized hwide
  obtain ⟨hmax, hlim⟩ := cappedMaximum_bounds (Int.natCast_nonneg ceiling.pages) hdc
  have hmost := ceiling.most
  have hsmall₁ : memory.minimum.toNat < 2 ^ 32 := by omega
  have hsmall₂ : (memory.cappedMaximum ceiling.pages).toNat < 2 ^ 32 := by omega
  obtain ⟨draft', hdr', hsecs', hrew, hmem', hspan'⟩ := hpar.rewritten _ _ hsmall₁ hsmall₂
  obtain ⟨htk, hdrop, hold⟩ := hpar.around
  obtain ⟨rfl, rfl⟩ := Prod.mk.inj (Option.some.inj (hspan.symm.trans (hsec.trans hpar.span)))
  rw [writtenMemory_eq hsha hwide hminimum hmax] at hmem'
  rw [hr, htk, hdrop, append_assoc, append_assoc] at hm'
  have hbs : m'.bytes = header ++ (before.flatten ++ (memorySectionOf memory.minimum.toNat
      (memory.cappedMaximum ceiling.pages).toNat ++ after.flatten)) := by
    rw [hm']
  have hsecs : SectionsKept m m' := by
    refine .inr ⟨before, 5 :: more, memorySectionOf memory.minimum.toNat
      (memory.cappedMaximum ceiling.pages).toNat, after, ?_, ?_, hspan⟩
    · rw [hr]
      exact hpar.sections
    · rw [hbs]
      exact hsecs'
  have hcapped : m'.memories = m.memories.map (.capped ceiling) := by
    rw [hm', hone, map_singleton, DefinedMemory.capped, cappedMaximum_eq]
  have hrd' : read m'.bytes = .ok m' ↔ kept = [] ∧ ∀ entry ∈ draft.exports,
      draft.NamesOwnMemory entry → memory = { memory with
        maximum := some (memory.cappedMaximum ceiling.pages) } := by
    rw [hm', himp]
    exact read_rewritten_iff hrew hdef hexp hmem' hdr' hspan'
  have hk : kept = [] ↔ memoryCount m.memorySectionBytes ≠ .ok 0 := by
    have hbs : m.memorySectionBytes = 5 :: more := by
      rw [memorySectionBytes, hspan, hr]
      exact hold
    have hone : kept.length + added.length = 1 := by
      rw [← length_append, ← hpar.memories, hdef, length_singleton]
    rw [hbs, hpar.count, Ne, Except.ok.injEq, ← length_eq_zero_iff]
    omega
  have hnon : m.memories ≠ [] := by
    rw [hone]
    exact cons_ne_nil _ _
  calc Reproduced ceiling m m' ↔ read m'.bytes = .ok m' :=
      ⟨Reproduced.again, fun h => ⟨h, hcapped, hsecs⟩⟩
    _ ↔ kept = [] ∧ (m.ExportsOwnMemory → memory = { memory with
        maximum := some (memory.cappedMaximum ceiling.pages) }) := by
      rw [hrd', exportsOwnMemory_iff hdraft]
    _ ↔ m.Cappable ceiling := by
      rw [Cappable, or_iff_right hnon, hk, hone, maximum_kept_iff]
      simp only [forall_mem_singleton]

/-- A module of one memory, exported as `memory`. -/
def memoryGuest (body : List UInt8) : List UInt8 :=
  header ++ [0x05, UInt8.ofNat body.length] ++ body ++
    [0x07, 0x0a, 0x01, 0x06, 0x6d, 0x65, 0x6d, 0x6f, 0x72, 0x79, 0x02, 0x00]

def memoryGuestModule (body : List UInt8) (exported defined : Option Int) : WasmModule where
  bytes := memoryGuest body
  imports := []
  exports := [⟨['m', 'e', 'm', 'o', 'r', 'y'], .memory ⟨1, exported, false, false⟩⟩]
  memories := [⟨⟨1, defined, false, false⟩⟩]
  memorySection := some (8, 10 + body.length)

theorem withMemoryCeiling_reproduced_iff_sixteen :
    Reproduced .restricted (memoryGuestModule [0x01, 0x01, 0x01, 0x10] (some 16) (some 16))
      (memoryGuestModule [0x01, 0x01, 0x01, 0x10] (some 16) (some 16)) := by
  have hrd : read (memoryGuest [0x01, 0x01, 0x01, 0x10]) =
      .ok (memoryGuestModule [0x01, 0x01, 0x01, 0x10] (some 16) (some 16)) := rfl
  refine (withMemoryCeiling_reproduced_iff hrd rfl).mpr (.inr ⟨?_, ?_⟩)
  · decide
  · intro _ defined hdef
    obtain rfl := mem_singleton.mp hdef
    exact ⟨16, rfl, by decide⟩

/-- A memory without a maximum that is exported: the export keeps the type without one. -/
theorem withMemoryCeiling_export_unchanged :
    WasmModule.read (memoryGuest [0x01, 0x00, 0x01]) =
      .ok (memoryGuestModule [0x01, 0x00, 0x01] none none) ∧
    (memoryGuestModule [0x01, 0x00, 0x01] none none).withMemoryCeiling .restricted =
      .ok (memoryGuestModule [0x01, 0x01, 0x01, 0x80, 0x20] none (some 4096)) ∧
    ¬ Reproduced .restricted (memoryGuestModule [0x01, 0x00, 0x01] none none)
      (memoryGuestModule [0x01, 0x01, 0x01, 0x80, 0x20] none (some 4096)) := by
  refine ⟨rfl, rfl, fun h => ?_⟩
  have hrd : read (memoryGuest [0x01, 0x01, 0x01, 0x80, 0x20]) =
      .ok (memoryGuestModule [0x01, 0x01, 0x01, 0x80, 0x20] (some 4096) (some 4096)) := rfl
  have hexp := congrArg exports (Except.ok.inj (hrd.symm.trans h.again))
  cases hexp

end Morphir.Wasm
