import Morphir.Library.ListRel
import Morphir.Wasm.Memory

/-!
# Capping a module and reading it again

The rewritten module reads back as the description that `withMemoryCeiling` returns, where
the last memory section is the one with the memory, and where the memory's maximum stays
or is not exported.
-/

namespace Morphir.Wasm

open Reading Cursor List Nat

lemma groups_lt {bits : Nat} {bytes : List UInt8} {offset value shift result : Nat}
    (h : groups bits bytes offset value shift = .ok (result, c)) (hval : value < 2 ^ min shift bits)
    : result < 2 ^ bits := by
  induction bytes generalizing offset value shift with
  | nil => cases h
  | cons b rest ih =>
    rw [groups] at h
    by_cases hlg : bits ≤ shift
    · rw [if_pos hlg] at h
      cases h
    by_cases hlarge : bits - shift < 7 ∧ (b.toNat &&& 0x7f) >>> (bits - shift) ≠ 0
    · rw [if_neg hlg, if_pos hlarge] at h
      cases h
    rw [if_neg hlg, if_neg hlarge] at h
    have hpay : (b.toNat &&& 0x7f) <<< shift < 2 ^ min (shift + 7) bits := by
      have hmask : b.toNat &&& 0x7f < 2 ^ 7 := and_lt_two_pow _ (by decide)
      by_cases hnar : bits - shift < 7
      · have hz : (b.toNat &&& 0x7f) / 2 ^ (bits - shift) = 0 := by
          rw [← shiftRight_eq_div_pow]
          exact not_not.mp fun hne => hlarge ⟨hnar, hne⟩
        have hlt : b.toNat &&& 0x7f < 2 ^ (bits - shift) :=
          (Nat.div_eq_zero_iff_lt (Nat.two_pow_pos _)).mp hz
        have hmin : min (shift + 7) bits = (bits - shift) + shift := by omega
        rw [hmin, pow_add, shiftLeft_eq]
        exact Nat.mul_lt_mul_of_pos_right hlt (Nat.two_pow_pos _)
      · have hmin : min (shift + 7) bits = 7 + shift := by omega
        rw [hmin, pow_add, shiftLeft_eq]
        exact Nat.mul_lt_mul_of_pos_right hmask (Nat.two_pow_pos _)
    have hnx : value ||| (b.toNat &&& 0x7f) <<< shift < 2 ^ min (shift + 7) bits :=
      or_lt_two_pow
        (Nat.lt_of_lt_of_le hval (Nat.pow_le_pow_right (by decide) (by omega))) hpay
    by_cases hl : b.toNat &&& 0x80 = 0
    · rw [if_pos hl] at h
      obtain ⟨rfl, -⟩ := Prod.mk.inj (Except.ok.inj h)
      exact Nat.lt_of_lt_of_le hnx (Nat.pow_le_pow_right (by decide) (Nat.min_le_right _ _))
    · rw [if_neg hl] at h
      exact ih h hnx

variable {c c₁ : Reading.Cursor UInt8}

lemma unsigned_nonneg {value : Int} (h : unsigned 32 c = .ok (value, c₁)) : 0 ≤ value := by
  obtain ⟨result, c₂, hres, h⟩ := bind_ok h
  obtain ⟨rfl, -⟩ := pure_ok h
  have hlt : result < 2 ^ 32 := groups_lt hres (by decide)
  have hsmall : result < 2 ^ 63 := lt_trans hlt (by decide)
  rw [int64, if_pos hsmall]
  exact Int.natCast_nonneg result

def MemoryType.Sized (memory : MemoryType) : Prop :=
  memory.memory64 = false → 0 ≤ memory.minimum ∧ ∀ declared ∈ memory.maximum, 0 ≤ declared

lemma limits_sized {memory : MemoryType} (h : limits c = .ok (memory, c₁)) : memory.Sized := by
  obtain ⟨start, c₂, -, h⟩ := bind_ok h
  obtain ⟨flags, c₃, -, h⟩ := bind_ok h
  by_cases hflags : flags &&& 0xf8 ≠ 0
  · rw [if_pos hflags] at h
    exact (throw_ok h).elim
  rw [if_neg hflags] at h
  obtain ⟨minimum, c₄, hmin, h⟩ := bind_ok h
  obtain ⟨maximum, c₅, hmax, h⟩ := bind_ok h
  obtain ⟨rfl, -⟩ := pure_ok h
  intro hnar
  have hbits : limitBits flags = 32 := if_neg (of_decide_eq_false hnar)
  rw [hbits] at hmin hmax
  refine ⟨unsigned_nonneg hmin, ?_⟩
  rintro declared hdc
  by_cases hone : flags &&& 1 ≠ 0
  · rw [Cursor.maximum, if_pos hone] at hmax
    obtain ⟨value, c₆, hval, hmax⟩ := bind_ok hmax
    obtain ⟨rfl, -⟩ := pure_ok hmax
    cases hdc
    exact unsigned_nonneg hval
  · rw [Cursor.maximum, if_neg hone] at hmax
    obtain ⟨rfl, -⟩ := pure_ok hmax
    cases hdc

lemma memoryEntry_sized {defined : DefinedMemory} (h : memoryEntry c = .ok (defined, c₁)) :
    defined.memory.Sized := by
  obtain ⟨memory, c₂, hlim, h⟩ := bind_ok h
  obtain ⟨rfl, -⟩ := pure_ok h
  exact limits_sized hlim

variable {sections : List (List UInt8)}

lemma Runs.sized {allowed : UInt8 → Prop} {d d₁ : Draft} (h : Runs allowed d c sections d₁ c₁)
    (hd : ∀ defined ∈ d.memories, defined.memory.Sized) :
    ∀ defined ∈ d₁.memories, defined.memory.Sized := by
  induction h with
  | done d c => exact hd
  | @step d d₁ d₂ c c₁ c₂ b more sections hrd hr _ _ ih =>
    apply ih
    by_cases hb : b = 5
    · subst hb
      obtain ⟨added, rfl, -, hadded⟩ := readSection_memory hrd hr
      intro defined hdef
      rcases mem_append.mp hdef with hold | hnew
      · exact hd defined hold
      · obtain ⟨c', c'', hent⟩ := hadded defined hnew
        exact memoryEntry_sized hent
    · rw [(readSection_keeps hrd hr hb).1]
      exact hd

variable {draft : Draft}

lemma readSections_ok {bytes : List UInt8} (h : readSections bytes = .ok draft) :
    ∃ rest sections c, bytes = header ++ rest ∧
      Runs (fun _ => True) .empty ⟨8, rest⟩ sections draft c ∧ c.rest = [] := by
  rw [readSections] at h
  split_ifs at h with hhea
  obtain ⟨sections, c, hruns, hend⟩ := runs_of_sectionsFor h (le_refl _)
  refine ⟨bytes.drop 8, sections, c, ?_, hruns, hend⟩
  rw [← hhea.2, take_append_drop]

variable {rest : List UInt8}

section

variable (h : Runs (fun _ => True) .empty ⟨8, rest⟩ sections draft c)

include h

lemma readSections_eq (hend : c.rest = []) : readSections (header ++ rest) = .ok draft := by
  have hhea : 8 ≤ (header ++ rest).length ∧ (header ++ rest).take 8 = header := by
    refine ⟨?_, rfl⟩
    rw [length_append, show header.length = 8 from rfl]
    omega
  exact h.sectionsFor_eq hend (le_refl _)

lemma sectionsOf_eq (hend : c.rest = []) : sectionsOf (header ++ rest) = .ok sections :=
  h.splitSections_eq hend (le_refl _)

end

structure Draft.Rewritten (draft draft' : Draft) : Prop where
  types : draft.types = draft'.types
  imports : draft.imports = draft'.imports
  functions : draft.functions = draft'.functions
  exports : draft.exports.map RawExport.said = draft'.exports.map RawExport.said

/-- The last memory section `5 :: more` of a module, and what a written one in its place
leaves: the memories of the sections before it, and the written one. -/
structure Parted (rest : List UInt8) (draft : Draft) (before after : List (List UInt8))
    (more : List UInt8) (kept added : List DefinedMemory) : Prop where
  bytes : rest = before.flatten ++ ((5 :: more) ++ after.flatten)
  sections : sectionsOf (header ++ rest) = .ok (before ++ (5 :: more) :: after)
  span : draft.memorySection = some (8 + before.flatten.length,
    8 + before.flatten.length + (5 :: more).length)
  memories : draft.memories = kept ++ added
  count : memoryCount (5 :: more) = .ok added.length
  rewritten : ∀ minimum maximum, minimum < 2 ^ 32 → maximum < 2 ^ 32 → ∃ draft',
    readSections (header ++ (before.flatten ++
      (memorySectionOf minimum maximum ++ after.flatten))) = .ok draft' ∧
    sectionsOf (header ++ (before.flatten ++ (memorySectionOf minimum maximum ++ after.flatten))) =
        .ok (before ++ memorySectionOf minimum maximum :: after) ∧
    draft.Rewritten draft' ∧ draft'.memories = kept ++ [writtenMemory minimum maximum] ∧
    draft'.memorySection = some (8 + before.flatten.length,
      8 + before.flatten.length + (memorySectionOf minimum maximum).length)

lemma Draft.Agrees.memoriesReplaced {l l' : List DefinedMemory} {d d' d₂ : Draft}
    (h : d.Agrees l l' d') {memories : List DefinedMemory} {span : Option (Nat × Nat)}
    (hd₂ : d₂ = { d with memories := memories, memorySection := span })
    (added : List DefinedMemory) (span' : Option (Nat × Nat)) :
    d₂.Agrees d₂.memories (d'.memories ++ added)
      { d' with memories := d'.memories ++ added, memorySection := span' } := by
  subst hd₂
  exact ⟨h.types, h.imports, h.functions, h.exports, [], (append_nil _).symm, (append_nil _).symm⟩

lemma parted_or_none (h : Runs (fun _ => True) .empty ⟨8, rest⟩ sections draft c)
    (hend : c.rest = []) :
    (draft.memories = [] ∧ draft.memorySection = none) ∨
      ∃ before after more kept added, Parted rest draft before after more kept added := by
  rcases h.split with hq |
    ⟨before, more, after, d₁, c₁, d₂, c₂, rfl, hpre, hl, hat, haft⟩
  · exact .inl hq.keeps
  obtain ⟨added, hd₂, hcnt, -⟩ := readSection_memory hl hat
  obtain ⟨hrest₀, hoffset₀⟩ := hpre.bytes
  obtain ⟨hr₂, -⟩ := haft.bytes
  obtain ⟨hmem, hsec⟩ := haft.keeps
  obtain ⟨b, used, hu, hoff⟩ := readSection_bytes hl
  have hsm : 5 :: more = b :: used := append_cancel_right (hat.symm.trans hu)
  rw [hend, append_nil] at hr₂
  refine .inr ⟨before, after, more, d₁.memories, added, ?_, sectionsOf_eq h hend, ?_, ?_, hcnt, ?_⟩
  · rw [← hr₂, ← hat]
    exact hrest₀
  · rw [hsec, hd₂, hoff, hoffset₀, hsm]
  · rw [hmem, hd₂]
  · intro minimum maximum hmin hmax
    obtain ⟨d₁', hpre', hagr⟩ := hpre.again (.refl _) 8
      (memorySectionOf minimum maximum ++ after.flatten)
    have hsm' : d₁'.memories = d₁.memories := by
      obtain ⟨kept, hk, hk'⟩ := hagr.memories
      exact hk'.trans hk.symm
    have hwtn := readSection_written hmin hmax d₁' (8 + before.flatten.length) after.flatten
    have hagr₂ := hagr.memoriesReplaced hd₂ [writtenMemory minimum maximum]
      (some (8 + before.flatten.length,
        8 + before.flatten.length + (memorySectionOf minimum maximum).length))
    obtain ⟨draft', haft', hagr'⟩ := haft.again hagr₂
      (8 + before.flatten.length + (memorySectionOf minimum maximum).length) []
    rw [append_nil] at haft'
    have hruns := hpre'.trans (.step hwtn rfl trivial (haft'.mono fun _ _ => trivial))
    obtain ⟨hmem', hsec'⟩ := haft'.keeps
    refine ⟨draft', readSections_eq hruns rfl, sectionsOf_eq hruns rfl,
      ⟨hagr'.types, hagr'.imports, hagr'.functions, hagr'.exports⟩, ?_, hsec'⟩
    rw [hmem', hsm']

/-- An entry of the export section that names the first memory that is not imported. -/
def Draft.NamesOwnMemory (draft : Draft) (entry : RawExport) : Prop :=
  entry.kind = 2 ∧ entry.index = (draft.imports.filterMap Import.memory?).length

lemma memoryTypes_of_one {memory : MemoryType} (h : draft.memories = [⟨memory⟩]) :
    draft.memoryTypes = draft.imports.filterMap Import.memory? ++ [memory] := by
  rw [Draft.memoryTypes, h, map_cons, map_nil]

lemma lookup_replaced {α : Type} {as : List α} {a b found : α} {index : Nat}
    (h : (as ++ [a])[index]? = some found) :
    (as ++ [b])[index]? = some found ↔ (index = as.length → a = b) := by
  rcases lt_trichotomy index as.length with hlt | rfl | hgt
  · rw [List.getElem?_append_left hlt] at h ⊢
    exact iff_of_true h fun heq => absurd heq (Nat.ne_of_lt hlt)
  · rw [List.getElem?_concat_length] at h ⊢
    cases h
    exact ⟨fun hb _ => (Option.some.inj hb).symm, fun hab => congrArg some (hab rfl).symm⟩
  · have hno : (as ++ [a])[index]? = none := by
      rw [List.getElem?_eq_none_iff, length_append]
      exact hgt
    rw [hno] at h
    cases h

lemma exportKind_rewritten {draft' : Draft} {entry entry' : RawExport} {kind : ExternKind}
    {memory memory' : MemoryType} (h : draft.Rewritten draft') (hsaid : entry.said = entry'.said)
    (hmem : draft.memories = [⟨memory⟩]) (hmem' : draft'.memories = [⟨memory'⟩])
    (hkd : exportKind draft entry = .ok kind) :
    exportKind draft' entry' = .ok kind ↔ (draft.NamesOwnMemory entry → memory = memory') := by
  obtain ⟨name, k, index, place⟩ := entry
  obtain ⟨name', k', index', place'⟩ := entry'
  obtain ⟨rfl, hr⟩ := Prod.mk.inj hsaid
  cases hr
  match k with
  | 0 =>
    refine iff_of_true ?_ fun hown => nomatch hown.1
    simp only [exportKind, ← h.functions, ← h.types] at hkd ⊢
    cases hix : draft.functions[index]? with
    | none =>
      rw [hix] at hkd
      cases hkd
    | some found =>
      rw [hix] at hkd
      obtain ⟨type, hty, rfl⟩ := Fallible.map_ok hkd
      simp only [functionType_place hty]
      rfl
  | 1 => exact iff_of_true hkd fun hown => nomatch hown.1
  | 2 =>
    simp only [exportKind, memoryTypes_of_one hmem, memoryTypes_of_one hmem', ← h.imports] at hkd ⊢
    cases hfd : (draft.imports.filterMap Import.memory? ++ [memory])[index]? with
    | none =>
      rw [hfd] at hkd
      cases hkd
    | some found =>
      rw [hfd] at hkd
      cases hkd
      have hown : draft.NamesOwnMemory ⟨name, 2, index, place⟩ ↔
          index = (draft.imports.filterMap Import.memory?).length := and_iff_right rfl
      rw [hown, ← lookup_replaced hfd]
      cases hag : (draft.imports.filterMap Import.memory? ++ [memory'])[index]? with
      | none => exact iff_of_false (fun h => nomatch h) (fun h => nomatch h)
      | some again =>
        exact ⟨fun h => congrArg some (ExternKind.memory.inj (Except.ok.inj h)),
          fun h => congrArg (fun m => Except.ok (ExternKind.memory m)) (Option.some.inj h)⟩
  | 3 => exact iff_of_true hkd fun hown => nomatch hown.1
  | 4 => exact iff_of_true hkd fun hown => nomatch hown.1
  | _ + 5 => cases hkd

lemma resolve_ok {entry : RawExport} {item : Export} :
    resolve draft entry = .ok item ↔
      item.name = entry.name ∧ exportKind draft entry = .ok item.kind := by
  rw [resolve]
  constructor
  · intro h
    obtain ⟨kind, hkd, rfl⟩ := Fallible.map_ok h
    exact ⟨rfl, hkd⟩
  · rintro ⟨hname, hkd⟩
    rw [hkd, ← hname]
    rfl

lemma exports_rewritten {draft' : Draft} {memory memory' : MemoryType}
    (h : draft.Rewritten draft') (hmem : draft.memories = [⟨memory⟩])
    (hmem' : draft'.memories = [⟨memory'⟩]) {entries entries' : List RawExport}
    (hsaid : entries.map RawExport.said = entries'.map RawExport.said) {items : List Export}
    (hits : List.Forall₂ (fun e i => resolve draft e = .ok i) entries items) :
    List.Forall₂ (fun e i => resolve draft' e = .ok i) entries' items ↔
      ∀ entry ∈ entries, draft.NamesOwnMemory entry → memory = memory' := by
  induction hits generalizing entries' with
  | nil =>
    obtain rfl := map_eq_nil_iff.mp hsaid.symm
    exact iff_of_true .nil fun entry hent => absurd hent not_mem_nil
  | @cons entry item entries items hi _ ih =>
    cases entries' with
    | nil => cases hsaid
    | cons entry' entries' =>
      obtain ⟨hh, htl⟩ := List.cons.inj hsaid
      obtain ⟨hname, hkd⟩ := resolve_ok.mp hi
      have hname' : entry.name = entry'.name := (Prod.mk.inj hh).1
      rw [List.forall₂_cons, forall_mem_cons, ih htl, resolve_ok,
        exportKind_rewritten h hh hmem hmem' hkd, ← hname', and_iff_right hname]

end Morphir.Wasm
