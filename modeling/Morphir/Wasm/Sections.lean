import Morphir.Wasm.Reader

/-!
# What the sections of a module leave

A reader of a section gives the same result wherever the section stands; only the places
kept for messages differ.  The sections of a module are a run of such steps.
-/

namespace Morphir.Wasm

open Reading List

namespace Cursor

lemma follows_byte : Follows Eq byte byte := by
  intro c c₁ value h
  rw [byte] at h
  split at h
  · cases h
  · rename_i b rest hr
    cases h
    exact ⟨[b], hr, rfl, fun start tail => ⟨b.toNat, rfl, rfl⟩⟩

lemma groups_follows {bits : Nat} {bytes : List UInt8} {offset value shift result : Nat}
    {c₁ : Reading.Cursor UInt8} (h : groups bits bytes offset value shift = .ok (result, c₁)) :
    ∃ used, bytes = used ++ c₁.rest ∧ c₁.offset = offset + used.length ∧ ∀ start tail,
      groups bits (used ++ tail) start value shift = .ok (result, ⟨start + used.length, tail⟩) := by
  induction bytes generalizing offset value shift with
  | nil => cases h
  | cons b rest ih =>
    rw [groups] at h
    by_cases hlg : bits ≤ shift
    · rw [if_pos hlg] at h
      cases h
    by_cases hlarge : bits - shift < 7 ∧ (b.toNat &&& 0x7f) >>> (bits - shift) ≠ 0
    · rw [if_neg hlg, if_pos hlarge] at h
      cases h
    by_cases hl : b.toNat &&& 0x80 = 0
    · rw [if_neg hlg, if_neg hlarge, if_pos hl] at h
      cases h
      refine ⟨[b], rfl, rfl, fun start tail => ?_⟩
      rw [singleton_append, groups, if_neg hlg, if_neg hlarge, if_pos hl, length_singleton]
    · rw [if_neg hlg, if_neg hlarge, if_neg hl] at h
      obtain ⟨used, rfl, hoff, hag⟩ := ih h
      refine ⟨b :: used, rfl, ?_, fun start tail => ?_⟩
      · rw [length_cons]
        omega
      · rw [cons_append, groups, if_neg hlg, if_neg hlarge, if_neg hl, hag,
          length_cons, Nat.add_assoc, Nat.add_comm 1]

lemma follows_unsigned (bits : Nat) : Follows Eq (unsigned bits) (unsigned bits) := by
  refine .bind (R := Eq) ?_ fun value _ hval => hval ▸ follows_pure rfl
  intro c c₁ value h
  obtain ⟨used, hr, hoff, hag⟩ := groups_follows h
  exact ⟨used, hr, hoff, fun start tail => ⟨value, hag start tail, rfl⟩⟩

lemma follows_u32 : Follows Eq u32 u32 := by
  refine follows_position.bind fun _ _ _ => (follows_unsigned 32).bind ?_
  rintro value _ rfl
  by_cases h : value ≤ 0x7fffffff
  · simp only [if_pos h]
    exact follows_pure rfl
  · simp only [if_neg h]
    exact follows_throw

lemma follows_name : Follows Eq name name := by
  refine follows_u32.bind ?_
  rintro length _ rfl
  refine follows_position.bind fun _ _ _ => (follows_takeItems _ _ length).bind ?_
  rintro bytes _ rfl
  cases Mep.utf8Decode bytes with
  | some text => exact follows_pure rfl
  | none => exact follows_throw

lemma follows_valueType : Follows Eq valueType valueType := by
  refine follows_byte.bind ?_
  rintro code _ rfl
  exact follows_pure rfl

lemma follows_pushes {α : Type} {R : List α → List α → Prop} {S : α → α → Prop}
    {item : ByteReader α} (h : Follows S item item)
    (hpush : ∀ l l' a a', R l l' → S a a' → R (l ++ [a]) (l' ++ [a'])) {l l' : List α}
    (hl : R l l') : Follows R (pushes item l) (pushes item l') := by
  refine follows_u32.bind ?_
  rintro count _ rfl
  refine follows_times (fun s t hst => ?_) count hl
  exact h.bind fun a a' ha => follows_pure (hpush s t a a' hst ha)

lemma follows_pushes_eq {α : Type} {item : ByteReader α} (h : Follows Eq item item)
    (items : List α) : Follows Eq (pushes item items) (pushes item items) := by
  refine follows_pushes h ?_ rfl
  rintro l _ a _ rfl rfl
  rfl

lemma follows_maximum (flags bits : Nat) :
    Follows Eq (maximum flags bits) (maximum flags bits) := by
  by_cases h : flags &&& 1 ≠ 0
  · simp only [maximum, if_pos h]
    exact (follows_unsigned bits).bind fun a b hab => follows_pure (congrArg some hab)
  · simp only [maximum, if_neg h]
    exact follows_pure rfl

lemma follows_limits : Follows Eq limits limits := by
  refine follows_position.bind fun _ _ _ => follows_byte.bind ?_
  rintro flags _ rfl
  by_cases h : flags &&& 0xf8 ≠ 0
  · simp only [if_pos h]
    exact follows_throw
  · simp only [if_neg h]
    refine (follows_unsigned _).bind ?_
    rintro minimum _ rfl
    refine (follows_maximum _ _).bind ?_
    rintro maximum _ rfl
    exact follows_pure rfl

lemma follows_table : Follows Eq table table := by
  refine follows_valueType.bind fun _ _ _ => follows_byte.bind ?_
  rintro flags _ rfl
  exact (follows_unsigned 64).bind fun _ _ _ => (follows_maximum flags 64).bind
    fun _ _ _ => follows_pure rfl

lemma follows_global : Follows Eq global global :=
  follows_valueType.bind fun _ _ _ => follows_byte.bind fun _ _ _ => follows_pure rfl

end Cursor

open Cursor

lemma functionType_place {types : List FunctionType} {index place place' : Nat}
    {type : FunctionType} (h : functionType types index place = .ok type) :
    functionType types index place' = .ok type := by
  rw [functionType] at h ⊢
  split at h <;> simp_all

lemma follows_functionType (types : List FunctionType) (index place place' : Nat) :
    Follows Eq (functionType types index place : ByteReader FunctionType)
      (functionType types index place') := by
  intro c c₁ type h
  cases hlk : functionType types index place with
  | error e =>
    rw [hlk] at h
    cases h
  | ok found =>
    rw [hlk] at h
    obtain ⟨rfl, rfl⟩ := Prod.mk.inj (Except.ok.inj h)
    refine ⟨[], rfl, rfl, fun start tail => ⟨found, ?_, rfl⟩⟩
    have hag : functionType types index place' = .ok found := functionType_place hlk
    rw [hag]
    rfl

lemma follows_functionTypeEntry : Follows Eq functionTypeEntry functionTypeEntry := by
  refine follows_position.bind fun _ _ _ => follows_byte.bind ?_
  rintro form _ rfl
  by_cases h : form ≠ 0x60
  · simp only [if_pos h]
    exact follows_throw
  · simp only [if_neg h]
    refine (follows_pushes_eq follows_valueType []).bind ?_
    rintro params _ rfl
    refine (follows_pushes_eq follows_valueType []).bind ?_
    rintro results _ rfl
    exact follows_pure rfl

lemma follows_importKind (types : List FunctionType) :
    Follows Eq (importKind types) (importKind types) := by
  refine follows_position.bind fun place place' _ => follows_byte.bind ?_
  rintro kind _ rfl
  match kind with
  | 0 =>
    refine follows_u32.bind ?_
    rintro index _ rfl
    refine (follows_functionType types index place place').bind ?_
    rintro type _ rfl
    exact follows_pure rfl
  | 1 => exact follows_table.bind fun _ _ _ => follows_pure rfl
  | 2 =>
    refine follows_limits.bind ?_
    rintro memory _ rfl
    exact follows_pure rfl
  | 3 => exact follows_global.bind fun _ _ _ => follows_pure rfl
  | 4 => exact follows_byte.bind fun _ _ _ => follows_u32.bind fun _ _ _ => follows_pure rfl
  | _ + 5 => exact follows_throw

lemma follows_importEntry (types : List FunctionType) (read : List Import × List Nat) :
    Follows Eq (importEntry types read) (importEntry types read) := by
  refine follows_name.bind ?_
  rintro moduleName _ rfl
  refine follows_name.bind ?_
  rintro field _ rfl
  refine (follows_importKind types).bind ?_
  rintro kind _ rfl
  exact follows_pure rfl

lemma follows_memoryEntry : Follows Eq memoryEntry memoryEntry := by
  refine follows_limits.bind ?_
  rintro memory _ rfl
  exact follows_pure rfl

/-- What an entry of the export section says, without the place that its messages name. -/
def RawExport.said (entry : RawExport) : List Char × Nat × Nat :=
  (entry.name, entry.kind, entry.index)

lemma follows_exportEntry : Follows (fun e e' => e.said = e'.said) exportEntry exportEntry := by
  refine follows_name.bind ?_
  rintro name _ rfl
  refine follows_position.bind fun place place' _ => follows_byte.bind ?_
  rintro kind _ rfl
  refine follows_u32.bind ?_
  rintro index _ rfl
  exact follows_pure rfl

/-- Drafts that differ in their memories before `l` and `l'` and in places only. -/
structure Draft.Agrees (l l' : List DefinedMemory) (d d' : Draft) : Prop where
  types : d.types = d'.types
  imports : d.imports = d'.imports
  functions : d.functions = d'.functions
  exports : d.exports.map RawExport.said = d'.exports.map RawExport.said
  memories : ∃ more, d.memories = l ++ more ∧ d'.memories = l' ++ more

variable {l l' : List DefinedMemory} {d d' : Draft}

lemma follows_entries (h : d.Agrees l l' d') (id : Nat) (span span' : Nat × Nat)
    {p : ByteReader Draft} (hp : entries id span d = some p) :
    ∃ q, entries id span' d' = some q ∧ Follows (Draft.Agrees l l') p q := by
  match id with
  | 1 =>
    cases hp
    refine ⟨_, rfl, ?_⟩
    rw [h.types]
    refine (follows_pushes_eq follows_functionTypeEntry _).bind ?_
    rintro types _ rfl
    exact follows_pure ⟨rfl, h.imports, h.functions, h.exports, h.memories⟩
  | 2 =>
    cases hp
    refine ⟨_, rfl, follows_u32.bind ?_⟩
    rintro count _ rfl
    rw [h.types, h.imports, h.functions]
    refine (follows_times ?_ count rfl).bind ?_
    · rintro read _ rfl
      exact follows_importEntry _ read
    · rintro read _ rfl
      exact follows_pure ⟨rfl, rfl, rfl, h.exports, h.memories⟩
  | 3 =>
    cases hp
    refine ⟨_, rfl, ?_⟩
    rw [h.functions]
    refine (follows_pushes_eq follows_u32 _).bind ?_
    rintro functions _ rfl
    exact follows_pure ⟨h.types, h.imports, rfl, h.exports, h.memories⟩
  | 5 =>
    cases hp
    refine ⟨_, rfl, ?_⟩
    refine (follows_pushes (R := fun ms ms' => ∃ more, ms = l ++ more ∧ ms' = l' ++ more)
      follows_memoryEntry ?_ h.memories).bind fun ms ms' hms => ?_
    · rintro ms ms' m _ ⟨more, rfl, rfl⟩ rfl
      exact ⟨more ++ [m], append_assoc _ _ _, append_assoc _ _ _⟩
    · exact follows_pure ⟨h.types, h.imports, h.functions, h.exports, hms⟩
  | 7 =>
    cases hp
    refine ⟨_, rfl, ?_⟩
    refine (follows_pushes (R := fun es es' => es.map RawExport.said = es'.map RawExport.said)
      follows_exportEntry ?_ h.exports).bind fun es es' hes => ?_
    · intro es es' e e' hes he
      simp only [map_append, map_cons, hes, he]
    · exact follows_pure ⟨h.types, h.imports, h.functions, hes, h.memories⟩
  | 0 => cases hp
  | 4 => cases hp
  | 6 => cases hp
  | _ + 8 => cases hp

lemma whole_ok {α : Type} {id : Nat} {p : ByteReader α} {body : Reading.Cursor UInt8} {a : α}
    (h : whole id p body = .ok a) : ∃ c, p body = .ok (a, c) ∧ c.rest = [] := by
  obtain ⟨⟨b, c⟩, hp, hend⟩ := Fallible.bind_ok h
  by_cases hr : c.rest = []
  · simp only [if_pos hr] at hend
    obtain rfl : b = a := Except.ok.inj hend
    exact ⟨c, hp, hr⟩
  · simp only [if_neg hr] at hend
    cases hend

lemma whole_eq {α : Type} (id : Nat) {p : ByteReader α} {body c : Reading.Cursor UInt8} {a : α}
    (h : p body = .ok (a, c)) (hr : c.rest = []) : whole id p body = .ok a := by
  rw [whole, h]
  exact if_pos hr

lemma sectionBody_agrees {result : Draft} (h : d.Agrees l l' d') {id offset : Nat}
    {span : Nat × Nat} {body : List UInt8} (hbo : sectionBody id span d ⟨offset, body⟩ = .ok result)
    (span' : Nat × Nat) (offset' : Nat) :
    ∃ result', sectionBody id span' d' ⟨offset', body⟩ = .ok result' ∧
      result.Agrees l l' result' := by
  rw [sectionBody] at hbo
  split at hbo
  case h_1 p hp =>
    obtain ⟨q, hq, hfol⟩ := follows_entries h id span span' hp
    obtain ⟨c, hrd, hr⟩ := whole_ok hbo
    obtain ⟨used, hu, -, hag⟩ := hfol hrd
    obtain ⟨result', hres, hagr⟩ := hag offset' []
    obtain rfl : body = used := by rw [hr, append_nil] at hu; exact hu
    rw [append_nil] at hres
    refine ⟨result', ?_, hagr⟩
    rw [sectionBody, hq]
    exact whole_eq id hres rfl
  case h_2 hno =>
    cases hbo
    refine ⟨d', ?_, h⟩
    have hno' : entries id span' d' = none := by
      match id with
      | 0 | 4 | 6 | _ + 8 => rfl
      | 1 | 2 | 3 | 5 | 7 => cases hno
    rw [sectionBody, hno']

def SameBytes (f f' : Nat × Reading.Cursor UInt8) : Prop := f.1 = f'.1 ∧ f.2.rest = f'.2.rest

lemma follows_frame : Follows SameBytes frame frame := by
  refine follows_position.bind fun _ _ _ => follows_byte.bind ?_
  rintro id _ rfl
  refine follows_u32.bind ?_
  rintro size _ rfl
  refine follows_position.bind fun _ _ _ => (follows_takeItems _ _ size).bind ?_
  rintro bytes _ rfl
  exact follows_pure ⟨rfl, rfl⟩

lemma follows_sectionBody (h : d.Agrees l l' d') (id : Nat) (span span' : Nat × Nat)
    (bytes : List UInt8) (offset offset' : Nat) :
    Follows (Draft.Agrees l l') (sectionBody id span d ⟨offset, bytes⟩ : ByteReader Draft)
      (sectionBody id span' d' ⟨offset', bytes⟩) := by
  intro c c₁ result hrd
  cases hbo : sectionBody id span d ⟨offset, bytes⟩ with
  | error e =>
    rw [hbo] at hrd
    cases hrd
  | ok found =>
    rw [hbo] at hrd
    cases hrd
    obtain ⟨result', hres, hagr⟩ := sectionBody_agrees h hbo span' offset'
    refine ⟨[], rfl, rfl, fun start tail => ⟨result', ?_, hagr⟩⟩
    rw [hres]
    rfl

lemma follows_readSection (h : d.Agrees l l' d') :
    Follows (Draft.Agrees l l') (readSection d) (readSection d') := by
  refine follows_position.bind fun start start' _ => follows_frame.bind ?_
  rintro ⟨id, offset, bytes⟩ ⟨_, offset', _⟩ ⟨rfl, rfl⟩
  exact follows_position.bind fun stop stop' _ =>
    follows_sectionBody h id (start, stop) (start', stop') bytes offset offset'

end Morphir.Wasm
