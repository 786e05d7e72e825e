import Morphir.Wasm.Sections

/-!
# The sections of a module as a run

Reading the sections one after another is a run of steps, each of which takes one section.
What a run leaves can be read again at another place, and the last memory section parts it
in what comes before and what comes after.
-/

namespace Morphir.Wasm

open Reading Cursor List

lemma byte_ok {value : Nat} (h : byte c = .ok (value, c₁)) :
    ∃ b, c.rest = b :: c₁.rest ∧ c₁.offset = c.offset + 1 ∧ value = b.toNat := by
  rw [byte] at h
  split at h
  · cases h
  · rename_i b rest hr
    cases h
    exact ⟨b, hr, rfl, rfl⟩

variable {body : Reading.Cursor UInt8} {id fuel : Nat}

lemma frame_ok (h : frame c = .ok ((id, body), c₁)) : ∃ b size, id = b.toNat ∧
      c.rest = (b :: (size ++ body.rest)) ++ c₁.rest ∧
      c₁.offset = c.offset + (b :: (size ++ body.rest)).length := by
  obtain ⟨start, c, hsta, h⟩ := bind_ok h
  obtain ⟨rfl, rfl⟩ := position_ok hsta
  obtain ⟨value, c₂, hbyte, h⟩ := bind_ok h
  obtain ⟨b, hr, hoff, rfl⟩ := byte_ok hbyte
  obtain ⟨count, c₃, hsz, h⟩ := bind_ok h
  obtain ⟨size, hr₁, hoff₁, -⟩ := follows_u32 hsz
  obtain ⟨place, c₄, hplace, h⟩ := bind_ok h
  obtain ⟨rfl, rfl⟩ := position_ok hplace
  obtain ⟨bytes, c₅, htk, h⟩ := bind_ok h
  obtain ⟨hcnt, rfl, rfl⟩ := takeItems_ok htk
  obtain ⟨hfd, rfl⟩ := pure_ok h
  cases hfd
  refine ⟨b, size, rfl, ?_, ?_⟩
  · rw [hr, hr₁, cons_append, append_assoc, take_append_drop]
  · simp only [length_cons, length_append, length_take_of_le hcnt]
    omega

lemma readSection_ok (h : readSection d c = .ok (d₁, c₁)) :
    ∃ id body, frame c = .ok ((id, body), c₁) ∧
      sectionBody id (c.offset, c₁.offset) d body = .ok d₁ := by
  obtain ⟨start, c, hsta, h⟩ := bind_ok h
  obtain ⟨rfl, rfl⟩ := position_ok hsta
  obtain ⟨⟨id, body⟩, c₂, hfm, h⟩ := bind_ok h
  obtain ⟨stop, c₃, hsp, h⟩ := bind_ok h
  obtain ⟨rfl, rfl⟩ := position_ok hsp
  cases hbo : sectionBody id (c.offset, c₂.offset) d body with
  | error e =>
    simp only [hbo] at h
    cases h
  | ok result =>
    simp only [hbo] at h
    cases h
    exact ⟨id, body, hfm, hbo⟩

lemma readSection_eq (hfm : frame c = .ok ((id, body), c₁))
    (hbo : sectionBody id (c.offset, c₁.offset) d body = .ok d₁) :
    readSection d c = .ok (d₁, c₁) := by
  rw [readSection, bind_run (position_run c), bind_run hfm]
  change (position >>= fun stop =>
    (sectionBody id (c.offset, stop) d body : ByteReader Draft)) c₁ = _
  rw [bind_run (position_run c₁), hbo]
  rfl

/-- A run over sections whose ids are allowed, with the bytes of each. -/
inductive Runs (allowed : UInt8 → Prop) : Draft → Reading.Cursor UInt8 → List (List UInt8) →
    Draft → Reading.Cursor UInt8 → Prop where
  | done (d : Draft) (c : Reading.Cursor UInt8) : Runs allowed d c [] d c
  | step {d d₁ d₂ : Draft} {c c₁ c₂ : Reading.Cursor UInt8} {b : UInt8} {more : List UInt8}
      {sections : List (List UInt8)} (hread : readSection d c = .ok (d₁, c₁))
      (hrest : c.rest = (b :: more) ++ c₁.rest) (hallowed : allowed b)
      (hruns : Runs allowed d₁ c₁ sections d₂ c₂) :
      Runs allowed d c ((b :: more) :: sections) d₂ c₂

variable {allowed : UInt8 → Prop} {d d₁ d₂ d' : Draft} {c c₁ c₂ : Reading.Cursor UInt8}
  {sections after : List (List UInt8)}

lemma Runs.trans (h : Runs allowed d c sections d₁ c₁) (h' : Runs allowed d₁ c₁ after d₂ c₂) :
    Runs allowed d c (sections ++ after) d₂ c₂ := by
  induction h with
  | done d c => exact h'
  | step hrd hr halw _ ih => exact .step hrd hr halw (ih h')

lemma Runs.mono {more : UInt8 → Prop} (h : Runs allowed d c sections d₁ c₁)
    (hm : ∀ b, allowed b → more b) : Runs more d c sections d₁ c₁ := by
  induction h with
  | done d c => exact .done d c
  | step hrd hr halw _ ih => exact .step hrd hr (hm _ halw) ih

lemma Draft.Agrees.refl (d : Draft) : d.Agrees [] [] d := ⟨rfl, rfl, rfl, rfl, d.memories, rfl, rfl⟩

lemma readSection_bytes (h : readSection d c = .ok (d₁, c₁)) :
    ∃ b more, c.rest = (b :: more) ++ c₁.rest ∧ c₁.offset = c.offset + (b :: more).length := by
  obtain ⟨id, body, hfm, -⟩ := readSection_ok h
  obtain ⟨b, size, -, hr, hoff⟩ := frame_ok hfm
  exact ⟨b, size ++ body.rest, hr, hoff⟩

lemma Runs.bytes (h : Runs allowed d c sections d₁ c₁) :
    c.rest = sections.flatten ++ c₁.rest ∧ c₁.offset = c.offset + sections.flatten.length := by
  induction h with
  | done d c => exact ⟨rfl, rfl⟩
  | @step d d₁ d₂ c c₁ c₂ b more sections hrd hr _ _ ih =>
    obtain ⟨hr₁, hoff₁⟩ := ih
    obtain ⟨b', more', hr', hoff'⟩ := readSection_bytes hrd
    have hsm : b :: more = b' :: more' := append_cancel_right (hr.symm.trans hr')
    refine ⟨?_, ?_⟩
    · rw [hr, hr₁, flatten_cons, append_assoc]
    · rw [hoff₁, hoff', ← hsm, flatten_cons, length_append, Nat.add_assoc]

lemma readSection_again {l l' : List DefinedMemory} (h : readSection d c = .ok (d₁, c₁))
    {used : List UInt8} (hr : c.rest = used ++ c₁.rest) (hagr : d.Agrees l l' d') (start : Nat)
    (tail : List UInt8) : ∃ d₁',
      readSection d' ⟨start, used ++ tail⟩ = .ok (d₁', ⟨start + used.length, tail⟩) ∧
        d₁.Agrees l l' d₁' := by
  obtain ⟨used', hr', -, hag⟩ := follows_readSection hagr h
  obtain rfl : used = used' := append_cancel_right (hr.symm.trans hr')
  exact hag start tail

lemma Runs.again {l l' : List DefinedMemory} (h : Runs allowed d c sections d₁ c₁)
    (hagr : d.Agrees l l' d') (start : Nat) (tail : List UInt8) : ∃ d₁',
      Runs allowed d' ⟨start, sections.flatten ++ tail⟩ sections d₁'
        ⟨start + sections.flatten.length, tail⟩ ∧ d₁.Agrees l l' d₁' := by
  induction h generalizing d' start with
  | done d c => exact ⟨d', .done d' _, hagr⟩
  | @step d d₁ d₂ c c₁ c₂ b more sections hrd hr halw _ ih =>
    obtain ⟨d₁', hrd', hagr'⟩ := readSection_again hrd hr hagr start (sections.flatten ++ tail)
    obtain ⟨d₂', hruns, hagr₂⟩ := ih hagr' (start + (b :: more).length)
    refine ⟨d₂', ?_, hagr₂⟩
    rw [flatten_cons, append_assoc, length_append, ← Nat.add_assoc]
    exact .step hrd' rfl halw hruns

lemma runs_of_sectionsFor (h : sectionsFor fuel d c = .ok d₁) (hfuel : c.rest.length ≤ fuel) :
    ∃ sections c₁, Runs (fun _ => True) d c sections d₁ c₁ ∧ c₁.rest = [] := by
  induction fuel generalizing d c with
  | zero =>
    obtain rfl := Except.ok.inj h
    exact ⟨[], c, .done d c, length_eq_zero_iff.mp (Nat.le_zero.mp hfuel)⟩
  | succ fuel ih =>
    rw [sectionsFor] at h
    by_cases hend : c.rest = []
    · rw [if_pos hend] at h
      obtain rfl := Except.ok.inj h
      exact ⟨[], c, .done d c, hend⟩
    · rw [if_neg hend] at h
      obtain ⟨⟨d₂, c₂⟩, hrd, h⟩ := Fallible.bind_ok h
      obtain ⟨b, more, hr, -⟩ := readSection_bytes hrd
      have hsho : c₂.rest.length ≤ fuel := by
        rw [hr, length_append, length_cons] at hfuel
        omega
      obtain ⟨sections, c₁, hruns, hfi⟩ := ih h hsho
      exact ⟨(b :: more) :: sections, c₁, .step hrd hr trivial hruns, hfi⟩

lemma Runs.sectionsFor_eq (h : Runs allowed d c sections d₁ c₁) (hend : c₁.rest = [])
    (hfuel : c.rest.length ≤ fuel) : sectionsFor fuel d c = .ok d₁ := by
  induction h generalizing fuel with
  | done d c =>
    cases fuel with
    | zero => rfl
    | succ fuel => rw [sectionsFor, if_pos hend]
  | @step d d₁ d₂ c c₁ c₂ b more sections hrd hr _ _ ih =>
    have hne : c.rest ≠ [] := by
      rw [hr]
      exact cons_ne_nil _ _
    rw [hr, length_append, length_cons] at hfuel
    obtain ⟨fuel, rfl⟩ : ∃ n, fuel = n + 1 := ⟨fuel - 1, by omega⟩
    rw [sectionsFor, if_neg hne, hrd]
    exact ih hend (by omega)

def splitSections : Nat → List UInt8 → Except ModuleError (List (List UInt8))
  | 0, _ => .ok []
  | fuel + 1, bytes =>
    if bytes = [] then .ok []
    else do
      let (_, c) ← frame ⟨0, bytes⟩
      let others ← splitSections fuel c.rest
      .ok (bytes.take c.offset :: others)

def sectionsOf (bytes : List UInt8) : Except ModuleError (List (List UInt8)) :=
  splitSections (bytes.drop 8).length (bytes.drop 8)

lemma Runs.splitSections_eq (h : Runs allowed d c sections d₁ c₁) (hend : c₁.rest = [])
    (hfuel : c.rest.length ≤ fuel) : splitSections fuel c.rest = .ok sections := by
  induction h generalizing fuel with
  | done d c =>
    rw [hend]
    cases fuel with
    | zero => rfl
    | succ fuel => rw [splitSections, if_pos rfl]
  | @step d d₁ d₂ c c₁ c₂ b more sections hrd hr _ _ ih =>
    obtain ⟨id, body, hfm, -⟩ := readSection_ok hrd
    obtain ⟨used, hu, -, hag⟩ := follows_frame hfm
    obtain rfl : b :: more = used := append_cancel_right (hr.symm.trans hu)
    obtain ⟨found, hfd, -⟩ := hag 0 c₁.rest
    rw [hr, length_append, length_cons] at hfuel
    obtain ⟨fuel, rfl⟩ : ∃ n, fuel = n + 1 := ⟨fuel - 1, by omega⟩
    rw [splitSections, hr, hfd]
    change (splitSections fuel c₁.rest >>= fun others => Except.ok
      (List.take (0 + (b :: more).length) (b :: more ++ c₁.rest) :: others)) = _
    rw [ih hend (by omega), Fallible.bind_eq, Nat.zero_add, take_left]

lemma times_push_ok {α : Type} {item : ByteReader α} {count : Nat} {items result : List α}
    (h : times (fun items => do let a ← item; pure (items ++ [a])) count items c = .ok (result, c₁))
    : ∃ more, result = items ++ more ∧ more.length = count ∧
        ∀ a ∈ more, ∃ c c₁, item c = .ok (a, c₁) := by
  induction count generalizing items c with
  | zero =>
    obtain ⟨rfl, -⟩ := pure_ok h
    exact ⟨[], (append_nil _).symm, rfl, fun a ha => absurd ha not_mem_nil⟩
  | succ count ih =>
    obtain ⟨items', c₃, hi, h⟩ := bind_ok h
    obtain ⟨a, c₄, ha, hpush⟩ := bind_ok hi
    obtain ⟨rfl, -⟩ := pure_ok hpush
    obtain ⟨more, rfl, rfl, hm⟩ := ih h
    refine ⟨a :: more, ?_, rfl, ?_⟩
    · rw [append_assoc, singleton_append]
    · exact forall_mem_cons.mpr ⟨⟨c, c₄, ha⟩, hm⟩

lemma pushes_ok {α : Type} {item : ByteReader α} {items result : List α}
    (h : pushes item items c = .ok (result, c₁)) : ∃ count c₂ more, u32 c = .ok (count, c₂) ∧
      result = items ++ more ∧ more.length = count ∧
      ∀ a ∈ more, ∃ c c₁, item c = .ok (a, c₁) := by
  obtain ⟨count, c₂, hcnt, h⟩ := bind_ok h
  obtain ⟨more, hres, hlen, hm⟩ := times_push_ok h
  exact ⟨count, c₂, more, hcnt, hres, hlen, hm⟩

lemma entries_keeps {span : Nat × Nat} {p : ByteReader Draft} (hid : id ≠ 5)
    (hp : entries id span d = some p) (h : p c = .ok (d₁, c₁)) :
    d₁.memories = d.memories ∧ d₁.memorySection = d.memorySection := by
  match id with
  | 0 | 4 | 6 | _ + 8 => cases hp
  | 5 => exact (hid rfl).elim
  | 1 | 3 | 7 =>
    cases hp
    obtain ⟨read, c', -, h⟩ := bind_ok h
    obtain ⟨rfl, -⟩ := pure_ok h
    exact ⟨rfl, rfl⟩
  | 2 =>
    cases hp
    obtain ⟨count, c', -, h⟩ := bind_ok h
    obtain ⟨read, c'', -, h⟩ := bind_ok h
    obtain ⟨rfl, -⟩ := pure_ok h
    exact ⟨rfl, rfl⟩

lemma readSection_keeps (h : readSection d c = .ok (d₁, c₁)) {b : UInt8} {more : List UInt8}
    (hr : c.rest = b :: more) (hb : b ≠ 5) :
    d₁.memories = d.memories ∧ d₁.memorySection = d.memorySection := by
  obtain ⟨id, body, hfm, hbo⟩ := readSection_ok h
  obtain ⟨b', size, rfl, hr', -⟩ := frame_ok hfm
  obtain rfl : b = b' := (List.cons.inj (hr.symm.trans hr')).1
  have hid : b.toNat ≠ 5 := fun hid => hb (UInt8.toNat_inj.mp hid)
  rw [sectionBody] at hbo
  split at hbo
  · rename_i p hp
    obtain ⟨c', hrd, -⟩ := whole_ok hbo
    exact entries_keeps hid hp hrd
  · cases hbo
    exact ⟨rfl, rfl⟩

lemma Runs.keeps (h : Runs (· ≠ 5) d c sections d₁ c₁) :
    d₁.memories = d.memories ∧ d₁.memorySection = d.memorySection := by
  induction h with
  | done d c => exact ⟨rfl, rfl⟩
  | step hrd hr halw _ ih =>
    obtain ⟨hmem, hsec⟩ := readSection_keeps hrd hr halw
    exact ⟨ih.1.trans hmem, ih.2.trans hsec⟩

def memoryCount (bytes : List UInt8) : Except ModuleError Nat := do
  let ((_, body), _) ← frame ⟨0, bytes⟩
  let (count, _) ← u32 body
  .ok count

lemma readSection_memory (h : readSection d c = .ok (d₁, c₁)) {more : List UInt8}
    (hr : c.rest = ((5 : UInt8) :: more) ++ c₁.rest) : ∃ added,
      d₁ = { d with
        memories := d.memories ++ added, memorySection := some (c.offset, c₁.offset) } ∧
      memoryCount (5 :: more) = .ok added.length ∧
      ∀ defined ∈ added, ∃ c c₁, memoryEntry c = .ok (defined, c₁) := by
  obtain ⟨id, body, hfm, hbo⟩ := readSection_ok h
  obtain ⟨b, size, rfl, hr', -⟩ := frame_ok hfm
  obtain rfl : (5 : UInt8) = b := (List.cons.inj (hr.symm.trans hr')).1
  obtain ⟨c', hrd, -⟩ := whole_ok hbo
  obtain ⟨memories, c₂, hpus, hrd⟩ := bind_ok hrd
  obtain ⟨rfl, -⟩ := pure_ok hrd
  obtain ⟨count, c₃, added, hcnt, rfl, rfl, hadded⟩ := pushes_ok hpus
  refine ⟨added, rfl, ?_, hadded⟩
  obtain ⟨used, hu, -, hag⟩ := follows_frame hfm
  obtain rfl : 5 :: more = used := append_cancel_right (hr.symm.trans hu)
  obtain ⟨⟨id', offset', bytes'⟩, hfd, rfl, rfl⟩ := hag 0 []
  obtain ⟨used', hbodyUsed, -, hcountAgain⟩ := follows_u32 hcnt
  obtain ⟨n, hn, rfl⟩ := hcountAgain offset' c₃.rest
  rw [← hbodyUsed] at hn
  rw [append_nil] at hfd
  rw [memoryCount, hfd]
  change (u32 ⟨offset', body.rest⟩ >>= fun r => Except.ok r.1) = _
  rw [hn, Fallible.bind_eq]

lemma Runs.split (h : Runs allowed d c sections d₂ c₂) :
    Runs (· ≠ 5) d c sections d₂ c₂ ∨ ∃ before more after d₁ c₁ d' c',
      sections = before ++ (5 :: more) :: after ∧ Runs allowed d c before d₁ c₁ ∧
      readSection d₁ c₁ = .ok (d', c') ∧ c₁.rest = (5 :: more) ++ c'.rest ∧
      Runs (· ≠ 5) d' c' after d₂ c₂ := by
  induction h with
  | done d c => exact .inl (.done d c)
  | @step d d₁ d₂ c c₁ c₂ b more sections hrd hr halw hruns ih =>
    rcases ih with hq | ⟨before, more', after, d₃, c₃, d', c', rfl, hpre, hl, hat, haft⟩
    · by_cases hb : b = 5
      · subst hb
        exact .inr ⟨[], more, sections, d, c, d₁, c₁, rfl, .done d c, hrd, hr, hq⟩
      · exact .inl (.step hrd hr hb hq)
    · exact .inr ⟨(b :: more) :: before, more', after, d₃, c₃, d', c', rfl,
        .step hrd hr halw hpre, hl, hat, haft⟩

end Morphir.Wasm
