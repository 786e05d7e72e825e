import Morphir.Mep.ModelBudget

/-!
# A scan stays in the document and in the budget

Every frame ends in the one around it, every item leaves less of the document to scan, and
the values that are counted do not exceed their limits.
-/

namespace Morphir.Mep.Guest

open Fallible Postcondition List Nat ModelBudget

def InBounds (stop : ScanStop) : Prop := stop ≠ .outOfBounds

lemma inBounds_refused (code : String) : InBounds (.refused code) := nofun

namespace BinaryCursor

variable {bytes : List UInt8}

lemma read_ensures (h : pos < bytes.length) : Ensures (read bytes pos) InBounds fun _ => True := by
  unfold read
  rw [List.getElem?_eq_getElem h]
  trivial

lemma varUintFrom_ensures (left value pos : Nat) (h : pos + left ≤ bytes.length) :
    Ensures (varUintFrom bytes value pos left) InBounds fun result =>
      pos < result.2 ∧ result.2 ≤ pos + left := by
  induction left generalizing value pos with
  | zero => exact inBounds_refused _
  | succ left ih =>
    apply (read_ensures (by omega)).bind
    intro octet _
    dsimp only
    split
    · exact inBounds_refused _
    split
    · exact ⟨lt_succ_self pos, by omega⟩
    · apply (ih _ (pos + 1) (by omega)).mono
      rintro result ⟨hlow, hhi⟩
      exact ⟨by omega, by omega⟩

variable {pos last : Nat}

section

variable (h : last ≤ bytes.length)

include h

lemma varUint_ensures :
    Ensures (varUint bytes pos last) InBounds fun result => pos < result.2 ∧ result.2 ≤ last := by
  unfold varUint
  by_cases hpos : pos ≤ last
  · apply (varUintFrom_ensures (last - pos) 0 pos (by omega)).mono
    rintro result ⟨hlow, hhi⟩
    exact ⟨hlow, by omega⟩
  · rw [Nat.sub_eq_zero_of_le (by omega)]
    exact inBounds_refused _

lemma bodyLength_ensures (hpos : pos ≤ last) (kind nibble : Nat) :
    Ensures (bodyLength bytes kind nibble pos last) InBounds fun result =>
      pos ≤ result.2 ∧ result.2 ≤ last := by
  unfold bodyLength
  split
  · exact ⟨le_refl pos, hpos⟩
  split
  · apply (varUint_ensures h).mono
    rintro result ⟨hlow, hhi⟩
    exact ⟨le_of_lt hlow, hhi⟩
  · exact ⟨le_refl pos, hpos⟩

lemma header_ensures :
    Ensures (header bytes pos last) InBounds fun result =>
      pos < result.2 ∧ result.2 ≤ result.1.last ∧ result.1.last ≤ last := by
  unfold header
  split
  · exact inBounds_refused _
  next hlt =>
    have hpos : pos < last := Decidable.not_not.mp hlt
    apply (read_ensures (by omega)).bind
    intro descriptor _
    apply (bodyLength_ensures h (succ_le_of_lt hpos) _ _).bind
    rintro ⟨length, after⟩ ⟨haft, hl⟩
    dsimp only at haft hl ⊢
    split
    · exact inBounds_refused _
    next hfi =>
      have hend : after + length ≤ last := by omega
      exact ⟨lt_of_lt_of_le (lt_succ_self pos) haft, le_add_right _ _, hend⟩

lemma skipUints_ensures (left pos : Nat) (hpos : pos ≤ last) :
    Ensures (skipUints bytes pos last left) InBounds fun result => pos ≤ result ∧ result ≤ last := by
  induction left generalizing pos with
  | zero => exact ⟨le_refl pos, hpos⟩
  | succ left ih =>
    unfold skipUints
    split
    · apply (varUint_ensures h).bind
      rintro ⟨_, after⟩ ⟨hlow, hhi⟩
      apply (ih after hhi).mono
      rintro result ⟨hres, hl⟩
      exact ⟨by omega, hl⟩
    · exact ⟨le_refl pos, hpos⟩

end

end BinaryCursor

/-- Where an item leaves a frame: not behind its end, and further in it. -/
def Item.Within (frame : BinaryFrame) (pos : Nat) : Item → Prop
  | .close => pos = frame.last
  | .marker => pos < frame.last
  | .padding last => pos < last ∧ last ≤ frame.last
  | .value header after depth _ _ =>
    pos < after ∧ after ≤ header.last ∧ header.last ≤ frame.last ∧ depth = frame.depth + 1

/-- The values that an item counts, in local symbol tables or outside of them. -/
def Item.counts (inTable : Bool) : Item → Nat
  | .value _ _ _ system _ => if system = inTable then 1 else 0
  | _ => 0

def Item.nesting : Item → Option Nat
  | .value _ _ depth _ _ => some depth
  | _ => none

/-- The count of the values in local symbol tables or of those outside of them. -/
def ModelBudget.count (budget : ModelBudget) (inTable : Bool) : Nat :=
  if inTable then budget.systemNodes else budget.nodes

lemma ModelBudget.charge_ensures (budget : ModelBudget) (depth : Nat) (system : Bool) :
    Ensures (budget.charge depth system) InBounds fun charged =>
      (depth : Int) ≤ budget.limits.depth ∧ charged.limits = budget.limits ∧
        (charged.count system : Int) ≤ budget.limits.nodes ∧
        ∀ inTable, charged.count inTable =
          budget.count inTable + if system = inTable then 1 else 0 := by
  unfold charge
  split
  · exact inBounds_refused _
  next hdep =>
    have hdep' := Decidable.not_not.mp hdep
    cases system with
    | true =>
      rw [if_pos rfl]
      split
      · exact inBounds_refused _
      next hnodes =>
        refine ⟨hdep', rfl, ?_, ?_⟩
        · simp only [count, if_true]
          omega
        · intro inTable
          cases inTable <;> simp [count]
    | false =>
      rw [if_neg Bool.false_ne_true]
      split
      · exact inBounds_refused _
      next hnodes =>
        refine ⟨hdep', rfl, ?_, ?_⟩
        · simp only [count, Bool.false_eq_true, if_false]
          omega
        · intro inTable
          cases inTable <;> simp [count]

namespace Scan

open BinaryCursor

variable {hasVersionMarker : List UInt8 → Nat → Bool} {bytes : List UInt8}

lemma annotated_ensures {pos wrapperEnd : Nat} (h : wrapperEnd ≤ bytes.length) (top : Bool) :
    Ensures (annotated bytes pos wrapperEnd top) InBounds fun result =>
      pos < result.2.1 ∧ result.2.1 ≤ result.1.last ∧ result.1.last = wrapperEnd := by
  apply (varUint_ensures h).bind
  rintro ⟨size, p⟩ ⟨hp, -⟩
  dsimp only at hp ⊢
  split
  · exact inBounds_refused _
  next hsz =>
    have hend : p + size ≤ wrapperEnd := by omega
    apply (varUint_ensures (le_trans hend h)).bind
    rintro ⟨first, q⟩ ⟨hq, hl⟩
    apply (skipUints_ensures (le_trans hend h) _ q hl).bind
    rintro r ⟨hr, -⟩
    apply (header_ensures h).bind
    rintro ⟨inner, s⟩ ⟨hs, hin, -⟩
    split
    · exact inBounds_refused _
    next hg =>
      have hwra := (Decidable.not_not.mp hg).2.2
      have hpos : pos < s := by omega
      exact ⟨hpos, hin, hwra⟩

lemma unwrap_ensures {outer : Header} (h : outer.last ≤ bytes.length) {pos : Nat}
    (hpos : pos ≤ outer.last) (top : Bool) :
    Ensures (unwrap bytes outer pos top) InBounds fun result =>
      pos ≤ result.2.1 ∧ result.2.1 ≤ result.1.last ∧ result.1.last = outer.last := by
  unfold unwrap
  split
  · apply (annotated_ensures h top).mono
    rintro result ⟨hlow, hhi, heq⟩
    exact ⟨le_of_lt hlow, hhi, heq⟩
  · exact ⟨le_refl pos, hpos, rfl⟩

variable {frame : BinaryFrame}

section

variable (h : frame.last ≤ bytes.length)

include h

lemma fieldSid_ensures (pos : Nat) :
    Ensures (fieldSid bytes frame pos) InBounds fun result => pos ≤ result.2 := by
  unfold fieldSid
  split
  · exact (varUint_ensures h).mono fun result hres => le_of_lt hres.1
  · exact le_refl pos

omit h in
lemma checkImports_ensures {header : Header} (h : header.last ≤ bytes.length) (frame : BinaryFrame)
    (sid pos : Nat) : Ensures (checkImports bytes frame sid header pos) InBounds fun _ => True := by
  unfold checkImports
  split
  · trivial
  split
  · trivial
  split
  next hone =>
    apply (read_ensures (by omega)).bind
    intro octet _
    split
    · trivial
    · exact inBounds_refused _
  · exact inBounds_refused _

lemma nextValue_ensures (top : Bool) (pos : Nat) :
    Ensures (nextValue bytes frame top pos) InBounds (Item.Within frame pos) := by
  apply (fieldSid_ensures h pos).bind
  rintro ⟨sid, p⟩ hp
  apply (header_ensures h).bind
  rintro ⟨outer, q⟩ ⟨hq, houter, hl⟩
  dsimp only at hq houter hl ⊢
  split
  · exact ⟨by omega, hl⟩
  have hwi : outer.last ≤ bytes.length := le_trans hl h
  apply (unwrap_ensures hwi houter top).bind
  rintro ⟨inner, r, localTable⟩ ⟨hr, hhi, heq⟩
  dsimp only at hr hhi heq ⊢
  rw [← heq] at hl hwi
  apply (checkImports_ensures hwi frame sid r).bind
  intro _ _
  exact ⟨by omega, hhi, hl, rfl⟩

lemma nextItem_ensures (top : Bool) (pos : Nat) :
    Ensures (nextItem hasVersionMarker bytes frame top pos) InBounds (Item.Within frame pos) := by
  unfold nextItem
  split
  next heq => exact heq
  split
  · exact inBounds_refused _
  next hlt =>
    have hpos : pos < frame.last := Decidable.not_not.mp hlt
    split
    · exact hpos
    · exact nextValue_ensures h top pos

end

/-- Open frames: each ends in the one around it, the outermost at the end of the document,
and its depth is the number of frames around it. -/
inductive Nested (length : Nat) : List BinaryFrame → Prop
  | done : Nested length []
  | root {frame : BinaryFrame} (hlast : frame.last = length) (hdepth : frame.depth = 0) :
      Nested length [frame]
  | inner {frame parent : BinaryFrame} {outer : List BinaryFrame}
      (houter : Nested length (parent :: outer)) (hlast : frame.last ≤ parent.last)
      (hdepth : frame.depth = parent.depth + 1) : Nested length (frame :: parent :: outer)

variable {length : Nat}

lemma Nested.outer {outer : List BinaryFrame} (h : Nested length (frame :: outer)) :
    Nested length outer := by
  cases h with
  | root hl hdep => exact .done
  | inner houter hl hdep => exact houter

lemma Nested.last_le {outer : List BinaryFrame} (h : Nested length (frame :: outer)) :
    frame.last ≤ length := by
  induction outer generalizing frame with
  | nil =>
    cases h with
    | root hl hdep => exact le_of_eq hl
  | cons parent outer ih =>
    cases h with
    | inner houter hl hdep => exact le_trans hl (ih houter)

def remaining (length : Nat) (scan : Scan) : Nat := 2 * (length - scan.pos) + scan.frames.length

structure Advances (length : Nat) (scan : Scan) (item : Item) (next : Scan) : Prop where
  nested : Nested length next.frames
  remaining_lt : remaining length next < remaining length scan
  limits : next.budget.limits = scan.budget.limits
  counts : ∀ inTable, next.budget.count inTable = scan.budget.count inTable + item.counts inTable
  within : ∀ inTable, item.counts inTable ≠ 0 →
    (next.budget.count inTable : Int) ≤ scan.budget.limits.nodes
  nesting : ∀ depth, item.nesting = some depth → (depth : Int) ≤ scan.budget.limits.depth

variable {scan : Scan}

lemma take_ensures {outer : List BinaryFrame} (hfra : scan.frames = frame :: outer)
    (hnest : Nested length scan.frames) {item : Item} (h : item.Within frame scan.pos) :
    Ensures (take scan outer item) InBounds (Advances length scan item) := by
  have hl : frame.last ≤ length := (hfra ▸ hnest).last_le
  have hcnt : scan.frames.length = outer.length + 1 := by rw [hfra, length_cons]
  cases item with
  | close =>
    refine ⟨(hfra ▸ hnest).outer, ?_, rfl, fun _ => rfl, nofun, nofun⟩
    simp only [remaining]
    omega
  | marker =>
    refine ⟨hnest, ?_, rfl, fun _ => rfl, nofun, nofun⟩
    have hpos : scan.pos < frame.last := h
    simp only [remaining]
    omega
  | padding last =>
    obtain ⟨hpos, hend⟩ := h
    refine ⟨hnest, ?_, rfl, fun _ => rfl, nofun, nofun⟩
    simp only [remaining]
    omega
  | value header pos depth system localTable =>
    obtain ⟨hpos, hhea, hend, hdep⟩ := h
    apply (scan.budget.charge_ensures depth system).bind
    rintro budget ⟨halw, hlim, hwi, hcou⟩
    have hbou : ∀ inTable, (Item.value header pos depth system localTable).counts inTable ≠ 0 →
          (budget.count inTable : Int) ≤ scan.budget.limits.nodes := by
      intro inTable hne
      by_cases hsys : system = inTable
      · rw [← hsys]
        exact hwi
      · rw [Item.counts, if_neg hsys] at hne
        exact absurd rfl hne
    have hnesting : ∀ d, (Item.value header pos depth system localTable).nesting = some d →
        (d : Int) ≤ scan.budget.limits.depth := by
      rintro d ⟨⟩
      exact halw
    split
    · refine ⟨?_, ?_, hlim, hcou, hbou, hnesting⟩
      · have hop : Nested length (frame :: outer) := hfra ▸ hnest
        rw [hfra]
        exact .inner hop hend hdep
      · simp only [remaining, length_cons]
        omega
    · refine ⟨hnest, ?_, hlim, hcou, hbou, hnesting⟩
      simp only [remaining]
      omega

lemma step_ensures {outer : List BinaryFrame} (hfra : scan.frames = frame :: outer)
    (hnes : Nested bytes.length scan.frames) :
    Ensures (step hasVersionMarker bytes scan frame outer) InBounds fun result =>
      Advances bytes.length scan result.1 result.2 := by
  have hl : frame.last ≤ bytes.length := (hfra ▸ hnes).last_le
  apply (nextItem_ensures hl outer.isEmpty scan.pos).bind
  intro item hi
  apply (take_ensures hfra hnes hi).bind
  intro next hnx
  exact hnx

inductive Reaches (hasVersionMarker : List UInt8 → Nat → Bool) (bytes : List UInt8) :
    Scan → List Item → Scan → Prop
  | refl (scan : Scan) : Reaches hasVersionMarker bytes scan [] scan
  | step {scan next last : Scan} {frame : BinaryFrame} {outer : List BinaryFrame} {item : Item}
      {items : List Item} (hframes : scan.frames = frame :: outer)
      (hstep : step hasVersionMarker bytes scan frame outer = .ok (item, next))
      (hrest : Reaches hasVersionMarker bytes next items last) :
      Reaches hasVersionMarker bytes scan (item :: items) last

variable (hasVersionMarker) in
lemma walk_reaches (steps : Nat) (hnes : Nested bytes.length scan.frames)
    (hsteps : remaining bytes.length scan ≤ steps) :
    ∃ result, (∀ more, steps ≤ more → walk hasVersionMarker bytes more scan = some result) ∧
      Ensures result InBounds fun (items, budget) =>
        ∃ last, Reaches hasVersionMarker bytes scan items last ∧ last.frames = [] ∧
          last.budget = budget := by
  induction steps generalizing scan with
  | zero =>
    have hfra : scan.frames = [] := by
      apply eq_nil_of_length_eq_zero
      unfold remaining at hsteps
      omega
    refine ⟨.ok ([], scan.budget), ?_, scan, .refl scan, hfra, rfl⟩
    intro more _
    cases more with
    | zero => rw [walk, if_pos hfra]
    | succ more => rw [walk, hfra]
  | succ steps ih =>
    cases hfra : scan.frames with
    | nil =>
      refine ⟨.ok ([], scan.budget), ?_, scan, .refl scan, hfra, rfl⟩
      intro more _
      cases more with
      | zero => rw [walk, if_pos hfra]
      | succ more => rw [walk, hfra]
    | cons frame outer =>
      have hens : Ensures (step hasVersionMarker bytes scan frame outer) InBounds _ :=
        step_ensures hfra hnes
      cases hs : step hasVersionMarker bytes scan frame outer with
      | error stop =>
        refine ⟨.error stop, ?_, hens.of_error hs⟩
        intro more hm
        cases more with
        | zero => cases hm
        | succ more =>
          rw [walk, hfra]
          dsimp only
          rw [hs]
      | ok result =>
        obtain ⟨item, next⟩ := result
        have hadv : Advances bytes.length scan item next := hens.of_ok hs
        have hless := hadv.remaining_lt
        obtain ⟨rest, hwalk, hr⟩ := ih hadv.nested (by omega)
        refine ⟨rest.map fun (items, budget) => (item :: items, budget), ?_, ?_⟩
        · intro more hm
          cases more with
          | zero => cases hm
          | succ more =>
            rw [walk, hfra]
            dsimp only
            rw [hs]
            dsimp only
            rw [hwalk more (le_of_succ_le_succ hm), Option.map_some]
        · cases rest with
          | error stop => exact hr
          | ok result =>
            obtain ⟨last, hrea, hdo⟩ := hr
            exact ⟨last, .step hfra hs hrea, hdo⟩

def counted (inTable : Bool) (items : List Item) : Nat := (items.map (Item.counts inTable)).sum

lemma Reaches.keeps {last : Scan} {items : List Item}
    (h : Reaches hasVersionMarker bytes scan items last) (hnest : Nested bytes.length scan.frames) :
    Nested bytes.length last.frames ∧
      items.length + remaining bytes.length last ≤ remaining bytes.length scan ∧
      last.budget.limits = scan.budget.limits ∧
      (∀ inTable, last.budget.count inTable = scan.budget.count inTable + counted inTable items) ∧
      (∀ inTable, counted inTable items ≠ 0 →
        (last.budget.count inTable : Int) ≤ scan.budget.limits.nodes) ∧
      ∀ item ∈ items, ∀ depth, item.nesting = some depth →
        (depth : Int) ≤ scan.budget.limits.depth := by
  induction h with
  | refl scan =>
    refine ⟨hnest, le_of_eq (zero_add _), rfl, fun _ => rfl, ?_, nofun⟩
    exact fun _ hne => absurd rfl hne
  | @step scan next last frame outer item items hfra hs hr ih =>
    have hadv : Advances bytes.length scan item next := (step_ensures hfra hnest).of_ok hs
    obtain ⟨hl, hlen, hlim, hcou, hwi, hnesting⟩ := ih hadv.nested
    have hsum : ∀ inTable,
        counted inTable (item :: items) = item.counts inTable + counted inTable items := by
      intro inTable
      rfl
    refine ⟨hl, ?_, hlim.trans hadv.limits, ?_, ?_, ?_⟩
    · have hless := hadv.remaining_lt
      rw [length_cons]
      omega
    · intro inTable
      rw [hcou, hadv.counts, hsum, add_assoc]
    · intro inTable hne
      rw [← hadv.limits]
      by_cases hits : counted inTable items = 0
      · rw [hcou, hits, hadv.limits]
        apply hadv.within inTable
        rw [hsum, hits] at hne
        exact hne
      · exact hwi inTable hits
    · intro walked hmem depth hdep
      rcases mem_cons.mp hmem with rfl | hmem
      · exact hadv.nesting depth hdep
      · rw [← hadv.limits]
        exact hnesting walked hmem depth hdep

end Scan

open Scan

/-- The scan of a document is over after a bounded number of steps and reads only in the
document.  At every point of it the frames are nested.  When it succeeds, the values outside
of local symbol tables and those in them are within the limit each, and so is the nesting. -/
theorem inspectBinary_bounded (hasVersionMarker : List UInt8 → Nat → Bool) (limits : Limits)
    (bytes : List UInt8) :
    (∃ result, (∀ steps, 2 * bytes.length + 1 ≤ steps →
        (ModelBudget.new limits).inspectBinary hasVersionMarker bytes steps = some result) ∧
      result ≠ .error .outOfBounds) ∧
    (∀ items scan, Reaches hasVersionMarker bytes (start (.new limits) bytes) items scan →
      items.length ≤ 2 * bytes.length + 1 ∧ Nested bytes.length scan.frames) ∧
    ∀ items budget,
      (ModelBudget.new limits).inspectBinary hasVersionMarker bytes (2 * bytes.length + 1) =
        some (.ok (items, budget)) →
      (∀ inTable, (counted inTable items : Int) ≤ max limits.nodes 0) ∧
        ∀ item ∈ items, ∀ depth, item.nesting = some depth → (depth : Int) ≤ limits.depth := by
  have hnest : Nested bytes.length (start (.new limits) bytes).frames := .root rfl rfl
  have hrem : remaining bytes.length (start (.new limits) bytes) ≤ 2 * bytes.length + 1 := by
    simp only [remaining, start, length_singleton]
    omega
  obtain ⟨result, hwalk, hens⟩ := walk_reaches hasVersionMarker _ hnest hrem
  refine ⟨?_, ?_, ?_⟩
  · by_cases hmar : hasVersionMarker bytes 0
    · refine ⟨result, ?_, ?_⟩
      · intro steps hsteps
        rw [inspectBinary, if_neg (not_not.mpr hmar), hwalk steps hsteps]
      · rintro rfl
        exact hens rfl
    · refine ⟨.error (.refused "invalid_ion"), ?_, nofun⟩
      intro steps _
      rw [inspectBinary, if_pos hmar]
  · intro items scan hrea
    obtain ⟨hl, hlen, -⟩ := hrea.keeps hnest
    exact ⟨by omega, hl⟩
  · intro items budget hins
    unfold inspectBinary at hins
    split at hins
    · cases Option.some.inj hins
    · rw [hwalk _ (le_refl _)] at hins
      obtain ⟨last, hrea, -, -⟩ := hens.of_ok (Option.some.inj hins)
      obtain ⟨-, -, -, hcou, hwi, hnesting⟩ := hrea.keeps hnest
      refine ⟨?_, hnesting⟩
      intro inTable
      have hcnt : last.budget.count inTable = counted inTable items := by
        rw [hcou]
        cases inTable <;> exact zero_add _
      by_cases hz : counted inTable items = 0
      · rw [hz]
        exact le_max_right _ _
      · have hle := hwi inTable hz
        rw [hcnt] at hle
        exact le_trans hle (le_max_left _ _)

def versionMarkerAt (bytes : List UInt8) (i : Nat) : Bool :=
  (bytes.drop i).take 4 == [0xE0, 0x01, 0x00, 0xEA]

/-- An empty local symbol table and a zero are two values under a limit of one. -/
theorem inspectBinary_exceeds :
    ¬ ∀ (limits : Limits) (bytes : List UInt8) (items : List Item) (budget : ModelBudget),
      (ModelBudget.new limits).inspectBinary versionMarkerAt bytes (2 * bytes.length + 1) =
        some (.ok (items, budget)) →
      ((counted true items + counted false items : Nat) : Int) ≤ limits.nodes := by
  intro h
  have hscan : (new ⟨4096, 4096, 128, 1⟩).inspectBinary versionMarkerAt
      [0xE0, 0x01, 0x00, 0xEA, 0xE3, 0x81, 0x83, 0xD0, 0x20] 19 =
        some (.ok ([.value ⟨13, 0, 8⟩ 8 1 true true, .close, .value ⟨2, 0, 9⟩ 9 1 false false,
          .close], ⟨⟨4096, 4096, 128, 1⟩, 1, 1⟩)) := by decide
  have hle := h _ _ _ _ hscan
  revert hle
  decide

end Morphir.Mep.Guest
