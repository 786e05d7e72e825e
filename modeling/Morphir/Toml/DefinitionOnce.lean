import Morphir.Library.Fallible
import Morphir.Toml.TableStore

/-!
# Every table is defined once

The definitions that the statements of a document make, by element path, and
when an accepted document defines each location at most once.
-/

namespace Morphir.Toml

open Tables Except Value Fallible

/-- A definition of a location: by a header, through the dotted keys of the
section of a header, by an assigned value (an inline table is one), or as an
array of tables, whose headers are one definition together. -/
inductive Definition
  | header (statement : Nat)
  | dotted (opened : Location)
  | value (statement : Nat)
  | arrayOfTables
  deriving DecidableEq

abbrev Definitions := List (Location × Definition)

/-- The definitions of an entry: of every table on the way and of its value. -/
def entryDefinitions (table : Location) (statement : Nat) (keys : KeyPath) : Definitions :=
  (keys.parents.inits.tail.map fun ks => (table ++ keySteps ks, .dotted table)) ++
    [(table ++ keySteps keys.segments, .value statement)]

/-- The definitions of a statement between the states before and after it. -/
def statementDefinitions (state next : State) (number : Nat) : Statement → Definitions
  | .assignment _ entry => entryDefinitions state.current number entry.keys
  | .header _ .standard _ => [(next.current, .header number)]
  | .header _ .arrayOfTables _ =>
    [(next.current.dropLast, .arrayOfTables), (next.current, .header number)]

def definitionsFrom (source : String) (state : State) (number : Nat) :
    List Statement → Definitions
  | [] => []
  | statement :: statements =>
    match validateStatement source state statement with
    | .ok next =>
      statementDefinitions state next number statement ++
        definitionsFrom source next (number + 1) statements
    | .error _ => []

def definitions (source : String) (statements : List Statement) : Definitions :=
  definitionsFrom source .start 0 statements

def DefinedOnce (defined : Definitions) : Prop :=
  ∀ t d d', (t, d) ∈ defined → (t, d') ∈ defined → d = d'

lemma definedOnce_iff_pairs (defined : Definitions) :
    DefinedOnce defined ↔ ∀ x ∈ defined, ∀ y ∈ defined, x.1 = y.1 → x.2 = y.2 := by
  constructor
  · rintro h ⟨t, d⟩ hx ⟨t', d'⟩ hy rfl
    exact h t d d' hx hy
  · intro h t d d' hd hd'
    exact h (t, d) hd (t, d') hd' rfl

instance (defined : Definitions) : Decidable (DefinedOnce defined) :=
  decidable_of_iff _ (definedOnce_iff_pairs defined).symm

/-- No header opens a table that dotted keys have already gone through. -/
def HeadersFresh (source : String) (statements : List Statement) : Prop :=
  ∀ before path span after, statements = before ++ .header path .standard span :: after →
    ∀ state, validateStatements source before = .ok state →
    ∀ t, locate state.tables [] path.segments = some t →
    ∀ opened, (t, .dotted opened) ∉ definitions source before

variable {t : Location} {d : Definition}

lemma mem_entryDefinitions {table : Location} {number : Nat} {keys : KeyPath} :
    (t, d) ∈ entryDefinitions table number keys ↔
      (d = .dotted table ∧ ∃ ks, ks ≠ [] ∧ ks <+: keys.parents ∧ t = table ++ keySteps ks) ∨
      (d = .value number ∧ t = table ++ keySteps keys.segments) := by
  have htl : ∀ ks, ks ∈ keys.parents.inits.tail ↔ ks ≠ [] ∧ ks <+: keys.parents := by
    intro ks
    cases hpar : keys.parents with
    | nil => simp
    | cons key rest =>
      simp only [List.inits, List.tail_cons, List.mem_map, List.mem_inits]
      constructor
      · rintro ⟨ks', hks', rfl⟩
        exact ⟨by simp, List.cons_prefix_cons.mpr ⟨rfl, hks'⟩⟩
      · rintro ⟨hne, hks⟩
        cases ks with
        | nil => exact absurd rfl hne
        | cons k ks =>
          obtain ⟨rfl, hr⟩ := List.cons_prefix_cons.mp hks
          exact ⟨ks, hr, rfl⟩
  simp only [entryDefinitions, List.mem_append, List.mem_map, List.mem_singleton, htl,
    Prod.mk.injEq]
  constructor
  · rintro (⟨ks, ⟨hne, hks⟩, rfl, rfl⟩ | ⟨rfl, rfl⟩)
    · exact .inl ⟨rfl, ks, hne, hks, rfl⟩
    · exact .inr ⟨rfl, rfl⟩
  · rintro (⟨rfl, ks, hne, hks, rfl⟩ | ⟨rfl, rfl⟩)
    · exact .inl ⟨ks, ⟨hne, hks⟩, rfl, rfl⟩
    · exact .inr ⟨rfl, rfl⟩

lemma validateStatements_append (source : String) (front back : List Statement) :
    validateStatements source (front ++ back) =
      (validateStatements source front).bind fun state =>
        back.foldlM (validateStatement source) state := by
  simp [validateStatements]
  rfl

variable {source : String} {statement : Statement}

variable {front : List Statement}

lemma validateStatements_snoc (h : validateStatements source (front ++ [statement]) = .ok next) :
    ∃ state, validateStatements source front = .ok state ∧
      validateStatement source state statement = .ok next := by
  rw [validateStatements_append] at h
  cases hfr : validateStatements source front with
  | error error => simp [hfr, Except.bind] at h
  | ok state =>
    cases hs : validateStatement source state statement with
    | error error => simp [hfr, hs, Except.bind] at h
    | ok next' => simpa [hfr, hs, Except.bind, bind, pure, Except.pure] using h

variable {state next : State}

lemma definitionsFrom_append {back : List Statement} (number : Nat)
    (h : front.foldlM (validateStatement source) state = .ok next) :
    definitionsFrom source state number (front ++ back) =
      definitionsFrom source state number front ++
        definitionsFrom source next (number + front.length) back := by
  induction front generalizing state number with
  | nil =>
    cases h
    simp [definitionsFrom]
  | cons statement front ih =>
    cases hs : validateStatement source state statement with
    | error error => simp [hs, bind, Except.bind] at h
    | ok middle =>
      have hr : front.foldlM (validateStatement source) middle = .ok next := by
        simpa [hs, bind, Except.bind] using h
      simp [definitionsFrom, hs, ih (number + 1) hr, Nat.add_comm, Nat.add_left_comm]

lemma definitions_snoc (h : validateStatements source front = .ok state)
    (hs : validateStatement source state statement = .ok next) :
    definitions source (front ++ [statement]) =
      definitions source front ++ statementDefinitions state next front.length statement := by
  rw [definitions, definitionsFrom_append 0 h]
  simp [definitionsFrom, hs, definitions]

structure Recorded (state : State) (defined : Definitions) (number : Nat) : Prop where
  placed : state.tables.Placed
  root : state.tables.declaration [] = some .explicit
  current : state.tables.declaration state.current = some .explicit
  header : ∀ t i, (t, .header i) ∈ defined →
    state.tables.declaration t = some .explicit ∧ i < number
  dotted : ∀ t opened, (t, .dotted opened) ∈ defined →
    (∃ d, state.tables.declaration t = some d ∧ d ≠ .explicit) ∧
    state.tables.declaration opened = some .explicit ∧
    ∃ keys, keys ≠ [] ∧ t = opened ++ keySteps keys ∧
      ∀ ks, ks ≠ [] → ks <+: keys → (opened ++ keySteps ks, .dotted opened) ∈ defined
  value : ∀ t i, (t, .value i) ∈ defined →
    ∃ p key, t = p ++ [.key key] ∧ state.tables.binding p key = some .leaf ∧ i < number
  array : ∀ t, (t, .arrayOfTables) ∈ defined →
    ∃ p key length, t = p ++ [.key key] ∧ state.tables.binding p key = some (.tableArray length)
  once : DefinedOnce defined

namespace Recorded

variable {state : State} {defined : Definitions} {number : Nat}

lemma start : Recorded .start [] 0 := by
  refine ⟨root_placed, ?_, ?_, ?_, ?_, ?_, ?_, ?_⟩
  · rfl
  · rfl
  all_goals simp [DefinedOnce]

lemma stored (h : Recorded state defined number) (hd : (t, d) ∈ defined) :
    (state.tables.declaration t).isSome ∨
    (∃ i, d = .value i ∧ ∃ p key, t = p ++ [.key key] ∧ state.tables.binding p key = some .leaf) ∨
    (d = .arrayOfTables ∧ ∃ p key length, t = p ++ [.key key] ∧
      state.tables.binding p key = some (.tableArray length)) := by
  cases d with
  | header i => exact .inl (by rw [(h.header t i hd).1]; rfl)
  | dotted opened =>
    obtain ⟨⟨d, hd, _⟩, _⟩ := h.dotted t opened hd
    exact .inl (by rw [hd]; rfl)
  | value i =>
    obtain ⟨p, key, ht, hb, _⟩ := h.value t i hd
    exact .inr (.inl ⟨i, rfl, p, key, ht, hb⟩)
  | arrayOfTables => exact .inr (.inr ⟨rfl, h.array t hd⟩)

variable {key : String} {p : Location}

section

variable (h : Recorded state defined number)

include h

lemma binding_of_defined (hd : (p ++ [.key key], d) ∈ defined) :
    state.tables.binding p key = some .child ∨
    (∃ i, d = .value i ∧ state.tables.binding p key = some .leaf) ∨
    (d = .arrayOfTables ∧ ∃ length, state.tables.binding p key = some (.tableArray length)) := by
  rcases h.stored hd with hsto | ⟨i, hd', q, name, heq, hb⟩ | ⟨hd', q, name, length, heq, hb⟩
  · exact .inl (h.placed.binding_of_key hsto)
  · obtain ⟨rfl, rfl⟩ := append_key_inj heq
    exact .inr (.inl ⟨i, hd', hb⟩)
  · obtain ⟨rfl, rfl⟩ := append_key_inj heq
    exact .inr (.inr ⟨hd', length, hb⟩)

lemma not_defined_of_free (hf : state.tables.binding p key = none) (d : Definition) :
    (p ++ [.key key], d) ∉ defined := by
  intro hd
  rcases h.binding_of_defined hd with hb | ⟨i, _, hb⟩ | ⟨_, length, hb⟩ <;>
    simp [hf] at hb

lemma not_defined_of_beyond {j : Nat}
    (hbey : ∀ length, state.tables.binding p key = some (.tableArray length) → length ≤ j)
    (d : Definition) : (p ++ [.key key, .index j], d) ∉ defined := by
  intro hd
  rcases h.stored hd with hsto | ⟨i, _, q, name, heq, _⟩ | ⟨_, q, name, length, heq, _⟩
  · obtain ⟨length, hb, hlt⟩ := h.placed.binding_of_index hsto
    have hle := hbey length hb
    omega
  · exact absurd heq.symm append_key_ne_index
  · exact absurd heq.symm append_key_ne_index

lemma opened_eq {keys : List String}
    (hway : ∀ ks, ks ≠ [] → ks <+: keys →
      state.tables.declaration (state.current ++ keySteps ks) ≠ some .explicit)
    {ks : List String} (hks : ks <+: keys) {opened : Location}
    (hd : (state.current ++ keySteps ks, .dotted opened) ∈ defined) : opened = state.current := by
  obtain ⟨_, hope, keys', _, heq, hmid⟩ := h.dotted _ _ hd
  rcases List.append_eq_append_iff.mp heq with ⟨between, hbet, hspl⟩ |
    ⟨between, hbet, hspl⟩
  · -- the other section lies below the current one, on the way of the keys
    obtain ⟨ks₁, ks₂, rfl, rfl, _⟩ := List.map_eq_append_iff.mp hspl
    by_cases hnil : ks₁ = []
    · simpa [hnil] using hbet
    · have hpre : ks₁ <+: keys := (List.prefix_append ks₁ ks₂).trans hks
      refine absurd hope ?_
      rw [hbet]
      exact hway ks₁ hnil hpre
  · -- the current section lies below the other one
    obtain ⟨ks₁, ks₂, rfl, rfl, _⟩ := List.map_eq_append_iff.mp hspl
    by_cases hnil : ks₁ = []
    · simpa [hnil] using hbet.symm
    · have hcur := hmid ks₁ hnil (List.prefix_append ks₁ ks₂)
      obtain ⟨⟨d, hd, hne⟩, _⟩ := h.dotted _ _ hcur
      have hexp := h.current
      rw [hbet] at hexp
      rw [show opened ++ keySteps ks₁ = opened ++ List.map .key ks₁ from rfl, hexp] at hd
      exact absurd (Option.some.inj hd).symm hne

end

lemma once_append (h : DefinedOnce defined) {new : Definitions} (hnew : DefinedOnce new)
    (hfr : ∀ t d d', (t, d) ∈ new → (t, d') ∈ defined → d = d') : DefinedOnce (defined ++ new) := by
  intro t d d' hd hd'
  rcases List.mem_append.mp hd with hold | hadd <;> rcases List.mem_append.mp hd' with hold' | hadd'
  · exact h t d d' hold hold'
  · exact (hfr t d' d hadd' hold).symm
  · exact hfr t d d' hadd hold'
  · exact hnew t d d' hadd hadd'

lemma once_entry (table : Location) (number : Nat) (keys : KeyPath) :
    DefinedOnce (entryDefinitions table number keys) := by
  have hdif : ∀ ks, ks <+: keys.parents →
      table ++ keySteps ks ≠ table ++ keySteps keys.segments := by
    intro ks hks heq
    have hlen := hks.length_le
    have hseg := congrArg List.length (keySteps_injective (List.append_cancel_left heq))
    simp only [KeyPath.segments, List.length_append, List.length_singleton] at hseg
    omega
  intro t d d' hd hd'
  rcases mem_entryDefinitions.mp hd with ⟨rfl, ks, _, hks, rfl⟩ | ⟨rfl, rfl⟩ <;>
    rcases mem_entryDefinitions.mp hd' with ⟨rfl, ks', _, hks', ht⟩ | ⟨rfl, ht⟩
  · rfl
  · exact absurd ht (hdif ks hks)
  · exact absurd ht.symm (hdif ks' hks')
  · rfl

variable {tables : Tables}

section

variable (h : Recorded state defined number)

include h

lemma entry {entry : Entry}
    (hent : declareEntry source state.tables state.current entry = .ok tables) :
    Recorded { state with tables } (defined ++ entryDefinitions state.current number entry.keys)
      (number + 1) := by
  unfold declareEntry at hent
  cases hdes : descend source entry.start true state.tables state.current
      entry.keys.parents with
  | error error => simp [hdes] at hent
  | ok reached =>
    obtain ⟨walked, t⟩ := reached
    simp only [hdes] at hent
    split_ifs at hent with hf
    · cases hent
    simp only [ok.injEq] at hent
    subst hent
    rw [Option.not_isSome_iff_eq_none] at hf
    have hcur : (state.tables.declaration state.current).isSome := by rw [h.current]; rfl
    obtain ⟨hpla, hexs, ht⟩ := descend_placed h.placed hcur hdes
    obtain ⟨rfl, hway⟩ := descend_dotted h.placed hcur hdes
    set t := state.current ++ keySteps entry.keys.parents with htdef
    have hval : state.current ++ keySteps entry.keys.segments = t ++ [.key entry.keys.last] := by
      simp [htdef, KeyPath.segments]
    have hkp : ∀ p key b, state.tables.binding p key = some b →
        (walked.setField t entry.keys.last .leaf).binding p key = some b := by
      intro p key b hb
      have hb' := hexs.binding p key b hb
      rw [binding_setField ht, if_neg]
      · exact hb'
      · rintro ⟨rfl, rfl⟩
        rw [hf] at hb'
        cases hb'
    refine ⟨hpla.setField_leaf ht hf, ?_, ?_, ?_, ?_, ?_, ?_, ?_⟩
    · rw [declaration_setField]
      exact hexs.declaration _ _ h.root
    · rw [declaration_setField]
      exact hexs.declaration _ _ h.current
    · intro t' i hd
      rcases List.mem_append.mp hd with hold | hnew
      · obtain ⟨hexp, hi⟩ := h.header t' i hold
        rw [declaration_setField]
        exact ⟨hexs.declaration _ _ hexp, by omega⟩
      · rcases mem_entryDefinitions.mp hnew with ⟨hcon, _⟩ | ⟨hcon, _⟩ <;> cases hcon
    · intro t' opened hd
      simp only [declaration_setField]
      rcases List.mem_append.mp hd with hold | hnew
      · obtain ⟨⟨d, hd, hne⟩, hope, keys, hkeys, heq, hmid⟩ := h.dotted t' opened hold
        refine ⟨⟨d, hexs.declaration _ _ hd, hne⟩, hexs.declaration _ _ hope, keys,
          hkeys, heq, fun ks hks hpre => ?_⟩
        exact List.mem_append_left _ (hmid ks hks hpre)
      · rcases mem_entryDefinitions.mp hnew with ⟨hd', ks, hks, hpre, rfl⟩ | ⟨hcon, _⟩
        · obtain rfl := Definition.dotted.inj hd'
          refine ⟨(hway ks hks hpre).2, hexs.declaration _ _ h.current, ks, hks, rfl, ?_⟩
          intro ks' hks' hpre'
          exact List.mem_append_right _ (mem_entryDefinitions.mpr
            (.inl ⟨rfl, ks', hks', hpre'.trans hpre, rfl⟩))
        · cases hcon
    · intro t' i hd
      rcases List.mem_append.mp hd with hold | hnew
      · obtain ⟨p, key, heq, hb, hi⟩ := h.value t' i hold
        exact ⟨p, key, heq, hkp _ _ _ hb, by omega⟩
      · rcases mem_entryDefinitions.mp hnew with ⟨hcon, _⟩ | ⟨hd', rfl⟩
        · cases hcon
        · obtain rfl := Definition.value.inj hd'
          refine ⟨t, entry.keys.last, hval, ?_, by omega⟩
          rw [binding_setField ht, if_pos ⟨rfl, rfl⟩]
    · intro t' hd
      rcases List.mem_append.mp hd with hold | hnew
      · obtain ⟨p, key, length, heq, hb⟩ := h.array t' hold
        exact ⟨p, key, length, heq, hkp _ _ _ hb⟩
      · rcases mem_entryDefinitions.mp hnew with ⟨hcon, _⟩ | ⟨hcon, _⟩ <;> cases hcon
    · refine once_append h.once (once_entry _ _ _) fun t' d d' hnew hold => ?_
      rcases mem_entryDefinitions.mp hnew with ⟨rfl, ks, hks, hpre, rfl⟩ | ⟨rfl, rfl⟩
      · obtain ⟨hnot, e, he, hne⟩ := hway ks hks hpre
        have hl : state.current ++ keySteps ks =
            (state.current ++ keySteps ks.dropLast) ++ [.key (ks.getLast hks)] := by
          conv_lhs => rw [← List.dropLast_append_getLast hks]
          simp
        have hbin : walked.binding (state.current ++ keySteps ks.dropLast)
            (ks.getLast hks) = some .child := by
          refine hpla.binding_of_key ?_
          rw [← hl, he]
          rfl
        cases d' with
        | header i => exact absurd (h.header _ i hold).1 hnot
        | dotted opened => rw [h.opened_eq (fun ks hks hpre => (hway ks hks hpre).1) hpre hold]
        | value i =>
          obtain ⟨p, key, heq, hb, _⟩ := h.value _ i hold
          obtain ⟨rfl, rfl⟩ := append_key_inj (hl.symm.trans heq)
          rw [hexs.binding _ _ _ hb] at hbin
          cases hbin
        | arrayOfTables =>
          obtain ⟨p, key, length, heq, hb⟩ := h.array _ hold
          obtain ⟨rfl, rfl⟩ := append_key_inj (hl.symm.trans heq)
          rw [hexs.binding _ _ _ hb] at hbin
          cases hbin
      · rw [hval] at hold
        rcases h.binding_of_defined hold with hb | ⟨i, _, hb⟩ | ⟨_, length, hb⟩ <;>
          · have hb' := hexs.binding _ _ _ hb
            rw [hf] at hb'
            cases hb'

lemma change (hpla : tables.Placed)
    (hexp : ∀ t, state.tables.declaration t = some .explicit →
      tables.declaration t = some .explicit)
    (hdot : ∀ t opened d, (t, .dotted opened) ∈ defined →
      state.tables.declaration t = some d → tables.declaration t = some d)
    (hlf : ∀ p key, state.tables.binding p key = some .leaf → tables.binding p key = some .leaf)
    (harray : ∀ p key length, state.tables.binding p key = some (.tableArray length) →
      ∃ length', tables.binding p key = some (.tableArray length')) :
    Recorded { state with tables } defined number := by
  refine ⟨hpla, hexp _ h.root, hexp _ h.current, ?_, ?_, ?_, ?_, h.once⟩
  · intro t i hd
    obtain ⟨hdc, hi⟩ := h.header t i hd
    exact ⟨hexp t hdc, hi⟩
  · intro t opened hd
    obtain ⟨⟨d, hdc, hne⟩, hope, hks⟩ := h.dotted t opened hd
    exact ⟨⟨d, hdot t opened d hd hdc, hne⟩, hexp _ hope, hks⟩
  · intro t i hd
    obtain ⟨p, key, heq, hb, hi⟩ := h.value t i hd
    exact ⟨p, key, heq, hlf p key hb, hi⟩
  · intro t hd
    obtain ⟨p, key, length, heq, hb⟩ := h.array t hd
    obtain ⟨length', hb'⟩ := harray p key length hb
    exact ⟨p, key, length', heq, hb'⟩

lemma extend (hpla : tables.Placed) (hexs : Extends state.tables tables) :
    Recorded { state with tables } defined number :=
  h.change hpla (fun t => hexs.declaration t _)
    (fun t _ d _ => hexs.declaration t d) (fun p key => hexs.binding p key _)
    (fun p key length hb => ⟨length, hexs.binding p key _ hb⟩)

lemma opened (hexp : state.tables.declaration t = some .explicit) (hnew : ∀ d, (t, d) ∉ defined) :
    Recorded { state with current := t } (defined ++ [(t, .header number)]) (number + 1) := by
  refine ⟨h.placed, h.root, hexp, ?_, ?_, ?_, ?_, ?_⟩
  · intro t' i hd
    rcases List.mem_append.mp hd with hold | hadd
    · obtain ⟨hdc, hi⟩ := h.header t' i hold
      exact ⟨hdc, by omega⟩
    · simp only [List.mem_singleton, Prod.mk.injEq, Definition.header.injEq] at hadd
      obtain ⟨rfl, rfl⟩ := hadd
      exact ⟨hexp, by omega⟩
  · intro t' opened hd
    rcases List.mem_append.mp hd with hold | hadd
    · obtain ⟨hdc, hope, keys, hkeys, heq, hmid⟩ := h.dotted t' opened hold
      exact ⟨hdc, hope, keys, hkeys, heq,
        fun ks hks hpre => List.mem_append_left _ (hmid ks hks hpre)⟩
    · simp at hadd
  · intro t' i hd
    rcases List.mem_append.mp hd with hold | hadd
    · obtain ⟨p, key, heq, hb, hi⟩ := h.value t' i hold
      exact ⟨p, key, heq, hb, by omega⟩
    · simp at hadd
  · intro t' hd
    rcases List.mem_append.mp hd with hold | hadd
    · exact h.array t' hold
    · simp at hadd
  · refine once_append h.once ?_ fun t' d d' hadd hold => ?_
    · intro t' d d' hd hd'
      simp only [List.mem_singleton, Prod.mk.injEq] at hd hd'
      rw [hd.2, hd'.2]
    · simp only [List.mem_singleton] at hadd
      obtain ⟨rfl, rfl⟩ := hadd
      exact absurd hold (hnew d')

lemma ofArray {length : Nat} (hb : state.tables.binding p key = some (.tableArray length)) :
    Recorded state (defined ++ [(p ++ [.key key], .arrayOfTables)]) number := by
  refine ⟨h.placed, h.root, h.current, ?_, ?_, ?_, ?_, ?_⟩
  · intro t i hd
    rcases List.mem_append.mp hd with hold | hadd
    · exact h.header t i hold
    · simp at hadd
  · intro t opened hd
    rcases List.mem_append.mp hd with hold | hadd
    · obtain ⟨hdc, hope, keys, hkeys, heq, hmid⟩ := h.dotted t opened hold
      exact ⟨hdc, hope, keys, hkeys, heq,
        fun ks hks hpre => List.mem_append_left _ (hmid ks hks hpre)⟩
    · simp at hadd
  · intro t i hd
    rcases List.mem_append.mp hd with hold | hadd
    · exact h.value t i hold
    · simp at hadd
  · intro t hd
    rcases List.mem_append.mp hd with hold | hadd
    · exact h.array t hold
    · simp only [List.mem_singleton, Prod.mk.injEq, and_true] at hadd
      exact ⟨p, key, length, hadd, hb⟩
  · refine once_append h.once ?_ fun t d d' hadd hold => ?_
    · intro t d d' hd hd'
      simp only [List.mem_singleton, Prod.mk.injEq] at hd hd'
      rw [hd.2, hd'.2]
    · simp only [List.mem_singleton] at hadd
      obtain ⟨rfl, rfl⟩ := hadd
      rcases h.binding_of_defined hold with hch | ⟨i, _, hlf⟩ | ⟨rfl, _⟩
      · simp [hb] at hch
      · simp [hb] at hlf
      · rfl

lemma element (length : Nat)
    (ht : (state.tables.declaration t).isSome)
    (hbd : (length = 0 ∧ state.tables.binding t key = none) ∨
      state.tables.binding t key = some (.tableArray length)) :
    Recorded
      ⟨(state.tables.setField t key (.tableArray (length + 1))).newTable
        (t ++ [.key key, .index length]) .explicit, t ++ [.key key, .index length]⟩
      (defined ++ [(t ++ [.key key], .arrayOfTables),
        (t ++ [.key key, .index length], .header number)]) (number + 1) := by
  have hpla := h.placed.newElement ht hbd .explicit
  have hbey : ∀ n, state.tables.binding t key = some (.tableArray n) → n ≤ length := by
    intro n hn
    rcases hbd with ⟨_, hf⟩ | harray
    · simp [hf] at hn
    · rw [harray] at hn
      cases hn
      exact le_rfl
  have hnew : state.tables.declaration (t ++ [.key key, .index length]) = none := by
    rw [← Option.not_isSome_iff_eq_none]
    intro hso
    obtain ⟨n, hn, hlt⟩ := h.placed.binding_of_index hso
    have hle := hbey n hn
    omega
  have ho : ∀ p name, (state.tables.declaration p).isSome → ¬ (t = p ∧ key = name) →
      ((state.tables.setField t key (.tableArray (length + 1))).newTable
        (t ++ [.key key, .index length]) .explicit).binding p name =
        state.tables.binding p name := by
    intro p name hp hne
    rw [binding_newTable, binding_setField ht, if_neg, if_neg hne]
    rintro rfl
    rw [hnew] at hp
    cases hp
  have hsm : ((state.tables.setField t key (.tableArray (length + 1))).newTable
      (t ++ [.key key, .index length]) .explicit).binding t key =
      some (.tableArray (length + 1)) := by
    rw [binding_newTable, binding_setField ht, if_neg (by simp), if_pos ⟨rfl, rfl⟩]
  have hcha := h.change hpla
    (fun t' ht' => by
      rw [declaration_newTable, declaration_setField]
      split_ifs
      · rfl
      · exact ht')
    (fun t' _ d _ ht' => by
      rw [declaration_newTable, declaration_setField, if_neg]
      · exact ht'
      · rintro rfl
        rw [hnew] at ht'
        cases ht')
    (fun p name hlf => by
      rw [ho p name (stored_of_binding hlf)]
      · exact hlf
      · rintro ⟨rfl, rfl⟩
        rcases hbd with ⟨_, hf⟩ | harray
        · simp [hf] at hlf
        · simp [harray] at hlf)
    (fun p name n hn => by
      by_cases hp : t = p ∧ key = name
      · obtain ⟨rfl, rfl⟩ := hp
        exact ⟨_, hsm⟩
      · exact ⟨n, by rw [ho p name (stored_of_binding hn) hp, hn]⟩)
  have hrcd := (hcha.ofArray hsm).opened (t := t ++ [.key key, .index length])
    (by rw [declaration_newTable, if_pos rfl]) (fun d hd => by
      rcases List.mem_append.mp hd with hold | hadd
      · exact h.not_defined_of_beyond hbey d hold
      · simp only [List.mem_singleton, Prod.mk.injEq] at hadd
        exact append_key_ne_index hadd.1.symm)
  simpa using hrcd

lemma header_step {path : KeyPath} {kind : TableKind}
    {span : Span} {next before : State} (ht : (state.tables.declaration t).isSome)
    (hop : openHeader source state.tables t path.last kind span = .ok next)
    (hfr : kind = .standard → state.tables.binding t path.last = some .child →
      ∀ opened, (t ++ [.key path.last], .dotted opened) ∉ defined) :
    Recorded next
      (defined ++ statementDefinitions before next number (.header path kind span))
      (number + 1) := by
  rcases openHeader_cases hop with ⟨rfl, hb, rfl⟩ | ⟨rfl, hb, himp, rfl⟩ | ⟨rfl, length, hb, rfl⟩
  · have hsto := h.extend (h.placed.newChild ht hb .explicit)
      (extends_newChild h.placed ht hb .explicit)
    refine hsto.opened ?_ (h.not_defined_of_free hb)
    rw [declaration_newTable, if_pos rfl]
  · have hsto : (state.tables.declaration (t ++ [.key path.last])).isSome := by
      rw [himp]
      rfl
    have hund := hfr rfl hb
    have hcha := h.change (h.placed.declare hsto .explicit)
      (fun t' ht' => by
        rw [declaration_declare hsto]
        split_ifs
        · rfl
        · exact ht')
      (fun t' opened d hd ht' => by
        rw [declaration_declare hsto, if_neg]
        · exact ht'
        · rintro rfl
          exact hund opened hd)
      (fun p name hlf => by rw [binding_declare, hlf])
      (fun p name n hn => ⟨n, by rw [binding_declare, hn]⟩)
    refine hcha.opened ?_ fun d hd => ?_
    · rw [declaration_declare hsto, if_pos rfl]
    · cases d with
      | header i =>
        have hexp := (h.header _ i hd).1
        rw [himp] at hexp
        cases hexp
      | dotted opened => exact hund opened hd
      | value i =>
        rcases h.binding_of_defined hd with _ | ⟨_, _, hlf⟩ | ⟨hcon, _⟩
        · obtain ⟨p, key, heq, hlf, _⟩ := h.value _ i hd
          obtain ⟨rfl, rfl⟩ := append_key_inj heq
          simp [hb] at hlf
        · simp [hb] at hlf
        · cases hcon
      | arrayOfTables =>
        obtain ⟨p, key, n, heq, harray⟩ := h.array _ hd
        obtain ⟨rfl, rfl⟩ := append_key_inj heq
        simp [hb] at harray
  · have helem := h.element length ht hb
    simpa [statementDefinitions] using helem

lemma locate_of_child {offset : Nat} {path : KeyPath}
    (hdes : descend source offset false state.tables [] path.parents = .ok (tables, t))
    (hb : tables.binding t path.last = some .child) :
    locate state.tables [] path.segments = some (t ++ [.key path.last]) := by
  have hro : (state.tables.declaration []).isSome := by rw [h.root]; rfl
  rcases descend_locate hro h.placed hdes with ⟨rfl, hloc⟩ | hno
  · rw [KeyPath.segments, locate_append, hloc]
    simp [locate, hb]
  · simp [hno] at hb

lemma step {next : State}
    (hs : validateStatement source state statement = .ok next)
    (hfr : ∀ path span, statement = .header path .standard span →
      ∀ t, locate state.tables [] path.segments = some t →
      ∀ opened, (t, .dotted opened) ∉ defined) :
    Recorded next (defined ++ statementDefinitions state next number statement)
      (number + 1) := by
  cases statement with
  | assignment table entry =>
    unfold validateStatement at hs
    cases hent : declareEntry source state.tables state.current entry with
    | error error => simp [hent] at hs
    | ok tables =>
      simp only [hent, ok.injEq] at hs
      subst hs
      exact h.entry hent
  | header path kind span =>
    unfold validateStatement at hs
    cases hdes : descend source span.start false state.tables [] path.parents with
    | error error => simp [hdes] at hs
    | ok reached =>
      simp only [hdes] at hs
      have hro : (state.tables.declaration []).isSome := by rw [h.root]; rfl
      obtain ⟨hpla, hexs, ht⟩ := descend_placed h.placed hro hdes
      refine (h.extend hpla hexs).header_step ht hs ?_
      rintro rfl hb opened
      exact hfr path span rfl _ (h.locate_of_child hdes hb) opened

end

end Recorded

variable {statements : List Statement}

lemma recorded_of_fresh (h : validateStatements source statements = .ok state)
    (hfr : HeadersFresh source statements) :
    Recorded state (definitions source statements) statements.length := by
  induction statements using List.reverseRecOn generalizing state with
  | nil =>
    cases h
    exact .start
  | append_singleton front statement ih =>
    obtain ⟨before, hpre, hs⟩ := validateStatements_snoc h
    have hrcd := ih hpre fun first path span after hspl =>
      hfr first path span (after ++ [statement]) (by simp [hspl])
    rw [definitions_snoc hpre hs, List.length_append]
    refine hrcd.step hs fun path span hstmt t ht opened => ?_
    exact hfr front path span [] (by rw [hstmt]) before hpre t ht opened

lemma opened_of_locate {path : KeyPath} {span : Span}
    (hloc : locate state.tables [] path.segments = some t)
    (h : validateStatement source state (.header path .standard span) = .ok next) :
    next.current = t := by
  rw [KeyPath.segments, locate_append] at hloc
  obtain ⟨p, hpar, hl⟩ := Option.bind_eq_some_iff.mp hloc
  simp only [validateStatement, descend_of_locate hpar, openHeader] at h
  cases hb : state.tables.binding p path.last with
  | none => simp [locate, hb] at hl
  | some b =>
    cases b with
    | leaf => simp [locate, hb] at hl
    | tableArray length => simp [hb, conflict] at h
    | child =>
      simp only [locate, hb, Option.some.injEq] at hl
      simp only [hb] at h
      split_ifs at h
      · simp only [ok.injEq] at h
        rw [← h, ← hl]
      · simp [conflict] at h

lemma fresh_of_once {last : State} (h : validateStatements source statements = .ok last)
    (honce : DefinedOnce (definitions source statements)) : HeadersFresh source statements := by
  rintro before path span after rfl state hpre t hloc opened hdot
  have hspl : before ++ .header path .standard span :: after =
      (before ++ [.header path .standard span]) ++ after := by simp
  rw [hspl] at h honce
  have hfr : ∃ next, validateStatements source (before ++ [.header path .standard span]) =
      .ok next := by
    rw [validateStatements_append] at h
    cases hnx : validateStatements source (before ++ [.header path .standard span]) with
    | error error => simp [hnx, Except.bind] at h
    | ok next => exact ⟨next, rfl⟩
  obtain ⟨next, hnx⟩ := hfr
  obtain ⟨state', hpre', hs⟩ := validateStatements_snoc hnx
  obtain rfl : state = state' := ok.inj (hpre.symm.trans hpre')
  have hcur := opened_of_locate hloc hs
  rw [definitions, definitionsFrom_append 0 hnx] at honce
  have hfr : definitionsFrom source .start 0 (before ++ [.header path .standard span]) =
      definitions source before ++ [(t, .header before.length)] := by
    rw [← hcur]
    exact definitions_snoc hpre hs
  rw [hfr] at honce
  have hclash := honce t (.dotted opened) (.header before.length)
    (List.mem_append_left _ (List.mem_append_left _ hdot))
    (List.mem_append_left _ (List.mem_append_right _ (by simp)))
  cases hclash

mutual

def Value.inlines : Value → List (List Entry)
  | .atom _ => []
  | .sequence _ values _ => Value.inlinesAll values
  | .inline _ entries _ => entries :: Entry.inlinesAll entries

def Value.inlinesAll : List Value → List (List Entry)
  | [] => []
  | value :: values => value.inlines ++ Value.inlinesAll values

def Entry.inlinesAll : List Entry → List (List Entry)
  | [] => []
  | .mk _ _ value :: entries => value.inlines ++ Entry.inlinesAll entries

end

def Statement.inlines : Statement → List (List Entry)
  | .assignment _ entry => entry.value.inlines
  | .header _ _ _ => []

def inlineDefinitions (source : String) (entries : List Entry) : Definitions :=
  definitions source (entries.map (.assignment []))

mutual

theorem Value.validate_inlines : ∀ {value : Value}, value.validate source = .ok () →
    ∀ entries ∈ value.inlines, validateInline source entries = .ok ()
  | .atom _, _ => by simp [inlines]
  | .sequence _ values _, h => by exact Value.validateAll_inlines h
  | .inline _ entries _, h => by
    obtain ⟨_, hents, hinl⟩ := bind_ok h
    simp only [inlines, List.mem_cons, forall_eq_or_imp]
    exact ⟨hinl, Entry.validateAll_inlines hents⟩

theorem Value.validateAll_inlines : ∀ {values : List Value}, validateAll source values = .ok () →
    ∀ entries ∈ inlinesAll values, validateInline source entries = .ok ()
  | [], _ => by simp [inlinesAll]
  | value :: values, h => by
    simp only [validateAll] at h
    obtain ⟨_, hval, hvals⟩ := bind_ok h
    intro entries hents
    rcases List.mem_append.mp hents with hmem | hmem
    · exact Value.validate_inlines hval entries hmem
    · exact Value.validateAll_inlines hvals entries hmem

theorem Entry.validateAll_inlines : ∀ {entries : List Entry},
    Entry.validateAll source entries = .ok () →
    ∀ inline ∈ Entry.inlinesAll entries, validateInline source inline = .ok ()
  | [], _ => by simp [Entry.inlinesAll]
  | .mk _ _ value :: entries, h => by
    simp only [Entry.validateAll] at h
    obtain ⟨_, hval, hents⟩ := bind_ok h
    intro inline hinl
    rcases List.mem_append.mp hinl with hmem | hmem
    · exact Value.validate_inlines hval inline hmem
    · exact Entry.validateAll_inlines hents inline hmem

end

lemma validateStatements_inline {entries : List Entry} {tables last : Tables}
    (h : entries.foldlM (fun tables entry => declareEntry source tables [] entry) tables = .ok last)
    :
    (entries.map (Statement.assignment [])).foldlM (validateStatement source) ⟨tables, []⟩ =
      .ok ⟨last, []⟩ := by
  induction entries generalizing tables with
  | nil =>
    cases h
    rfl
  | cons entry entries ih =>
    obtain ⟨next, hnx, hr⟩ := bind_ok h
    rw [List.map_cons, List.foldlM_cons]
    have hs : validateStatement source ⟨tables, []⟩ (.assignment [] entry) =
        .ok ⟨next, []⟩ := by simp [validateStatement, hnx]
    rw [hs]
    exact ih hr

lemma inline_once {entries : List Entry} (h : validateInline source entries = .ok ()) :
    DefinedOnce (inlineDefinitions source entries) := by
  unfold validateInline at h
  cases hfo : entries.foldlM (fun tables entry => declareEntry source tables [] entry)
      .root with
  | error error => simp [hfo, Except.map] at h
  | ok last =>
    refine (recorded_of_fresh (validateStatements_inline hfo) ?_).once
    intro before path span after hspl
    have hmem : Statement.header path .standard span ∈ entries.map (.assignment []) := by
      simp [hspl]
    simp at hmem

lemma checkDocument_ok (h : checkDocument source statements = .ok ()) :
    (∃ last, validateStatements source statements = .ok last) ∧
    ∀ statement ∈ statements, statement.validate source = .ok () := by
  obtain ⟨_, hvals, hdoc⟩ := bind_ok h
  constructor
  · unfold validateDocument at hdoc
    cases hl : validateStatements source statements with
    | error error => simp [hl, Except.map] at hdoc
    | ok last => exact ⟨last, rfl⟩
  · clear h hdoc
    induction statements with
    | nil => simp
    | cons statement statements ih =>
      obtain ⟨_, hfst, hr⟩ := bind_ok hvals
      simp only [List.mem_cons, forall_eq_or_imp]
      exact ⟨hfst, ih hr⟩

/-- An accepted document defines every location at most once, also in its
inline tables, exactly when no header opens a table that dotted keys have
already gone through. -/
theorem definedOnce_iff (source : String) (statements : List Statement)
    (h : checkDocument source statements = .ok ()) :
    (DefinedOnce (definitions source statements) ∧ ∀ entries ∈ statements.flatMap Statement.inlines,
        DefinedOnce (inlineDefinitions source entries)) ↔
      HeadersFresh source statements := by
  obtain ⟨⟨last, hl⟩, hvals⟩ := checkDocument_ok h
  constructor
  · rintro ⟨honce, _⟩
    exact fresh_of_once hl honce
  · intro hfr
    refine ⟨(recorded_of_fresh hl hfr).once, fun entries hents => ?_⟩
    obtain ⟨statement, hstmt, hinl⟩ := List.mem_flatMap.mp hents
    refine inline_once ?_
    cases statement with
    | assignment table entry => exact validate_inlines (hvals _ hstmt) entries hinl
    | header path kind span => simp [Statement.inlines] at hinl

/-- The statements of `[a]`, `b.d = 1`, `[a.b.e]`. -/
theorem definedOnce_iff_below :
    HeadersFresh "[a]\nb.d = 1\n[a.b.e]\n"
      [.header ⟨[], "a"⟩ .standard ⟨0, 3⟩, .assignment ["a"] (.mk ⟨["b"], "d"⟩ 4 (.atom ⟨10, 11⟩)),
        .header ⟨["a", "b"], "e"⟩ .standard ⟨12, 19⟩] :=
  (definedOnce_iff "[a]\nb.d = 1\n[a.b.e]\n" _ (by decide)).mp
    ⟨by decide, by simp [Statement.inlines, inlines, Entry.value]⟩

/-- The statements of `[a.b.c]`, `[a]`, `b.d = 1`, `[a.b]`: the table `a.b` is
implicit, then extended by dotted keys, then opened. -/
def reopened : List Statement :=
  [.header ⟨["a", "b"], "c"⟩ .standard ⟨0, 7⟩, .header ⟨[], "a"⟩ .standard ⟨8, 11⟩,
    .assignment ["a"] (.mk ⟨["b"], "d"⟩ 12 (.atom ⟨18, 19⟩)),
    .header ⟨["a"], "b"⟩ .standard ⟨20, 25⟩]

/-- An accepted document may define a table through dotted keys and again by
a header. -/
theorem not_forall_definedOnce :
    ¬ ∀ (source : String) (statements : List Statement),
      checkDocument source statements = .ok () → DefinedOnce (definitions source statements) := by
  intro h
  have hacc : checkDocument "[a.b.c]\n[a]\nb.d = 1\n[a.b]\n" reopened = .ok () := by decide
  have honce := h "[a.b.c]\n[a]\nb.d = 1\n[a.b]\n" reopened hacc
  revert honce
  decide

end Morphir.Toml
