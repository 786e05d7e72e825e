import Morphir.Toml.Keys

/-!
# Walking the table store

Every stored table is where its parent says it is, and a walk along keys only
adds tables.
-/

namespace Morphir.Toml

open List

def keySteps (keys : List String) : Location := keys.map .key

@[simp] lemma keySteps_nil : keySteps [] = [] := rfl

@[simp] lemma keySteps_cons (key : String) (keys : List String) :
    keySteps (key :: keys) = .key key :: keySteps keys := rfl

@[simp] lemma keySteps_append (left right : List String) :
    keySteps (left ++ right) = keySteps left ++ keySteps right := by
  simp [keySteps]

lemma keySteps_injective : Function.Injective keySteps := by
  intro left right h
  exact map_injective_iff.mpr (fun _ _ hkey => PathStep.key.inj hkey) h

namespace Tables

/-- The tables and their bindings agree: a stored table is the root, the child
of its parent or an element of an array of its parent, and the tables that a
binding promises are stored. -/
structure Placed (tables : Tables) : Prop where
  parent : ∀ t, (tables.declaration t).isSome → t = [] ∨
    (∃ p key, t = p ++ [.key key] ∧ tables.binding p key = some .child) ∨
    ∃ p key j length, t = p ++ [.key key, .index j] ∧
      tables.binding p key = some (.tableArray length) ∧ j < length
  child : ∀ p key, tables.binding p key = some .child →
    (tables.declaration (p ++ [.key key])).isSome
  element : ∀ p key length, tables.binding p key = some (.tableArray length) →
    0 < length ∧ (tables.declaration (p ++ [.key key, .index (length - 1)])).isSome

variable {p q : Location}

variable {name : String}

lemma append_key_inj (h : p ++ [.key key] = q ++ [.key name]) : p = q ∧ key = name := by
  obtain ⟨hp, hkey⟩ := append_inj' h rfl
  exact ⟨hp, by simpa using hkey⟩

lemma append_key_ne_index {j : Nat} : p ++ [.key key] ≠ q ++ [.key name, .index j] := by
  intro h
  have hl := congrArg getLast? h
  simp at hl

lemma append_index_inj {i j : Nat} (h : p ++ [.key key, .index i] = q ++ [.key name, .index j]) :
    p = q ∧ key = name ∧ i = j := by
  obtain ⟨hp, hkey⟩ := append_inj' h rfl
  exact ⟨hp, by simpa using hkey⟩

variable {key : String}

variable {tables : Tables} {t : Location}

lemma stored_of_binding {b : Binding} (h : tables.binding t key = some b) :
    (tables.declaration t).isSome := by
  obtain ⟨table, htable, _⟩ := Option.bind_eq_some_iff.mp h
  simp [declaration, htable]

lemma ne_of_binding {u : Location} {b : Binding} (hnew : tables.declaration u = none)
    (hb : tables.binding t key = some b) : u ≠ t := by
  rintro rfl
  have hso := stored_of_binding hb
  rw [hnew] at hso
  cases hso

lemma root_placed : root.Placed := by
  have hdec : ∀ t, root.declaration t = if [] = t then some .explicit else none := by
    intro t
    rw [root, declaration_newTable]
    rfl
  have hbin : ∀ t key, root.binding t key = none := by
    intro t key
    rw [root, binding_newTable]
    split_ifs <;> rfl
  refine ⟨fun t ht => ?_, fun p key h => ?_, fun p key length h => ?_⟩
  · rw [hdec] at ht
    split_ifs at ht with he
    · exact .inl he.symm
    · cases ht
  · rw [hbin] at h
    cases h
  · rw [hbin] at h
    cases h

namespace Placed

variable {tables : Tables}

variable {p t : Location}

section

variable (h : tables.Placed)

include h

lemma binding_of_key (ht : (tables.declaration (p ++ [.key key])).isSome) :
    tables.binding p key = some .child := by
  rcases h.parent _ ht with hro | ⟨q, name, heq, hbin⟩ | ⟨q, name, j, length, heq, _⟩
  · simp at hro
  · obtain ⟨rfl, rfl⟩ := append_key_inj heq
    exact hbin
  · exact absurd heq append_key_ne_index

lemma binding_of_index {j : Nat} (ht : (tables.declaration (p ++ [.key key, .index j])).isSome) :
    ∃ length, tables.binding p key = some (.tableArray length) ∧ j < length := by
  rcases h.parent _ ht with hro | ⟨q, name, heq, _⟩ | ⟨q, name, i, length, heq, hbin, hi⟩
  · simp at hro
  · exact absurd heq.symm append_key_ne_index
  · obtain ⟨rfl, rfl, rfl⟩ := append_index_inj heq
    exact ⟨length, hbin, hi⟩

lemma declaration_eq_none (hno : tables.binding p key = none) :
    tables.declaration (p ++ [.key key]) = none := by
  rw [← Option.not_isSome_iff_eq_none]
  intro ht
  rw [h.binding_of_key ht] at hno
  cases hno

section

variable (ht : (tables.declaration t).isSome)

include ht

lemma setField_leaf (hf : tables.binding t key = none) : (tables.setField t key .leaf).Placed := by
  have hbin := fun other name => binding_setField ht key .leaf other name
  have hkp : ∀ other name b, tables.binding other name = some b →
      (tables.setField t key .leaf).binding other name = some b := by
    intro other name b hb
    rw [hbin, if_neg]
    · exact hb
    · rintro ⟨rfl, rfl⟩
      rw [hf] at hb
      cases hb
  refine ⟨fun other ho => ?_, fun p name hp => ?_, fun p name length hp => ?_⟩
  · rw [declaration_setField] at ho
    rcases h.parent other ho with rfl | ⟨p, name, rfl, hp⟩ | ⟨p, name, j, length, rfl, hp, hj⟩
    · exact .inl rfl
    · exact .inr (.inl ⟨p, name, rfl, hkp _ _ _ hp⟩)
    · exact .inr (.inr ⟨p, name, j, length, rfl, hkp _ _ _ hp, hj⟩)
  · rw [declaration_setField]
    rw [hbin] at hp
    split_ifs at hp
    · cases hp
    · exact h.child p name hp
  · rw [declaration_setField]
    rw [hbin] at hp
    split_ifs at hp
    · cases hp
    · exact h.element p name length hp

/-- A table that is stored anew, where the binding that leads to it is new or that of an array
that grows by it. -/
theorem addTable {u : Location}
    {b : Binding} (hnew : tables.declaration u = none)
    (hat : u = t ++ [.key key] ∧ b = .child ∨
      ∃ n, u = t ++ [.key key, .index n] ∧ b = .tableArray (n + 1))
    (hgrow : ∀ b', tables.binding t key = some b' →
      ∃ n m, b' = .tableArray n ∧ b = .tableArray m ∧ n ≤ m) (d : Declaration) :
    ((tables.setField t key b).newTable u d).Placed := by
  have hne : u ≠ t := by rcases hat with ⟨rfl, -⟩ | ⟨n, rfl, -⟩ <;> simp
  have hbin : ∀ other name, ((tables.setField t key b).newTable u d).binding other name =
      if u = other then none
      else if t = other ∧ key = name then some b else tables.binding other name := by
    intro other name
    rw [binding_newTable, binding_setField ht]
  have hself : ((tables.setField t key b).newTable u d).binding t key = some b := by
    rw [hbin, if_neg hne, if_pos ⟨rfl, rfl⟩]
  have hkp {other : Location} {name : String} {b' : Binding}
      (hb : tables.binding other name = some b') (ho : ¬ (t = other ∧ key = name)) :
      ((tables.setField t key b).newTable u d).binding other name = some b' := by
    rw [hbin, if_neg (ne_of_binding hnew hb), if_neg ho, hb]
  refine ⟨fun other ho => ?_, fun p name hp => ?_, fun p name length hp => ?_⟩
  · rw [declaration_newTable, declaration_setField] at ho
    split_ifs at ho with he
    · subst he
      rcases hat with ⟨rfl, rfl⟩ | ⟨n, rfl, rfl⟩
      · exact .inr (.inl ⟨t, key, rfl, hself⟩)
      · exact .inr (.inr ⟨t, key, n, n + 1, rfl, hself, n.lt_succ_self⟩)
    · rcases h.parent other ho with rfl | ⟨p, name, rfl, hp⟩ | ⟨p, name, j, n, rfl, hp, hj⟩
      · exact .inl rfl
      · refine .inr (.inl ⟨p, name, rfl, hkp hp ?_⟩)
        rintro ⟨rfl, rfl⟩
        obtain ⟨_, _, hb, -⟩ := hgrow _ hp
        cases hb
      · by_cases hsm : t = p ∧ key = name
        · obtain ⟨rfl, rfl⟩ := hsm
          obtain ⟨_, m, ⟨⟩, rfl, hle⟩ := hgrow _ hp
          exact .inr (.inr ⟨t, key, j, m, rfl, hself, hj.trans_le hle⟩)
        · exact .inr (.inr ⟨p, name, j, n, rfl, hkp hp hsm, hj⟩)
  · rw [declaration_newTable, declaration_setField]
    rw [hbin] at hp
    split_ifs at hp with _ hsm
    · obtain ⟨rfl, rfl⟩ := hsm
      cases hp
      rcases hat with ⟨rfl, -⟩ | ⟨n, -, hb⟩
      · rw [if_pos rfl]
        rfl
      · cases hb
    · split_ifs
      · rfl
      · exact h.child p name hp
  · rw [declaration_newTable, declaration_setField]
    rw [hbin] at hp
    split_ifs at hp with _ hsm
    · obtain ⟨rfl, rfl⟩ := hsm
      cases hp
      rcases hat with ⟨-, hb⟩ | ⟨n, rfl, hb⟩ <;> cases hb
      refine ⟨n.succ_pos, ?_⟩
      rw [if_pos (by simp)]
      rfl
    · obtain ⟨hlen, hl⟩ := h.element p name length hp
      refine ⟨hlen, ?_⟩
      split_ifs
      · rfl
      · exact hl

lemma newChild (hf : tables.binding t key = none) (d : Declaration) :
    ((tables.setField t key .child).newTable (t ++ [.key key]) d).Placed :=
  h.addTable ht (h.declaration_eq_none hf) (.inl ⟨rfl, rfl⟩)
    (fun _ hb => nomatch hf.symm.trans hb) d

lemma newElement
    {length : Nat} (hbd : (length = 0 ∧ tables.binding t key = none) ∨
      tables.binding t key = some (.tableArray length)) (d : Declaration) :
    ((tables.setField t key (.tableArray (length + 1))).newTable
      (t ++ [.key key, .index length]) d).Placed := by
  have hgrow {b : Binding} (hb : tables.binding t key = some b) : b = .tableArray length := by
    rcases hbd with ⟨-, hf⟩ | harray
    · cases hf.symm.trans hb
    · exact Option.some.inj (hb.symm.trans harray)
  refine h.addTable ht ?_ (.inr ⟨length, rfl, rfl⟩)
    (fun b hb => ⟨length, _, hgrow hb, rfl, length.le_succ⟩) d
  rw [← Option.not_isSome_iff_eq_none]
  intro hso
  obtain ⟨n, hn, hlt⟩ := h.binding_of_index hso
  cases hgrow hn
  exact lt_irrefl _ hlt

lemma declare (d : Declaration) : (tables.declare t d).Placed := by
  have hso : ∀ other, ((tables.declare t d).declaration other).isSome ↔
      (tables.declaration other).isSome := by
    intro other
    rw [declaration_declare ht]
    split_ifs with he
    · simp [← he, ht]
    · rfl
  refine ⟨fun other ho => ?_, fun p name hp => ?_, fun p name length hp => ?_⟩
  · simp only [binding_declare]
    exact h.parent other ((hso other).mp ho)
  · rw [binding_declare] at hp
    exact (hso _).mpr (h.child p name hp)
  · rw [binding_declare] at hp
    obtain ⟨hlen, hl⟩ := h.element p name length hp
    exact ⟨hlen, (hso _).mpr hl⟩

end

end

end Placed

structure Extends (tables tables' : Tables) : Prop where
  declaration : ∀ t d, tables.declaration t = some d → tables'.declaration t = some d
  binding : ∀ t key b, tables.binding t key = some b → tables'.binding t key = some b

namespace Extends

lemma refl (tables : Tables) : Extends tables tables := ⟨fun _ _ h => h, fun _ _ _ h => h⟩

lemma trans {tables tables' tables'' : Tables} (h : Extends tables tables')
    (h' : Extends tables' tables'') : Extends tables tables'' :=
  ⟨fun t d ht => h'.declaration t d (h.declaration t d ht),
    fun t key b hb => h'.binding t key b (h.binding t key b hb)⟩

end Extends

lemma extends_newChild (h : tables.Placed) (ht : (tables.declaration t).isSome)
    (hf : tables.binding t key = none) (d : Declaration) :
    Extends tables ((tables.setField t key .child).newTable (t ++ [.key key]) d) := by
  have hnew := h.declaration_eq_none hf
  refine ⟨fun other d' ho => ?_, fun other name b hb => ?_⟩
  · rw [declaration_newTable, declaration_setField, if_neg]
    · exact ho
    · rintro rfl
      rw [hnew] at ho
      cases ho
  · rw [binding_newTable, binding_setField ht, if_neg, if_neg]
    · exact hb
    · rintro ⟨rfl, rfl⟩
      rw [hf] at hb
      cases hb
    · exact ne_of_binding hnew hb

end Tables

open Tables Except

variable {source : String} {t t' : Location} {offset : Nat} {dotted : Bool}

variable {tables tables' : Tables} {key : String}

lemma child_cases (h : child source tables t key offset dotted = .ok (tables', t')) :
    (tables' = tables ∧ tables.binding t key = some .child ∧ t' = t ++ [.key key] ∧
      (dotted = true → tables.declaration t' ≠ some .explicit)) ∨
    (tables' = tables ∧ dotted = false ∧ ∃ length,
      tables.binding t key = some (.tableArray length) ∧
      t' = t ++ [.key key, .index (length - 1)]) ∨
    (tables.binding t key = none ∧ t' = t ++ [.key key] ∧
      tables' = (tables.setField t key .child).newTable (t ++ [.key key])
        (if dotted then .dotted else .implicit)) := by
  unfold child at h
  cases hb : tables.binding t key with
  | none =>
    simp only [hb, ok.injEq, Prod.mk.injEq] at h
    exact .inr (.inr ⟨rfl, h.2.symm, h.1.symm⟩)
  | some b =>
    cases b with
    | child =>
      simp only [hb] at h
      split_ifs at h with hexp
      · cases h
      · obtain ⟨rfl, rfl⟩ := h
        exact .inl ⟨rfl, rfl, rfl, fun hd hdc => hexp ⟨hd, hdc⟩⟩
    | tableArray length =>
      simp only [hb] at h
      split_ifs at h with hdot
      · cases h
      · simp only [ok.injEq, Prod.mk.injEq] at h
        exact .inr (.inl ⟨h.1.symm, by simpa using hdot, length, rfl, h.2.symm⟩)
    | leaf =>
      simp only [hb] at h
      cases h

lemma child_placed (hp : tables.Placed) (ht : (tables.declaration t).isSome)
    (h : child source tables t key offset dotted = .ok (tables', t')) :
    tables'.Placed ∧ Extends tables tables' ∧ (tables'.declaration t').isSome := by
  rcases child_cases h with ⟨rfl, hb, rfl, _⟩ | ⟨rfl, _, length, hb, rfl⟩ | ⟨hf, rfl, rfl⟩
  · exact ⟨hp, .refl _, hp.child _ _ hb⟩
  · exact ⟨hp, .refl _, (hp.element _ _ _ hb).2⟩
  · refine ⟨hp.newChild ht hf _, extends_newChild hp ht hf _, ?_⟩
    rw [declaration_newTable, if_pos rfl]
    rfl

variable {keys : List String}

lemma descend_cons (h : descend source offset dotted tables t (key :: keys) = .ok (tables', t')) :
    ∃ next, child source tables t key offset dotted = .ok next ∧
      descend source offset dotted next.1 next.2 keys = .ok (tables', t') := by
  unfold descend at h
  cases hch : child source tables t key offset dotted with
  | error error => simp [hch] at h
  | ok next => exact ⟨next, rfl, by simpa [hch] using h⟩

lemma descend_placed (hp : tables.Placed) (ht : (tables.declaration t).isSome)
    (h : descend source offset dotted tables t keys = .ok (tables', t')) :
    tables'.Placed ∧ Extends tables tables' ∧ (tables'.declaration t').isSome := by
  induction keys generalizing tables t with
  | nil =>
    obtain ⟨rfl, rfl⟩ := h
    exact ⟨hp, .refl _, ht⟩
  | cons key keys ih =>
    obtain ⟨⟨tables₁, t₁⟩, hch, hr⟩ := descend_cons h
    obtain ⟨hp₁, hexs₁, ht₁⟩ := child_placed hp ht hch
    obtain ⟨hp', hexs', ht'⟩ := ih hp₁ ht₁ hr
    exact ⟨hp', hexs₁.trans hexs', ht'⟩

lemma descend_dotted (hp : tables.Placed) (ht : (tables.declaration t).isSome)
    (h : descend source offset true tables t keys = .ok (tables', t')) :
    t' = t ++ keySteps keys ∧ ∀ ks, ks ≠ [] → ks <+: keys →
      tables.declaration (t ++ keySteps ks) ≠ some .explicit ∧
      ∃ d, tables'.declaration (t ++ keySteps ks) = some d ∧ d ≠ .explicit := by
  induction keys generalizing tables t with
  | nil =>
    simp only [descend, ok.injEq, Prod.mk.injEq] at h
    refine ⟨by simp [h.2], fun ks hne hks => ?_⟩
    exact absurd (prefix_nil.mp hks) hne
  | cons key keys ih =>
    obtain ⟨⟨tables₁, t₁⟩, hch, hr⟩ := descend_cons h
    obtain ⟨hp₁, hexs₁, ht₁⟩ := child_placed hp ht hch
    obtain ⟨_, hexs', _⟩ := descend_placed hp₁ ht₁ hr
    obtain ⟨rfl, hbe⟩ := ih hp₁ ht₁ hr
    have hfst : t₁ = t ++ [.key key] ∧ tables.declaration t₁ ≠ some .explicit ∧
        ∃ d, tables₁.declaration t₁ = some d ∧ d ≠ .explicit := by
      rcases child_cases hch with ⟨rfl, _, rfl, hexp⟩ | ⟨_, hfalse, _⟩ | ⟨hf, rfl, rfl⟩
      · obtain ⟨d, hd⟩ := Option.isSome_iff_exists.mp ht₁
        refine ⟨rfl, hexp rfl, d, hd, ?_⟩
        rintro rfl
        exact hexp rfl hd
      · cases hfalse
      · refine ⟨rfl, ?_, .dotted, ?_, by decide⟩
        · rw [hp.declaration_eq_none hf]
          simp
        · rw [declaration_newTable, if_pos rfl]
          rfl
    obtain ⟨rfl, hnot, d, hd, hde⟩ := hfst
    refine ⟨by simp, fun ks hne hks => ?_⟩
    cases ks with
    | nil => exact absurd rfl hne
    | cons k ks =>
      obtain ⟨rfl, hres⟩ := cons_prefix_cons.mp hks
      by_cases hnil : ks = []
      · subst hnil
        exact ⟨hnot, d, hexs'.declaration _ _ hd, hde⟩
      · obtain ⟨hne₁, d', hd', hde'⟩ := hbe ks hnil hres
        have heq : t ++ [.key k] ++ keySteps ks = t ++ keySteps (k :: ks) := by simp
        rw [heq] at hne₁ hd'
        exact ⟨fun hex => hne₁ (hexs₁.declaration _ _ hex), d', hd', hde'⟩

/-- The table that a path names, through the last element of every array. -/
def locate (tables : Tables) : Location → List String → Option Location
  | t, [] => some t
  | t, key :: keys =>
    match tables.binding t key with
    | some .child => locate tables (t ++ [.key key]) keys
    | some (.tableArray length) => locate tables (t ++ [.key key, .index (length - 1)]) keys
    | _ => none

lemma locate_append (tables : Tables) (t : Location) (front back : List String) :
    locate tables t (front ++ back) =
      (locate tables t front).bind fun t' => locate tables t' back := by
  induction front generalizing t with
  | nil => rfl
  | cons key keys ih =>
    simp only [cons_append, locate]
    cases tables.binding t key with
    | none => rfl
    | some b => cases b <;> simp [ih]

lemma descend_of_locate (h : locate tables t keys = some t') :
    descend source offset false tables t keys = .ok (tables, t') := by
  induction keys generalizing t with
  | nil => simpa [locate, descend] using h
  | cons key keys ih =>
    cases hb : tables.binding t key with
    | none => simp [locate, hb] at h
    | some b =>
      cases b with
      | leaf => simp [locate, hb] at h
      | child | tableArray length =>
        simp only [locate, hb] at h
        simp [descend, Morphir.Toml.child, hb, ih h]

lemma descend_locate (ht : (tables.declaration t).isSome) (hp : tables.Placed)
    (h : descend source offset false tables t keys = .ok (tables', t')) :
    (tables' = tables ∧ locate tables t keys = some t') ∨
      ∀ key, tables'.binding t' key = none := by
  induction keys generalizing tables t with
  | nil =>
    simp only [descend, ok.injEq, Prod.mk.injEq] at h
    exact .inl ⟨h.1.symm, by simp [locate, h.2]⟩
  | cons key keys ih =>
    obtain ⟨⟨tables₁, t₁⟩, hch, hr⟩ := descend_cons h
    obtain ⟨hp₁, _, ht₁⟩ := child_placed hp ht hch
    have hnx := ih ht₁ hp₁ hr
    rcases child_cases hch with ⟨rfl, hb, rfl, _⟩ | ⟨rfl, _, length, hb, rfl⟩ |
      ⟨hf, rfl, rfl⟩
    · simpa only [locate, hb] using hnx
    · simpa only [locate, hb] using hnx
    · refine .inr ?_
      rcases hnx with ⟨rfl, hloc⟩ | hno
      · cases keys with
        | nil =>
          cases hloc
          intro name
          rw [binding_newTable, if_pos rfl]
        | cons name keys => simp [locate, binding_newTable] at hloc
      · exact hno

lemma openHeader_cases {kind : TableKind} {span : Span} {next : State}
    (h : openHeader source tables t key kind span = .ok next) :
    (kind = .standard ∧ tables.binding t key = none ∧
      next = ⟨(tables.setField t key .child).newTable (t ++ [.key key]) .explicit,
        t ++ [.key key]⟩) ∨
    (kind = .standard ∧ tables.binding t key = some .child ∧
      tables.declaration (t ++ [.key key]) = some .implicit ∧
      next = ⟨tables.declare (t ++ [.key key]) .explicit, t ++ [.key key]⟩) ∨
    (kind = .arrayOfTables ∧ ∃ length, ((length = 0 ∧ tables.binding t key = none) ∨
        tables.binding t key = some (.tableArray length)) ∧
      next = ⟨(tables.setField t key (.tableArray (length + 1))).newTable
        (t ++ [.key key, .index length]) .explicit, t ++ [.key key, .index length]⟩) := by
  unfold openHeader at h
  cases hb : tables.binding t key with
  | none =>
    cases kind with
    | standard =>
      simp only [hb, ok.injEq] at h
      exact .inl ⟨rfl, rfl, h.symm⟩
    | arrayOfTables =>
      simp only [hb, ok.injEq] at h
      exact .inr (.inr ⟨rfl, 0, .inl ⟨rfl, rfl⟩, h.symm⟩)
  | some b =>
    cases b with
    | leaf => simp [hb, conflict] at h
    | tableArray length =>
      cases kind with
      | standard => simp [hb, conflict] at h
      | arrayOfTables =>
        simp only [hb, ok.injEq] at h
        exact .inr (.inr ⟨rfl, length, .inr rfl, h.symm⟩)
    | child =>
      cases kind with
      | arrayOfTables => simp [hb, conflict] at h
      | standard =>
        simp only [hb] at h
        split_ifs at h with himp
        · simp only [ok.injEq] at h
          exact .inr (.inl ⟨rfl, rfl, himp, h.symm⟩)
        · simp [conflict] at h

end Morphir.Toml
