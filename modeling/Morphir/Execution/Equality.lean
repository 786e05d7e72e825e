import Morphir.Execution.Comparison
import Morphir.Execution.SchemeRoundTrip
import Morphir.Library.CanonicalMap

/-!
# Equality of execution values

Exact comparison of valid values is equality of normal forms: no zeros at the end of a decimal,
and the fields of a record in the order of their names.  Where two values differ, the path leads
to the first difference.
-/

namespace Morphir.Execution

open Fallible List OrdMap Value Nat

namespace Value

def normalDecimal (n e : Int) : Int × Int :=
  match normalizeDecimal n e with
  | .ok d => d
  | .error _ => (n, e)

mutual

def normal : Value → Value
  | .decimal n e => .decimal (normalDecimal n e).1 (normalDecimal n e).2
  | .sequence items => .sequence (normalItems items)
  | .product items => .product (normalItems items)
  | .record fields => .record (OrdMap.canonical (normalFields fields))
  | .constructor owner tag items => .constructor owner tag (normalItems items)
  | .just v => .just (normal v)
  | .ok v => .ok (normal v)
  | .err v => .err (normal v)
  | v => v

def normalItems : List Value → List Value
  | [] => []
  | v :: items => normal v :: normalItems items

def normalFields : List (String × Value) → List (String × Value)
  | [] => []
  | (name, v) :: fields => (name, normal v) :: normalFields fields

end

lemma normalFields_eq (fields : List (String × Value)) :
    normalFields fields = mapValues normal fields := by
  induction fields with
  | nil => rfl
  | cons p fields ih => rw [normalFields, ih, mapValues_cons]

lemma ctorIdx_normal (v : Value) : v.normal.ctorIdx = v.ctorIdx := by cases v <;> rfl

/-- Values of the kinds that compare as they stand. -/
def IsLeaf : Value → Prop
  | .integer _ | .boolean _ | .unit | .text _ | .character _ | .nothing | .modelError _ => True
  | _ => False

end Value

variable (tolerates : UInt64 → UInt64 → UInt64 → UInt64 → Bool) {v w : Value}

open Classical in
lemma compareLeaf_normal (h : v.ctorIdx = w.ctorIdx → v.IsLeaf) :
    compareLeaf v w = decide (v.normal = w.normal) := by
  rw [Bool.eq_iff_iff, decide_eq_true_iff]
  constructor
  · intro hsm
    unfold compareLeaf at hsm
    split at hsm <;> simp_all
  · intro hsm
    have hk : v.ctorIdx = w.ctorIdx := by rw [← ctorIdx_normal, hsm, ctorIdx_normal]
    have hlf := h hk
    cases v <;> cases w <;> first
      | exact absurd hlf id
      | (done)
      | simp_all [normal, compareLeaf]

variable {e n : Int}

lemma normalDecimal_eq (h : Bounded (.decimal n e)) :
    normalizeDecimal n e = .ok (normalDecimal n e) := by
  obtain ⟨depth, budget, rest, h⟩ := h
  obtain ⟨_, -, h⟩ := bind_ok h
  obtain ⟨d, hd, -⟩ := bind_ok h
  rw [normalDecimal, hd]

lemma length_normalItems (items : List Value) : (normalItems items).length = items.length := by
  induction items with
  | nil => rfl
  | cons v items ih => rw [normalItems, length_cons, length_cons, ih]

/- Exact comparison does not fail on valid values, and decides whether their normal forms
are equal. -/
open Classical in
mutual

theorem compareValue_exact : ∀ {v w : Value}, Bounded v → Bounded w →
    compareValue tolerates .exact v w = .ok (decide (v.normal = w.normal))
  | v, w, hv, hw => by
    rw [compareValue.eq_def]
    split
    · rw [normalDecimal_eq hv, normalDecimal_eq hw]
      simp only [bind, Except.bind, pure, Except.pure, normal, decimal.injEq, Prod.ext_iff]
    · simp [compareFloats, normal]
    · rw [compareItems_exact (bounded_items (.inl rfl) hv) (bounded_items (.inl rfl) hw)]
      simp only [normal, sequence.injEq]
    · rename_i a b
      rw [compareItems_exact (bounded_items (.inr (.inl rfl)) hv)
        (bounded_items (.inr (.inl rfl)) hw)]
      simp only [normal, product.injEq]
    · rename_i a b
      obtain ⟨hda, ha⟩ := bounded_fields hv
      obtain ⟨hdb, hb⟩ := bounded_fields hw
      rw [ofList_of_distinct hdb, compareFields_exact ha hb]
      simp only [normal, record.injEq, normalFields_eq, canonical_mapValues_eq_iff normal hda hdb]
      split <;> simp_all
    · rename_i owner tag a owner' tag' b
      rw [compareItems_exact (bounded_items (.inr (.inr ⟨_, _, rfl⟩)) hv)
        (bounded_items (.inr (.inr ⟨_, _, rfl⟩)) hw)]
      simp only [normal, constructor.injEq]
      split <;> simp_all
    · rw [compareValue_exact (bounded_inner (.inl rfl) hv) (bounded_inner (.inl rfl) hw)]
      simp only [normal, just.injEq]
    · rw [compareValue_exact (bounded_inner (.inr (.inl rfl)) hv)
        (bounded_inner (.inr (.inl rfl)) hw)]
      simp only [normal, ok.injEq]
    · rw [compareValue_exact (bounded_inner (.inr (.inr rfl)) hv)
        (bounded_inner (.inr (.inr rfl)) hw)]
      simp only [normal, err.injEq]
    · refine congrArg _ (compareLeaf_normal fun hk => ?_)
      cases v <;> first
        | trivial
        | (cases w <;> first | (cases hk; done) | grind)

theorem compareItems_exact : ∀ {a b : List Value}, (∀ v ∈ a, Bounded v) → (∀ w ∈ b, Bounded w) →
    compareItems tolerates .exact a b = .ok (decide (normalItems a = normalItems b))
  | a, b, ha, hb => by
    rw [compareItems]
    split
    · rename_i hlen
      rw [decide_eq_false]
      intro hsm
      have hn := congrArg List.length hsm
      rw [length_normalItems, length_normalItems] at hn
      exact hlen hn
    · rename_i hlen
      exact compareAll_exact (not_not.mp hlen) ha hb

theorem compareAll_exact : ∀ {a b : List Value}, a.length = b.length → (∀ v ∈ a, Bounded v) →
    (∀ w ∈ b, Bounded w) → compareAll tolerates .exact a b =
      .ok (decide (normalItems a = normalItems b))
  | [], [], _, _, _ => by simp [compareAll]
  | v :: a, w :: b, hlen, ha, hb => by
    rw [compareAll, compareValue_exact (ha v mem_cons_self) (hb w mem_cons_self)]
    have hr := compareAll_exact (succ.inj hlen)
      (fun v hv => ha v (mem_cons_of_mem _ hv)) fun w hw => hb w (mem_cons_of_mem _ hw)
    simp only [bind, Except.bind, hr, normalItems, List.cons.injEq]
    by_cases hsm : v.normal = w.normal <;> simp [hsm, pure, Except.pure]

theorem compareFields_exact : ∀ {a fields : List (String × Value)}, (∀ p ∈ a, Bounded p.2) →
    (∀ p ∈ fields, Bounded p.2) → compareFields tolerates .exact a fields =
      .ok (decide (∀ p ∈ a, ∃ w, get? fields p.1 = some w ∧ p.2.normal = w.normal))
  | [], fields, _, _ => by simp [compareFields]
  | (name, v) :: a, fields, ha, hb => by
    rw [compareFields]
    cases ho : get? fields name with
    | none => simp [ho]
    | some w =>
      have hr := compareFields_exact (fun p hp => ha p (mem_cons_of_mem _ hp)) hb
      have hv := compareValue_exact (ha _ mem_cons_self) (hb _ (mem_of_get? ho))
      simp only [bind, Except.bind, hr, hv]
      by_cases hsm : v.normal = w.normal <;> simp [ho, hsm, pure, Except.pure]

end

/-! ### Decimals -/

def decimalNumber (n e : Int) : ℚ := n * (10 : ℚ) ^ e

lemma dropZeros_number {fuel : Nat} (hn : n ≠ 0) (hfuel : n.natAbs ≤ fuel) (e : Int) :
    ¬ (10 : Int) ∣ (dropZeros fuel n e).1 ∧
      decimalNumber (dropZeros fuel n e).1 (dropZeros fuel n e).2 = decimalNumber n e := by
  induction fuel generalizing n e with
  | zero => omega
  | succ fuel ih =>
    rw [dropZeros]
    split
    · rename_i hdvd
      have hquot : n.tdiv 10 ≠ 0 := by
        intro h
        omega
      obtain ⟨hnot, hnum⟩ := ih hquot (by omega) (e + 1)
      refine ⟨hnot, hnum.trans ?_⟩
      rw [decimalNumber, decimalNumber, zpow_add_one₀ (by norm_num), ← hdvd]
      push_cast
      rw [hdvd]
      ring
    · rename_i hnot
      exact ⟨fun hdvd => hnot (Int.tdiv_mul_cancel hdvd), rfl⟩

lemma decimalNumber_inj {m x : Int} (hn : ¬ (10 : Int) ∣ n) (hm : ¬ (10 : Int) ∣ m)
    (h : decimalNumber n e = decimalNumber m x) : n = m ∧ e = x := by
  wlog hle : e ≤ x generalizing n m e x
  · obtain ⟨hnum, hexp⟩ := this hm hn h.symm (by omega)
    exact ⟨hnum.symm, hexp.symm⟩
  obtain ⟨k, rfl⟩ := Int.le.dest hle
  have hscale : n = m * 10 ^ k := by
    unfold decimalNumber at h
    rw [zpow_add₀ (by norm_num), mul_comm ((10 : ℚ) ^ e), ← mul_assoc] at h
    have hcancel := mul_right_cancel₀ (zpow_ne_zero e (by norm_num)) h
    exact_mod_cast hcancel
  cases k with
  | zero => simpa using hscale
  | succ k => exact absurd ⟨m * 10 ^ k, by rw [hscale]; ring⟩ hn

lemma normalDecimal_number (h : Bounded (.decimal n e)) :
    (normalDecimal n e = (0, 0) ∨ ¬ (10 : Int) ∣ (normalDecimal n e).1) ∧
      decimalNumber (normalDecimal n e).1 (normalDecimal n e).2 =
        decimalNumber n e := by
  have hd := normalDecimal_eq h
  generalize normalDecimal n e = d at hd ⊢
  rw [normalizeDecimal] at hd
  split at hd
  · cases hd
  split at hd
  · rename_i hz
    cases hd
    exact ⟨.inl (by rw [hz]), by simp [decimalNumber, hz]⟩
  · rename_i hn
    obtain ⟨hnot, hnum⟩ := dropZeros_number hn le_rfl e
    dsimp only at hd
    split at hd <;> cases hd
    exact ⟨.inr hnot, hnum⟩

lemma normal_decimal_iff {m x : Int} (hn : Bounded (.decimal n e)) (hm : Bounded (.decimal m x)) :
    (decimal n e).normal = (decimal m x).normal ↔
      decimalNumber n e = decimalNumber m x := by
  obtain ⟨hform, hnum⟩ := normalDecimal_number hn
  obtain ⟨hform', hnum'⟩ := normalDecimal_number hm
  rw [normal, normal, decimal.injEq, ← hnum, ← hnum']
  refine ⟨fun h => by rw [h.1, h.2], fun h => ?_⟩
  have hzero {d : Int × Int} (hd : ¬ (10 : Int) ∣ d.1) : decimalNumber d.1 d.2 ≠ 0 := by
    rw [decimalNumber, mul_ne_zero_iff, Int.cast_ne_zero]
    exact ⟨fun hz => hd (hz ▸ dvd_zero 10), zpow_ne_zero _ (by norm_num)⟩
  rcases hform with hz | hnot <;> rcases hform' with hz' | hnot'
  · rw [hz, hz']
    exact ⟨rfl, rfl⟩
  · rw [hz] at h
    exact absurd (h.symm.trans (by simp [decimalNumber])) (hzero hnot')
  · rw [hz'] at h
    exact absurd (h.trans (by simp [decimalNumber])) (hzero hnot)
  · exact decimalNumber_inj hnot hnot' h

/-! ### The first difference -/

inductive Step
  | item (i : Nat)
  | field (name : String)
  | just | ok | err
  deriving DecidableEq

def Step.text : Step → String
  | .item i => "/" ++ toString i
  | .field name => "/" ++ pointerText name
  | .just => "/just"
  | .ok => "/ok"
  | .err => "/err"

namespace Value

/-- The steps to the parts of a value, in the order of the traversal. -/
def steps : Value → List Step
  | .sequence items | .product items | .constructor _ _ items => (List.range items.length).map .item
  | .record fields => fields.map fun p => .field p.1
  | .just _ => [.just]
  | .ok _ => [.ok]
  | .err _ => [.err]
  | _ => []

def part : Value → Step → Option Value
  | .sequence items, .item i | .product items, .item i
  | .constructor _ _ items, .item i => items[i]?
  | .record fields, .field name => get? fields name
  | .just v, .just | .ok v, .ok | .err v, .err => some v
  | _, _ => none

def IsScalar : Value → Prop
  | .sequence _ | .product _ | .record _ | .constructor _ _ _ | .just _ | .ok _ | .err _ => False
  | _ => True

end Value

/-- The parts that the first steps lead to are in both values, and they are equal. -/
def EqualBefore (v w : Value) (k : Nat) : Prop :=
  ∀ j < k, ∃ s ∈ v.steps[j]?, ∃ x ∈ v.part s, ∃ y ∈ w.part s, x.normal = y.normal

/-- Two values that differ without regard to their parts, and what the path ends with: the kind,
a scalar, the length, the constructor, a field that is missing, or the fields that only the
second record has. -/
inductive Clash : Value → Value → String → Prop
  | kind {a b : Value} : a.ctorIdx ≠ b.ctorIdx → Clash a b ""
  | scalar {a b : Value} : a.IsScalar → Clash a b ""
  | length {a b : Value} : a.ctorIdx = b.ctorIdx → a.steps.length ≠ b.steps.length →
      (∀ fields, a ≠ .record fields) → Clash a b "/length"
  | head {owner tag owner' tag' : String} {a b : List Value} : ¬ (owner = owner' ∧ tag = tag') →
      Clash (.constructor owner tag a) (.constructor owner' tag' b) "/constructor"
  | missing {a b : List (String × Value)} {k : Nat} {name : String} :
      (Value.record a).steps[k]? = some (.field name) → EqualBefore (.record a) (.record b) k →
      (Value.record b).part (.field name) = none →
      Clash (.record a) (.record b) (Step.field name).text
  | extra {a b : List (String × Value)} : EqualBefore (.record a) (.record b) a.length →
      a.length ≠ b.length → Clash (.record a) (.record b) ""

inductive DiffersFirst : Value → Value → List Step → String → Prop
  | here {a b : Value} {suffix : String} : a.normal ≠ b.normal → Clash a b suffix →
      DiffersFirst a b [] suffix
  | there {a b a' b' : Value} {k : Nat} {s : Step} {more : List Step} {suffix : String} :
      a.ctorIdx = b.ctorIdx → a.steps[k]? = some s → EqualBefore a b k → a.part s = some a' →
      b.part s = some b' → DiffersFirst a' b' more suffix → DiffersFirst a b (s :: more) suffix

variable {k : Nat} {s : Step} {suffix path : String} {x y : Value}

/-- The path that is found leads to the first difference. -/
def Leads (v w : Value) (path : String) (found : Except String (Option String)) : Prop :=
  ∃ steps suffix, found = .ok (some (path ++ String.join (steps.map Step.text) ++ suffix)) ∧
    DiffersFirst v w steps suffix

lemma Leads.here (hne : v.normal ≠ w.normal) (h : Clash v w suffix) :
    Leads v w path (.ok (some (path ++ suffix))) :=
  ⟨[], suffix, by simp, .here hne h⟩

variable {found : Except String (Option String)}

lemma Leads.there (hk : v.ctorIdx = w.ctorIdx) (hs : v.steps[k]? = some s)
    (heq : EqualBefore v w k) (hv : v.part s = some x) (hw : w.part s = some y)
    (h : Leads x y (path ++ s.text) found) : Leads v w path found := by
  obtain ⟨steps, suffix, rfl, hdi⟩ := h
  exact ⟨s :: steps, suffix, by simp [String.append_assoc], .there hk hs heq hv hw hdi⟩

/-- The first items of two lists that differ, and the path from there. -/
def LeadsItems (a b : List Value) (i : Nat) (path : String)
    (found : Except String (Option String)) : Prop :=
  ∃ k x y, a[k]? = some x ∧ b[k]? = some y ∧
    (∀ j < k, ∃ x ∈ a[j]?, ∃ y ∈ b[j]?, x.normal = y.normal) ∧
    Leads x y (path ++ (Step.item (i + k)).text) found

lemma LeadsItems.leads {a b : List Value} (hk : v.ctorIdx = w.ctorIdx)
    (hs : v.steps = (List.range a.length).map .item) (hv : ∀ i, v.part (.item i) = a[i]?)
    (hw : ∀ i, w.part (.item i) = b[i]?) (h : LeadsItems a b 0 path found) :
    Leads v w path found := by
  obtain ⟨k, x, y, hx, hy, heq, h⟩ := h
  have hstep {j : Nat} (hj : j < a.length) : v.steps[j]? = some (.item j) := by
    rw [hs, List.getElem?_map, List.getElem?_range hj]
    rfl
  have hlt : k < a.length := (List.getElem?_eq_some_iff.mp hx).1
  rw [zero_add] at h
  refine .there hk (hstep hlt) (fun j hj => ?_) ((hv k).trans hx) ((hw k).trans hy) h
  obtain ⟨x, hx, y, hy, hsm⟩ := heq j hj
  exact ⟨_, hstep (by omega), x, (hv j).trans hx, y, (hw j).trans hy, hsm⟩

lemma items_leads {a b : List Value} (hk : v.ctorIdx = w.ctorIdx)
    (hs : v.steps = (List.range a.length).map .item)
    (hs' : w.steps = (List.range b.length).map .item) (hr : ∀ fields, v ≠ .record fields)
    (hv : ∀ i, v.part (.item i) = a[i]?) (hw : ∀ i, w.part (.item i) = b[i]?)
    (hne : v.normal ≠ w.normal)
    (h : a.length = b.length → LeadsItems a b 0 path (locateAll tolerates .exact 0 a b path)) :
    Leads v w path (locateItems tolerates .exact a b path) := by
  rw [locateItems]
  split
  · rename_i hlen
    exact .here hne (.length hk (by simpa [hs, hs'] using hlen) hr)
  · rename_i hlen
    exact (h (not_not.mp hlen)).leads hk hs hv hw

/-- The first field of a record that the other record lacks or has with another value. -/
def LeadsFields (a fields : List (String × Value)) (path : String)
    (found : Except String (Option String)) : Prop :=
  ∃ k, (∀ j < k, ∃ p ∈ a[j]?, ∃ y ∈ get? fields p.1, p.2.normal = y.normal) ∧
    (k = a.length ∧ found = .ok (some path) ∨ ∃ p ∈ a[k]?,
      get? fields p.1 = none ∧ found = .ok (some (path ++ (Step.field p.1).text)) ∨
      ∃ y ∈ get? fields p.1, Leads p.2 y (path ++ (Step.field p.1).text) found)

lemma LeadsFields.leads {a b : List (String × Value)} (ha : OrdMap.Distinct a)
    (hb : OrdMap.Distinct b) (hne : (Value.record a).normal ≠ (Value.record b).normal)
    (h : LeadsFields a b path found) : Leads (.record a) (.record b) path found := by
  obtain ⟨k, heq, h⟩ := h
  have hstep {j : Nat} {p : String × Value} (hp : a[j]? = some p) :
      (Value.record a).steps[j]? = some (.field p.1) := by
    rw [Value.steps, List.getElem?_map, hp]
    rfl
  have hpart {j : Nat} {p : String × Value} (hp : a[j]? = some p) :
      (Value.record a).part (.field p.1) = some p.2 :=
    get?_of_mem ha (mem_of_getElem? hp)
  have hbefore : EqualBefore (.record a) (.record b) k := by
    intro j hj
    obtain ⟨p, hp, y, hy, hsm⟩ := heq j hj
    exact ⟨_, hstep hp, p.2, hpart hp, y, hy, hsm⟩
  rcases h with ⟨rfl, rfl⟩ | ⟨p, hp, ⟨hno, rfl⟩ | ⟨y, hy, h⟩⟩
  · suffices hc : Clash (.record a) (.record b) "" by
      simpa using (Leads.here hne hc : Leads _ _ path _)
    refine .extra hbefore fun hlen => hne ?_
    rw [normal, normal, normalFields_eq, normalFields_eq,
      (canonical_mapValues_eq_iff normal ha hb).mpr ⟨hlen, fun p hp => ?_⟩]
    obtain ⟨j, hj, rfl⟩ := getElem_of_mem hp
    obtain ⟨p, hp, y, hy, hsm⟩ := heq j hj
    rw [List.getElem?_eq_getElem hj] at hp
    cases hp
    exact ⟨y, hy, hsm⟩
  · exact .here hne (.missing (hstep hp) hbefore hno)
  · exact .there rfl (hstep hp) hbefore (hpart hp) hy h

mutual

theorem locateMismatch_leads : ∀ {v w : Value} {path : String}, Bounded v → Bounded w →
    v.normal ≠ w.normal → Leads v w path (locateMismatch tolerates .exact v w path)
  | v, w, path, hv, hw, hne => by
    rw [locateMismatch.eq_def]
    split
    · exact items_leads tolerates rfl rfl rfl (by simp) (fun _ => rfl) (fun _ => rfl) hne fun hlen =>
        locateAll_leads hlen (bounded_items (.inl rfl) hv) (bounded_items (.inl rfl) hw)
          fun h => hne (congrArg sequence h)
    · exact items_leads tolerates rfl rfl rfl (by simp) (fun _ => rfl) (fun _ => rfl) hne fun hlen =>
        locateAll_leads hlen (bounded_items (.inr (.inl rfl)) hv)
          (bounded_items (.inr (.inl rfl)) hw) fun h => hne (congrArg Value.product h)
    · obtain ⟨hda, ha⟩ := bounded_fields hv
      obtain ⟨hdb, hb⟩ := bounded_fields hw
      rw [ofList_of_distinct hdb]
      exact (locateFields_leads ha hb).leads hda hdb hne
    · split
      · exact .here hne (.head (by rwa [not_and_or]))
      · rename_i hhead
        obtain ⟨rfl, rfl⟩ := not_or.mp hhead |>.imp not_not.mp not_not.mp
        exact items_leads tolerates rfl rfl rfl (by simp) (fun _ => rfl) (fun _ => rfl) hne
          fun hlen => locateAll_leads hlen (bounded_items (.inr (.inr ⟨_, _, rfl⟩)) hv)
            (bounded_items (.inr (.inr ⟨_, _, rfl⟩)) hw)
            fun h => hne (congrArg (constructor _ _) h)
    · exact .there (k := 0) rfl rfl (fun j hj => absurd hj (not_lt_zero j)) rfl rfl
        (locateMismatch_leads (bounded_inner (.inl rfl) hv) (bounded_inner (.inl rfl) hw)
          fun h => hne (congrArg just h))
    · exact .there (k := 0) rfl rfl (fun j hj => absurd hj (not_lt_zero j)) rfl rfl
        (locateMismatch_leads (bounded_inner (.inr (.inl rfl)) hv)
          (bounded_inner (.inr (.inl rfl)) hw) fun h => hne (congrArg ok h))
    · exact .there (k := 0) rfl rfl (fun j hj => absurd hj (not_lt_zero j)) rfl rfl
        (locateMismatch_leads (bounded_inner (.inr (.inr rfl)) hv)
          (bounded_inner (.inr (.inr rfl)) hw) fun h => hne (congrArg err h))
    · suffices hc : Clash v w "" by simpa using (Leads.here hne hc : Leads _ _ path _)
      by_cases hk : v.ctorIdx = w.ctorIdx
      · refine .scalar ?_
        cases v <;> first
          | trivial
          | (cases w <;> first | (cases hk; done) | grind)
      · exact .kind hk

theorem locateAll_leads : ∀ {a b : List Value} {i : Nat} {path : String}, a.length = b.length →
    (∀ v ∈ a, Bounded v) → (∀ w ∈ b, Bounded w) → normalItems a ≠ normalItems b →
    LeadsItems a b i path (locateAll tolerates .exact i a b path)
  | [], [], _, _, _, _, _, hne => absurd rfl hne
  | v :: a, w :: b, i, path, hlen, ha, hb, hne => by
    obtain ⟨hv, ha⟩ := forall_mem_cons.mp ha
    obtain ⟨hw, hb⟩ := forall_mem_cons.mp hb
    rw [locateAll, compareValue_exact tolerates hv hw]
    by_cases hsm : v.normal = w.normal
    · have hr : normalItems a ≠ normalItems b := fun h => hne (by
        rw [normalItems, normalItems, hsm, h])
      obtain ⟨k, x, y, hx, hy, heq, h⟩ : LeadsItems a b (i + 1) path _ :=
        locateAll_leads (succ.inj hlen) ha hb hr
      refine ⟨k + 1, x, y, hx, hy, fun j hj => ?_, ?_⟩
      · cases j with
        | zero => exact ⟨v, rfl, w, rfl, hsm⟩
        | succ j => exact heq j (by omega)
      · rw [add_right_comm] at h
        simpa [bind, Except.bind, hsm, add_assoc] using h
    · refine ⟨0, v, w, rfl, rfl, fun j hj => absurd hj (not_lt_zero j), ?_⟩
      have h : Leads v w (path ++ (Step.item i).text) _ := locateMismatch_leads hv hw hsm
      simpa [bind, Except.bind, hsm, Step.text, String.append_assoc] using h

theorem locateFields_leads : ∀ {a fields : List (String × Value)} {path : String},
    (∀ p ∈ a, Bounded p.2) → (∀ p ∈ fields, Bounded p.2) →
    LeadsFields a fields path (locateFields tolerates .exact a fields path)
  | [], _, _, _, _ => ⟨0, fun j hj => absurd hj (not_lt_zero j), .inl ⟨rfl, by rw [locateFields]⟩⟩
  | (name, v) :: a, fields, path, ha, hb => by
    obtain ⟨hv, hr⟩ := forall_mem_cons.mp ha
    rw [locateFields]
    cases hy : get? fields name with
    | none =>
      exact ⟨0, fun j hj => absurd hj (not_lt_zero j),
        .inr ⟨(name, v), rfl, .inl ⟨hy, by simp [Step.text, String.append_assoc]⟩⟩⟩
    | some y =>
      simp only [compareValue_exact tolerates hv (hb _ (mem_of_get? hy))]
      by_cases hsm : v.normal = y.normal
      · obtain ⟨k, heq, h⟩ : LeadsFields a fields path _ := locateFields_leads hr hb
        refine ⟨k + 1, fun j hj => ?_, ?_⟩
        · cases j with
          | zero => exact ⟨_, rfl, y, hy, hsm⟩
          | succ j => exact heq j (by omega)
        · simpa [bind, Except.bind, hsm] using h
      · refine ⟨0, fun j hj => absurd hj (not_lt_zero j), .inr ⟨_, rfl, .inr ⟨y, hy, ?_⟩⟩⟩
        have h : Leads v y (path ++ (Step.field name).text) _ :=
          locateMismatch_leads hv (hb _ (mem_of_get? hy)) hsm
        simpa [bind, Except.bind, hsm, Step.text, String.append_assoc] using h

end

def Valid (v : Value) : Prop := ∃ rest, validateValue v 0 valueBudget = .ok rest

lemma Valid.bounded (h : Valid v) : Bounded v := ⟨0, valueBudget, h⟩

open Classical in
lemma compare_eq (hv : Valid v) (hw : Valid w) :
    v.compare tolerates .exact w = .ok (decide (v.normal = w.normal)) := by
  obtain ⟨rest, hrv⟩ := hv
  obtain ⟨rest', hrw⟩ := hw
  rw [← compareValue_exact tolerates ⟨_, _, _, hrv⟩ ⟨_, _, _, hrw⟩, Value.compare, hrv, hrw]
  rfl

open Classical in
lemma compare_eq_true (hv : Valid v) (hw : Valid w) :
    v.compare tolerates .exact w = .ok true ↔ v.normal = w.normal := by
  rw [compare_eq tolerates hv hw, Except.ok.injEq, decide_eq_true_iff]

lemma normal_record_perm {a b : List (String × Value)} (ha : Bounded (.record a))
    (hb : Bounded (.record b)) (h : a.Perm b) :
    (Value.record a).normal = (Value.record b).normal := by
  have hda := (bounded_fields ha).1
  have hdb := (bounded_fields hb).1
  rw [Value.normal, Value.normal, Value.normalFields_eq, Value.normalFields_eq,
    (canonical_mapValues_eq_iff normal hda hdb).mpr ⟨h.length_eq, fun p hp => ?_⟩]
  exact ⟨p.2, get?_of_mem hdb (h.subset hp), rfl⟩

open Classical in
/-- Exact comparison of valid values is an equivalence that sees neither the order of the fields
of a record nor the form of a decimal.  A path is found exactly where two values differ, and its
steps lead in both to the first difference; behind the steps it may end with what differs there,
the length, the constructor or the name of a field that only the first value has. -/
theorem compare_exact :
    (∀ v, Valid v → v.compare tolerates .exact v = .ok true) ∧
      (∀ v w, Valid v → Valid w → v.compare tolerates .exact w = w.compare tolerates .exact v) ∧
      (∀ u v w, Valid u → Valid v → Valid w → u.compare tolerates .exact v = .ok true →
        v.compare tolerates .exact w = .ok true → u.compare tolerates .exact w = .ok true) ∧
      (∀ a b, Valid (.record a) → Valid (.record b) → a.Perm b →
        (Value.record a).compare tolerates .exact (.record b) = .ok true) ∧
      (∀ n e m x, Valid (.decimal n e) → Valid (.decimal m x) →
        ((Value.decimal n e).compare tolerates .exact (.decimal m x) = .ok true ↔
          decimalNumber n e = decimalNumber m x)) ∧
      ∀ v w, Valid v → Valid w →
        (mismatchPath tolerates .exact v w = .ok none ↔ v.compare tolerates .exact w = .ok true) ∧
        (v.compare tolerates .exact w ≠ .ok true →
          Leads v w "" (mismatchPath tolerates .exact v w)) := by
  refine ⟨fun v hv => ?_, fun v w hv hw => ?_, fun u v w hu hv hw huv hvw => ?_,
    fun a b ha hb h => ?_, fun n e m x hn hm => ?_,
    fun v w hv hw => ⟨mismatchPath_eq_none tolerates .exact, fun hne => ?_⟩⟩
  · exact (compare_eq_true tolerates hv hv).mpr rfl
  · rw [compare_eq tolerates hv hw, compare_eq tolerates hw hv, decide_eq_decide.mpr eq_comm]
  · rw [compare_eq_true tolerates hu hv] at huv
    rw [compare_eq_true tolerates hv hw] at hvw
    exact (compare_eq_true tolerates hu hw).mpr (huv.trans hvw)
  · exact (compare_eq_true tolerates ha hb).mpr (normal_record_perm ha.bounded hb.bounded h)
  · rw [compare_eq_true tolerates hn hm]
    exact normal_decimal_iff hn.bounded hm.bounded
  · rw [ne_eq, compare_eq_true tolerates hv hw] at hne
    rw [mismatchPath, compare_eq tolerates hv hw, decide_eq_false hne]
    exact locateMismatch_leads tolerates hv.bounded hw.bounded hne

/-- The value that a list of steps leads to. -/
def Value.follow (v : Value) (steps : List Step) : Option Value := steps.foldlM Value.part v

open Classical in
/-- The path to a missing field leads nowhere in the second record. -/
theorem mismatchPath_not_in_both : ¬ ∀ v w, Valid v → Valid w →
    v.compare (fun _ _ _ _ => true) .exact w ≠ .ok true → ∃ steps x y,
      mismatchPath (fun _ _ _ _ => true) .exact v w =
        .ok (some (String.join (steps.map Step.text))) ∧
      v.follow steps = some x ∧ w.follow steps = some y := by
  intro h
  have hv : Valid (.record [("a", .unit)]) := ⟨99998, rfl⟩
  have hw : Valid (.record []) := ⟨99999, rfl⟩
  have hne : (Value.record [("a", .unit)]).normal ≠ (Value.record []).normal := by
    rw [normal, normal, ne_eq, record.injEq]
    exact fun h => absurd (congrArg List.length h) (by decide)
  obtain ⟨steps, x, y, hpath, -, hy⟩ := h _ _ hv hw ((compare_eq_true _ hv hw).not.mpr hne)
  rw [mismatchPath, compare_eq _ hv hw, decide_eq_false hne] at hpath
  cases steps with
  | nil => simp [bind, Except.bind, locateMismatch, locateFields, OrdMap.ofList] at hpath
  | cons s steps => cases s <;> cases hy

end Morphir.Execution
