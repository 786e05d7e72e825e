import Morphir.Sdk.Dict

/-!
# Operations on whole dictionaries

Insertions one after the other, the operations that call back for every entry, and the
merge, as operations on finite maps.
-/

namespace Morphir.Sdk.Dict

open Fallible List

variable {K V E : Type} {order : K → K → Ordering}

lemma represents_empty :
    Represents order (empty (lifted order) : Dict K V E) (fun _ => none) := by
  refine ⟨rfl, .nil, ?_⟩
  simp [empty]

lemma represents_singleton [DecidableEq K] (key : K) (value : V) :
    Represents order (singleton (lifted order) key value : Dict K V E)
      (Function.update (fun _ => none) key (some value)) := by
  refine ⟨rfl, pairwise_singleton _ _, ?_⟩
  intro k v
  by_cases hk : k = key
  · subst hk
    simp [singleton, eq_comm]
  · simp [singleton, hk]

variable {entries : List (K × V)}

lemma ascending_cons {e : K × V} :
    Ascending order (e :: entries) ↔
      (∀ b ∈ entries, order e.1 b.1 = .lt) ∧ Ascending order entries := pairwise_cons

section Insertions

variable [Std.TransCmp order] [Std.LawfulEqCmp order] [DecidableEq K]

def lastValue (entries : List (K × V)) (key : K) : Option V :=
  (entries.reverse.find? fun e => decide (e.1 = key)).map Prod.snd

omit [Std.TransCmp order] [Std.LawfulEqCmp order] in
lemma lastValue_cons (entry : K × V) (entries : List (K × V)) (key : K) :
    lastValue (entry :: entries) key =
      (lastValue entries key).or (if entry.1 = key then some entry.2 else none) := by
  unfold lastValue
  rw [reverse_cons, List.find?_append]
  cases entries.reverse.find? fun e => decide (e.1 = key) with
  | some e => rfl
  | none => by_cases h : entry.1 = key <;> simp

omit [Std.TransCmp order] [DecidableEq K] in
lemma ascending_functional {entries : List (K × V)} (h : Ascending order entries) {key : K}
    {a b : V} (ha : (key, a) ∈ entries) (hb : (key, b) ∈ entries) : a = b := by
  induction entries with
  | nil => cases ha
  | cons e entries ih =>
    obtain ⟨hfst, hr⟩ := ascending_cons.mp h
    have hirr : order key key ≠ .lt := by
      have hsf : order key key = .eq := Std.ReflCmp.compare_self
      rw [hsf]
      nofun
    rcases mem_cons.mp ha with rfl | hbeh
    · rcases mem_cons.mp hb with hb | hb
      · exact (Prod.mk.inj hb).2.symm
      · exact absurd (hfst (key, b) hb) hirr
    · rcases mem_cons.mp hb with rfl | hb
      · exact absurd (hfst (key, a) hbeh) hirr
      · exact ih hr hbeh hb

omit [Std.TransCmp order] in
lemma Represents.lastValue {dict : Dict K V E} (h : Represents order dict m) :
    lastValue dict.entries = m := by
  have huni : ∀ {key : K} {value : V}, (key, value) ∈ dict.entries →
      Dict.lastValue dict.entries key = some value := by
    intro key value hmem
    unfold Dict.lastValue
    cases hfn : dict.entries.reverse.find? fun e => decide (e.1 = key) with
    | none =>
      have hno := List.find?_eq_none.mp hfn (key, value) (mem_reverse.mpr hmem)
      simp at hno
    | some e =>
      have hkey : e.1 = key := by simpa using List.find?_some hfn
      have he : e ∈ dict.entries := mem_reverse.mp (mem_of_find?_eq_some hfn)
      rw [← hkey] at hmem
      rw [Option.map_some, ascending_functional h.ascending he hmem]
  funext key
  cases hkey : m key with
  | some value => exact huni ((h.entries key value).mpr hkey)
  | none =>
    cases hl : Dict.lastValue dict.entries key with
    | none => rfl
    | some value =>
      obtain ⟨e, hfn, rfl⟩ := Option.map_eq_some_iff.mp hl
      have hsf : e.1 = key := by simpa using List.find?_some hfn
      have hmem := mem_reverse.mp (mem_of_find?_eq_some hfn)
      have hval := (h.entries e.1 e.2).mp hmem
      rw [hsf, hkey] at hval
      cases hval

lemma Represents.insertAll {dict : Dict K V E} (h : Represents order dict m)
    (entries : List (K × V)) :
    ∃ dict', insertAll dict entries = .ok dict' ∧
      Represents order dict' (fun key => (Dict.lastValue entries key).or (m key)) := by
  induction entries generalizing dict m with
  | nil => exact ⟨dict, rfl, h⟩
  | cons entry entries ih =>
    obtain ⟨key, value⟩ := entry
    obtain ⟨dict', hins, h'⟩ := h.insert key value
    obtain ⟨dict'', hall, h''⟩ := ih h'
    refine ⟨dict'', ?_, ?_⟩
    · rw [Dict.insertAll, hins, bind_eq, hall]
    · have hmap : (fun k => (Dict.lastValue entries k).or (Function.update m key (some value) k)) =
          fun k => (Dict.lastValue ((key, value) :: entries) k).or (m k) := by
        funext k
        rw [lastValue_cons, Option.or_assoc]
        by_cases hk : k = key
        · subst hk
          simp
        · rw [Function.update_of_ne hk, if_neg (Ne.symm hk), Option.none_or]
      rw [← hmap]
      exact h''

lemma Represents.fromList (entries : List (K × V)) :
    ∃ dict, (fromList (lifted order) entries : Except (Stop E) (Dict K V E)) = .ok dict ∧
      Represents order dict (Dict.lastValue entries) := by
  have hemp : Represents order (empty (lifted order) : Dict K V E) fun _ => none := represents_empty
  obtain ⟨dict, hall, h⟩ := hemp.insertAll entries
  refine ⟨dict, hall, ?_⟩
  simpa using h

variable {m n : K → Option V}

lemma Represents.union {left right : Dict K V E} (hlt : Represents order left m)
    (hrt : Represents order right n) :
    ∃ dict, union left right = .ok dict ∧
      Represents order dict (fun key => (m key).or (n key)) := by
  obtain ⟨dict, hall, h⟩ := hrt.insertAll left.entries
  rw [hlt.lastValue] at h
  exact ⟨dict, hall, h⟩

lemma Represents.insertWhen {right result : Dict K V E} {r : K → Option V} (keep : Bool)
    (hrt : Represents order right n) (hres : Represents order result r) (entries : List (K × V)) :
    ∃ dict, insertWhen keep right result entries = .ok dict ∧
      Represents order dict (fun key =>
        (if (n key).isSome = keep then Dict.lastValue entries key else none).or (r key)) := by
  induction entries generalizing result r with
  | nil =>
    refine ⟨result, rfl, ?_⟩
    simpa [Dict.lastValue] using hres
  | cons entry entries ih =>
    obtain ⟨key, value⟩ := entry
    rw [Dict.insertWhen, hrt.hasKey key, bind_eq]
    split
    next hkp =>
      obtain ⟨result', hins, hres'⟩ := hres.insert key value
      obtain ⟨dict, hall, h⟩ := ih hres'
      refine ⟨dict, ?_, ?_⟩
      · rw [hins, bind_eq, hall]
      · have hmap : (fun k => (if (n k).isSome = keep then Dict.lastValue entries k else none).or
            (Function.update r key (some value) k)) = fun k =>
            (if (n k).isSome = keep then Dict.lastValue ((key, value) :: entries) k else none).or
              (r k) := by
          funext k
          rw [lastValue_cons]
          by_cases hk : k = key
          · subst hk
            rw [if_pos hkp, if_pos hkp]
            simp
          · rw [Function.update_of_ne hk, if_neg (Ne.symm hk), Option.or_none]
        rw [← hmap]
        exact h
    next hsk =>
      obtain ⟨dict, hall, h⟩ := ih hres
      refine ⟨dict, hall, ?_⟩
      have hmap : (fun k => (if (n k).isSome = keep then Dict.lastValue entries k else none).or
          (r k)) = fun k =>
          (if (n k).isSome = keep then Dict.lastValue ((key, value) :: entries) k else none).or
            (r k) := by
        funext k
        rw [lastValue_cons]
        by_cases hk : k = key
        · subst hk
          rw [if_neg hsk, if_neg hsk]
        · rw [if_neg (Ne.symm hk), Option.or_none]
      rw [← hmap]
      exact h

lemma Represents.intersect {left right : Dict K V E} (hlt : Represents order left m)
    (hrt : Represents order right n) :
    ∃ dict, intersect left right = .ok dict ∧
      Represents order dict (fun key => if (n key).isSome then m key else none) := by
  unfold Dict.intersect
  rw [hlt.comparator]
  obtain ⟨dict, hall, h⟩ := Represents.insertWhen true hrt represents_empty left.entries
  refine ⟨dict, hall, ?_⟩
  simpa [hlt.lastValue] using h

lemma Represents.diff {left right : Dict K V E} (hlt : Represents order left m)
    (hrt : Represents order right n) :
    ∃ dict, diff left right = .ok dict ∧
      Represents order dict (fun key => if (n key).isSome then none else m key) := by
  unfold Dict.diff
  rw [hlt.comparator]
  obtain ⟨dict, hall, h⟩ := Represents.insertWhen false hrt represents_empty left.entries
  refine ⟨dict, hall, ?_⟩
  have hmap : (fun key => if (n key).isSome then none else m key) =
      fun key => (if (n key).isSome = false then m key else none).or none := by
    funext key
    cases (n key).isSome <;> simp
  rw [hmap, ← hlt.lastValue]
  exact h

end Insertions

def ReturnsOn {W : Type} (f : K → V → Except (Stop E) W) (m : K → Option V) : Prop :=
  ∀ key value, m key = some value → ∃ result, f key value = .ok result

variable {W : Type}

variable {f : K → V → Except (Stop E) W}

lemma mapEntries_returns :
    (∃ mapped, mapEntries f entries = .ok mapped) ↔
      ∀ e ∈ entries, ∃ result, f e.1 e.2 = .ok result := by
  induction entries with
  | nil => exact ⟨fun _ => nofun, fun _ => ⟨[], rfl⟩⟩
  | cons e entries ih =>
    rw [forall_mem_cons, ← ih, mapEntries]
    constructor
    · rintro ⟨mapped, h⟩
      obtain ⟨result, hf, h⟩ := bind_ok h
      obtain ⟨rest, hr, -⟩ := bind_ok h
      exact ⟨⟨result, hf⟩, rest, hr⟩
    · rintro ⟨⟨result, hf⟩, rest, hr⟩
      rw [hf, hr]
      exact ⟨_, rfl⟩

lemma mapEntries_spec {mapped : List (K × W)} (h : mapEntries f entries = .ok mapped) :
    mapped.map Prod.fst = entries.map Prod.fst ∧
      ∀ key result, (key, result) ∈ mapped ↔
        ∃ value, (key, value) ∈ entries ∧ f key value = .ok result := by
  induction entries generalizing mapped with
  | nil =>
    cases h
    simp
  | cons e entries ih =>
    obtain ⟨key, value⟩ := e
    obtain ⟨result, hf, h⟩ := bind_ok h
    obtain ⟨rest, hrest, h⟩ := bind_ok h
    cases h
    obtain ⟨hks, hmem⟩ := ih hrest
    refine ⟨by rw [map_cons, map_cons, hks], ?_⟩
    intro k r
    simp only [mem_cons, Prod.mk.injEq, hmem]
    constructor
    · rintro (⟨rfl, rfl⟩ | ⟨v, hv, hr⟩)
      · exact ⟨value, Or.inl ⟨rfl, rfl⟩, hf⟩
      · exact ⟨v, Or.inr hv, hr⟩
    · rintro ⟨v, ⟨rfl, rfl⟩ | hv, hr⟩
      · rw [hf] at hr
        exact Or.inl ⟨rfl, (Except.ok.inj hr).symm⟩
      · exact Or.inr ⟨v, hv, hr⟩

variable {f : K → V → Except (Stop E) Bool}

lemma partitionEntries_returns :
    (∃ parts, partitionEntries f entries = .ok parts) ↔
      ∀ e ∈ entries, ∃ result, f e.1 e.2 = .ok result := by
  induction entries with
  | nil => exact ⟨fun _ => nofun, fun _ => ⟨([], []), rfl⟩⟩
  | cons e entries ih =>
    rw [forall_mem_cons, ← ih, partitionEntries]
    constructor
    · rintro ⟨parts, h⟩
      obtain ⟨result, hf, h⟩ := bind_ok h
      obtain ⟨rest, hr, -⟩ := bind_ok h
      exact ⟨⟨result, hf⟩, rest, hr⟩
    · rintro ⟨⟨result, hf⟩, rest, hr⟩
      rw [hf, hr]
      exact ⟨_, rfl⟩

def part (holds : Bool) (parts : List (K × V) × List (K × V)) : List (K × V) :=
  if holds then parts.1 else parts.2

variable {parts : List (K × V) × List (K × V)}

lemma partitionEntries_spec (h : partitionEntries f entries = .ok parts) (holds : Bool) :
    (part holds parts).Sublist entries ∧
      ∀ key value, (key, value) ∈ part holds parts ↔
        (key, value) ∈ entries ∧ f key value = .ok holds := by
  induction entries generalizing parts with
  | nil =>
    cases h
    cases holds <;> simp [part]
  | cons e entries ih =>
    obtain ⟨key, value⟩ := e
    obtain ⟨result, hf, h⟩ := bind_ok h
    obtain ⟨⟨yes, no⟩, hrest, h⟩ := bind_ok h
    cases h
    obtain ⟨hsub, hmem⟩ := ih hrest
    have hpa : part holds
        (if result then ((key, value) :: yes, no) else (yes, (key, value) :: no)) =
        if result = holds then (key, value) :: part holds (yes, no)
        else part holds (yes, no) := by
      cases result <;> cases holds <;> rfl
    rw [hpa]
    split
    next heq =>
      subst heq
      refine ⟨hsub.cons_cons _, ?_⟩
      intro k v
      simp only [mem_cons, Prod.mk.injEq, hmem]
      constructor
      · rintro (⟨rfl, rfl⟩ | ⟨hv, hr⟩)
        · exact ⟨Or.inl ⟨rfl, rfl⟩, hf⟩
        · exact ⟨Or.inr hv, hr⟩
      · rintro ⟨⟨rfl, rfl⟩ | hv, hr⟩
        · exact Or.inl ⟨rfl, rfl⟩
        · exact Or.inr ⟨hv, hr⟩
    next hne =>
      refine ⟨hsub.cons _, ?_⟩
      intro k v
      simp only [mem_cons, hmem]
      constructor
      · rintro ⟨hv, hr⟩
        exact ⟨Or.inr hv, hr⟩
      · rintro ⟨⟨rfl, rfl⟩ | hv, hr⟩
        · rw [hf] at hr
          exact absurd (Except.ok.inj hr) hne
        · exact ⟨hv, hr⟩

def mapped {W : Type} (f : K → V → Except (Stop E) W) (m : K → Option V) (key : K) : Option W :=
  (m key).bind fun value => (f key value).toOption

/-- The map without the entries for which a test has the other result. -/
def matching (holds : Bool) (f : K → V → Except (Stop E) Bool) (m : K → Option V) (key : K) :
    Option V :=
  (m key).filter fun value => (f key value).toOption = some holds

variable {dict : Dict K V E} {m : K → Option V}

section

variable (h : Represents order dict m)

include h

lemma Represents.returnsOn {f : K → V → Except (Stop E) W} :
    (∀ e ∈ dict.entries, ∃ result, f e.1 e.2 = .ok result) ↔ ReturnsOn f m := by
  constructor
  · intro hall key value hkey
    exact hall (key, value) ((h.entries key value).mpr hkey)
  · rintro hret ⟨key, value⟩ hmem
    exact hret key value ((h.entries key value).mp hmem)

lemma Represents.map (f : K → V → Except (Stop E) W) :
    ((∃ dict', map f dict = .ok dict') ↔ ReturnsOn f m) ∧
      ∀ dict', map f dict = .ok dict' → Represents order dict' (mapped f m) := by
  rw [← h.returnsOn, ← mapEntries_returns]
  unfold Dict.map
  constructor
  · constructor
    · rintro ⟨dict', hdc⟩
      obtain ⟨entries, hents, -⟩ := bind_ok hdc
      exact ⟨entries, hents⟩
    · rintro ⟨entries, hents⟩
      rw [hents]
      exact ⟨_, rfl⟩
  · intro dict' hdc
    obtain ⟨entries, hents, hdc⟩ := bind_ok hdc
    cases hdc
    obtain ⟨hks, hmem⟩ := mapEntries_spec hents
    refine ⟨h.comparator, ?_, ?_⟩
    · have hasc := h.ascending
      unfold Ascending at hasc ⊢
      rw [← pairwise_map (R := fun a b => order a b = .lt)] at hasc ⊢
      rw [hks]
      exact hasc
    · intro key result
      rw [hmem, Dict.mapped, Option.bind_eq_some_iff]
      exact exists_congr fun value => and_congr (h.entries key value) toOption_eq_some.symm

lemma Represents.part (hpts : partitionEntries f dict.entries = .ok parts) (holds : Bool) :
    Represents order { dict with entries := Dict.part holds parts } (matching holds f m) := by
  obtain ⟨hsub, hmem⟩ := partitionEntries_spec hpts holds
  refine ⟨h.comparator, h.ascending.sublist hsub, ?_⟩
  intro key value
  rw [hmem, h.entries, matching, Option.filter_eq_some_iff, decide_eq_true_iff, toOption_eq_some]

end

section Merge

variable {A B R : Type}

def visit (leftOnly : K → A → R → Except (Stop E) R) (both : K → A → B → R → Except (Stop E) R)
    (rightOnly : K → B → R → Except (Stop E) R) (m : K → Option A) (n : K → Option B) (result : R)
    (key : K) : Except (Stop E) R :=
  match m key, n key with
  | some a, none => leftOnly key a result
  | some a, some b => both key a b result
  | none, some b => rightOnly key b result
  | none, none => .ok result

/-- The entries that are left of two maps: those of one map at the keys that are left of the
other are left of it, too. -/
structure Remaining (order : K → K → Ordering) (m : K → Option A) (n : K → Option B)
    (left : List (K × A)) (right : List (K × B)) : Prop where
  left_ascending : Ascending order left
  right_ascending : Ascending order right
  left_entries : ∀ e ∈ left, m e.1 = some e.2
  right_entries : ∀ e ∈ right, n e.1 = some e.2
  left_of_right : ∀ e ∈ right, ∀ a, m e.1 = some a → (e.1, a) ∈ left
  right_of_left : ∀ e ∈ left, ∀ b, n e.1 = some b → (e.1, b) ∈ right

def keyOf (left : List (K × A)) (right : List (K × B)) (key : K) : Prop :=
  (∃ a, (key, a) ∈ left) ∨ ∃ b, (key, b) ∈ right

variable {right : List (K × B)} {left : List (K × A)}

variable {key : K} {a : A}

variable {first : K}

lemma keyOf_cons_left :
    keyOf ((first, a) :: left) right key ↔ key = first ∨ keyOf left right key := by
  simp [keyOf, exists_or, or_assoc]

variable {b : B}

lemma keyOf_cons_right :
    keyOf left ((first, b) :: right) key ↔ key = first ∨ keyOf left right key := by
  simp [keyOf, exists_or, or_left_comm]

def Visits (order : K → K → Ordering) (m : K → Option A) (n : K → Option B) (left : List (K × A))
    (right : List (K × B)) (keys : List K) : Prop :=
  keys.Pairwise (fun a b => order a b = .lt) ∧ (∀ key, key ∈ keys ↔ keyOf left right key) ∧
    ∀ {R : Type} (leftOnly : K → A → R → Except (Stop E) R)
      (both : K → A → B → R → Except (Stop E) R) (rightOnly : K → B → R → Except (Stop E) R)
      (result : R), mergeFrom (lifted order) leftOnly both rightOnly left right result =
        keys.foldlM (visit leftOnly both rightOnly m n) result

lemma pairwise_keys {keys : List K} (hks : keys.Pairwise fun a b => order a b = .lt)
    (hmem : ∀ k, k ∈ keys ↔ keyOf left right k) (hlt : ∀ e ∈ left, order key e.1 = .lt)
    (hrt : ∀ e ∈ right, order key e.1 = .lt) :
    (key :: keys).Pairwise fun a b => order a b = .lt := by
  refine pairwise_cons.mpr ⟨?_, hks⟩
  intro k hk
  rcases (hmem k).mp hk with ⟨a, ha⟩ | ⟨b, hb⟩
  · exact hlt (k, a) ha
  · exact hrt (k, b) hb

lemma below_of_lt [Std.TransCmp order] {V : Type} {value : V} {entries : List (K × V)}
    (h : Ascending order ((first, value) :: entries)) (hlt : order key first = .lt) :
    ∀ e ∈ (first, value) :: entries, order key e.1 = .lt := by
  intro e he
  rcases mem_cons.mp he with rfl | he
  · exact hlt
  · exact Std.TransCmp.lt_trans hlt ((ascending_cons.mp h).1 e he)

variable [Std.LawfulEqCmp order] {m : K → Option A} {n : K → Option B}

lemma ne_of_lt {a b : K} (h : order a b = .lt) : a ≠ b := by
  rintro rfl
  have hsf : order a a = .eq := Std.ReflCmp.compare_self
  rw [hsf] at h
  cases h

lemma Remaining.dropLeft (h : Remaining order m n ((key, a) :: left) right)
    (hbe : ∀ e ∈ right, order key e.1 = .lt) :
    Remaining order m n left right ∧ m key = some a ∧ n key = none := by
  refine ⟨⟨(ascending_cons.mp h.left_ascending).2, h.right_ascending,
    fun e he => h.left_entries e (mem_cons_of_mem _ he), h.right_entries, ?_,
    fun e he => h.right_of_left e (mem_cons_of_mem _ he)⟩,
    h.left_entries _ mem_cons_self, ?_⟩
  · intro e he a' hm
    rcases mem_cons.mp (h.left_of_right e he a' hm) with heq | hmem
    · exact absurd (Prod.mk.inj heq).1.symm (ne_of_lt (hbe e he))
    · exact hmem
  · cases hn : n key with
    | none => rfl
    | some b =>
      have hmem := h.right_of_left _ mem_cons_self b hn
      exact absurd rfl (ne_of_lt (hbe _ hmem))

lemma Remaining.dropRight (h : Remaining order m n left ((key, b) :: right))
    (hbe : ∀ e ∈ left, order key e.1 = .lt) :
    Remaining order m n left right ∧ m key = none ∧ n key = some b := by
  have hswap : Remaining order n m ((key, b) :: right) left :=
    ⟨h.right_ascending, h.left_ascending, h.right_entries, h.left_entries, h.right_of_left,
      h.left_of_right⟩
  obtain ⟨hr, hn, hm⟩ := hswap.dropLeft hbe
  exact ⟨⟨hr.right_ascending, hr.left_ascending, hr.right_entries, hr.left_entries,
    hr.right_of_left, hr.left_of_right⟩, hm, hn⟩

lemma Remaining.dropBoth (h : Remaining order m n ((key, a) :: left) ((key, b) :: right)) :
    Remaining order m n left right ∧ m key = some a ∧ n key = some b := by
  obtain ⟨hlt, hlt'⟩ := ascending_cons.mp h.left_ascending
  obtain ⟨hrt, hrt'⟩ := ascending_cons.mp h.right_ascending
  refine ⟨⟨hlt', hrt', fun e he => h.left_entries e (mem_cons_of_mem _ he),
    fun e he => h.right_entries e (mem_cons_of_mem _ he), ?_, ?_⟩,
    h.left_entries _ mem_cons_self, h.right_entries _ mem_cons_self⟩
  · intro e he a' hm
    rcases mem_cons.mp (h.left_of_right e (mem_cons_of_mem _ he) a' hm) with heq | hmem
    · exact absurd (Prod.mk.inj heq).1.symm (ne_of_lt (hrt e he))
    · exact hmem
  · intro e he b' hn
    rcases mem_cons.mp (h.right_of_left e (mem_cons_of_mem _ he) b' hn) with heq | hmem
    · exact absurd (Prod.mk.inj heq).1.symm (ne_of_lt (hlt e he))
    · exact hmem

variable [Std.TransCmp order]

lemma Remaining.visits (h : Remaining order m n left right) :
    ∃ keys, Visits (E := E) order m n left right keys := by
  induction left generalizing right with
  | nil =>
    induction right with
    | nil =>
      refine ⟨[], .nil, by simp [keyOf], ?_⟩
      intros
      rw [mergeFrom]
      rfl
    | cons e right ih =>
      obtain ⟨key, b⟩ := e
      obtain ⟨hr, hm, hn⟩ := h.dropRight (by simp)
      obtain ⟨keys, hks, hmem, hmg⟩ := ih hr
      refine ⟨key :: keys, pairwise_keys hks hmem (by simp)
        (ascending_cons.mp h.right_ascending).1, ?_, ?_⟩
      · intro k
        rw [mem_cons, hmem, keyOf_cons_right]
      · intro R leftOnly both rightOnly result
        rw [mergeFrom, foldlM_cons, visit, hm, hn]
        simp only [hmg]
  | cons e left ihLeft =>
    obtain ⟨leftKey, a⟩ := e
    induction right with
    | nil =>
      obtain ⟨hr, hm, hn⟩ := h.dropLeft (by simp)
      obtain ⟨keys, hks, hmem, hmg⟩ := ihLeft hr
      refine ⟨leftKey :: keys, pairwise_keys hks hmem (ascending_cons.mp h.left_ascending).1
        (by simp), ?_, ?_⟩
      · intro k
        rw [mem_cons, hmem, keyOf_cons_left]
      · intro R leftOnly both rightOnly result
        rw [mergeFrom, foldlM_cons, visit, hm, hn]
        simp only [hmg]
    | cons e right ihRight =>
      obtain ⟨rightKey, b⟩ := e
      have hlt := (ascending_cons.mp h.left_ascending).1
      have hrt := (ascending_cons.mp h.right_ascending).1
      cases hcmp : order leftKey rightKey with
      | lt =>
        have hbe := below_of_lt h.right_ascending hcmp
        obtain ⟨hr, hm, hn⟩ := h.dropLeft hbe
        obtain ⟨keys, hks, hmem, hmg⟩ := ihLeft hr
        refine ⟨leftKey :: keys, pairwise_keys hks hmem hlt hbe, ?_, ?_⟩
        · intro k
          rw [mem_cons, hmem, keyOf_cons_left]
        · intro R leftOnly both rightOnly result
          rw [mergeFrom, lifted, bind_eq, hcmp, foldlM_cons, visit, hm, hn]
          simp only [hmg]
      | eq =>
        obtain rfl := Std.LawfulEqCmp.eq_of_compare hcmp
        obtain ⟨hr, hm, hn⟩ := h.dropBoth
        obtain ⟨keys, hks, hmem, hmg⟩ := ihLeft hr
        refine ⟨leftKey :: keys, pairwise_keys hks hmem hlt hrt, ?_, ?_⟩
        · intro k
          rw [mem_cons, hmem, keyOf_cons_left, keyOf_cons_right, or_self_left]
        · intro R leftOnly both rightOnly result
          rw [mergeFrom, lifted, bind_eq, hcmp, foldlM_cons, visit, hm, hn]
          simp only [hmg]
      | gt =>
        have hbe := below_of_lt h.left_ascending (Std.OrientedCmp.lt_of_gt hcmp)
        obtain ⟨hr, hm, hn⟩ := h.dropRight hbe
        obtain ⟨keys, hks, hmem, hmg⟩ := ihRight hr
        refine ⟨rightKey :: keys, pairwise_keys hks hmem hbe hrt, ?_, ?_⟩
        · intro k
          rw [mem_cons, hmem, keyOf_cons_right]
        · intro R leftOnly both rightOnly result
          rw [mergeFrom, lifted, bind_eq, hcmp, foldlM_cons, visit, hm, hn]
          simp only [hmg]

lemma Represents.merge {left : Dict K A E} {right : Dict K B E} (hlt : Represents order left m)
    (hrt : Represents order right n) :
    ∃ keys : List K, keys.Pairwise (fun a b => order a b = .lt) ∧
      (∀ key, key ∈ keys ↔ m key ≠ none ∨ n key ≠ none) ∧
      ∀ {R : Type} (leftOnly : K → A → R → Except (Stop E) R)
        (both : K → A → B → R → Except (Stop E) R) (rightOnly : K → B → R → Except (Stop E) R)
        (initial : R), merge leftOnly both rightOnly left right initial =
          keys.foldlM (visit leftOnly both rightOnly m n) initial := by
  have hall : Remaining order m n left.entries right.entries := by
    refine ⟨hlt.ascending, hrt.ascending, ?_, ?_, ?_, ?_⟩
    · exact fun e he => (hlt.entries e.1 e.2).mp he
    · exact fun e he => (hrt.entries e.1 e.2).mp he
    · exact fun e _ a ha => (hlt.entries e.1 a).mpr ha
    · exact fun e _ b hb => (hrt.entries e.1 b).mpr hb
  obtain ⟨keys, hks, hmem, hmg⟩ := hall.visits
  refine ⟨keys, hks, ?_, ?_⟩
  · intro key
    rw [hmem, keyOf]
    simp only [hlt.entries, hrt.entries, ← Option.ne_none_iff_exists']
  · intro R leftOnly both rightOnly initial
    unfold Dict.merge
    rw [hlt.comparator]
    exact hmg leftOnly both rightOnly initial

end Merge

end Morphir.Sdk.Dict
