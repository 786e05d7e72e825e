import Morphir.Sdk.DictOperations

/-!
# Sequences of dictionary operations

Whatever operations build a dictionary, it is the finite map that the same operations build,
and a merge visits the keys of two of them in their order.
-/

namespace Morphir.Sdk.Dict

open Fallible

variable {K V E : Type} {order : K → K → Ordering}

inductive Expr (K E : Type) : Type → Type 1
  | empty {V : Type} : Expr K E V
  | singleton {V : Type} (key : K) (value : V) : Expr K E V
  | fromList {V : Type} (entries : List (K × V)) : Expr K E V
  | insert {V : Type} (key : K) (value : V) (dict : Expr K E V) : Expr K E V
  | remove {V : Type} (key : K) (dict : Expr K E V) : Expr K E V
  | update {V : Type} (key : K) (f : Option V → Except (Stop E) (Option V)) (dict : Expr K E V) :
      Expr K E V
  | union {V : Type} (left right : Expr K E V) : Expr K E V
  | intersect {V : Type} (left right : Expr K E V) : Expr K E V
  | diff {V : Type} (left right : Expr K E V) : Expr K E V
  | map {V W : Type} (f : K → V → Except (Stop E) W) (dict : Expr K E V) : Expr K E W
  | filter {V : Type} (f : K → V → Except (Stop E) Bool) (dict : Expr K E V) : Expr K E V
  | partition {V : Type} (holds : Bool) (f : K → V → Except (Stop E) Bool) (dict : Expr K E V) :
      Expr K E V

namespace Expr

def eval (order : K → K → Ordering) {V : Type} : Expr K E V → Except (Stop E) (Dict K V E)
  | empty => .ok (Dict.empty (lifted order))
  | singleton key value => .ok (Dict.singleton (lifted order) key value)
  | fromList entries => Dict.fromList (lifted order) entries
  | insert key value dict => do Dict.insert key value (← eval order dict)
  | remove key dict => do Dict.remove key (← eval order dict)
  | update key f dict => do Dict.update key f (← eval order dict)
  | union left right => do
    let left ← eval order left
    Dict.union left (← eval order right)
  | intersect left right => do
    let left ← eval order left
    Dict.intersect left (← eval order right)
  | diff left right => do
    let left ← eval order left
    Dict.diff left (← eval order right)
  | map f dict => do Dict.map f (← eval order dict)
  | filter f dict => do Dict.filter f (← eval order dict)
  | partition holds f dict => do
    let (yes, no) ← Dict.partition f (← eval order dict)
    pure (if holds then yes else no)

variable [DecidableEq K]

def toMap {V : Type} : Expr K E V → K → Option V
  | empty => fun _ => none
  | singleton key value => Function.update (fun _ => none) key (some value)
  | fromList entries => lastValue entries
  | insert key value dict => Function.update dict.toMap key (some value)
  | remove key dict => Function.update dict.toMap key none
  | update key f dict =>
    match f (dict.toMap key) with
    | .ok value => Function.update dict.toMap key value
    | .error _ => dict.toMap
  | union left right => fun key => (left.toMap key).or (right.toMap key)
  | intersect left right => fun key => if (right.toMap key).isSome then left.toMap key else none
  | diff left right => fun key => if (right.toMap key).isSome then none else left.toMap key
  | map f dict => mapped f dict.toMap
  | filter f dict => matching true f dict.toMap
  | partition holds f dict => matching holds f dict.toMap

def Returns {V : Type} : Expr K E V → Prop
  | empty | singleton _ _ | fromList _ => True
  | insert _ _ dict | remove _ dict => dict.Returns
  | update key f dict => dict.Returns ∧ ∃ value, f (dict.toMap key) = .ok value
  | union left right | intersect left right | diff left right => left.Returns ∧ right.Returns
  | map f dict => dict.Returns ∧ ReturnsOn f dict.toMap
  | filter f dict | partition _ f dict => dict.Returns ∧ ReturnsOn f dict.toMap

/-- A computation of a dictionary returns just when it should, and what it returns stands for
a map. -/
def Meets (order : K → K → Ordering) {V : Type} (x : Except (Stop E) (Dict K V E))
    (returns : Prop) (m : K → Option V) : Prop :=
  (returns → ∃ dict, x = .ok dict ∧ Represents order dict m) ∧ ∀ dict, x = .ok dict → returns

variable {V : Type}

omit [DecidableEq K] in
lemma Meets.of_ok {x : Except (Stop E) (Dict K V E)} {m : K → Option V}
    (h : ∃ dict, x = .ok dict ∧ Represents order dict m) : Meets order x True m :=
  ⟨fun _ => h, fun _ _ => trivial⟩

omit [DecidableEq K] in
lemma Meets.bind {V W : Type} {x : Except (Stop E) (Dict K V E)} {p q : Prop} {m : K → Option V}
    {m' : K → Option W} {f : Dict K V E → Except (Stop E) (Dict K W E)} (h : Meets order x p m)
    (hf : ∀ dict, Represents order dict m → Meets order (f dict) q m') :
    Meets order (x >>= f) (p ∧ q) m' := by
  constructor
  · rintro ⟨hp, hq⟩
    obtain ⟨dict, rfl, hdc⟩ := h.1 hp
    exact (hf dict hdc).1 hq
  · intro dict' hbind
    obtain ⟨dict, hx, hdc'⟩ := bind_ok hbind
    have hp := h.2 dict hx
    obtain ⟨_, hx', hdc⟩ := h.1 hp
    obtain rfl := Except.ok.inj (hx.symm.trans hx')
    exact ⟨hp, (hf dict hdc).2 dict' hdc'⟩

omit [DecidableEq K] in
lemma Meets.then {V W : Type} {x : Except (Stop E) (Dict K V E)} {p : Prop} {m : K → Option V}
    {m' : K → Option W} {f : Dict K V E → Except (Stop E) (Dict K W E)} (h : Meets order x p m)
    (hf : ∀ dict, Represents order dict m → ∃ dict', f dict = .ok dict' ∧ Represents order dict' m')
    : Meets order (x >>= f) p m' := by
  have hbind := h.bind fun dict hdc => .of_ok (hf dict hdc)
  rw [and_true] at hbind
  exact hbind

omit [DecidableEq K] in
lemma meets_two {x y : Except (Stop E) (Dict K V E)} {p q : Prop} {m n r : K → Option V}
    {f : Dict K V E → Dict K V E → Except (Stop E) (Dict K V E)} (hx : Meets order x p m)
    (hy : Meets order y q n)
    (hf : ∀ left right, Represents order left m → Represents order right n →
      ∃ dict, f left right = .ok dict ∧ Represents order dict r) :
    Meets order (x >>= fun left => y >>= fun right => f left right) (p ∧ q) r :=
  hx.bind fun left hlt => hy.then fun right hrt => hf left right hlt hrt

omit [DecidableEq K] in
lemma meets_map {V W : Type} {dict : Dict K V E} {m : K → Option V} (h : Represents order dict m)
    (f : K → V → Except (Stop E) W) :
    Meets order (Dict.map f dict) (ReturnsOn f m) (mapped f m) := by
  obtain ⟨hret, hdc⟩ := h.map f
  constructor
  · intro hall
    obtain ⟨dict', hmap⟩ := hret.mpr hall
    exact ⟨dict', hmap, hdc dict' hmap⟩
  · exact fun dict' hmap => hret.mp ⟨dict', hmap⟩

omit [DecidableEq K] in
lemma meets_part {dict : Dict K V E} {m : K → Option V} (h : Represents order dict m)
    (holds : Bool) (f : K → V → Except (Stop E) Bool) :
    Meets order (do
      let parts ← partitionEntries f dict.entries
      pure { dict with entries := part holds parts }) (ReturnsOn f m) (matching holds f m) := by
  rw [← h.returnsOn, ← partitionEntries_returns]
  constructor
  · rintro ⟨parts, hpts⟩
    rw [hpts]
    exact ⟨_, rfl, h.part hpts holds⟩
  · intro dict' hdc
    obtain ⟨parts, hpts, -⟩ := bind_ok hdc
    exact ⟨parts, hpts⟩

variable [Std.TransCmp order] [Std.LawfulEqCmp order]

lemma meets_update {dict : Dict K V E} {m : K → Option V} (h : Represents order dict m) (key : K)
    (f : Option V → Except (Stop E) (Option V)) :
    Meets order (Dict.update key f dict) (∃ value, f (m key) = .ok value)
      (match f (m key) with
        | .ok value => Function.update m key value
        | .error _ => m) := by
  cases hf : f (m key) with
  | ok value =>
    obtain ⟨dict', hupd, hdc'⟩ := h.update hf
    exact ⟨fun _ => ⟨dict', hupd, hdc'⟩, fun _ _ => ⟨value, rfl⟩⟩
  | error stop =>
    constructor
    · rintro ⟨_, ⟨⟩⟩
    · intro dict' hupd
      unfold Dict.update at hupd
      rw [h.get key, bind_eq, hf] at hupd
      cases hupd

lemma eval_meets (e : Expr K E V) : Meets order (e.eval order) e.Returns e.toMap := by
  induction e with
  | empty => exact .of_ok ⟨_, rfl, represents_empty⟩
  | singleton key value => exact .of_ok ⟨_, rfl, represents_singleton key value⟩
  | fromList entries => exact .of_ok (Represents.fromList entries)
  | insert key value dict ih => exact ih.then fun d hd => hd.insert key value
  | remove key dict ih => exact ih.then fun d hd => hd.remove key
  | update key f dict ih => exact ih.bind fun d hd => meets_update hd key f
  | union left right ihLeft ihRight => exact meets_two ihLeft ihRight fun _ _ hl hr => hl.union hr
  | intersect left right ihLeft ihRight =>
    exact meets_two ihLeft ihRight fun _ _ hl hr => hl.intersect hr
  | diff left right ihLeft ihRight => exact meets_two ihLeft ihRight fun _ _ hl hr => hl.diff hr
  | map f dict ih => exact ih.bind fun d hd => meets_map hd f
  | filter f dict ih => exact ih.bind fun d hd => meets_part hd true f
  | partition holds f dict ih =>
    have hpa : ∀ d : Dict K _ E,
        (do
          let (yes, no) ← Dict.partition f d
          (pure (if holds then yes else no) : Except (Stop E) _)) =
        (do
          let parts ← partitionEntries f d.entries
          pure { d with entries := part holds parts }) := by
      intro d
      unfold Dict.partition
      cases partitionEntries f d.entries with
      | error stop => rfl
      | ok parts => cases holds <;> rfl
    refine ih.bind fun d hd => ?_
    rw [hpa]
    exact meets_part hd holds f

end Expr

/-- A dictionary that any operations build is in the strict order of its keys and is the
finite map that they build; it is built just when the callbacks return, and a merge of two
visits the keys that one of them has, each once and in their order. -/
theorem finite_map (order : K → K → Ordering) [Std.TransCmp order] [Std.LawfulEqCmp order]
    [DecidableEq K] :
    (∀ {V : Type} (e : Expr K E V), ((∃ dict, e.eval order = .ok dict) ↔ e.Returns) ∧
        ∀ dict, e.eval order = .ok dict → Ascending order dict.entries ∧
          (∀ key value, (key, value) ∈ dict.entries ↔ e.toMap key = some value) ∧
          (∀ key, get key dict = .ok (e.toMap key)) ∧
          ∀ key, hasKey key dict = .ok (e.toMap key).isSome) ∧
    ∀ {A B : Type} (l : Expr K E A) (r : Expr K E B) (left : Dict K A E) (right : Dict K B E),
      l.eval order = .ok left → r.eval order = .ok right →
        ∃ keys : List K, keys.Pairwise (fun a b => order a b = .lt) ∧
          (∀ key, key ∈ keys ↔ l.toMap key ≠ none ∨ r.toMap key ≠ none) ∧
          ∀ {R : Type} (leftOnly : K → A → R → Except (Stop E) R)
            (both : K → A → B → R → Except (Stop E) R) (rightOnly : K → B → R → Except (Stop E) R)
            (initial : R), merge leftOnly both rightOnly left right initial =
              keys.foldlM (visit leftOnly both rightOnly l.toMap r.toMap) initial := by
  have hrep : ∀ {V : Type} (e : Expr K E V) (dict : Dict K V E),
      e.eval order = .ok dict → Represents order dict e.toMap := by
    intro V e dict heval
    have hmeets : Expr.Meets order (e.eval order) e.Returns e.toMap := e.eval_meets
    obtain ⟨dict', heval', hdc⟩ := hmeets.1 (hmeets.2 dict heval)
    obtain rfl := Except.ok.inj (heval.symm.trans heval')
    exact hdc
  constructor
  · intro V e
    have hmeets : Expr.Meets order (e.eval order) e.Returns e.toMap := e.eval_meets
    constructor
    · constructor
      · rintro ⟨dict, heval⟩
        exact hmeets.2 dict heval
      · intro hret
        obtain ⟨dict, heval, -⟩ := hmeets.1 hret
        exact ⟨dict, heval⟩
    · intro dict heval
      have hdc := hrep e dict heval
      exact ⟨hdc.ascending, hdc.entries, hdc.get, hdc.hasKey⟩
  · intro A B l r left right hlt hrt
    exact (hrep l left hlt).merge (hrep r right hrt)

theorem finite_map_pairs :
    ∃ dict, (Expr.map (fun key value => .ok (key, value)) (.singleton 2 'b') :
        Expr Nat Empty (Nat × Char)).eval compare = .ok dict ∧
      Ascending compare dict.entries ∧ get 2 dict = .ok (some (2, 'b')) := by
  obtain ⟨hasc, -, hget, -⟩ := ((finite_map compare).1
    (Expr.map (fun key value => .ok (key, value)) (.singleton 2 'b') :
      Expr Nat Empty (Nat × Char))).2 _ rfl
  exact ⟨_, rfl, hasc, hget 2⟩

end Morphir.Sdk.Dict
