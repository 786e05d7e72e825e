import Morphir.Typing.Meaning
import Morphir.Typing.Relations

/-!
# Assignability is transitive

A proof and a refutation within limits stand for two relations on normal
forms, without limits: `Below` and `Apart`.  A type below another and not
apart from what the other is below: proofs compose, and no refutation goes
against their composition.
-/

namespace Morphir.Typing

open IR OrdMap

inductive Below : Ty → Ty → Prop
  | refl (t : Ty) : Below t t
  | unionLeft {xs : List Ty} {t : Ty} (members : ∀ x ∈ xs, Below x t) : Below (.union xs) t
  | unionRight {s y : Ty} {ys : List Ty} (member : y ∈ ys) (below : Below s y) :
      Below s (.union ys)
  | con {name : String} {xs ys : List Ty} (length : xs.length = ys.length)
      (forward : ∀ e ∈ xs.zip ys, Below e.1 e.2) (backward : ∀ e ∈ xs.zip ys, Below e.2 e.1) :
      Below (.con name xs) (.con name ys)
  | tup {xs ys : List Ty} (length : xs.length = ys.length)
      (items : ∀ e ∈ xs.zip ys, Below e.1 e.2) : Below (.tup xs) (.tup ys)
  | fn {a b c d : Ty} (input : Below c a) (output : Below b d) : Below (.fn a b) (.fn c d)
  | record {xs ys : List (String × Ty)}
      (names : ∀ name, name ∈ OrdMap.keys xs ↔ name ∈ OrdMap.keys ys)
      (fields : ∀ name x y, get? xs name = some x → get? ys name = some y →
        Below x y) : Below (.record xs none) (.record ys none)

inductive Kind
  | con (name : String) (arity : Nat)
  | tup (arity : Nat)
  | fn
  | record (names : Set String)
  | unit

def kind : Ty → Option Kind
  | .con name args => some (.con name args.length)
  | .tup items => some (.tup items.length)
  | .fn _ _ => some .fn
  | .record fields none => some (.record {name | name ∈ OrdMap.keys fields})
  | .unit => some .unit
  | _ => none

inductive Apart : Ty → Ty → Prop
  | unionLeft {x t : Ty} {xs : List Ty} (member : x ∈ xs) (apart : Apart x t) :
      Apart (.union xs) t
  | unionRight {s : Ty} {ys : List Ty} (leaf : ¬ IsUnion s) (members : ∀ y ∈ ys, Apart s y) :
      Apart s (.union ys)
  | conForward {name : String} {xs ys : List Ty} {e : Ty × Ty} (member : e ∈ xs.zip ys)
      (apart : Apart e.1 e.2) : Apart (.con name xs) (.con name ys)
  | conBackward {name : String} {xs ys : List Ty} {e : Ty × Ty} (member : e ∈ xs.zip ys)
      (apart : Apart e.2 e.1) : Apart (.con name xs) (.con name ys)
  | tup {xs ys : List Ty} {e : Ty × Ty} (member : e ∈ xs.zip ys) (apart : Apart e.1 e.2) :
      Apart (.tup xs) (.tup ys)
  | fnInput {a b c d : Ty} (apart : Apart c a) : Apart (.fn a b) (.fn c d)
  | fnOutput {a b c d : Ty} (apart : Apart b d) : Apart (.fn a b) (.fn c d)
  | record {xs ys : List (String × Ty)} {name : String} {x y : Ty}
      (left : get? xs name = some x) (right : get? ys name = some y)
      (apart : Apart x y) : Apart (.record xs none) (.record ys none)
  | kinds {s t : Ty} {k l : Kind} (left : kind s = some k) (right : kind t = some l)
      (ne : k ≠ l) : Apart s t

namespace Below

lemma of_unionLeft {xs : List Ty} {t : Ty} (h : Below (.union xs) t) : ∀ x ∈ xs, Below x t := by
  generalize hs : Ty.union xs = s at h
  induction h with
  | refl s =>
    subst hs
    exact fun x hx => unionRight hx (refl x)
  | unionLeft members =>
    cases hs
    exact members
  | unionRight member _ ih => exact fun x hx => unionRight member (ih hs x hx)
  | _ => cases hs

lemma of_unionRight {s : Ty} {ys : List Ty} (hs : ¬ IsUnion s) (h : Below s (.union ys)) :
    ∃ y ∈ ys, Below s y := by
  cases h with
  | refl => exact absurd trivial hs
  | unionLeft => exact absurd trivial hs
  | unionRight member below => exact ⟨_, member, below⟩

end Below

lemma exists_leaf_between {a b c : Ty} (ha : ¬ IsUnion a) (hab : Below a b) (hbc : Below b c) :
    ∃ y, ¬ IsUnion y ∧ Below a y ∧ Below y c := by
  induction hab with
  | refl t => exact ⟨t, ha, .refl t, hbc⟩
  | unionLeft => exact absurd trivial ha
  | unionRight member _ ih => exact ih ha (hbc.of_unionLeft _ member)
  | con length forward backward => exact ⟨_, id, .con length forward backward, hbc⟩
  | tup length items => exact ⟨_, id, .tup length items, hbc⟩
  | fn input output => exact ⟨_, id, .fn input output, hbc⟩
  | record names fields => exact ⟨_, id, .record names fields, hbc⟩

lemma Below.kind_eq {s t : Ty} (hs : ¬ IsUnion s) (ht : ¬ IsUnion t) (h : Below s t) :
    kind s = kind t := by
  cases h with
  | refl => rfl
  | unionLeft => exact absurd trivial hs
  | unionRight => exact absurd trivial ht
  | con length => simp [kind, length]
  | tup length => simp [kind, length]
  | fn => rfl
  | record names =>
    have hset : ∀ {xs ys : List (String × Ty)},
        (∀ name, name ∈ OrdMap.keys xs ↔ name ∈ OrdMap.keys ys) →
        {name | name ∈ OrdMap.keys xs} = {name | name ∈ OrdMap.keys ys} :=
      fun h => Set.ext h
    simp [kind, hset names]

section Components

variable {t : Ty} (ht : ¬ IsUnion t)

include ht

lemma Below.con_inv {name : String} {xs : List Ty} (h : Below (.con name xs) t) :
    ∃ ys, t = .con name ys ∧ xs.length = ys.length ∧
      (∀ e ∈ xs.zip ys, Below e.1 e.2) ∧ ∀ e ∈ xs.zip ys, Below e.2 e.1 := by
  cases h with
  | refl =>
    have hsf : ∀ e ∈ xs.zip xs, Below e.1 e.2 ∧ Below e.2 e.1 := by
      intro e he
      rw [List.eq_of_mem_zip_self he]
      exact ⟨.refl _, .refl _⟩
    exact ⟨xs, rfl, rfl, fun e he => (hsf e he).1, fun e he => (hsf e he).2⟩
  | unionRight => exact absurd trivial ht
  | con length forward backward => exact ⟨_, rfl, length, forward, backward⟩

lemma Below.tup_inv {xs : List Ty} (h : Below (.tup xs) t) :
    ∃ ys, t = .tup ys ∧ xs.length = ys.length ∧ ∀ e ∈ xs.zip ys, Below e.1 e.2 := by
  cases h with
  | refl =>
    refine ⟨xs, rfl, rfl, fun e he => ?_⟩
    rw [List.eq_of_mem_zip_self he]
    exact .refl _
  | unionRight => exact absurd trivial ht
  | tup length items => exact ⟨_, rfl, length, items⟩

lemma Below.fn_inv {a b : Ty} (h : Below (.fn a b) t) :
    ∃ c d, t = .fn c d ∧ Below c a ∧ Below b d := by
  cases h with
  | refl => exact ⟨a, b, rfl, .refl a, .refl b⟩
  | unionRight => exact absurd trivial ht
  | fn input output => exact ⟨_, _, rfl, input, output⟩

lemma Below.record_inv {xs : List (String × Ty)} (h : Below (.record xs none) t) :
    ∃ ys, t = .record ys none ∧ (∀ name, name ∈ OrdMap.keys xs ↔ name ∈ OrdMap.keys ys) ∧
      ∀ name x y, get? xs name = some x → get? ys name = some y → Below x y := by
  cases h with
  | refl =>
    refine ⟨xs, rfl, fun _ => Iff.rfl, fun name x y hx hy => ?_⟩
    rw [hx] at hy
    cases hy
    exact .refl _
  | unionRight => exact absurd trivial ht
  | record names fields => exact ⟨_, rfl, names, fields⟩

end Components

lemma Apart.not_below_trans {a c : Ty} (h : Apart a c) : ∀ b, Below a b → Below b c → False := by
  induction h with
  | unionLeft member _ ih => exact fun b hab hbc => ih b (hab.of_unionLeft _ member) hbc
  | unionRight leaf members ih =>
    intro b hab hbc
    obtain ⟨y, hy, hay, hyc⟩ := exists_leaf_between leaf hab hbc
    obtain ⟨z, hz, hyz⟩ := hyc.of_unionRight hy
    exact ih z hz y hay hyz
  | conForward member _ ih =>
    intro b hab hbc
    obtain ⟨y, hy, hay, hyc⟩ := exists_leaf_between id hab hbc
    obtain ⟨ys, rfl, hxy, hfwd, -⟩ := hay.con_inv hy
    obtain ⟨zs, hzs, hyz, hfwd', -⟩ := hyc.con_inv id
    cases hzs
    obtain ⟨m, hm, hm'⟩ := List.exists_mem_zip_between hxy hyz member
    exact ih m (hfwd _ hm) (hfwd' _ hm')
  | conBackward member _ ih =>
    intro b hab hbc
    obtain ⟨y, hy, hay, hyc⟩ := exists_leaf_between id hab hbc
    obtain ⟨ys, rfl, hxy, -, hbac⟩ := hay.con_inv hy
    obtain ⟨zs, hzs, hyz, -, hbac'⟩ := hyc.con_inv id
    cases hzs
    obtain ⟨m, hm, hm'⟩ := List.exists_mem_zip_between hxy hyz member
    exact ih m (hbac' _ hm') (hbac _ hm)
  | tup member _ ih =>
    intro b hab hbc
    obtain ⟨y, hy, hay, hyc⟩ := exists_leaf_between id hab hbc
    obtain ⟨ys, rfl, hxy, hits⟩ := hay.tup_inv hy
    obtain ⟨zs, hzs, hyz, hits'⟩ := hyc.tup_inv id
    cases hzs
    obtain ⟨m, hm, hm'⟩ := List.exists_mem_zip_between hxy hyz member
    exact ih m (hits _ hm) (hits' _ hm')
  | fnInput _ ih =>
    intro b hab hbc
    obtain ⟨y, hy, hay, hyc⟩ := exists_leaf_between id hab hbc
    obtain ⟨c, d, rfl, hin, -⟩ := hay.fn_inv hy
    obtain ⟨c', d', heq, hin', -⟩ := hyc.fn_inv id
    cases heq
    exact ih c hin' hin
  | fnOutput _ ih =>
    intro b hab hbc
    obtain ⟨y, hy, hay, hyc⟩ := exists_leaf_between id hab hbc
    obtain ⟨c, d, rfl, -, hout⟩ := hay.fn_inv hy
    obtain ⟨c', d', heq, -, hout'⟩ := hyc.fn_inv id
    cases heq
    exact ih d hout hout'
  | record left right _ ih =>
    intro b hab hbc
    obtain ⟨y, hy, hay, hyc⟩ := exists_leaf_between id hab hbc
    obtain ⟨ys, rfl, hns, hfs⟩ := hay.record_inv hy
    obtain ⟨zs, hzs, -, hfs'⟩ := hyc.record_inv id
    cases hzs
    have hkey := (hns _).mp (get?_isSome_iff.mp (by rw [left]; rfl))
    obtain ⟨m, hm⟩ := exists_get?_of_mem_keys hkey
    exact ih m (hfs _ _ _ left hm) (hfs' _ _ _ hm right)
  | @kinds s t k l left right ne =>
    intro b hab hbc
    have hs : ¬ IsUnion s := by cases s <;> simp_all [IsUnion, kind]
    have ht : ¬ IsUnion t := by cases t <;> simp_all [IsUnion, kind]
    obtain ⟨y, hy, hay, hyc⟩ := exists_leaf_between hs hab hbc
    have hkd : kind s = kind t := (hay.kind_eq hs hy).trans (hyc.kind_eq hy ht)
    rw [left, right] at hkd
    exact ne (Option.some.inj hkd)

end Morphir.Typing
