import Morphir.Typing.WellFormed

/-!
# Canonical types

The canonical form of a type has its fields and its attributes in the order of
their keys.  Well-formed types compare equal when their canonical forms are
equal, and expansion respects canonical forms.
-/

namespace Morphir.Typing

open IR List OrdMap Ty

namespace Ty

/- The type with all fields and attributes in the order of their keys. -/
mutual
def canonical : Ty → Ty
  | .con name args => .con name (canonicalItems args)
  | .fn input output => .fn (canonical input) (canonical output)
  | .tup items => .tup (canonicalItems items)
  | .union items => .union (canonicalItems items)
  | .attributed attrs body => .attributed attrs.canonical (canonical body)
  | .record fields tail => .record (OrdMap.canonical (canonicalFields fields)) (canonicalTail tail)
  | t => t

def canonicalItems : List Ty → List Ty
  | [] => []
  | t :: ts => canonical t :: canonicalItems ts

def canonicalFields : List (String × Ty) → List (String × Ty)
  | [] => []
  | (name, t) :: fields => (name, canonical t) :: canonicalFields fields

def canonicalTail : Option Ty → Option Ty
  | none => none
  | some t => some (canonical t)
end

@[simp] lemma canonicalItems_eq (items : List Ty) : canonicalItems items = items.map canonical := by
  induction items with
  | nil => rfl
  | cons t ts ih => rw [canonicalItems, ih, map_cons]

@[simp] lemma canonicalFields_eq (fields : List (String × Ty)) :
    canonicalFields fields = mapValues canonical fields := by
  induction fields with
  | nil => rfl
  | cons e fields ih => rw [canonicalFields, ih, mapValues_cons]

@[simp] lemma canonicalTail_eq (tail : Option Ty) : canonicalTail tail = tail.map canonical := by
  cases tail <;> rfl

lemma beqItems_iff {xs ys : List Ty}
    (h : ∀ x ∈ xs, ∀ y ∈ ys, beq x y = true ↔ x.canonical = y.canonical) :
    beqItems xs ys = true ↔ xs.map canonical = ys.map canonical := by
  induction xs generalizing ys with
  | nil => cases ys <;> simp [beqItems]
  | cons x xs ih =>
    cases ys with
    | nil => simp [beqItems]
    | cons y ys =>
      have hh := h x mem_cons_self y mem_cons_self
      have htl : beqItems xs ys = true ↔ xs.map canonical = ys.map canonical :=
        ih fun x hx y hy => h x (mem_cons_of_mem _ hx) y (mem_cons_of_mem _ hy)
      rw [beqItems, Bool.and_eq_true, hh, htl, map_cons, map_cons, List.cons.injEq]

lemma beqFields_iff {xs ys : List (String × Ty)} :
    beqFields xs ys = true ↔
      ∀ e ∈ xs, ∃ t, get? ys e.1 = some t ∧ beq e.2 t = true := by
  induction xs with
  | nil => simp [beqFields]
  | cons e xs ih =>
    obtain ⟨name, t⟩ := e
    rw [beqFields, Bool.and_eq_true, ih]
    cases hval : get? ys name <;> simp [hval]

lemma beqRecord_iff {xs ys : List (String × Ty)} (hxs : OrdMap.Distinct xs)
    (hys : OrdMap.Distinct ys)
    (h : ∀ e ∈ xs, ∀ f ∈ ys, beq e.2 f.2 = true ↔ e.2.canonical = f.2.canonical) :
    (xs.length == ys.length && beqFields xs ys && ys.all (fun e => OrdMap.contains xs e.1)) = true ↔
      OrdMap.canonical (OrdMap.mapValues canonical xs) =
        OrdMap.canonical (OrdMap.mapValues canonical ys) := by
  have hfwd : beqFields xs ys = true ↔
      ∀ e ∈ xs, ∃ t, OrdMap.get? ys e.1 = some t ∧ e.2.canonical = t.canonical := by
    rw [beqFields_iff]
    apply forall₂_congr
    intro e he
    apply exists_congr
    intro t
    apply and_congr_right
    intro ht
    exact h e he _ (mem_of_get? ht)
  rw [canonical_mapValues_eq_iff canonical hxs hys, Bool.and_eq_true, Bool.and_eq_true,
    beq_iff_eq, hfwd]
  -- the names of the second record are those of the first
  refine ⟨And.left, fun hb => ⟨hb, ?_⟩⟩
  have hsub : ∀ name ∈ OrdMap.keys xs, name ∈ OrdMap.keys ys := by
    intro name hname
    obtain ⟨e, he, rfl⟩ := mem_map.mp hname
    obtain ⟨t, ht, -⟩ := hb.2 e he
    exact get?_isSome_iff.mp (by simp [ht])
  rw [all_eq_true]
  intro e he
  rw [OrdMap.contains_iff, hxs.keys_iff hb.1 hsub]
  exact mem_map_of_mem he

end Ty

lemma canonical_attributedBody (node : IRType) {s t : Ty} (h : s.canonical = t.canonical) :
    (attributedBody node s).canonical = (attributedBody node t).canonical := by
  unfold attributedBody
  simp only
  split
  · exact h
  · rw [Ty.canonical, Ty.canonical, h]

lemma canonical_toTy {vars vars' : String → TypeAttributes → Ty}
    (hvars : ∀ name attrs, (vars name attrs).canonical = (vars' name attrs).canonical) (t : IRType)
    : (toTy vars t).canonical = (toTy vars' t).canonical := by
  have hits : ∀ items : List IRType,
      (∀ t ∈ items, (toTy vars t).canonical = (toTy vars' t).canonical) →
      (items.map (toTy vars)).map canonical = (items.map (toTy vars')).map canonical := by
    intro items ih
    rw [map_map, map_map]
    exact map_congr_left ih
  have hfs : ∀ fields : List (Name × IRType),
      (∀ e ∈ fields, (toTy vars e.2).canonical = (toTy vars' e.2).canonical) →
      OrdMap.canonical (mapValues canonical (fieldsToTy vars fields)) =
        OrdMap.canonical (mapValues canonical (fieldsToTy vars' fields)) := by
    intro fields ih
    apply canonical_ext
    intro key
    have hfs : List.Forall₂ (fun e f : Name × IRType => e.1.toCanonical = f.1.toCanonical ∧
        (toTy vars e.2).canonical = (toTy vars' f.2).canonical) fields fields :=
      List.forall₂_same.mpr fun e he => ⟨rfl, ih e he⟩
    have hget := get?_foldl_insert_rel (R := fun s t => canonical s = canonical t)
      _ _ _ _ hfs [] [] (fun _ => .none) key
    rw [get?_mapValues, get?_mapValues, fieldsToTy, fieldsToTy]
    generalize get? _ key = x at hget
    generalize get? _ key = y at hget
    cases hget with
    | none => rfl
    | some h => rw [Option.map_some, Option.map_some, h]
  induction t using IRType.inductionOn with
  | var attrs name => exact canonical_attributedBody _ (hvars _ _)
  | reference attrs name args ih =>
    rw [toTy_reference, toTy_reference]
    apply canonical_attributedBody
    simpa [Ty.canonical] using ih
  | tuple attrs items ih =>
    cases items with
    | nil => exact canonical_attributedBody _ rfl
    | cons item items =>
      rw [toTy_tuple_cons, toTy_tuple_cons]
      apply canonical_attributedBody
      rw [Ty.canonical, Ty.canonical, Ty.canonicalItems_eq, Ty.canonicalItems_eq, hits _ ih]
  | union attrs items ih =>
    rw [toTy_union, toTy_union]
    apply canonical_attributedBody
    rw [Ty.canonical, Ty.canonical, Ty.canonicalItems_eq, Ty.canonicalItems_eq, hits _ ih]
  | record attrs fields ih =>
    rw [toTy_record, toTy_record]
    apply canonical_attributedBody
    rw [Ty.canonical, Ty.canonical, Ty.canonicalFields_eq, Ty.canonicalFields_eq, hfs fields ih]
  | extensibleRecord attrs row fields ih =>
    rw [toTy_extensibleRecord, toTy_extensibleRecord]
    apply canonical_attributedBody
    rw [Ty.canonical, Ty.canonical, Ty.canonicalFields_eq, Ty.canonicalFields_eq, hfs fields ih,
      canonicalTail_eq, canonicalTail_eq, Option.map_some, Option.map_some, hvars]
  | function attrs input output ihi iho =>
    rw [toTy_function, toTy_function]
    apply canonical_attributedBody
    rw [Ty.canonical, Ty.canonical, ihi, iho]
  | unit attrs => rfl

lemma expand_canonical (env : Env) (name : String) {xs ys : List Ty}
    (h : xs.map canonical = ys.map canonical) :
    (env.expand name xs).map canonical = (env.expand name ys).map canonical := by
  have hlen : xs.length = ys.length := by simpa using congrArg List.length h
  have hrel : List.Forall₂ (fun s t => canonical s = canonical t) xs ys := by
    have heq : List.Forall₂ Eq (xs.map canonical) (ys.map canonical) := by
      rw [h, List.forall₂_eq_eq_eq]
    rwa [List.forall₂_map_left_iff, List.forall₂_map_right_iff] at heq
  unfold Env.expand
  rw [hlen]
  cases env.aliasAt name ys.length with
  | none => rfl
  | some found =>
    rw [Option.map_some]
    congr 1
    apply canonical_toTy
    intro n attrs
    exact Env.boundVar_rel hrel
      (fun _ _ => rfl) n attrs

end Morphir.Typing

/-!
## Types whose maps have distinct keys

The fields of a record and the entries of attributes are maps.  Types that hold maps of
distinct keys only compare equal when their canonical forms are equal, whatever their
unions are.
-/

namespace Morphir.IR

/-- No map in the attributes of the type has two entries of one key. -/
inductive IRType.Distinct : IRType → Prop
  | var {attrs : TypeAttributes} {name : Name} (entries : attrs.Distinct) :
      Distinct (.variable attrs name)
  | reference {attrs : TypeAttributes} {name : FQName} {args : List IRType}
      (entries : attrs.Distinct) (items : ∀ t ∈ args, Distinct t) :
      Distinct (.reference attrs name args)
  | tuple {attrs : TypeAttributes} {args : List IRType} (entries : attrs.Distinct)
      (items : ∀ t ∈ args, Distinct t) : Distinct (.tuple attrs args)
  | union {attrs : TypeAttributes} {args : List IRType} (entries : attrs.Distinct)
      (items : ∀ t ∈ args, Distinct t) : Distinct (.union attrs args)
  | record {attrs : TypeAttributes} {fields : List (Name × IRType)} (entries : attrs.Distinct)
      (items : ∀ e ∈ fields, Distinct e.2) : Distinct (.record attrs fields)
  | extensibleRecord {attrs : TypeAttributes} {row : Name} {fields : List (Name × IRType)}
      (entries : attrs.Distinct) (items : ∀ e ∈ fields, Distinct e.2) :
      Distinct (.extensibleRecord attrs row fields)
  | function {attrs : TypeAttributes} {input output : IRType} (entries : attrs.Distinct)
      (left : Distinct input) (right : Distinct output) : Distinct (.function attrs input output)
  | unit {attrs : TypeAttributes} (entries : attrs.Distinct) : Distinct (.unit attrs)

end Morphir.IR

namespace Morphir.Typing

open IR List OrdMap

inductive Ty.Distinct : Ty → Prop
  | mvar (id : Nat) : Distinct (.mvar id)
  | rigid (key : String) (classes : List String) : Distinct (.rigid key classes)
  | gen (index : Nat) : Distinct (.gen index)
  | con {name : String} {args : List Ty} (items : ∀ t ∈ args, Distinct t) :
      Distinct (.con name args)
  | fn {input output : Ty} (left : Distinct input) (right : Distinct output) :
      Distinct (.fn input output)
  | tup {args : List Ty} (items : ∀ t ∈ args, Distinct t) : Distinct (.tup args)
  | union {args : List Ty} (items : ∀ t ∈ args, Distinct t) : Distinct (.union args)
  | attributed {attrs : TypeAttributes} {body : Ty} (entries : attrs.Distinct)
      (inner : Distinct body) : Distinct (.attributed attrs body)
  | record {fields : List (String × Ty)} {tail : Option Ty} (keys : OrdMap.Distinct fields)
      (items : ∀ e ∈ fields, Distinct e.2) (rest : ∀ t ∈ tail, Distinct t) :
      Distinct (.record fields tail)
  | unit : Distinct .unit

def Env.Distinct (env : Env) : Prop :=
  ∀ name params body, get? env.types name = some (.alias params body) → IRType.Distinct body

namespace Ty

lemma beq_iff_of_distinct {s t : Ty} (hs : s.Distinct) (ht : t.Distinct) :
    beq s t = true ↔ s.canonical = t.canonical := by
  have hits : ∀ xs ys : List Ty,
      (∀ x ∈ xs, ∀ {y : Ty}, y.Distinct → (beq x y = true ↔ x.canonical = y.canonical)) →
      (∀ y ∈ ys, y.Distinct) →
      (beqItems xs ys = true ↔ xs.map canonical = ys.map canonical) := by
    intro xs ys ih hys
    apply beqItems_iff
    intro x hx y hy
    exact ih x hx (hys y hy)
  induction hs generalizing t with
  | con items ih =>
    cases ht with
    | con others => simpa [beq, canonical] using fun _ => hits _ _ ih others
    | _ => simp [beq, canonical]
  | fn left right ihl ihr =>
    cases ht with
    | fn left' right' =>
      have hb := and_congr (ihl left') (ihr right')
      simpa [beq, canonical] using hb
    | _ => simp [beq, canonical]
  | tup items ih =>
    cases ht with
    | tup others => simpa [beq, canonical] using hits _ _ ih others
    | _ => simp [beq, canonical]
  | union items ih =>
    cases ht with
    | union others => simpa [beq, canonical] using hits _ _ ih others
    | _ => simp [beq, canonical]
  | attributed entries inner ih =>
    cases ht with
    | attributed entries' inner' =>
      have hats := TypeAttributes.beq_iff entries entries'
      have hb := and_congr hats (ih inner')
      simpa [beq, canonical] using hb
    | _ => simp [beq, canonical]
  | @record fields tail keys items rest ihf iht =>
    cases ht with
    | @record others other keys' items' rest' =>
      have hrec := beqRecord_iff keys keys' fun e he f hf => ihf e he (items' f hf)
      have htails : beqTail tail other = true ↔ tail.map canonical = other.map canonical := by
        cases tail with
        | none => cases other <;> simp [beqTail]
        | some t =>
          cases other with
          | none => simp [beqTail]
          | some u => simpa [beqTail] using iht t rfl (rest' u rfl)
      rw [beq, Bool.and_eq_true, hrec, htails]
      simp [canonical]
    | _ => simp [beq, canonical]
  | _ => cases ht <;> simp [beq, canonical]

lemma WellFormed.distinct {t : Ty} (h : t.WellFormed) : t.Distinct := by
  induction t using inductionOn with
  | con name args ih =>
    have hargs := wellFormedItems_iff.mp h
    exact .con fun t ht => ih t ht (hargs t ht)
  | fn input output ihi iho => exact .fn (ihi h.1) (iho h.2)
  | tup items ih =>
    have hits := wellFormedItems_iff.mp h
    exact .tup fun t ht => ih t ht (hits t ht)
  | union items ih =>
    have hits := wellFormedItems_iff.mp h.2
    exact .union fun t ht => ih t ht (hits t ht)
  | attributed attrs body ih => exact .attributed h.1 (ih h.2)
  | record fields tail ihf iht =>
    obtain ⟨hdi, hfs, htl⟩ := h
    have hits := wellFormedFields_iff.mp hfs
    refine .record hdi (fun e he => ihf e he (hits e he)) fun t ht => ?_
    obtain rfl : tail = some t := ht
    exact iht t rfl htl
  | mvar id => exact .mvar id
  | rigid key classes => exact .rigid key classes
  | gen index => exact .gen index
  | unit => exact .unit

lemma beq_iff {s t : Ty} (hs : s.WellFormed) (ht : t.WellFormed) :
    beq s t = true ↔ s.canonical = t.canonical :=
  beq_iff_of_distinct hs.distinct ht.distinct

end Ty

lemma distinct_attributedBody {node : IRType} (hnode : (typeAttributes node).Distinct) {body : Ty}
    (h : body.Distinct) : (attributedBody node body).Distinct := by
  unfold attributedBody
  dsimp only
  split
  · exact h
  · exact .attributed (distinct_retainedAttributes hnode) h

lemma distinct_toTy {vars : String → TypeAttributes → Ty}
    (hvars : ∀ name attrs, (vars name attrs).Distinct) {t : IRType} (ht : t.Distinct) :
    (toTy vars t).Distinct := by
  have hits : ∀ items : List IRType, (∀ t ∈ items, (toTy vars t).Distinct) →
      ∀ t ∈ items.map (toTy vars), t.Distinct := by
    intro items ih t ht
    obtain ⟨item, hi, rfl⟩ := mem_map.mp ht
    exact ih item hi
  have hfs : ∀ (fields : List (Name × IRType)) (tail : Option Ty),
      (∀ e ∈ fields, (toTy vars e.2).Distinct) → (∀ t ∈ tail, t.Distinct) →
      Ty.Distinct (.record (fieldsToTy vars fields) tail) := by
    intro fields tail ih htl
    refine .record (distinct_nil.foldl_insert _ _ _) ?_ htl
    intro e he
    rcases mem_foldl_insert _ _ fields [] he with hnil | ⟨field, hfield, rfl⟩
    · cases hnil
    · exact ih field hfield
  induction ht with
  | var entries =>
    apply distinct_attributedBody
    · exact entries
    · exact hvars _ _
  | reference entries items ih =>
    rw [toTy_reference]
    apply distinct_attributedBody
    · exact entries
    · exact .con (hits _ ih)
  | @tuple attrs args entries items ih =>
    cases args with
    | nil =>
      apply distinct_attributedBody
      · exact entries
      · exact .unit
    | cons item args =>
      rw [toTy_tuple_cons]
      apply distinct_attributedBody
      · exact entries
      · exact .tup (hits _ ih)
  | union entries items ih =>
    rw [toTy_union]
    apply distinct_attributedBody
    · exact entries
    · exact .union (hits _ ih)
  | record entries items ih =>
    rw [toTy_record]
    apply distinct_attributedBody
    · exact entries
    · exact hfs _ none ih (by simp)
  | extensibleRecord entries items ih =>
    rw [toTy_extensibleRecord]
    apply distinct_attributedBody
    · exact entries
    · apply hfs _ _ ih
      intro t ht
      rw [← Option.some.inj ht]
      exact hvars _ _
  | function entries left right ihl ihr =>
    apply distinct_attributedBody
    · exact entries
    · exact .fn ihl ihr
  | unit entries =>
    apply distinct_attributedBody
    · exact entries
    · exact .unit

lemma distinct_expand {env : Env} (henv : env.Distinct) {name : String} {args : List Ty} {t : Ty}
    (hargs : ∀ x ∈ args, x.Distinct) (h : env.expand name args = some t) : t.Distinct := by
  obtain ⟨params, body, halias, rfl⟩ := Env.expand_eq_some h
  obtain ⟨htys, -, -⟩ := Env.aliasAt_eq_some halias
  apply distinct_toTy _ (henv name params body htys)
  intro n attrs
  rcases Env.boundVar_cases params args n attrs with hmem | hrigid
  · exact hargs _ hmem
  · rw [hrigid]
    exact .rigid _ _

/-- Types that compare equal may be exchanged: equality is an equivalence relation, and an
alias expands at equal arguments to equal types or at neither. -/
theorem Ty.beq_congruence {env : Env} (henv : env.Distinct) :
    Equivalence (fun s t : {t : Ty // t.Distinct} => beq s.1 t.1 = true) ∧
    ∀ (name : String) (xs ys : List Ty), (∀ t ∈ xs, t.Distinct) → (∀ t ∈ ys, t.Distinct) →
      beqItems xs ys = true →
        Option.Rel (fun s t => beq s t = true) (env.expand name xs) (env.expand name ys) := by
  refine ⟨⟨fun s => ?_, fun {s t} h => ?_, fun {s t r} h h' => ?_⟩, fun name xs ys hxs hys h => ?_⟩
  · exact (beq_iff_of_distinct s.2 s.2).mpr rfl
  · exact (beq_iff_of_distinct t.2 s.2).mpr ((beq_iff_of_distinct s.2 t.2).mp h).symm
  · exact (beq_iff_of_distinct s.2 r.2).mpr
      (((beq_iff_of_distinct s.2 t.2).mp h).trans ((beq_iff_of_distinct t.2 r.2).mp h'))
  · have hcan := expand_canonical env name ((beqItems_iff fun x hx y hy =>
      beq_iff_of_distinct (hxs x hx) (hys y hy)).mp h)
    cases hx : env.expand name xs with
    | none =>
      rw [hx, Option.map_none, eq_comm, Option.map_eq_none_iff] at hcan
      rw [hcan]
      exact .none
    | some s =>
      rw [hx, Option.map_some, eq_comm, Option.map_eq_some_iff] at hcan
      obtain ⟨t, ht, heq⟩ := hcan
      rw [ht]
      exact .some ((beq_iff_of_distinct (distinct_expand henv hxs hx)
        (distinct_expand henv hys ht)).mpr heq.symm)

def boxed : Env := ⟨[("box", .alias ["a"] (.variable default ⟨[.word "a"]⟩))], [], [], [], []⟩

theorem Ty.beq_congruence_box :
    Option.Rel (fun s t => beq s t = true)
      (boxed.expand "box" [.record [("x", .unit), ("y", .tup [])] none])
      (boxed.expand "box" [.record [("y", .tup []), ("x", .unit)] none]) := by
  refine (Ty.beq_congruence fun name params body h => ?_).2 _ _ _ ?_ ?_ rfl
  · obtain ⟨-, heq⟩ := Prod.mk.inj (mem_singleton.mp (mem_of_get? h))
    cases heq
    exact .var TypeAttributes.distinct_default
  all_goals
    intro t ht
    obtain rfl := mem_singleton.mp ht
    refine .record (by decide) ?_ nofun
    simp [Distinct.unit, Distinct.tup]

end Morphir.Typing
