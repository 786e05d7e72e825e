import Morphir.Typing.WellFormed

/-!
# Assignability of types

A type is assignable to another when that is proven within limits on the
number of pairs and on the nesting.  A comparison can also be refuted, and it
is unknown where a variable, an attribute or a limit leaves it open.
-/

namespace Morphir.Typing

open IR OrdMap

inductive RelationReason
  | unresolvedVariable
  | unsupportedConstraint
  | unsupportedExtension
  | cyclicAlias
  | limitExceeded
  | unsupportedShape
  deriving DecidableEq

inductive TypeRelation
  | proven
  | refuted
  | unknown (reason : RelationReason)
  deriving DecidableEq

open TypeRelation

/-- The conjunction of relations: a refutation decides, and the last unknown
remains. -/
def relationAll (result : TypeRelation) : List TypeRelation → TypeRelation
  | [] => result
  | .refuted :: _ => .refuted
  | .unknown reason :: xs => relationAll (.unknown reason) xs
  | .proven :: xs => relationAll result xs

/-- The disjunction of relations: a proof decides, and the last unknown
remains. -/
def relationAny (result : TypeRelation) : List TypeRelation → TypeRelation
  | [] => result
  | .proven :: _ => .proven
  | .unknown reason :: xs => relationAny (.unknown reason) xs
  | .refuted :: xs => relationAny result xs

def allOf (xs : List TypeRelation) : TypeRelation := relationAll .proven xs

def anyOf (xs : List TypeRelation) : TypeRelation := relationAny .refuted xs

/-- The substitution and the context of unification.  Aliases expand in `env`. -/
structure Solver where
  metas : List MetaState
  env : Env

namespace Solver

def new (env : Env) : Solver := ⟨[], env⟩

def expand (s : Solver) (name : String) (args : List Ty) : Option Ty := s.env.expand name args

def links (s : Solver) (id : Nat) : Option Ty :=
  match s.metas[id]? with
  | some (.link target) => some target
  | _ => none

def peekFrom (s : Solver) : Nat → Ty → Ty
  | fuel + 1, .mvar id =>
    match s.links id with
    | some target => s.peekFrom fuel target
    | none => .mvar id
  | _, t => t

/-- Follows links without path compression.  A chain of links is no longer
than the list of metavariables. -/
def peek (s : Solver) (t : Ty) : Ty := s.peekFrom s.metas.length t

/-- The head of a type after its aliases are expanded, with the attributes met
on the way.  The level counts the nesting that is left. -/
def relationHead (s : Solver) : Nat → Ty → Int → Option (Ty × List TypeAttributes) × Int
  | 0, _, budget => (none, budget)
  | level + 1, t, budget =>
    if budget ≤ 0 then (none, budget)
    else
      let budget := budget - 1
      match s.peek t with
      | .attributed attrs inner =>
        match s.relationHead level inner budget with
        | (some (body, rest), budget) => (some (body, attrs :: rest), budget)
        | (none, budget) => (none, budget)
      | .con name args =>
        match s.expand name args with
        | some inner => s.relationHead level inner budget
        | none => (some (.con name args, []), budget)
      | head => (some (head, []), budget)

end Solver

/-- The type with all attributes as separate wrappers, the first one innermost. -/
def attributedAll (t : Ty) (attrs : List TypeAttributes) : Ty :=
  attrs.foldl (fun t a => .attributed a t) t

/-- Whether some attributes have a value that compares equal at a key. -/
def hasEntry (maps : List (List (String × Data))) (e : String × Data) : Bool :=
  maps.any fun m =>
    match get? m e.1 with
    | some value => value == e.2
    | none => false

/-- Whether the source attributes have every obligation of the target's. -/
def attributesEntail (source : List TypeAttributes) : List TypeAttributes → TypeRelation
  | [] => .proven
  | a :: target =>
    if !(obligations a).constraints.all (hasEntry (source.map TypeAttributes.constraints)) then
      .unknown .unsupportedConstraint
    else if !(obligations a).extensions.all (hasEntry (source.map TypeAttributes.extensions)) then
      .unknown .unsupportedExtension
    else attributesEntail source target

abbrev Relation := Ty → Ty → Int → TypeRelation × Int

def relateEach (relate : Relation) : List (Ty × Ty) → Int → List TypeRelation × Int
  | [], budget => ([], budget)
  | (x, y) :: pairs, budget =>
    let (first, budget) := relate x y budget
    let (rest, budget) := relateEach relate pairs budget
    (first :: rest, budget)

def relateArgs (relate : Relation) : List (Ty × Ty) → Int → List TypeRelation × Int
  | [], budget => ([], budget)
  | (x, y) :: pairs, budget =>
    let (both, budget) := relateEach relate [(x, y), (y, x)] budget
    let (rest, budget) := relateArgs relate pairs budget
    (allOf both :: rest, budget)

/-- The fields of two closed records; `none` when a field is missing. -/
def relateFields (relate : Relation) (ys : List (String × Ty)) :
    List (String × Ty) → Int → Option (List TypeRelation) × Int
  | [], budget => (some [], budget)
  | (name, x) :: xs, budget =>
    match get? ys name with
    | none => (none, budget)
    | some y =>
      let (first, budget) := relate x y budget
      match relateFields relate ys xs budget with
      | (some rest, budget) => (some (first :: rest), budget)
      | (none, budget) => (none, budget)

def relateHeads (relate : Relation) (s t : Ty) (budget : Int) : TypeRelation × Int :=
  match s, t with
  | .mvar _, _ | _, .mvar _ | .gen _, _ | _, .gen _ => (.unknown .unresolvedVariable, budget)
  | .rigid _ _, _ | _, .rigid _ _ => (.unknown .unresolvedVariable, budget)
  | .con n xs, .con m ys =>
    if n = m ∧ xs.length = ys.length then
      let (results, budget) := relateArgs relate (xs.zip ys) budget
      (allOf results, budget)
    else (.refuted, budget)
  | .tup xs, .tup ys =>
    if xs.length = ys.length then
      let (results, budget) := relateEach relate (xs.zip ys) budget
      (allOf results, budget)
    else (.refuted, budget)
  | .record xs none, .record ys none =>
    if xs.length = ys.length then
      match relateFields relate ys xs budget with
      | (some results, budget) => (allOf results, budget)
      | (none, budget) => (.refuted, budget)
    else (.refuted, budget)
  | .record _ (some _), _ | _, .record _ (some _) => (.unknown .unsupportedShape, budget)
  | .fn a b, .fn c d =>
    let (results, budget) := relateEach relate [(c, a), (b, d)] budget
    (allOf results, budget)
  | _, _ => (.refuted, budget)

/-- The comparison of two types whose heads and attributes are found: first the
members of a union on the left, then of one on the right, then the heads. -/
def relateFound (relate : Relation) (source target x : Ty) (xAttrs : List TypeAttributes) (y : Ty)
    (yAttrs : List TypeAttributes) (budget : Int) : TypeRelation × Int :=
  match x, y with
  | .union xs, _ =>
    if xs.length < 2 then (.unknown .unsupportedShape, budget)
    else
      let (results, budget) := relateEach relate
        (xs.map fun x => (attributedAll x xAttrs, target)) budget
      (allOf results, budget)
  | _, .union ys =>
    if ys.length < 2 then (.unknown .unsupportedShape, budget)
    else
      let (results, budget) := relateEach relate
        (ys.map fun y => (source, attributedAll y yAttrs)) budget
      (anyOf results, budget)
  | x, y =>
    let attrs := attributesEntail xAttrs yAttrs
    if attrs ≠ .proven then (attrs, budget)
    else if x == y then (.proven, budget)
    else relateHeads relate x y budget

/-- Whether `source` is assignable to `target`, within a level and a budget. -/
def Solver.relate (s : Solver) : Nat → Relation
  | 0, _, _, budget => (.unknown .limitExceeded, budget)
  | level + 1, source, target, budget =>
    if budget ≤ 0 then (.unknown .limitExceeded, budget)
    else
      match s.relationHead (level + 1) source (budget - 1) with
      | (none, budget) => (.unknown .limitExceeded, budget)
      | (some (x, xAttrs), budget) =>
        match s.relationHead (level + 1) target budget with
        | (none, budget) => (.unknown .limitExceeded, budget)
        | (some (y, yAttrs), budget) =>
          relateFound (s.relate level) source target x xAttrs y yAttrs budget

/-- How many types, how many pairs and how many nested levels a comparison may
visit. -/
structure Limits where
  visits : Nat
  pairs : Int
  depth : Nat

def Limits.default : Limits := ⟨4096, 4096, 128⟩

def Solver.assignableWithin (s : Solver) (limits : Limits) (source target : Ty) : TypeRelation :=
  (s.relate (limits.depth + 1) source target limits.pairs).1

def Solver.assignable (s : Solver) (source target : Ty) : TypeRelation :=
  s.assignableWithin .default source target

/-- The first reference that does not resolve or has the wrong arity, as a code
and a name. -/
def Env.unresolved (env : Env) (types : List IRType) : Option (String × String) :=
  (types.flatMap countedReferencesOf).findSome? fun (key, count) =>
    match get? env.types key with
    | some (.alias params _) => if params.length ≠ count then some ("arity", key) else none
    | some (.nominal arity) => if arity ≠ count then some ("arity", key) else none
    | none =>
      match FQName.parse key with
      | .ok name =>
        if OrdMap.contains env.packages name.packageName.toCanonical then
          some ("unknown_reference", key)
        else some ("missing_dependency", key)
      -- the source stops the program on a name that it cannot read back
      | .error _ => some ("missing_dependency", key)

/-- The environment of a comparison.  Its aliases do not expand for ever. -/
structure TypeContext where
  env : Env
  acyclic : env.Acyclic

namespace TypeContext

/-- The context of an environment, whose cyclic aliases are found first. -/
def of (env : Env) : TypeContext := ⟨env.findCyclicAliases, env.acyclic_findCyclicAliases⟩

/-- Marks the references of a type as seen and pushes the bodies of the aliases
among them that were not; `none` at a cyclic alias. -/
def pushReferences (ctx : TypeContext) :
    List String → List String → List IRType → Option (List String × List IRType)
  | [], seen, pending => some (seen, pending)
  | key :: keys, seen, pending =>
    if OrdMap.contains ctx.env.cyclicAliases key then none
    else if key ∈ seen then ctx.pushReferences keys seen pending
    else
      match get? ctx.env.types key with
      | some (.alias _ body) => ctx.pushReferences keys (seen ++ [key]) (body :: pending)
      | _ => ctx.pushReferences keys (seen ++ [key]) pending

/-- Checks the pending types and the bodies of the aliases that they name; the
result is the reason why a comparison is not attempted. -/
def inspect (ctx : TypeContext) : Nat → List IRType → List String → Option RelationReason
  | _, [], _ => none
  | 0, _ :: _, _ => some .limitExceeded
  | visits + 1, t :: pending, seen =>
    match ctx.env.unresolved [t] with
    | some _ => some .unsupportedShape
    | none =>
      match ctx.pushReferences (referencesOf t) seen pending with
      | none => some .cyclicAlias
      | some (seen, pending) => ctx.inspect visits pending seen

def assignableWithin (ctx : TypeContext) (limits : Limits) (source destination : IRType) :
    TypeRelation :=
  match ctx.inspect limits.visits [destination, source] [] with
  | some reason => .unknown reason
  | none =>
    (Solver.new ctx.env).assignableWithin limits (toTy rigidVar source)
      (toTy rigidVar destination)

def assignable (ctx : TypeContext) (source destination : IRType) : TypeRelation :=
  ctx.assignableWithin .default source destination

def equivalent (ctx : TypeContext) (left right : IRType) : TypeRelation :=
  allOf [ctx.assignable left right, ctx.assignable right left]

end TypeContext

end Morphir.Typing

/-!
## Outcomes of a comparison

What a comparison says in terms of the comparisons that it makes: how it
combines their results, on which heads, and with which attributes.
-/

namespace Morphir.Typing

open IR TypeRelation List OrdMap

def IsUnion : Ty → Prop
  | .union _ => True
  | _ => False

variable {rs : List TypeRelation} {result : TypeRelation}

lemma relationAll_eq_proven :
    relationAll result rs = proven ↔ result = proven ∧ ∀ r ∈ rs, r = proven := by
  induction rs generalizing result with
  | nil => simp [relationAll]
  | cons r rs ih => cases r <;> simp [relationAll, ih]

lemma relationAll_eq_refuted (h : relationAll result rs = refuted) :
    result = refuted ∨ refuted ∈ rs := by
  induction rs generalizing result with
  | nil => exact Or.inl h
  | cons r rs ih =>
    cases r with
    | refuted => exact Or.inr mem_cons_self
    | proven =>
      rcases ih h with hr | hmem
      · exact Or.inl hr
      · exact Or.inr (mem_cons_of_mem _ hmem)
    | unknown reason =>
      rcases ih h with hr | hmem
      · simp at hr
      · exact Or.inr (mem_cons_of_mem _ hmem)

lemma relationAny_eq_refuted :
    relationAny result rs = refuted ↔ result = refuted ∧ ∀ r ∈ rs, r = refuted := by
  induction rs generalizing result with
  | nil => simp [relationAny]
  | cons r rs ih => cases r <;> simp [relationAny, ih]

lemma relationAny_eq_proven (h : relationAny result rs = proven) :
    result = proven ∨ proven ∈ rs := by
  induction rs generalizing result with
  | nil => exact Or.inl h
  | cons r rs ih =>
    cases r with
    | proven => exact Or.inr mem_cons_self
    | refuted =>
      rcases ih h with hr | hmem
      · exact Or.inl hr
      · exact Or.inr (mem_cons_of_mem _ hmem)
    | unknown reason =>
      rcases ih h with hr | hmem
      · simp at hr
      · exact Or.inr (mem_cons_of_mem _ hmem)

lemma allOf_eq_proven : allOf rs = proven ↔ ∀ r ∈ rs, r = proven := by
  simp [allOf, relationAll_eq_proven]

lemma mem_of_allOf_eq_refuted (h : allOf rs = refuted) :
    refuted ∈ rs := (relationAll_eq_refuted h).resolve_left (by simp)

lemma anyOf_eq_refuted : anyOf rs = refuted ↔ ∀ r ∈ rs, r = refuted := by
  simp [anyOf, relationAny_eq_refuted]

lemma mem_of_anyOf_eq_proven (h : anyOf rs = proven) :
    proven ∈ rs := (relationAny_eq_proven h).resolve_left (by simp)

/-- The result is what the comparison of a pair gives at some budget. -/
def ResultOf (relate : Relation) (e : Ty × Ty) (r : TypeRelation) : Prop :=
  ∃ budget, (relate e.1 e.2 budget).1 = r

variable (relate : Relation)

lemma relateEach_results (pairs : List (Ty × Ty)) (budget : Int) :
    List.Forall₂ (ResultOf relate) pairs (relateEach relate pairs budget).1 := by
  induction pairs generalizing budget with
  | nil => exact .nil
  | cons e pairs ih => exact .cons ⟨budget, rfl⟩ (ih _)

lemma relateArgs_results (pairs : List (Ty × Ty)) (budget : Int) :
    List.Forall₂ (fun e r => ∃ r₁ r₂, ResultOf relate e r₁ ∧ ResultOf relate (e.2, e.1) r₂ ∧
      r = allOf [r₁, r₂]) pairs (relateArgs relate pairs budget).1 := by
  induction pairs generalizing budget with
  | nil => exact .nil
  | cons e pairs ih =>
    refine .cons ⟨_, _, ⟨budget, rfl⟩, ⟨(relate e.1 e.2 budget).2, rfl⟩, ?_⟩ (ih _)
    rfl

lemma relateFields_results (xs ys : List (String × Ty)) (budget : Int) (results : List TypeRelation)
    (h : (relateFields relate ys xs budget).1 = some results) :
    List.Forall₂ (fun e r => ∃ y, get? ys e.1 = some y ∧ ResultOf relate (e.2, y) r)
      xs results := by
  induction xs generalizing budget results with
  | nil =>
    simp only [relateFields, Option.some.injEq] at h
    rw [← h]
    exact .nil
  | cons e xs ih =>
    simp only [relateFields] at h
    split at h
    · simp at h
    rename_i y hy
    split at h
    · rename_i rest budget' hr
      rw [← Option.some.inj h]
      exact .cons ⟨y, hy, budget, rfl⟩ (ih _ rest (by rw [hr]))
    · simp at h

lemma relateFields_missing (xs ys : List (String × Ty)) (budget : Int)
    (h : (relateFields relate ys xs budget).1 = none) :
    ∃ name ∈ OrdMap.keys xs, name ∉ OrdMap.keys ys := by
  induction xs generalizing budget with
  | nil => simp [relateFields] at h
  | cons e xs ih =>
    obtain ⟨name, x⟩ := e
    simp only [relateFields] at h
    split at h
    · rename_i hy
      exact ⟨name, mem_cons_self, get?_eq_none_iff.mp hy⟩
    split at h
    · simp at h
    · rename_i budget' hr
      obtain ⟨other, ho, hmis⟩ := ih _ (by rw [hr])
      exact ⟨other, mem_cons_of_mem _ ho, hmis⟩

inductive Head (env : Env) : Ty → Ty → List TypeAttributes → Prop
  | attributed {attrs : TypeAttributes} {t h : Ty} {as : List TypeAttributes}
      (head : Head env t h as) : Head env (.attributed attrs t) h (attrs :: as)
  | expanding {name : String} {args : List Ty} {t h : Ty} {as : List TypeAttributes}
      (expand : env.expand name args = some t) (head : Head env t h as) :
      Head env (.con name args) h as
  | con {name : String} {args : List Ty} (expand : env.expand name args = none) :
      Head env (.con name args) (.con name args) []
  | other {t : Ty} (attributed : ∀ attrs s, t ≠ .attributed attrs s)
      (con : ∀ name args, t ≠ .con name args) : Head env t t []

variable {env : Env}

variable {h t : Ty}

lemma Head.unique {h' : Ty} {as as' : List TypeAttributes} (hh : Head env t h as)
    (hh' : Head env t h' as') : h = h' ∧ as = as' := by
  induction hh generalizing h' as' with
  | attributed _ ih =>
    cases hh' with
    | attributed head => exact ⟨(ih head).1, by rw [(ih head).2]⟩
    | other attributed => exact absurd rfl (attributed _ _)
  | expanding expand _ ih =>
    cases hh' with
    | expanding expand' head =>
      rw [expand] at expand'
      obtain rfl := Option.some.inj expand'
      exact ih head
    | con expand' => simp [expand] at expand'
    | other _ con => exact absurd rfl (con _ _)
  | con expand =>
    cases hh' with
    | expanding expand' => simp [expand] at expand'
    | con => exact ⟨rfl, rfl⟩
    | other _ con => exact absurd rfl (con _ _)
  | other attributed con =>
    cases hh' with
    | attributed => exact absurd rfl (attributed _ _)
    | expanding => exact absurd rfl (con _ _)
    | con => exact absurd rfl (con _ _)
    | other => exact ⟨rfl, rfl⟩

variable {as : List TypeAttributes}

lemma Head.notAttributed (hh : Head env t h as) (attrs : TypeAttributes) (s : Ty) :
    h ≠ .attributed attrs s := by
  induction hh with
  | attributed _ ih => exact ih
  | expanding _ _ ih => exact ih
  | con => simp
  | other attributed => exact attributed attrs s

lemma Head.expand_eq_none {name : String} {args : List Ty} (hh : Head env t (.con name args) as) :
    env.expand name args = none := by
  generalize hc : Ty.con name args = h at hh
  induction hh with
  | attributed _ ih => exact ih hc
  | expanding _ _ ih => exact ih hc
  | con expand =>
    cases hc
    exact expand
  | other _ con => exact absurd hc.symm (con _ _)

@[simp] lemma Solver.peek_new (env : Env) (t : Ty) : (Solver.new env).peek t = t := by
  simp [Solver.peek, Solver.new, Solver.peekFrom]

lemma head_of_relationHead (level : Nat) (t : Ty) (budget : Int) (h : Ty) (as : List TypeAttributes)
    (hh : ((Solver.new env).relationHead level t budget).1 = some (h, as)) : Head env t h as := by
  induction level generalizing t budget h as with
  | zero => simp [Solver.relationHead] at hh
  | succ level ih =>
    simp only [Solver.relationHead, Solver.peek_new] at hh
    split at hh
    · simp at hh
    split at hh
    · rename_i attrs inner
      split at hh
      · rename_i body rest budget' hin
        cases hh
        exact .attributed (ih inner _ _ _ (by rw [hin]))
      · simp at hh
    · split at hh
      · rename_i inner hexp
        exact .expanding hexp (ih inner _ _ _ hh)
      · rename_i hexp
        cases hh
        exact .con hexp
    · rename_i hatt hcon
      cases hh
      exact .other hatt hcon

lemma Head.wellFormed (henv : env.WellFormed) (hh : Head env t h as) (ht : t.WellFormed) :
    h.WellFormed ∧ ∀ a ∈ as, a.Distinct := by
  induction hh with
  | attributed _ ih =>
    obtain ⟨hbo, has⟩ := ih ht.2
    exact ⟨hbo, forall_mem_cons.mpr ⟨ht.1, has⟩⟩
  | expanding expand _ ih => exact ih (wellFormed_expand henv (Ty.wellFormedItems_iff.mp ht) expand)
  | con => exact ⟨ht, by simp⟩
  | other => exact ⟨ht, by simp⟩

lemma wellFormed_attributedAll (ht : t.WellFormed) (has : ∀ a ∈ as, a.Distinct) :
    (attributedAll t as).WellFormed := by
  induction as generalizing t with
  | nil => exact ht
  | cons a as ih =>
    obtain ⟨ha, has⟩ := forall_mem_cons.mp has
    have hs : Ty.WellFormed (.attributed a t) := ⟨ha, ht⟩
    exact ih hs has

/-- How a comparison ends, in terms of the comparisons that it makes. -/
inductive Outcome (env : Env) (relate : Relation) (source target : Ty) : TypeRelation → Prop
  | unknown (reason : RelationReason) : Outcome env relate source target (.unknown reason)
  | unionLeft {xs : List Ty} {as : List TypeAttributes} {budget : Int}
      (head : Head env source (.union xs) as) (members : 2 ≤ xs.length) :
      Outcome env relate source target (allOf (relateEach relate
        (xs.map fun x => (attributedAll x as, target)) budget).1)
  | unionRight {x : Ty} {ys : List Ty} {as bs : List TypeAttributes} {budget : Int}
      (left : Head env source x as) (leaf : ¬ IsUnion x) (right : Head env target (.union ys) bs)
      (members : 2 ≤ ys.length) :
      Outcome env relate source target (anyOf (relateEach relate
        (ys.map fun y => (source, attributedAll y bs)) budget).1)
  | equal {x y : Ty} {as bs : List TypeAttributes} (left : Head env source x as)
      (right : Head env target y bs) (leaf : ¬ IsUnion x) (leaf' : ¬ IsUnion y)
      (entail : attributesEntail as bs = proven) (eq : (x == y) = true) :
      Outcome env relate source target .proven
  | heads {x y : Ty} {as bs : List TypeAttributes} {budget : Int} (left : Head env source x as)
      (right : Head env target y bs) (leaf : ¬ IsUnion x) (leaf' : ¬ IsUnion y)
      (entail : attributesEntail as bs = proven) (ne : (x == y) = false) :
      Outcome env relate source target (relateHeads relate x y budget).1

lemma attributesEntail_cases (source target : List TypeAttributes) :
    attributesEntail source target = proven ∨
      ∃ reason, attributesEntail source target = .unknown reason := by
  induction target with
  | nil => exact Or.inl rfl
  | cons a target ih =>
    unfold attributesEntail
    split
    · exact Or.inr ⟨_, rfl⟩
    split
    · exact Or.inr ⟨_, rfl⟩
    · exact ih

lemma outcome_relateFound {relate : Relation} {source target x y : Ty} {as bs : List TypeAttributes}
    {budget : Int} (hlt : Head env source x as) (hrt : Head env target y bs) :
    Outcome env relate source target
      (relateFound relate source target x as y bs budget).1 := by
  unfold relateFound
  split
  · split
    · exact .unknown _
    · exact .unionLeft hlt (by omega)
  · rename_i ys hlf
    split
    · exact .unknown _
    · refine .unionRight hlt ?_ hrt (by omega)
      intro hun
      cases x <;> first | exact hun | exact hlf _ rfl
  · rename_i hlf hlf'
    have hx : ¬ IsUnion x := by
      intro hun
      cases x <;> first | exact hun | exact hlf _ rfl
    have hy : ¬ IsUnion y := by
      intro hun
      cases y <;> first | exact hun | exact hlf' _ rfl
    rcases attributesEntail_cases as bs with hats | ⟨reason, hats⟩
    · simp only [hats, ne_eq, not_true_eq_false, if_false]
      split
      · rename_i heq
        exact .equal hlt hrt hx hy hats heq
      · rename_i hne
        exact .heads hlt hrt hx hy hats (by simpa using hne)
    · simp only [hats]
      exact .unknown _

lemma outcome_relate (env : Env) (level : Nat) (source target : Ty) (budget : Int) :
    Outcome env ((Solver.new env).relate level) source target
      ((Solver.new env).relate (level + 1) source target budget).1 := by
  unfold Solver.relate
  split
  · exact .unknown _
  split
  · exact .unknown _
  rename_i x as budget₁ hx
  split
  · exact .unknown _
  rename_i y bs budget₂ hy
  have hlt : Head env source x as := head_of_relationHead _ _ _ _ _ (by rw [hx])
  have hrt : Head env target y bs := head_of_relationHead _ _ _ _ _ (by rw [hy])
  exact outcome_relateFound hlt hrt

end Morphir.Typing
