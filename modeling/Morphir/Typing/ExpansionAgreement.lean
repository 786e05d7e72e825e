import Morphir.Typing.ExpandShape

/-!
# Agreement of the two alias expansions

Expansion of representation types and expansion of internal types agree on
every type whose row variables stand for variables.  They differ where an
alias with a row parameter is applied to a record.
-/

namespace Morphir.Typing

open IR List OrdMap Env IRType

/-! ### The condition on row variables

Whether a type stands for a variable is decided under an assignment that tells
which parameters do.  A row variable fits when its parameter does. -/

/-- What the parameters of an alias stand for, from its arguments; any other
name in the body is a variable. -/
def assign (params : List String) (args : List Bool) (name : String) : Bool :=
  (get? (bindParams params args) name).getD true

section Conditions

variable (env : Env)

mutual
def standsWith (next : (String → Bool) → IRType → Bool) (given : String → Bool) :
    IRType → Bool
  | .variable _ name => given name.toCanonical
  | .reference _ name args =>
    match env.aliasAt name.toCanonical args.length with
    | some (params, body) => next (assign params (standsItems next given args)) body
    | none => false
  | _ => false

def standsItems (next : (String → Bool) → IRType → Bool) (given : String → Bool) :
    List IRType → List Bool
  | [] => []
  | item :: items => standsWith next given item :: standsItems next given items
end

def standsForVariable : Nat → (String → Bool) → IRType → Bool
  | 0, _, _ => false
  | fuel + 1, given, t => standsWith env (standsForVariable fuel) given t

mutual
def rowsFitWith (stands next : (String → Bool) → IRType → Bool) (given : String → Bool) :
    IRType → Bool
  | .variable _ _ => true
  | .reference _ name args =>
    rowsFitItems stands next given args &&
      match env.aliasAt name.toCanonical args.length with
      | some (params, body) => next (assign params (args.map (stands given))) body
      | none => true
  | .tuple _ items => rowsFitItems stands next given items
  | .union _ items => rowsFitItems stands next given items
  | .record _ fields => rowsFitFields stands next given fields
  | .extensibleRecord _ row fields =>
    given row.toCanonical && rowsFitFields stands next given fields
  | .function _ input output =>
    rowsFitWith stands next given input && rowsFitWith stands next given output
  | .unit _ => true

def rowsFitItems (stands next : (String → Bool) → IRType → Bool) (given : String → Bool) :
    List IRType → Bool
  | [] => true
  | item :: items => rowsFitWith stands next given item && rowsFitItems stands next given items

def rowsFitFields (stands next : (String → Bool) → IRType → Bool) (given : String → Bool) :
    List (Name × IRType) → Bool
  | [] => true
  | (_, field) :: fields =>
    rowsFitWith stands next given field && rowsFitFields stands next given fields
end

/-- Whether every row variable that an expansion replaces stands for a variable. -/
def rowsFit : Nat → (String → Bool) → IRType → Bool
  | 0, _, _ => false
  | fuel + 1, given, t => rowsFitWith env (standsForVariable env (fuel + 1)) (rowsFit fuel) given t

end Conditions

/-- No alias in the type, and none met while expanding it, gives a row
variable a type that is not a variable. -/
def RowsFit (env : Env) (t : IRType) : Prop := ∃ fuel, rowsFit env fuel (fun _ => true) t = true

/-- Expanding the representation type and converting it gives the same type,
but for attributes and the flattening of rows, as converting it and expanding
the internal type. -/
def ExpansionsAgree (env : Env) (t : IRType) : Prop :=
  ∃ s v, ExpandsTo env t s ∧ Normalizes Env.new noLinks (toTy rigidVar s) v ∧
    Normalizes env noLinks (toTy rigidVar t) v

lemma standsItems_eq_map (env : Env) (next : (String → Bool) → IRType → Bool)
    (given : String → Bool) (items : List IRType) :
    standsItems env next given items = items.map (standsWith env next given) := by
  induction items with
  | nil => rfl
  | cons item items ih => rw [standsItems, ih, map_cons]

section RowsFitLists

variable {env : Env} {stands next : (String → Bool) → IRType → Bool} {given : String → Bool}

lemma rowsFitItems_eq_true {items : List IRType} :
    rowsFitItems env stands next given items = true ↔
      ∀ t ∈ items, rowsFitWith env stands next given t = true := by
  induction items with
  | nil => simp [rowsFitItems]
  | cons item items ih => simp [rowsFitItems, ih]

lemma rowsFitFields_eq_true {fields : List (Name × IRType)} :
    rowsFitFields env stands next given fields = true ↔
      ∀ e ∈ fields, rowsFitWith env stands next given e.2 = true := by
  induction fields with
  | nil => simp [rowsFitFields]
  | cons e fields ih => simp [rowsFitFields, ih]

example (attrs : TypeAttributes) (row : Name) :
    standsWith env next given (.extensibleRecord attrs row []) = false ∧
      rowsFitWith env stands next given (.extensibleRecord attrs row []) =
        given row.toCanonical := by
  simp only [standsWith, rowsFitWith, rowsFitFields, Bool.and_true, and_self]

end RowsFitLists

section ExpandedMeaning

variable {env : Env}

lemma Expanded.sameMeaning (henv : env.Acyclic) (hnew : new.Acyclic)
    (hlks : noLinks.Acyclic) {t : IRType} (h : Expanded env t) :
    SameMeaning new noLinks env noLinks (toTy rigidVar t) (toTy rigidVar t) := by
  apply sameMeaning_toTy hnew hlks henv hlks
  · intro name attrs
    rw [SameMeaning, rigidVar, meaning_rigid, meaning_rigid]
  · intro r hr xs ys hlen hxy
    have hx : new.expand r.1 xs = none := rfl
    have hy : env.expand r.1 ys = none := by rw [expand, ← hxy.length_eq, hlen, h r hr]
    rw [SameMeaning, meaning_con hnew hlks hx, meaning_con henv hlks hy, map_eq_of_sameMeaning hxy]

end ExpandedMeaning

def substitutedVar (bound : List (String × IRType)) (name : String) (attrs : TypeAttributes) :
    Ty :=
  match get? bound name with
  | some arg => toTy rigidVar arg
  | none => rigidVar name attrs

def IsVariable (t : IRType) : Prop := ∃ attrs name, t = .variable attrs name

def RowBound (bound : List (String × IRType)) (name : String) : Prop :=
  ∀ t, get? bound name = some t → IsVariable t

section Substitution

variable {env : Env} (henv : env.Acyclic) (hlinks : noLinks.Acyclic)

include henv hlinks

lemma meaning_substituteRow {bound : List (String × IRType)} {row : Name}
    (h : RowBound bound row.toCanonical) (attrs : TypeAttributes) :
    meaning env noLinks (rigidVar (substituteRow bound row).toCanonical attrs) =
      meaning env noLinks (substitutedVar bound row.toCanonical attrs) := by
  unfold substituteRow substitutedVar
  cases hbound : get? bound row.toCanonical with
  | none => rfl
  | some t =>
    obtain ⟨attrs', other, rfl⟩ := h t hbound
    simp only [toTy_variable, rigidVar]
    rw [meaning_attributedBody henv hlinks, meaning_rigid, meaning_rigid]

lemma meaning_substituteShape (bound : List (String × IRType))
    (stands next : (String → Bool) → IRType → Bool) (given : String → Bool)
    (hgiven : ∀ name, given name = true → RowBound bound name) (t : IRType)
    (hfit : rowsFitWith env stands next given t = true) :
    SameMeaning env noLinks env noLinks (toTy rigidVar (substituteShape bound t))
      (toTy (substitutedVar bound) t) := by
  have hitems : ∀ items : List IRType, (∀ t ∈ items, rowsFitWith env stands next given t = true →
        SameMeaning env noLinks env noLinks (toTy rigidVar (substituteShape bound t))
          (toTy (substitutedVar bound) t)) →
      rowsFitItems env stands next given items = true →
      List.Forall₂ (SameMeaning env noLinks env noLinks)
        ((substituteItems bound items).map (toTy rigidVar))
        (items.map (toTy (substitutedVar bound))) := by
    intro items ih hfit
    rw [substituteItems_eq_map, map_map, List.forall₂_map_left_iff,
      List.forall₂_map_right_iff, List.forall₂_same]
    exact fun item hitem => ih item hitem (rowsFitItems_eq_true.mp hfit item hitem)
  have hfields : ∀ fields : List (Name × IRType),
      (∀ e ∈ fields, rowsFitWith env stands next given e.2 = true →
        SameMeaning env noLinks env noLinks (toTy rigidVar (substituteShape bound e.2))
          (toTy (substitutedVar bound) e.2)) →
      rowsFitFields env stands next given fields = true →
      ∀ k, Option.Rel (SameMeaning env noLinks env noLinks)
        (get? (fieldsToTy rigidVar (substituteFields bound fields)) k)
        (get? (fieldsToTy (substitutedVar bound) fields) k) := by
    intro fields ih hfit k
    rw [substituteFields_eq_mapValues]
    apply get?_foldl_insert_rel
    · rw [mapValues, List.forall₂_map_left_iff, List.forall₂_same]
      exact fun e he => ⟨rfl, ih e he (rowsFitFields_eq_true.mp hfit e he)⟩
    · exact fun _ => .none
  induction t using inductionOn with
  | var attrs name =>
    unfold SameMeaning
    rw [toTy_variable, meaning_attributedBody henv hlinks, substituteShape, substitutedVar]
    cases hbound : get? bound name.toCanonical with
    | some arg => rfl
    | none => rw [toTy_variable, meaning_attributedBody henv hlinks]
  | reference attrs name args ih =>
    rw [rowsFitWith, Bool.and_eq_true] at hfit
    rw [substituteShape, toTy_reference, toTy_reference]
    apply sameMeaning_attributedBody henv hlinks henv hlinks
    exact referenceCongr henv hlinks hlinks _ _ _ _ rfl (hitems args ih hfit.1)
  | tuple attrs items ih =>
    cases items with
    | nil => rfl
    | cons item items =>
      rw [substituteShape, substituteItems, toTy_tuple_cons, toTy_tuple_cons]
      apply sameMeaning_attributedBody henv hlinks henv hlinks
      unfold SameMeaning
      rw [meaning_tup henv hlinks, meaning_tup henv hlinks]
      have hmap := map_eq_of_sameMeaning (hitems _ ih hfit)
      rw [substituteItems] at hmap
      rw [hmap]
  | union attrs items ih =>
    rw [substituteShape, toTy_union, toTy_union]
    apply sameMeaning_attributedBody henv hlinks henv hlinks
    unfold SameMeaning
    rw [meaning_union henv hlinks, meaning_union henv hlinks,
      map_eq_of_sameMeaning (hitems items ih hfit)]
  | record attrs fields ih =>
    rw [substituteShape, toTy_record, toTy_record]
    apply sameMeaning_attributedBody henv hlinks henv hlinks
    exact sameMeaning_record henv hlinks henv hlinks (hfields fields ih hfit) .none
  | extensibleRecord attrs row fields ih =>
    rw [rowsFitWith, Bool.and_eq_true] at hfit
    rw [substituteShape, toTy_extensibleRecord, toTy_extensibleRecord]
    apply sameMeaning_attributedBody henv hlinks henv hlinks
    apply sameMeaning_record henv hlinks henv hlinks (hfields fields ih hfit.2)
    exact .some (meaning_substituteRow henv hlinks (hgiven _ hfit.1) attrs)
  | function attrs input output ihi iho =>
    rw [rowsFitWith, Bool.and_eq_true] at hfit
    rw [substituteShape, toTy_function, toTy_function]
    apply sameMeaning_attributedBody henv hlinks henv hlinks
    have hi := ihi hfit.1
    have ho := iho hfit.2
    unfold SameMeaning at hi ho ⊢
    rw [meaning_fn henv hlinks, meaning_fn henv hlinks, hi, ho]
  | unit attrs => rfl

end Substitution

section Condition

variable {env : Env}

lemma assign_mono {params : List String} {bs bs' : List Bool}
    (h : List.Forall₂ (fun b b' => b = true → b' = true) bs bs') (name : String)
    (hname : assign params bs name = true) : assign params bs' name = true := by
  have hget := bindParams_rel params h name
  unfold assign at hname ⊢
  generalize get? (bindParams params bs) name = x at hget hname
  generalize get? (bindParams params bs') name = y at hget
  cases hget with
  | none => rfl
  | some hxy => exact hxy hname

lemma assign_rowBound {params : List String} {bs : List Bool} {args : List IRType}
    (h : List.Forall₂ (fun b t => b = true → IsVariable t) bs args) (name : String)
    (hname : assign params bs name = true) : RowBound (bindParams params args) name := by
  have hget := bindParams_rel params h name
  intro t ht
  unfold assign at hname
  rw [ht] at hget
  generalize get? (bindParams params bs) name = x at hget hname
  cases hget with
  | some hxy => exact hxy hname

variable {given given' : String → Bool}

variable (fuel : Nat)

lemma standsForVariable_mono (h : ∀ name, given name = true → given' name = true) (t : IRType)
    (ht : standsForVariable env fuel given t = true) :
    standsForVariable env fuel given' t = true := by
  induction fuel generalizing given given' t with
  | zero => simp [standsForVariable] at ht
  | succ fuel ihfuel =>
    rw [standsForVariable] at ht ⊢
    induction t using inductionOn with
    | var attrs name => exact h _ ht
    | reference attrs name args ih =>
      rw [standsWith] at ht ⊢
      split at ht
      · rename_i params body halias
        refine ihfuel ?_ body ht
        apply assign_mono
        rw [standsItems_eq_map, standsItems_eq_map, List.forall₂_map_left_iff,
          List.forall₂_map_right_iff, List.forall₂_same]
        exact ih
      · simp at ht
    | _ => simp [standsWith] at ht

lemma standsForVariable_substituteShape {bound : List (String × IRType)}
    (hgiven : ∀ name, given name = true → RowBound bound name) (t : IRType)
    (ht : standsForVariable env fuel given t = true) :
    standsForVariable env fuel (fun _ => true) (substituteShape bound t) = true := by
  cases fuel with
  | zero => simp [standsForVariable] at ht
  | succ fuel =>
    rw [standsForVariable] at ht ⊢
    induction t using inductionOn with
    | var attrs name =>
      rw [substituteShape]
      cases hbd : get? bound name.toCanonical with
      | none => rfl
      | some arg =>
        obtain ⟨attrs', other, rfl⟩ := hgiven _ ht arg hbd
        rfl
    | reference attrs name args ih =>
      rw [substituteShape, substituteItems_eq_map]
      rw [standsWith] at ht ⊢
      rw [length_map]
      split at ht
      · rename_i params body halias
        refine standsForVariable_mono fuel ?_ body ht
        apply assign_mono
        rw [standsItems_eq_map, standsItems_eq_map, map_map, List.forall₂_map_left_iff,
          List.forall₂_map_right_iff, List.forall₂_same]
        exact ih
      · simp at ht
    | _ => simp [standsWith] at ht

lemma rowsFit_mono (h : ∀ name, given name = true → given' name = true) (t : IRType)
    (ht : rowsFit env fuel given t = true) : rowsFit env fuel given' t = true := by
  induction fuel generalizing given given' t with
  | zero => simp [rowsFit] at ht
  | succ fuel ihfuel =>
    rw [rowsFit] at ht ⊢
    induction t using inductionOn with
    | var attrs name => rfl
    | reference attrs name args ih =>
      rw [rowsFitWith, Bool.and_eq_true] at ht ⊢
      refine ⟨?_, ?_⟩
      · exact rowsFitItems_eq_true.mpr fun arg harg =>
          ih arg harg (rowsFitItems_eq_true.mp ht.1 arg harg)
      · have hbo := ht.2
        split at hbo
        · refine ihfuel ?_ _ hbo
          apply assign_mono
          rw [List.forall₂_map_left_iff, List.forall₂_map_right_iff, List.forall₂_same]
          exact fun arg _ => standsForVariable_mono (fuel + 1) h arg
        · rfl
    | tuple attrs items ih | union attrs items ih =>
      exact rowsFitItems_eq_true.mpr fun item hi => ih item hi (rowsFitItems_eq_true.mp ht item hi)
    | record attrs fields ih =>
      exact rowsFitFields_eq_true.mpr fun e he => ih e he (rowsFitFields_eq_true.mp ht e he)
    | extensibleRecord attrs row fields ih =>
      rw [rowsFitWith, Bool.and_eq_true] at ht ⊢
      exact ⟨h _ ht.1, rowsFitFields_eq_true.mpr fun e he =>
        ih e he (rowsFitFields_eq_true.mp ht.2 e he)⟩
    | function attrs input output ihi iho =>
      rw [rowsFitWith, Bool.and_eq_true] at ht ⊢
      exact ⟨ihi ht.1, iho ht.2⟩
    | unit attrs => rfl

lemma Expanded.rowsFit {t : IRType} (h : Expanded env t) (fuel : Nat) :
    Morphir.Typing.rowsFit env (fuel + 1) (fun _ => true) t = true := by
  rw [Morphir.Typing.rowsFit]
  induction t using inductionOn with
  | var attrs name => rfl
  | reference attrs name args ih =>
    have hargs := expanded_items_iff.mp fun r hr => h r (mem_cons_of_mem _ hr)
    have halias := h (name.toCanonical, args.length) mem_cons_self
    rw [rowsFitWith, halias, Bool.and_true]
    exact rowsFitItems_eq_true.mpr fun arg harg => ih arg harg (hargs arg harg)
  | tuple attrs items ih | union attrs items ih =>
    exact rowsFitItems_eq_true.mpr fun item hi => ih item hi (expanded_items_iff.mp h item hi)
  | record attrs fields ih | extensibleRecord attrs row fields ih =>
    exact rowsFitFields_eq_true.mpr fun e he => ih e he (expanded_fields_iff.mp h e he)
  | function attrs input output ihi iho =>
    rw [rowsFitWith, Bool.and_eq_true]
    exact ⟨ihi fun r hr => h r (mem_append_left _ hr), iho fun r hr => h r (mem_append_right _ hr)⟩
  | unit attrs => rfl

lemma rowsFit_substituteShape {bound : List (String × IRType)}
    (hgiven : ∀ name, given name = true → RowBound bound name)
    (hbd : ∀ name t, get? bound name = some t → Expanded env t) (t : IRType)
    (ht : rowsFit env fuel given t = true) :
    rowsFit env fuel (fun _ => true) (substituteShape bound t) = true := by
  cases fuel with
  | zero => simp [rowsFit] at ht
  | succ fuel =>
    rw [rowsFit] at ht ⊢
    induction t using inductionOn with
    | var attrs name =>
      rw [substituteShape]
      cases hname : get? bound name.toCanonical with
      | none => rfl
      | some arg =>
        have harg := (hbd _ arg hname).rowsFit fuel
        exact harg
    | reference attrs name args ih =>
      rw [substituteShape, substituteItems_eq_map]
      rw [rowsFitWith, Bool.and_eq_true] at ht ⊢
      rw [length_map, map_map]
      refine ⟨?_, ?_⟩
      · apply rowsFitItems_eq_true.mpr
        intro arg harg
        obtain ⟨arg', harg', rfl⟩ := mem_map.mp harg
        exact ih arg' harg' (rowsFitItems_eq_true.mp ht.1 arg' harg')
      · have hbo := ht.2
        split at hbo
        · refine rowsFit_mono fuel ?_ _ hbo
          apply assign_mono
          rw [List.forall₂_map_left_iff, List.forall₂_map_right_iff, List.forall₂_same]
          exact fun arg _ => standsForVariable_substituteShape (fuel + 1) hgiven arg
        · rfl
    | tuple attrs items ih | union attrs items ih =>
      rw [substituteShape, substituteItems_eq_map]
      apply rowsFitItems_eq_true.mpr
      intro item hi
      obtain ⟨item', hi', rfl⟩ := mem_map.mp hi
      exact ih item' hi' (rowsFitItems_eq_true.mp ht item' hi')
    | record attrs fields ih =>
      rw [substituteShape, substituteFields_eq_mapValues]
      apply rowsFitFields_eq_true.mpr
      intro e he
      obtain ⟨f, hf, rfl⟩ := mem_map.mp he
      exact ih f hf (rowsFitFields_eq_true.mp ht f hf)
    | extensibleRecord attrs row fields ih =>
      rw [substituteShape, substituteFields_eq_mapValues]
      rw [rowsFitWith, Bool.and_eq_true] at ht
      apply rowsFitFields_eq_true.mpr
      intro e he
      obtain ⟨f, hf, rfl⟩ := mem_map.mp he
      exact ih f hf (rowsFitFields_eq_true.mp ht.2 f hf)
    | function attrs input output ihi iho =>
      rw [substituteShape]
      rw [rowsFitWith, Bool.and_eq_true] at ht ⊢
      exact ⟨ihi ht.1, iho ht.2⟩
    | unit attrs => rfl

lemma isVariable_of_expandShape (steps : Nat) (t s : IRType)
    (ht : standsForVariable env steps (fun _ => true) t = true)
    (h : expandShape env fuel t = some s) : IsVariable s := by
  induction fuel generalizing steps t s with
  | zero => simp [expandShape] at h
  | succ fuel ihfuel =>
    rw [expandShape] at h
    induction t using inductionOn generalizing s with
    | var attrs name =>
      rw [← Option.some.inj h]
      exact ⟨attrs, name, rfl⟩
    | reference attrs name args ih =>
      cases steps with
      | zero => simp [standsForVariable] at ht
      | succ steps =>
        simp only [expandShapeWith] at h
        split at h
        · simp at h
        rename_i args' hargs
        have hli := forall₂_of_expandShapeItems hargs
        have hstd := ht
        rw [standsForVariable, standsWith, hli.length_eq] at hstd
        split at hstd
        · rename_i params body halias
          rw [halias] at h
          apply ihfuel steps _ s _ h
          refine standsForVariable_substituteShape steps ?_ body hstd
          apply assign_rowBound
          rw [standsItems_eq_map, List.forall₂_map_left_iff]
          exact hli.imp_left fun arg harg arg' harg' hs => ih arg harg arg' hs harg'
        · simp at hstd
    | _ => cases steps <;> simp [standsForVariable, standsWith] at ht

end Condition

section Agreement

variable {env : Env} (henv : env.Acyclic) (hlinks : noLinks.Acyclic)

include henv hlinks

omit henv hlinks in
lemma sameMeaning_boundVar {params : List String} {args : List IRType} {xs : List Ty}
    (h : List.Forall₂ (fun arg x => SameMeaning env noLinks env noLinks (toTy rigidVar arg) x)
      args xs) (name : String) (attrs : TypeAttributes) :
    SameMeaning env noLinks env noLinks (substitutedVar (bindParams params args) name attrs)
      (boundVar (bindParams params xs) name attrs) := by
  have hget := bindParams_rel params h name
  unfold substitutedVar boundVar
  generalize get? (bindParams params args) name = x at hget
  generalize get? (bindParams params xs) name = y at hget
  cases hget with
  | none => rfl
  | some hxy => exact hxy

lemma meaning_expandShape (fuel steps : Nat) (t s : IRType)
    (ht : rowsFit env steps (fun _ => true) t = true) (h : expandShape env fuel t = some s) :
    SameMeaning env noLinks env noLinks (toTy rigidVar s) (toTy rigidVar t) := by
  induction fuel generalizing steps t s with
  | zero => simp [expandShape] at h
  | succ fuel ihfuel =>
    cases steps with
    | zero => simp [rowsFit] at ht
    | succ steps =>
      rw [rowsFit] at ht
      have hitems : ∀ items ts : List IRType, (∀ t ∈ items, ∀ s,
            expandShapeWith env (expandShape env fuel) t = some s →
            rowsFitWith env (standsForVariable env (steps + 1)) (rowsFit env steps)
              (fun _ => true) t = true →
            SameMeaning env noLinks env noLinks (toTy rigidVar s) (toTy rigidVar t)) →
          rowsFitItems env (standsForVariable env (steps + 1)) (rowsFit env steps)
            (fun _ => true) items = true →
          expandShapeItems env (expandShape env fuel) items = some ts →
          List.Forall₂ (fun s x => SameMeaning env noLinks env noLinks (toTy rigidVar s) x) ts
            (items.map (toTy rigidVar)) := by
        intro items ts ih hfit hts
        rw [List.forall₂_map_right_iff]
        exact ((forall₂_of_expandShapeItems hts).imp_left fun t hmem s hs =>
          ih t hmem s hs (rowsFitItems_eq_true.mp hfit t hmem)).flip
      have hfields : ∀ fields fs : List (Name × IRType), (∀ e ∈ fields, ∀ s,
            expandShapeWith env (expandShape env fuel) e.2 = some s →
            rowsFitWith env (standsForVariable env (steps + 1)) (rowsFit env steps)
              (fun _ => true) e.2 = true →
            SameMeaning env noLinks env noLinks (toTy rigidVar s) (toTy rigidVar e.2)) →
          rowsFitFields env (standsForVariable env (steps + 1)) (rowsFit env steps)
            (fun _ => true) fields = true →
          expandShapeFields env (expandShape env fuel) fields = some fs →
          ∀ k, Option.Rel (SameMeaning env noLinks env noLinks)
            (get? (fieldsToTy rigidVar fs) k)
            (get? (fieldsToTy rigidVar fields) k) := by
        intro fields fs ih hfit hfs
        apply get?_foldl_insert_rel
        · exact ((forall₂_of_expandShapeFields hfs).imp_left fun e hmem f hf =>
            ⟨congrArg Name.toCanonical hf.1.symm,
              ih e hmem f.2 hf.2 (rowsFitFields_eq_true.mp hfit e hmem)⟩).flip
        · exact fun _ => .none
      rw [expandShape] at h
      induction t using inductionOn generalizing s with
      | var attrs name | unit attrs =>
        rw [← Option.some.inj h]
        rfl
      | reference attrs name args ih =>
        rw [rowsFitWith, Bool.and_eq_true] at ht
        obtain ⟨hargsfit, hfit⟩ := ht
        simp only [expandShapeWith] at h
        split at h
        · simp at h
        rename_i args' hargs
        have hli := hitems args args' ih hargsfit hargs
        have hexpanded := forall₂_of_expandShapeItems hargs
        have hlen : args'.length = args.length := hexpanded.length_eq.symm
        unfold SameMeaning
        rw [toTy_reference, meaning_attributedBody henv hlinks]
        split at h
        · rename_i params body halias
          rw [hlen] at halias
          rw [halias] at hfit
          have hgiven : ∀ n, assign params
              (args.map (standsForVariable env (steps + 1) fun _ => true)) n = true →
              RowBound (bindParams params args') n := by
            apply assign_rowBound
            rw [List.forall₂_map_left_iff]
            exact hexpanded.imp_left fun arg _ arg' harg' hs =>
              isVariable_of_expandShape (fuel + 1) (steps + 1) arg arg' hs harg'
          have hbound : ∀ n u, get? (bindParams params args') n = some u →
              Expanded env u := by
            intro n u hu
            have hmem := (of_mem_zip (mem_ofList (mem_of_get? hu))).2
            exact hexpanded.forall_right
              (fun arg _ arg' harg' => expanded_expandShape (fuel + 1) arg arg' harg') u hmem
          have hsteps := rowsFit_substituteShape steps hgiven hbound body hfit
          have hexpand : env.expand name.toCanonical (args.map (toTy rigidVar)) = some
              (toTy (boundVar (bindParams params (args.map (toTy rigidVar)))) body) := by
            rw [expand, length_map, halias]
          have hbodyfit : ∃ stands next, rowsFitWith env stands next (assign params
              (args.map (standsForVariable env (steps + 1) fun _ => true))) body = true := by
            cases steps with
            | zero => simp [rowsFit] at hfit
            | succ steps => exact ⟨_, _, hfit⟩
          obtain ⟨stands, next, hbodyfit⟩ := hbodyfit
          calc meaning env noLinks (toTy rigidVar s)
              = meaning env noLinks
                  (toTy rigidVar (substituteShape (bindParams params args') body)) :=
                ihfuel steps _ s hsteps h
            _ = meaning env noLinks
                  (toTy (substitutedVar (bindParams params args')) body) :=
                meaning_substituteShape henv hlinks _ stands next _ hgiven body hbodyfit
            _ = meaning env noLinks
                  (toTy (boundVar (bindParams params (args.map (toTy rigidVar)))) body) :=
                sameMeaning_toTy henv hlinks henv hlinks body
                  (sameMeaning_boundVar hli)
                  (fun r _ => referenceCongr henv hlinks hlinks r.1 r.2)
            _ = meaning env noLinks (.con name.toCanonical (args.map (toTy rigidVar))) :=
                (meaning_alias henv hlinks hexpand).symm
        · rw [← Option.some.inj h, toTy_reference, meaning_attributedBody henv hlinks]
          apply referenceCongr henv hlinks hlinks _ _ _ _ rfl
          rw [List.forall₂_map_left_iff]
          exact hli
      | tuple attrs items ih =>
        obtain ⟨ts, hts, rfl⟩ := Option.map_eq_some_iff.mp h
        have hli := hitems items ts ih ht hts
        cases items with
        | nil =>
          have hnil : ts = [] := List.forall₂_nil_right_iff.mp hli
          rw [hnil]
          rfl
        | cons item items =>
          cases ts with
          | nil => simp at hli
          | cons t ts =>
            rw [toTy_tuple_cons, toTy_tuple_cons]
            apply sameMeaning_attributedBody henv hlinks henv hlinks
            unfold SameMeaning
            rw [meaning_tup henv hlinks, meaning_tup henv hlinks,
              map_eq_of_sameMeaning (List.forall₂_map_left_iff.mpr hli)]
      | union attrs items ih =>
        obtain ⟨ts, hts, rfl⟩ := Option.map_eq_some_iff.mp h
        have hli := hitems items ts ih ht hts
        rw [toTy_union, toTy_union]
        apply sameMeaning_attributedBody henv hlinks henv hlinks
        unfold SameMeaning
        rw [meaning_union henv hlinks, meaning_union henv hlinks,
          map_eq_of_sameMeaning (List.forall₂_map_left_iff.mpr hli)]
      | record attrs fields ih =>
        obtain ⟨fs, hfs, rfl⟩ := Option.map_eq_some_iff.mp h
        rw [toTy_record, toTy_record]
        apply sameMeaning_attributedBody henv hlinks henv hlinks
        exact sameMeaning_record henv hlinks henv hlinks (hfields fields fs ih ht hfs)
          .none
      | extensibleRecord attrs row fields ih =>
        obtain ⟨fs, hfs, rfl⟩ := Option.map_eq_some_iff.mp h
        rw [toTy_extensibleRecord, toTy_extensibleRecord]
        apply sameMeaning_attributedBody henv hlinks henv hlinks
        exact sameMeaning_record henv hlinks henv hlinks (hfields fields fs ih ht hfs)
          (.some rfl)
      | function attrs input output ihi iho =>
        rw [rowsFitWith, Bool.and_eq_true] at ht
        simp only [expandShapeWith] at h
        split at h
        · rename_i a b ha hb
          rw [← Option.some.inj h, toTy_function, toTy_function]
          apply sameMeaning_attributedBody henv hlinks henv hlinks
          have hi := ihi a ha ht.1
          have ho := iho b hb ht.2
          unfold SameMeaning at hi ho ⊢
          rw [meaning_fn henv hlinks, meaning_fn henv hlinks, hi, ho]
        · simp at h

end Agreement

variable {env : Env}

lemma ExpansionsAgree.sameMeaning {t s : IRType} {v : Ty}
    (hs : Normalizes new noLinks (toTy rigidVar s) v)
    (ht : Normalizes env noLinks (toTy rigidVar t) v) :
    meaning new noLinks (toTy rigidVar s) = meaning env noLinks (toTy rigidVar t) :=
  hs.meaning_eq.trans ht.meaning_eq.symm

lemma expansionsAgree_of_rowsFit (henv : env.Acyclic) {t : IRType} (h : RowsFit env t) :
    ExpansionsAgree env t := by
  obtain ⟨steps, hsteps⟩ := h
  obtain ⟨s, fuel, hs⟩ := exists_expandsTo henv t
  have hexp := expanded_expandShape fuel t s hs
  have hsh := meaning_expandShape henv acyclic_noLinks fuel steps t s hsteps hs
  have hnew := hexp.sameMeaning henv acyclic_new acyclic_noLinks
  have htgt := total_of_acyclic henv acyclic_noLinks (toTy rigidVar t)
  have hsrc := total_of_acyclic acyclic_new acyclic_noLinks (toTy rigidVar s)
  refine ⟨s, meaning env noLinks (toTy rigidVar t), ⟨fuel, hs⟩, ?_, htgt⟩
  rw [← hsh, ← hnew]
  exact hsrc

lemma rowOf_rigid_ne_closed (fields more : List (String × Ty)) (key : String) :
    rowOf fields (some (.rigid key [])) ≠ rowOf more none := by
  cases fields <;> cases more <;> simp [rowOf]

lemma not_expansionsAgree_of_closed (henv : env.Acyclic)
    {attrs recordAttrs argAttrs : TypeAttributes} {name : FQName} {args : List IRType}
    {params : List String} {row : Name} {fields argFields : List (Name × IRType)}
    (halias : env.aliasAt name.toCanonical args.length =
      some (params, .extensibleRecord recordAttrs row fields))
    (harg : get? (bindParams params args) row.toCanonical = some (.record argAttrs argFields)) :
    ¬ ExpansionsAgree env (.reference attrs name args) := by
  rintro ⟨s, v, ⟨fuel, hs⟩, hsrc, htgt⟩
  have hlks := acyclic_noLinks
  have hnew := acyclic_new
  have hmea := ExpansionsAgree.sameMeaning hsrc htgt
  -- the internal expansion is a closed record
  have hexp : env.expand name.toCanonical (args.map (toTy rigidVar)) =
      some (toTy (boundVar (bindParams params (args.map (toTy rigidVar))))
        (.extensibleRecord recordAttrs row fields)) := by
    rw [expand, length_map, halias]
  have htl : boundVar (bindParams params (args.map (toTy rigidVar))) row.toCanonical
      recordAttrs = toTy rigidVar (.record argAttrs argFields) := by
    have hargs : List.Forall₂ (fun arg x => x = toTy rigidVar arg) args
        (args.map (toTy rigidVar)) := by simp
    have hrel := bindParams_rel params hargs row.toCanonical
    unfold boundVar
    rw [harg] at hrel
    generalize get? (bindParams params (args.map (toTy rigidVar))) row.toCanonical = y at hrel
    cases hrel with
    | some hxy => exact hxy
  have hcld : ∃ more, meaning env noLinks (toTy rigidVar (.reference attrs name args)) =
      rowOf more none := by
    rw [toTy_reference, meaning_attributedBody henv hlks, meaning_alias henv hlks hexp,
      toTy_extensibleRecord, meaning_attributedBody henv hlks, meaning_open henv hlks, htl,
      toTy_record, meaning_attributedBody henv hlks, meaning_closed henv hlks]
    generalize mapValues (meaning env noLinks) (fieldsToTy rigidVar argFields) = more
    cases more with
    | nil => exact ⟨_, rfl⟩
    | cons e more => exact ⟨_, rfl⟩
  -- the representation keeps the row variable
  have hop : ∃ fields', s = .extensibleRecord recordAttrs row fields' := by
    cases fuel with
    | zero => simp [expandShape] at hs
    | succ fuel =>
      simp only [expandShape, expandShapeWith] at hs
      split at hs
      · simp at hs
      rename_i args' hargs
      have hli := forall₂_of_expandShapeItems hargs
      rw [← hli.length_eq, halias] at hs
      have hrow : substituteRow (bindParams params args') row = row := by
        have hrel := bindParams_rel params hli row.toCanonical
        rw [harg] at hrel
        unfold substituteRow
        generalize get? (bindParams params args') row.toCanonical = y at hrel
        cases hrel with
        | some hxy =>
          obtain ⟨fs, -, rfl⟩ := Option.map_eq_some_iff.mp hxy
          rfl
      cases fuel with
      | zero => simp [expandShape] at hs
      | succ fuel =>
        simp only [substituteShape, hrow] at hs
        obtain ⟨fs, -, rfl⟩ := Option.map_eq_some_iff.mp hs
        exact ⟨fs, rfl⟩
  obtain ⟨fields', rfl⟩ := hop
  obtain ⟨more, hm⟩ := hcld
  rw [hm, toTy_extensibleRecord, meaning_attributedBody hnew hlks, meaning_open hnew hlks,
    rigidVar, meaning_rigid] at hmea
  exact rowOf_rigid_ne_closed _ _ _ hmea

/-- In every environment, the two expansions agree on a type whose row
variables stand for variables, and they never agree where an alias that extends
its row parameter is applied to a closed record. -/
theorem expansionsAgree_spec (env : Env) :
    (∀ t, RowsFit env.findCyclicAliases t → ExpansionsAgree env.findCyclicAliases t) ∧
    ∀ attrs name args params recordAttrs row fields argAttrs argFields,
      env.findCyclicAliases.aliasAt name.toCanonical args.length =
        some (params, .extensibleRecord recordAttrs row fields) →
      get? (bindParams params args) row.toCanonical = some (.record argAttrs argFields) →
      ¬ ExpansionsAgree env.findCyclicAliases (.reference attrs name args) := by
  have henv := env.acyclic_findCyclicAliases
  refine ⟨fun t ht => expansionsAgree_of_rowsFit henv ht, ?_⟩
  intro attrs name args params recordAttrs row fields argAttrs argFields halias harg
  exact not_expansionsAgree_of_closed henv halias harg

/-- The environment with the alias `named r = { r | name : () }`. -/
def namedEnv : Env :=
  { Env.new with
    types := [("p:m#named", .alias ["r"]
      (.extensibleRecord .default ⟨[.word "r"]⟩ [(⟨[.word "name"]⟩, .unit .default)]))] }

def namedAge : IRType :=
  .reference .default ⟨⟨[⟨[.word "p"]⟩]⟩, ⟨[⟨[.word "m"]⟩]⟩, ⟨[.word "named"]⟩⟩
    [.record .default [(⟨[.word "age"]⟩, .unit .default)]]

/-- The expansions do not agree on every type: an alias with a row parameter,
applied to a record, loses the fields of the record in one of them. -/
theorem not_forall_expansionsAgree :
    ¬ ∀ (env : Env) (t : IRType), ExpansionsAgree env.findCyclicAliases t := by
  intro h
  have hnot : ¬ ExpansionsAgree namedEnv.findCyclicAliases namedAge :=
    not_expansionsAgree_of_closed namedEnv.acyclic_findCyclicAliases (by rfl) (by rfl)
  exact hnot (h namedEnv namedAge)

end Morphir.Typing
