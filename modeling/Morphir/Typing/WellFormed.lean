import Morphir.IR.Canonical
import Morphir.Typing.Env

/-!
# Well-formed types

A type is well formed when each of its unions has at least two members and each
of its maps has one entry for a key.  Conversion and expansion keep types well
formed, and equality of well-formed types is equality of canonical forms.
-/

namespace Morphir.Typing

open IR

lemma distinct_withoutMarker {attrs : TypeAttributes} (h : attrs.Distinct) :
    OrdMap.Distinct (withoutMarker attrs) ∧ ∀ e ∈ withoutMarker attrs, e.2.Distinct := by
  unfold withoutMarker
  split
  · exact ⟨h.extensions.erase _, fun e he => h.extensionData e (OrdMap.mem_erase he)⟩
  · exact ⟨h.extensions, h.extensionData⟩

lemma distinct_retainedAttributes {t : IRType} (h : (typeAttributes t).Distinct) :
    (retainedAttributes t).Distinct := by
  obtain ⟨hdi, hd⟩ := distinct_withoutMarker h
  unfold retainedAttributes
  simp only
  split
  · split
    · exact ⟨h.constraints.erase _, fun e he => h.constraintData e (OrdMap.mem_erase he), hdi, hd⟩
    · exact ⟨h.constraints, h.constraintData, hdi, hd⟩
  · exact ⟨h.constraints, h.constraintData, hdi, hd⟩

/- Every union has at least two members and every map one entry for a key. -/
mutual
def WellFormed : IRType → Prop
  | .variable attrs _ => attrs.Distinct
  | .reference attrs _ args => attrs.Distinct ∧ WellFormedItems args
  | .tuple attrs items => attrs.Distinct ∧ WellFormedItems items
  | .union attrs items => attrs.Distinct ∧ 2 ≤ items.length ∧ WellFormedItems items
  | .record attrs fields => attrs.Distinct ∧ WellFormedFields fields
  | .extensibleRecord attrs _ fields => attrs.Distinct ∧ WellFormedFields fields
  | .function attrs input output => attrs.Distinct ∧ WellFormed input ∧ WellFormed output
  | .unit attrs => attrs.Distinct

def WellFormedItems : List IRType → Prop
  | [] => True
  | item :: items => WellFormed item ∧ WellFormedItems items

def WellFormedFields : List (Name × IRType) → Prop
  | [] => True
  | (_, field) :: fields => WellFormed field ∧ WellFormedFields fields
end

lemma wellFormedItems_iff {items : List IRType} :
    WellFormedItems items ↔ ∀ t ∈ items, WellFormed t := by
  induction items with
  | nil => simp [WellFormedItems]
  | cons item items ih => simp [WellFormedItems, ih]

lemma wellFormedFields_iff {fields : List (Name × IRType)} :
    WellFormedFields fields ↔ ∀ e ∈ fields, WellFormed e.2 := by
  induction fields with
  | nil => simp [WellFormedFields]
  | cons e fields ih => simp [WellFormedFields, ih]

namespace Ty

/- Every union has at least two members and every map one entry for a key. -/
mutual
def WellFormed : Ty → Prop
  | .con _ args => WellFormedItems args
  | .fn input output => WellFormed input ∧ WellFormed output
  | .tup items => WellFormedItems items
  | .union items => 2 ≤ items.length ∧ WellFormedItems items
  | .attributed attrs body => attrs.Distinct ∧ WellFormed body
  | .record fields tail => OrdMap.Distinct fields ∧ WellFormedFields fields ∧ WellFormedTail tail
  | _ => True

def WellFormedItems : List Ty → Prop
  | [] => True
  | t :: ts => WellFormed t ∧ WellFormedItems ts

def WellFormedFields : List (String × Ty) → Prop
  | [] => True
  | (_, t) :: fields => WellFormed t ∧ WellFormedFields fields

def WellFormedTail : Option Ty → Prop
  | none => True
  | some t => WellFormed t
end

lemma wellFormedItems_iff {items : List Ty} :
    WellFormedItems items ↔ ∀ t ∈ items, t.WellFormed := by
  induction items with
  | nil => simp [WellFormedItems]
  | cons t ts ih => simp [WellFormedItems, ih]

lemma wellFormedFields_iff {fields : List (String × Ty)} :
    WellFormedFields fields ↔ ∀ e ∈ fields, e.2.WellFormed := by
  induction fields with
  | nil => simp [WellFormedFields]
  | cons e fields ih => simp [WellFormedFields, ih]

end Ty

lemma wellFormed_attributedBody {node : IRType} (hnode : (typeAttributes node).Distinct)
    {body : Ty} (h : body.WellFormed) : (attributedBody node body).WellFormed := by
  unfold attributedBody
  simp only
  split
  · exact h
  · exact ⟨distinct_retainedAttributes hnode, h⟩

lemma wellFormed_toTy {vars : String → TypeAttributes → Ty}
    (hvars : ∀ name attrs, (vars name attrs).WellFormed) (t : IRType) (ht : WellFormed t) :
    (toTy vars t).WellFormed := by
  have hits : ∀ items : List IRType, (∀ t ∈ items, WellFormed t → (toTy vars t).WellFormed) →
      WellFormedItems items → Ty.WellFormedItems (items.map (toTy vars)) := by
    intro items ih h
    rw [Ty.wellFormedItems_iff]
    intro t ht
    obtain ⟨item, hi, rfl⟩ := List.mem_map.mp ht
    exact ih item hi (wellFormedItems_iff.mp h item hi)
  have hfs : ∀ fields : List (Name × IRType),
      (∀ e ∈ fields, WellFormed e.2 → (toTy vars e.2).WellFormed) → WellFormedFields fields →
      OrdMap.Distinct (fieldsToTy vars fields) ∧ Ty.WellFormedFields (fieldsToTy vars fields) := by
    intro fields ih h
    refine ⟨OrdMap.distinct_nil.foldl_insert _ _ _, ?_⟩
    rw [Ty.wellFormedFields_iff]
    intro e he
    rcases OrdMap.mem_foldl_insert _ _ fields [] he with hnil | ⟨field, hfield, rfl⟩
    · simp at hnil
    · exact ih field hfield (wellFormedFields_iff.mp h field hfield)
  have hbo : ∀ (node : IRType) (body : Ty), (typeAttributes node).Distinct →
      body.WellFormed → (attributedBody node body).WellFormed := fun _ _ hnode =>
    wellFormed_attributedBody hnode
  induction t using IRType.inductionOn with
  | var attrs name => exact hbo (.variable attrs name) _ ht (hvars _ _)
  | reference attrs name args ih =>
    rw [toTy_reference]
    apply hbo
    · exact ht.1
    · exact hits args ih ht.2
  | tuple attrs items ih =>
    cases items with
    | nil => exact hbo (.tuple attrs []) _ ht.1 trivial
    | cons item items =>
      rw [toTy_tuple_cons]
      apply hbo
      · exact ht.1
      · exact hits _ ih ht.2
  | union attrs items ih =>
    obtain ⟨hats, hlen, hall⟩ := ht
    rw [toTy_union]
    apply hbo
    · exact hats
    · exact ⟨by simpa using hlen, hits items ih hall⟩
  | record attrs fields ih =>
    rw [toTy_record]
    obtain ⟨hdi, hall⟩ := hfs fields ih ht.2
    apply hbo
    · exact ht.1
    · exact ⟨hdi, hall, trivial⟩
  | extensibleRecord attrs row fields ih =>
    rw [toTy_extensibleRecord]
    obtain ⟨hdi, hall⟩ := hfs fields ih ht.2
    apply hbo
    · exact ht.1
    · exact ⟨hdi, hall, hvars _ _⟩
  | function attrs input output ihi iho =>
    apply hbo
    · exact ht.1
    · exact ⟨ihi ht.2.1, iho ht.2.2⟩
  | unit attrs => exact hbo (.unit attrs) _ ht trivial

def Env.WellFormed (env : Env) : Prop :=
  ∀ name params body, OrdMap.get? env.types name = some (.alias params body) →
    Typing.WellFormed body

lemma wellFormed_expand {env : Env} (henv : env.WellFormed) {name : String} {args : List Ty}
    {t : Ty} (hargs : ∀ x ∈ args, x.WellFormed) (h : env.expand name args = some t) :
    t.WellFormed := by
  obtain ⟨params, body, halias, rfl⟩ := Env.expand_eq_some h
  obtain ⟨htys, -, -⟩ := Env.aliasAt_eq_some halias
  apply wellFormed_toTy _ body (henv name params body htys)
  intro n attrs
  rcases Env.boundVar_cases params args n attrs with hmem | hrigid
  · exact hargs _ hmem
  · rw [hrigid]
    trivial

end Morphir.Typing
