import Morphir.Library.CanonicalMap
import Morphir.Typing.Env

/-!
# The meaning of a type

Two internal types mean the same when they agree after every link is followed,
every alias is expanded and every record is flattened into its tail.
Attributes do not count.  The meaning is a type in normal form: the fields of
a record are sorted by name, and the tail of a record is not a record.
-/

namespace Morphir.Typing

open List OrdMap Ty Env

abbrev Links := Nat → Option Ty

/-- A record of `fields` with a tail that is not a record. -/
def rowOf (fields : List (String × Ty)) (tail : Option Ty) : Ty :=
  match fields, tail with
  | [], some t => t
  | fields, tail => .record (OrdMap.canonical fields) tail

/-- A record of `fields` and of the fields of its tail. -/
def flattenRow (fields : List (String × Ty)) : Ty → Ty
  | .record more rest => rowOf (fields ++ more) rest
  | t => rowOf fields (some t)

section Normalization

variable (env : Env) (links : Links) (next : Ty → Option Ty)

/- One layer of normalization: structure is followed here, links and aliases by
`next`. -/
mutual
def normalizeWith : Ty → Option Ty
  | .mvar id =>
    match links id with
    | some t => next t
    | none => some (.mvar id)
  | .rigid key _ => some (.rigid key [])
  | .gen index => some (.gen index)
  | .con name args =>
    match env.expand name args with
    | some t => next t
    | none => (normalizeItems args).map (.con name)
  | .fn input output =>
    match normalizeWith input, normalizeWith output with
    | some a, some b => some (.fn a b)
    | _, _ => none
  | .tup items => (normalizeItems items).map .tup
  | .union items => (normalizeItems items).map .union
  | .attributed _ body => normalizeWith body
  | .record fields none => (normalizeFields fields).map fun fs => rowOf fs none
  | .record fields (some tail) =>
    match normalizeFields fields, normalizeWith tail with
    | some fs, some t => some (flattenRow fs t)
    | _, _ => none
  | .unit => some .unit

def normalizeItems : List Ty → Option (List Ty)
  | [] => some []
  | t :: ts =>
    match normalizeWith t, normalizeItems ts with
    | some v, some vs => some (v :: vs)
    | _, _ => none

def normalizeFields : List (String × Ty) → Option (List (String × Ty))
  | [] => some []
  | (name, t) :: fields =>
    match normalizeWith t, normalizeFields fields with
    | some v, some vs => some ((name, v) :: vs)
    | _, _ => none
end

/-- The normal form of a type, when `fuel` bounds the nesting of links and
aliases. -/
def normalize : Nat → Ty → Option Ty
  | 0, _ => none
  | fuel + 1, t => normalizeWith env links (normalize fuel) t

end Normalization

attribute [local simp] normalizeWith normalizeItems normalizeFields

section Monotone

variable {env : Env} {links : Links} {next next' : Ty → Option Ty}

lemma normalizeItems_mono (items : List Ty)
    (h : ∀ t ∈ items, ∀ v, normalizeWith env links next t = some v →
      normalizeWith env links next' t = some v) (vs : List Ty)
    (hvs : normalizeItems env links next items = some vs) :
    normalizeItems env links next' items = some vs := by
  induction items generalizing vs with
  | nil => exact hvs
  | cons t ts ih =>
    simp only [normalizeItems] at hvs ⊢
    split at hvs
    · rename_i v vs' hv hvs'
      rw [h t mem_cons_self v hv, ih (fun s hs => h s (mem_cons_of_mem _ hs)) vs' hvs']
      exact hvs
    · simp at hvs

lemma normalizeFields_mono (fields : List (String × Ty))
    (h : ∀ e ∈ fields, ∀ v, normalizeWith env links next e.2 = some v →
      normalizeWith env links next' e.2 = some v) (vs : List (String × Ty))
    (hvs : normalizeFields env links next fields = some vs) :
    normalizeFields env links next' fields = some vs := by
  induction fields generalizing vs with
  | nil => exact hvs
  | cons e fields ih =>
    obtain ⟨name, t⟩ := e
    simp only [normalizeFields] at hvs ⊢
    split at hvs
    · rename_i v vs' hv hvs'
      rw [h (name, t) mem_cons_self v hv, ih (fun s hs => h s (mem_cons_of_mem _ hs)) vs' hvs']
      exact hvs
    · simp at hvs

lemma normalizeWith_mono (hnx : ∀ t v, next t = some v → next' t = some v) (t : Ty) :
    ∀ v, normalizeWith env links next t = some v → normalizeWith env links next' t = some v := by
  induction t using inductionOn with
  | mvar id =>
    intro v hv
    simp only [normalizeWith] at hv ⊢
    cases hlk : links id with
    | none => simpa [hlk] using hv
    | some t =>
      rw [hlk] at hv
      exact hnx t v hv
  | rigid key classes | gen index | unit => exact fun v hv => hv
  | con name args ih =>
    intro v hv
    simp only [normalizeWith] at hv ⊢
    cases hexp : env.expand name args with
    | some t =>
      rw [hexp] at hv
      exact hnx t v hv
    | none =>
      rw [hexp] at hv
      obtain ⟨vs, hvs, rfl⟩ := Option.map_eq_some_iff.mp hv
      simp [normalizeItems_mono args ih vs hvs]
  | fn input output ihi iho =>
    intro v hv
    simp only [normalizeWith] at hv ⊢
    split at hv
    · rename_i a b ha hb
      rw [ihi a ha, iho b hb]
      exact hv
    · simp at hv
  | tup items ih | union items ih =>
    intro v hv
    obtain ⟨vs, hvs, rfl⟩ := Option.map_eq_some_iff.mp hv
    simp [normalizeItems_mono items ih vs hvs]
  | attributed attrs body ih =>
    intro v hv
    exact ih v hv
  | record fields tail ihf iht =>
    intro v hv
    cases tail with
    | none =>
      obtain ⟨vs, hvs, rfl⟩ := Option.map_eq_some_iff.mp hv
      simp [normalizeFields_mono fields ihf vs hvs]
    | some tail =>
      simp only [normalizeWith] at hv ⊢
      split at hv
      · rename_i fs t hfs ht
        rw [normalizeFields_mono fields ihf fs hfs, iht tail rfl t ht]
        exact hv
      · simp at hv

lemma normalize_mono {n m : Nat} (hnm : n ≤ m) (t v : Ty) (h : normalize env links n t = some v) :
    normalize env links m t = some v := by
  induction n generalizing m t v with
  | zero => simp [normalize] at h
  | succ n ih =>
    obtain ⟨m, rfl⟩ := Nat.exists_eq_add_of_le' (Nat.one_le_of_lt hnm)
    have hle : n ≤ m := Nat.le_of_succ_le_succ hnm
    exact normalizeWith_mono (fun t v ht => ih hle t v ht) t v h

end Monotone

def Normalizes (env : Env) (links : Links) (t v : Ty) : Prop :=
  ∃ fuel, normalize env links fuel t = some v

variable {env : Env} {links : Links}

lemma Normalizes.unique {t v w : Ty} (hv : Normalizes env links t v)
    (hw : Normalizes env links t w) : v = w := by
  obtain ⟨n, hn⟩ := hv
  obtain ⟨m, hm⟩ := hw
  have hv := normalize_mono (Nat.le_max_left n m) t v hn
  have hw := normalize_mono (Nat.le_max_right n m) t w hm
  rw [hv] at hw
  exact Option.some.inj hw

noncomputable def meaning (env : Env) (links : Links) (t : Ty) : Ty :=
  open Classical in if h : ∃ v, Normalizes env links t v then h.choose else t

lemma Normalizes.meaning_eq {t v : Ty} (h : Normalizes env links t v) :
    meaning env links t = v := by
  have hex : ∃ v, Normalizes env links t v := ⟨v, h⟩
  rw [meaning, dif_pos hex]
  exact hex.choose_spec.unique h

section Equations

variable {env : Env} {links : Links}

def HasMeaning (env : Env) (links : Links) (t : Ty) : Prop :=
  Normalizes env links t (meaning env links t)

lemma Normalizes.hasMeaning {v : Ty} (h : Normalizes env links t v) : HasMeaning env links t := by
  rw [HasMeaning, h.meaning_eq]
  exact h

variable {t : Ty}

lemma HasMeaning.eventually (h : HasMeaning env links t) :
    ∃ n, ∀ m, n ≤ m →
      normalizeWith env links (normalize env links m) t = some (meaning env links t) := by
  obtain ⟨n, hn⟩ := h
  refine ⟨n, ?_⟩
  intro m hm
  exact normalize_mono (hm.trans (Nat.le_succ m)) t _ hn

variable {items : List Ty}

lemma eventually_items (h : ∀ t ∈ items, HasMeaning env links t) :
    ∃ n, ∀ m, n ≤ m → normalizeItems env links (normalize env links m) items =
      some (items.map (meaning env links)) := by
  induction items with
  | nil => exact ⟨0, fun _ _ => rfl⟩
  | cons t ts ih =>
    obtain ⟨n, hn⟩ := (h t mem_cons_self).eventually
    obtain ⟨k, hk⟩ := ih fun s hs => h s (mem_cons_of_mem _ hs)
    refine ⟨max n k, ?_⟩
    intro m hm
    rw [normalizeItems, hn m ((Nat.le_max_left n k).trans hm),
      hk m ((Nat.le_max_right n k).trans hm)]
    rfl

variable {fields : List (String × Ty)}

lemma eventually_fields (h : ∀ e ∈ fields, HasMeaning env links e.2) :
    ∃ n, ∀ m, n ≤ m → normalizeFields env links (normalize env links m) fields =
      some (mapValues (meaning env links) fields) := by
  induction fields with
  | nil => exact ⟨0, fun _ _ => rfl⟩
  | cons e fields ih =>
    obtain ⟨name, t⟩ := e
    obtain ⟨n, hn⟩ := (h (name, t) mem_cons_self).eventually
    obtain ⟨k, hk⟩ := ih fun s hs => h s (mem_cons_of_mem _ hs)
    refine ⟨max n k, ?_⟩
    intro m hm
    rw [normalizeFields, hn m ((Nat.le_max_left n k).trans hm),
      hk m ((Nat.le_max_right n k).trans hm)]
    rfl

lemma normalizes_of_eventually {v : Ty}
    (h : ∃ n, ∀ m, n ≤ m → normalizeWith env links (normalize env links m) t = some v) :
    Normalizes env links t v := by
  obtain ⟨n, hn⟩ := h
  exact ⟨n + 1, hn n (Nat.le_refl n)⟩

lemma normalizes_mvar {id : Nat} (h : links id = none) :
    Normalizes env links (.mvar id) (.mvar id) :=
  ⟨1, by simp [normalize, h]⟩

lemma normalizes_link {id : Nat} (h : links id = some t) (ht : HasMeaning env links t) :
    Normalizes env links (.mvar id) (meaning env links t) := by
  obtain ⟨n, hn⟩ := ht
  refine ⟨n + 1, ?_⟩
  simp [normalize, h, hn]

lemma normalizes_rigid (key : String) (classes : List String) :
    Normalizes env links (.rigid key classes) (.rigid key []) := ⟨1, rfl⟩

lemma normalizes_gen (index : Nat) : Normalizes env links (.gen index) (.gen index) := ⟨1, rfl⟩

lemma normalizes_unit : Normalizes env links .unit .unit := ⟨1, rfl⟩

lemma normalizes_alias {name : String} {args : List Ty} (h : env.expand name args = some t)
    (ht : HasMeaning env links t) :
    Normalizes env links (.con name args) (meaning env links t) := by
  obtain ⟨n, hn⟩ := ht
  refine ⟨n + 1, ?_⟩
  simp [normalize, h, hn]

lemma normalizes_con {name : String} {args : List Ty} (h : env.expand name args = none)
    (hargs : ∀ t ∈ args, HasMeaning env links t) :
    Normalizes env links (.con name args) (.con name (args.map (meaning env links))) := by
  apply normalizes_of_eventually
  obtain ⟨n, hn⟩ := eventually_items hargs
  refine ⟨n, fun m hm => ?_⟩
  simp [h, hn m hm]

lemma normalizes_fn {a b : Ty} (ha : HasMeaning env links a) (hb : HasMeaning env links b) :
    Normalizes env links (.fn a b) (.fn (meaning env links a) (meaning env links b)) := by
  apply normalizes_of_eventually
  obtain ⟨n, hn⟩ := ha.eventually
  obtain ⟨k, hk⟩ := hb.eventually
  refine ⟨max n k, fun m hm => ?_⟩
  simp [hn m ((Nat.le_max_left n k).trans hm), hk m ((Nat.le_max_right n k).trans hm)]

lemma normalizes_tup (h : ∀ t ∈ items, HasMeaning env links t) :
    Normalizes env links (.tup items) (.tup (items.map (meaning env links))) := by
  apply normalizes_of_eventually
  obtain ⟨n, hn⟩ := eventually_items h
  refine ⟨n, fun m hm => ?_⟩
  simp [hn m hm]

lemma normalizes_union (h : ∀ t ∈ items, HasMeaning env links t) :
    Normalizes env links (.union items) (.union (items.map (meaning env links))) := by
  apply normalizes_of_eventually
  obtain ⟨n, hn⟩ := eventually_items h
  refine ⟨n, fun m hm => ?_⟩
  simp [hn m hm]

lemma normalizes_attributed {attrs : TypeAttributes} (h : HasMeaning env links t) :
    Normalizes env links (.attributed attrs t) (meaning env links t) := by
  apply normalizes_of_eventually
  obtain ⟨n, hn⟩ := h.eventually
  refine ⟨n, fun m hm => ?_⟩
  simp [hn m hm]

lemma normalizes_closed (h : ∀ e ∈ fields, HasMeaning env links e.2) :
    Normalizes env links (.record fields none)
      (rowOf (mapValues (meaning env links) fields) none) := by
  apply normalizes_of_eventually
  obtain ⟨n, hn⟩ := eventually_fields h
  refine ⟨n, fun m hm => ?_⟩
  simp [hn m hm]

lemma normalizes_open {tail : Ty} (h : ∀ e ∈ fields, HasMeaning env links e.2)
    (ht : HasMeaning env links tail) :
    Normalizes env links (.record fields (some tail))
      (flattenRow (mapValues (meaning env links) fields) (meaning env links tail)) := by
  apply normalizes_of_eventually
  obtain ⟨n, hn⟩ := eventually_fields h
  obtain ⟨k, hk⟩ := ht.eventually
  refine ⟨max n k, fun m hm => ?_⟩
  simp [hn m ((Nat.le_max_left n k).trans hm), hk m ((Nat.le_max_right n k).trans hm)]

end Equations

section Totality

variable {env : Env} {links : Links}

lemma hasMeaning_attributedBody (node : IR.IRType) {body : Ty} (h : HasMeaning env links body) :
    HasMeaning env links (attributedBody node body) := by
  unfold attributedBody
  simp only
  split
  · exact h
  · exact (normalizes_attributed h).hasMeaning

/-- A reference that expands has a meaning for meaningful arguments. -/
def AliasTotal (env : Env) (links : Links) (name : String) : Prop :=
  ∀ (args : List Ty) (expanded : Ty), env.expand name args = some expanded →
    (∀ t ∈ args, HasMeaning env links t) → HasMeaning env links expanded

lemma hasMeaning_con {name : String} {args : List Ty} (h : AliasTotal env links name)
    (hargs : ∀ t ∈ args, HasMeaning env links t) : HasMeaning env links (.con name args) := by
  cases hexp : env.expand name args with
  | some expanded => exact (normalizes_alias hexp (h args expanded hexp hargs)).hasMeaning
  | none => exact (normalizes_con hexp hargs).hasMeaning

lemma hasMeaning_record {fields : List (String × Ty)} {tail : Option Ty}
    (hfs : ∀ e ∈ fields, HasMeaning env links e.2) (htl : ∀ t ∈ tail, HasMeaning env links t) :
    HasMeaning env links (.record fields tail) := by
  cases tail with
  | none => exact (normalizes_closed hfs).hasMeaning
  | some tail => exact (normalizes_open hfs (htl tail rfl)).hasMeaning

lemma hasMeaning_toTy (vars : String → TypeAttributes → Ty)
    (hvars : ∀ name attrs, HasMeaning env links (vars name attrs)) (t : IR.IRType)
    (hrefs : ∀ name ∈ referencesOf t, AliasTotal env links name) :
    HasMeaning env links (toTy vars t) := by
  have hfs : ∀ fields : List (Name × IR.IRType),
      (∀ e ∈ fields, (∀ name ∈ referencesOf e.2, AliasTotal env links name) →
        HasMeaning env links (toTy vars e.2)) →
      (∀ name ∈ referencesOfFields fields, AliasTotal env links name) →
      ∀ e ∈ fieldsToTy vars fields, HasMeaning env links e.2 := by
    intro fields ih hrefs e he
    rcases mem_foldl_insert _ _ fields [] he with hnil | ⟨field, hfield, rfl⟩
    · simp at hnil
    · exact ih field hfield fun name hname =>
        hrefs name (mem_referencesOfFields.mpr ⟨field, hfield, hname⟩)
  have hits : ∀ items : List IR.IRType,
      (∀ t ∈ items, (∀ name ∈ referencesOf t, AliasTotal env links name) →
        HasMeaning env links (toTy vars t)) →
      (∀ name ∈ referencesOfItems items, AliasTotal env links name) →
      ∀ t ∈ items.map (toTy vars), HasMeaning env links t := by
    intro items ih hrefs t ht
    obtain ⟨item, hitem, rfl⟩ := mem_map.mp ht
    exact ih item hitem fun name hname =>
      hrefs name (mem_referencesOfItems.mpr ⟨item, hitem, hname⟩)
  induction t using IR.IRType.inductionOn with
  | var attrs name => exact hasMeaning_attributedBody _ (hvars _ _)
  | reference attrs name args ih =>
    rw [toTy_reference]
    apply hasMeaning_attributedBody
    have hname := hrefs name.toCanonical mem_cons_self
    exact hasMeaning_con hname
      (hits args ih fun n hn => hrefs n (mem_cons_of_mem _ hn))
  | tuple attrs items ih =>
    cases items with
    | nil => exact hasMeaning_attributedBody _ normalizes_unit.hasMeaning
    | cons item items =>
      rw [toTy_tuple_cons]
      exact hasMeaning_attributedBody _ (normalizes_tup (hits _ ih hrefs)).hasMeaning
  | union attrs items ih =>
    rw [toTy_union]
    exact hasMeaning_attributedBody _ (normalizes_union (hits _ ih hrefs)).hasMeaning
  | record attrs fields ih =>
    rw [toTy_record]
    exact hasMeaning_attributedBody _ (hasMeaning_record (hfs fields ih hrefs) (by simp))
  | extensibleRecord attrs row fields ih =>
    rw [toTy_extensibleRecord]
    apply hasMeaning_attributedBody
    apply hasMeaning_record (hfs fields ih hrefs)
    intro t ht
    rw [← Option.some.inj ht]
    exact hvars _ _
  | function attrs input output ihi iho =>
    apply hasMeaning_attributedBody
    have hi := ihi fun name hname => hrefs name (mem_append_left _ hname)
    have ho := iho fun name hname => hrefs name (mem_append_right _ hname)
    exact (normalizes_fn hi ho).hasMeaning
  | unit attrs => exact hasMeaning_attributedBody _ normalizes_unit.hasMeaning

lemma Env.Acyclic.aliasTotal (henv : env.Acyclic) (links : Links) (name : String) :
    AliasTotal env links name := by
  induction name using henv.induction with
  | _ name ih =>
    intro args expanded hexp hargs
    obtain ⟨params, body, halias, rfl⟩ := expand_eq_some hexp
    apply hasMeaning_toTy
    · intro n attrs
      rcases boundVar_cases params args n attrs with hmem | hrigid
      · exact hargs _ hmem
      · rw [hrigid]
        exact (normalizes_rigid _ _).hasMeaning
    · intro other ho
      exact ih other (refers_of_aliasAt halias ho)

lemma Env.Acyclic.hasMeaning (henv : env.Acyclic) (t : Ty)
    (h : ∀ id ∈ t.mvars, HasMeaning env links (.mvar id)) : HasMeaning env links t := by
  induction t using inductionOn with
  | mvar id => exact h id (by simp [mvars])
  | rigid key classes => exact (normalizes_rigid _ _).hasMeaning
  | gen index => exact (normalizes_gen _).hasMeaning
  | con name args ih =>
    apply hasMeaning_con (henv.aliasTotal links name)
    intro t ht
    exact ih t ht fun id hid => h id (mem_mvarsOfItems.mpr ⟨t, ht, hid⟩)
  | fn input output ihi iho =>
    have hi := ihi fun id hid => h id (mem_append_left _ hid)
    have ho := iho fun id hid => h id (mem_append_right _ hid)
    exact (normalizes_fn hi ho).hasMeaning
  | tup items ih =>
    have hits : ∀ t ∈ items, HasMeaning env links t := fun t ht =>
      ih t ht fun id hid => h id (mem_mvarsOfItems.mpr ⟨t, ht, hid⟩)
    exact (normalizes_tup hits).hasMeaning
  | union items ih =>
    have hits : ∀ t ∈ items, HasMeaning env links t := fun t ht =>
      ih t ht fun id hid => h id (mem_mvarsOfItems.mpr ⟨t, ht, hid⟩)
    exact (normalizes_union hits).hasMeaning
  | attributed attrs body ih => exact (normalizes_attributed (ih h)).hasMeaning
  | record fields tail ihf iht =>
    apply hasMeaning_record
    · intro e he
      exact ihf e he fun id hid => h id (mem_append_left _ (mem_mvarsOfFields.mpr ⟨e, he, hid⟩))
    · intro t ht
      exact iht t ht fun id hid => h id (mem_append_right _ (mem_mvarsOfTail.mpr ⟨t, ht, hid⟩))
  | unit => exact normalizes_unit.hasMeaning

def Links.Acyclic (links : Links) : Prop :=
  WellFounded fun j i => ∃ t, links i = some t ∧ j ∈ t.mvars

def noLinks : Links := fun _ => none

lemma acyclic_noLinks : noLinks.Acyclic := ⟨fun _ => ⟨_, fun _ ⟨_, h, _⟩ => nomatch h⟩⟩

lemma acyclic_new : new.Acyclic := ⟨fun _ => ⟨_, fun _ h => absurd h.2 not_mem_nil⟩⟩

lemma total_of_acyclic (henv : env.Acyclic) (hlks : links.Acyclic) (t : Ty) :
    HasMeaning env links t := by
  have hmvar : ∀ id, HasMeaning env links (.mvar id) := by
    intro id
    induction id using hlks.induction with
    | _ id ih =>
      cases hlk : links id with
      | none => exact (normalizes_mvar hlk).hasMeaning
      | some s =>
        have hs : HasMeaning env links s := henv.hasMeaning s fun j hj => ih j ⟨s, hlk, hj⟩
        exact (normalizes_link hlk hs).hasMeaning
  exact henv.hasMeaning t fun id _ => hmvar id

end Totality

section MeaningEquations

variable {env : Env} {links : Links} (henv : env.Acyclic) (hlinks : links.Acyclic)

include henv hlinks

omit henv hlinks in
lemma meaning_rigid (key : String) (classes : List String) :
    meaning env links (.rigid key classes) = .rigid key [] :=
  (normalizes_rigid key classes).meaning_eq

omit henv hlinks in
lemma meaning_unit : meaning env links .unit = .unit := normalizes_unit.meaning_eq

lemma meaning_alias {name : String} {args : List Ty} {t : Ty} (h : env.expand name args = some t)
    : meaning env links (.con name args) = meaning env links t :=
  (normalizes_alias h (total_of_acyclic henv hlinks t)).meaning_eq

lemma meaning_con {name : String} {args : List Ty} (h : env.expand name args = none) :
    meaning env links (.con name args) = .con name (args.map (meaning env links)) :=
  (normalizes_con h fun t _ => total_of_acyclic henv hlinks t).meaning_eq

lemma meaning_fn (a b : Ty) :
    meaning env links (.fn a b) = .fn (meaning env links a) (meaning env links b) :=
  (normalizes_fn (total_of_acyclic henv hlinks a) (total_of_acyclic henv hlinks b)).meaning_eq

lemma meaning_tup (items : List Ty) :
    meaning env links (.tup items) = .tup (items.map (meaning env links)) :=
  (normalizes_tup fun t _ => total_of_acyclic henv hlinks t).meaning_eq

lemma meaning_union (items : List Ty) :
    meaning env links (.union items) = .union (items.map (meaning env links)) :=
  (normalizes_union fun t _ => total_of_acyclic henv hlinks t).meaning_eq

lemma meaning_attributed (attrs : TypeAttributes) (t : Ty) :
    meaning env links (.attributed attrs t) = meaning env links t :=
  (normalizes_attributed (total_of_acyclic henv hlinks t)).meaning_eq

variable (fields : List (String × Ty))

lemma meaning_closed :
    meaning env links (.record fields none) = rowOf (mapValues (meaning env links) fields) none :=
  (normalizes_closed fun e _ => total_of_acyclic henv hlinks e.2).meaning_eq

lemma meaning_open (tail : Ty) :
    meaning env links (.record fields (some tail)) =
      flattenRow (mapValues (meaning env links) fields) (meaning env links tail) :=
  (normalizes_open (fun e _ => total_of_acyclic henv hlinks e.2)
    (total_of_acyclic henv hlinks tail)).meaning_eq

lemma meaning_attributedBody (node : IR.IRType) (body : Ty) :
    meaning env links (attributedBody node body) = meaning env links body := by
  unfold attributedBody
  simp only
  split
  · rfl
  · exact meaning_attributed henv hlinks _ _

end MeaningEquations

variable {m n : List (String × Ty)}

lemma rowOf_ext (h : ∀ k, get? m k = get? n k) (tail : Option Ty) :
    rowOf m tail = rowOf n tail := by
  have hcan : OrdMap.canonical m = OrdMap.canonical n := canonical_ext h
  have hemp : ∀ {m n : List (String × Ty)}, (∀ k, get? m k = get? n k) →
      m = [] → n = [] := by
    intro m n h hm
    cases n with
    | nil => rfl
    | cons e n =>
      obtain ⟨key, value⟩ := e
      have hkey := h key
      simp [hm] at hkey
  cases m with
  | nil => rw [hemp h rfl]
  | cons e m =>
    cases n with
    | nil => exact absurd (hemp (fun k => (h k).symm) rfl) (cons_ne_nil e m)
    | cons f n => simp only [rowOf, hcan]

lemma flattenRow_ext (h : ∀ k, get? m k = get? n k) (tail : Ty) :
    flattenRow m tail = flattenRow n tail := by
  cases tail with
  | record more rest =>
    apply rowOf_ext
    intro k
    rw [get?_append, get?_append, h k]
  | _ => exact rowOf_ext h _

section Congruence

variable {env env' : Env} {links links' : Links}

/-- A type in one environment and under some links means what another type
means in another environment and under other links. -/
def SameMeaning (env : Env) (links : Links) (env' : Env) (links' : Links) (s t : Ty) : Prop :=
  meaning env links s = meaning env' links' t

lemma map_eq_of_sameMeaning {xs ys : List Ty}
    (h : List.Forall₂ (SameMeaning env links env' links') xs ys) :
    xs.map (meaning env links) = ys.map (meaning env' links') := by
  induction h with
  | nil => rfl
  | cons head _ ih => rw [map_cons, map_cons, head, ih]

lemma get?_mapValues_of_rel
    (h : ∀ k, Option.Rel (SameMeaning env links env' links') (get? m k) (get? n k))
    (k : String) : get? (mapValues (meaning env links) m) k =
      get? (mapValues (meaning env' links') n) k := by
  rw [get?_mapValues, get?_mapValues]
  have hk := h k
  generalize get? m k = x at hk
  generalize get? n k = y at hk
  cases hk with
  | some hxy => exact congrArg some hxy
  | none => rfl

def ReferenceCongr (env : Env) (links : Links) (env' : Env) (links' : Links)
    (r : String × Nat) : Prop :=
  ∀ xs ys : List Ty, xs.length = r.2 → List.Forall₂ (SameMeaning env links env' links') xs ys →
    SameMeaning env links env' links' (.con r.1 xs) (.con r.1 ys)

variable (henv : env.Acyclic) (hlinks : links.Acyclic) (henv' : env'.Acyclic)
  (hlinks' : links'.Acyclic)

include henv hlinks henv' hlinks'

lemma sameMeaning_record {s t : Option Ty}
    (h : ∀ k, Option.Rel (SameMeaning env links env' links') (get? m k) (get? n k))
    (htl : Option.Rel (SameMeaning env links env' links') s t) :
    SameMeaning env links env' links' (.record m s) (.record n t) := by
  unfold SameMeaning
  cases htl with
  | none =>
    rw [meaning_closed henv hlinks, meaning_closed henv' hlinks']
    exact rowOf_ext (get?_mapValues_of_rel h) none
  | @some s t hst =>
    have hst' : meaning env links s = meaning env' links' t := hst
    rw [meaning_open henv hlinks, meaning_open henv' hlinks', hst']
    exact flattenRow_ext (get?_mapValues_of_rel h) _

lemma sameMeaning_attributedBody (node node' : IR.IRType) {s t : Ty}
    (h : SameMeaning env links env' links' s t) :
    SameMeaning env links env' links' (attributedBody node s) (attributedBody node' t) := by
  unfold SameMeaning
  rw [meaning_attributedBody henv hlinks, meaning_attributedBody henv' hlinks']
  exact h

lemma sameMeaning_toTy {vars vars' : String → TypeAttributes → Ty} (t : IR.IRType)
    (hvars : ∀ name attrs, SameMeaning env links env' links' (vars name attrs) (vars' name attrs))
    (hrefs : ∀ r ∈ countedReferencesOf t, ReferenceCongr env links env' links' r) :
    SameMeaning env links env' links' (toTy vars t) (toTy vars' t) := by
  have hbo := @sameMeaning_attributedBody env env' links links' henv hlinks henv' hlinks'
  have hu : SameMeaning env links env' links' .unit .unit := by
    rw [SameMeaning, meaning_unit, meaning_unit]
  have hitems : ∀ items : List IR.IRType,
      (∀ t ∈ items, (∀ r ∈ countedReferencesOf t, ReferenceCongr env links env' links' r) →
        SameMeaning env links env' links' (toTy vars t) (toTy vars' t)) →
      (∀ r ∈ countedReferencesOfItems items, ReferenceCongr env links env' links' r) →
      List.Forall₂ (SameMeaning env links env' links') (items.map (toTy vars))
        (items.map (toTy vars')) := by
    intro items ih hrefs
    rw [List.forall₂_map_left_iff, List.forall₂_map_right_iff, List.forall₂_same]
    exact fun item hitem => ih item hitem fun name hname =>
      hrefs name (mem_countedReferencesOfItems.mpr ⟨item, hitem, hname⟩)
  have hfields : ∀ fields : List (Name × IR.IRType),
      (∀ e ∈ fields, (∀ r ∈ countedReferencesOf e.2, ReferenceCongr env links env' links' r) →
        SameMeaning env links env' links' (toTy vars e.2) (toTy vars' e.2)) →
      (∀ r ∈ countedReferencesOfFields fields, ReferenceCongr env links env' links' r) →
      ∀ k, Option.Rel (SameMeaning env links env' links') (get? (fieldsToTy vars fields) k)
        (get? (fieldsToTy vars' fields) k) := by
    intro fields ih hrefs k
    apply get?_foldl_insert_rel
    · rw [List.forall₂_same]
      exact fun e he => ⟨rfl, ih e he fun name hname =>
        hrefs name (mem_countedReferencesOfFields.mpr ⟨e, he, hname⟩)⟩
    · exact fun _ => .none
  induction t using IR.IRType.inductionOn with
  | var attrs name => exact hbo _ _ (hvars _ _)
  | reference attrs name args ih =>
    rw [toTy_reference, toTy_reference]
    apply hbo
    refine hrefs (name.toCanonical, args.length) mem_cons_self _ _ (by simp) ?_
    exact hitems args ih fun n hn => hrefs n (mem_cons_of_mem _ hn)
  | tuple attrs items ih =>
    cases items with
    | nil => exact hbo _ _ hu
    | cons item items =>
      rw [toTy_tuple_cons, toTy_tuple_cons]
      apply hbo
      unfold SameMeaning
      rw [meaning_tup henv hlinks, meaning_tup henv' hlinks',
        map_eq_of_sameMeaning (hitems _ ih hrefs)]
  | union attrs items ih =>
    rw [toTy_union, toTy_union]
    apply hbo
    unfold SameMeaning
    rw [meaning_union henv hlinks, meaning_union henv' hlinks',
      map_eq_of_sameMeaning (hitems _ ih hrefs)]
  | record attrs fields ih =>
    rw [toTy_record, toTy_record]
    apply hbo
    exact sameMeaning_record henv hlinks henv' hlinks' (hfields fields ih hrefs) .none
  | extensibleRecord attrs row fields ih =>
    rw [toTy_extensibleRecord, toTy_extensibleRecord]
    apply hbo
    exact sameMeaning_record henv hlinks henv' hlinks' (hfields fields ih hrefs)
      (.some (hvars _ _))
  | function attrs input output ihi iho =>
    rw [toTy_function, toTy_function]
    apply hbo
    have hi := ihi fun name hname => hrefs name (mem_append_left _ hname)
    have ho := iho fun name hname => hrefs name (mem_append_right _ hname)
    unfold SameMeaning at hi ho ⊢
    rw [meaning_fn henv hlinks, meaning_fn henv' hlinks', hi, ho]
  | unit attrs => exact hbo _ _ hu

end Congruence

lemma referenceCongr {links' : Links} (henv : env.Acyclic) (hlks : links.Acyclic)
    (hlks' : links'.Acyclic) (name : String) (arity : Nat) :
    ReferenceCongr env links env links' (name, arity) := by
  induction name using henv.induction generalizing arity with
  | _ name ih =>
    intro xs ys _ hxy
    have hlen : xs.length = ys.length := hxy.length_eq
    unfold SameMeaning
    cases halias : env.aliasAt name xs.length with
    | none =>
      have hx : env.expand name xs = none := by simp [expand, halias]
      have hy : env.expand name ys = none := by simp [expand, ← hlen, halias]
      rw [meaning_con henv hlks hx, meaning_con henv hlks' hy, map_eq_of_sameMeaning hxy]
    | some found =>
      obtain ⟨params, body⟩ := found
      have hx : env.expand name xs = some (toTy (boundVar (bindParams params xs)) body) := by
        simp [expand, halias]
      have hy : env.expand name ys = some (toTy (boundVar (bindParams params ys)) body) := by
        simp [expand, ← hlen, halias]
      rw [meaning_alias henv hlks hx, meaning_alias henv hlks' hy]
      apply sameMeaning_toTy henv hlks henv hlks'
      · have hrigid : ∀ key classes, SameMeaning env links env links' (.rigid key classes)
            (.rigid key classes) := by
          intro key classes
          rw [SameMeaning, meaning_rigid, meaning_rigid]
        exact fun n attrs => boundVar_rel hxy hrigid n attrs
      · intro r hr
        exact ih r.1 (refers_of_aliasAt halias (mem_referencesOf_of_counted body hr)) r.2

section Equality

variable {env : Env} {links : Links} (henv : env.Acyclic) (hlinks : links.Acyclic)

include henv hlinks

lemma sameMeaning_of_beq (s t : Ty) (h : beq s t = true) : SameMeaning env links env links s t := by
  have hitems : ∀ xs ys : List Ty,
      (∀ x ∈ xs, ∀ y, beq x y = true → SameMeaning env links env links x y) →
      beqItems xs ys = true → List.Forall₂ (SameMeaning env links env links) xs ys := by
    intro xs
    induction xs with
    | nil =>
      intro ys _ h
      cases ys with
      | nil => exact .nil
      | cons => simp [beqItems] at h
    | cons x xs ih =>
      intro ys hxs h
      cases ys with
      | nil => simp [beqItems] at h
      | cons y ys =>
        rw [beqItems, Bool.and_eq_true] at h
        have hh := hxs x mem_cons_self y h.1
        exact .cons hh
          (ih ys (fun z hz => hxs z (mem_cons_of_mem _ hz)) h.2)
  have hfields : ∀ xs ys : List (String × Ty),
      (∀ e ∈ xs, ∀ y, beq e.2 y = true → SameMeaning env links env links e.2 y) →
      beqFields xs ys = true → ∀ name x, get? xs name = some x →
        ∃ y, get? ys name = some y ∧ SameMeaning env links env links x y := by
    intro xs
    induction xs with
    | nil => simp
    | cons e xs ih =>
      intro ys hxs h name x hx
      obtain ⟨key, value⟩ := e
      rw [beqFields, Bool.and_eq_true] at h
      by_cases hkey : key = name
      · subst hkey
        rw [get?_cons_self] at hx
        cases hx
        cases hy : get? ys key with
        | none => simp [hy] at h
        | some y =>
          rw [hy] at h
          exact ⟨y, rfl, hxs _ mem_cons_self y h.1⟩
      · rw [get?_cons, if_neg hkey] at hx
        exact ih ys (fun z hz => hxs z (mem_cons_of_mem _ hz)) h.2 name x hx
  induction s using inductionOn generalizing t with
  | mvar id | gen index =>
    cases t <;> simp [beq] at h
    rw [h]
    rfl
  | rigid key classes =>
    cases t <;> simp [beq] at h
    rw [h.1, SameMeaning, meaning_rigid, meaning_rigid]
  | con name args ih =>
    cases t <;> simp [beq] at h
    obtain ⟨rfl, h⟩ := h
    exact referenceCongr henv hlinks hlinks _ _ _ _ rfl (hitems _ _ ih h)
  | fn input output ihi iho =>
    cases t <;> simp [beq] at h
    have hi := ihi _ h.1
    have ho := iho _ h.2
    unfold SameMeaning at hi ho ⊢
    rw [meaning_fn henv hlinks, meaning_fn henv hlinks, hi, ho]
  | tup items ih =>
    cases t <;> simp [beq] at h
    unfold SameMeaning
    rw [meaning_tup henv hlinks, meaning_tup henv hlinks, map_eq_of_sameMeaning (hitems _ _ ih h)]
  | union items ih =>
    cases t <;> simp [beq] at h
    unfold SameMeaning
    rw [meaning_union henv hlinks, meaning_union henv hlinks,
      map_eq_of_sameMeaning (hitems _ _ ih h)]
  | attributed attrs body ih =>
    cases t <;> simp [beq] at h
    have hbo := ih _ h.2
    unfold SameMeaning at hbo ⊢
    rw [meaning_attributed henv hlinks, meaning_attributed henv hlinks, hbo]
  | record fields tail ihf iht =>
    cases t <;> simp only [beq, Bool.and_eq_true, Bool.false_eq_true] at h
    rename_i fields' tail'
    obtain ⟨⟨⟨-, hforward⟩, hbackward⟩, htl⟩ := h
    apply sameMeaning_record henv hlinks henv hlinks
    · intro name
      cases hx : get? fields name with
      | some x =>
        obtain ⟨y, hy, hxy⟩ := hfields _ _ ihf hforward name x hx
        rw [hy]
        exact .some hxy
      | none =>
        cases hy : get? fields' name with
        | none => exact .none
        | some y =>
          have hmem := all_eq_true.mp hbackward _ (OrdMap.mem_of_get? hy)
          rw [OrdMap.contains_iff] at hmem
          exact absurd hmem (OrdMap.get?_eq_none_iff.mp hx)
    · cases tail <;> cases tail' <;> simp [beqTail] at htl
      · exact Option.Rel.none
      · exact Option.Rel.some (iht _ rfl _ htl)
  | unit =>
    cases t <;> simp [beq] at h
    rfl

end Equality

end Morphir.Typing
