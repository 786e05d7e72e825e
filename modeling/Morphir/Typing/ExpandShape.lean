import Morphir.Typing.Meaning

/-!
# Alias expansion of representation types

The comparison of types expands aliases on representation types, with a
substitution of its own.  That substitution renames a row variable when it is
bound to a variable and keeps it otherwise, where the expansion of internal
types puts the bound type in the tail of the record.
-/

namespace Morphir.Typing

open IR List OrdMap Nat

def substituteRow (bound : List (String × IRType)) (row : Name) : Name :=
  match get? bound row.toCanonical with
  | some (.variable _ other) => other
  | _ => row

/- Substitution of bound variables, without their attributes. -/
mutual
def substituteShape (bound : List (String × IRType)) : IRType → IRType
  | .variable attrs name =>
    match get? bound name.toCanonical with
    | some arg => arg
    | none => .variable attrs name
  | .reference attrs name args => .reference attrs name (substituteItems bound args)
  | .tuple attrs items => .tuple attrs (substituteItems bound items)
  | .union attrs items => .union attrs (substituteItems bound items)
  | .record attrs fields => .record attrs (substituteFields bound fields)
  | .extensibleRecord attrs row fields =>
    .extensibleRecord attrs (substituteRow bound row) (substituteFields bound fields)
  | .function attrs input output =>
    .function attrs (substituteShape bound input) (substituteShape bound output)
  | .unit attrs => .unit attrs

def substituteItems (bound : List (String × IRType)) : List IRType → List IRType
  | [] => []
  | item :: items => substituteShape bound item :: substituteItems bound items

def substituteFields (bound : List (String × IRType)) :
    List (Name × IRType) → List (Name × IRType)
  | [] => []
  | (name, field) :: fields => (name, substituteShape bound field) :: substituteFields bound fields
end

section Expansion

variable (env : Env) (next : IRType → Option IRType)

/- One layer of expansion: structure is followed here, the bodies of aliases by
`next`.  The arguments of an alias expand before they are substituted. -/
mutual
def expandShapeWith : IRType → Option IRType
  | .reference attrs name args =>
    match expandShapeItems args with
    | none => none
    | some args =>
      match env.aliasAt name.toCanonical args.length with
      | some (params, body) => next (substituteShape (bindParams params args) body)
      | none => some (.reference attrs name args)
  | .tuple attrs items => (expandShapeItems items).map (.tuple attrs)
  | .union attrs items => (expandShapeItems items).map (.union attrs)
  | .record attrs fields => (expandShapeFields fields).map (.record attrs)
  | .extensibleRecord attrs row fields =>
    (expandShapeFields fields).map (.extensibleRecord attrs row)
  | .function attrs input output =>
    match expandShapeWith input, expandShapeWith output with
    | some a, some b => some (.function attrs a b)
    | _, _ => none
  | .variable attrs name => some (.variable attrs name)
  | .unit attrs => some (.unit attrs)

def expandShapeItems : List IRType → Option (List IRType)
  | [] => some []
  | item :: items =>
    match expandShapeWith item, expandShapeItems items with
    | some t, some ts => some (t :: ts)
    | _, _ => none

def expandShapeFields : List (Name × IRType) → Option (List (Name × IRType))
  | [] => some []
  | (name, field) :: fields =>
    match expandShapeWith field, expandShapeFields fields with
    | some t, some ts => some ((name, t) :: ts)
    | _, _ => none
end

/-- The expansion of a type, when `fuel` bounds the nesting of aliases.  A
cyclic alias and an alias with the wrong arity stay as references. -/
def expandShape : Nat → IRType → Option IRType
  | 0, _ => none
  | fuel + 1, t => expandShapeWith env (expandShape fuel) t

end Expansion

def ExpandsTo (env : Env) (t s : IRType) : Prop := ∃ fuel, expandShape env fuel t = some s

lemma substituteItems_eq_map (bound : List (String × IRType)) (items : List IRType) :
    substituteItems bound items = items.map (substituteShape bound) := by
  induction items with
  | nil => rfl
  | cons item items ih => rw [substituteItems, ih, map_cons]

lemma substituteFields_eq_mapValues (bound : List (String × IRType)) (fields : List (Name × IRType))
    : substituteFields bound fields = mapValues (substituteShape bound) fields := by
  induction fields with
  | nil => rfl
  | cons e fields ih => rw [substituteFields, ih, mapValues_cons]

example (env : Env) (next : IRType → Option IRType) (bound : List (String × IRType))
    (attrs : TypeAttributes) : substituteShape bound (.tuple attrs []) = .tuple attrs [] ∧
      expandShapeWith env next (.tuple attrs []) = some (.tuple attrs []) := by
  simp only [substituteShape, substituteItems, expandShapeWith, expandShapeItems, Option.map_some,
    and_self]

section Lists

variable {env : Env} {next : IRType → Option IRType}

lemma forall₂_of_expandShapeItems {items ts : List IRType}
    (h : expandShapeItems env next items = some ts) :
    List.Forall₂ (fun t s => expandShapeWith env next t = some s) items ts := by
  induction items generalizing ts with
  | nil =>
    have hts : ts = [] := by simpa [expandShapeItems] using h.symm
    simp [hts]
  | cons item items ih =>
    simp only [expandShapeItems] at h
    split at h
    · rename_i t ts' ht hts'
      rw [← Option.some.inj h]
      exact .cons ht (ih hts')
    · simp at h

lemma forall₂_of_expandShapeFields {fields fs : List (Name × IRType)}
    (h : expandShapeFields env next fields = some fs) :
    List.Forall₂ (fun e f => e.1 = f.1 ∧ expandShapeWith env next e.2 = some f.2) fields fs := by
  induction fields generalizing fs with
  | nil =>
    have hfs : fs = [] := by simpa [expandShapeFields] using h.symm
    simp [hfs]
  | cons e fields ih =>
    simp only [expandShapeFields] at h
    split at h
    · rename_i t ts' ht hts'
      rw [← Option.some.inj h]
      exact .cons ⟨rfl, ht⟩ (ih hts')
    · simp at h

end Lists

def Expanded (env : Env) (t : IRType) : Prop :=
  ∀ r ∈ countedReferencesOf t, env.aliasAt r.1 r.2 = none

section Expanded

variable {env : Env}

lemma expanded_items_iff {items : List IRType} :
    (∀ r ∈ countedReferencesOfItems items, env.aliasAt r.1 r.2 = none) ↔
      ∀ t ∈ items, Expanded env t := by
  simp only [mem_countedReferencesOfItems]
  exact ⟨fun h t ht r hr => h r ⟨t, ht, hr⟩, fun h r ⟨t, ht, hr⟩ => h t ht r hr⟩

lemma expanded_fields_iff {fields : List (Name × IRType)} :
    (∀ r ∈ countedReferencesOfFields fields, env.aliasAt r.1 r.2 = none) ↔
      ∀ e ∈ fields, Expanded env e.2 := by
  simp only [mem_countedReferencesOfFields]
  exact ⟨fun h e he r hr => h r ⟨e, he, hr⟩, fun h r ⟨e, he, hr⟩ => h e he r hr⟩

lemma expanded_expandShape (fuel : Nat) (t s : IRType)
    (h : expandShape env fuel t = some s) : Expanded env s := by
  induction fuel generalizing t s with
  | zero => simp [expandShape] at h
  | succ fuel ih =>
    rw [expandShape] at h
    have hits : ∀ items ts, (∀ t ∈ items, ∀ s,
        expandShapeWith env (expandShape env fuel) t = some s → Expanded env s) →
        expandShapeItems env (expandShape env fuel) items = some ts → ∀ t ∈ ts, Expanded env t := by
      intro items ts ih hts
      exact (forall₂_of_expandShapeItems hts).forall_right ih
    have hfields : ∀ fields fs, (∀ e ∈ fields, ∀ s,
        expandShapeWith env (expandShape env fuel) e.2 = some s → Expanded env s) →
        expandShapeFields env (expandShape env fuel) fields = some fs →
          ∀ f ∈ fs, Expanded env f.2 := by
      intro fields fs ih hfs
      exact (forall₂_of_expandShapeFields hfs).forall_right
        fun e he f hef => ih e he f.2 hef.2
    induction t using IRType.inductionOn generalizing s with
    | var attrs name | unit attrs =>
      rw [← Option.some.inj h]
      simp [Expanded, countedReferencesOf]
    | reference attrs name args ihargs =>
      simp only [expandShapeWith] at h
      split at h
      · simp at h
      rename_i args' hargs
      split at h
      · exact ih _ s h
      · rename_i halias
        rw [← Option.some.inj h]
        intro r hr
        rcases mem_cons.mp hr with rfl | hr
        · exact halias
        · exact expanded_items_iff.mpr (hits args args' ihargs hargs) r hr
    | tuple attrs items ihitems | union attrs items ihitems =>
      obtain ⟨ts, hts, rfl⟩ := Option.map_eq_some_iff.mp h
      exact expanded_items_iff.mpr (hits items ts ihitems hts)
    | record attrs fields ihfields | extensibleRecord attrs row fields ihfields =>
      obtain ⟨fs, hfs, rfl⟩ := Option.map_eq_some_iff.mp h
      exact expanded_fields_iff.mpr (hfields fields fs ihfields hfs)
    | function attrs input output ihi iho =>
      simp only [expandShapeWith] at h
      split at h
      · rename_i a b ha hb
        rw [← Option.some.inj h]
        intro r hr
        rcases mem_append.mp hr with hr | hr
        · exact ihi a ha r hr
        · exact iho b hb r hr
      · simp at h

end Expanded

section Termination

variable {env : Env}

lemma substituteShape_nil (t : IRType) : substituteShape [] t = t := by
  have hits : ∀ items : List IRType, (∀ t ∈ items, substituteShape [] t = t) →
      substituteItems [] items = items := by
    intro items h
    rw [substituteItems_eq_map, map_congr_left h, map_id']
  have hfs : ∀ fields : List (Name × IRType), (∀ e ∈ fields, substituteShape [] e.2 = e.2) →
      substituteFields [] fields = fields := by
    intro fields h
    rw [substituteFields_eq_mapValues, mapValues]
    have hid : fields.map (fun e => (e.1, substituteShape [] e.2)) = fields.map id :=
      map_congr_left fun e he => Prod.ext rfl (h e he)
    rw [hid, map_id]
  induction t using IRType.inductionOn with
  | var attrs name => rfl
  | reference attrs name args ih => rw [substituteShape, hits args ih]
  | tuple attrs items ih | union attrs items ih => rw [substituteShape, hits items ih]
  | record attrs fields ih => rw [substituteShape, hfs fields ih]
  | extensibleRecord attrs row fields ih =>
    rw [substituteShape, hfs fields ih]
    rfl
  | function attrs input output ihi iho => rw [substituteShape, ihi, iho]
  | unit attrs => rfl

lemma exists_expandShapeItems {next : IRType → Option IRType} {items : List IRType}
    (h : ∀ t ∈ items, ∃ s, expandShapeWith env next t = some s) :
    ∃ ts, expandShapeItems env next items = some ts := by
  induction items with
  | nil => exact ⟨[], rfl⟩
  | cons item items ih =>
    obtain ⟨s, hs⟩ := h item mem_cons_self
    obtain ⟨ts, hts⟩ := ih fun t ht => h t (mem_cons_of_mem _ ht)
    exact ⟨s :: ts, by simp [expandShapeItems, hs, hts]⟩

lemma exists_expandShapeFields {next : IRType → Option IRType} {fields : List (Name × IRType)}
    (h : ∀ e ∈ fields, ∃ s, expandShapeWith env next e.2 = some s) :
    ∃ fs, expandShapeFields env next fields = some fs := by
  induction fields with
  | nil => exact ⟨[], rfl⟩
  | cons e fields ih =>
    obtain ⟨name, field⟩ := e
    obtain ⟨s, hs⟩ := h (name, field) mem_cons_self
    obtain ⟨fs, hfs⟩ := ih fun t ht => h t (mem_cons_of_mem _ ht)
    exact ⟨(name, s) :: fs, by simp [expandShapeFields, hs, hfs]⟩

/-- From some fuel on, the expansion of every instance of a type succeeds. -/
def Expands (env : Env) (t : IRType) : Prop :=
  ∃ n, ∀ m, n ≤ m → ∀ bound : List (String × IRType),
    (∀ name u, get? bound name = some u → Expanded env u) →
    ∃ s, expandShape env m (substituteShape bound t) = some s

lemma Expanded.expandShapeWith {t : IRType} (h : Expanded env t)
    (next : IRType → Option IRType) : ∃ s, expandShapeWith env next t = some s := by
  induction t using IRType.inductionOn with
  | var attrs name => exact ⟨_, rfl⟩
  | reference attrs name args ih =>
    have hargs := expanded_items_iff.mp fun r hr => h r (mem_cons_of_mem _ hr)
    have halias := h (name.toCanonical, args.length) mem_cons_self
    obtain ⟨ts, hts⟩ := exists_expandShapeItems fun t ht => ih t ht (hargs t ht)
    have hlen := (forall₂_of_expandShapeItems hts).length_eq
    refine ⟨.reference attrs name ts, ?_⟩
    simp only [Morphir.Typing.expandShapeWith, hts, ← hlen, halias]
  | tuple attrs items ih | union attrs items ih =>
    have hits := expanded_items_iff.mp h
    obtain ⟨ts, hts⟩ := exists_expandShapeItems fun t ht => ih t ht (hits t ht)
    rw [Morphir.Typing.expandShapeWith, hts]
    exact ⟨_, rfl⟩
  | record attrs fields ih | extensibleRecord attrs row fields ih =>
    have hfields := expanded_fields_iff.mp h
    obtain ⟨fs, hfs⟩ := exists_expandShapeFields fun e he => ih e he (hfields e he)
    rw [Morphir.Typing.expandShapeWith, hfs]
    exact ⟨_, rfl⟩
  | function attrs input output ihi iho =>
    obtain ⟨a, ha⟩ := ihi fun r hr => h r (mem_append_left _ hr)
    obtain ⟨b, hb⟩ := iho fun r hr => h r (mem_append_right _ hr)
    rw [Morphir.Typing.expandShapeWith, ha, hb]
    exact ⟨_, rfl⟩
  | unit attrs => exact ⟨_, rfl⟩

lemma expands_of_references (t : IRType)
    (h : ∀ r ∈ countedReferencesOf t, ∀ params body, env.aliasAt r.1 r.2 = some (params, body) →
      Expands env body) : Expands env t := by
  have hits : ∀ items : List IRType, (∀ t ∈ items, Expands env t) →
      ∃ n, ∀ m, n ≤ m → ∀ bound : List (String × IRType),
        (∀ name u, get? bound name = some u → Expanded env u) →
        ∃ ts, expandShapeItems env (expandShape env m) (substituteItems bound items) = some ts := by
    intro items ih
    obtain ⟨n, hn⟩ := exists_threshold ih
    refine ⟨n, fun m hm bound hbd => exists_expandShapeItems ?_⟩
    rw [substituteItems_eq_map]
    intro t ht
    obtain ⟨item, hi, rfl⟩ := mem_map.mp ht
    exact hn item hi (m + 1) (hm.trans (le_succ m)) bound hbd
  have hfields : ∀ fields : List (Name × IRType), (∀ e ∈ fields, Expands env e.2) →
      ∃ n, ∀ m, n ≤ m → ∀ bound : List (String × IRType),
        (∀ name u, get? bound name = some u → Expanded env u) →
        ∃ fs, expandShapeFields env (expandShape env m) (substituteFields bound fields) =
          some fs := by
    intro fields ih
    obtain ⟨n, hn⟩ := exists_threshold ih
    refine ⟨n, fun m hm bound hbd => exists_expandShapeFields ?_⟩
    rw [substituteFields_eq_mapValues]
    intro e he
    obtain ⟨field, hfield, rfl⟩ := mem_map.mp he
    exact hn field hfield (m + 1) (hm.trans (le_succ m)) bound hbd
  induction t using IRType.inductionOn with
  | var attrs name =>
    refine ⟨1, fun m hm bound hbd => ?_⟩
    obtain ⟨m, rfl⟩ := Nat.exists_eq_add_of_le' hm
    rw [substituteShape]
    cases hname : get? bound name.toCanonical with
    | none => exact ⟨_, rfl⟩
    | some u => exact (hbd _ u hname).expandShapeWith _
  | reference attrs name args ih =>
    have hargs := fun t ht => ih t ht fun r hr =>
      h r (mem_cons_of_mem _ (mem_countedReferencesOfItems.mpr ⟨t, ht, hr⟩))
    obtain ⟨n, hn⟩ := hits args hargs
    have hbo : ∃ k, ∀ m, k ≤ m → ∀ args' : List IRType, args'.length = args.length →
        (∀ u ∈ args', Expanded env u) → ∀ params body,
        env.aliasAt name.toCanonical args.length = some (params, body) →
        ∃ s, expandShape env m (substituteShape (bindParams params args') body) = some s := by
      cases halias : env.aliasAt name.toCanonical args.length with
      | none => exact ⟨0, by simp⟩
      | some found =>
        obtain ⟨params, body⟩ := found
        obtain ⟨k, hk⟩ := h (name.toCanonical, args.length) mem_cons_self params body halias
        refine ⟨k, fun m hm args' _ has' params' body' heq => ?_⟩
        cases heq
        refine hk m hm _ fun p u hu => ?_
        exact has' u (of_mem_zip (mem_ofList (mem_of_get? hu))).2
    obtain ⟨k, hk⟩ := hbo
    refine ⟨max n k + 1, fun m hm bound hbd => ?_⟩
    obtain ⟨m, rfl⟩ := Nat.exists_eq_add_of_le' ((Nat.le_add_left 1 _).trans hm)
    have hm' : max n k ≤ m := le_of_succ_le_succ hm
    rw [substituteShape, expandShape, expandShapeWith]
    obtain ⟨args', has'⟩ := hn m ((le_max_left n k).trans hm') bound hbd
    have hli := forall₂_of_expandShapeItems has'
    have hlen : args'.length = args.length := by
      rw [← hli.length_eq, substituteItems_eq_map, length_map]
    rw [has']
    simp only [hlen]
    cases halias : env.aliasAt name.toCanonical args.length with
    | none => exact ⟨_, rfl⟩
    | some found =>
      obtain ⟨params, body⟩ := found
      have hexp := hli.forall_right fun t _ s hs => expanded_expandShape (m + 1) t s hs
      exact hk m ((le_max_right n k).trans hm') args' hlen hexp params body halias
  | tuple attrs items ih | union attrs items ih =>
    obtain ⟨n, hn⟩ := hits items fun t ht => ih t ht fun r hr =>
      h r (mem_countedReferencesOfItems.mpr ⟨t, ht, hr⟩)
    refine ⟨n + 1, fun m hm bound hbd => ?_⟩
    obtain ⟨m, rfl⟩ := Nat.exists_eq_add_of_le' ((Nat.le_add_left 1 n).trans hm)
    obtain ⟨ts, hts⟩ := hn m (le_of_succ_le_succ hm) bound hbd
    rw [substituteShape, expandShape, expandShapeWith, hts]
    exact ⟨_, rfl⟩
  | record attrs fields ih | extensibleRecord attrs row fields ih =>
    obtain ⟨n, hn⟩ := hfields fields fun e he => ih e he fun r hr =>
      h r (mem_countedReferencesOfFields.mpr ⟨e, he, hr⟩)
    refine ⟨n + 1, fun m hm bound hbd => ?_⟩
    obtain ⟨m, rfl⟩ := Nat.exists_eq_add_of_le' ((Nat.le_add_left 1 n).trans hm)
    obtain ⟨fs, hfs⟩ := hn m (le_of_succ_le_succ hm) bound hbd
    rw [substituteShape, expandShape, expandShapeWith, hfs]
    exact ⟨_, rfl⟩
  | function attrs input output ihi iho =>
    obtain ⟨n, hn⟩ := ihi fun r hr => h r (mem_append_left _ hr)
    obtain ⟨k, hk⟩ := iho fun r hr => h r (mem_append_right _ hr)
    refine ⟨max n k + 1, fun m hm bound hbd => ?_⟩
    obtain ⟨m, rfl⟩ := Nat.exists_eq_add_of_le' ((Nat.le_add_left 1 _).trans hm)
    have hmn : n ≤ m + 1 := ((le_max_left n k).trans (le_succ _)).trans hm
    have hmk : k ≤ m + 1 := ((le_max_right n k).trans (le_succ _)).trans hm
    obtain ⟨a, ha⟩ := hn (m + 1) hmn bound hbd
    obtain ⟨b, hb⟩ := hk (m + 1) hmk bound hbd
    rw [expandShape] at ha hb
    rw [substituteShape, expandShape, expandShapeWith, ha, hb]
    exact ⟨_, rfl⟩
  | unit attrs =>
    refine ⟨1, fun m hm bound _ => ?_⟩
    obtain ⟨m, rfl⟩ := Nat.exists_eq_add_of_le' hm
    exact ⟨_, rfl⟩

lemma exists_expandsTo (henv : env.Acyclic) (t : IRType) : ∃ s, ExpandsTo env t s := by
  have halias : ∀ name arity params body, env.aliasAt name arity = some (params, body) →
      Expands env body := by
    intro name
    induction name using henv.induction with
    | _ name ih =>
      intro arity params body h
      apply expands_of_references
      intro r hr params' body' hr'
      exact ih r.1 (Env.refers_of_aliasAt h (mem_referencesOf_of_counted body hr)) r.2
        params' body' hr'
  obtain ⟨n, hn⟩ := expands_of_references t fun r _ params body hr => halias r.1 r.2 params body hr
  obtain ⟨s, hs⟩ := hn n (le_refl n) [] (by simp)
  rw [substituteShape_nil] at hs
  exact ⟨s, n, hs⟩

end Termination

end Morphir.Typing
