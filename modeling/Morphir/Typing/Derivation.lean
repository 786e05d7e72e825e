import Morphir.Typing.CanonicalType
import Morphir.Typing.Relations

/-!
# Derivations of assignability

A derivation is a proof of assignability without limits, and its height is the
nesting that the comparison needs.  Derivations do not depend on the order of
fields and attributes, and they compose.
-/

namespace Morphir.Typing

open IR TypeRelation List OrdMap TypeAttributes

/-- The extensions that are not an obligation: the marker of an unknown type,
and a note about provenance. -/
def Exempt (key : String) (value : Data) : Prop :=
  (key = inferenceExtension ∧ value = .text unknownMarker) ∨
    (key = provenanceNote ∧ ∃ note, value = .text note)

/-- Each obligation of the target is met by some attributes of the source. -/
structure Entails (source target : List TypeAttributes) : Prop where
  constraints : ∀ b ∈ target, ∀ key value, get? b.canonical.constraints key = some value →
    ∃ a ∈ source, get? a.canonical.constraints key = some value
  extensions : ∀ b ∈ target, ∀ key value, get? b.canonical.extensions key = some value →
    ¬ Exempt key value → ∃ a ∈ source, get? a.canonical.extensions key = some value

lemma Entails.refl (as : List TypeAttributes) : Entails as as where
  constraints := fun a ha _ _ h => ⟨a, ha, h⟩
  extensions := fun a ha _ _ h _ => ⟨a, ha, h⟩

lemma Entails.trans {as bs cs : List TypeAttributes} (h : Entails as bs) (h' : Entails bs cs) :
    Entails as cs where
  constraints := by
    intro c hc key value hval
    obtain ⟨b, hb, hval⟩ := h'.constraints c hc key value hval
    exact h.constraints b hb key value hval
  extensions := by
    intro c hc key value hval hexe
    obtain ⟨b, hb, hval⟩ := h'.extensions c hc key value hval hexe
    exact h.extensions b hb key value hval hexe

lemma Entails.congr {as bs as' bs' : List TypeAttributes} (h : Entails as bs)
    (has : as.map canonical = as'.map canonical) (hbs : bs.map canonical = bs'.map canonical) :
    Entails as' bs' := by
  have hlt : ∀ a ∈ as, ∃ a' ∈ as', a'.canonical = a.canonical := by
    intro a ha
    have hmem := mem_map_of_mem (f := canonical) ha
    rw [has] at hmem
    exact mem_map.mp hmem
  have hrt : ∀ b' ∈ bs', ∃ b ∈ bs, b.canonical = b'.canonical := by
    intro b' hb'
    have hmem := mem_map_of_mem (f := canonical) hb'
    rw [← hbs] at hmem
    exact mem_map.mp hmem
  constructor
  · intro b' hb' key value hval
    obtain ⟨b, hb, heq⟩ := hrt b' hb'
    rw [← heq] at hval
    obtain ⟨a, ha, hval⟩ := h.constraints b hb key value hval
    obtain ⟨a', ha', heq'⟩ := hlt a ha
    exact ⟨a', ha', heq' ▸ hval⟩
  · intro b' hb' key value hval hexe
    obtain ⟨b, hb, heq⟩ := hrt b' hb'
    rw [← heq] at hval
    obtain ⟨a, ha, hval⟩ := h.extensions b hb key value hval hexe
    obtain ⟨a', ha', heq'⟩ := hlt a ha
    exact ⟨a', ha', heq' ▸ hval⟩

section

variable (attrs : TypeAttributes)

lemma get?_withoutMarker (key : String) :
    get? (withoutMarker attrs) key = if key = inferenceExtension ∧ attrs.isUnknown = true then none
      else get? attrs.extensions key := by
  unfold withoutMarker
  split
  · rename_i h
    rw [get?_erase]
    simp [h, eq_comm]
  · rename_i h
    simp [h]

omit attrs in
lemma isUnknown_iff {attrs : TypeAttributes} {value : Data}
    (h : get? attrs.extensions inferenceExtension = some value) :
    attrs.isUnknown = true ↔ value = .text unknownMarker := by
  unfold isUnknown
  rw [h]
  cases value <;> simp

lemma get?_obligations_note (value : Data) :
    get? (obligations attrs).extensions provenanceNote = some value ↔
      get? attrs.extensions provenanceNote = some value ∧ ∀ note, value ≠ .text note := by
  have hne : provenanceNote ≠ inferenceExtension := by decide
  have hnote : get? (withoutMarker attrs) provenanceNote =
      get? attrs.extensions provenanceNote := by
    rw [get?_withoutMarker, if_neg (fun h => hne h.1)]
  unfold obligations
  simp only
  split
  · rename_i note heq
    rw [hnote] at heq
    simp only [get?_erase, heq, if_true, reduceCtorEq, Option.some.injEq, false_iff]
    rintro ⟨rfl, ho⟩
    exact ho note rfl
  · rename_i ho
    rw [hnote] at ho ⊢
    refine ⟨fun h => ⟨h, ?_⟩, And.left⟩
    rintro note rfl
    exact ho note h

lemma get?_obligations_ne {key : String} (h : key ≠ provenanceNote) :
    get? (obligations attrs).extensions key = get? (withoutMarker attrs) key := by
  unfold obligations
  simp only
  split
  · rw [get?_erase, if_neg h.symm]
  · rfl

lemma get?_obligations (key : String) (value : Data) :
    get? (obligations attrs).extensions key = some value ↔
      get? attrs.extensions key = some value ∧ ¬ Exempt key value := by
  have hne : provenanceNote ≠ inferenceExtension := by decide
  by_cases hnote : key = provenanceNote
  · subst hnote
    rw [get?_obligations_note]
    simp [Exempt, hne]
  · rw [get?_obligations_ne attrs hnote, get?_withoutMarker]
    by_cases hmar : key = inferenceExtension
    · subst hmar
      split
      · rename_i hunk
        refine ⟨by simp, ?_⟩
        rintro ⟨hval, hexe⟩
        exact absurd (Or.inl ⟨rfl, (isUnknown_iff hval).mp hunk.2⟩) hexe
      · rename_i hknown
        refine ⟨fun hval => ⟨hval, ?_⟩, And.left⟩
        rintro (⟨-, heq⟩ | ⟨heq, -⟩)
        · exact hknown ⟨rfl, (isUnknown_iff hval).mpr heq⟩
        · exact hnote heq
    · simp [Exempt, hnote, hmar]

end

lemma get?_canonical_constraints (a : TypeAttributes) (key : String) :
    get? a.canonical.constraints key =
      (get? a.constraints key).map Data.canonical := by
  rw [TypeAttributes.canonical, get?_canonical, get?_mapValues]

lemma get?_canonical_extensions (a : TypeAttributes) (key : String) :
    get? a.canonical.extensions key =
      (get? a.extensions key).map Data.canonical := by
  rw [TypeAttributes.canonical, get?_canonical, get?_mapValues]

lemma canonical_eq_text {d : Data} {text : String} : d.canonical = .text text ↔ d = .text text := by
  cases d <;> simp [Data.canonical]

lemma exempt_canonical {key : String} {value : Data} :
    Exempt key value.canonical ↔ Exempt key value := by
  simp only [Exempt, canonical_eq_text]

lemma hasEntry_iff {maps : List (List (String × Data))} {e : String × Data}
    (hmaps : ∀ m ∈ maps, ∀ f ∈ m, f.2.Distinct) (he : e.2.Distinct) :
    hasEntry maps e = true ↔
      ∃ m ∈ maps, (get? m e.1).map Data.canonical = some e.2.canonical := by
  rw [hasEntry, any_eq_true]
  apply exists_congr
  intro m
  apply and_congr_right
  intro hm
  cases hval : get? m e.1 with
  | none => simp
  | some value =>
    have hdi := hmaps m hm _ (mem_of_get? hval)
    have hbeq : (value == e.2) = true ↔ value.canonical = e.2.canonical := Data.beq_iff hdi he
    simpa using hbeq

lemma distinct_obligations {a : TypeAttributes} (h : a.Distinct) : (obligations a).Distinct := by
  obtain ⟨hdi, hd⟩ := distinct_withoutMarker h
  unfold obligations
  simp only
  split
  · exact ⟨h.constraints, h.constraintData, hdi.erase _, fun e he => hd e (mem_erase he)⟩
  · exact ⟨h.constraints, h.constraintData, hdi, hd⟩

lemma attributesEntail_eq_proven {source target : List TypeAttributes} :
    attributesEntail source target = proven ↔ ∀ a ∈ target,
      (obligations a).constraints.all (hasEntry (source.map constraints)) = true ∧
      (obligations a).extensions.all (hasEntry (source.map extensions)) = true := by
  induction target with
  | nil => simp [attributesEntail]
  | cons a target ih =>
    rw [attributesEntail]
    split
    · simp_all
    split
    · simp_all
    · simp_all

lemma attributesEntail_iff {source target : List TypeAttributes} (hsrc : ∀ a ∈ source, a.Distinct)
    (htgt : ∀ a ∈ target, a.Distinct) :
    attributesEntail source target = proven ↔ Entails source target := by
  have hcon : ∀ e : String × Data, e.2.Distinct →
      (hasEntry (source.map constraints) e = true ↔
        ∃ a ∈ source, get? a.canonical.constraints e.1 = some e.2.canonical) := by
    intro e he
    rw [hasEntry_iff (by simpa using fun a ha => by simpa using (hsrc a ha).constraintData) he]
    simp [get?_canonical_constraints]
  have hexts : ∀ e : String × Data, e.2.Distinct →
      (hasEntry (source.map extensions) e = true ↔
        ∃ a ∈ source, get? a.canonical.extensions e.1 = some e.2.canonical) := by
    intro e he
    rw [hasEntry_iff (by simpa using fun a ha => by simpa using (hsrc a ha).extensionData) he]
    simp [get?_canonical_extensions]
  rw [attributesEntail_eq_proven]
  constructor
  · intro h
    constructor
    · intro b hb key value hval
      rw [get?_canonical_constraints] at hval
      obtain ⟨d, hd, rfl⟩ := Option.map_eq_some_iff.mp hval
      have hmem := mem_of_get? hd
      exact (hcon (key, d) ((htgt b hb).constraintData _ hmem)).mp
        (all_eq_true.mp (h b hb).1 _ hmem)
    · intro b hb key value hval hexe
      rw [get?_canonical_extensions] at hval
      obtain ⟨d, hd, rfl⟩ := Option.map_eq_some_iff.mp hval
      rw [exempt_canonical] at hexe
      have hmem := mem_of_get? ((get?_obligations b key d).mpr ⟨hd, hexe⟩)
      exact (hexts (key, d) ((htgt b hb).extensionData _ (mem_of_get? hd))).mp
        (all_eq_true.mp (h b hb).2 _ hmem)
  · intro h b hb
    have hdi := distinct_obligations (htgt b hb)
    refine ⟨all_eq_true.mpr ?_, all_eq_true.mpr ?_⟩
    · rintro ⟨key, d⟩ he
      apply (hcon (key, d) (hdi.constraintData _ he)).mpr
      apply h.constraints b hb
      rw [get?_canonical_constraints]
      exact Option.map_eq_some_iff.mpr ⟨d, get?_of_mem hdi.constraints he, rfl⟩
    · rintro ⟨key, d⟩ he
      have hget := get?_of_mem hdi.extensions he
      obtain ⟨hval, hexe⟩ := (get?_obligations b key d).mp hget
      apply (hexts (key, d) (hdi.extensionData _ he)).mpr
      apply h.extensions b hb
      · rw [get?_canonical_extensions, hval, Option.map_some]
      · rwa [exempt_canonical]

inductive Related (R : Ty → Ty → Prop) : Ty → Ty → Prop
  | con {name : String} {xs ys : List Ty} (length : xs.length = ys.length)
      (forward : ∀ e ∈ xs.zip ys, R e.1 e.2) (backward : ∀ e ∈ xs.zip ys, R e.2 e.1) :
      Related R (.con name xs) (.con name ys)
  | tup {xs ys : List Ty} (length : xs.length = ys.length) (items : ∀ e ∈ xs.zip ys, R e.1 e.2) :
      Related R (.tup xs) (.tup ys)
  | fn {a b c d : Ty} (input : R c a) (output : R b d) : Related R (.fn a b) (.fn c d)
  | record {xs ys : List (String × Ty)}
      (names : ∀ name, name ∈ OrdMap.keys xs ↔ name ∈ OrdMap.keys ys)
      (fields : ∀ name x y, get? xs name = some x → get? ys name = some y → R x y) :
      Related R (.record xs none) (.record ys none)

variable {R S : Ty → Ty → Prop} {x y : Ty}

lemma Related.mono (h : Related R x y) (hRS : ∀ s t, R s t → S s t) : Related S x y := by
  cases h with
  | con length forward backward =>
    exact .con length (fun e he => hRS _ _ (forward e he)) fun e he => hRS _ _ (backward e he)
  | tup length items => exact .tup length fun e he => hRS _ _ (items e he)
  | fn input output => exact .fn (hRS _ _ input) (hRS _ _ output)
  | record names fields => exact .record names fun name x y hx hy => hRS _ _ (fields name x y hx hy)

lemma Related.trans {T : Ty → Ty → Prop} {z : Ty} (h : Related R x y) (h' : Related S y z)
    (hRS : ∀ s t u, R s t → S t u → T s u) (hSR : ∀ s t u, S s t → R t u → T s u) :
    Related T x z := by
  cases h with
  | con length forward backward =>
    cases h' with
    | con length' forward' backward' =>
      refine .con (length.trans length') ?_ ?_
      all_goals
        intro e he
        obtain ⟨m, hm, hm'⟩ := exists_mem_zip_between length length' he
      · exact hRS _ m _ (forward (_, m) hm) (forward' (m, _) hm')
      · exact hSR _ m _ (backward' (m, _) hm') (backward (_, m) hm)
  | tup length items =>
    cases h' with
    | tup length' items' =>
      refine .tup (length.trans length') ?_
      intro e he
      obtain ⟨m, hm, hm'⟩ := exists_mem_zip_between length length' he
      exact hRS _ m _ (items (_, m) hm) (items' (m, _) hm')
  | fn input output =>
    cases h' with
    | fn input' output' => exact .fn (hSR _ _ _ input' input) (hRS _ _ _ output output')
  | record names fields =>
    cases h' with
    | record names' fields' =>
      refine .record (fun name => (names name).trans (names' name)) ?_
      intro name s u hs hu
      have hkey := (names name).mp (get?_isSome_iff.mp (by simp [hs]))
      obtain ⟨t, ht⟩ := exists_get?_of_mem_keys hkey
      exact hRS _ _ _ (fields name s t hs ht) (fields' name t u ht hu)

section Inversion

variable {t : Ty}

variable {xs : List Ty}

lemma canonical_eq_con {name : String} (h : (Ty.con name xs).canonical = t.canonical) :
    ∃ ys, t = .con name ys ∧ xs.map Ty.canonical = ys.map Ty.canonical := by
  cases t <;> simp [Ty.canonical] at h
  obtain ⟨rfl, h⟩ := h
  exact ⟨_, rfl, h⟩

lemma canonical_eq_tup (h : (Ty.tup xs).canonical = t.canonical) :
    ∃ ys, t = .tup ys ∧ xs.map Ty.canonical = ys.map Ty.canonical := by
  cases t <;> simp [Ty.canonical] at h
  exact ⟨_, rfl, h⟩

lemma canonical_eq_union (h : (Ty.union xs).canonical = t.canonical) :
    ∃ ys, t = .union ys ∧ xs.map Ty.canonical = ys.map Ty.canonical := by
  cases t <;> simp [Ty.canonical] at h
  exact ⟨_, rfl, h⟩

lemma canonical_eq_fn {a b : Ty} (h : (Ty.fn a b).canonical = t.canonical) :
    ∃ c d, t = .fn c d ∧ a.canonical = c.canonical ∧ b.canonical = d.canonical := by
  cases t <;> simp [Ty.canonical] at h
  exact ⟨_, _, rfl, h.1, h.2⟩

lemma canonical_eq_attributed {attrs : TypeAttributes} {s : Ty}
    (h : (Ty.attributed attrs s).canonical = t.canonical) :
    ∃ attrs' s', t = .attributed attrs' s' ∧ attrs.canonical = attrs'.canonical ∧
      s.canonical = s'.canonical := by
  cases t <;> simp [Ty.canonical] at h
  exact ⟨_, _, rfl, h.1, h.2⟩

lemma canonical_eq_closed {xs : List (String × Ty)}
    (h : (Ty.record xs none).canonical = t.canonical) :
    ∃ ys, t = .record ys none ∧ ∀ name, (get? xs name).map Ty.canonical =
      (get? ys name).map Ty.canonical := by
  rcases t with _ | _ | _ | _ | _ | _ | _ | _ | ⟨ys, _ | tail⟩ | _ <;> simp [Ty.canonical] at h
  refine ⟨ys, rfl, fun name => ?_⟩
  have hget := canonical_eq_iff.mp h name
  rwa [get?_mapValues, get?_mapValues] at hget

end Inversion

lemma exists_mem_zip_canonical {xs ys xs' ys' : List Ty}
    (hxs : xs.map Ty.canonical = xs'.map Ty.canonical)
    (hys : ys.map Ty.canonical = ys'.map Ty.canonical) {e' : Ty × Ty} (he : e' ∈ xs'.zip ys') :
    ∃ e ∈ xs.zip ys, e.1.canonical = e'.1.canonical ∧ e.2.canonical = e'.2.canonical := by
  have hmem := mem_map_of_mem (f := Prod.map Ty.canonical Ty.canonical) he
  rw [← zip_map, ← hxs, ← hys, zip_map] at hmem
  obtain ⟨e, he, heq⟩ := mem_map.mp hmem
  obtain ⟨h₁, h₂⟩ := Prod.mk.inj heq
  exact ⟨e, he, h₁, h₂⟩

lemma Related.congr {x' y' : Ty} (h : Related R x y) (hx : x.canonical = x'.canonical)
    (hy : y.canonical = y'.canonical)
    (hRS : ∀ s t s' t', R s t → s.canonical = s'.canonical → t.canonical = t'.canonical → S s' t') :
    Related S x' y' := by
  cases h with
  | @con name xs ys length forward backward =>
    obtain ⟨xs', rfl, hxs⟩ := canonical_eq_con hx
    obtain ⟨ys', rfl, hys⟩ := canonical_eq_con hy
    have hxl : xs.length = xs'.length := by simpa using congrArg List.length hxs
    have hyl : ys.length = ys'.length := by simpa using congrArg List.length hys
    refine .con (by omega) ?_ ?_
    all_goals
      intro e' he'
      obtain ⟨e, he, h₁, h₂⟩ := exists_mem_zip_canonical hxs hys he'
    · exact hRS _ _ _ _ (forward e he) h₁ h₂
    · exact hRS _ _ _ _ (backward e he) h₂ h₁
  | @tup xs ys length items =>
    obtain ⟨xs', rfl, hxs⟩ := canonical_eq_tup hx
    obtain ⟨ys', rfl, hys⟩ := canonical_eq_tup hy
    have hxl : xs.length = xs'.length := by simpa using congrArg List.length hxs
    have hyl : ys.length = ys'.length := by simpa using congrArg List.length hys
    refine .tup (by omega) ?_
    intro e' he'
    obtain ⟨e, he, h₁, h₂⟩ := exists_mem_zip_canonical hxs hys he'
    exact hRS _ _ _ _ (items e he) h₁ h₂
  | fn input output =>
    obtain ⟨a', b', rfl, ha, hb⟩ := canonical_eq_fn hx
    obtain ⟨c', d', rfl, hc, hd⟩ := canonical_eq_fn hy
    exact .fn (hRS _ _ _ _ input hc ha) (hRS _ _ _ _ output hb hd)
  | @record xs ys names fields =>
    obtain ⟨xs', rfl, hxs⟩ := canonical_eq_closed hx
    obtain ⟨ys', rfl, hys⟩ := canonical_eq_closed hy
    have hks : ∀ {m n : List (String × Ty)}, (∀ name, (get? m name).map Ty.canonical =
        (get? n name).map Ty.canonical) →
        ∀ name, name ∈ OrdMap.keys m ↔ name ∈ OrdMap.keys n := by
      intro m n hmn name
      rw [← get?_isSome_iff, ← get?_isSome_iff, ← Option.isSome_map, hmn name, Option.isSome_map]
    refine .record ?_ ?_
    · intro name
      rw [← hks hxs, ← hks hys]
      exact names name
    · intro name s' t' hs' ht'
      have hs := hxs name
      have ht := hys name
      rw [hs'] at hs
      rw [ht'] at ht
      obtain ⟨s, hs, hs'⟩ := Option.map_eq_some_iff.mp hs
      obtain ⟨t, ht, ht'⟩ := Option.map_eq_some_iff.mp ht
      exact hRS _ _ _ _ (fields name s t hs ht) hs' ht'

lemma Head.congr {env : Env} {t h t' : Ty} {as : List TypeAttributes} (hh : Head env t h as)
    (heq : t.canonical = t'.canonical) :
    ∃ h' as', Head env t' h' as' ∧ h.canonical = h'.canonical ∧
      as.map canonical = as'.map canonical := by
  induction hh generalizing t' with
  | attributed _ ih =>
    obtain ⟨attrs', s', rfl, hats, hs⟩ := canonical_eq_attributed heq
    obtain ⟨h', as', hh', hx, has⟩ := ih hs
    exact ⟨h', _, .attributed hh', hx, by rw [map_cons, map_cons, hats, has]⟩
  | @expanding name _ _ _ _ expand _ ih =>
    obtain ⟨ys, rfl, hys⟩ := canonical_eq_con heq
    have hexp := expand_canonical env name hys
    rw [expand] at hexp
    obtain ⟨t', ht', htt'⟩ := Option.map_eq_some_iff.mp hexp.symm
    obtain ⟨h', as', hh', hx, has⟩ := ih htt'.symm
    exact ⟨h', as', .expanding ht' hh', hx, has⟩
  | @con name _ expand =>
    obtain ⟨ys, rfl, hys⟩ := canonical_eq_con heq
    have hexp := expand_canonical env name hys
    rw [expand] at hexp
    exact ⟨_, _, .con (Option.map_eq_none_iff.mp hexp.symm), heq, rfl⟩
  | other attributed con =>
    refine ⟨t', [], .other ?_ ?_, heq, rfl⟩
    · rintro attrs s rfl
      obtain ⟨_, _, rfl, -⟩ := canonical_eq_attributed heq.symm
      exact attributed _ _ rfl
    · rintro name args rfl
      obtain ⟨_, rfl, -⟩ := canonical_eq_con heq.symm
      exact con _ _ rfl

/-- One comparison that proves assignability, from the relation `R` on members
and components. -/
inductive Proves (env : Env) (R : Ty → Ty → Prop) (s t : Ty) : Prop
  | unionLeft {xs : List Ty} {as : List TypeAttributes} (head : Head env s (.union xs) as)
      (two : 2 ≤ xs.length) (members : ∀ x ∈ xs, R (attributedAll x as) t)
  | unionRight {x y : Ty} {ys : List Ty} {as bs : List TypeAttributes} (left : Head env s x as)
      (leaf : ¬ IsUnion x) (right : Head env t (.union ys) bs) (two : 2 ≤ ys.length)
      (member : y ∈ ys) (below : R s (attributedAll y bs))
  | equal {x y : Ty} {as bs : List TypeAttributes} (left : Head env s x as)
      (right : Head env t y bs) (leaf : ¬ IsUnion x) (leaf' : ¬ IsUnion y)
      (entails : Entails as bs) (eq : x.canonical = y.canonical)
  | heads {x y : Ty} {as bs : List TypeAttributes} (left : Head env s x as)
      (right : Head env t y bs) (entails : Entails as bs) (related : Related R x y)

def Derives (env : Env) : Nat → Ty → Ty → Prop
  | 0, _, _ => False
  | height + 1, s, t => Proves env (Derives env height) s t

lemma Related.leaf_left (h : Related R x y) : ¬ IsUnion x := by cases h <;> exact id

lemma Related.leaf_right (h : Related R x y) : ¬ IsUnion y := by cases h <;> exact id

section Derivations

variable {env : Env}

lemma Proves.mono {s t : Ty} (h : Proves env R s t) (hRS : ∀ s t, R s t → S s t) :
    Proves env S s t := by
  cases h with
  | unionLeft head two members => exact .unionLeft head two fun x hx => hRS _ _ (members x hx)
  | unionRight left leaf right two member below =>
    exact .unionRight left leaf right two member (hRS _ _ below)
  | equal left right leaf leaf' entails eq => exact .equal left right leaf leaf' entails eq
  | heads left right entails related => exact .heads left right entails (related.mono hRS)

lemma Derives.mono {m n : Nat} (hmn : m ≤ n) {s t : Ty} (h : Derives env m s t) :
    Derives env n s t := by
  induction m generalizing n s t with
  | zero => exact h.elim
  | succ m ih =>
    obtain ⟨n, rfl⟩ : ∃ k, n = k + 1 := ⟨n - 1, by omega⟩
    have hle : m ≤ n := by omega
    exact Proves.mono h fun s t hst => ih hle hst

lemma isUnion_congr (h : x.canonical = y.canonical) (hy : IsUnion y) : IsUnion x := by
  cases y with
  | union ys =>
    obtain ⟨xs, rfl, -⟩ := canonical_eq_union h.symm
    trivial
  | _ => exact hy.elim

lemma canonical_attributedAll (t : Ty) (as : List TypeAttributes) :
    (attributedAll t as).canonical =
      attributedAll t.canonical (as.map canonical) := by
  induction as generalizing t with
  | nil => rfl
  | cons a as ih =>
    have hs : attributedAll t (a :: as) = attributedAll (.attributed a t) as := rfl
    rw [hs, ih]
    rfl

lemma exists_mem_canonical {xs ys : List Ty} (h : xs.map Ty.canonical = ys.map Ty.canonical)
    {y : Ty} (hy : y ∈ ys) : ∃ x ∈ xs, x.canonical = y.canonical := by
  have hmem := mem_map_of_mem (f := Ty.canonical) hy
  rw [← h] at hmem
  exact mem_map.mp hmem

lemma Derives.congr {n : Nat} {s t s' t' : Ty} (h : Derives env n s t)
    (hs : s.canonical = s'.canonical) (ht : t.canonical = t'.canonical) : Derives env n s' t' := by
  induction n generalizing s t s' t' with
  | zero => exact h.elim
  | succ n ih =>
    cases h with
    | unionLeft head two members =>
      obtain ⟨h', as', hh, hx, has⟩ := head.congr hs
      obtain ⟨xs', rfl, hxs⟩ := canonical_eq_union hx
      have hlen := congrArg List.length hxs
      rw [length_map, length_map] at hlen
      refine .unionLeft hh (by omega) ?_
      intro x' hx'
      obtain ⟨x, hx, heq⟩ := exists_mem_canonical hxs hx'
      apply ih (members x hx) _ ht
      rw [canonical_attributedAll, canonical_attributedAll, heq, has]
    | unionRight left leaf right two member below =>
      obtain ⟨x', as', hlt, hx, -⟩ := left.congr hs
      obtain ⟨h', bs', hrt, hy, hbs⟩ := right.congr ht
      obtain ⟨ys', rfl, hys⟩ := canonical_eq_union hy
      have hlen := congrArg List.length hys
      rw [length_map, length_map] at hlen
      obtain ⟨y', hy', heq⟩ := exists_mem_canonical hys.symm member
      refine .unionRight hlt (fun h => leaf (isUnion_congr hx h)) hrt (by omega) hy' ?_
      apply ih below hs
      rw [canonical_attributedAll, canonical_attributedAll, heq, hbs]
    | equal left right leaf leaf' entails eq =>
      obtain ⟨x', as', hlt, hx, has⟩ := left.congr hs
      obtain ⟨y', bs', hrt, hy, hbs⟩ := right.congr ht
      exact .equal hlt hrt (fun h => leaf (isUnion_congr hx h))
        (fun h => leaf' (isUnion_congr hy h)) (entails.congr has hbs)
        (hx.symm.trans (eq.trans hy))
    | heads left right entails related =>
      obtain ⟨x', as', hlt, hx, has⟩ := left.congr hs
      obtain ⟨y', bs', hrt, hy, hbs⟩ := right.congr ht
      exact .heads hlt hrt (entails.congr has hbs)
        (related.congr hx hy fun s t s' t' => ih)

lemma Derives.trans {m n : Nat} {s t u : Ty} (h : Derives env m s t) (h' : Derives env n t u) :
    Derives env (m + n) s u := by
  induction hk : m + n using Nat.strong_induction_on generalizing m n s t u with
  | _ k ih =>
    subst hk
    obtain _ | m := m
    · exact h.elim
    obtain _ | n := n
    · exact h'.elim
    -- the composition of derivations of smaller heights
    have compose : ∀ {a b : Nat} {s t u : Ty}, a + b ≤ m + 1 + n → Derives env a s t →
        Derives env b t u → Derives env (m + 1 + n) s u := by
      intro a b s t u hle hst htu
      exact (ih (a + b) (by omega) hst htu rfl).mono hle
    have hst : Derives env (m + 1) s t := h
    have hm : m ≤ m + 1 + n := by omega
    have hn : n ≤ m + 1 + n := by omega
    cases h with
    | unionLeft head two members =>
      exact .unionLeft head two fun x hx => compose (by omega) (members x hx) h'
    | unionRight left leaf right two member below =>
      cases h' with
      | unionLeft head two members =>
        obtain ⟨hun, rfl⟩ := right.unique head
        obtain rfl := Ty.union.inj hun
        have hsu := compose (by omega) below (members _ member)
        exact hsu.mono (by omega)
      | unionRight left' leaf' | equal left' _ leaf' =>
        obtain ⟨rfl, -⟩ := right.unique left'
        exact absurd trivial leaf'
      | heads left' _ _ related =>
        obtain ⟨rfl, -⟩ := right.unique left'
        exact absurd trivial related.leaf_left
    | equal left right leaf leaf' entails eq =>
      cases h' with
      | unionLeft head =>
        obtain ⟨rfl, -⟩ := right.unique head
        exact absurd trivial leaf'
      | unionRight _ _ right' two member below =>
        exact .unionRight left leaf right' two member (compose (by omega) hst below)
      | equal left' right' _ leaf'' entails' eq' =>
        obtain ⟨rfl, rfl⟩ := right.unique left'
        exact .equal left right' leaf leaf'' (entails.trans entails') (eq.trans eq')
      | heads left' right' entails' related =>
        obtain ⟨rfl, rfl⟩ := right.unique left'
        refine .heads left right' (entails.trans entails') ?_
        apply related.congr eq.symm rfl
        intro a b a' b' hab ha hb
        exact (hab.congr ha hb).mono hn
    | heads left right entails related =>
      cases h' with
      | unionLeft head =>
        obtain ⟨rfl, -⟩ := right.unique head
        exact absurd trivial related.leaf_right
      | unionRight _ _ right' two member below =>
        exact .unionRight left related.leaf_left right' two member
          (compose (by omega) hst below)
      | equal left' right' _ _ entails' eq =>
        obtain ⟨rfl, rfl⟩ := right.unique left'
        refine .heads left right' (entails.trans entails') ?_
        apply related.congr rfl eq
        intro a b a' b' hab ha hb
        exact (hab.congr ha hb).mono hm
      | heads left' right' entails' related' =>
        obtain ⟨rfl, rfl⟩ := right.unique left'
        refine .heads left right' (entails.trans entails') ?_
        exact related.trans related' (fun a b c hab hbc => compose (by omega) hab hbc)
          fun a b c hab hbc => compose (by omega) hab hbc

end Derivations

end Morphir.Typing
