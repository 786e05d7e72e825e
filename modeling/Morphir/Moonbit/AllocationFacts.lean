import Morphir.Library.CodeUnits
import Morphir.Library.Numbered
import Morphir.Moonbit.Allocation

/-!
# The order of texts

Texts are ordered by their length first and by their code units second.  The order
is linear, so sorted lists are determined by their elements.
-/

namespace Morphir

open List

lemma compareUnits_eq (as bs : List Nat) : compareUnits as bs = List.compareLex compare as bs := by
  induction as generalizing bs with
  | nil => cases bs <;> rfl
  | cons a as ih =>
    cases bs with
    | nil => rfl
    | cons b bs => rw [compareUnits, ih, List.compareLex_cons_cons]

lemma compareText_eq : compareText =
    compareLex (compareOn fun text => (codeUnits text).length)
      (fun a b => List.compareLex compare (codeUnits a) (codeUnits b)) := by
  funext a b
  rw [compareText, compareUnits_eq]
  rfl

instance : Std.TransCmp fun a b => List.compareLex compare (codeUnits a) (codeUnits b) where
  eq_swap {a b} := @Std.OrientedCmp.eq_swap _ (List.compareLex (compare : Nat → Nat → Ordering)) _
    (codeUnits a) (codeUnits b)
  isLE_trans {a b c} := @Std.TransCmp.isLE_trans _
    (List.compareLex (compare : Nat → Nat → Ordering)) _ (codeUnits a) (codeUnits b) (codeUnits c)

instance : Std.TransCmp compareText := by
  rw [compareText_eq]
  infer_instance

def unitsOf (c : Char) : List Nat :=
  if c.toNat < 0x10000 then [c.toNat]
  else [0xD800 + (c.toNat - 0x10000) / 0x400, 0xDC00 + (c.toNat - 0x10000) % 0x400]

lemma codeUnits_eq (text : String) : codeUnits text = text.toList.flatMap unitsOf := rfl

lemma flatMap_unitsOf_inj {as bs : List Char} (h : as.flatMap unitsOf = bs.flatMap unitsOf) :
    as = bs := CodeUnits.ofChars_injective h

lemma compareText_eq_eq {a b : String} (h : compareText a b = .eq) : a = b := by
  rw [compareText_eq, compareLex, Ordering.then_eq_eq] at h
  have hus := Std.LawfulEqCmp.eq_of_compare h.2
  exact String.toList_inj.mp (flatMap_unitsOf_inj hus)

def TextLE (a b : String) : Prop := (compareText a b).isLE = true

instance : DecidableRel TextLE := fun _ _ => inferInstanceAs (Decidable (_ = true))

lemma TextLE.trans {a b c : String} (h : TextLE a b) (h' : TextLE b c) : TextLE a c :=
  Std.TransCmp.isLE_trans h h'

lemma compareText_swap (a b : String) : compareText b a = (compareText a b).swap :=
  Std.OrientedCmp.eq_swap

lemma TextLE.total (a b : String) : TextLE a b ∨ TextLE b a := by
  unfold TextLE
  rw [compareText_swap a b]
  cases compareText a b <;> simp

lemma TextLE.antisymm {a b : String} (h : TextLE a b) (h' : TextLE b a) : a = b := by
  unfold TextLE at h h'
  rw [compareText_swap a b] at h'
  apply compareText_eq_eq
  revert h h'
  cases compareText a b <;> simp

lemma insertionSort_perm {α : Type} {key : α → String} {l l' : List α} (h : l.Perm l')
    (hks : (l.map key).Nodup) :
    l.insertionSort (fun a b => (compareText (key a) (key b)).isLE = true) =
      l'.insertionSort (fun a b => (compareText (key a) (key b)).isLE = true) := by
  have : Std.Total fun a b : α => (compareText (key a) (key b)).isLE = true :=
    ⟨fun a b => TextLE.total (key a) (key b)⟩
  have : IsTrans α fun a b : α => (compareText (key a) (key b)).isLE = true :=
    ⟨fun _ _ _ h h' => TextLE.trans h h'⟩
  refine List.Perm.eq_of_pairwise (fun a b ha hb hab hba => ?_) (pairwise_insertionSort _ l)
    (pairwise_insertionSort _ l')
    (((perm_insertionSort _ l).trans h).trans (perm_insertionSort _ l').symm)
  rw [mem_insertionSort] at ha hb
  exact inj_on_of_nodup_map hks ha (h.mem_iff.mpr hb) (TextLE.antisymm hab hba)

end Morphir

/-!
## What an allocation guarantees

A name is chosen among those that are not used, so names are distinct and none is
blocked.  The search for it ends, and the result does not depend on the order of the
candidates.
-/

namespace Morphir.Moonbit

open FreshSearch List Option

lemma nextSuffix_iterate {token : List Char} {bytes : Nat} (h : token.length ≤ bytes * 2)
    (number k : Nat) : (nextSuffix token)^[k] (bytes, number) = (bytes, number + k) := by
  induction k with
  | zero => rfl
  | succ k ih =>
    rw [Function.iterate_succ_apply', ih, nextSuffix, if_neg (by omega)]
    rfl

lemma nextSuffix_reaches (token : List Char) (bytes number : Nat) :
    ∃ k bytes' number', (nextSuffix token)^[k] (bytes, number) = (bytes', number') ∧
      token.length ≤ bytes' * 2 := by
  induction hlt : token.length - bytes * 2 using Nat.strongRecOn generalizing bytes with
  | _ left ih =>
    by_cases hm : bytes * 2 < token.length
    · obtain ⟨k, bytes', number', hk, hend⟩ := ih _ (by omega) (bytes + 1) rfl
      refine ⟨k + 1, bytes', number', ?_, hend⟩
      rw [Function.iterate_succ_apply, nextSuffix, if_pos hm]
      exact hk
    · exact ⟨0, bytes, number, rfl, by omega⟩

lemma numberText_inj {sep : String} {m n : Nat}
    (h : (if m = 0 then "" else sep ++ toString m) = if n = 0 then "" else sep ++ toString n) :
    m = n := by
  have hne (k : Nat) : sep ++ toString k ≠ "" := by
    intro heq
    have hli := congrArg String.toList heq
    rw [String.toList_append] at hli
    exact Nat.toDigits_ne_nil ((String.toList_ofList).symm.trans (append_eq_nil_iff.mp hli).2)
  split at h <;> split at h
  · omega
  · exact absurd h.symm (hne n)
  · exact absurd h (hne m)
  · exact Numbered.toString_injective ((String.append_right_inj _).mp h)

lemma exists_suffix {spell : Suffix → String} (token : List Char)
    (hinj : ∀ bytes, Function.Injective fun number => spell (bytes, number)) (taken : String → Bool)
    (avoid : Finset String) (htaken : ∀ text, taken text = true → text ∈ avoid) :
    ∃ fuel text, ∀ fuel', fuel ≤ fuel' →
      search spell (nextSuffix token) taken fuel' (firstSuffix token) = some text := by
  obtain ⟨start, bytes, number, hsta, hend⟩ :=
    nextSuffix_reaches token (firstSuffix token).1 (firstSuffix token).2
  refine exists_search avoid htaken start fun k k' heq => ?_
  have hst (k : Nat) : (nextSuffix token)^[start + k] (firstSuffix token) =
      (bytes, number + k) := by
    rw [Nat.add_comm start k, Function.iterate_add_apply]
    rw [hsta]
    exact nextSuffix_iterate hend number k
  dsimp only at heq
  rw [hst, hst] at heq
  exact Nat.add_left_cancel (hinj bytes heq)

lemma spellSuffix_injective (base : String) (token : List Char) (bytes : Nat) :
    Function.Injective fun number => spellSuffix base token (bytes, number) :=
  fun _ _ heq => numberText_inj ((String.append_right_inj _).mp heq)

namespace Namespace

variable {scope : Namespace} {fuel : Nat} {used : Finset String} {c : NamingCandidate}
  {text : String}

lemma choose_spec (h : scope.choose fuel used c = some text) :
    text ∉ used ∧ (text = scope.wanted c ∨
      ∃ suffix, text = spellSuffix (scope.wanted c) (hexChars c.owner) suffix) := by
  unfold choose at h
  dsimp only at h
  split at h
  · obtain ⟨hf, k, hk⟩ := search_spec h
    rw [decide_eq_false_iff_not, not_or] at hf
    exact ⟨hf.2, .inr ⟨_, hk⟩⟩
  · rename_i hf
    cases h
    exact ⟨fun hu => hf (.inl hu), .inl rfl⟩

lemma exists_choose (scope : Namespace) (used : Finset String) (c : NamingCandidate) :
    ∃ fuel text, ∀ fuel', fuel ≤ fuel' → scope.choose fuel' used c = some text := by
  unfold choose
  dsimp only
  split
  · apply exists_suffix _ (spellSuffix_injective _ _) _ (scope.reserved ∪ used)
    intro text htaken
    rw [Finset.mem_union]
    exact of_decide_eq_true htaken
  · exact ⟨0, _, fun _ _ => rfl⟩

lemma allocate_names {reserveGlobal : Bool} {cs : List NamingCandidate} {plan plan' : TargetNames}
    (hnd : (cs.map NamingCandidate.owner).Nodup)
    (h : scope.allocate fuel reserveGlobal cs used plan = some plan') :
    (∀ c ∈ cs, ∃ text used', scope.choose fuel used' c = some text ∧ text ∉ used ∧
      plan'.names c.owner = some text) ∧
    cs.Pairwise (fun c c' => plan'.names c.owner ≠ plan'.names c'.owner) ∧
    ∀ owner, owner ∉ cs.map NamingCandidate.owner → plan'.names owner = plan.names owner := by
  induction cs generalizing used plan with
  | nil =>
    cases h
    exact ⟨by simp, .nil, fun _ _ => rfl⟩
  | cons c cs ih =>
    obtain ⟨allocated, hcho, hr⟩ := bind_eq_some_iff.mp h
    rw [map_cons, nodup_cons] at hnd
    obtain ⟨hall, hpai, hfm⟩ := ih hnd.2 hr
    have hsf : plan'.names c.owner = some allocated := by
      rw [hfm c.owner hnd.1]
      exact Function.update_self ..
    refine ⟨fun c' hc' => ?_, ?_, fun owner howner => ?_⟩
    · rcases mem_cons.mp hc' with rfl | hc'
      · exact ⟨allocated, used, hcho, (choose_spec hcho).1, hsf⟩
      · obtain ⟨text, used', ht, hf, hname⟩ := hall c' hc'
        exact ⟨text, used', ht, fun hmem => hf (Finset.mem_insert_of_mem hmem), hname⟩
    · refine pairwise_cons.mpr ⟨fun c' hc' => ?_, hpai⟩
      obtain ⟨text, _, _, hf, hname⟩ := hall c' hc'
      rw [hsf, hname]
      intro heq
      exact hf (Option.some.inj heq ▸ Finset.mem_insert_self ..)
    · rw [map_cons, mem_cons, not_or] at howner
      rw [hfm owner howner.2]
      exact Function.update_of_ne howner.1 ..

lemma exists_allocate (scope : Namespace) (reserveGlobal : Bool) (cs : List NamingCandidate)
    (used : Finset String) (plan : TargetNames) :
    ∃ fuel plan', ∀ fuel', fuel ≤ fuel' →
      scope.allocate fuel' reserveGlobal cs used plan = some plan' := by
  induction cs generalizing used plan with
  | nil => exact ⟨0, plan, fun _ _ => rfl⟩
  | cons c cs ih =>
    obtain ⟨fuel, text, ht⟩ := exists_choose scope used c
    obtain ⟨fuel', plan', hplan'⟩ := ih (insert text used) (plan.record reserveGlobal c text
      (if scope.collision c then "namespace-collision" else c.reason))
    refine ⟨max fuel fuel', plan', fun fuel'' hle => ?_⟩
    rw [allocate, ht fuel'' (le_trans (le_max_left ..) hle)]
    exact hplan' fuel'' (le_trans (le_max_right ..) hle)

lemma warn_names (cs : List NamingCandidate) (emitted : List String) (plan : TargetNames) :
    (scope.warn cs emitted plan).names = plan.names := by
  induction cs generalizing emitted plan with
  | nil => rfl
  | cons c cs ih =>
    rw [warn]
    split <;> split <;> exact ih _ _

end Namespace

variable {reserveGlobal : Bool}

lemma foldl_honour_names {cs : List NamingCandidate} (hnd : (cs.map NamingCandidate.owner).Nodup)
    (plan : TargetNames) :
    (∀ c ∈ cs, ∀ name, c.requested = some name →
      (cs.foldl (honour reserveGlobal) plan).names c.owner = some name) ∧
    ∀ owner, owner ∉ cs.map NamingCandidate.owner →
      (cs.foldl (honour reserveGlobal) plan).names owner = plan.names owner := by
  induction cs generalizing plan with
  | nil => exact ⟨by simp, fun _ _ => rfl⟩
  | cons c cs ih =>
    rw [map_cons, nodup_cons] at hnd
    obtain ⟨hall, hfm⟩ := ih hnd.2 (honour reserveGlobal plan c)
    refine ⟨fun c' hc' name hname => ?_, fun owner howner => ?_⟩
    · rcases mem_cons.mp hc' with rfl | hc'
      · rw [foldl_cons, hfm _ hnd.1, honour, hname]
        exact Function.update_self ..
      · exact hall c' hc' name hname
    · rw [map_cons, mem_cons, not_or] at howner
      rw [foldl_cons, hfm owner howner.2, honour]
      split
      · exact Function.update_of_ne howner.1 ..
      · rfl

/-- What the callers of `allocateNamespace` see to: owners are distinct, requests are
distinct, not blocked and portable, and the spellings are portable. -/
structure Wellformed (upper : Bool) (candidates : List NamingCandidate) (blocked : Finset String) :
    Prop where
  owners : (candidates.map NamingCandidate.owner).Nodup
  requests : (candidates.filterMap NamingCandidate.requested).Nodup
  unblocked : ∀ c ∈ candidates, ∀ name, c.requested = some name → name ∉ blocked
  requested : ∀ c ∈ candidates, ∀ name, c.requested = some name → Portable upper name
  candidate : ∀ c ∈ candidates, c.requested = none → Portable upper c.candidate
  qualified : ∀ c ∈ candidates, c.requested = none → Portable upper c.qualified

lemma mem_hexDigits {text : String} {c : Char} (h : c ∈ hexChars text) : c ∈ hexDigits := by
  have hdig (i : Nat) : hexDigits.getD i '0' ∈ hexDigits := by
    rw [getD_eq_getElem?_getD]
    cases hget : hexDigits[i]? with
    | none => exact mem_cons_self
    | some c => exact mem_of_getElem? hget
  obtain ⟨byte, -, hbyte⟩ := mem_flatMap.mp h
  simp only [hexByte, mem_cons, not_mem_nil, or_false] at hbyte
  rcases hbyte with rfl | rfl
  · exact hdig _
  · exact hdig _

lemma isIdentifier_hexChars (text : String) : ∀ c ∈ hexChars text, isIdentifier c = true := by
  have hall : hexDigits.all isIdentifier = true := rfl
  exact fun c hc => all_eq_true.mp hall c (mem_hexDigits hc)

lemma isIdentifier_of_isDigit {c : Char} (h : c.isDigit = true) : isIdentifier c = true := by
  have hdig : isDigit c = true := by
    simp only [Char.isDigit, Bool.and_eq_true, decide_eq_true_eq] at h
    exact decide_eq_true h
  simp [isIdentifier, hdig]

lemma isIdentifier_toString (n : Nat) : ∀ c ∈ (toString n).toList, isIdentifier c = true := by
  intro c hc
  rw [show (toString n).toList = Nat.toDigits 10 n by simp] at hc
  exact isIdentifier_of_isDigit (Nat.isDigit_of_mem_toDigits (by decide) (by decide) hc)

variable {upper : Bool}

lemma portable_spellSuffix {base : String} (h : Portable upper base) (owner : String)
    (suffix : Suffix) : Portable upper (spellSuffix base (hexChars owner) suffix) := by
  obtain ⟨bytes, number⟩ := suffix
  let rest := (hexChars owner).take (bytes * 2) ++
    (if number = 0 then "" else "_" ++ toString number).toList
  have hr : ∀ c ∈ rest, isIdentifier c = true := by
    intro c hc
    rcases mem_append.mp hc with hc | hc
    · exact isIdentifier_hexChars owner c (mem_of_mem_take hc)
    · split at hc
      · simp at hc
      · rw [String.toList_append] at hc
        rcases mem_append.mp hc with hc | hc
        · obtain rfl := mem_singleton.mp hc
          decide
        · exact isIdentifier_toString number c hc
  have hspe : spellSuffix base (hexChars owner) (bytes, number) =
      base ++ String.ofList ("_source_".toList ++ rest) := by
    apply String.toList_inj.mp
    simp [spellSuffix, rest]
  have hcnt (word : String) (hw : word.toList.count '_' < 2) :
      base ++ String.ofList ("_source_".toList ++ rest) ≠ word := by
    rintro rfl
    have htwo : "_source_".toList.count '_' = 2 := by decide
    rw [String.toList_append, String.toList_ofList, count_append, count_append]
      at hw
    omega
  have hbk : (String.ofList ("_source_".toList ++ rest)).toList =
      '_' :: ("source_".toList ++ rest) := by
    rw [String.toList_ofList]
    rfl
  rw [hspe]
  refine portable_append h.usable hbk ?_ (hcnt _ (by decide)) (hcnt _ (by decide))
  · intro c hc
    rcases mem_append.mp hc with hc | hc
    · have hall : ∀ c ∈ "source_".toList, isIdentifier c = true :=
        all_eq_true.mp (by decide)
      exact hall c hc
    · exact hr c hc

variable {candidates : List NamingCandidate} {blocked : Finset String}

lemma portable_wanted (hw : Wellformed upper candidates blocked) (hc : c ∈ candidates)
    (hno : c.requested = none) (scope : Namespace) : Portable upper (scope.wanted c) := by
  unfold Namespace.wanted
  split
  · exact hw.qualified c hc hno
  · exact hw.candidate c hc hno

lemma mem_namespaceOf :
    c ∈ (namespaceOf candidates blocked).candidates ↔ c ∈ candidates ∧ c.requested = none := by
  rw [namespaceOf, sortByOwner, mem_insertionSort, mem_filter, isNone_iff_eq_none]

variable {c c' : NamingCandidate}

section

variable (hw : Wellformed upper candidates blocked)

include hw

lemma Wellformed.eq_of_owner (hc : c ∈ candidates) (hc' : c' ∈ candidates) (h : c.owner = c'.owner)
    : c = c' :=
  inj_on_of_nodup_map hw.owners hc hc' h

lemma Wellformed.nodup_namespaceOf :
    ((namespaceOf candidates blocked).candidates.map NamingCandidate.owner).Nodup := by
  have hfil := hw.owners.sublist
    (.map NamingCandidate.owner (filter_sublist (p := fun c => c.requested.isNone)))
  exact (((perm_insertionSort _ _).map NamingCandidate.owner).nodup_iff).mpr hfil

lemma Wellformed.ne_of_requested (hc : c ∈ candidates) (hc' : c' ∈ candidates) (hne : c ≠ c')
    {name : String} (hname : c.requested = some name) : c'.requested ≠ some name := by
  have hpai := pairwise_filterMap.mp hw.requests
  have hsymm : Std.Symm fun c c' : NamingCandidate => ∀ b, c.requested = some b →
      ∀ b', c'.requested = some b' → b ≠ b' :=
    ⟨fun _ _ h b hb b' hb' => (h b' hb' b hb).symm⟩
  intro hname'
  exact hpai.forall hc hc' hne name hname name hname' rfl

end

variable {fuel : Nat}

lemma allocateNamespace_names (hw : Wellformed upper candidates blocked) {plan plan' : TargetNames}
    (h : allocateNamespace fuel plan candidates blocked reserveGlobal = some plan') :
    (∀ c ∈ candidates, ∃ name, plan'.names c.owner = some name ∧ name ∉ blocked ∧
      Portable upper name ∧ ∀ request, c.requested = some request → name = request) ∧
    candidates.Pairwise (fun c c' => plan'.names c.owner ≠ plan'.names c'.owner) ∧
    ∀ owner, owner ∉ candidates.map NamingCandidate.owner →
      plan'.names owner = plan.names owner := by
  obtain ⟨planA, halloc, hwarn⟩ := bind_eq_some_iff.mp h
  have hns : plan'.names = planA.names := by
    rw [← Option.some.inj hwarn]
    exact Namespace.warn_names _ _ _
  obtain ⟨hhon, hk⟩ := @foldl_honour_names reserveGlobal _ hw.owners plan
  obtain ⟨hchosen, hpai, hfm⟩ := Namespace.allocate_names hw.nodup_namespaceOf halloc
  -- a candidate with a request keeps the name it got first
  have hrqd (c : NamingCandidate) (hc : c ∈ candidates) (name : String)
      (hname : c.requested = some name) : plan'.names c.owner = some name := by
    rw [hns, hfm c.owner, hhon c hc name hname]
    intro hmem
    obtain ⟨c', hc', howner⟩ := mem_map.mp hmem
    obtain ⟨hc', hno⟩ := mem_namespaceOf.mp hc'
    rw [hw.eq_of_owner hc' hc howner, hname] at hno
    cases hno
  have hf (c : NamingCandidate) (hc : c ∈ candidates) (hno : c.requested = none) :
      ∃ name, plan'.names c.owner = some name ∧ name ∉ (namespaceOf candidates blocked).blocked ∧
        Portable upper name := by
    obtain ⟨text, used, hchoose, hf, hname⟩ := hchosen c (mem_namespaceOf.mpr ⟨hc, hno⟩)
    refine ⟨text, hns ▸ hname, hf, ?_⟩
    have hwan := portable_wanted hw hc hno (namespaceOf candidates blocked)
    rcases (Namespace.choose_spec hchoose).2 with rfl | ⟨suffix, rfl⟩
    · exact hwan
    · exact portable_spellSuffix hwan c.owner suffix
  have hmem (c : NamingCandidate) (hc : c ∈ candidates) (name : String)
      (hname : c.requested = some name) : name ∈ (namespaceOf candidates blocked).blocked :=
    Finset.mem_union_right _ (mem_toFinset.mpr (mem_filterMap.mpr ⟨c, hc, hname⟩))
  refine ⟨fun c hc => ?_, ?_, fun owner howner => ?_⟩
  · cases hreq : c.requested with
    | some name =>
      exact ⟨name, hrqd c hc name hreq, hw.unblocked c hc name hreq,
        hw.requested c hc name hreq, fun request heq => Option.some.inj heq⟩
    | none =>
      obtain ⟨name, hname, hblo, hpor⟩ := hf c hc hreq
      exact ⟨name, hname, fun hb => hblo (Finset.mem_union_left _ hb), hpor, nofun⟩
  · have hnd : candidates.Nodup := hw.owners.of_map
    refine hnd.pairwise_of_forall_ne fun c hc c' hc' hne => ?_
    cases hreq : c.requested with
    | some name =>
      rw [hrqd c hc name hreq]
      cases hreq' : c'.requested with
      | some name' =>
        rw [hrqd c' hc' name' hreq']
        intro heq
        refine hw.ne_of_requested hc hc' hne hreq ?_
        rw [hreq', heq]
      | none =>
        obtain ⟨name', hname', hblo, -⟩ := hf c' hc' hreq'
        rw [hname']
        intro heq
        exact hblo (Option.some.inj heq ▸ hmem c hc name hreq)
    | none =>
      obtain ⟨name, hname, hblo, -⟩ := hf c hc hreq
      cases hreq' : c'.requested with
      | some name' =>
        rw [hrqd c' hc' name' hreq', hname]
        intro heq
        exact hblo (Option.some.inj heq ▸ hmem c' hc' name' hreq')
      | none =>
        rw [hns]
        have hsymm : Std.Symm fun c c' : NamingCandidate =>
            planA.names c.owner ≠ planA.names c'.owner := ⟨fun _ _ h => h.symm⟩
        exact hpai.forall (mem_namespaceOf.mpr ⟨hc, hreq⟩)
          (mem_namespaceOf.mpr ⟨hc', hreq'⟩) hne
  · rw [hns, hfm owner, hk owner howner]
    intro hmem
    obtain ⟨c, hc, rfl⟩ := mem_map.mp hmem
    exact howner (mem_map_of_mem (mem_namespaceOf.mp hc).1)

structure Alike (plan plan' : TargetNames) : Prop where
  style : plan.style = plan'.style
  names : plan.names = plan'.names
  fields : plan.fields = plan'.fields
  reserved : plan.reserved = plan'.reserved
  reservedLocations : plan.reservedLocations = plan'.reservedLocations
  allocations : plan.allocations.Perm plan'.allocations
  warnings : plan.warnings = plan'.warnings

namespace Alike

variable {plan plan' plan'' : TargetNames} {reserveGlobal : Bool}

lemma refl (plan : TargetNames) : Alike plan plan := ⟨rfl, rfl, rfl, rfl, rfl, .refl _, rfl⟩

section

variable (h : Alike plan plan')

include h

lemma trans (h' : Alike plan' plan'') : Alike plan plan'' :=
  ⟨h.style.trans h'.style, h.names.trans h'.names, h.fields.trans h'.fields,
    h.reserved.trans h'.reserved, h.reservedLocations.trans h'.reservedLocations,
    h.allocations.trans h'.allocations, h.warnings.trans h'.warnings⟩

lemma record (c : NamingCandidate) (allocated reason : String) :
    Alike (plan.record reserveGlobal c allocated reason)
      (plan'.record reserveGlobal c allocated reason) := by
  refine ⟨h.style, ?_, h.fields, ?_, ?_, h.allocations.append (.refl _), h.warnings⟩
  · simp only [TargetNames.record, h.names]
  · simp only [TargetNames.record, h.reserved]
  · simp only [TargetNames.record, h.reservedLocations]

lemma honour (c : NamingCandidate) :
    Alike (honour reserveGlobal plan c) (honour reserveGlobal plan' c) := by
  unfold Moonbit.honour
  split
  · exact h.record c _ _
  · exact h

lemma foldl_honour (cs : List NamingCandidate) :
    Alike (cs.foldl (Moonbit.honour reserveGlobal) plan)
      (cs.foldl (Moonbit.honour reserveGlobal) plan') := by
  induction cs generalizing plan plan' with
  | nil => exact h
  | cons c cs ih => exact ih (h.honour c)

end

lemma record_comm (plan : TargetNames) (howner : c.owner ≠ c'.owner) {name name' : String}
    (hname : name ≠ name') (reason reason' : String) :
    Alike ((plan.record reserveGlobal c name reason).record reserveGlobal c' name' reason')
      ((plan.record reserveGlobal c' name' reason').record reserveGlobal c name reason) := by
  refine ⟨rfl, ?_, rfl, ?_, ?_, ?_, rfl⟩
  · exact Function.update_comm howner _ _ _
  · cases reserveGlobal with
    | true => exact Finset.insert_comm ..
    | false => rfl
  · cases reserveGlobal with
    | true =>
      simp only [TargetNames.record, if_true]
      rw [Function.update_of_ne hname.symm, Function.update_of_ne hname]
      exact Function.update_comm hname _ _ _
    | false => rfl
  · simp only [TargetNames.record, append_assoc]
    exact .append_left _ (.swap ..)

lemma honour_comm (plan : TargetNames) (howner : c.owner ≠ c'.owner)
    (hreq : ∀ name, c.requested = some name → c'.requested ≠ some name) :
    Alike (Moonbit.honour reserveGlobal (Moonbit.honour reserveGlobal plan c) c')
      (Moonbit.honour reserveGlobal (Moonbit.honour reserveGlobal plan c') c) := by
  unfold Moonbit.honour
  cases hname : c.requested with
  | none => exact .refl _
  | some name =>
    cases hname' : c'.requested with
    | none => exact .refl _
    | some name' =>
      refine record_comm plan howner ?_ _ _
      rintro rfl
      exact hreq name hname hname'

def Apart (c c' : NamingCandidate) : Prop :=
  c.owner ≠ c'.owner ∧ ∀ name, c.requested = some name → c'.requested ≠ some name

lemma foldl_honour_perm {cs cs' : List NamingCandidate} (hpm : cs.Perm cs')
    (hap : cs.Pairwise Apart) (plan : TargetNames) :
    Alike (cs.foldl (Moonbit.honour reserveGlobal) plan)
      (cs'.foldl (Moonbit.honour reserveGlobal) plan) := by
  have hsymm {c c' : NamingCandidate} (h : Apart c c') : Apart c' c :=
    ⟨h.1.symm, fun name hname hname' => h.2 name hname' hname⟩
  induction hpm generalizing plan with
  | nil => exact .refl _
  | cons c _ ih => exact ih (pairwise_cons.mp hap).2 (Moonbit.honour reserveGlobal plan c)
  | swap c c' cs =>
    have hpr := (pairwise_cons.mp hap).1 c (mem_cons_self ..)
    exact (honour_comm plan hpr.1 hpr.2).foldl_honour cs
  | trans h _ ih ih' => exact (ih hap plan).trans (ih' ((h.pairwise_iff hsymm).mp hap) plan)

variable {scope : Namespace}

lemma allocate {cs : List NamingCandidate} {used : Finset String} (h : Alike plan plan')
    {result : TargetNames} (hres : scope.allocate fuel reserveGlobal cs used plan = some result) :
    ∃ result', scope.allocate fuel reserveGlobal cs used plan' = some result' ∧
      Alike result result' := by
  induction cs generalizing used plan plan' with
  | nil =>
    cases hres
    exact ⟨plan', rfl, h⟩
  | cons c cs ih =>
    obtain ⟨allocated, hcho, hr⟩ := bind_eq_some_iff.mp hres
    obtain ⟨result', hres', hal⟩ := ih (h.record c allocated _) hr
    refine ⟨result', ?_, hal⟩
    rw [Namespace.allocate, hcho]
    exact hres'

lemma warning (h : Alike plan plan') (c : NamingCandidate) :
    scope.warning plan c = scope.warning plan' c := by
  unfold Namespace.warning
  rw [h.names, h.reservedLocations]

lemma warn (h : Alike plan plan') (cs : List NamingCandidate) (emitted : List String) :
    Alike (scope.warn cs emitted plan) (scope.warn cs emitted plan') := by
  induction cs generalizing emitted plan plan' with
  | nil => exact h
  | cons c cs ih =>
    have hwar : Alike { plan with warnings := plan.warnings ++ [scope.warning plan c] }
        { plan' with warnings := plan'.warnings ++ [scope.warning plan' c] } :=
      ⟨h.style, h.names, h.fields, h.reserved, h.reservedLocations, h.allocations,
        by rw [h.warnings, h.warning]⟩
    rw [Namespace.warn, Namespace.warn]
    split <;> split
    · exact ih hwar _
    · exact ih h _
    · exact ih hwar _
    · exact ih h _

end Alike

lemma Wellformed.apart (hw : Wellformed upper candidates blocked) :
    candidates.Pairwise Alike.Apart := by
  refine hw.owners.of_map.pairwise_of_forall_ne fun c hc c' hc' hne => ⟨fun howner => ?_, ?_⟩
  · exact hne (hw.eq_of_owner hc hc' howner)
  · exact fun name hname => hw.ne_of_requested hc hc' hne hname

variable {candidates' : List NamingCandidate}

lemma namespaceOf_perm (hpm : candidates.Perm candidates')
    (hown : (candidates.map NamingCandidate.owner).Nodup) :
    namespaceOf candidates blocked = namespaceOf candidates' blocked := by
  have hfil := hown.sublist
    (.map NamingCandidate.owner (filter_sublist (p := fun c => c.requested.isNone)))
  unfold namespaceOf
  congr 1
  · exact insertionSort_perm (hpm.filter _) hfil
  · rw [toFinset_eq_of_perm _ _ (hpm.filterMap NamingCandidate.requested)]

lemma allocateNamespace_eq {plan middle : TargetNames}
    (h : (namespaceOf candidates blocked).allocate fuel reserveGlobal
      (namespaceOf candidates blocked).candidates (namespaceOf candidates blocked).blocked
      (candidates.foldl (honour reserveGlobal) plan) = some middle) :
    allocateNamespace fuel plan candidates blocked reserveGlobal =
      some ((namespaceOf candidates blocked).warn (namespaceOf candidates blocked).candidates []
        middle) :=
  bind_eq_some_iff.mpr ⟨middle, h, rfl⟩

lemma allocateNamespace_perm (hw : Wellformed upper candidates blocked)
    (hpm : candidates.Perm candidates') {plan result : TargetNames}
    (h : allocateNamespace fuel plan candidates blocked reserveGlobal = some result) :
    ∃ result', allocateNamespace fuel plan candidates' blocked reserveGlobal = some result' ∧
      Alike result result' := by
  obtain ⟨middle, halloc, hwarn⟩ := bind_eq_some_iff.mp h
  cases hwarn
  have hhon := @Alike.foldl_honour_perm reserveGlobal _ _ hpm hw.apart plan
  obtain ⟨middle', halloc', hal⟩ := hhon.allocate halloc
  rw [namespaceOf_perm hpm hw.owners] at halloc' ⊢
  exact ⟨_, allocateNamespace_eq halloc', hal.warn _ _⟩

lemma exists_allocateNamespace (plan : TargetNames) (candidates : List NamingCandidate)
    (blocked : Finset String) (reserveGlobal : Bool) :
    ∃ fuel result, ∀ fuel', fuel ≤ fuel' →
      allocateNamespace fuel' plan candidates blocked reserveGlobal = some result := by
  obtain ⟨fuel, plan', hplan'⟩ := Namespace.exists_allocate (namespaceOf candidates blocked)
    reserveGlobal (namespaceOf candidates blocked).candidates
    (namespaceOf candidates blocked).blocked (candidates.foldl (honour reserveGlobal) plan)
  exact ⟨fuel, _, fun fuel' hle => allocateNamespace_eq (hplan' fuel' hle)⟩

end Morphir.Moonbit
