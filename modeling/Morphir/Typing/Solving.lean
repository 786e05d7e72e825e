import Morphir.Typing.CanonicalType
import Morphir.Typing.Relations

/-!
# The writes of a solver

A solver writes to its metavariables only: it adds one, changes the level and the classes
of an unbound one, binds one, and shortens the link of a bound one to what pruning finds.
Pruning follows links and flattens records whose tails are solved.
-/

namespace Morphir.Typing

open IR Relation

/-- A record of fields with an open tail; with no fields it is the tail itself. -/
def row (fields : List (String × Ty)) (tail : Ty) : Ty :=
  if fields.isEmpty then tail else .record fields (some tail)

/-- The fields, and after them those of `more` that have other names. -/
def mergeFields (fields more : List (String × Ty)) : List (String × Ty) :=
  fields ++ more.filter fun e => !OrdMap.contains fields e.1

/-- A type whose head no later write changes: no variable and no open record. -/
structure Final (t : Ty) : Prop where
  notVar : ∀ id, t ≠ .mvar id
  notOpen : ∀ fields tail, t ≠ .record fields (some tail)

namespace Solver

def pruneFrom (s : Solver) : Nat → Ty → Option Ty
  | 0, _ => none
  | fuel + 1, .mvar id =>
    match s.links id with
    | some target => s.pruneFrom fuel target
    | none => some (.mvar id)
  | fuel + 1, .record fields (some tail) =>
    match s.pruneFrom fuel tail with
    | some (.record more (some rest)) => some (row (mergeFields fields more) rest)
    | some (.record more none) => some (.record (mergeFields fields more) none)
    | some pruned => some (row fields pruned)
    | none => none
  | _ + 1, t => some t

def setMeta (s : Solver) (id : Nat) (state : MetaState) : Solver :=
  { s with metas := s.metas.set id state }

/-- One write.  The checks before a binding (occurrence, classes) only leave bindings out. -/
inductive Write (s : Solver) : Solver → Prop
  | fresh (level : Int) (classes : List String) :
      Write s { s with metas := s.metas ++ [.unbound level classes] }
  /-- `adjust_levels`, `merge` and the join of classes -/
  | adjust {id : Nat} {level : Int} {classes : List String} (level' : Int)
      (classes' : List String) (unbound : s.metas[id]? = some (.unbound level classes)) :
      Write s (s.setMeta id (.unbound level' classes'))
  | bind {id : Nat} {level : Int} {classes : List String} {t : Ty}
      (unbound : s.metas[id]? = some (.unbound level classes)) (distinct : t.Distinct) :
      Write s (s.setMeta id (.link t))
  | compress {id fuel : Nat} {t pruned : Ty} (link : s.metas[id]? = some (.link t))
      (prune : s.pruneFrom fuel t = some pruned) : Write s (s.setMeta id (.link pruned))

def Later : Solver → Solver → Prop := ReflTransGen Write

def Reachable (env : Env) (s : Solver) : Prop := Later (new env) s

inductive Prunes (s : Solver) : Ty → Ty → Prop
  | link {id : Nat} {target t : Ty} (link : s.links id = some target) (rest : Prunes s target t) :
      Prunes s (.mvar id) t
  | unbound {id : Nat} (unbound : s.links id = none) : Prunes s (.mvar id) (.mvar id)
  | «open» {fields more : List (String × Ty)} {tail rest : Ty}
      (found : Prunes s tail (.record more (some rest))) :
      Prunes s (.record fields (some tail)) (row (mergeFields fields more) rest)
  | closed {fields more : List (String × Ty)} {tail : Ty}
      (found : Prunes s tail (.record more none)) :
      Prunes s (.record fields (some tail)) (.record (mergeFields fields more) none)
  | tail {fields : List (String × Ty)} {tail pruned : Ty} (found : Prunes s tail pruned)
      (other : ∀ more rest, pruned ≠ .record more rest) :
      Prunes s (.record fields (some tail)) (row fields pruned)
  | final {t : Ty} (final : Final t) : Prunes s t t

lemma prunes_of_pruneFrom {s : Solver} (fuel : Nat) (t pruned : Ty)
    (h : s.pruneFrom fuel t = some pruned) : s.Prunes t pruned := by
  fun_induction s.pruneFrom fuel t generalizing pruned with
  | case1 => cases h
  | case2 fuel id target hlk ih => exact .link hlk (ih pruned h)
  | case3 fuel id hlk =>
    cases h
    exact .unbound hlk
  | case4 fuel fields tail more rest hfd ih =>
    cases h
    exact .open (ih _ hfd)
  | case5 fuel fields tail more hfd ih =>
    cases h
    exact .closed (ih _ hfd)
  | case6 fuel fields tail found hop hcld hfd ih =>
    cases h
    apply Prunes.tail (ih _ hfd)
    rintro more (_ | rest) rfl
    · exact hcld more rfl
    · exact hop more rest rfl
  | case7 => cases h
  | case8 t fuel hvar hop =>
    cases h
    exact .final ⟨hvar, hop⟩

end Solver

end Morphir.Typing

/-!
## Pruning across writes

Later writes change what a type prunes to only where a variable is unbound: two types of
which one prunes to the other at some time prune to the same final types ever after.
-/

namespace Morphir.Typing

open IR Relation List OrdMap

variable {s s' s'' : Solver} {t t' pruned pruned' : Ty}

lemma final_of_closed (fields : List (String × Ty)) : Final (.record fields none) where
  notVar _ := nofun
  notOpen _ _ h := absurd (Ty.record.inj h).2 (Option.some_ne_none _).symm

variable {fields : List (String × Ty)}

lemma row_of_ne_nil (h : fields ≠ []) (tail : Ty) :
    row fields tail = .record fields (some tail) := by
  rw [row, if_neg]
  rw [List.isEmpty_iff]
  exact h

@[simp] lemma mergeFields_nil_left (more : List (String × Ty)) : mergeFields [] more = more := by
  rw [mergeFields, nil_append, filter_eq_self]
  intro e _
  rfl

lemma mergeFields_ne_nil {more : List (String × Ty)} (h : more ≠ []) :
    mergeFields fields more ≠ [] := by
  cases fields with
  | nil =>
    rw [mergeFields_nil_left]
    exact h
  | cons e fields => exact cons_ne_nil _ _

lemma get?_append (m n : List (String × Ty)) (key : String) :
    get? (m ++ n) key = (get? m key).or (get? n key) := by
  induction m with
  | nil => rfl
  | cons e m ih =>
    rw [cons_append, get?_cons, get?_cons]
    split
    next => rfl
    next => exact ih

lemma get?_filter_contains (fields more : List (String × Ty)) (key : String)
    (h : get? fields key = none) :
    get? (more.filter fun e => !OrdMap.contains fields e.1) key = get? more key := by
  induction more with
  | nil => rfl
  | cons e more ih =>
    rw [filter_cons, get?_cons]
    split
    next => rw [get?_cons, ih]
    next hcon =>
      rw [ih, if_neg]
      rintro rfl
      apply hcon
      rw [OrdMap.contains, h]
      rfl

lemma get?_mergeFields (fields more : List (String × Ty)) (key : String) :
    get? (mergeFields fields more) key =
      (get? fields key).or (get? more key) := by
  rw [mergeFields, get?_append]
  cases h : get? fields key with
  | none => rw [get?_filter_contains fields more key h]
  | some t => rfl

lemma contains_mergeFields (fields more : List (String × Ty)) (key : String) :
    OrdMap.contains (mergeFields fields more) key =
      (OrdMap.contains fields key || OrdMap.contains more key) := by
  rw [OrdMap.contains, get?_mergeFields, OrdMap.contains]
  cases get? fields key <;> rfl

lemma mergeFields_assoc (a b c : List (String × Ty)) :
    mergeFields (mergeFields a b) c = mergeFields a (mergeFields b c) := by
  have hfil : c.filter (fun e => !OrdMap.contains (mergeFields a b) e.1) =
      (c.filter fun e => !OrdMap.contains b e.1).filter fun e => !OrdMap.contains a e.1 := by
    rw [filter_filter]
    apply filter_congr
    intro e _
    rw [contains_mergeFields, Bool.not_or]
  rw [mergeFields, hfil, mergeFields, mergeFields, mergeFields, filter_append, append_assoc]

namespace Solver

variable {id : Nat}

lemma links_eq_some : s.links id = some t ↔ s.metas[id]? = some (.link t) := by
  unfold links
  split
  next target heq => rw [heq, Option.some.injEq, Option.some.injEq, MetaState.link.injEq]
  next ho =>
    constructor
    · intro h
      cases h
    · intro h
      exact absurd h (ho t)

lemma links_setMeta (s : Solver) {state : MetaState} (h : id < s.metas.length) (j : Nat) :
    (s.setMeta id state).links j =
      if id = j then (match state with | .link t => some t | .unbound _ _ => none)
      else s.links j := by
  rw [links, setMeta, List.getElem?_set]
  by_cases hj : id = j
  · rw [if_pos hj, if_pos h, if_pos hj]
    cases state <;> rfl
  · rw [if_neg hj, if_neg hj]
    rfl

lemma links_fresh (s : Solver) (level : Int) (classes : List String) (j : Nat) :
    ({ s with metas := s.metas ++ [.unbound level classes] } : Solver).links j = s.links j := by
  unfold links
  rcases lt_trichotomy j s.metas.length with hlt | rfl | hgt
  · rw [List.getElem?_append_left hlt]
  · rw [List.getElem?_concat_length, List.getElem?_eq_none (le_refl _)]
  · have hle : (s.metas ++ [MetaState.unbound level classes]).length ≤ j := by
      rw [length_append, length_singleton]
      omega
    rw [List.getElem?_eq_none hle, List.getElem?_eq_none (by omega)]

lemma Write.links_cases (h : Write s s') :
    (∀ j, s'.links j = s.links j) ∨
      (∃ id t, s.links id = none ∧ t.Distinct ∧
        ∀ j, s'.links j = if id = j then some t else s.links j) ∨
      ∃ id t pruned, s.links id = some t ∧ s.Prunes t pruned ∧
        ∀ j, s'.links j = if id = j then some pruned else s.links j := by
  cases h with
  | fresh level classes => exact Or.inl (links_fresh s level classes)
  | @adjust id level classes level' classes' unbound =>
    left
    intro j
    rw [links_setMeta s (List.getElem?_eq_some_iff.mp unbound).1]
    split
    next heq =>
      subst heq
      rw [links, unbound]
    next => rfl
  | @bind id level classes t unbound distinct =>
    refine Or.inr (Or.inl ⟨id, t, ?_, distinct, ?_⟩)
    · rw [links, unbound]
    · exact links_setMeta s (List.getElem?_eq_some_iff.mp unbound).1
  | @compress id fuel t pruned link prune =>
    refine Or.inr (Or.inr ⟨id, t, pruned, links_eq_some.mpr link, ?_, ?_⟩)
    · exact prunes_of_pruneFrom fuel t pruned prune
    · exact links_setMeta s (List.getElem?_eq_some_iff.mp link).1

lemma Write.env (h : Write s s') : s'.env = s.env := by cases h <;> rfl

lemma Later.env (h : Later s s') : s'.env = s.env := by
  induction h with
  | refl => rfl
  | tail _ hwr ih => rw [hwr.env, ih]

lemma Prunes.unique (h : s.Prunes t pruned) (h' : s.Prunes t pruned') : pruned = pruned' := by
  induction h generalizing pruned' with
  | link hlk _ ih =>
    cases h' with
    | link hlk' hr' =>
      rw [hlk] at hlk'
      obtain rfl := Option.some.inj hlk'
      exact ih hr'
    | unbound hunb =>
      rw [hlk] at hunb
      cases hunb
    | final hfi => exact absurd rfl (hfi.notVar _)
  | unbound hunb =>
    cases h' with
    | link hlk' =>
      rw [hunb] at hlk'
      cases hlk'
    | unbound => rfl
    | final => rfl
  | «open» _ ih =>
    cases h' with
    | «open» hfd =>
      obtain ⟨rfl, hr⟩ := Ty.record.inj (ih hfd)
      rw [Option.some.inj hr]
    | closed hfd => exact absurd (Ty.record.inj (ih hfd)).2 (Option.some_ne_none _)
    | tail hfd ho => exact absurd (ih hfd).symm (ho _ _)
    | final hfi => exact absurd rfl (hfi.notOpen _ _)
  | closed _ ih =>
    cases h' with
    | «open» hfd => exact absurd (Ty.record.inj (ih hfd)).2 (Option.some_ne_none _).symm
    | closed hfd => rw [(Ty.record.inj (ih hfd)).1]
    | tail hfd ho => exact absurd (ih hfd).symm (ho _ _)
    | final hfi => exact absurd rfl (hfi.notOpen _ _)
  | tail _ ho ih =>
    cases h' with
    | «open» hfd => exact absurd (ih hfd) (ho _ _)
    | closed hfd => exact absurd (ih hfd) (ho _ _)
    | tail hfd _ => rw [ih hfd]
    | final hfi => exact absurd rfl (hfi.notOpen _ _)
  | final hfi =>
    cases h' with
    | link => exact absurd rfl (hfi.notVar _)
    | unbound => rfl
    | «open» | closed | tail => exact absurd rfl (hfi.notOpen _ _)
    | final => rfl

/-- A pruned type is final or an unbound variable, or it is a record with such a tail. -/
inductive Pruned (s : Solver) : Ty → Prop
  | final {t : Ty} (final : Final t) : Pruned s t
  | unbound {id : Nat} (unbound : s.links id = none) : Pruned s (.mvar id)
  | «open» {fields : List (String × Ty)} {tail : Ty} (nonempty : fields ≠ [])
      (rest : Pruned s tail) (other : ∀ more rest, tail ≠ .record more rest) :
      Pruned s (.record fields (some tail))

lemma pruned_row (fields : List (String × Ty)) (h : s.Pruned t)
    (ho : ∀ more rest, t ≠ .record more rest) : s.Pruned (row fields t) := by
  cases fields with
  | nil => exact h
  | cons e fields => exact .open (cons_ne_nil _ _) h ho

lemma Pruned.openRest {tail : Ty} (h : s.Pruned (.record fields (some tail))) :
    fields ≠ [] ∧ s.Pruned tail ∧ ∀ more rest, tail ≠ .record more rest := by
  cases h with
  | final hfi => exact absurd rfl (hfi.notOpen _ _)
  | «open» hne hr ho => exact ⟨hne, hr, ho⟩

lemma Prunes.isPruned (h : s.Prunes t pruned) : s.Pruned pruned := by
  induction h with
  | link _ _ ih => exact ih
  | unbound hunb => exact .unbound hunb
  | «open» _ ih =>
    obtain ⟨-, hr, ho⟩ := ih.openRest
    exact pruned_row _ hr ho
  | closed => exact .final (final_of_closed _)
  | tail _ ho ih => exact pruned_row _ ih ho
  | final hfi => exact .final hfi

lemma Pruned.prunes (h : s.Pruned t) (hlks : ∀ id, s.links id = none → s'.links id = none) :
    s'.Prunes t t := by
  induction h with
  | final hfi => exact .final hfi
  | unbound hunb => exact .unbound (hlks _ hunb)
  | «open» hne _ ho ih =>
    have htl := row_of_ne_nil hne _ ▸ Prunes.tail ih ho
    exact htl

lemma Prunes.compressed {target short : Ty} (hlk : s.links id = some target)
    (hsh : s.Prunes target short)
    (hlks : ∀ j, s'.links j = if id = j then some short else s.links j) (h : s.Prunes t pruned) :
    s'.Prunes t pruned := by
  induction h with
  | @link j target' t' hlk' hr ih =>
    by_cases hj : id = j
    · subst hj
      rw [hlk] at hlk'
      obtain rfl := Option.some.inj hlk'
      obtain rfl := hsh.unique hr
      have hnow : s'.links id = some short := by rw [hlks, if_pos rfl]
      apply Prunes.link hnow
      apply hr.isPruned.prunes
      intro k hk
      rw [hlks, if_neg]
      · exact hk
      · rintro rfl
        rw [hlk] at hk
        cases hk
    · apply Prunes.link _ ih
      rw [hlks, if_neg hj]
      exact hlk'
  | @unbound j hunb =>
    apply Prunes.unbound
    rw [hlks, if_neg]
    · exact hunb
    · rintro rfl
      rw [hlk] at hunb
      cases hunb
  | «open» _ ih => exact .open ih
  | closed _ ih => exact .closed ih
  | tail _ ho ih => exact .tail ih ho
  | final hfi => exact .final hfi

def Alike (s : Solver) (t t' : Ty) : Prop := ∀ r, Final r → (s.Prunes t r ↔ s.Prunes t' r)

lemma Alike.refl (s : Solver) (t : Ty) : s.Alike t t := fun _ _ => Iff.rfl

lemma Alike.trans {u : Ty} (h : s.Alike t t') (h' : s.Alike t' u) : s.Alike t u :=
  fun r hr => (h r hr).trans (h' r hr)

lemma Alike.symm (h : s.Alike t t') : s.Alike t' t := fun r hr => (h r hr).symm

lemma prunes_final_iff (h : Final t) : s.Prunes t pruned ↔ pruned = t := by
  constructor
  · intro hpru
    exact hpru.unique (.final h)
  · rintro rfl
    exact .final h

lemma prunes_open_iff {tail r : Ty} (hr : Final r) :
    s.Prunes (.record fields (some tail)) r ↔
      (∃ more, s.Prunes tail (.record more none) ∧ r = .record (mergeFields fields more) none) ∨
        fields = [] ∧ (∀ more rest, r ≠ .record more rest) ∧ s.Prunes tail r := by
  constructor
  · generalize ht : Ty.record fields (some tail) = t
    intro h
    cases h with
    | link | unbound => cases ht
    | @«open» fields' more tail' rest hfd =>
      exfalso
      obtain ⟨hne, -, -⟩ := hfd.isPruned.openRest
      rw [row_of_ne_nil (mergeFields_ne_nil hne)] at hr
      exact hr.notOpen _ _ rfl
    | @closed fields' more tail' hfd =>
      obtain ⟨rfl, htl⟩ := Ty.record.inj ht
      cases htl
      exact Or.inl ⟨more, hfd, rfl⟩
    | @tail fields' tail' pruned hfd ho =>
      obtain ⟨rfl, htl⟩ := Ty.record.inj ht
      cases htl
      cases fields with
      | nil => exact Or.inr ⟨rfl, ho, hfd⟩
      | cons e fields => exact absurd rfl (hr.notOpen _ _)
    | final hfi => exact absurd ht.symm (hfi.notOpen _ _)
  · rintro (⟨more, hfd, rfl⟩ | ⟨rfl, ho, hfd⟩)
    · exact .closed hfd
    · exact .tail hfd ho

lemma Alike.open {tail tail' : Ty} (h : s.Alike tail tail') (fields : List (String × Ty)) :
    s.Alike (.record fields (some tail)) (.record fields (some tail')) := by
  intro r hr
  rw [prunes_open_iff hr, prunes_open_iff hr]
  apply or_congr
  · apply exists_congr
    intro more
    exact and_congr_left fun _ => h _ (final_of_closed more)
  · exact and_congr_right fun _ => and_congr_right fun _ => h r hr

lemma alike_of_nil (s : Solver) (tail : Ty) : s.Alike (.record [] (some tail)) tail := by
  intro r hr
  rw [prunes_open_iff hr]
  constructor
  · rintro (⟨more, hfd, rfl⟩ | ⟨-, -, hfd⟩)
    · rw [mergeFields_nil_left]
      exact hfd
    · exact hfd
  · intro hfd
    by_cases hrec : ∃ more rest, r = .record more rest
    · obtain ⟨more, rest, rfl⟩ := hrec
      cases rest with
      | none =>
        refine Or.inl ⟨more, hfd, ?_⟩
        rw [mergeFields_nil_left]
      | some rest => exact absurd rfl (hr.notOpen _ _)
    · refine Or.inr ⟨rfl, ?_, hfd⟩
      rintro more rest rfl
      exact hrec ⟨more, rest, rfl⟩

lemma alike_row (s : Solver) (fields : List (String × Ty)) (tail : Ty) :
    s.Alike (.record fields (some tail)) (row fields tail) := by
  cases fields with
  | nil => exact alike_of_nil s tail
  | cons e fields => exact .refl s _

lemma alike_merge (s : Solver) (fields more : List (String × Ty)) (rest : Ty) :
    s.Alike (.record fields (some (.record more (some rest))))
      (.record (mergeFields fields more) (some rest)) := by
  intro r hr
  constructor
  · intro h
    apply (prunes_open_iff hr).mpr
    rcases (prunes_open_iff hr).mp h with ⟨most, hfd, rfl⟩ | ⟨rfl, ho, hfd⟩
    · rcases (prunes_open_iff (final_of_closed most)).mp hfd with
        ⟨last, hl, heq⟩ | ⟨-, hnot, -⟩
      · left
        refine ⟨last, hl, ?_⟩
        rw [(Ty.record.inj heq).1, mergeFields_assoc]
      · exact absurd rfl (hnot _ _)
    · rw [mergeFields_nil_left]
      rcases (prunes_open_iff hr).mp hfd with ⟨last, -, rfl⟩ | hl
      · exact absurd rfl (ho _ _)
      · exact Or.inr hl
  · intro h
    apply (prunes_open_iff hr).mpr
    rcases (prunes_open_iff hr).mp h with ⟨last, hl, rfl⟩ | ⟨hnil, ho, hl⟩
    · left
      refine ⟨mergeFields more last, .closed hl, ?_⟩
      rw [mergeFields_assoc]
    · right
      have hfs : fields = [] := by
        cases fields with
        | nil => rfl
        | cons e fields => cases hnil
      subst hfs
      rw [mergeFields_nil_left] at hnil
      exact ⟨rfl, ho, (prunes_open_iff hr).mpr (Or.inr ⟨hnil, ho, hl⟩)⟩

/-- A bound variable prunes, in a later state, as what it was linked to. -/
def Keeps (s s' : Solver) : Prop := ∀ id t, s.links id = some t → s'.Alike (.mvar id) t

lemma Prunes.alike (hkeeps : Keeps s s') (h : s.Prunes t pruned) : s'.Alike t pruned := by
  induction h with
  | link hlk _ ih => exact (hkeeps _ _ hlk).trans ih
  | unbound => exact .refl s' _
  | @«open» fields more tail rest _ ih =>
    exact ((ih.open fields).trans (alike_merge s' fields more rest)).trans
      (alike_row s' _ rest)
  | @closed fields more tail _ ih =>
    intro r hr
    rw [prunes_open_iff hr, prunes_final_iff (final_of_closed _)]
    constructor
    · rintro (⟨most, hfd, rfl⟩ | ⟨-, ho, hfd⟩)
      · have hmost := (prunes_final_iff (final_of_closed more)).mp
          ((ih _ (final_of_closed most)).mp hfd)
        rw [(Ty.record.inj hmost).1]
      · have hrec := (prunes_final_iff (final_of_closed more)).mp ((ih r hr).mp hfd)
        exact absurd hrec (ho _ _)
    · rintro rfl
      left
      refine ⟨more, ?_, rfl⟩
      exact (ih _ (final_of_closed more)).mpr (.final (final_of_closed more))
  | @tail fields tail pruned _ _ ih => exact (ih.open fields).trans (alike_row s' fields pruned)
  | final => exact .refl s' _

lemma Later.keeps (h : Later s s') : Keeps s s' := by
  induction h using ReflTransGen.head_induction_on with
  | refl =>
    intro id t hlk r _
    constructor
    · intro h
      cases h with
      | link hlk' hr =>
        rw [hlk] at hlk'
        obtain rfl := Option.some.inj hlk'
        exact hr
      | unbound hunb =>
        rw [hlk] at hunb
        cases hunb
      | final hfi => exact absurd rfl (hfi.notVar _)
    · exact .link hlk
  | @head s s₁ hwr _ ih =>
    intro id t hlk
    rcases hwr.links_cases with hsm | ⟨j, u, hunb, -, hlks⟩ |
      ⟨j, u, short, hlk', hsh, hlks⟩
    · exact ih id t ((hsm id).trans hlk)
    · apply ih id t
      rw [hlks, if_neg]
      · exact hlk
      · rintro rfl
        rw [hlk] at hunb
        cases hunb
    · by_cases hj : j = id
      · subst hj
        rw [hlk] at hlk'
        obtain rfl := Option.some.inj hlk'
        have hmvar := ih j short (by rw [hlks, if_pos rfl])
        exact hmvar.trans (Prunes.alike ih (.compressed hlk hsh hlks hsh)).symm
      · apply ih id t
        rw [hlks, if_neg hj]
        exact hlk

end Solver

end Morphir.Typing
