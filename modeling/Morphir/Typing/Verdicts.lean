import Morphir.Typing.Derivation
import Morphir.Typing.Solving

/-!
# Proofs and refutations of assignability

A proof or a refutation says by which comparisons a verdict came about, without limits.
It looks at heads, which are found by following links, or by pruning.
-/

namespace Morphir.Typing

open IR TypeRelation Relation List OrdMap Option

/-- The head of a type, with the attributes on the way.  Before each step the relation
`F` finds the type that stands for a type. -/
inductive HeadBy (env : Env) (F : Ty → Ty → Prop) : Ty → Ty → List TypeAttributes → Prop
  | attributed {attrs : TypeAttributes} {t inner x : Ty} {as : List TypeAttributes}
      (found : F t (.attributed attrs inner)) (head : HeadBy env F inner x as) :
      HeadBy env F t x (attrs :: as)
  | expanding {name : String} {args : List Ty} {t inner x : Ty} {as : List TypeAttributes}
      (found : F t (.con name args)) (expand : env.expand name args = some inner)
      (head : HeadBy env F inner x as) : HeadBy env F t x as
  | con {name : String} {args : List Ty} {t : Ty} (found : F t (.con name args))
      (expand : env.expand name args = none) : HeadBy env F t (.con name args) []
  | other {t x : Ty} (found : F t x) (attributed : ∀ attrs inner, x ≠ .attributed attrs inner)
      (con : ∀ name args, x ≠ .con name args) : HeadBy env F t x []

def Peeks (s : Solver) (t x : Ty) : Prop := s.peek t = x

def Resolves (s : Solver) (t x : Ty) : Prop := s.Prunes t x ∧ Final x

section Heads

variable {env : Env} {F G : Ty → Ty → Prop} {t t' x y : Ty} {as bs : List TypeAttributes}

lemma HeadBy.unique (hF : ∀ t x y, F t x → F t y → x = y) (h : HeadBy env F t x as)
    (h' : HeadBy env F t y bs) : x = y ∧ as = bs := by
  induction h generalizing y bs with
  | attributed found _ ih =>
    cases h' with
    | attributed found' head' =>
      obtain ⟨rfl, rfl⟩ := Ty.attributed.inj (hF _ _ _ found found')
      obtain ⟨rfl, rfl⟩ := ih head'
      exact ⟨rfl, rfl⟩
    | expanding found' | con found' => exact absurd (hF _ _ _ found found') nofun
    | other found' hatt => exact absurd (hF _ _ _ found' found) (hatt _ _)
  | expanding found expand _ ih =>
    cases h' with
    | attributed found' => exact absurd (hF _ _ _ found found') nofun
    | expanding found' expand' head' =>
      obtain ⟨rfl, rfl⟩ := Ty.con.inj (hF _ _ _ found found')
      rw [expand] at expand'
      obtain rfl := Option.some.inj expand'
      exact ih head'
    | con found' expand' =>
      obtain ⟨rfl, rfl⟩ := Ty.con.inj (hF _ _ _ found found')
      rw [expand] at expand'
      cases expand'
    | other found' _ hcon => exact absurd (hF _ _ _ found' found) (hcon _ _)
  | con found expand =>
    cases h' with
    | attributed found' => exact absurd (hF _ _ _ found found') nofun
    | expanding found' expand' =>
      obtain ⟨rfl, rfl⟩ := Ty.con.inj (hF _ _ _ found found')
      rw [expand] at expand'
      cases expand'
    | con found' => exact ⟨hF _ _ _ found found', rfl⟩
    | other found' _ hcon => exact absurd (hF _ _ _ found' found) (hcon _ _)
  | other found hatt hcon =>
    cases h' with
    | attributed found' => exact absurd (hF _ _ _ found found') (hatt _ _)
    | expanding found' | con found' => exact absurd (hF _ _ _ found found') (hcon _ _)
    | other found' => exact ⟨hF _ _ _ found found', rfl⟩

lemma HeadBy.of_found (hfd : ∀ r, F t r → F t' r) (h : HeadBy env F t x as) :
    HeadBy env F t' x as := by
  cases h with
  | attributed found head => exact .attributed (hfd _ found) head
  | expanding found expand head => exact .expanding (hfd _ found) expand head
  | con found expand => exact .con (hfd _ found) expand
  | other found hatt hcon => exact .other (hfd _ found) hatt hcon

lemma headBy_congr_found (hfd : ∀ r, F t r ↔ F t' r) : HeadBy env F t x as ↔ HeadBy env F t' x as :=
  ⟨HeadBy.of_found fun r => (hfd r).mp, .of_found fun r => (hfd r).mpr⟩

lemma HeadBy.self (h : HeadBy env F t x as) (hx : G x x) : HeadBy env G x x [] := by
  induction h with
  | attributed _ _ ih => exact ih hx
  | expanding _ _ _ ih => exact ih hx
  | con _ expand => exact .con hx expand
  | other _ hatt hcon => exact .other hx hatt hcon

end Heads

lemma peeks_unique (s : Solver) (t x y : Ty) (h : Peeks s t x) (h' : Peeks s t y) : x = y :=
  h.symm.trans h'

lemma resolves_unique (s : Solver) (t x y : Ty) (h : Resolves s t x) (h' : Resolves s t y) :
    x = y := h.1.unique h'.1

lemma resolves_self {s : Solver} (h : Final x) : Resolves s x x := ⟨Solver.Prunes.final h, h⟩

section Persistence

variable {s s' : Solver} {env : Env} {t x y : Ty} {as bs : List TypeAttributes}

lemma alike_peekFrom (hkeeps : Solver.Keeps s s') (fuel : Nat) (t : Ty) :
    s'.Alike t (s.peekFrom fuel t) := by
  induction fuel generalizing t with
  | zero =>
    rw [Solver.peekFrom]
    · exact .refl s' t
    · simp
  | succ fuel ih =>
    by_cases ht : ∃ id, t = .mvar id
    · obtain ⟨id, rfl⟩ := ht
      rw [Solver.peekFrom]
      cases hlk : s.links id with
      | none => exact .refl s' _
      | some target => exact (hkeeps id target hlk).trans (ih target)
    · rw [Solver.peekFrom]
      · exact .refl s' t
      · rintro _ id - rfl
        exact ht ⟨id, rfl⟩

lemma resolves_congr (h : s.Alike t x) (r : Ty) : Resolves s t r ↔ Resolves s x r :=
  and_congr_left fun hr => h r hr

lemma resolves_peek_iff (hlat : s.Later s') (hpk : Peeks s t x) (r : Ty) :
    Resolves s' t r ↔ Resolves s' x r := by
  rw [← hpk]
  exact resolves_congr (alike_peekFrom hlat.keeps _ t) r

lemma resolves_final_iff (h : Final x) (r : Ty) : Resolves s x r ↔ r = x := by
  constructor
  · intro hr
    exact resolves_unique s x r x hr (resolves_self h)
  · rintro rfl
    exact resolves_self h

lemma headBy_attributed_iff {attrs : TypeAttributes} {inner : Ty} :
    HeadBy env (Resolves s) (.attributed attrs inner) x as ↔
      ∃ rest, as = attrs :: rest ∧ HeadBy env (Resolves s) inner x rest := by
  have hfi : Final (.attributed attrs inner) := ⟨fun _ => nofun, fun _ _ => nofun⟩
  constructor
  · intro h
    cases h with
    | attributed found head =>
      obtain ⟨rfl, rfl⟩ := Ty.attributed.inj ((resolves_final_iff hfi _).mp found)
      exact ⟨_, rfl, head⟩
    | expanding found | con found => exact absurd ((resolves_final_iff hfi _).mp found) nofun
    | other found hatt => exact absurd ((resolves_final_iff hfi _).mp found) (hatt _ _)
  · rintro ⟨rest, rfl, head⟩
    exact .attributed (resolves_self hfi) head

lemma headBy_expanding_iff {name : String} {args : List Ty} {inner : Ty}
    (hexp : env.expand name args = some inner) :
    HeadBy env (Resolves s) (.con name args) x as ↔ HeadBy env (Resolves s) inner x as := by
  have hfi : Final (.con name args) := ⟨fun _ => nofun, fun _ _ => nofun⟩
  constructor
  · intro h
    cases h with
    | attributed found => exact absurd ((resolves_final_iff hfi _).mp found) nofun
    | expanding found expand head =>
      obtain ⟨rfl, rfl⟩ := Ty.con.inj ((resolves_final_iff hfi _).mp found)
      rw [hexp] at expand
      obtain rfl := Option.some.inj expand
      exact head
    | con found expand =>
      obtain ⟨rfl, rfl⟩ := Ty.con.inj ((resolves_final_iff hfi _).mp found)
      rw [hexp] at expand
      cases expand
    | other found _ hcon => exact absurd ((resolves_final_iff hfi _).mp found) (hcon _ _)
  · exact .expanding (resolves_self hfi) hexp

lemma headBy_later_iff (hlat : s.Later s') (h : HeadBy env (Peeks s) t x as) :
    HeadBy env (Resolves s') t y bs ↔
      ∃ rest, bs = as ++ rest ∧ HeadBy env (Resolves s') x y rest := by
  induction h generalizing bs with
  | attributed found _ ih =>
    rw [headBy_congr_found (resolves_peek_iff hlat found), headBy_attributed_iff]
    constructor
    · rintro ⟨rest, rfl, head⟩
      obtain ⟨last, rfl, hl⟩ := ih.mp head
      exact ⟨last, rfl, hl⟩
    · rintro ⟨last, rfl, hl⟩
      exact ⟨_, rfl, ih.mpr ⟨last, rfl, hl⟩⟩
  | expanding found expand _ ih =>
    rw [headBy_congr_found (resolves_peek_iff hlat found), headBy_expanding_iff expand]
    exact ih
  | con found _ | other found =>
    rw [headBy_congr_found (resolves_peek_iff hlat found)]
    constructor
    · intro h
      exact ⟨bs, rfl, h⟩
    · rintro ⟨rest, rfl, h⟩
      exact h

lemma HeadBy.later (hlat : s.Later s') (h : HeadBy env (Peeks s) t x as) (hx : Final x) :
    HeadBy env (Resolves s') t x as := by
  apply (headBy_later_iff hlat h).mpr
  refine ⟨[], ?_, h.self (resolves_self hx)⟩
  rw [append_nil]

end Persistence

inductive Matches (P : Ty → Ty → Prop) : Ty → Ty → Prop
  | con {name : String} {xs ys : List Ty} (length : xs.length = ys.length)
      (items : ∀ e ∈ xs.zip ys, P e.1 e.2 ∧ P e.2 e.1) : Matches P (.con name xs) (.con name ys)
  | tup {xs ys : List Ty} (length : xs.length = ys.length) (items : ∀ e ∈ xs.zip ys, P e.1 e.2) :
      Matches P (.tup xs) (.tup ys)
  | record {xs ys : List (String × Ty)} (length : xs.length = ys.length)
      (fields : ∀ e ∈ xs, ∃ y, get? ys e.1 = some y ∧ P e.2 y) :
      Matches P (.record xs none) (.record ys none)
  | fn {a b c d : Ty} (input : P c a) (output : P b d) : Matches P (.fn a b) (.fn c d)

def SameShape : Ty → Ty → Prop
  | .con n xs, .con m ys => n = m ∧ xs.length = ys.length
  | .tup xs, .tup ys => xs.length = ys.length
  | .record xs none, .record ys none => xs.length = ys.length
  | .fn _ _, .fn _ _ => True
  | _, _ => False

inductive Clash (R : Ty → Ty → Prop) : Ty → Ty → Prop
  | con {name : String} {xs ys : List Ty} {e : Ty × Ty} (length : xs.length = ys.length)
      (item : e ∈ xs.zip ys) (differ : R e.1 e.2 ∨ R e.2 e.1) :
      Clash R (.con name xs) (.con name ys)
  | tup {xs ys : List Ty} {e : Ty × Ty} (length : xs.length = ys.length) (item : e ∈ xs.zip ys)
      (differ : R e.1 e.2) : Clash R (.tup xs) (.tup ys)
  | field {xs ys : List (String × Ty)} {e : String × Ty} {y : Ty} (item : e ∈ xs)
      (other : get? ys e.1 = some y) (differ : R e.2 y) :
      Clash R (.record xs none) (.record ys none)
  | missing {xs ys : List (String × Ty)} {e : String × Ty} (item : e ∈ xs)
      (missing : get? ys e.1 = none) : Clash R (.record xs none) (.record ys none)
  | fn {a b c d : Ty} (differ : R c a ∨ R b d) : Clash R (.fn a b) (.fn c d)
  | apart {x y : Ty} (left : Final x) (right : Final y) (apart : ¬SameShape x y) : Clash R x y

/-- One comparison that proves assignability, from the relation `P` on members and
components. -/
inductive Confirms (env : Env) (F : Ty → Ty → Prop) (P : Ty → Ty → Prop) (a b : Ty) : Prop
  | unionLeft {xs : List Ty} {as : List TypeAttributes} (head : HeadBy env F a (.union xs) as)
      (members : ∀ x ∈ xs, P (attributedAll x as) b)
  | unionRight {y : Ty} {ys : List Ty} {bs : List TypeAttributes}
      (head : HeadBy env F b (.union ys) bs) (member : y ∈ ys) (below : P a (attributedAll y bs))
  | equal {x y : Ty} {as bs : List TypeAttributes} (left : HeadBy env F a x as)
      (right : HeadBy env F b y bs) (entails : Entails as bs) (eq : x.canonical = y.canonical)
  | heads {x y : Ty} {as bs : List TypeAttributes} (left : HeadBy env F a x as)
      (right : HeadBy env F b y bs) (related : Matches P x y)

/-- One comparison that refutes assignability, from the relation `R` on members and
components. -/
inductive Denies (env : Env) (F : Ty → Ty → Prop) (R : Ty → Ty → Prop) (a b : Ty) : Prop
  | unionLeft {x : Ty} {xs : List Ty} {as : List TypeAttributes}
      (head : HeadBy env F a (.union xs) as) (member : x ∈ xs) (below : R (attributedAll x as) b)
  | unionRight {x : Ty} {ys : List Ty} {as bs : List TypeAttributes}
      (left : HeadBy env F a x as) (leaf : ¬IsUnion x) (right : HeadBy env F b (.union ys) bs)
      (nonempty : ys ≠ []) (members : ∀ y ∈ ys, R a (attributedAll y bs))
  | heads {x y : Ty} {as bs : List TypeAttributes} (left : HeadBy env F a x as)
      (right : HeadBy env F b y bs) (leaf : ¬IsUnion x) (leaf' : ¬IsUnion y)
      (ne : x.canonical ≠ y.canonical) (clash : Clash R x y)

def Confirmed (env : Env) (F : Ty → Ty → Prop) : Nat → Ty → Ty → Prop
  | 0, _, _ => False
  | height + 1, a, b => Confirms env F (Confirmed env F height) a b

def Denied (env : Env) (F : Ty → Ty → Prop) : Nat → Ty → Ty → Prop
  | 0, _, _ => False
  | height + 1, a, b => Denies env F (Denied env F height) a b

variable {x y : Ty}

variable {P R : Ty → Ty → Prop}

lemma Matches.sameShape (h : Matches P x y) : SameShape x y := by
  cases h with
  | con length => exact ⟨rfl, length⟩
  | tup length => exact length
  | record length => exact length
  | fn => exact trivial

lemma Matches.final (h : Matches P x y) : (Final x ∧ ¬IsUnion x) ∧ Final y ∧ ¬IsUnion y := by
  cases h with
  | record => exact ⟨⟨final_of_closed _, id⟩, final_of_closed _, id⟩
  | con | tup | fn =>
    exact ⟨⟨⟨fun _ => nofun, fun _ _ => nofun⟩, id⟩, ⟨fun _ => nofun, fun _ _ => nofun⟩, id⟩

lemma Clash.final (h : Clash R x y) : Final x ∧ Final y := by
  cases h with
  | apart left right => exact ⟨left, right⟩
  | field | missing => exact ⟨final_of_closed _, final_of_closed _⟩
  | con | tup | fn => exact ⟨⟨fun _ => nofun, fun _ _ => nofun⟩, ⟨fun _ => nofun, fun _ _ => nofun⟩⟩

lemma Clash.mono {S : Ty → Ty → Prop} (h : Clash R x y) (hRS : ∀ a b, R a b → S a b) :
    Clash S x y := by
  cases h with
  | con length item differ => exact .con length item (differ.imp (hRS _ _) (hRS _ _))
  | tup length item differ => exact .tup length item (hRS _ _ differ)
  | field item other differ => exact .field item other (hRS _ _ differ)
  | missing item missing => exact .missing item missing
  | fn differ => exact .fn (differ.imp (hRS _ _) (hRS _ _))
  | apart left right apart => exact .apart left right apart

lemma Matches.not_clash (h : Matches P x y) (hPR : ∀ a b, P a b → ¬R a b) : ¬Clash R x y := by
  intro hclash
  cases hclash with
  | apart _ _ apart => exact apart h.sameShape
  | con _ item differ =>
    cases h with
    | con _ items =>
      obtain ⟨hfwd, hbac⟩ := items _ item
      exact differ.elim (hPR _ _ hfwd) (hPR _ _ hbac)
  | tup _ item differ =>
    cases h with
    | tup _ items => exact hPR _ _ (items _ item) differ
  | field item other differ =>
    cases h with
    | record _ fields =>
      obtain ⟨y, hy, hrel⟩ := fields _ item
      rw [other] at hy
      cases hy
      exact hPR _ _ hrel differ
  | missing item missing =>
    cases h with
    | record _ fields =>
      obtain ⟨y, hy, -⟩ := fields _ item
      rw [missing] at hy
      exact some_ne_none y hy.symm
  | fn differ =>
    cases h with
    | fn input output => exact differ.elim (hPR _ _ input) (hPR _ _ output)

section Denials

variable {env : Env} {F : Ty → Ty → Prop} {a b x : Ty} {as : List TypeAttributes} {n : Nat}

lemma Denied.headLeft (h : Denied env F n a b) : ∃ x as, HeadBy env F a x as := by
  cases n with
  | zero => exact h.elim
  | succ n =>
    cases h with
    | unionLeft head | unionRight head | heads head => exact ⟨_, _, head⟩

lemma Denied.finalLeft (hF : ∀ t x y, F t x → F t y → x = y) (h : Denied env F n a b)
    (hx : HeadBy env F a x as) : Final x := by
  induction n generalizing b with
  | zero => exact h.elim
  | succ n ih =>
    cases h with
    | unionLeft head =>
      obtain ⟨rfl, -⟩ := hx.unique hF head
      exact ⟨fun _ => nofun, fun _ _ => nofun⟩
    | unionRight _ _ _ nonempty members =>
      obtain ⟨y, hy⟩ := exists_mem_of_ne_nil _ nonempty
      exact ih (members y hy)
    | heads left _ _ _ _ clash =>
      obtain ⟨rfl, -⟩ := hx.unique hF left
      exact clash.final.1

end Denials

lemma Denied.later {s s' : Solver} {env : Env} (hlat : s.Later s') {n : Nat} {a b : Ty}
    (h : Denied env (Peeks s) n a b) : Denied env (Resolves s') n a b := by
  have hun : ∀ xs : List Ty, Final (.union xs) := fun xs => ⟨fun _ => nofun, fun _ _ => nofun⟩
  induction n generalizing a b with
  | zero => exact h
  | succ n ih =>
    have hden : Denied env (Peeks s) (n + 1) a b := h
    cases h with
    | unionLeft head member below => exact .unionLeft (head.later hlat (hun _)) member (ih below)
    | unionRight left leaf right nonempty members =>
      have hfi := hden.finalLeft (peeks_unique s) left
      exact .unionRight (left.later hlat hfi) leaf (right.later hlat (hun _))
        nonempty fun y hy => ih (members y hy)
    | heads left right leaf leaf' ne clash =>
      obtain ⟨hlt, hrt⟩ := clash.final
      exact .heads (left.later hlat hlt) (right.later hlat hrt) leaf leaf' ne
        (clash.mono fun _ _ => ih)

end Morphir.Typing

/-!
## Verdicts are stable

A comparison that proves assignability is never refuted in a later state of the solver,
and one that refutes it is never proved.
-/

namespace Morphir.Typing

open IR TypeRelation Relation List OrdMap Option

section Canonical

variable {t t' : Ty}

lemma canonical_eq_mvar {id : Nat} (h : (Ty.mvar id).canonical = t.canonical) : t = .mvar id := by
  cases t <;> simp [Ty.canonical] at h
  rw [h]

variable {tail : Option Ty}

lemma canonical_eq_record (h : (Ty.record xs tail).canonical = t.canonical) :
    ∃ ys tail', t = .record ys tail' ∧ tail.map Ty.canonical = tail'.map Ty.canonical ∧
      ∀ name, (get? xs name).map Ty.canonical = (get? ys name).map Ty.canonical := by
  cases t <;> simp [Ty.canonical] at h
  refine ⟨_, _, rfl, h.2, fun name => ?_⟩
  have hget := canonical_eq_iff.mp h.1 name
  rwa [get?_mapValues, get?_mapValues] at hget

lemma canonical_eq_tail (h : (some t).map Ty.canonical = tail.map Ty.canonical) :
    ∃ t', tail = some t' ∧ t.canonical = t'.canonical := by
  cases tail with
  | none => cases h
  | some t' => exact ⟨t', rfl, Option.some.inj h⟩

variable {xs ys : List (String × Ty)}

section

variable (hfs : ∀ name, (get? xs name).map Ty.canonical = (get? ys name).map Ty.canonical)

include hfs

lemma canonical_record_congr {tail' : Option Ty}
    (htl : tail.map Ty.canonical = tail'.map Ty.canonical) :
    (Ty.record xs tail).canonical = (Ty.record ys tail').canonical := by
  have hcan : OrdMap.canonical (mapValues Ty.canonical xs) =
      OrdMap.canonical (mapValues Ty.canonical ys) := by
    apply canonical_ext
    intro name
    rw [get?_mapValues, get?_mapValues]
    exact hfs name
  rw [Ty.canonical, Ty.canonical, Ty.canonicalFields_eq, Ty.canonicalFields_eq,
    Ty.canonicalTail_eq, Ty.canonicalTail_eq, hcan, htl]

lemma eq_nil_congr (h : xs = []) : ys = [] := by
  subst h
  cases ys with
  | nil => rfl
  | cons e ys =>
    obtain ⟨name, t⟩ := e
    have hname := hfs name
    rw [get?_cons_self] at hname
    cases hname

lemma canonical_row_congr (h : t.canonical = t'.canonical) :
    (row xs t).canonical = (row ys t').canonical := by
  by_cases hxs : xs = []
  · rw [hxs, eq_nil_congr hfs hxs]
    exact h
  · have hys : ys ≠ [] := fun hys => hxs (eq_nil_congr (fun name => (hfs name).symm) hys)
    rw [row_of_ne_nil hxs, row_of_ne_nil hys]
    apply canonical_record_congr hfs
    rw [map_some, map_some, h]

end

lemma canonical_mergeFields_congr {more more' : List (String × Ty)}
    (hfs : ∀ name, (get? xs name).map Ty.canonical = (get? ys name).map Ty.canonical)
    (hm : ∀ name, (get? more name).map Ty.canonical = (get? more' name).map Ty.canonical)
    (name : String) :
    (get? (mergeFields xs more) name).map Ty.canonical =
      (get? (mergeFields ys more') name).map Ty.canonical := by
  rw [get?_mergeFields, get?_mergeFields, map_or, map_or, hfs, hm]

lemma Final.congr (h : Final t) (heq : t.canonical = t'.canonical) : Final t' where
  notVar id ht' := by
    subst ht'
    exact h.notVar id (canonical_eq_mvar heq.symm)
  notOpen fields tail ht' := by
    subst ht'
    obtain ⟨fields', tail', rfl, htl, -⟩ := canonical_eq_record heq.symm
    cases tail' with
    | none => exact absurd htl (some_ne_none _)
    | some tail' => exact h.notOpen fields' tail' rfl

variable {s : Solver}

lemma Solver.Prunes.congr {r : Ty} (h : s.Prunes t r) (heq : t.canonical = t'.canonical) :
    ∃ r', s.Prunes t' r' ∧ r.canonical = r'.canonical := by
  induction h generalizing t' with
  | link hlk _ ih =>
    obtain rfl := canonical_eq_mvar heq
    obtain ⟨r', hr', hcan⟩ := ih rfl
    exact ⟨r', .link hlk hr', hcan⟩
  | unbound hunb =>
    obtain rfl := canonical_eq_mvar heq
    exact ⟨_, .unbound hunb, rfl⟩
  | «open» _ ih =>
    obtain ⟨fields', tail', rfl, htl, hfs⟩ := canonical_eq_record heq
    obtain ⟨tail', rfl, hso⟩ := canonical_eq_tail htl
    obtain ⟨r', hr', hcan⟩ := ih hso
    obtain ⟨more', rest', rfl, hr, hm⟩ := canonical_eq_record hcan
    obtain ⟨rest', rfl, hl⟩ := canonical_eq_tail hr
    refine ⟨_, .open hr', ?_⟩
    exact canonical_row_congr (canonical_mergeFields_congr hfs hm) hl
  | closed _ ih =>
    obtain ⟨fields', tail', rfl, htl, hfs⟩ := canonical_eq_record heq
    obtain ⟨tail', rfl, hso⟩ := canonical_eq_tail htl
    obtain ⟨r', hr', hcan⟩ := ih hso
    obtain ⟨more', rest', rfl, hr, hm⟩ := canonical_eq_record hcan
    obtain rfl := map_eq_none_iff.mp hr.symm
    refine ⟨_, .closed hr', ?_⟩
    exact canonical_record_congr (canonical_mergeFields_congr hfs hm) rfl
  | tail _ ho ih =>
    obtain ⟨fields', tail', rfl, htl, hfs⟩ := canonical_eq_record heq
    obtain ⟨tail', rfl, hso⟩ := canonical_eq_tail htl
    obtain ⟨r', hr', hcan⟩ := ih hso
    refine ⟨_, .tail hr' ?_, canonical_row_congr hfs hcan⟩
    rintro more rest rfl
    obtain ⟨_, _, rfl, -⟩ := canonical_eq_record hcan.symm
    exact ho _ _ rfl
  | final hfi => exact ⟨t', .final (hfi.congr heq), heq⟩

lemma Resolves.congr {r : Ty} (h : Resolves s t r) (heq : t.canonical = t'.canonical) :
    ∃ r', Resolves s t' r' ∧ r.canonical = r'.canonical := by
  obtain ⟨r', hr', hcan⟩ := h.1.congr heq
  exact ⟨r', ⟨hr', h.2.congr hcan⟩, hcan⟩

lemma HeadBy.congr {env : Env} {x : Ty} {as : List TypeAttributes}
    (h : HeadBy env (Resolves s) t x as) (heq : t.canonical = t'.canonical) :
    ∃ x' as', HeadBy env (Resolves s) t' x' as' ∧ x.canonical = x'.canonical ∧
      as.map TypeAttributes.canonical = as'.map TypeAttributes.canonical := by
  induction h generalizing t' with (obtain ⟨r', hr', hcan⟩ := found.congr heq)
  | attributed found _ ih =>
    obtain ⟨attrs', inner', rfl, hats, hin⟩ := canonical_eq_attributed hcan
    obtain ⟨x', as', head', hx, has⟩ := ih hin
    refine ⟨x', _, .attributed hr' head', hx, ?_⟩
    rw [map_cons, map_cons, hats, has]
  | @expanding name _ _ _ _ _ found expand _ ih =>
    obtain ⟨args', rfl, hargs⟩ := canonical_eq_con hcan
    have hexp := expand_canonical env name hargs
    rw [expand] at hexp
    obtain ⟨inner', hin', hin⟩ := map_eq_some_iff.mp hexp.symm
    obtain ⟨x', as', head', hx, has⟩ := ih hin.symm
    exact ⟨x', as', .expanding hr' hin' head', hx, has⟩
  | @con name _ _ found expand =>
    obtain ⟨args', rfl, hargs⟩ := canonical_eq_con hcan
    have hexp := expand_canonical env name hargs
    rw [expand] at hexp
    exact ⟨_, [], .con hr' (map_eq_none_iff.mp hexp.symm), hcan, rfl⟩
  | other found hatt hcon =>
    refine ⟨r', [], .other hr' ?_ ?_, hcan, rfl⟩
    · rintro attrs inner rfl
      obtain ⟨_, _, rfl, -⟩ := canonical_eq_attributed hcan.symm
      exact hatt _ _ rfl
    · rintro name args rfl
      obtain ⟨_, rfl, -⟩ := canonical_eq_con hcan.symm
      exact hcon _ _ rfl

end Canonical

section Within

variable {env : Env} {s : Solver} {a b x : Ty} {as bs : List TypeAttributes}

lemma headBy_attributedAll_iff (t : Ty) :
    HeadBy env (Resolves s) (attributedAll t as) x bs ↔
      ∃ rest, bs = as.reverse ++ rest ∧ HeadBy env (Resolves s) t x rest := by
  induction as generalizing t bs with
  | nil =>
    constructor
    · intro h
      exact ⟨bs, rfl, h⟩
    · rintro ⟨rest, rfl, h⟩
      exact h
  | cons attrs as ih =>
    have hs : attributedAll t (attrs :: as) = attributedAll (.attributed attrs t) as := rfl
    rw [hs, ih]
    constructor
    · rintro ⟨rest, rfl, h⟩
      obtain ⟨last, rfl, hl⟩ := headBy_attributed_iff.mp h
      refine ⟨last, ?_, hl⟩
      rw [reverse_cons, append_assoc, singleton_append]
    · rintro ⟨last, rfl, hl⟩
      refine ⟨attrs :: last, ?_, headBy_attributed_iff.mpr ⟨last, rfl, hl⟩⟩
      rw [reverse_cons, append_assoc, singleton_append]

lemma Entails.reverse (h : Entails as bs) : Entails as.reverse bs.reverse where
  constraints := by
    intro b hb key value hval
    obtain ⟨a, ha, heq⟩ := h.constraints b (mem_reverse.mp hb) key value hval
    exact ⟨a, mem_reverse.mpr ha, heq⟩
  extensions := by
    intro b hb key value hval hexe
    obtain ⟨a, ha, heq⟩ := h.extensions b (mem_reverse.mp hb) key value hval hexe
    exact ⟨a, mem_reverse.mpr ha, heq⟩

lemma Entails.append {rest rest' : List TypeAttributes} (h : Entails as bs)
    (hr : rest.map TypeAttributes.canonical = rest'.map TypeAttributes.canonical) :
    Entails (as ++ rest) (bs ++ rest') := by
  have hmatch : ∀ b ∈ rest', ∃ a ∈ rest, a.canonical = b.canonical := by
    intro b hb
    have hmem := mem_map_of_mem (f := TypeAttributes.canonical) hb
    rw [← hr] at hmem
    exact mem_map.mp hmem
  constructor
  · intro b hb key value hval
    rcases mem_append.mp hb with hb | hb
    · obtain ⟨a, ha, heq⟩ := h.constraints b hb key value hval
      exact ⟨a, mem_append_left _ ha, heq⟩
    · obtain ⟨a, ha, heq⟩ := hmatch b hb
      exact ⟨a, mem_append_right _ ha, heq ▸ hval⟩
  · intro b hb key value hval hexe
    rcases mem_append.mp hb with hb | hb
    · obtain ⟨a, ha, heq⟩ := h.extensions b hb key value hval hexe
      exact ⟨a, mem_append_left _ ha, heq⟩
    · obtain ⟨a, ha, heq⟩ := hmatch b hb
      exact ⟨a, mem_append_right _ ha, heq ▸ hval⟩

/-- The target has the head of the source, or it is a union with such a member. -/
inductive Within (env : Env) (s : Solver) (a : Ty) : Ty → Prop
  | here {b x y : Ty} {as bs : List TypeAttributes} (left : HeadBy env (Resolves s) a x as)
      (right : HeadBy env (Resolves s) b y bs) (eq : x.canonical = y.canonical)
      (entails : Entails as bs) : Within env s a b
  | member {b y : Ty} {ys : List Ty} {bs : List TypeAttributes}
      (head : HeadBy env (Resolves s) b (.union ys) bs) (member : y ∈ ys)
      (below : Within env s a (attributedAll y bs)) : Within env s a b

lemma Within.memberLeft {xs : List Ty} (h : Within env s a b)
    (hun : HeadBy env (Resolves s) a (.union xs) as) {m : Ty} (hm : m ∈ xs)
    (hh : HeadBy env (Resolves s) (attributedAll m as) x bs) :
    Within env s (attributedAll m as) b := by
  induction h with
  | here left right eq entails =>
    obtain ⟨rfl, rfl⟩ := left.unique (resolves_unique s) hun
    obtain ⟨ys, rfl, hys⟩ := canonical_eq_union eq
    obtain ⟨y, hy, hym⟩ := exists_mem_canonical hys.symm hm
    obtain ⟨rest, rfl, hr⟩ := (headBy_attributedAll_iff m).mp hh
    obtain ⟨x', rest', hh', hx, hr'⟩ := hr.congr hym.symm
    apply Within.member right hy
    exact .here hh ((headBy_attributedAll_iff y).mpr ⟨rest', rfl, hh'⟩) hx
      (entails.reverse.append hr')
  | member head member _ ih => exact .member head member ih

lemma Within.not_denied (h : Within env s a b) (n : Nat) : ¬Denied env (Resolves s) n a b := by
  induction n generalizing a b with
  | zero => exact id
  | succ n ih =>
    intro hden
    cases hden with
    | unionLeft head member below =>
      obtain ⟨x, bs, hh⟩ := below.headLeft
      exact ih (h.memberLeft head member hh) below
    | unionRight left leaf right _ members =>
      cases h with
      | here left' right' eq =>
        obtain ⟨rfl, -⟩ := left.unique (resolves_unique s) left'
        obtain ⟨rfl, -⟩ := right.unique (resolves_unique s) right'
        exact leaf (isUnion_congr eq trivial)
      | member head member below =>
        obtain ⟨hun, rfl⟩ := head.unique (resolves_unique s) right
        obtain rfl := Ty.union.inj hun
        exact ih below (members _ member)
    | heads left right _ leaf' ne =>
      cases h with
      | here left' right' eq =>
        obtain ⟨rfl, -⟩ := left.unique (resolves_unique s) left'
        obtain ⟨rfl, -⟩ := right.unique (resolves_unique s) right'
        exact ne eq
      | member head =>
        obtain ⟨rfl, -⟩ := head.unique (resolves_unique s) right
        exact leaf' trivial

end Within

section Exclusion

variable {env : Env} {s s' : Solver} {a b : Ty} {as bs : List TypeAttributes} {n : Nat}

lemma Denied.memberLeft {xs : List Ty} (h : Denied env (Resolves s) n a b)
    (hun : HeadBy env (Resolves s) a (.union xs) as) :
    ∃ m, ∃ x ∈ xs, Denied env (Resolves s) m (attributedAll x as) b := by
  cases n with
  | zero => exact h.elim
  | succ n =>
    cases h with
    | unionLeft head member below =>
      obtain ⟨heq, rfl⟩ := head.unique (resolves_unique s) hun
      obtain rfl := Ty.union.inj heq
      exact ⟨n, _, member, below⟩
    | unionRight left leaf | heads left _ leaf =>
      obtain ⟨rfl, -⟩ := left.unique (resolves_unique s) hun
      exact absurd trivial leaf

lemma Denied.memberRight {ys : List Ty} (h : Denied env (Resolves s) n a b)
    (hun : HeadBy env (Resolves s) b (.union ys) bs) {y : Ty} (hy : y ∈ ys) :
    ∃ m, Denied env (Resolves s) m a (attributedAll y bs) := by
  induction n generalizing a with
  | zero => exact h.elim
  | succ n ih =>
    cases h with
    | unionLeft head member below =>
      obtain ⟨m, hm⟩ := ih below
      exact ⟨m + 1, .unionLeft head member hm⟩
    | unionRight _ _ right _ members =>
      obtain ⟨heq, rfl⟩ := right.unique (resolves_unique s) hun
      obtain rfl := Ty.union.inj heq
      exact ⟨n, members y hy⟩
    | heads _ right _ leaf' =>
      obtain ⟨rfl, -⟩ := right.unique (resolves_unique s) hun
      exact absurd trivial leaf'

lemma Confirmed.not_denied (hlat : s.Later s') (h : Confirmed env (Peeks s) n a b) (m : Nat) :
    ¬Denied env (Resolves s') m a b := by
  have hfi : ∀ xs : List Ty, Final (.union xs) := fun xs => ⟨fun _ => nofun, fun _ _ => nofun⟩
  induction n generalizing a b m with
  | zero => exact h.elim
  | succ n ih =>
    intro hden
    cases h with
    | unionLeft head members =>
      obtain ⟨k, x, hx, hden⟩ := hden.memberLeft (head.later hlat (hfi _))
      exact ih (members x hx) k hden
    | unionRight head member below =>
      obtain ⟨k, hden⟩ := hden.memberRight (head.later hlat (hfi _)) member
      exact ih below k hden
    | equal left right entails eq =>
      obtain ⟨x', as', hlt⟩ := hden.headLeft
      obtain ⟨rest, rfl, hr⟩ := (headBy_later_iff hlat left).mp hlt
      obtain ⟨y', rest', hr', hx, hats⟩ := hr.congr eq
      have hrt := (headBy_later_iff hlat right).mpr ⟨rest', rfl, hr'⟩
      have hwi : Within env s' a b := by
        apply Within.here hlt hrt hx
        exact entails.append hats
      exact hwi.not_denied m hden
    | heads left right related =>
      obtain ⟨⟨hx, hlf⟩, hy, hlf'⟩ := related.final
      have hlt := left.later hlat hx
      have hrt := right.later hlat hy
      cases m with
      | zero => exact hden
      | succ m =>
        cases hden with
        | unionLeft head =>
          obtain ⟨rfl, -⟩ := hlt.unique (resolves_unique s') head
          exact hlf trivial
        | unionRight _ _ head =>
          obtain ⟨rfl, -⟩ := hrt.unique (resolves_unique s') head
          exact hlf' trivial
        | heads left' right' _ _ _ clash =>
          obtain ⟨rfl, -⟩ := hlt.unique (resolves_unique s') left'
          obtain ⟨rfl, -⟩ := hrt.unique (resolves_unique s') right'
          exact related.not_clash (fun _ _ h => ih h m) clash

end Exclusion

end Morphir.Typing
