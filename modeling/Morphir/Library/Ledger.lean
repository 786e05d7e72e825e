import Morphir.Library.Fallible

/-!
# Ledgers

Computations enter keys in a ledger, each key once and no more of them than a limit allows.
What such a computation returns does not depend on what was entered before, and a list of
them is run in every order with the same results.
-/

namespace Ledger

open Fallible List

universe u

variable {κ : Type} {ε : Type u} {α β : Type} {limit : Nat}

structure Fits (limit : Nat) (entered added : List κ) : Prop where
  fresh : entered.Disjoint added
  room : added = [] ∨ entered.length + added.length ≤ limit

/-- The computation adds the same keys to every ledger that they fit in, and returns the same. -/
def Framed (limit : Nat) (f : List κ → Except ε (α × List κ)) : Prop :=
  ∀ ⦃entered a after⦄, f entered = .ok (a, after) → ∃ added, after = entered ++ added ∧
    Fits limit entered added ∧ ∀ other, Fits limit other added → f other = .ok (a, other ++ added)

variable {entered other added more : List κ}

lemma fits_nil : Fits limit entered [] := ⟨disjoint_nil_right entered, .inl rfl⟩

lemma Fits.append (h : Fits limit entered added) (h' : Fits limit (entered ++ added) more) :
    Fits limit entered (added ++ more) := by
  constructor
  · exact disjoint_append_right.mpr ⟨h.fresh, (disjoint_append_left.mp h'.fresh).1⟩
  · rcases h'.room with rfl | hrm
    · rw [append_nil]
      exact h.room
    · rw [length_append] at hrm
      rw [length_append]
      omega

lemma Fits.left (h : Fits limit entered (added ++ more)) : Fits limit entered added := by
  constructor
  · exact (disjoint_append_right.mp h.fresh).1
  · rcases h.room with hnil | hrm
    · exact .inl (append_eq_nil_iff.mp hnil).1
    · rw [length_append] at hrm
      omega

lemma Fits.right (h : Fits limit entered (added ++ more)) (hdis : added.Disjoint more) :
    Fits limit (entered ++ added) more := by
  constructor
  · exact disjoint_append_left.mpr ⟨(disjoint_append_right.mp h.fresh).2, hdis⟩
  · rcases h.room with hnil | hrm
    · exact .inl (append_eq_nil_iff.mp hnil).2
    · rw [length_append] at hrm ⊢
      omega

lemma Fits.perm (h : Fits limit entered added) (he : entered.Perm other) (ha : added.Perm more) :
    Fits limit other more := by
  constructor
  · intro key ho hm
    exact h.fresh (he.mem_iff.mpr ho) (ha.mem_iff.mpr hm)
  · rw [← he.length_eq, ← ha.length_eq]
    refine h.room.imp_left fun hnil => ?_
    rw [hnil] at ha
    exact ha.nil_eq.symm

lemma framed_pure (a : α) :
    Framed limit fun entered : List κ => (.ok (a, entered) : Except ε (α × List κ)) := by
  rintro entered _ _ ⟨⟩
  exact ⟨[], (append_nil entered).symm, fits_nil, fun other _ => by rw [append_nil]⟩

lemma framed_error (e : ε) :
    Framed limit fun _ : List κ => (.error e : Except ε (α × List κ)) := nofun

variable {g : α → List κ → Except ε (β × List κ)}

lemma Framed.bind {f : List κ → Except ε (α × List κ)} (hf : Framed limit f)
    (hg : ∀ a, Framed limit (g a)) :
    Framed limit fun entered => f entered >>= fun r => g r.1 r.2 := by
  intro entered b after h
  obtain ⟨⟨a, middle⟩, hfst, h⟩ := bind_ok h
  obtain ⟨added, rfl, hadded, ho⟩ := hf hfst
  obtain ⟨more, rfl, hm, hoth⟩ := hg a h
  refine ⟨added ++ more, append_assoc _ _ _, hadded.append hm, fun other hfi => ?_⟩
  have hrt := hfi.right (disjoint_append_left.mp hm.fresh).2
  dsimp only
  rw [ho other hfi.left, bind_eq, hoth (other ++ added) hrt, append_assoc]

lemma Framed.after {x : Except ε α} (hg : ∀ a, Framed limit (g a)) :
    Framed limit fun entered => x >>= fun a => g a entered := by
  cases x with
  | error e => exact framed_error e
  | ok a => exact hg a

lemma Framed.enter [DecidableEq κ] {key : κ} {twice full : ε} {x : Except ε α}
    (hg : ∀ a, Framed limit (g a)) :
    Framed limit fun entered => refuse (key ∈ entered) twice >>= fun _ =>
      refuse (limit ≤ entered.length) full >>= fun _ => x >>= fun a => g a (entered ++ [key]) := by
  intro entered b after h
  obtain ⟨_, hkey, h⟩ := bind_ok h
  obtain ⟨_, hrm, h⟩ := bind_ok h
  obtain ⟨a, rfl, h⟩ := bind_ok h
  obtain ⟨added, rfl, hadded, ho⟩ := hg a h
  have hsin : Fits limit entered [key] :=
    ⟨disjoint_singleton.mpr (refuse_ok hkey), .inr (Nat.not_le.mp (refuse_ok hrm))⟩
  refine ⟨[key] ++ added, append_assoc _ _ _, hsin.append hadded, fun other hfi => ?_⟩
  have hfst := hfi.left
  have hf : key ∉ other := disjoint_singleton.mp hfst.fresh
  have hless : ¬ limit ≤ other.length := Nat.not_le.mpr (hfst.room.resolve_left nofun)
  have hr := hfi.right (disjoint_append_left.mp hadded.fresh).2
  dsimp only
  rw [refuse, if_neg hf, bind_eq, refuse, if_neg hless, bind_eq, bind_eq, ho _ hr, append_assoc]

def collect (f : α → List κ → Except ε (β × List κ)) :
    List α → List κ → Except ε (List β × List κ)
  | [], entered => .ok ([], entered)
  | a :: items, entered => do
    let (b, entered) ← f a entered
    let (bs, entered) ← collect f items entered
    pure (b :: bs, entered)

variable {f : α → List κ → Except ε (β × List κ)}

lemma framed_collect (hf : ∀ a, Framed limit (f a)) (items : List α) :
    Framed limit (collect f items) := by
  induction items with
  | nil => exact framed_pure []
  | cons a items ih => exact (hf a).bind fun b => ih.bind fun bs => framed_pure (b :: bs)

lemma collect_cons_ok {a : α} {items : List α} {bs : List β} {after : List κ} :
    collect f (a :: items) entered = .ok (bs, after) ↔ ∃ b middle rest, bs = b :: rest ∧
      f a entered = .ok (b, middle) ∧ collect f items middle = .ok (rest, after) := by
  constructor
  · intro h
    obtain ⟨⟨b, middle⟩, hfst, h⟩ := bind_ok h
    obtain ⟨⟨rest, last⟩, hr, h⟩ := bind_ok h
    cases h
    exact ⟨b, middle, rest, rfl, hfst, hr⟩
  · rintro ⟨b, middle, rest, rfl, hfst, hr⟩
    rw [collect, hfst, bind_eq]
    dsimp only
    rw [hr]
    rfl

lemma collect_perm (hf : ∀ a, Framed limit (f a)) {items items' : List α} (hpm : items.Perm items')
    {bs : List β} {after : List κ} (h : collect f items entered = .ok (bs, after)) : ∃ bs' after',
      collect f items' entered = .ok (bs', after') ∧ bs.Perm bs' ∧ after.Perm after' := by
  induction hpm generalizing entered bs after with
  | nil => exact ⟨bs, after, h, .refl _, .refl _⟩
  | cons a _ ih =>
    obtain ⟨b, middle, rest, rfl, hfst, hr⟩ := collect_cons_ok.mp h
    obtain ⟨rest', after', hr', hpm, haft⟩ := ih hr
    exact ⟨b :: rest', after', collect_cons_ok.mpr ⟨b, middle, rest', rfl, hfst, hr'⟩,
      hpm.cons b, haft⟩
  | swap a a' items =>
    obtain ⟨b', _, _, rfl, hfst, hr⟩ := collect_cons_ok.mp h
    obtain ⟨b, _, rest, rfl, hsnd, hr⟩ := collect_cons_ok.mp hr
    obtain ⟨added', rfl, hadded', ho'⟩ := hf a' hfst
    obtain ⟨added, rfl, hadded, ho⟩ := hf a hsnd
    obtain ⟨more, rfl, hm, hoth⟩ := framed_collect hf items hr
    have hb : Fits limit entered (added ++ added') :=
      (hadded'.append hadded).perm (.refl _) perm_append_comm
    have hdis := disjoint_comm.mp (disjoint_append_left.mp hadded.fresh).2
    have hmid : (entered ++ added' ++ added).Perm (entered ++ added ++ added') := by
      rw [append_assoc, append_assoc]
      exact perm_append_comm.append_left entered
    have hl := hoth _ (hm.perm hmid (.refl more))
    refine ⟨b :: b' :: rest, _, collect_cons_ok.mpr ⟨b, _, _, rfl, ho _ hb.left, ?_⟩,
      .swap b b' rest, hmid.append_right more⟩
    exact collect_cons_ok.mpr ⟨b', _, rest, rfl, ho' _ (hb.right hdis), hl⟩
  | trans _ _ ih ih' =>
    obtain ⟨bs', after', h', hbs, haft⟩ := ih h
    obtain ⟨bs'', after'', h'', hbs', haft'⟩ := ih' h'
    exact ⟨bs'', after'', h'', hbs.trans hbs', haft.trans haft'⟩

end Ledger
