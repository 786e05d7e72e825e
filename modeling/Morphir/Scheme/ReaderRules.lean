import Morphir.Scheme.Reader

/-!
# The rules of the reader

What a successful skip or read does, as rules without fuel: the functions
follow the rules, and whatever the rules derive the functions compute with
enough fuel.
-/

namespace Morphir.Scheme

open Reader List Scheme Except

variable {F : Type} [Doubles F]

def NotTrivia : List Char → Prop
  | [] => True
  | c :: cs => isBlank c = false ∧ c ≠ ';' ∧ ¬ ['#', '|'] <+: c :: cs ∧ ¬ ['#', ';'] <+: c :: cs

instance (rest : List Char) : Decidable (NotTrivia rest) := by
  cases rest <;> unfold NotTrivia <;> infer_instance

/-- The rest of a text that starts with a datum that is no list, quotation or
vector. -/
def StartsAtom : List Char → Prop
  | [] => False
  | c :: cs => c ≠ '(' ∧ c ≠ '[' ∧ c ≠ ')' ∧ c ≠ ']' ∧ c ≠ '\'' ∧ c ≠ '`' ∧ c ≠ ',' ∧
      ¬ ['#', '('] <+: c :: cs

/-- The judgements of the reader: a skip, a read, a read at the first
character of a datum, and a read of the rest of a list. -/
inductive Judgement (F : Type)
  | skips (depth : Nat) (topLevel : Bool) (r r' : Reader)
  | reads (depth : Nat) (r : Reader) (datum : Datum F) (r' : Reader)
  | reading (depth : Nat) (r : Reader) (datum : Datum F) (r' : Reader)
  | listing (depth : Nat) (close : Char) (items : List (Datum F)) (r : Reader) (datum : Datum F)
      (r' : Reader)

inductive Derives : Judgement F → Prop
  | stop {depth : Nat} {topLevel : Bool} {r : Reader} (h : NotTrivia r.rest) :
      Derives (.skips depth topLevel r r)
  | blank {depth : Nat} {topLevel : Bool} {r r' : Reader} {c : Char} {cs : List Char}
      (h : r.rest = c :: cs) (hc : isBlank c = true)
      (hskip : Derives (.skips depth topLevel (r.move 1) r')) :
      Derives (.skips depth topLevel r r')
  | line {depth : Nat} {topLevel : Bool} {r r' : Reader} {cs : List Char}
      (h : r.rest = ';' :: cs)
      (hskip : Derives (.skips depth topLevel
        ((r.comment topLevel (r.rest.takeWhile (· ≠ '\n')).length).move
          (r.rest.takeWhile (· ≠ '\n')).length) r')) :
      Derives (.skips depth topLevel r r')
  | block {depth : Nat} {topLevel : Bool} {r r' : Reader} {cs : List Char} {n : Nat}
      (h : r.rest = '#' :: '|' :: cs) (hn : blockComment 1 cs = some n)
      (hskip : Derives (.skips depth topLevel (r.move (n + 2)) r')) :
      Derives (.skips depth topLevel r r')
  | discard {depth : Nat} {topLevel : Bool} {r next r' : Reader} {cs : List Char} {d : Datum F}
      (h : r.rest = '#' :: ';' :: cs) (hread : Derives (.reads (depth + 1) (r.move 2) d next))
      (hskip : Derives (.skips depth topLevel (next.truncate r.mark) r')) :
      Derives (.skips depth topLevel r r')
  | read {depth : Nat} {r r₁ r' : Reader} {d : Datum F} (hdepth : depth ≤ 256)
      (hskip : Derives (.skips depth false r r₁)) (hdatum : Derives (.reading depth r₁ d r')) :
      Derives (.reads depth r d r')
  | list {depth : Nat} {r r' : Reader} {c : Char} {cs : List Char} {d : Datum F}
      (h : r.rest = c :: cs) (hc : c = '(' ∨ c = '[')
      (hitems : Derives (.listing depth (closing c) [] (r.push.move 1) d r')) :
      Derives (.reading depth r d r')
  | quotation {depth : Nat} {r r' : Reader} {cs : List Char} {d : Datum F}
      (h : r.rest = '\'' :: cs) (hread : Derives (.reads (depth + 1) (r.push.push.move 1) d r')) :
      Derives (.reading depth r (.sequence [.symbol "quote", d] none) r')
  | vector {depth : Nat} {r next : Reader} {cs : List Char} {ds : List (Datum F)}
      (h : r.rest = '#' :: '(' :: cs)
      (hread : Derives (.reads (depth + 1) (r.push.move 1) (.sequence ds none) next)) :
      Derives (.reading depth r (.vector ds) (next.unrecord r.push.mark))
  | atom {depth : Nat} {r r' : Reader} {d : Datum F} (h : StartsAtom r.rest)
      (hatom : readAtom r.push = .ok (d, r')) : Derives (.reading depth r d r')
  | close {depth : Nat} {c : Char} {ds : List (Datum F)} {r r₁ : Reader} {cs : List Char}
      (hskip : Derives (.skips depth false r r₁)) (h : r₁.rest = c :: cs) :
      Derives (.listing depth c ds r (.sequence ds none) (r₁.move 1))
  | tail {depth : Nat} {c : Char} {ds : List (Datum F)} {r r₁ r₂ r₃ : Reader} {cs : List Char}
      {d : Datum F} (hskip : Derives (.skips depth false r r₁)) (h : isDot r₁.rest = true)
      (hc : c ≠ '.') (hds : ds ≠ []) (hread : Derives (.reads (depth + 1) (r₁.move 1) d r₂))
      (hskip' : Derives (.skips depth false r₂ r₃)) (h' : r₃.rest = c :: cs) :
      Derives (.listing depth c ds r (.sequence ds (some d)) (r₃.move 1))
  | item {depth : Nat} {c : Char} {ds : List (Datum F)} {r r₁ r₂ r' : Reader} {d d' : Datum F}
      (hskip : Derives (.skips depth false r r₁)) (hne : r₁.rest ≠ [])
      (hc : r₁.rest.head? ≠ some c) (h : isDot r₁.rest = false)
      (hread : Derives (.reads (depth + 1) r₁ d r₂))
      (hitems : Derives (.listing depth c (ds ++ [d]) r₂ d' r')) :
      Derives (.listing depth c ds r d' r')

def Follows (F : Type) [Doubles F] (fuel : Nat) : Prop :=
  (∀ depth topLevel r r', Scheme.skip F fuel depth topLevel r = .ok r' →
    Derives (F := F) (.skips depth topLevel r r')) ∧
  (∀ depth r (d : Datum F) r', Scheme.read F fuel depth r = .ok (d, r') →
    Derives (.reads depth r d r')) ∧
  (∀ depth r (d : Datum F) r', readDatum F fuel depth r = .ok (d, r') →
    Derives (.reading depth r d r')) ∧
  ∀ depth close (items : List (Datum F)) r d r', (close = ')' ∨ close = ']') →
    readItems F fuel depth close items r = .ok (d, r') →
    Derives (.listing depth close items r d r')

lemma closing_cases (c : Char) : closing c = ')' ∨ closing c = ']' := by
  unfold closing
  split_ifs
  · exact .inl rfl
  · exact .inr rfl

variable {r r' : Reader} {depth : Nat} {topLevel : Bool}

variable {fuel n : Nat}

lemma skip_follows (ih : Follows F fuel) (h : skip F (fuel + 1) depth topLevel r = .ok r')
    : Derives (F := F) (.skips depth topLevel r r') := by
  obtain ⟨ihskip, ihread, _, _⟩ := ih
  unfold skip at h
  cases hr : r.rest with
  | nil =>
    simp only [hr, ok.injEq] at h
    subst h
    exact .stop (by simp [hr, NotTrivia])
  | cons c cs =>
    simp only [hr] at h
    split_ifs at h with hbl hln hblock hdis
    · exact .blank hr hbl (ihskip _ _ _ _ h)
    · subst hln
      refine .line hr ?_
      rw [hr]
      exact ihskip _ _ _ _ h
    · obtain ⟨rest, hblock⟩ := hblock
      simp only [cons_append, nil_append] at hblock
      obtain ⟨rfl, rfl⟩ := hblock
      cases hn : blockComment 1 rest with
      | none => simp [hn] at h
      | some n =>
        simp only [drop_succ_cons, drop_zero, hn] at h
        exact .block hr hn (ihskip _ _ _ _ h)
    · obtain ⟨rest, hdis⟩ := hdis
      obtain ⟨rfl, rfl⟩ := hdis
      cases hrd : read F fuel (depth + 1) (r.move 2) with
      | error error => simp [hrd] at h
      | ok result =>
        simp only [hrd] at h
        exact .discard hr (ihread _ _ _ _ hrd) (ihskip _ _ _ _ h)
    · simp only [ok.injEq] at h
      subst h
      refine .stop ?_
      rw [hr]
      exact ⟨by simpa using hbl, hln, hblock, hdis⟩

variable {d : Datum F}

lemma read_follows (ih : Follows F fuel) (h : read F (fuel + 1) depth r = .ok (d, r')) :
    Derives (.reads depth r d r') := by
  obtain ⟨ihskip, _, ihdatum, _⟩ := ih
  unfold read at h
  split_ifs at h with hdep
  cases hsk : skip F fuel depth false r with
  | error error => simp [hsk] at h
  | ok r₁ =>
    simp only [hsk] at h
    exact .read (by omega) (ihskip _ _ _ _ hsk) (ihdatum _ _ _ _ h)

lemma datum_follows (ih : Follows F fuel) (h : readDatum F (fuel + 1) depth r = .ok (d, r')) :
    Derives (.reading depth r d r') := by
  obtain ⟨_, ihread, _, ihitems⟩ := ih
  unfold readDatum at h
  cases hr : r.rest with
  | nil => simp [hr] at h
  | cons c cs =>
    simp only [hr] at h
    split_ifs at h with hli hclo hq hquasi hvec
    · exact .list hr hli (ihitems _ _ _ _ _ _ (closing_cases c) h)
    · subst hq
      cases hrd : read F fuel (depth + 1) (r.push.push.move 1) with
      | error error => simp [hrd] at h
      | ok result =>
        simp only [hrd] at h
        obtain ⟨rfl, rfl⟩ := h
        exact .quotation hr (ihread _ _ _ _ hrd)
    · obtain ⟨rest, hvec⟩ := hvec
      obtain ⟨rfl, rfl⟩ := hvec
      cases hrd : read F fuel (depth + 1) (r.push.move 1) with
      | error error => simp [hrd] at h
      | ok result =>
        obtain ⟨d', next⟩ := result
        cases d' with
        | sequence items tail =>
          cases tail with
          | none =>
            simp only [hrd] at h
            obtain ⟨rfl, rfl⟩ := h
            exact .vector hr (ihread _ _ _ _ hrd)
          | some tail => simp [hrd] at h
        | _ => simp [hrd] at h
    · refine .atom ?_ h
      rw [hr]
      simp only [not_or] at hli hclo hquasi
      exact ⟨hli.1, hli.2, hclo.1, hclo.2, hq, hquasi.1, hquasi.2, hvec⟩

lemma items_follows (ih : Follows F fuel) {close : Char}
    (hclo : close = ')' ∨ close = ']') {items : List (Datum F)} {r r' : Reader} {d : Datum F}
    (h : readItems F (fuel + 1) depth close items r = .ok (d, r')) :
    Derives (.listing depth close items r d r') := by
  obtain ⟨ihskip, ihread, _, ihitems⟩ := ih
  unfold readItems at h
  cases hsk : skip F fuel depth false r with
  | error error => simp [hsk] at h
  | ok r₁ =>
    simp only [hsk] at h
    have hski := ihskip _ _ _ _ hsk
    cases hr : r₁.rest with
    | nil => simp [hr] at h
    | cons c cs =>
      simp only [hr] at h
      split_ifs at h with hc hdot hemp
      · subst hc
        obtain ⟨rfl, rfl⟩ := h
        exact .close hski hr
      · cases hrd : read F fuel (depth + 1) (r₁.move 1) with
        | error error => simp [hrd] at h
        | ok result =>
          obtain ⟨d', r₂⟩ := result
          simp only [hrd] at h
          cases hsk' : skip F fuel depth false r₂ with
          | error error => simp [hsk'] at h
          | ok r₃ =>
            simp only [hsk'] at h
            split_ifs at h with hend
            obtain ⟨rfl, rfl⟩ := h
            obtain ⟨cs', hcs'⟩ : ∃ cs', r₃.rest = close :: cs' := by
              cases hr₃ : r₃.rest with
              | nil => simp [hr₃] at hend
              | cons c' cs' =>
                rw [hr₃] at hend
                cases hend
                exact ⟨cs', rfl⟩
            refine .tail hski (hr ▸ hdot) ?_ (by simpa using hemp)
              (ihread _ _ _ _ hrd) (ihskip _ _ _ _ hsk') hcs'
            rcases hclo with rfl | rfl <;> decide
      · cases hrd : read F fuel (depth + 1) r₁ with
        | error error => simp [hrd] at h
        | ok result =>
          simp only [hrd] at h
          refine .item hski (by simp [hr]) ?_ ?_ (ihread _ _ _ _ hrd)
            (ihitems _ _ _ _ _ _ hclo h)
          · rw [hr]
            simpa using hc
          · rw [hr]
            simpa using hdot

lemma follows (fuel : Nat) : Follows F fuel := by
  induction fuel with
  | zero =>
    refine ⟨?_, ?_, ?_, ?_⟩
    · intro depth topLevel r r' h
      simp [skip] at h
    · intro depth r d r' h
      simp [read] at h
    · intro depth r d r' h
      simp [readDatum] at h
    · intro depth close items r d r' _ h
      simp [readItems] at h
  | succ fuel ih =>
    exact ⟨fun _ _ _ _ h => skip_follows ih h, fun _ _ _ _ h => read_follows ih h,
      fun _ _ _ _ h => datum_follows ih h, fun _ _ _ _ _ _ hclo h => items_follows ih hclo h⟩

def Moves (r : Reader) (s : List Char) (r' : Reader) : Prop :=
  r.rest = s ++ r'.rest ∧ r'.before = s.reverse ++ r.before

lemma Moves.refl (r : Reader) : Moves r [] r := ⟨rfl, rfl⟩

lemma Moves.trans {r₁ r₂ : Reader} {s t : List Char} (h : Moves r s r₁) (h' : Moves r₁ t r₂) :
    Moves r (s ++ t) r₂ := by
  refine ⟨?_, ?_⟩
  · rw [h.1, h'.1, append_assoc]
  · rw [h'.2, h.2, reverse_append, append_assoc]

lemma moves_move (r : Reader) (n : Nat) : Moves r (r.rest.take n) (r.move n) :=
  ⟨(take_append_drop n r.rest).symm, rfl⟩

@[simp] lemma rest_push (r : Reader) : r.push.rest = r.rest := rfl

@[simp] lemma before_push (r : Reader) : r.push.before = r.before := rfl

@[simp] lemma rest_move (r : Reader) (n : Nat) : (r.move n).rest = r.rest.drop n := rfl

@[simp] lemma rest_comment (r : Reader) (topLevel : Bool) (n : Nat) :
    (r.comment topLevel n).rest = r.rest := by
  simp only [Reader.comment]
  split_ifs <;> rfl

@[simp] lemma before_comment (r : Reader) (topLevel : Bool) (n : Nat) :
    (r.comment topLevel n).before = r.before := by
  simp only [Reader.comment]
  split_ifs <;> rfl

def Consumes : Judgement F → Prop
  | .skips _ _ r r' => (∃ s, Moves r s r') ∧ NotTrivia r'.rest
  | .reads _ r _ r' => ∃ s, s ≠ [] ∧ Moves r s r'
  | .reading _ r _ r' => ∃ s, s ≠ [] ∧ Moves r s r'
  | .listing _ _ _ r _ r' => ∃ s, s ≠ [] ∧ Moves r s r'

lemma tokenDatum_nil (index : Nat) : ∃ error, tokenDatum (F := F) [] index = .error error := by
  simp [tokenDatum, parseNumber, integerToken, splitSlash, parseReal, hasPointOrExponent]

lemma readAtom_move (h : readAtom r = .ok (d, r')) : ∃ n, 0 < n ∧ r' = r.move n := by
  unfold readAtom at h
  split at h
  next cs hr =>
    cases hquo : quoted '"' (r.index + 1) cs with
    | error error => simp [hquo] at h
    | ok result =>
      simp only [hquo, ok.injEq, Prod.mk.injEq] at h
      exact ⟨_, by omega, h.2.symm⟩
  next cs hr =>
    cases hquo : quoted '|' (r.index + 1) cs with
    | error error => simp [hquo] at h
    | ok result =>
      simp only [hquo, ok.injEq, Prod.mk.injEq] at h
      exact ⟨_, by omega, h.2.symm⟩
  next cs hr =>
    split_ifs at h
    cases hnm : namedCharacter (characterToken cs) with
    | none => simp [hnm] at h
    | some c =>
      simp only [hnm, ok.injEq, Prod.mk.injEq] at h
      exact ⟨_, by omega, h.2.symm⟩
  next =>
    cases hdt : tokenDatum (F := F) (token r.rest) (r.move (token r.rest).length).index with
    | error error => simp [hdt] at h
    | ok datum =>
      simp only [hdt, ok.injEq, Prod.mk.injEq] at h
      refine ⟨_, ?_, h.2.symm⟩
      rw [length_pos_iff]
      intro hnil
      obtain ⟨error, her⟩ := tokenDatum_nil (F := F) (r.move (token r.rest).length).index
      rw [hnil] at hdt
      rw [hnil] at her
      rw [hdt] at her
      cases her

lemma take_ne_nil {rest : List Char} (hn : 0 < n) (hr : rest ≠ []) : rest.take n ≠ [] := by
  intro h
  rcases take_eq_nil_iff.mp h with h0 | hnil
  · omega
  · exact hr hnil

lemma Derives.consumes {j : Judgement F} (h : Derives j) : Consumes j := by
  induction h with
  | stop h => exact ⟨⟨[], .refl _⟩, h⟩
  | blank h hc _ ih =>
    obtain ⟨⟨s, hs⟩, hsp⟩ := ih
    exact ⟨⟨_, (moves_move _ 1).trans hs⟩, hsp⟩
  | @line depth topLevel r r' cs h _ ih =>
    obtain ⟨⟨s, hs⟩, hsp⟩ := ih
    have hmv : Moves r (r.rest.take (r.rest.takeWhile (· ≠ '\n')).length)
        ((r.comment topLevel (r.rest.takeWhile (· ≠ '\n')).length).move
          (r.rest.takeWhile (· ≠ '\n')).length) := by
      have hmoves := moves_move (r.comment topLevel (r.rest.takeWhile (· ≠ '\n')).length)
        (r.rest.takeWhile (· ≠ '\n')).length
      simpa only [Moves, rest_comment, before_comment] using hmoves
    exact ⟨⟨_, hmv.trans hs⟩, hsp⟩
  | block h hn _ ih =>
    obtain ⟨⟨s, hs⟩, hsp⟩ := ih
    exact ⟨⟨_, (moves_move _ _).trans hs⟩, hsp⟩
  | discard h _ _ ihread ih =>
    obtain ⟨⟨s, hs⟩, hsp⟩ := ih
    obtain ⟨t, _, ht⟩ := ihread
    exact ⟨⟨_, ((moves_move _ 2).trans ht).trans hs⟩, hsp⟩
  | read hdep _ _ ihskip ih =>
    obtain ⟨⟨s, hs⟩, _⟩ := ihskip
    obtain ⟨t, hne, ht⟩ := ih
    exact ⟨_, by simp [hne], hs.trans ht⟩
  | @list depth r r' c cs d h hc _ ih | @vector depth r next cs ds h _ ih =>
    obtain ⟨s, hne, hs⟩ := ih
    have hmv := moves_move r.push 1
    exact ⟨_, by simp [hne], hmv.trans hs⟩
  | @quotation depth r r' cs d h _ ih =>
    obtain ⟨s, hne, hs⟩ := ih
    have hmv := moves_move r.push.push 1
    exact ⟨_, by simp [hne], hmv.trans hs⟩
  | @atom depth r r' d h hat =>
    obtain ⟨n, hn, rfl⟩ := readAtom_move hat
    have hne : r.rest ≠ [] := by
      intro hnil
      simp [hnil, StartsAtom] at h
    exact ⟨_, take_ne_nil hn hne, moves_move r.push n⟩
  | @close depth c ds r r₁ cs _ h ihskip =>
    obtain ⟨⟨s, hs⟩, _⟩ := ihskip
    exact ⟨_, by simp [h], hs.trans (moves_move _ 1)⟩
  | @tail depth c ds r r₁ r₂ r₃ cs d _ h hc hds _ _ h' ihskip ihread ihskip' =>
    obtain ⟨⟨s, hs⟩, _⟩ := ihskip
    obtain ⟨t, hne, ht⟩ := ihread
    obtain ⟨⟨u, hu⟩, _⟩ := ihskip'
    exact ⟨_, by simp [hne], hs.trans ((moves_move _ 1).trans (ht.trans
      (hu.trans (moves_move _ 1))))⟩
  | item _ hne hc h _ _ ihskip ihread ihitems =>
    obtain ⟨⟨s, hs⟩, _⟩ := ihskip
    obtain ⟨t, hne, ht⟩ := ihread
    obtain ⟨u, _, hu⟩ := ihitems
    exact ⟨_, by simp [hne], hs.trans (ht.trans hu)⟩

lemma Moves.length {s : List Char} (h : Moves r s r') :
    r.rest.length = s.length + r'.rest.length := by
  rw [h.1, length_append]

lemma Derives.skips_length (h : Derives (F := F) (.skips depth topLevel r r')) :
    r'.rest.length ≤ r.rest.length := by
  obtain ⟨⟨s, hs⟩, _⟩ := h.consumes
  have hlen := hs.length
  omega

lemma Derives.reads_length (h : Derives (.reads depth r d r')) :
    r'.rest.length < r.rest.length := by
  obtain ⟨s, hne, hs⟩ := h.consumes
  have hlen := hs.length
  have hpos := length_pos_iff.mpr hne
  omega

/-- What a judgement says about the functions: enough fuel is linear in the
rest of the text. -/
def Computes : Judgement F → Prop
  | .skips depth topLevel r r' =>
    ∀ n, 4 * r.rest.length + 1 ≤ n → skip F n depth topLevel r = .ok r'
  | .reads depth r d r' => ∀ n, 4 * r.rest.length + 3 ≤ n → Scheme.read F n depth r = .ok (d, r')
  | .reading depth r d r' => ∀ n, 4 * r.rest.length + 2 ≤ n → readDatum F n depth r = .ok (d, r')
  | .listing depth close items r d r' =>
    ∀ n, 4 * r.rest.length + 4 ≤ n → readItems F n depth close items r = .ok (d, r')

lemma isDot_head {rest : List Char} (h : isDot rest = true) : ∃ cs, rest = '.' :: cs := by
  unfold isDot at h
  split at h
  · exact ⟨_, rfl⟩
  · cases h

lemma Derives.computes {j : Judgement F} (h : Derives j) : Computes j := by
  induction h with
    (intro n hn
     obtain ⟨n, rfl⟩ : ∃ m, n = m + 1 := ⟨n - 1, by omega⟩)
  | @stop depth topLevel r h =>
    unfold skip
    cases hr : r.rest with
    | nil => rfl
    | cons c cs =>
      rw [hr] at h
      obtain ⟨hbl, hln, hblock, hdis⟩ := h
      simp only [hbl, hln, hblock, hdis]
      simp
  | @blank depth topLevel r r' c cs h hc _ ih =>
    unfold skip
    simp only [h, hc]
    refine ih n ?_
    simp only [h, rest_move, drop_succ_cons, drop_zero, length_cons] at hn ⊢
    omega
  | @line depth topLevel r r' cs h _ ih =>
    have hs := ih n (by
      have hpos : 0 < (r.rest.takeWhile (· ≠ '\n')).length := by simp [h]
      have hr : 0 < r.rest.length := by simp [h]
      simp only [rest_move, rest_comment, length_drop]
      omega)
    unfold skip
    rw [h] at hs ⊢
    simpa [isBlank] using hs
  | @block depth topLevel r r' cs k h hk _ ih =>
    have hs := ih n (by
      have hr : 0 < r.rest.length := by simp [h]
      simp only [rest_move, length_drop]
      omega)
    unfold skip
    simpa [h, isBlank, hk] using hs
  | @discard depth topLevel r next r' cs d h hrd _ ihread ih =>
    have hlen := hrd.reads_length
    simp only [rest_move, h, drop_succ_cons, drop_zero, length_cons] at hlen hn
    have hs := ihread n (by
      simp only [rest_move, h, drop_succ_cons, drop_zero]
      omega)
    have hr := ih n (by
      show 4 * next.rest.length + 1 ≤ n
      omega)
    unfold skip
    simpa [h, isBlank, hs] using hr
  | @read depth r r₁ r' d hdep hsk _ ihskip ih =>
    have hlen := hsk.skips_length
    unfold Scheme.read
    rw [if_neg (by omega), ihskip n (by omega)]
    exact ih n (by omega)
  | @list depth r r' c cs d h hc _ ih =>
    have hs := ih n (by
      simp only [rest_move, rest_push, h, drop_succ_cons, drop_zero, length_cons] at hn ⊢
      omega)
    unfold readDatum
    simpa only [h, hc, if_true] using hs
  | @quotation depth r r' cs d h _ ih | @vector depth r next cs ds h _ ih =>
    have hs := ih n (by
      simp only [rest_move, rest_push, h, drop_succ_cons, drop_zero, length_cons] at hn ⊢
      omega)
    unfold readDatum
    simp [h, hs]
  | @atom depth r r' d h hat =>
    unfold readDatum
    cases hr : r.rest with
    | nil => simp [hr, StartsAtom] at h
    | cons c cs =>
      rw [hr] at h
      obtain ⟨h1, h2, h3, h4, h5, h6, h7, h8⟩ := h
      simp only [h1, h2, h3, h4, h5, h6, h7, h8]
      simpa using hat
  | @close depth c ds r r₁ cs hsk h ihskip =>
    unfold readItems
    rw [ihskip n (by omega)]
    simp [h]
  | @tail depth c ds r r₁ r₂ r₃ cs d hsk h hc hds hrd hsk' h' ihskip ihread ihskip' =>
    obtain ⟨rest, hr⟩ := isDot_head h
    have hlen₁ := hsk.skips_length
    have hlen₂ := hrd.reads_length
    simp only [rest_move, hr, drop_succ_cons, drop_zero] at hlen₂
    have hs₁ := ihskip n (by omega)
    have hs₂ := ihread n (by
      simp only [rest_move, hr, drop_succ_cons, drop_zero]
      rw [hr, length_cons] at hlen₁
      omega)
    have hs₃ := ihskip' n (by
      rw [hr, length_cons] at hlen₁
      omega)
    rw [hr] at h
    unfold readItems
    simp only [hs₁, hr, Ne.symm hc, if_false, h, if_true, isEmpty_eq_false_iff.mpr hds,
      hs₂, hs₃, h']
    simp
  | @item depth c ds r r₁ r₂ r' d d' hsk hne hc h hrd _ ihskip ihread ih =>
    have hlen₁ := hsk.skips_length
    have hlen₂ := hrd.reads_length
    have hs₁ := ihskip n (by omega)
    have hs₂ := ihread n (by omega)
    have hs₃ := ih n (by omega)
    unfold readItems
    cases hr : r₁.rest with
    | nil => exact absurd hr hne
    | cons c' cs =>
      have hc' : c' ≠ c := by simpa [hr] using hc
      rw [hr] at h
      simp only [hs₁, hr, hc', if_false, h, hs₂, hs₃]
      simp

lemma Derives.reads_unique {r₁ r₂ : Reader} {d₁ d₂ : Datum F} (h₁ : Derives (.reads depth r d₁ r₁))
    (h₂ : Derives (.reads depth r d₂ r₂)) : d₁ = d₂ ∧ r₁ = r₂ := by
  have heq := (h₁.computes _ le_rfl).symm.trans (h₂.computes _ le_rfl)
  simpa using heq

lemma Derives.skips_unique {r₁ r₂ : Reader} (h₁ : Derives (F := F) (.skips depth topLevel r r₁))
    (h₂ : Derives (F := F) (.skips depth topLevel r r₂)) : r₁ = r₂ := by
  have heq := (h₁.computes _ le_rfl).symm.trans (h₂.computes _ le_rfl)
  simpa using heq

def plain (before rest : List Char) : Reader := ⟨before, rest, none, none⟩

@[simp] lemma rest_plain (b u : List Char) : (plain b u).rest = u := rfl

@[simp] lemma push_plain (b u : List Char) : (plain b u).push = plain b u := rfl

@[simp] lemma move_plain (b u : List Char) (n : Nat) :
    (plain b u).move n = plain ((u.take n).reverse ++ b) (u.drop n) := rfl

lemma move_plain_append (b s u : List Char) (hn : n = s.length) :
    (plain b (s ++ u)).move n = plain (s.reverse ++ b) u := by
  subst hn
  simp

lemma prefix_pair {a b c : Char} {cs : List Char} (h : [a, b] <+: c :: cs) :
    c = a ∧ ∃ t, cs = b :: t := by
  obtain ⟨t, ht⟩ := h
  simp only [cons_append, List.cons.injEq] at ht
  exact ⟨ht.1.symm, t, ht.2.symm⟩

lemma fuelFor_skip {length : Nat} (h : n ≤ length) : 4 * n + 1 ≤ fuelFor length := by
  unfold fuelFor
  omega

lemma parseProgram_of_reads {source b : List Char} (htri : NotTrivia source) (hne : source ≠ [])
    (h : Derives (.reads 0 (plain [] source) d (plain b []))) :
    parseProgram F source = .ok [d] := by
  have hsp : Derives (F := F) (.skips 0 true (plain [] source) (plain [] source)) := .stop htri
  have hsk := hsp.computes (fuelFor source.length) (fuelFor_skip le_rfl)
  have hrd := h.computes (fuelFor source.length) (by
    simp only [rest_plain, fuelFor]
    omega)
  obtain ⟨n, hn⟩ : ∃ n, source.length = n + 1 :=
    ⟨source.length - 1, by have := length_pos_iff.mpr hne; omega⟩
  have hsrc : source.isEmpty = false := by simpa using hne
  change (readForms F source.length (source.length + 1) [] (plain [] source)).map Prod.fst = _
  rw [readForms, hsk]
  simp only [rest_plain, hsrc, hrd]
  rw [hn]
  rfl

end Morphir.Scheme
