import Morphir.Scheme.ReaderRules

/-!
# Reading a slice of a text

A derivation depends on the characters it consumes and on nothing after them
but the end of the last token.  It therefore also holds when the rest of the
text is cut, and when nothing is recorded.
-/

namespace Morphir.Scheme

open Reader List Derives

variable {F : Type} [Doubles F]

variable {p q : List Char}

lemma NotTrivia.shorten (h : NotTrivia q) (hp : p <+: q) : NotTrivia p := by
  cases p with
  | nil => trivial
  | cons c cs =>
    obtain ⟨t, rfl⟩ := hp
    obtain ⟨hbl, hln, hblock, hdis⟩ := h
    exact ⟨hbl, hln, fun h => hblock (h.trans (prefix_append _ t)),
      fun h => hdis (h.trans (prefix_append _ t))⟩

lemma StartsAtom.shorten (h : StartsAtom q) (hp : p <+: q) (hne : p ≠ []) : StartsAtom p := by
  cases p with
  | nil => exact absurd rfl hne
  | cons c cs =>
    obtain ⟨t, rfl⟩ := hp
    obtain ⟨h1, h2, h3, h4, h5, h6, h7, h8⟩ := h
    exact ⟨h1, h2, h3, h4, h5, h6, h7, fun h => h8 (h.trans (prefix_append _ t))⟩

lemma takeWhile_shorten {P : Char → Bool} {x y w : List Char} (h : (x ++ y).takeWhile P = x)
    (hw : w <+: y) : (x ++ w).takeWhile P = x := by
  induction x with
  | nil =>
    cases w with
    | nil => rfl
    | cons c cs =>
      obtain ⟨t, rfl⟩ := hw
      by_cases hc : P c = true
      · simp [hc] at h
      · simp [hc]
  | cons c cs ih =>
    by_cases hc : P c = true
    · simp only [cons_append, takeWhile_cons, hc, if_true, List.cons.injEq, true_and] at h ⊢
      exact ih h
    · simp [hc] at h

variable {rest : List Char}

lemma blockComment_split {nesting n : Nat} (h : blockComment nesting rest = some n) :
    n ≤ rest.length ∧ (nesting ≠ 0 → 2 ≤ n) ∧
      ∀ w, blockComment nesting (rest.take n ++ w) = some n := by
  induction nesting, rest using blockComment.induct generalizing n with
  | case1 rest =>
    simp only [blockComment, Option.some.injEq] at h
    subst h
    simp [blockComment]
  | case2 => simp [blockComment] at h
  | case3 nesting cs ih | case4 nesting cs ih =>
    simp only [blockComment, Option.map_eq_some_iff] at h
    obtain ⟨m, hm, rfl⟩ := h
    obtain ⟨hlen, _, hw⟩ := ih hm
    refine ⟨by simpa using hlen, fun _ => by omega, fun w => ?_⟩
    simp [blockComment, hw]
  | case5 nesting c cs hop hclo ih =>
    rw [blockComment] at h
    · obtain ⟨m, hm, rfl⟩ := Option.map_eq_some_iff.mp h
      obtain ⟨hlen, htwo, hw⟩ := ih hm
      refine ⟨by simpa using hlen, fun _ => by omega, fun w => ?_⟩
      cases cs with
      | nil => simp at hlen; omega
      | cons c' cs =>
        obtain ⟨m, rfl⟩ : ∃ k, m = k + 1 := ⟨m - 1, by omega⟩
        have hw := hw w
        rw [take_succ_cons, take_succ_cons, cons_append, cons_append, blockComment]
        · rw [take_succ_cons, cons_append] at hw
          rw [hw]
          rfl
        · intro cs' hc hcs'
          exact hop cs hc (by rw [(List.cons.inj hcs').1])
        · intro cs' hc hcs'
          exact hclo cs hc (by rw [(List.cons.inj hcs').1])
    · exact hop
    · exact hclo

lemma quoted_split {terminator : Char} {index n : Nat} {text : List Char}
    (h : quoted terminator index rest = .ok (text, n)) :
    n ≤ rest.length ∧ ∀ i w, quoted terminator i (rest.take n ++ w) = .ok (text, n) := by
  induction index, rest using quoted.induct terminator generalizing text n with
  | case1 index => cases h
  | case2 index cs =>
    unfold quoted at h
    simp only at h
    obtain ⟨rfl, rfl⟩ := h
    unfold quoted
    simp
  | case3 index hne =>
    unfold quoted at h
    simp [hne] at h
  | case4 index escape cs hesc hne =>
    unfold quoted at h
    simp [hne, hesc] at h
  | case5 index escape cs c hesc hne ih =>
    unfold quoted at h
    simp only [hne, hesc] at h
    cases hquo : quoted terminator (index + 2) cs with
    | error error => simp [hquo, Except.map] at h
    | ok result =>
      simp only [hquo] at h
      obtain ⟨rfl, rfl⟩ := h
      obtain ⟨hlen, hw⟩ := ih hquo
      refine ⟨by simpa using hlen, fun i w => ?_⟩
      simp only [take_succ_cons, cons_append]
      unfold quoted
      simp only [hne, if_false, if_true, hesc, hw, Except.map]
  | case6 index c cs hne hsl ih =>
    unfold quoted at h
    simp only [hne, hsl] at h
    cases hquo : quoted terminator (index + 1) cs with
    | error error => simp [hquo, Except.map] at h
    | ok result =>
      simp only [hquo] at h
      obtain ⟨rfl, rfl⟩ := h
      obtain ⟨hlen, hw⟩ := ih hquo
      refine ⟨by simpa using hlen, fun i w => ?_⟩
      simp only [take_succ_cons, cons_append]
      unfold quoted
      simp only [hne, hsl, if_false, hw, Except.map]

lemma tokenDatum_index {token : List Char} {i : Nat} {d : Datum F}
    (h : tokenDatum token i = .ok d) (j : Nat) : tokenDatum token j = .ok d := by
  unfold tokenDatum at h ⊢
  split at h
  · next heq => rw [if_pos heq, h]
  next heq =>
  rw [if_neg heq]
  split at h
  · next heq => rw [if_pos heq, h]
  next heq =>
  rw [if_neg heq]
  split at h
  · cases h
  · exact h
  · split_ifs at h with hemp hdig
    rw [if_neg hemp, if_neg hdig, h]

lemma token_split (rest : List Char) :
    ∃ y, rest = token rest ++ y ∧ ∀ v, v <+: y → token (token rest ++ v) = token rest := by
  refine ⟨rest.dropWhile fun c => !delimiter c, takeWhile_append_dropWhile.symm, ?_⟩
  intro v hv
  refine takeWhile_shorten ?_ hv
  unfold token
  rw [takeWhile_append_dropWhile]

lemma characterToken_split (hne : rest ≠ []) :
    characterToken rest ≠ [] ∧ ∃ y, rest = characterToken rest ++ y ∧
      ∀ v, v <+: y → characterToken (characterToken rest ++ v) = characterToken rest := by
  cases rest with
  | nil => exact absurd rfl hne
  | cons c cs =>
    by_cases hc : delimiter c = true
    · have hw : characterToken (c :: cs) = [c] := by simp [characterToken, hc]
      rw [hw]
      exact ⟨by simp, cs, rfl, fun v _ => by simp [characterToken, hc]⟩
    · have htoken : token (c :: cs) = c :: token cs := by simp [token, hc]
      have hw : ∀ v, characterToken (c :: v) = token (c :: v) := by simp [characterToken, hc]
      obtain ⟨y, hy, hv⟩ := token_split (c :: cs)
      rw [hw]
      refine ⟨by simp [htoken], y, hy, fun v hvy => ?_⟩
      have htokens := hv v hvy
      rw [htoken, cons_append] at htokens ⊢
      rw [hw, htokens]

lemma quoted_parts {terminator : Char} {index n : Nat} {text : List Char}
    (h : quoted terminator index rest = .ok (text, n)) :
    ∃ x y, rest = x ++ y ∧ x.length = n ∧
      ∀ i w, quoted terminator i (x ++ w) = .ok (text, n) := by
  obtain ⟨hlen, hw⟩ := quoted_split h
  exact ⟨rest.take n, rest.drop n, (take_append_drop n rest).symm, length_take_of_le hlen, hw⟩

lemma rest_move_append {r : Reader} {s y : List Char} (h : r.rest = s ++ y) :
    (r.move s.length).rest = y := by
  simp [h]

lemma readAtom_split {r r' : Reader} {d : Datum F} (h : readAtom r = .ok (d, r')) :
    ∃ s, r.rest = s ++ r'.rest ∧ r' = r.move s.length ∧
      ∀ b v, v <+: r'.rest → readAtom (plain b (s ++ v)) = .ok (d, plain (s.reverse ++ b) v) := by
  unfold readAtom at h
  split at h
  next cs hrest =>
    cases hquoted : quoted '"' (r.index + 1) cs with
    | error error => simp [hquoted] at h
    | ok result =>
      obtain ⟨text, n⟩ := result
      simp only [hquoted] at h
      obtain ⟨rfl, rfl⟩ := h
      obtain ⟨x, y, rfl, rfl, hw⟩ := quoted_parts hquoted
      have hmove := rest_move_append (s := '"' :: x) hrest
      refine ⟨'"' :: x, by rw [← length_cons, hmove, hrest]; rfl, rfl, fun b v _ => ?_⟩
      rw [← move_plain_append b ('"' :: x) v rfl]
      simp only [readAtom, rest_plain, cons_append, hw, length_cons]
  next cs hrest =>
    cases hquoted : quoted '|' (r.index + 1) cs with
    | error error => simp [hquoted] at h
    | ok result =>
      obtain ⟨text, n⟩ := result
      simp only [hquoted] at h
      obtain ⟨rfl, rfl⟩ := h
      obtain ⟨x, y, rfl, rfl, hw⟩ := quoted_parts hquoted
      have hmove := rest_move_append (s := '|' :: x) hrest
      refine ⟨'|' :: x, by rw [← length_cons, hmove, hrest]; rfl, rfl, fun b v _ => ?_⟩
      rw [← move_plain_append b ('|' :: x) v rfl]
      simp only [readAtom, rest_plain, cons_append, hw, length_cons]
  next cs hrest =>
    split_ifs at h with hempty
    obtain ⟨hne, y, hy, hv⟩ := characterToken_split (by simpa using hempty)
    generalize hword : characterToken cs = word at *
    cases hnamed : namedCharacter word with
    | none => simp [hnamed] at h
    | some c =>
      simp only [hnamed] at h
      obtain ⟨rfl, rfl⟩ := h
      have hlen : 2 + word.length = ('#' :: '\\' :: word).length := by
        simp only [length_cons]
        omega
      rw [hy] at hrest
      rw [hlen]
      have hmove := rest_move_append (s := '#' :: '\\' :: word) hrest
      refine ⟨'#' :: '\\' :: word, by rw [hmove, hrest]; rfl, rfl, fun b v hvy => ?_⟩
      rw [hmove] at hvy
      rw [← move_plain_append b ('#' :: '\\' :: word) v rfl]
      simp only [readAtom, rest_plain, cons_append, hv v hvy, hnamed]
      rw [if_neg (by simp [hne]), hlen]
  next hquote hbar hchar =>
    cases hdatum : tokenDatum (F := F) (token r.rest) (r.move (token r.rest).length).index with
    | error error => simp [hdatum] at h
    | ok datum =>
      simp only [hdatum] at h
      obtain ⟨rfl, rfl⟩ := h
      obtain ⟨y, hy, hv⟩ := token_split r.rest
      generalize hword : token r.rest = word at *
      have hmove := rest_move_append hy
      refine ⟨word, by rw [hmove, hy], rfl, fun b v hvy => ?_⟩
      rw [hmove] at hvy
      have hprefix : word ++ v <+: r.rest := by
        rw [hy]
        exact (prefix_append_right_inj word).mpr hvy
      obtain ⟨t, ht⟩ := hprefix
      unfold readAtom
      simp only [rest_plain]
      split
      · next cs heq =>
        rw [heq] at ht
        exact absurd ht.symm (hquote _)
      · next cs heq =>
        rw [heq] at ht
        exact absurd ht.symm (hbar _)
      · next cs heq =>
        rw [heq] at ht
        exact absurd ht.symm (hchar _)
      · rw [hv v hvy, tokenDatum_index hdatum, move_plain_append b word v rfl]

/-- What a judgement says about a shorter text: a read of the same characters,
with any text before them and any part of the rest after them. -/
def Cuts : Judgement F → Prop
  | .skips depth topLevel r r' => ∀ s v b, r.rest = s ++ r'.rest → v <+: r'.rest →
      Derives (F := F) (.skips depth topLevel (plain b (s ++ v)) (plain (s.reverse ++ b) v))
  | .reads depth r d r' => ∀ s v b, r.rest = s ++ r'.rest → v <+: r'.rest →
      Derives (.reads depth (plain b (s ++ v)) d (plain (s.reverse ++ b) v))
  | .reading depth r d r' => ∀ s v b, r.rest = s ++ r'.rest → v <+: r'.rest →
      Derives (.reading depth (plain b (s ++ v)) d (plain (s.reverse ++ b) v))
  | .listing depth c ds r d r' => ∀ s v b, r.rest = s ++ r'.rest → v <+: r'.rest →
      Derives (.listing depth c ds (plain b (s ++ v)) d (plain (s.reverse ++ b) v))

lemma isDot_shorten (h : p <+: q) (hp : 2 ≤ p.length) : isDot p = isDot q := by
  obtain ⟨t, rfl⟩ := h
  match p, hp with
  | c :: c' :: cs, _ => by_cases hc : c = '.' <;> simp [isDot, hc]

@[simp] lemma truncate_plain (b u : List Char) (n : Nat) :
    (plain b u).truncate n = plain b u := rfl

@[simp] lemma unrecord_plain (b u : List Char) (n : Nat) :
    (plain b u).unrecord n = plain b u := rfl

@[simp] lemma comment_plain (b u : List Char) (topLevel : Bool) (n : Nat) :
    (plain b u).comment topLevel n = plain b u := by
  simp only [Reader.comment]
  split_ifs <;> rfl

lemma blockComment_parts {n : Nat} (h : blockComment 1 rest = some n) :
    ∃ x y, rest = x ++ y ∧ x.length = n ∧ ∀ w, blockComment 1 (x ++ w) = some n := by
  obtain ⟨hlen, _, hw⟩ := blockComment_split h
  exact ⟨rest.take n, rest.drop n, (take_append_drop n rest).symm, length_take_of_le hlen, hw⟩

lemma consumed_append {s x y z : List Char} (h : rest = s ++ z) (hx : rest = x ++ (y ++ z)) :
    s = x ++ y := by
  rw [h, ← append_assoc] at hx
  exact append_cancel_right hx

lemma prefix_rest {s v y z : List Char} (h : y = s ++ z) (hv : v <+: z) : s ++ v <+: y := by
  rw [h]
  exact (prefix_append_right_inj s).mpr hv

lemma Derives.cuts {j : Judgement F} (h : Derives j) : Cuts j := by
  induction h with (intro s v b hr hv)
  | stop h =>
    obtain rfl : s = [] := by simpa using hr
    exact .stop (h.shorten hv)
  | @blank depth topLevel r r' c cs h hc hsk ih =>
    obtain ⟨⟨s', hs', _⟩, _⟩ := hsk.consumes
    have hcs : cs = s' ++ r'.rest := by simpa [h] using hs'
    obtain rfl : s = [c] ++ s' := consumed_append hr (by rw [h, hcs]; rfl)
    have hsk' := ih s' v (c :: b) hs' hv
    simpa using .blank rfl hc hsk'
  | @line depth topLevel r r' cs h hsk ih =>
    obtain ⟨⟨s', hs', _⟩, _⟩ := hsk.consumes
    generalize hx : r.rest.takeWhile (· ≠ '\n') = x at *
    have hspl : r.rest = x ++ r.rest.dropWhile (· ≠ '\n') := by
      rw [← hx, takeWhile_append_dropWhile]
    have hy : r.rest.dropWhile (· ≠ '\n') = s' ++ r'.rest := by
      rw [← hs', rest_move, rest_comment]
      conv_rhs => rw [hspl]
      simp
    obtain rfl : s = x ++ s' := consumed_append hr (by rw [← hy, ← hspl])
    have htk : (x ++ (s' ++ v)).takeWhile (· ≠ '\n') = x :=
      takeWhile_shorten (by rw [← hspl, hx])
        (prefix_rest hy hv)
    obtain ⟨x', rfl⟩ : ∃ x', x = ';' :: x' := by
      rw [h] at hx
      exact ⟨cs.takeWhile (· ≠ '\n'), by rw [← hx]; rfl⟩
    have hsk' := ih s' v ((';' :: x').reverse ++ b) hs' hv
    have hln : Derives (.skips depth topLevel (plain b (';' :: x' ++ (s' ++ v)))
        (plain (s'.reverse ++ ((';' :: x').reverse ++ b)) v)) := .line rfl (by
        rw [rest_plain, htk, comment_plain, move_plain_append b _ _ rfl]
        exact hsk')
    simpa using hln
  | @block depth topLevel r r' cs n h hn hsk ih =>
    obtain ⟨⟨s', hs', _⟩, _⟩ := hsk.consumes
    obtain ⟨x, y, rfl, rfl, hw⟩ := blockComment_parts hn
    have hy : y = s' ++ r'.rest := by simpa [h] using hs'
    obtain rfl : s = '#' :: '|' :: x ++ s' := consumed_append hr (by rw [h, hy]; rfl)
    have hsk' := ih s' v (('#' :: '|' :: x).reverse ++ b) hs' hv
    have hblock : Derives (.skips depth topLevel (plain b ('#' :: '|' :: x ++ (s' ++ v)))
        (plain (s'.reverse ++ (('#' :: '|' :: x).reverse ++ b)) v)) := .block rfl (hw (s' ++ v)) (by
        rw [move_plain_append b ('#' :: '|' :: x) _ (n := x.length + 2) rfl]
        exact hsk')
    simpa using hblock
  | @discard depth topLevel r next r' cs d h hrd hsk ihread ih =>
    obtain ⟨s₁, _, hs₁, _⟩ := hrd.consumes
    obtain ⟨⟨s₂, hs₂, _⟩, _⟩ := hsk.consumes
    have hnx : next.rest = s₂ ++ r'.rest := hs₂
    have hcs : cs = s₁ ++ next.rest := by simpa [h] using hs₁
    obtain rfl : s = '#' :: ';' :: s₁ ++ s₂ := consumed_append hr (by
      rw [h, hcs, hnx]
      rfl)
    have hrd' := ihread s₁ (s₂ ++ v) (';' :: '#' :: b) hs₁ (prefix_rest hnx hv)
    have hsk' := ih s₂ v (s₁.reverse ++ ';' :: '#' :: b) hs₂ hv
    have hdis : Derives (.skips depth topLevel (plain b ('#' :: ';' :: (s₁ ++ (s₂ ++ v))))
        (plain (s₂.reverse ++ (s₁.reverse ++ ';' :: '#' :: b)) v)) := .discard rfl hrd' hsk'
    simpa using hdis
  | @read depth r r₁ r' d hdep hsk hdt ihskip ih =>
    obtain ⟨⟨s₁, hs₁, _⟩, _⟩ := hsk.consumes
    obtain ⟨s₂, _, hs₂, _⟩ := hdt.consumes
    obtain rfl : s = s₁ ++ s₂ := consumed_append hr (by rw [hs₁, hs₂])
    have hsk' := ihskip s₁ (s₂ ++ v) b hs₁ (prefix_rest hs₂ hv)
    have hdt' := ih s₂ v (s₁.reverse ++ b) hs₂ hv
    simpa using read hdep hsk' hdt'
  | @list depth r r' c cs d h hc hits ih =>
    obtain ⟨s', _, hs', _⟩ := hits.consumes
    have hcs : cs = s' ++ r'.rest := by simpa [h] using hs'
    obtain rfl : s = [c] ++ s' := consumed_append hr (by rw [h, hcs]; rfl)
    have hits' := ih s' v (c :: b) hs' hv
    simpa using list (r := plain b (c :: (s' ++ v))) rfl hc hits'
  | @quotation depth r r' cs d h hrd ih =>
    obtain ⟨s', _, hs', _⟩ := hrd.consumes
    have hcs : cs = s' ++ r'.rest := by simpa [h] using hs'
    obtain rfl : s = ['\''] ++ s' := consumed_append hr (by rw [h, hcs]; rfl)
    have hrd' := ih s' v ('\'' :: b) hs' hv
    simpa using quotation (r := plain b ('\'' :: (s' ++ v))) rfl hrd'
  | @vector depth r next cs ds h hrd ih =>
    obtain ⟨s', hne, hs', _⟩ := hrd.consumes
    have hcs : '(' :: cs = s' ++ next.rest := by simpa [h] using hs'
    obtain rfl : s = ['#'] ++ s' := consumed_append hr (by
      rw [h, hcs]
      rfl)
    obtain ⟨s', rfl⟩ : ∃ t, s' = '(' :: t := by
      cases s' with
      | nil => exact absurd rfl hne
      | cons c t => exact ⟨t, by rw [(List.cons.inj hcs).1]⟩
    have hrd' := ih ('(' :: s') v ('#' :: b) hs' hv
    simpa using vector (r := plain b ('#' :: '(' :: (s' ++ v))) rfl hrd'
  | @atom depth r r' d h hat =>
    have hrea : Derives (.reading depth r d r') := .atom h hat
    obtain ⟨t, hne, ht, _⟩ := hrea.consumes
    obtain ⟨s', hs', rfl, hspl⟩ := readAtom_split hat
    obtain rfl : s = t := append_cancel_right (hr.symm.trans ht)
    obtain rfl : s = s' := append_cancel_right (hr.symm.trans hs')
    exact .atom (h.shorten (prefix_rest hr hv) (by simp [hne])) (hspl b v hv)
  | @close depth c ds r r₁ cs hsk h ihskip =>
    obtain ⟨⟨s₁, hs₁, _⟩, _⟩ := hsk.consumes
    have hcs : cs = (r₁.move 1).rest := by simp [h]
    obtain rfl : s = s₁ ++ [c] := consumed_append hr (by rw [hs₁, h, hcs]; rfl)
    have hsk' := ihskip s₁ ([c] ++ v) b hs₁ (prefix_rest (by rw [h, hcs]; rfl) hv)
    simpa using close hsk' rfl
  | @tail depth c ds r r₁ r₂ r₃ cs d hsk h hc hds hrd hsk' h' ihskip ihread ihskip' =>
    obtain ⟨⟨s₁, hs₁, _⟩, _⟩ := hsk.consumes
    obtain ⟨s₂, hne, hs₂, _⟩ := hrd.consumes
    obtain ⟨⟨s₃, hs₃, _⟩, _⟩ := hsk'.consumes
    obtain ⟨rest, hdot⟩ := isDot_head h
    have hcs : r₃.rest = [c] ++ (r₃.move 1).rest := by simp [h']
    have hr₂ : r₂.rest = s₃ ++ [c] ++ (r₃.move 1).rest := by rw [hs₃, hcs, append_assoc]
    have hr₁ : (r₁.move 1).rest = s₂ ++ (s₃ ++ [c]) ++ (r₃.move 1).rest := by
      rw [hs₂, hr₂]
      simp
    have hrest₀ : r₁.rest = ['.'] ++ (s₂ ++ (s₃ ++ [c])) ++ (r₃.move 1).rest := by
      rw [append_assoc, ← hr₁, hdot]
      simp [hdot]
    obtain rfl : s = s₁ ++ (['.'] ++ (s₂ ++ (s₃ ++ [c]))) := consumed_append hr (by
      rw [hs₁, hrest₀])
    have hv₀ := prefix_rest hrest₀ hv
    have hstep₁ := ihskip s₁ _ b hs₁ hv₀
    have hstep₂ := ihread s₂ (s₃ ++ [c] ++ v) ('.' :: (s₁.reverse ++ b)) hs₂
      (prefix_rest hr₂ hv)
    have hstep₃ := ihskip' s₃ ([c] ++ v) (s₂.reverse ++ '.' :: (s₁.reverse ++ b)) hs₃
      (prefix_rest hcs hv)
    have hdot' : isDot (['.'] ++ (s₂ ++ (s₃ ++ [c])) ++ v) = true := by
      rw [isDot_shorten hv₀, h]
      simp only [length_append, length_singleton]
      omega
    have hrd' : Derives (.reads (depth + 1)
        ((plain (s₁.reverse ++ b) (['.'] ++ (s₂ ++ (s₃ ++ [c])) ++ v)).move 1) d
        (plain (s₂.reverse ++ '.' :: (s₁.reverse ++ b)) (s₃ ++ ([c] ++ v)))) := by
      simpa using hstep₂
    simpa using tail hstep₁ hdot' hc hds hrd' hstep₃ rfl
  | @item depth c ds r r₁ r₂ r' d d' hsk hne hc h hrd hits ihskip ihread ih =>
    obtain ⟨⟨s₁, hs₁, _⟩, _⟩ := hsk.consumes
    obtain ⟨s₂, hne₂, hs₂, _⟩ := hrd.consumes
    obtain ⟨s₃, hne₃, hs₃, _⟩ := hits.consumes
    have hr₁ : r₁.rest = s₂ ++ s₃ ++ r'.rest := by rw [hs₂, hs₃, append_assoc]
    obtain rfl : s = s₁ ++ (s₂ ++ s₃) := consumed_append hr (by rw [hs₁, hr₁])
    have hv₁ := prefix_rest hr₁ hv
    have hstep₁ := ihskip s₁ _ b hs₁ hv₁
    have hstep₂ := ihread s₂ (s₃ ++ v) (s₁.reverse ++ b) hs₂ (prefix_rest hs₃ hv)
    have hstep₃ := ih s₃ v (s₂.reverse ++ (s₁.reverse ++ b)) hs₃ hv
    have hlen : 2 ≤ (s₂ ++ s₃ ++ v).length := by
      have hpos₂ := length_pos_iff.mpr hne₂
      have hpos₃ := length_pos_iff.mpr hne₃
      simp only [length_append]
      omega
    have hh : (s₂ ++ s₃ ++ v).head? = r₁.rest.head? := by
      rw [hr₁]
      cases s₂ with
      | nil => exact absurd rfl hne₂
      | cons c t => rfl
    have hi := item hstep₁ (by simp [hne₂]) (by rw [rest_plain, hh]; exact hc)
      (by rw [rest_plain, isDot_shorten hv₁ hlen]; exact h) (by simpa using hstep₂) hstep₃
    simpa using hi

end Morphir.Scheme
