import Morphir.Scheme.ReaderRules

/-!
# Texts that read as data

The tokens, quoted texts, blanks and lists of a printed text, as the rules of
the reader see them.
-/

namespace Morphir.Scheme

open Reader List

variable {F : Type} [Doubles F]

def Ends (u : List Char) : Prop := ∀ c cs, u = c :: cs → delimiter c = true

lemma token_append (hs : ∀ c ∈ s, delimiter c = false) (hu : Ends u) : token (s ++ u) = s := by
  induction s with
  | nil =>
    cases u with
    | nil => rfl
    | cons c cs => simp [token, hu c cs rfl]
  | cons c cs ih =>
    have hr := ih fun x hx => hs x (mem_cons_of_mem c hx)
    simp only [token] at hr
    simp [token, hs c mem_cons_self, hr]

structure StartsItem (text : List Char) : Prop where
  notTrivia : NotTrivia text
  ne_nil : text ≠ []
  notClose : text.head? ≠ some ')'
  notDot : isDot text = false

variable {c x : Char}

variable (cs : List Char)

lemma isDot_cons (hc : c ≠ '.') : isDot (c :: cs) = false := by
  unfold isDot
  split
  · next heq => exact absurd (List.cons.inj heq).1 hc
  · rfl

lemma startsItem_cons (hbl : isBlank c = false) (hln : c ≠ ';')
    (hha : c ≠ '#') (hclo : c ≠ ')') (hdot : isDot (c :: cs) = false) :
    StartsItem (c :: cs) where
  notTrivia := ⟨hbl, hln, fun h => hha (prefix_pair h).1, fun h => hha (prefix_pair h).1⟩
  ne_nil := by simp
  notClose := by simpa using hclo
  notDot := hdot

lemma startsItem_hash (hblock : c ≠ '|') (hdis : c ≠ ';') :
    StartsItem ('#' :: c :: cs) where
  notTrivia := by
    refine ⟨by decide, by decide, fun h => ?_, fun h => ?_⟩
    · obtain ⟨_, t, ht⟩ := prefix_pair h
      exact hblock (List.cons.inj ht).1
    · obtain ⟨_, t, ht⟩ := prefix_pair h
      exact hdis (List.cons.inj ht).1
  ne_nil := by simp
  notClose := by simp
  notDot := isDot_cons _ (by decide)

structure PlainToken (s : List Char) : Prop where
  delimiters : ∀ c ∈ s, delimiter c = false
  ne_nil : s ≠ []
  notBar : s.head? ≠ some '|'
  notHash : s.head? ≠ some '#'
  notDot : s ≠ ['.']

lemma not_delimiter (h : delimiter c = false) :
    isBlank c = false ∧ c ≠ ';' ∧ c ≠ '(' ∧ c ≠ '[' ∧ c ≠ ')' ∧ c ≠ ']' ∧ c ≠ '\'' ∧ c ≠ '`' ∧
      c ≠ ',' ∧ c ≠ '"' := by
  simp only [delimiter, Bool.or_eq_false_iff, decide_eq_false_iff_not] at h
  simp only [isBlank, Bool.or_eq_false_iff, decide_eq_false_iff_not]
  tauto

variable {s : List Char}

lemma PlainToken.startsItem (h : PlainToken s) (u : List Char) : StartsItem (s ++ u) := by
  cases s with
  | nil => exact absurd rfl h.ne_nil
  | cons c cs =>
    obtain ⟨hbl, hln, _, _, hclo, _⟩ := not_delimiter (h.delimiters c mem_cons_self)
    refine startsItem_cons _ hbl hln (by simpa using h.notHash) hclo ?_
    by_cases hc : c = '.'
    · subst hc
      cases cs with
      | nil => exact absurd rfl h.notDot
      | cons c' cs =>
        have hc' := h.delimiters c' (by simp)
        simp [isDot, hc']
    · exact isDot_cons _ hc

lemma PlainToken.startsAtom (h : PlainToken s) (u : List Char) : StartsAtom (s ++ u) := by
  cases s with
  | nil => exact absurd rfl h.ne_nil
  | cons c cs =>
    obtain ⟨_, _, h₁, h₂, h₃, h₄, h₅, h₆, h₇, _⟩ := not_delimiter (h.delimiters c mem_cons_self)
    exact ⟨h₁, h₂, h₃, h₄, h₅, h₆, h₇, fun hp => h.notHash (by simp [(prefix_pair hp).1])⟩

lemma PlainToken.readAtom (h : PlainToken s) (hu : Ends u) (b : List Char) :
    readAtom (F := F) (plain b (s ++ u)) =
      (tokenDatum s (plain (s.reverse ++ b) u).index).map
        fun datum => (datum, plain (s.reverse ++ b) u) := by
  have htok := token_append h.delimiters hu
  have hmv := move_plain_append b s u rfl
  unfold Scheme.readAtom
  cases s with
  | nil => exact absurd rfl h.ne_nil
  | cons c cs =>
    obtain ⟨_, _, _, _, _, _, _, _, _, hq⟩ := not_delimiter (h.delimiters c mem_cons_self)
    have hbar : c ≠ '|' := by simpa using h.notBar
    have hha : c ≠ '#' := by simpa using h.notHash
    simp only [rest_plain]
    split
    · next heq => exact absurd (List.cons.inj heq).1 hq
    · next heq => exact absurd (List.cons.inj heq).1 hbar
    · next heq => exact absurd (List.cons.inj heq).1 hha
    · simp only [htok, hmv]
      cases tokenDatum (F := F) (c :: cs) (plain ((c :: cs).reverse ++ b) u).index <;> rfl

lemma tokenDatum_of_notHash (h : s.head? ≠ some '#') (index : Nat) :
    tokenDatum (F := F) s index =
      match parseNumber (F := F) s with
      | .error error => .error error
      | .ok (some number) => .ok (.number number)
      | .ok none =>
        if s.isEmpty ∨ s.head? = some '#' then
          .error (.syntaxError ("Unknown reader token: " ++ String.ofList s) index)
        else if s.head?.any Char.isDigit then
          .error (.syntaxError "Invalid numeric token" index)
        else .ok (.symbol (String.ofList s)) := by
  have hne : ∀ t : List Char, t.head? = some '#' → s ≠ t := by
    rintro t ht rfl
    exact h ht
  have htrue : ¬ (s = "#t".toList ∨ s = "#true".toList) := by
    rintro (heq | heq)
    · exact hne _ (by decide) heq
    · exact hne _ (by decide) heq
  have hfalse : ¬ (s = "#f".toList ∨ s = "#false".toList) := by
    rintro (heq | heq)
    · exact hne _ (by decide) heq
    · exact hne _ (by decide) heq
  exact (if_neg htrue).trans (if_neg hfalse)

variable {depth : Nat} {d : Datum F}

lemma Derives.reading_of_notTrivia {r : Reader} (h : Derives (.reads depth r d r'))
    (hr : NotTrivia r.rest) : Derives (.reading depth r d r') := by
  cases h with
  | read hdep hsk hdt =>
    obtain rfl := hsk.skips_unique (.stop hr)
    exact hdt

lemma Derives.readAtom_of_startsAtom {r : Reader} (h : Derives (.reading depth r d r'))
    (hr : StartsAtom r.rest) : readAtom r.push = .ok (d, r') := by
  cases h with
  | list h hc _ =>
    rw [h] at hr
    rcases hc with rfl | rfl
    · exact absurd rfl hr.1
    · exact absurd rfl hr.2.1
  | quotation h _ =>
    rw [h] at hr
    exact absurd rfl hr.2.2.2.2.1
  | vector h _ =>
    rw [h] at hr
    exact absurd (by simp) hr.2.2.2.2.2.2.2
  | atom _ hat => exact hat

def IsTerminator (terminator : Char) : Prop := terminator = '|' ∨ terminator = '"'

lemma quoted_escapedChar {terminator : Char} (h : IsTerminator terminator) (c : Char)
    (index : Nat) (cs : List Char) :
    quoted terminator index (escapedChar terminator c ++ cs) =
      (quoted terminator (index + (escapedChar terminator c).length) cs).map fun (text, n) =>
        (c :: text, n + (escapedChar terminator c).length) := by
  have hsl : '\\' ≠ terminator := by rcases h with rfl | rfl <;> decide
  unfold escapedChar
  split_ifs with hspe hnew hret htab
  · have hune : unescape c = some c := by
      rcases hspe with rfl | rfl
      · rcases h with rfl | rfl <;> decide
      · decide
    simp [quoted, hsl, hune]
  · simp [quoted, hsl, hnew, unescape]
  · simp [quoted, hsl, hret, unescape]
  · simp [quoted, hsl, htab, unescape]
  · rw [not_or] at hspe
    rw [singleton_append]
    conv_lhs => unfold quoted
    simp only [hspe.1, hspe.2, if_false, length_singleton]

lemma quoted_escaped {terminator : Char} (h : IsTerminator terminator) (text : List Char)
    (index : Nat) (u : List Char) :
    quoted terminator index (text.flatMap (escapedChar terminator) ++ terminator :: u) =
      .ok (text, (text.flatMap (escapedChar terminator)).length + 1) := by
  induction text generalizing index with
  | nil =>
    unfold quoted
    simp
  | cons c cs ih =>
    rw [flatMap_cons, append_assoc, quoted_escapedChar h, ih]
    simp only [Except.map, length_append]
    congr 2
    omega

lemma move_escaped (b : List Char) (terminator : Char) (text u : List Char) :
    (plain b (escaped text terminator ++ u)).move
      ((text.flatMap (escapedChar terminator)).length + 1 + 1) =
      plain ((escaped text terminator).reverse ++ b) u :=
  move_plain_append b _ u (by simp [escaped])

lemma escaped_append (terminator : Char) (text u : List Char) :
    escaped text terminator ++ u =
      terminator :: (text.flatMap (escapedChar terminator) ++ terminator :: u) := by
  simp [escaped]

variable {b u : List Char} {r' : Reader}

lemma skips_blank {topLevel : Bool} (hx : isBlank x = true) :
    Derives (F := F) (.skips depth topLevel (plain b (x :: u)) r') ↔
      Derives (F := F) (.skips depth topLevel (plain (x :: b) u) r') := by
  have hne : ∀ c, isBlank c = false → x ≠ c := by
    rintro c hc rfl
    rw [hc] at hx
    cases hx
  constructor
  · intro h
    cases h with
    | stop h => exact absurd hx (by simp [h.1])
    | blank h _ hsk => exact hsk
    | line h _ | block h _ _ | discard h _ _ => exact absurd (List.cons.inj h).1 (hne _ (by decide))
  · exact fun h => .blank rfl hx h

lemma reads_blank (hx : isBlank x = true) :
    Derives (.reads depth (plain b (x :: u)) d r') ↔
      Derives (.reads depth (plain (x :: b) u) d r') := by
  constructor
  · rintro (_ | _)
    next hdep hsk hdt => exact .read hdep ((skips_blank hx).mp hsk) hdt
  · rintro (_ | _)
    next hdep hsk hdt => exact .read hdep ((skips_blank hx).mpr hsk) hdt

variable {ds : List (Datum F)}

lemma listing_blank (hx : isBlank x = true) :
    Derives (.listing depth c ds (plain b (x :: u)) d r') ↔
      Derives (.listing depth c ds (plain (x :: b) u) d r') := by
  constructor
  · intro h
    cases h with
    | close hsk h => exact .close ((skips_blank hx).mp hsk) h
    | tail hsk h hc hds hrd hsk' h' => exact .tail ((skips_blank hx).mp hsk) h hc hds hrd hsk' h'
    | item hsk hne hc h hrd hits => exact .item ((skips_blank hx).mp hsk) hne hc h hrd hits
  · intro h
    cases h with
    | close hsk h => exact .close ((skips_blank hx).mpr hsk) h
    | tail hsk h hc hds hrd hsk' h' => exact .tail ((skips_blank hx).mpr hsk) h hc hds hrd hsk' h'
    | item hsk hne hc h hrd hits => exact .item ((skips_blank hx).mpr hsk) hne hc h hrd hits

/-- The text starts an item wherever it stands, and it reads as the data with
a property. -/
structure ReadsAs (depth : Nat) (text : List Char) (P : Datum F → Prop) : Prop where
  starts : ∀ u, StartsItem (text ++ u)
  reads : ∀ {b u d r'}, Ends u → (Derives (.reads depth (plain b (text ++ u)) d r') ↔
    P d ∧ r' = plain (text.reverse ++ b) u)

lemma ReadsAs.listing {text : List Char} {P : Datum F → Prop} (h : ReadsAs (depth + 1) text P)
    {d' : Datum F} {v : List Char} (hv : Ends v) :
    Derives (.listing depth ')' ds (plain b (text ++ v)) d' r') ↔
      ∃ d, P d ∧
        Derives (.listing depth ')' (ds ++ [d]) (plain (text.reverse ++ b) v) d' r') := by
  obtain ⟨htri, hne, hclo, hdot⟩ := h.starts v
  constructor
  · intro hlis
    cases hlis with (obtain rfl := hsk.skips_unique (.stop htri))
    | close hsk hr =>
      rw [rest_plain] at hr
      exact absurd (by simp [hr]) hclo
    | tail hsk hr _ _ _ _ _ =>
      rw [rest_plain, hdot] at hr
      cases hr
    | @item _ _ _ _ _ _ _ d _ hsk _ _ _ hrd hits =>
      obtain ⟨hd, rfl⟩ := (h.reads hv).mp hrd
      exact ⟨d, hd, hits⟩
  · rintro ⟨d, hd, hlis⟩
    exact .item (.stop htri) hne hclo hdot ((h.reads hv).mpr ⟨hd, rfl⟩) hlis

lemma stop_close (b u : List Char) :
    Derives (F := F) (.skips depth false (plain b (')' :: u)) (plain b (')' :: u))) :=
  .stop ⟨by decide, by decide, by simp, by simp⟩

lemma ends_close (u : List Char) : Ends (')' :: u) := by
  rintro c cs h
  rw [← (List.cons.inj h).1]
  decide

lemma listing_close {d' : Datum F} :
    Derives (.listing depth ')' ds (plain b (')' :: u)) d' r') ↔
      d' = .sequence ds none ∧ r' = plain (')' :: b) u := by
  constructor
  · intro h
    cases h with (obtain rfl := hsk.skips_unique (stop_close b u))
    | close hsk _ =>
      exact ⟨rfl, rfl⟩
    | tail hsk h _ _ _ _ _ =>
      cases h
    | item hsk _ hc _ _ _ =>
      exact absurd rfl hc
  · rintro ⟨rfl, rfl⟩
    exact .close (stop_close b u) rfl

end Morphir.Scheme
