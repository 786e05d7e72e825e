import Morphir.Library.CodeUnits
import Morphir.Toml.Keys

/-!
# The text of a key

How the editor writes a path, and that the parser of keys reads it back.
-/

namespace Morphir.Toml

open CodeUnits List Char

def hexDigit (n : Nat) : Char := "0123456789abcdef".toList.getD n '0'

def escapeChar (c : Char) : List Char :=
  match c with
  | '"' => ['\\', '"']
  | '\\' => ['\\', '\\']
  | '\x08' => ['\\', 'b']
  | '\t' => ['\\', 't']
  | '\n' => ['\\', 'n']
  | '\x0c' => ['\\', 'f']
  | '\r' => ['\\', 'r']
  | _ =>
    if c.toNat < 32 ∨ c.toNat = 127 then
      ['\\', 'u', '0', '0', hexDigit (c.toNat / 16), hexDigit (c.toNat % 16)]
    else [c]

def keyText (key : String) : String :=
  if key ≠ "" ∧ (codeUnits key).all bare then key
  else String.ofList ('"' :: (key.toList.flatMap escapeChar ++ ['"']))

def pathText (path : List String) : String := ".".intercalate (path.map keyText)

lemma codeUnits_eq (text : String) : codeUnits text = ofChars text.toList := rfl

lemma codeUnits_eq_nil {text : String} : codeUnits text = [] ↔ text = "" := by
  rw [← String.toList_eq_nil_iff, ← ofChars_nil]
  exact ofChars_injective.eq_iff

lemma codeUnits_append (a b : String) : codeUnits (a ++ b) = codeUnits a ++ codeUnits b := by
  rw [codeUnits_eq, String.toList_append, ofChars_append]
  rfl

lemma codeUnits_ofList (chars : List Char) : codeUnits (String.ofList chars) = ofChars chars := by
  rw [codeUnits_eq, String.toList_ofList]

lemma ofList_map_of_bare {key : String} (h : (codeUnits key).all bare) :
    String.ofList ((codeUnits key).map ofNat) = key := by
  have hlt : ∀ n, bare n = true → n < 0xD800 := by
    intro n hn
    simp only [bare, Bool.or_eq_true, decide_eq_true_eq] at hn
    omega
  have hchs := mem_chars_of_units hlt (all_eq_true.mp h)
  rw [codeUnits_eq, ofChars_eq_map fun c hc => (hlt _ (hchs c hc)).trans (by decide),
    map_map, show ofNat ∘ toNat = id from funext ofNat_toNat, map_id,
    String.ofList_toList]

namespace Parser

variable {p : Parser} {more : List Nat}

lemma spaces_of_head (h : ∀ unit, p.peek = some unit → isSpace unit = false) : p.spaces = p := by
  have hnil : p.rest.takeWhile isSpace = [] := by
    cases hr : p.rest with
    | nil => rfl
    | cons unit units =>
      have hu := h unit (by rw [peek_eq_head hr, List.head?_cons])
      exact takeWhile_cons_of_neg (by rw [hu]; exact Bool.false_ne_true)
  rw [spaces, hnil, length_nil, skip_zero]

variable {out : List Char}

lemma quotedFrom_end (h : p.rest = 34 :: more) :
    quotedFrom 34 false p out = .ok (String.ofList out, p.skip 1) := by
  have hpk : p.peek = some 34 := by rw [peek_eq_head h, List.head?_cons]
  unfold quotedFrom
  split
  · next hno => cases hpk.symm.trans hno
  · next c hc =>
      obtain rfl := Option.some.inj (hpk.symm.trans hc)
      apply if_pos
      exact ⟨rfl, rfl⟩

variable {c : Char}

lemma quotedFrom_escape {next : Parser} (h : p.rest = 92 :: more)
    (hnx : (p.skip 1).escape = .ok (c, next)) :
    quotedFrom 34 false p out = quotedFrom 34 false next (out ++ [c]) := by
  have hpk : p.peek = some 92 := by rw [peek_eq_head h, List.head?_cons]
  rw [quotedFrom]
  split
  · next hno => cases hpk.symm.trans hno
  · next c' hc =>
      obtain rfl := Option.some.inj (hpk.symm.trans hc)
      simp only [Nat.reduceEqDiff, false_and, ↓reduceIte, and_self, Bool.false_eq_true]
      split
      · next her => cases hnx.symm.trans her
      · next hok =>
          obtain ⟨rfl, rfl⟩ := Prod.mk.inj (Except.ok.inj (hnx.symm.trans hok))
          rfl

lemma quotedFrom_plain (h : p.rest = ofChar c ++ more) (hq : c.toNat ≠ 34) (hsl : c.toNat ≠ 92)
    (hcon : ¬ (c.toNat < 32 ∨ c.toNat = 127)) :
    quotedFrom 34 false p out =
      quotedFrom 34 false (p.skip (ofChar c).length) (out ++ [c]) := by
  rcases ofChar_cases c with ⟨hus, _, hsur⟩ | ⟨high, low, hus, hhi, hlow, hc⟩
  · rw [hus, singleton_append] at h
    rw [hus, length_singleton]
    have hpk : p.peek = some c.toNat := by rw [peek_eq_head h, List.head?_cons]
    rw [quotedFrom]
    split
    · next hno => cases hpk.symm.trans hno
    · next unit hu =>
        obtain rfl := Option.some.inj (hpk.symm.trans hu)
        rw [if_neg (by omega), if_neg (by omega), if_neg (by omega), if_neg (by simp),
          if_neg (by omega), if_neg (by omega), if_neg (by omega), ofNat_toNat]
  · rw [hus] at h
    rw [hus, length_cons, length_singleton]
    have hpk : p.peek = some high := by rw [peek_eq_head h]; rfl
    have hpk' : p.peekAt 1 = some low := by rw [peekAt_eq h]; rfl
    rw [quotedFrom]
    split
    · next hno => cases hpk.symm.trans hno
    · next unit hu =>
        obtain rfl := Option.some.inj (hpk.symm.trans hu)
        rw [if_neg (by omega), if_neg (by omega), if_neg (by omega), if_neg (by simp),
          if_neg (by omega), if_pos (by omega), hpk']
        dsimp only
        rw [if_neg (by omega), ← hc, ofNat_toNat]

lemma hex_hexDigit {n : Nat} (h : n < 16) : hex (hexDigit n).toNat = some n := by
  have hall : ∀ n < 16, hex (hexDigit n).toNat = some n := by decide
  exact hall n h

lemma hexDigits_units {units digits : List Nat}
    (hds : List.Forall₂ (fun unit digit => hex unit = some digit) units digits)
    (h : p.rest = units ++ more) (scalar : Nat) :
    hexDigits units.length p scalar =
      .ok (digits.foldl (fun n digit => n * 16 + digit) scalar, p.skip units.length) := by
  induction hds generalizing p scalar with
  | nil => rfl
  | @cons unit digit units digits hu _ ih =>
    have hpk : p.peek = some unit := by rw [peek_eq_head h]; rfl
    have hr : (p.skip 1).rest = units ++ more := by rw [rest_skip, h]; rfl
    rw [length_cons, hexDigits, hpk, Option.bind_some, hu]
    dsimp only
    rw [ih hr, skip_skip, Nat.add_comm 1, foldl_cons]

lemma ofChars_ascii {chars : List Char} (h : ∀ c ∈ chars, c.toNat < 128) :
    ofChars chars = chars.map toNat :=
  ofChars_eq_map fun c hc => (h c hc).trans (by decide)

variable (key : String) (n : Nat)

lemma hexDigit_mem : hexDigit n ∈ '0' :: "0123456789abcdef".toList := by
  unfold hexDigit
  rw [getD_eq_getElem?_getD]
  cases hget : "0123456789abcdef".toList[n]? with
  | none => exact mem_cons_self
  | some c => exact mem_cons_of_mem _ (mem_of_getElem? hget)

lemma hexDigit_all {P : Char → Bool} (h : ('0' :: "0123456789abcdef".toList).all P = true)
    (n : Nat) : P (hexDigit n) = true :=
  all_eq_true.mp h _ (hexDigit_mem n)

lemma hexDigit_ascii : (hexDigit n).toNat < 128 := by
  apply of_decide_eq_true
  exact hexDigit_all (P := fun c => decide (c.toNat < 128)) (by decide) n

lemma unicodeEscape_hexDigit (hc : c.toNat < 128)
    (h : p.rest = ofChars ['0', '0', hexDigit (c.toNat / 16), hexDigit (c.toNat % 16)] ++ more) :
    p.unicodeEscape 4 = .ok (c, p.skip 4) := by
  have hascii : ∀ d ∈ ['0', '0', hexDigit (c.toNat / 16), hexDigit (c.toNat % 16)],
      d.toNat < 128 := by
    simp only [forall_mem_cons, hexDigit_ascii, not_mem_nil, false_imp_iff, implies_true]
    decide
  have hds : List.Forall₂ (fun unit digit => hex unit = some digit)
      (['0', '0', hexDigit (c.toNat / 16), hexDigit (c.toNat % 16)].map toNat)
      [0, 0, c.toNat / 16, c.toNat % 16] := by
    have hhi := hex_hexDigit (n := c.toNat / 16) (by omega)
    have hlow := hex_hexDigit (n := c.toNat % 16) (by omega)
    exact .cons rfl (.cons rfl (.cons hhi (.cons hlow .nil)))
  rw [ofChars_ascii hascii] at h
  have hrd := hexDigits_units hds h 0
  have hsca : [0, 0, c.toNat / 16, c.toNat % 16].foldl (fun n digit => n * 16 + digit) 0 =
      c.toNat := by
    simp only [foldl_cons, foldl_nil]
    omega
  rw [hsca] at hrd
  unfold unicodeEscape
  rw [show hexDigits 4 p 0 = _ from hrd]
  dsimp only
  rw [if_neg (by omega), ofNat_toNat]
  rfl

lemma quotedFrom_escapeChar (c : Char) (h : p.rest = ofChars (escapeChar c) ++ more) :
    quotedFrom 34 false p out =
      quotedFrom 34 false (p.skip (ofChars (escapeChar c)).length) (out ++ [c]) := by
  have hpk : ∀ {unit : Nat} {units : List Nat}, p.rest = 92 :: unit :: units →
      (p.skip 1).peek = some unit := by
    intro unit units hr
    have hnx : (p.skip 1).rest = unit :: units := by rw [rest_skip, hr]; rfl
    rw [peek_eq_head hnx, List.head?_cons]
  have hsh : ∀ {unit : Nat} {c : Char}, p.rest = 92 :: unit :: more →
      (p.skip 1).escape = .ok (c, (p.skip 1).skip 1) →
      quotedFrom 34 false p out = quotedFrom 34 false (p.skip 2) (out ++ [c]) := by
    intro unit c hr hesc
    rw [quotedFrom_escape hr hesc, skip_skip]
  unfold escapeChar at h ⊢
  split at h
  case h_8 hq hsl _ _ _ _ _ =>
      split at h
      · next hcon =>
          rw [if_pos hcon]
          have hds : ((p.skip 1).skip 1).rest =
              ofChars ['0', '0', hexDigit (c.toNat / 16), hexDigit (c.toNat % 16)] ++ more := by
            rw [skip_skip, rest_skip, h]
            rfl
          have hesc : (p.skip 1).escape = .ok (c, ((p.skip 1).skip 1).skip 4) := by
            rw [escape, hpk h]
            exact unicodeEscape_hexDigit (by omega) hds
          have hlen : (ofChars ['\\', 'u', '0', '0', hexDigit (c.toNat / 16),
              hexDigit (c.toNat % 16)]).length = 6 := by
            simp only [ofChars_cons, ofChar_of_lt ((hexDigit_ascii _).trans (by decide))]
            rfl
          rw [quotedFrom_escape h hesc, skip_skip, skip_skip, hlen]
      · next hcon =>
          rw [if_neg hcon]
          rw [ofChars_cons, ofChars_nil, append_nil] at h ⊢
          apply quotedFrom_plain h
          · exact fun heq => hq (toNat_inj.mp heq)
          · exact fun heq => hsl (toNat_inj.mp heq)
          · exact hcon
  all_goals
    apply hsh h
    rw [escape, hpk h]
    rfl

lemma quotedFrom_escaped (chars : List Char)
    (h : p.rest = ofChars (chars.flatMap escapeChar) ++ 34 :: more) :
    quotedFrom 34 false p out =
      .ok (String.ofList (out ++ chars),
        p.skip ((ofChars (chars.flatMap escapeChar)).length + 1)) := by
  induction chars generalizing p out with
  | nil => rw [quotedFrom_end h, append_nil]; rfl
  | cons c chars ih =>
    rw [flatMap_cons, ofChars_append, append_assoc] at h
    have hr : (p.skip (ofChars (escapeChar c)).length).rest =
        ofChars (chars.flatMap escapeChar) ++ 34 :: more := by
      rw [rest_skip, h, drop_left]
    rw [quotedFrom_escapeChar c h, ih hr, skip_skip, append_assoc, flatMap_cons,
      ofChars_append, length_append]
    rfl

def Ends (more : List Nat) : Prop := ∀ unit, more.head? = some unit → bare unit = false

lemma segment_keyText (hm : Ends more) (h : p.rest = codeUnits (keyText key) ++ more) :
    p.segment = .ok (key, p.skip (codeUnits (keyText key)).length) := by
  unfold keyText at h ⊢
  split at h
  · next hb =>
      obtain ⟨hne, hall⟩ := hb
      have hus : p.rest.takeWhile bare = codeUnits key := by
        rw [h, takeWhile_append_of_pos (all_eq_true.mp hall)]
        cases more with
        | nil => rw [takeWhile_nil, append_nil]
        | cons unit units =>
          have hu : bare unit = false := hm unit List.head?_cons
          rw [takeWhile_cons_of_neg (by rw [hu]; exact Bool.false_ne_true), append_nil]
      have hnon : codeUnits key ≠ [] := by
        intro hnil
        exact hne (codeUnits_eq_nil.mp hnil)
      have hpk : ∀ unit, p.peek = some unit → bare unit = true := by
        intro unit hu
        rw [peek_eq_head h, List.head?_append_of_ne_nil _ hnon] at hu
        exact all_eq_true.mp hall unit (mem_of_head? hu)
      rw [if_pos ⟨hne, hall⟩, segment, if_neg]
      · rw [hus, if_neg hnon, ofList_map_of_bare hall]
      · rintro (hq | hq)
        · exact absurd (hpk 34 hq) (by decide)
        · exact absurd (hpk 39 hq) (by decide)
  · next hb =>
      rw [if_neg hb]
      rw [codeUnits_ofList, ofChars_cons, ofChars_append] at h ⊢
      have hq : p.peek = some 34 := by rw [peek_eq_head h]; rfl
      have hr : (p.skip 1).rest = ofChars (key.toList.flatMap escapeChar) ++ 34 :: more := by
        rw [rest_skip, h, append_assoc, append_assoc]
        rfl
      rw [segment, if_pos (.inl hq), quoted, hq]
      dsimp only
      rw [quotedFrom_escaped _ hr, skip_skip, nil_append,
        String.ofList_toList, length_append, length_append]
      congr 3

lemma head_keyText :
    ∃ unit units, codeUnits (keyText key) = unit :: units ∧ isSpace unit = false := by
  unfold keyText
  split
  · next hb =>
      obtain ⟨hne, hall⟩ := hb
      cases hus : codeUnits key with
      | nil => exact absurd (codeUnits_eq_nil.mp hus) hne
      | cons unit units =>
        have hu : bare unit = true := all_eq_true.mp hall unit (hus ▸ mem_cons_self)
        refine ⟨unit, units, rfl, ?_⟩
        simp only [bare, isSpace, Bool.or_eq_true, decide_eq_true_eq, Bool.or_eq_false_iff,
          decide_eq_false_iff_not] at hu ⊢
        omega
  · exact ⟨34, _, codeUnits_ofList _, rfl⟩

lemma codeUnits_pathText_cons_cons (next : String) (path : List String) :
    codeUnits (pathText (key :: next :: path)) =
      codeUnits (keyText key) ++ 46 :: codeUnits (pathText (next :: path)) := by
  rw [pathText, map_cons, map_cons, String.intercalate_cons_cons, codeUnits_append,
    codeUnits_append, append_assoc]
  rfl

def EndsKeys (more : List Nat) : Prop :=
  ∀ unit, more.head? = some unit → bare unit = false ∧ isSpace unit = false ∧ unit ≠ 46

lemma keysFrom_keyText {keys : List String} (h : p.rest = codeUnits (keyText key) ++ more)
    (hm : Ends more) (hsp : ∀ unit, more.head? = some unit → isSpace unit = false) :
    p.keysFrom keys =
      if more.head? = some 46 then
        (p.skip ((codeUnits (keyText key)).length + 1)).keysFrom (keys ++ [key])
      else .ok (keys ++ [key], p.skip (codeUnits (keyText key)).length) := by
  have hspa : p.spaces = p := by
    apply spaces_of_head
    intro unit hu
    obtain ⟨unit', units, hkey, hf⟩ := head_keyText key
    rw [peek_eq_head h, hkey] at hu
    exact Option.some.inj hu ▸ hf
  have hpk : (p.skip (codeUnits (keyText key)).length).peek = more.head? := by
    apply peek_eq_head
    rw [rest_skip, h, drop_left]
  have hnx : (p.skip (codeUnits (keyText key)).length).spaces =
      p.skip (codeUnits (keyText key)).length := by
    apply spaces_of_head
    intro unit hu
    exact hsp unit (hpk ▸ hu)
  have hseg := segment_keyText key hm h
  rw [keysFrom]
  split
  · next error her =>
      rw [hspa, hseg] at her
      cases her
  · next read next hrd =>
      rw [hspa, hseg] at hrd
      cases hrd
      rw [hnx, hpk, skip_skip]

lemma keysFrom_pathText (path : List String) {keys : List String} (hm : EndsKeys more)
    (h : p.rest = codeUnits (pathText (key :: path)) ++ more) :
    p.keysFrom keys =
      .ok (keys ++ key :: path, p.skip (codeUnits (pathText (key :: path))).length) := by
  induction path generalizing key p keys with
  | nil =>
    have hsin : pathText [key] = keyText key := String.intercalate_singleton
    rw [hsin] at h ⊢
    rw [keysFrom_keyText key h (fun unit hu => (hm unit hu).1)
      (fun unit hu => (hm unit hu).2.1), if_neg]
    exact fun hdot => (hm 46 hdot).2.2 rfl
  | cons next path ih =>
    rw [codeUnits_pathText_cons_cons, append_assoc] at h
    have hdot : ∀ unit, some 46 = some unit → bare unit = false ∧ isSpace unit = false := by
      intro unit hu
      cases hu
      decide
    have hr : (p.skip ((codeUnits (keyText key)).length + 1)).rest =
        codeUnits (pathText (next :: path)) ++ more := by
      rw [← skip_skip, rest_skip, rest_skip, h, drop_left]
      rfl
    rw [keysFrom_keyText key h (fun unit hu => (hdot unit hu).1)
      (fun unit hu => (hdot unit hu).2), ih next hr, skip_skip,
      append_assoc, codeUnits_pathText_cons_cons, length_append, Nat.add_assoc,
      Nat.add_comm 1]
    rfl

end Parser

def Printable (unit : Nat) : Prop := ¬ (unit < 32 ∨ unit = 127)

instance : DecidablePred Printable := fun _ => inferInstanceAs (Decidable (¬ _))

lemma escapeChar_printable (c : Char) : ∀ d ∈ escapeChar c, Printable d.toNat := by
  have hdig : ∀ n, Printable (hexDigit n).toNat := by
    intro n
    apply of_decide_eq_true
    exact Parser.hexDigit_all (P := fun c => decide (Printable c.toNat)) (by decide) n
  have hli : ∀ {cs : List Char}, (cs.all fun d => decide (Printable d.toNat)) = true →
      ∀ d ∈ cs, Printable d.toNat := by
    intro cs hcs d hd
    exact of_decide_eq_true (all_eq_true.mp hcs d hd)
  unfold escapeChar
  split
  case h_8 =>
    split
    · simp only [forall_mem_cons, hdig, not_mem_nil, false_imp_iff, implies_true]
      exact ⟨by decide, by decide, by decide, by decide⟩
    · next hcon =>
        intro d hd
        rw [mem_singleton.mp hd]
        exact hcon
  all_goals
    apply hli
    decide

lemma ofChars_printable {chars : List Char} (h : ∀ c ∈ chars, Printable c.toNat) :
    ∀ unit ∈ ofChars chars, Printable unit := by
  intro unit hu
  obtain ⟨c, hc, hu⟩ := mem_flatMap.mp hu
  rcases ofChar_cases c with ⟨heq, -⟩ | ⟨high, low, heq, hhi, hlow, -⟩
  · rw [heq] at hu
    exact mem_singleton.mp hu ▸ h c hc
  · rw [heq] at hu
    rcases mem_pair.mp hu with rfl | rfl
    · unfold Printable
      omega
    · unfold Printable
      omega

lemma keyText_printable (key : String) : ∀ unit ∈ codeUnits (keyText key), Printable unit := by
  unfold keyText
  split
  · next hbare =>
      intro unit hu
      have hb := all_eq_true.mp hbare.2 unit hu
      simp only [bare, Bool.or_eq_true, decide_eq_true_eq] at hb
      unfold Printable
      omega
  · rw [codeUnits_ofList]
    apply ofChars_printable
    intro c hc
    rcases mem_cons.mp hc with rfl | hc
    · decide
    rcases mem_append.mp hc with hc | hc
    · obtain ⟨d, -, hd⟩ := mem_flatMap.mp hc
      exact escapeChar_printable d c hd
    · obtain rfl := mem_singleton.mp hc
      decide

lemma pathText_printable (path : List String) :
    ∀ unit ∈ codeUnits (pathText path), Printable unit := by
  match path with
  | [] => exact fun unit hu => absurd hu not_mem_nil
  | [key] => exact keyText_printable key
  | key :: next :: path =>
    intro unit hu
    rw [Parser.codeUnits_pathText_cons_cons, mem_append, mem_cons] at hu
    rcases hu with hkey | rfl | hp
    · exact keyText_printable key unit hkey
    · decide
    · exact pathText_printable (next :: path) unit hp

/-- A path that was written is read back whole, in any text, and writes no
line end or other control character. -/
theorem keys_pathText (path : List String) (h : path ≠ []) :
    (Parser.mk (pathText path) 0).keys =
        .ok (path, ⟨pathText path, (codeUnits (pathText path)).length⟩) ∧
      (∀ before after, Parser.EndsKeys (codeUnits after) →
        (Parser.mk (before ++ pathText path ++ after) (codeUnits before).length).keys =
          .ok (path, ⟨before ++ pathText path ++ after,
            (codeUnits (before ++ pathText path)).length⟩)) ∧
      ∀ unit ∈ codeUnits (pathText path), Printable unit := by
  obtain ⟨key, path, rfl⟩ := exists_cons_of_ne_nil h
  have hwi : ∀ before after, Parser.EndsKeys (codeUnits after) →
      (Parser.mk (before ++ pathText (key :: path) ++ after) (codeUnits before).length).keys =
        .ok (key :: path, ⟨before ++ pathText (key :: path) ++ after,
          (codeUnits (before ++ pathText (key :: path))).length⟩) := by
    intro before after haft
    have hr : (Parser.mk (before ++ pathText (key :: path) ++ after)
        (codeUnits before).length).rest =
        codeUnits (pathText (key :: path)) ++ codeUnits after := by
      rw [Parser.rest, codeUnits_append, codeUnits_append, append_assoc, drop_left]
    rw [Parser.keys, Parser.keysFrom_pathText key path haft hr, codeUnits_append, length_append]
    rfl
  refine ⟨?_, hwi, pathText_printable _⟩
  have hwh := hwi "" "" fun unit hu => by cases hu
  rw [String.append_empty] at hwh
  exact hwh

theorem keys_pathText_quoted :
    pathText ["a.b", "x\n"] = "\"a.b\".\"x\\n\"" ∧
      (Parser.mk "\"a.b\".\"x\\n\"" 0).keys =
        .ok (["a.b", "x\n"], ⟨"\"a.b\".\"x\\n\"", 11⟩) := by
  have ht : pathText ["a.b", "x\n"] = "\"a.b\".\"x\\n\"" := by decide
  have hlen : (codeUnits "\"a.b\".\"x\\n\"").length = 11 := by decide
  have hrd := (keys_pathText ["a.b", "x\n"] (cons_ne_nil _ _)).1
  exact ⟨ht, hrd⟩

end Morphir.Toml
