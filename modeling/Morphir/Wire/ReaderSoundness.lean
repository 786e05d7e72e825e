import Morphir.Wire.Tokens

/-!
# Steps of the reader

What the reader takes with one step and what the step costs.
-/

namespace Morphir.Wire

open Fallible Grammar List Option Budget

variable {F : Type}

namespace Reader

/-- What a part of a text costs: values, and keys and strings of these lengths. -/
structure Spends (before after : Reader) (count : Nat) (lengths : List Nat) : Prop where
  maxDepth : after.maxDepth = before.maxDepth
  nodes : Budget.spend before.nodes (List.replicate count 1) = some after.nodes
  stringUnits : Budget.spend before.stringUnits lengths = some after.stringUnits

variable {a b c : Reader}

variable {count : Nat} {lengths : List Nat}

lemma Spends.trans {count' : Nat} {lengths' : List Nat} (h : a.Spends b count lengths)
    (h' : b.Spends c count' lengths') : a.Spends c (count + count') (lengths ++ lengths') := by
  refine ⟨h'.maxDepth.trans h.maxDepth, ?_, ?_⟩
  · rw [← replicate_append_replicate]
    exact spend_append_some.mpr ⟨_, h.nodes, h'.nodes⟩
  · exact spend_append_some.mpr ⟨_, h.stringUnits, h'.stringUnits⟩

lemma Spends.free (h : a.Spends b 0 []) (h' : b.Spends c count lengths) :
    a.Spends c count lengths := by
  have := h.trans h'
  rwa [Nat.zero_add] at this

lemma Spends.thenFree (h : a.Spends b count lengths) (h' : b.Spends c 0 []) :
    a.Spends c count lengths := by
  have := h.trans h'
  rwa [append_nil] at this

lemma advance_spends (self : Reader) (n : Nat) : self.Spends (self.advance n) 0 [] :=
  ⟨rfl, rfl, rfl⟩

lemma space_spends (self : Reader) : self.Spends self.space 0 [] := advance_spends _ _

lemma drop_takeWhile (p : Char → Bool) (text : List Char) :
    text.drop (text.takeWhile p).length = text.dropWhile p := by
  calc text.drop (text.takeWhile p).length
      = (text.takeWhile p ++ text.dropWhile p).drop (text.takeWhile p).length := by
        rw [takeWhile_append_dropWhile]
    _ = text.dropWhile p := drop_left

lemma space_chars (self : Reader) : self.space.chars = self.chars.dropWhile isSpace :=
  drop_takeWhile isSpace self.chars

lemma space_space (self : Reader) : Space self.chars self.space.chars := by
  rw [space_chars]
  exact .dropWhile self.chars

variable {self : Reader} {c : Char}

lemma next_iff :
    self.next c = true ↔ ∃ rest, self.chars = c :: rest := by
  rw [next, decide_eq_true_eq]
  cases self.chars with
  | nil => exact ⟨nofun, nofun⟩
  | cons d rest =>
    constructor
    · intro h
      cases h
      exact ⟨rest, rfl⟩
    · rintro ⟨_, h⟩
      rw [(List.cons.inj h).1]
      rfl

lemma take_ok {after : Reader} (h : self.take c = .ok after) :
    Space self.chars (c :: after.chars) ∧ self.Spends after 0 [] := by
  unfold take at h
  dsimp only at h
  split at h
  · rename_i hnx
    cases h
    obtain ⟨rest, hr⟩ := next_iff.mp hnx
    refine ⟨?_, (space_spends self).free (advance_spends _ 1)⟩
    have haft : (self.space.advance 1).chars = rest := by
      rw [advance, hr]
      rfl
    rw [haft, ← hr]
    exact self.space_space
  · cases h

lemma take_of {rest : List Char} (h : Space self.chars (c :: rest)) (hc : isSpace c = false) :
    ∃ after, self.take c = .ok after ∧ after.chars = rest ∧ self.Spends after 0 [] := by
  have hchs : self.space.chars = c :: rest := by rw [space_chars, h.dropWhile_eq hc]
  refine ⟨self.space.advance 1, ?_, ?_, (space_spends self).free (advance_spends _ 1)⟩
  · rw [take, if_pos (next_iff.mpr ⟨rest, hchs⟩)]
  · rw [advance, hchs]
    rfl

section Tokens

variable {parse : List Char → Option (Json F)} {number : List Char → F}
  {repr : List Char → Option (List Char)} {self after : Reader}

variable {text : Units}

lemma chargeUnits_ok {value : Units} (h : self.chargeUnits value = .ok (text, after)) :
    text = value ∧ after.chars = self.chars ∧ self.Spends after 0 [value.length] := by
  unfold chargeUnits at h
  split at h
  · rename_i left hlt
    cases h
    refine ⟨rfl, rfl, rfl, rfl, ?_⟩
    rw [spend_singleton]
    exact hlt
  · cases h

lemma string_ok (hprs : Decodes parse number repr) (h : self.string parse = .ok (text, after)) :
    ∃ token, Space self.chars (token ++ after.chars) ∧ stringToken token = some text ∧
      self.Spends after 0 [text.length] := by
  obtain ⟨opened, htk, hclo⟩ := bind_ok h
  obtain ⟨hsp, hf⟩ := take_ok htk
  split at hclo
  · cases hclo
  · rename_i n hn
    split at hclo
    · cases hclo
    · rename_i value hval
      obtain ⟨rfl, hchs, hspe⟩ := chargeUnits_ok hclo
      rw [hprs.string] at hval
      obtain ⟨text', htok, heq⟩ := map_eq_some_iff.mp hval
      obtain rfl := Json.string.inj heq
      refine ⟨_, ?_, htok, (hf.free (advance_spends opened n)).free hspe⟩
      rw [hchs]
      change Space self.chars ('"' :: (opened.chars.take n ++ opened.chars.drop n))
      rwa [take_append_drop]
    · cases hclo

variable {token rest : List Char}

section

variable (hprs : Decodes parse number repr)

include hprs

lemma string_of (h : Space self.chars (token ++ rest)) (htok : stringToken token = some text)
    {left : Option Int} (hlt : Budget.spend self.stringUnits [text.length] = some left) :
    ∃ after, self.string parse = .ok (text, after) ∧ after.chars = rest ∧
      self.Spends after 0 [text.length] := by
  unfold stringToken at htok
  split at htok
  · rename_i body
    rw [cons_append] at h
    obtain ⟨opened, htk, hope, hf⟩ := take_of h (by decide)
    have hclo : closing opened.chars = some body.length := by
      rw [hope]
      exact closing_stringBody htok rest
    have htok' : parse ('"' :: opened.chars.take body.length) = some (.string text) := by
      rw [hprs.string, hope, take_left]
      exact congrArg _ htok
    have hcha : charge (opened.advance body.length).stringUnits text.length =
        some left := by
      have hsm := hf.stringUnits
      rw [← spend_singleton, advance, ← some.inj hsm, hlt]
    refine ⟨{ opened.advance body.length with stringUnits := left }, ?_, ?_, ?_⟩
    · rw [Reader.string, htk, bind_eq, hclo]
      dsimp only
      rw [htok']
      dsimp only
      rw [chargeUnits, hcha]
    · change opened.chars.drop body.length = rest
      rw [hope, drop_left]
    · refine hf.free ⟨rfl, rfl, ?_⟩
      rw [spend_singleton]
      exact hcha
  · cases htok

lemma parse_scalar
    (hsta : ∀ c ∈ self.chars.head?, c ≠ '"' ∧ c ≠ '\x7b' ∧ c ≠ '[') :
    parse (self.chars.takeWhile fun c => !isDelimiter c) =
      scalarToken (fun token => .number (number token) (repr token))
        (self.chars.takeWhile fun c => !isDelimiter c) := by
  have hhead (c : Char) (hc : c = '"' ∨ c = '\x7b' ∨ c = '[') :
      (self.chars.takeWhile fun c => !isDelimiter c).head? ≠ some c := by
    intro heq
    cases hchs : self.chars with
    | nil =>
      rw [hchs] at heq
      cases heq
    | cons d rest =>
      rw [hchs, takeWhile_cons] at heq
      split at heq
      · obtain rfl := some.inj heq
        obtain ⟨hquote, hbrace, hbra⟩ := hsta d (by rw [hchs]; rfl)
        rcases hc with h | h | h
        · exact hquote h
        · exact hbrace h
        · exact hbra h
      · cases heq
  exact hprs.scalar _ all_takeWhile (hhead _ (.inl rfl)) (hhead _ (.inr (.inl rfl)))
    (hhead _ (.inr (.inr rfl)))

lemma scalar_ok
    (hsta : ∀ c ∈ self.chars.head?, c ≠ '"' ∧ c ≠ '\x7b' ∧ c ≠ '[') {value : Json F}
    (h : self.scalar parse = .ok (value, after)) :
    ∃ token, self.chars = token ++ after.chars ∧
      scalarToken (spelled number) token = some value ∧ self.Spends after 0 [] := by
  unfold scalar at h
  dsimp only at h
  rw [parse_scalar hprs hsta] at h
  have hr : self.chars = (self.chars.takeWhile fun c => !isDelimiter c) ++
      (self.advance (self.chars.takeWhile fun c => !isDelimiter c).length).chars := by
    change _ = _ ++ self.chars.drop _
    rw [drop_takeWhile, takeWhile_append_dropWhile]
  rcases scalarToken_eq (fun token => .number (number token) (repr token)) (spelled number)
      (self.chars.takeWhile fun c => !isDelimiter c) with
    ⟨token, hlib, hsp, hkd⟩ | ⟨hlib, hsp⟩ | ⟨hlib, hsp⟩
  · rw [hlib] at h
    rcases hkd with rfl | ⟨flag, rfl⟩
    · cases h
      exact ⟨_, hr, hsp, advance_spends _ _⟩
    · cases h
      exact ⟨_, hr, hsp, advance_spends _ _⟩
  · rw [hlib] at h
    cases h
    exact ⟨_, hr, hsp, advance_spends _ _⟩
  · rw [hlib] at h
    cases h

omit hprs in
lemma takeWhile_token (htok : token.all isScalarChar = true) (hr : Stops rest) :
    (token ++ rest).takeWhile (fun c => !isDelimiter c) = token := by
  rw [takeWhile_append_of_pos]
  · cases rest with
    | nil => exact append_nil token
    | cons c rest =>
      have hc := hr c rfl
      rw [takeWhile_cons_of_neg (by rw [hc]; decide), append_nil]
  · intro c hc
    rw [(isScalarChar_plain (all_eq_true.mp htok c hc)).1]
    rfl

lemma scalar_of {value : Json F} (h : self.chars = token ++ rest)
    (hval : scalarToken (spelled number) token = some value) (hr : Stops rest) :
    ∃ after, self.scalar parse = .ok (value, after) ∧ after.chars = rest ∧
      self.Spends after 0 [] := by
  obtain ⟨hne, hall⟩ := scalarToken_chars hval
  have hcut : (self.chars.takeWhile fun c => !isDelimiter c) = token := by
    rw [h, takeWhile_token hall hr]
  have hsta : ∀ c ∈ self.chars.head?, c ≠ '"' ∧ c ≠ '\x7b' ∧ c ≠ '[' := by
    intro c hc
    cases token with
    | nil => exact absurd rfl hne
    | cons d token =>
      rw [h] at hc
      obtain rfl := some.inj hc
      exact (isScalarChar_plain (all_eq_true.mp hall d mem_cons_self)).2
  have hlib := parse_scalar hprs hsta
  rw [hcut] at hlib
  refine ⟨self.advance token.length, ?_, ?_, advance_spends _ _⟩
  · unfold scalar
    dsimp only
    rw [hcut, hlib]
    rcases scalarToken_eq (fun token => .number (number token) (repr token)) (spelled number)
        token with ⟨value', hlib', hsp, hkd⟩ | ⟨hlib', hsp⟩ |
        ⟨hlib', hsp⟩
    · rw [hlib']
      obtain rfl := some.inj (hval.symm.trans hsp)
      rcases hkd with rfl | ⟨flag, rfl⟩
      · rfl
      · rfl
    · rw [hlib']
      obtain rfl := some.inj (hval.symm.trans hsp)
      rfl
    · rw [hsp] at hval
      cases hval
  · change self.chars.drop token.length = rest
    rw [h, drop_left]

end

end Tokens

end Reader

end Morphir.Wire

/-!
## What the reader accepts

A text that the reader accepts has a derivation, and the value is within every
limit.
-/

namespace Morphir.Wire

open Fallible Grammar List

variable {F : Type} {parse : List Char → Option (Json F)} {number : List Char → F}
  {repr : List Char → Option (List Char)}

lemma Grammar.Items.space {text text' rest : List Char} {items : List (Json F)}
    (h : Space text text') (hits : Items number text' items rest) :
    Items number text items rest := by
  cases hits with
  | last hsta hi hsp => exact .last (h.trans hsta) hi hsp
  | cons hsta hi hsp hits => exact .cons (h.trans hsta) hi hsp hits

lemma Grammar.Members.space {text text' rest : List Char} {fields : List (Units × Json F)}
    (h : Space text text') (hfs : Members number text' fields rest) :
    Members number text fields rest := by
  cases hfs with
  | last hkey htok hco hsta hi hsp => exact .last (h.trans hkey) htok hco hsta hi hsp
  | cons hkey htok hco hsta hi hsp hfs => exact .cons (h.trans hkey) htok hco hsta hi hsp hfs

namespace Reader

variable {depth : Int}

variable {self after : Reader}

lemma checkDepth_ok {u : Unit} (h : self.checkDepth depth = .ok u) : depth ≤ self.maxDepth :=
  Int.not_lt.mp (refuse_ok h)

lemma chargeNode_ok (h : self.chargeNode = .ok after) :
    after.chars = self.chars ∧ self.Spends after 1 [] := by
  unfold chargeNode at h
  split at h
  · rename_i left hlt
    cases h
    refine ⟨rfl, rfl, ?_, rfl⟩
    rw [replicate_one, Budget.spend_singleton]
    exact hlt
  · cases h

lemma checkMember_ok {fields : List (Units × Json F)} {key : Units} {u : Unit}
    (h : checkMember fields depth key = .ok u) : key ∉ fields.map Prod.fst := by
  have hnew := refuse_ok h
  rwa [OrdMap.contains_iff] at hnew

structure Accepted (number : List Char → F) (depth : Int) (before : Reader) (value : Json F)
    (after : Reader) : Prop where
  derived : ∃ start, Space before.chars start ∧ Grammar.Value number start value after.chars
  noRepeats : value.NoRepeats
  depth : value.depth + depth ≤ before.maxDepth
  spends : before.Spends after value.count value.lengths

structure AcceptedItems (number : List Char → F) (depth : Int) (done : List (Json F))
    (before : Reader) (value : Json F) (after : Reader) (items : List (Json F)) : Prop where
  value : value = .array (done ++ items)
  derived : Grammar.Items number before.chars items after.chars
  noRepeats : Json.NoRepeatsItems items
  depth : Json.depthItems items + depth ≤ before.maxDepth
  spends : before.Spends after (Json.countItems items) (Json.lengthsItems items)

structure AcceptedMembers (number : List Char → F) (depth : Int) (done : List (Units × Json F))
    (before : Reader) (value : Json F) (after : Reader) (fields : List (Units × Json F)) : Prop where
  value : value = .object (done ++ fields)
  derived : Grammar.Members number before.chars fields after.chars
  keys : ((done ++ fields).map Prod.fst).Nodup
  noRepeats : Json.NoRepeatsFields fields
  depth : Json.depthFields fields + depth ≤ before.maxDepth
  spends : before.Spends after (Json.countFields fields) (Json.lengthsFields fields)

structure Sound (parse : List Char → Option (Json F)) (number : List Char → F) (fuel : Nat) :
    Prop where
  value : ∀ depth self v after, value parse fuel depth self = .ok (v, after) →
    Accepted number depth self v after
  items : ∀ depth done self v after, items parse fuel depth done self = .ok (v, after) →
    ∃ rest, AcceptedItems number depth done self v after rest
  members : ∀ depth done self v after, (done.map Prod.fst).Nodup →
    members parse fuel depth done self = .ok (v, after) →
      ∃ rest, AcceptedMembers number depth done self v after rest

variable {v : Json F}

lemma scalarToken_leaf {number : List Char → F} {token : List Char}
    (h : scalarToken (spelled number) token = some v) :
    v.count = 1 ∧ v.lengths = [] ∧ v.depth = 0 ∧ v.NoRepeats := by
  rcases scalarToken_eq (spelled number) (spelled number) token with
    ⟨v', hv, _, hkd⟩ | ⟨hv, _⟩ | ⟨hv, _⟩
  · obtain rfl := Option.some.inj (h.symm.trans hv)
    rcases hkd with rfl | ⟨flag, rfl⟩
    · exact ⟨rfl, rfl, rfl, trivial⟩
    · exact ⟨rfl, rfl, rfl, trivial⟩
  · obtain rfl := Option.some.inj (h.symm.trans hv)
    exact ⟨rfl, rfl, rfl, trivial⟩
  · rw [hv] at h
    cases h

lemma advance_cons {c : Char} {tail : List Char} (h : self.chars = c :: tail) :
    (self.advance 1).chars = tail := by
  rw [advance, h]
  rfl

lemma opened {c : Char} {tail : List Char} (h : self.chars = c :: tail) :
    Space tail (self.advance 1).space.chars ∧ self.Spends (self.advance 1).space 0 [] := by
  refine ⟨?_, (advance_spends self 1).free (space_spends _)⟩
  have hin := (self.advance 1).space_space
  rwa [advance_cons h] at hin

variable {fuel : Nat}

section

variable (hprs : Decodes parse number repr)

include hprs

section

variable (ih : Sound parse number fuel)

include ih

lemma value_sound (h : value parse (fuel + 1) depth self = .ok (v, after)) :
    Accepted number depth self v after := by
  obtain ⟨_, hdep, h⟩ := bind_ok h
  obtain ⟨charged, hcha, h⟩ := bind_ok h
  have hdep : depth ≤ self.maxDepth := checkDepth_ok hdep
  obtain ⟨hchs, hspe⟩ := chargeNode_ok hcha
  have hspe := (space_spends self).free hspe
  have hsta := self.space_space
  rw [← hchs] at hsta
  have hmax : charged.maxDepth = self.maxDepth := hspe.maxDepth
  split at h
  · cases h
  · obtain ⟨⟨text, after'⟩, hstr, h⟩ := bind_ok h
    cases h
    obtain ⟨token, htok, ht, hco⟩ := string_ok hprs hstr
    refine ⟨⟨_, hsta.trans htok, .string ht⟩, trivial, ?_, hspe.trans hco⟩
    simpa [Json.depth] using hdep
  · rename_i tail htl
    obtain ⟨hin, hf⟩ := opened htl
    rw [htl] at hsta
    dsimp only at h
    split at h
    · rename_i hnx
      cases h
      obtain ⟨rest, hr⟩ := next_iff.mp hnx
      refine ⟨⟨_, hsta, ?_⟩, ⟨nodup_nil, trivial⟩, ?_,
        hspe.thenFree (hf.thenFree (advance_spends _ 1))⟩
      · rw [advance_cons hr]
        rw [hr] at hin
        exact .emptyObject hin
      · simpa [Json.depth, Json.depthFields] using hdep
    · obtain ⟨fields, hfs⟩ := ih.members depth [] _ _ _ nodup_nil h
      obtain rfl := hfs.value
      have hbd := hfs.depth
      rw [hf.maxDepth, hmax] at hbd
      have hto := hspe.trans (hf.free hfs.spends)
      rw [Nat.add_comm] at hto
      exact ⟨⟨_, hsta, .object (hfs.derived.space hin)⟩, ⟨hfs.keys, hfs.noRepeats⟩, hbd, hto⟩
  · rename_i tail htl
    obtain ⟨hin, hf⟩ := opened htl
    rw [htl] at hsta
    dsimp only at h
    split at h
    · rename_i hnx
      cases h
      obtain ⟨rest, hr⟩ := next_iff.mp hnx
      refine ⟨⟨_, hsta, ?_⟩, trivial, ?_, hspe.thenFree (hf.thenFree (advance_spends _ 1))⟩
      · rw [advance_cons hr]
        rw [hr] at hin
        exact .emptyArray hin
      · simpa [Json.depth, Json.depthItems] using hdep
    · obtain ⟨items, hits⟩ := ih.items _ _ _ _ _ h
      obtain rfl := hits.value
      have hbd := hits.depth
      rw [hf.maxDepth, hmax] at hbd
      have hto := hspe.trans (hf.free hits.spends)
      rw [Nat.add_comm] at hto
      exact ⟨⟨_, hsta, .array (hits.derived.space hin)⟩, hits.noRepeats, hbd, hto⟩
  · rename_i hq hbrace hbra
    have hpl : ∀ c ∈ charged.chars.head?, c ≠ '"' ∧ c ≠ '\x7b' ∧ c ≠ '[' := by
      intro c hc
      cases hcases : charged.chars with
      | nil =>
        rw [hcases] at hc
        cases hc
      | cons d tail =>
        rw [hcases] at hc
        cases hc
        refine ⟨?_, ?_, ?_⟩
        · rintro rfl
          exact hq tail hcases
        · rintro rfl
          exact hbrace tail hcases
        · rintro rfl
          exact hbra tail hcases
    obtain ⟨token, htok, hval, hco⟩ := scalar_ok hprs hpl h
    obtain ⟨hcnt, hlen, hdeep, hrep⟩ := scalarToken_leaf hval
    refine ⟨⟨_, hsta, ?_⟩, hrep, ?_, ?_⟩
    · rw [htok]
      exact .scalar hval
    · rw [hdeep]
      simpa using hdep
    · rw [hcnt, hlen]
      exact hspe.thenFree hco

omit hprs in
lemma items_sound {done : List (Json F)}
    (h : items parse (fuel + 1) depth done self = .ok (v, after)) :
    ∃ rest, AcceptedItems number depth done self v after rest := by
  obtain ⟨⟨item, behind⟩, hi, h⟩ := bind_ok h
  have hi := ih.value _ _ _ _ hi
  obtain ⟨start, hsta, hval⟩ := hi.derived
  have hsp := behind.space_space
  have hf := hi.spends.thenFree (space_spends behind)
  have hdep := hi.depth
  dsimp only at h
  split at h
  · rename_i hnx
    cases h
    obtain ⟨rest, hr⟩ := next_iff.mp hnx
    rw [hr] at hsp
    refine ⟨[item], rfl, ?_, ⟨hi.noRepeats, trivial⟩, ?_, ?_⟩
    · rw [advance_cons hr]
      exact .last hsta hval hsp
    · simp only [Json.depthItems]
      omega
    · have hco := hf.thenFree (advance_spends behind.space 1)
      simpa [Json.countItems, Json.lengthsItems] using hco
  · obtain ⟨behind', htk, h⟩ := bind_ok h
    obtain ⟨hcomma, hnot⟩ := take_ok htk
    obtain ⟨items, hits⟩ := ih.items _ _ _ _ _ h
    have hbd := hits.depth
    rw [hnot.maxDepth, hf.maxDepth] at hbd
    refine ⟨item :: items, ?_, .cons hsta hval (hsp.trans hcomma) hits.derived,
      ⟨hi.noRepeats, hits.noRepeats⟩, ?_, hf.trans (hnot.free hits.spends)⟩
    · rw [hits.value, append_assoc, singleton_append]
    · simp only [Json.depthItems]
      omega

lemma members_sound {done : List (Units × Json F)} (hdo : (done.map Prod.fst).Nodup)
    (h : members parse (fuel + 1) depth done self = .ok (v, after)) :
    ∃ rest, AcceptedMembers number depth done self v after rest := by
  obtain ⟨⟨key, named⟩, hkey, h⟩ := bind_ok h
  obtain ⟨_, hmem, h⟩ := bind_ok h
  obtain ⟨valued, hcolon, h⟩ := bind_ok h
  obtain ⟨⟨item, behind⟩, hi, h⟩ := bind_ok h
  obtain ⟨token, hname, htok, hcost⟩ := string_ok hprs hkey
  have hnew := checkMember_ok hmem
  obtain ⟨hcolon, hnot⟩ := take_ok hcolon
  have hi := ih.value _ _ _ _ hi
  obtain ⟨start, hsta, hval⟩ := hi.derived
  have hsp := behind.space_space
  have hf := hcost.trans ((hnot.free hi.spends).thenFree (space_spends behind))
  have hdep := hi.depth
  rw [hnot.maxDepth, hcost.maxDepth] at hdep
  have hks : ((done ++ [(key, item)]).map Prod.fst).Nodup := by
    rw [map_append]
    exact hdo.append (nodup_singleton _) (disjoint_singleton.mpr hnew)
  rw [Nat.zero_add] at hf
  dsimp only at h
  split at h
  · rename_i hnx
    cases h
    obtain ⟨rest, hr⟩ := next_iff.mp hnx
    rw [hr] at hsp
    refine ⟨[(key, item)], rfl, ?_, hks, ⟨hi.noRepeats, trivial⟩, ?_, ?_⟩
    · rw [advance_cons hr]
      exact .last hname htok hcolon hsta hval hsp
    · simp only [Json.depthFields]
      omega
    · have hcost := hf.thenFree (advance_spends behind.space 1)
      simpa [Json.countFields, Json.lengthsFields] using hcost
  · obtain ⟨behind', htk, h⟩ := bind_ok h
    obtain ⟨hcomma, hnot'⟩ := take_ok htk
    obtain ⟨fields, hfs⟩ := ih.members _ _ _ _ _ hks h
    have hbd := hfs.depth
    rw [hnot'.maxDepth, hf.maxDepth] at hbd
    refine ⟨(key, item) :: fields, ?_,
      .cons hname htok hcolon hsta hval (hsp.trans hcomma) hfs.derived, ?_,
      ⟨hi.noRepeats, hfs.noRepeats⟩, ?_, hf.trans (hnot'.free hfs.spends)⟩
    · rw [hfs.value, append_assoc, singleton_append]
    · have hall := hfs.keys
      rwa [append_assoc] at hall
    · simp only [Json.depthFields]
      omega

end

lemma sound (fuel : Nat) : Sound parse number fuel := by
  induction fuel with
  | zero =>
    refine ⟨fun _ _ _ _ h => ?_, fun _ _ _ _ _ h => ?_, fun _ _ _ _ _ _ h => ?_⟩
    · cases h
    · cases h
    · cases h
  | succ fuel ih =>
    exact ⟨fun _ _ _ _ h => value_sound hprs ih h, fun _ _ _ _ _ h => items_sound ih h,
      fun _ _ _ _ _ hdo h => members_sound hprs ih hdo h⟩

end

end Reader

end Morphir.Wire
