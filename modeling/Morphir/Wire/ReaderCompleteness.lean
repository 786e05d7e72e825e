import Morphir.Wire.ReaderSoundness

/-!
# What the reader reads

A derivation whose value is within every limit is read, with fuel for two calls on
each character.
-/

namespace Morphir.Wire

open Fallible Grammar

variable {F : Type} {parse : List Char → Option (Json F)} {number : List Char → F}
  {repr : List Char → Option (List Char)}

lemma stringToken_cons {token : List Char} {text : Units} (h : stringToken token = some text) :
    ∃ body, token = '"' :: body := by
  unfold stringToken at h
  split at h
  · exact ⟨_, rfl⟩
  · cases h

lemma Grammar.Value.head {start rest : List Char} {v : Json F}
    (h : Grammar.Value number start v rest) :
    ∃ c tail, start = c :: tail ∧ isDelimiter c = false := by
  cases h with
  | string h =>
    obtain ⟨body, rfl⟩ := stringToken_cons h
    exact ⟨_, _, rfl, by decide⟩
  | @scalar token rest value h =>
    obtain ⟨hne, hall⟩ := scalarToken_chars h
    cases token with
    | nil => exact absurd rfl hne
    | cons c token =>
      exact ⟨c, _, rfl, (isScalarChar_plain (List.all_eq_true.mp hall c List.mem_cons_self)).1⟩
  | emptyArray | array | emptyObject | object => exact ⟨_, _, rfl, by decide⟩

lemma isSpace_of_isDelimiter {c : Char} (h : isDelimiter c = false) : isSpace c = false := by
  rw [isDelimiter, Bool.or_eq_false_iff] at h
  exact h.2

lemma Grammar.Value.dropWhile_eq {text start stop : List Char} {v : Json F}
    (hi : Grammar.Value number start v stop) (hsta : Space text start) :
    text.dropWhile isSpace = start := by
  obtain ⟨c, tail, rfl, hc⟩ := hi.head
  exact hsta.dropWhile_eq (isSpace_of_isDelimiter hc)

lemma Grammar.Items.head {text rest : List Char} {items : List (Json F)}
    (h : Grammar.Items number text items rest) :
    ∃ c tail, text.dropWhile isSpace = c :: tail ∧ isDelimiter c = false := by
  have hfst {start stop : List Char} {item : Json F} (hsta : Space text start)
      (hi : Grammar.Value number start item stop) :
      ∃ c tail, text.dropWhile isSpace = c :: tail ∧ isDelimiter c = false := by
    obtain ⟨c, tail, hc, hdel⟩ := hi.head
    exact ⟨c, tail, (hi.dropWhile_eq hsta).trans hc, hdel⟩
  cases h with
  | last hsta hi hsp => exact hfst hsta hi
  | cons hsta hi hsp hits => exact hfst hsta hi

lemma Grammar.Members.head {text rest : List Char} {fields : List (Units × Json F)}
    (h : Grammar.Members number text fields rest) :
    ∃ tail, text.dropWhile isSpace = '"' :: tail := by
  have hfirst {token behind : List Char} {key : Units} (hkey : Space text (token ++ behind))
      (htoken : stringToken token = some key) : ∃ tail, text.dropWhile isSpace = '"' :: tail := by
    obtain ⟨body, rfl⟩ := stringToken_cons htoken
    exact ⟨body ++ behind, hkey.dropWhile_eq (by decide)⟩
  cases h with
  | last hkey htoken hco hstart hi hsp => exact hfirst hkey htoken
  | cons hkey htoken hco hstart hi hsp hfields => exact hfirst hkey htoken

mutual

theorem Grammar.Value.length_lt {start rest : List Char} {v : Json F}
    (h : Grammar.Value number start v rest) : rest.length < start.length := by
  cases h with
  | string h =>
    obtain ⟨body, rfl⟩ := stringToken_cons h
    rw [List.length_append, List.length_cons]
    omega
  | scalar h =>
    have hpos := List.length_pos_iff.mpr (scalarToken_chars h).1
    rw [List.length_append]
    omega
  | emptyArray h | emptyObject h =>
    have hle := h.length_le
    rw [List.length_cons] at hle ⊢
    omega
  | array h | object h => exact Nat.lt_succ_of_lt h.length_lt

theorem Grammar.Items.length_lt {text rest : List Char} {items : List (Json F)}
    (h : Grammar.Items number text items rest) : rest.length < text.length := by
  cases h with
    (have h₁ := hsta.length_le
     have h₂ := hi.length_lt
     have h₃ := hsp.length_le)
  | last hsta hi hsp =>
    rw [List.length_cons] at h₃
    omega
  | cons hsta hi hsp hits =>
    have h₄ := hits.length_lt
    rw [List.length_cons] at h₃
    omega

theorem Grammar.Members.length_lt {text rest : List Char} {fields : List (Units × Json F)}
    (h : Grammar.Members number text fields rest) : rest.length < text.length := by
  cases h with
    (have h₀ := hkey.length_le
     have h₁ := hco.length_le
     have h₂ := hsta.length_le
     have h₃ := hi.length_lt
     have h₄ := hsp.length_le)
  | last hkey htok hco hsta hi hsp =>
    rw [List.length_append] at h₀
    rw [List.length_cons] at h₁ h₄
    omega
  | cons hkey htok hco hsta hi hsp hfs =>
    have h₅ := hfs.length_lt
    rw [List.length_append] at h₀
    rw [List.length_cons] at h₁ h₄
    omega

end

namespace Reader

structure Affords (before : Reader) (count : Nat) (lengths : List Nat) : Prop where
  nodes : ∃ left, Budget.spend before.nodes (List.replicate count 1) = some left
  stringUnits : ∃ left, Budget.spend before.stringUnits lengths = some left

variable {self : Reader}

lemma Affords.first {count' : Nat} {lengths' : List Nat}
    (h : self.Affords (count + count') (lengths ++ lengths')) : self.Affords count lengths := by
  obtain ⟨left, hlt⟩ := h.nodes
  obtain ⟨left', hlt'⟩ := h.stringUnits
  rw [← List.replicate_append_replicate] at hlt
  obtain ⟨middle, hmid, _⟩ := Budget.spend_append_some.mp hlt
  obtain ⟨middle', hmid', _⟩ := Budget.spend_append_some.mp hlt'
  exact ⟨⟨middle, hmid⟩, ⟨middle', hmid'⟩⟩

lemma Affords.rest {after : Reader} {count' : Nat} {lengths' : List Nat}
    (h : self.Affords (count + count') (lengths ++ lengths'))
    (hspe : self.Spends after count lengths) : after.Affords count' lengths' := by
  obtain ⟨left, hlt⟩ := h.nodes
  obtain ⟨left', hlt'⟩ := h.stringUnits
  rw [← List.replicate_append_replicate] at hlt
  obtain ⟨middle, hmid, hr⟩ := Budget.spend_append_some.mp hlt
  obtain ⟨middle', hmid', hr'⟩ := Budget.spend_append_some.mp hlt'
  obtain rfl := Option.some.inj (hmid.symm.trans hspe.nodes)
  obtain rfl := Option.some.inj (hmid'.symm.trans hspe.stringUnits)
  exact ⟨⟨left, hr⟩, ⟨left', hr'⟩⟩

variable {lengths : List Nat} {count : Nat}

lemma Affords.free {after : Reader} (h : self.Affords count lengths)
    (hspe : self.Spends after 0 []) : after.Affords count lengths := by
  rw [← Nat.zero_add count] at h
  exact h.rest hspe

lemma chargeNode_of (h : self.Affords (1 + count) lengths) :
    ∃ charged, self.chargeNode = .ok charged ∧ charged.chars = self.chars ∧
      self.Spends charged 1 [] := by
  rw [← List.nil_append lengths] at h
  obtain ⟨left, hlt⟩ := h.first.nodes
  rw [List.replicate_one, Budget.spend_singleton] at hlt
  refine ⟨{ self with nodes := left }, ?_, rfl, rfl, ?_, rfl⟩
  · rw [chargeNode, hlt]
  · rw [List.replicate_one, Budget.spend_singleton]
    exact hlt

structure Reads (result : Except Failure (Json F × Reader)) (before : Reader) (v : Json F)
    (rest : List Char) (count : Nat) (lengths : List Nat) : Prop where
  reads : ∃ after, result = .ok (v, after) ∧ after.chars = rest ∧ before.Spends after count lengths

lemma value_charged (parse : List Char → Option (Json F)) (fuel : Nat) {depth : Int} {v : Json F}
    (hdep : v.depth + depth ≤ self.maxDepth) (hbud : self.Affords v.count v.lengths) :
    ∃ charged, charged.chars = self.space.chars ∧ self.Spends charged 1 [] ∧
      value parse (fuel + 1) depth self = (do
        match charged.chars with
        | [] => throw (invalid "invalid_json" "Unexpected end of input")
        | '"' :: _ => do
          let (text, self) ← charged.string parse
          pure (.string text, self)
        | '\x7b' :: _ =>
          let self := (charged.advance 1).space
          if self.next '\x7d' then pure (.object [], self.advance 1)
          else members parse fuel depth [] self
        | '[' :: _ =>
          let self := (charged.advance 1).space
          if self.next ']' then pure (.array [], self.advance 1)
          else items parse fuel depth [] self
        | _ => charged.scalar parse) := by
  have hcnt : v.count = 1 + (v.count - 1) := by cases v <;> simp only [Json.count] <;> omega
  rw [hcnt] at hbud
  obtain ⟨charged, hcha, hchs, hspe⟩ := chargeNode_of (hbud.free (space_spends self))
  have hckd : self.space.checkDepth depth = .ok () := by
    rw [checkDepth, refuse, if_neg]
    change ¬ self.maxDepth < depth
    omega
  refine ⟨charged, hchs, (space_spends self).free hspe, ?_⟩
  rw [value, hckd, hcha]
  rfl

variable {c : Char}

lemma next_eq_false {d : Char} {tail : List Char} (h : self.chars = c :: tail) (hne : c ≠ d) :
    self.next d = false := by
  rw [next, h]
  exact decide_eq_false fun heq => hne (Option.some.inj heq)

lemma advance_length_le (self : Reader) (n : Nat) :
    (self.advance n).chars.length ≤ self.chars.length := by
  rw [advance, List.length_drop]
  exact Nat.sub_le _ _

lemma space_length_le (self : Reader) : self.space.chars.length ≤ self.chars.length :=
  advance_length_le _ _

lemma opened_of {text : List Char} (h : self.chars = c :: text) :
    (self.advance 1).space.chars = text.dropWhile isSpace ∧
      (self.advance 1).space.space.chars = text.dropWhile isSpace ∧
      self.Spends (self.advance 1).space 0 [] ∧
      (self.advance 1).space.chars.length ≤ text.length := by
  have hchs : (self.advance 1).space.chars = text.dropWhile isSpace := by
    rw [space_chars, advance_cons h]
  refine ⟨hchs, ?_, (advance_spends self 1).free (space_spends _), ?_⟩
  · rw [space_chars, hchs]
    exact (Space.dropWhile text).same.symm
  · rw [hchs]
    exact (Space.dropWhile text).length_le

lemma closed_of {stop rest : List Char} (h : self.chars = stop) (hsp : Space stop (c :: rest))
    (hc : isSpace c = false) : self.space.chars = c :: rest ∧ self.Spends self.space 0 [] := by
  refine ⟨?_, space_spends self⟩
  rw [space_chars, h, hsp.dropWhile_eq hc]

lemma Affords.inner {charged : Reader} (h : self.Affords (count + 1) lengths)
    (hspe : self.Spends charged 1 []) : charged.Affords count lengths := by
  rw [Nat.add_comm] at h
  exact h.rest hspe

lemma named_of (hprs : Decodes parse number repr) {text token behind colon : List Char}
    {key : Units} {done : List (Units × Json F)} (depth : Int)
    (ht : self.space.chars = text.dropWhile isSpace) (hkey : Space text (token ++ behind))
    (htok : stringToken token = some key) (hcolon : Space behind (':' :: colon))
    (hnew : key ∉ done.map Prod.fst) (hbud : self.Affords count (key.length :: lengths)) :
    ∃ named valued, self.string parse = .ok (key, named) ∧ checkMember done depth key = .ok () ∧
      named.take ':' = .ok valued ∧ valued.chars = colon ∧ self.Spends valued 0 [key.length] ∧
        valued.chars.length < self.chars.length := by
  obtain ⟨body, rfl⟩ := stringToken_cons htok
  have hsp : Space self.chars ('"' :: body ++ behind) := by
    have hop := self.space_space
    rwa [ht, hkey.dropWhile_eq (by decide)] at hop
  have hbud : self.Affords (0 + count) ([key.length] ++ lengths) := by
    rw [Nat.zero_add]
    exact hbud
  obtain ⟨left, hlt⟩ := hbud.first.stringUnits
  obtain ⟨named, hstr, hnm, hcost⟩ := string_of hprs hsp htok hlt
  have hbeh := hsp.length_le
  have hsho := hcolon.length_le
  rw [List.length_append] at hbeh
  rw [List.length_cons] at hsho
  rw [← hnm] at hcolon
  obtain ⟨valued, htk, hval, hf⟩ := take_of hcolon (by decide)
  refine ⟨named, valued, hstr, ?_, htk, hval, hcost.thenFree hf, ?_⟩
  · rw [checkMember, refuse, if_neg]
    rwa [OrdMap.contains_iff]
  · rw [hval]
    omega

mutual

theorem value_of (hprs : Decodes parse number repr) {start rest : List Char} {v : Json F}
    (h : Grammar.Value number start v rest) (fuel : Nat) (depth : Int) {self : Reader}
    (hsta : self.space.chars = start) (hstops : Stops rest) (hrep : v.NoRepeats)
    (hdep : v.depth + depth ≤ self.maxDepth) (hbud : self.Affords v.count v.lengths)
    (hfuel : 2 * self.chars.length + 1 ≤ fuel) :
    Reads (value parse fuel depth self) self v rest v.count v.lengths := by
  obtain ⟨fuel, rfl⟩ : ∃ n, fuel = n + 1 := ⟨fuel - 1, by omega⟩
  obtain ⟨charged, hchs, hspe, heq⟩ := value_charged parse fuel hdep hbud
  have hlen : charged.chars.length ≤ self.chars.length := by
    rw [hchs]
    exact space_length_le self
  have hmax := hspe.maxDepth
  rw [hsta] at hchs
  rw [heq]
  cases h with
  | @string token rest text htok =>
    obtain ⟨body, rfl⟩ := stringToken_cons htok
    obtain ⟨left, hlt⟩ := (hbud.inner hspe).stringUnits
    have hsp : Space charged.chars ('"' :: body ++ rest) := by
      rw [hchs]
      exact .nil _
    obtain ⟨after, hstr, hr, hco⟩ := string_of hprs hsp htok hlt
    refine ⟨after, ?_, hr, hspe.trans hco⟩
    rw [hchs]
    rw [hstr]
    rfl
  | @scalar token rest value hval =>
    obtain ⟨after, hsca, hr, hco⟩ := scalar_of hprs hchs hval hstops
    obtain ⟨hcnt, hlengths, -, -⟩ := scalarToken_leaf hval
    obtain ⟨hne, hall⟩ := scalarToken_chars hval
    rw [hcnt, hlengths]
    refine ⟨after, ?_, hr, hspe.thenFree hco⟩
    obtain ⟨d, tail, rfl⟩ := List.exists_cons_of_ne_nil hne
    have hd := isScalarChar_plain (List.all_eq_true.mp hall d List.mem_cons_self)
    split
    · rename_i hnil
      rw [hchs] at hnil
      cases hnil
    · rename_i hq
      rw [hchs] at hq
      exact absurd (List.cons.inj hq).1 hd.2.1
    · rename_i hbrace
      rw [hchs] at hbrace
      exact absurd (List.cons.inj hbrace).1 hd.2.2.1
    · rename_i hbra
      rw [hchs] at hbra
      exact absurd (List.cons.inj hbra).1 hd.2.2.2
    · exact hsca
  | @emptyArray text rest hsp | @emptyObject text rest hsp =>
    obtain ⟨hin, -, hf, -⟩ := opened_of hchs
    rw [hsp.dropWhile_eq (by decide)] at hin
    refine ⟨(charged.advance 1).space.advance 1, ?_, advance_cons hin,
      hspe.thenFree (hf.thenFree (advance_spends _ 1))⟩
    rw [hchs]
    dsimp only
    rw [if_pos (next_iff.mpr ⟨rest, hin⟩)]
    rfl
  | @array text rest items hits =>
    obtain ⟨hin, ht, hf, hle⟩ := opened_of hchs
    obtain ⟨c, tail, hh, hc⟩ := hits.head
    have hop : ¬ (charged.advance 1).space.next ']' = true := by
      rw [hh] at hin
      rw [next_eq_false hin, Bool.false_eq_true, not_false_iff]
      · trivial
      · rintro rfl
        cases hc
    have hbd : (Json.depthItems items : Int) + depth ≤ (charged.advance 1).space.maxDepth := by
      rw [hf.maxDepth, hmax]
      exact hdep
    have hfuel' : 2 * (charged.advance 1).space.chars.length + 2 ≤ fuel := by
      rw [hchs, List.length_cons] at hlen
      omega
    obtain ⟨after, haft, hr, hco⟩ := (items_of hprs hits fuel depth [] ht hrep
      hbd ((hbud.inner hspe).free hf) hfuel').reads
    have hto := hspe.trans (hf.free hco)
    rw [Nat.add_comm] at hto
    refine ⟨after, ?_, hr, hto⟩
    rw [hchs]
    dsimp only
    rw [if_neg hop]
    exact haft
  | @object text rest fields hfs =>
    obtain ⟨hin, ht, hf, hle⟩ := opened_of hchs
    obtain ⟨tail, hh⟩ := hfs.head
    have hop : ¬ (charged.advance 1).space.next '\x7d' = true := by
      rw [hh] at hin
      rw [next_eq_false hin (by decide)]
      decide
    have hbd : (Json.depthFields fields : Int) + depth ≤ (charged.advance 1).space.maxDepth := by
      rw [hf.maxDepth, hmax]
      exact hdep
    have hfuel' : 2 * (charged.advance 1).space.chars.length + 2 ≤ fuel := by
      rw [hchs, List.length_cons] at hlen
      omega
    obtain ⟨after, haft, hr, hco⟩ := (members_of hprs hfs fuel depth [] ht
      hrep.1 hrep.2 hbd ((hbud.inner hspe).free hf) hfuel').reads
    have hto := hspe.trans (hf.free hco)
    rw [Nat.add_comm] at hto
    refine ⟨after, ?_, hr, hto⟩
    rw [hchs]
    dsimp only
    rw [if_neg hop]
    exact haft

theorem items_of (hprs : Decodes parse number repr) {text rest : List Char} {items : List (Json F)}
    (h : Grammar.Items number text items rest) (fuel : Nat) (depth : Int) (done : List (Json F))
    {self : Reader} (ht : self.space.chars = text.dropWhile isSpace)
    (hrep : Json.NoRepeatsItems items) (hdep : Json.depthItems items + depth ≤ self.maxDepth)
    (hbud : self.Affords (Json.countItems items) (Json.lengthsItems items))
    (hfuel : 2 * self.chars.length + 2 ≤ fuel) :
    Reads (Reader.items parse fuel depth done self) self (.array (done ++ items)) rest
      (Json.countItems items) (Json.lengthsItems items) := by
  obtain ⟨fuel, rfl⟩ : ∃ n, fuel = n + 1 := ⟨fuel - 1, by omega⟩
  cases h with (have hspace : self.space.chars = start := ht.trans (hi.dropWhile_eq hsta))
  | @last _ start stop rest item hsta hi hstop =>
    have hdep : (item.depth : Int) + (depth + 1) ≤ self.maxDepth := by
      rw [Json.depthItems, Json.depthItems] at hdep
      omega
    obtain ⟨behind, hrd, hbeh, hco⟩ := (value_of hprs hi fuel (depth + 1) hspace
      (hstop.stops fun _ h => by rw [← Option.some.inj h]; decide) hrep.1 hdep
      hbud.first (by omega)).reads
    obtain ⟨hcld, hf⟩ := closed_of hbeh hstop (by decide)
    refine ⟨behind.space.advance 1, ?_, advance_cons hcld, ?_⟩
    · rw [Reader.items, hrd]
      change (if behind.space.next ']' = true then _ else _) = _
      rw [if_pos (next_iff.mpr ⟨rest, hcld⟩)]
      rfl
    · have hto := hco.thenFree (hf.thenFree (advance_spends _ 1))
      simpa [Json.countItems, Json.lengthsItems] using hto
  | @cons _ start stop next rest item items hsta hi hstop hits =>
    have hsho : stop.length < self.chars.length := by
      have hle := space_length_le self
      rw [hspace] at hle
      exact Nat.lt_of_lt_of_le hi.length_lt hle
    rw [Json.depthItems] at hdep
    obtain ⟨behind, hrd, hbeh, hco⟩ := (value_of hprs hi fuel (depth + 1) hspace
      (hstop.stops fun _ h => by rw [← Option.some.inj h]; decide) hrep.1 (by omega)
      hbud.first (by omega)).reads
    obtain ⟨hcomma, hf⟩ := closed_of hbeh hstop (by decide)
    have hnx : ¬ behind.space.next ']' = true := by
      rw [next_eq_false hcomma (by decide)]
      decide
    have hop : Space behind.space.chars (',' :: next) := by
      rw [hcomma]
      exact .nil _
    obtain ⟨middle, htk, hmid, hnot⟩ := take_of hop (by decide)
    have hsm := hco.thenFree (hf.free hnot)
    have hlen : middle.chars.length + 1 ≤ stop.length := by
      rw [hmid]
      have := hstop.length_le
      rwa [List.length_cons] at this
    obtain ⟨after, haft, hr, hto⟩ := (items_of hprs hits fuel depth (done ++ [item])
      (by rw [space_chars, hmid]) hrep.2 (by rw [hsm.maxDepth]; omega)
      (hbud.rest hsm) (by omega)).reads
    refine ⟨after, ?_, hr, hsm.trans hto⟩
    rw [Reader.items, hrd]
    change (if behind.space.next ']' = true then _ else _) = _
    rw [if_neg hnx, htk]
    rw [List.append_assoc, List.singleton_append] at haft
    exact haft

theorem members_of (hprs : Decodes parse number repr) {text rest : List Char}
    {fields : List (Units × Json F)} (h : Grammar.Members number text fields rest) (fuel : Nat)
    (depth : Int) (done : List (Units × Json F)) {self : Reader}
    (ht : self.space.chars = text.dropWhile isSpace) (hks : ((done ++ fields).map Prod.fst).Nodup)
    (hrep : Json.NoRepeatsFields fields) (hdep : Json.depthFields fields + depth ≤ self.maxDepth)
    (hbud : self.Affords (Json.countFields fields) (Json.lengthsFields fields))
    (hfuel : 2 * self.chars.length + 2 ≤ fuel) :
    Reads (Reader.members parse fuel depth done self) self (.object (done ++ fields)) rest
      (Json.countFields fields) (Json.lengthsFields fields) := by
  obtain ⟨fuel, rfl⟩ : ∃ n, fuel = n + 1 := ⟨fuel - 1, by omega⟩
  cases h with
  | @last _ token behind colon start stop rest key item hkey htok hcolon hsta hi hstop =>
    have hnew : key ∉ done.map Prod.fst := by
      rw [List.map_append] at hks
      exact fun hmem => List.disjoint_of_nodup_append hks hmem List.mem_cons_self
    obtain ⟨named, valued, hstr, hmember, htk, hval, hcost, hsho⟩ :=
      named_of hprs depth ht hkey htok hcolon hnew hbud
    have hspace : valued.space.chars = start := by rw [space_chars, hval, hi.dropWhile_eq hsta]
    have hbud : self.Affords (0 + (item.count + 0)) ([key.length] ++ (item.lengths ++ [])) := by
      rw [Nat.zero_add]
      exact hbud
    have hbud := hbud.rest hcost
    rw [Json.depthFields, Json.depthFields] at hdep
    obtain ⟨after, hrd, haft, hco'⟩ := (value_of hprs hi fuel (depth + 1) hspace
      (hstop.stops fun _ h => by rw [← Option.some.inj h]; decide) hrep.1
      (by rw [hcost.maxDepth]; omega) hbud.first (by omega)).reads
    obtain ⟨hcld, hf⟩ := closed_of haft hstop (by decide)
    refine ⟨after.space.advance 1, ?_, advance_cons hcld, ?_⟩
    · rw [Reader.members]
      simp only [hstr, hmember, htk, hrd, bind_eq]
      rw [if_pos (next_iff.mpr ⟨rest, hcld⟩)]
      rfl
    · have hto := hcost.trans (hco'.thenFree (hf.thenFree (advance_spends _ 1)))
      rw [Nat.zero_add] at hto
      simpa [Json.countFields, Json.lengthsFields] using hto
  | @cons _ token behind colon start stop next rest key item fields hkey htok hcolon hsta hi
      hstop hfs =>
      have hnew : key ∉ done.map Prod.fst := by
        rw [List.map_append] at hks
        exact fun hmem => List.disjoint_of_nodup_append hks hmem List.mem_cons_self
      obtain ⟨named, valued, hstr, hmember, htk, hval, hcost, hsho⟩ :=
        named_of hprs depth ht hkey htok hcolon hnew hbud
      have hspace : valued.space.chars = start := by rw [space_chars, hval, hi.dropWhile_eq hsta]
      have hstp : stop.length < valued.chars.length := by
        have hle := space_length_le valued
        rw [hspace] at hle
        exact Nat.lt_of_lt_of_le hi.length_lt hle
      have hbud : self.Affords (0 + (item.count + Json.countFields fields))
          ([key.length] ++ (item.lengths ++ Json.lengthsFields fields)) := by
        rw [Nat.zero_add]
        exact hbud
      have hbud := hbud.rest hcost
      rw [Json.depthFields] at hdep
      obtain ⟨after, hrd, haft, hco'⟩ := (value_of hprs hi fuel (depth + 1) hspace
        (hstop.stops fun _ h => by rw [← Option.some.inj h]; decide) hrep.1
        (by rw [hcost.maxDepth]; omega) hbud.first (by omega)).reads
      obtain ⟨hcomma, hf⟩ := closed_of haft hstop (by decide)
      have hnx : ¬ after.space.next '\x7d' = true := by
        rw [next_eq_false hcomma (by decide)]
        decide
      have hop : Space after.space.chars (',' :: next) := by
        rw [hcomma]
        exact .nil _
      obtain ⟨middle, htk', hmid, hnot⟩ := take_of hop (by decide)
      have hsm := hco'.thenFree (hf.free hnot)
      have hlen : middle.chars.length + 1 ≤ stop.length := by
        rw [hmid]
        have := hstop.length_le
        rwa [List.length_cons] at this
      obtain ⟨final, hfi, hr, hto⟩ := (members_of hprs hfs fuel depth
        (done ++ [(key, item)]) (by rw [space_chars, hmid])
        (by rwa [List.append_assoc, List.singleton_append]) hrep.2
        (by rw [hsm.maxDepth, hcost.maxDepth]; omega) (hbud.rest hsm) (by omega)).reads
      refine ⟨final, ?_, hr, ?_⟩
      · rw [Reader.members]
        simp only [hstr, hmember, htk, hrd, bind_eq]
        rw [if_neg hnx, htk', bind_eq]
        rw [List.append_assoc, List.singleton_append] at hfi
        exact hfi
      · have hall := hcost.trans (hsm.trans hto)
        rwa [Nat.zero_add] at hall

end

end Reader

end Morphir.Wire
