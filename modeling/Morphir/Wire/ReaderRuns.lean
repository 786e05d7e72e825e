import Morphir.Wire.ReaderCompleteness

/-!
# Texts of the JSON grammar

The reader accepts exactly the texts of the grammar whose values are within the
limits, and it ends on every text.
-/

namespace Morphir.Wire

open Fallible Grammar List

variable {F : Type} {parse : List Char → Option (Json F)} {number : List Char → F}
  {repr : List Char → Option (List Char)}

namespace Reader

def Ends {α : Type} (x : Except Failure α) : Prop := x ≠ .error .outOfFuel

lemma Ends.bind {α β : Type} {x : Except Failure α} {f : α → Except Failure β} (hx : Ends x)
    (hf : ∀ a, x = .ok a → Ends (f a)) : Ends (x >>= f) := by
  cases x with
  | error e => exact fun h => hx (congrArg _ (Except.error.inj h))
  | ok a => exact hf a rfl

lemma ends_ok {α : Type} (a : α) : Ends (.ok a : Except Failure α) := nofun

lemma ends_invalid {α : Type} (code detail : Units) :
    Ends (.error (.invalid code detail) : Except Failure α) := nofun

lemma ends_refuse (p : Prop) [Decidable p] (code detail : Units) :
    Ends (refuse p (Failure.invalid code detail)) := by
  unfold refuse
  split
  · exact ends_invalid _ _
  · exact ends_ok _

variable (self : Reader)

lemma ends_take (c : Char) : Ends (self.take c) := by
  unfold take
  dsimp only
  split
  · exact ends_ok _
  · exact ends_invalid _ _

lemma ends_chargeNode : Ends self.chargeNode := by
  unfold chargeNode
  split
  · exact ends_ok _
  · exact ends_invalid _ _

lemma ends_string : Ends (self.string parse) := by
  refine (ends_take self '"').bind fun opened _ => ?_
  split
  · exact ends_invalid _ _
  · split
    · exact ends_invalid _ _
    · unfold chargeUnits
      split
      · exact ends_ok _
      · exact ends_invalid _ _
    · exact ends_invalid _ _

lemma ends_scalar : Ends (self.scalar parse) := by
  unfold scalar
  dsimp only
  split
  · exact ends_invalid _ _
  · exact ends_ok _
  · exact ends_ok _
  · exact ends_ok _
  · exact ends_invalid _ _

lemma Accepted.shorter {depth : Int} {self after : Reader} {v : Json F}
    (h : Accepted number depth self v after) : after.chars.length < self.chars.length := by
  obtain ⟨start, hsta, hval⟩ := h.derived
  exact Nat.lt_of_lt_of_le hval.length_lt hsta.length_le

structure Terminates (parse : List Char → Option (Json F)) (fuel : Nat) : Prop where
  value : ∀ depth reader, 2 * reader.chars.length + 1 ≤ fuel → Ends (value parse fuel depth reader)
  items : ∀ depth done reader, 2 * reader.chars.length + 2 ≤ fuel →
    Ends (items parse fuel depth done reader)
  members : ∀ depth done reader, 2 * reader.chars.length + 2 ≤ fuel →
    Ends (members parse fuel depth done reader)

lemma opened_length {self : Reader} {c : Char} {tail : List Char} (h : self.chars = c :: tail) :
    (self.advance 1).space.chars.length + 1 ≤ self.chars.length := by
  have hle := (opened_of h).2.2.2
  rw [h, length_cons]
  omega

variable {fuel : Nat}

lemma value_terminates (ih : Terminates parse fuel) (depth : Int) (self : Reader)
    (hfuel : 2 * self.chars.length + 1 ≤ fuel + 1) : Ends (value parse (fuel + 1) depth self) := by
  refine (ends_refuse _ _ _).bind fun _ _ => (ends_chargeNode _).bind fun charged hcha => ?_
  have hlen : charged.chars.length ≤ self.chars.length := by
    rw [(chargeNode_ok hcha).1]
    exact space_length_le self
  split
  · exact ends_invalid _ _
  · exact (ends_string charged).bind fun _ _ => ends_ok _
  · rename_i hchs
    have hin := opened_length hchs
    dsimp only
    split
    · exact ends_ok _
    · exact ih.members _ _ _ (by omega)
  · rename_i hchs
    have hin := opened_length hchs
    dsimp only
    split
    · exact ends_ok _
    · exact ih.items _ _ _ (by omega)
  · exact ends_scalar charged

section

variable (hprs : Decodes parse number repr)

include hprs

lemma items_terminates (ih : Terminates parse fuel) (depth : Int) (done : List (Json F))
    (self : Reader) (hfuel : 2 * self.chars.length + 2 ≤ fuel + 1) :
    Ends (items parse (fuel + 1) depth done self) := by
  refine (ih.value _ _ (by omega)).bind fun ⟨item, behind⟩ hi => ?_
  have hsho := ((sound hprs fuel).value _ _ _ _ hi).shorter
  dsimp only
  split
  · exact ends_ok _
  · refine (ends_take _ _).bind fun middle htk => ih.items _ _ _ ?_
    have hle := (take_ok htk).1.length_le
    have hsp := space_length_le behind
    rw [length_cons] at hle
    omega

lemma members_terminates (ih : Terminates parse fuel) (depth : Int) (done : List (Units × Json F))
    (self : Reader) (hfuel : 2 * self.chars.length + 2 ≤ fuel + 1) :
    Ends (members parse (fuel + 1) depth done self) := by
  refine (ends_string self).bind fun ⟨key, named⟩ hkey => (ends_refuse _ _ _).bind fun _ _ =>
    (ends_take _ _).bind fun valued hco => ?_
  obtain ⟨token, hname, -, -⟩ := string_ok hprs hkey
  have hnm := hname.length_le
  have hval := (take_ok hco).1.length_le
  rw [length_append] at hnm
  rw [length_cons] at hval
  refine (ih.value _ _ (by omega)).bind fun ⟨item, behind⟩ hi => ?_
  have hsho := ((sound hprs fuel).value _ _ _ _ hi).shorter
  dsimp only
  split
  · exact ends_ok _
  · refine (ends_take _ _).bind fun middle htk => ih.members _ _ _ ?_
    have hle := (take_ok htk).1.length_le
    have hsp := space_length_le behind
    rw [length_cons] at hle
    omega

lemma terminates (fuel : Nat) : Terminates parse fuel := by
  induction fuel with
  | zero => exact ⟨fun _ _ h => by omega, fun _ _ _ h => by omega, fun _ _ _ h => by omega⟩
  | succ fuel ih =>
    exact ⟨value_terminates ih, items_terminates hprs ih, members_terminates hprs ih⟩

end

def Kept {α : Type} (before after : Except Failure α) : Prop :=
  before = .error .outOfFuel ∨ after = before

lemma Kept.refl {α : Type} (x : Except Failure α) : Kept x x := .inr rfl

lemma Kept.bind {α β : Type} {x x' : Except Failure α} {f f' : α → Except Failure β}
    (hx : Kept x x') (hf : ∀ a, Kept (f a) (f' a)) : Kept (x >>= f) (x' >>= f') := by
  rcases hx with rfl | rfl
  · exact .inl rfl
  · cases x' with
    | error e => exact .inr rfl
    | ok a => exact hf a

structure Monotone (parse : List Char → Option (Json F)) (fuel : Nat) : Prop where
  value : ∀ depth reader, Kept (value parse fuel depth reader) (value parse (fuel + 1) depth reader)
  items : ∀ depth done reader,
    Kept (items parse fuel depth done reader) (items parse (fuel + 1) depth done reader)
  members : ∀ depth done reader,
    Kept (members parse fuel depth done reader) (members parse (fuel + 1) depth done reader)

lemma monotone (parse : List Char → Option (Json F)) (fuel : Nat) : Monotone parse fuel := by
  induction fuel with
  | zero => exact ⟨fun _ _ => .inl rfl, fun _ _ _ => .inl rfl, fun _ _ _ => .inl rfl⟩
  | succ fuel ih =>
    refine ⟨fun depth self => ?_, fun depth done self => ?_, fun depth done self => ?_⟩
    · refine (Kept.refl _).bind fun _ => (Kept.refl _).bind fun charged => ?_
      split
      · exact .refl _
      · exact .refl _
      · dsimp only
        split
        · exact .refl _
        · exact ih.members _ _ _
      · dsimp only
        split
        · exact .refl _
        · exact ih.items _ _ _
      · exact .refl _
    · refine (ih.value _ _).bind fun _ => ?_
      dsimp only
      split
      · exact .refl _
      · exact (Kept.refl _).bind fun _ => ih.items _ _ _
    · refine (Kept.refl _).bind fun _ => (Kept.refl _).bind fun _ =>
        (Kept.refl _).bind fun valued => (ih.value _ _).bind fun _ => ?_
      dsimp only
      split
      · exact .refl _
      · exact (Kept.refl _).bind fun _ => ih.members _ _ _

end Reader

open Reader

variable {text : List Char} {maxDepth : Int} {nodes stringUnits : Option Int}

section

variable (hprs : Decodes parse number repr)

include hprs

lemma parseWithLimits_ends {fuel : Nat} (hfuel : enough text ≤ fuel) :
    Ends (parseWithLimits parse fuel text maxDepth nodes stringUnits) :=
  ((terminates hprs fuel).value 0 ⟨text, 0, maxDepth, nodes, stringUnits⟩ hfuel).bind fun _ _ =>
    (ends_refuse _ _ _).bind fun _ _ => ends_ok _

lemma parseWithLimits_fuel {fuel : Nat} (hfuel : enough text ≤ fuel) :
    parseWithLimits parse fuel text maxDepth nodes stringUnits =
      parseWithLimits parse (enough text) text maxDepth nodes stringUnits := by
  induction hfuel with
  | refl => rfl
  | @step fuel hfuel ih =>
    have hk : Kept (parseWithLimits parse fuel text maxDepth nodes stringUnits)
        (parseWithLimits parse (fuel + 1) text maxDepth nodes stringUnits) :=
      ((monotone parse fuel).value _ _).bind fun _ => .refl _
    rcases hk with hout | hsm
    · exact absurd hout (parseWithLimits_ends hprs hfuel)
    · exact hsm.trans ih

lemma parseWithLimits_iff {v : Json F} :
    parseWithLimits parse (enough text) text maxDepth nodes stringUnits = .ok v ↔
      Document number text v ∧ v.NoRepeats ∧ (v.depth : Int) ≤ maxDepth ∧
        (∃ left, Budget.spend nodes (List.replicate v.count 1) = some left) ∧
          ∃ left, Budget.spend stringUnits v.lengths = some left := by
  constructor
  · intro h
    obtain ⟨⟨result, after⟩, hres, hr⟩ := bind_ok h
    obtain ⟨_, htra, hval⟩ := bind_ok hr
    cases hval
    have htra := not_not.mp (refuse_ok htra)
    have hacc := (sound hprs _).value _ _ _ _ hres
    obtain ⟨start, hsta, hder⟩ := hacc.derived
    have hstop := after.space_space
    rw [htra] at hstop
    have hdep := hacc.depth
    exact ⟨⟨start, after.chars, hsta, hder, hstop⟩, hacc.noRepeats, hdep,
      ⟨_, hacc.spends.nodes⟩, ⟨_, hacc.spends.stringUnits⟩⟩
  · rintro ⟨⟨start, stop, hsta, hder, hstop⟩, hrep, hdep, hnodes, hus⟩
    have hspace : (Reader.mk text 0 maxDepth nodes stringUnits).space.chars = start := by
      rw [space_chars, hder.dropWhile_eq hsta]
    obtain ⟨after, hrd, haft, -⟩ := (value_of hprs hder (enough text) 0 hspace
      (hstop.stops nofun) hrep (by rwa [Int.add_zero]) ⟨hnodes, hus⟩ (Nat.le_refl _)).reads
    have hend : after.space.chars = [] := by
      rw [space_chars, haft, hstop.same]
      rfl
    rw [parseWithLimits, hrd, bind_eq]
    dsimp only
    rw [hend]
    rfl

end

lemma spend_replicate_iff {limit : Int} {n : Nat} (hn : 0 < n) :
    (∃ left, Budget.spend (some limit) (List.replicate n 1) = some left) ↔ (n : Int) ≤ limit := by
  rw [Budget.spend_isSome_iff, sum_replicate_nat, Nat.mul_one]
  refine or_iff_right fun hnil => ?_
  rw [replicate_eq_nil_iff] at hnil
  omega

lemma Json.count_pos (v : Json F) : 0 < v.count := by cases v <;> simp only [Json.count] <;> omega

/-- The reader succeeds on exactly the texts of the grammar without repeated members up
to a depth, with limits on exactly those of them that are within the limits, and it ends
on every text. -/
theorem parse_grammar (hprs : Decodes parse number repr) (text : List Char) :
    (∀ v, parseText parse text = .ok v ↔ Document number text v ∧ v.NoRepeats ∧ v.depth ≤ 512) ∧
    (∀ (v : Json F) (maxDepth maxNodes maxStringUnits : Int), maxDepth ≤ 512 →
      (parseBounded parse text maxDepth maxNodes maxStringUnits = .ok v ↔
        parseText parse text = .ok v ∧ (v.depth : Int) ≤ maxDepth ∧ (v.count : Int) ≤ maxNodes ∧
          (v.lengths = [] ∨ (v.lengths.sum : Int) ≤ maxStringUnits))) ∧
    ∀ (fuel : Nat) (maxDepth : Int) (nodes stringUnits : Option Int), enough text ≤ fuel →
      parseWithLimits parse fuel text maxDepth nodes stringUnits =
          parseWithLimits parse (enough text) text maxDepth nodes stringUnits ∧
        parseWithLimits parse fuel text maxDepth nodes stringUnits ≠ .error .outOfFuel := by
  have ht (v : Json F) : parseText parse text = .ok v ↔
      Document number text v ∧ v.NoRepeats ∧ v.depth ≤ 512 := by
    rw [parseText, parseWithLimits_iff hprs]
    simp only [Budget.spend_none, Option.some.injEq, exists_eq', and_true]
    exact and_congr_right fun _ => and_congr_right fun _ => Int.ofNat_le
  refine ⟨ht, fun v maxDepth maxNodes maxStringUnits hmax => ?_, fun fuel maxDepth nodes
    stringUnits hfuel => ⟨parseWithLimits_fuel hprs hfuel, parseWithLimits_ends hprs hfuel⟩⟩
  rw [ht, parseBounded, parseWithLimits_iff hprs, spend_replicate_iff v.count_pos,
    Budget.spend_isSome_iff]
  constructor
  · rintro ⟨hdoc, hrep, hdep, hnodes, hus⟩
    exact ⟨⟨hdoc, hrep, by omega⟩, hdep, hnodes, hus⟩
  · rintro ⟨⟨hdoc, hrep, -⟩, hdep, hnodes, hus⟩
    exact ⟨hdoc, hrep, hdep, hnodes, hus⟩

def wholeNumber (token : List Char) : Nat := Nat.ofDigitChars 10 token 0

def readToken : List Char → Option (Json Nat)
  | '"' :: body => (stringToken ('"' :: body)).map .string
  | text => scalarToken (fun token => .number (wholeNumber token) none) text

lemma readToken_decodes : Decodes readToken wholeNumber fun _ => none := by
  refine ⟨fun body => rfl, fun text _ hq _ _ => ?_⟩
  unfold readToken
  split
  · exact absurd rfl hq
  · rfl

theorem parse_grammar_array : Document wholeNumber "[7]".toList (.array [.number 7 (some ['7'])]) :=
  (((parse_grammar readToken_decodes "[7]".toList).1 _).mp rfl).1

/-- A negative budget of units refuses no text without keys and strings. -/
theorem not_within_every_limit :
    ¬ ∀ (parse : List Char → Option (Json Nat)) (number : List Char → Nat)
      (repr : List Char → Option (List Char)), Decodes parse number repr →
        ∀ (text : List Char) (v : Json Nat) (maxDepth maxNodes maxStringUnits : Int),
          maxDepth ≤ 512 →
            (parseBounded parse text maxDepth maxNodes maxStringUnits = .ok v ↔
              parseText parse text = .ok v ∧ (v.depth : Int) ≤ maxDepth ∧
                (v.count : Int) ≤ maxNodes ∧ (v.lengths.sum : Int) ≤ maxStringUnits) := by
  intro h
  have hneg := ((h readToken wholeNumber _ readToken_decodes "7".toList
    (.number 7 (some ['7'])) 0 1 (-1) (by decide)).mp rfl).2.2.2
  cases hneg

end Morphir.Wire
