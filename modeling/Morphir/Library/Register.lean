import Mathlib

/-!
# Registers with numbered entries

A register counts the values it took and holds the last of them, or none.  Along a
run no number is given twice, and what is held was taken with the number it has.
-/

namespace Register

universe u

variable {α : Type u}

structure State (α : Type u) where
  counter : Int
  held : Option (Int × α)

/-- A move keeps the counter and holds what it held or nothing, or it takes a value with
the next number.  The counter stays below a limit. -/
inductive Move (limit : Int) : State α → Option (Int × α) → State α → Prop
  | keep {counter : Int} {held held' : Option (Int × α)} (h : held' = held ∨ held' = none) :
      Move limit ⟨counter, held⟩ none ⟨counter, held'⟩
  | take {counter : Int} {held : Option (Int × α)} (value : α) (h : counter ≠ limit) :
      Move limit ⟨counter, held⟩ (some (counter + 1, value))
        ⟨counter + 1, some (counter + 1, value)⟩

inductive Run (limit : Int) : State α → List (Int × α) → State α → Prop
  | refl (s : State α) : Run limit s [] s
  | step {s middle s' : State α} {taken : Option (Int × α)} {log : List (Int × α)}
      (hmove : Move limit s taken middle) (hrun : Run limit middle log s') :
      Run limit s (taken.toList ++ log) s'

lemma Run.log {limit : Int} {s s' : State α} {log : List (Int × α)}
    (h : Run limit s log s') (hlim : s.counter ≤ limit) :
    log.Pairwise (fun a b => a.1 < b.1) ∧ s.counter ≤ s'.counter ∧ s'.counter ≤ limit ∧
      (∀ entry ∈ log, s.counter < entry.1 ∧ entry.1 ≤ s'.counter) ∧
      ∀ entry, s'.held = some entry → s.held = some entry ∨ entry ∈ log := by
  induction h with
  | refl s =>
    exact ⟨.nil, Int.le_refl _, hlim, fun _ he => absurd he List.not_mem_nil, fun _ he => .inl he⟩
  | step hmv _ ih =>
    cases hmv with
    | keep hhl =>
      obtain ⟨hpai, hle, hmax, hbou, hl⟩ := ih hlim
      refine ⟨hpai, hle, hmax, hbou, fun entry hent => ?_⟩
      rcases hl entry hent with h | h
      · rcases hhl with heq | heq
        · exact .inl (heq ▸ h)
        · rw [heq] at h
          cases h
      · exact .inr h
    | take value hne =>
      have hnx := Int.lt_iff_le_and_ne.mpr ⟨hlim, hne⟩
      obtain ⟨hpai, hle, hmax, hbou, hl⟩ := ih (Int.add_one_le_iff.mpr hnx)
      dsimp only at hle hbou ⊢
      refine ⟨?_, by omega, hmax, fun entry hent => ?_, fun entry hent => ?_⟩
      · exact List.pairwise_cons.mpr ⟨fun entry hent => (hbou entry hent).1, hpai⟩
      · rcases List.mem_cons.mp hent with rfl | hent
        · exact ⟨Int.lt_add_one_iff.mpr (Int.le_refl _), hle⟩
        · have hbd := hbou entry hent
          exact ⟨by omega, hbd.2⟩
      · refine .inr (List.mem_cons.mpr ?_)
        rcases hl entry hent with h | h
        · exact .inl (Option.some.inj h).symm
        · exact .inr h

end Register
