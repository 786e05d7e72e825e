import Mathlib

/-!
# Machines that read a stream in chunks

A machine reads one symbol at a time; a step may emit an item or fail.  Feeding
it a chunk returns the items of the whole chunk, so a failure inside a chunk
takes the items of that chunk with it.  The run over the whole stream, symbol
by symbol, says what is lost.
-/

namespace Transducer

open List

universe u v w x

variable {σ : Type u} {α : Type v} {β : Type w} {ε : Type x}

/-- The loop over one chunk: the items so far, or the first failure. -/
def feed (step : σ → α → Except ε (Option β) × σ) : σ → List β → List α → Except ε (List β) × σ
  | s, items, [] => (.ok items, s)
  | s, items, a :: chunk =>
    match step s a with
    | (.ok item, s) => feed step s (items ++ item.toList) chunk
    | (.error e, s) => (.error e, s)

structure Run (σ : Type u) (β : Type w) (ε : Type x) where
  items : List β
  failure : Option ε
  state : σ

def Run.after (items : List β) (r : Run σ β ε) : Run σ β ε := { r with items := items ++ r.items }

variable (items : List β) (r : Run σ β ε)

@[simp] lemma Run.after_nil : r.after [] = r := rfl

@[simp] lemma Run.items_after :
    (r.after items).items = items ++ r.items := rfl

@[simp] lemma Run.failure_after :
    (r.after items).failure = r.failure := rfl

@[simp] lemma Run.state_after :
    (r.after items).state = r.state := rfl

@[simp] lemma Run.after_after (front items : List β) (r : Run σ β ε) :
    (r.after items).after front = r.after (front ++ items) := by
  simp [Run.after]

/-- The run over a stream, symbol by symbol, up to the first failure. -/
def run (step : σ → α → Except ε (Option β) × σ) : σ → List α → Run σ β ε
  | s, [] => ⟨[], none, s⟩
  | s, a :: stream =>
    match step s a with
    | (.ok item, s) => (run step s stream).after item.toList
    | (.error e, s) => ⟨[], some e, s⟩

def deliver (step : σ → α → Except ε (Option β) × σ) : σ → List (List α) → Run σ β ε
  | s, [] => ⟨[], none, s⟩
  | s, chunk :: chunks =>
    match feed step s [] chunk with
    | (.ok items, s) => (deliver step s chunks).after items
    | (.error e, s) => ⟨[], some e, s⟩

/-- How many symbols of a stream the first parts hold that end at or before a
position. -/
def settled : List (List α) → Nat → Nat
  | [], _ => 0
  | part :: parts, n => if part.length ≤ n then part.length + settled parts (n - part.length) else 0

def covered : List (List α) → Nat → Nat
  | [], _ => 0
  | part :: parts, n => if part.length ≤ n then covered parts (n - part.length) + 1 else 0

variable {step : σ → α → Except ε (Option β) × σ} {s : σ}

@[simp] lemma run_nil : run step s [] = ⟨[], none, s⟩ := rfl

variable {stream : List α} {next : σ} {a : α}

lemma run_cons_ok {item : Option β} (h : step s a = (.ok item, next)) :
    run step s (a :: stream) = (run step next stream).after item.toList := by
  simp [run, h]

variable {e : ε}

lemma run_cons_error (h : step s a = (.error e, next)) :
    run step s (a :: stream) = ⟨[], some e, next⟩ := by
  simp [run, h]

lemma feed_eq (chunk : List α) :
    feed step s items chunk =
      match (run step s chunk).failure with
      | none => (.ok (items ++ (run step s chunk).items), (run step s chunk).state)
      | some e => (.error e, (run step s chunk).state) := by
  induction chunk generalizing s items with
  | nil => simp [feed]
  | cons a chunk ih =>
    cases hs : step s a with
    | mk result next =>
      cases result with
      | error e => simp [feed, hs, run_cons_error hs]
      | ok item =>
        rw [feed, hs, run_cons_ok hs]
        simpa using ih (items ++ item.toList)

variable {front back : List α}

lemma run_append (h : (run step s front).failure = none) :
    run step s (front ++ back) =
      (run step (run step s front).state back).after (run step s front).items := by
  induction front generalizing s with
  | nil => simp
  | cons a front ih =>
    cases hs : step s a with
    | mk result next =>
      cases result with
      | error e => simp [run_cons_error hs] at h
      | ok item =>
        rw [run_cons_ok hs] at h
        rw [cons_append, run_cons_ok hs, run_cons_ok hs, ih h]
        simp

lemma run_append_failure (h : (run step s front).failure = some e) :
    run step s (front ++ back) = run step s front := by
  induction front generalizing s with
  | nil => simp at h
  | cons a front ih =>
    cases hs : step s a with
    | mk result next =>
      cases result with
      | error f => rw [cons_append, run_cons_error hs, run_cons_error hs]
      | ok item =>
        rw [run_cons_ok hs] at h
        rw [cons_append, run_cons_ok hs, run_cons_ok hs, ih h]

lemma run_front (h : (run step s (front ++ back)).failure = none) :
    (run step s front).failure = none := by
  cases hfr : (run step s front).failure with
  | none => rfl
  | some e => rw [run_append_failure hfr, hfr] at h; exact h

lemma exists_failure (h : (run step s stream).failure = some e) :
    ∃ front a back next, stream = front ++ a :: back ∧ (run step s front).failure = none ∧
      step (run step s front).state a = (.error e, next) := by
  induction stream generalizing s with
  | nil => simp at h
  | cons a stream ih =>
    cases hs : step s a with
    | mk result next =>
      cases result with
      | error f =>
        rw [run_cons_error hs] at h
        obtain rfl : f = e := by simpa using h
        exact ⟨[], a, stream, next, rfl, rfl, hs⟩
      | ok item =>
        rw [run_cons_ok hs] at h
        obtain ⟨front, b, back, last, rfl, hfr, hl⟩ := ih h
        refine ⟨a :: front, b, back, last, rfl, ?_, ?_⟩
        · simpa [run_cons_ok hs] using hfr
        · simpa [run_cons_ok hs] using hl

lemma run_failing (h : (run step s front).failure = none)
    (hl : step (run step s front).state a = (.error e, next)) :
    run step s (front ++ a :: back) = ⟨(run step s front).items, some e, next⟩ := by
  rw [run_append h, run_cons_error hl]
  simp [Run.after]

variable {chunks : List (List α)}

lemma deliver_of_ok (h : (run step s chunks.flatten).failure = none) :
    deliver step s chunks = run step s chunks.flatten := by
  induction chunks generalizing s with
  | nil => simp [deliver]
  | cons chunk chunks ih =>
    rw [flatten_cons] at h
    have hchunk := run_front h
    rw [run_append hchunk] at h
    rw [flatten_cons, run_append hchunk, deliver, feed_eq, hchunk]
    simp only [nil_append]
    rw [ih (by simpa using h)]

lemma deliver_of_failure (hchu : chunks.flatten = front ++ a :: back)
    (hfr : (run step s front).failure = none)
    (hl : step (run step s front).state a = (.error e, next)) :
    deliver step s chunks =
      ⟨(run step s (front.take (settled chunks front.length))).items, some e, next⟩ := by
  induction chunks generalizing s front with
  | nil => simp at hchu
  | cons chunk chunks ih =>
    rw [flatten_cons] at hchu
    by_cases hlen : chunk.length ≤ front.length
    · obtain ⟨rest, rfl⟩ : chunk <+: front := by
        have hwh : front <+: chunk ++ chunks.flatten := ⟨a :: back, hchu.symm⟩
        exact prefix_of_prefix_length_le (prefix_append _ _) hwh hlen
      have hchunk := run_front hfr
      rw [append_assoc] at hchu
      have hr := append_cancel_left hchu
      rw [run_append hchunk] at hfr hl
      have htl := ih hr (by simpa using hfr) (by simpa using hl)
      rw [deliver, feed_eq, hchunk]
      simp only [htl]
      have htk : (chunk ++ rest).take (settled (chunk :: chunks) (chunk ++ rest).length) =
          chunk ++ rest.take (settled chunks rest.length) := by
        simp [settled, take_append, take_of_length_le]
      rw [htk, run_append hchunk]
      simp [Run.after]
    · have hset : settled (chunk :: chunks) front.length = 0 := if_neg hlen
      obtain ⟨cut, rfl⟩ : front ++ [a] <+: chunk := by
        refine prefix_of_prefix_length_le ?_ (prefix_append chunk chunks.flatten)
          (by simp; omega)
        exact ⟨back, by rw [hchu]; simp⟩
      have hfails : run step s ((front ++ [a]) ++ cut) =
          ⟨(run step s front).items, some e, next⟩ := by
        rw [append_assoc]
        exact run_failing hfr hl
      rw [hset, deliver, feed_eq, hfails]
      simp

lemma feed_keeps {P : σ → Prop} (hstep : ∀ s a, P s → P (step s a).2) (hs : P s)
    (items : List β) (chunk : List α) : P (feed step s items chunk).2 := by
  induction chunk generalizing s items with
  | nil => exact hs
  | cons a chunk ih =>
    have hnx := hstep s a hs
    cases h : step s a with
    | mk result next =>
      cases result with
      | error e => simpa [feed, h] using hnx
      | ok item => simpa [feed, h] using ih hnx (items ++ item.toList)

variable (step) in
lemma run_keeps {P Q : σ → Prop}
    (hok : ∀ {s a item next}, P s → step s a = (.ok item, next) → P next)
    (her : ∀ {s a e next}, P s → step s a = (.error e, next) → Q next) (hs : P s)
    (stream : List α) :
    match (run step s stream).failure with
    | none => P (run step s stream).state
    | some _ => Q (run step s stream).state := by
  induction stream generalizing s with
  | nil => exact hs
  | cons a stream ih =>
    cases h : step s a with
    | mk result next =>
      cases result with
      | error e => simpa [run_cons_error h] using her hs h
      | ok item => simpa [run_cons_ok h] using ih (hok hs h)

variable (step s) in
lemma deliver_state (chunks : List (List α)) :
    (deliver step s chunks).failure = (run step s chunks.flatten).failure ∧
      (deliver step s chunks).state = (run step s chunks.flatten).state := by
  cases h : (run step s chunks.flatten).failure with
  | none => rw [deliver_of_ok h, h]; exact ⟨rfl, rfl⟩
  | some e =>
    obtain ⟨front, a, back, next, hchu, hfr, hl⟩ := exists_failure h
    rw [deliver_of_failure hchu hfr hl, hchu, run_failing hfr hl]
    exact ⟨rfl, rfl⟩

/-- A part that the machine reads from a state back to that state, and that
emits one item at its end. -/
structure Emits (step : σ → α → Except ε (Option β) × σ) (s : σ) (part : List α) (item : β) :
    Prop where
  run_eq : run step s part = ⟨[item], none, s⟩
  silent : ∀ k < part.length, (run step s (part.take k)).items = []

lemma items_take (h : (run step s stream).items = []) (k : Nat) :
    (run step s (stream.take k)).items = [] := by
  rw [← take_append_drop k stream] at h
  cases hfr : (run step s (stream.take k)).failure with
  | none =>
    rw [run_append hfr] at h
    exact (append_eq_nil_iff.mp h).1
  | some e => rwa [run_append_failure hfr] at h

lemma Emits.of_last {last : α} {item : β} {t : σ} (hfr : run step s front = ⟨[], none, t⟩)
    (hl : step t last = (.ok (some item), s)) : Emits step s (front ++ [last]) item := by
  constructor
  · rw [run_append (by rw [hfr]), hfr, run_cons_ok hl]
    rfl
  · intro k hk
    rw [take_append_of_le_length (by simpa using Nat.le_of_lt_succ (by simpa using hk))]
    exact items_take (by rw [hfr]) k

variable {parts : List (List α × β)}

lemma run_parts (h : ∀ p ∈ parts, Emits step s p.1 p.2) :
    run step s (parts.map Prod.fst).flatten = ⟨parts.map Prod.snd, none, s⟩ := by
  induction parts with
  | nil => rfl
  | cons p parts ih =>
    have hp := (h p mem_cons_self).run_eq
    have hr := ih fun q hq => h q (mem_cons_of_mem p hq)
    rw [map_cons, flatten_cons, run_append (by rw [hp]), hp, hr]
    rfl

lemma items_take_parts (h : ∀ p ∈ parts, Emits step s p.1 p.2) {tail : List α}
    (htl : ∀ k, (run step s (tail.take k)).items = []) (n : Nat) :
    (run step s (((parts.map Prod.fst).flatten ++ tail).take n)).items =
      (parts.map Prod.snd).take (covered (parts.map Prod.fst) n) := by
  induction parts generalizing n with
  | nil => simpa using htl n
  | cons p parts ih =>
    have hp := h p mem_cons_self
    have hr := ih fun q hq => h q (mem_cons_of_mem p hq)
    rw [map_cons, flatten_cons, append_assoc, covered]
    by_cases hn : p.1.length ≤ n
    · rw [if_pos hn, take_append, take_of_length_le hn,
        run_append (by rw [hp.run_eq]), hp.run_eq, Run.items_after, hr]
      rfl
    · have hsh : n < p.1.length := Nat.lt_of_not_le hn
      rw [if_neg hn, take_append_of_le_length (Nat.le_of_lt hsh)]
      simpa using hp.silent n hsh

lemma covered_le (parts : List (List α)) (n : Nat) : covered parts n ≤ parts.length := by
  induction parts generalizing n with
  | nil => simp [covered]
  | cons part parts ih =>
    rw [covered]
    split
    · simpa using ih (n - part.length)
    · exact Nat.zero_le _

end Transducer
