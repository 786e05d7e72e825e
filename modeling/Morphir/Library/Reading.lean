import Morphir.Library.Fallible

/-!
# Reading from a cursor

A reader takes items from the front of a list and counts how many it took.  One reader
follows another when it can be run at any other place, with anything after what the other
took, and then takes the same items with a related result.
-/

namespace Reading

open List

variable {ι ε α β γ δ σ τ : Type}

structure Cursor (ι : Type) where
  offset : Nat
  rest : List ι
deriving DecidableEq

abbrev Reader (ι ε : Type) := StateT (Cursor ι) (Except ε)

def position : Reader ι ε Nat := fun c => .ok (c.offset, c)

/-- Takes `count` items, where so many are left. -/
def takeItems (e : ε) (count : Nat) : Reader ι ε (List ι) := fun c =>
  if count ≤ c.rest.length then
    .ok (c.rest.take count, ⟨c.offset + count, c.rest.drop count⟩)
  else .error e

def times (step : σ → Reader ι ε σ) : Nat → σ → Reader ι ε σ
  | 0, s => pure s
  | count + 1, s => do
    let s ← step s
    times step count s

variable {p : Reader ι ε α}

lemma bind_ok {f : α → Reader ι ε β} {c₂ : Cursor ι} {b : β} (h : (p >>= f) c = .ok (b, c₂)) :
    ∃ a c₁, p c = .ok (a, c₁) ∧ f a c₁ = .ok (b, c₂) := by
  obtain ⟨⟨a, c₁⟩, ha, hb⟩ := Fallible.bind_ok h
  exact ⟨a, c₁, ha, hb⟩

variable {c c₁ : Cursor ι}

variable {a : α}

lemma bind_run (h : p c = .ok (a, c₁)) (f : α → Reader ι ε β) : (p >>= f) c = f a c₁ := by
  have hbind : (p >>= f) c = p c >>= fun r => f r.1 r.2 := rfl
  rw [hbind, h]
  rfl

lemma position_run (c : Cursor ι) : (position : Reader ι ε Nat) c = .ok (c.offset, c) := rfl

lemma position_ok {place : Nat} (h : (position : Reader ι ε Nat) c = .ok (place, c₁)) :
    c.offset = place ∧ c = c₁ :=
  Prod.mk.inj (Except.ok.inj h)

lemma pure_ok {b : α} (h : (pure a : Reader ι ε α) c = .ok (b, c₁)) :
    a = b ∧ c = c₁ := Prod.mk.inj (Except.ok.inj h)

variable {e : ε}

lemma throw_ok {b : α} (h : (throw e : Reader ι ε α) c = .ok (b, c₁)) : False := by cases h

lemma takeItems_ok {count : Nat} {items : List ι} (h : takeItems e count c = .ok (items, c₁)) :
    count ≤ c.rest.length ∧ items = c.rest.take count ∧
      c₁ = ⟨c.offset + count, c.rest.drop count⟩ := by
  rw [takeItems] at h
  split_ifs at h with hcnt
  cases h
  exact ⟨hcnt, rfl, rfl⟩

/-- `q` takes what `p` took, from any place and before anything. -/
def Follows (R : α → β → Prop) (p : Reader ι ε α) (q : Reader ι ε β) : Prop :=
  ∀ ⦃c c₁ : Cursor ι⦄ ⦃a : α⦄, p c = .ok (a, c₁) →
    ∃ used, c.rest = used ++ c₁.rest ∧ c₁.offset = c.offset + used.length ∧
      ∀ start tail, ∃ b, q ⟨start, used ++ tail⟩ = .ok (b, ⟨start + used.length, tail⟩) ∧ R a b

variable {R : α → β → Prop}

lemma follows_pure {b : β} (h : R a b) : Follows R (pure a : Reader ι ε α) (pure b) := by
  intro c c₁ a' ha
  obtain ⟨rfl, rfl⟩ := pure_ok ha
  exact ⟨[], rfl, rfl, fun start tail => ⟨b, rfl, h⟩⟩

variable {q : Reader ι ε β}

lemma follows_throw :
    Follows R (throw e : Reader ι ε α) q :=
  fun _ _ _ h => (throw_ok h).elim

lemma Follows.bind {S : γ → δ → Prop} {f : α → Reader ι ε γ} {g : β → Reader ι ε δ}
    (h : Follows R p q) (hf : ∀ a b, R a b → Follows S (f a) (g b)) :
    Follows S (p >>= f) (q >>= g) := by
  intro c c₂ d hd
  obtain ⟨a, c₁, ha, hfa⟩ := bind_ok hd
  obtain ⟨used, hr, hoff, hq⟩ := h ha
  obtain ⟨b₀, -, hR⟩ := hq 0 []
  obtain ⟨more, hr₁, hoff₁, -⟩ := hf a b₀ hR hfa
  refine ⟨used ++ more, ?_, ?_, fun start tail => ?_⟩
  · rw [hr, hr₁, append_assoc]
  · rw [hoff₁, hoff, length_append, Nat.add_assoc]
  · obtain ⟨b, hb, hab⟩ := hq start (more ++ tail)
    obtain ⟨more', hr₂, hoff₂, hg⟩ := hf a b hab hfa
    obtain rfl : more = more' := append_cancel_right (hr₁.symm.trans hr₂)
    obtain ⟨d', hd', hS⟩ := hg (start + used.length) tail
    refine ⟨d', ?_, hS⟩
    rw [append_assoc, bind_run hb, hd', length_append, Nat.add_assoc]

lemma follows_position : Follows (fun _ _ => True) (position : Reader ι ε Nat) position := by
  intro c c₁ a ha
  obtain ⟨rfl, rfl⟩ := position_ok ha
  exact ⟨[], rfl, rfl, fun start tail => ⟨start, position_run _, trivial⟩⟩

lemma follows_takeItems (e e' : ε) (count : Nat) :
    Follows Eq (takeItems e count : Reader ι ε (List ι)) (takeItems e' count) := by
  intro c c₁ items h
  obtain ⟨hcnt, rfl, rfl⟩ := takeItems_ok h
  have hlen : (c.rest.take count).length = count := length_take_of_le hcnt
  refine ⟨c.rest.take count, (take_append_drop count c.rest).symm, ?_, fun start tail => ?_⟩
  · rw [hlen]
  · refine ⟨c.rest.take count, ?_, rfl⟩
    have hle : count ≤ (c.rest.take count ++ tail).length := by
      rw [length_append]
      omega
    rw [takeItems, if_pos hle, take_left' hlen, drop_left' hlen, hlen]

lemma follows_times {R : σ → τ → Prop} {f : σ → Reader ι ε σ} {g : τ → Reader ι ε τ}
    (h : ∀ s t, R s t → Follows R (f s) (g t)) (count : Nat) {s : σ} {t : τ} (hst : R s t) :
    Follows R (times f count s) (times g count t) := by
  induction count generalizing s t with
  | zero => exact follows_pure hst
  | succ count ih => exact (h s t hst).bind fun s' t' hst' => ih hst'

end Reading
