import Morphir.Scheme.Slices

/-!
# The agreement of the readers

What is recorded never decides what is read: a reader that records positions
or comments behaves as the plain reader.
-/

namespace Morphir.Scheme

open Reader List Scheme RangedForm

variable {F : Type} [Doubles F]

def Reader.erase (r : Reader) : Reader := plain r.before r.rest

variable (r : Reader)

@[simp] lemma rest_erase : r.erase.rest = r.rest := rfl

@[simp] lemma index_erase : r.erase.index = r.index := rfl

variable (n : Nat)

@[simp] lemma move_erase : r.erase.move n = (r.move n).erase := rfl

@[simp] lemma push_erase : r.erase.push = r.erase := rfl

@[simp] lemma erase_push : r.push.erase = r.erase := rfl

@[simp] lemma erase_push_move :
    (r.push.move n).erase = (r.move n).erase := rfl

@[simp] lemma erase_truncate : (r.truncate n).erase = r.erase := rfl

@[simp] lemma erase_unrecord : (r.unrecord n).erase = r.erase := rfl

@[simp] lemma truncate_erase : r.erase.truncate n = r.erase := rfl

@[simp] lemma unrecord_erase : r.erase.unrecord n = r.erase := rfl

@[simp] lemma comment_erase (topLevel : Bool) (n : Nat) :
    r.erase.comment topLevel n = r.erase := comment_plain ..

@[simp] lemma erase_comment_move (topLevel : Bool) (n m : Nat) :
    ((r.comment topLevel n).move m).erase = (r.move m).erase := by
  simp only [Reader.comment]
  split_ifs <;> rfl

def eraseResult (result : Read (Datum F × Reader)) : Read (Datum F × Reader) :=
  result.map fun (datum, r) => (datum, r.erase)

omit [Doubles F] in
@[simp] lemma eraseResult_ok (datum : Datum F) (r : Reader) :
    eraseResult (.ok (datum, r)) = .ok (datum, r.erase) := rfl

omit [Doubles F] in
@[simp] lemma eraseResult_error (error : SchemeError) :
    eraseResult (F := F) (.error error) = .error error := rfl

lemma readAtom_erase (r : Reader) : readAtom (F := F) r.erase = eraseResult (readAtom r) := by
  unfold readAtom
  simp only [rest_erase, index_erase, move_erase]
  split
  · split <;> rfl
  · split <;> rfl
  · split_ifs
    · rfl
    · split <;> rfl
  · split <;> rfl

variable (F) in
structure Erases (fuel : Nat) : Prop where
  skip : ∀ depth topLevel r,
    Scheme.skip F fuel depth topLevel r.erase = (Scheme.skip F fuel depth topLevel r).map erase
  read : ∀ depth r, Scheme.read F fuel depth r.erase = eraseResult (Scheme.read F fuel depth r)
  datum : ∀ depth r, readDatum F fuel depth r.erase = eraseResult (readDatum F fuel depth r)
  items : ∀ depth close items r,
    readItems F fuel depth close items r.erase = eraseResult (readItems F fuel depth close items r)

variable {fuel : Nat}

section

variable (ih : Erases F fuel)

include ih

lemma skip_erase (depth : Nat) (topLevel : Bool) (r : Reader) :
    skip F (fuel + 1) depth topLevel r.erase =
      (skip F (fuel + 1) depth topLevel r).map erase := by
  unfold skip
  simp only [rest_erase, move_erase, comment_erase]
  cases r.rest with
  | nil => rfl
  | cons c cs =>
    simp only
    split_ifs
    · exact ih.skip ..
    · rw [← erase_comment_move r topLevel]
      exact ih.skip ..
    · split
      · rfl
      · exact ih.skip ..
    · rw [ih.read]
      cases read F fuel (depth + 1) (r.move 2) with
      | error error => rfl
      | ok result =>
        obtain ⟨datum, next⟩ := result
        simp only [eraseResult_ok, truncate_erase]
        rw [← erase_truncate next r.mark]
        exact ih.skip ..
    · rfl

lemma read_erase (depth : Nat) (r : Reader) :
    read F (fuel + 1) depth r.erase = eraseResult (read F (fuel + 1) depth r) := by
  unfold read
  split_ifs
  · rfl
  rw [ih.skip]
  cases skip F fuel depth false r with
  | error error => rfl
  | ok next => exact ih.datum ..

lemma datum_erase (depth : Nat) (r : Reader) :
    readDatum F (fuel + 1) depth r.erase = eraseResult (readDatum F (fuel + 1) depth r) := by
  unfold readDatum
  simp only [rest_erase, push_erase, move_erase]
  cases r.rest with
  | nil => rfl
  | cons c cs =>
    simp only
    split_ifs
    · exact ih.items _ _ _ (r.push.move 1)
    · rfl
    · have hrd := ih.read (depth + 1) (r.push.push.move 1)
      simp only [erase_push_move] at hrd
      rw [hrd]
      cases read F fuel (depth + 1) (r.push.push.move 1) with
      | error error => rfl
      | ok result => rfl
    · rfl
    · have hrd := ih.read (depth + 1) (r.push.move 1)
      simp only [erase_push_move] at hrd
      rw [hrd]
      cases read F fuel (depth + 1) (r.push.move 1) with
      | error error => rfl
      | ok result =>
        obtain ⟨datum, next⟩ := result
        cases datum with
        | sequence items tail => cases tail <;> rfl
        | _ => rfl
    · exact readAtom_erase r.push

lemma items_erase (depth : Nat) (close : Char) (items : List (Datum F)) (r : Reader) :
    readItems F (fuel + 1) depth close items r.erase =
      eraseResult (readItems F (fuel + 1) depth close items r) := by
  unfold readItems
  rw [ih.skip]
  cases skip F fuel depth false r with
  | error error => rfl
  | ok next =>
    simp only [Except.map, rest_erase, move_erase]
    cases next.rest with
    | nil => rfl
    | cons c cs =>
      simp only
      split_ifs
      · rfl
      · rfl
      · rw [ih.read]
        cases read F fuel (depth + 1) (next.move 1) with
        | error error => rfl
        | ok result =>
          obtain ⟨tail, after⟩ := result
          simp only [eraseResult_ok]
          rw [ih.skip]
          cases skip F fuel depth false after with
          | error error => rfl
          | ok last =>
            simp only [Except.map, rest_erase]
            by_cases hclo : last.rest.head? = some close
            · simp only [hclo]
              rfl
            · simp only [hclo]
              rfl
      · rw [ih.read]
        cases read F fuel (depth + 1) next with
        | error error => rfl
        | ok result => exact ih.items ..

end

lemma erases (fuel : Nat) : Erases F fuel := by
  induction fuel with
  | zero => exact ⟨fun _ _ _ => rfl, fun _ _ => rfl, fun _ _ => rfl, fun _ _ _ _ => rfl⟩
  | succ fuel ih => exact ⟨skip_erase ih, read_erase ih, datum_erase ih, items_erase ih⟩

lemma readForms_erase (length fuel : Nat) (forms : List (Datum F)) (r : Reader) :
    readForms F length fuel forms r.erase =
      (readForms F length fuel forms r).map fun (forms, r) => (forms, r.erase) := by
  induction fuel generalizing forms r with
  | zero => rfl
  | succ fuel ih =>
    unfold readForms
    rw [(erases _).skip]
    cases skip F (fuelFor length) 0 true r with
    | error error => rfl
    | ok next =>
      simp only [Except.map, rest_erase]
      by_cases hemp : next.rest.isEmpty = true
      · simp only [hemp, if_true]
      · simp only [hemp]
        rw [(erases _).read]
        cases read F (fuelFor length) 0 next with
        | error error => rfl
        | ok result => exact ih ..

lemma readRangedForms_forms (length fuel : Nat) (forms : List (RangedForm F)) (r : Reader) :
    (readRangedForms F length fuel forms r).map (fun (forms, r) => (forms.map form, r)) =
      readForms F length fuel (forms.map form) r := by
  induction fuel generalizing forms r with
  | zero => rfl
  | succ fuel ih =>
    unfold readRangedForms readForms
    cases skip F (fuelFor length) 0 true r with
    | error error => rfl
    | ok next =>
      simp only
      split_ifs
      · rfl
      · cases read F (fuelFor length) 0 next with
        | error error => rfl
        | ok result =>
          rw [ih, map_append]
          rfl

lemma parseProgramRanged_forms (source : List Char) :
    (parseProgramRanged F source).map (List.map form) = parseProgram F source := by
  have hforms := readRangedForms_forms (F := F) source.length (source.length + 1) []
    (.ofText source none none)
  unfold parseProgramRanged readProgramRanged parseProgram
  rw [← map_nil (f := form), ← hforms]
  cases readRangedForms F source.length (source.length + 1) [] (.ofText source none none) <;> rfl

lemma quoted_ne_outOfFuel (terminator : Char) (index : Nat) (rest : List Char) :
    quoted terminator index rest ≠ .error .outOfFuel := by
  induction index, rest using quoted.induct terminator with (unfold quoted)
  | case1 index =>
    simp
  | case2 index cs =>
    simp
  | case3 index hne =>
    simp [hne]
  | case4 index escape cs hesc hne =>
    simp [hne, hesc]
  | case5 index escape cs c hesc hne ih =>
    simp only [hne, hesc]
    cases hquo : quoted terminator (index + 2) cs with
    | error error => simpa [Except.map, hquo] using ih
    | ok result => simp [Except.map]
  | case6 index c cs hne hsl ih =>
    simp only [hne, hsl]
    cases hquo : quoted terminator (index + 1) cs with
    | error error => simpa [Except.map, hquo] using ih
    | ok result => simp [Except.map]

lemma parseNumber_ne_outOfFuel (text : List Char) :
    parseNumber (F := F) text ≠ .error .outOfFuel := by
  have hreal : parseReal (F := F) text ≠ .error .outOfFuel := by
    unfold parseReal
    split_ifs
    · split
      · simp
      · split_ifs <;> simp
    · simp
  unfold parseNumber
  split_ifs
  · simp
  · split
    · next n d _ =>
      split_ifs
      · unfold rational
        split_ifs <;> simp [Except.map] <;> split_ifs <;> simp
      · exact hreal
    · exact hreal

lemma readAtom_ne_outOfFuel (r : Reader) : readAtom (F := F) r ≠ .error .outOfFuel := by
  unfold readAtom
  split
  · split
    · next hquo =>
      rintro ⟨⟩
      exact quoted_ne_outOfFuel _ _ _ hquo
    · simp
  · split
    · next hquo =>
      rintro ⟨⟩
      exact quoted_ne_outOfFuel _ _ _ hquo
    · simp
  · simp only
    split_ifs
    · simp
    · split <;> simp
  · have hdt : ∀ word index, tokenDatum (F := F) word index ≠ .error .outOfFuel := by
      intro word index
      unfold tokenDatum
      split
      · simp
      split
      · simp
      split
      · next hnum =>
        rintro ⟨⟩
        exact parseNumber_ne_outOfFuel _ hnum
      · simp
      · split_ifs <;> simp
    simp only
    split
    · next hfuel =>
      rintro ⟨⟩
      exact hdt _ _ hfuel
    · simp

variable (F) in
structure Ample (fuel : Nat) : Prop where
  skip : ∀ depth topLevel r, 4 * r.rest.length + 1 ≤ fuel →
    Scheme.skip F fuel depth topLevel r ≠ .error .outOfFuel
  read : ∀ depth r, 4 * r.rest.length + 3 ≤ fuel → Scheme.read F fuel depth r ≠ .error .outOfFuel
  datum : ∀ depth r, 4 * r.rest.length + 2 ≤ fuel → readDatum F fuel depth r ≠ .error .outOfFuel
  items : ∀ depth close items r, 4 * r.rest.length + 4 ≤ fuel →
    readItems F fuel depth close items r ≠ .error .outOfFuel

lemma skip_length {depth : Nat} {topLevel : Bool} {r r' : Reader}
    (h : skip F fuel depth topLevel r = .ok r') : r'.rest.length ≤ r.rest.length :=
  ((follows fuel).1 _ _ _ _ h).skips_length

lemma read_length {depth : Nat} {r r' : Reader} {d : Datum F}
    (h : read F fuel depth r = .ok (d, r')) : r'.rest.length < r.rest.length :=
  ((follows fuel).2.1 _ _ _ _ h).reads_length

section

variable (ih : Ample F fuel)

include ih

lemma skip_ample (depth : Nat) (topLevel : Bool) (r : Reader) (h : 4 * r.rest.length + 1 ≤ fuel + 1)
    : skip F (fuel + 1) depth topLevel r ≠ .error .outOfFuel := by
  unfold skip
  cases hr : r.rest with
  | nil => simp
  | cons c cs =>
    have hpos : 0 < r.rest.length := by simp [hr]
    simp only
    split_ifs with hbl hln
    · refine ih.skip _ _ _ ?_
      simp only [rest_move, length_drop]
      omega
    · refine ih.skip _ _ _ ?_
      have htk : 0 < ((c :: cs).takeWhile (· ≠ '\n')).length := by simp [hln]
      simp only [rest_move, rest_comment, length_drop]
      omega
    · split
      · simp
      · refine ih.skip _ _ _ ?_
        simp only [rest_move, length_drop]
        omega
    · have hmv : (r.move 2).rest.length < r.rest.length := by
        simp only [rest_move, length_drop]
        omega
      have hrd := ih.read (depth + 1) (r.move 2) (by omega)
      cases hres : read F fuel (depth + 1) (r.move 2) with
      | error error => simpa [hres] using hrd
      | ok result =>
        obtain ⟨datum, next⟩ := result
        have hlen := read_length hres
        refine ih.skip _ _ _ ?_
        show 4 * next.rest.length + 1 ≤ fuel
        omega
    · simp

lemma read_ample (depth : Nat) (r : Reader) (h : 4 * r.rest.length + 3 ≤ fuel + 1) :
    read F (fuel + 1) depth r ≠ .error .outOfFuel := by
  unfold read
  split_ifs
  · simp
  have hsk := ih.skip depth false r (by omega)
  cases hres : skip F fuel depth false r with
  | error error => simpa [hres] using hsk
  | ok next =>
    have hlen := skip_length hres
    exact ih.datum depth next (by omega)

lemma datum_ample (depth : Nat) (r : Reader) (h : 4 * r.rest.length + 2 ≤ fuel + 1) :
    readDatum F (fuel + 1) depth r ≠ .error .outOfFuel := by
  unfold readDatum
  cases hr : r.rest with
  | nil => simp
  | cons c cs =>
    have hmv : 4 * (r.rest.drop 1).length + 4 ≤ fuel := by
      rw [hr, length_cons] at h
      rw [hr, drop_one, tail_cons]
      omega
    simp only
    split_ifs
    · exact ih.items _ _ _ _ (by simpa using hmv)
    · simp
    · have hrd := ih.read (depth + 1) (r.push.push.move 1) (by
        simp only [rest_move, rest_push]
        omega)
      cases hres : read F fuel (depth + 1) (r.push.push.move 1) with
      | error error => simpa [hres] using hrd
      | ok result => simp
    · simp
    · have hrd := ih.read (depth + 1) (r.push.move 1) (by
        simp only [rest_move, rest_push]
        omega)
      cases hres : read F fuel (depth + 1) (r.push.move 1) with
      | error error => simpa [hres] using hrd
      | ok result =>
        obtain ⟨datum, next⟩ := result
        cases datum with
        | sequence items tail => cases tail <;> simp
        | _ => simp
    · exact readAtom_ne_outOfFuel _

lemma items_ample (depth : Nat) (close : Char) (items : List (Datum F)) (r : Reader)
    (h : 4 * r.rest.length + 4 ≤ fuel + 1) :
    readItems F (fuel + 1) depth close items r ≠ .error .outOfFuel := by
  unfold readItems
  have hsk := ih.skip depth false r (by omega)
  cases hres : skip F fuel depth false r with
  | error error => simpa [hres] using hsk
  | ok next =>
    have hlen := skip_length hres
    simp only
    cases hr : next.rest with
    | nil => simp
    | cons c cs =>
      simp only
      split_ifs
      · simp
      · simp
      · have hmv : (next.move 1).rest.length ≤ next.rest.length := by
          simp only [rest_move, length_drop]
          omega
        have hrd := ih.read (depth + 1) (next.move 1) (by omega)
        cases hres' : read F fuel (depth + 1) (next.move 1) with
        | error error => simpa [hres'] using hrd
        | ok result =>
          obtain ⟨tail, after⟩ := result
          have hlen' := read_length hres'
          have hsk' := ih.skip depth false after (by omega)
          simp only
          cases hres'' : skip F fuel depth false after with
          | error error => simpa [hres''] using hsk'
          | ok last =>
            simp only
            split_ifs <;> simp
      · have hrd := ih.read (depth + 1) next (by omega)
        cases hres' : read F fuel (depth + 1) next with
        | error error => simpa [hres'] using hrd
        | ok result =>
          have hlen' := read_length hres'
          exact ih.items _ _ _ _ (by omega)

end

lemma ample (fuel : Nat) : Ample F fuel := by
  induction fuel with
  | zero =>
    exact ⟨fun _ _ _ h => by omega, fun _ _ h => by omega, fun _ _ h => by omega,
      fun _ _ _ _ h => by omega⟩
  | succ fuel ih => exact ⟨skip_ample ih, read_ample ih, datum_ample ih, items_ample ih⟩

lemma readForms_ne_outOfFuel {length : Nat} {r : Reader} (hlen : r.rest.length ≤ length)
    (hfuel : r.rest.length < fuel) (forms : List (Datum F)) :
    readForms F length fuel forms r ≠ .error .outOfFuel := by
  induction fuel generalizing forms r with
  | zero => omega
  | succ fuel ih =>
    unfold readForms
    have hsk := (ample (F := F) (fuelFor length)).skip 0 true r (by
      unfold fuelFor
      omega)
    cases hres : skip F (fuelFor length) 0 true r with
    | error error => simpa [hres] using hsk
    | ok next =>
      have hnx := skip_length hres
      simp only
      split_ifs
      · simp
      · have hrd := (ample (F := F) (fuelFor length)).read 0 next (by
          unfold fuelFor
          omega)
        cases hres' : read F (fuelFor length) 0 next with
        | error error => simpa [hres'] using hrd
        | ok result =>
          have haft := read_length hres'
          exact ih (by omega) (by omega) _

lemma parseProgram_ne_outOfFuel (source : List Char) :
    parseProgram F source ≠ .error .outOfFuel := by
  have hforms : readForms F source.length (source.length + 1) [] (.ofText source none none) ≠
      .error .outOfFuel := readForms_ne_outOfFuel le_rfl (Nat.lt_succ_self _) []
  unfold parseProgram
  cases hres : readForms F source.length (source.length + 1) [] (.ofText source none none) with
  | error error => simpa [hres, Except.map] using hforms
  | ok result => simp [Except.map]

end Morphir.Scheme
