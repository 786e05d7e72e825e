import Morphir.Scheme.ReaderAgreement

/-!
# The positions of the data

The ranges of the forms and the offsets of the located data, against the text
that they are positions in.
-/

namespace Morphir.Scheme

open Reader List Located Except

variable {F : Type}

def At (source : List Char) (r : Reader) : Prop := source = r.before.reverse ++ r.rest

variable {r r' : Reader}

variable {s : List Char}

lemma At.moves (h : At source r) (hs : Moves r s r') : At source r' := by
  unfold At at h ⊢
  rw [h, hs.1, hs.2, reverse_append, reverse_reverse, append_assoc]

variable {source : List Char}

lemma At.drop (h : At source r) : source.drop r.index = r.rest := by
  rw [h]
  exact drop_left' (by simp [index])

lemma At.take (h : At source r) : (source.take r.index).reverse = r.before := by
  rw [h, take_left' (by simp [index]), reverse_reverse]

lemma At.index_le (h : At source r) : r.index ≤ source.length := by
  rw [h]
  simp [index]

lemma Moves.index (h : Moves r s r') : r'.index = r.index + s.length := by
  simp only [Reader.index, h.2, length_append, length_reverse]
  omega

def slice (source : List Char) (start stop : Nat) : List Char :=
  (source.drop start).take (stop - start)

lemma At.slice (h : At source r) (hs : Moves r s r') : slice source r.index r'.index = s := by
  rw [Scheme.slice, h.drop, hs.index, Nat.add_sub_cancel_left, hs.1, take_left]

variable [Doubles F]

def ReadsAlone (source : List Char) (f : RangedForm F) : Prop :=
  parseProgram F (slice source f.start f.stop) = .ok [f.form]

lemma readsAlone {topLevel : Bool} {next after : Reader} {form : Datum F} (hat : At source next)
    (hsk : Derives (F := F) (.skips 0 topLevel r next)) (hrd : Derives (.reads 0 next form after)) :
    ReadsAlone source ⟨form, next.index, after.index⟩ := by
  obtain ⟨s, hne, hs⟩ := hrd.consumes
  have halone := hrd.cuts s [] [] hs.1 nil_prefix
  rw [append_nil] at halone
  show parseProgram F (slice source next.index after.index) = .ok [form]
  rw [hat.slice hs]
  exact parseProgram_of_reads (hsk.consumes.2.shorten ⟨_, hs.1.symm⟩) hne halone

lemma readRangedForms_ranges {length fuel : Nat} {forms result : List (RangedForm F)}
    (hat : At source r) (h : readRangedForms F length fuel forms r = .ok (result, r')) :
    ∃ more, result = forms ++ more ∧ more.Pairwise (fun f g => f.stop ≤ g.start) ∧
      ∀ f ∈ more, r.index ≤ f.start ∧ f.start < f.stop ∧ f.stop ≤ source.length ∧
        ReadsAlone source f := by
  induction fuel generalizing forms r with
  | zero => simp [readRangedForms] at h
  | succ fuel ih =>
    unfold readRangedForms at h
    cases hsk : Scheme.skip F (fuelFor length) 0 true r with
    | error error => simp [hsk] at h
    | ok next =>
      simp only [hsk] at h
      have hskips := (follows _).1 _ _ _ _ hsk
      obtain ⟨⟨s, hs⟩, htri⟩ := hskips.consumes
      have hnx := hat.moves hs
      split_ifs at h
      · simp only [ok.injEq, Prod.mk.injEq] at h
        exact ⟨[], by simp [h.1], .nil, by simp⟩
      · cases hrd : Scheme.read F (fuelFor length) 0 next with
        | error error => simp [hrd] at h
        | ok result =>
          obtain ⟨form, after⟩ := result
          simp only [hrd] at h
          have hrs := (follows _).2.1 _ _ _ _ hrd
          obtain ⟨t, hne, ht⟩ := hrs.consumes
          have haft := hnx.moves ht
          obtain ⟨more, hres, hpai, hm⟩ := ih haft h
          have hix := hs.index
          have hix' := ht.index
          have hpos := length_pos_iff.mpr hne
          refine ⟨⟨form, next.index, after.index⟩ :: more, by simp [hres], ?_, ?_⟩
          · exact .cons (fun f hf => (hm f hf).1) hpai
          · intro f hf
            rcases mem_cons.mp hf with rfl | hf
            · exact ⟨by simp only; omega, by simp only; omega, haft.index_le,
                readsAlone hnx hskips hrs⟩
            · obtain ⟨hsta, hr⟩ := hm f hf
              exact ⟨by omega, hr⟩

lemma parseProgramRanged_ranges {forms : List (RangedForm F)}
    (h : parseProgramRanged F source = .ok forms) :
    forms.Pairwise (fun f g => f.stop ≤ g.start) ∧
      ∀ f ∈ forms, f.start < f.stop ∧ f.stop ≤ source.length ∧ ReadsAlone source f := by
  unfold parseProgramRanged readProgramRanged at h
  cases hres : readRangedForms F source.length (source.length + 1) []
      (.ofText source none none) with
  | error error => simp [hres, Except.map] at h
  | ok result =>
    simp only [hres, Except.map, Except.ok.injEq] at h
    have hat : At source (.ofText source none none) := rfl
    obtain ⟨more, rfl, hpai, hm⟩ := readRangedForms_ranges hat hres
    subst h
    exact ⟨hpai, fun f hf => (hm f hf).2⟩

def Located.datum : Located F → Datum F
  | .mk datum _ _ => datum

def Located.start : Located F → Nat
  | .mk _ start _ => start

def Located.children : Located F → List (Located F)
  | .mk _ _ children => children

def Datum.parts : Datum F → List (Datum F)
  | .sequence items tail => items ++ tail.toList
  | .vector items => items
  | _ => []

/-- The position is that of the first character of the datum: the datum is
read there, with nothing skipped.  The symbol of a quotation has the position
of its quote character. -/
def PointsAt (source : List Char) (d : Datum F) (start : Nat) : Prop :=
  (source.drop start ≠ [] ∧ NotTrivia (source.drop start) ∧
    ∃ fuel depth r', Scheme.read F fuel depth
      (plain (source.take start).reverse (source.drop start)) = .ok (d, r')) ∨
  (d = .symbol "quote" ∧ (source.drop start).head? = some '\'')

/-- Every position of the located datum is that of its datum, and the children
are the located parts. -/
inductive Points (source : List Char) : Located F → Prop
  | mk {d : Datum F} {start : Nat} {children : List (Located F)} (h : PointsAt source d start)
      (hparts : children.map Located.datum = d.parts)
      (hchildren : ∀ l ∈ children, Points source l) : Points source (.mk d start children)

mutual

def Located.preorder : Located F → List Nat
  | .mk _ start children => start :: preorderAll children
termination_by structural l => l

def Located.preorderAll : List (Located F) → List Nat
  | [] => []
  | l :: ls => l.preorder ++ preorderAll ls
termination_by structural ls => ls

end

omit [Doubles F] in
lemma preorderAll_append (ls ms : List (Located F)) :
    preorderAll (ls ++ ms) = preorderAll ls ++ preorderAll ms := by
  induction ls with
  | nil => rfl
  | cons l ls ih => simp [preorderAll, ih]

def Attaches (l : Located F) : Prop := ∀ rest, attach l.datum (l.preorder ++ rest) = (l, rest)

omit [Doubles F] in
variable {ls : List (Located F)}

lemma attachAll_preorder (h : ∀ l ∈ ls, Attaches l) (rest : List Nat) :
    attachAll (ls.map datum) (preorderAll ls ++ rest) = (ls, rest) := by
  induction ls generalizing rest with
  | nil => rfl
  | cons l ls ih =>
    have hl := h l mem_cons_self (preorderAll ls ++ rest)
    have hls := ih (fun m hm => h m (mem_cons_of_mem l hm)) rest
    simp only [map_cons, attachAll, preorderAll, append_assoc, hl, hls]

omit [Doubles F] in
lemma attachTail_preorder {tail : Option (Datum F)} (h : ∀ l ∈ ls, Attaches l)
    (hls : ls.map datum = tail.toList) (rest : List Nat) :
    attachTail tail (preorderAll ls ++ rest) = (ls, rest) := by
  cases tail with
  | none =>
    simp only [Option.toList_none, map_eq_nil_iff] at hls
    subst hls
    rfl
  | some d =>
    obtain ⟨l, rfl, rfl⟩ : ∃ l, ls = [l] ∧ l.datum = d := by
      cases ls with
      | nil => simp at hls
      | cons l ls =>
        simp only [map_cons, Option.toList_some, List.cons.injEq, map_eq_nil_iff] at hls
        exact ⟨l, by rw [hls.2], hls.1⟩
    have hl := h l mem_cons_self rest
    simp only [attachTail, preorderAll, append_nil, hl]

lemma Points.attaches {l : Located F} (h : Points source l) : Attaches l := by
  induction h with
  | @mk d start children _ hpts _ ih =>
    intro rest
    cases d with
    | sequence items tail =>
      obtain ⟨ls, ms, rfl, rfl, hms⟩ := map_eq_append_iff.mp hpts
      have hls := attachAll_preorder (fun l hl => ih l (mem_append_left ms hl))
        (preorderAll ms ++ rest)
      have htl := attachTail_preorder (fun l hl => ih l (mem_append_right ls hl)) hms rest
      simp only [datum, preorder, attach, cons_append, tail_cons,
        List.head?_cons, Option.getD_some, preorderAll_append, append_assoc, hls, htl]
    | vector items =>
      subst hpts
      have hls := attachAll_preorder ih rest
      simp only [datum, preorder, attach, cons_append, tail_cons,
        List.head?_cons, Option.getD_some, hls]
    | _ =>
      simp only [Datum.parts, map_eq_nil_iff] at hpts
      subst hpts
      rfl

def Records (source : List Char) : Judgement F → Prop
  | .skips _ _ r r' => At source r → ∀ offsets, r.record = some offsets → r'.record = some offsets
  | .reads _ r d r' => At source r → ∀ offsets, r.record = some offsets →
      ∃ l, l.datum = d ∧ Points source l ∧ r'.record = some (offsets ++ l.preorder)
  | .reading depth r d r' => At source r → depth ≤ 256 → NotTrivia r.rest →
      ∀ offsets, r.record = some offsets →
        ∃ l, l.datum = d ∧ Points source l ∧ r'.record = some (offsets ++ l.preorder)
  | .listing _ _ items r d r' => At source r → ∀ offsets, r.record = some offsets →
      ∃ more tail children, d = .sequence (items ++ more) tail ∧
        children.map Located.datum = more ++ tail.toList ∧ (∀ l ∈ children, Points source l) ∧
        r'.record = some (offsets ++ Located.preorderAll children)

@[simp] lemma record_move (r : Reader) (n : Nat) : (r.move n).record = r.record := rfl

@[simp] lemma index_push (r : Reader) : r.push.index = r.index := rfl

lemma record_comment (r : Reader) (topLevel : Bool) (n : Nat) :
    (r.comment topLevel n).record = r.record := by
  simp only [Reader.comment]
  split_ifs <;> rfl

lemma record_push {offsets : List Nat} (h : r.record = some offsets) :
    r.push.record = some (offsets ++ [r.index]) := by
  simp [Reader.push, h]

lemma readAtom_parts {d : Datum F} (h : readAtom r = .ok (d, r')) : d.parts = [] := by
  unfold readAtom at h
  split at h
  · split at h
    · cases h
    · rw [← (Prod.mk.inj (ok.inj h)).1]
      rfl
  · split at h
    · cases h
    · rw [← (Prod.mk.inj (ok.inj h)).1]
      rfl
  · simp only at h
    split_ifs at h
    split at h
    · rw [← (Prod.mk.inj (ok.inj h)).1]
      rfl
    · cases h
  · simp only at h
    split at h
    · cases h
    · next datum hdt =>
      rw [← (Prod.mk.inj (ok.inj h)).1]
      unfold tokenDatum at hdt
      split at hdt
      · rw [← ok.inj hdt]
        rfl
      split at hdt
      · rw [← ok.inj hdt]
        rfl
      split at hdt
      · cases hdt
      · rw [← ok.inj hdt]
        rfl
      · split_ifs at hdt
        rw [← ok.inj hdt]
        rfl

lemma pointsAt_reading {depth : Nat} {d : Datum F} (hat : At source r) (hdep : depth ≤ 256)
    (htri : NotTrivia r.rest) (h : Derives (.reading depth r d r')) :
    PointsAt source d r.index := by
  have hrs : Derives (.reads depth r d r') := .read hdep (.stop htri) h
  obtain ⟨s, hne, hs⟩ := hrs.consumes
  have hpl := hrs.cuts s r'.rest r.before hs.1 (prefix_refl _)
  rw [← hs.1] at hpl
  have hcom := hpl.computes _ le_rfl
  refine .inl ⟨?_, ?_, 4 * r.rest.length + 3, depth, plain (s.reverse ++ r.before) r'.rest, ?_⟩
  · rw [hat.drop, hs.1]
    simp [hne]
  · rw [hat.drop]
    exact htri
  · rw [hat.drop, hat.take]
    exact hcom

lemma Derives.records {j : Judgement F} (h : Derives j) (source : List Char) :
    Records source j := by
  induction h with
  | stop h => exact fun _ _ hrec => hrec
  | @blank depth topLevel r r' c cs h hc hsk ih =>
    exact fun hat offsets hrec => ih (hat.moves (moves_move r 1)) offsets hrec
  | @line depth topLevel r r' cs h hsk ih =>
    intro hat offsets hrec
    refine ih (hat.moves (s := r.rest.take (r.rest.takeWhile (· ≠ '\n')).length) ?_) offsets ?_
    · have hmoves := moves_move (r.comment topLevel (r.rest.takeWhile (· ≠ '\n')).length)
        (r.rest.takeWhile (· ≠ '\n')).length
      simpa only [Moves, rest_comment, before_comment] using hmoves
    · exact (record_comment ..).trans hrec
  | @block depth topLevel r r' cs n h hn hsk ih =>
    exact fun hat offsets hrec => ih (hat.moves (moves_move r _)) offsets hrec
  | @discard depth topLevel r next r' cs d h hrd hsk ihread ih =>
    intro hat offsets hrec
    have hmv := hat.moves (moves_move r 2)
    obtain ⟨l, _, _, hnx⟩ := ihread hmv offsets hrec
    obtain ⟨s, _, hs⟩ := hrd.consumes
    refine ih (hmv.moves hs) offsets ?_
    simp [truncate, mark, hrec, hnx]
  | @read depth r r₁ r' d hdep hsk hdt ihskip ih =>
    intro hat offsets hrec
    obtain ⟨⟨s, hs⟩, htri⟩ := hsk.consumes
    exact ih (hat.moves hs) hdep htri offsets (ihskip hat offsets hrec)
  | @list depth r r' c cs d h hc hits ih =>
    intro hat hdep htri offsets hrec
    obtain ⟨more, tail, children, hd, hpts, hki, hnx⟩ :=
      ih (hat.moves (moves_move r.push 1)) _ (record_push hrec)
    have hpoi := pointsAt_reading hat hdep htri (.list h hc hits)
    refine ⟨.mk d r.index children, rfl, .mk hpoi ?_ hki, ?_⟩
    · rw [hpts, hd]
      rfl
    · simpa [preorder] using hnx
  | @quotation depth r r' cs d h hrd ih =>
    intro hat hdep htri offsets hrec
    obtain ⟨l, hl, hlpo, hnx⟩ := ih (hat.moves (moves_move r.push.push 1)) _
      (record_push (record_push hrec))
    have hpoi := pointsAt_reading hat hdep htri (.quotation h hrd)
    have hq : Points source (.mk (.symbol (F := F) "quote") r.index []) := by
      refine .mk (.inr ⟨rfl, ?_⟩) rfl (by simp)
      rw [hat.drop, h]
      rfl
    refine ⟨.mk _ r.index [.mk (.symbol "quote") r.index [], l], rfl, .mk hpoi ?_ ?_, ?_⟩
    · simp [datum, Datum.parts, ← hl]
    · intro m hm
      rcases mem_pair.mp hm with rfl | rfl
      · exact hq
      · exact hlpo
    · simpa [preorder, preorderAll] using hnx
  | @vector depth r next cs ds h hrd ih =>
    intro hat hdep htri offsets hrec
    have hpush := record_push hrec
    obtain ⟨l, hl, hlpo, hnx⟩ := ih (hat.moves (moves_move r.push 1)) _ hpush
    have hpoi := pointsAt_reading hat hdep htri (.vector h hrd)
    cases hlpo with
    | @mk d start children _ hpts hki =>
      obtain rfl : d = .sequence ds none := hl
      refine ⟨.mk (.vector ds) r.index children, rfl, .mk hpoi ?_ hki, ?_⟩
      · rw [hpts]
        simp [Datum.parts]
      · simp [unrecord, mark, hnx, hpush, preorder, eraseIdx_append_of_length_le]
  | @atom depth r r' d h hatom =>
    intro hat hdep htri offsets hrec
    have hpoi := pointsAt_reading hat hdep htri (.atom h hatom)
    refine ⟨.mk d r.index [], rfl, .mk hpoi (readAtom_parts hatom).symm (by simp), ?_⟩
    obtain ⟨_, _, rfl, _⟩ := readAtom_split hatom
    exact record_push hrec
  | @close depth c ds r r₁ cs hsk h ihskip =>
    intro hat offsets hrec
    have hski := ihskip hat offsets hrec
    exact ⟨[], none, [], by simp, rfl, by simp, by simpa [preorderAll] using hski⟩
  | @tail depth c ds r r₁ r₂ r₃ cs d hsk h hc hds hrd hsk' h' ihskip ihread ihskip' =>
    intro hat offsets hrec
    obtain ⟨⟨s₁, hs₁⟩, _⟩ := hsk.consumes
    obtain ⟨s₂, _, hs₂⟩ := hrd.consumes
    have hat₁ := (hat.moves hs₁).moves (moves_move r₁ 1)
    obtain ⟨l, rfl, hl, hnx⟩ := ihread hat₁ offsets (ihskip hat offsets hrec)
    have hlast := ihskip' (hat₁.moves hs₂) _ hnx
    refine ⟨[], some l.datum, [l], by simp, rfl, by simpa using hl, ?_⟩
    simpa [preorderAll] using hlast
  | @item depth c ds r r₁ r₂ r' d d' hsk hne hc h hrd hits ihskip ihread ih =>
    intro hat offsets hrec
    obtain ⟨⟨s₁, hs₁⟩, _⟩ := hsk.consumes
    obtain ⟨s₂, _, hs₂⟩ := hrd.consumes
    have hat₁ := hat.moves hs₁
    obtain ⟨l, rfl, hl, hnx⟩ := ihread hat₁ offsets (ihskip hat offsets hrec)
    obtain ⟨more, tail, children, rfl, hpts, hki, hlast⟩ := ih (hat₁.moves hs₂) _ hnx
    refine ⟨l.datum :: more, tail, l :: children, by simp, by simp [hpts], ?_, ?_⟩
    · intro m hm
      rcases mem_cons.mp hm with rfl | hm
      · exact hl
      · exact hki m hm
    · simpa [preorderAll] using hlast

lemma readForms_records {length fuel : Nat} {forms result : List (Datum F)} {offsets : List Nat}
    (hat : At source r) (hrec : r.record = some offsets)
    (h : readForms F length fuel forms r = .ok (result, r')) :
    ∃ ls, result = forms ++ ls.map datum ∧ (∀ l ∈ ls, Points source l) ∧
      r'.record = some (offsets ++ preorderAll ls) := by
  induction fuel generalizing forms r offsets with
  | zero => simp [readForms] at h
  | succ fuel ih =>
    unfold readForms at h
    cases hsk : Scheme.skip F (fuelFor length) 0 true r with
    | error error => simp [hsk] at h
    | ok next =>
      simp only [hsk] at h
      have hskips := (follows _).1 _ _ _ _ hsk
      obtain ⟨⟨s, hs⟩, _⟩ := hskips.consumes
      have hnx := hat.moves hs
      have hk := hskips.records source hat offsets hrec
      split_ifs at h
      · obtain ⟨rfl, rfl⟩ := h
        exact ⟨[], by simp, by simp, by simpa [preorderAll] using hk⟩
      · cases hrd : Scheme.read F (fuelFor length) 0 next with
        | error error => simp [hrd] at h
        | ok result =>
          obtain ⟨form, after⟩ := result
          simp only [hrd] at h
          have hrs := (follows _).2.1 _ _ _ _ hrd
          obtain ⟨t, _, ht⟩ := hrs.consumes
          obtain ⟨l, rfl, hl, haft⟩ := hrs.records source hnx offsets hk
          obtain ⟨ls, rfl, hls, hlast⟩ := ih (hnx.moves ht) haft h
          refine ⟨l :: ls, by simp, ?_, by simpa [preorderAll] using hlast⟩
          intro m hm
          rcases mem_cons.mp hm with rfl | hm
          · exact hl
          · exact hls m hm

lemma parseProgramLocated_forms (source : List Char) :
    (parseProgramLocated F source).map (List.map datum) = parseProgram F source ∧
      ∀ ls, parseProgramLocated F source = .ok ls → ∀ l ∈ ls, Points source l := by
  have hforms := readForms_erase (F := F) source.length (source.length + 1) []
    (.ofText source (some []) none)
  change readForms F source.length (source.length + 1) [] (.ofText source none none) = _ at hforms
  unfold parseProgramLocated parseProgram
  rw [hforms]
  cases hres : readForms F source.length (source.length + 1) []
      (.ofText source (some []) none) with
  | error error => exact ⟨rfl, by simp [Except.map]⟩
  | ok result =>
    obtain ⟨result, r⟩ := result
    have hat : At source (.ofText source (some []) none) := rfl
    obtain ⟨ls, rfl, hls, hrec⟩ := readForms_records hat rfl hres
    have hatt := attachAll_preorder (fun l hl => (hls l hl).attaches) []
    rw [append_nil] at hatt
    simp only [Except.map, hrec, nil_append, Option.getD_some, hatt]
    refine ⟨trivial, ?_⟩
    rintro _ ⟨⟩
    exact hls

/-- The three readers succeed on the same texts with the same data.  The
ranges are in the order of the source and the slice of each reads as its form.
The positions are those of the data. -/
theorem readers_agree (source : List Char) :
    (parseProgramRanged F source).map (List.map RangedForm.form) = parseProgram F source ∧
    (parseProgramLocated F source).map (List.map Located.datum) = parseProgram F source ∧
    parseProgram F source ≠ .error .outOfFuel ∧
    (∀ forms, parseProgramRanged F source = .ok forms →
      forms.Pairwise (fun f g => f.stop ≤ g.start) ∧
        ∀ f ∈ forms, f.start < f.stop ∧ f.stop ≤ source.length ∧
          parseProgram F (slice source f.start f.stop) = .ok [f.form]) ∧
    ∀ ls, parseProgramLocated F source = .ok ls → ∀ l ∈ ls, Points source l := by
  obtain ⟨hloc, hpoi⟩ := parseProgramLocated_forms (F := F) source
  exact ⟨parseProgramRanged_forms source, hloc, parseProgram_ne_outOfFuel source,
    fun _ h => parseProgramRanged_ranges h, hpoi⟩

end Morphir.Scheme
