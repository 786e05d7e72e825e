import Morphir.Mep.FrameGrammar

/-!
# What is encoded is delivered

`encodeFrame` writes a heading of one line and the UTF-8 bytes of the body, so
its output is a whole frame of the grammar.  What the decoder retains stays
within the limits.
-/

namespace Morphir.Mep

open Transducer List Decoder Nat Heading

lemma utf8Encode_append (front back : List Char) :
    utf8Encode (front ++ back) = utf8Encode front ++ utf8Encode back :=
  flatMap_append

variable {n : Nat}

lemma readDigits_eq {digits : List Char} (hds : ∀ c ∈ digits, c.isDigit = true)
    (hn : ofDigitChars 10 digits n ≤ MAX_DECLARED) :
    readDigits n digits = .ok (ofDigitChars 10 digits n) := by
  induction digits generalizing n with
  | nil => simp [readDigits]
  | cons c digits ih =>
    rw [ofDigitChars_cons] at hn ⊢
    have hc : '0' ≤ c ∧ c ≤ '9' := by simpa [Char.isDigit, Char.le_def] using hds c mem_cons_self
    have hle : 10 * n + (c.toNat - 48) ≤ MAX_DECLARED := by
      refine Nat.le_trans ?_ hn
      rw [ofDigitChars_eq_ofDigitChars_zero]
      refine Nat.le_trans ?_ (le_add_right _ _)
      exact Nat.le_mul_of_pos_left _ (Nat.pos_of_ne_zero (by simp))
    have hrm : n ≤ (MAX_DECLARED - (c.toNat - 48)) / 10 := by omega
    rw [readDigits, if_pos hc, if_pos hrm, Nat.mul_comm n 10]
    exact ih (fun d hd => hds d (mem_cons_of_mem c hd)) hn

lemma splitCrlf_line {line : List Char} (hln : '\r' ∉ line) (text : List Char) :
    splitCrlf (line ++ '\r' :: '\n' :: text) = line :: splitCrlf text := by
  induction line with
  | nil => simp [splitCrlf]
  | cons c line ih =>
    have htl := ih fun hmem => hln (mem_cons_of_mem c hmem)
    rw [cons_append, splitCrlf.eq_def]
    split
    · simp_all
    · simp_all
    · rename_i heq
      obtain ⟨rfl, rfl⟩ := List.cons.inj heq
      rw [htl]

variable {c : Char}

lemma toDigits_isDigit (hc : c ∈ toDigits 10 n) : c.isDigit = true :=
  isDigit_of_mem_toDigits (by decide) (by decide) hc

lemma not_mem_toDigits (hc : c.isDigit = false) : c ∉ toDigits 10 n := by
  intro hmem
  rw [toDigits_isDigit hmem] at hc
  cases hc

variable {text : List Char}

lemma dropWhile_blank (h : ∀ c ∈ text, isBlank c = false) : text.dropWhile isBlank = text := by
  cases text with
  | nil => rfl
  | cons c text => simp [h c mem_cons_self]

lemma trim_eq (h : ∀ c ∈ text, isBlank c = false) : trim (' ' :: text) = text := by
  have hsp : (' ' :: text).dropWhile isBlank = text := by
    rw [dropWhile_cons_of_pos (by decide), dropWhile_blank h]
  rw [trim, hsp, dropWhile_blank (by simpa using h), reverse_reverse]

lemma digit_not_blank (h : c.isDigit = true) : isBlank c = false := by
  have hne (d : Char) (hd : d.isDigit = false) : c ≠ d := by
    rintro rfl
    rw [h] at hd
    cases hd
  simp [isBlank, hne ' ' (by decide), hne '\t' (by decide), hne '\n' (by decide),
    hne '\r' (by decide)]

def lengthLine (n : Nat) : List Char := "Content-Length: ".toList ++ Nat.toDigits 10 n

lemma lengthLine_eq (n : Nat) :
    lengthLine n = "Content-Length".toList ++ ':' :: ' ' :: toDigits 10 n := rfl

lemma readHeaderLine_lengthLine (hn : n ≤ MAX_DECLARED) :
    readHeaderLine none (lengthLine n) = .ok (some n) := by
  have hspl : (lengthLine n).splitOn ':' =
      ["Content-Length".toList, ' ' :: toDigits 10 n] := by
    rw [lengthLine_eq, splitOn_append_cons_self_of_not_mem (by decide), splitOn_eq_singleton]
    simpa using not_mem_toDigits (by decide)
  have htrim : trim (' ' :: toDigits 10 n) = toDigits 10 n :=
    trim_eq fun c hc => digit_not_blank (toDigits_isDigit hc)
  have hrd := readDigits_eq (fun c => toDigits_isDigit) (n := 0) (by simpa using hn)
  rw [readHeaderLine, if_neg (by simp [lengthLine_eq]), hspl]
  simp only [htrim, hrd]
  simp [Except.map]

lemma contentLength_lengthLine {maxBody : Int} (hn : n ≤ MAX_DECLARED) (hmax : (n : Int) ≤ maxBody)
    : contentLength (utf8Encode (lengthLine n ++ ['\r', '\n', '\r', '\n'])) maxBody = .ok n := by
  have hln : '\r' ∉ lengthLine n := by
    rw [lengthLine_eq]
    simpa using not_mem_toDigits (by decide)
  have hspl : splitCrlf (lengthLine n ++ ['\r', '\n', '\r', '\n']) = [lengthLine n, [], []] := by
    rw [splitCrlf_line hln, splitCrlf, splitCrlf]
  rw [contentLength, utf8Decode_utf8Encode]
  simp only [hspl, foldlM_cons, readHeaderLine_lengthLine hn]
  simp [readHeaderLine, hmax, bind, Except.bind, pure, Except.pure]

variable {byte : UInt8}

lemma mem_utf8Encode (ht : ∀ c ∈ text, c.toNat ≤ 127) (hbyte : byte ∈ utf8Encode text) :
    ∃ c ∈ text, byte = UInt8.ofNat c.toNat := by
  obtain ⟨c, hc, hmem⟩ := mem_flatMap.mp hbyte
  refine ⟨c, hc, ?_⟩
  simpa [String.utf8EncodeChar, ht c hc] using hmem

lemma isDigit_toNat (h : c.isDigit = true) : 48 ≤ c.toNat ∧ c.toNat ≤ 57 := by
  simpa [Char.isDigit, UInt32.le_iff_toNat_le] using h

lemma lengthLine_toNat (hc : c ∈ lengthLine n) : 32 ≤ c.toNat ∧ c.toNat ≤ 127 := by
  rcases mem_append.mp hc with hc | hc
  · have hall : ("Content-Length: ".toList.all fun c => 32 ≤ c.toNat ∧ c.toNat ≤ 127) = true := by
      decide
    simpa using all_eq_true.mp hall c hc
  · have := isDigit_toNat (toDigits_isDigit hc)
    omega

lemma lengthLine_plain (n : Nat) : Plain (utf8Encode (lengthLine n)) := by
  have hcode (byte : UInt8) (hbyte : byte ∈ utf8Encode (lengthLine n)) : 32 ≤ byte.toNat := by
    obtain ⟨c, hc, rfl⟩ := mem_utf8Encode (fun c hc => (lengthLine_toNat hc).2) hbyte
    obtain ⟨hlow, hhi⟩ := lengthLine_toNat hc
    rw [UInt8.toNat_ofNat_of_lt' (Nat.lt_of_le_of_lt hhi (by decide))]
    exact hlow
  constructor
  · exact fun hmem => absurd (hcode CR hmem) (by decide)
  · exact fun hmem => absurd (hcode LF hmem) (by decide)

lemma isHeaderLine_append {i : Nat} {line : List UInt8} (h : isHeaderLine i line = true)
    (rest : List UInt8) : isHeaderLine i (line ++ rest) = true := by
  induction line generalizing i with
  | nil => cases h
  | cons byte line ih =>
    rw [cons_append, isHeaderLine]
    rw [isHeaderLine] at h
    split_ifs at h ⊢
    · exact h
    · exact ih h

lemma lengthLine_isHeaderLine (n : Nat) : isHeaderLine 0 (utf8Encode (lengthLine n)) = true := by
  unfold lengthLine
  rw [utf8Encode_append]
  exact isHeaderLine_append (by decide +kernel) _

lemma length_utf8Encode (ht : ∀ c ∈ text, c.toNat ≤ 127) :
    (utf8Encode text).length = text.length := by
  induction text with
  | nil => rfl
  | cons c text ih =>
    have hc := ht c mem_cons_self
    have htl := ih fun d hd => ht d (mem_cons_of_mem c hd)
    have hone : (String.utf8EncodeChar c).length = 1 := by simp [String.utf8EncodeChar, hc]
    rw [utf8Encode, flatMap_cons, length_append, hone, Nat.add_comm]
    exact congrArg (· + 1) htl

/-- The heading that `encodeFrame` writes, up to its last LF. -/
def lengthHeading (n : Nat) : Heading := ⟨[utf8Encode (lengthLine n)], [], true⟩

lemma lengthHeading_bytes (n : Nat) : (lengthHeading n).bytes ++ [LF] =
    utf8Encode (lengthLine n ++ ['\r', '\n', '\r', '\n']) := by
  simp [bytes, done, lengthHeading, utf8Encode, String.utf8EncodeChar, CR, LF]

lemma lengthHeading_length (hn : n < 10 ^ 18) :
    (lengthHeading n).bytes.length < MAX_HEADER_BYTES := by
  have hds : (toDigits 10 n).length ≤ 18 := (length_toDigits_le_iff (by decide) (by decide)).mpr hn
  have hln := length_utf8Encode fun c (hc : c ∈ lengthLine n) => (lengthLine_toNat hc).2
  have hname : (lengthLine n).length = 16 + (toDigits 10 n).length := by
    unfold lengthLine
    rw [length_append, show "Content-Length: ".toList.length = 16 by decide]
  simp only [bytes, done, lengthHeading, MAX_HEADER_BYTES]
  simp
  omega

lemma encodeFrame_isFrame {body : String} {maxBody : Int}
    (hmax : ((utf8Encode body.toList).length : Int) ≤ maxBody) (hlim : maxBody ≤ MAX_FRAME_BYTES) :
    ∃ frame, encodeFrame body = .ok frame ∧ IsFrame maxBody frame (utf8Encode body.toList) := by
  generalize hn : (utf8Encode body.toList).length = n at hmax
  have hlen : n < 10 ^ 18 := by
    have : (n : Int) ≤ MAX_FRAME_BYTES := Int.le_trans hmax hlim
    simp only [MAX_FRAME_BYTES] at this
    omega
  refine ⟨(lengthHeading n).bytes ++ LF :: utf8Encode body.toList, ?_, lengthHeading n, ?_, ?_, rfl⟩
  · rw [encodeFrame]
    simp only [hn]
    rw [if_pos (Int.le_trans hmax hlim), append_cons (lengthHeading n).bytes, lengthHeading_bytes]
    rfl
  · refine ⟨?_, ⟨by simp [lengthHeading], by simp [lengthHeading]⟩,
      Nat.le_of_lt (lengthHeading_length hlen)⟩
    intro line hln
    obtain rfl := mem_singleton.mp hln
    exact ⟨lengthLine_plain n, lengthLine_isHeaderLine n⟩
  · have hrd := contentLength_lengthLine (by rw [MAX_DECLARED]; omega) hmax
    rw [← lengthHeading_bytes] at hrd
    rw [Heading.read, if_neg (Nat.not_le.mpr (lengthHeading_length hlen)), hrd, hn]
    rfl

lemma mapM_encodeFrame {maxBody : Int} (hlim : maxBody ≤ MAX_FRAME_BYTES) {bodies : List String}
    (h : ∀ body ∈ bodies, ((utf8Encode body.toList).length : Int) ≤ maxBody) :
    ∃ pairs : List (List UInt8 × List UInt8), bodies.mapM encodeFrame = .ok (pairs.map Prod.fst) ∧
      pairs.map Prod.snd = bodies.map (fun body => utf8Encode body.toList) ∧
      ∀ p ∈ pairs, IsFrame maxBody p.1 p.2 := by
  induction bodies with
  | nil => exact ⟨[], rfl, rfl, by simp⟩
  | cons body bodies ih =>
    obtain ⟨frame, henc, hfm⟩ := encodeFrame_isFrame (h body mem_cons_self) hlim
    obtain ⟨pairs, hmap, hbod, hps⟩ := ih fun b hb => h b (mem_cons_of_mem body hb)
    refine ⟨(frame, utf8Encode body.toList) :: pairs, ?_, by simp [hbod], fun p hp => ?_⟩
    · rw [mapM_cons, henc, hmap]
      rfl
    · rcases mem_cons.mp hp with rfl | hp
      · exact hfm
      · exact hps p hp

lemma contentLength_le {header : List UInt8} {maxBody : Int}
    (h : contentLength header maxBody = .ok n) : (n : Int) ≤ maxBody := by
  unfold contentLength at h
  split at h
  · cases h
  · rename_i text _
    cases hlines : (splitCrlf text).foldlM readHeaderLine none with
    | error e => simp [hlines, bind, Except.bind] at h
    | ok length =>
      simp only [hlines, bind, Except.bind] at h
      split at h
      · cases h
      · split at h
        · cases h
          assumption
        · cases h

/-- A part of a body is shorter than the declared length, which is within the
limit. -/
def Decoder.BodyWithin (maxBody : Int) (d : Decoder) : Prop :=
  d.maxBody = maxBody ∧ ∀ n body, d.state = .body n body → body.length < n ∧ (n : Int) ≤ maxBody

lemma checkHeader_keeps (d : Decoder) (header : List UInt8) :
    (d.checkHeader header).2.state = d.state ∧ (d.checkHeader header).2.maxBody = d.maxBody := by
  simp only [checkHeader]
  split_ifs <;> exact ⟨rfl, rfl⟩

lemma feedByte_bodyWithin {maxBody : Int} (d : Decoder) (byte : UInt8) (h : d.BodyWithin maxBody)
    : (d.feedByte byte).2.BodyWithin maxBody := by
  obtain ⟨rfl, hbo⟩ := h
  unfold feedByte
  split
  · rename_i header hst
    dsimp only
    split_ifs with hsh
    · have hkeeps := checkHeader_keeps { d with state := .header (header ++ [byte]) }
        (header ++ [byte])
      split <;> rename_i self hchk <;> rw [hchk] at hkeeps
      · exact ⟨hkeeps.2, fun n body hn => by rw [hkeeps.1] at hn; cases hn⟩
      · exact ⟨hkeeps.2, fun n body hn => by rw [hkeeps.1] at hn; cases hn⟩
      · split
        · exact ⟨hkeeps.2, fun n body hn => by rw [hkeeps.1] at hn; cases hn⟩
        · exact ⟨hkeeps.2, fun n body hn => by cases hn⟩
        · rename_i length hlen
          refine ⟨hkeeps.2, fun n body hn => ?_⟩
          cases hn
          have hle := contentLength_le hlen
          rw [hkeeps.2] at hle
          exact ⟨succ_pos length, hle⟩
    · exact ⟨rfl, fun n body hn => by cases hn⟩
  · rename_i length body hst
    dsimp only
    split_ifs with hfu
    · exact ⟨rfl, fun n body hn => by cases hn⟩
    · refine ⟨rfl, fun n front hn => ?_⟩
      cases hn
      obtain ⟨hlt, hle⟩ := hbo length body hst
      exact ⟨by simp at hfu ⊢; omega, hle⟩

def Decoder.HeaderWithin (limit : Nat) (d : Decoder) : Prop :=
  ∀ header, d.state = .header header → header.length ≤ limit

lemma feedByte_headerWithin {d next : Decoder} {item : Option (List UInt8)}
    (hs : d.feedByte byte = (.ok item, next)) : next.HeaderWithin MAX_HEADER_BYTES := by
  intro header hhea
  unfold feedByte at hs
  split at hs
  · rename_i front hst
    dsimp only at hs
    split_ifs at hs with hsh
    · have hkeeps := checkHeader_keeps { d with state := .header (front ++ [byte]) }
        (front ++ [byte])
      split at hs <;> rename_i self hchk <;> rw [hchk] at hkeeps
      · cases hs
      · cases hs
        rw [hkeeps.1] at hhea
        cases hhea
        exact hsh
      · split at hs <;> cases hs <;> cases hhea
        exact zero_le _
    · cases hs
  · dsimp only at hs
    split_ifs at hs <;> cases hs <;> cases hhea
    exact zero_le _

lemma feedByte_error_headerWithin {d next : Decoder} {e : DecodeError}
    (h : d.HeaderWithin MAX_HEADER_BYTES) (hs : d.feedByte byte = (.error e, next)) :
    next.HeaderWithin (MAX_HEADER_BYTES + 1) := by
  intro header hhea
  unfold feedByte at hs
  split at hs
  · rename_i front hst
    have hfr : (front ++ [byte]).length ≤ MAX_HEADER_BYTES + 1 := by simpa using h front hst
    have hkeeps := checkHeader_keeps { d with state := .header (front ++ [byte]) } (front ++ [byte])
    dsimp only at hs
    split_ifs at hs with hsh
    · split at hs <;> rename_i self hchk <;> rw [hchk] at hkeeps
      · cases hs
        rw [hkeeps.1] at hhea
        cases hhea
        exact hfr
      · cases hs
      · split at hs <;> cases hs
        rw [hkeeps.1] at hhea
        cases hhea
        exact hfr
    · cases hs
      cases hhea
      exact hfr
  · dsimp only at hs
    split_ifs at hs <;> cases hs

/-- Bodies within the limit are delivered however their frames are cut; what is
retained of a body is within the declared length and that within the limit, in
every run; and what is retained of a header is within its limit until a feed
fails, which keeps one byte more at most. -/
theorem delivered_encodeFrame_and_retained (maxBody : Int) :
    (∀ bodies : List String, (∀ body ∈ bodies,
        ((utf8Encode body.toList).length : Int) ≤ (Decoder.new maxBody).maxBody) →
      ∃ frames, bodies.mapM encodeFrame = .ok frames ∧
        ∀ chunks : List (List UInt8), chunks.flatten = frames.flatten →
          delivered maxBody chunks = (bodies.map (fun body => utf8Encode body.toList), none) ∧
          ((Decoder.new maxBody).feedAll chunks).state.finish = .ok ()) ∧
    (∀ (chunks : List (List UInt8)) (length : Nat) (body : List UInt8),
      (chunks.foldl (fun d chunk => (d.feed chunk).2) (Decoder.new maxBody)).state =
        .body length body →
      body.length ≤ length ∧ (length : Int) ≤ (Decoder.new maxBody).maxBody) ∧
    (∀ (chunks : List (List UInt8)) (header : List UInt8),
      ((Decoder.new maxBody).feedAll chunks).state.state = .header header →
      header.length ≤ if ((Decoder.new maxBody).feedAll chunks).failure = none then MAX_HEADER_BYTES
        else MAX_HEADER_BYTES + 1) := by
  refine ⟨fun bodies hbod => ?_, fun chunks => ?_, fun chunks => ?_⟩
  · have hlim : (new maxBody).maxBody ≤ MAX_FRAME_BYTES := by
      unfold new
      split_ifs <;> simp only <;> omega
    obtain ⟨pairs, henc, hps, hfra⟩ := mapM_encodeFrame hlim hbod
    refine ⟨pairs.map Prod.fst, henc, fun chunks hchu => ?_⟩
    have hrun : run feedByte (.new maxBody) chunks.flatten =
        ⟨pairs.map Prod.snd, none, .new maxBody⟩ := by
      rw [hchu]
      exact run_parts fun p hp => (hfra p hp).emits
    have hdel := deliver_of_ok (by rw [hrun])
    rw [delivered, feedAll, hdel, hrun, hps]
    exact ⟨rfl, rfl⟩
  · have hkeeps (d : Decoder) (hd : d.BodyWithin (new maxBody).maxBody) :
        (chunks.foldl (fun d chunk => (d.feed chunk).2) d).BodyWithin
          (new maxBody).maxBody := by
      induction chunks generalizing d with
      | nil => exact hd
      | cons chunk chunks ih => exact ih _ (feed_keeps feedByte_bodyWithin hd [] chunk)
    intro length body hst
    have hnew : (new maxBody).BodyWithin (new maxBody).maxBody :=
      ⟨rfl, fun n body hn => by cases hn⟩
    obtain ⟨hlt, hle⟩ := (hkeeps _ hnew).2 length body hst
    exact ⟨Nat.le_of_lt hlt, hle⟩
  · intro header hhea
    have hnew : (new maxBody).HeaderWithin MAX_HEADER_BYTES := by
      intro header hhea
      cases hhea
      exact zero_le _
    have hrun := run_keeps feedByte (fun _ hs => feedByte_headerWithin hs)
      feedByte_error_headerWithin hnew chunks.flatten
    obtain ⟨hfai, hst⟩ := deliver_state feedByte (.new maxBody) chunks
    rw [feedAll] at hhea ⊢
    rw [hst] at hhea
    rw [hfai]
    cases hc : (run feedByte (.new maxBody) chunks.flatten).failure with
    | none | some e =>
      rw [hc] at hrun
      simpa using hrun header hhea

theorem delivered_encodeFrame_and_retained_one : ∃ frames, ["a"].mapM encodeFrame = .ok frames ∧
    ∀ chunks : List (List UInt8), chunks.flatten = frames.flatten →
      delivered 16 chunks = ([[97]], none) ∧
        ((Decoder.new 16).feedAll chunks).state.finish = .ok () :=
  (delivered_encodeFrame_and_retained 16).1 ["a"] (by decide)

theorem not_forall_header_within : ¬ ∀ (maxBody : Int) (chunks : List (List UInt8))
    (header : List UInt8),
    (chunks.foldl (fun d chunk => (d.feed chunk).2) (Decoder.new maxBody)).state = .header header →
      header.length ≤ MAX_HEADER_BYTES := by
  intro h
  obtain ⟨heading, hbs, hok⟩ : ∃ heading : Heading,
      heading.bytes = List.replicate MAX_HEADER_BYTES 120 ∧ heading.Ok := by
    refine ⟨⟨[], List.replicate MAX_HEADER_BYTES 120, false⟩, ?_, ?_, ⟨?_, ?_⟩, ?_⟩
    · simp [bytes, done]
    · simp
    · exact fun hmem => absurd (eq_of_mem_replicate hmem) (by decide)
    · exact fun hmem => absurd (eq_of_mem_replicate hmem) (by decide)
    · simp [bytes, done]
  have hrd : heading.read 16 120 = .error (invalid "MEP header exceeds 8 KiB") := by
    rw [Heading.read, if_pos (by simp [hbs])]
  have hs := feedByte_eq 16 120 hok
  rw [hrd] at hs
  obtain ⟨start, hs⟩ := hs
  have hrun : run feedByte (between 16) (heading.bytes ++ 120 :: []) = _ :=
    run_failing (by rw [heading.run_eq hok]) (by rw [heading.run_eq hok]; exact hs)
  have hfeed : ((new 16).feed (heading.bytes ++ [120])).2.state =
      .header (heading.bytes ++ [120]) := by
    rw [Decoder.feed, feed_eq, show .new 16 = between 16 by rfl, hrun]
  have hle := h 16 [heading.bytes ++ [120]] _ hfeed
  rw [length_append, hbs, length_replicate] at hle
  exact not_succ_le_self _ hle

end Morphir.Mep
