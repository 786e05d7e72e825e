import Morphir.Mep.Framing

/-!
# What a stream of frames is

A heading is a header block that has not ended: whole lines, the text of the
current line, and whether a CR follows it.  It says where a block ends and which
byte is faulty without the decoder's buffers and indices; the decoder agrees
with it byte by byte.
-/

namespace Morphir.Mep

open Transducer List Decoder Nat

structure Plain (line : List UInt8) : Prop where
  cr : CR ∉ line
  lf : LF ∉ line

structure Heading where
  lines : List (List UInt8)
  text : List UInt8
  cr : Bool

namespace Heading

def done (h : Heading) : List UInt8 := h.lines.flatMap (· ++ [CR, LF])

def bytes (h : Heading) : List UInt8 := h.done ++ h.text ++ if h.cr then [CR] else []

structure Ok (h : Heading) : Prop where
  lines : ∀ line ∈ h.lines, Plain line ∧ isHeaderLine 0 line = true
  text : Plain h.text
  fits : h.bytes.length ≤ MAX_HEADER_BYTES

def read (h : Heading) (maxBody : Int) (byte : UInt8) : Except DecodeError (Heading ⊕ Nat) :=
  if MAX_HEADER_BYTES ≤ h.bytes.length then .error (invalid "MEP header exceeds 8 KiB")
  else if byte = LF then
    if h.cr then
      if h.text = [] then (contentLength (h.bytes ++ [LF]) maxBody).map .inr
      else if isHeaderLine 0 h.text then .ok (.inl ⟨h.lines ++ [h.text], [], false⟩)
      else .error (invalid "Invalid MEP header")
    else .error (invalid "MEP header line does not end with CRLF")
  else if h.cr then .error (invalid "MEP header line does not end with CRLF")
  else if byte = CR then .ok (.inl { h with cr := true })
  else .ok (.inl { h with text := h.text ++ [byte] })

def decoder (h : Heading) (maxBody : Int) : Decoder := ⟨.header h.bytes, h.done.length, maxBody⟩

end Heading

def between (maxBody : Int) : Decoder := ⟨.header [], 0, maxBody⟩

def afterHeading (maxBody : Int) : Heading ⊕ Nat → Option (List UInt8) × Decoder
  | .inl h => (none, h.decoder maxBody)
  | .inr 0 => (some [], between maxBody)
  | .inr (n + 1) => (none, ⟨.body (n + 1) [], 0, maxBody⟩)

variable {h : Heading} {maxBody : Int} {byte : UInt8}

lemma Heading.getLast?_bytes (ht : Plain h.text) : h.bytes.getLast? = some CR ↔ h.cr = true := by
  cases hcr : h.cr with
  | true => simp [bytes, hcr]
  | false =>
    simp only [bytes, hcr, Bool.false_eq_true, iff_false]
    intro hl
    rcases eq_nil_or_concat h.text with hnil | ⟨text, c, hcon⟩
    · rcases eq_nil_or_concat h.lines with hlines | ⟨lines, line, hlines⟩
      · simp [done, hnil, hlines] at hl
      · simp [done, hnil, hlines, CR, LF] at hl
    · rw [hcon] at hl
      obtain rfl : c = CR := by simpa using hl
      exact ht.cr (by simp [hcon])

lemma getElem?_before_last (l : List UInt8) (byte c : UInt8) :
    (2 ≤ (l ++ [byte]).length ∧ (l ++ [byte])[(l ++ [byte]).length - 2]? = some c) ↔
      l.getLast? = some c := by
  rcases eq_nil_or_concat l with rfl | ⟨front, last, rfl⟩
  · simp
  · simp

lemma Heading.slice_eq (hcr : h.cr = true) :
    ((h.bytes ++ [byte]).take ((h.bytes ++ [byte]).length - 2)).drop h.done.length = h.text := by
  have htk : (h.bytes ++ [byte]).take ((h.bytes ++ [byte]).length - 2) = h.done ++ h.text := by
    have hbs : h.bytes ++ [byte] = (h.done ++ h.text) ++ [CR, byte] := by simp [bytes, hcr]
    rw [hbs]
    exact take_left' (by simp; omega)
  rw [htk]
  simp

lemma Heading.checkHeader_eq (ht : Plain h.text) :
    (Decoder.mk (.header (h.bytes ++ [byte])) h.done.length maxBody).checkHeader
        (h.bytes ++ [byte]) =
      if byte = LF then
        if h.cr then
          (if h.text = [] then .ok true
            else if isHeaderLine 0 h.text then .ok false
            else .error (invalid "Invalid MEP header"),
            ⟨.header (h.bytes ++ [byte]), (h.bytes ++ [byte]).length, maxBody⟩)
        else (.error (invalid "MEP header line does not end with CRLF"),
          ⟨.header (h.bytes ++ [byte]), h.done.length, maxBody⟩)
      else
        (if h.cr then .error (invalid "MEP header line does not end with CRLF") else .ok false,
          ⟨.header (h.bytes ++ [byte]), h.done.length, maxBody⟩) := by
  have haft := (getElem?_before_last h.bytes byte CR).trans (getLast?_bytes ht)
  have hl : (h.bytes ++ [byte])[(h.bytes ++ [byte]).length - 1]? = some byte := by simp
  simp only [checkHeader, haft, hl, ne_eq]
  by_cases hlf : byte = LF
  · cases hcr : h.cr with
    | true =>
      simp only [hlf, not_true_eq_false, ↓reduceIte]
      rw [slice_eq hcr]
      split_ifs <;> rfl
    | false => simp
  · cases hcr : h.cr <;> simp [hlf]

variable (maxBody byte) in
lemma Heading.feedByte_eq (hok : h.Ok) :
    match h.read maxBody byte with
    | .ok next => (h.decoder maxBody).feedByte byte =
        (.ok (afterHeading maxBody next).1, (afterHeading maxBody next).2)
    | .error e => ∃ start, (h.decoder maxBody).feedByte byte =
        (.error e, ⟨.header (h.bytes ++ [byte]), start, maxBody⟩) := by
  simp only [Decoder.feedByte, decoder, checkHeader_eq hok.text, read]
  by_cases hfu : MAX_HEADER_BYTES ≤ h.bytes.length
  · have hlg : ¬ (h.bytes ++ [byte]).length ≤ MAX_HEADER_BYTES := by simp; omega
    rw [if_pos hfu, if_neg hlg]
    exact ⟨_, rfl⟩
  · have hsh : (h.bytes ++ [byte]).length ≤ MAX_HEADER_BYTES := by simp; omega
    rw [if_neg hfu, if_pos hsh]
    by_cases hlf : byte = LF
    · cases hcr : h.cr with
      | false => simp [hlf]
      | true =>
        by_cases hnil : h.text = []
        · subst hlf
          simp only [hnil, ↓reduceIte]
          cases hlen : contentLength (h.bytes ++ [LF]) maxBody with
          | error e => exact ⟨_, rfl⟩
          | ok n => cases n <;> rfl
        · by_cases hln : isHeaderLine 0 h.text = true
          · subst hlf
            simp [hnil, hln, afterHeading, decoder, done, bytes, hcr]
          · simp [hlf, hnil, hln]
    · cases hcr : h.cr with
      | true => simp [hlf]
      | false =>
        by_cases hret : byte = CR
        · subst hret
          simp [hlf, afterHeading, decoder, bytes, hcr, done]
        · simp [hlf, hret, afterHeading, decoder, bytes, hcr, done]

lemma Heading.ok_next {next : Heading} (hok : h.Ok) (hrd : h.read maxBody byte = .ok (.inl next))
    : next.Ok ∧ next.bytes = h.bytes ++ [byte] := by
  have hbs : next.bytes = h.bytes ++ [byte] ∧ Plain next.text ∧
      (∀ line ∈ next.lines, Plain line ∧ isHeaderLine 0 line = true) ∧
      h.bytes.length < MAX_HEADER_BYTES := by
    unfold read at hrd
    split at hrd
    · cases hrd
    · split at hrd
      · split at hrd
        · split at hrd
          · cases hlen : contentLength (h.bytes ++ [LF]) maxBody <;> simp [hlen, Except.map] at hrd
          · split at hrd
            · obtain rfl := Sum.inl.inj (Except.ok.inj hrd)
              refine ⟨by simp [bytes, done, *], ⟨by simp, by simp⟩, ?_, by omega⟩
              intro line hln
              rcases mem_append.mp hln with hln | hln
              · exact hok.lines line hln
              · obtain rfl := mem_singleton.mp hln
                exact ⟨hok.text, by assumption⟩
            · cases hrd
        · cases hrd
      · split at hrd
        · cases hrd
        · split at hrd
          · obtain rfl := Sum.inl.inj (Except.ok.inj hrd)
            exact ⟨by simp [bytes, done, *], hok.text, hok.lines, by omega⟩
          · obtain rfl := Sum.inl.inj (Except.ok.inj hrd)
            refine ⟨by simp [bytes, done, *], ⟨?_, ?_⟩, hok.lines, by omega⟩
            · simpa [hok.text.cr, eq_comm] using ‹¬ byte = CR›
            · simpa [hok.text.lf, eq_comm] using ‹¬ byte = LF›
  obtain ⟨hbs, ht, hlines, hrm⟩ := hbs
  exact ⟨⟨hlines, ht, by simpa [hbs] using succ_le_of_lt hrm⟩, hbs⟩

lemma Heading.room {prior : Heading} (hbs : h.bytes = prior.bytes ++ [byte])
    (hfi : h.bytes.length ≤ MAX_HEADER_BYTES) : prior.bytes.length < MAX_HEADER_BYTES := by
  rw [hbs, length_append] at hfi
  exact lt_of_succ_le hfi

lemma Heading.exists_prior (hok : h.Ok) (hne : h.bytes ≠ []) :
    ∃ prior : Heading, ∃ last, prior.Ok ∧ h.bytes = prior.bytes ++ [last] ∧
      ∀ maxBody, prior.read maxBody last = .ok (.inl h) := by
  obtain ⟨lines, text, cr⟩ := h
  obtain ⟨hlines, ht, hfi⟩ := hok
  have hLfCr : LF ≠ CR := by decide
  cases cr with
  | true =>
    have hbs : (Heading.mk lines text true).bytes = (Heading.mk lines text false).bytes ++ [CR] := by
      simp [bytes, done]
    have hrm : (Heading.mk lines text false).bytes.length < MAX_HEADER_BYTES := room hbs hfi
    refine ⟨⟨lines, text, false⟩, CR, ⟨hlines, ht, le_of_lt hrm⟩, hbs, fun m => ?_⟩
    rw [read, if_neg (not_le.mpr hrm), if_neg hLfCr.symm]
    simp
  | false =>
    rcases eq_nil_or_concat text with rfl | ⟨front, last, rfl⟩
    · rcases eq_nil_or_concat lines with rfl | ⟨front, line, rfl⟩
      · simp [bytes, done] at hne
      · rw [concat_eq_append] at hlines hfi ⊢
        have hbs : (Heading.mk (front ++ [line]) [] false).bytes =
            (Heading.mk front line true).bytes ++ [LF] := by
          simp [bytes, done]
        have hrm : (Heading.mk front line true).bytes.length < MAX_HEADER_BYTES := room hbs hfi
        obtain ⟨hpl, hhea⟩ := hlines line (by simp)
        have hln : line ≠ [] := by rintro rfl; simp [isHeaderLine] at hhea
        refine ⟨⟨front, line, true⟩, LF, ⟨fun l hl => hlines l (by simp [hl]), hpl, le_of_lt hrm⟩,
          hbs, fun m => ?_⟩
        rw [read, if_neg (not_le.mpr hrm)]
        simp [hln, hhea]
    · rw [concat_eq_append] at ht hfi ⊢
      have hbs : (Heading.mk lines (front ++ [last]) false).bytes =
          (Heading.mk lines front false).bytes ++ [last] := by
        simp [bytes, done]
      have hrm : (Heading.mk lines front false).bytes.length < MAX_HEADER_BYTES := room hbs hfi
      have hcr : last ≠ CR := by rintro rfl; exact ht.cr (by simp)
      have hlf : last ≠ LF := by rintro rfl; exact ht.lf (by simp)
      have hfr : Plain front :=
        ⟨fun hmem => ht.cr (by simp [hmem]), fun hmem => ht.lf (by simp [hmem])⟩
      refine ⟨⟨lines, front, false⟩, last, ⟨hlines, hfr, le_of_lt hrm⟩, hbs, fun m => ?_⟩
      rw [read, if_neg (not_le.mpr hrm), if_neg hlf]
      simp [hcr]

lemma Heading.run_eq (hok : h.Ok) :
    run feedByte (between maxBody) h.bytes = ⟨[], none, h.decoder maxBody⟩ := by
  induction hlen : h.bytes.length generalizing h with
  | zero =>
    have hbs : h.bytes = [] := length_eq_zero_iff.mp hlen
    have hdo : h.done = [] := by
      rw [bytes, append_assoc] at hbs
      exact (append_eq_nil_iff.mp hbs).1
    simp [hbs, decoder, hdo, between]
  | succ n ih =>
    have hne : h.bytes ≠ [] := by rintro hnil; simp [hnil] at hlen
    obtain ⟨prior, last, hprior, hbs, hrd⟩ := exists_prior hok hne
    have hrun := ih hprior (by simpa [hbs] using hlen)
    have hs := feedByte_eq maxBody last hprior
    rw [hrd maxBody] at hs
    rw [hbs, run_append (by rw [hrun]), hrun, run_cons_ok hs]
    rfl

lemma run_body {n : Nat} {front rest : List UInt8} (hlen : front.length + rest.length < n) :
    run feedByte ⟨.body n front, 0, maxBody⟩ rest =
      ⟨[], none, ⟨.body n (front ++ rest), 0, maxBody⟩⟩ := by
  induction rest generalizing front with
  | nil => simp
  | cons byte rest ih =>
    have hsh : (front ++ [byte]).length ≠ n := by simp at hlen ⊢; omega
    have hs : feedByte ⟨.body n front, 0, maxBody⟩ byte =
        (.ok none, ⟨.body n (front ++ [byte]), 0, maxBody⟩) := by
      simp only [feedByte]
      rw [if_neg hsh]
    rw [run_cons_ok hs, ih (by simp at hlen ⊢; omega)]
    simp

def IsFrame (maxBody : Int) (frame body : List UInt8) : Prop :=
  ∃ h : Heading, h.Ok ∧ h.read maxBody LF = .ok (.inr body.length) ∧ frame = h.bytes ++ LF :: body

/-- A byte that no frame has after these bytes of a heading, and its error. -/
def Fault (maxBody : Int) (front : List UInt8) (byte : UInt8) (e : DecodeError) : Prop :=
  ∃ h : Heading, h.Ok ∧ front = h.bytes ∧ h.read maxBody byte = .error e

lemma IsFrame.emits {frame body : List UInt8} (hfm : IsFrame maxBody frame body) :
    Emits feedByte (between maxBody) frame body := by
  obtain ⟨h, hok, hrd, rfl⟩ := hfm
  have hs := Heading.feedByte_eq maxBody LF hok
  rw [hrd] at hs
  rcases eq_nil_or_concat body with rfl | ⟨front, last, rfl⟩
  · exact .of_last (Heading.run_eq hok) hs
  · rw [concat_eq_append] at hs ⊢
    have hlen : (front ++ [last]).length = front.length + 1 := by simp
    rw [hlen] at hs
    have hfr : run feedByte (between maxBody) (h.bytes ++ LF :: front) =
        ⟨[], none, ⟨.body (front.length + 1) front, 0, maxBody⟩⟩ := by
      rw [run_append (by rw [Heading.run_eq hok]), Heading.run_eq hok, run_cons_ok hs]
      simp only [afterHeading]
      rw [run_body (by simp)]
      rfl
    have hl : feedByte ⟨.body (front.length + 1) front, 0, maxBody⟩ last =
        (.ok (some (front ++ [last])), between maxBody) := by
      simp [feedByte, between]
    simpa using Emits.of_last hfr hl

end Morphir.Mep

/-!
## Frames and chunk boundaries

A stream is whole frames and then a heading, a part of a body or a heading with
a faulty byte.  However it is cut, the same error results.  The frames that the
chunk of the faulty byte completes are lost with it, so the cuts agree on the
frames exactly when their chunks before that one complete equally many.
-/

namespace Morphir.Mep

open Transducer List

variable {maxBody : Int}

variable {byte : UInt8}

lemma Heading.read_inr {h : Heading} {n : Nat} (hrd : h.read maxBody byte = .ok (.inr n)) :
    byte = LF := by
  unfold read at hrd
  split at hrd
  · cases hrd
  · split at hrd
    · assumption
    · split at hrd
      · cases hrd
      · split at hrd <;> cases Except.ok.inj hrd

/-- What the decoder keeps between two bytes: a heading or a part of a body. -/
inductive Pending (maxBody : Int) : List UInt8 → Decoder → Prop
  | heading (h : Heading) : h.Ok → Pending maxBody h.bytes (h.decoder maxBody)
  | body (h : Heading) (n : Nat) (body : List UInt8) : h.Ok →
      h.read maxBody LF = .ok (.inr n) → body.length < n →
      Pending maxBody (h.bytes ++ LF :: body) ⟨.body n body, 0, maxBody⟩

lemma between_pending : Pending maxBody [] (between maxBody) :=
  .heading ⟨[], [], false⟩ ⟨by simp, ⟨by simp, by simp⟩, by decide⟩

lemma Pending.feedByte {rest : List UInt8} {d next : Decoder} {item : Option (List UInt8)}
    (hpd : Pending maxBody rest d) (hs : d.feedByte byte = (.ok item, next)) :
    item = none ∧ Pending maxBody (rest ++ [byte]) next ∨
      ∃ body, item = some body ∧ IsFrame maxBody (rest ++ [byte]) body ∧
        next = between maxBody := by
  cases hpd with
  | heading h hok =>
    have hrd := Heading.feedByte_eq maxBody byte hok
    cases hnx : h.read maxBody byte with
    | error e =>
      rw [hnx] at hrd
      obtain ⟨start, hrd⟩ := hrd
      rw [hrd] at hs
      cases hs
    | ok after =>
      rw [hnx] at hrd
      rw [hrd] at hs
      cases after with
      | inl h' =>
        obtain ⟨hok', hbs⟩ := h.ok_next hok hnx
        cases hs
        exact .inl ⟨rfl, hbs ▸ .heading h' hok'⟩
      | inr n =>
        obtain rfl := Heading.read_inr hnx
        cases n with
        | zero =>
          cases hs
          exact .inr ⟨[], rfl, ⟨h, hok, hnx, rfl⟩, rfl⟩
        | succ n =>
          cases hs
          exact .inl ⟨rfl, .body h (n + 1) [] hok hnx (Nat.succ_pos n)⟩
  | body h n body hok hrd hlen =>
    simp only [Decoder.feedByte] at hs
    split at hs
    · rename_i hfu
      cases hs
      refine .inr ⟨body ++ [byte], rfl, ⟨h, hok, ?_, by simp⟩, rfl⟩
      rw [hfu]
      exact hrd
    · rename_i hop
      cases hs
      have := Pending.body h n (body ++ [byte]) hok hrd (by simp at hop ⊢; omega)
      simpa using this

lemma exists_frames {stream : List UInt8}
    (h : (run Decoder.feedByte (between maxBody) stream).failure = none) :
    ∃ frames : List (List UInt8 × List UInt8), ∃ rest, (∀ f ∈ frames, IsFrame maxBody f.1 f.2) ∧
      stream = (frames.map Prod.fst).flatten ++ rest ∧
      (run Decoder.feedByte (between maxBody) stream).items = frames.map Prod.snd ∧
      Pending maxBody rest (run Decoder.feedByte (between maxBody) stream).state := by
  induction stream using List.reverseRecOn with
  | nil => exact ⟨[], [], by simp, rfl, rfl, between_pending⟩
  | append_singleton stream byte ih =>
    have hfr := run_front h
    obtain ⟨frames, rest, hfra, hstr, hits, hpd⟩ := ih hfr
    rw [run_append hfr] at h ⊢
    cases hs : (run Decoder.feedByte (between maxBody) stream).state.feedByte byte with
    | mk result next =>
      cases result with
      | error e => simp [run_cons_error hs] at h
      | ok item =>
        rw [run_cons_ok hs]
        rcases hpd.feedByte hs with ⟨rfl, hnx⟩ | ⟨body, rfl, hfm, rfl⟩
        · exact ⟨frames, rest ++ [byte], hfra, by simp [hstr], by simpa using hits,
            by simpa using hnx⟩
        · refine ⟨frames ++ [(rest ++ [byte], body)], [], ?_, by simp [hstr],
            by simp [hits], by simpa using between_pending⟩
          intro f hf
          rcases mem_append.mp hf with hf | hf
          · exact hfra f hf
          · obtain rfl := mem_singleton.mp hf
            exact hfm

variable {e : DecodeError}

lemma Pending.fault {rest : List UInt8} {d next : Decoder} (hpd : Pending maxBody rest d)
    (hs : d.feedByte byte = (.error e, next)) : Fault maxBody rest byte e := by
  cases hpd with
  | heading h hok =>
    have hrd := Heading.feedByte_eq maxBody byte hok
    cases hnx : h.read maxBody byte with
    | error f =>
      rw [hnx] at hrd
      obtain ⟨start, hrd⟩ := hrd
      rw [hrd] at hs
      cases hs
      exact ⟨h, hok, rfl, hnx⟩
    | ok after =>
      rw [hnx] at hrd
      rw [hrd] at hs
      cases hs
  | body h n body hok hrd hlen =>
    simp only [Decoder.feedByte] at hs
    split at hs <;> cases hs

lemma Fault.run_eq {front : List UInt8} (hfault : Fault maxBody front byte e) :
    ∃ d next, run Decoder.feedByte (between maxBody) front = ⟨[], none, d⟩ ∧
      d.feedByte byte = (.error e, next) := by
  obtain ⟨h, hok, rfl, hrd⟩ := hfault
  have hs := Heading.feedByte_eq maxBody byte hok
  rw [hrd] at hs
  obtain ⟨start, hs⟩ := hs
  exact ⟨h.decoder maxBody, _, h.run_eq hok, hs⟩

lemma feedAll_of_fault {frames : List (List UInt8 × List UInt8)} {front back : List UInt8}
    (hfra : ∀ f ∈ frames, IsFrame maxBody f.1 f.2) (hfault : Fault maxBody front byte e)
    {chunks : List (List UInt8)}
    (hchu : chunks.flatten = (frames.map Prod.fst).flatten ++ front ++ byte :: back) :
    ((between maxBody).feedAll chunks).items =
        (frames.map Prod.snd).take (covered (frames.map Prod.fst)
          (settled chunks ((frames.map Prod.fst).flatten ++ front).length)) ∧
      ((between maxBody).feedAll chunks).failure = some e := by
  obtain ⟨d, next, hfr, hl⟩ := hfault.run_eq
  have hpts := run_parts fun f hf => (hfra f hf).emits
  have hrun : run Decoder.feedByte (between maxBody) ((frames.map Prod.fst).flatten ++ front) =
      ⟨frames.map Prod.snd, none, d⟩ := by
    rw [run_append (by rw [hpts]), hpts, hfr]
    simp [Run.after]
  have hdel := deliver_of_failure hchu (by rw [hrun]) (by rw [hrun]; exact hl)
  rw [Decoder.feedAll, hdel]
  refine ⟨?_, rfl⟩
  exact items_take_parts (fun f hf => (hfra f hf).emits)
    (fun k => items_take (by rw [hfr]) k) _

/-- What a caller of the decoder gets: the frames before the first error, and
the error. -/
def delivered (maxBody : Int) (chunks : List (List UInt8)) :
    List (List UInt8) × Option DecodeError :=
  (((Decoder.new maxBody).feedAll chunks).items, ((Decoder.new maxBody).feedAll chunks).failure)

/-- Where the stream has a faulty byte, the chunks before the one that holds it
complete as many frames in one cut as in the other. -/
def SettleAlike (maxBody : Int) (chunks₁ chunks₂ : List (List UInt8)) : Prop :=
  ∀ (frames : List (List UInt8)) (front : List UInt8) (byte : UInt8) (back : List UInt8)
    (e : DecodeError), (∀ f ∈ frames, ∃ body, IsFrame maxBody f body) →
    Fault maxBody front byte e → chunks₁.flatten = frames.flatten ++ front ++ byte :: back →
    covered frames (settled chunks₁ (frames.flatten ++ front).length) =
      covered frames (settled chunks₂ (frames.flatten ++ front).length)

lemma new_eq (maxBody : Int) :
    Decoder.new maxBody = between (Decoder.new maxBody).maxBody := rfl

lemma exists_bodies {frames : List (List UInt8)}
    (h : ∀ f ∈ frames, ∃ body, IsFrame maxBody f body) :
    ∃ pairs : List (List UInt8 × List UInt8), pairs.map Prod.fst = frames ∧
      ∀ p ∈ pairs, IsFrame maxBody p.1 p.2 := by
  induction frames with
  | nil => exact ⟨[], rfl, by simp⟩
  | cons frame frames ih =>
    obtain ⟨body, hbo⟩ := h frame mem_cons_self
    obtain ⟨pairs, hps, hfra⟩ := ih fun f hf => h f (mem_cons_of_mem frame hf)
    refine ⟨(frame, body) :: pairs, by simp [hps], fun p hp => ?_⟩
    rcases mem_cons.mp hp with rfl | hp
    · exact hbo
    · exact hfra p hp

end Morphir.Mep
