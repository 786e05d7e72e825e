import Morphir.Library.RingBuffer

/-!
# The end of a worker's stderr

A buffer of bounded size takes the chunks that a worker writes to its stderr.  The tail
that a report keeps is the end of all of them.
-/

namespace Morphir.Host

open List

def stderrTailBytes : Nat := 65536

/-- One byte more than the tail, by which the tail sees that bytes were dropped. -/
def stderrBufferBytes : Nat := stderrTailBytes + 1

lemma stderrBufferBytes_pos : 0 < stderrBufferBytes := Nat.succ_pos stderrTailBytes

structure StderrTail where
  data : List UInt8
  dropped : Bool

namespace StderrTail

def of (bytes : List UInt8) : StderrTail :=
  let start := bytes.length - stderrTailBytes
  ⟨bytes.drop start, decide (0 < start)⟩

def bytes (self : StderrTail) : List UInt8 := self.data

def truncated (self : StderrTail) : Bool := self.dropped

lemma bytes_of (bytes : List UInt8) : (of bytes).bytes = bytes.rtake stderrTailBytes := by
  rw [StderrTail.bytes, of, List.rtake]

lemma truncated_of (bytes : List UInt8) :
    (of bytes).truncated = decide (0 < bytes.length - stderrTailBytes) := by
  rw [truncated, of]

end StderrTail

abbrev StderrBuffer := RingBuffer UInt8 stderrBufferBytes

namespace StderrBuffer

def new : StderrBuffer := RingBuffer.empty 0 stderrBufferBytes_pos

def write (self : StderrBuffer) (chunk : List UInt8) : StderrBuffer :=
  let skip := chunk.length - stderrBufferBytes
  (chunk.drop skip).foldl RingBuffer.push self

def tail (self : StderrBuffer) : StderrTail := StderrTail.of self.contents

lemma contents_new : new.contents = [] := RingBuffer.contents_empty 0 stderrBufferBytes_pos

lemma contents_write (self : StderrBuffer) (chunk : List UInt8) :
    (self.write chunk).contents = (self.contents ++ chunk).rtake stderrBufferBytes := by
  have hsk : chunk.drop (chunk.length - stderrBufferBytes) = chunk.rtake stderrBufferBytes := rfl
  rw [write, hsk, RingBuffer.contents_foldl_push, rtake_append_rtake]

lemma contents_foldl_write (self : StderrBuffer) (chunks : List (List UInt8)) :
    (chunks.foldl write self).contents =
      (self.contents ++ chunks.flatten).rtake stderrBufferBytes := by
  induction chunks generalizing self with
  | nil =>
    rw [foldl_nil, flatten_nil, append_nil, rtake_of_length_le]
    rw [RingBuffer.length_contents]
    exact self.length_le
  | cons chunk chunks ih =>
    rw [foldl_cons, ih, contents_write, rtake_rtake_append, append_assoc, flatten_cons]

/-- The tail of the buffer is the end of what was written, and it is truncated exactly
when more was written than it keeps. -/
theorem tail_written (chunks : List (List UInt8)) :
    (chunks.foldl write new).tail.bytes = chunks.flatten.rtake stderrTailBytes ∧
      ((chunks.foldl write new).tail.truncated = true ↔
        stderrTailBytes < chunks.flatten.length) := by
  have hconts : (chunks.foldl write new).contents = chunks.flatten.rtake stderrBufferBytes := by
    rw [contents_foldl_write, contents_new, nil_append]
  rw [tail, hconts]
  constructor
  · have hle : stderrTailBytes ≤ stderrBufferBytes := Nat.le_succ stderrTailBytes
    rw [StderrTail.bytes_of, rtake_rtake_of_le hle]
  · rw [StderrTail.truncated_of, decide_eq_true_iff, List.rtake, length_drop, stderrBufferBytes]
    omega

end StderrBuffer

end Morphir.Host
