import Morphir.Library.Transducer

/-!
# Content-Length framing

A frame is a header block of CRLF lines and a body of the declared length.  The
decoder reads bytes, keeps the header or the body that is not complete yet, and
returns the bodies that a chunk completes.
-/

namespace Morphir.Mep

def MAX_FRAME_BYTES : Int := 16777216

def MAX_DECLARED : Nat := 999999999999999999

def MAX_HEADER_BYTES : Nat := 8192

inductive FrameError
  | invalidFrame (message : String)
  | frameTooLarge (declared : Int) (limit : Int)
  deriving DecidableEq

/-- What `feed` raises: an error of the framing, or the error of the UTF-8
library for the bytes that it was given. -/
inductive DecodeError
  | frame (error : FrameError)
  | malformed (bytes : List UInt8)
  deriving DecidableEq

def invalid (message : String) : DecodeError := .frame (.invalidFrame message)

inductive FrameState
  | header (bytes : List UInt8)
  | body (length : Nat) (bytes : List UInt8)
  deriving DecidableEq

structure Decoder where
  state : FrameState
  lineStart : Nat
  maxBody : Int
  deriving DecidableEq

def Decoder.new (maxBody : Int) : Decoder :=
  ⟨.header [], 0, if maxBody < MAX_FRAME_BYTES then maxBody else MAX_FRAME_BYTES⟩

def CR : UInt8 := 13

def LF : UInt8 := 10

def COLON : UInt8 := 58

def utf8Encode (text : List Char) : List UInt8 := text.flatMap String.utf8EncodeChar

def utf8Decode (bytes : List UInt8) : Option (List Char) :=
  bytes.toByteArray.utf8Decode?.map Array.toList

lemma utf8Decode_utf8Encode (text : List Char) : utf8Decode (utf8Encode text) = some text := by
  have hbs : (utf8Encode text).toByteArray = text.utf8Encode := rfl
  simp [utf8Decode, hbs]

def splitCrlf : List Char → List (List Char)
  | [] => [[]]
  | '\r' :: '\n' :: text => [] :: splitCrlf text
  | c :: text =>
    match splitCrlf text with
    | [] => [[c]]
    | part :: parts => (c :: part) :: parts

def isBlank (c : Char) : Bool := c = ' ' || c = '\t' || c = '\n' || c = '\r'

def trim (text : List Char) : List Char :=
  ((text.dropWhile isBlank).reverse.dropWhile isBlank).reverse

/-- The value of decimal digits after `n`, checked before each multiplication. -/
def readDigits : Nat → List Char → Except DecodeError Nat
  | n, [] => .ok n
  | n, c :: digits =>
    if '0' ≤ c ∧ c ≤ '9' then
      if n ≤ (MAX_DECLARED - (c.toNat - 48)) / 10 then
        readDigits (n * 10 + (c.toNat - 48)) digits
      else .error (invalid "MEP payload exceeds 16 MiB")
    else .error (invalid "Invalid Content-Length")

/-- One line of a header block, after the lines that gave `length`. -/
def readHeaderLine (length : Option Nat) (line : List Char) : Except DecodeError (Option Nat) :=
  if line = [] then .ok length
  else
    match line.splitOn ':' with
    | name :: value :: more =>
      if name.map Char.toLower ≠ "content-length".toList then .ok length
      else if length = none ∧ more = [] then
        if trim value = [] then .error (invalid "Empty Content-Length")
        else (readDigits 0 (trim value)).map some
      else .error (invalid "Repeated or invalid Content-Length")
    | _ => .error (invalid "Invalid MEP header")

def contentLength (header : List UInt8) (maxBody : Int) : Except DecodeError Nat := do
  match utf8Decode header with
  | none => .error (.malformed header)
  | some text =>
    match ← (splitCrlf text).foldlM readHeaderLine none with
    | none => .error (invalid "Missing Content-Length")
    | some declared =>
      if (declared : Int) ≤ maxBody then .ok declared
      else .error (.frame (.frameTooLarge declared maxBody))

/-- Whether a header line is `Name: value`: a name of visible characters
without spaces, then a colon.  The name so far has `i` bytes. -/
def isHeaderLine : Nat → List UInt8 → Bool
  | _, [] => false
  | i, byte :: line =>
    if byte = COLON then 0 < i
    else if 0x21 ≤ byte ∧ byte ≤ 0x7e then isHeaderLine (i + 1) line
    else false

/-- Checks the header byte that was just added.  Returns whether the header
block is complete. -/
def Decoder.checkHeader (self : Decoder) (header : List UInt8) : Except DecodeError Bool × Decoder :=
  let n := header.length
  let afterCr := 2 ≤ n ∧ header[n - 2]? = some CR
  if header[n - 1]? ≠ some LF then
    if afterCr then (.error (invalid "MEP header line does not end with CRLF"), self)
    else (.ok false, self)
  else if ¬ afterCr then (.error (invalid "MEP header line does not end with CRLF"), self)
  else
    let line := (header.take (n - 2)).drop self.lineStart
    let self := { self with lineStart := n }
    if line = [] then (.ok true, self)
    else if isHeaderLine 0 line then (.ok false, self)
    else (.error (invalid "Invalid MEP header"), self)

/-- One byte of the loop of `feed`: the frame that it completes, if any. -/
def Decoder.feedByte (self : Decoder) (byte : UInt8) :
    Except DecodeError (Option (List UInt8)) × Decoder :=
  match self.state with
  | .header header =>
    let header := header ++ [byte]
    let self := { self with state := .header header }
    if header.length ≤ MAX_HEADER_BYTES then
      match self.checkHeader header with
      | (.error e, self) => (.error e, self)
      | (.ok false, self) => (.ok none, self)
      | (.ok true, self) =>
        match contentLength header self.maxBody with
        | .error e => (.error e, self)
        | .ok 0 => (.ok (some []), { self with state := .header [], lineStart := 0 })
        | .ok (length + 1) =>
          (.ok none, { self with state := .body (length + 1) [], lineStart := 0 })
    else (.error (invalid "MEP header exceeds 8 KiB"), self)
  | .body length body =>
    let body := body ++ [byte]
    if body.length = length then (.ok (some body), { self with state := .header [] })
    else (.ok none, { self with state := .body length body })

/-- The frames that the bytes complete, or the first error, and the decoder
afterwards. -/
def Decoder.feed (self : Decoder) (bytes : List UInt8) :
    Except DecodeError (List (List UInt8)) × Decoder :=
  Transducer.feed Decoder.feedByte self [] bytes

def Decoder.finish (self : Decoder) : Except FrameError Unit :=
  match self.state with
  | .header [] => .ok ()
  | _ => .error (.invalidFrame "Truncated MEP frame")

def Decoder.feedAll (self : Decoder) (chunks : List (List UInt8)) :
    Transducer.Run Decoder (List UInt8) DecodeError :=
  Transducer.deliver Decoder.feedByte self chunks

def encodeFrame (body : String) : Except FrameError (List UInt8) :=
  let bytes := utf8Encode body.toList
  if (bytes.length : Int) ≤ MAX_FRAME_BYTES then
    .ok (utf8Encode ("Content-Length: ".toList ++ Nat.toDigits 10 bytes.length ++
      ['\r', '\n', '\r', '\n']) ++ bytes)
  else .error (.invalidFrame "MEP response exceeds 16 MiB")

end Morphir.Mep
