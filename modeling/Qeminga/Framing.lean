import Mathlib.Algebra.GroupWithZero.Nat
import Mathlib.Data.List.Basic

/-!
# Framing

`framing.rs`: frames end with a newline, and the byte `0xFF` drops what is buffered and marks the next frame.  A frame
that is too long is not buffered: its bytes are counted until it ends.
-/

namespace Qeminga

abbrev Bytes := List UInt8

/-- The largest count of the source's counters, which saturate or wrap around there. -/
def maxCount : Nat := 2 ^ 64 - 1

def saturatingAdd (m n : Nat) : Nat := min (m + n) maxCount

namespace Framing

def maxFrameLen : Nat := 65536

/-- The byte `\n`. -/
def newline : UInt8 := 10

/-- The byte `SENTINEL`. -/
def sentinelByte : UInt8 := 255

/-- `u8::is_ascii_whitespace`. -/
def isAsciiWhitespace (byte : UInt8) : Bool := byte = 32 || byte = 9 || byte = 10 || byte = 12 || byte = 13

inductive DecodeEvent
  | frame (bytes : Bytes) (sentinel : Bool)
  | oversized (discarded : Nat)
  deriving DecidableEq, Repr

structure FrameDecoder where
  buf : Bytes
  discarding : Bool
  discarded : Nat
  sentinelPending : Bool
  deriving DecidableEq, Repr

namespace FrameDecoder

def new : FrameDecoder := ⟨[], false, 0, false⟩

/-- Appends bytes without a delimiter, or begins to discard instead of growing past the bound. -/
def consumeData (d : FrameDecoder) (data : Bytes) : FrameDecoder :=
  if data.isEmpty then d
  else if d.discarding then { d with discarded := saturatingAdd d.discarded data.length }
  else if maxFrameLen < saturatingAdd d.buf.length data.length then
    { d with discarding := true, discarded := saturatingAdd d.buf.length data.length, buf := [] }
  else { d with buf := d.buf ++ data }

/-- A newline, with the events it completes. -/
def endOfFrame (d : FrameDecoder) : FrameDecoder × List DecodeEvent :=
  if d.discarding then ({ d with discarding := false, discarded := 0 }, [.oversized d.discarded])
  else if d.buf.all isAsciiWhitespace then ({ d with buf := [] }, [])
  else ({ d with buf := [], sentinelPending := false }, [.frame d.buf d.sentinelPending])

/-- A `0xFF`, with the events it completes. -/
def sentinel (d : FrameDecoder) : FrameDecoder × List DecodeEvent :=
  if d.discarding then
    ({ d with discarding := false, discarded := 0, buf := [], sentinelPending := true }, [.oversized d.discarded])
  else ({ d with buf := [], sentinelPending := true }, [])

/-- The loop of `push`; `data` are the bytes since the last delimiter of this input, `input[start..pos]`. -/
def pushFrom (d : FrameDecoder) (data : Bytes) : Bytes → FrameDecoder × List DecodeEvent
  | [] => (d.consumeData data, [])
  | byte :: input =>
    if byte = newline then
      let x := (d.consumeData data).endOfFrame
      let y := x.1.pushFrom [] input
      (y.1, x.2 ++ y.2)
    else if byte = sentinelByte then
      let x := (d.consumeData data).sentinel
      let y := x.1.pushFrom [] input
      (y.1, x.2 ++ y.2)
    else d.pushFrom (data ++ [byte]) input

/-- Feeds bytes into the decoder and returns the events they complete. -/
def push (d : FrameDecoder) (input : Bytes) : FrameDecoder × List DecodeEvent := d.pushFrom [] input

def reset (d : FrameDecoder) : FrameDecoder :=
  { d with buf := [], discarding := false, discarded := 0, sentinelPending := false }

/-- Successive calls of `push`, with the events of all of them. -/
def pushAll (d : FrameDecoder) : List Bytes → FrameDecoder × List DecodeEvent
  | [] => (d, [])
  | chunk :: chunks =>
    let x := d.push chunk
    let y := x.1.pushAll chunks
    (y.1, x.2 ++ y.2)

end FrameDecoder

/-- Encodes one reply. -/
def encode (json : Bytes) (sentinel : Bool) : Bytes := (if sentinel then [sentinelByte] else []) ++ json ++ [newline]

end Framing

end Qeminga
