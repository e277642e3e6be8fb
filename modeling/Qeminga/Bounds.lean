import Qeminga.Framing
import Qeminga.Lib.Scanner

/-!
# The bounds of a frame

`proto/bounds.rs`: one pass over the bytes of a frame, before it is parsed.  The counters do not come near the point at
which those of the source saturate.
-/

namespace Qeminga

namespace Bounds

def maxDepth : Nat := 32

def maxStringBytes : Nat := 4096

inductive BoundsError
  | depthExceeded | stringTooLong | invalidUtf8
  deriving DecidableEq, Repr

def BoundsError.text : BoundsError → String
  | .depthExceeded => "JSON nesting deeper than 32 levels"
  | .stringTooLong => "JSON string longer than 4096 bytes"
  | .invalidUtf8 => "frame is not valid UTF-8"

/-- The variables of the loop. -/
structure Scan where
  depth : Nat
  inString : Bool
  escaped : Bool
  stringLen : Nat
  deriving DecidableEq, Repr

def Scan.start : Scan := ⟨0, false, false, 0⟩

def quote : UInt8 := 34
def openBracket : UInt8 := 91
def backslash : UInt8 := 92
def closeBracket : UInt8 := 93
def openBrace : UInt8 := 123
def closeBrace : UInt8 := 125

/-- Counts a byte of a string. -/
def Scan.count (s : Scan) : Except BoundsError Scan :=
  if maxStringBytes < s.stringLen + 1 then .error .stringTooLong else .ok { s with stringLen := s.stringLen + 1 }

/-- One round of the loop. -/
def Scan.step (s : Scan) (b : UInt8) : Except BoundsError Scan :=
  if s.inString then
    if s.escaped then { s with escaped := false }.count
    else if b = backslash then { s with escaped := true }.count
    else if b = quote then .ok { s with inString := false }
    else s.count
  else if b = quote then .ok { s with inString := true, stringLen := 0 }
  else if b = openBracket ∨ b = openBrace then
    if maxDepth < s.depth + 1 then .error .depthExceeded else .ok { s with depth := s.depth + 1 }
  else if b = closeBracket ∨ b = closeBrace then .ok { s with depth := s.depth - 1 }
  else .ok s

/-- The loop over a frame, or over a part of it. -/
def scan (bytes : Bytes) : Except BoundsError Scan := Scanner.run Scan.step bytes .start

def checkBounds (bytes : Bytes) : Except BoundsError Unit :=
  if !bytes.toByteArray.validateUTF8 then .error .invalidUtf8 else (scan bytes).map fun _ => ()

end Bounds

end Qeminga
