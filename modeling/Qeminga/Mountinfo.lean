import Mathlib.Algebra.GroupWithZero.Nat
import Qeminga.Lib.Text
import Qeminga.Lib.Utf8
import Qeminga.Plan

/-!
# The mount table

`mountinfo.rs`: the rows of `/proc/self/mountinfo` from its bytes.  The table need not be UTF-8.
-/

namespace Qeminga

namespace Mountinfo

/-- One line of `mountinfo`, decoded. -/
structure MountEntry where
  mountId : UInt32
  parentId : UInt32
  major : UInt32
  minor : UInt32
  root : Path
  mountPoint : Path
  mountOptions : String
  optionalFields : List String
  fsType : String
  source : String
  superOptions : String
  deriving DecidableEq, Repr

/-- What the plan reads of a row. -/
def MountEntry.planned (e : MountEntry) : Qeminga.MountEntry where
  mountId := e.mountId.toNat
  parentId := e.parentId.toNat
  major := e.major.toNat
  minor := e.minor.toNat
  mountPoint := e.mountPoint
  fsType := e.fsType
  source := e.source

def newline : UInt8 := 10
def space : UInt8 := 32
def plus : UInt8 := 43
def dash : UInt8 := 45
def zero : UInt8 := 48
def colon : UInt8 := 58
def backslash : UInt8 := 92

/-! ### Octal escapes -/

def isOctal (d : UInt8) : Bool := zero ≤ d && d ≤ 55

def octalValue (digits : List UInt8) : Nat := digits.foldl (fun acc d => acc * 8 + (d - zero).toNat) 0

/-- Decodes the three-digit octal escapes; any other backslash stays. -/
def unescape : List UInt8 → List UInt8
  | b :: d₁ :: d₂ :: d₃ :: rest =>
    if b = backslash ∧ [d₁, d₂, d₃].all isOctal ∧ octalValue [d₁, d₂, d₃] < 256 then
      UInt8.ofNat (octalValue [d₁, d₂, d₃]) :: unescape rest
    else b :: unescape (d₁ :: d₂ :: d₃ :: rest)
  | b :: rest => b :: unescape rest
  | [] => []

def unescapePath (field : List UInt8) : Path := unescape field

def unescapeLossy (field : List UInt8) : String := Utf8.lossy (unescape field)

/-! ### Numbers -/

/-- An ASCII field; the text is its bytes. -/
def ascii (field : List UInt8) : Option (List UInt8) := if field.all (· < 128) then some field else none

def pushDigit (acc : Nat) (d : UInt8) : Option Nat :=
  if zero ≤ d ∧ d ≤ 57 then
    if acc * 10 + (d - zero).toNat < 2 ^ 32 then some (acc * 10 + (d - zero).toNat) else none
  else none

/-- `str::parse::<u32>`: decimal digits, after a `+` or not. -/
def parseU32 (text : List UInt8) : Option UInt32 :=
  let digits := if text.head? = some plus then text.tail else text
  if digits = [] then none else (digits.foldlM pushDigit 0).map UInt32.ofNat

def number (field : List UInt8) : Option UInt32 := do
  parseU32 (← ascii field)

/-! ### Lines -/

/-- The fields of a line that are yet to be read. -/
abbrev FieldM := StateT (List (List UInt8)) Option

def next : FieldM (List UInt8) := fun fields =>
  match fields with
  | [] => none
  | field :: fields => some (field, fields)

/-- The optional fields, to the one that is `-`. -/
def optionalFields : List (List UInt8) → Option (List String × List (List UInt8))
  | [] => none
  | field :: fields =>
    if field = [dash] then some ([], fields)
    else (optionalFields fields).map fun p => (Utf8.lossy field :: p.1, p.2)

def parseFields : FieldM MountEntry := do
  let mountId ← number (← next)
  let parentId ← number (← next)
  let (major, minor) ← Text.splitOnce colon (← ascii (← next))
  let major ← parseU32 major
  let minor ← parseU32 minor
  let root := unescapePath (← next)
  let mountPoint := unescapePath (← next)
  let mountOptions := Utf8.lossy (← next)
  let optionals ← optionalFields
  let fsType := Utf8.lossy (← next)
  let source := unescapeLossy (← next)
  let superOptions := ((← get).head?.map unescapeLossy).getD ""
  return ⟨mountId, parentId, major, minor, root, mountPoint, mountOptions, optionals, fsType, source, superOptions⟩

def parseLine (line : List UInt8) : Option MountEntry :=
  parseFields.run' ((line.splitOn space).filter fun field => field ≠ [])

/-- Malformed lines are skipped. -/
def parseMountinfo (table : List UInt8) : List MountEntry := (table.splitOn newline).filterMap parseLine

end Mountinfo

end Qeminga
