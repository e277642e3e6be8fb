import Qeminga.Lib.Utf8

/-!
# JSON texts

The grammar of RFC 8259, as the type of its derivations, and the text of a derivation.  Each character of the text comes
with its point: how many arrays and objects are open after it, and whether a string is.  The text is encoded in UTF-8, and
each byte has the point of its character.
-/

namespace JsonGrammar

/-- The number of open arrays and objects, and whether a string is open. -/
abbrev Point := Nat × Bool

abbrev Marked := List (Char × Point)

/-- Characters that all have the same point. -/
def marked (p : Point) (text : List Char) : Marked := text.map fun c => (c, p)

/-! ### White space, literals and numbers -/

inductive Blank
  | space | tab | lineFeed | carriageReturn
  deriving DecidableEq, Repr

def Blank.char : Blank → Char
  | .space => ' '
  | .tab => '\t'
  | .lineFeed => '\n'
  | .carriageReturn => '\r'

abbrev Ws := List Blank

def Ws.text (ws : Ws) : List Char := ws.map Blank.char

/-- The white space around a structural character. -/
structure Pad where
  before : Ws
  after : Ws
  deriving DecidableEq, Repr

inductive Literal
  | null | true | false
  deriving DecidableEq, Repr

def Literal.text : Literal → List Char
  | .null => ['n', 'u', 'l', 'l']
  | .true => ['t', 'r', 'u', 'e']
  | .false => ['f', 'a', 'l', 's', 'e']

def digits : List Char := ['0', '1', '2', '3', '4', '5', '6', '7', '8', '9']

abbrev Digit := { c : Char // c ∈ digits }

abbrev Digit19 := { c : Char // c ∈ digits.tail }

abbrev HexDigit := { c : Char // c ∈ digits ++ ['a', 'b', 'c', 'd', 'e', 'f', 'A', 'B', 'C', 'D', 'E', 'F'] }

/-- `1*DIGIT`. -/
structure Digits where
  first : Digit
  rest : List Digit
  deriving DecidableEq

def Digits.text (ds : Digits) : List Char := ds.first.val :: ds.rest.map Subtype.val

inductive IntPart
  | zero
  | nonzero (first : Digit19) (rest : List Digit)
  deriving DecidableEq

def IntPart.text : IntPart → List Char
  | .zero => ['0']
  | .nonzero first rest => first.val :: rest.map Subtype.val

inductive Sign
  | plus | minus
  deriving DecidableEq, Repr

def Sign.char : Sign → Char
  | .plus => '+'
  | .minus => '-'

structure Exponent where
  capital : Bool
  sign : Option Sign
  digits : Digits
  deriving DecidableEq

def Exponent.text (e : Exponent) : List Char :=
  (if e.capital then 'E' else 'e') :: (e.sign.map Sign.char).toList ++ e.digits.text

structure Number where
  minus : Bool
  int : IntPart
  frac : Option Digits
  exp : Option Exponent
  deriving DecidableEq

def Number.text (n : Number) : List Char :=
  (if n.minus then ['-'] else []) ++ n.int.text ++ (n.frac.map fun ds => '.' :: ds.text).getD [] ++
    (n.exp.map Exponent.text).getD []

/-! ### Strings -/

/-- The characters that need no escape. -/
def isUnescaped (c : Char) : Bool := ' ' ≤ c && c ≠ '"' && c ≠ '\\'

inductive Short
  | quote | backslash | slash | backspace | formFeed | lineFeed | carriageReturn | tab
  deriving DecidableEq, Repr

def Short.char : Short → Char
  | .quote => '"'
  | .backslash => '\\'
  | .slash => '/'
  | .backspace => 'b'
  | .formFeed => 'f'
  | .lineFeed => 'n'
  | .carriageReturn => 'r'
  | .tab => 't'

inductive StrChar
  | unescaped (c : Char) (h : isUnescaped c = true)
  | short (e : Short)
  | unicode (a b c d : HexDigit)
  deriving DecidableEq

def StrChar.text : StrChar → List Char
  | .unescaped c _ => [c]
  | .short e => ['\\', e.char]
  | .unicode a b c d => ['\\', 'u', a.val, b.val, c.val, d.val]

/-- A string, by what is between its quotes. -/
abbrev Str := List StrChar

def Str.text (s : Str) : List Char := s.flatMap StrChar.text

/-- The bytes between the quotes. -/
def Str.raw (s : Str) : List UInt8 := s.text.flatMap String.utf8EncodeChar

def Str.marks (s : Str) (depth : Nat) : Marked :=
  ('"', (depth, true)) :: marked (depth, true) s.text ++ [('"', (depth, false))]

/-! ### Values -/

mutual

inductive Value
  | literal (l : Literal)
  | number (n : Number)
  | string (s : Str)
  | emptyArray (opening closing : Pad)
  | array (opening : Pad) (elements : Elements) (closing : Pad)
  | emptyObject (opening closing : Pad)
  | object (opening : Pad) (members : Members) (closing : Pad)

/-- The values of an array, separated by commas. -/
inductive Elements
  | last (value : Value)
  | more (value : Value) (comma : Pad) (rest : Elements)

/-- The members of an object, separated by commas. -/
inductive Members
  | last (key : Str) (colon : Pad) (value : Value)
  | more (key : Str) (colon : Pad) (value : Value) (comma : Pad) (rest : Members)

end

/-- A structural character, with the point that it changes to another. -/
def structural (c : Char) (pad : Pad) (p q : Point) : Marked :=
  marked p (Ws.text pad.before) ++ (c, q) :: marked q (Ws.text pad.after)

mutual

/-- The text of a value inside `depth` arrays and objects. -/
def Value.marks : Value → Nat → Marked
  | .literal l, depth => marked (depth, false) l.text
  | .number n, depth => marked (depth, false) n.text
  | .string s, depth => Str.marks s depth
  | .emptyArray opening closing, depth =>
    structural '[' opening (depth, false) (depth + 1, false) ++ structural ']' closing (depth + 1, false) (depth, false)
  | .array opening elements closing, depth =>
    structural '[' opening (depth, false) (depth + 1, false) ++ elements.marks (depth + 1) ++
      structural ']' closing (depth + 1, false) (depth, false)
  | .emptyObject opening closing, depth =>
    structural '\x7b' opening (depth, false) (depth + 1, false) ++
      structural '\x7d' closing (depth + 1, false) (depth, false)
  | .object opening members closing, depth =>
    structural '\x7b' opening (depth, false) (depth + 1, false) ++ members.marks (depth + 1) ++
      structural '\x7d' closing (depth + 1, false) (depth, false)

def Elements.marks : Elements → Nat → Marked
  | .last value, depth => value.marks depth
  | .more value comma rest, depth =>
    value.marks depth ++ structural ',' comma (depth, false) (depth, false) ++ rest.marks depth

def Members.marks : Members → Nat → Marked
  | .last key colon value, depth =>
    Str.marks key depth ++ structural ':' colon (depth, false) (depth, false) ++ value.marks depth
  | .more key colon value comma rest, depth =>
    Str.marks key depth ++ structural ':' colon (depth, false) (depth, false) ++ value.marks depth ++
      structural ',' comma (depth, false) (depth, false) ++ rest.marks depth

end

mutual

/-- The greatest number of arrays and objects that are open at once. -/
def Value.depth : Value → Nat
  | .literal _ | .number _ | .string _ => 0
  | .emptyArray _ _ | .emptyObject _ _ => 1
  | .array _ elements _ => elements.depth + 1
  | .object _ members _ => members.depth + 1

def Elements.depth : Elements → Nat
  | .last value => value.depth
  | .more value _ rest => max value.depth rest.depth

def Members.depth : Members → Nat
  | .last _ _ value => value.depth
  | .more _ _ value _ rest => max value.depth rest.depth

end

mutual

/-- The strings of a value, keys included. -/
def Value.strings : Value → List Str
  | .literal _ | .number _ | .emptyArray _ _ | .emptyObject _ _ => []
  | .string s => [s]
  | .array _ elements _ => elements.strings
  | .object _ members _ => members.strings

def Elements.strings : Elements → List Str
  | .last value => value.strings
  | .more value _ rest => value.strings ++ rest.strings

def Members.strings : Members → List Str
  | .last key _ value => key :: value.strings
  | .more key _ value _ rest => key :: value.strings ++ rest.strings

end

/-! ### Texts -/

/-- `JSON-text`. -/
structure Document where
  before : Ws
  value : Value
  after : Ws

def Document.marks (t : Document) : Marked :=
  marked (0, false) (Ws.text t.before) ++ t.value.marks 0 ++ marked (0, false) (Ws.text t.after)

/-- The bytes of a marked text; each has the point of its character. -/
def encoded (text : Marked) : List (UInt8 × Point) :=
  text.flatMap fun m => (String.utf8EncodeChar m.1).map fun b => (b, m.2)

def Document.bytes (t : Document) : List UInt8 := t.marks.flatMap fun m => String.utf8EncodeChar m.1

/-- The point of the derivation after the first `k` bytes. -/
def Document.pointAt (t : Document) (k : Nat) : Point := (((encoded t.marks).take k).getLast?.map Prod.snd).getD (0, false)

theorem encoded_append (xs ys : Marked) : encoded (xs ++ ys) = encoded xs ++ encoded ys := List.flatMap_append

theorem encoded_marked (p : Point) (text : List Char) :
    encoded (marked p text) = (text.flatMap String.utf8EncodeChar).map fun b => (b, p) := by
  simp [encoded, marked, List.flatMap_map, List.map_flatMap]

theorem map_fst_encoded (text : Marked) : (encoded text).map Prod.fst = text.flatMap fun m => String.utf8EncodeChar m.1 := by
  induction text with
  | nil => rfl
  | cons m text ih =>
    have hcons : encoded (m :: text) = (String.utf8EncodeChar m.1).map (fun b => (b, m.2)) ++ encoded text := rfl
    rw [hcons, List.map_append, ih]
    simp [Function.comp_def]

theorem Document.isValidUTF8 (t : Document) : t.bytes.toByteArray.IsValidUTF8 :=
  ⟨t.marks.map Prod.fst, by simp [Document.bytes, List.utf8Encode, List.flatMap_map]⟩

end JsonGrammar
