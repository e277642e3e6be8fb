import Mathlib.Data.List.DropRight
import Mathlib.Data.String.Basic
import Qeminga.Lib.Text

/-!
# The os-release file

`parse_os_release` of `handlers/osinfo.rs`, and the quoting rules of its values.
-/

namespace Qeminga

namespace OsInfo

/-- `char::is_whitespace`: the characters with the property `White_Space`. -/
def isWhitespace (c : Char) : Bool :=
  ('\t' ≤ c && c ≤ '\r') || c.toNat ∈ [0x20, 0x85, 0xa0, 0x1680, 0x2028, 0x2029, 0x202f, 0x205f, 0x3000] ||
    (0x2000 ≤ c.toNat && c.toNat ≤ 0x200a)

def trim (text : List Char) : List Char := (text.dropWhile isWhitespace).rdropWhile isWhitespace

/-- A line without the carriage return that ends it. -/
def stripCr (line : List Char) : List Char := if line.getLast? = some '\r' then line.dropLast else line

/-- `str::lines`: a last line without a line feed is as it stands, unless it is empty. -/
def lines (text : List Char) : List (List Char) :=
  let parts := text.splitOn '\n'
  parts.dropLast.map stripCr ++ (parts.getLast?.filter fun last => last ≠ []).toList

/-- The characters that a backslash escapes inside double quotes. -/
def escapable : List Char := ['$', '\x60', '"', '\\']

/-- The loop over a value in double quotes; the flag is `escaped`. -/
def doubleQuoted : Bool → List Char → List Char
  | false, [] => []
  | true, [] => ['\\']
  | true, c :: chars => (if c ∈ escapable then [c] else ['\\', c]) ++ doubleQuoted false chars
  | false, c :: chars =>
    if c = '\\' then doubleQuoted true chars
    else if c = '"' then []
    else c :: doubleQuoted false chars

/-- The loop over a value without quotes. -/
def unquoted : Bool → List Char → List Char
  | _, [] => []
  | true, c :: chars => c :: unquoted false chars
  | false, c :: chars => if c = '\\' then unquoted true chars else c :: unquoted false chars

def unquote : List Char → List Char
  | '\x27' :: chars => chars.takeWhile fun c => c ≠ '\x27'
  | '"' :: chars => doubleQuoted false chars
  | raw => unquoted false raw

/-- The characters of a key. -/
def isKeyChar (c : Char) : Bool := c.isAlphanum || c = '_'

/-- The assignment of a line, if it has one. -/
def assignment (line : List Char) : Option (String × String) := do
  let line := trim line
  if line.isEmpty || line.head? = some '#' then none
  let (key, raw) ← Text.splitOnce '=' line
  let key := trim key
  if key.isEmpty || !key.all isKeyChar then none
  return (String.ofList key, String.ofList (unquote (trim raw)))

/-- A later assignment overrides an earlier one. -/
def parseOsRelease (text : String) : Std.ExtTreeMap String String :=
  (lines text.toList).foldl (fun map line =>
    match assignment line with
    | some (key, value) => map.insert key value
    | none => map) ∅

end OsInfo

end Qeminga
