import Mathlib.Data.String.Basic
import Qeminga.Bounds
import Qeminga.Lib.Utf8

/-!
# Requests and replies

`proto.rs`: what a frame must be to be a request, and the replies.  The texts of JSON documents are read and written by
`serde_json`, which is a parameter here; what is read of a document, and which document a reply is, is not.
-/

namespace Qeminga

namespace Proto

/-- `serde_json::Number`; a float is given by its bits. -/
inductive Number
  | posInt (n : UInt64)
  | negInt (n : Int64)
  | float (bits : UInt64)
  deriving DecidableEq, Repr

def Number.asI64 : Number → Option Int
  | .posInt n => if n.toNat < 2 ^ 63 then some n.toNat else none
  | .negInt n => some n.toInt
  | .float _ => none

/-- `Number::from(i64)`. -/
def Number.ofI64 (n : Int) : Number := if n < 0 then .negInt (Int64.ofInt n) else .posInt (UInt64.ofNat n.toNat)

/-- A JSON document.  An object of the text has its entries in their order, with all duplicates. -/
inductive Json
  | null
  | bool (b : Bool)
  | number (n : Number)
  | string (s : String)
  | array (elements : List Json)
  | object (entries : List (String × Json))
  deriving Repr

mutual

/-- The `serde_json::Value` of a document: the entries of an object are sorted by key, and the last of a key stays. -/
def Json.toValue : Json → Json
  | .null => .null
  | .bool b => .bool b
  | .number n => .number n
  | .string s => .string s
  | .array elements => .array (toValues elements)
  | .object entries => .object (Std.ExtTreeMap.ofList (toEntries entries) compare).toList

def toValues : List Json → List Json
  | [] => []
  | x :: xs => x.toValue :: toValues xs

def toEntries : List (String × Json) → List (String × Json)
  | [] => []
  | (key, x) :: entries => (key, x.toValue) :: toEntries entries

end

def Json.isObject : Json → Bool
  | .object _ => true
  | _ => false

def Json.asI64 : Json → Option Int
  | .number n => n.asI64
  | _ => none

/-! ### Requests -/

structure Request where
  method : String
  arguments : Option Json
  id : Option Int
  deriving Repr

/-- Why a document is not a request. -/
inductive SchemaError
  | duplicateField (name : String)
  | unknownField (key : String)
  | missingField (name : String)
  | invalidType
  | custom (text : String)
  deriving DecidableEq, Repr

/-- The variables of `visit_map`. -/
structure Visited where
  method : Option String
  arguments : Option Json
  id : Option Int

def Visited.start : Visited := ⟨none, none, none⟩

/-- One round of the loop of `visit_map`. -/
def Visited.visit (v : Visited) (entry : String × Json) : Except SchemaError Visited :=
  if entry.1 = "execute" then
    if v.method.isSome then .error (.duplicateField "execute")
    else
      match entry.2 with
      | .string s => .ok { v with method := some s }
      | _ => .error .invalidType
  else if entry.1 = "arguments" then
    if v.arguments.isSome then .error (.duplicateField "arguments")
    else if !entry.2.toValue.isObject then .error (.custom "arguments must be an object")
    else .ok { v with arguments := some entry.2.toValue }
  else if entry.1 = "id" then
    if v.id.isSome then .error (.duplicateField "id")
    else
      match entry.2.toValue.asI64 with
      | some id => .ok { v with id := some id }
      | none => .error (.custom "id must be an integer")
  else .error (.unknownField entry.1)

def visitMap (entries : List (String × Json)) : Except SchemaError Request := do
  let v ← entries.foldlM Visited.visit .start
  match v.method with
  | some method => return ⟨method, v.arguments, v.id⟩
  | none => throw (.missingField "execute")

/-- `Request::deserialize`: only an object is accepted. -/
def Request.deserialize : Json → Except SchemaError Request
  | .object entries => visitMap entries
  | _ => .error .invalidType

/-! ### Errors and replies -/

inductive ErrorClass
  | commandNotFound | genericError
  deriving DecidableEq, Repr

def ErrorClass.asStr : ErrorClass → String
  | .commandNotFound => "CommandNotFound"
  | .genericError => "GenericError"

inductive Error
  | commandNotFound (method : String)
  | disabled (method : String)
  | frozen
  | rateLimited (commandClass : String)
  | invalidRequest (text : String)
  | invalidArguments (text : String)
  | internal (text : String)
  deriving DecidableEq, Repr

def Error.errorClass : Error → ErrorClass
  | .commandNotFound _ | .disabled _ => .commandNotFound
  | _ => .genericError

/-- The text of an error. -/
def Error.desc : Error → String
  | .commandNotFound method => "The command " ++ method ++ " has not been found"
  | .disabled method => "command " ++ method ++ " has been disabled"
  | .frozen => "filesystems are frozen; retry after thaw"
  | .rateLimited commandClass => "rate limit exceeded for " ++ commandClass
  | .invalidRequest text => "invalid request: " ++ text
  | .invalidArguments text => "invalid arguments: " ++ text
  | .internal text => text

structure ErrorBody where
  errorClass : ErrorClass
  desc : String
  deriving DecidableEq, Repr

def ErrorBody.of (err : Error) : ErrorBody := ⟨err.errorClass, err.desc⟩

inductive Response
  | success (ret : Json) (id : Option Int)
  | error (error : ErrorBody) (id : Option Int)
  deriving Repr

def Response.id : Response → Option Int
  | .success _ id => id
  | .error _ id => id

def Response.fromResult (id : Option Int) : Except Error Json → Response
  | .ok ret => .success ret id
  | .error err => .error (.of err) id

/-- The entries of a reply in their order; an id that is missing is not written. -/
def Response.entries : Response → List (String × Json)
  | .success ret id => ("return", ret) :: (id.map fun id => ("id", .number (.ofI64 id))).toList
  | .error body id =>
    ("error", .object [("class", .string body.errorClass.asStr), ("desc", .string body.desc)]) ::
      (id.map fun id => ("id", .number (.ofI64 id))).toList

/-! ### `serde_json` -/

/-- `serde_json::error::Category`. -/
inductive Category
  | io | syntaxError | data | eof
  deriving DecidableEq, Repr

structure SerdeError where
  category : Category
  line : Nat
  column : Nat
  deriving DecidableEq, Repr

/-- The text of an error, which quotes nothing of the input. -/
def describe (err : SerdeError) : String :=
  match err.category with
  | .io => "i/o error"
  | .syntaxError => "malformed JSON at line " ++ toString err.line ++ " column " ++ toString err.column
  | .eof => "unexpected end of input"
  | .data => "request does not match the schema at line " ++ toString err.line ++ " column " ++ toString err.column

/-- `serde_json`: the document of a text, its error if a text is not a request, and the text of a document. -/
structure Serde where
  tokenise : Bytes → Option Json
  error : Bytes → SerdeError
  toVec : Json → Option Bytes

/-- `Response::to_json`. -/
def Serde.toJson (serde : Serde) (response : Response) : Bytes :=
  (serde.toVec (.object response.entries)).getD
    (Utf8.encode
      "\x7b\"error\":\x7b\"class\":\"GenericError\",\"desc\":\"response serialisation failed\"\x7d\x7d")

/-- `serde_json::from_slice::<Request>`, without its error. -/
def Serde.fromSlice (serde : Serde) (bytes : Bytes) : Option Request :=
  (serde.tokenise bytes).bind fun document => (Request.deserialize document).toOption

def parseRequest (serde : Serde) (bytes : Bytes) : Except Error Request :=
  match Bounds.checkBounds bytes with
  | .error err => .error (.invalidRequest err.text)
  | .ok () =>
    match serde.fromSlice bytes with
    | some req => .ok req
    | none => .error (.invalidRequest (describe (serde.error bytes)))

end Proto

end Qeminga
