import Qeminga.Proto
import Mathlib.Algebra.Group.Int.Defs

/-!
# The text of a reply

What the text of a document is as far as the replies depend on it, and what the text of a reply is then: the value, and
after it the id.  The writer below writes documents that way.
-/

namespace Qeminga

namespace Proto

variable {serde : Serde} {text : Json → Bytes} {s : String}

/-- A string that is written as it is, between quotes. -/
def Plain (s : String) : Prop := ∀ c ∈ s.toList, 32 ≤ c.toNat ∧ c.toNat ≠ 34 ∧ c.toNat ≠ 92

instance : DecidablePred Plain := fun _ => List.decidableBAll _ _

/-- The range of `i64`. -/
def InI64 (n : Int) : Prop := -2 ^ 63 ≤ n ∧ n < 2 ^ 63

/-- What `serde_json::to_vec` writes is `text`, which is compact, one line and UTF-8. -/
structure Serde.Compact (serde : Serde) (text : Json → Bytes) : Prop where
  written : ∀ x, serde.toVec x = some (text x)
  object : ∀ entries, text (.object entries) = Utf8.encode "\x7b" ++
    (Utf8.encode ",").intercalate (entries.map fun e => text (.string e.1) ++ Utf8.encode ":" ++ text e.2) ++
    Utf8.encode "\x7d"
  plain : ∀ s, Plain s → text (.string s) = Utf8.encode ("\"" ++ s ++ "\"")
  integer : ∀ n, InI64 n → text (.number (.ofI64 n)) = Utf8.encode (toString n)
  oneLine : ∀ x, ∀ byte ∈ text x, byte ≠ Framing.newline ∧ byte ≠ Framing.sentinelByte

/-! ### Replies -/

/-- What a reply says, without its id. -/
def Response.body (text : Json → Bytes) : Response → Bytes
  | .success ret _ => Utf8.encode "\"return\":" ++ text ret
  | .error body _ =>
    Utf8.encode ("\"error\":\x7b\"class\":\"" ++ body.errorClass.asStr ++ "\",\"desc\":") ++ text (.string body.desc) ++
      Utf8.encode "\x7d"

def idText : Option Int → Bytes
  | none => []
  | some id => Utf8.encode (",\"id\":" ++ toString id)

/-- The text of a reply: an object whose last entry is the id, if there is one. -/
def Response.toText (text : Json → Bytes) (response : Response) : Bytes :=
  Utf8.encode "\x7b" ++ response.body text ++ idText response.id ++ Utf8.encode "\x7d"

/-- The line of a reply. -/
def Response.line (text : Json → Bytes) (response : Response) (sentinel : Bool) : Bytes :=
  (if sentinel then [Framing.sentinelByte] else []) ++ response.toText text ++ [Framing.newline]

/-- The text of an entry whose key is plain. -/
theorem Serde.Compact.entry (h : serde.Compact text) (hs : Plain s) (x : Json) :
    text (.string s) ++ Utf8.encode ":" ++ text x =
      Utf8.encode "\"" ++ (Utf8.encode s ++ (Utf8.encode "\":" ++ text x)) := by
  have hcolon : Utf8.encode "\":" = Utf8.encode "\"" ++ Utf8.encode ":" := by decide
  rw [h.plain s hs, Utf8.encode_append, Utf8.encode_append, hcolon]
  simp only [List.append_assoc]

/-- The text of an object whose first key is plain, with the id after it. -/
theorem Serde.Compact.object_id (h : serde.Compact text) (hs : Plain s) (x : Json) {id : Option Int}
    (hid : ∀ i, id = some i → InI64 i) :
    text (.object ((s, x) :: (id.map fun i => ("id", Json.number (.ofI64 i))).toList)) =
      Utf8.encode "\x7b" ++ (Utf8.encode "\"" ++ (Utf8.encode s ++ (Utf8.encode "\":" ++ text x))) ++ idText id ++
        Utf8.encode "\x7d" := by
  rw [h.object, ← h.entry hs]
  cases id with
  | none => simp [idText]
  | some i =>
    have hkey : Utf8.encode ",\"id\":" =
        Utf8.encode "," ++ (Utf8.encode "\"" ++ (Utf8.encode "id" ++ Utf8.encode "\":")) := by decide
    have hplain : Plain "id" := by decide
    simp only [Option.map_some, Option.toList_some, List.map_cons, List.map_nil]
    rw [h.entry hplain, h.integer i (hid i rfl)]
    simp only [idText, Utf8.encode_append, hkey]
    simp [List.intercalate]

/-- The text of the error of a reply. -/
theorem Serde.Compact.text_error (h : serde.Compact text) (body : ErrorBody) :
    text (.object [("class", .string body.errorClass.asStr), ("desc", .string body.desc)]) =
      Utf8.encode ("\x7b\"class\":\"" ++ body.errorClass.asStr ++ "\",\"desc\":") ++ text (.string body.desc) ++
        Utf8.encode "\x7d" := by
  have hopen : Utf8.encode "\x7b\"class\":\"" = Utf8.encode "\x7b" ++
      (Utf8.encode "\"" ++ (Utf8.encode "class" ++ (Utf8.encode "\":" ++ Utf8.encode "\""))) := by decide
  have hnext : Utf8.encode "\",\"desc\":" = Utf8.encode "\"" ++ (Utf8.encode "," ++
      (Utf8.encode "\"" ++ (Utf8.encode "desc" ++ Utf8.encode "\":"))) := by decide
  have hclass : Plain body.errorClass.asStr := by cases body.errorClass <;> decide
  rw [h.object]
  simp only [List.map_cons, List.map_nil]
  rw [h.entry (by decide), h.plain _ hclass, h.entry (by decide)]
  simp only [Utf8.encode_append, hopen, hnext]
  simp [List.intercalate]

theorem Serde.Compact.toJson_eq (h : serde.Compact text) {response : Response}
    (hid : ∀ id, response.id = some id → InI64 id) : serde.toJson response = response.toText text := by
  unfold Serde.toJson Response.toText
  rw [h.written, Option.getD_some]
  cases response with
  | success ret id =>
    have hkey : Utf8.encode "\"return\":" =
        Utf8.encode "\"" ++ (Utf8.encode "return" ++ Utf8.encode "\":") := by decide
    refine (h.object_id (by decide) ret hid).trans ?_
    simp only [Response.body, Response.id, hkey, List.append_assoc]
  | error body id =>
    have hkey : Utf8.encode "\"error\":\x7b\"class\":\"" =
        Utf8.encode "\"" ++ (Utf8.encode "error" ++ (Utf8.encode "\":" ++ Utf8.encode "\x7b\"class\":\"")) := by decide
    refine (h.object_id (by decide) _ hid).trans ?_
    rw [h.text_error]
    simp only [Response.body, Response.id, Utf8.encode_append, hkey, List.append_assoc]

/-- The text of a reply has no newline, and no sentinel. -/
theorem Serde.Compact.oneLine_toJson (h : serde.Compact text) (response : Response) :
    ∀ byte ∈ serde.toJson response, byte ≠ Framing.newline ∧ byte ≠ Framing.sentinelByte := by
  unfold Serde.toJson
  rw [h.written]
  exact h.oneLine _

/-- What is sent for a reply is its line. -/
theorem Serde.Compact.encode_eq (h : serde.Compact text) {response : Response}
    (hid : ∀ id, response.id = some id → InI64 id) (sentinel : Bool) :
    Framing.encode (serde.toJson response) sentinel = response.line text sentinel := by
  rw [Framing.encode, h.toJson_eq hid]
  rfl

/-- A sentinel is sent only where one is due, and then it comes first. -/
theorem Serde.Compact.sentinel_encode (h : serde.Compact text) (response : Response) (sentinel : Bool) :
    ((Framing.encode (serde.toJson response) sentinel).head? = some Framing.sentinelByte ↔ sentinel = true) ∧
      (Framing.sentinelByte ∈ Framing.encode (serde.toJson response) sentinel ↔ sentinel = true) := by
  have hnone : Framing.sentinelByte ∉ Framing.encode (serde.toJson response) false := by
    intro hmem
    rcases List.mem_append.1 hmem with hmem | hmem
    · exact (h.oneLine_toJson response _ (by simpa using hmem)).2 rfl
    · exact absurd (List.mem_singleton.1 hmem) (by decide)
  cases sentinel with
  | true => exact ⟨⟨fun _ => rfl, fun _ => rfl⟩, fun _ => rfl, fun _ => List.mem_cons_self ..⟩
  | false =>
    exact ⟨⟨fun hhead => absurd (List.mem_of_mem_head? hhead) hnone, by rintro ⟨⟩⟩, fun hmem => absurd hmem hnone,
      by rintro ⟨⟩⟩

/-! ### The ids of requests -/

theorem inI64_of_asI64 {n : Number} {i : Int} (h : n.asI64 = some i) : InI64 i := by
  cases n with
  | posInt n =>
    by_cases hlt : n.toNat < 2 ^ 63
    · rw [Number.asI64, if_pos hlt] at h
      obtain rfl := Option.some.inj h
      exact ⟨by omega, by exact_mod_cast hlt⟩
    · rw [Number.asI64, if_neg hlt] at h
      cases h
  | negInt n =>
    obtain rfl := Option.some.inj h
    exact ⟨n.le_toInt, n.toInt_lt⟩
  | float bits => cases h

theorem Visited.inI64_visit {v v' : Visited} {entry : String × Json} (h : v.visit entry = .ok v')
    (hv : ∀ id, v.id = some id → InI64 id) : ∀ id, v'.id = some id → InI64 id := by
  unfold Visited.visit at h
  split at h
  · split at h
    · cases h
    · split at h
      · obtain rfl := Except.ok.inj h
        exact hv
      · cases h
  · split at h
    · split at h
      · cases h
      · split at h
        · cases h
        · obtain rfl := Except.ok.inj h
          exact hv
    · split at h
      · split at h
        · cases h
        · split at h
          · next i hi =>
            obtain rfl := Except.ok.inj h
            intro id hid
            obtain rfl := Option.some.inj hid
            cases hvalue : entry.2.toValue with
            | number n =>
              rw [hvalue] at hi
              exact inI64_of_asI64 hi
            | _ =>
              rw [hvalue] at hi
              cases hi
          · cases h
      · cases h

theorem Visited.inI64_foldlM {entries : List (String × Json)} {v v' : Visited} (h : entries.foldlM Visited.visit v = .ok v')
    (hv : ∀ id, v.id = some id → InI64 id) : ∀ id, v'.id = some id → InI64 id := by
  induction entries generalizing v with
  | nil =>
    obtain rfl := Except.ok.inj h
    exact hv
  | cons entry entries ih =>
    rw [List.foldlM_cons] at h
    cases hvisit : v.visit entry with
    | error err =>
      rw [hvisit] at h
      cases h
    | ok v₁ =>
      rw [hvisit] at h
      exact ih h (Visited.inI64_visit hvisit hv)

theorem inI64_of_visitMap {entries : List (String × Json)} {req : Request} (h : visitMap entries = .ok req) :
    ∀ id, req.id = some id → InI64 id := by
  unfold visitMap at h
  cases hfold : entries.foldlM Visited.visit .start with
  | error err =>
    rw [hfold] at h
    cases h
  | ok v =>
    have hv := Visited.inI64_foldlM hfold (by rintro id ⟨⟩)
    rw [hfold] at h
    cases hmethod : v.method with
    | none => simp [hmethod, bind, Except.bind, throw, throwThe, MonadExceptOf.throw] at h
    | some method =>
      simp only [hmethod, bind, Except.bind, pure, Except.pure] at h
      obtain rfl := Except.ok.inj h
      exact hv

/-- The id of a request is an `i64`. -/
theorem inI64_of_parseRequest {bytes : Bytes} {req : Request} (h : parseRequest serde bytes = .ok req) :
    ∀ id, req.id = some id → InI64 id := by
  unfold parseRequest at h
  split at h
  · cases h
  · split at h
    · next hslice =>
      obtain rfl := Except.ok.inj h
      obtain ⟨document, -, hdocument⟩ := Option.bind_eq_some_iff.1 hslice
      cases document with
      | object entries =>
        replace hdocument : (visitMap entries).toOption = some _ := hdocument
        cases hvisit : visitMap entries with
        | error err =>
          rw [hvisit] at hdocument
          cases hdocument
        | ok req =>
          rw [hvisit] at hdocument
          obtain rfl := Option.some.inj hdocument
          exact inI64_of_visitMap hvisit
      | _ => cases hdocument
    · cases h

/-! ### A writer -/

/-- A digit of a hexadecimal number. -/
def hexDigit (n : Nat) : UInt8 := UInt8.ofNat (if n < 10 then 48 + n else 87 + n)

/-- A character of a string, escaped if it must be. -/
def escape (c : Char) : Bytes :=
  match c.toNat with
  | 8 => Utf8.encode "\\b"
  | 9 => Utf8.encode "\\t"
  | 10 => Utf8.encode "\\n"
  | 12 => Utf8.encode "\\f"
  | 13 => Utf8.encode "\\r"
  | 34 => Utf8.encode "\\\""
  | 92 => Utf8.encode "\\\\"
  | n => if n < 32 then Utf8.encode "\\u00" ++ [hexDigit (n / 16), hexDigit (n % 16)] else String.utf8EncodeChar c

def writeString (s : String) : Bytes := Utf8.encode "\"" ++ s.toList.flatMap escape ++ Utf8.encode "\""

/-- A float is written as the ones that are not finite are. -/
def writeNumber : Number → Bytes
  | .posInt n => Utf8.encode (toString n.toNat)
  | .negInt n => Utf8.encode (toString n.toInt)
  | .float _ => Utf8.encode "null"

mutual

def write : Json → Bytes
  | .null => Utf8.encode "null"
  | .bool b => Utf8.encode (toString b)
  | .number n => writeNumber n
  | .string s => writeString s
  | .array elements => Utf8.encode "[" ++ (Utf8.encode ",").intercalate (writeElements elements) ++ Utf8.encode "]"
  | .object entries =>
    Utf8.encode "\x7b" ++ (Utf8.encode ",").intercalate (writeEntries entries) ++ Utf8.encode "\x7d"

def writeElements : List Json → List Bytes
  | [] => []
  | x :: xs => write x :: writeElements xs

def writeEntries : List (String × Json) → List Bytes
  | [] => []
  | (key, x) :: entries => (writeString key ++ Utf8.encode ":" ++ write x) :: writeEntries entries

end

/-- What may stand within a line. -/
private def Clean (bytes : Bytes) : Prop := ∀ byte ∈ bytes, byte ≠ Framing.newline ∧ byte ≠ Framing.sentinelByte

private theorem Clean.append {bytes bytes' : Bytes} (h : Clean bytes) (h' : Clean bytes') : Clean (bytes ++ bytes') := by
  intro byte hbyte
  rcases List.mem_append.1 hbyte with hb | hb
  · exact h byte hb
  · exact h' byte hb

private theorem clean_encode (h : '\n' ∉ s.toList) : Clean (Utf8.encode s) := by
  intro byte hbyte
  refine ⟨?_, fun hsent => ?_⟩
  · rintro rfl
    obtain ⟨c, hc, hb⟩ := List.mem_flatMap.1 hbyte
    have hc10 : c.toNat = 10 := Utf8.toNat_eq_of_mem_encodeChar hb (by decide)
    obtain rfl : c = '\n' := Char.toNat_inj.1 hc10
    exact h hc
  · have hlt := Utf8.toNat_lt_of_mem_encode hbyte
    rw [hsent] at hlt
    exact absurd hlt (by decide)

private theorem clean_intercalate {parts : List Bytes} (h : ∀ part ∈ parts, Clean part) :
    Clean ((Utf8.encode ",").intercalate parts) := by
  induction parts with
  | nil => exact fun _ hbyte => absurd hbyte List.not_mem_nil
  | cons part parts ih =>
    obtain ⟨hpart, hparts⟩ := List.forall_mem_cons.1 h
    by_cases hnil : parts = []
    · rw [hnil, List.intercalate_singleton]
      exact hpart
    · rw [List.intercalate_cons_of_ne_nil hnil]
      exact (hpart.append (clean_encode (by decide))).append (ih hparts)

private theorem clean_repr (n : Nat) : Clean (Utf8.encode (toString n)) := by
  refine clean_encode fun hc => ?_
  have hdigit : '\n'.isDigit = true := by
    refine Nat.isDigit_of_mem_toDigits (b := 10) (n := n) (by decide) (by decide) ?_
    simpa [Nat.repr] using hc
  exact absurd hdigit (by decide)

private theorem clean_int (n : Int) : Clean (Utf8.encode (toString n)) := by
  cases n with
  | ofNat m => exact clean_repr m
  | negSucc m =>
    have hneg : toString (Int.negSucc m) = "-" ++ toString (m + 1) := rfl
    rw [hneg, Utf8.encode_append]
    exact (clean_encode (by decide)).append (clean_repr _)

private theorem clean_escape (c : Char) : Clean (escape c) := by
  have hhex : ∀ n < 16, hexDigit n ≠ Framing.newline ∧ hexDigit n ≠ Framing.sentinelByte := by decide
  have hlt : c.toNat < 32 → Clean (Utf8.encode "\\u00" ++ [hexDigit (c.toNat / 16), hexDigit (c.toNat % 16)]) := by
    intro hlt
    refine (clean_encode (by decide)).append fun byte hbyte => ?_
    rcases List.mem_cons.1 hbyte with rfl | hbyte
    · exact hhex _ (by omega)
    · obtain rfl := List.mem_singleton.1 hbyte
      exact hhex _ (by omega)
  have hchar : c.toNat ≠ 10 → Clean (String.utf8EncodeChar c) := by
    intro hne
    have hclean : Clean (Utf8.encode (String.ofList [c])) := by
      refine clean_encode fun hmem => hne ?_
      rw [String.toList_ofList, List.mem_singleton] at hmem
      rw [← hmem]
      rfl
    simpa [Utf8.encode] using hclean
  unfold escape
  split
  · exact clean_encode (by decide)
  · exact clean_encode (by decide)
  · exact clean_encode (by decide)
  · exact clean_encode (by decide)
  · exact clean_encode (by decide)
  · exact clean_encode (by decide)
  · exact clean_encode (by decide)
  · next hne _ _ _ _ =>
    split
    · next h => exact hlt h
    · exact hchar hne

private theorem clean_writeString (s : String) : Clean (writeString s) := by
  refine ((clean_encode (by decide)).append fun byte hbyte => ?_).append (clean_encode (by decide))
  obtain ⟨c, -, hc⟩ := List.mem_flatMap.1 hbyte
  exact clean_escape c byte hc

private theorem clean_writeNumber (n : Number) : Clean (writeNumber n) := by
  cases n with
  | posInt n => exact clean_repr n.toNat
  | negInt n => exact clean_int n.toInt
  | float bits => exact clean_encode (by decide)

mutual

private theorem clean_write : ∀ x : Json, Clean (write x)
  | .null => clean_encode (by decide)
  | .bool true => clean_encode (by decide)
  | .bool false => clean_encode (by decide)
  | .number n => clean_writeNumber n
  | .string s => clean_writeString s
  | .array elements =>
    ((clean_encode (by decide)).append (clean_intercalate (clean_writeElements elements))).append (clean_encode (by decide))
  | .object entries =>
    ((clean_encode (by decide)).append (clean_intercalate (clean_writeEntries entries))).append (clean_encode (by decide))

private theorem clean_writeElements : ∀ xs : List Json, ∀ part ∈ writeElements xs, Clean part
  | [] => fun _ h => absurd h List.not_mem_nil
  | x :: xs => List.forall_mem_cons.2 ⟨clean_write x, clean_writeElements xs⟩

private theorem clean_writeEntries : ∀ entries : List (String × Json), ∀ part ∈ writeEntries entries, Clean part
  | [] => fun _ h => absurd h List.not_mem_nil
  | (key, x) :: entries => List.forall_mem_cons.2
    ⟨((clean_writeString key).append (clean_encode (by decide))).append (clean_write x), clean_writeEntries entries⟩

end

private theorem writeEntries_eq (entries : List (String × Json)) :
    writeEntries entries = entries.map fun e => write (.string e.1) ++ Utf8.encode ":" ++ write e.2 := by
  induction entries with
  | nil => rfl
  | cons entry entries ih =>
    rw [List.map_cons, ← ih]
    rfl

private theorem writeString_plain (h : Plain s) : writeString s = Utf8.encode ("\"" ++ s ++ "\"") := by
  have hescape : ∀ c ∈ s.toList, escape c = String.utf8EncodeChar c := by
    intro c hc
    obtain ⟨hle, hquote, hbackslash⟩ := h c hc
    unfold escape
    split <;> first | omega | rw [if_neg (by omega)]
  rw [Utf8.encode_append, Utf8.encode_append, writeString, List.flatMap_congr hescape]
  rfl

private theorem writeNumber_ofI64 {n : Int} (h : InI64 n) : writeNumber (.ofI64 n) = Utf8.encode (toString n) := by
  unfold Number.ofI64
  by_cases hneg : n < 0
  · rw [if_pos hneg, writeNumber, Int64.toInt_ofInt_of_le h.1 h.2]
  · obtain ⟨m, rfl⟩ := Int.eq_ofNat_of_zero_le (Int.not_lt.1 hneg)
    have hm : (UInt64.ofNat m).toNat = m := by
      have hlt := h.2
      rw [UInt64.toNat_ofNat']
      omega
    rw [if_neg hneg, writeNumber, Int.toNat_natCast, hm]
    rfl

/-- The writer is compact, whatever the texts are read as. -/
theorem compact_write (tokenise : Bytes → Option Json) (error : Bytes → SerdeError) :
    Serde.Compact ⟨tokenise, error, fun x => some (write x)⟩ write where
  written := fun _ => rfl
  object := fun entries => by rw [write, writeEntries_eq]
  plain := fun _ h => writeString_plain h
  integer := fun _ h => writeNumber_ofI64 h
  oneLine := clean_write

end Proto

end Qeminga
