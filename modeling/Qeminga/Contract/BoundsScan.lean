import Qeminga.Bounds
import Qeminga.Lib.JsonGrammar

/-!
# The bounds scan and the JSON grammar

The scan follows the derivation of every JSON text: after each byte that it has not refused, it has counted as many open
arrays and objects as the derivation has there, and is in a string exactly when the derivation is.  So it accepts the
texts whose nesting and strings are within the bounds, and no others.
-/

namespace Qeminga

namespace Bounds

open JsonGrammar Scanner

/-- What a scan shows of a derivation. -/
def Scan.point (s : Scan) : Point := (s.depth, s.inString)

/-- Between the tokens, inside `depth` arrays and objects. -/
def Outside (depth : Nat) (s : Scan) : Prop := s.depth = depth ∧ s.inString = false ∧ s.escaped = false

/-- In a string after `n` bytes of it. -/
def Inside (depth n : Nat) (s : Scan) : Prop :=
  s.depth = depth ∧ s.inString = true ∧ s.escaped = false ∧ s.stringLen = n

/-- In a string after a backslash. -/
def Escaping (depth n : Nat) (s : Scan) : Prop :=
  s.depth = depth ∧ s.inString = true ∧ s.escaped = true ∧ s.stringLen = n

/-- A part of a text as the scan reads it. -/
abbrev Follows (P : Scan → Prop) (text : Marked) (Q : Scan → Prop) (ok : Prop) : Prop :=
  Reads Scan.step Scan.point P (encoded text) Q ok

variable {P Q R : Scan → Prop} {text text' : Marked} {ok ok' : Prop} {depth n : Nat}

theorem Follows.append (h : Follows P text Q ok) (h' : ok → Follows Q text' R ok') :
    Follows P (text ++ text') R (ok ∧ ok') := by
  unfold Follows
  rw [encoded_append]
  exact Reads.append h h'

/-! ### Bytes -/

theorem count_ok {s : Scan} (h : s.stringLen + 1 ≤ maxStringBytes) :
    s.count = .ok { s with stringLen := s.stringLen + 1 } := if_neg (by omega)

theorem count_error {s : Scan} (h : ¬ s.stringLen + 1 ≤ maxStringBytes) : s.count = .error .stringTooLong :=
  if_pos (by omega)

/-- A byte that means nothing outside a string. -/
def Insignificant (b : UInt8) : Prop :=
  b ≠ quote ∧ b ≠ openBracket ∧ b ≠ openBrace ∧ b ≠ closeBracket ∧ b ≠ closeBrace

theorem reads_insignificant {b : UInt8} (hb : Insignificant b) :
    Reads Scan.step Scan.point (Outside depth) [(b, (depth, false))] (Outside depth) True := by
  obtain ⟨h₁, h₂, h₃, h₄, h₅⟩ := hb
  refine .single (fun _ s hs => ⟨s, ?_, hs, ?_⟩) fun h => absurd trivial h
  · simp [Scan.step, hs.2.1, h₁, h₂, h₃, h₄, h₅]
  · simp [Scan.point, hs.1, hs.2.1]

theorem reads_open {b : UInt8} (hb : b = openBracket ∨ b = openBrace) :
    Reads Scan.step Scan.point (Outside depth) [(b, (depth + 1, false))] (Outside (depth + 1)) (depth + 1 ≤ maxDepth) := by
  have hq : b ≠ quote := by rcases hb with rfl | rfl <;> decide
  refine .single (fun h s hs => ⟨{ s with depth := s.depth + 1 }, ?_, ?_, ?_⟩) fun h s hs => ⟨.depthExceeded, ?_⟩
  · have hle : ¬ maxDepth < s.depth + 1 := by rw [hs.1]; omega
    simp [Scan.step, hs.2.1, hq, hb, hle]
  · exact ⟨by rw [hs.1], hs.2⟩
  · simp [Scan.point, hs.1, hs.2.1]
  · have hlt : maxDepth < s.depth + 1 := by rw [hs.1]; omega
    simp [Scan.step, hs.2.1, hq, hb, hlt]

theorem reads_close {b : UInt8} (hb : b = closeBracket ∨ b = closeBrace) :
    Reads Scan.step Scan.point (Outside (depth + 1)) [(b, (depth, false))] (Outside depth) True := by
  have hq : b ≠ quote ∧ b ≠ openBracket ∧ b ≠ openBrace := by rcases hb with rfl | rfl <;> decide
  refine .single (fun _ s hs => ⟨{ s with depth := s.depth - 1 }, ?_, ?_, ?_⟩) fun h => absurd trivial h
  · simp [Scan.step, hs.2.1, hq, hb]
  · exact ⟨by rw [hs.1]; rfl, hs.2⟩
  · simp [Scan.point, hs.1, hs.2.1]

theorem reads_openQuote :
    Reads Scan.step Scan.point (Outside depth) [(quote, (depth, true))] (Inside depth 0) True := by
  refine .single (fun _ s hs => ⟨{ s with inString := true, stringLen := 0 }, ?_, ?_, ?_⟩) fun h => absurd trivial h
  · simp [Scan.step, hs.2.1]
  · exact ⟨hs.1, rfl, hs.2.2, rfl⟩
  · simp [Scan.point, hs.1]

theorem reads_closeQuote :
    Reads Scan.step Scan.point (Inside depth n) [(quote, (depth, false))] (Outside depth) True := by
  refine .single (fun _ s hs => ⟨{ s with inString := false }, ?_, ?_, ?_⟩) fun h => absurd trivial h
  · have hne : quote ≠ backslash := by decide
    simp [Scan.step, hs.2.1, hs.2.2.1, hne]
  · exact ⟨hs.1, rfl, hs.2.2.1⟩
  · simp [Scan.point, hs.1]

/-- A byte of a string that is counted. -/
private theorem reads_counted {P : Scan → Prop} {Q : Nat → Scan → Prop} {b : UInt8} (f : Scan → Scan)
    (hstep : ∀ s, P s → s.step b = (f s).count) (hlen : ∀ s, P s → (f s).stringLen = n)
    (hpoint : ∀ s, P s → (f s).point = (depth, true))
    (hq : ∀ s, P s → Q (n + 1) { f s with stringLen := (f s).stringLen + 1 }) :
    Reads Scan.step Scan.point P [(b, (depth, true))] (Q (n + 1)) (n + 1 ≤ maxStringBytes) := by
  refine .single (fun h s hs => ?_) fun h s hs => ?_
  · refine ⟨{ f s with stringLen := (f s).stringLen + 1 }, ?_, hq s hs, hpoint s hs⟩
    rw [hstep s hs, count_ok (by rw [hlen s hs]; exact h)]
  · exact ⟨.stringTooLong, by rw [hstep s hs, count_error (by rw [hlen s hs]; exact h)]⟩

theorem reads_inside {b : UInt8} (hquote : b ≠ quote) (hback : b ≠ backslash) :
    Reads Scan.step Scan.point (Inside depth n) [(b, (depth, true))] (Inside depth (n + 1)) (n + 1 ≤ maxStringBytes) := by
  refine reads_counted id (fun s hs => ?_) (fun s hs => hs.2.2.2) (fun s hs => ?_) fun s hs => ?_
  · simp [Scan.step, hs.2.1, hs.2.2.1, hquote, hback]
  · simp [Scan.point, hs.1, hs.2.1]
  · exact ⟨hs.1, hs.2.1, hs.2.2.1, by simp [hs.2.2.2]⟩

theorem reads_backslash :
    Reads Scan.step Scan.point (Inside depth n) [(backslash, (depth, true))] (Escaping depth (n + 1))
      (n + 1 ≤ maxStringBytes) := by
  refine reads_counted (fun s => { s with escaped := true }) (fun s hs => ?_) (fun s hs => hs.2.2.2) (fun s hs => ?_)
    fun s hs => ?_
  · simp [Scan.step, hs.2.1, hs.2.2.1]
  · simp [Scan.point, hs.1, hs.2.1]
  · exact ⟨hs.1, hs.2.1, rfl, by simp [hs.2.2.2]⟩

/-- Whatever follows a backslash, quotes and backslashes included. -/
theorem reads_escaped (b : UInt8) :
    Reads Scan.step Scan.point (Escaping depth n) [(b, (depth, true))] (Inside depth (n + 1)) (n + 1 ≤ maxStringBytes) := by
  refine reads_counted (fun s => { s with escaped := false }) (fun s hs => ?_) (fun s hs => hs.2.2.2) (fun s hs => ?_)
    fun s hs => ?_
  · simp [Scan.step, hs.2.1, hs.2.2.1]
  · simp [Scan.point, hs.1, hs.2.1]
  · exact ⟨hs.1, hs.2.1, rfl, by simp [hs.2.2.2]⟩

/-! ### Strings -/

/-- The bytes of a string, with the point that they all have. -/
private def within (depth : Nat) (bytes : List UInt8) : List (UInt8 × Point) := bytes.map fun b => (b, (depth, true))

private theorem reads_within {bytes : List UInt8} (h : ∀ b ∈ bytes, b ≠ quote ∧ b ≠ backslash) (hn : n ≤ maxStringBytes) :
    Reads Scan.step Scan.point (Inside depth n) (within depth bytes) (Inside depth (n + bytes.length))
      (n + bytes.length ≤ maxStringBytes) := by
  induction bytes generalizing n with
  | nil => exact Reads.nil.iff (by simpa using hn)
  | cons b bytes ih =>
    obtain ⟨hb, hbytes⟩ := List.forall_mem_cons.1 h
    have hlength : n + (b :: bytes).length = n + 1 + bytes.length := by
      rw [List.length_cons]
      omega
    rw [hlength]
    exact ((reads_inside hb.1 hb.2).cons fun hn' => ih hbytes hn').iff (by omega)

/-- An escape: a backslash, the byte after it, and the digits that may follow. -/
private theorem reads_escape {bytes : List UInt8} (b : UInt8) (h : ∀ b ∈ bytes, b ≠ quote ∧ b ≠ backslash) :
    Reads Scan.step Scan.point (Inside depth n) (within depth (backslash :: b :: bytes))
      (Inside depth (n + (backslash :: b :: bytes).length)) (n + (backslash :: b :: bytes).length ≤ maxStringBytes) := by
  have hlength : n + (backslash :: b :: bytes).length = n + 1 + 1 + bytes.length := by
    simp only [List.length_cons]
    omega
  rw [hlength]
  exact (reads_backslash.cons fun _ => (reads_escaped b).cons fun hn' => reads_within h hn').iff (by omega)

/-- A character is encoded without the bytes of an ASCII character that it is not. -/
private theorem ne_of_mem_encodeChar {c a : Char} {b : UInt8} (hb : b ∈ String.utf8EncodeChar c) (hc : c ≠ a)
    (ha : a.toNat < 128) : b ≠ UInt8.ofNat a.toNat := by
  rintro rfl
  have hbyte : (UInt8.ofNat a.toNat).toNat = a.toNat := by
    rw [UInt8.toNat_ofNat']
    omega
  have hnat := Utf8.toNat_eq_of_mem_encodeChar hb (by omega)
  exact hc (Char.toNat_inj.1 (hnat.trans hbyte))

private theorem ne_special {c : Char} {b : UInt8} (hb : b ∈ String.utf8EncodeChar c) (hquote : c ≠ '"') (hback : c ≠ '\\') :
    b ≠ quote ∧ b ≠ backslash :=
  ⟨ne_of_mem_encodeChar hb hquote (by decide), ne_of_mem_encodeChar hb hback (by decide)⟩

private theorem hexDigit_ne (d : HexDigit) : d.val ≠ '"' ∧ d.val ≠ '\\' := by
  obtain ⟨c, hc⟩ := d
  constructor
  · rintro rfl
    exact absurd hc (by decide)
  · rintro rfl
    exact absurd hc (by decide)

private theorem reads_strChar (c : StrChar) (hn : n ≤ maxStringBytes) :
    Reads Scan.step Scan.point (Inside depth n) (within depth (c.text.flatMap String.utf8EncodeChar))
      (Inside depth (n + (c.text.flatMap String.utf8EncodeChar).length))
      (n + (c.text.flatMap String.utf8EncodeChar).length ≤ maxStringBytes) := by
  cases c with
  | unescaped c h =>
    simp only [isUnescaped, Bool.and_eq_true, decide_eq_true_eq] at h
    refine reads_within (fun b hb => ?_) hn
    simp only [StrChar.text, List.flatMap_cons, List.flatMap_nil, List.append_nil] at hb
    exact ne_special hb h.1.2 h.2
  | short e =>
    have hbyte : ∃ b, String.utf8EncodeChar e.char = [b] := by cases e <;> exact ⟨_, rfl⟩
    obtain ⟨b, hb⟩ := hbyte
    have htext : (StrChar.short e).text.flatMap String.utf8EncodeChar = [backslash, b] := by
      simp only [StrChar.text, List.flatMap_cons, List.flatMap_nil, hb]
      rfl
    rw [htext]
    exact reads_escape b (by simp)
  | unicode a b c d =>
    have htext : (StrChar.unicode a b c d).text.flatMap String.utf8EncodeChar =
        backslash :: 117 :: [a.val, b.val, c.val, d.val].flatMap String.utf8EncodeChar := by
      simp only [StrChar.text, List.flatMap_cons]
      rfl
    rw [htext]
    refine reads_escape 117 fun x hx => ?_
    obtain ⟨y, hy, hx⟩ := List.mem_flatMap.1 hx
    obtain ⟨digit, rfl⟩ : ∃ digit : HexDigit, digit.val = y := by
      simp only [List.mem_cons, List.not_mem_nil, or_false] at hy
      rcases hy with rfl | rfl | rfl | rfl
      · exact ⟨a, rfl⟩
      · exact ⟨b, rfl⟩
      · exact ⟨c, rfl⟩
      · exact ⟨d, rfl⟩
    exact ne_special hx (hexDigit_ne digit).1 (hexDigit_ne digit).2

private theorem reads_raw (s : Str) (hn : n ≤ maxStringBytes) :
    Reads Scan.step Scan.point (Inside depth n) (within depth s.raw) (Inside depth (n + s.raw.length))
      (n + s.raw.length ≤ maxStringBytes) := by
  induction s generalizing n with
  | nil => exact Reads.nil.iff (by simpa [Str.raw, Str.text] using hn)
  | cons c s ih =>
    have hraw : Str.raw (c :: s) = c.text.flatMap String.utf8EncodeChar ++ Str.raw s := by
      simp [Str.raw, Str.text]
    have hlength : n + (Str.raw (c :: s)).length =
        n + (c.text.flatMap String.utf8EncodeChar).length + (Str.raw s).length := by
      rw [hraw, List.length_append]
      omega
    rw [hlength, hraw, within, List.map_append]
    exact ((reads_strChar c hn).append fun hn' => ih hn').iff (by omega)

theorem follows_str (s : Str) :
    Follows (Outside depth) (s.marks depth) (Outside depth) (s.raw.length ≤ maxStringBytes) := by
  have hmarks : encoded (s.marks depth) = (quote, (depth, true)) :: (within depth s.raw ++ [(quote, (depth, false))]) := by
    rw [Str.marks, encoded_append, ← List.singleton_append, encoded_append, encoded_marked]
    rfl
  unfold Follows
  rw [hmarks]
  refine (reads_openQuote.cons fun _ => (reads_raw s (Nat.zero_le _)).append fun _ => reads_closeQuote).iff ?_
  simp

/-! ### Tokens -/

/-- The characters that mean something outside a string. -/
def significant : List Char := ['"', '[', ']', '\x7b', '\x7d']

theorem follows_marked {text : List Char} (h : ∀ c ∈ text, c ∉ significant) :
    Follows (Outside depth) (marked (depth, false) text) (Outside depth) True := by
  unfold Follows
  rw [encoded_marked]
  refine .forall fun x hx => ?_
  obtain ⟨b, hb, rfl⟩ := List.mem_map.1 hx
  obtain ⟨c, hc, hb⟩ := List.mem_flatMap.1 hb
  have hsig := h c hc
  simp only [significant, List.mem_cons, List.not_mem_nil, or_false, not_or] at hsig
  obtain ⟨h₁, h₂, h₃, h₄, h₅⟩ := hsig
  exact reads_insignificant ⟨ne_of_mem_encodeChar hb h₁ (by decide), ne_of_mem_encodeChar hb h₂ (by decide),
    ne_of_mem_encodeChar hb h₄ (by decide), ne_of_mem_encodeChar hb h₃ (by decide), ne_of_mem_encodeChar hb h₅ (by decide)⟩

theorem follows_ws (ws : Ws) : Follows (Outside depth) (marked (depth, false) (Ws.text ws)) (Outside depth) True := by
  refine follows_marked fun c hc => ?_
  obtain ⟨b, -, rfl⟩ := List.mem_map.1 hc
  cases b <;> decide

/-- A structural character whose only byte is read from `Outside m` to `Outside n`. -/
private theorem follows_structural {c : Char} {b : UInt8} {m n : Nat} {pad : Pad} (hb : String.utf8EncodeChar c = [b])
    (h : Reads Scan.step Scan.point (Outside m) [(b, (n, false))] (Outside n) ok) :
    Follows (Outside m) (structural c pad (m, false) (n, false)) (Outside n) ok := by
  have hc : Follows (Outside m) [(c, (n, false))] (Outside n) ok := by
    have hencoded : encoded [(c, (n, false))] = [(b, (n, false))] := by
      simp [encoded, hb]
    unfold Follows
    rw [hencoded]
    exact h
  rw [structural, ← List.singleton_append]
  refine Reads.iff (Follows.append (follows_ws _) fun _ => hc.append fun _ => follows_ws _) ?_
  simp

theorem follows_open {c : Char} (pad : Pad) (hc : c = '[' ∨ c = '\x7b') :
    Follows (Outside depth) (structural c pad (depth, false) (depth + 1, false)) (Outside (depth + 1))
      (depth + 1 ≤ maxDepth) := by
  rcases hc with rfl | rfl
  · exact follows_structural rfl (reads_open (.inl rfl))
  · exact follows_structural rfl (reads_open (.inr rfl))

theorem follows_close {c : Char} (pad : Pad) (hc : c = ']' ∨ c = '\x7d') :
    Follows (Outside (depth + 1)) (structural c pad (depth + 1, false) (depth, false)) (Outside depth) True := by
  rcases hc with rfl | rfl
  · exact follows_structural rfl (reads_close (.inl rfl))
  · exact follows_structural rfl (reads_close (.inr rfl))

theorem follows_separator {c : Char} (pad : Pad) (hc : c = ',' ∨ c = ':') :
    Follows (Outside depth) (structural c pad (depth, false) (depth, false)) (Outside depth) True := by
  rcases hc with rfl | rfl
  · exact follows_structural rfl (reads_insignificant (by unfold Insignificant; decide))
  · exact follows_structural rfl (reads_insignificant (by unfold Insignificant; decide))

private theorem digit_notMem (d : Digit) : d.val ∉ significant := by
  obtain ⟨c, hc⟩ := d
  intro hs
  simp only [significant, List.mem_cons, List.not_mem_nil, or_false] at hs
  rcases hs with rfl | rfl | rfl | rfl | rfl <;> exact absurd hc (by decide)

private theorem digits_notMem (ds : Digits) : ∀ c ∈ ds.text, c ∉ significant := by
  intro c hc
  rcases List.mem_cons.1 hc with rfl | hc
  · exact digit_notMem _
  · obtain ⟨d, -, rfl⟩ := List.mem_map.1 hc
    exact digit_notMem d

private theorem intPart_notMem (i : IntPart) : ∀ c ∈ i.text, c ∉ significant := by
  intro c hc
  cases i with
  | zero =>
    obtain rfl := List.mem_singleton.1 hc
    decide
  | nonzero first rest =>
    rcases List.mem_cons.1 hc with rfl | hc
    · exact digit_notMem ⟨first.val, List.mem_of_mem_tail first.property⟩
    · obtain ⟨d, -, rfl⟩ := List.mem_map.1 hc
      exact digit_notMem d

private theorem exponent_notMem (e : Exponent) : ∀ c ∈ e.text, c ∉ significant := by
  intro c hc
  simp only [Exponent.text, List.cons_append, List.mem_cons, List.mem_append, Option.mem_toList, Option.map_eq_some_iff] at hc
  rcases hc with rfl | ⟨sign, -, rfl⟩ | hc
  · split <;> decide
  · cases sign <;> decide
  · exact digits_notMem _ c hc

theorem number_notMem (n : Number) : ∀ c ∈ n.text, c ∉ significant := by
  intro c hc
  obtain ⟨minus, int, frac, exp⟩ := n
  simp only [Number.text, List.mem_append] at hc
  rcases hc with ((hc | hc) | hc) | hc
  · split at hc
    · obtain rfl := List.mem_singleton.1 hc
      decide
    · exact absurd hc List.not_mem_nil
  · exact intPart_notMem _ c hc
  · cases frac with
    | none => exact absurd hc List.not_mem_nil
    | some ds =>
      rcases List.mem_cons.1 hc with rfl | hc
      · decide
      · exact digits_notMem _ c hc
  · cases exp with
    | none => exact absurd hc List.not_mem_nil
    | some e => exact exponent_notMem e c hc

theorem literal_notMem (l : Literal) : ∀ c ∈ l.text, c ∉ significant := by
  cases l <;> simp [Literal.text, significant]

/-! ### Values -/

/-- The strings are within their bound. -/
def StringsFit (strings : List Str) : Prop := ∀ s ∈ strings, s.raw.length ≤ maxStringBytes

mutual

/-- The scan of a value inside `depth` arrays and objects. -/
theorem follows_value (v : Value) (depth : Nat) (h : depth ≤ maxDepth) :
    Follows (Outside depth) (v.marks depth) (Outside depth) (depth + v.depth ≤ maxDepth ∧ StringsFit v.strings) := by
  cases v with
  | literal l =>
    rw [Value.marks]
    refine (follows_marked (literal_notMem l)).iff ?_
    simp [Value.depth, Value.strings, StringsFit, h]
  | number n =>
    rw [Value.marks]
    refine (follows_marked (number_notMem n)).iff ?_
    simp [Value.depth, Value.strings, StringsFit, h]
  | string s =>
    rw [Value.marks]
    refine (follows_str s).iff ?_
    simp [Value.depth, Value.strings, StringsFit, h]
  | emptyArray opening closing =>
    rw [Value.marks]
    refine Reads.iff (Follows.append (follows_open opening (.inl rfl)) fun _ => follows_close closing (.inl rfl)) ?_
    simp [Value.depth, Value.strings, StringsFit]
  | array opening elements closing =>
    rw [Value.marks]
    refine Reads.iff (Follows.append (Follows.append (follows_open opening (.inl rfl)) fun hd =>
      follows_elements elements (depth + 1) hd) fun _ => follows_close closing (.inl rfl)) ?_
    simp only [Value.depth, Value.strings]
    constructor
    · rintro ⟨⟨-, hd, hs⟩, -⟩
      exact ⟨by omega, hs⟩
    · rintro ⟨hd, hs⟩
      exact ⟨⟨by omega, by omega, hs⟩, trivial⟩
  | emptyObject opening closing =>
    rw [Value.marks]
    refine Reads.iff (Follows.append (follows_open opening (.inr rfl)) fun _ => follows_close closing (.inr rfl)) ?_
    simp [Value.depth, Value.strings, StringsFit]
  | object opening members closing =>
    rw [Value.marks]
    refine Reads.iff (Follows.append (Follows.append (follows_open opening (.inr rfl)) fun hd =>
      follows_members members (depth + 1) hd) fun _ => follows_close closing (.inr rfl)) ?_
    simp only [Value.depth, Value.strings]
    constructor
    · rintro ⟨⟨-, hd, hs⟩, -⟩
      exact ⟨by omega, hs⟩
    · rintro ⟨hd, hs⟩
      exact ⟨⟨by omega, by omega, hs⟩, trivial⟩

theorem follows_elements (es : Elements) (depth : Nat) (h : depth ≤ maxDepth) :
    Follows (Outside depth) (es.marks depth) (Outside depth) (depth + es.depth ≤ maxDepth ∧ StringsFit es.strings) := by
  cases es with
  | last value =>
    rw [Elements.marks, Elements.depth, Elements.strings]
    exact follows_value value depth h
  | more value comma rest =>
    rw [Elements.marks]
    refine Reads.iff (Follows.append (Follows.append (follows_value value depth h) fun _ =>
      follows_separator comma (.inl rfl)) fun _ => follows_elements rest depth h) ?_
    simp only [Elements.depth, Elements.strings, StringsFit, List.forall_mem_append]
    constructor
    · rintro ⟨⟨⟨hv, hvs⟩, -⟩, hr, hrs⟩
      exact ⟨by omega, hvs, hrs⟩
    · rintro ⟨hd, hvs, hrs⟩
      exact ⟨⟨⟨by omega, hvs⟩, trivial⟩, by omega, hrs⟩

theorem follows_members (ms : Members) (depth : Nat) (h : depth ≤ maxDepth) :
    Follows (Outside depth) (ms.marks depth) (Outside depth) (depth + ms.depth ≤ maxDepth ∧ StringsFit ms.strings) := by
  cases ms with
  | last key colon value =>
    rw [Members.marks]
    refine Reads.iff (Follows.append (Follows.append (follows_str key) fun _ => follows_separator colon (.inr rfl)) fun _ =>
      follows_value value depth h) ?_
    simp only [Members.depth, Members.strings, StringsFit, List.forall_mem_cons]
    tauto
  | more key colon value comma rest =>
    rw [Members.marks]
    refine Reads.iff (Follows.append (Follows.append (Follows.append (Follows.append (follows_str key) fun _ =>
      follows_separator colon (.inr rfl)) fun _ => follows_value value depth h) fun _ =>
        follows_separator comma (.inl rfl)) fun _ => follows_members rest depth h) ?_
    simp only [Members.depth, Members.strings, StringsFit, List.cons_append, List.forall_mem_cons, List.forall_mem_append]
    constructor
    · rintro ⟨⟨⟨⟨hk, -⟩, hv, hvs⟩, -⟩, hr, hrs⟩
      exact ⟨by omega, hk, hvs, hrs⟩
    · rintro ⟨hd, hk, hvs, hrs⟩
      exact ⟨⟨⟨⟨hk, trivial⟩, by omega, hvs⟩, trivial⟩, by omega, hrs⟩

end

theorem follows_document (t : Document) :
    Follows (Outside 0) t.marks (Outside 0) (t.value.depth ≤ maxDepth ∧ StringsFit t.value.strings) := by
  rw [Document.marks]
  refine Reads.iff (Follows.append (Follows.append (follows_ws t.before) fun _ =>
    follows_value t.value 0 (Nat.zero_le _)) fun _ => follows_ws t.after) ?_
  simp

theorem outside_start : Outside 0 .start := ⟨rfl, rfl, rfl⟩

/-- A JSON text is accepted exactly when at most 32 of its arrays and objects are open at once and no string has more than
4096 bytes between its quotes; and as far as the scan has got, it agrees with the derivation. -/
theorem bounds_scan (t : Document) :
    (checkBounds t.bytes = .ok () ↔ t.value.depth ≤ 32 ∧ ∀ s ∈ t.value.strings, s.raw.length ≤ 4096) ∧
    ∀ (k : Nat) (s : Scan), scan (t.bytes.take k) = .ok s → (s.depth, s.inString) = t.pointAt k := by
  have hreads := follows_document t
  have hbytes : (encoded t.marks).map Prod.fst = t.bytes := map_fst_encoded t.marks
  refine ⟨?_, fun k s hs => ?_⟩
  · have hvalid : t.bytes.toByteArray.validateUTF8 = true := ByteArray.validateUTF8_eq_true_iff.2 t.isValidUTF8
    have hcheck : checkBounds t.bytes = (scan t.bytes).map fun _ => () := by simp [checkBounds, hvalid]
    rw [hcheck, scan, ← hbytes]
    constructor
    · intro hok
      cases hrun : run Scan.step ((encoded t.marks).map Prod.fst) .start with
      | error e =>
        rw [hrun] at hok
        cases hok
      | ok s => exact (hreads.of_run_ok outside_start hrun).1
    · intro hfits
      obtain ⟨s, hs, -⟩ := hreads.accepts hfits .start outside_start
      rw [hs]
      rfl
  · rw [scan, ← hbytes] at hs
    exact hreads.shows_take outside_start hs

end Bounds

end Qeminga
