import Qeminga.OsInfo

/-!
# The os-release round trip

A file of assignments in quotes, with comments, blank lines and other lines between them, is read back as it was written:
each key has the value of its last assignment, whatever the values hold and whatever follows a closing quote.
-/

namespace Qeminga

namespace OsInfo

/-! ### Trimming -/

theorem rdropWhile_append_cons {p : Char → Bool} {c : Char} (h : p c = false) (xs ys : List Char) :
    (xs ++ c :: ys).rdropWhile p = xs ++ c :: ys.rdropWhile p := by
  induction ys using List.reverseRecOn with
  | nil =>
    rw [List.rdropWhile_nil]
    exact List.rdropWhile_concat_neg _ _ _ (by simp [h])
  | append_singleton ys y ih =>
    have hassoc : xs ++ c :: (ys ++ [y]) = xs ++ c :: ys ++ [y] := by simp
    rw [hassoc]
    by_cases hy : p y = true
    · rw [List.rdropWhile_concat_pos _ _ _ hy, List.rdropWhile_concat_pos _ _ _ hy, ih]
    · rw [List.rdropWhile_concat_neg _ _ _ hy, List.rdropWhile_concat_neg _ _ _ hy, ← hassoc]

/-- A line that begins and has another character that is no white space keeps all up to it. -/
theorem trim_append {first c : Char} (hfirst : isWhitespace first = false) (hc : isWhitespace c = false) (xs ys : List Char) :
    trim (first :: xs ++ c :: ys) = first :: xs ++ c :: ys.rdropWhile isWhitespace := by
  unfold trim
  rw [List.cons_append, List.dropWhile_cons_of_neg (by simp [hfirst]), ← List.cons_append, rdropWhile_append_cons hc]

theorem trim_eq_self {text : List Char} (h : ∀ c ∈ text, isWhitespace c = false) : trim text = text := by
  have hdrop : text.dropWhile isWhitespace = text := by
    cases text with
    | nil => rfl
    | cons c text => exact List.dropWhile_cons_of_neg (by simp [h c List.mem_cons_self])
  unfold trim
  rw [hdrop, List.rdropWhile_eq_self_iff]
  intro hne
  simp [h _ (List.getLast_mem hne)]

theorem trim_eq_nil {text : List Char} (h : ∀ c ∈ text, isWhitespace c = true) : trim text = [] := by
  unfold trim
  rw [List.rdropWhile_eq_nil_iff]
  exact fun c hc => h c (List.dropWhile_subset _ hc)

theorem mem_of_mem_trim {text : List Char} {c : Char} (h : c ∈ trim text) : c ∈ text :=
  List.dropWhile_subset _ ((List.rdropWhile_prefix _ _).subset h)

/-- The carriage return of a line end is trimmed anyway. -/
theorem trim_stripCr (line : List Char) : trim (stripCr line) = trim line := by
  unfold stripCr
  split
  · next hlast =>
    obtain ⟨init, rfl⟩ := List.getLast?_eq_some_iff.1 hlast
    rw [List.dropLast_concat]
    unfold trim
    rw [List.dropWhile_append]
    split
    · next hnil =>
      rw [List.isEmpty_iff.1 hnil]
      rfl
    · rw [List.rdropWhile_concat_pos _ _ _ (by decide)]
  · rfl

/-! ### Values -/

/-- A value as it stands between double quotes. -/
def escape (value : List Char) : List Char := value.flatMap fun c => if c ∈ escapable then ['\\', c] else [c]

theorem doubleQuoted_escape (value tail : List Char) : doubleQuoted false (escape value ++ '"' :: tail) = value := by
  induction value with
  | nil => simp [escape, doubleQuoted]
  | cons c value ih =>
    have hcons : escape (c :: value) = (if c ∈ escapable then ['\\', c] else [c]) ++ escape value := rfl
    rw [hcons]
    by_cases hc : c ∈ escapable
    · simp [hc, doubleQuoted, ih]
    · have hne : c ≠ '\\' ∧ c ≠ '"' := by
        constructor
        · rintro rfl
          exact hc (by decide)
        · rintro rfl
          exact hc (by decide)
      simp [hc, doubleQuoted, hne.1, hne.2, ih]

theorem takeWhile_single {value : List Char} (h : '\x27' ∉ value) (tail : List Char) :
    (value ++ '\x27' :: tail).takeWhile (fun c => c ≠ '\x27') = value := by
  have hvalue : ∀ c ∈ value, decide (c ≠ '\x27') = true := by
    intro c hc
    refine decide_eq_true ?_
    rintro rfl
    exact h hc
  rw [List.takeWhile_append_of_pos hvalue]
  simp

theorem notMem_escape {c : Char} {value : List Char} (hc : c ≠ '\\') (h : c ∉ value) : c ∉ escape value := by
  intro hmem
  obtain ⟨x, hx, hmem⟩ := List.mem_flatMap.1 hmem
  split at hmem
  · rcases List.mem_cons.1 hmem with rfl | hmem
    · exact hc rfl
    · exact h (List.mem_singleton.1 hmem ▸ hx)
  · exact h (List.mem_singleton.1 hmem ▸ hx)

/-! ### Lines -/

/-- A key of an assignment. -/
abbrev Key := { key : List Char // key ≠ [] ∧ ∀ c ∈ key, isKeyChar c = true }

/-- Characters without a line break. -/
abbrev InLine := { text : List Char // '\n' ∉ text }

/-- How a value is quoted. -/
inductive Quoting (value : List Char)
  | double
  | single (h : '\x27' ∉ value)

/-- The lines of a file. -/
inductive Line
  | blank (text : InLine) (h : ∀ c ∈ text.val, isWhitespace c = true)
  | comment (indent text : InLine) (h : ∀ c ∈ indent.val, isWhitespace c = true)
  | other (text : InLine) (h : '=' ∉ text.val)
  | assign (key : Key) (value : InLine) (quoting : Quoting value.val) (tail : InLine)

def Line.text : Line → List Char
  | .blank text _ => text.val
  | .comment indent text _ => indent.val ++ '#' :: text.val
  | .other text _ => text.val
  | .assign key value .double tail => key.val ++ '=' :: '"' :: (escape value.val ++ '"' :: tail.val)
  | .assign key value (.single _) tail => key.val ++ '=' :: '\x27' :: (value.val ++ '\x27' :: tail.val)

/-- What the line assigns. -/
def Line.assigns : Line → Option (String × String)
  | .assign key value _ _ => some (String.ofList key.val, String.ofList value.val)
  | _ => none

/-- The line without what follows its closing quote. -/
def Line.bare : Line → Line
  | .assign key value quoting _ => .assign key value quoting ⟨[], List.not_mem_nil⟩
  | line => line

/-- The file of the lines. -/
def render (lines : List Line) : String := String.ofList (['\n'].intercalate (lines.map Line.text))

/-- A key has no white space, no equals sign, no hash and no line break. -/
theorem isKeyChar_spec {c : Char} (h : isKeyChar c = true) :
    isWhitespace c = false ∧ c ≠ '=' ∧ c ≠ '#' ∧ c ≠ '\n' := by
  have hrange : (48 ≤ c.toNat ∧ c.toNat ≤ 57) ∨ (65 ≤ c.toNat ∧ c.toNat ≤ 90) ∨ (97 ≤ c.toNat ∧ c.toNat ≤ 122) ∨
      c.toNat = 95 := by
    have hbetween : ∀ lo hi : UInt32, (decide (lo ≤ c.val) && decide (c.val ≤ hi)) = true →
        lo.toNat ≤ c.toNat ∧ c.toNat ≤ hi.toNat :=
      fun lo hi h => (Bool.and_eq_true_iff.1 h).imp of_decide_eq_true of_decide_eq_true
    rcases Bool.or_eq_true_iff.1 h with h | h
    · rcases Bool.or_eq_true_iff.1 h with h | h
      · rcases Bool.or_eq_true_iff.1 h with h | h
        · exact .inr (.inl (of_decide_eq_true h))
        · exact .inr (.inr (.inl (hbetween 97 122 h)))
      · exact .inl (hbetween 48 57 h)
    · exact .inr (.inr (.inr (congrArg Char.toNat (of_decide_eq_true h))))
  have hne : ∀ d : Char, d.toNat < 48 ∨ d.toNat = 61 → c ≠ d := by
    rintro d hd rfl
    omega
  refine ⟨?_, hne '=' (.inr rfl), hne '#' (.inl (by decide)), hne '\n' (.inl (by decide))⟩
  unfold isWhitespace
  have htab : ¬ ('\t' ≤ c ∧ c ≤ '\r') := by
    rintro ⟨-, hc⟩
    have hc' : c.toNat ≤ 13 := hc
    omega
  simp only [List.mem_cons, List.not_mem_nil, or_false, Bool.or_eq_false_iff, Bool.and_eq_false_iff, decide_eq_false_iff_not]
  refine ⟨⟨?_, by omega⟩, by omega⟩
  exact not_and_or.1 htab

/-- The assignment of a quoted value; `q` is the quote. -/
private theorem assignment_quoted {q : Char} (hq : isWhitespace q = false) (key : Key) (body tail : List Char) :
    ∃ rest, assignment (key.val ++ '=' :: q :: (body ++ q :: tail)) =
      some (String.ofList key.val, String.ofList (unquote (q :: (body ++ q :: rest)))) := by
  obtain ⟨key, hne, hkey⟩ := key
  cases key with
  | nil => exact absurd rfl hne
  | cons first key =>
    obtain ⟨hfirst, -, hhash, -⟩ := isKeyChar_spec (hkey first List.mem_cons_self)
    have hline : trim (first :: key ++ '=' :: q :: (body ++ q :: tail)) =
        first :: key ++ '=' :: q :: (body ++ q :: tail.rdropWhile isWhitespace) := by
      have htrim := trim_append hfirst hq (key ++ '=' :: q :: body) tail
      simpa using htrim
    have hraw : trim (q :: (body ++ q :: tail.rdropWhile isWhitespace)) =
        q :: (body ++ q :: (tail.rdropWhile isWhitespace).rdropWhile isWhitespace) := by
      have htrim := trim_append hq hq body (tail.rdropWhile isWhitespace)
      simpa using htrim
    have hequals : '=' ∉ first :: key := fun hmem => (isKeyChar_spec (hkey '=' hmem)).2.1 rfl
    have hall : (first :: key).all isKeyChar = true := List.all_eq_true.2 hkey
    have hself : trim (first :: key) = first :: key := trim_eq_self fun c hc => (isKeyChar_spec (hkey c hc)).1
    refine ⟨(tail.rdropWhile isWhitespace).rdropWhile isWhitespace, ?_⟩
    have hhead : (first :: key ++ '=' :: q :: (body ++ q :: tail.rdropWhile isWhitespace)).head? ≠ some '#' :=
      fun h => hhash (Option.some.inj h)
    unfold assignment
    simp only [hline, Text.splitOnce_append_cons hequals, Option.bind_eq_bind, Option.bind_some]
    rw [decide_eq_false hhead, hself, hraw, hall]
    rfl

theorem assignment_text (line : Line) : assignment line.text = line.assigns := by
  cases line with
  | blank text h =>
    unfold assignment
    simp only [Line.text, trim_eq_nil h]
    rfl
  | comment indent text h =>
    have htrim : trim (indent.val ++ '#' :: text.val) = '#' :: text.val.rdropWhile isWhitespace := by
      have hhash : isWhitespace '#' = false := by decide
      unfold trim
      rw [List.dropWhile_append_of_pos h, List.dropWhile_cons_of_neg (by simp [hhash])]
      exact rdropWhile_append_cons hhash [] _
    unfold assignment
    simp only [Line.text, htrim]
    rfl
  | other text h =>
    have hsplit : Text.splitOnce '=' (trim text.val) = none := Text.splitOnce_eq_none.2 fun hmem => h (mem_of_mem_trim hmem)
    unfold assignment
    simp only [Line.text, hsplit]
    split <;> rfl
  | assign key value quoting tail =>
    cases quoting with
    | double =>
      have hq : isWhitespace '"' = false := by decide
      obtain ⟨rest, hassign⟩ := assignment_quoted hq key (escape value.val) tail.val
      rw [Line.text, hassign, unquote, doubleQuoted_escape]
      rfl
    | single h =>
      have hq : isWhitespace '\x27' = false := by decide
      obtain ⟨rest, hassign⟩ := assignment_quoted hq key value.val tail.val
      rw [Line.text, hassign, unquote, takeWhile_single h]
      rfl

theorem newline_notMem_text (line : Line) : '\n' ∉ line.text := by
  cases line with
  | blank text h => exact text.property
  | comment indent text h => simp [Line.text, indent.property, text.property]
  | other text h => exact text.property
  | assign key value quoting tail =>
    have hkey : '\n' ∉ key.val := fun hmem => (isKeyChar_spec (key.property.2 '\n' hmem)).2.2.2 rfl
    cases quoting with
    | double => simp [Line.text, hkey, notMem_escape (by decide) value.property, tail.property]
    | single h => simp [Line.text, hkey, value.property, tail.property]

/-! ### Files -/

/-- What `str::lines` does at the line ends does not matter here. -/
theorem filterMap_lines (text : List Char) : (lines text).filterMap assignment = (text.splitOn '\n').filterMap assignment := by
  have hstrip : ∀ line, assignment (stripCr line) = assignment line := by
    intro line
    unfold assignment
    rw [trim_stripCr]
  unfold lines
  generalize hparts : text.splitOn '\n' = parts
  have hne : parts ≠ [] := hparts ▸ List.splitOn_ne_nil _ _
  obtain ⟨init, last, rfl⟩ : ∃ init last, parts = init ++ [last] :=
    ⟨parts.dropLast, parts.getLast hne, (List.dropLast_append_getLast hne).symm⟩
  have hinit : (init.map stripCr).filterMap assignment = init.filterMap assignment := by
    rw [List.filterMap_map]
    exact congrArg (fun f => init.filterMap f) (funext hstrip)
  simp only [List.dropLast_concat, List.filterMap_append, hinit, List.getLast?_append, List.getLast?_singleton]
  congr 1
  by_cases hlast : last = []
  · subst hlast
    rfl
  · simp [Option.filter, hlast]

theorem parseOsRelease_eq (text : String) : parseOsRelease text =
    ((lines text.toList).filterMap assignment).foldl (fun map e => map.insert e.1 e.2) ∅ := by
  rw [parseOsRelease, List.foldl_filterMap]
  congr 1
  funext map line
  cases assignment line <;> rfl

/-- The value of the last assignment to a key. -/
def lastValue (assignments : List (String × String)) (key : String) : Option String :=
  ((assignments.filter fun e => e.1 = key).getLast?).map Prod.snd

theorem getElem?_foldl_insert (assignments : List (String × String)) (key : String) :
    (assignments.foldl (fun map e => map.insert e.1 e.2) (∅ : Std.ExtTreeMap String String))[key]? =
      lastValue assignments key := by
  induction assignments using List.reverseRecOn with
  | nil => simp [lastValue]
  | append_singleton assignments e ih =>
    rw [List.foldl_append, List.foldl_cons, List.foldl_nil, Std.ExtTreeMap.getElem?_insert]
    simp only [Std.LawfulEqCmp.compare_eq_iff_eq, ih]
    by_cases h : e.1 = key
    · simp [lastValue, h]
    · simp [lastValue, h]

theorem assignments_render (lines : List Line) :
    (OsInfo.lines (render lines).toList).filterMap assignment = lines.filterMap Line.assigns := by
  rw [filterMap_lines, render, String.toList_ofList]
  by_cases hnil : lines = []
  · subst hnil
    rfl
  · rw [List.splitOn_intercalate '\n' _ (by simpa using hnil), List.filterMap_map]
    · exact congrArg (fun f => lines.filterMap f) (funext assignment_text)
    · intro l hl
      obtain ⟨line, -, rfl⟩ := List.mem_map.1 hl
      exact newline_notMem_text line

/-- The file is read back: each key has the value of its last assignment and no other key is there; and what follows the
closing quotes changes nothing. -/
theorem os_release_round_trip (lines : List Line) :
    (∀ key, (parseOsRelease (render lines))[key]? = lastValue (lines.filterMap Line.assigns) key) ∧
    parseOsRelease (render lines) = parseOsRelease (render (lines.map Line.bare)) := by
  have hbare : (lines.map Line.bare).filterMap Line.assigns = lines.filterMap Line.assigns := by
    rw [List.filterMap_map]
    congr 1
    funext line
    cases line <;> rfl
  refine ⟨fun key => ?_, ?_⟩
  · rw [parseOsRelease_eq, getElem?_foldl_insert, assignments_render]
  · rw [parseOsRelease_eq, parseOsRelease_eq, assignments_render, assignments_render, hbare]

end OsInfo

end Qeminga
