import Mathlib.Data.Finset.Basic
import Qeminga.Mountinfo

/-!
# Decoding of the mount table

The kernel writes a row field by field, with the bytes of an escape set as three octal digits.  Reading a table gives back
the rows that were written, whatever the paths hold, and a malformed line costs its own row only.
-/

namespace Qeminga

namespace Mountinfo

variable {E : Finset UInt8} {e : MountEntry}

/-! ### Escapes -/

def octalDigit (n : Nat) : UInt8 := zero + UInt8.ofNat (n % 8)

/-- A byte as a backslash and three octal digits. -/
def escapeByte (b : UInt8) : List UInt8 :=
  [backslash, octalDigit (b.toNat / 64), octalDigit (b.toNat / 8), octalDigit b.toNat]

/-- Escapes the bytes of `E`. -/
def escape (E : Finset UInt8) (s : List UInt8) : List UInt8 := s.flatMap fun b => if b ∈ E then escapeByte b else [b]

theorem escape_cons (E : Finset UInt8) (b : UInt8) (s : List UInt8) :
    escape E (b :: s) = (if b ∈ E then escapeByte b else [b]) ++ escape E s := rfl

theorem octalDigit_isOctal (n : Nat) : isOctal (octalDigit n) = true := by
  have hn : n % 8 < 8 := Nat.mod_lt _ (by decide)
  unfold octalDigit
  generalize n % 8 = m at hn ⊢
  revert m
  decide

theorem octalDigit_value (n : Nat) : (octalDigit n - zero).toNat = n % 8 := by
  have hn : n % 8 < 8 := Nat.mod_lt _ (by decide)
  unfold octalDigit
  generalize n % 8 = m at hn ⊢
  revert m
  decide

theorem octalValue_escape (b : UInt8) :
    octalValue [octalDigit (b.toNat / 64), octalDigit (b.toNat / 8), octalDigit b.toNat] = b.toNat := by
  have hb := b.toNat_lt
  simp only [octalValue, List.foldl_cons, List.foldl_nil, octalDigit_value]
  omega

theorem unescape_escapeByte (b : UInt8) (rest : List UInt8) : unescape (escapeByte b ++ rest) = b :: unescape rest := by
  have hb := b.toNat_lt
  simp only [escapeByte, List.cons_append, List.nil_append, unescape]
  rw [octalValue_escape, if_pos, UInt8.ofNat_toNat]
  refine ⟨trivial, ?_, by omega⟩
  simp [octalDigit_isOctal]

theorem unescape_cons {b : UInt8} (h : b ≠ backslash) (rest : List UInt8) : unescape (b :: rest) = b :: unescape rest := by
  rcases rest with _ | ⟨d₁, _ | ⟨d₂, _ | ⟨d₃, rest⟩⟩⟩
  · rfl
  · rfl
  · rfl
  · rw [unescape, if_neg fun hb => h hb.1]

/-- Escapes are undone, whatever else the set holds. -/
@[simp] theorem unescape_escape (h : backslash ∈ E) (s : List UInt8) : unescape (escape E s) = s := by
  induction s with
  | nil => rfl
  | cons b s ih =>
    rw [escape_cons]
    by_cases hb : b ∈ E
    · rw [if_pos hb, unescape_escapeByte, ih]
    · have hne : b ≠ backslash := by
        rintro rfl
        exact hb h
      rw [if_neg hb, List.singleton_append, unescape_cons hne, ih]

theorem escape_ne_nil {s : List UInt8} (h : s ≠ []) : escape E s ≠ [] := by
  cases s with
  | nil => exact absurd rfl h
  | cons b s =>
    intro hnil
    rw [escape_cons] at hnil
    have hhead := (List.append_eq_nil_iff.1 hnil).1
    split at hhead <;> cases hhead

/-- What is escaped does not occur, unless an escape is written with it. -/
theorem notMem_escape {b : UInt8} (h : b ∈ E) (hb : b < zero) (s : List UInt8) : b ∉ escape E s := by
  have hdigit : ∀ n, b ≠ octalDigit n := by
    rintro n rfl
    have hn := octalDigit_isOctal n
    simp only [isOctal, Bool.and_eq_true, decide_eq_true_eq] at hn
    exact absurd hb (UInt8.not_lt.2 hn.1)
  have hslash : b ≠ backslash := by
    rintro rfl
    exact absurd hb (by decide)
  intro hmem
  obtain ⟨x, -, hx⟩ := List.mem_flatMap.1 hmem
  split at hx
  · simp [escapeByte, hslash, hdigit] at hx
  · next hxE =>
    obtain rfl := List.mem_singleton.1 hx
    exact hxE h

/-! ### Numbers -/

def decimalDigit (n : Nat) : UInt8 := zero + UInt8.ofNat (n % 10)

/-- The decimal digits of a number. -/
def decimal (n : Nat) : List UInt8 := if n < 10 then [decimalDigit n] else decimal (n / 10) ++ [decimalDigit n]

theorem decimalDigit_spec (n : Nat) :
    zero ≤ decimalDigit n ∧ decimalDigit n ≤ 57 ∧ (decimalDigit n - zero).toNat = n % 10 := by
  have hn : n % 10 < 10 := Nat.mod_lt _ (by decide)
  unfold decimalDigit
  generalize n % 10 = m at hn ⊢
  revert m
  decide

theorem pushDigit_decimalDigit (acc n : Nat) (h : acc * 10 + n % 10 < 2 ^ 32) :
    pushDigit acc (decimalDigit n) = some (acc * 10 + n % 10) := by
  obtain ⟨hlo, hhi, hvalue⟩ := decimalDigit_spec n
  unfold pushDigit
  rw [if_pos ⟨hlo, hhi⟩, hvalue, if_pos h]

theorem foldlM_decimal (n : Nat) (h : n < 2 ^ 32) : (decimal n).foldlM pushDigit 0 = some n := by
  induction n using decimal.induct with
  | case1 n hn =>
    rw [decimal, if_pos hn]
    have hpush := pushDigit_decimalDigit 0 n (by omega)
    simp only [List.foldlM_cons, List.foldlM_nil, hpush, Option.bind_eq_bind, Option.bind_some]
    exact congrArg some (by omega)
  | case2 n hn ih =>
    rw [decimal, if_neg hn, List.foldlM_append, ih (by omega)]
    have hpush := pushDigit_decimalDigit (n / 10) n (by omega)
    simp only [List.foldlM_cons, List.foldlM_nil, hpush, Option.bind_eq_bind, Option.bind_some]
    exact congrArg some (by omega)

/-- A number is written in digits. -/
theorem mem_decimal {n : Nat} {b : UInt8} (h : b ∈ decimal n) : zero ≤ b ∧ b ≤ 57 := by
  induction n using decimal.induct with
  | case1 n hn =>
    rw [decimal, if_pos hn] at h
    obtain rfl := List.mem_singleton.1 h
    exact ⟨(decimalDigit_spec n).1, (decimalDigit_spec n).2.1⟩
  | case2 n hn ih =>
    rw [decimal, if_neg hn] at h
    rcases List.mem_append.1 h with h | h
    · exact ih h
    · obtain rfl := List.mem_singleton.1 h
      exact ⟨(decimalDigit_spec n).1, (decimalDigit_spec n).2.1⟩

theorem decimal_ne_nil (n : Nat) : decimal n ≠ [] := by
  rw [decimal]
  split
  · exact List.cons_ne_nil _ _
  · exact List.append_ne_nil_of_right_ne_nil _ (List.cons_ne_nil _ _)

theorem notMem_decimal {b : UInt8} (h : b < zero ∨ 57 < b) (n : Nat) : b ∉ decimal n := by
  intro hmem
  obtain ⟨hlo, hhi⟩ := mem_decimal hmem
  rcases h with h | h
  · exact absurd h (UInt8.not_lt.2 hlo)
  · exact absurd h (UInt8.not_lt.2 hhi)

theorem ascii_of_forall {field : List UInt8} (h : ∀ b ∈ field, b < 128) : ascii field = some field :=
  if_pos (List.all_eq_true.2 fun b hb => decide_eq_true (h b hb))

theorem lt_of_mem_decimal {n : Nat} {b : UInt8} (h : b ∈ decimal n) : b < 128 :=
  UInt8.lt_of_le_of_lt (mem_decimal h).2 (by decide)

@[simp] theorem parseU32_decimal (n : UInt32) : parseU32 (decimal n.toNat) = some n := by
  have hplus : (decimal n.toNat).head? ≠ some plus := fun hhead =>
    notMem_decimal (.inl (by decide)) _ (List.mem_of_mem_head? hhead)
  simp only [parseU32, if_neg hplus, if_neg (decimal_ne_nil n.toNat), foldlM_decimal n.toNat n.toNat_lt, Option.map_some,
    UInt32.ofNat_toNat]

@[simp] theorem number_decimal (n : UInt32) : number (decimal n.toNat) = some n := by
  unfold number
  rw [ascii_of_forall fun _ => lt_of_mem_decimal]
  exact parseU32_decimal n

/-! ### Rows -/

/-- The fields of a row as the kernel writes them. -/
def renderFields (E : Finset UInt8) (e : MountEntry) : List (List UInt8) :=
  [decimal e.mountId.toNat, decimal e.parentId.toNat, decimal e.major.toNat ++ colon :: decimal e.minor.toNat,
    escape E e.root, escape E e.mountPoint, Utf8.encode e.mountOptions] ++
  e.optionalFields.map Utf8.encode ++
  [[dash], Utf8.encode e.fsType, escape E (Utf8.encode e.source), escape E (Utf8.encode e.superOptions)]

def renderLine (E : Finset UInt8) (e : MountEntry) : List UInt8 := [space].intercalate (renderFields E e)

def render (E : Finset UInt8) (entries : List MountEntry) : List UInt8 :=
  entries.flatMap fun e => renderLine E e ++ [newline]

/-- What the kernel escapes in paths, sources and options. -/
def kernelEscapes : Finset UInt8 := {space, 9, newline, backslash}

/-- A text that is one field of one line as it is. -/
def Plain (s : String) : Prop := s ≠ "" ∧ ' ' ∉ s.toList ∧ '\n' ∉ s.toList

/-- The row can be written: the fields that are not escaped have no space and no newline, and only the super options may
be empty. -/
structure Writable (e : MountEntry) : Prop where
  root : e.root ≠ []
  mountPoint : e.mountPoint ≠ []
  mountOptions : Plain e.mountOptions
  optionalFields : ∀ f ∈ e.optionalFields, Plain f ∧ f ≠ "-"
  fsType : Plain e.fsType
  source : e.source ≠ ""

/-- No space and no newline. -/
private def Unbroken (field : List UInt8) : Prop := space ∉ field ∧ newline ∉ field

private theorem unbroken_decimal (n : Nat) : Unbroken (decimal n) :=
  ⟨notMem_decimal (.inl (by decide)) n, notMem_decimal (.inl (by decide)) n⟩

private theorem unbroken_escape (hE : kernelEscapes ⊆ E) (s : List UInt8) : Unbroken (escape E s) :=
  ⟨notMem_escape (hE (by decide)) (by decide) s, notMem_escape (hE (by decide)) (by decide) s⟩

private theorem unbroken_encode {s : String} (h : Plain s) : Unbroken (Utf8.encode s) :=
  ⟨Utf8.ofNat_notMem_encode (c := ' ') (by decide) h.2.1, Utf8.ofNat_notMem_encode (c := '\n') (by decide) h.2.2⟩

private theorem unbroken_device (major minor : Nat) : Unbroken (decimal major ++ colon :: decimal minor) := by
  have hcolon : space ≠ colon ∧ newline ≠ colon := by decide
  have hmajor := unbroken_decimal major
  have hminor := unbroken_decimal minor
  constructor
  · simp [hmajor.1, hminor.1, hcolon.1]
  · simp [hmajor.2, hminor.2, hcolon.2]

private theorem unbroken_fields (hE : kernelEscapes ⊆ E) (h : Writable e) : ∀ f ∈ renderFields E e, Unbroken f := by
  intro f hf
  simp only [renderFields, List.mem_append, List.mem_cons, List.not_mem_nil, or_false, List.mem_map] at hf
  rcases hf with ((rfl | rfl | rfl | rfl | rfl | rfl) | ⟨o, ho, rfl⟩) | (rfl | rfl | rfl | rfl)
  · exact unbroken_decimal _
  · exact unbroken_decimal _
  · exact unbroken_device _ _
  · exact unbroken_escape hE _
  · exact unbroken_escape hE _
  · exact unbroken_encode h.mountOptions
  · exact unbroken_encode (h.optionalFields o ho).1
  · exact ⟨by decide, by decide⟩
  · exact unbroken_encode h.fsType
  · exact unbroken_escape hE _
  · exact unbroken_escape hE _

theorem newline_notMem_renderLine (hE : kernelEscapes ⊆ E) (h : Writable e) : newline ∉ renderLine E e :=
  Text.notMem_intercalate (by decide) fun f hf => (unbroken_fields hE h f hf).2

theorem optionalFields_render {optionals : List String} (h : ∀ f ∈ optionals, f ≠ "-") (rest : List (List UInt8)) :
    optionalFields (optionals.map Utf8.encode ++ [dash] :: rest) = some (optionals, rest) := by
  induction optionals with
  | nil => simp [optionalFields]
  | cons f optionals ih =>
    obtain ⟨hf, hoptionals⟩ := List.forall_mem_cons.1 h
    have hdash : Utf8.encode f ≠ [dash] := by
      intro hf'
      refine hf ?_
      rw [← Utf8.lossy_encode f, hf', ← Utf8.lossy_encode "-"]
      rfl
    simp only [List.map_cons, List.cons_append, optionalFields, if_neg hdash, ih hoptionals, Option.map_some,
      Utf8.lossy_encode]

/-- The fields that are left when the empty ones are dropped. -/
theorem filter_renderFields (h : Writable e) : (renderFields E e).filter (fun field => field ≠ []) =
    [decimal e.mountId.toNat, decimal e.parentId.toNat, decimal e.major.toNat ++ colon :: decimal e.minor.toNat,
      escape E e.root, escape E e.mountPoint, Utf8.encode e.mountOptions] ++
    (e.optionalFields.map Utf8.encode ++ [dash] :: [Utf8.encode e.fsType, escape E (Utf8.encode e.source)] ++
      [escape E (Utf8.encode e.superOptions)].filter fun field => field ≠ []) := by
  have hoptional : ∀ f ∈ e.optionalFields, Utf8.encode f ≠ [] := fun f hf =>
    Utf8.encode_ne_nil (h.optionalFields f hf).1.1
  simpa [renderFields, List.filter_append, decimal_ne_nil, escape_ne_nil h.root, escape_ne_nil h.mountPoint,
    Utf8.encode_ne_nil h.mountOptions.1, Utf8.encode_ne_nil h.fsType.1, escape_ne_nil (Utf8.encode_ne_nil h.source)]
    using hoptional

theorem ascii_device (major minor : Nat) : ascii (decimal major ++ colon :: decimal minor) =
    some (decimal major ++ colon :: decimal minor) := by
  refine ascii_of_forall fun b hb => ?_
  rcases List.mem_append.1 hb with hb | hb
  · exact lt_of_mem_decimal hb
  · rcases List.mem_cons.1 hb with rfl | hb
    · decide
    · exact lt_of_mem_decimal hb

/-- Empty super options are a missing field. -/
theorem superOptions_render (hback : backslash ∈ E) (s : String) :
    (([escape E (Utf8.encode s)].filter fun field => field ≠ []).head?.map unescapeLossy).getD "" = s := by
  by_cases hs : s = ""
  · subst hs
    rfl
  · have hne : escape E (Utf8.encode s) ≠ [] := escape_ne_nil (Utf8.encode_ne_nil hs)
    simp [hne, unescapeLossy, hback]

theorem parseLine_renderLine (hE : kernelEscapes ⊆ E) (h : Writable e) : parseLine (renderLine E e) = some e := by
  have hback : backslash ∈ E := hE (by decide)
  have hsplit : (renderLine E e).splitOn space = renderFields E e :=
    List.splitOn_intercalate space (fun f hf => (unbroken_fields hE h f hf).1) (by simp [renderFields])
  unfold parseLine
  rw [hsplit, filter_renderFields h]
  have hdevice : Text.splitOnce colon (decimal e.major.toNat ++ colon :: decimal e.minor.toNat) =
      some (decimal e.major.toNat, decimal e.minor.toNat) :=
    Text.splitOnce_append_cons (notMem_decimal (.inr (by decide)) _) _
  have hascii := ascii_device e.major.toNat e.minor.toNat
  have hoptional := optionalFields_render (fun f hf => (h.optionalFields f hf).2)
    (Utf8.encode e.fsType :: escape E (Utf8.encode e.source) ::
      [escape E (Utf8.encode e.superOptions)].filter fun field => field ≠ [])
  have hsuper := superOptions_render hback e.superOptions
  simp only [List.append_assoc, List.cons_append, List.nil_append]
  -- One field after the other is read.
  simp only [parseFields, StateT.run', StateT.bind, bind, StateT.lift, liftM, monadLift, MonadLift.monadLift, next, pure,
    get, getThe, MonadStateOf.get, StateT.get, Option.bind, number_decimal, hascii, hdevice, parseU32_decimal,
    hoptional, hsuper, unescapePath, unescapeLossy, unescape_escape hback, Utf8.lossy_encode]
  rfl

/-! ### Tables -/

theorem parseMountinfo_render {entries : List MountEntry} (hE : kernelEscapes ⊆ E) (h : ∀ e ∈ entries, Writable e) :
    parseMountinfo (render E entries) = entries := by
  have hempty : [[]].filterMap parseLine = [] := rfl
  have hrows : ∀ rows : List MountEntry, (∀ e ∈ rows, Writable e) → (rows.map (renderLine E)).filterMap parseLine = rows := by
    intro rows hrows
    induction rows with
    | nil => rfl
    | cons e rows ih =>
      obtain ⟨he, hrows⟩ := List.forall_mem_cons.1 hrows
      rw [List.map_cons, List.filterMap_cons_some (parseLine_renderLine hE he), ih hrows]
  unfold parseMountinfo render
  rw [Text.splitOn_flatMap fun e he => newline_notMem_renderLine hE (h e he), List.filterMap_append, hrows entries h, hempty,
    List.append_nil]

/-- The lines of a table. -/
def tableLines (table : List UInt8) : List (List UInt8) := table.splitOn newline

/-- A line stands for its own row only. -/
theorem parseMountinfo_line (table : List UInt8) {i : Nat} (h : i < (tableLines table).length) :
    parseMountinfo table = ((tableLines table).take i).filterMap parseLine ++ (parseLine (tableLines table)[i]).toList ++
      ((tableLines table).drop (i + 1)).filterMap parseLine := by
  have hlines : tableLines table =
      (tableLines table).take i ++ [(tableLines table)[i]] ++ (tableLines table).drop (i + 1) := by
    simp
  have hone : ∀ line, [line].filterMap parseLine = (parseLine line).toList := by
    intro line
    cases hline : parseLine line <;> simp [hline]
  calc parseMountinfo table = (tableLines table).filterMap parseLine := rfl
    _ = _ := by
      conv_lhs => rw [hlines]
      rw [List.filterMap_append, List.filterMap_append, hone]

theorem parseMountinfo_setPart {table line : List UInt8} {i : Nat} (h : i < (tableLines table).length)
    (hline : newline ∉ line) (hbad : parseLine line = none) :
    parseMountinfo (Text.setPart newline table i line) = ((tableLines table).take i).filterMap parseLine ++
      ((tableLines table).drop (i + 1)).filterMap parseLine := by
  have hset : tableLines (Text.setPart newline table i line) = (tableLines table).set i line :=
    Text.splitOn_setPart hline table i
  have hlength : i < (tableLines (Text.setPart newline table i line)).length := by
    rw [hset, List.length_set]
    exact h
  have hlines := parseMountinfo_line (Text.setPart newline table i line) hlength
  simp only [hset, List.getElem_set_self, hbad] at hlines
  rw [hlines]
  simp [List.take_set_of_le, List.drop_set_of_lt]

/-- Escapes are undone; a table that can be written is read back; a malformed line in the place of another takes away
the row of that line, if it had one, and no other. -/
theorem mount_table :
    (∀ (E : Finset UInt8) (s : List UInt8), backslash ∈ E → unescape (escape E s) = s) ∧
    (∀ (E : Finset UInt8) (entries : List MountEntry), kernelEscapes ⊆ E → (∀ e ∈ entries, Writable e) →
      parseMountinfo (render E entries) = entries) ∧
    ∀ (table line : List UInt8) (i : Nat) (hi : i < (tableLines table).length), newline ∉ line → parseLine line = none →
      parseMountinfo table = ((tableLines table).take i).filterMap parseLine ++ (parseLine (tableLines table)[i]).toList ++
        ((tableLines table).drop (i + 1)).filterMap parseLine ∧
      parseMountinfo (Text.setPart newline table i line) = ((tableLines table).take i).filterMap parseLine ++
        ((tableLines table).drop (i + 1)).filterMap parseLine :=
  ⟨fun _ s h => unescape_escape h s, fun _ _ hE h => parseMountinfo_render hE h, fun table _ _ hi hline hbad =>
    ⟨parseMountinfo_line table hi, parseMountinfo_setPart hi hline hbad⟩⟩

/-- A bind mount at a path with a space, a digit after a backslash, and a byte that is no UTF-8. -/
def labelled : MountEntry where
  mountId := 36
  parentId := 35
  major := 98
  minor := 0
  root := [slash]
  mountPoint := [slash, space, backslash, 48, 48, 48, 255]
  mountOptions := "rw,noatime"
  optionalFields := ["master:1", "shared:5"]
  fsType := "ext4"
  source := "/dev/disk/by-label/my label"
  superOptions := ""

/-- The row is read back as it was written. -/
theorem mount_table_labelled : parseMountinfo (render kernelEscapes [labelled]) = [labelled] := by
  refine mount_table.2.1 kernelEscapes [labelled] (Finset.Subset.refl _) fun e he => ?_
  obtain rfl := List.mem_singleton.1 he
  exact {
    root := by decide
    mountPoint := by decide
    mountOptions := by unfold Plain; decide
    optionalFields := by unfold Plain; decide
    fsType := by unfold Plain; decide
    source := by decide }

end Mountinfo

end Qeminga
