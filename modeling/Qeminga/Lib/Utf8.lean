import Mathlib.Data.List.Basic

/-!
# UTF-8 and its lossy decoding

`encode` is the encoding of a text, `lossy` the decoding that never fails: each maximal part that begins no character, or
that is cut off inside one, becomes U+FFFD.  On the encoding of a text it loses nothing (`lossy_encode`), and the bytes
below 128 in an encoding are its ASCII characters (`ofNat_notMem_encode`).
-/

namespace Utf8

def encode (s : String) : List UInt8 := s.toList.flatMap String.utf8EncodeChar

/-- The character that `bytes` begins with. -/
def first? (bytes : List UInt8) : Option Char := bytes.toByteArray.utf8DecodeChar? 0

/-- What each of the bytes that follow `lead` in a character may be. -/
def tails (lead : UInt8) : List (UInt8 × UInt8) :=
  if 0xC2 ≤ lead ∧ lead ≤ 0xDF then [(0x80, 0xBF)]
  else if lead = 0xE0 then [(0xA0, 0xBF), (0x80, 0xBF)]
  else if lead = 0xED then [(0x80, 0x9F), (0x80, 0xBF)]
  else if 0xE1 ≤ lead ∧ lead ≤ 0xEF then [(0x80, 0xBF), (0x80, 0xBF)]
  else if lead = 0xF0 then [(0x90, 0xBF), (0x80, 0xBF), (0x80, 0xBF)]
  else if 0xF1 ≤ lead ∧ lead ≤ 0xF3 then [(0x80, 0xBF), (0x80, 0xBF), (0x80, 0xBF)]
  else if lead = 0xF4 then [(0x80, 0x8F), (0x80, 0xBF), (0x80, 0xBF)]
  else []

/-- How many of `bytes` are as the ranges say. -/
def fitting : List (UInt8 × UInt8) → List UInt8 → Nat
  | (lo, hi) :: ranges, b :: bytes => if lo ≤ b ∧ b ≤ hi then fitting ranges bytes + 1 else 0
  | _, _ => 0

def lossyChars : List UInt8 → List Char
  | [] => []
  | b :: bytes =>
    match first? (b :: bytes) with
    | some c => c :: lossyChars (bytes.drop (c.utf8Size - 1))
    | none => '\uFFFD' :: lossyChars (bytes.drop (fitting (tails b) bytes))
termination_by bytes => bytes.length

def lossy (bytes : List UInt8) : String := String.ofList (lossyChars bytes)

theorem first?_encodeChar (c : Char) (bytes : List UInt8) : first? (String.utf8EncodeChar c ++ bytes) = some c := by
  unfold first?
  rw [List.toByteArray_append]
  exact ByteArray.utf8DecodeChar?_utf8EncodeChar_append

theorem lossyChars_encodeChar (c : Char) (bytes : List UInt8) :
    lossyChars (String.utf8EncodeChar c ++ bytes) = c :: lossyChars bytes := by
  have hfirst := first?_encodeChar c bytes
  have hlength := String.length_utf8EncodeChar c
  cases henc : String.utf8EncodeChar c with
  | nil => exact absurd henc String.utf8EncodeChar_ne_nil
  | cons b rest =>
    rw [henc] at hfirst hlength
    rw [List.cons_append, lossyChars]
    rw [List.cons_append] at hfirst
    have hdrop : (rest ++ bytes).drop (c.utf8Size - 1) = bytes := by
      rw [← hlength]
      simp
    simp only [hfirst, hdrop]

/-- Nothing of a text is lost. -/
@[simp] theorem lossy_encode (s : String) : lossy (encode s) = s := by
  have hchars : ∀ cs : List Char, lossyChars (cs.flatMap String.utf8EncodeChar) = cs := by
    intro cs
    induction cs with
    | nil => simp [lossyChars]
    | cons c cs ih => rw [List.flatMap_cons, lossyChars_encodeChar, ih]
  unfold lossy encode
  rw [hchars, String.ofList_toList]

theorem encode_ne_nil {s : String} (h : s ≠ "") : encode s ≠ [] := by
  intro hnil
  have hs := lossy_encode s
  rw [hnil] at hs
  exact h (hs.symm.trans (by simp [lossy, lossyChars]))

/-- A byte below 128 is a whole character. -/
theorem toNat_eq_of_mem_encodeChar {c : Char} {b : UInt8} (h : b ∈ String.utf8EncodeChar c) (hb : b.toNat < 128) :
    c.toNat = b.toNat := by
  unfold String.utf8EncodeChar at h
  simp only at h
  have hbyte : ∀ n, (UInt8.ofNat n).toNat = n % 256 := fun n => UInt8.toNat_ofNat'
  split at h
  · next hv =>
    obtain rfl := List.mem_singleton.1 h
    rw [hbyte]
    show c.val.toNat = c.val.toNat % 256
    omega
  · exfalso
    -- Every byte of a longer encoding has its high bit set.
    split at h
    · simp only [List.mem_cons, List.not_mem_nil, or_false] at h
      rcases h with rfl | rfl <;> rw [hbyte] at hb <;> omega
    · split at h
      · simp only [List.mem_cons, List.not_mem_nil, or_false] at h
        rcases h with rfl | rfl | rfl <;> rw [hbyte] at hb <;> omega
      · simp only [List.mem_cons, List.not_mem_nil, or_false] at h
        rcases h with rfl | rfl | rfl | rfl <;> rw [hbyte] at hb <;> omega

theorem ofNat_notMem_encode {c : Char} {s : String} (hc : c.toNat < 128) (h : c ∉ s.toList) :
    UInt8.ofNat c.toNat ∉ encode s := by
  intro hmem
  obtain ⟨c', hc', hb⟩ := List.mem_flatMap.1 hmem
  have hbyte : (UInt8.ofNat c.toNat).toNat = c.toNat := by
    rw [UInt8.toNat_ofNat']
    omega
  have heq : c'.toNat = c.toNat := by
    rw [toNat_eq_of_mem_encodeChar hb (by omega), hbyte]
  obtain rfl : c' = c := Char.toNat_inj.1 heq
  exact h hc'

/-- No byte has its five high bits set. -/
theorem toNat_lt_of_mem_encode {s : String} {b : UInt8} (h : b ∈ encode s) : b.toNat < 248 := by
  obtain ⟨c, -, hb⟩ := List.mem_flatMap.1 h
  unfold String.utf8EncodeChar at hb
  simp only at hb
  have hbyte : ∀ n, (UInt8.ofNat n).toNat = n % 256 := fun n => UInt8.toNat_ofNat'
  split at hb
  · obtain rfl := List.mem_singleton.1 hb
    rw [hbyte]
    omega
  · split at hb
    · simp only [List.mem_cons, List.not_mem_nil, or_false] at hb
      rcases hb with rfl | rfl <;> rw [hbyte] <;> omega
    · split at hb
      · simp only [List.mem_cons, List.not_mem_nil, or_false] at hb
        rcases hb with rfl | rfl | rfl <;> rw [hbyte] <;> omega
      · simp only [List.mem_cons, List.not_mem_nil, or_false] at hb
        rcases hb with rfl | rfl | rfl | rfl <;> rw [hbyte] <;> omega

theorem encode_append (s t : String) : encode (s ++ t) = encode s ++ encode t := by
  unfold encode
  rw [String.toList_append, List.flatMap_append]

end Utf8
