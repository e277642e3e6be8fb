import Mathlib.Data.Nat.Basic

/-!
# The Gregorian calendar

Dates of the proleptic Gregorian calendar from the year 0 on, and their numbers, which count days from 0000-01-01.  The
numbering follows the order of the dates (`Date.fields_lt_iff`), gives the day after a date the next number
(`Date.number_next`), and every number is that of one date (`Date.exists_number`, `Date.number_injective`).
-/

namespace Calendar

def IsLeap (y : Nat) : Prop := y % 4 = 0 ∧ (y % 100 ≠ 0 ∨ y % 400 = 0)

instance : DecidablePred IsLeap := fun y => inferInstanceAs (Decidable (y % 4 = 0 ∧ (y % 100 ≠ 0 ∨ y % 400 = 0)))

def yearLength (y : Nat) : Nat := if IsLeap y then 366 else 365

def monthLength (y m : Nat) : Nat :=
  if m = 2 then if IsLeap y then 29 else 28
  else if m ∈ [4, 6, 9, 11] then 30
  else 31

/-- The days of the years before `y`. -/
def yearStart : Nat → Nat
  | 0 => 0
  | y + 1 => yearStart y + yearLength y

/-- The days of the year `y` before its month `m`. -/
def monthStart (y : Nat) : Nat → Nat
  | 0 => 0
  | 1 => 0
  | m + 2 => monthStart y (m + 1) + monthLength y (m + 1)

/-- A day of the calendar. -/
structure Date where
  year : Nat
  month : Nat
  day : Nat
  month_pos : 1 ≤ month
  month_le : month ≤ 12
  day_pos : 1 ≤ day
  day_le : day ≤ monthLength year month
  deriving DecidableEq

/-! ### Years and months -/

/-- The leap years before `y + 1` are counted by division. -/
theorem yearStart_succ (y : Nat) : yearStart (y + 1) = 365 * y + y / 4 - y / 100 + y / 400 + 366 := by
  induction y with
  | zero => rfl
  | succ y ih =>
    rw [yearStart, ih, yearLength]
    split
    · next h =>
      unfold IsLeap at h
      omega
    · next h =>
      unfold IsLeap at h
      omega

theorem yearStart_mono {y z : Nat} (h : y ≤ z) : yearStart y ≤ yearStart z := by
  induction h with
  | refl => exact Nat.le_refl _
  | step _ ih => exact Nat.le_trans ih (Nat.le_add_right _ _)

theorem yearStart_lt {y z : Nat} (h : y < z) : yearStart y + yearLength y ≤ yearStart z := yearStart_mono h

theorem monthLength_pos (y m : Nat) : 1 ≤ monthLength y m := by
  unfold monthLength
  split
  · split <;> omega
  · split <;> omega

theorem monthLength_february (y : Nat) : monthLength y 2 ≤ 29 := by
  unfold monthLength
  split
  · split <;> omega
  · omega

theorem monthStart_succ {y m : Nat} (h : 1 ≤ m) : monthStart y (m + 1) = monthStart y m + monthLength y m := by
  obtain ⟨m, rfl⟩ := Nat.exists_eq_succ_of_ne_zero (Nat.ne_of_gt h)
  rfl

theorem monthStart_mono {y m n : Nat} (h : m ≤ n) : monthStart y m ≤ monthStart y n := by
  induction h with
  | refl => exact Nat.le_refl _
  | @step n _ ih =>
    cases n with
    | zero => exact ih
    | succ n => exact Nat.le_trans ih (Nat.le_add_right _ _)

theorem monthStart_lt {y m n : Nat} (hm : 1 ≤ m) (h : m < n) : monthStart y m + monthLength y m ≤ monthStart y n := by
  rw [← monthStart_succ hm]
  exact monthStart_mono h

/-- A year is its twelve months. -/
theorem monthStart_year (y : Nat) : monthStart y 13 = yearLength y := by
  by_cases h : IsLeap y
  · simp [monthStart, monthLength, yearLength, h]
  · simp [monthStart, monthLength, yearLength, h]

/-! ### Numbers of days -/

namespace Date

/-- The days from 0000-01-01 to the date. -/
def number (d : Date) : Nat := yearStart d.year + monthStart d.year d.month + (d.day - 1)

/-- The first day of the year. -/
def newYear (y : Nat) : Date := ⟨y, 1, 1, Nat.le_refl _, by decide, Nat.le_refl _, monthLength_pos _ _⟩

/-- The first day of the month after `m`. -/
def startOfNext (y m : Nat) (hm : 1 ≤ m) : Date :=
  if h : m < 12 then ⟨y, m + 1, 1, by omega, h, Nat.le_refl _, monthLength_pos _ _⟩ else newYear (y + 1)

/-- The day after. -/
def next (d : Date) : Date :=
  if h : d.day < monthLength d.year d.month then
    ⟨d.year, d.month, d.day + 1, d.month_pos, d.month_le, Nat.le_add_left _ _, h⟩
  else startOfNext d.year d.month d.month_pos

/-- The numbers a date is written with, the most significant first. -/
def fields (d : Date) : List Nat := [d.year, d.month, d.day]

theorem fields_lt {d e : Date} : d.fields < e.fields ↔
    d.year < e.year ∨ d.year = e.year ∧ (d.month < e.month ∨ d.month = e.month ∧ d.day < e.day) := by
  simp [fields, List.cons_lt_cons_iff]

theorem fields_injective {d e : Date} (h : d.fields = e.fields) : d = e := by
  cases d
  cases e
  simpa [fields] using h

theorem number_lt_month (d : Date) :
    d.number < yearStart d.year + monthStart d.year d.month + monthLength d.year d.month := by
  have hpos := d.day_pos
  have hle := d.day_le
  unfold number
  omega

theorem number_lt_year (d : Date) : d.number < yearStart d.year + yearLength d.year := by
  have hmonth := d.number_lt_month
  have hyear := monthStart_lt (y := d.year) d.month_pos (Nat.lt_succ_of_le d.month_le)
  rw [monthStart_year] at hyear
  omega

theorem number_startOfNext (y m : Nat) (hm : 1 ≤ m) (hle : m ≤ 12) :
    (startOfNext y m hm).number = yearStart y + monthStart y m + monthLength y m := by
  unfold startOfNext
  split
  · simp only [number, monthStart_succ hm]
    omega
  · obtain rfl : m = 12 := by omega
    have hyear : monthStart y 12 + monthLength y 12 = yearLength y := monthStart_year y
    have hone : monthStart (y + 1) 1 = 0 := rfl
    simp only [newYear, number, yearStart, hone]
    omega

/-- Days are numbered one after the other. -/
theorem number_next (d : Date) : d.next.number = d.number + 1 := by
  have hpos := d.day_pos
  have hle := d.day_le
  unfold next
  split
  · simp only [number]
    omega
  · rw [number_startOfNext _ _ _ d.month_le, number]
    omega

theorem number_lt {d e : Date} (h : d.fields < e.fields) : d.number < e.number := by
  rcases fields_lt.1 h with hy | ⟨hy, hm | ⟨hm, hd⟩⟩
  · -- an earlier year
    have hyear := d.number_lt_year
    have hstart := yearStart_lt hy
    have he : yearStart e.year ≤ e.number := by
      unfold number
      omega
    omega
  · -- an earlier month of the same year
    have hmonth := d.number_lt_month
    have hstart := monthStart_lt (y := d.year) d.month_pos hm
    have he : yearStart e.year + monthStart e.year e.month ≤ e.number := by
      unfold number
      omega
    rw [← hy] at he
    omega
  · have hpos := d.day_pos
    unfold number
    rw [hy, hm]
    omega

/-- Dates follow each other as their numbers do. -/
theorem fields_lt_iff {d e : Date} : d.fields < e.fields ↔ d.number < e.number := by
  refine ⟨number_lt, fun h => ?_⟩
  by_contra hlt
  by_cases hgt : e.fields < d.fields
  · exact absurd (number_lt hgt) (by omega)
  · rw [fields_injective (List.le_antisymm (List.not_lt.1 hgt) (List.not_lt.1 hlt))] at h
    exact Nat.lt_irrefl _ h

theorem number_injective {d e : Date} (h : d.number = e.number) : d = e := by
  have hde : ¬ d.fields < e.fields := fun hlt => Nat.ne_of_lt (number_lt hlt) h
  have hed : ¬ e.fields < d.fields := fun hlt => Nat.ne_of_lt (number_lt hlt) h.symm
  exact fields_injective (List.le_antisymm (List.not_lt.1 hed) (List.not_lt.1 hde))

/-- Every number is that of a day. -/
theorem exists_number (n : Nat) : ∃ d : Date, d.number = n := by
  induction n with
  | zero => exact ⟨⟨0, 1, 1, by decide, by decide, by decide, by decide⟩, rfl⟩
  | succ n ih =>
    obtain ⟨d, hd⟩ := ih
    exact ⟨d.next, by rw [number_next, hd]⟩

end Date

end Calendar
