import Qeminga.Lib.Calendar
import Qeminga.Lib.Text
import Qeminga.Timestamp

/-!
# Dates of timestamps

The days that `u64` seconds can reach are dates: the arithmetic stays within `u64`, it is the inverse of counting the
days from 1970-01-01, and timestamps follow each other as the milliseconds do.
-/

namespace Qeminga

namespace Timestamp

open Calendar U64

/-! ### Years that begin in March -/

/-- The days of the months from March on before the `mp`th of them. -/
def marchStart (mp : Nat) : Nat := (153 * mp + 2) / 5

/-- Where a date stands in years that begin in March: its era of 400 years, the year of the era and the month of the year. -/
structure InEra (d : Date) (era yoe mp : Nat) : Prop where
  yoe_lt : yoe < 400
  mp_lt : mp < 12
  year : d.year = 400 * era + yoe + if mp < 10 then 0 else 1
  month : d.month = if mp < 10 then mp + 3 else mp - 9

theorem exists_inEra {d : Date} (h : 0 < d.year) : ∃ era yoe mp, InEra d era yoe mp := by
  have hpos := d.month_pos
  have hle := d.month_le
  by_cases hm : d.month ≤ 2
  · refine ⟨(d.year - 1) / 400, (d.year - 1) % 400, d.month + 9, Nat.mod_lt _ (by decide), by omega, ?_, ?_⟩
    · rw [if_neg (by omega)]
      omega
    · rw [if_neg (by omega)]
      omega
  · refine ⟨d.year / 400, d.year % 400, d.month - 3, Nat.mod_lt _ (by decide), by omega, ?_, ?_⟩
    · rw [if_pos (by omega)]
      omega
    · rw [if_pos (by omega)]
      omega

theorem monthStart_march (y : Nat) : yearStart (y + 1) = yearStart y + monthStart y 3 + 306 := by
  by_cases h : IsLeap y
  · simp [yearStart, yearLength, monthStart, monthLength, h]
  · simp [yearStart, yearLength, monthStart, monthLength, h]

/-- The formula for the months, but February. -/
theorem marchStart_succ {mp : Nat} (h : mp < 10) (y : Nat) :
    marchStart (mp + 1) = marchStart mp + monthLength y (mp + 3) := by
  have hne : mp + 3 ≠ 2 := by omega
  unfold monthLength marchStart
  rw [if_neg hne]
  revert mp
  decide

theorem monthStart_add {mp : Nat} (h : mp < 10) (y : Nat) : monthStart y (mp + 3) = monthStart y 3 + marchStart mp := by
  induction mp with
  | zero => rfl
  | succ mp ih =>
    have hmp : mp < 10 := by omega
    rw [marchStart_succ hmp y, monthStart_succ (Nat.le_add_left _ _), ih hmp, Nat.add_assoc]

namespace InEra

variable {d : Date} {era yoe mp : Nat}

theorem number_eq (h : InEra d era yoe mp) :
    d.number = 60 + 146097 * era + (365 * yoe + yoe / 4 - yoe / 100) + (marchStart mp + (d.day - 1)) := by
  have hyoe := h.yoe_lt
  have hmp := h.mp_lt
  have hyear := h.year
  have hmonth := h.month
  have hstart := yearStart_succ (400 * era + yoe)
  have h4 : (400 * era + yoe) / 4 = 100 * era + yoe / 4 := by omega
  have h100 : (400 * era + yoe) / 100 = 4 * era + yoe / 100 := by omega
  have h400 : (400 * era + yoe) / 400 = era := by omega
  rw [h4, h100, h400] at hstart
  unfold Date.number
  by_cases hlt : mp < 10
  · rw [if_pos hlt] at hyear hmonth
    have hmarch := monthStart_march (400 * era + yoe)
    rw [hyear, hmonth, Nat.add_zero, monthStart_add hlt]
    omega
  · -- January and February are in the year after
    rw [if_neg hlt] at hyear hmonth
    have hbefore : monthStart d.year d.month + 306 = marchStart mp := by
      obtain rfl | rfl : mp = 10 ∨ mp = 11 := by omega
      · rw [hmonth]
        rfl
      · rw [hmonth]
        rfl
    rw [hyear] at hbefore ⊢
    omega

/-- The day is one of its month. -/
theorem day_le (h : InEra d era yoe mp) : marchStart mp + d.day ≤ marchStart (mp + 1) ∧ marchStart mp + d.day ≤ 366 := by
  have hmp := h.mp_lt
  have hle := d.day_le
  have hmonth := h.month
  by_cases hlt : mp < 10
  · rw [if_pos hlt] at hmonth
    rw [hmonth] at hle
    have hsucc := marchStart_succ hlt d.year
    have hlast : marchStart (mp + 1) ≤ 306 := by
      unfold marchStart
      omega
    omega
  · rw [if_neg hlt] at hmonth
    obtain rfl | rfl : mp = 10 ∨ mp = 11 := by omega
    · have hjanuary : marchStart (10 + 1) = marchStart 10 + monthLength d.year d.month := by
        rw [hmonth]
        rfl
      have hlast : marchStart (10 + 1) = 337 := rfl
      omega
    · have hfebruary : monthLength d.year d.month ≤ 29 := by
        rw [hmonth]
        exact monthLength_february d.year
      have hstart : marchStart 11 = 337 := rfl
      have hlast : marchStart (11 + 1) = 367 := rfl
      omega

/-- Only the last year before a leap year's March has 366 days. -/
theorem isLeap_of_last (h : InEra d era yoe mp) (hlast : marchStart mp + (d.day - 1) = 365) : IsLeap (yoe + 1) := by
  have hday := h.day_le.1
  have hpos := d.day_pos
  have hle := d.day_le
  have hmp := h.mp_lt
  have hmonth := h.month
  have hyear := h.year
  have hfebruary : mp = 11 := by
    unfold marchStart at hday hlast
    omega
  subst hfebruary
  have hstart : marchStart 11 = 337 := rfl
  rw [if_neg (by decide)] at hmonth hyear
  by_contra hleap
  have hshort : monthLength d.year d.month = 28 := by
    have hcommon : ¬ IsLeap d.year := by
      unfold IsLeap at hleap ⊢
      omega
    rw [hmonth]
    exact if_neg hcommon
  omega

end InEra

/-- The year of the era is found from the days in the era. -/
theorem yearOfEra {doe yoe doy : Nat} (hyoe : yoe < 400) (hdoy : doy ≤ 365) (hleap : doy = 365 → IsLeap (yoe + 1))
    (hdoe : 365 * yoe + yoe / 4 - yoe / 100 + doy = doe) :
    doe < 146097 ∧ (doe - doe / 1460 + doe / 36524 - doe / 146096) / 365 = yoe := by
  -- the year `j` of the cycle `k` of four years of the century `c`
  obtain ⟨c, k, j, hc, hk, hj, rfl⟩ : ∃ c k j, c < 4 ∧ k < 25 ∧ j < 4 ∧ yoe = 100 * c + 4 * k + j :=
    ⟨yoe / 100, yoe % 100 / 4, yoe % 4, by omega, by omega, by omega, by omega⟩
  have h4 : (100 * c + 4 * k + j) / 4 = 25 * c + k := by omega
  have h100 : (100 * c + 4 * k + j) / 100 = c := by omega
  have hlong : doy = 365 → j = 3 ∧ (k = 24 → c = 3) := by
    intro h
    have hleap := hleap h
    unfold IsLeap at hleap
    omega
  have hsum : 36524 * c + 1461 * k + 365 * j + doy = doe := by omega
  clear hleap h4 h100 hyoe hdoe
  by_cases hlast : doe = 146096
  · subst hlast
    exact ⟨by decide, by omega⟩
  · have hlt : doe < 146096 := by omega
    have h146096 : doe / 146096 = 0 := Nat.div_eq_of_lt hlt
    have h36524 : doe / 36524 = c := by omega
    -- one too many from the first day on, in the last year of a cycle with a leap year
    obtain ⟨e, h1460, hle, hleapDay, hfirst⟩ : ∃ e, doe / 1460 = 25 * c + k + e ∧ e ≤ 1 ∧ (doy = 365 → e = 1) ∧
        (e = 1 → 1 ≤ doy) :=
      ⟨doe / 1460 - (25 * c + k), by omega, by omega, by omega, by omega⟩
    rw [h146096, h36524, h1460]
    clear h146096 h36524 h1460
    refine ⟨by omega, ?_⟩
    rw [Nat.div_eq_iff (by decide)]
    omega

/-- The month is found from the day of the year. -/
theorem monthOfYear {mp doy : Nat} (hle : marchStart mp ≤ doy) (hlt : doy < marchStart (mp + 1)) : (5 * doy + 2) / 153 = mp := by
  unfold marchStart at hle hlt
  omega

/-! ### The conversion -/

/-- 1970-01-01. -/
def epoch : Date := Date.newYear 1970

theorem number_epoch : epoch.number = 719528 := by
  have hyear : yearStart 1970 = 719528 := yearStart_succ 1969
  have hmonth : monthStart 1970 1 = 0 := rfl
  simp only [Date.number, epoch, Date.newYear, hyear, hmonth]

/-- The arithmetic for a day of an era that is known to be the `doy`th of the year `yoe`; it stays in range. -/
theorem civilFromDays_at {days era doe yoe doy mp : Nat} (hdays : 146097 * era + doe < 2 ^ 64) (hdoe : doe < 146097)
    (hdoy : 365 * yoe + yoe / 4 - yoe / 100 + doy = doe) (hz : days + 719468 = 146097 * era + doe)
    (hyear : (doe - doe / 1460 + doe / 36524 - doe / 146096) / 365 = yoe) (hmonth : (5 * doy + 2) / 153 = mp) (hmp : mp < 12) :
    civilFromDays days = some (400 * era + yoe + (if mp < 10 then 0 else 1), (if mp < 10 then mp + 3 else mp - 9),
      doy - marchStart mp + 1) := by
  have hera : (146097 * era + doe) / 146097 = era := by omega
  have hrest : doe - (365 * yoe + yoe / 4 - yoe / 100) = doy := by omega
  have hyoe : yoe ≤ 146097 := by omega
  have hle : doy ≤ 146097 := by omega
  have hstart : marchStart mp ≤ doy := by
    unfold marchStart
    omega
  unfold civilFromDays
  rw [add_bind (hz ▸ hdays), hz, hera, mul_bind (by omega), sub_bind (by omega), Nat.mul_comm era, Nat.add_sub_cancel_left]
  clear hz
  -- the year
  rw [sub_bind (by omega), add_bind (by omega), sub_bind (by omega), hyear, mul_bind (by omega), add_bind (by omega)]
  clear hyear hera
  -- the day of the year and the month
  rw [mul_bind (by omega), add_bind (by omega), sub_bind (by omega), sub_bind (by omega), hrest, mul_bind (by omega),
    add_bind (by omega), hmonth]
  clear hdoy hrest hmonth
  -- the day
  rw [mul_bind (by omega), add_bind (by omega), ← marchStart, sub_bind hstart, add_bind (by omega)]
  by_cases hlt : mp < 10
  · rw [if_pos hlt, if_pos hlt, if_pos hlt, add_bind (by omega)]
    dsimp only
    rw [if_neg (by omega), Nat.mul_comm era, Nat.add_comm yoe]
    rfl
  · rw [if_neg hlt, if_neg hlt, if_neg hlt, sub_bind (by omega)]
    dsimp only
    rw [if_pos (by omega), add_bind (by omega), Nat.mul_comm era, Nat.add_comm yoe]
    rfl

/-- The date with the number is found. -/
theorem civilFromDays_number {d : Date} {days : Nat} (hdays : days + 719468 < 2 ^ 64) (h : d.number = epoch.number + days) :
    civilFromDays days = some (d.year, d.month, d.day) := by
  rw [number_epoch] at h
  have hpositive : 0 < d.year := by
    by_contra hzero
    have hfirst := d.number_lt_year
    rw [Nat.eq_zero_of_not_pos hzero] at hfirst
    have hlength : yearStart 0 + yearLength 0 = 366 := rfl
    omega
  obtain ⟨era, yoe, mp, he⟩ := exists_inEra hpositive
  have hpos := d.day_pos
  obtain ⟨hday, hlast⟩ := he.day_le
  have hleap := he.isLeap_of_last
  have hnumber := he.number_eq
  generalize hdoy : marchStart mp + (d.day - 1) = doy at hnumber hleap
  have hdayOf : doy - marchStart mp + 1 = d.day := by omega
  have hmonth : (5 * doy + 2) / 153 = mp := monthOfYear (by omega) (by omega)
  generalize hdoe : 365 * yoe + yoe / 4 - yoe / 100 + doy = doe
  have hz : days + 719468 = 146097 * era + doe := by omega
  obtain ⟨hlt, hyear⟩ := yearOfEra he.yoe_lt (by omega) hleap hdoe
  rw [civilFromDays_at (hz ▸ hdays) hlt hdoe hz hyear hmonth he.mp_lt, hdayOf, ← he.year, ← he.month]

theorem exists_date (days : Nat) : ∃ d : Date, d.number = epoch.number + days := Date.exists_number _

/-! ### The numbers in a timestamp -/

/-- The numbers in a timestamp, the most significant first. -/
def Utc.fields (u : Utc) : List Nat := [u.year, u.month, u.day, u.hour, u.minute, u.second, u.millis]

/-- The whole milliseconds since the epoch; none before it. -/
def SystemTime.millis (time : SystemTime) : Nat := (time.val / 1000000).toNat

/-- The timestamp shows the date and the time of day that is `millis` after the epoch. -/
structure Utc.Shows (u : Utc) (d : Date) (millis : Nat) : Prop where
  year : u.year = d.year
  month : u.month = d.month
  day : u.day = d.day
  hour_lt : u.hour < 24
  minute_lt : u.minute < 60
  second_lt : u.second < 60
  millis_lt : u.millis < 1000
  total : d.number * 86400000 + (((u.hour * 60 + u.minute) * 60 + u.second) * 1000 + u.millis) =
    epoch.number * 86400000 + millis

/-- Days and the time of day in milliseconds. -/
private theorem total_eq {days timeOfDay secs subsec millis : Nat} (first : Nat) (h : secs = days * 86400 + timeOfDay)
    (hmillis : secs * 1000 + subsec = millis) :
    (first + days) * 86400000 + (timeOfDay * 1000 + subsec) = first * 86400000 + millis := by
  subst hmillis h
  omega

theorem utc_shows (time : SystemTime) : ∃ u d, utc time = some u ∧ u.Shows d time.millis := by
  obtain ⟨sinceEpoch, hsince, hmillis⟩ : ∃ sinceEpoch : Duration, time.durationSinceEpoch.getD .zero = sinceEpoch ∧
      sinceEpoch.secs * 1000 + sinceEpoch.nanos / 1000000 = time.millis := by
    refine ⟨_, rfl, ?_⟩
    unfold SystemTime.durationSinceEpoch SystemTime.millis
    split
    · simp only [Option.getD_some]
      omega
    · simp only [Option.getD_none, Duration.zero]
      omega
  have hsecs := sinceEpoch.secs_lt
  have hnanos := sinceEpoch.nanos_lt
  obtain ⟨d, hd⟩ := exists_date (sinceEpoch.secs / 86400)
  refine ⟨⟨d.year, d.month, d.day, sinceEpoch.secs % 86400 / 3600, sinceEpoch.secs % 86400 % 3600 / 60,
    sinceEpoch.secs % 86400 % 60, sinceEpoch.subsecMillis⟩, d, ?_, rfl, rfl, rfl, ?_, ?_, ?_, ?_, ?_⟩
  · unfold utc
    rw [hsince]
    dsimp only
    rw [civilFromDays_number (by omega) hd]
    rfl
  · dsimp only
    omega
  · exact Nat.div_lt_of_lt_mul (Nat.mod_lt _ (by decide))
  · exact Nat.mod_lt _ (by decide)
  · exact Nat.div_lt_of_lt_mul hnanos
  · have htime : ∀ s, (s / 3600 * 60 + s % 3600 / 60) * 60 + s % 60 = s := by omega
    have hofDay := htime (sinceEpoch.secs % 86400)
    dsimp only [Duration.subsecMillis]
    rw [hofDay, hd]
    exact total_eq _ (by omega) hmillis

namespace Utc.Shows

variable {u u' : Utc} {d d' : Date} {millis millis' : Nat}

theorem fields_lt (h : u.Shows d millis) (h' : u'.Shows d' millis') (hlt : millis < millis') : u.fields < u'.fields := by
  have htotal := h.total
  have htotal' := h'.total
  have hbounds := And.intro h.hour_lt (And.intro h.minute_lt (And.intro h.second_lt h.millis_lt))
  have hbounds' := And.intro h'.hour_lt (And.intro h'.minute_lt (And.intro h'.second_lt h'.millis_lt))
  simp only [Utc.fields, List.cons_lt_cons_iff, h.year, h.month, h.day, h'.year, h'.month, h'.day]
  by_cases hdate : d.number < d'.number
  · -- an earlier day
    rcases Date.fields_lt.1 (Date.fields_lt_iff.2 hdate) with hy | ⟨hy, hm | ⟨hm, hd⟩⟩
    · exact .inl hy
    · exact .inr ⟨hy, .inl hm⟩
    · exact .inr ⟨hy, .inr ⟨hm, .inl hd⟩⟩
  · obtain rfl : d = d' := Date.number_injective (by omega)
    refine .inr ⟨rfl, .inr ⟨rfl, .inr ⟨rfl, ?_⟩⟩⟩
    omega

theorem eq (h : u.Shows d millis) (h' : u'.Shows d' millis) : u = u' := by
  have htotal := h.total
  have htotal' := h'.total
  have hbounds := And.intro h.hour_lt (And.intro h.minute_lt (And.intro h.second_lt h.millis_lt))
  have hbounds' := And.intro h'.hour_lt (And.intro h'.minute_lt (And.intro h'.second_lt h'.millis_lt))
  obtain rfl : d = d' := Date.number_injective (by omega)
  have hhour : u.hour = u'.hour := by omega
  have hminute : u.minute = u'.minute := by omega
  have hsecond : u.second = u'.second := by omega
  have hmillis : u.millis = u'.millis := by omega
  exact Utc.ext (h.year.trans h'.year.symm) (h.month.trans h'.month.symm) (h.day.trans h'.day.symm) hhour hminute hsecond hmillis

theorem fields_lt_iff (h : u.Shows d millis) (h' : u'.Shows d' millis') : u.fields < u'.fields ↔ millis < millis' := by
  refine ⟨fun hlt => ?_, h.fields_lt h'⟩
  by_contra hge
  by_cases heq : millis = millis'
  · subst heq
    rw [h.eq h'] at hlt
    exact List.lt_irrefl _ hlt
  · exact List.lt_asymm hlt (h'.fields_lt h (by omega))

end Utc.Shows

/-! ### Texts -/

theorem ofDigitChars_padded (width n : Nat) : Nat.ofDigitChars 10 (padded width n) 0 = n := by
  unfold padded List.leftpad
  rw [Nat.ofDigitChars_append, Nat.ofDigitChars_replicate_zero, Nat.mul_zero, Nat.ofDigitChars_ten_toDigits]

theorem padded_inj {width n n' : Nat} (h : padded width n = padded width n') : n = n' := by
  rw [← ofDigitChars_padded width n, h, ofDigitChars_padded]

theorem isDigit_of_mem_padded {width n : Nat} {c : Char} (h : c ∈ padded width n) : c.isDigit = true := by
  unfold padded List.leftpad at h
  rcases List.mem_append.1 h with h | h
  · rw [List.eq_of_mem_replicate h]
    rfl
  · exact Nat.isDigit_of_mem_toDigits (by decide) (by decide) h

theorem notMem_padded {c : Char} (hc : c.isDigit = false) (width n : Nat) : c ∉ padded width n := by
  intro h
  rw [isDigit_of_mem_padded h] at hc
  exact absurd hc (by decide)

/-- The text determines the numbers. -/
theorem Utc.text_injective {u u' : Utc} (h : u.text = u'.text) : u = u' := by
  have hdash := notMem_padded (c := '-') rfl
  have ht := notMem_padded (c := 'T') rfl
  have hcolon := notMem_padded (c := ':') rfl
  have hdot := notMem_padded (c := '.') rfl
  obtain ⟨hyear, h⟩ := Text.append_cons_inj (hdash _ _) (hdash _ _) (String.ofList_injective h)
  obtain ⟨hmonth, h⟩ := Text.append_cons_inj (hdash _ _) (hdash _ _) h
  obtain ⟨hday, h⟩ := Text.append_cons_inj (ht _ _) (ht _ _) h
  obtain ⟨hhour, h⟩ := Text.append_cons_inj (hcolon _ _) (hcolon _ _) h
  obtain ⟨hminute, h⟩ := Text.append_cons_inj (hcolon _ _) (hcolon _ _) h
  obtain ⟨hsecond, h⟩ := Text.append_cons_inj (hdot _ _) (hdot _ _) h
  exact Utc.ext (padded_inj hyear) (padded_inj hmonth) (padded_inj hday) (padded_inj hhour) (padded_inj hminute)
    (padded_inj hsecond) (padded_inj (List.append_cancel_right h))

/-- The last day that `u64` seconds reach. -/
def lastDay : Nat := (2 ^ 64 - 1) / 86400

/-- The conversion of all days that `u64` seconds reach has a result, a date of the calendar; it is the inverse of
counting the days from 1970-01-01, and takes the next day to the next date.  Every time has a timestamp, which shows its
milliseconds since the epoch; timestamps follow each other as these do, and are the same text only for the same
millisecond. -/
theorem calendar_conversion :
    (∀ days ≤ lastDay, ∃ d : Date, civilFromDays days = some (d.year, d.month, d.day) ∧ d.number = epoch.number + days) ∧
    (∀ d : Date, epoch.number ≤ d.number → d.number ≤ epoch.number + lastDay →
      civilFromDays (d.number - epoch.number) = some (d.year, d.month, d.day)) ∧
    (∀ days < lastDay, ∃ d : Date, civilFromDays days = some (d.year, d.month, d.day) ∧
      civilFromDays (days + 1) = some (d.next.year, d.next.month, d.next.day)) ∧
    (∀ time, ∃ u d, utc time = some u ∧ formatUtc time = some u.text ∧ u.Shows d time.millis) ∧
    ∀ time time' u u', utc time = some u → utc time' = some u' →
      (u.fields < u'.fields ↔ time.millis < time'.millis) ∧ (u.text = u'.text ↔ time.millis = time'.millis) := by
  have hlast : lastDay + 719468 < 2 ^ 64 := by decide
  refine ⟨fun days hdays => ?_, fun d hfrom hto => ?_, fun days hdays => ?_, fun time => ?_, fun time time' u u' hu hu' => ?_⟩
  · obtain ⟨d, hd⟩ := exists_date days
    exact ⟨d, civilFromDays_number (by omega) hd, hd⟩
  · exact civilFromDays_number (by omega) (by omega)
  · obtain ⟨d, hd⟩ := exists_date days
    have hnext : d.next.number = epoch.number + (days + 1) := by rw [d.number_next, hd, Nat.add_assoc]
    exact ⟨d, civilFromDays_number (by omega) hd, civilFromDays_number (by omega) hnext⟩
  · obtain ⟨u, d, hu, hs⟩ := utc_shows time
    exact ⟨u, d, hu, congrArg (Option.map Utc.text) hu, hs⟩
  · obtain ⟨v, d, hv, hs⟩ := utc_shows time
    obtain ⟨v', d', hv', hs'⟩ := utc_shows time'
    obtain rfl := Option.some.inj (hu.symm.trans hv)
    obtain rfl := Option.some.inj (hu'.symm.trans hv')
    refine ⟨hs.fields_lt_iff hs', fun htext => ?_, fun hmillis => ?_⟩
    · obtain rfl := Utc.text_injective htext
      have hlt := mt (hs.fields_lt hs') (List.lt_irrefl _)
      have hgt := mt (hs'.fields_lt hs) (List.lt_irrefl _)
      omega
    · rw [hmillis] at hs
      rw [hs.eq hs']

example : civilFromDays 19782 = some (2024, 2, 29) := by decide

end Timestamp

end Qeminga
