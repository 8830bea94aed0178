/-
Dates and the counting of days. `Date.next` is the calendar as one learns it: the day after a date is in the same month,
or the first of the next month, or the first of January. `Date.ofDays` computes the date with a number by division, and
goes from each day to the next one (`next_ofDays`); since it begins with 1970-01-01 at zero, the date with a number is
that many days from there (`isDay_ofDays`).

No other date has this number, since no two dates have the same day after them (`isDay_iff`).

The way there: within 400 years from the first of March the number of a day is split into the start of its year and the
day of that year (`exists_dayNumber`), and `ofDays` finds this split again (`ofDays_dayNumber`). The split also gives
the first and the last day of the years from 0 to 9999 (`year_ofDays_nonneg`, `year_ofDays_le`).
-/
import Mathlib.Tactic
import PacketForwarder.Time.Date

namespace PacketForwarder.Date

/-! ## The calendar -/

def next (d : Date) : Date :=
  if d.day < daysInMonth d.year d.month then { d with day := d.day + 1 }
  else if d.month < 12 then ⟨d.year, d.month + 1, 1⟩
  else ⟨d.year + 1, 1, 1⟩

def epoch : Date := ⟨1970, 1, 1⟩

/-- **The date is so many days after 1970-01-01**, or before it. -/
def IsDay (n : Int) (d : Date) : Prop := d.isValid = true ∧ next^[(-n).toNat] d = next^[n.toNat] epoch

/-- the last day of a month -/
def EndsMonth (d : Date) : Prop := d.next.day = 1

/-! ## Years of a cycle -/

/-- the days of a cycle before a year of it, which begins in March -/
def yearStart (y : Nat) : Nat := 365 * y + y / 4 - y / 100 + y / 400

/-- the year of a day in a cycle, as it is computed -/
def yearOfCycle (day : Nat) : Nat := (day - day / 1460 + day / 36524 - day / 146096) / 365

/-- the first and the last day of a year are found to be in it -/
theorem yearOfCycle_ends : ∀ y < 400, yearOfCycle (yearStart y) = y ∧ yearOfCycle (yearStart (y + 1) - 1) = y := by
  decide +kernel

theorem yearOfCycle_mono : Monotone yearOfCycle := by
  refine monotone_nat_of_le_succ fun day => Nat.div_le_div_right ?_
  have hleap : (day + 1) / 1460 ≤ day / 1460 + 1 := by omega
  -- a day that ends four centuries also ends one
  have hcentury : (day + 1) / 36524 = day / 36524 ∧ (day + 1) / 146096 = day / 146096 ∨
      (day + 1) / 36524 = day / 36524 + 1 ∧ (day + 1) / 146096 ≤ day / 146096 + 1 := by omega
  omega

/-- **So is every day between them.** -/
theorem yearOfCycle_eq {y day : Nat} (hy : y < 400) (hlo : yearStart y ≤ day) (hhi : day < yearStart (y + 1)) :
    yearOfCycle day = y := by
  obtain ⟨hfirst, hlast⟩ := yearOfCycle_ends y hy
  refine le_antisymm ?_ ?_
  · calc yearOfCycle day ≤ yearOfCycle (yearStart (y + 1) - 1) := yearOfCycle_mono (Nat.le_sub_one_of_lt hhi)
      _ = y := hlast
  · calc y = yearOfCycle (yearStart y) := hfirst.symm
      _ ≤ yearOfCycle day := yearOfCycle_mono hlo

theorem exists_year {day n : Nat} (h : day < yearStart n) : ∃ y < n, yearStart y ≤ day ∧ day < yearStart (y + 1) := by
  induction n with
  | zero => cases h
  | succ n ih =>
    rcases lt_or_ge day (yearStart n) with hlt | hge
    · obtain ⟨y, hy, hday⟩ := ih hlt
      exact ⟨y, hy.trans (Nat.lt_succ_self n), hday⟩
    · exact ⟨n, Nat.lt_succ_self n, hge, h⟩

/-! ## Months -/

/-- the days before a month of a year, counted from March -/
def monthStart (m : Nat) : Nat := (153 * m + 2) / 5

/-- the month of a day of a year, as it is computed -/
def monthOfYear (day : Nat) : Nat := (5 * day + 2) / 153

theorem monthOfYear_eq {m day : Nat} : monthOfYear day = m ↔ monthStart m ≤ day ∧ day < monthStart (m + 1) := by
  unfold monthOfYear monthStart
  omega

/-- a day of a year in a cycle, where the month is known -/
def inMonth (cycle : Int) (y m day : Nat) : Date where
  year := if m < 10 then cycle * 400 + y else cycle * 400 + y + 1
  month := if m < 10 then m + 3 else m - 9
  day := day - monthStart m + 1

/-- a day of a year in a cycle -/
def march (cycle : Int) (y day : Nat) : Date := inMonth cycle y (monthOfYear day) day

theorem monthOfYear_lt {day : Nat} (h : day < 366) : monthOfYear day < 12 := by
  unfold monthOfYear
  omega

/-- the days of every month but February, which is the last one of such a year -/
theorem daysInMonth_inMonth {m : Nat} (hm : m < 11) (cycle : Int) (y day : Nat) :
    daysInMonth (inMonth cycle y m day).year (inMonth cycle y m day).month = monthStart (m + 1) - monthStart m := by
  interval_cases m <;> rfl

theorem isLeapYear_iff (cycle : Int) (y : Nat) : isLeapYear (cycle * 400 + y) = true ↔
    y % 4 = 0 ∧ (y % 100 ≠ 0 ∨ y % 400 = 0) := by
  have h4 : (cycle * 400 + y) % 4 = 0 ↔ y % 4 = 0 := by omega
  have h100 : (cycle * 400 + y) % 100 = 0 ↔ y % 100 = 0 := by omega
  have h400 : (cycle * 400 + y) % 400 = 0 ↔ y % 400 = 0 := by omega
  simp only [isLeapYear, Bool.and_eq_true, Bool.or_eq_true, decide_eq_true_eq, h4, h400, ne_eq, h100]

/-- a leap year is a day longer -/
theorem yearStart_succ (cycle : Int) (y : Nat) :
    yearStart (y + 1) = yearStart y + if isLeapYear (cycle * 400 + (y + 1 : Nat)) then 366 else 365 := by
  have h4 : (y + 1) / 4 = y / 4 + if (y + 1) % 4 = 0 then 1 else 0 := by split_ifs <;> omega
  have h100 : (y + 1) / 100 = y / 100 + if (y + 1) % 100 = 0 then 1 else 0 := by split_ifs <;> omega
  have h400 : (y + 1) / 400 = y / 400 + if (y + 1) % 400 = 0 then 1 else 0 := by split_ifs <;> omega
  have hle : y / 100 ≤ y := Nat.div_le_self y 100
  have hfour : (y + 1) % 100 = 0 → (y + 1) % 4 = 0 := by omega
  have hhundred : (y + 1) % 400 = 0 → (y + 1) % 100 = 0 := by omega
  simp only [isLeapYear_iff]
  unfold yearStart
  rw [h4, h100, h400]
  clear h4 h100 h400
  split_ifs <;> omega

/-! ## From day to day -/

variable {cycle : Int} {y day : Nat}

theorem length_year (cycle : Int) (h : yearStart y + day < yearStart (y + 1)) :
    day < 337 + daysInMonth (cycle * 400 + (y + 1 : Nat)) 2 := by
  rw [yearStart_succ cycle] at h
  unfold daysInMonth
  split_ifs at h ⊢ <;> omega

theorem yearStart_lt (y : Nat) : yearStart y < yearStart (y + 1) := by
  rw [yearStart_succ 0]
  split_ifs <;> omega

theorem day_lt (h : yearStart y + day < yearStart (y + 1)) : day < 366 := by
  rw [yearStart_succ 0] at h
  split_ifs at h <;> omega

theorem next_of_lt {d : Date} (h : d.day < daysInMonth d.year d.month) : d.next = { d with day := d.day + 1 } :=
  if_pos h

theorem next_of_last {d : Date} (h : ¬d.day < daysInMonth d.year d.month) :
    d.next = if d.month < 12 then ⟨d.year, d.month + 1, 1⟩ else ⟨d.year + 1, 1, 1⟩ :=
  if_neg h

theorem next_inMonth {m : Nat} (hlo : monthStart m ≤ day)
    (h : day - monthStart m + 1 < daysInMonth (inMonth cycle y m day).year (inMonth cycle y m day).month) :
    (inMonth cycle y m day).next = inMonth cycle y m (day + 1) := by
  have hday : day + 1 - monthStart m = day - monthStart m + 1 := by omega
  rw [next_of_lt h, inMonth, inMonth, hday]

theorem next_inMonth_last {m : Nat} (hm : m < 11) (hlo : monthStart m ≤ day) (hlast : day + 1 = monthStart (m + 1)) :
    (inMonth cycle y m day).next = inMonth cycle y (m + 1) (day + 1) := by
  have hfull :
      ¬(inMonth cycle y m day).day < daysInMonth (inMonth cycle y m day).year (inMonth cycle y m day).month := by
    have hday : (inMonth cycle y m day).day = day - monthStart m + 1 := rfl
    have hdays := daysInMonth_inMonth hm cycle y day
    omega
  rw [next_of_last hfull, hlast]
  simp only [inMonth, Nat.sub_self, zero_add]
  rcases lt_trichotomy m 9 with h | rfl | h
  · have h10 : m < 10 := by omega
    have h12 : m + 3 < 12 := by omega
    have hnext : m + 1 < 10 := by omega
    simp only [h10, h12, hnext, ↓reduceIte]
  · rfl
  · obtain rfl : m = 10 := by omega
    rfl

/-- **The calendar has the day.** -/
theorem march_fits (cycle : Int) (h : yearStart y + day < yearStart (y + 1)) :
    day - monthStart (monthOfYear day) + 1 ≤ daysInMonth (march cycle y day).year (march cycle y day).month := by
  have hlength := length_year cycle h
  have hm := monthOfYear_lt (day_lt h)
  obtain ⟨hlo, hhi⟩ := monthOfYear_eq.1 (rfl : monthOfYear day = monthOfYear day)
  unfold march
  generalize monthOfYear day = m at *
  rcases lt_or_ge m 11 with hm' | hm'
  · have hdays := daysInMonth_inMonth hm' cycle y day
    omega
  · obtain rfl : m = 11 := by omega
    have hyear : (inMonth cycle y 11 day).year = cycle * 400 + (y + 1 : Nat) := add_assoc _ _ _
    have hmonth : (inMonth cycle y 11 day).month = 2 := rfl
    have hstart : monthStart 11 = 337 := rfl
    rw [hyear, hmonth]
    omega

/-- **The next day of the same year** -/
theorem next_march (h : yearStart y + (day + 1) < yearStart (y + 1)) :
    (march cycle y day).next = march cycle y (day + 1) := by
  have hlt := day_lt h
  have hfits := march_fits cycle h
  obtain ⟨hlo, hhi⟩ := monthOfYear_eq.1 (rfl : monthOfYear day = monthOfYear day)
  unfold march at *
  rcases lt_or_ge (day + 1) (monthStart (monthOfYear day + 1)) with hsame | hge
  · rw [monthOfYear_eq.2 ⟨by omega, hsame⟩] at hfits ⊢
    exact next_inMonth hlo (lt_of_lt_of_le (by omega) hfits)
  · have hstart : monthStart (monthOfYear day + 1) < monthStart (monthOfYear day + 1 + 1) := by
      unfold monthStart
      omega
    have hm : monthOfYear day < 11 := by
      unfold monthOfYear monthStart at *
      omega
    rw [monthOfYear_eq.2 ⟨hge, by omega⟩]
    exact next_inMonth_last hm hlo (by omega)

/-- **The day after the last one of a year** -/
theorem next_march_last (h : yearStart y + (day + 1) = yearStart (y + 1)) :
    (march cycle y day).next = march cycle (y + 1) 0 := by
  rw [yearStart_succ cycle] at h
  have hfebruary : ∀ n : Nat, inMonth cycle y 11 n = ⟨cycle * 400 + (y + 1 : Nat), 2, n - 337 + 1⟩ := by
    intro n
    simp [inMonth, monthStart, add_assoc]
  have hmarch : march cycle (y + 1) 0 = ⟨cycle * 400 + (y + 1 : Nat), 3, 1⟩ := rfl
  have hm : monthOfYear day = 11 := by
    unfold monthOfYear
    split_ifs at h <;> omega
  have hfull : ¬day - 337 + 1 < daysInMonth (cycle * 400 + (y + 1 : Nat)) 2 := by
    unfold daysInMonth
    split_ifs at h ⊢ <;> omega
  rw [march, hm, hfebruary, next_of_last hfull, hmarch]
  rfl

/-! ## The date with a number -/

theorem yearStart_le (hy : y < 400) : yearStart (y + 1) ≤ 146097 := by
  unfold yearStart
  omega

/-- the days of whole cycles, and then of years -/
def dayNumber (cycle : Int) (y day : Nat) : Int := cycle * daysPerCycle + (yearStart y + day : Nat) - epochDay

/-- **The split of a day is found again.** -/
theorem ofDays_dayNumber (hy : y < 400) (h : yearStart y + day < yearStart (y + 1)) :
    ofDays (dayNumber cycle y day) = march cycle y day := by
  have hlt := h.trans_le (yearStart_le hy)
  have hshift : dayNumber cycle y day + epochDay = cycle * 146097 + (yearStart y + day : Nat) := sub_add_cancel _ _
  have hcycle : (cycle * 146097 + (yearStart y + day : Nat)) / 146097 = cycle := by omega
  have hday : ((cycle * 146097 + (yearStart y + day : Nat)) % 146097).toNat = yearStart y + day := by omega
  have hyear : yearOfCycle (yearStart y + day) = y := yearOfCycle_eq hy (Nat.le_add_right _ _) h
  have hrest : yearStart y + day - (365 * y + y / 4 - y / 100) = day := by
    unfold yearStart
    omega
  unfold ofDays
  unfold yearOfCycle at hyear
  simp only [hshift, daysPerCycle, hcycle, hday, hyear, hrest]
  rfl

/-- **Every day has such a split.** -/
theorem exists_dayNumber (n : Int) : ∃ cycle y day, y < 400 ∧ yearStart y + day < yearStart (y + 1) ∧
    n = dayNumber cycle y day := by
  have hlt : ((n + epochDay) % daysPerCycle).toNat < yearStart 400 := by
    have h400 : yearStart 400 = 146097 := rfl
    unfold daysPerCycle
    omega
  obtain ⟨y, hy, hlo, hhi⟩ := exists_year hlt
  refine ⟨(n + epochDay) / daysPerCycle, y, _, hy, (Nat.add_sub_of_le hlo).symm ▸ hhi, ?_⟩
  rw [dayNumber, Nat.add_sub_of_le hlo]
  unfold daysPerCycle
  omega

/-- **From each number to the next one the date goes to the next day.** -/
theorem next_ofDays (n : Int) : (ofDays n).next = ofDays (n + 1) := by
  obtain ⟨cycle, y, day, hy, h, rfl⟩ := exists_dayNumber n
  have hnext : dayNumber cycle y day + 1 = dayNumber cycle y (day + 1) := by
    unfold dayNumber
    push_cast
    ring
  rw [ofDays_dayNumber hy h]
  rcases lt_or_ge (yearStart y + (day + 1)) (yearStart (y + 1)) with hlt | hge
  · rw [next_march hlt, hnext, ofDays_dayNumber hy hlt]
  · have hlast : yearStart y + (day + 1) = yearStart (y + 1) := by omega
    rw [next_march_last hlast, hnext]
    rcases lt_or_ge (y + 1) 400 with hy' | hy'
    · have hyear : dayNumber cycle y (day + 1) = dayNumber cycle (y + 1) 0 := by
        rw [dayNumber, hlast]
        rfl
      rw [hyear, ofDays_dayNumber hy' (yearStart_lt (y + 1))]
    · obtain rfl : y = 399 := by omega
      have hcycle : dayNumber cycle 399 (day + 1) = dayNumber (cycle + 1) 0 0 := by
        have h400 : yearStart (399 + 1) = 146097 := rfl
        have h0 : yearStart 0 + 0 = 0 := rfl
        rw [dayNumber, hlast, dayNumber, h400, h0, daysPerCycle]
        ring
      have hmarch : march cycle (399 + 1) 0 = march (cycle + 1) 0 0 := by
        have hyear : cycle * 400 + ((399 + 1 : Nat) : Int) = (cycle + 1) * 400 + (0 : Nat) := by
          push_cast
          ring
        unfold march inMonth
        rw [hyear]
      rw [hcycle, ofDays_dayNumber (by decide) (by decide), hmarch]

theorem ofDays_zero : ofDays 0 = epoch := by decide

theorem isValid_ofDays (n : Int) : (ofDays n).isValid = true := by
  obtain ⟨cycle, y, day, hy, h, rfl⟩ := exists_dayNumber n
  rw [ofDays_dayNumber hy h]
  have hfits := march_fits cycle h
  have hm := monthOfYear_lt (day_lt h)
  have hday : (march cycle y day).day = day - monthStart (monthOfYear day) + 1 := rfl
  have hmonth : 1 ≤ (march cycle y day).month ∧ (march cycle y day).month ≤ 12 := by
    unfold march inMonth
    dsimp only
    split_ifs <;> omega
  simp only [isValid, Bool.and_eq_true, decide_eq_true_eq]
  exact ⟨⟨hmonth, by omega⟩, hday ▸ hfits⟩

theorem iterate_next_ofDays (n : Int) (k : Nat) : next^[k] (ofDays n) = ofDays (n + k) := by
  induction k with
  | zero => simp
  | succ k ih =>
    rw [Function.iterate_succ_apply', ih, next_ofDays, Nat.cast_succ, add_assoc]

/-- **The date with a number is so many days after 1970-01-01.** -/
theorem isDay_ofDays (n : Int) : IsDay n (ofDays n) := by
  refine ⟨isValid_ofDays n, ?_⟩
  rw [← ofDays_zero, iterate_next_ofDays, iterate_next_ofDays]
  congr 1
  omega

/-! ## The number of a date -/

theorem isValid_iff {d : Date} : d.isValid = true ↔
    1 ≤ d.month ∧ d.month ≤ 12 ∧ 1 ≤ d.day ∧ d.day ≤ daysInMonth d.year d.month := by
  simp only [isValid, Bool.and_eq_true, decide_eq_true_eq, and_assoc]

theorem daysInMonth_pos (year : Int) (month : Nat) : 1 ≤ daysInMonth year month := by
  unfold daysInMonth
  split_ifs <;> norm_num

theorem isValid_next {d : Date} (h : d.isValid = true) : d.next.isValid = true := by
  rw [isValid_iff] at h ⊢
  obtain ⟨hmonth, hyear, hday, -⟩ := h
  unfold next
  split_ifs with hlt hdecember
  · exact ⟨hmonth, hyear, Nat.le_add_left 1 _, hlt⟩
  · exact ⟨Nat.le_add_left 1 _, hdecember, le_refl 1, daysInMonth_pos _ _⟩
  · exact ⟨le_refl 1, by norm_num, le_refl 1, daysInMonth_pos _ _⟩

def prev (d : Date) : Date :=
  if 1 < d.day then { d with day := d.day - 1 }
  else if 1 < d.month then ⟨d.year, d.month - 1, daysInMonth d.year (d.month - 1)⟩
  else ⟨d.year - 1, 12, 31⟩

theorem prev_next {d : Date} (h : d.isValid = true) : d.next.prev = d := by
  obtain ⟨year, month, day⟩ := d
  obtain ⟨hmonth, hyear, hday, hdays⟩ := isValid_iff.1 h
  dsimp only at hmonth hyear hday hdays
  rcases lt_or_ge day (daysInMonth year month) with hlt | hge
  · have hback : 1 < day + 1 := by omega
    rw [next_of_lt hlt, prev, if_pos hback]
    rfl
  · obtain rfl : day = daysInMonth year month := le_antisymm hdays hge
    rw [next_of_last hge.not_gt]
    dsimp only
    split_ifs with hdecember
    · have hback : 1 < month + 1 := by omega
      rw [prev, if_neg (lt_irrefl 1), if_pos hback]
      rfl
    · obtain rfl : month = 12 := by omega
      rw [prev, if_neg (lt_irrefl 1), if_neg (lt_irrefl 1), add_sub_cancel_right]
      rfl

theorem isValid_iterate_next {d : Date} (h : d.isValid = true) (k : Nat) : (next^[k] d).isValid = true := by
  induction k with
  | zero => exact h
  | succ k ih =>
    rw [Function.iterate_succ_apply']
    exact isValid_next ih

theorem iterate_prev_next {d : Date} (h : d.isValid = true) (k : Nat) : prev^[k] (next^[k] d) = d := by
  induction k with
  | zero => rfl
  | succ k ih =>
    rw [Function.iterate_succ_apply' next, Function.iterate_succ_apply prev, prev_next (isValid_iterate_next h k), ih]

/-- **One date has each number.** -/
theorem isDay_iff {n : Int} {d : Date} : IsDay n d ↔ d = ofDays n := by
  apply Iff.intro
  · rintro ⟨hvalid, hnext⟩
    obtain ⟨hvalid', hnext'⟩ := isDay_ofDays n
    rw [← iterate_prev_next hvalid (-n).toNat, hnext, ← hnext', iterate_prev_next hvalid']
  · rintro rfl
    exact isDay_ofDays n

/-! ## Years of four digits -/

theorem year_march (cycle : Int) (y day : Nat) :
    (march cycle y day).year = cycle * 400 + y + if day < 306 then 0 else 1 := by
  have hmonth : monthOfYear day < 10 ↔ day < 306 := by
    unfold monthOfYear
    omega
  unfold march inMonth
  dsimp only
  simp only [hmonth]
  split_ifs <;> omega

/-- day -719528 is 0000-01-01 -/
theorem year_ofDays_nonneg {n : Int} : 0 ≤ (ofDays n).year ↔ -719528 ≤ n := by
  obtain ⟨cycle, y, day, hy, h, rfl⟩ := exists_dayNumber n
  rw [ofDays_dayNumber hy h, year_march]
  unfold dayNumber daysPerCycle epochDay
  unfold yearStart at *
  split_ifs <;> omega

/-- day 2932896 is 9999-12-31 -/
theorem year_ofDays_le {n : Int} : (ofDays n).year ≤ 9999 ↔ n ≤ 2932896 := by
  obtain ⟨cycle, y, day, hy, h, rfl⟩ := exists_dayNumber n
  rw [ofDays_dayNumber hy h, year_march]
  unfold dayNumber daysPerCycle epochDay
  unfold yearStart at *
  split_ifs <;> omega

end PacketForwarder.Date
