/-
The text of an instant to the second, and the timestamps of RFC 3339. A timestamp has a year of four digits, two digits
for every other number, and no second 60 but the last second of a month, where leap seconds are put (`Timestamp`).

Not every instant has one (`HasTimestamp`): years before 0 and after 9999 have no four digits, and a leap second can be
held after any minute. Such a year is written with a sign, and such a second as the second 60 (`WrittenText`). The text
of an instant is its timestamp exactly if it has one (`timestampText_iff`), and otherwise the timestamp of nothing
(`isTimestamp_iff`).
-/
import PacketForwarder.Proofs.Number.Decimal
import PacketForwarder.Proofs.Time.Calendar
import PacketForwarder.Time.Instant

namespace PacketForwarder

/-! ## Digits -/

/-- so many digits that spell a number -/
structure Digits (width n : Nat) (cs : List Char) : Prop where
  isDigits : ∀ c ∈ cs, c.isDigit = true
  length : cs.length = width
  value : Decimal.ofDigits cs = n

theorem digits_paddedDigits {width n : Nat} (hw : 0 < width) (h : n < 10 ^ width) :
    Digits width n (paddedDigits width n) where
  isDigits _ hc := isDigit_of_mem_paddedDigits hc
  length := length_paddedDigits hw h
  value := Decimal.ofDigits_paddedDigits width n

/-- digits of one count in front of a mark are read in one way -/
theorem Digits.append_inj {width n n' : Nat} {cs cs' rest rest' : List Char} {mark : Char} (h : Digits width n cs)
    (h' : Digits width n' cs') (heq : cs ++ mark :: rest = cs' ++ mark :: rest') : n = n' ∧ rest = rest' := by
  obtain ⟨rfl, hrest⟩ := List.append_inj heq (h.length.trans h'.length.symm)
  exact ⟨h.value.symm.trans h'.value, (List.cons.inj hrest).2⟩

/-- no more digits than the number needs, unless the width asks for them -/
theorem length_paddedDigits_cases {width : Nat} (n : Nat) (hw : 1 < width) :
    (paddedDigits width n).length = width ∨
      width < (paddedDigits width n).length ∧ 10 ^ ((paddedDigits width n).length - 1) ≤ n := by
  rcases lt_or_ge n (10 ^ width) with hlt | hge
  · exact Or.inl (length_paddedDigits (by omega) hlt)
  · have hlen : width < (Nat.toDigits 10 n).length := by
      by_contra hle
      have := (Nat.length_toDigits_le_iff (b := 10) (by norm_num) (by omega)).1 (not_lt.1 hle)
      omega
    have hfull : (paddedDigits width n).length = (Nat.toDigits 10 n).length := by
      simp only [paddedDigits, List.length_append, List.length_replicate]
      omega
    refine Or.inr ⟨hfull ▸ hlen, ?_⟩
    rw [hfull]
    by_contra hlt
    have := (Nat.length_toDigits_le_iff (b := 10) (n := n) (by norm_num) (by omega)).2 (not_le.1 hlt)
    omega

/-! ## Timestamps -/

/-- a date and a time of day, two digits for each number after the text of the year -/
def DateTimeText (year : List Char) (d : Date) (hour minute second : Nat) (cs : List Char) : Prop :=
  ∃ month day h m s, Digits 2 d.month month ∧ Digits 2 d.day day ∧ Digits 2 hour h ∧ Digits 2 minute m ∧
    Digits 2 second s ∧
    cs = year ++ '-' :: (month ++ '-' :: (day ++ 'T' :: (h ++ ':' :: (m ++ ':' :: (s ++ ['Z'])))))

/-- **A timestamp of RFC 3339** in whole seconds of Coordinated Universal Time -/
structure Timestamp (d : Date) (hour minute second : Nat) (cs : List Char) : Prop where
  isValid : d.isValid = true
  year_nonneg : 0 ≤ d.year
  hour_lt : hour < 24
  minute_lt : minute < 60
  second_lt : second < 60 ∨ second = 60 ∧ hour = 23 ∧ minute = 59 ∧ d.EndsMonth
  text : ∃ year, Digits 4 d.year.toNat year ∧ DateTimeText year d hour minute second cs

def IsTimestamp (cs : List Char) : Prop := ∃ d hour minute second, Timestamp d hour minute second cs

section

variable {year year' : List Char} {d d' : Date} {hour minute second hour' minute' second' : Nat} {cs : List Char}

theorem DateTimeText.inj {n n' : Nat} (hyear : Digits 4 n year) (hyear' : Digits 4 n' year')
    (h : DateTimeText year d hour minute second cs) (h' : DateTimeText year' d' hour' minute' second' cs) :
    n = n' ∧ d.month = d'.month ∧ d.day = d'.day ∧ hour = hour' ∧ minute = minute' ∧ second = second' := by
  obtain ⟨_, _, _, _, _, hmonth, hday, hhour, hminute, hsecond, rfl⟩ := h
  obtain ⟨_, _, _, _, _, hmonth', hday', hhour', hminute', hsecond', heq⟩ := h'
  obtain ⟨hyears, heq⟩ := hyear.append_inj hyear' heq
  obtain ⟨hmonths, heq⟩ := hmonth.append_inj hmonth' heq
  obtain ⟨hdays, heq⟩ := hday.append_inj hday' heq
  obtain ⟨hhours, heq⟩ := hhour.append_inj hhour' heq
  obtain ⟨hminutes, heq⟩ := hminute.append_inj hminute' heq
  exact ⟨hyears, hmonths, hdays, hhours, hminutes, (hsecond.append_inj hsecond' heq).1⟩

theorem Timestamp.head_isDigit (h : Timestamp d hour minute second cs) :
    ∃ c rest, cs = c :: rest ∧ c.isDigit = true := by
  obtain ⟨year, hyear, _, _, _, _, _, _, _, _, _, _, rfl⟩ := h.text
  cases year with
  | nil => cases hyear.length
  | cons c year => exact ⟨c, _, rfl, hyear.isDigits c List.mem_cons_self⟩

end

namespace Instant

variable {t : Instant}

/-! ## The second of an instant -/

/-- in a leap second the nanoseconds run on after the last second of a minute -/
def IsLeap (t : Instant) : Prop := t.seconds % 60 = 59 ∧ 10 ^ 9 ≤ t.nanos

/-- the day and the second of it that an instant is in; a leap second is the second 60 of its minute -/
structure IsAt (t : Instant) (d : Date) (hour minute second : Nat) : Prop where
  day : d.IsDay (t.seconds / 86400)
  hour_lt : hour < 24
  minute_lt : minute < 60
  second_le : second ≤ 60
  leap : second = 60 ↔ t.IsLeap
  count : (hour * 3600 + minute * 60 + second : Int) = t.seconds % 86400 + if t.nanos < 10 ^ 9 then 0 else 1

/-- a year in four digits, or with a sign where four do not do, and then no more digits than it needs -/
def YearText (year : Int) (cs : List Char) : Prop :=
  if 0 ≤ year ∧ year ≤ 9999 then Digits 4 year.toNat cs
  else ∃ width ds, (width = 4 ∨ 4 < width ∧ 10 ^ (width - 1) ≤ year.natAbs) ∧ Digits width year.natAbs ds ∧
    cs = (if year < 0 then '-' else '+') :: ds

/-- the date and the time of an instant, as they are written whether or not this is a timestamp -/
def WrittenText (t : Instant) (cs : List Char) : Prop :=
  ∃ d hour minute second year, t.IsAt d hour minute second ∧ YearText d.year year ∧
    DateTimeText year d hour minute second cs

/-- **Date and time of an instant** as a timestamp -/
def TimestampText (t : Instant) (cs : List Char) : Prop :=
  ∃ d hour minute second, t.IsAt d hour minute second ∧ Timestamp d hour minute second cs

/-- The years 0 to 9999 have timestamps, with their leap seconds at the end of a month. -/
structure HasTimestamp (t : Instant) : Prop where
  first : -62167219200 ≤ t.seconds
  last : t.seconds ≤ 253402300799
  leap : t.IsLeap → t.seconds % 86400 = 86399 ∧ ∃ d : Date, d.IsDay (t.seconds / 86400) ∧ d.EndsMonth

theorem isAt_clock (t : Instant) : t.IsAt t.date t.clock.1 t.clock.2.1 t.clock.2.2 := by
  obtain ⟨seconds, nanos, -, -, hnanos⟩ := t
  have hbillion : nanosPerSecond = 1000000000 := rfl
  have hday : secondsPerDay = 86400 := rfl
  rw [hbillion] at hnanos
  have hcarry : nanos / 1000000000 = if nanos < 10 ^ 9 then 0 else 1 := by split_ifs <;> omega
  refine ⟨Date.isDay_ofDays _, ?_, ?_, ?_, ?_, ?_⟩
  all_goals simp only [clock, hday, hbillion, hcarry, IsLeap]
  · omega
  · omega
  · split_ifs <;> omega
  · split_ifs <;> omega
  · split_ifs <;> omega

/-! ## The text of an instant -/

theorem year_date_iff : 0 ≤ t.date.year ∧ t.date.year ≤ 9999 ↔
    -62167219200 ≤ t.seconds ∧ t.seconds ≤ 253402300799 := by
  have hday : secondsPerDay = 86400 := rfl
  rw [date, hday, Date.year_ofDays_nonneg, Date.year_ofDays_le]
  omega

theorem yearText_chars (year : Int) : YearText year (yearText year).toList := by
  have hdigits : Digits (paddedDigits 4 year.natAbs).length year.natAbs (paddedDigits 4 year.natAbs) :=
    ⟨fun _ hc => isDigit_of_mem_paddedDigits hc, rfl, Decimal.ofDigits_paddedDigits _ _⟩
  have hlength := length_paddedDigits_cases year.natAbs (by norm_num : 1 < 4)
  unfold YearText yearText
  simp only [zeroPadded_eq]
  split_ifs with h hneg
  · have habs : year.natAbs = year.toNat := by omega
    rw [String.toList_ofList, habs]
    exact digits_paddedDigits (by norm_num) (by norm_num; omega)
  · exact ⟨_, _, hlength, hdigits, by simp⟩
  · exact ⟨_, _, hlength, hdigits, by simp⟩

/-- what the text says, whatever the year -/
theorem dateTimeText_toSecondsText (t : Instant) :
    DateTimeText (yearText t.date.year).toList t.date t.clock.1 t.clock.2.1 t.clock.2.2 t.toSecondsText.toList := by
  have hat := isAt_clock t
  obtain ⟨-, hmonth, -, hdays⟩ := Date.isValid_iff.1 hat.day.1
  have hday : t.date.day ≤ 31 := hdays.trans (by unfold Date.daysInMonth; split_ifs <;> norm_num)
  have htwo : ∀ {n : Nat}, n < 100 → Digits 2 n (paddedDigits 2 n) := fun h => digits_paddedDigits (by norm_num) h
  refine ⟨_, _, _, _, _, htwo (by omega), htwo (by omega), htwo (hat.hour_lt.trans (by norm_num)),
    htwo (hat.minute_lt.trans (by norm_num)), htwo (hat.second_le.trans_lt (by norm_num)), ?_⟩
  simp [toSecondsText, textWith, zeroPadded_eq]

theorem timestampText_toSecondsText (h : t.HasTimestamp) : t.TimestampText t.toSecondsText.toList := by
  have hat := isAt_clock t
  have hrange := year_date_iff.2 ⟨h.first, h.last⟩
  have hyear := yearText_chars t.date.year
  rw [YearText, if_pos hrange] at hyear
  refine ⟨_, _, _, _, hat, hat.day.1, hrange.1, hat.hour_lt, hat.minute_lt, ?_, _, hyear,
    dateTimeText_toSecondsText t⟩
  refine hat.second_le.lt_or_eq.imp_right fun hsecond => ?_
  obtain ⟨hlast, d, hd, hends⟩ := h.leap (hat.leap.1 hsecond)
  obtain rfl : d = t.date := Date.isDay_iff.1 hd
  have hcount := hat.count
  have hhour := hat.hour_lt
  have hminute := hat.minute_lt
  rw [hlast, hsecond] at hcount
  refine ⟨hsecond, ?_, ?_, hends⟩ <;> split_ifs at hcount <;> omega

theorem hasTimestamp_of_isTimestamp (h : IsTimestamp t.toSecondsText.toList) : t.HasTimestamp := by
  obtain ⟨d, hour, minute, second, hstamp⟩ := h
  have hat := isAt_clock t
  have htext := dateTimeText_toSecondsText t
  have hyear := yearText_chars t.date.year
  unfold YearText at hyear
  split_ifs at hyear with hrange hneg
  · obtain ⟨year, hyear', htext'⟩ := hstamp.text
    obtain ⟨hyears, hmonth, hday, rfl, rfl, rfl⟩ := htext.inj hyear hyear' htext'
    have hnonneg := hstamp.year_nonneg
    have hdate : t.date = d := Date.ext (by omega) hmonth hday
    obtain ⟨hfirst, hlast⟩ := year_date_iff.1 hrange
    refine ⟨hfirst, hlast, fun hleap => ?_⟩
    have hcount := hat.count
    rcases hstamp.second_lt with hlt | ⟨hsecond, hhour, hminute, hends⟩
    · exact absurd (hat.leap.2 hleap) hlt.ne
    · rw [hsecond, hhour, hminute, if_neg hleap.2.not_gt] at hcount
      exact ⟨by omega, d, hdate ▸ hat.day, hends⟩
  all_goals
    -- a sign is no digit
    obtain ⟨c, rest, hhead, hdigit⟩ := hstamp.head_isDigit
    obtain ⟨_, ds, -, -, hsign⟩ := hyear
    obtain ⟨_, _, _, _, _, _, _, _, _, _, heq⟩ := htext
    rw [hhead, hsign] at heq
    obtain rfl := (List.cons.inj heq).1
    exact absurd hdigit (by decide)

theorem TimestampText.isTimestamp {cs : List Char} (h : t.TimestampText cs) : IsTimestamp cs := by
  obtain ⟨d, hour, minute, second, -, hstamp⟩ := h
  exact ⟨d, hour, minute, second, hstamp⟩

/-- **Every instant is written with its date and its time.** -/
theorem writtenText_toSecondsText (t : Instant) : t.WrittenText t.toSecondsText.toList :=
  ⟨_, _, _, _, _, isAt_clock t, yearText_chars _, dateTimeText_toSecondsText t⟩

/-- **The text of an instant is its timestamp**, if it has one. -/
theorem timestampText_iff : t.TimestampText t.toSecondsText.toList ↔ t.HasTimestamp :=
  ⟨fun h => hasTimestamp_of_isTimestamp h.isTimestamp, timestampText_toSecondsText⟩

/-- **Where it has none, its text is not the timestamp of anything.** -/
theorem isTimestamp_iff : IsTimestamp t.toSecondsText.toList ↔ t.HasTimestamp :=
  ⟨hasTimestamp_of_isTimestamp, fun h => (timestampText_toSecondsText h).isTimestamp⟩

example : (⟨253402300801, 0, by decide⟩ : Instant).toSecondsText = "+10000-01-01T00:00:01Z" := by
  decide

end Instant

end PacketForwarder
