/-
# AntServer.SkynetApi.SkynetSchedule — the next time of a schedule

`next_time` of `skynet_api/skynet_schedule.lua`: when a request for a time of the day, or for it on a day of
the week, of the month or of the year, is due next. `os.date` and `os.time` are conversions at a fixed
offset; `os.time` takes fields outside of their ranges, and with `writesBack` (Lua from 5.3.3 on) puts the
normalised ones into its table.

When the time has passed, a request for a day of the month or for a mere time goes to the next month, and
the day may not exist there, or not have existed in the first place; the mere time should have gone to the
next day. A day of the year goes to the next year, which need not have a 29 February. Only the day of the
week is always right.
-/
import AntServer.Lib.Calendar
import AntServer.Lua

namespace AntServer.SkynetApi.SkynetSchedule

open Lib Lib.Calendar

/-! ## `os.date` and `os.time` -/

/-- The fields of `os.date("*t")`. -/
structure Date where
  year : Int
  month : Int
  day : Int
  hour : Int
  min : Int
  sec : Int
  wday : Int
  deriving DecidableEq, Repr

/-- The table for `os.time`. -/
structure TimeTable where
  year : Int
  month : Int
  day : Int
  hour : Int
  min : Int
  sec : Option Int
  deriving DecidableEq, Repr

/-- The conversions of Lua: the offset of the time zone, and whether `os.time` writes to its table. -/
structure Os where
  offset : Int
  writesBack : Bool
  deriving DecidableEq, Repr

/-- The seconds of a day. -/
def daySeconds : Int := 86400

/-- `os.date("*t", t)`. -/
def Os.date (os : Os) (t : Int) : Date :=
  let day := (t + os.offset) / daySeconds
  let sec := (t + os.offset) % daySeconds
  { year := monthOf day / 12
    month := monthOf day % 12 + 1
    day := day - monthStart (monthOf day) + 1
    hour := sec / 3600
    min := sec % 3600 / 60
    sec := sec % 60
    wday := (day + 4) % 7 + 1 }

/-- What `os.time(nt)` returns. -/
def Os.time (os : Os) (nt : TimeTable) : Int :=
  daySeconds * (monthStart (12 * nt.year + (nt.month - 1)) + (nt.day - 1)) +
    (3600 * nt.hour + 60 * nt.min + nt.sec.getD 0) - os.offset

/-- `nt` after `os.time(nt)`. -/
def Os.normalise (os : Os) (nt : TimeTable) : TimeTable :=
  if os.writesBack then
    let d := os.date (os.time nt)
    ⟨d.year, d.month, d.day, d.hour, d.min, some d.sec⟩
  else nt

/-! ## `next_time` -/

/-- The table of a request. -/
structure Ti where
  month : Option Int := none
  day : Option Int := none
  wday : Option Int := none
  hour : Option Int := none
  min : Option Int := none
  sec : Option Int := none
  deriving DecidableEq, Repr

/-- `next_time`, with `now.time` and the fields of it. -/
def nextTime (os : Os) (time : Int) (ti : Ti) : Except LuaError Int :=
  let now := os.date time
  let nt : TimeTable := ⟨now.year, now.month, now.day, ti.hour.getD 0, ti.min.getD 0, ti.sec⟩
  match ti.wday with
  | some wday =>
    if ti.day = none ∧ ti.month = none then
      let nt := { nt with day := nt.day + wday - now.wday }
      let t := os.time nt
      let nt := os.normalise nt
      let nt := if t < time then { nt with day := nt.day + 7 } else nt
      .ok (os.time nt)
    else
      .error .assertion
  | none =>
    let nt := { nt with day := ti.day.getD nt.day, month := ti.month.getD nt.month }
    let t := os.time nt
    let nt := os.normalise nt
    let nt :=
      if t < time then
        if ti.month.isSome then { nt with year := nt.year + 1 } else { nt with month := nt.month + 1 }
      else nt
    .ok (os.time nt)

/-! ## Requests -/

/-- The forms of a request. -/
inductive Form where
  | daily
  | monthly (day : Int)
  | yearly (month day : Int)
  | weekly (wday : Int)
  deriving DecidableEq, Repr

/-- The fields of a form are in their ranges. -/
def Form.Valid : Form → Prop
  | .daily => True
  | .monthly day => 1 ≤ day ∧ day ≤ 31
  | .yearly month day => 1 ≤ month ∧ month ≤ 12 ∧ 1 ≤ day ∧ day ≤ 31
  | .weekly wday => 1 ≤ wday ∧ wday ≤ 7

/-- A request with valid fields. The seconds go up to 61, as the comment in the source has them. -/
structure Request where
  form : Form
  hour : Int
  min : Int
  sec : Option Int
  form_valid : form.Valid
  hour_valid : 0 ≤ hour ∧ hour ≤ 23
  min_valid : 0 ≤ min ∧ min ≤ 59
  sec_valid : ∀ s ∈ sec, 0 ≤ s ∧ s ≤ 61

def Request.ti (r : Request) : Ti :=
  match r.form with
  | .daily => { hour := r.hour, min := r.min, sec := r.sec }
  | .monthly day => { day := day, hour := r.hour, min := r.min, sec := r.sec }
  | .yearly month day => { month := month, day := day, hour := r.hour, min := r.min, sec := r.sec }
  | .weekly wday => { wday := wday, hour := r.hour, min := r.min, sec := r.sec }

/-- The day of a date is one of those asked for. -/
def Form.Matches (d : Date) : Form → Prop
  | .daily => True
  | .monthly day => d.day = day
  | .yearly month day => d.month = month ∧ d.day = day
  | .weekly wday => d.wday = wday

/-- A date has the fields of a request. Seconds that are not given are 0. -/
def Request.Matches (r : Request) (d : Date) : Prop :=
  d.hour = r.hour ∧ d.min = r.min ∧ d.sec = r.sec.getD 0 ∧ r.form.Matches d

/-- The next time of a request is the first one from now on that has its fields. -/
def IsNext (os : Os) (time : Int) (r : Request) (t : Int) : Prop :=
  IsLeast {t | time ≤ t ∧ r.Matches (os.date t)} t

/-! ## The time of the day -/

/-- The seconds of the day that a request asks for. -/
def Request.secs (r : Request) : Int := 3600 * r.hour + 60 * r.min + r.sec.getD 0

/-- The instant of a request on a day. -/
def Os.onDay (os : Os) (r : Request) (day : Int) : Int := daySeconds * day + r.secs - os.offset

variable {os : Os} {r : Request} {t : Int}

theorem Request.sec_bounds (r : Request) : 0 ≤ r.sec.getD 0 ∧ r.sec.getD 0 ≤ 61 := by
  rcases h : r.sec with - | s
  · exact ⟨le_rfl, by decide⟩
  · exact r.sec_valid s h

theorem Request.secs_bounds (r : Request) (h : r.sec.getD 0 ≤ 59) : 0 ≤ r.secs ∧ r.secs < daySeconds := by
  obtain ⟨hhour, hhour'⟩ := r.hour_valid
  obtain ⟨hmin, hmin'⟩ := r.min_valid
  obtain ⟨hsec, -⟩ := r.sec_bounds
  unfold Request.secs daySeconds
  omega

/-- An instant has the time of the day of a request exactly when it is the one of its day. -/
theorem onDay_iff (h : r.sec.getD 0 ≤ 59) (t : Int) :
    ((os.date t).hour = r.hour ∧ (os.date t).min = r.min ∧ (os.date t).sec = r.sec.getD 0) ↔
      t = os.onDay r ((t + os.offset) / daySeconds) := by
  obtain ⟨hhour, hhour'⟩ := r.hour_valid
  obtain ⟨hmin, hmin'⟩ := r.min_valid
  obtain ⟨hsec, -⟩ := r.sec_bounds
  simp only [Os.date, Os.onDay, Request.secs, daySeconds]
  constructor
  · rintro ⟨h₁, h₂, h₃⟩
    omega
  · intro ht
    omega

/-- The seconds of a date are at most 59. -/
theorem not_matches_of_sec (h : 59 < r.sec.getD 0) (t : Int) : ¬ r.Matches (os.date t) := by
  rintro ⟨-, -, hsec, -⟩
  simp only [Os.date] at hsec
  omega

/-- The day of an instant of a request. -/
theorem day_onDay (h : r.sec.getD 0 ≤ 59) (day : Int) : (os.onDay r day + os.offset) / daySeconds = day := by
  have hsecs := r.secs_bounds h
  unfold Os.onDay daySeconds at *
  omega

/-- The instants of a request are those of the days that its form asks for. -/
theorem matches_iff (h : r.sec.getD 0 ≤ 59) (t : Int) :
    r.Matches (os.date t) ↔
      t = os.onDay r ((t + os.offset) / daySeconds) ∧ r.form.Matches (os.date t) := by
  rw [← onDay_iff h t]
  unfold Request.Matches
  tauto

/-! ## The days of a form -/

/-- The days that a form asks for: one in each period that has it. -/
structure Form.Recurs (f : Form) (dayStart : ℤ → ℤ) (has : ℤ → Prop) (dayOf : ℤ → ℤ) : Prop where
  mono : StrictMono dayStart
  within : ∀ k, has k → InPeriod dayStart k (dayOf k)
  matches_iff : ∀ (os : Os) (t : Int),
    f.Matches (os.date t) ↔ ∃ k, has k ∧ (t + os.offset) / daySeconds = dayOf k

theorem daily_recurs : Form.daily.Recurs (fun k => k) (fun _ => True) fun k => k where
  mono := strictMono_id
  within := fun k _ => ⟨le_rfl, lt_add_one k⟩
  matches_iff := fun _ _ => ⟨fun _ => ⟨_, trivial, rfl⟩, fun _ => trivial⟩

/-- Weeks begin on Sunday. -/
theorem weekly_recurs {wday : Int} (h : 1 ≤ wday ∧ wday ≤ 7) :
    (Form.weekly wday).Recurs (fun k => 7 * k - 4) (fun _ => True) fun k => 7 * k - 4 + (wday - 1) where
  mono := fun k k' hlt => by
    dsimp only
    omega
  within := fun k _ => by
    simp only [InPeriod]
    omega
  matches_iff := fun os t => by
    simp only [Form.Matches, Os.date, true_and]
    constructor
    · intro hwday
      exact ⟨((t + os.offset) / daySeconds + 4) / 7, by omega⟩
    · rintro ⟨k, hk⟩
      omega

/-- A day of a month that has it. -/
theorem inPeriod_month {month day : Int} (h : 1 ≤ day) (hhas : day ≤ monthLength month) :
    InPeriod monthStart month (monthStart month + (day - 1)) := by
  unfold monthLength at hhas
  unfold InPeriod
  omega

theorem monthly_recurs {day : Int} (h : 1 ≤ day) :
    (Form.monthly day).Recurs monthStart (fun k => day ≤ monthLength k) fun k => monthStart k + (day - 1) where
  mono := monthStart_strictMono
  within := fun k hhas => inPeriod_month h hhas
  matches_iff := fun os t => by
    simp only [Form.Matches, Os.date]
    constructor
    · intro hday
      have hmonth := (monthOf_spec ((t + os.offset) / daySeconds)).2
      refine ⟨monthOf ((t + os.offset) / daySeconds), ?_, by omega⟩
      unfold monthLength
      omega
    · rintro ⟨k, hhas, hk⟩
      rw [hk, monthOf_eq (inPeriod_month h hhas)]
      omega

theorem yearly_recurs {month day : Int} (hmonth : 1 ≤ month ∧ month ≤ 12) (h : 1 ≤ day) :
    (Form.yearly month day).Recurs (fun k => monthStart (12 * k))
      (fun k => day ≤ monthLength (12 * k + (month - 1)))
      fun k => monthStart (12 * k + (month - 1)) + (day - 1) where
  mono := fun k k' hlt => monthStart_strictMono (by omega)
  within := fun k hhas => by
    obtain ⟨hlow, hhigh⟩ := inPeriod_month h hhas
    have hstart : monthStart (12 * k) ≤ monthStart (12 * k + (month - 1)) :=
      monthStart_strictMono.monotone (by omega)
    have hend : monthStart (12 * k + (month - 1) + 1) ≤ monthStart (12 * (k + 1)) :=
      monthStart_strictMono.monotone (by omega)
    exact ⟨hstart.trans hlow, hhigh.trans_le hend⟩
  matches_iff := fun os t => by
    simp only [Form.Matches, Os.date]
    constructor
    · rintro ⟨hm, hday⟩
      have hspec := (monthOf_spec ((t + os.offset) / daySeconds)).2
      have hk : 12 * (monthOf ((t + os.offset) / daySeconds) / 12) + (month - 1) =
          monthOf ((t + os.offset) / daySeconds) := by omega
      refine ⟨monthOf ((t + os.offset) / daySeconds) / 12, ?_, ?_⟩
      · rw [hk]
        unfold monthLength
        omega
      · rw [hk]
        omega
    · rintro ⟨k, hhas, hk⟩
      rw [hk, monthOf_eq (inPeriod_month h hhas)]
      omega

variable {f : Form} {dayStart dayOf : ℤ → ℤ} {has : ℤ → Prop}

/-- The instants of a period are those of its days. -/
theorem inPeriod_iff (os : Os) (dayStart : ℤ → ℤ) (k t : Int) :
    InPeriod (fun k => daySeconds * dayStart k - os.offset) k t ↔
      InPeriod dayStart k ((t + os.offset) / daySeconds) := by
  simp only [InPeriod, daySeconds]
  omega

/-- The instants of a request, by periods. -/
theorem matches_iff_occurrence (hrec : r.form.Recurs dayStart has dayOf) (h : r.sec.getD 0 ≤ 59) (t : Int) :
    r.Matches (os.date t) ↔ t ∈ occurrences has fun k => os.onDay r (dayOf k) := by
  rw [matches_iff h, hrec.matches_iff]
  constructor
  · rintro ⟨ht, k, hk, hday⟩
    exact ⟨k, hk, ht.trans (congrArg (os.onDay r) hday)⟩
  · rintro ⟨k, hk, rfl⟩
    rw [day_onDay h]
    exact ⟨rfl, k, hk, rfl⟩

section Next

variable (hrec : r.form.Recurs dayStart has dayOf) (h : r.sec.getD 0 ≤ 59) {time k : Int}
  (hk : InPeriod dayStart k ((time + os.offset) / daySeconds))

include hrec h

omit h in
theorem start_mono (os : Os) : Monotone fun k => daySeconds * dayStart k - os.offset := by
  intro k k' hle
  have hstart := hrec.mono.monotone hle
  unfold daySeconds
  dsimp only
  omega

theorem onDay_within (os : Os) (k : Int) (hhas : has k) :
    InPeriod (fun k => daySeconds * dayStart k - os.offset) k (os.onDay r (dayOf k)) := by
  rw [inPeriod_iff, day_onDay h]
  exact hrec.within k hhas

include hk

/-- The request is due in the current period. -/
theorem isNext_here (hhas : has k) (hle : time ≤ os.onDay r (dayOf k)) :
    IsNext os time r (os.onDay r (dayOf k)) := by
  unfold IsNext
  simp only [matches_iff_occurrence hrec h]
  exact isLeast_of_here (start_mono hrec os) (onDay_within hrec h os) ((inPeriod_iff ..).mpr hk) hhas hle

/-- The request is over in the current period, and due in the next one. -/
theorem isNext_next (hover : has k → os.onDay r (dayOf k) < time) (hhas : has (k + 1)) :
    IsNext os time r (os.onDay r (dayOf (k + 1))) := by
  unfold IsNext
  simp only [matches_iff_occurrence hrec h]
  exact isLeast_of_next (start_mono hrec os) (onDay_within hrec h os) ((inPeriod_iff ..).mpr hk) hover hhas

end Next

/-! ## What `os.time` makes of a table -/

/-- The table of a request on a day of a month. -/
def Request.table (r : Request) (year month day : Int) : TimeTable := ⟨year, month, day, r.hour, r.min, r.sec⟩

theorem time_table (os : Os) (r : Request) (year month day : Int) :
    os.time (r.table year month day) = os.onDay r (monthStart (12 * year + (month - 1)) + (day - 1)) := rfl

/-- `os.time` is the inverse of `os.date`. -/
theorem time_date (os : Os) (t : Int) :
    os.time ⟨(os.date t).year, (os.date t).month, (os.date t).day, (os.date t).hour, (os.date t).min,
      some (os.date t).sec⟩ = t := by
  simp only [Os.time, Os.date, daySeconds, Option.getD_some]
  have hmonth : 12 * (monthOf ((t + os.offset) / 86400) / 12) + (monthOf ((t + os.offset) / 86400) % 12 + 1 - 1) =
      monthOf ((t + os.offset) / 86400) := by omega
  rw [hmonth]
  omega

theorem time_normalise (os : Os) (nt : TimeTable) : os.time (os.normalise nt) = os.time nt := by
  unfold Os.normalise
  split
  · exact time_date os _
  · rfl

theorem time_add_day (os : Os) (nt : TimeTable) (n : Int) :
    os.time { nt with day := nt.day + n } = os.time nt + daySeconds * n := by
  simp only [Os.time, daySeconds]
  omega

/-- A table of a date that exists is normalised as it is, but for the seconds that were not given. -/
theorem normalise_table (h : r.sec.getD 0 ≤ 59) {year month day : Int} (hmonth : 1 ≤ month ∧ month ≤ 12)
    (hday : 1 ≤ day) (hhas : day ≤ monthLength (12 * year + (month - 1))) :
    ∃ sec, sec.getD 0 = r.sec.getD 0 ∧
      os.normalise (r.table year month day) = { r.table year month day with sec := sec } := by
  unfold Os.normalise
  split
  · refine ⟨some (r.sec.getD 0), rfl, ?_⟩
    obtain ⟨hhour, hmin, hsec⟩ := (@onDay_iff os r h (os.time (r.table year month day))).mpr (by
      rw [time_table, day_onDay h])
    have hdayOf : (os.time (r.table year month day) + os.offset) / daySeconds =
        monthStart (12 * year + (month - 1)) + (day - 1) := by
      rw [time_table, day_onDay h]
    have hmonthOf := monthOf_eq (inPeriod_month hday hhas)
    have hyear : (os.date (os.time (r.table year month day))).year = year := by
      simp only [Os.date, hdayOf, hmonthOf]
      omega
    have hmonth' : (os.date (os.time (r.table year month day))).month = month := by
      simp only [Os.date, hdayOf, hmonthOf]
      omega
    have hday' : (os.date (os.time (r.table year month day))).day = day := by
      simp only [Os.date, hdayOf, hmonthOf]
      omega
    dsimp only
    rw [hhour, hmin, hsec, hyear, hmonth', hday']
    rfl
  · exact ⟨r.sec, rfl, rfl⟩

section Normalised

variable (h : r.sec.getD 0 ≤ 59) {year month day : Int} (hmonth : 1 ≤ month ∧ month ≤ 12) (hday : 1 ≤ day)
  (hhas : day ≤ monthLength (12 * year + (month - 1)))

include h hmonth hday hhas

/-- The same day of the next month, if the date exists. -/
theorem time_next_month (os : Os) :
    os.time { os.normalise (r.table year month day) with
        month := (os.normalise (r.table year month day)).month + 1 } =
      os.onDay r (monthStart (12 * year + (month - 1) + 1) + (day - 1)) := by
  obtain ⟨sec, hsec, hnt⟩ := @normalise_table os r h year month day hmonth hday hhas
  rw [hnt]
  simp only [Os.time, Os.onDay, Request.table, Request.secs, hsec]
  rw [show 12 * year + (month + 1 - 1) = 12 * year + (month - 1) + 1 by omega]

/-- The same day of the next year. -/
theorem time_next_year (os : Os) :
    os.time { os.normalise (r.table year month day) with
        year := (os.normalise (r.table year month day)).year + 1 } =
      os.onDay r (monthStart (12 * (year + 1) + (month - 1)) + (day - 1)) := by
  obtain ⟨sec, hsec, hnt⟩ := @normalise_table os r h year month day hmonth hday hhas
  rw [hnt]
  simp only [Os.time, Os.onDay, Request.table, Request.secs, hsec]

end Normalised

/-! ## What `next_time` returns -/

/-- The month of an instant. -/
def Os.monthAt (os : Os) (t : Int) : Int := monthOf ((t + os.offset) / daySeconds)

theorem date_month (os : Os) (t : Int) : 12 * (os.date t).year + ((os.date t).month - 1) = os.monthAt t := by
  simp only [Os.date, Os.monthAt]
  omega

theorem date_month_bounds (os : Os) (t : Int) : 1 ≤ (os.date t).month ∧ (os.date t).month ≤ 12 := by
  simp only [Os.date]
  omega

theorem date_day (os : Os) (t : Int) :
    monthStart (os.monthAt t) + ((os.date t).day - 1) = (t + os.offset) / daySeconds ∧
      1 ≤ (os.date t).day ∧ (os.date t).day ≤ monthLength (os.monthAt t) := by
  obtain ⟨hlow, hhigh⟩ := monthOf_spec ((t + os.offset) / daySeconds)
  simp only [Os.date, Os.monthAt, monthLength]
  omega

/-- What follows `os.time(nt)` for a request that is not of a day of the week. -/
theorem nextTime_of_table {ti : Ti} {time : Int} {day month : Int} (hwday : ti.wday = none)
    (hnt : (⟨(os.date time).year, ti.month.getD (os.date time).month, ti.day.getD (os.date time).day,
      ti.hour.getD 0, ti.min.getD 0, ti.sec⟩ : TimeTable) = r.table (os.date time).year month day) :
    nextTime os time ti = .ok (
      if os.time (r.table (os.date time).year month day) < time then
        os.time (
          if ti.month.isSome then
            { os.normalise (r.table (os.date time).year month day) with
              year := (os.normalise (r.table (os.date time).year month day)).year + 1 }
          else
            { os.normalise (r.table (os.date time).year month day) with
              month := (os.normalise (r.table (os.date time).year month day)).month + 1 })
      else os.time (r.table (os.date time).year month day)) := by
  simp only [nextTime, hwday]
  rw [hnt]
  split
  · rfl
  · rw [time_normalise]

/-- A mere time: today or, when it has passed, a month later. -/
theorem nextTime_daily (hform : r.form = .daily) (h : r.sec.getD 0 ≤ 59) (time : Int) :
    nextTime os time r.ti = .ok (
      if os.onDay r ((time + os.offset) / daySeconds) < time then
        os.onDay r (monthStart (os.monthAt time + 1) + ((os.date time).day - 1))
      else os.onDay r ((time + os.offset) / daySeconds)) := by
  obtain ⟨hday, hlow, hhigh⟩ := date_day os time
  have hti : r.ti = { hour := r.hour, min := r.min, sec := r.sec } := by rw [Request.ti, hform]
  rw [hti, @nextTime_of_table os r _ time (os.date time).day (os.date time).month rfl rfl, time_table, date_month,
    hday]
  rw [← date_month] at hhigh
  simp only [Option.isSome_none, Bool.false_eq_true, if_false,
    time_next_month h (date_month_bounds os time) hlow hhigh, date_month]

/-- A day of the month: in this month or, when it has passed, in the next one. -/
theorem nextTime_monthly {day : Int} (hform : r.form = .monthly day) (h : r.sec.getD 0 ≤ 59) (hday : 1 ≤ day)
    (time : Int) (hhas : day ≤ monthLength (os.monthAt time)) :
    nextTime os time r.ti = .ok (
      if os.onDay r (monthStart (os.monthAt time) + (day - 1)) < time then
        os.onDay r (monthStart (os.monthAt time + 1) + (day - 1))
      else os.onDay r (monthStart (os.monthAt time) + (day - 1))) := by
  have hti : r.ti = { day := day, hour := r.hour, min := r.min, sec := r.sec } := by rw [Request.ti, hform]
  rw [hti, @nextTime_of_table os r _ time day (os.date time).month rfl rfl, time_table, date_month]
  rw [← date_month] at hhas
  simp only [Option.isSome_none, Bool.false_eq_true, if_false,
    time_next_month h (date_month_bounds os time) hday hhas, date_month]

/-- The instants of a day after today are not over. -/
theorem le_onDay (h : r.sec.getD 0 ≤ 59) {time day : Int} (hday : (time + os.offset) / daySeconds < day) :
    time ≤ os.onDay r day := by
  have hsecs := r.secs_bounds h
  unfold Os.onDay daySeconds at *
  omega

/-- A day that this month does not have is one of the next month, which is not over. -/
theorem nextTime_monthly_absent {day : Int} (hform : r.form = .monthly day) (h : r.sec.getD 0 ≤ 59)
    (time : Int) (hhas : monthLength (os.monthAt time) < day) :
    nextTime os time r.ti = .ok (os.onDay r (monthStart (os.monthAt time) + (day - 1))) := by
  have hti : r.ti = { day := day, hour := r.hour, min := r.min, sec := r.sec } := by rw [Request.ti, hform]
  rw [hti, @nextTime_of_table os r _ time day (os.date time).month rfl rfl, time_table, date_month, if_neg]
  apply not_lt.mpr
  apply le_onDay h
  have hend := (monthOf_spec ((time + os.offset) / daySeconds)).2
  unfold Os.monthAt monthLength at *
  omega

/-- A day of the year: in this year or, when it has passed, in the next one. -/
theorem nextTime_yearly {month day : Int} (hform : r.form = .yearly month day) (time : Int) :
    nextTime os time r.ti = .ok (
      if os.onDay r (monthStart (12 * (os.date time).year + (month - 1)) + (day - 1)) < time then
        os.time { os.normalise (r.table (os.date time).year month day) with
          year := (os.normalise (r.table (os.date time).year month day)).year + 1 }
      else os.onDay r (monthStart (12 * (os.date time).year + (month - 1)) + (day - 1))) := by
  have hti : r.ti = { month := month, day := day, hour := r.hour, min := r.min, sec := r.sec } := by
    rw [Request.ti, hform]
  rw [hti, @nextTime_of_table os r _ time day month rfl rfl, time_table]
  rfl

/-- Sunday of the week of an instant is seven times this number, less four. -/
def Os.weekAt (os : Os) (t : Int) : Int := ((t + os.offset) / daySeconds + 4) / 7

/-- A day of the week: in this week or, when it has passed, in the next one. -/
theorem nextTime_weekly {wday : Int} (hform : r.form = .weekly wday) (time : Int) :
    nextTime os time r.ti = .ok (
      if os.onDay r (7 * os.weekAt time - 4 + (wday - 1)) < time then
        os.onDay r (7 * (os.weekAt time + 1) - 4 + (wday - 1))
      else os.onDay r (7 * os.weekAt time - 4 + (wday - 1))) := by
  have hti : r.ti = { wday := wday, hour := r.hour, min := r.min, sec := r.sec } := by rw [Request.ti, hform]
  obtain ⟨hday, -, -⟩ := date_day os time
  have htime : os.time (r.table (os.date time).year (os.date time).month
      ((os.date time).day + wday - (os.date time).wday)) = os.onDay r (7 * os.weekAt time - 4 + (wday - 1)) := by
    have hwday : (os.date time).wday = ((time + os.offset) / daySeconds + 4) % 7 + 1 := rfl
    rw [time_table, date_month]
    apply congrArg (os.onDay r)
    unfold Os.weekAt
    omega
  rw [hti]
  generalize hnt : r.table (os.date time).year (os.date time).month
    ((os.date time).day + wday - (os.date time).wday) = nt at htime
  have hnext : nextTime os time { wday := wday, hour := r.hour, min := r.min, sec := r.sec } =
      .ok (os.time (if os.time nt < time then { os.normalise nt with day := (os.normalise nt).day + 7 }
        else os.normalise nt)) := by
    rw [← hnt]
    rfl
  rw [hnext, htime]
  split
  · rw [time_add_day, time_normalise, htime]
    unfold Os.onDay daySeconds
    congr 1
    omega
  · rw [time_normalise, htime]

/-! ## Which requests are answered right -/

/-- A day that is not past the end of its month is read back. -/
theorem date_onDay_day (h : r.sec.getD 0 ≤ 59) {month day : Int} (hday : 1 ≤ day)
    (hhas : day ≤ monthLength month) : (os.date (os.onDay r (monthStart month + (day - 1)))).day = day := by
  simp only [Os.date]
  rw [day_onDay h, monthOf_eq (inPeriod_month hday hhas)]
  omega

/-- A day past the end of its month is another one of the next month. -/
theorem onDay_overflow (month day : Int) :
    os.onDay r (monthStart month + (day - 1)) =
      os.onDay r (monthStart (month + 1) + (day - monthLength month - 1)) := by
  apply congrArg (os.onDay r)
  unfold monthLength
  omega

theorem date_onDay_overflow (h : r.sec.getD 0 ≤ 59) {month day : Int} (hday : monthLength month < day)
    (hmax : day ≤ 31) : (os.date (os.onDay r (monthStart month + (day - 1)))).day ≠ day := by
  have hlength := monthLength_bounds month
  have hnext := monthLength_bounds (month + 1)
  rw [onDay_overflow, date_onDay_day h (by omega) (by omega)]
  omega

/-- When `next_time` is right: the seconds exist; a mere time has not passed today; a day of the month exists
in this month and, if it has passed, in the next one; a day of the year exists in this year or, if it has
passed, in the next one, and in this year too where `os.time` writes back. -/
def Request.Condition (os : Os) (time : Int) (r : Request) : Prop :=
  r.sec.getD 0 ≤ 59 ∧
    match r.form with
    | .daily => time ≤ os.onDay r ((time + os.offset) / daySeconds)
    | .monthly day =>
      day ≤ monthLength (os.monthAt time) ∧
        (time ≤ os.onDay r (monthStart (os.monthAt time) + (day - 1)) ∨
          day ≤ monthLength (os.monthAt time + 1))
    | .yearly month day =>
      let here := 12 * (os.date time).year + (month - 1)
      if time ≤ os.onDay r (monthStart here + (day - 1)) then day ≤ monthLength here
      else day ≤ monthLength (here + 12) ∧ (os.writesBack = true → day ≤ monthLength here)
    | .weekly _ => True

/-- What is not a date of the request is not its next time. -/
theorem not_isNext {time t : Int} (h : ¬ r.Matches (os.date t)) : ¬ IsNext os time r t := fun hnext => h hnext.1.2

/-- Whether the answer is right is whether it is the next time. -/
theorem answer_iff {time t : Int} (h : nextTime os time r.ti = .ok t) :
    (∃ t, nextTime os time r.ti = .ok t ∧ IsNext os time r t) ↔ IsNext os time r t := by
  simp [h]

theorem daily_iff (hform : r.form = .daily) (h : r.sec.getD 0 ≤ 59) (time : Int) :
    (∃ t, nextTime os time r.ti = .ok t ∧ IsNext os time r t) ↔
      time ≤ os.onDay r ((time + os.offset) / daySeconds) := by
  have hrec : r.form.Recurs _ _ _ := hform ▸ daily_recurs
  have htoday : InPeriod (fun k : ℤ => k) ((time + os.offset) / daySeconds) ((time + os.offset) / daySeconds) :=
    ⟨le_rfl, lt_add_one _⟩
  rw [answer_iff (nextTime_daily hform h time)]
  by_cases hle : time ≤ os.onDay r ((time + os.offset) / daySeconds)
  · rw [if_neg (not_lt.mpr hle)]
    exact iff_of_true (isNext_here hrec h htoday trivial hle) hle
  · rw [if_pos (not_le.mp hle)]
    refine iff_of_false (fun hnext => ?_) hle
    -- tomorrow is before the same day of the next month
    have htomorrow := isNext_next hrec h htoday (fun _ => not_le.mp hle) trivial
    have heq := hnext.unique htomorrow
    have hlength := (monthLength_bounds (os.monthAt time)).1
    obtain ⟨hday, -, -⟩ := date_day os time
    unfold Os.onDay monthLength daySeconds at *
    omega

theorem weekly_isNext {wday : Int} (hform : r.form = .weekly wday) (h : r.sec.getD 0 ≤ 59) (time : Int) :
    ∃ t, nextTime os time r.ti = .ok t ∧ IsNext os time r t := by
  have hvalid : (Form.weekly wday).Valid := hform ▸ r.form_valid
  have hrec : r.form.Recurs _ _ _ := hform ▸ weekly_recurs hvalid
  have hweek : InPeriod (fun k => 7 * k - 4) (os.weekAt time) ((time + os.offset) / daySeconds) := by
    simp only [InPeriod, Os.weekAt]
    omega
  rw [answer_iff (nextTime_weekly hform time)]
  split
  · rename_i hlt
    exact isNext_next hrec h hweek (fun _ => hlt) trivial
  · rename_i hle
    exact isNext_here hrec h hweek trivial (not_lt.mp hle)

theorem monthly_iff {day : Int} (hform : r.form = .monthly day) (h : r.sec.getD 0 ≤ 59) (time : Int) :
    (∃ t, nextTime os time r.ti = .ok t ∧ IsNext os time r t) ↔
      day ≤ monthLength (os.monthAt time) ∧
        (time ≤ os.onDay r (monthStart (os.monthAt time) + (day - 1)) ∨
          day ≤ monthLength (os.monthAt time + 1)) := by
  have hvalid : (Form.monthly day).Valid := hform ▸ r.form_valid
  have hrec : r.form.Recurs _ _ _ := hform ▸ monthly_recurs hvalid.1
  have hmonth : InPeriod monthStart (os.monthAt time) ((time + os.offset) / daySeconds) := monthOf_spec _
  have hmatches : ∀ t, r.Matches (os.date t) → (os.date t).day = day := by
    rintro t ⟨-, -, -, hday⟩
    rw [hform] at hday
    exact hday
  by_cases hhas : day ≤ monthLength (os.monthAt time)
  · rw [answer_iff (nextTime_monthly hform h hvalid.1 time hhas), and_iff_right hhas]
    by_cases hle : time ≤ os.onDay r (monthStart (os.monthAt time) + (day - 1))
    · rw [if_neg (not_lt.mpr hle)]
      exact iff_of_true (isNext_here hrec h hmonth hhas hle) (.inl hle)
    · rw [if_pos (not_le.mp hle), or_iff_right hle]
      by_cases hnext : day ≤ monthLength (os.monthAt time + 1)
      · exact iff_of_true (isNext_next hrec h hmonth (fun _ => not_le.mp hle) hnext) hnext
      · refine iff_of_false (not_isNext fun hm => ?_) hnext
        exact date_onDay_overflow h (not_le.mp hnext) hvalid.2 (hmatches _ hm)
  · rw [answer_iff (nextTime_monthly_absent hform h time (not_le.mp hhas))]
    refine iff_of_false (not_isNext fun hm => ?_) fun hcond => hhas hcond.1
    exact date_onDay_overflow h (not_le.mp hhas) hvalid.2 (hmatches _ hm)

/-- After a date that does not exist, `os.time` has written the day it is in the next month. -/
theorem time_next_year_absent (h : r.sec.getD 0 ≤ 59) {year month day : Int}
    (hwrites : os.writesBack = true) (hday : monthLength (12 * year + (month - 1)) < day) (hmax : day ≤ 31) :
    os.time { os.normalise (r.table year month day) with
        year := (os.normalise (r.table year month day)).year + 1 } =
      os.onDay r (monthStart (12 * year + (month - 1) + 13) +
        (day - monthLength (12 * year + (month - 1)) - 1)) := by
  generalize hhere : 12 * year + (month - 1) = here at *
  have hlength := monthLength_bounds here
  have hnext := monthLength_bounds (here + 1)
  obtain ⟨hhour, hmin, hsec⟩ := (@onDay_iff os r h (os.time (r.table year month day))).mpr (by
    rw [time_table, day_onDay h])
  have hdayOf : (os.time (r.table year month day) + os.offset) / daySeconds =
      monthStart (here + 1) + (day - monthLength here - 1) := by
    rw [time_table, hhere, onDay_overflow, day_onDay h]
  have hmonthOf := monthOf_eq (inPeriod_month (show 1 ≤ day - monthLength here by omega)
    (show day - monthLength here ≤ monthLength (here + 1) by omega))
  have hday' : (os.date (os.time (r.table year month day))).day = day - monthLength here := by
    simp only [Os.date, hdayOf, hmonthOf]
    omega
  have hmonth' : 12 * ((os.date (os.time (r.table year month day))).year + 1) +
      ((os.date (os.time (r.table year month day))).month - 1) = here + 13 := by
    simp only [Os.date, hdayOf, hmonthOf]
    omega
  unfold Os.normalise
  rw [if_pos hwrites]
  simp only [Os.time, Os.onDay, Request.secs, Option.getD_some] at *
  rw [hhour, hmin, hsec, hday', hmonth']

theorem yearly_iff {month day : Int} (hform : r.form = .yearly month day) (h : r.sec.getD 0 ≤ 59) (time : Int) :
    (∃ t, nextTime os time r.ti = .ok t ∧ IsNext os time r t) ↔
      let here := 12 * (os.date time).year + (month - 1)
      if time ≤ os.onDay r (monthStart here + (day - 1)) then day ≤ monthLength here
      else day ≤ monthLength (here + 12) ∧ (os.writesBack = true → day ≤ monthLength here) := by
  have hvalid : (Form.yearly month day).Valid := hform ▸ r.form_valid
  obtain ⟨hmonth, hmonth', hday, hday'⟩ := hvalid
  have hrec : r.form.Recurs _ _ _ := hform ▸ yearly_recurs ⟨hmonth, hmonth'⟩ hday
  have hyear : InPeriod (fun k => monthStart (12 * k)) (os.date time).year ((time + os.offset) / daySeconds) := by
    obtain ⟨hlow, hhigh⟩ := monthOf_spec ((time + os.offset) / daySeconds)
    have hstart : monthStart (12 * (monthOf ((time + os.offset) / daySeconds) / 12)) ≤
        monthStart (monthOf ((time + os.offset) / daySeconds)) := monthStart_strictMono.monotone (by omega)
    have hend : monthStart (monthOf ((time + os.offset) / daySeconds) + 1) ≤
        monthStart (12 * (monthOf ((time + os.offset) / daySeconds) / 12 + 1)) :=
      monthStart_strictMono.monotone (by omega)
    exact ⟨hstart.trans hlow, hhigh.trans_le hend⟩
  have hmatches : ∀ t, r.Matches (os.date t) → (os.date t).day = day := by
    rintro t ⟨-, -, -, hday⟩
    rw [hform] at hday
    exact hday.2
  rw [answer_iff (nextTime_yearly hform time)]
  generalize hhere : 12 * (os.date time).year + (month - 1) = here
  dsimp only
  by_cases hle : time ≤ os.onDay r (monthStart here + (day - 1))
  · rw [if_neg (not_lt.mpr hle), if_pos hle]
    by_cases hhas : day ≤ monthLength here
    · refine iff_of_true ?_ hhas
      rw [← hhere] at hhas hle ⊢
      exact isNext_here hrec h hyear hhas hle
    · refine iff_of_false (not_isNext fun hm => ?_) hhas
      exact date_onDay_overflow h (not_le.mp hhas) hday' (hmatches _ hm)
  · rw [if_pos (not_le.mp hle), if_neg hle]
    have hsucc : 12 * ((os.date time).year + 1) + (month - 1) = here + 12 := by omega
    have hnext : IsNext os time r (os.onDay r (monthStart (here + 12) + (day - 1))) ↔
        day ≤ monthLength (here + 12) := by
      by_cases hhas : day ≤ monthLength (here + 12)
      · refine iff_of_true ?_ hhas
        rw [← hsucc] at hhas ⊢
        rw [← hhere] at hle
        exact isNext_next hrec h hyear (fun _ => not_le.mp hle) hhas
      · refine iff_of_false (not_isNext fun hm => ?_) hhas
        exact date_onDay_overflow h (not_le.mp hhas) hday' (hmatches _ hm)
    by_cases hhas : day ≤ monthLength here
    · rw [and_iff_left fun _ => hhas, ← hnext, ← hsucc]
      rw [← hhere] at hhas
      rw [time_next_year h ⟨hmonth, hmonth'⟩ hday hhas]
    · by_cases hwrites : os.writesBack = true
      · -- `os.time` has written a day of the next month
        rw [← hhere] at hhas
        rw [time_next_year_absent h hwrites (not_le.mp hhas) hday', hhere]
        rw [hhere] at hhas
        refine iff_of_false (not_isNext fun hm => ?_) fun hcond => hhas (hcond.2 hwrites)
        have hlength := monthLength_bounds here
        have hlength' := monthLength_bounds (here + 13)
        have hread := @date_onDay_day os r h (here + 13) (day - monthLength here) (by omega) (by omega)
        rw [hmatches _ hm] at hread
        omega
      · have hnt : os.normalise (r.table (os.date time).year month day) = r.table (os.date time).year month day := by
          unfold Os.normalise
          rw [if_neg hwrites]
        rw [hnt, and_iff_left fun htrue => absurd htrue hwrites, ← hnext, ← hsucc]
        rfl

/-- `next_time` gives the first instant from now on that has the fields of the request exactly when the
condition of the request holds. -/
theorem nextTime_iff (os : Os) (time : Int) (r : Request) :
    (∃ t, nextTime os time r.ti = .ok t ∧ IsNext os time r t) ↔ r.Condition os time := by
  unfold Request.Condition
  by_cases h : r.sec.getD 0 ≤ 59
  · rw [and_iff_right h]
    rcases hform : r.form with - | day | ⟨month, day⟩ | wday
    · exact daily_iff hform h time
    · exact monthly_iff hform h time
    · exact yearly_iff hform h time
    · exact iff_of_true (weekly_isNext hform h time) trivial
  · refine iff_of_false ?_ fun hcond => h hcond.1
    rintro ⟨t, -, hnext⟩
    exact not_matches_of_sec (not_le.mp h) t hnext.1.2

/-- 10:00 is asked for on 2021-03-15 at 12:00: the answer is 10:00 on 2021-04-15. -/
theorem not_nextTime : ∃ t, nextTime ⟨0, true⟩ 1615809600 { hour := some 10, min := some 0 } = .ok t ∧
    Os.date ⟨0, true⟩ t = ⟨2021, 4, 15, 10, 0, 0, 5⟩ ∧
    ¬ IsNext ⟨0, true⟩ 1615809600
      ⟨.daily, 10, 0, none, trivial, by decide, by decide, by simp⟩ t := by
  refine ⟨1618480800, by decide, by decide, fun hnext => ?_⟩
  -- tomorrow at 10:00
  have htomorrow : (1618480800 : Int) ≤ 1615888800 := hnext.2 ⟨by decide, by decide, by decide, by decide, trivial⟩
  exact absurd htomorrow (by decide)

end AntServer.SkynetApi.SkynetSchedule
