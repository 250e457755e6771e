/-
Dates as text: `parse_date` and what it calls (`plugins/history/date.re`), after
the lexer.

A pointer that a tag sets is the text from there to the terminating NUL, included;
a text between two pointers is what the first has more than the second. The
assertions of the source are errors of their own.
-/
import PkgPlugins.Calendar
import PkgPlugins.DateLexer
import PkgPlugins.ParseNum
import Mathlib.Tactic.IntervalCases

set_option autoImplicit false

namespace PkgPlugins.Date

open PkgPlugins.Libc PkgPlugins.Calendar PkgPlugins.ParseNum PkgPlugins.Lexer PkgPlugins.DateLexer

/-! ## Broken-down time -/

/-- `struct tm`, of which the rest is not read. -/
structure tm where
  tm_sec : ℤ
  tm_min : ℤ
  tm_hour : ℤ
  tm_mday : ℤ
  tm_mon : ℤ
  tm_year : ℤ
deriving DecidableEq

inductive date_error
  | assertion
  | time
  | gmtime
  | invalid_date
  | year
  | month
  | component (name : String)
  | month_value (value : ℤ)
  | day_value (value : ℤ) (month : String)
deriving DecidableEq

/-- The messages. For a component it is not the value that is printed, but its
address. -/
def date_error.text (address : String → ℤ) : date_error → String
  | .assertion => ""
  | .time => "time(3) failed"
  | .gmtime => "gmtime(3) failed"
  | .invalid_date => "invalid date"
  | .year => "can't identify year"
  | .month => "can't identify month"
  | .component name => "value '" ++ toString (address name) ++ "' as " ++ name ++ " is invalid"
  | .month_value value => "value '" ++ toString value ++ "' as month is invalid"
  | .day_value value name =>
      "value '" ++ toString value ++ "' as day is invalid for month '" ++ name ++ "'"

/-! ## Months -/

structure month_t where
  value : ℤ
  name : String
  days_regular_year : ℤ
  days_leap_year : ℤ

def months : List month_t :=
  [ ⟨1, "January", 31, 31⟩,
    ⟨2, "February", 28, 29⟩,
    ⟨3, "March", 31, 31⟩,
    ⟨4, "April", 30, 30⟩,
    ⟨5, "May", 31, 31⟩,
    ⟨6, "June", 30, 30⟩,
    ⟨7, "July", 31, 31⟩,
    ⟨8, "August", 31, 31⟩,
    ⟨9, "September", 30, 30⟩,
    ⟨10, "October", 31, 31⟩,
    ⟨11, "November", 30, 30⟩,
    ⟨12, "December", 31, 31⟩ ]

def is_leap_year (y : ℤ) : Bool := (y.tmod 4 = 0 && y.tmod 100 ≠ 0) || y.tmod 400 = 0

/-- The days of a month in a leap year, or in another. -/
def month_t.days (month : month_t) (leap : Bool) : ℤ :=
  if leap then month.days_leap_year else month.days_regular_year

/-- `days_in_month`, and the name of the month; the index is in the table. -/
def days_in_month (t : tm) : ℤ :=
  ((months[t.tm_mon.toNat]?).map fun month => month.days (is_leap_year (t.tm_year + 1900))).getD 0

/-- `components[]`. -/
def components : List (String × (tm → ℤ) × ℤ × ℤ) :=
  [("seconds", tm.tm_sec, 0, 60), ("minutes", tm.tm_min, 0, 60), ("hours", tm.tm_hour, 0, 23)]

def is_date_valid (t : tm) : Except date_error Unit :=
  match components.find? fun (_, v, min, max) => !(min ≤ v t && v t ≤ max) with
  | some (name, _) => .error (.component name)
  | none =>
      if t.tm_mon < 0 ∨ 11 < t.tm_mon then .error (.month_value (t.tm_mon + 1))
      else if t.tm_mday < 1 ∨ days_in_month t < t.tm_mday then
        .error (.day_value t.tm_mday (((months[t.tm_mon.toNat]?).map month_t.name).getD ""))
      else .ok ()

/-! ## The date -/

/-- `ascii_toupper`. -/
def ascii_toupper (c : Char) : Char :=
  if 97 ≤ c.toNat ∧ c.toNat ≤ 122 then Char.ofNat (c.toNat - 32) else c

/-- `ascii_strcasecmp_l`. -/
def ascii_strcasecmp_l : List Char → List Char → ℤ
  | c1 :: str1, c2 :: str2 =>
      if ascii_toupper c1 ≠ ascii_toupper c2 then
        ((ascii_toupper c1).toNat : ℤ) - ((ascii_toupper c2).toNat : ℤ)
      else ascii_strcasecmp_l str1 str2
  | str1, str2 => (str1.length : ℤ) - (str2.length : ℤ)

def month_value_from_name (name : List Char) : ℤ :=
  ((months.find? fun month => ascii_strcasecmp_l name month.name.toList = 0
      || ascii_strcasecmp_l name (month.name.toList.take 3) = 0).map month_t.value).getD (-1)

def my_atoi (string : List Char) : Except date_error ℤ :=
  match strntoint32_t string 10 none none with
  | ⟨.PARSE_NUM_NO_ERR, [], some val⟩ => .ok val
  | _ => .error .assertion

def is_year (y : ℤ) : Bool := y < 1 || 31 < y

/-- `guess_year`: the year, and the numbers without it. -/
def guess_year : List ℤ → Option (ℤ × List ℤ)
  | [] => none
  | head :: rest =>
      let tail := rest.getLastD head
      match is_year head, rest ≠ [] && (head = tail || is_year tail) with
      | true, false => some (head, rest)
      | false, true => some (tail, (head :: rest).dropLast)
      | _, _ => none

def is_month (m : ℤ) : Bool := 1 ≤ m && m ≤ 12

/-- The loop of `guess_month` from the index `i` on: `match_count` and the match. -/
def guess_month_loop : ℕ → ℕ → Option (ℕ × ℤ) → List ℤ → ℕ × Option (ℕ × ℤ)
  | _, match_count, found, [] => (match_count, found)
  | i, match_count, found, n :: unidentified =>
      if found.all (fun f => f.2 ≠ n) && is_month n then
        guess_month_loop (i + 1) (match_count + 1) (some (i, n)) unidentified
      else guess_month_loop (i + 1) match_count found unidentified

/-- `guess_month`: the month, and the numbers without it. -/
def guess_month (unidentified : List ℤ) : Option (ℤ × List ℤ) :=
  match guess_month_loop 0 0 none unidentified with
  | (1, some (i, m)) => some (m, unidentified.eraseIdx i)
  | _ => none

/-- `set_date`; a null pointer is `none`. -/
def set_date (t : tm) (y m d n1 n2 n3 : Option ℤ) : Except date_error tm := do
  let unidentified := [n1, n2, n3].filterMap id
  let (y, unidentified) ← match y with
    | some y => .ok (y, unidentified)
    | none => (guess_year unidentified).elim (.error .year) .ok
  let (m, unidentified) ← match m with
    | some m => .ok (m, unidentified)
    | none => (guess_month unidentified).elim (.error .month) .ok
  let d ← match d, unidentified with
    | some d, _ => .ok d
    | none, [d] => .ok d
    | none, _ => .error .assertion
  -- a year that is not given stays the current one
  let t := if y ≠ -1 then { t with tm_year := if 1900 ≤ y then y - 1900 else y } else t
  .ok { t with tm_mon := m - 1, tm_mday := d }

/-! ## The time -/

def skip (string skiplist : List Char) : List Char := string.dropWhile skiplist.contains

def parse_am_pm (t : tm) (string : List Char) : tm :=
  if t.tm_hour < 12 ∧ string ≠ [] then
    let p := skip string [' ']
    if deref p = 'P' ∨ deref p = 'p' then { t with tm_hour := t.tm_hour + 12 } else t
  else t

/-- `parse_time_component`: the status, the component, and where it ends. -/
def parse_time_component (string : List Char) (skiplist : List Char) (component : ℤ) :
    ParseNumError × ℤ × List Char :=
  let r := strntoint32_t (skip string skiplist) 10 none none
  (r.status,
    if r.status = .PARSE_NUM_NO_ERR ∨ r.status = .PARSE_NUM_ERR_NON_DIGIT_FOUND then r.ret.getD 0
    else component,
    r.endptr)

/-- `set_time`, on the text from the tag to the end. -/
def set_time (t : tm) (string : List Char) : tm :=
  let (status, hour, endptr) := parse_time_component string [' '] t.tm_hour
  let t := { t with tm_hour := hour }
  if status = .PARSE_NUM_NO_ERR then t
  else if status = .PARSE_NUM_ERR_NON_DIGIT_FOUND ∧ deref endptr ≠ ':' then parse_am_pm t endptr
  else
    let (status, min, endptr) := parse_time_component endptr.tail [':'] t.tm_min
    let t := { t with tm_min := min }
    if status = .PARSE_NUM_NO_ERR then t
    else if status = .PARSE_NUM_ERR_NON_DIGIT_FOUND ∧ deref endptr ≠ ':' then
      parse_am_pm t endptr
    else
      let (status, sec, endptr) := parse_time_component endptr.tail [':'] t.tm_sec
      let t := { t with tm_sec := sec }
      if status = .PARSE_NUM_NO_ERR then t else parse_am_pm t endptr

/-! ## The whole -/

/-- What a tag recorded; `none` is the null pointer. -/
def pointer (tags : List (date_tag × List Char)) (t : date_tag) : Option (List Char) :=
  tags.lookup t

/-- The text from a pointer to another. -/
def between (tags : List (date_tag × List Char)) (first last : date_tag) : List Char :=
  let string := (pointer tags first).getD []
  string.take (string.length - ((pointer tags last).getD []).length)

/-- `set_time(tm, ts, YYLIMIT)`, which does nothing if `ts` is null. -/
def set_time_from (t : tm) (tags : List (date_tag × List Char)) : tm :=
  match pointer tags .ts with
  | none => t
  | some ts => set_time t ts.dropLast

/-- At the label `done`: the year, if it was given, and -1 if not. -/
def done_year (tags : List (date_tag × List Char)) : Except date_error ℤ :=
  if pointer tags .ys ≠ pointer tags .ye then my_atoi (between tags .ys .ye) else .ok (-1)

/-- At the label `done`: the month, as a number or by its name. -/
def done_month (tags : List (date_tag × List Char)) : Except date_error ℤ :=
  if isdigit (deref ((pointer tags .ms).getD [])) then my_atoi (between tags .ms .me)
  else .ok (month_value_from_name (between tags .ms .me))

/-- The label `done`. -/
def yylex_done (t : tm) (tags : List (date_tag × List Char)) : Except date_error tm := do
  let y ← done_year tags
  let m ← done_month tags
  let d ← my_atoi (between tags .ds .de)
  let t ← set_date t (some y) (some m) (some d) none none none
  .ok (set_time_from t tags)

def yylex (string : List Char) (t : tm) : Except date_error tm :=
  match lex rules (string ++ [NUL]) with
  | none => .error .invalid_date
  | some ((action, tags), _) =>
      match action with
      | .today => .ok t
      | .done => yylex_done t tags
      | .month_day => do
          let m ← my_atoi (between tags .ms .me)
          let d ← my_atoi (between tags .ds .de)
          if pointer tags .ys ≠ pointer tags .ye then
            let y ← my_atoi (between tags .ys .ye)
            let t ← set_date t (some y) (some m) (some d) none none none
            .ok (set_time_from t tags)
          else
            let t ← set_date t (some (-1)) none none (some m) (some d) none
            .ok (set_time_from t tags)
      | .number_month_number => do
          let y ← my_atoi (between tags .ys .ye)
          let m ← my_atoi (between tags .ms .me)
          let d ← my_atoi (between tags .ds .de)
          let t ← set_date t none (some m) none (some y) (some d) none
          .ok (set_time_from t tags)
      | .number_number => do
          let m ← my_atoi (between tags .ms .me)
          let d ← my_atoi (between tags .ds .de)
          let t ← set_date t (some (-1)) none none (some m) (some d) none
          .ok (set_time_from t tags)
      | .invalid => .error .invalid_date

/-- `timegm(3)`: the seconds since the Epoch, by the formula of the standard with
divisions that round down, for a month that is in the table. -/
def timegm (t : tm) : ℤ :=
  let leap := is_leap_year (t.tm_year + 1900)
  let yday := ((months.take t.tm_mon.toNat).map fun month => month.days leap).sum + t.tm_mday - 1
  t.tm_sec + t.tm_min * 60 + t.tm_hour * 3600 + yday * 86400 + (t.tm_year - 70) * 31536000
    + (t.tm_year - 69) / 4 * 86400 - (t.tm_year - 1) / 100 * 86400
    + (t.tm_year + 299) / 400 * 86400

/-- `parse_date`, with the results of `time(3)` and `gmtime(3)`. -/
def parse_date (time_now : Option ℤ) (gmtime : ℤ → Option tm) (date : List Char) :
    Except date_error ℤ :=
  match time_now with
  | none => .error .time
  | some time_now =>
      match gmtime time_now with
      | none => .error .gmtime
      | some tm_now => do
          let t ← yylex date { tm_now with tm_sec := 0, tm_min := 0, tm_hour := 0 }
          is_date_valid t
          .ok (timegm t)

/-! ## The calendar -/

theorem is_leap_year_eq (y : ℤ) : is_leap_year y = isLeap y := by
  have hmod : ∀ n : ℤ, y.tmod n = 0 ↔ y % n = 0 := by
    intro n
    rw [← Int.dvd_iff_tmod_eq_zero, Int.dvd_iff_emod_eq_zero]
  unfold is_leap_year isLeap
  simp only [ne_eq, hmod]

/-- The table has the days of the months. -/
theorem days_in_month_eq (t : tm) {m : ℕ} (hm : 1 ≤ m) (hm' : m ≤ 12) (ht : t.tm_mon = m - 1) :
    days_in_month t = monthDays (isLeap (t.tm_year + 1900)) m := by
  rw [days_in_month, ht, is_leap_year_eq]
  cases isLeap (t.tm_year + 1900) <;> interval_cases m <;> rfl

/-- The days of the months before, by the table. -/
theorem sum_days_eq (leap : Bool) {m : ℕ} (hm : 1 ≤ m) (hm' : m ≤ 12) :
    ((months.take ((m : ℤ) - 1).toNat).map fun month => month.days leap).sum
      = daysBeforeMonth leap m := by
  cases leap <;> interval_cases m <;> rfl

/-- **`timegm` counts the days**: the formula of the standard is that of the calendar. -/
theorem timegm_eq (t : tm) {m d : ℕ} (hm : 1 ≤ m) (hm' : m ≤ 12) (ht : t.tm_mon = m - 1)
    (hd : t.tm_mday = d) :
    timegm t = 86400 * dayNumber (t.tm_year + 1900) m d + 3600 * t.tm_hour + 60 * t.tm_min
      + t.tm_sec := by
  unfold timegm
  dsimp only
  rw [ht, hd, sum_days_eq _ hm hm', is_leap_year_eq]
  unfold dayNumber daysBeforeYear
  generalize (daysBeforeMonth (isLeap (t.tm_year + 1900)) m : ℤ) = before
  -- the divisions of the formula are those of the calendar, moved by whole periods
  have h4 : (t.tm_year + 1900 - 1) / 4 = (t.tm_year - 69) / 4 + 492 := by omega
  have h100 : (t.tm_year + 1900 - 1) / 100 = (t.tm_year - 1) / 100 + 19 := by omega
  have h400 : (t.tm_year + 1900 - 1) / 400 = (t.tm_year + 299) / 400 + 4 := by omega
  rw [h4, h100, h400]
  omega

/-! ## Validity -/

/-- Nothing is wrong with the components of a time of the day. -/
theorem components_valid {t : tm} (hsec : 0 ≤ t.tm_sec ∧ t.tm_sec ≤ 59)
    (hmin : 0 ≤ t.tm_min ∧ t.tm_min ≤ 59) (hhour : 0 ≤ t.tm_hour ∧ t.tm_hour ≤ 23) :
    components.find? (fun (_, v, min, max) => !(min ≤ v t && v t ≤ max)) = none := by
  rw [List.find?_eq_none]
  simp only [components, List.mem_cons, List.not_mem_nil, or_false]
  rintro c (rfl | rfl | rfl) <;> simp <;> omega

/-- **A date is valid** when its day is one of the month. -/
theorem is_date_valid_eq (t : tm) {m d : ℕ} (hm : 1 ≤ m) (hm' : m ≤ 12) (ht : t.tm_mon = m - 1)
    (hd : t.tm_mday = d) (hpos : 1 ≤ d) (hsec : 0 ≤ t.tm_sec ∧ t.tm_sec ≤ 59)
    (hmin : 0 ≤ t.tm_min ∧ t.tm_min ≤ 59) (hhour : 0 ≤ t.tm_hour ∧ t.tm_hour ≤ 23) :
    is_date_valid t = .ok () ↔ d ≤ monthDays (isLeap (t.tm_year + 1900)) m := by
  unfold is_date_valid
  rw [components_valid hsec hmin hhour, days_in_month_eq t hm hm' ht, ht, hd]
  dsimp only
  rw [if_neg (by omega)]
  split_ifs with h
  · simp only [false_iff]
    omega
  · simp only [true_iff]
    omega

/-! ## The pieces of a date -/

/-- The text between two pointers into a text. -/
theorem take_append_sub (w r : List Char) : (w ++ r).take ((w ++ r).length - r.length) = w := by
  rw [List.length_append, Nat.add_sub_cancel, List.take_left]

/-- A number that fits is read. -/
theorem my_atoi_digits {ds : List Char} (hne : ds ≠ []) (hds : ∀ c ∈ ds, isdigit c = true)
    (hfits : digitsVal ds < 2 ^ 31) : my_atoi ds = .ok (digitsVal ds) := by
  have hconv : strntoint32_t (ds ++ []) 10 none none = _ :=
    strntoint32_t_digits hne hds rfl hfits
  rw [List.append_nil, if_pos rfl] at hconv
  rw [my_atoi, hconv]

/-- For a number that doesn't fit the assertion fails. -/
theorem my_atoi_large {ds : List Char} (hne : ds ≠ []) (hds : ∀ c ∈ ds, isdigit c = true)
    (hlarge : 2 ^ 31 ≤ digitsVal ds) : my_atoi ds = .error .assertion := by
  have hconv : strntoint32_t (ds ++ []) 10 none none = _ :=
    strntoint32_t_large hne hds rfl hlarge
  rw [List.append_nil] at hconv
  rw [my_atoi, hconv]

/-- A component of a time, up to the next separator or the end. -/
theorem parse_time_component_digits {ds rest skiplist : List Char} (hne : ds ≠ [])
    (hds : ∀ c ∈ ds, isdigit c = true) (hskip : ∀ c ∈ skiplist, isdigit c = false)
    (hrest : isdigit (deref rest) = false) (hfits : digitsVal ds < 2 ^ 31) (component : ℤ) :
    parse_time_component (ds ++ rest) skiplist component
      = (if rest = [] then .PARSE_NUM_NO_ERR else .PARSE_NUM_ERR_NON_DIGIT_FOUND,
          (digitsVal ds : ℤ), rest) := by
  -- a digit is not skipped
  have hkeep : skip (ds ++ rest) skiplist = ds ++ rest := by
    obtain ⟨d, tail, rfl⟩ := List.exists_cons_of_ne_nil hne
    have hd := hds d List.mem_cons_self
    have hnot : skiplist.contains d = false := by
      rw [Bool.eq_false_iff, ne_eq, List.contains_iff_mem]
      intro hmem
      exact absurd hd (by simp [hskip d hmem])
    exact List.dropWhile_cons_of_neg (by simpa using hnot)
  rw [parse_time_component, hkeep, strntoint32_t_digits hne hds hrest hfits]
  by_cases hend : rest = []
  · simp [hend]
  · simp [hend]

end PkgPlugins.Date
