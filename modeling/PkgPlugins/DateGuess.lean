/-
Dates that can be read in two ways (`plugins/history/date.re`): two numbers, of which
either is the month, and a number, a month and a number, of which either may be the year.

Two numbers are matched by two rules that do the same. `parse_date` accepts them if just
one date of the current year is among the two readings; for the other format, if it accepts
one reading, the other is no date.
-/
import PkgPlugins.DateNumbers

set_option autoImplicit false

namespace PkgPlugins.DateGuess

open PkgPlugins.Libc PkgPlugins.Calendar PkgPlugins.Lexer PkgPlugins.DateLexer PkgPlugins.Date
  PkgPlugins.DateText PkgPlugins.DateFields PkgPlugins.DateWhole PkgPlugins.DateMonths
  PkgPlugins.DateTimes PkgPlugins.DateActions PkgPlugins.DateNumbers

/-! ## Readings -/

/-- The date with a year, a month and a day. -/
def IsDate (year : ℤ) (month day : ℕ) (date : Calendar.Date) : Prop :=
  date.year = year ∧ date.month = month ∧ date.day = day

/-- A date that two numbers can be read as, in a year. -/
def Reading (year : ℤ) (a b : ℕ) (date : Calendar.Date) : Prop :=
  IsDate year a b date ∨ IsDate year b a date

/-- The time is that of the only reading, at midnight. -/
def OnlyReading (year : ℤ) (a b : ℕ) (v : ℤ) : Prop :=
  ∃ date, Reading year a b date ∧ (∀ date', Reading year a b date' → date' = date)
    ∧ date.timestamp 0 0 0 = v

/-- The time is one of the day. -/
def OnDay (date : Calendar.Date) (v : ℤ) : Prop :=
  ∃ hour minute second : ℕ, (hour ≤ 23 ∧ minute ≤ 59 ∧ second ≤ 59)
    ∧ date.timestamp hour minute second = v

/-- The time is on the day for one way to take two numbers for the year and the day of a
month; the other way is the same, or gives no date. -/
def OnlyAssignment (y m d : ℕ) (v : ℤ) : Prop :=
  ∃ year day : ℕ, (y = year ∧ d = day ∨ y = day ∧ d = year)
    ∧ (∃ date, IsDate (stored_year year + 1900) m day date ∧ OnDay date v)
    ∧ (day = year ∨ ¬ ∃ date, IsDate (stored_year day + 1900) m year date)

theorem IsDate.unique {year : ℤ} {month day : ℕ} {date date' : Calendar.Date}
    (h : IsDate year month day date) (h' : IsDate year month day date') : date' = date := by
  obtain ⟨rfl, rfl, rfl⟩ := h
  obtain ⟨hyear, hmonth, hday⟩ := h'
  cases date
  cases date'
  simp_all

theorem exists_isDate_iff (year : ℤ) (month day : ℕ) :
    (∃ date, IsDate year month day date)
      ↔ (1 ≤ month ∧ month ≤ 12) ∧ 1 ≤ day ∧ day ≤ monthDays (isLeap year) month := by
  constructor
  · rintro ⟨date, rfl, rfl, rfl⟩
    exact ⟨⟨date.month_pos, date.month_le⟩, date.day_pos, date.day_le⟩
  · rintro ⟨⟨hpos, hle⟩, hday, hday'⟩
    exact ⟨⟨year, month, day, hpos, hle, hday, hday'⟩, rfl, rfl, rfl⟩

theorem is_month_iff (m : ℕ) : is_month m = true ↔ 1 ≤ m ∧ m ≤ 12 := by
  simp only [is_month, Bool.and_eq_true, decide_eq_true_eq]
  omega

/-- Every month has 28 days. -/
theorem le_monthDays (leap : Bool) {m : ℕ} (hm : 1 ≤ m ∧ m ≤ 12) : 28 ≤ monthDays leap m := by
  obtain ⟨hpos, hle⟩ := hm
  cases leap <;> interval_cases m <;> decide

/-! ## What is valid -/

theorem month_of_valid {t : tm} (h : is_date_valid t = .ok ()) : 0 ≤ t.tm_mon ∧ t.tm_mon ≤ 11 := by
  unfold is_date_valid at h
  split at h
  · exact absurd h (by simp)
  · split_ifs at h with hmonth hday
    omega

/-- **The fields of a time of the day are valid** if there is a date with the month and the
day, and they are its time. -/
theorem valid_iff {t : tm} {m d : ℕ} (hmon : t.tm_mon = m - 1) (hmday : t.tm_mday = d)
    (hhour : 0 ≤ t.tm_hour ∧ t.tm_hour ≤ 23) (hmin : 0 ≤ t.tm_min ∧ t.tm_min ≤ 59)
    (hsec : 0 ≤ t.tm_sec ∧ t.tm_sec ≤ 59) (v : ℤ) :
    is_date_valid t = .ok () ∧ timegm t = v
      ↔ ∃ date, IsDate (t.tm_year + 1900) m d date
          ∧ date.timestamp t.tm_hour.toNat t.tm_min.toNat t.tm_sec.toNat = v := by
  have htimegm : ∀ date, IsDate (t.tm_year + 1900) m d date →
      date.timestamp t.tm_hour.toNat t.tm_min.toNat t.tm_sec.toNat = timegm t := by
    rintro date ⟨hyear, rfl, rfl⟩
    rw [timegm_eq t date.month_pos date.month_le hmon hmday, Date.timestamp, hyear]
    omega
  constructor
  · rintro ⟨hvalid, rfl⟩
    have hmonth := month_of_valid hvalid
    have hday := day_pos_of_valid hvalid
    have hle := (is_date_valid_eq t (by omega) (by omega) hmon hmday (by omega) hsec hmin hhour).mp
      hvalid
    obtain ⟨date, hdate⟩ := (exists_isDate_iff (t.tm_year + 1900) m d).mpr
      ⟨⟨by omega, by omega⟩, by omega, hle⟩
    exact ⟨date, hdate, htimegm date hdate⟩
  · rintro ⟨date, hdate, rfl⟩
    obtain ⟨⟨hpos, hle⟩, hday, hday'⟩ := (exists_isDate_iff _ m d).mp ⟨date, hdate⟩
    exact ⟨(is_date_valid_eq t hpos hle hmon hmday hday hsec hmin hhour).mpr hday',
      (htimegm date hdate).symm⟩

/-- Two numbers of which the first is the month. -/
theorem isDate_of_reading {year : ℤ} {a b : ℕ} (h : is_month b = true → (a : ℤ) = b)
    (date : Calendar.Date) : Reading year a b date ↔ IsDate year a b date := by
  constructor
  · rintro (hdate | hdate)
    · exact hdate
    · -- the second number is the month, so they are the same
      have hmonth := ((exists_isDate_iff year b a).mp ⟨date, hdate⟩).1
      have hsame := Int.ofNat_inj.mp (h ((is_month_iff b).mpr hmonth))
      rw [hsame] at hdate ⊢
      exact hdate
  · exact Or.inl

theorem reading_comm {year : ℤ} {a b : ℕ} (date : Calendar.Date) :
    Reading year a b date ↔ Reading year b a date := Or.comm

/-- The only reading. -/
theorem single_reading {year : ℤ} {a b m d : ℕ}
    (hread : ∀ date, Reading year a b date ↔ IsDate year m d date) (v : ℤ) :
    OnlyReading year a b v ↔ ∃ date, IsDate year m d date ∧ date.timestamp 0 0 0 = v := by
  simp only [OnlyReading, hread]
  constructor
  · rintro ⟨date, hdate, -, hv⟩
    exact ⟨date, hdate, hv⟩
  · rintro ⟨date, hdate, hv⟩
    exact ⟨date, hdate, fun date' hdate' => hdate.unique hdate', hv⟩

/-- **What is accepted of two numbers**: the only date they can be read as. -/
theorem guess_accepted_iff {t : tm} (ht : t.tm_hour = 0 ∧ t.tm_min = 0 ∧ t.tm_sec = 0)
    (a b : ℕ) (v : ℤ) :
    (∃ t', set_date t (some (-1)) none none (some (a : ℤ)) (some (b : ℤ)) none = .ok t'
        ∧ is_date_valid t' = .ok () ∧ timegm t' = v)
      ↔ OnlyReading (t.tm_year + 1900) a b v := by
  obtain ⟨hhour, hmin, hsec⟩ := ht
  have hstored : ∀ m d : ℕ,
      (is_date_valid (stored_fields t (-1) m d) = .ok () ∧ timegm (stored_fields t (-1) m d) = v)
        ↔ ∃ date, IsDate (t.tm_year + 1900) m d date ∧ date.timestamp 0 0 0 = v := by
    intro m d
    have hvalid := valid_iff (t := stored_fields t (-1) m d) (m := m) (d := d)
      (stored_fields_mon _ _ _ _) (stored_fields_mday _ _ _ _) (by simp [hhour]) (by simp [hmin])
      (by simp [hsec]) v
    simpa [hhour, hmin, hsec, stored_fields_current] using hvalid
  rw [set_date_month]
  by_cases hfirst : is_month a = true ∧ (is_month b = true → (a : ℤ) = b)
  · rw [if_pos hfirst, single_reading (isDate_of_reading hfirst.2), ← hstored]
    simp
  · rw [if_neg hfirst]
    by_cases hlast : is_month b = true ∧ ¬ is_month a = true
    · have hread : ∀ date, Reading (t.tm_year + 1900) a b date
          ↔ IsDate (t.tm_year + 1900) b a date := by
        intro date
        rw [reading_comm]
        exact isDate_of_reading (fun ha => absurd ha hlast.2) date
      rw [if_pos hlast, single_reading hread, ← hstored]
      simp
    · rw [if_neg hlast]
      simp only [reduceCtorEq, false_and, exists_false, false_iff]
      rintro ⟨date, hdate, hunique, -⟩
      by_cases ha : is_month a = true
      · -- both are months, so either order is a date
        have hboth : is_month b = true ∧ (a : ℤ) ≠ b := by
          rw [not_and, Classical.not_imp] at hfirst
          exact hfirst ha
        rw [is_month_iff] at ha
        have hb := (is_month_iff b).mp hboth.1
        have hdays := le_monthDays (isLeap (t.tm_year + 1900)) ha
        have hdays' := le_monthDays (isLeap (t.tm_year + 1900)) hb
        obtain ⟨date₁, h₁⟩ :=
          (exists_isDate_iff (t.tm_year + 1900) a b).mpr ⟨ha, by omega, by omega⟩
        obtain ⟨date₂, h₂⟩ :=
          (exists_isDate_iff (t.tm_year + 1900) b a).mpr ⟨hb, by omega, by omega⟩
        have hsame := (hunique date₁ (Or.inl h₁)).trans (hunique date₂ (Or.inr h₂)).symm
        have hmonth := h₁.2.1.symm.trans ((congrArg Date.month hsame).trans h₂.2.1)
        exact hboth.2 (congrArg Nat.cast hmonth)
      · have hb : ¬ is_month b = true := fun hb => hlast ⟨hb, ha⟩
        rw [is_month_iff] at ha hb
        obtain hdate | hdate := hdate
        · exact ha ((exists_isDate_iff _ _ _).mp ⟨date, hdate⟩).1
        · exact hb ((exists_isDate_iff _ _ _).mp ⟨date, hdate⟩).1

/-! ## Two numbers -/

/-- Digits, as many as there are. -/
abbrev Digits := {w : List Char // ∀ c ∈ w, isdigit c = true}

/-- Digits and a separator are taken apart in one way. -/
theorem digits_separator_inj {a y sep sep' s s' : List Char} (ha : ∀ c ∈ a, isdigit c = true)
    (hy : ∀ c ∈ y, isdigit c = true) (hsep : sep ∈ date_separator.lang)
    (hsep' : sep' ∈ date_separator.lang) (h : a ++ (sep ++ s) = y ++ (sep' ++ s')) :
    a = y ∧ sep ++ s = sep' ++ s' :=
  append_inj_of_class h ha hy
    (fun c hc => (head_of_between date_separator_within rfl hsep s c hc).1)
    (fun c hc => (head_of_between date_separator_within rfl hsep' s' c hc).1)

theorem mem_number_of_takesDigits {a : DatePattern} (ha : TakesDigits true a) {w : List Char}
    (hw : w ∈ a.lang) : w ∈ number.lang := by
  obtain ⟨c, v, rfl, -⟩ := ha.within.starts.cons ha.nullable hw
  exact (mem_number _).mpr ⟨List.cons_ne_nil c v, ha.within.forall_mem hw⟩

/-- Without a year and a time, the text ends. -/
theorem parses_no_year {tags : List (date_tag × List Char)} {r : List Char}
    (h : (tags, r) ∈ (inSequence [maybe_year, maybe_with_time, eos]).parses [NUL]) :
    tags = [] ∧ r = [] := by
  obtain hyear | hnone := (mem_parses_maybe_cons _ _ _ _ _).mp h
  · -- a year would come behind a separator
    obtain ⟨sep, hsep, _, heq, -⟩ := (mem_parses_tagless_cons rfl _ _ _ _).mp hyear
    obtain ⟨c, v, rfl, hc⟩ := date_separator_no_nul.starts.cons rfl hsep
    exact absurd (List.cons_eq_cons.mp heq).1.symm hc
  · exact parses_no_time hnone

/-- A rule in digits takes a number, a separator and a number, and maybe more. -/
theorem two_numbers_of_digit_rule {a : DatePattern} (ha : a ∈ digit_rules) {s r : List Char}
    {tags : List (date_tag × List Char)} (h : (tags, r) ∈ a.parses s) :
    ∃ n ∈ number.lang, ∃ sep ∈ date_separator.lang, ∃ n' ∈ number.lang, ∃ m,
      s = n ++ (sep ++ (n' ++ m)) := by
  simp only [digit_rules, List.mem_cons, List.not_mem_nil, or_false] at ha
  obtain rfl | rfl | rfl | rfl := ha
  · obtain ⟨y, hy, sep, hsep, m, hm, _, -, _, -, _, _, rfl, -⟩ :=
      three_fields_match yyyy_takesDigits month_takesDigits day_takesDigits h
    exact ⟨y, mem_number_of_takesDigits yyyy_takesDigits hy, sep, hsep, m,
      mem_number_of_takesDigits month_takesDigits hm, _, rfl⟩
  · obtain ⟨m, hm, sep, hsep, d, hd, tail, rest, rfl, -⟩ := month_day_match h
    exact ⟨m, mem_number_of_takesDigits month_takesDigits hm, sep, hsep, d,
      mem_number_of_takesDigits day_takesDigits hd, _, rfl⟩
  · obtain ⟨y, hy, sep, hsep, m, hm, _, -, _, -, _, _, rfl, -⟩ :=
      three_fields_match number_takesDigits month_takesDigits number_takesDigits h
    exact ⟨y, hy, sep, hsep, m, mem_number_of_takesDigits month_takesDigits hm, _, rfl⟩
  · obtain ⟨a, ha, sep, hsep, b, hb, _, _, rfl, -⟩ := number_number_match h
    exact ⟨a, ha, sep, hsep, b, hb, _, rfl⟩

section TwoNumbers

variable (a b : Digits) (sep : Word date_separator)

/-- Two numbers with a separator. -/
def two_numbers : List Char := a.1 ++ (sep.1 ++ b.1)

theorem two_numbers_append (s : List Char) :
    two_numbers a b sep ++ s = a.1 ++ (sep.1 ++ (b.1 ++ s)) := by
  simp [two_numbers]

theorem two_numbers_no_letter : ∀ c ∈ two_numbers a b sep ++ [NUL], isletter c = false := by
  rw [two_numbers_append, List.forall_mem_append, List.forall_mem_append, List.forall_mem_append]
  exact ⟨fun c hc => isletter_of_isdigit (a.2 c hc),
    (no_letter_of_between date_separator_within).forall_mem sep.2,
    fun c hc => isletter_of_isdigit (b.2 c hc), List.forall_mem_singleton.mpr (by decide)⟩

theorem two_numbers_no_nul : NUL ∉ two_numbers a b sep := by
  unfold two_numbers
  rw [List.mem_append, List.mem_append]
  rintro (h | h | h)
  · exact not_nul_of_isdigit (a.2 NUL h) rfl
  · exact date_separator_no_nul.forall_mem sep.2 NUL h rfl
  · exact not_nul_of_isdigit (b.2 NUL h) rfl

/-- No rule with the name of a month matches. -/
theorem not_name_rule {rule : DatePattern} (hrule : rule ∈ name_rules) :
    two_numbers a b sep ++ [NUL] ∉ rule.lang := by
  intro h
  have hletters := letters_of_name_rule hrule _ h
  have hnone := letters_skip (two_numbers_no_letter a b sep) []
  rw [List.append_nil] at hnone
  rw [hnone] at hletters
  exact noMonth_not_month (Or.inl rfl) hletters

/-- Without one of the numbers the text is no date. -/
theorem ne_nil_of_ok {t t' : tm} (h : yylex (two_numbers a b sep) t = .ok t') :
    a.1 ≠ [] ∧ b.1 ≠ [] := by
  obtain ⟨w, hw, r, hsplit⟩ | ⟨rule, hrule, hword⟩ :=
    yylex_ok (s := ⟨two_numbers a b sep, two_numbers_no_nul a b sep⟩) h
  · -- there is no letter
    obtain ⟨-, -, c, v, rfl, hc⟩ := mem_today hw
    have hsplit : two_numbers a b sep = c :: v ++ r := hsplit
    have hletter := two_numbers_no_letter a b sep c (by simp [hsplit])
    rw [isletter, hc] at hletter
    exact absurd hletter (by decide)
  · obtain hdigit | hname := mem_dated_rules hrule
    · obtain ⟨c, hmatch⟩ := rule.1.parses_complete hword []
      rw [List.append_nil] at hmatch
      obtain ⟨n, hn, sep', hsep', n', hn', m, heq⟩ := two_numbers_of_digit_rule hdigit hmatch
      obtain ⟨hne, hdigits⟩ := (mem_number n).mp hn
      obtain ⟨hne', hdigits'⟩ := (mem_number n').mp hn'
      rw [two_numbers_append] at heq
      obtain ⟨hfirst, hrest⟩ := digits_separator_inj a.2 hdigits sep.2 hsep' heq
      refine ⟨hfirst ▸ hne, fun hb => ?_⟩
      -- behind the separator there is no digit
      obtain ⟨c, v, rfl⟩ := List.exists_cons_of_ne_nil hne'
      have hc : c ∈ sep.1 ++ (b.1 ++ [NUL]) := by
        rw [hrest]
        simp
      have hnot : isdigit c = false := by
        rw [hb, List.nil_append, List.mem_append, List.mem_singleton] at hc
        obtain hc | rfl := hc
        · exact (date_separator_within.forall_mem sep.2 c hc).1
        · rfl
      rw [hdigits' c List.mem_cons_self] at hnot
      exact absurd hnot (by simp)
    · exact absurd hword (not_name_rule a b sep hname)

/-- A number, a separator and a number in the text are the ones that were written. -/
theorem two_numbers_inj (hb : b.1 ≠ []) {n sep' n' tail : List Char}
    (hn : n ∈ number.lang) (hsep' : sep' ∈ date_separator.lang) (hn' : n' ∈ number.lang)
    (htail : ∀ c ∈ tail.head?, isdigit c = false)
    (h : two_numbers a b sep ++ [NUL] = n ++ (sep' ++ (n' ++ tail))) :
    n = a.1 ∧ sep' = sep.1 ∧ n' = b.1 ∧ tail = [NUL] := by
  obtain ⟨-, hdigits⟩ := (mem_number n).mp hn
  obtain ⟨-, hdigits'⟩ := (mem_number n').mp hn'
  have hb' : b.1 ∈ number.lang := (mem_number b.1).mpr ⟨hb, b.2⟩
  rw [two_numbers_append] at h
  obtain ⟨hfirst, hrest⟩ := digits_separator_inj a.2 hdigits sep.2 hsep' h
  obtain ⟨hsep, hsecond⟩ := date_separator_takesDigits.unique sep.2 hsep'
    (number_takesDigits.head hb' _) (number_takesDigits.head hn' _) hrest
  have hnul : ∀ c ∈ [NUL].head?, isdigit c = false := by
    intro c hc
    obtain rfl : NUL = c := by simpa using hc
    rfl
  obtain ⟨hlast, hend⟩ := append_inj_of_class hsecond b.2 hdigits' hnul htail
  exact ⟨hfirst.symm, hsep.symm, hlast.symm, hend.symm⟩

/-- No rule with three fields matches. -/
theorem not_three_fields (hb : b.1 ≠ []) {p q r : DatePattern} (hp : TakesDigits true p)
    (hq : TakesDigits true q) (hr : TakesDigits true r) :
    (inSequence [.tag .ys, p, .tag .ye, date_separator, .tag .ms, q, .tag .me,
      date_separator, .tag .ds, r, .tag .de, maybe_with_time, eos]).parses
        (two_numbers a b sep ++ [NUL]) = [] := by
  rw [List.eq_nil_iff_forall_not_mem]
  rintro ⟨tags, rest⟩ h
  obtain ⟨y, hy, sep₁, hsep₁, m, hm, sep₂, hsep₂, d, -, tail, _, heq, -⟩ :=
    three_fields_match hp hq hr h
  obtain ⟨-, -, -, htail⟩ := two_numbers_inj a b sep hb (mem_number_of_takesDigits hp hy) hsep₁
    (mem_number_of_takesDigits hq hm)
    (fun c hc => (head_of_between date_separator_within rfl hsep₂ _ c hc).1) heq
  -- the separator before the third field is not there
  obtain ⟨c, v, rfl, hc⟩ := date_separator_no_nul.starts.cons rfl hsep₂
  exact hc (List.cons_eq_cons.mp htail).1

/-- The text is a word of the last format. -/
theorem two_numbers_mem (ha : a.1 ≠ []) (hb : b.1 ≠ []) :
    two_numbers a b sep ++ [NUL] ∈ rule_number_number.lang := by
  have hnone : ∀ {as : List DatePattern} {w : List Char}, w ∈ (inSequence as).lang →
      w ∈ (inSequence (maybe number :: as)).lang :=
    fun hw => append_mem_lang_sequence (u := []) (Or.inr rfl) hw
  rw [two_numbers_append]
  refine tag_mem_lang_sequence _ (append_mem_lang_sequence ((mem_number _).mpr ⟨ha, a.2⟩)
    (hnone ?_))
  refine tag_mem_lang_sequence _ (append_mem_lang_sequence sep.2 ?_)
  refine tag_mem_lang_sequence _ (append_mem_lang_sequence ((mem_number _).mpr ⟨hb, b.2⟩)
    (hnone ?_))
  refine tag_mem_lang_sequence _ ?_
  exact append_mem_lang_sequence (u := []) (Or.inr rfl) eos_mem

/-- **The lexer takes one of two rules**, and the tags are where the numbers are. -/
theorem lex_two_numbers (ha : a.1 ≠ []) (hb : b.1 ≠ []) :
    ∃ action, (action = .month_day ∨ action = .number_number)
      ∧ lex rules (two_numbers a b sep ++ [NUL])
        = some ((action, pair_tags a.1 sep.1 b.1 [NUL]), []) := by
  have hword := two_numbers_mem a b sep ha hb
  obtain ⟨rule, hrule, tags, hlex, hparse⟩ := lex_of_ambiguous
    (s := ⟨two_numbers a b sep, two_numbers_no_nul a b sep⟩)
    (show (rule_number_number, action_t.number_number) ∈ ambiguous_rules by simp [ambiguous_rules])
    hword
  have hlang := dated_match_whole (s := ⟨two_numbers a b sep, two_numbers_no_nul a b sep⟩) hrule
    hparse
  dsimp only at hlex hparse hlang
  simp only [dated_rules, List.mem_cons, List.not_mem_nil, or_false] at hrule
  obtain rfl | rfl | rfl | rfl | rfl | rfl | rfl := hrule
  · exact absurd hlang (not_name_rule a b sep (by simp [name_rules]))
  · have hnone := not_three_fields a b sep hb yyyy_takesDigits month_takesDigits day_takesDigits
    exact absurd (hnone ▸ hparse) List.not_mem_nil
  · obtain ⟨m, hm, sep', hsep', d, hd, tail, rest, heq, rfl, hrest⟩ := month_day_match hparse
    have htail := fun c hc => (year_or_end_starts.head_of_parses rfl hrest c hc).1
    obtain ⟨rfl, rfl, rfl, rfl⟩ := two_numbers_inj a b sep hb
      (mem_number_of_takesDigits month_takesDigits hm) hsep'
      (mem_number_of_takesDigits day_takesDigits hd) htail heq
    obtain ⟨rfl, -⟩ := parses_no_year hrest
    exact ⟨.month_day, Or.inl rfl, hlex⟩
  · exact absurd hlang (not_name_rule a b sep (by simp [name_rules]))
  · exact absurd hlang (not_name_rule a b sep (by simp [name_rules]))
  · have hnone := not_three_fields a b sep hb number_takesDigits month_takesDigits
      number_takesDigits
    exact absurd (hnone ▸ hparse) List.not_mem_nil
  · obtain ⟨n, hn, sep', hsep', n', hn', tail, rest, heq, rfl, hrest⟩ := number_number_match hparse
    obtain ⟨rfl, rfl, rfl, rfl⟩ :=
      two_numbers_inj a b sep hb hn hsep' hn' (after_day_head hrest) heq
    obtain ⟨rfl, -⟩ := parses_no_time hrest
    exact ⟨.number_number, Or.inr rfl, hlex⟩

/-- Only numbers that fit are read. -/
theorem fits_of_ok {t t' : tm} (h : yylex (two_numbers a b sep) t = .ok t') :
    Fits a.1 ∧ Fits b.1 := by
  obtain ⟨ha, hb⟩ := ne_nil_of_ok a b sep h
  obtain ⟨action, haction, hlex⟩ := lex_two_numbers a b sep ha hb
  have hmem : a.1 ∈ atoi_arguments (pair_tags a.1 sep.1 b.1 [NUL]) action
      ∧ b.1 ∈ atoi_arguments (pair_tags a.1 sep.1 b.1 [NUL]) action := by
    obtain ⟨hms, hds⟩ := between_pair_tags a.1 sep.1 b.1 [NUL] []
    rw [List.append_nil] at hms hds
    obtain rfl | rfl := haction
    · simp [atoi_arguments, hms, hds]
    · simp [atoi_arguments, hms, hds]
  have hread := read_of_ok hlex h
  exact ⟨fits_of_read ha a.2 (hread a.1 hmem.1), fits_of_read hb b.2 (hread b.1 hmem.2)⟩

/-- **Both rules guess the month.** -/
theorem yylex_two_numbers (ha : Fits a.1) (hb : Fits b.1) (t : tm) :
    yylex (two_numbers a b sep) t
      = set_date t (some (-1)) none none (some (digitsVal a.1 : ℤ)) (some (digitsVal b.1 : ℤ))
          none := by
  obtain ⟨action, haction, hlex⟩ := lex_two_numbers a b sep ha.ne_nil hb.ne_nil
  obtain ⟨hms, hds⟩ := between_pair_tags a.1 sep.1 b.1 [NUL] []
  rw [List.append_nil] at hms hds
  have htime : ∀ t, set_time_from t (pair_tags a.1 sep.1 b.1 [NUL]) = t := fun _ => rfl
  have hyear : ¬ pointer (pair_tags a.1 sep.1 b.1 [NUL]) .ys
      ≠ pointer (pair_tags a.1 sep.1 b.1 [NUL]) .ye := fun h => h rfl
  unfold yylex
  rw [hlex]
  generalize hset : set_date t (some (-1)) none none (some (digitsVal a.1 : ℤ))
    (some (digitsVal b.1 : ℤ)) none = result
  obtain rfl | rfl := haction
  · simp only [hms, hds, ha.my_atoi, hb.my_atoi, bind, Except.bind, if_neg hyear, hset, htime]
    cases result <;> rfl
  · simp only [hms, hds, ha.my_atoi, hb.my_atoi, bind, Except.bind, hset, htime]
    cases result <;> rfl

/-- **When two numbers are accepted**: a date of the current year is the only one they can
be read as. -/
theorem parse_date_two_numbers (time_now : Option ℤ) (gmtime : ℤ → Option tm) (v : ℤ) :
    parse_date time_now gmtime (two_numbers a b sep) = .ok v
      ↔ ∃ now tm_now, time_now = some now ∧ gmtime now = some tm_now
          ∧ OnlyReading (tm_now.tm_year + 1900) (digitsVal a.1) (digitsVal b.1) v := by
  rw [parse_date_ok_iff]
  by_cases hfits : Fits a.1 ∧ Fits b.1
  · simp only [yylex_two_numbers a b sep hfits.1 hfits.2]
    have hguess := fun tm_now : tm => guess_accepted_iff
      (t := { tm_now with tm_sec := 0, tm_min := 0, tm_hour := 0 }) ⟨rfl, rfl, rfl⟩
      (digitsVal a.1) (digitsVal b.1) v
    simp only [hguess]
  · constructor
    · rintro ⟨now, tm_now, -, -, t, hyylex, -⟩
      exact absurd (fits_of_ok a b sep hyylex) hfits
    · -- a month or a day is no large number, and without digits it is 0
      rintro ⟨now, tm_now, -, -, date, hdate, -⟩
      refine absurd ?_ hfits
      have hbounds : ∀ {year : ℤ} {month day : ℕ}, IsDate year month day date →
          (1 ≤ month ∧ month ≤ 12) ∧ 1 ≤ day ∧ day ≤ 31 := by
        intro year month day hdate
        obtain ⟨hmonth, hday, hle⟩ := (exists_isDate_iff year month day).mp ⟨date, hdate⟩
        exact ⟨hmonth, hday, hle.trans (monthDays_le _ _)⟩
      have hfits : ∀ n : Digits, 1 ≤ digitsVal n.1 → digitsVal n.1 ≤ 31 → Fits n.1 := by
        intro n hpos hle
        refine ⟨?_, n.2, by omega⟩
        intro hnil
        rw [hnil] at hpos
        exact absurd hpos (by decide)
      obtain hdate | hdate := hdate
      · obtain ⟨hmonth, hday⟩ := hbounds hdate
        exact ⟨hfits a hmonth.1 (by omega), hfits b hday.1 hday.2⟩
      · obtain ⟨hmonth, hday⟩ := hbounds hdate
        exact ⟨hfits a hday.1 hday.2, hfits b hmonth.1 (by omega)⟩

end TwoNumbers

/-! ## A number, a month and a number -/

theorem is_year_iff (y : ℕ) : is_year y = true ↔ ¬ (1 ≤ y ∧ y ≤ 31) := by
  simp only [is_year, Bool.or_eq_true, decide_eq_true_eq]
  omega

/-- What can't be a day is no day of a date. -/
theorem not_isDate_of_is_year {d : ℕ} (h : is_year d = true) (year : ℤ) (month : ℕ) :
    ¬ ∃ date, IsDate year month d date := by
  rw [exists_isDate_iff]
  rintro ⟨-, hpos, hle⟩
  exact (is_year_iff d).mp h ⟨hpos, hle.trans (monthDays_le _ _)⟩

/-- The time is one of the day, whether there is one or not. -/
theorem set_time_from_timeOfDay {u : tm} (hu : u.tm_hour = 0 ∧ u.tm_min = 0 ∧ u.tm_sec = 0)
    {tags : List (date_tag × List Char)}
    (hts : pointer tags .ts = none ∨ ∃ v ∈ time.lang, pointer tags .ts = some (v ++ [NUL])) :
    TimeOfDay u (set_time_from u tags) := by
  obtain ⟨hhour, hmin, hsec⟩ := hu
  unfold set_time_from
  obtain hnone | ⟨v, hv, hsome⟩ := hts
  · rw [hnone]
    exact ⟨u.tm_hour, u.tm_min, u.tm_sec, rfl, by omega, by omega, by omega⟩
  · rw [hsome]
    dsimp only
    rw [List.dropLast_concat]
    exact set_time_timeOfDay hmin hsec hv

/-- The date that is accepted for a year, a month and a day. -/
theorem stored_accepted {t : tm} (ht : t.tm_hour = 0 ∧ t.tm_min = 0 ∧ t.tm_sec = 0)
    {tags : List (date_tag × List Char)}
    (hts : pointer tags .ts = none ∨ ∃ v ∈ time.lang, pointer tags .ts = some (v ++ [NUL]))
    {y m d : ℕ} (hvalid : is_date_valid (set_time_from (stored_fields t y m d) tags) = .ok ()) :
    ∃ date, IsDate (stored_year y + 1900) m d date
      ∧ OnDay date (timegm (set_time_from (stored_fields t y m d) tags)) := by
  have htime := set_time_from_timeOfDay (u := stored_fields t y m d) (by simpa using ht) hts
  generalize set_time_from (stored_fields t y m d) tags = t' at htime hvalid
  obtain ⟨hour, min, sec, heq, hhour, hmin, hsec⟩ := htime
  have hmon : t'.tm_mon = (m : ℤ) - 1 := by
    rw [heq]
    exact stored_fields_mon t y m d
  have hmday : t'.tm_mday = (d : ℤ) := by
    rw [heq]
    exact stored_fields_mday t y m d
  have hyear : t'.tm_year = stored_year y := by
    rw [heq]
    exact stored_fields_year t (by omega) m d
  have hhour : 0 ≤ t'.tm_hour ∧ t'.tm_hour ≤ 23 := by
    rw [heq]
    exact hhour
  have hmin : 0 ≤ t'.tm_min ∧ t'.tm_min ≤ 59 := by
    rw [heq]
    exact hmin
  have hsec : 0 ≤ t'.tm_sec ∧ t'.tm_sec ≤ 59 := by
    rw [heq]
    exact hsec
  obtain ⟨date, hdate, htimestamp⟩ := (valid_iff hmon hmday hhour hmin hsec _).mp ⟨hvalid, rfl⟩
  rw [hyear] at hdate
  exact ⟨date, hdate, _, _, _, by omega, htimestamp⟩

/-- **The other reading is no date.** -/
theorem number_month_number_accepted {s : CString} {tags : List (date_tag × List Char)}
    {r : List Char}
    (hlex : lex rules (s.chars ++ [NUL]) = some ((.number_month_number, tags), r))
    {time_now : Option ℤ} {gmtime : ℤ → Option tm} {v : ℤ}
    (h : parse_date time_now gmtime s.chars = .ok v) :
    OnlyAssignment (digitsVal (between tags .ys .ye)) (digitsVal (between tags .ms .me))
      (digitsVal (between tags .ds .de)) v := by
  obtain ⟨t, t', ht, hyylex, hvalid, rfl⟩ := parse_date_ok h
  -- the tags are those of the rule, and the time is behind them
  obtain ⟨⟨rule, hrule, haction, hparse⟩, -⟩ := lex_sound hlex
  obtain rfl : rule = (rule_number_month_number, .number_month_number) := by
    simp only [rules, List.mem_cons, List.not_mem_nil, or_false] at hrule
    obtain rfl | rfl | rfl | rfl | rfl | rfl | rfl | rfl | rfl := hrule <;>
      first
        | rfl
        | exact absurd haction (by decide)
  have hts := (dated_match_end (s := s) (by simp [dated_rules]) hparse).2
  have hread := read_of_ok hlex hyylex
  obtain ⟨y, hy, sep₁, -, m, hm, sep₂, -, d, hd, tail, rest, -, heq, -⟩ :=
    three_fields_match number_takesDigits month_takesDigits number_takesDigits hparse
  obtain ⟨hys, hms, hds⟩ := between_date_tags y sep₁ m sep₂ d tail rest
  rw [← heq] at hys hms hds
  simp only [atoi_arguments, hys, hms, hds, List.forall_mem_cons] at hread
  have hfits : ∀ {w : List Char}, w ∈ number.lang → (∃ v, my_atoi w = .ok v) → Fits w :=
    fun hw => fits_of_read ((mem_number _).mp hw).1 ((mem_number _).mp hw).2
  have hset : ∀ t, yylex s.chars t = (set_date t none (some (digitsVal m : ℤ)) none
      (some (digitsVal y : ℤ)) (some (digitsVal d : ℤ)) none >>= fun t =>
        .ok (set_time_from t tags)) := by
    intro t
    unfold yylex
    rw [hlex]
    simp only [hys, hms, hds, (hfits hy hread.1).my_atoi, (fits_month hm).my_atoi,
      (hfits hd hread.2.2.1).my_atoi, bind, Except.bind]
  rw [hset, set_date_year] at hyylex
  rw [hys, hms, hds]
  by_cases hfirst : is_year (digitsVal y) = true ∧ ¬ is_year (digitsVal d) = true
  · rw [if_pos hfirst] at hyylex
    obtain rfl := Except.ok.inj hyylex
    exact ⟨digitsVal y, digitsVal d, Or.inl ⟨rfl, rfl⟩, stored_accepted ht hts hvalid,
      Or.inr (not_isDate_of_is_year hfirst.1 _ _)⟩
  · rw [if_neg hfirst] at hyylex
    by_cases hlast : ¬ is_year (digitsVal y) = true
        ∧ ((digitsVal y : ℤ) = digitsVal d ∨ is_year (digitsVal d) = true)
    · rw [if_pos hlast] at hyylex
      obtain rfl := Except.ok.inj hyylex
      refine ⟨digitsVal d, digitsVal y, Or.inr ⟨rfl, rfl⟩, stored_accepted ht hts hvalid, ?_⟩
      obtain hsame | hyear := hlast.2
      · exact Or.inl (Int.ofNat_inj.mp hsame)
      · exact Or.inr (not_isDate_of_is_year hyear _ _)
    · rw [if_neg hlast] at hyylex
      exact absurd hyylex (by simp [bind, Except.bind])

/-- **`parse_date` doesn't guess between two readings.** Two numbers with a separator, of
any lengths, are accepted if and only if just one date of the current year can be read from
them, the month first or the day first, which is the result, at midnight. And what the rule
of a number, a month and a number takes is only accepted if the other way to take the outer
numbers for the year and the day is the same or gives no date. -/
theorem parse_date_no_guess :
    (∀ (a b : Digits) (sep : Word date_separator) (time_now : Option ℤ) (gmtime : ℤ → Option tm)
        (v : ℤ), parse_date time_now gmtime (two_numbers a b sep) = .ok v
      ↔ ∃ now tm_now, time_now = some now ∧ gmtime now = some tm_now
          ∧ OnlyReading (tm_now.tm_year + 1900) (digitsVal a.1) (digitsVal b.1) v)
      ∧ ∀ (s : CString) (tags : List (date_tag × List Char)) (r : List Char),
        lex rules (s.chars ++ [NUL]) = some ((.number_month_number, tags), r) →
        ∀ (time_now : Option ℤ) (gmtime : ℤ → Option tm) (v : ℤ),
        parse_date time_now gmtime s.chars = .ok v →
        OnlyAssignment (digitsVal (between tags .ys .ye)) (digitsVal (between tags .ms .me))
          (digitsVal (between tags .ds .de)) v :=
  ⟨parse_date_two_numbers, fun _ _ _ hlex _ _ _ => number_month_number_accepted hlex⟩

/-- The year is first and has two digits. -/
def year_first : CString := ⟨"99-01-15".toList, by decide⟩

/-- `99-01-15` is the 15th of January 1999: there is no 99th of January. -/
theorem parse_date_year_first :
    ∃ tags r, lex rules (year_first.chars ++ [NUL]) = some ((.number_month_number, tags), r)
      ∧ parse_date (some 0) june year_first.chars = .ok 916358400
      ∧ between tags .ys .ye = "99".toList ∧ between tags .ms .me = "01".toList
      ∧ between tags .ds .de = "15".toList ∧ OnlyAssignment 99 1 15 916358400 := by
  have hrun : (lex rules (year_first.chars ++ [NUL])).map (fun m =>
      (m.1.1, between m.1.2 .ys .ye, between m.1.2 .ms .me, between m.1.2 .ds .de))
        = some (.number_month_number, "99".toList, "01".toList, "15".toList) := by rfl
  have haccepted : parse_date (some 0) june year_first.chars = .ok 916358400 := by rfl
  cases hlex : lex rules (year_first.chars ++ [NUL]) with
  | none => rw [hlex] at hrun; exact absurd hrun (by simp)
  | some m =>
      obtain ⟨⟨action, tags⟩, r⟩ := m
      rw [hlex] at hrun
      simp only [Option.map_some, Option.some.injEq, Prod.mk.injEq] at hrun
      obtain ⟨rfl, hys, hms, hds⟩ := hrun
      have honly := parse_date_no_guess.2 year_first tags r hlex (some 0) june 916358400 haccepted
      rw [hys, hms, hds] at honly
      exact ⟨tags, r, rfl, haccepted, hys, hms, hds, honly⟩

end PkgPlugins.DateGuess
