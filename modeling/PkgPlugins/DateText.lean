/-
Dates written as `YYYY<sep>MM<sep>DD HH:MM:SS`, and what `parse_date`
(`plugins/history/date.re`) makes of them.

`set_date` takes 1900 from a year only if the year is not before: an earlier year is
taken for a number of years since 1900, so a date before 1900 is either refused or
gives the timestamp of another year. `parse_date_timestamp_iff` says that this is
the only thing that goes wrong.
-/
import PkgPlugins.Date

set_option autoImplicit false

namespace PkgPlugins.DateText

open PkgPlugins.Libc PkgPlugins.Calendar PkgPlugins.Lexer PkgPlugins.DateLexer PkgPlugins.Date

/-! ## Texts -/

/-- Two digits. -/
def pad2 (n : ℕ) : List Char := [Nat.digitChar (n / 10), Nat.digitChar (n % 10)]

/-- Four digits. -/
def pad4 (n : ℕ) : List Char := pad2 (n / 100) ++ pad2 (n % 100)

/-- A time of day that is written up to the hour, the minute, or the second. -/
inductive clock
  | hour (h : Fin 24)
  | minute (h : Fin 24) (m : Fin 60)
  | second (h : Fin 24) (m s : Fin 60)

def clock.text : clock → List Char
  | .hour h => pad2 h
  | .minute h m => pad2 h ++ ':' :: pad2 m
  | .second h m s => pad2 h ++ ':' :: (pad2 m ++ ':' :: pad2 s)

/-- The components; those that are not written are 0. -/
def clock.components : clock → ℕ × ℕ × ℕ
  | .hour h => (h, 0, 0)
  | .minute h m => (h, m, 0)
  | .second h m s => (h, m, s)

/-- What is written after the day. -/
def time_text : Option clock → List Char
  | none => []
  | some t => ' ' :: t.text

/-- The components of a time that may not be written. -/
def time_components : Option clock → ℕ × ℕ × ℕ
  | none => (0, 0, 0)
  | some t => t.components

/-- `YYYY<sep>MM<sep>DD`, and a time. -/
def date_text (date : Calendar.Date) (sep₁ sep₂ : List Char) (t : Option clock) : List Char :=
  pad4 date.year.toNat ++ (sep₁ ++ (pad2 date.month ++ (sep₂ ++ (pad2 date.day ++ time_text t))))

/-- The timestamp of a date and a time that may not be written. -/
def timestamp_of (date : Calendar.Date) (t : Option clock) : ℤ :=
  date.timestamp (time_components t).1 (time_components t).2.1 (time_components t).2.2

/-! ## Digits -/

theorem pad2_digits {n : ℕ} (h : n < 100) : ∀ c ∈ pad2 n, isdigit c = true := by
  unfold pad2
  simp only [List.mem_cons, List.not_mem_nil, or_false]
  rintro c (rfl | rfl)
  · exact isdigit_digitChar _ (by omega)
  · exact isdigit_digitChar _ (by omega)

theorem pad4_digits {n : ℕ} (h : n < 10000) : ∀ c ∈ pad4 n, isdigit c = true :=
  List.forall_mem_append.mpr ⟨pad2_digits (by omega), pad2_digits (by omega)⟩

theorem digitsVal_pad2 {n : ℕ} (h : n < 100) : digitsVal (pad2 n) = n := by
  have hhigh := digitVal_digitChar (n / 10) (by omega)
  have hlow := digitVal_digitChar (n % 10) (by omega)
  simp only [digitsVal, pad2, List.foldl_cons, List.foldl_nil, hhigh, hlow]
  omega

theorem digitsVal_pad4 {n : ℕ} (h : n < 10000) : digitsVal (pad4 n) = n := by
  have h₁ := digitVal_digitChar (n / 100 / 10) (by omega)
  have h₂ := digitVal_digitChar (n / 100 % 10) (by omega)
  have h₃ := digitVal_digitChar (n % 100 / 10) (by omega)
  have h₄ := digitVal_digitChar (n % 100 % 10) (by omega)
  simp only [digitsVal, pad4, pad2, List.cons_append, List.nil_append, List.foldl_cons,
    List.foldl_nil, h₁, h₂, h₃, h₄]
  omega

/-! ## Words -/

/-- A word of a pattern without tags is a match of the whole text. -/
theorem mem_lang_of_parses {a : DatePattern} (ha : a.tagless = true) {w : List Char}
    (h : ([], []) ∈ a.parses w) : w ∈ a.lang := by
  obtain ⟨-, u, hu, heq⟩ := (mem_parses_of_tagless ha _ _ _).mp h
  rw [List.append_nil] at heq
  exact heq ▸ hu

theorem pad2_mem_month {m : ℕ} (hm : 1 ≤ m) (hm' : m ≤ 12) : pad2 m ∈ month.lang := by
  apply mem_lang_of_parses rfl
  have hall : ∀ n : Fin 12, ([], []) ∈ month.parses (pad2 (n + 1)) := by decide +kernel
  have hm₁ := hall ⟨m - 1, by omega⟩
  rwa [Nat.sub_add_cancel hm] at hm₁

theorem pad2_mem_day {d : ℕ} (hd : d ≤ 31) : pad2 d ∈ day.lang := by
  apply mem_lang_of_parses rfl
  have hall : ∀ n : Fin 32, ([], []) ∈ day.parses (pad2 n) := by decide +kernel
  exact hall ⟨d, by omega⟩

theorem pad2_mem_h24 (h : Fin 24) : pad2 h ∈ h24.lang := by
  apply mem_lang_of_parses rfl
  have hall : ∀ h : Fin 24, ([], []) ∈ h24.parses (pad2 h) := by decide +kernel
  exact hall h

/-- The minutes and the seconds are the same pattern. -/
theorem pad2_mem_minute (m : Fin 60) : pad2 m ∈ DateLexer.minute.lang := by
  apply mem_lang_of_parses rfl
  have hall : ∀ m : Fin 60, ([], []) ∈ DateLexer.minute.parses (pad2 m) := by decide +kernel
  exact hall m

/-- A digit before a word of the rest. -/
theorem digit_cons {as : List DatePattern} {n : ℕ} (hn : n < 10) {w : List Char}
    (hw : w ∈ (inSequence as).lang) : Nat.digitChar n :: w ∈ (inSequence (digit :: as)).lang :=
  cons_mem_lang_sequence (isdigit_digitChar n hn) hw

theorem pad4_mem_yyyy {y : ℕ} (hy : y < 10000) : pad4 y ∈ yyyy.lang := by
  unfold pad4 pad2 yyyy
  apply digit_cons (by omega)
  apply digit_cons (by omega)
  apply digit_cons (by omega)
  apply digit_cons (by omega)
  rfl

/-- What follows the hour: nothing, the minutes, or the minutes and the seconds. -/
theorem minute_second_mem :
    [] ∈ minute_second.lang ∧ (∀ m : Fin 60, ':' :: pad2 m ∈ minute_second.lang)
      ∧ ∀ m s : Fin 60, ':' :: (pad2 m ++ ':' :: pad2 s) ∈ minute_second.lang := by
  have hcolon : ∀ {a : DatePattern} {w : List Char}, w ∈ a.lang →
      ':' :: w ∈ (maybe (inSequence [time_separator, a])).lang := by
    intro a w hw
    left
    exact cons_mem_lang_sequence rfl (mem_lang_sequence_singleton hw)
  refine ⟨Or.inr rfl, fun m => Or.inl ?_, fun m s => Or.inl ?_⟩
  · rw [← List.append_nil (':' :: pad2 m)]
    apply append_mem_lang_sequence (hcolon (pad2_mem_minute m))
    exact mem_lang_sequence_singleton ((mem_lang_maybe _ _).mpr (Or.inr rfl))
  · apply append_mem_lang_sequence (hcolon (pad2_mem_minute m))
    exact mem_lang_sequence_singleton (hcolon (pad2_mem_minute s))

/-- **A clock is a time** of the grammar. -/
theorem clock_text_mem (t : clock) : t.text ∈ time.lang := by
  obtain ⟨hnone, hminute, hsecond⟩ := minute_second_mem
  have htime : ∀ (h : Fin 24) (w : List Char), w ∈ minute_second.lang →
      pad2 h ++ w ∈ time.lang := by
    intro h w hw
    right
    exact append_mem_lang_sequence (pad2_mem_h24 h) (mem_lang_sequence_singleton hw)
  cases t with
  | hour h =>
      have hword := htime h [] hnone
      rwa [List.append_nil] at hword
  | minute h m => exact htime h _ (hminute m)
  | second h m s => exact htime h _ (hsecond m s)

/-! ## The lexer -/

/-- A clock has digits and colons, and starts with a digit. -/
theorem clock_text_chars (t : clock) : (∀ c ∈ t.text, isdigit c = true ∨ c = ':')
    ∧ ∃ c v, t.text = c :: v ∧ isdigit c = true := by
  have hpad : ∀ (n : ℕ), n < 100 → ∀ c ∈ pad2 n, isdigit c = true ∨ c = ':' :=
    fun n hn c hc => Or.inl (pad2_digits hn c hc)
  constructor
  · cases t with
    | hour h => exact hpad h (by omega)
    | minute h m =>
        rw [clock.text, List.forall_mem_append, List.forall_mem_cons]
        exact ⟨hpad h (by omega), Or.inr rfl, hpad m (by omega)⟩
    | second h m s =>
        rw [clock.text, List.forall_mem_append, List.forall_mem_cons, List.forall_mem_append,
          List.forall_mem_cons]
        exact ⟨hpad h (by omega), Or.inr rfl, hpad m (by omega), Or.inr rfl, hpad s (by omega)⟩
  · cases t with
    | hour h => exact ⟨_, _, rfl, isdigit_digitChar _ (by omega)⟩
    | minute h m => exact ⟨_, _, rfl, isdigit_digitChar _ (by omega)⟩
    | second h m s => exact ⟨_, _, rfl, isdigit_digitChar _ (by omega)⟩

/-- What the tag of the time records. -/
def time_tags : Option clock → List (date_tag × List Char)
  | none => []
  | some t => [(.ts, t.text ++ [NUL])]

/-- **What follows the day** is matched, and in one way. -/
theorem time_text_parses (t : Option clock) :
    (time_tags t, []) ∈ (inSequence [maybe_with_time, eos]).parses (time_text t ++ [NUL])
      ∧ ∀ tags r, (tags, r) ∈ (inSequence [maybe_with_time, eos]).parses (time_text t ++ [NUL]) →
        tags = time_tags t ∧ r = [] := by
  have heos : [NUL] ∈ (inSequence [eos]).lang :=
    mem_lang_sequence_singleton ⟨NUL, decide_eq_true rfl, rfl⟩
  cases t with
  | none =>
      have hunique : ∀ tags r, (tags, r) ∈ (inSequence [maybe_with_time, eos]).parses [NUL] →
          tags = [] ∧ r = [] := fun tags r h => parses_no_time h
      have hword : [] ++ [NUL] ∈ (inSequence [maybe_with_time, eos]).lang :=
        append_mem_lang_sequence (Or.inr rfl) heos
      exact ⟨Pattern.mem_parses_of_unique _ hword hunique, hunique⟩
  | some t =>
      obtain ⟨hchars, hhead⟩ := clock_text_chars t
      have hnul : NUL ∉ t.text := by
        intro hmem
        obtain hdigit | hcolon := hchars NUL hmem
        · exact absurd hdigit (by decide)
        · exact absurd hcolon (by decide)
      have hblank : [' '] ∈ whitespaces.lang := by
        show [' '] ++ [] ∈ (inSequence [whitespace, maybe_whitespaces]).lang
        apply append_mem_lang_sequence
        · exact ⟨' ', rfl, rfl⟩
        · exact mem_lang_sequence_singleton (fun c hc => absurd hc List.not_mem_nil)
      have hunique : ∀ tags r, (tags, r) ∈ (inSequence [maybe_with_time, eos]).parses
          ([' '] ++ (t.text ++ [NUL])) → tags = [(.ts, t.text ++ [NUL])] ∧ r = [] :=
        fun tags r h => parses_time hblank hhead hnul h
      have hword : [' '] ++ (t.text ++ [NUL]) ∈ (inSequence [maybe_with_time, eos]).lang := by
        rw [← List.append_assoc]
        apply append_mem_lang_sequence _ heos
        left
        apply append_mem_lang_sequence hblank
        exact tag_mem_lang_sequence _ (mem_lang_sequence_singleton (clock_text_mem t))
      exact ⟨Pattern.mem_parses_of_unique _ hword hunique, hunique⟩

theorem date_separator_no_letter {sep : List Char} (h : sep ∈ date_separator.lang) :
    ∀ c ∈ sep, isletter c = false := by
  have hsign : ∀ c : Char, (c = '-' ∨ c = '/') ∨ c = '.' → isletter c = false := by
    rintro c ((rfl | rfl) | rfl) <;> decide
  have hspace : isletter ' ' = false := by decide
  have hwithin : date_separator.Within (fun c => isletter c = false) := by
    simpa [date_separator, whitespaces, whitespace, maybe_whitespaces, oneOf, inSequence, exactly,
      Pattern.Within, hspace] using hsign
  exact hwithin.forall_mem h

/-- A date that is written has no letters. -/
theorem date_text_no_letter (date : Calendar.Date) (hyear : date.year ≤ 9999)
    {sep₁ sep₂ : List Char} (hsep₁ : sep₁ ∈ date_separator.lang)
    (hsep₂ : sep₂ ∈ date_separator.lang) (t : Option clock) :
    ∀ c ∈ date_text date sep₁ sep₂ t ++ [NUL], isletter c = false := by
  have hdigits : ∀ w : List Char, (∀ c ∈ w, isdigit c = true) → ∀ c ∈ w, isletter c = false :=
    fun w hw c hc => isletter_of_isdigit (hw c hc)
  have hmonth := date.month_le
  have hday := date.day_le
  have hdays := monthDays_le (isLeap date.year) date.month
  have htime : ∀ c ∈ time_text t, isletter c = false := by
    cases t with
    | none => simp [time_text]
    | some t =>
        refine List.forall_mem_cons.mpr ⟨by decide, fun c hc => ?_⟩
        obtain hdigit | rfl := (clock_text_chars t).1 c hc
        · exact isletter_of_isdigit hdigit
        · decide
  unfold date_text
  simp only [List.forall_mem_append]
  refine ⟨⟨hdigits _ (pad4_digits (by omega)), date_separator_no_letter hsep₁,
    hdigits _ (pad2_digits (by omega)), date_separator_no_letter hsep₂,
    hdigits _ (pad2_digits (by omega)), htime⟩, ?_⟩
  intro c hc
  rw [List.mem_singleton.mp hc]
  decide

/-- **The lexer takes the rule of year, month and day**, with the tags where they
should be. -/
theorem lex_date_text (date : Calendar.Date) (hyear : date.year ≤ 9999) {sep₁ sep₂ : List Char}
    (hsep₁ : sep₁ ∈ date_separator.lang) (hsep₂ : sep₂ ∈ date_separator.lang)
    (t : Option clock) :
    lex rules (date_text date sep₁ sep₂ t ++ [NUL])
      = some ((.done, date_tags (pad4 date.year.toNat) sep₁ (pad2 date.month) sep₂ (pad2 date.day)
          (time_text t ++ [NUL]) ++ time_tags t), []) := by
  have hletters := date_text_no_letter date hyear hsep₁ hsep₂ t
  have hyd : pad4 date.year.toNat ∈ yyyy.lang := pad4_mem_yyyy (by omega)
  have hmd := pad2_mem_month date.month_pos date.month_le
  have hdd : pad2 date.day ∈ day.lang :=
    pad2_mem_day (date.day_le.trans (monthDays_le _ _))
  obtain ⟨htime, hunique⟩ := time_text_parses t
  have htext : date_text date sep₁ sep₂ t ++ [NUL] = pad4 date.year.toNat ++ (sep₁ ++
      (pad2 date.month ++ (sep₂ ++ (pad2 date.day ++ (time_text t ++ [NUL]))))) := by
    simp only [date_text, List.append_assoc]
  -- two rules come before, and both need a letter
  have hrules : rules = [(rule_today, .today), (rule_year_monthtext_day, .done)]
      ++ (rule_year_month_day, .done) :: rules.drop 3 := rfl
  -- the rule matches in one way
  have hdone : ∀ tags r,
      (tags, r) ∈ rule_year_month_day.parses (date_text date sep₁ sep₂ t ++ [NUL]) →
      tags = date_tags (pad4 date.year.toNat) sep₁ (pad2 date.month) sep₂ (pad2 date.day)
        (time_text t ++ [NUL]) ++ time_tags t ∧ r = [] := by
    intro tags r h
    rw [htext] at h
    obtain ⟨rest, rfl, hrest⟩ := rule_year_month_day_unique hyd hsep₁ hmd hsep₂ hdd
      (after_day_head htime) h
    obtain ⟨rfl, rfl⟩ := hunique rest r hrest
    exact ⟨rfl, rfl⟩
  -- and it does match: the text is a word of it, piece by piece
  have hword : date_text date sep₁ sep₂ t ++ [NUL] ∈ rule_year_month_day.lang := by
    obtain ⟨w, hw, hend⟩ := (inSequence [maybe_with_time, eos]).parses_sound htime
    rw [htext, hend, List.append_nil]
    apply tag_mem_lang_sequence
    apply append_mem_lang_sequence hyd
    apply tag_mem_lang_sequence
    apply append_mem_lang_sequence hsep₁
    apply tag_mem_lang_sequence
    apply append_mem_lang_sequence hmd
    apply tag_mem_lang_sequence
    apply append_mem_lang_sequence hsep₂
    apply tag_mem_lang_sequence
    apply append_mem_lang_sequence hdd
    exact tag_mem_lang_sequence _ hw
  rw [hrules]
  apply lex_eq_of_full
  · simp only [List.mem_cons, List.not_mem_nil, or_false]
    rintro rule (rfl | rfl)
    · exact rule_today_of_no_letter hletters
    · exact rule_year_monthtext_day_of_no_letter hletters
  · exact Pattern.mem_parses_of_unique _ hword hdone
  · rintro ⟨tags', r⟩ h
    obtain ⟨rfl, rfl⟩ := hdone tags' r h
    rfl

/-! ## The date -/

/-- The words between the tags are the ones that were written. -/
theorem between_date_tags (yd sep₁ md sep₂ dd tail : List Char)
    (rest : List (date_tag × List Char)) :
    between (date_tags yd sep₁ md sep₂ dd tail ++ rest) .ys .ye = yd
      ∧ between (date_tags yd sep₁ md sep₂ dd tail ++ rest) .ms .me = md
      ∧ between (date_tags yd sep₁ md sep₂ dd tail ++ rest) .ds .de = dd := by
  refine ⟨?_, ?_, ?_⟩
  · exact take_append_sub yd _
  · exact take_append_sub md _
  · exact take_append_sub dd _

/-- The year that `set_date` stores: 1900 is only taken from a year that has it. -/
def stored_year (y : ℤ) : ℤ := if 1900 ≤ y then y - 1900 else y

/-- The fields that `set_date` sets. -/
def stored_date (t : tm) (y m d : ℤ) : tm :=
  { t with tm_year := stored_year y, tm_mon := m - 1, tm_mday := d }

theorem set_date_numbers (t : tm) {y : ℤ} (hy : y ≠ -1) (m d : ℤ) :
    set_date t (some y) (some m) (some d) none none none
      = .ok (stored_date t y m d) := by
  unfold set_date stored_date stored_year
  simp [hy, bind, Except.bind]

/-- The label `done`, once the year, the month and the day are read. -/
theorem yylex_done_eq (t : tm) {tags : List (date_tag × List Char)} {y m d : ℤ} (hy : y ≠ -1)
    (hyear : done_year tags = .ok y) (hmonth : done_month tags = .ok m)
    (hday : my_atoi (between tags .ds .de) = .ok d) :
    yylex_done t tags = .ok (set_time_from (stored_date t y m d) tags) := by
  have hset := set_date_numbers t hy m d
  unfold yylex_done
  rw [hyear, hmonth, hday]
  simp [bind, Except.bind, hset]

/-- **The label `done`** on the tags of a date that is written in digits. -/
theorem yylex_done_date_tags (t : tm) {yd md dd : List Char} (sep₁ sep₂ tail : List Char)
    (rest : List (date_tag × List Char)) (hyd : yd ≠ [] ∧ (∀ c ∈ yd, isdigit c = true)
      ∧ digitsVal yd < 2 ^ 31) (hmd : md ≠ [] ∧ (∀ c ∈ md, isdigit c = true)
      ∧ digitsVal md < 2 ^ 31) (hdd : dd ≠ [] ∧ (∀ c ∈ dd, isdigit c = true)
      ∧ digitsVal dd < 2 ^ 31) :
    yylex_done t (date_tags yd sep₁ md sep₂ dd tail ++ rest)
      = .ok (set_time_from (stored_date t (digitsVal yd) (digitsVal md) (digitsVal dd))
          (date_tags yd sep₁ md sep₂ dd tail ++ rest)) := by
  obtain ⟨hbetween_y, hbetween_m, hbetween_d⟩ := between_date_tags yd sep₁ md sep₂ dd tail rest
  -- the year is not empty, so the pointers around it differ
  have hys : pointer (date_tags yd sep₁ md sep₂ dd tail ++ rest) .ys
      ≠ pointer (date_tags yd sep₁ md sep₂ dd tail ++ rest) .ye := by
    intro heq
    have hlen := congrArg List.length (Option.some.inj heq)
    have hpos := List.length_pos_of_ne_nil hyd.1
    rw [List.length_append] at hlen
    omega
  -- the month is a number, not a name
  have hms : isdigit (deref ((pointer (date_tags yd sep₁ md sep₂ dd tail ++ rest) .ms).getD []))
      = true := by
    obtain ⟨c, md, rfl⟩ := List.exists_cons_of_ne_nil hmd.1
    exact hmd.2.1 c List.mem_cons_self
  have hyear : done_year (date_tags yd sep₁ md sep₂ dd tail ++ rest) = .ok (digitsVal yd) := by
    rw [done_year, if_pos hys, hbetween_y, my_atoi_digits hyd.1 hyd.2.1 hyd.2.2]
  have hmonth : done_month (date_tags yd sep₁ md sep₂ dd tail ++ rest) = .ok (digitsVal md) := by
    rw [done_month, if_pos hms, hbetween_m, my_atoi_digits hmd.1 hmd.2.1 hmd.2.2]
  apply yylex_done_eq t (by omega) hyear hmonth
  rw [hbetween_d, my_atoi_digits hdd.1 hdd.2.1 hdd.2.2]

/-! ## The time -/

/-- **`set_time` reads a clock.** -/
theorem set_time_clock (t : tm) (hmin : t.tm_min = 0) (hsec : t.tm_sec = 0) (c : clock) :
    set_time t c.text = { t with
      tm_hour := c.components.1, tm_min := c.components.2.1, tm_sec := c.components.2.2 } := by
  -- each component is read up to the next colon or the end
  have hread : ∀ (n : ℕ) (rest skiplist : List Char) (component : ℤ), n < 100 →
      (∀ c ∈ skiplist, isdigit c = false) → isdigit (deref rest) = false →
      parse_time_component (pad2 n ++ rest) skiplist component
        = (if rest = [] then .PARSE_NUM_NO_ERR else .PARSE_NUM_ERR_NON_DIGIT_FOUND, (n : ℤ),
            rest) := by
    intro n rest skiplist component hn hskip hrest
    have hvalue := digitsVal_pad2 hn
    rw [parse_time_component_digits (by simp [pad2]) (pad2_digits hn) hskip hrest (by omega),
      hvalue]
  have hblank : ∀ c ∈ [' '], isdigit c = false := by simp; decide
  have hcolon : ∀ c ∈ [':'], isdigit c = false := by simp; decide
  unfold set_time
  cases c with
  | hour h =>
      have hhour := hread h [] [' '] t.tm_hour (by omega) hblank rfl
      rw [List.append_nil] at hhour
      simp [clock.text, clock.components, hhour, hmin, hsec]
  | minute h m =>
      have hhour := hread h (':' :: pad2 m) [' '] t.tm_hour (by omega) hblank rfl
      have hminute := hread m [] [':'] t.tm_min (by omega) hcolon rfl
      rw [List.append_nil] at hminute
      simp [clock.text, clock.components, hhour, hminute, hsec]
  | second h m s =>
      have hhour := hread h (':' :: (pad2 m ++ ':' :: pad2 s)) [' '] t.tm_hour (by omega) hblank rfl
      have hminute := hread m (':' :: pad2 s) [':'] t.tm_min (by omega) hcolon rfl
      have hsecond := hread s [] [':'] t.tm_sec (by omega) hcolon rfl
      rw [List.append_nil] at hsecond
      simp [clock.text, clock.components, hhour, hminute, hsecond]

/-! ## The timestamp -/

/-- What is stored of a date and time: every field, so nothing of the current date
is left. -/
def stored_tm (date : Calendar.Date) (c : Option clock) : tm where
  tm_sec := (time_components c).2.2
  tm_min := (time_components c).2.1
  tm_hour := (time_components c).1
  tm_mday := date.day
  tm_mon := date.month - 1
  tm_year := stored_year date.year

/-- The components of a time are in their ranges. -/
theorem time_components_lt (c : Option clock) : (time_components c).1 < 24
    ∧ (time_components c).2.1 < 60 ∧ (time_components c).2.2 < 60 := by
  cases c with
  | none => exact ⟨by decide, by decide, by decide⟩
  | some c =>
      cases c with
      | hour h => exact ⟨h.isLt, Nat.succ_pos 59, Nat.succ_pos 59⟩
      | minute h m => exact ⟨h.isLt, m.isLt, Nat.succ_pos 59⟩
      | second h m s => exact ⟨h.isLt, m.isLt, s.isLt⟩

/-- **`yylex` reads a date that is written.** -/
theorem yylex_date_text (date : Calendar.Date) (hyear : 0 ≤ date.year ∧ date.year ≤ 9999)
    {sep₁ sep₂ : List Char} (hsep₁ : sep₁ ∈ date_separator.lang)
    (hsep₂ : sep₂ ∈ date_separator.lang) (c : Option clock) (t : tm) (hhour : t.tm_hour = 0)
    (hmin : t.tm_min = 0) (hsec : t.tm_sec = 0) :
    yylex (date_text date sep₁ sep₂ c) t = .ok (stored_tm date c) := by
  have hmonth := date.month_le
  have hday := date.day_le.trans (monthDays_le _ _)
  have hy : digitsVal (pad4 date.year.toNat) = date.year.toNat := digitsVal_pad4 (by omega)
  have hm : digitsVal (pad2 date.month) = date.month := digitsVal_pad2 (by omega)
  have hd : digitsVal (pad2 date.day) = date.day := digitsVal_pad2 (by omega)
  have hdone := yylex_done_date_tags t sep₁ sep₂ (time_text c ++ [NUL]) (time_tags c)
    ⟨by simp [pad4, pad2], pad4_digits (show date.year.toNat < 10000 by omega), by omega⟩
    ⟨by simp [pad2], pad2_digits (show date.month < 100 by omega), by omega⟩
    ⟨by simp [pad2], pad2_digits (show date.day < 100 by omega), by omega⟩
  have hcast : ((date.year.toNat : ℕ) : ℤ) = date.year := by omega
  rw [hy, hm, hd, hcast] at hdone
  unfold yylex
  rw [lex_date_text date hyear.2 hsep₁ hsep₂ c]
  show yylex_done t _ = _
  rw [hdone]
  congr 1
  -- without a time the components stay what they were before the call, which is 0
  cases c with
  | none =>
      show stored_date t date.year date.month date.day = _
      unfold stored_date stored_tm
      rw [hhour, hmin, hsec]
      rfl
  | some c =>
      show set_time (stored_date t date.year date.month date.day) (c.text ++ [NUL]).dropLast = _
      rw [List.dropLast_concat]
      exact set_time_clock (stored_date t date.year date.month date.day) hmin hsec c

/-- `parse_date` succeeds on what is stored if it is valid, with its timestamp. -/
theorem parse_date_eq_ok_iff {time_now : ℤ} {gmtime : ℤ → Option tm} {tm_now t : tm}
    (hgmtime : gmtime time_now = some tm_now) {date : List Char}
    (hyylex : yylex date { tm_now with tm_sec := 0, tm_min := 0, tm_hour := 0 } = .ok t) (v : ℤ) :
    parse_date (some time_now) gmtime date = .ok v ↔ is_date_valid t = .ok () ∧ timegm t = v := by
  simp only [parse_date, hgmtime, hyylex, bind, Except.bind]
  cases is_date_valid t with
  | error e => simp
  | ok u => simp

/-- **What `parse_date` accepts**: what is read, from midnight on, and valid. -/
theorem parse_date_ok_iff (time_now : Option ℤ) (gmtime : ℤ → Option tm) (date : List Char)
    (v : ℤ) :
    parse_date time_now gmtime date = .ok v
      ↔ ∃ now tm_now, time_now = some now ∧ gmtime now = some tm_now
          ∧ ∃ t, yylex date { tm_now with tm_sec := 0, tm_min := 0, tm_hour := 0 } = .ok t
            ∧ is_date_valid t = .ok () ∧ timegm t = v := by
  constructor
  · intro h
    cases time_now with
    | none => exact absurd h (by simp [parse_date])
    | some now =>
        cases hnow : gmtime now with
        | none => exact absurd h (by simp [parse_date, hnow])
        | some tm_now =>
            cases hyylex : yylex date { tm_now with tm_sec := 0, tm_min := 0, tm_hour := 0 } with
            | error e => exact absurd h (by simp [parse_date, hnow, hyylex, bind, Except.bind])
            | ok t =>
                rw [parse_date_eq_ok_iff hnow hyylex] at h
                exact ⟨now, tm_now, rfl, hnow, t, hyylex, h⟩
  · rintro ⟨now, tm_now, rfl, hnow, t, hyylex, h⟩
    exact (parse_date_eq_ok_iff hnow hyylex v).mpr h

/-- **When a date that is written is parsed.** For every date of the years 0000 to
9999, written with any separators and with a time up to any component or none,
`parse_date` gives its timestamp, whatever the current time is, if and only if the
year is 1900 or later. -/
theorem parse_date_timestamp_iff (date : Calendar.Date)
    (hyear : 0 ≤ date.year ∧ date.year ≤ 9999) {sep₁ sep₂ : List Char}
    (hsep₁ : sep₁ ∈ date_separator.lang) (hsep₂ : sep₂ ∈ date_separator.lang) (c : Option clock)
    (time_now : ℤ) {gmtime : ℤ → Option tm} {tm_now : tm}
    (hgmtime : gmtime time_now = some tm_now) :
    parse_date (some time_now) gmtime (date_text date sep₁ sep₂ c)
        = .ok (timestamp_of date c)
      ↔ 1900 ≤ date.year := by
  have hyylex := yylex_date_text date hyear hsep₁ hsep₂ c
    { tm_now with tm_sec := 0, tm_min := 0, tm_hour := 0 } rfl rfl rfl
  obtain ⟨hh, hm, hs⟩ := time_components_lt c
  rw [parse_date_eq_ok_iff hgmtime hyylex,
    is_date_valid_eq _ date.month_pos date.month_le rfl rfl date.day_pos
      (by simp only [stored_tm]; omega) (by simp only [stored_tm]; omega)
      (by simp only [stored_tm]; omega),
    timegm_eq _ date.month_pos date.month_le rfl rfl]
  unfold timestamp_of Calendar.Date.timestamp
  simp only [stored_tm]
  constructor
  · rintro ⟨-, hsame⟩
    by_contra hbefore
    -- the year is taken for a number of years since 1900, and the day is a later one
    have hstored : stored_year date.year + 1900 = date.year + 1900 := by
      rw [stored_year, if_neg hbefore]
    have hlater := dayNumber_lt_of_year_lt date date.month
      (show date.year < stored_year date.year + 1900 by omega) date.day_pos
    omega
  · intro hafter
    have hstored : stored_year date.year + 1900 = date.year := by
      rw [stored_year, if_pos hafter]
      omega
    rw [hstored]
    exact ⟨date.day_le, by omega⟩

/-- A clock that says a June 15, in the middle of the night. -/
def june (_ : ℤ) : Option tm := some ⟨7, 8, 9, 15, 5, 126⟩

def leap_day : Calendar.Date := ⟨2024, 2, 29, by decide, by decide, by decide, by decide⟩

theorem dash_mem : ['-'] ∈ date_separator.lang := mem_lang_of_parses rfl (by decide +kernel)

theorem leap_day_parsed :
    date_text leap_day ['-'] ['-'] (some (.second 23 59 59)) = "2024-02-29 23:59:59".toList
      ∧ timestamp_of leap_day (some (.second 23 59 59)) = 1709251199
      ∧ parse_date (some 0) june (date_text leap_day ['-'] ['-'] (some (.second 23 59 59)))
          = .ok (timestamp_of leap_day (some (.second 23 59 59))) :=
  ⟨by decide +kernel, by decide +kernel,
    (parse_date_timestamp_iff leap_day (by decide) dash_mem dash_mem (some (.second 23 59 59)) 0
      rfl).mpr (by decide)⟩

def before_1900 : Calendar.Date := ⟨1850, 1, 1, by decide, by decide, by decide, by decide⟩

/-- **A year before 1900** is taken for a number of years since 1900: the timestamp is
that of the year 3750. -/
theorem before_1900_wrong :
    date_text before_1900 ['-'] ['-'] none = "1850-01-01".toList
      ∧ ['-'] ∈ date_separator.lang
      ∧ parse_date (some 0) june "1850-01-01".toList = .ok 56171404800
      ∧ timestamp_of before_1900 none = -3786825600 :=
  ⟨by decide +kernel, mem_lang_of_parses rfl (by decide +kernel), by rfl, by decide +kernel⟩

end PkgPlugins.DateText
