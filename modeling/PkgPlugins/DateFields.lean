/-
The fields of a date that is matched (`plugins/history/date.re`).

The numbers of one or two digits have the values that the ranges of the lexer leave: an
hour is below 24, a minute or a second below 60, a day below 32, so `set_time` gives a
time of the day on every word of `time`. What is between the fields is neither a digit nor
a letter, so a text of fields falls apart in one way.
-/
import PkgPlugins.DateText

set_option autoImplicit false

namespace PkgPlugins.DateFields

open PkgPlugins.Libc PkgPlugins.ParseNum PkgPlugins.Lexer PkgPlugins.DateLexer PkgPlugins.Date

/-! ## Numbers of one or two digits -/

structure ShortNumber (max : ℕ) (w : List Char) : Prop where
  ne_nil : w ≠ []
  digits : ∀ c ∈ w, isdigit c = true
  length_le : w.length ≤ 2
  value_le : digitsVal w ≤ max

theorem ShortNumber.mono {max max' : ℕ} {w : List Char} (h : ShortNumber max w)
    (hle : max ≤ max') : ShortNumber max' w :=
  { h with value_le := h.value_le.trans hle }

/-- A character is a digit of at most a value. -/
def DigitUpTo (max : ℕ) (p : Char → Bool) : Prop :=
  ∀ c, p c = true → isdigit c = true ∧ digitVal c ≤ max

theorem range_digitUpTo {lo hi : Char} (h : 48 ≤ lo.toNat ∧ hi.toNat ≤ 57) :
    DigitUpTo (digitVal hi) (fun c => lo.toNat ≤ c.toNat && c.toNat ≤ hi.toNat) := by
  intro c hc
  simp only [Bool.and_eq_true, decide_eq_true_eq] at hc
  simp only [isdigit, digitVal, Bool.and_eq_true, decide_eq_true_eq]
  omega

theorem exactly_digitUpTo {d : Char} (h : isdigit d = true) :
    DigitUpTo (digitVal d) (fun c => c = d) := by
  intro c hc
  rw [of_decide_eq_true hc]
  exact ⟨h, le_refl _⟩

/-- Two digits. -/
theorem two_digits {p q : Char → Bool} {a b : ℕ} (hp : DigitUpTo a p) (hq : DigitUpTo b q)
    {w : List Char} (hw : w ∈ (inSequence [.char p, .char q] : DatePattern).lang) :
    ShortNumber (10 * a + b) w := by
  obtain ⟨_, ⟨c, hc, rfl⟩, _, ⟨_, ⟨d, hd, rfl⟩, _, rfl, rfl⟩, rfl⟩ := hw
  obtain ⟨hcdigit, hcvalue⟩ := hp c hc
  obtain ⟨hddigit, hdvalue⟩ := hq d hd
  refine ⟨by simp, ?_, le_refl _, ?_⟩
  · rintro e he
    simp only [List.singleton_append, List.append_nil, List.mem_cons, List.not_mem_nil,
      or_false] at he
    obtain rfl | rfl := he
    · exact hcdigit
    · exact hddigit
  · show 10 * (10 * 0 + digitVal c) + digitVal d ≤ 10 * a + b
    omega

theorem digit_digitUpTo : DigitUpTo 9 (fun c => '0'.toNat ≤ c.toNat && c.toNat ≤ '9'.toNat) :=
  range_digitUpTo (by decide)

/-- A digit, maybe after a 0. -/
theorem one_digit {w : List Char} (hw : w ∈ (inSequence [maybe (exactly '0'), digit]).lang) :
    ShortNumber 9 w := by
  obtain ⟨u, hzero | rfl, v, hv, rfl⟩ := hw
  · exact two_digits (exactly_digitUpTo rfl) digit_digitUpTo ⟨u, hzero, v, hv, rfl⟩
  · obtain ⟨_, ⟨d, hd, rfl⟩, _, rfl, rfl⟩ := hv
    obtain ⟨hdigit, hvalue⟩ := digit_digitUpTo d hd
    refine ⟨by simp, by simpa using hdigit, by simp, ?_⟩
    show 10 * 0 + digitVal d ≤ 9
    omega

theorem mem_minute {w : List Char} (hw : w ∈ DateLexer.minute.lang) : ShortNumber 59 w := by
  obtain hone | htwo := hw
  · exact (one_digit hone).mono (by omega)
  · exact two_digits (range_digitUpTo (by decide)) digit_digitUpTo htwo

theorem mem_h12 {w : List Char} (hw : w ∈ h12.lang) : ShortNumber 11 w := by
  obtain hone | htwo := hw
  · exact (one_digit hone).mono (by omega)
  · exact two_digits (exactly_digitUpTo rfl) (range_digitUpTo (by decide)) htwo

theorem mem_h24 {w : List Char} (hw : w ∈ h24.lang) : ShortNumber 23 w := by
  obtain hone | hten | htwenty := hw
  · exact (one_digit hone).mono (by omega)
  · have hshort : ShortNumber (10 * 1 + 9) w :=
      two_digits (exactly_digitUpTo rfl) digit_digitUpTo hten
    exact hshort.mono (by omega)
  · exact two_digits (exactly_digitUpTo rfl) (range_digitUpTo (by decide)) htwenty

theorem mem_day {w : List Char} (hw : w ∈ day.lang) : ShortNumber 31 w := by
  obtain ⟨u, hzero | hten, v, hv, rfl⟩ | hthirty := hw
  · exact (one_digit ⟨u, hzero, v, hv, rfl⟩).mono (by omega)
  · have hshort : ShortNumber (10 * 2 + 9) (u ++ v) :=
      two_digits (range_digitUpTo (by decide)) digit_digitUpTo ⟨u, hten, v, hv, rfl⟩
    exact hshort.mono (by omega)
  · exact two_digits (exactly_digitUpTo rfl) (range_digitUpTo (by decide)) hthirty

/-! ## Times -/

/-- What may follow the hour, the minutes and the seconds. -/
def AfterClock (z : List Char) : Prop := ∀ c ∈ z.head?, isdigit c = false ∧ c ≠ ':'

theorem am_pm_starts : am_pm.Starts (fun c => isletter c = true) ∧ am_pm.nullable = false := by
  have ham : "AM".toList.head?.any isletter = true := by decide
  have hpm : "PM".toList.head?.any isletter = true := by decide
  exact ⟨⟨(literal_starts isletter_caseBlind ham).1,
    (literal_starts isletter_caseBlind hpm).1⟩, rfl⟩

theorem isdigit_of_isletter {c : Char} (h : isletter c = true) : isdigit c = false := by
  rw [Bool.eq_false_iff]
  intro hdigit
  rw [isletter_of_isdigit hdigit] at h
  exact absurd h (by simp)

/-- **The words of a time**: an hour, the minutes and the seconds, and what says which half
of the day it is, each but the first maybe missing. -/
theorem mem_time {v : List Char} (hv : v ∈ time.lang) :
    ∃ h ms z, v = h ++ (ms ++ z) ∧ ShortNumber 23 h ∧ ms ∈ minute_second.lang ∧ AfterClock z := by
  obtain ⟨h, hh, _, ⟨ms, hms, z, hz, rfl⟩, rfl⟩ | ⟨h, hh, _, ⟨ms, hms, z, rfl, rfl⟩, rfl⟩ := hv
  · refine ⟨h, ms, z, rfl, (mem_h12 hh).mono (by omega), hms, ?_⟩
    have hstarts : (inSequence [maybe_whitespaces, am_pm]).Starts
        (fun c => isdigit c = false ∧ c ≠ ':') := by
      apply starts_cons_of_starts
      · intro c hc
        rw [of_decide_eq_true hc]
        decide
      · apply starts_cons _ am_pm_starts.2
        apply am_pm_starts.1.mono
        intro c hc
        refine ⟨isdigit_of_isletter hc, ?_⟩
        rintro rfl
        exact absurd hc (by decide)
    exact hstarts.head hz
  · refine ⟨h, ms, [], rfl, mem_h24 hh, hms, ?_⟩
    intro c hc
    exact absurd hc (by simp)

/-- The minutes and the seconds that a word of `minute_second` says. A lone number is a
word of the minutes and of the seconds; the minutes come first. -/
inductive MinuteSecond : List Char → ℕ → ℕ → Prop
  | none : MinuteSecond [] 0 0
  | minute {a : List Char} (ha : a ∈ DateLexer.minute.lang) :
      MinuteSecond (':' :: a) (digitsVal a) 0
  | second {a b : List Char} (ha : a ∈ DateLexer.minute.lang) (hb : b ∈ DateLexer.second.lang) :
      MinuteSecond (':' :: (a ++ ':' :: b)) (digitsVal a) (digitsVal b)

theorem mem_minute_second {ms : List Char} (hms : ms ∈ minute_second.lang) :
    ∃ m s, MinuteSecond ms m s := by
  -- the minutes and the seconds are the same pattern
  have hpart : ∀ w ∈ (inSequence [time_separator, DateLexer.minute]).lang,
      ∃ a ∈ DateLexer.minute.lang, w = ':' :: a := by
    rintro w ⟨_, ⟨c, hc, rfl⟩, _, ⟨a, ha, _, rfl, rfl⟩, rfl⟩
    refine ⟨a, ha, ?_⟩
    rw [of_decide_eq_true hc, List.append_nil]
    rfl
  obtain ⟨u, hu, _, ⟨v, hv, _, rfl, rfl⟩, rfl⟩ | rfl := hms
  · rw [List.append_nil]
    obtain hu | rfl := hu
    · obtain ⟨a, ha, rfl⟩ := hpart u hu
      obtain hv | rfl := hv
      · obtain ⟨b, hb, rfl⟩ := hpart v hv
        exact ⟨_, _, .second ha hb⟩
      · rw [List.append_nil]
        exact ⟨_, _, .minute ha⟩
    · obtain hv | rfl := hv
      · obtain ⟨a, ha, rfl⟩ := hpart v hv
        exact ⟨_, _, .minute ha⟩
      · exact ⟨_, _, .none⟩
  · exact ⟨_, _, .none⟩

theorem MinuteSecond.le {ms : List Char} {m s : ℕ} (h : MinuteSecond ms m s) : m ≤ 59 ∧ s ≤ 59 := by
  cases h with
  | none => exact ⟨by omega, by omega⟩
  | minute ha => exact ⟨(mem_minute ha).value_le, by omega⟩
  | second ha hb => exact ⟨(mem_minute ha).value_le, (mem_minute hb).value_le⟩

theorem MinuteSecond.head {ms : List Char} {m s : ℕ} (h : MinuteSecond ms m s) :
    ∀ c ∈ ms.head?, c = ':' := by
  cases h with
  | none => simp
  | minute ha => simp
  | second ha hb => simp

/-- The time is one of the day, and the rest is as it was. -/
def TimeOfDay (t t' : tm) : Prop :=
  ∃ h m s : ℤ, t' = { t with tm_hour := h, tm_min := m, tm_sec := s }
    ∧ (0 ≤ h ∧ h ≤ 23) ∧ (0 ≤ m ∧ m ≤ 59) ∧ 0 ≤ s ∧ s ≤ 59

/-- A number of a time is read up to the separator or the end. -/
theorem parse_time_component_short {max : ℕ} {n : List Char} (hn : ShortNumber max n)
    (hmax : max ≤ 59) {skiplist rest : List Char} (hskip : ∀ c ∈ skiplist, isdigit c = false)
    (hrest : ∀ c ∈ rest.head?, isdigit c = false) (component : ℤ) :
    parse_time_component (n ++ rest) skiplist component
      = (if rest = [] then .PARSE_NUM_NO_ERR else .PARSE_NUM_ERR_NON_DIGIT_FOUND,
          (digitsVal n : ℤ), rest) := by
  have hderef : isdigit (deref rest) = false := by
    cases rest with
    | nil => rfl
    | cons c rest => exact hrest c rfl
  have hvalue := hn.value_le
  exact parse_time_component_digits hn.ne_nil hn.digits hskip hderef (by omega) component

/-- **`set_time` reads the parts of a time**: the numbers, and what says which half of the
day it is. -/
theorem set_time_parts {t : tm} (hmin : t.tm_min = 0) (hsec : t.tm_sec = 0) {h ms z : List Char}
    {m s : ℕ} (hh : ShortNumber 23 h) (hms : MinuteSecond ms m s) (hz : AfterClock z) :
    set_time t (h ++ (ms ++ z))
      = parse_am_pm { t with tm_hour := digitsVal h, tm_min := m, tm_sec := s } z := by
  have hblank : ∀ c ∈ [' '], isdigit c = false := by simp; decide
  have hcolon : ∀ c ∈ [':'], isdigit c = false := by simp; decide
  -- after the last number comes the end, or what is no colon
  have hend : ∀ (t' after : tm) (status : ParseNumError),
      status = (if z = [] then .PARSE_NUM_NO_ERR else .PARSE_NUM_ERR_NON_DIGIT_FOUND) →
      (if status = .PARSE_NUM_NO_ERR then t'
        else if status = .PARSE_NUM_ERR_NON_DIGIT_FOUND ∧ deref z ≠ ':' then parse_am_pm t' z
        else after) = parse_am_pm t' z := by
    rintro t' after status rfl
    by_cases hnil : z = []
    · simp [hnil, parse_am_pm]
    · obtain ⟨c, z', rfl⟩ := List.exists_cons_of_ne_nil hnil
      have hc : deref (c :: z') ≠ ':' := (hz c rfl).2
      rw [if_neg (by simp), if_pos ⟨if_neg hnil, hc⟩]
  have hhead : ∀ c ∈ z.head?, isdigit c = false := fun c hc => (hz c hc).1
  have hsep : ∀ (w : List Char), ∀ c ∈ (':' :: w).head?, isdigit c = false := by
    intro w c hc
    obtain rfl : ':' = c := by simpa using hc
    rfl
  -- a colon stands before the next number
  have hderef : ∀ w : List Char, deref (':' :: w) = ':' := fun _ => rfl
  unfold set_time
  cases hms with
  | none =>
      rw [List.nil_append, parse_time_component_short hh (by omega) hblank hhead]
      refine (hend _ _ _ rfl).trans ?_
      rw [hmin, hsec]
      rfl
  | @minute a ha =>
      have hhour := parse_time_component_short hh (by omega) hblank (hsep (a ++ z)) t.tm_hour
      have hminute := parse_time_component_short (mem_minute ha) (by omega) hcolon hhead t.tm_min
      rw [List.cons_append]
      simp only [hhour, hminute, hderef, List.cons_ne_nil, if_false, reduceCtorEq, ne_eq,
        not_true_eq_false, and_false, List.tail_cons]
      refine (hend _ _ _ rfl).trans ?_
      rw [hsec]
      rfl
  | @second a b ha hb =>
      have hhour := parse_time_component_short hh (by omega) hblank
        (hsep (a ++ ':' :: (b ++ z))) t.tm_hour
      have hminute := parse_time_component_short (mem_minute ha) (by omega) hcolon (hsep (b ++ z))
        t.tm_min
      have hsecond := parse_time_component_short (mem_minute hb) (by omega) hcolon hhead t.tm_sec
      rw [List.cons_append, List.append_assoc, List.cons_append]
      simp only [hhour, hminute, hsecond, hderef, List.cons_ne_nil, if_false, reduceCtorEq, ne_eq,
        not_true_eq_false, and_false, List.tail_cons]
      by_cases hnil : z = []
      · simp only [hnil, if_true, parse_am_pm, ne_eq, not_true_eq_false, and_false, if_false]
      · simp only [hnil, if_false, reduceCtorEq]

/-- **`set_time` gives a time of the day** on every word of the grammar. -/
theorem set_time_timeOfDay {t : tm} (hmin : t.tm_min = 0) (hsec : t.tm_sec = 0) {v : List Char}
    (hv : v ∈ time.lang) : TimeOfDay t (set_time t v) := by
  obtain ⟨h, ms, z, rfl, hh, hms, hz⟩ := mem_time hv
  obtain ⟨m, s, hms⟩ := mem_minute_second hms
  have hhour := hh.value_le
  have hle := hms.le
  rw [set_time_parts hmin hsec hh hms hz]
  unfold parse_am_pm
  dsimp only
  split_ifs with hmorning hpm
  · exact ⟨digitsVal h + 12, m, s, rfl, by omega, by omega, by omega⟩
  · exact ⟨digitsVal h, m, s, rfl, by omega, by omega, by omega⟩
  · exact ⟨digitsVal h, m, s, rfl, by omega, by omega, by omega⟩

/-! ## Between the fields -/

/-- Neither a digit nor a letter. -/
def Between (c : Char) : Prop := isdigit c = false ∧ isletter c = false

theorem between_blank : Between ' ' := ⟨rfl, by decide⟩

theorem maybe_whitespaces_within : maybe_whitespaces.Within Between := by
  intro c hc
  rw [of_decide_eq_true hc]
  exact between_blank

theorem whitespaces_within : whitespaces.Within Between :=
  ⟨(exactly_within _ _).mpr between_blank, maybe_whitespaces_within, trivial⟩

theorem date_separator_within : date_separator.Within Between := by
  refine ⟨⟨maybe_whitespaces_within, ?_, maybe_whitespaces_within, trivial⟩, whitespaces_within⟩
  intro c hc
  simp only [Bool.or_eq_true, decide_eq_true_eq] at hc
  obtain (rfl | rfl) | rfl := hc
  · exact ⟨rfl, by decide⟩
  · exact ⟨rfl, by decide⟩
  · exact ⟨rfl, by decide⟩

/-- What follows the last field starts with no digit and no letter. -/
theorem end_starts : (inSequence [maybe_with_time, eos]).Starts Between := by
  apply starts_cons_of_starts
  · exact ⟨starts_cons whitespaces_within.starts rfl _, trivial⟩
  · exact starts_cons ((exactly_within NUL Between).mpr ⟨rfl, by decide⟩).starts rfl _

theorem year_or_end_starts : (inSequence [maybe_year, maybe_with_time, eos]).Starts Between := by
  apply starts_cons_of_starts
  · exact ⟨starts_cons date_separator_within.starts rfl _, trivial⟩
  · exact end_starts

/-! ## The end of a date -/

/-- A word of a pattern. -/
abbrev Word (a : DatePattern) := {w : List Char // w ∈ a.lang}

/-- The time behind a date: blanks and a time, or nothing. -/
abbrev Suffix := Option (Word whitespaces × Word time)

def Suffix.text : Suffix → List Char
  | none => []
  | some (blanks, t) => blanks.1 ++ t.1

/-- What the tag of the time records. -/
def Suffix.tags : Suffix → List (date_tag × List Char)
  | none => []
  | some (_, t) => [(.ts, t.1 ++ [NUL])]

theorem not_nul_of_isdigit {c : Char} (h : isdigit c = true) : c ≠ NUL := by
  rintro rfl
  exact absurd h (by decide)

theorem maybe_whitespaces_no_nul : maybe_whitespaces.Within (fun c => c ≠ NUL) := by
  intro c hc
  rw [of_decide_eq_true hc]
  decide

theorem whitespaces_no_nul : whitespaces.Within (fun c => c ≠ NUL) :=
  ⟨(exactly_within ' ' (fun c => c ≠ NUL)).mpr (by decide), maybe_whitespaces_no_nul, trivial⟩

theorem date_separator_no_nul : date_separator.Within (fun c => c ≠ NUL) := by
  refine ⟨⟨maybe_whitespaces_no_nul, ?_, maybe_whitespaces_no_nul, trivial⟩, whitespaces_no_nul⟩
  rintro c hc rfl
  exact absurd hc (by decide)

/-- Minutes and seconds have digits and colons. -/
theorem minute_second_within {q : Char → Prop} (hdigit : ∀ c, isdigit c = true → q c)
    (hcolon : q ':') : minute_second.Within q := by
  have hrange : (range '1' '5').Within (fun c => isdigit c = true) := range_within (by decide)
  have hminute : DateLexer.minute.Within (fun c => isdigit c = true) :=
    ⟨⟨⟨(exactly_within _ _).mpr rfl, trivial⟩, digit_within, trivial⟩, hrange, digit_within,
      trivial⟩
  have hpart : (maybe (inSequence [time_separator, DateLexer.minute])).Within q :=
    ⟨⟨(exactly_within _ _).mpr hcolon, hminute.mono hdigit, trivial⟩, trivial⟩
  exact ⟨⟨hpart, hpart, trivial⟩, trivial⟩

/-- No word of a time has a NUL. -/
theorem time_no_nul : time.Within (fun c => c ≠ NUL) := by
  have hms : minute_second.Within (fun c => c ≠ NUL) :=
    minute_second_within (fun _ => not_nul_of_isdigit) (by decide)
  have hblind : CaseBlind (fun c => tolower c != NUL) :=
    fun _ _ h => congrArg (fun a => a != NUL) h
  have hnul : ∀ c, (tolower c != NUL) = true → c ≠ NUL := by
    rintro c hc rfl
    exact absurd hc (by decide)
  have ham : (literal "AM").Within (fun c => (tolower c != NUL) = true) :=
    literal_within hblind (by decide)
  have hpm : (literal "PM").Within (fun c => (tolower c != NUL) = true) :=
    literal_within hblind (by decide)
  exact ⟨⟨h12_within.mono fun _ => not_nul_of_isdigit, hms, maybe_whitespaces_no_nul,
    ⟨ham.mono hnul, hpm.mono hnul⟩, trivial⟩, h24_within.mono fun _ => not_nul_of_isdigit, hms,
    trivial⟩

theorem eos_mem : [NUL] ∈ (inSequence [eos]).lang :=
  mem_lang_sequence_singleton ⟨NUL, decide_eq_true rfl, rfl⟩

/-- **The end of a date** is matched in one way. -/
theorem mem_parses_suffix (t : Suffix) (tags : List (date_tag × List Char)) (r : List Char) :
    (tags, r) ∈ (inSequence [maybe_with_time, eos]).parses (t.text ++ [NUL])
      ↔ tags = t.tags ∧ r = [] := by
  -- it is a word of the end, and no match is another
  have hone : t.text ++ [NUL] ∈ (inSequence [maybe_with_time, eos]).lang
      ∧ ∀ tags r, (tags, r) ∈ (inSequence [maybe_with_time, eos]).parses (t.text ++ [NUL]) →
        tags = t.tags ∧ r = [] := by
    cases t with
    | none =>
        refine ⟨?_, fun tags r h => parses_no_time h⟩
        exact append_mem_lang_sequence (Or.inr rfl) eos_mem
    | some suffix =>
        obtain ⟨⟨blanks, hblanks⟩, ⟨t, ht⟩⟩ := suffix
        constructor
        · apply append_mem_lang_sequence _ eos_mem
          left
          apply append_mem_lang_sequence hblanks
          exact tag_mem_lang_sequence _ (mem_lang_sequence_singleton ht)
        · intro tags r h
          have hnul : NUL ∉ t := fun hmem => time_no_nul.forall_mem ht NUL hmem rfl
          apply parses_time hblanks (time_starts.1.cons time_starts.2 ht) hnul
          rwa [← List.append_assoc]
  obtain ⟨hword, hunique⟩ := hone
  constructor
  · exact hunique tags r
  · rintro ⟨rfl, rfl⟩
    exact Pattern.mem_parses_of_unique _ hword hunique

theorem suffix_head (t : Suffix) : ∀ c ∈ (t.text ++ [NUL]).head?, Between c :=
  end_starts.head_of_parses rfl ((mem_parses_suffix t t.tags []).mpr ⟨rfl, rfl⟩)

theorem suffix_no_nul (t : Suffix) : NUL ∉ t.text := by
  cases t with
  | none => exact List.not_mem_nil
  | some suffix =>
      obtain ⟨⟨blanks, hblanks⟩, ⟨t, ht⟩⟩ := suffix
      intro hmem
      obtain hmem | hmem := List.mem_append.mp hmem
      · exact whitespaces_no_nul.forall_mem hblanks NUL hmem rfl
      · exact time_no_nul.forall_mem ht NUL hmem rfl

/-- A text that starts with what separates fields. -/
theorem head_of_between {a : DatePattern} (ha : a.Within Between) (hnull : a.nullable = false)
    {w : List Char} (hw : w ∈ a.lang) (s : List Char) : ∀ c ∈ (w ++ s).head?, Between c := by
  obtain ⟨d, v, rfl, hd⟩ := ha.starts.cons hnull hw
  intro c hc
  obtain rfl : d = c := by simpa using hc
  exact hd

/-! ## A year at the end -/

theorem mem_yyyy {w : List Char} (hw : w ∈ yyyy.lang) :
    w.length = 4 ∧ ∀ c ∈ w, isdigit c = true := by
  refine ⟨?_, yyyy_takesDigits.within.forall_mem hw⟩
  obtain ⟨_, ⟨_, -, rfl⟩, _, ⟨_, ⟨_, -, rfl⟩, _, ⟨_, ⟨_, -, rfl⟩, _, ⟨_, ⟨_, -, rfl⟩, _, rfl, rfl⟩,
    rfl⟩, rfl⟩, rfl⟩ := hw
  rfl

/-- What takes separators, in the form of a class. -/
theorem within_not_digit {a : DatePattern} (h : a.Within Between) :
    a.Within (fun c => (!isdigit c) = true) :=
  h.mono fun c hc => by simp [hc.1]

/-- What starts with a digit, or with a letter, doesn't go on with separators. -/
theorem starts_digit {a : DatePattern} (h : TakesDigits true a) :
    a.Starts (fun c => (!isdigit c) = false) :=
  (h.within.mono fun c hc => by simp [hc]).starts

/-- A word of digits before what starts with no digit or with the end. -/
theorem head_digits {w : List Char} (hne : w ≠ []) (hw : ∀ c ∈ w, isdigit c = true)
    (s : List Char) : ∀ c ∈ (w ++ s).head?, (!isdigit c) = false := by
  obtain ⟨d, v, rfl⟩ := List.exists_cons_of_ne_nil hne
  intro c hc
  obtain rfl : d = c := by simpa using hc
  simp [hw d List.mem_cons_self]

theorem year_takesDigits : TakesDigits true year := by
  refine ⟨rfl, ?_, rfl⟩
  simp [year, yyyy, yy, oneOf, inSequence, Pattern.Within, digit_within]

/-- A time doesn't start with four digits. -/
theorem not_time_of_yyyy {w v s r : List Char} (hw : w ∈ yyyy.lang)
    (hs : ∀ c ∈ s.head?, Between c) (hv : v ∈ time.lang) : w ++ s ≠ v ++ NUL :: r := by
  intro h
  obtain ⟨u, ms, z, rfl, hu, hms, hz⟩ := mem_time hv
  have hafter : ∀ c ∈ (ms ++ (z ++ NUL :: r)).head?, isdigit c = false := by
    intro c hc
    cases ms with
    | nil =>
        cases z with
        | nil =>
            obtain rfl : NUL = c := by simpa using hc
            rfl
        | cons d z => exact (hz c (by simpa using hc)).1
    | cons d ms =>
        obtain rfl : d = c := by simpa using hc
        obtain ⟨m, s, hparts⟩ := mem_minute_second hms
        rw [hparts.head d rfl]
        rfl
  rw [List.append_assoc, List.append_assoc] at h
  obtain ⟨hlength, hdigits⟩ := mem_yyyy hw
  obtain ⟨rfl, -⟩ := append_inj_of_class h hdigits hu.digits (fun c hc => (hs c hc).1) hafter
  have hshort := hu.length_le
  omega

/-- **A year behind the day** is matched in one way. -/
theorem mem_parses_year_suffix {sep y : List Char} (hsep : sep ∈ date_separator.lang)
    (hy : y ∈ yyyy.lang) (t : Suffix) (tags : List (date_tag × List Char)) (r : List Char) :
    (tags, r) ∈ (inSequence [maybe_year, maybe_with_time, eos]).parses
        (sep ++ (y ++ (t.text ++ [NUL])))
      ↔ tags = (.ys, y ++ (t.text ++ [NUL])) :: (.ye, t.text ++ [NUL]) :: t.tags ∧ r = [] := by
  obtain ⟨hlength, hdigits⟩ := mem_yyyy hy
  have hne : y ≠ [] := List.ne_nil_of_length_pos (by omega)
  have hyear : y ∈ year.lang := Or.inl hy
  rw [maybe_year, mem_parses_maybe_cons, List.cons_append, List.cons_append, List.cons_append,
    List.cons_append, List.nil_append]
  rw [mem_parses_cons_of_class rfl (within_not_digit date_separator_within)
      (starts_tag_cons .ys (starts_cons (starts_digit year_takesDigits) rfl _)) rfl hsep
      (head_digits hne hdigits _),
    mem_parses_field rfl year_takesDigits.within (end_starts.mono fun c hc => hc.1) rfl hyear
      (fun c hc => (suffix_head t c hc).1)]
  constructor
  · rintro (⟨tags', rfl, h⟩ | h)
    · obtain ⟨rfl, rfl⟩ := (mem_parses_suffix t tags' r).mp h
      exact ⟨rfl, rfl⟩
    · -- the year is not a time
      obtain ⟨-, hnul⟩ | ⟨w, hw, v, hv, hsplit, -⟩ := parses_after_day h
      · obtain ⟨c, v, rfl, hc⟩ := date_separator_no_nul.starts.cons rfl hsep
        exact absurd (List.cons_eq_cons.mp hnul).1 hc
      · have hstart : ∀ c ∈ (v ++ NUL :: r).head?, (!isdigit c) = false := by
          obtain ⟨d, v, rfl, hd⟩ := time_starts.1.cons time_starts.2 hv
          intro c hc
          obtain rfl : d = c := by simpa using hc
          simp [hd]
        obtain ⟨-, hrest⟩ := append_inj_of_class hsplit
          ((within_not_digit date_separator_within).forall_mem hsep)
          ((within_not_digit whitespaces_within).forall_mem hw) (head_digits hne hdigits _) hstart
        exact absurd hrest (not_time_of_yyyy hy (suffix_head t) hv)
  · rintro ⟨rfl, rfl⟩
    exact Or.inl ⟨t.tags, rfl, (mem_parses_suffix t t.tags []).mpr ⟨rfl, rfl⟩⟩

end PkgPlugins.DateFields
