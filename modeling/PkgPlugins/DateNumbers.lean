/-
The numbers of a date (`plugins/history/date.re`): what the tags delimit, and what
`my_atoi` asserts about it.

A year has four digits at most, a month and a day two, but a `number` has as many as there
are. So in the two ambiguous formats, and only there, the lexer takes a number that doesn't
fit in 32 bits, for which the assertion fails.
-/
import PkgPlugins.DateActions
import PkgPlugins.DateMonths
import PkgPlugins.DateTimes

set_option autoImplicit false

namespace PkgPlugins.DateNumbers

open PkgPlugins.Libc PkgPlugins.Lexer PkgPlugins.DateLexer PkgPlugins.Date PkgPlugins.DateFields
  PkgPlugins.DateWhole PkgPlugins.DateMonths PkgPlugins.DateTimes
  PkgPlugins.DateActions

/-! ## Numbers -/

/-- A decimal number that fits in an `int32_t`. -/
structure Fits (w : List Char) : Prop where
  ne_nil : w ≠ []
  digits : ∀ c ∈ w, isdigit c = true
  lt : digitsVal w < 2 ^ 31

theorem Fits.my_atoi {w : List Char} (h : Fits w) : my_atoi w = .ok (digitsVal w) :=
  my_atoi_digits h.ne_nil h.digits h.lt

/-- `my_atoi` only reads digits that fit. -/
theorem fits_of_read {w : List Char} (hne : w ≠ []) (hw : ∀ c ∈ w, isdigit c = true)
    (hread : ∃ v, Date.my_atoi w = .ok v) : Fits w := by
  refine ⟨hne, hw, ?_⟩
  by_contra hlarge
  obtain ⟨v, hv⟩ := hread
  rw [my_atoi_large hne hw (by omega)] at hv
  exact absurd hv (by simp)

theorem fits_of_short {max : ℕ} {w : List Char} (h : ShortNumber max w) (hmax : max < 2 ^ 31) :
    Fits w :=
  ⟨h.ne_nil, h.digits, h.value_le.trans_lt hmax⟩

theorem fits_yyyy {w : List Char} (hw : w ∈ yyyy.lang) : Fits w := by
  obtain ⟨hne, hdigits, hlt⟩ := yyyy_number hw
  exact ⟨hne, hdigits, hlt⟩

theorem fits_year {w : List Char} (hw : w ∈ year.lang) : Fits w := by
  obtain hyyyy | hyy := hw
  · exact fits_yyyy hyyyy
  · exact fits_of_short (two_digits digit_digitUpTo digit_digitUpTo hyy) (by norm_num)

theorem mem_month {w : List Char} (hw : w ∈ month.lang) : ShortNumber 12 w := by
  obtain hone | htwo := hw
  · exact (one_digit hone).mono (by omega)
  · exact two_digits (exactly_digitUpTo rfl) (range_digitUpTo (by decide)) htwo

theorem fits_month {w : List Char} (hw : w ∈ month.lang) : Fits w :=
  fits_of_short (mem_month hw) (by norm_num)

theorem fits_day {w : List Char} (hw : w ∈ day.lang) : Fits w :=
  fits_of_short (mem_day hw) (by norm_num)

/-! ## What the tags delimit -/

section Tags

variable {p q : List DatePattern} {a : DatePattern} {t t' : date_tag} {s r : List Char}
  {tags : List (date_tag × List Char)}

/-- What is between the tags around a pattern. -/
theorem between_mem (hne : t ≠ t') (ht : t ∉ (inSequence p).tags)
    (ht' : t' ∉ (inSequence p).tags) (ha : a.tagless = true)
    (h : (tags, r) ∈ (inSequence (p ++ .tag t :: a :: .tag t' :: q)).parses s) :
    between tags t t' ∈ a.lang := by
  have htagless : (inSequence [a]).tagless = true := by
    simp [inSequence, Pattern.tagless, ha]
  rw [← List.singleton_append (l := .tag t' :: q)] at h
  obtain ⟨_, ⟨w, hw, _, rfl, rfl⟩, m, hfirst, hlast⟩ := between_tags hne ht ht' htagless h
  rw [List.append_nil] at hfirst
  rwa [between_of_pointers hfirst hlast]

/-- A year that may be missing. -/
theorem fits_maybe_year (hys : .ys ∉ (inSequence p).tags) (hye : .ye ∉ (inSequence p).tags)
    (h : (tags, r) ∈ (inSequence (p ++ [maybe_year, maybe_with_time, eos])).parses s)
    (hdiffer : pointer tags .ys ≠ pointer tags .ye) : Fits (between tags .ys .ye) := by
  obtain ⟨c₁, m, c₂, hfirst, hrest, rfl⟩ := (mem_parses_sequence_append _ _ _ _ _).mp h
  -- the tags of the year are not set before
  have hpointer : ∀ t ∉ (inSequence p).tags, pointer (c₁ ++ c₂) t = pointer c₂ t := by
    intro t ht
    rw [pointer, List.lookup_append, (inSequence p).lookup_captures hfirst ht, Option.none_or]
    rfl
  rw [hpointer _ hys, hpointer _ hye] at hdiffer
  have hsame : between (c₁ ++ c₂) .ys .ye = between c₂ .ys .ye := by
    rw [between, hpointer _ hys, hpointer _ hye]
    rfl
  rw [hsame]
  obtain hyear | hnone := (mem_parses_maybe_cons _ _ _ _ _).mp hrest
  · exact fits_year (between_mem (p := [date_separator]) (by decide) (by decide +kernel)
      (by decide +kernel) rfl hyear)
  · have hnot : ∀ t : date_tag, t ≠ .ts → pointer c₂ t = none := by
      intro t ht
      have htags : (inSequence [maybe_with_time, eos]).tags = [.ts] := by decide +kernel
      exact (inSequence [maybe_with_time, eos]).lookup_captures hnone (by simp [htags, ht])
    rw [hnot _ (by decide), hnot _ (by decide)] at hdiffer
    exact absurd rfl hdiffer

end Tags

/-! ## The formats of short numbers -/

/-- The rules whose numbers have a few digits. -/
def bounded_rules : List (DatePattern × action_t) :=
  [ (rule_year_monthtext_day, .done),
    (rule_year_month_day, .done),
    (rule_month_day, .month_day),
    (rule_monthtext_day, .done),
    (rule_day_monthtext, .done) ]

/-- The rules whose numbers have as many digits as there are. -/
def ambiguous_rules : List (DatePattern × action_t) :=
  [ (rule_number_month_number, .number_month_number),
    (rule_number_number, .number_number) ]

theorem dated_rules_eq : dated_rules = bounded_rules ++ ambiguous_rules := rfl

section Bounded

variable {s r : List Char} {tags : List (date_tag × List Char)}

theorem fits_done (hyear : pointer tags .ys ≠ pointer tags .ye → Fits (between tags .ys .ye))
    (hmonth : isdigit (deref ((pointer tags .ms).getD [])) = true → Fits (between tags .ms .me))
    (hday : Fits (between tags .ds .de)) : ∀ w ∈ atoi_arguments tags .done, Fits w := by
  intro w hw
  simp only [atoi_arguments, List.mem_append, List.mem_singleton] at hw
  obtain (hw | hw) | rfl := hw
  · split_ifs at hw with h
    · rw [List.mem_singleton.mp hw]
      exact hyear h
    · exact absurd hw List.not_mem_nil
  · split_ifs at hw with h
    · rw [List.mem_singleton.mp hw]
      exact hmonth h
    · exact absurd hw List.not_mem_nil
  · exact hday

/-- The name of a month is no number. -/
theorem fits_name {p q : List DatePattern} (hms : .ms ∉ (inSequence p).tags)
    (hme : .me ∉ (inSequence p).tags)
    (h : (tags, r) ∈ (inSequence (p ++ .tag .ms :: monthtext :: .tag .me :: q)).parses s)
    (hdigit : isdigit (deref ((pointer tags .ms).getD [])) = true) :
    Fits (between tags .ms .me) := by
  rw [← List.singleton_append (l := .tag .me :: q)] at h
  obtain ⟨_, ⟨w, hw, _, rfl, rfl⟩, m, hfirst, -⟩ := between_tags (by decide) hms hme rfl h
  obtain ⟨c, v, rfl, hc⟩ := monthtext_starts.1.cons monthtext_starts.2 hw
  rw [pointer, hfirst] at hdigit
  have hdigit' : isdigit c = true := hdigit
  rw [isdigit_of_isletter hc] at hdigit'
  exact absurd hdigit' (by simp)

/-- **In the other formats every number fits.** -/
theorem fits_of_bounded {rule : DatePattern × action_t} (hrule : rule ∈ bounded_rules)
    (h : (tags, r) ∈ rule.1.parses s) : ∀ w ∈ atoi_arguments tags rule.2, Fits w := by
  simp only [bounded_rules, List.mem_cons, List.not_mem_nil, or_false] at hrule
  obtain rfl | rfl | rfl | rfl | rfl := hrule
  · refine fits_done (fun _ => fits_yyyy (between_mem (p := []) ?_ ?_ ?_ rfl h))
      (fits_name (p := [.tag .ys, yyyy, .tag .ye, whitespaces]) ?_ ?_ h)
      (fits_day (between_mem (p := [.tag .ys, yyyy, .tag .ye, whitespaces, .tag .ms, monthtext,
        .tag .me, whitespaces]) ?_ ?_ ?_ rfl h))
    all_goals decide +kernel
  · refine fits_done (fun _ => fits_yyyy (between_mem (p := []) ?_ ?_ ?_ rfl h))
      (fun _ => fits_month (between_mem (p := [.tag .ys, yyyy, .tag .ye, date_separator])
        ?_ ?_ ?_ rfl h))
      (fits_day (between_mem (p := [.tag .ys, yyyy, .tag .ye, date_separator, .tag .ms, month,
        .tag .me, date_separator]) ?_ ?_ ?_ rfl h))
    all_goals decide +kernel
  · have hmonth : Fits (between tags .ms .me) :=
      fits_month (between_mem (p := []) (by decide) (by decide +kernel) (by decide +kernel) rfl h)
    have hday : Fits (between tags .ds .de) :=
      fits_day (between_mem (p := [.tag .ms, month, .tag .me, date_separator]) (by decide)
        (by decide +kernel) (by decide +kernel) rfl h)
    have hyear := fits_maybe_year (p := [.tag .ms, month, .tag .me, date_separator, .tag .ds, day,
      .tag .de]) (by decide +kernel) (by decide +kernel) h
    intro w hw
    simp only [atoi_arguments, List.mem_cons] at hw
    obtain rfl | rfl | hw := hw
    · exact hmonth
    · exact hday
    · -- `my_atoi` is not called on a year that is left out
      split_ifs at hw with hdiffer
      · rw [List.mem_singleton.mp hw]
        exact hyear hdiffer
      · exact absurd hw List.not_mem_nil
  · refine fits_done (fits_maybe_year (p := [.tag .ms, monthtext, .tag .me, whitespaces, .tag .ds,
        day, .tag .de]) ?_ ?_ h)
      (fits_name (p := []) ?_ ?_ h)
      (fits_day (between_mem (p := [.tag .ms, monthtext, .tag .me, whitespaces]) ?_ ?_ ?_ rfl h))
    all_goals decide +kernel
  · refine fits_done (fits_maybe_year (p := [.tag .ds, day, .tag .de, maybe_whitespaces, .tag .ms,
        monthtext, .tag .me]) ?_ ?_ h)
      (fits_name (p := [.tag .ds, day, .tag .de, maybe_whitespaces]) ?_ ?_ h)
      (fits_day (between_mem (p := []) ?_ ?_ ?_ rfl h))
    all_goals decide +kernel

end Bounded

/-! ## The digits of a text -/

/-- More digits are no smaller number. -/
theorem digitsVal_le_append (u d v : List Char) : digitsVal d ≤ digitsVal (u ++ d ++ v) := by
  have hmono : ∀ (ds : List Char) (a b : ℕ), a ≤ b →
      ds.foldl (fun acc c => 10 * acc + digitVal c) a
        ≤ ds.foldl (fun acc c => 10 * acc + digitVal c) b := by
    intro ds
    induction ds with
    | nil => exact fun a b h => h
    | cons c ds ih =>
        intro a b h
        rw [List.foldl_cons, List.foldl_cons]
        exact ih _ _ (by omega)
  have hgrow : ∀ (ds : List Char) (a : ℕ), a ≤ ds.foldl (fun acc c => 10 * acc + digitVal c) a := by
    intro ds
    induction ds with
    | nil => exact fun a => Nat.le_refl a
    | cons c ds ih =>
        intro a
        rw [List.foldl_cons]
        exact (show a ≤ 10 * a + digitVal c by omega).trans (ih _)
  unfold digitsVal
  rw [List.foldl_append, List.foldl_append]
  exact (hmono d 0 _ (Nat.zero_le _)).trans (hgrow v _)

/-- All digits in a row are a number that fits. -/
def Small (s : List Char) : Prop :=
  ∀ d, d <:+: s → (∀ c ∈ d, isdigit c = true) → digitsVal d < 2 ^ 31

theorem small_of_fits {w : List Char} (h : Fits w) : Small w := by
  rintro d ⟨u, v, rfl⟩ hd
  exact (digitsVal_le_append u d v).trans_lt h.lt

theorem small_of_no_digit {w : List Char} (hw : ∀ c ∈ w, isdigit c = false) : Small w := by
  intro d hpart hd
  cases d with
  | nil => decide
  | cons c d =>
      have hc := hw c (hpart.subset List.mem_cons_self)
      rw [hd c List.mem_cons_self] at hc
      exact absurd hc (by simp)

/-- What is no digit ends a number. -/
theorem small_append {u v : List Char} (hu : Small u) (hv : Small v)
    (hhead : ∀ c ∈ v.head?, isdigit c = false) : Small (u ++ v) := by
  intro d hpart hd
  obtain hleft | hright | ⟨d₁, d₂, -, hne, rfl, -, t, rfl⟩ := List.infix_append_iff_ne_nil.mp hpart
  · exact hu d hleft hd
  · exact hv d hright hd
  · obtain ⟨c, d₂, rfl⟩ := List.exists_cons_of_ne_nil hne
    have hc := hd c (by simp)
    rw [hhead c rfl] at hc
    exact absurd hc (by simp)

/-- What is no digit is before a number. -/
theorem small_append_of_no_digit {u v : List Char} (hu : ∀ c ∈ u, isdigit c = false)
    (hv : Small v) : Small (u ++ v) := by
  intro d hpart hd
  obtain hleft | hright | ⟨d₁, d₂, hne, -, rfl, ⟨t, rfl⟩, -⟩ :=
    List.infix_append_iff_ne_nil.mp hpart
  · exact small_of_no_digit hu d hleft hd
  · exact hv d hright hd
  · obtain ⟨c, d₁, rfl⟩ := List.exists_cons_of_ne_nil hne
    have hc := hd c (by simp)
    rw [hu c (by simp)] at hc
    exact absurd hc (by simp)

/-- The minutes and the seconds are small, before what starts with no digit. -/
theorem small_minute_second {ms z : List Char} {m s : ℕ} (hms : MinuteSecond ms m s)
    (hz : Small z) (hhead : ∀ c ∈ z.head?, isdigit c = false) :
    Small (ms ++ z) ∧ ∀ c ∈ (ms ++ z).head?, isdigit c = false := by
  have hcolon : ∀ c ∈ [':'], isdigit c = false := List.forall_mem_singleton.mpr rfl
  have hpart : ∀ {a : List Char}, a ∈ DateLexer.minute.lang → ∀ {z : List Char}, Small z →
      (∀ c ∈ z.head?, isdigit c = false) → Small ([':'] ++ (a ++ z)) := by
    intro a ha z hz hhead
    have ha := small_of_fits (fits_of_short (mem_minute ha) (by norm_num))
    exact small_append_of_no_digit hcolon (small_append ha hz hhead)
  cases hms with
  | none => exact ⟨hz, hhead⟩
  | @minute a ha => exact ⟨hpart ha hz hhead, by simpa using hcolon⟩
  | @second a b ha hb =>
      have hsplit : ':' :: (a ++ ':' :: b) ++ z = [':'] ++ (a ++ ([':'] ++ (b ++ z))) := by simp
      rw [hsplit]
      exact ⟨hpart ha (hpart hb hz hhead) (by simpa using hcolon), by simpa using hcolon⟩

/-- A time has short numbers. -/
theorem small_time {w : List Char} (hw : w ∈ time.lang) : Small w := by
  obtain ⟨h, m, s, hdenotes⟩ := exists_denotes hw
  have hhour : ∀ {hour : List Char}, ShortNumber 23 hour → ∀ {ms z : List Char} {m s : ℕ},
      MinuteSecond ms m s → Small z → (∀ c ∈ z.head?, isdigit c = false) →
      Small (hour ++ (ms ++ z)) := by
    intro hour hhour ms z m s hms hz hhead
    obtain ⟨hrest, hhead⟩ := small_minute_second hms hz hhead
    exact small_append (small_of_fits (fits_of_short hhour (by norm_num))) hrest hhead
  have hhalf : ∀ {blanks half : List Char}, blanks ∈ maybe_whitespaces.lang → half ∈ am_pm.lang →
      Small (blanks ++ half) ∧ ∀ c ∈ (blanks ++ half).head?, isdigit c = false := by
    intro blanks half hblanks hhalf
    have hnone : ∀ c ∈ blanks ++ half, isdigit c = false := by
      rw [List.forall_mem_append]
      exact ⟨fun c hc => (maybe_whitespaces_within.forall_mem hblanks c hc).1,
        fun c hc => isdigit_of_isletter (am_pm_within.forall_mem hhalf c hc)⟩
    exact ⟨small_of_no_digit hnone, fun c hc => hnone c (List.mem_of_mem_head? hc)⟩
  cases hdenotes with
  | @time24 hour ms m s hh hms =>
      have hsmall := hhour (mem_h24 hh) hms (z := []) (small_of_no_digit (by simp)) (by simp)
      rwa [List.append_nil] at hsmall
  | am hh hms hblanks ham =>
      obtain ⟨hz, hhead⟩ := hhalf hblanks (Or.inl ham)
      exact hhour ((mem_h12 hh).mono (by omega)) hms hz hhead
  | pm hh hms hblanks hpm =>
      obtain ⟨hz, hhead⟩ := hhalf hblanks (Or.inr hpm)
      exact hhour ((mem_h12 hh).mono (by omega)) hms hz hhead

/-! ## The digits of a format -/

/-- All words of a sequence are small. -/
def SmallIn (as : List DatePattern) : Prop := ∀ w ∈ (inSequence as).lang, Small w

/-- What has no digit. -/
theorem smallIn_cons {a : DatePattern} (ha : a.Within (fun c => isdigit c = false))
    {as : List DatePattern} (h : SmallIn as) : SmallIn (a :: as) := by
  rintro _ ⟨u, hu, v, hv, rfl⟩
  exact small_append_of_no_digit (ha.forall_mem hu) (h v hv)

theorem smallIn_tag {t : date_tag} {as : List DatePattern} (h : SmallIn as) :
    SmallIn (.tag t :: as) :=
  smallIn_cons (a := .tag t) trivial h

/-- A number that fits, before what starts with no digit. -/
theorem smallIn_number {a : DatePattern} (ha : ∀ w ∈ a.lang, Fits w) {as : List DatePattern}
    (hstarts : (inSequence as).Starts (fun c => isdigit c = false)) (h : SmallIn as) :
    SmallIn (a :: as) := by
  rintro _ ⟨u, hu, v, hv, rfl⟩
  exact small_append (small_of_fits (ha u hu)) (h v hv) (hstarts.head hv)

theorem no_digit_of_between {a : DatePattern} (h : a.Within Between) :
    a.Within (fun c => isdigit c = false) :=
  h.mono fun _ hc => hc.1

theorem monthtext_no_digit : monthtext.Within (fun c => isdigit c = false) :=
  monthtext_within.mono fun _ => isdigit_of_isletter

theorem smallIn_end : SmallIn [maybe_with_time, eos] := by
  have hnul : ∀ c ∈ [NUL], isdigit c = false := List.forall_mem_singleton.mpr rfl
  rintro _ ⟨u, hu, _, ⟨_, ⟨c, hc, rfl⟩, _, rfl, rfl⟩, rfl⟩
  rw [List.append_nil, of_decide_eq_true hc]
  obtain ⟨blanks, hblanks, _, ⟨_, rfl, _, ⟨t, ht, _, rfl, rfl⟩, rfl⟩, rfl⟩ | rfl := hu
  · rw [List.nil_append, List.append_nil, List.append_assoc]
    apply small_append_of_no_digit ((no_digit_of_between whitespaces_within).forall_mem hblanks)
    exact small_append (small_time ht) (small_of_no_digit hnul) (by simpa using hnul)
  · exact small_of_no_digit hnul

theorem smallIn_year_or_end : SmallIn [maybe_year, maybe_with_time, eos] := by
  have hyear : SmallIn ([date_separator, .tag .ys, year, .tag .ye] ++ [maybe_with_time, eos]) := by
    refine smallIn_cons (no_digit_of_between date_separator_within) ?_
    refine smallIn_tag (smallIn_number (fun w => fits_year) ?_ (smallIn_tag smallIn_end))
    exact starts_tag_cons .ye (end_starts.mono fun c hc => hc.1)
  rintro _ ⟨u, hu, v, hv, rfl⟩
  obtain hu | rfl := hu
  · exact hyear _ ((mem_lang_sequence_append _ _ _).mpr ⟨u, hu, v, hv, rfl⟩)
  · exact smallIn_end v hv

/-- A number, a separator and the rest. -/
theorem smallIn_field {a b : DatePattern} (ha : ∀ w ∈ a.lang, Fits w) (hb : b.Within Between)
    (hnull : b.nullable = false) (t t' : date_tag) {as : List DatePattern} (h : SmallIn as) :
    SmallIn (.tag t :: a :: .tag t' :: b :: as) := by
  have hnone := no_digit_of_between hb
  refine smallIn_tag (smallIn_number ha ?_ (smallIn_tag (smallIn_cons hnone h)))
  exact starts_tag_cons t' (starts_cons hnone.starts hnull as)

/-- The last number, and the rest. -/
theorem smallIn_last_field {a : DatePattern} (ha : ∀ w ∈ a.lang, Fits w) (t t' : date_tag)
    {as : List DatePattern} (hstarts : (inSequence as).Starts Between) (h : SmallIn as) :
    SmallIn (.tag t :: a :: .tag t' :: as) := by
  refine smallIn_tag (smallIn_number ha ?_ (smallIn_tag h))
  exact starts_tag_cons t' (hstarts.mono fun c hc => hc.1)

/-- **The other formats have no number that doesn't fit.** -/
theorem small_of_bounded {rule : DatePattern × action_t} (hrule : rule ∈ bounded_rules) :
    ∀ w ∈ rule.1.lang, Small w := by
  simp only [bounded_rules, List.mem_cons, List.not_mem_nil, or_false] at hrule
  obtain rfl | rfl | rfl | rfl | rfl := hrule
  · refine smallIn_field (fun w => fits_yyyy) whitespaces_within rfl _ _ ?_
    refine smallIn_tag (smallIn_cons monthtext_no_digit (smallIn_tag ?_))
    refine smallIn_cons (no_digit_of_between whitespaces_within) ?_
    exact smallIn_last_field (fun w => fits_day) _ _ end_starts smallIn_end
  · refine smallIn_field (fun w => fits_yyyy) date_separator_within rfl _ _ ?_
    refine smallIn_field (fun w => fits_month) date_separator_within rfl _ _ ?_
    exact smallIn_last_field (fun w => fits_day) _ _ end_starts smallIn_end
  · refine smallIn_field (fun w => fits_month) date_separator_within rfl _ _ ?_
    exact smallIn_last_field (fun w => fits_day) _ _ year_or_end_starts smallIn_year_or_end
  · refine smallIn_tag (smallIn_cons monthtext_no_digit (smallIn_tag ?_))
    refine smallIn_cons (no_digit_of_between whitespaces_within) ?_
    exact smallIn_last_field (fun w => fits_day) _ _ year_or_end_starts smallIn_year_or_end
  · have hname := smallIn_tag (t := .ms) (smallIn_cons monthtext_no_digit
      (smallIn_tag (t := .me) smallIn_year_or_end))
    refine smallIn_tag (smallIn_number (fun w => fits_day) ?_
      (smallIn_tag (smallIn_cons (no_digit_of_between maybe_whitespaces_within) hname)))
    -- the blanks may be missing, but a letter is no digit either
    apply starts_tag_cons
    apply starts_cons_of_starts (no_digit_of_between maybe_whitespaces_within).starts
    exact starts_tag_cons .ms (starts_cons monthtext_no_digit.starts monthtext_starts.2 _)

/-! ## The ambiguous formats -/

theorem mem_number (w : List Char) :
    w ∈ number.lang ↔ w ≠ [] ∧ ∀ c ∈ w, isdigit c = true := by
  constructor
  · intro hw
    refine ⟨?_, number_takesDigits.within.forall_mem hw⟩
    rintro rfl
    rw [Pattern.nil_mem_lang_iff, number_takesDigits.nullable] at hw
    exact absurd hw (by simp)
  · rintro ⟨hne, hdigits⟩
    obtain ⟨c, v, rfl⟩ := List.exists_cons_of_ne_nil hne
    rw [List.forall_mem_cons] at hdigits
    exact cons_mem_lang_sequence hdigits.1 (mem_lang_sequence_singleton hdigits.2)

/-- What the tags of `rule_number_number` record. -/
def pair_tags (a sep b tail : List Char) : List (date_tag × List Char) :=
  [ (.ms, a ++ (sep ++ (b ++ tail))),
    (.me, sep ++ (b ++ tail)),
    (.ds, b ++ tail),
    (.de, tail) ]

/-- One or two numbers in a row are a number. -/
theorem parses_number_number {as : List DatePattern} {s r : List Char}
    {tags : List (date_tag × List Char)}
    (h : (tags, r) ∈ (inSequence (number :: maybe number :: as)).parses s) :
    ∃ w ∈ number.lang, ∃ m, s = w ++ m ∧ (tags, r) ∈ (inSequence as).parses m := by
  obtain ⟨u, hu, _, rfl, h₁⟩ := (mem_parses_tagless_cons number_takesDigits.tagless _ _ _ _).mp h
  obtain ⟨v, hv, m, rfl, h₂⟩ := (mem_parses_tagless_cons (by decide +kernel) _ _ _ _).mp h₁
  refine ⟨u ++ v, ?_, m, (List.append_assoc u v m).symm, h₂⟩
  obtain ⟨hne, hdigits⟩ := (mem_number u).mp hu
  have hv : ∀ c ∈ v, isdigit c = true := by
    obtain hv | rfl := hv
    · exact ((mem_number v).mp hv).2
    · exact fun c hc => absurd hc List.not_mem_nil
  exact (mem_number _).mpr ⟨by simp [hne], List.forall_mem_append.mpr ⟨hdigits, hv⟩⟩

/-- **A match of two numbers.** -/
theorem number_number_match {s r : List Char} {tags : List (date_tag × List Char)}
    (h : (tags, r) ∈ rule_number_number.parses s) :
    ∃ a ∈ number.lang, ∃ sep ∈ date_separator.lang, ∃ b ∈ number.lang, ∃ tail rest,
      s = a ++ (sep ++ (b ++ tail)) ∧ tags = pair_tags a sep b tail ++ rest
        ∧ (rest, r) ∈ (inSequence [maybe_with_time, eos]).parses tail := by
  obtain ⟨_, rfl, h₁⟩ := (mem_parses_tag_cons _ _ _ _ _).mp h
  obtain ⟨a, ha, _, rfl, h₂⟩ := parses_number_number h₁
  obtain ⟨_, rfl, h₃⟩ := (mem_parses_tag_cons _ _ _ _ _).mp h₂
  obtain ⟨sep, hsep, _, rfl, h₄⟩ :=
    (mem_parses_tagless_cons date_separator_takesDigits.tagless _ _ _ _).mp h₃
  obtain ⟨_, rfl, h₅⟩ := (mem_parses_tag_cons _ _ _ _ _).mp h₄
  obtain ⟨b, hb, tail, rfl, h₆⟩ := parses_number_number h₅
  obtain ⟨rest, rfl, h₇⟩ := (mem_parses_tag_cons _ _ _ _ _).mp h₆
  exact ⟨a, ha, sep, hsep, b, hb, tail, rest, rfl, rfl, h₇⟩

/-- **A match of a month and a day.** -/
theorem month_day_match {s r : List Char} {tags : List (date_tag × List Char)}
    (h : (tags, r) ∈ rule_month_day.parses s) :
    ∃ m ∈ month.lang, ∃ sep ∈ date_separator.lang, ∃ d ∈ day.lang, ∃ tail rest,
      s = m ++ (sep ++ (d ++ tail)) ∧ tags = pair_tags m sep d tail ++ rest
        ∧ (rest, r) ∈ (inSequence [maybe_year, maybe_with_time, eos]).parses tail := by
  obtain ⟨m, hm, _, _, rfl, rfl, h₁⟩ := parses_field month_takesDigits.tagless h
  obtain ⟨sep, hsep, _, rfl, h₂⟩ :=
    (mem_parses_tagless_cons date_separator_takesDigits.tagless _ _ _ _).mp h₁
  obtain ⟨d, hd, tail, rest, rfl, rfl, h₃⟩ := parses_field day_takesDigits.tagless h₂
  exact ⟨m, hm, sep, hsep, d, hd, tail, rest, rfl, rfl, h₃⟩

theorem between_pair_tags (a sep b tail : List Char) (rest : List (date_tag × List Char)) :
    between (pair_tags a sep b tail ++ rest) .ms .me = a
      ∧ between (pair_tags a sep b tail ++ rest) .ds .de = b :=
  ⟨take_append_sub a _, take_append_sub b _⟩

/-- A number, a separator and the rest. -/
theorem small_field {w sep s : List Char} (hw : Fits w) (hsep : sep ∈ date_separator.lang)
    (hs : Small s) : Small (w ++ (sep ++ s)) := by
  have hnone := (no_digit_of_between date_separator_within).forall_mem hsep
  apply small_append (small_of_fits hw) (small_append_of_no_digit hnone hs)
  exact fun c hc => (head_of_between date_separator_within rfl hsep s c hc).1

/-- The last number and what follows it. -/
theorem small_tail {w tail : List Char} {rest : List (date_tag × List Char)} (hw : Fits w)
    (h : (rest, []) ∈ (inSequence [maybe_with_time, eos]).parses tail) : Small (w ++ tail) := by
  obtain ⟨v, hv, htail⟩ := (inSequence [maybe_with_time, eos]).parses_sound h
  rw [List.append_nil] at htail
  subst htail
  exact small_append (small_of_fits hw) (smallIn_end _ hv) (after_day_head h)

/-- **Where the numbers that are read fit, all of the text is small.** -/
theorem small_of_arguments {rule : DatePattern × action_t} (hrule : rule ∈ ambiguous_rules)
    {s : List Char} {tags : List (date_tag × List Char)} (h : (tags, []) ∈ rule.1.parses s)
    (hfits : ∀ w ∈ atoi_arguments tags rule.2, Fits w) : Small s := by
  simp only [ambiguous_rules, List.mem_cons, List.not_mem_nil, or_false] at hrule
  obtain rfl | rfl := hrule
  · obtain ⟨y, -, sep₁, hsep₁, m, -, sep₂, hsep₂, d, -, tail, rest, rfl, rfl, htail⟩ :=
      three_fields_match number_takesDigits month_takesDigits number_takesDigits h
    obtain ⟨hys, hms, hds⟩ := DateText.between_date_tags y sep₁ m sep₂ d tail rest
    simp only [atoi_arguments, hys, hms, hds, List.forall_mem_cons] at hfits
    obtain ⟨hy, hm, hd, -⟩ := hfits
    exact small_field hy hsep₁ (small_field hm hsep₂ (small_tail hd htail))
  · obtain ⟨a, -, sep, hsep, b, -, tail, rest, rfl, rfl, htail⟩ := number_number_match h
    obtain ⟨hms, hds⟩ := between_pair_tags a sep b tail rest
    simp only [atoi_arguments, hms, hds, List.forall_mem_cons] at hfits
    obtain ⟨ha, hb, -⟩ := hfits
    exact small_field ha hsep (small_tail hb htail)

/-- The other way round. -/
theorem arguments_of_small {rule : DatePattern × action_t} (hrule : rule ∈ ambiguous_rules)
    {s r : List Char} {tags : List (date_tag × List Char)} (h : (tags, r) ∈ rule.1.parses s)
    (hsmall : Small s) : ∀ w ∈ atoi_arguments tags rule.2, Fits w := by
  have hfits : ∀ {w : List Char}, w ∈ number.lang → w <:+: s → Fits w := by
    intro w hw hpart
    obtain ⟨hne, hdigits⟩ := (mem_number w).mp hw
    exact ⟨hne, hdigits, hsmall w hpart hdigits⟩
  simp only [ambiguous_rules, List.mem_cons, List.not_mem_nil, or_false] at hrule
  obtain rfl | rfl := hrule
  · obtain ⟨y, hy, sep₁, hsep₁, m, hm, sep₂, hsep₂, d, hd, tail, rest, rfl, rfl, -⟩ :=
      three_fields_match number_takesDigits month_takesDigits number_takesDigits h
    obtain ⟨hys, hms, hds⟩ := DateText.between_date_tags y sep₁ m sep₂ d tail rest
    simp only [atoi_arguments, hys, hms, hds, List.forall_mem_cons]
    refine ⟨hfits hy ⟨[], _, rfl⟩, fits_month hm,
      hfits hd ⟨y ++ (sep₁ ++ (m ++ sep₂)), tail, ?_⟩, ?_⟩
    · simp
    · simp
  · obtain ⟨a, ha, sep, hsep, b, hb, tail, rest, rfl, rfl, -⟩ := number_number_match h
    obtain ⟨hms, hds⟩ := between_pair_tags a sep b tail rest
    simp only [atoi_arguments, hms, hds, List.forall_mem_cons]
    refine ⟨hfits ha ⟨[], _, rfl⟩, hfits hb ⟨a ++ sep, tail, ?_⟩, ?_⟩
    · simp
    · simp

/-! ## All strings -/

/-- The texts that are passed to `my_atoi` for a string. -/
def arguments (string : List Char) : List (List Char) :=
  match lex rules (string ++ [NUL]) with
  | none => []
  | some ((action, tags), _) => atoi_arguments tags action

/-- The string is, as a whole, of a format where a number has as many digits as there
are. -/
def Ambiguous (s : CString) : Prop :=
  s.chars ++ [NUL] ∈ rule_number_month_number.lang ∨ s.chars ++ [NUL] ∈ rule_number_number.lang

theorem ambiguous_iff (s : CString) :
    Ambiguous s ↔ ∃ rule ∈ ambiguous_rules, s.chars ++ [NUL] ∈ rule.1.lang := by
  simp [Ambiguous, ambiguous_rules]

theorem ambiguous_rules_start : ∀ rule ∈ ambiguous_rules,
    rule.1.Starts (fun c => isdigit c = true) ∧ rule.1.nullable = false := by
  simp only [ambiguous_rules, List.mem_cons, List.not_mem_nil, or_false]
  rintro rule (rfl | rfl)
  · exact tagged_starts number_takesDigits.within.starts rfl _ _
  · exact tagged_starts number_takesDigits.within.starts rfl _ _

/-- The NUL behind a string is no digit. -/
theorem small_append_nul {s : List Char} (hs : Small s) : Small (s ++ [NUL]) := by
  have hnul : ∀ c ∈ [NUL], isdigit c = false := List.forall_mem_singleton.mpr rfl
  exact small_append hs (small_of_no_digit hnul) (by simpa using hnul)

/-- **The rule that is taken** where one of the ambiguous formats matches. -/
theorem lex_of_ambiguous {s : CString} {rule : DatePattern × action_t}
    (hrule : rule ∈ ambiguous_rules) (hword : s.chars ++ [NUL] ∈ rule.1.lang) :
    ∃ rule' ∈ dated_rules, ∃ tags, lex rules (s.chars ++ [NUL]) = some ((rule'.2, tags), [])
      ∧ (tags, []) ∈ rule'.1.parses (s.chars ++ [NUL]) := by
  have hdated : rule ∈ dated_rules := by
    rw [dated_rules_eq]
    exact List.mem_append_right _ hrule
  have hmem : rule ∈ rules := by
    rw [rules_eq]
    exact List.mem_cons_of_mem _ (List.mem_append_left _ hdated)
  obtain ⟨c, hmatch⟩ := rule.1.parses_complete hword []
  rw [List.append_nil] at hmatch
  obtain ⟨⟨⟨action, tags⟩, r⟩, hlex⟩ :=
    Option.ne_none_iff_exists'.mp (lex_ne_none hmem hmatch)
  obtain ⟨⟨rule', hrule', rfl, hparse⟩, hlongest⟩ := lex_sound hlex
  rw [rules_eq, List.mem_cons, List.mem_append, List.mem_singleton] at hrule'
  obtain rfl | hdated' | rfl := hrule'
  · obtain ⟨w, hw, hsplit⟩ := rule_today.parses_sound hparse
    rw [hsplit, dated_of_today hw hdated] at hmatch
    exact absurd hmatch List.not_mem_nil
  · obtain rfl := (dated_match_end hdated' hparse).1
    exact ⟨rule', hdated', tags, hlex, hparse⟩
  · -- the last rule takes a single character, and the NUL alone is no number
    have hle := hlongest rule hmem _ hmatch
    obtain ⟨-, a, -, hsplit⟩ := (mem_parses_char _ _ _ _).mp hparse
    obtain rfl := List.eq_nil_of_length_eq_zero (Nat.le_zero.mp hle)
    obtain ⟨hempty, -⟩ := List.append_inj' (hsplit.trans (List.nil_append [a]).symm) rfl
    obtain ⟨hstarts, hnull⟩ := ambiguous_rules_start rule hrule
    obtain ⟨d, v, hcons, hd⟩ := hstarts.cons hnull hword
    rw [hempty] at hcons
    obtain ⟨rfl, -⟩ := List.cons_eq_cons.mp hcons
    exact absurd hd (by decide)

/-- The assertion holds for numbers. -/
theorem yylex_ne_assertion {s : List Char}
    (hread : ∀ w ∈ arguments s, my_atoi w = .ok (digitsVal w)) (t : tm) :
    yylex s t ≠ .error .assertion := by
  intro h
  unfold arguments at hread
  cases hlex : lex rules (s ++ [NUL]) with
  | none =>
      rw [yylex, hlex] at h
      exact absurd h (by simp)
  | some found =>
      obtain ⟨⟨action, tags⟩, r⟩ := found
      rw [hlex] at hread
      obtain ⟨-, heq⟩ | ⟨-, heq⟩ | hout := yylex_outcome hlex t
      · rw [heq] at h
        exact absurd h (by simp)
      · rw [heq] at h
        exact absurd h (by simp)
      · rw [h] at hout
        cases hout with
        | assertion hassert =>
            obtain ⟨w, hw, hassert⟩ := hassert
            rw [hread w hw] at hassert
            exact absurd hassert (by simp)
        | unidentified hread' he => exact absurd he (by simp)

/-- **When all numbers are read.** For every string, each text that is passed to `my_atoi`
is a decimal number that fits in an `int32_t`, `my_atoi` gives its value, and no assertion
fails, if and only if the string is not one of the ambiguous formats with a number that
doesn't fit. -/
theorem my_atoi_arguments_iff (s : CString) :
    ((∀ w ∈ arguments s.chars, Fits w ∧ my_atoi w = .ok (digitsVal w))
        ∧ ∀ t, yylex s.chars t ≠ .error .assertion)
      ↔ ¬ (Ambiguous s ∧ ∃ d, d <:+: s.chars ∧ (∀ c ∈ d, isdigit c = true)
        ∧ 2 ^ 31 ≤ digitsVal d) := by
  constructor
  · rintro ⟨hread, -⟩ ⟨hambiguous, d, hpart, hdigits, hlarge⟩
    obtain ⟨rule, hrule, hword⟩ := (ambiguous_iff s).mp hambiguous
    -- the rule that is taken need not be the ambiguous one
    obtain ⟨rule', hrule', tags, hlex, hparse⟩ := lex_of_ambiguous hrule hword
    have hsmall : Small (s.chars ++ [NUL]) := by
      rw [dated_rules_eq, List.mem_append] at hrule'
      obtain hbounded | hrule' := hrule'
      · exact small_of_bounded hbounded _ (dated_match_whole (by
          rw [dated_rules_eq]
          exact List.mem_append_left _ hbounded) hparse)
      · apply small_of_arguments hrule' hparse
        intro w hw
        refine (hread w ?_).1
        rw [arguments, hlex]
        exact hw
    have hlt := hsmall d (hpart.trans (List.infix_append [] _ _)) hdigits
    omega
  · intro hnot
    have hfits : ∀ w ∈ arguments s.chars, Fits w := by
      unfold arguments
      cases hlex : lex rules (s.chars ++ [NUL]) with
      | none => exact forall_not_nil
      | some found =>
          obtain ⟨⟨action, tags⟩, r⟩ := found
          obtain ⟨⟨rule, hrule, rfl, hparse⟩, -⟩ := lex_sound hlex
          rw [rules_eq, dated_rules_eq, List.mem_cons, List.mem_append, List.mem_append,
            List.mem_singleton] at hrule
          -- a rule for no date, one whose numbers are bounded, or an ambiguous one
          obtain rfl | (hbounded | hrule) | rfl := hrule
          · exact forall_not_nil
          · exact fits_of_bounded hbounded hparse
          · apply arguments_of_small hrule hparse
            apply small_append_nul
            intro d hpart hdigits
            by_contra hlarge
            refine hnot ⟨(ambiguous_iff s).mpr ⟨rule, hrule, dated_match_whole ?_ hparse⟩, d, hpart,
              hdigits, by omega⟩
            rw [dated_rules_eq]
            exact List.mem_append_right _ hrule
          · exact forall_not_nil
    have hread : ∀ w ∈ arguments s.chars, my_atoi w = .ok (digitsVal w) :=
      fun w hw => (hfits w hw).my_atoi
    exact ⟨fun w hw => ⟨hfits w hw, hread w hw⟩, yylex_ne_assertion hread⟩

/-- A long number is taken by the lexer, and the assertion fails. -/
theorem long_number_asserted :
    ¬ ∀ s : CString, (∀ w ∈ arguments s.chars, Fits w ∧ my_atoi w = .ok (digitsVal w))
      ∧ ∀ t, yylex s.chars t ≠ .error .assertion := by
  intro h
  obtain ⟨-, hassert⟩ := h ⟨"99999999999/1".toList, by decide⟩
  exact hassert ⟨0, 0, 0, 15, 5, 126⟩ (by rfl)

end PkgPlugins.DateNumbers
