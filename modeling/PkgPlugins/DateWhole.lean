/-
Which strings `parse_date` (`plugins/history/date.re`) takes as a whole.

The rules of the dated formats end in `eos`, so a match of one of them is the string with
its terminating NUL. The rule `'today'` does not: where it matches, what comes behind is
left where it is, and the string is accepted. No other rule matches a string that starts
so, as no date starts with a `t`.
-/
import PkgPlugins.DateText

set_option autoImplicit false

namespace PkgPlugins.DateWhole

open PkgPlugins.Libc PkgPlugins.Lexer PkgPlugins.DateLexer PkgPlugins.Date PkgPlugins.DateText

/-! ## Formats -/

/-- The rules of the dated formats, in order. -/
def dated_rules : List (DatePattern × action_t) :=
  [ (rule_year_monthtext_day, .done),
    (rule_year_month_day, .done),
    (rule_month_day, .month_day),
    (rule_monthtext_day, .done),
    (rule_day_monthtext, .done),
    (rule_number_month_number, .number_month_number),
    (rule_number_number, .number_number) ]

theorem rules_eq : rules
    = (rule_today, .today) :: (dated_rules ++ [(.char (fun _ => true), .invalid)]) := rfl

/-- The string is `today`, in any case, or as a whole a word of a dated format, whose
last character is the NUL behind it. -/
def Whole (s : CString) : Prop :=
  s.chars ∈ rule_today.lang ∨ ∃ rule ∈ dated_rules, s.chars ++ [NUL] ∈ rule.1.lang

/-- Every dated format ends in `maybe_with_time eos`, and what is before has no tag of a
time. -/
theorem dated_rules_end : ∀ rule ∈ dated_rules, ∃ as,
    rule.1 = inSequence (as ++ [maybe_with_time, eos]) ∧ .ts ∉ (inSequence as).tags := by
  simp only [dated_rules, List.mem_cons, List.not_mem_nil, or_false]
  rintro rule (rfl | rfl | rfl | rfl | rfl | rfl | rfl)
  · exact ⟨[.tag .ys, yyyy, .tag .ye, whitespaces, .tag .ms, monthtext, .tag .me, whitespaces,
      .tag .ds, day, .tag .de], rfl, by decide +kernel⟩
  · exact ⟨[.tag .ys, yyyy, .tag .ye, date_separator, .tag .ms, month, .tag .me, date_separator,
      .tag .ds, day, .tag .de], rfl, by decide +kernel⟩
  · exact ⟨[.tag .ms, month, .tag .me, date_separator, .tag .ds, day, .tag .de, maybe_year], rfl,
      by decide +kernel⟩
  · exact ⟨[.tag .ms, monthtext, .tag .me, whitespaces, .tag .ds, day, .tag .de, maybe_year], rfl,
      by decide +kernel⟩
  · exact ⟨[.tag .ds, day, .tag .de, maybe_whitespaces, .tag .ms, monthtext, .tag .me, maybe_year],
      rfl, by decide +kernel⟩
  · exact ⟨[.tag .ys, number, .tag .ye, date_separator, .tag .ms, month, .tag .me, date_separator,
      .tag .ds, number, .tag .de], rfl, by decide +kernel⟩
  · exact ⟨[.tag .ms, number, maybe number, .tag .me, date_separator, .tag .ds, number,
      maybe number, .tag .de], rfl, by decide +kernel⟩

/-- **The end of a match of a dated format** is the end of the text; a time, if there is
one, is a word of the grammar, and the tag records it. -/
theorem dated_match_end {rule : DatePattern × action_t} (hrule : rule ∈ dated_rules)
    {s : CString} {tags : List (date_tag × List Char)} {r : List Char}
    (h : (tags, r) ∈ rule.1.parses (s.chars ++ [NUL])) :
    r = [] ∧ (pointer tags .ts = none
      ∨ ∃ v ∈ time.lang, pointer tags .ts = some (v ++ [NUL])) := by
  obtain ⟨as, hend, hts⟩ := dated_rules_end rule hrule
  rw [hend, mem_parses_sequence_append] at h
  obtain ⟨c₁, m, c₂, hfirst, hlast, rfl⟩ := h
  obtain ⟨u, -, hsplit⟩ := (inSequence as).parses_sound hfirst
  rw [pointer, List.lookup_append, (inSequence as).lookup_captures hfirst hts, Option.none_or]
  obtain ⟨rfl, rfl⟩ | ⟨w, -, v, hv, rfl, rfl⟩ := parses_after_day hlast
  · exact ⟨eq_nil_of_append_nul s.noNul hsplit.symm, Or.inl rfl⟩
  · have hnil : r = [] := by
      have hwhole : (u ++ (w ++ v)) ++ NUL :: r = s.chars ++ [NUL] := by
        rw [hsplit]
        simp
      exact eq_nil_of_append_nul s.noNul hwhole
    subst hnil
    exact ⟨rfl, Or.inr ⟨v, hv, rfl⟩⟩

/-- **A match of a dated format** is the whole string. -/
theorem dated_match_whole {rule : DatePattern × action_t} (hrule : rule ∈ dated_rules)
    {s : CString} {tags : List (date_tag × List Char)} {r : List Char}
    (h : (tags, r) ∈ rule.1.parses (s.chars ++ [NUL])) : s.chars ++ [NUL] ∈ rule.1.lang := by
  obtain ⟨w, hw, hsplit⟩ := rule.1.parses_sound h
  rwa [hsplit, (dated_match_end hrule h).1, List.append_nil]

/-! ## What starts with a `t` -/

/-- The character is no `t`. -/
def NotT (c : Char) : Prop := tolower c ≠ 't'

theorem notT_of_isdigit {c : Char} (h : isdigit c = true) : NotT c := by
  simp only [isdigit, Bool.and_eq_true, decide_eq_true_eq] at h
  intro ht
  have hlower : tolower c = c := by
    rw [tolower, if_neg (by omega)]
  rw [hlower] at ht
  have hcode : c.toNat = 116 := by rw [ht]; rfl
  omega

theorem starts_notT_of_takesDigits {a : DatePattern} (h : TakesDigits true a) :
    a.Starts NotT :=
  (h.within.mono fun _ => notT_of_isdigit).starts

theorem monthtext_starts_notT : monthtext.Starts NotT := by
  have hblind : CaseBlind (fun c => tolower c != 't') :=
    fun _ _ h => congrArg (fun a => a != 't') h
  have hstarts := monthtext_starts_of hblind (by decide +kernel)
  exact hstarts.1.mono fun c hc => bne_iff_ne.mp hc

theorem number_takesDigits : TakesDigits true number := by
  refine ⟨rfl, ?_, rfl⟩
  simp [number, inSequence, Pattern.Within, digit_within]

/-- What comes behind a tag and a pattern that takes something doesn't matter. -/
theorem tagged_starts {q : Char → Prop} {a : DatePattern} (ha : a.Starts q)
    (hnull : a.nullable = false) (t : date_tag) (as : List DatePattern) :
    (inSequence (.tag t :: a :: as)).Starts q
      ∧ (inSequence (.tag t :: a :: as)).nullable = false := by
  constructor
  · refine ⟨trivial, fun _ => ⟨ha, fun h => ?_⟩⟩
    rw [hnull] at h
    exact absurd h (by simp)
  · simp [inSequence, Pattern.nullable, hnull]

/-- **No date starts with a `t`.** -/
theorem dated_rules_start : ∀ rule ∈ dated_rules,
    rule.1.Starts NotT ∧ rule.1.nullable = false := by
  have hyyyy := starts_notT_of_takesDigits yyyy_takesDigits
  have hmonth := starts_notT_of_takesDigits month_takesDigits
  have hday := starts_notT_of_takesDigits day_takesDigits
  have hnumber := starts_notT_of_takesDigits number_takesDigits
  simp only [dated_rules, List.mem_cons, List.not_mem_nil, or_false]
  rintro rule (rfl | rfl | rfl | rfl | rfl | rfl | rfl)
  · exact tagged_starts hyyyy rfl _ _
  · exact tagged_starts hyyyy rfl _ _
  · exact tagged_starts hmonth rfl _ _
  · exact tagged_starts monthtext_starts_notT monthtext_starts.2 _ _
  · exact tagged_starts hday rfl _ _
  · exact tagged_starts hnumber rfl _ _
  · exact tagged_starts hnumber rfl _ _

/-- The words of `'today'`. -/
theorem mem_today {w : List Char} (hw : w ∈ rule_today.lang) :
    w.length = 5 ∧ NUL ∉ w ∧ ∃ c v, w = c :: v ∧ tolower c = 't' := by
  obtain ⟨_, ⟨c₁, h₁, rfl⟩, _, ⟨_, ⟨c₂, h₂, rfl⟩, _, ⟨_, ⟨c₃, h₃, rfl⟩, _, ⟨_, ⟨c₄, h₄, rfl⟩, _,
    ⟨_, ⟨c₅, h₅, rfl⟩, _, hnil, rfl⟩, rfl⟩, rfl⟩, rfl⟩, rfl⟩ := hw
  obtain rfl := (mem_lang_sequence_nil _).mp hnil
  refine ⟨rfl, ?_, c₁, _, rfl, of_decide_eq_true h₁⟩
  -- a NUL is none of the letters
  intro hmem
  simp only [List.cons_append, List.nil_append, List.mem_cons, List.not_mem_nil, or_false] at hmem
  obtain rfl | rfl | rfl | rfl | rfl := hmem
  · exact absurd (of_decide_eq_true h₁) (by decide)
  · exact absurd (of_decide_eq_true h₂) (by decide)
  · exact absurd (of_decide_eq_true h₃) (by decide)
  · exact absurd (of_decide_eq_true h₄) (by decide)
  · exact absurd (of_decide_eq_true h₅) (by decide)

/-- Where `'today'` matches, no dated format does. -/
theorem dated_of_today {w r : List Char} (hw : w ∈ rule_today.lang)
    {rule : DatePattern × action_t} (hrule : rule ∈ dated_rules) :
    rule.1.parses (w ++ r) = [] := by
  rw [List.eq_nil_iff_forall_not_mem]
  rintro ⟨tags, r'⟩ h
  obtain ⟨hstarts, hnull⟩ := dated_rules_start rule hrule
  obtain ⟨-, -, c, v, rfl, hc⟩ := mem_today hw
  obtain ⟨u, hu, hsplit⟩ := rule.1.parses_sound h
  obtain ⟨c', v', rfl, hc'⟩ := hstarts.cons hnull hu
  obtain ⟨rfl, -⟩ := List.cons_eq_cons.mp hsplit
  exact hc' hc

/-! ## The rule that is taken -/

/-- **A text that starts with `today`** is matched by that rule. -/
theorem lex_today {w r : List Char} (hw : w ∈ rule_today.lang) :
    ∃ tags r', lex rules (w ++ r) = some ((.today, tags), r') := by
  obtain ⟨c, hmatch⟩ := rule_today.parses_complete hw r
  have hrule : (rule_today, action_t.today) ∈ rules := by simp [rules]
  obtain ⟨⟨⟨action, tags⟩, r'⟩, hlex⟩ :=
    Option.ne_none_iff_exists'.mp (lex_ne_none hrule hmatch)
  refine ⟨tags, r', ?_⟩
  obtain ⟨⟨rule, hrule', rfl, hparse⟩, hlongest⟩ := lex_sound hlex
  have hle := hlongest _ hrule _ hmatch
  rw [rules_eq, List.mem_cons, List.mem_append, List.mem_singleton] at hrule'
  obtain rfl | hdated | rfl := hrule'
  · exact hlex
  · rw [dated_of_today hw hdated] at hparse
    exact absurd hparse List.not_mem_nil
  · -- the last rule takes a single character
    obtain ⟨-, a, -, hsplit⟩ := (mem_parses_char _ _ _ _).mp hparse
    have hlen := congrArg List.length hsplit
    rw [List.length_append, (mem_today hw).1, List.length_cons] at hlen
    dsimp only at hle
    omega

theorem yylex_today {s w r : List Char} (hw : w ∈ rule_today.lang) (hs : s = w ++ r) (t : tm) :
    yylex s t = .ok t := by
  obtain ⟨tags, r', hlex⟩ := lex_today (r := r ++ [NUL]) hw
  unfold yylex
  rw [hs, List.append_assoc, hlex]

/-- A word without a NUL at the start of a terminated text is at the start of the text. -/
theorem prefix_of_append_nul {w r s : List Char} (hw : NUL ∉ w) (h : s ++ [NUL] = w ++ r) :
    ∃ u, s = w ++ u := by
  obtain ⟨u, hwu, hnul⟩ | ⟨u, hsu, -⟩ := List.append_eq_append_iff.mp h
  · cases u with
    | nil =>
        rw [List.append_nil] at hwu
        exact ⟨[], by rw [hwu, List.append_nil]⟩
    | cons c u =>
        obtain ⟨rfl, -⟩ := List.cons_eq_cons.mp hnul
        rw [hwu] at hw
        exact absurd (by simp) hw
  · exact ⟨u, hsu⟩

/-- A text is read only if one of the formats matches, which takes all of it or is
`'today'`. -/
theorem yylex_ok {s : CString} {t t' : tm} (h : yylex s.chars t = .ok t') :
    (∃ w ∈ rule_today.lang, ∃ r, s.chars = w ++ r)
      ∨ ∃ rule ∈ dated_rules, s.chars ++ [NUL] ∈ rule.1.lang := by
  unfold yylex at h
  cases hlex : lex rules (s.chars ++ [NUL]) with
  | none =>
      rw [hlex] at h
      exact absurd h (by simp)
  | some found =>
      obtain ⟨⟨action, tags⟩, r⟩ := found
      obtain ⟨⟨rule, hrule, rfl, hparse⟩, -⟩ := lex_sound hlex
      rw [rules_eq, List.mem_cons, List.mem_append, List.mem_singleton] at hrule
      obtain rfl | hdated | rfl := hrule
      · left
        obtain ⟨w, hw, hsplit⟩ := rule_today.parses_sound hparse
        obtain ⟨-, hnul, -⟩ := mem_today hw
        obtain ⟨u, hu⟩ := prefix_of_append_nul hnul hsplit
        exact ⟨w, hw, u, hu⟩
      · exact Or.inr ⟨rule, hdated, dated_match_whole hdated hparse⟩
      · rw [hlex] at h
        exact absurd h (by simp)

/-- A date that is accepted is read, from midnight on, and valid. -/
theorem parse_date_ok {time_now : Option ℤ} {gmtime : ℤ → Option tm} {date : List Char} {v : ℤ}
    (h : parse_date time_now gmtime date = .ok v) :
    ∃ t t', (t.tm_hour = 0 ∧ t.tm_min = 0 ∧ t.tm_sec = 0) ∧ yylex date t = .ok t'
      ∧ is_date_valid t' = .ok () ∧ timegm t' = v := by
  obtain ⟨now, tm_now, -, -, t, hyylex, h⟩ := (parse_date_ok_iff time_now gmtime date v).mp h
  exact ⟨_, t, ⟨rfl, rfl, rfl⟩, hyylex, h⟩

/-- **When only whole strings are accepted.** For every string, `parse_date` succeeds
only if the string is `today` or as a whole one of the dated formats, unless it is `today`
with something behind it. -/
theorem parse_date_whole_iff (s : CString) :
    (∀ (time_now : Option ℤ) (gmtime : ℤ → Option tm) (v : ℤ),
        parse_date time_now gmtime s.chars = .ok v → Whole s)
      ↔ ¬ ∃ w ∈ rule_today.lang, ∃ rest, rest ≠ [] ∧ s.chars = w ++ rest := by
  constructor
  · rintro hwhole ⟨w, hw, rest, hrest, hs⟩
    -- the fields of the current date are valid, so they are the date
    have haccept : parse_date (some 0) june s.chars = .ok (timegm ⟨0, 0, 0, 15, 5, 126⟩) := by
      simp only [parse_date, june, bind, Except.bind, yylex_today hw hs]
      rfl
    obtain htoday | ⟨rule, hrule, hdated⟩ := hwhole _ _ _ haccept
    · have hlen := (mem_today htoday).1
      rw [hs, List.length_append, (mem_today hw).1] at hlen
      exact hrest (List.eq_nil_of_length_eq_zero (by omega))
    · obtain ⟨c, hmatch⟩ := rule.1.parses_complete hdated []
      rw [List.append_nil, hs, List.append_assoc, dated_of_today hw hrule] at hmatch
      exact List.not_mem_nil hmatch
  · intro hnone time_now gmtime v hv
    obtain ⟨t, t', -, hyylex, -⟩ := parse_date_ok hv
    obtain ⟨w, hw, rest, hs⟩ | hdated := yylex_ok hyylex
    · left
      have hrest : rest = [] := by
        by_contra hrest
        exact hnone ⟨w, hw, rest, hrest, hs⟩
      rwa [hs, hrest, List.append_nil]
    · exact Or.inr hdated

/-- What is behind `today` is not looked at. -/
theorem today_with_suffix_accepted :
    ¬ ∀ (s : CString) (time_now : Option ℤ) (gmtime : ℤ → Option tm) (v : ℤ),
      parse_date time_now gmtime s.chars = .ok v → Whole s := by
  intro h
  have haccept : parse_date (some 0) june "todayXYZ".toList
      = .ok (timegm ⟨0, 0, 0, 15, 5, 126⟩) := by
    rfl
  obtain htoday | ⟨rule, hrule, hdated⟩ := h ⟨"todayXYZ".toList, by decide⟩ _ _ _ haccept
  · exact absurd (mem_today htoday).1 (by decide)
  · obtain ⟨hstarts, hnull⟩ := dated_rules_start rule hrule
    obtain ⟨c, v, hcons, hc⟩ := hstarts.cons hnull hdated
    obtain ⟨rfl, -⟩ := List.cons_eq_cons.mp hcons
    exact hc rfl

end PkgPlugins.DateWhole
