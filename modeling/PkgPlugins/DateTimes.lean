/-
The time behind a date (`plugins/history/date.re`), which is read twice: the lexer
matches it by the grammar of `time`, and `set_time` scans the text again, from the tag to
the end.

`Denotes` is the meaning that the grammar gives to a word of `time`, and
`set_time_denotes` says that `set_time` stores it, whatever is missing. So the hour, the
minute and the second of an accepted date are in range, and `is_date_valid` has nothing
to say about them.
-/
import PkgPlugins.DateActions
import PkgPlugins.DateFields
import PkgPlugins.DateWhole

set_option autoImplicit false

namespace PkgPlugins.DateTimes

open PkgPlugins.Libc PkgPlugins.Lexer PkgPlugins.DateLexer PkgPlugins.Date PkgPlugins.DateFields
  PkgPlugins.DateWhole PkgPlugins.DateActions

/-! ## What a time says -/

/-- The hour, the minute and the second of a word of `time`, by the rules of the grammar. -/
inductive Denotes : List Char → ℕ → ℕ → ℕ → Prop
  | time24 {hour ms : List Char} {m s : ℕ} (hhour : hour ∈ h24.lang) (hms : MinuteSecond ms m s) :
      Denotes (hour ++ ms) (digitsVal hour) m s
  | am {hour ms blanks half : List Char} {m s : ℕ} (hhour : hour ∈ h12.lang)
      (hms : MinuteSecond ms m s) (hblanks : blanks ∈ maybe_whitespaces.lang)
      (hhalf : half ∈ (literal "AM").lang) :
      Denotes (hour ++ (ms ++ (blanks ++ half))) (digitsVal hour) m s
  | pm {hour ms blanks half : List Char} {m s : ℕ} (hhour : hour ∈ h12.lang)
      (hms : MinuteSecond ms m s) (hblanks : blanks ∈ maybe_whitespaces.lang)
      (hhalf : half ∈ (literal "PM").lang) :
      Denotes (hour ++ (ms ++ (blanks ++ half)))
        (if digitsVal hour < 12 then digitsVal hour + 12 else digitsVal hour) m s

/-- Every word of `time` says something. -/
theorem exists_denotes {w : List Char} (hw : w ∈ time.lang) : ∃ h m s, Denotes w h m s := by
  obtain ⟨hour, hhour, _, ⟨ms, hms, _, ⟨blanks, hblanks, _, ⟨half, hhalf, _, rfl, rfl⟩, rfl⟩, rfl⟩,
    rfl⟩ | ⟨hour, hhour, _, ⟨ms, hms, _, rfl, rfl⟩, rfl⟩ := hw
  · obtain ⟨m, s, hms⟩ := mem_minute_second hms
    rw [List.append_nil]
    obtain ham | hpm := hhalf
    · exact ⟨_, m, s, .am hhour hms hblanks ham⟩
    · exact ⟨_, m, s, .pm hhour hms hblanks hpm⟩
  · obtain ⟨m, s, hms⟩ := mem_minute_second hms
    rw [List.append_nil]
    exact ⟨_, m, s, .time24 hhour hms⟩

/-- A time of the day. -/
theorem Denotes.le {w : List Char} {h m s : ℕ} (hw : Denotes w h m s) :
    h ≤ 23 ∧ m ≤ 59 ∧ s ≤ 59 := by
  cases hw with
  | time24 hhour hms => exact ⟨(mem_h24 hhour).value_le, hms.le⟩
  | am hhour hms hblanks hhalf =>
      have hle := (mem_h12 hhour).value_le
      exact ⟨by omega, hms.le⟩
  | pm hhour hms hblanks hhalf =>
      have hle := (mem_h12 hhour).value_le
      exact ⟨by split_ifs <;> omega, hms.le⟩

/-! ## The second scan -/

/-- Blanks and a word of `am_pm` are no part of the clock. -/
theorem afterClock_half {blanks half : List Char} (hblanks : blanks ∈ maybe_whitespaces.lang)
    (hhalf : half ∈ am_pm.lang) : AfterClock (blanks ++ half) := by
  cases blanks with
  | nil =>
      obtain ⟨c, v, rfl, hc⟩ := am_pm_starts.1.cons am_pm_starts.2 hhalf
      intro d hd
      obtain rfl : c = d := by simpa using hd
      refine ⟨isdigit_of_isletter hc, ?_⟩
      rintro rfl
      exact absurd hc (by decide)
  | cons b blanks =>
      intro d hd
      obtain rfl : b = d := by simpa using hd
      rw [of_decide_eq_true (hblanks b List.mem_cons_self)]
      decide

/-- What `parse_am_pm` finds behind the blanks. -/
theorem skip_blanks {blanks half : List Char} (hblanks : blanks ∈ maybe_whitespaces.lang)
    (hhalf : half ∈ am_pm.lang) : skip (blanks ++ half) [' '] = half := by
  have hspace : ∀ c ∈ blanks, [' '].contains c = true := by
    intro c hc
    rw [of_decide_eq_true (hblanks c hc)]
    rfl
  obtain ⟨c, v, rfl, hc⟩ := am_pm_starts.1.cons am_pm_starts.2 hhalf
  rw [skip, List.dropWhile_append_of_pos hspace, List.dropWhile_cons_of_neg]
  rw [List.contains_iff_mem, List.mem_singleton]
  rintro rfl
  exact absurd hc (by decide)

/-- The letters that the two literals start with. -/
theorem tolower_eq_p_iff (c : Char) : tolower c = 'p' ↔ c = 'P' ∨ c = 'p' := by
  constructor
  · by_cases hupper : 65 ≤ c.toNat ∧ c.toNat ≤ 90
    · exact forall_upper (P := fun c => tolower c = 'p' → c = 'P' ∨ c = 'p') (by decide) hupper
    · rw [tolower, if_neg hupper]
      exact Or.inr
  · rintro (rfl | rfl) <;> rfl

theorem deref_pm {half : List Char} (h : half ∈ (literal "PM").lang) :
    deref half = 'P' ∨ deref half = 'p' := by
  obtain ⟨c, v, rfl, hc, -⟩ := List.map_eq_cons_iff.mp ((mem_literal "PM" half).mp h)
  exact (tolower_eq_p_iff c).mp hc

theorem deref_am {half : List Char} (h : half ∈ (literal "AM").lang) :
    ¬ (deref half = 'P' ∨ deref half = 'p') := by
  obtain ⟨c, v, rfl, hc, -⟩ := List.map_eq_cons_iff.mp ((mem_literal "AM" half).mp h)
  rw [deref_cons, ← tolower_eq_p_iff, hc]
  decide

/-- **`set_time` stores what the time says.** -/
theorem set_time_denotes {t : tm} (hmin : t.tm_min = 0) (hsec : t.tm_sec = 0) {w : List Char}
    {h m s : ℕ} (hw : Denotes w h m s) :
    set_time t w = { t with tm_hour := h, tm_min := m, tm_sec := s } := by
  cases hw with
  | time24 hhour hms =>
      rename_i hour ms
      have hparts := set_time_parts (z := []) hmin hsec (mem_h24 hhour) hms (by simp [AfterClock])
      rw [List.append_nil] at hparts
      rw [hparts]
      simp [parse_am_pm]
  | am hhour hms hblanks hhalf =>
      rename_i hour ms blanks half
      rw [set_time_parts hmin hsec ((mem_h12 hhour).mono (by omega)) hms
        (afterClock_half hblanks (Or.inl hhalf)), parse_am_pm, skip_blanks hblanks (Or.inl hhalf)]
      simp only [if_neg (deref_am hhalf), ite_self]
  | pm hhour hms hblanks hhalf =>
      rename_i hour ms blanks half
      have hmorning := (mem_h12 hhour).value_le
      have hne : blanks ++ half ≠ [] := by
        intro hnil
        have hhalf_nil := (List.append_eq_nil_iff.mp hnil).2
        rw [hhalf_nil] at hhalf
        exact absurd ((mem_literal "PM" []).mp hhalf) (by decide)
      rw [set_time_parts hmin hsec ((mem_h12 hhour).mono (by omega)) hms
        (afterClock_half hblanks (Or.inr hhalf)), parse_am_pm, skip_blanks hblanks (Or.inr hhalf),
        if_pos ⟨by dsimp only; omega, hne⟩, if_pos (by omega : digitsVal hour < 12)]
      simp only [if_pos (deref_pm hhalf)]
      push_cast
      rfl

/-- A word says one time. -/
theorem Denotes.unique {w : List Char} {h m s h' m' s' : ℕ} (hw : Denotes w h m s)
    (hw' : Denotes w h' m' s') : h' = h ∧ m' = m ∧ s' = s := by
  have hsame := (set_time_denotes (t := ⟨0, 0, 0, 0, 0, 0⟩) rfl rfl hw').symm.trans
    (set_time_denotes rfl rfl hw)
  rw [tm.mk.injEq] at hsame
  omega

/-! ## The time of an accepted date -/

/-- The text from the tag of the time to the end, if the rule that is taken sets the tag. -/
def time_tag (string : List Char) : Option (List Char) :=
  match lex rules (string ++ [NUL]) with
  | none => none
  | some ((_, tags), _) => (pointer tags .ts).map List.dropLast

/-- The fields say the time of a text, or midnight if there is none. -/
def HasTime (t : tm) : Option (List Char) → Prop
  | none => t.tm_hour = 0 ∧ t.tm_min = 0 ∧ t.tm_sec = 0
  | some w => w ∈ time.lang
      ∧ ∃ h m s : ℕ, Denotes w h m s ∧ t.tm_hour = h ∧ t.tm_min = m ∧ t.tm_sec = s

/-- The time is set on fields that say midnight. -/
theorem hasTime_set_time_from {u : tm} (hu : u.tm_hour = 0 ∧ u.tm_min = 0 ∧ u.tm_sec = 0)
    {tags : List (date_tag × List Char)}
    (hts : pointer tags .ts = none ∨ ∃ v ∈ time.lang, pointer tags .ts = some (v ++ [NUL])) :
    HasTime (set_time_from u tags) ((pointer tags .ts).map List.dropLast) := by
  unfold set_time_from
  obtain hnone | ⟨v, hv, hsome⟩ := hts
  · rw [hnone]
    exact hu
  · obtain ⟨h, m, s, hdenotes⟩ := exists_denotes hv
    rw [hsome]
    dsimp only [Option.map_some]
    rw [List.dropLast_concat, set_time_denotes hu.2.1 hu.2.2 hdenotes]
    exact ⟨hv, h, m, s, hdenotes, rfl, rfl, rfl⟩

/-- A text that starts with `today` has no time. -/
theorem today_no_tag {s r : List Char} {tags : List (date_tag × List Char)}
    (h : (tags, r) ∈ rule_today.parses s) : pointer tags .ts = none := by
  have htags : rule_today.tags = [] := by decide +kernel
  exact rule_today.lookup_captures h (by simp [htags])

/-- **The fields that are read have the time of the text.** -/
theorem yylex_hasTime {s : CString} {t t' : tm}
    (ht : t.tm_hour = 0 ∧ t.tm_min = 0 ∧ t.tm_sec = 0) (h : yylex s.chars t = .ok t') :
    HasTime t' (time_tag s.chars) := by
  cases hlex : lex rules (s.chars ++ [NUL]) with
  | none =>
      rw [yylex, hlex] at h
      exact absurd h (by simp)
  | some found =>
      obtain ⟨⟨action, tags⟩, r⟩ := found
      have htag : time_tag s.chars = (pointer tags .ts).map List.dropLast := by
        rw [time_tag, hlex]
      obtain ⟨⟨rule, hrule, rfl, hparse⟩, -⟩ := lex_sound hlex
      rw [htag]
      rw [rules_eq, List.mem_cons, List.mem_append, List.mem_singleton] at hrule
      obtain rfl | hdated | rfl := hrule
      · rw [yylex, hlex, Except.ok.injEq] at h
        rw [← h, today_no_tag hparse]
        exact ht
      · have hout := yylex_dated hdated hlex t
        rw [h] at hout
        cases hout with
        | date hread y m d =>
            exact hasTime_set_time_from (by simpa using ht) (dated_match_end hdated hparse).2
      · rw [yylex, hlex] at h
        exact absurd h (by simp)

/-- Times of the day. -/
theorem HasTime.le {t : tm} {w : Option (List Char)} (h : HasTime t w) :
    (0 ≤ t.tm_hour ∧ t.tm_hour ≤ 23) ∧ (0 ≤ t.tm_min ∧ t.tm_min ≤ 59)
      ∧ 0 ≤ t.tm_sec ∧ t.tm_sec ≤ 59 := by
  cases w with
  | none =>
      obtain ⟨hhour, hmin, hsec⟩ := h
      omega
  | some w =>
      obtain ⟨-, h, m, s, hdenotes, hhour, hmin, hsec⟩ := h
      have hle := hdenotes.le
      omega

/-! ## Errors -/

/-- **A time of the day has valid components.** -/
theorem is_date_valid_ne_component {t : tm} {w : Option (List Char)} (h : HasTime t w)
    (name : String) : is_date_valid t ≠ .error (.component name) := by
  obtain ⟨hhour, hmin, hsec⟩ := h.le
  unfold is_date_valid
  rw [components_valid hsec hmin hhour]
  dsimp only
  split_ifs <;> simp

/-- The lexer has no error about a component. -/
theorem yylex_ne_component (string : List Char) (t : tm) (name : String) :
    yylex string t ≠ .error (.component name) := by
  intro h
  cases hlex : lex rules (string ++ [NUL]) with
  | none =>
      rw [yylex, hlex] at h
      exact absurd h (by simp)
  | some found =>
      obtain ⟨⟨action, tags⟩, r⟩ := found
      obtain ⟨-, heq⟩ | ⟨-, heq⟩ | hout := yylex_outcome hlex t
      · rw [heq] at h
        exact absurd h (by simp)
      · rw [heq] at h
        exact absurd h (by simp)
      · rw [h] at hout
        cases hout with
        | unidentified hread he => exact absurd he (by simp)

/-- `parse_date` has no error about a component. -/
theorem parse_date_ne_component (s : CString) (time_now : Option ℤ) (gmtime : ℤ → Option tm)
    (name : String) : parse_date time_now gmtime s.chars ≠ .error (.component name) := by
  intro h
  unfold parse_date at h
  cases time_now with
  | none => exact absurd h (by simp)
  | some time_now =>
      dsimp only at h
      cases hnow : gmtime time_now with
      | none =>
          rw [hnow] at h
          exact absurd h (by simp)
      | some tm_now =>
          simp only [hnow, bind, Except.bind] at h
          cases hyylex : yylex s.chars { tm_now with tm_sec := 0, tm_min := 0, tm_hour := 0 } with
          | error e =>
              simp only [hyylex, Except.error.injEq] at h
              exact yylex_ne_component _ _ name (h ▸ hyylex)
          | ok t =>
              simp only [hyylex] at h
              cases hvalid : is_date_valid t with
              | error e =>
                  simp only [hvalid, Except.error.injEq] at h
                  exact is_date_valid_ne_component (yylex_hasTime ⟨rfl, rfl, rfl⟩ hyylex) name
                    (h ▸ hvalid)
              | ok u =>
                  simp only [hvalid] at h
                  exact absurd h (by simp)

/-- **The two scans of a time agree.** Every word of `time` says one hour, minute and
second, which are those of a day, and `set_time` stores them; so the date that is accepted
has the time that the lexer matched, or is at midnight if there is none, and
`is_date_valid` never refuses a component. -/
theorem parse_date_times (s : CString) (time_now : Option ℤ) (gmtime : ℤ → Option tm) :
    (∀ w ∈ time.lang, ∃ hour min sec : ℕ, (hour ≤ 23 ∧ min ≤ 59 ∧ sec ≤ 59)
        ∧ (∀ h m s, Denotes w h m s ↔ h = hour ∧ m = min ∧ s = sec)
        ∧ ∀ t : tm, t.tm_min = 0 → t.tm_sec = 0 →
          set_time t w = { t with tm_hour := hour, tm_min := min, tm_sec := sec })
      ∧ (∀ v, parse_date time_now gmtime s.chars = .ok v →
        ∃ t t', (t.tm_hour = 0 ∧ t.tm_min = 0 ∧ t.tm_sec = 0) ∧ yylex s.chars t = .ok t'
          ∧ HasTime t' (time_tag s.chars) ∧ is_date_valid t' = .ok () ∧ timegm t' = v)
      ∧ ∀ name, parse_date time_now gmtime s.chars ≠ .error (.component name) := by
  refine ⟨?_, ?_, ?_⟩
  · intro w hw
    obtain ⟨hour, min, sec, hdenotes⟩ := exists_denotes hw
    refine ⟨hour, min, sec, hdenotes.le, fun h m s => ?_, fun t hmin hsec =>
      set_time_denotes hmin hsec hdenotes⟩
    constructor
    · exact fun h => hdenotes.unique h
    · rintro ⟨rfl, rfl, rfl⟩
      exact hdenotes
  · intro v hv
    obtain ⟨t, t', ht, hyylex, hvalid⟩ := parse_date_ok hv
    exact ⟨t, t', ht, hyylex, yylex_hasTime ht hyylex, hvalid⟩
  · exact parse_date_ne_component s time_now gmtime

end PkgPlugins.DateTimes
