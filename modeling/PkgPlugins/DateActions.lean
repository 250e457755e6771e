/-
What the rules of the lexer do with the date they match (`plugins/history/date.re`).

The texts between the tags go through `my_atoi`, and `set_date` gets the numbers. Either
the year, the month and the day are given, or two numbers are left and one of them is the
month, or the year: `guess_month` and `guess_year` take it, and the other is the day. So
one number is left for the day, and the assertion of `set_date` holds; that of `my_atoi`
is the only one that can fail.
-/
import PkgPlugins.DateWhole

set_option autoImplicit false

namespace PkgPlugins.DateActions

open PkgPlugins.Libc PkgPlugins.Lexer PkgPlugins.DateLexer PkgPlugins.Date PkgPlugins.DateText
  PkgPlugins.DateWhole

/-! ## Guesses -/

/-- The month of two numbers: the only one that can be, or either if they are the same. -/
theorem guess_month_pair (a b : ℤ) :
    guess_month [a, b]
      = if is_month a ∧ (is_month b → a = b) then some (a, [b])
        else if is_month b ∧ ¬ is_month a then some (b, [a]) else none := by
  unfold guess_month guess_month_loop guess_month_loop guess_month_loop
  by_cases ha : is_month a = true
  · by_cases hb : is_month b = true
    · by_cases hab : a = b
      · simp [hb, hab]
      · simp [ha, hb, hab]
    · simp [ha, hb]
  · by_cases hb : is_month b = true
    · simp [ha, hb]
    · simp [ha, hb]

/-- The year of two numbers: the only one that can't be a day, or the last of two days that
are the same. -/
theorem guess_year_pair (y d : ℤ) :
    guess_year [y, d]
      = if is_year y ∧ ¬ is_year d then some (y, [d])
        else if ¬ is_year y ∧ (y = d ∨ is_year d) then some (d, [y]) else none := by
  unfold guess_year
  by_cases hy : is_year y = true
  · by_cases hd : is_year d = true
    · simp [hy, hd]
    · have hne : y ≠ d := by
        rintro rfl
        exact hd hy
      simp [hy, hd, hne]
  · by_cases hd : y = d ∨ is_year d = true
    · have htail : (decide (y = d) || is_year d) = true := by simpa using hd
      simp [hy, hd, htail]
    · simp [hy, hd]

/-! ## What is stored -/

/-- The fields that `set_date` sets; the year is the current one if it is -1. -/
def stored_fields (t : tm) (y m d : ℤ) : tm :=
  { (if y ≠ -1 then { t with tm_year := stored_year y } else t) with
    tm_mon := m - 1, tm_mday := d }

@[simp] theorem stored_fields_hour (t : tm) (y m d : ℤ) :
    (stored_fields t y m d).tm_hour = t.tm_hour := by
  unfold stored_fields
  split_ifs <;> rfl

@[simp] theorem stored_fields_min (t : tm) (y m d : ℤ) :
    (stored_fields t y m d).tm_min = t.tm_min := by
  unfold stored_fields
  split_ifs <;> rfl

@[simp] theorem stored_fields_sec (t : tm) (y m d : ℤ) :
    (stored_fields t y m d).tm_sec = t.tm_sec := by
  unfold stored_fields
  split_ifs <;> rfl

@[simp] theorem stored_fields_mon (t : tm) (y m d : ℤ) :
    (stored_fields t y m d).tm_mon = m - 1 := by
  unfold stored_fields
  split_ifs <;> rfl

@[simp] theorem stored_fields_mday (t : tm) (y m d : ℤ) :
    (stored_fields t y m d).tm_mday = d := by
  unfold stored_fields
  split_ifs <;> rfl

/-- The current year stays. -/
theorem stored_fields_current (t : tm) (m d : ℤ) : (stored_fields t (-1) m d).tm_year = t.tm_year :=
  rfl

theorem stored_fields_year (t : tm) {y : ℤ} (hy : y ≠ -1) (m d : ℤ) :
    (stored_fields t y m d).tm_year = stored_year y := by
  unfold stored_fields
  rw [if_pos hy]

/-- **The month is one of two numbers.** -/
theorem set_date_month (t : tm) (a b : ℤ) :
    set_date t (some (-1)) none none (some a) (some b) none
      = if is_month a ∧ (is_month b → a = b) then .ok (stored_fields t (-1) a b)
        else if is_month b ∧ ¬ is_month a then .ok (stored_fields t (-1) b a)
        else .error .month := by
  have hguess : guess_month ([some a, some b, none].filterMap id) = _ := guess_month_pair a b
  unfold set_date
  simp only [bind, Except.bind]
  rw [hguess]
  by_cases hfirst : is_month a = true ∧ (is_month b = true → a = b)
  · rw [if_pos hfirst, if_pos hfirst]
    rfl
  · rw [if_neg hfirst, if_neg hfirst]
    by_cases hlast : is_month b = true ∧ ¬ is_month a = true
    · rw [if_pos hlast, if_pos hlast]
      rfl
    · rw [if_neg hlast, if_neg hlast]
      rfl

/-- **The year is one of two numbers.** -/
theorem set_date_year (t : tm) (y m d : ℤ) :
    set_date t none (some m) none (some y) (some d) none
      = if is_year y ∧ ¬ is_year d then .ok (stored_fields t y m d)
        else if ¬ is_year y ∧ (y = d ∨ is_year d) then .ok (stored_fields t d m y)
        else .error .year := by
  have hguess : guess_year ([some y, some d, none].filterMap id) = _ := guess_year_pair y d
  unfold set_date
  simp only [bind, Except.bind]
  rw [hguess]
  by_cases hfirst : is_year y = true ∧ ¬ is_year d = true
  · rw [if_pos hfirst, if_pos hfirst]
    rfl
  · rw [if_neg hfirst, if_neg hfirst]
    by_cases hlast : ¬ is_year y = true ∧ (y = d ∨ is_year d = true)
    · rw [if_pos hlast, if_pos hlast]
      rfl
    · rw [if_neg hlast, if_neg hlast]
      rfl

/-! ## What is read -/

/-- `my_atoi` gives a number, or its assertion fails. -/
theorem my_atoi_cases (string : List Char) :
    (∃ v, my_atoi string = .ok v) ∨ my_atoi string = .error .assertion := by
  unfold my_atoi
  split
  · exact Or.inl ⟨_, rfl⟩
  · exact Or.inr rfl

/-- The texts that are passed to `my_atoi`, in order. -/
def atoi_arguments (tags : List (date_tag × List Char)) : action_t → List (List Char)
  | .today => []
  | .done =>
      (if pointer tags .ys ≠ pointer tags .ye then [between tags .ys .ye] else [])
        ++ (if isdigit (deref ((pointer tags .ms).getD [])) then [between tags .ms .me] else [])
        ++ [between tags .ds .de]
  | .month_day =>
      between tags .ms .me :: between tags .ds .de
        :: (if pointer tags .ys ≠ pointer tags .ye then [between tags .ys .ye] else [])
  | .number_month_number => [between tags .ys .ye, between tags .ms .me, between tags .ds .de]
  | .number_number => [between tags .ms .me, between tags .ds .de]
  | .invalid => []

/-- All texts are read, or the assertion fails for one of them. -/
def Reads {α : Type} (ws : List (List Char)) (x : Except date_error α) : Prop :=
  (∃ v, x = .ok v) ∧ (∀ w ∈ ws, ∃ v, my_atoi w = .ok v)
    ∨ x = .error .assertion ∧ ∃ w ∈ ws, my_atoi w = .error .assertion

theorem reads_nil {α : Type} (v : α) : Reads [] (.ok v) :=
  Or.inl ⟨⟨v, rfl⟩, fun _ hw => absurd hw List.not_mem_nil⟩

theorem my_atoi_reads (w : List Char) : Reads [w] (my_atoi w) := by
  obtain ⟨v, hv⟩ | hassert := my_atoi_cases w
  · exact Or.inl ⟨⟨v, hv⟩, List.forall_mem_singleton.mpr ⟨v, hv⟩⟩
  · exact Or.inr ⟨hassert, w, List.mem_cons_self, hassert⟩

/-- What comes of the texts of a date. -/
inductive Outcome (t : tm) (tags : List (date_tag × List Char)) (ws : List (List Char)) :
    Except date_error tm → Prop
  | assertion (hassert : ∃ w ∈ ws, my_atoi w = .error .assertion) :
      Outcome t tags ws (.error .assertion)
  | unidentified {e : date_error} (hread : ∀ w ∈ ws, ∃ v, my_atoi w = .ok v)
      (he : e = .year ∨ e = .month) : Outcome t tags ws (.error e)
  | date (hread : ∀ w ∈ ws, ∃ v, my_atoi w = .ok v) (y m d : ℤ) :
      Outcome t tags ws (.ok (set_time_from (stored_fields t y m d) tags))

section Outcomes

variable {t : tm} {tags : List (date_tag × List Char)}

/-- One number after the other. -/
theorem Outcome.bind {α : Type} {ws ws' : List (List Char)} {x : Except date_error α}
    {f : α → Except date_error tm} (hx : Reads ws x) (hf : ∀ v, Outcome t tags ws' (f v)) :
    Outcome t tags (ws ++ ws') (x >>= f) := by
  obtain ⟨⟨v, rfl⟩, hread⟩ | ⟨rfl, w, hw, hassert⟩ := hx
  · have hrest := hf v
    show Outcome t tags (ws ++ ws') (f v)
    generalize f v = result at hrest
    cases hrest with
    | assertion hassert =>
        obtain ⟨w, hw, hassert⟩ := hassert
        exact .assertion ⟨w, List.mem_append_right ws hw, hassert⟩
    | unidentified hread' he => exact .unidentified (List.forall_mem_append.mpr ⟨hread, hread'⟩) he
    | date hread' y m d => exact .date (List.forall_mem_append.mpr ⟨hread, hread'⟩) y m d
  · exact .assertion ⟨w, List.mem_append_left ws' hw, hassert⟩

theorem forall_not_nil {p : List Char → Prop} : ∀ w ∈ ([] : List (List Char)), p w :=
  fun _ hw => absurd hw List.not_mem_nil

/-- The year, the month and the day are given, and the time is set. -/
theorem outcome_given (y m d : ℤ) :
    Outcome t tags [] (do
      let t ← set_date t (some y) (some m) (some d) none none none
      .ok (set_time_from t tags)) :=
  .date forall_not_nil y m d

/-- The month is guessed, and the time is set. -/
theorem outcome_month (a b : ℤ) :
    Outcome t tags [] (do
      let t ← set_date t (some (-1)) none none (some a) (some b) none
      .ok (set_time_from t tags)) := by
  rw [set_date_month]
  split_ifs
  · exact .date forall_not_nil _ _ _
  · exact .date forall_not_nil _ _ _
  · exact .unidentified forall_not_nil (Or.inr rfl)

/-- The year is guessed, and the time is set. -/
theorem outcome_year (y m d : ℤ) :
    Outcome t tags [] (do
      let t ← set_date t none (some m) none (some y) (some d) none
      .ok (set_time_from t tags)) := by
  rw [set_date_year]
  split_ifs
  · exact .date forall_not_nil _ _ _
  · exact .date forall_not_nil _ _ _
  · exact .unidentified forall_not_nil (Or.inl rfl)

/-- The label `done`. -/
theorem outcome_done : Outcome t tags (atoi_arguments tags .done) (yylex_done t tags) := by
  have hyear : Reads (if pointer tags .ys ≠ pointer tags .ye then [between tags .ys .ye] else [])
      (done_year tags) := by
    unfold done_year
    split_ifs
    · exact my_atoi_reads _
    · exact reads_nil _
  have hmonth : Reads
      (if isdigit (deref ((pointer tags .ms).getD [])) then [between tags .ms .me] else [])
      (done_month tags) := by
    unfold done_month
    split_ifs
    · exact my_atoi_reads _
    · exact reads_nil _
  unfold yylex_done atoi_arguments
  rw [List.append_assoc]
  refine .bind hyear fun y => ?_
  refine .bind hmonth fun m => ?_
  refine .bind (my_atoi_reads _) fun d => ?_
  exact outcome_given y m d

end Outcomes

/-- **What comes of a match**, by its action. -/
theorem yylex_outcome {string r : List Char} {action : action_t}
    {tags : List (date_tag × List Char)}
    (hlex : lex rules (string ++ [NUL]) = some ((action, tags), r)) (t : tm) :
    action = .today ∧ yylex string t = .ok t
      ∨ action = .invalid ∧ yylex string t = .error .invalid_date
      ∨ Outcome t tags (atoi_arguments tags action) (yylex string t) := by
  unfold yylex atoi_arguments
  rw [hlex]
  cases action with
  | today => exact Or.inl ⟨rfl, rfl⟩
  | invalid => exact Or.inr (Or.inl ⟨rfl, rfl⟩)
  | done => exact Or.inr (Or.inr outcome_done)
  | month_day =>
      refine Or.inr (Or.inr ?_)
      by_cases hyear : pointer tags .ys ≠ pointer tags .ye
      · simp only [if_pos hyear]
        refine .bind (my_atoi_reads _) fun m => ?_
        refine .bind (my_atoi_reads _) fun d => ?_
        refine .bind (my_atoi_reads _) fun y => ?_
        exact outcome_given y m d
      · simp only [if_neg hyear]
        refine .bind (my_atoi_reads _) fun m => ?_
        refine .bind (my_atoi_reads _) fun d => ?_
        exact outcome_month m d
  | number_month_number =>
      refine Or.inr (Or.inr ?_)
      refine .bind (my_atoi_reads _) fun y => ?_
      refine .bind (my_atoi_reads _) fun m => ?_
      refine .bind (my_atoi_reads _) fun d => ?_
      exact outcome_year y m d
  | number_number =>
      refine Or.inr (Or.inr ?_)
      refine .bind (my_atoi_reads _) fun m => ?_
      refine .bind (my_atoi_reads _) fun d => ?_
      exact outcome_month m d

/-- **What comes of a date.** -/
theorem yylex_dated {string r : List Char} {rule : DatePattern × action_t}
    (hrule : rule ∈ dated_rules) {tags : List (date_tag × List Char)}
    (hlex : lex rules (string ++ [NUL]) = some ((rule.2, tags), r)) (t : tm) :
    Outcome t tags (atoi_arguments tags rule.2) (yylex string t) := by
  have hactions : ∀ rule ∈ dated_rules, rule.2 ≠ .today ∧ rule.2 ≠ .invalid := by
    simp [dated_rules]
  obtain ⟨htoday, hinvalid⟩ := hactions rule hrule
  obtain ⟨heq, -⟩ | ⟨heq, -⟩ | hout := yylex_outcome hlex t
  · exact absurd heq htoday
  · exact absurd heq hinvalid
  · exact hout

/-- What is accepted is read. -/
theorem read_of_ok {string r : List Char} {action : action_t} {tags : List (date_tag × List Char)}
    (hlex : lex rules (string ++ [NUL]) = some ((action, tags), r)) {t t' : tm}
    (h : yylex string t = .ok t') :
    ∀ w ∈ atoi_arguments tags action, ∃ v, my_atoi w = .ok v := by
  obtain ⟨rfl, -⟩ | ⟨-, heq⟩ | hout := yylex_outcome hlex t
  · exact forall_not_nil
  · rw [heq] at h
    exact absurd h (by simp)
  · rw [h] at hout
    cases hout with
    | date hread y m d => exact hread

end PkgPlugins.DateActions
