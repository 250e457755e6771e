/-
Dates whose month is written as a name, and what `parse_date`
(`plugins/history/date.re`) makes of them.

The names of months are in two tables: those that the lexer takes, and the array that
`month_value_from_name` searches. The second has every name and its first three letters,
the first lacks the abbreviation of March. `parse_date_month_name_iff` says that this is
the only date for which it matters how the month is written.
-/
import PkgPlugins.AsciiCase
import PkgPlugins.DateFields
import PkgPlugins.DateWhole

set_option autoImplicit false

namespace PkgPlugins.DateMonths

open PkgPlugins.Libc PkgPlugins.Calendar PkgPlugins.Lexer PkgPlugins.DateLexer PkgPlugins.Date
  PkgPlugins.DateText PkgPlugins.DateFields

/-! ## Characters as bytes -/

/-- The bytes of a text. -/
def bytes (w : List Char) : List UInt8 := w.map fun c => UInt8.ofNat c.toNat

/-- Where a character is a byte, its upper case is the one of the table. -/
theorem ascii_toupper_byte {c : Char} (hc : c.toNat < 256) :
    AsciiCase.ascii_toupper (UInt8.ofNat c.toNat).toNat = (ascii_toupper c).toNat := by
  have hall : ∀ n < 256, AsciiCase.ascii_toupper (UInt8.ofNat n).toNat
      = (ascii_toupper (Char.ofNat n)).toNat := by
    decide +kernel
  rw [hall c.toNat hc, Char.ofNat_toNat]

theorem upper_at_byte {c : Char} (hc : c.toNat < 256) (str : List UInt8) :
    AsciiCase.upper_at (UInt8.ofNat c.toNat :: str) = (ascii_toupper c).toNat :=
  ascii_toupper_byte hc

/-- The loop, on strings that begin with the bytes of two texts. -/
theorem strcasecmp_l_loop_bytes {w1 w2 : List Char} (h1 : ∀ c ∈ w1, c.toNat < 256)
    (h2 : ∀ c ∈ w2, c.toNat < 256) (str1 str2 : List UInt8) :
    (AsciiCase.strcasecmp_l_loop (min w1.length w2.length) (bytes w1 ++ str1)
        (bytes w2 ++ str2)).getD ((w1.length : ℤ) - w2.length) = ascii_strcasecmp_l w1 w2 := by
  induction w1 generalizing w2 with
  | nil =>
      rw [List.length_nil, Nat.zero_min]
      cases w2 <;> rfl
  | cons c1 w1 ih =>
      cases w2 with
      | nil => rfl
      | cons c2 w2 =>
          obtain ⟨hc1, hw1⟩ := List.forall_mem_cons.mp h1
          obtain ⟨hc2, hw2⟩ := List.forall_mem_cons.mp h2
          have hlengths : ((c1 :: w1).length : ℤ) - (c2 :: w2).length = w1.length - w2.length := by
            rw [List.length_cons, List.length_cons]
            omega
          rw [hlengths, List.length_cons, List.length_cons, Nat.succ_min_succ]
          unfold bytes AsciiCase.strcasecmp_l_loop ascii_strcasecmp_l
          rw [List.map_cons, List.map_cons, List.cons_append, List.cons_append,
            upper_at_byte hc1, upper_at_byte hc2]
          by_cases heq : ascii_toupper c1 = ascii_toupper c2
          · rw [if_neg (not_not_intro heq), if_neg (not_not_intro (by rw [heq]))]
            exact ih hw1 hw2
          · have hne : ((ascii_toupper c1).toNat : ℤ) ≠ (ascii_toupper c2).toNat :=
              fun h => heq (Char.toNat_inj.mp (Int.ofNat.inj h))
            rw [if_pos heq, if_pos hne]
            rfl

/-- **The comparison** is the one of `kissc/ascii_case.c`, given two different pointers to
the texts, which are shorter than an `int` can count, and their lengths. -/
theorem ascii_strcasecmp_l_bytes {p : AsciiCase.Pointers} {w1 w2 : List Char}
    (h1 : ∀ c ∈ w1, c.toNat < 256) (h2 : ∀ c ∈ w2, c.toNat < 256) (hsame : p.same = false)
    (hstr1 : bytes w1 <+: p.str1.bytes) (hstr2 : bytes w2 <+: p.str2.bytes)
    (hlen1 : w1.length < 2 ^ 31) (hlen2 : w2.length < 2 ^ 31) :
    AsciiCase.ascii_strcasecmp_l p w1.length w2.length = ascii_strcasecmp_l w1 w2 := by
  obtain ⟨str1, hstr1⟩ := hstr1
  obtain ⟨str2, hstr2⟩ := hstr2
  have hmin : (if w2.length < w1.length then w2.length else w1.length)
      = min w1.length w2.length := by
    split_ifs <;> omega
  have hwide : ((w1.length : ℤ) - w2.length).bmod (2 ^ 32) = w1.length - w2.length :=
    Int.bmod_eq_of_le (by omega) (by omega)
  unfold AsciiCase.ascii_strcasecmp_l
  simp only [hsame, Bool.not_false, if_true, hmin, hwide]
  rw [← hstr1, ← hstr2, strcasecmp_l_loop_bytes h1 h2]

/-! ## Letters in any case -/

theorem ascii_toupper_tolower (c : Char) : ascii_toupper (tolower c) = ascii_toupper c := by
  by_cases hupper : 65 ≤ c.toNat ∧ c.toNat ≤ 90
  · exact forall_upper (P := fun c => ascii_toupper (tolower c) = ascii_toupper c) (by decide)
      hupper
  · rw [tolower, if_neg hupper]

theorem map_ascii_toupper_of_tolower {w w' : List Char} (h : w.map tolower = w'.map tolower) :
    w.map ascii_toupper = w'.map ascii_toupper := by
  have hlower : ∀ u : List Char, u.map ascii_toupper = (u.map tolower).map ascii_toupper := by
    intro u
    rw [List.map_map]
    exact List.map_congr_left fun c _ => (ascii_toupper_tolower c).symm
  rw [hlower w, h, ← hlower w']

/-- The comparison doesn't see the case. -/
theorem ascii_strcasecmp_l_congr {w w' : List Char} (h : w.map ascii_toupper = w'.map ascii_toupper)
    (str2 : List Char) : ascii_strcasecmp_l w str2 = ascii_strcasecmp_l w' str2 := by
  induction w generalizing w' str2 with
  | nil =>
      rw [List.map_nil, eq_comm, List.map_eq_nil_iff] at h
      rw [h]
  | cons c w ih =>
      obtain ⟨c', v, rfl, hc, hv⟩ := List.map_eq_cons_iff.mp h.symm
      have hlen : w.length = v.length := by
        rw [← List.length_map (f := ascii_toupper), ← hv, List.length_map]
      cases str2 with
      | nil => simp [ascii_strcasecmp_l, hlen]
      | cons c2 str2 => rw [ascii_strcasecmp_l, ascii_strcasecmp_l, hc, ih hv.symm]

theorem month_value_from_name_congr {w w' : List Char} (h : w.map tolower = w'.map tolower) :
    month_value_from_name w = month_value_from_name w' := by
  unfold month_value_from_name
  simp only [ascii_strcasecmp_l_congr (map_ascii_toupper_of_tolower h)]

/-! ## Names of months -/

/-- The full name. -/
def full_name (m : Fin 12) : List Char := (month_full_names.getD m "").toList

/-- The name or its first three letters, in any case. -/
def Spells (name : List Char) (m : Fin 12) : Prop :=
  name.map tolower = (full_name m).map tolower
    ∨ name.map tolower = ((full_name m).take 3).map tolower

/-- `Mar`, in any case. -/
def IsMar (name : List Char) : Prop := name.map tolower = ['m', 'a', 'r']

/-- **The array** has the value of every name and abbreviation. -/
theorem month_value_from_name_of_spells {name : List Char} {m : Fin 12} (h : Spells name m) :
    month_value_from_name name = m + 1 := by
  have hall : ∀ m : Fin 12, month_value_from_name (full_name m) = m + 1
      ∧ month_value_from_name ((full_name m).take 3) = m + 1 := by
    decide +kernel
  obtain hfull | habbr := h
  · rw [month_value_from_name_congr hfull, (hall m).1]
  · rw [month_value_from_name_congr habbr, (hall m).2]

theorem mem_monthtext (w : List Char) :
    w ∈ monthtext.lang
      ↔ ∃ name ∈ month_full_names ++ month_abbr_names,
          w.map tolower = name.toList.map tolower := by
  have hnames : ∀ names : List String, w ∈ (oneOf (names.map literal)).lang
      ↔ ∃ name ∈ names, w.map tolower = name.toList.map tolower := by
    intro names
    rw [mem_lang_oneOf]
    simp [mem_literal]
  show w ∈ (oneOf (month_full_names.map literal)).lang
      ∨ w ∈ (oneOf (month_abbr_names.map literal)).lang ↔ _
  rw [hnames, hnames]
  simp [or_and_right, exists_or]

/-- **The lexer** has every name and abbreviation but one. -/
theorem mem_monthtext_of_spells {name : List Char} {m : Fin 12} (h : Spells name m) :
    name ∈ monthtext.lang ↔ ¬ IsMar name := by
  have hall : ∀ m : Fin 12, ∀ w ∈ [full_name m, (full_name m).take 3],
      (∃ name ∈ month_full_names ++ month_abbr_names,
          w.map tolower = name.toList.map tolower) ↔ w.map tolower ≠ ['m', 'a', 'r'] := by
    decide +kernel
  rw [mem_monthtext, IsMar]
  obtain hfull | habbr := h
  · rw [hfull]
    exact hall m _ List.mem_cons_self
  · rw [habbr]
    exact hall m _ (by simp)

/-- Names and abbreviations have letters only. -/
theorem spells_letters {name : List Char} {m : Fin 12} (h : Spells name m) :
    name ≠ [] ∧ ∀ c ∈ name, isletter c = true := by
  have hall : ∀ m : Fin 12, ∀ w ∈ [full_name m, (full_name m).take 3],
      w ≠ [] ∧ w.all isletter = true := by
    decide +kernel
  have hmap : ∀ w : List Char, name.map tolower = w.map tolower →
      (w ≠ [] ∧ w.all isletter = true) → name ≠ [] ∧ ∀ c ∈ name, isletter c = true := by
    rintro w hw ⟨hne, hletters⟩
    refine ⟨?_, fun c hc => ?_⟩
    · rintro rfl
      exact hne (List.map_eq_nil_iff.mp hw.symm)
    · have hmem : tolower c ∈ w.map tolower := hw ▸ List.mem_map_of_mem hc
      obtain ⟨c', hc', heq⟩ := List.mem_map.mp hmem
      rw [← isletter_caseBlind c' c heq]
      exact List.all_eq_true.mp hletters c' hc'
  obtain hfull | habbr := h
  · exact hmap _ hfull (hall m _ List.mem_cons_self)
  · exact hmap _ habbr (hall m _ (by simp))

/-! ## The first letters of a text -/

/-- The first run of letters. -/
def letters (s : List Char) : List Char :=
  (s.dropWhile fun c => !isletter c).takeWhile isletter

theorem letters_skip {w : List Char} (hw : ∀ c ∈ w, isletter c = false) (s : List Char) :
    letters (w ++ s) = letters s := by
  unfold letters
  rw [List.dropWhile_append_of_pos (by simpa using hw)]

theorem letters_run {w s : List Char} (hne : w ≠ []) (hw : ∀ c ∈ w, isletter c = true)
    (hs : ∀ c ∈ s.head?, isletter c = false) : letters (w ++ s) = w := by
  unfold letters
  obtain ⟨c, v, rfl⟩ := List.exists_cons_of_ne_nil hne
  have hc : isletter c = true := hw c List.mem_cons_self
  rw [List.cons_append, List.dropWhile_cons_of_neg (by simp [hc]), ← List.cons_append,
    List.takeWhile_append_of_pos hw]
  cases s with
  | nil => rw [List.takeWhile_nil, List.append_nil]
  | cons d s => rw [List.takeWhile_cons_of_neg (by simp [hs d rfl]), List.append_nil]

/-- The first letters of every word of a sequence. -/
def LettersIn (as : List DatePattern) (q : List Char → Prop) : Prop :=
  ∀ w ∈ (inSequence as).lang, q (letters w)

theorem lettersIn_cons {a : DatePattern} (ha : a.Within (fun c => isletter c = false))
    {as : List DatePattern} {q : List Char → Prop} (h : LettersIn as q) :
    LettersIn (a :: as) q := by
  rintro _ ⟨u, hu, v, hv, rfl⟩
  rw [letters_skip (ha.forall_mem hu)]
  exact h v hv

theorem lettersIn_tag_cons {t : date_tag} {as : List DatePattern} {q : List Char → Prop}
    (h : LettersIn as q) : LettersIn (.tag t :: as) q :=
  lettersIn_cons (a := .tag t) trivial h

theorem monthtext_within : monthtext.Within (fun c => isletter c = true) :=
  ⟨literals_within isletter_caseBlind (by decide +kernel),
    literals_within isletter_caseBlind (by decide +kernel)⟩

/-- A month is the first letters, if no letters come behind it. -/
theorem lettersIn_monthtext {as : List DatePattern}
    (h : (inSequence as).Starts (fun c => isletter c = false)) :
    LettersIn (monthtext :: as) (· ∈ monthtext.lang) := by
  rintro _ ⟨u, hu, v, hv, rfl⟩
  have hne : u ≠ [] := by
    rintro rfl
    rw [Pattern.nil_mem_lang_iff, monthtext_starts.2] at hu
    exact absurd hu (by simp)
  rw [letters_run hne (monthtext_within.forall_mem hu) (h.head hv)]
  exact hu

/-- What the letters are where no month is written. -/
def NoMonth (w : List Char) : Prop := w = [] ∨ w ∈ am_pm.lang

theorem noMonth_not_month {w : List Char} (h : NoMonth w) : w ∉ monthtext.lang := by
  rw [mem_monthtext]
  rintro ⟨name, hname, hw⟩
  have hall : ∀ name ∈ month_full_names ++ month_abbr_names,
      ∀ u ∈ ([[], ['a', 'm'], ['p', 'm']] : List (List Char)), u ≠ name.toList.map tolower := by
    decide +kernel
  obtain rfl | ham | hpm := h
  · exact hall name hname [] (by simp) hw
  · rw [(mem_literal _ _).mp ham] at hw
    exact hall name hname ['a', 'm'] (by simp) hw
  · rw [(mem_literal _ _).mp hpm] at hw
    exact hall name hname ['p', 'm'] (by simp) hw

theorem noMonth_not_mar {w : List Char} (h : NoMonth w) : ¬ IsMar w := by
  unfold IsMar
  obtain rfl | ham | hpm := h
  · exact List.cons_ne_nil _ _ ∘ Eq.symm
  · rw [(mem_literal _ _).mp ham]
    decide
  · rw [(mem_literal _ _).mp hpm]
    decide

theorem no_letter_of_digits {a : DatePattern} (h : a.Within (fun c => isdigit c = true)) :
    a.Within (fun c => isletter c = false) :=
  h.mono fun _ => isletter_of_isdigit

theorem no_letter_of_between {a : DatePattern} (h : a.Within Between) :
    a.Within (fun c => isletter c = false) :=
  h.mono fun _ hc => hc.2

theorem am_pm_within : am_pm.Within (fun c => isletter c = true) :=
  ⟨literal_within isletter_caseBlind (by decide), literal_within isletter_caseBlind (by decide)⟩

theorem am_pm_ne_nil {w : List Char} (hw : w ∈ am_pm.lang) : w ≠ [] := by
  rintro rfl
  rw [Pattern.nil_mem_lang_iff, am_pm_starts.2] at hw
  exact absurd hw (by simp)

/-- Only the half of the day is written in letters. -/
theorem lettersIn_end : LettersIn [maybe_with_time, eos] NoMonth := by
  have hms : minute_second.Within (fun c => isletter c = false) :=
    minute_second_within (fun _ => isletter_of_isdigit) (by decide)
  have hnul : ∀ c ∈ [NUL], isletter c = false := List.forall_mem_singleton.mpr (by decide)
  rintro _ ⟨u, hu, _, ⟨_, ⟨c, hc, rfl⟩, _, rfl, rfl⟩, rfl⟩
  rw [List.append_nil, of_decide_eq_true hc]
  obtain ⟨blanks, hblanks, _, ⟨_, rfl, _, ⟨t, ht, _, rfl, rfl⟩, rfl⟩, rfl⟩ | rfl := hu
  · rw [List.nil_append, List.append_nil, List.append_assoc,
      letters_skip ((no_letter_of_between whitespaces_within).forall_mem hblanks)]
    obtain ht | ht := ht
    · obtain ⟨h, hh, _, ⟨ms, hms', _, ⟨b, hb, _, ⟨ap, hap, _, rfl, rfl⟩, rfl⟩, rfl⟩, rfl⟩ := ht
      simp only [List.append_assoc, List.append_nil]
      rw [letters_skip ((no_letter_of_digits h12_within).forall_mem hh),
        letters_skip (hms.forall_mem hms'),
        letters_skip ((no_letter_of_between maybe_whitespaces_within).forall_mem hb),
        letters_run (am_pm_ne_nil hap) (am_pm_within.forall_mem hap) (by simpa using hnul)]
      exact Or.inr hap
    · have hnone : time24.Within (fun c => isletter c = false) :=
        ⟨no_letter_of_digits h24_within, hms, trivial⟩
      rw [letters_skip (hnone.forall_mem ht)]
      exact Or.inl rfl
  · exact Or.inl rfl

theorem lettersIn_year_or_end : LettersIn [maybe_year, maybe_with_time, eos] NoMonth := by
  refine lettersIn_cons ?_ lettersIn_end
  exact ⟨⟨no_letter_of_between date_separator_within, trivial,
    no_letter_of_digits year_takesDigits.within, trivial, trivial⟩, trivial⟩

/-- A field and what separates it from the next. -/
theorem lettersIn_field {a b : DatePattern} (ha : a.Within (fun c => isdigit c = true))
    (hb : b.Within Between) (t t' : date_tag) {as : List DatePattern} {q : List Char → Prop}
    (h : LettersIn as q) : LettersIn (.tag t :: a :: .tag t' :: b :: as) q := by
  refine lettersIn_tag_cons ?_
  refine lettersIn_cons (no_letter_of_digits ha) ?_
  refine lettersIn_tag_cons ?_
  exact lettersIn_cons (no_letter_of_between hb) h

theorem lettersIn_last_field {a : DatePattern} (ha : a.Within (fun c => isdigit c = true))
    (t t' : date_tag) {as : List DatePattern} {q : List Char → Prop}
    (h : LettersIn as q) : LettersIn (.tag t :: a :: .tag t' :: as) q := by
  refine lettersIn_tag_cons ?_
  refine lettersIn_cons (no_letter_of_digits ha) ?_
  exact lettersIn_tag_cons h

/-! ## Which rules have a month in letters -/

/-- The rules of dates in digits. -/
def digit_rules : List DatePattern :=
  [rule_year_month_day, rule_month_day, rule_number_month_number, rule_number_number]

/-- The rules of dates with the name of a month. -/
def name_rules : List DatePattern :=
  [rule_year_monthtext_day, rule_monthtext_day, rule_day_monthtext]

theorem mem_dated_rules {rule : DatePattern × action_t} (h : rule ∈ DateWhole.dated_rules) :
    rule.1 ∈ digit_rules ∨ rule.1 ∈ name_rules := by
  revert rule
  simp [DateWhole.dated_rules, digit_rules, name_rules]

theorem letters_of_digit_rule {a : DatePattern} (ha : a ∈ digit_rules) :
    ∀ w ∈ a.lang, NoMonth (letters w) := by
  have hsep := date_separator_within
  have hyyyy := yyyy_takesDigits.within
  have hmonth := month_takesDigits.within
  have hday := day_takesDigits.within
  have hnumber := DateWhole.number_takesDigits.within
  simp only [digit_rules, List.mem_cons, List.not_mem_nil, or_false] at ha
  obtain rfl | rfl | rfl | rfl := ha
  · refine lettersIn_field hyyyy hsep _ _ ?_
    refine lettersIn_field hmonth hsep _ _ ?_
    exact lettersIn_last_field hday _ _ lettersIn_end
  · refine lettersIn_field hmonth hsep _ _ ?_
    exact lettersIn_last_field hday _ _ lettersIn_year_or_end
  · refine lettersIn_field hnumber hsep _ _ ?_
    refine lettersIn_field hmonth hsep _ _ ?_
    exact lettersIn_last_field hnumber _ _ lettersIn_end
  · -- a second number is there or not
    have hmaybe : (maybe number).Within (fun c => isletter c = false) :=
      ⟨no_letter_of_digits hnumber, trivial⟩
    refine lettersIn_tag_cons ?_
    refine lettersIn_cons (no_letter_of_digits hnumber) ?_
    refine lettersIn_cons hmaybe ?_
    refine lettersIn_tag_cons ?_
    refine lettersIn_cons (no_letter_of_between hsep) ?_
    refine lettersIn_tag_cons ?_
    refine lettersIn_cons (no_letter_of_digits hnumber) ?_
    refine lettersIn_cons hmaybe ?_
    exact lettersIn_tag_cons lettersIn_end

theorem letters_of_name_rule {a : DatePattern} (ha : a ∈ name_rules) :
    ∀ w ∈ a.lang, letters w ∈ monthtext.lang := by
  simp only [name_rules, List.mem_cons, List.not_mem_nil, or_false] at ha
  obtain rfl | rfl | rfl := ha
  · refine lettersIn_field yyyy_takesDigits.within whitespaces_within _ _ ?_
    refine lettersIn_tag_cons ?_
    refine lettersIn_monthtext ?_
    apply starts_tag_cons
    exact starts_cons (no_letter_of_between whitespaces_within).starts rfl _
  · refine lettersIn_tag_cons ?_
    refine lettersIn_monthtext ?_
    apply starts_tag_cons
    exact starts_cons (no_letter_of_between whitespaces_within).starts rfl _
  · refine lettersIn_field day_takesDigits.within maybe_whitespaces_within _ _ ?_
    refine lettersIn_tag_cons ?_
    refine lettersIn_monthtext ?_
    apply starts_tag_cons
    exact year_or_end_starts.mono fun c hc => hc.2

/-! ## Fields and separators -/

/-- A digit or a letter. -/
def isfield (c : Char) : Bool := isdigit c || isletter c

/-- A pattern that takes one or more characters of a class, digits or letters. -/
structure Field (p : Char → Bool) (a : DatePattern) : Prop where
  tagless : a.tagless = true
  within : a.Within (fun c => p c = true)
  nullable : a.nullable = false
  isfield : ∀ c, p c = true → isfield c = true

theorem field_of_takesDigits {a : DatePattern} (h : TakesDigits true a) : Field isdigit a :=
  ⟨h.tagless, h.within, h.nullable, fun c hc => by rw [isfield, hc]; rfl⟩

theorem monthtext_field : Field isletter monthtext :=
  ⟨rfl, monthtext_within, monthtext_starts.2, fun c hc => by rw [isfield, hc, Bool.or_true]⟩

theorem isfield_of_between {c : Char} (h : Between c) : isfield c = false := by
  rw [isfield, h.1, h.2]
  rfl

theorem Field.apart {p : Char → Bool} {a : DatePattern} (ha : Field p a) {c : Char}
    (h : Between c) : p c = false := by
  rw [Bool.eq_false_iff]
  intro hc
  have hfield := ha.isfield c hc
  rw [isfield_of_between h] at hfield
  exact absurd hfield (by simp)

theorem Field.head {p : Char → Bool} {a : DatePattern} (ha : Field p a) {w : List Char}
    (hw : w ∈ a.lang) (s : List Char) : ∀ c ∈ (w ++ s).head?, p c = true := by
  obtain ⟨d, v, rfl, hd⟩ := ha.within.starts.cons ha.nullable hw
  intro c hc
  obtain rfl : d = c := by simpa using hc
  exact hd

/-- What separates two fields; it may be missing where the second is of another class. -/
structure Separator (p p' : Char → Bool) (b : DatePattern) : Prop where
  tagless : b.tagless = true
  within : b.Within Between
  apart : b.nullable = false ∨ ∀ c, p' c = true → p c = false

theorem whitespaces_separator (p p' : Char → Bool) : Separator p p' whitespaces :=
  ⟨rfl, whitespaces_within, Or.inl rfl⟩

theorem date_separator_separator (p p' : Char → Bool) : Separator p p' date_separator :=
  ⟨rfl, date_separator_within, Or.inl rfl⟩

theorem maybe_whitespaces_separator : Separator isdigit isletter maybe_whitespaces :=
  ⟨rfl, maybe_whitespaces_within, Or.inr fun _ => isdigit_of_isletter⟩

section Fields

variable {p p' : Char → Bool} {a a' b : DatePattern}

/-- **A field and a separator** before a field. -/
theorem mem_parses_field_separator (ha : Field p a) (hb : Separator p p' b) (ha' : Field p' a')
    {w u w' : List Char} (hw : w ∈ a.lang) (hu : u ∈ b.lang) (hw' : w' ∈ a'.lang)
    (t t' t'' : date_tag) (as : List DatePattern) (s : List Char)
    (tags : List (date_tag × List Char)) (r : List Char) :
    (tags, r) ∈ (inSequence (.tag t :: a :: .tag t' :: b :: .tag t'' :: a' :: as)).parses
        (w ++ (u ++ (w' ++ s)))
      ↔ ∃ rest, tags = (t, w ++ (u ++ (w' ++ s))) :: (t', u ++ (w' ++ s)) :: rest
          ∧ (rest, r) ∈ (inSequence (.tag t'' :: a' :: as)).parses (w' ++ s) := by
  have hseparator : b.Within (fun c => (!isfield c) = true) :=
    hb.within.mono fun c hc => by rw [isfield_of_between hc]; rfl
  have hnull : (inSequence (.tag t'' :: a' :: as)).nullable = false := by
    show (true && (a'.nullable && _)) = false
    rw [ha'.nullable]
    rfl
  have hnull' : (inSequence (b :: .tag t'' :: a' :: as)).nullable = false := by
    rw [inSequence, Pattern.nullable, hnull, Bool.and_false]
  have hstarts : (inSequence (.tag t'' :: a' :: as)).Starts (fun c => (!isfield c) = false) := by
    apply starts_tag_cons
    apply starts_cons _ ha'.nullable
    exact (ha'.within.mono fun c hc => by rw [ha'.isfield c hc]; rfl).starts
  -- the separator is there, or the second field is of another class
  have hafter : (inSequence (b :: .tag t'' :: a' :: as)).Starts (fun c => p c = false)
      ∧ ∀ c ∈ (u ++ (w' ++ s)).head?, p c = false := by
    have hbetween : b.Starts (fun c => p c = false) :=
      (hb.within.mono fun c hc => ha.apart hc).starts
    obtain hthere | hclass := hb.apart
    · refine ⟨starts_cons hbetween hthere _, ?_⟩
      obtain ⟨d, v, rfl, hd⟩ := hbetween.cons hthere hu
      intro c hc
      obtain rfl : d = c := by simpa using hc
      exact hd
    · refine ⟨starts_cons_of_starts hbetween (starts_tag_cons t'' (starts_cons
        (ha'.within.mono hclass).starts ha'.nullable _)), ?_⟩
      cases u with
      | nil => exact fun c hc => hclass c (ha'.head hw' s c hc)
      | cons d v =>
          intro c hc
          obtain rfl : d = c := by simpa using hc
          exact hbetween.head hu d rfl
  rw [mem_parses_field ha.tagless ha.within hafter.1 hnull' hw hafter.2]
  simp only [mem_parses_cons_of_class hb.tagless hseparator hstarts hnull hu
    (fun c hc => by rw [ha'.isfield c (ha'.head hw' s c hc)]; rfl)]

/-- The last field. -/
theorem mem_parses_last_field (ha : Field p a) {w : List Char} (hw : w ∈ a.lang)
    {as : List DatePattern} (has : (inSequence as).Starts Between)
    (hnull : (inSequence as).nullable = false) {s : List Char} (hs : ∀ c ∈ s.head?, Between c)
    (t t' : date_tag) (tags : List (date_tag × List Char)) (r : List Char) :
    (tags, r) ∈ (inSequence (.tag t :: a :: .tag t' :: as)).parses (w ++ s)
      ↔ ∃ rest, tags = (t, w ++ s) :: (t', s) :: rest ∧ (rest, r) ∈ (inSequence as).parses s :=
  mem_parses_field ha.tagless ha.within (has.mono fun _ hc => ha.apart hc) hnull hw
    (fun c hc => ha.apart (hs c hc)) t t' tags r

end Fields

/-! ## The matches of the rules -/

/-- What the tags record where the year comes last: the first word is in its place
between the first two tags. -/
def year_last_tags (first last first' last' : date_tag) (w b w' sep yd tail : List Char) :
    List (date_tag × List Char) :=
  [ (first, w ++ (b ++ (w' ++ (sep ++ (yd ++ tail))))),
    (last, b ++ (w' ++ (sep ++ (yd ++ tail)))),
    (first', w' ++ (sep ++ (yd ++ tail))),
    (last', sep ++ (yd ++ tail)),
    (.ys, yd ++ tail),
    (.ye, tail) ]

section Rules

variable {yd md dd : List Char} (hyd : yd ∈ yyyy.lang) (hmd : md ∈ monthtext.lang)
  (hdd : dd ∈ day.lang) (t : Suffix) (tags : List (date_tag × List Char)) (r : List Char)

include hyd hmd hdd

/-- **A year, a name and a day.** -/
theorem mem_parses_year_monthtext_day {b₁ b₂ : List Char} (hb₁ : b₁ ∈ whitespaces.lang)
    (hb₂ : b₂ ∈ whitespaces.lang) :
    (tags, r) ∈ rule_year_monthtext_day.parses
        (yd ++ (b₁ ++ (md ++ (b₂ ++ (dd ++ (t.text ++ [NUL]))))))
      ↔ tags = date_tags yd b₁ md b₂ dd (t.text ++ [NUL]) ++ t.tags ∧ r = [] := by
  have hyear := field_of_takesDigits yyyy_takesDigits
  have hday := field_of_takesDigits day_takesDigits
  unfold rule_year_monthtext_day
  simp only [
    mem_parses_field_separator hyear (whitespaces_separator _ _) monthtext_field hyd hb₁ hmd,
    mem_parses_field_separator monthtext_field (whitespaces_separator _ _) hday hmd hb₂ hdd,
    mem_parses_last_field hday hdd end_starts rfl (suffix_head t), mem_parses_suffix]
  constructor
  · rintro ⟨_, rfl, _, rfl, _, rfl, rfl, rfl⟩
    exact ⟨rfl, rfl⟩
  · rintro ⟨rfl, rfl⟩
    exact ⟨_, rfl, _, rfl, _, rfl, rfl, rfl⟩

/-- **A name, a day and a year.** -/
theorem mem_parses_monthtext_day {b sep : List Char} (hb : b ∈ whitespaces.lang)
    (hsep : sep ∈ date_separator.lang) :
    (tags, r) ∈ rule_monthtext_day.parses
        (md ++ (b ++ (dd ++ (sep ++ (yd ++ (t.text ++ [NUL]))))))
      ↔ tags = year_last_tags .ms .me .ds .de md b dd sep yd (t.text ++ [NUL]) ++ t.tags
        ∧ r = [] := by
  have hday := field_of_takesDigits day_takesDigits
  unfold rule_monthtext_day
  simp only [mem_parses_field_separator monthtext_field (whitespaces_separator _ _) hday hmd hb hdd,
    mem_parses_last_field hday hdd year_or_end_starts rfl
      (head_of_between date_separator_within rfl hsep _),
    mem_parses_year_suffix hsep hyd]
  constructor
  · rintro ⟨_, rfl, _, rfl, rfl, rfl⟩
    exact ⟨rfl, rfl⟩
  · rintro ⟨rfl, rfl⟩
    exact ⟨_, rfl, _, rfl, rfl, rfl⟩

/-- **A day, a name and a year.** -/
theorem mem_parses_day_monthtext {b sep : List Char} (hb : b ∈ maybe_whitespaces.lang)
    (hsep : sep ∈ date_separator.lang) :
    (tags, r) ∈ rule_day_monthtext.parses
        (dd ++ (b ++ (md ++ (sep ++ (yd ++ (t.text ++ [NUL]))))))
      ↔ tags = year_last_tags .ds .de .ms .me dd b md sep yd (t.text ++ [NUL]) ++ t.tags
        ∧ r = [] := by
  have hday := field_of_takesDigits day_takesDigits
  unfold rule_day_monthtext
  simp only [mem_parses_field_separator hday maybe_whitespaces_separator monthtext_field hdd hb hmd,
    mem_parses_last_field monthtext_field hmd year_or_end_starts rfl
      (head_of_between date_separator_within rfl hsep _),
    mem_parses_year_suffix hsep hyd]
  constructor
  · rintro ⟨_, rfl, _, rfl, rfl, rfl⟩
    exact ⟨rfl, rfl⟩
  · rintro ⟨rfl, rfl⟩
    exact ⟨_, rfl, _, rfl, rfl, rfl⟩

end Rules

/-- **A year, a month and a day**, in digits. -/
theorem mem_parses_year_month_day {yd md dd sep₁ sep₂ : List Char} (hyd : yd ∈ yyyy.lang)
    (hsep₁ : sep₁ ∈ date_separator.lang) (hmd : md ∈ month.lang)
    (hsep₂ : sep₂ ∈ date_separator.lang) (hdd : dd ∈ day.lang) (t : Suffix)
    (tags : List (date_tag × List Char)) (r : List Char) :
    (tags, r) ∈ rule_year_month_day.parses
        (yd ++ (sep₁ ++ (md ++ (sep₂ ++ (dd ++ (t.text ++ [NUL]))))))
      ↔ tags = date_tags yd sep₁ md sep₂ dd (t.text ++ [NUL]) ++ t.tags ∧ r = [] := by
  have hyear := field_of_takesDigits yyyy_takesDigits
  have hmonth := field_of_takesDigits month_takesDigits
  have hday := field_of_takesDigits day_takesDigits
  unfold rule_year_month_day
  simp only [mem_parses_field_separator hyear (date_separator_separator _ _) hmonth hyd hsep₁ hmd,
    mem_parses_field_separator hmonth (date_separator_separator _ _) hday hmd hsep₂ hdd,
    mem_parses_last_field hday hdd end_starts rfl (suffix_head t), mem_parses_suffix]
  constructor
  · rintro ⟨_, rfl, _, rfl, _, rfl, rfl, rfl⟩
    exact ⟨rfl, rfl⟩
  · rintro ⟨rfl, rfl⟩
    exact ⟨_, rfl, _, rfl, _, rfl, rfl, rfl⟩

/-! ## Dates with the name of a month -/

/-- A date with a year of four digits and the name of a month, and maybe a time. -/
structure named_date where
  year : Word yyyy
  month : Fin 12
  name : List Char
  spells : Spells name month
  day : Word day
  time : Suffix

/-- How the date is written: `YYYY Month D`, `Month D<sep>YYYY` or `D Month<sep>YYYY`. -/
inductive named_form
  | year_first (b₁ b₂ : Word whitespaces)
  | month_first (b : Word whitespaces) (sep : Word date_separator)
  | day_first (b : Word maybe_whitespaces) (sep : Word date_separator)

/-- The text, with `rest` behind it. -/
def named_date.text_before (d : named_date) (rest : List Char) : named_form → List Char
  | .year_first b₁ b₂ =>
      d.year.1 ++ (b₁.1 ++ (d.name ++ (b₂.1 ++ (d.day.1 ++ (d.time.text ++ rest)))))
  | .month_first b sep =>
      d.name ++ (b.1 ++ (d.day.1 ++ (sep.1 ++ (d.year.1 ++ (d.time.text ++ rest)))))
  | .day_first b sep =>
      d.day.1 ++ (b.1 ++ (d.name ++ (sep.1 ++ (d.year.1 ++ (d.time.text ++ rest)))))

def named_date.text (d : named_date) (form : named_form) : List Char := d.text_before [] form

/-- The same date as `YYYY-MM-DD`, with the same time. -/
def named_date.in_digits (d : named_date) : List Char :=
  d.year.1 ++ (['-'] ++ (pad2 (d.month + 1) ++ (['-'] ++ (pad2 (digitsVal d.day.1)
    ++ d.time.text))))

theorem named_date.text_append (d : named_date) (form : named_form) (rest : List Char) :
    d.text form ++ rest = d.text_before rest form := by
  unfold named_date.text
  cases form <;> simp [named_date.text_before]

theorem named_date.no_nul (d : named_date) (form : named_form) : NUL ∉ d.text form := by
  have hyear : NUL ∉ d.year.1 := fun h =>
    not_nul_of_isdigit (yyyy_takesDigits.within.forall_mem d.year.2 NUL h) rfl
  have hday : NUL ∉ d.day.1 := fun h =>
    not_nul_of_isdigit (day_takesDigits.within.forall_mem d.day.2 NUL h) rfl
  have hname : NUL ∉ d.name := fun h =>
    absurd ((spells_letters d.spells).2 NUL h) (by decide)
  have hblanks : ∀ b : Word whitespaces, NUL ∉ b.1 := fun b h =>
    whitespaces_no_nul.forall_mem b.2 NUL h rfl
  have hmaybe : ∀ b : Word maybe_whitespaces, NUL ∉ b.1 := fun b h =>
    maybe_whitespaces_no_nul.forall_mem b.2 NUL h rfl
  have hsep : ∀ b : Word date_separator, NUL ∉ b.1 := fun b h =>
    date_separator_no_nul.forall_mem b.2 NUL h rfl
  unfold named_date.text
  cases form with
  | year_first b₁ b₂ =>
      simp [named_date.text_before, hyear, hday, hname, hblanks, suffix_no_nul d.time]
  | month_first b sep =>
      simp [named_date.text_before, hyear, hday, hname, hblanks, hsep, suffix_no_nul d.time]
  | day_first b sep =>
      simp [named_date.text_before, hyear, hday, hname, hmaybe, hsep, suffix_no_nul d.time]

/-- **The first letters** are the name of the month. -/
theorem named_date.letters_text (d : named_date) (form : named_form) :
    letters (d.text form ++ [NUL]) = d.name := by
  have hyear : ∀ c ∈ d.year.1, isletter c = false :=
    (no_letter_of_digits yyyy_takesDigits.within).forall_mem d.year.2
  have hday : ∀ c ∈ d.day.1, isletter c = false :=
    (no_letter_of_digits day_takesDigits.within).forall_mem d.day.2
  obtain ⟨hne, hletters⟩ := spells_letters d.spells
  have hrun : ∀ s : List Char, (∀ c ∈ s.head?, Between c) → letters (d.name ++ s) = d.name :=
    fun s hs => letters_run hne hletters fun c hc => (hs c hc).2
  rw [d.text_append]
  cases form with
  | year_first b₁ b₂ =>
      have hb₁ := (no_letter_of_between whitespaces_within).forall_mem b₁.2
      rw [named_date.text_before, letters_skip hyear, letters_skip hb₁]
      exact hrun _ (head_of_between whitespaces_within rfl b₂.2 _)
  | month_first b sep => exact hrun _ (head_of_between whitespaces_within rfl b.2 _)
  | day_first b sep =>
      have hb := (no_letter_of_between maybe_whitespaces_within).forall_mem b.2
      rw [named_date.text_before, letters_skip hday, letters_skip hb]
      exact hrun _ (head_of_between date_separator_within rfl sep.2 _)

/-! ## The rule of a date -/

theorem not_matched {rule : DatePattern × action_t} (hrule : rule ∈ DateWhole.dated_rules)
    {s : List Char} (hs : NUL ∉ s) (h : s ++ [NUL] ∉ rule.1.lang) :
    rule.1.parses (s ++ [NUL]) = [] := by
  rw [List.eq_nil_iff_forall_not_mem]
  rintro ⟨tags, r⟩ hmatch
  exact h (DateWhole.dated_match_whole hrule (s := ⟨s, hs⟩) hmatch)

theorem today_not_matched {s : List Char} (hs : ∀ c ∈ s.head?, DateWhole.NotT c) :
    rule_today.parses s = [] := by
  rw [List.eq_nil_iff_forall_not_mem]
  rintro ⟨tags, r⟩ h
  obtain ⟨w, hw, rfl⟩ := rule_today.parses_sound h
  obtain ⟨-, -, c, v, rfl, hc⟩ := DateWhole.mem_today hw
  exact hs c rfl hc

/-- No name of a month starts with a `t`. -/
theorem spells_notT {name : List Char} {m : Fin 12} (h : Spells name m) :
    ∀ c ∈ name.head?, DateWhole.NotT c := by
  have hall : ∀ m : Fin 12, ∀ w ∈ [full_name m, (full_name m).take 3],
      (w.map tolower).head? ≠ some 't' := by
    decide +kernel
  intro c hc ht
  have hhead : (name.map tolower).head? = some 't' := by
    rw [List.head?_map, Option.mem_def.mp hc, Option.map_some, ht]
  obtain hfull | habbr := h
  · rw [hfull] at hhead
    exact hall m _ List.mem_cons_self hhead
  · rw [habbr] at hhead
    exact hall m _ (by simp) hhead

/-- So the rule `'today'` doesn't match. -/
theorem named_date.rule_today_not_matched (d : named_date) (form : named_form) :
    rule_today.parses (d.text form ++ [NUL]) = [] := by
  have hname : ∀ s : List Char, ∀ c ∈ (d.name ++ s).head?, DateWhole.NotT c := by
    obtain ⟨e, v, heq⟩ := List.exists_cons_of_ne_nil (spells_letters d.spells).1
    intro s c hc
    rw [heq] at hc
    obtain rfl : e = c := by simpa using hc
    exact spells_notT d.spells e (by rw [heq]; rfl)
  have hdigits : ∀ {a : DatePattern} (_ : Field isdigit a) (w : Word a) (s : List Char),
      ∀ c ∈ (w.1 ++ s).head?, DateWhole.NotT c := by
    intro a ha w s c hc
    exact DateWhole.notT_of_isdigit (ha.head w.2 s c hc)
  apply today_not_matched
  rw [d.text_append]
  cases form with
  | year_first b₁ b₂ => exact hdigits (field_of_takesDigits yyyy_takesDigits) d.year _
  | month_first b sep => exact hname _
  | day_first b sep => exact hdigits (field_of_takesDigits day_takesDigits) d.day _

/-- What the tags record. -/
def named_date.tags (d : named_date) : named_form → List (date_tag × List Char)
  | .year_first b₁ b₂ =>
      date_tags d.year.1 b₁.1 d.name b₂.1 d.day.1 (d.time.text ++ [NUL]) ++ d.time.tags
  | .month_first b sep =>
      year_last_tags .ms .me .ds .de d.name b.1 d.day.1 sep.1 d.year.1 (d.time.text ++ [NUL])
        ++ d.time.tags
  | .day_first b sep =>
      year_last_tags .ds .de .ms .me d.day.1 b.1 d.name sep.1 d.year.1 (d.time.text ++ [NUL])
        ++ d.time.tags

theorem lex_year_first (d : named_date) (hname : d.name ∈ monthtext.lang)
    (b₁ b₂ : Word whitespaces) :
    lex rules (d.text (.year_first b₁ b₂) ++ [NUL])
      = some ((.done, d.tags (.year_first b₁ b₂)), []) := by
  have hrules : rules
      = [(rule_today, .today)] ++ (rule_year_monthtext_day, .done) :: rules.drop 2 := rfl
  rw [hrules]
  apply lex_eq_of_iff
  · rw [List.forall_mem_singleton]
    exact d.rule_today_not_matched (.year_first b₁ b₂)
  · intro tags r
    rw [d.text_append]
    exact mem_parses_year_monthtext_day d.year.2 hname d.day.2 d.time tags r b₁.2 b₂.2

/-- A rule that starts with a number doesn't match a text that starts with a letter, nor
the other way round. -/
theorem not_mem_of_starts {p : Char → Bool} {a : DatePattern} (ha : a.Starts (fun c => p c = true))
    (hnull : a.nullable = false) {s : List Char} (hs : ∀ c ∈ s.head?, p c = false) :
    s ∉ a.lang := by
  intro hmem
  obtain ⟨c, v, rfl, hc⟩ := ha.cons hnull hmem
  rw [hs c rfl] at hc
  exact absurd hc (by simp)

theorem lex_month_first (d : named_date) (hname : d.name ∈ monthtext.lang) (b : Word whitespaces)
    (sep : Word date_separator) :
    lex rules (d.text (.month_first b sep) ++ [NUL])
      = some ((.done, d.tags (.month_first b sep)), []) := by
  have hrules : rules = [(rule_today, .today), (rule_year_monthtext_day, .done),
      (rule_year_month_day, .done), (rule_month_day, .month_day)]
      ++ (rule_monthtext_day, .done) :: rules.drop 5 := rfl
  have hhead : ∀ c ∈ (d.text (.month_first b sep) ++ [NUL]).head?, isletter c = true := by
    rw [d.text_append]
    exact monthtext_field.head hname _
  have hdigit : ∀ c ∈ (d.text (.month_first b sep) ++ [NUL]).head?, isdigit c = false :=
    fun c hc => isdigit_of_isletter (hhead c hc)
  have hyyyy := yyyy_takesDigits.within.starts
  have hnot := d.no_nul (.month_first b sep)
  rw [hrules]
  apply lex_eq_of_iff
  · simp only [List.mem_cons, List.not_mem_nil, or_false]
    rintro rule (rfl | rfl | rfl | rfl)
    · exact d.rule_today_not_matched (.month_first b sep)
    · apply not_matched (by simp [DateWhole.dated_rules]) hnot
      obtain ⟨hstarts, hnull⟩ := DateWhole.tagged_starts hyyyy rfl .ys _
      exact not_mem_of_starts hstarts hnull hdigit
    · apply not_matched (by simp [DateWhole.dated_rules]) hnot
      obtain ⟨hstarts, hnull⟩ := DateWhole.tagged_starts hyyyy rfl .ys _
      exact not_mem_of_starts hstarts hnull hdigit
    · apply not_matched (by simp [DateWhole.dated_rules]) hnot
      obtain ⟨hstarts, hnull⟩ := DateWhole.tagged_starts month_takesDigits.within.starts rfl .ms _
      exact not_mem_of_starts hstarts hnull hdigit
  · intro tags r
    rw [d.text_append]
    exact mem_parses_monthtext_day d.year.2 hname d.day.2 d.time tags r b.2 sep.2

/-- What comes behind the day, if the month does. -/
theorem named_date.after_day (d : named_date) (b : Word maybe_whitespaces)
    (s : List Char) : ∀ c ∈ (b.1 ++ (d.name ++ s)).head?, isdigit c = false := by
  obtain ⟨hne, hletters⟩ := spells_letters d.spells
  obtain ⟨b, hb⟩ := b
  cases b with
  | nil =>
      obtain ⟨e, v, heq⟩ := List.exists_cons_of_ne_nil hne
      intro c hc
      dsimp only at hc
      rw [heq] at hc
      obtain rfl : e = c := by simpa using hc
      exact isdigit_of_isletter (hletters e (by simp [heq]))
  | cons e v =>
      intro c hc
      obtain rfl : e = c := by simpa using hc
      exact (maybe_whitespaces_within.forall_mem hb e List.mem_cons_self).1

theorem lex_day_first (d : named_date) (hname : d.name ∈ monthtext.lang)
    (b : Word maybe_whitespaces) (sep : Word date_separator) :
    lex rules (d.text (.day_first b sep) ++ [NUL])
      = some ((.done, d.tags (.day_first b sep)), []) := by
  have hrules : rules = [(rule_today, .today), (rule_year_monthtext_day, .done),
      (rule_year_month_day, .done), (rule_month_day, .month_day), (rule_monthtext_day, .done)]
      ++ (rule_day_monthtext, .done) :: rules.drop 6 := rfl
  have hletters := d.letters_text (.day_first b sep)
  have hnot := d.no_nul (.day_first b sep)
  have hhead : ∀ c ∈ (d.text (.day_first b sep) ++ [NUL]).head?, isdigit c = true := by
    rw [d.text_append]
    exact (field_of_takesDigits day_takesDigits).head d.day.2 _
  have hdigits : ∀ a ∈ digit_rules, d.text (.day_first b sep) ++ [NUL] ∉ a.lang := by
    intro a ha hmem
    have hnone := letters_of_digit_rule ha _ hmem
    rw [hletters] at hnone
    exact noMonth_not_month hnone hname
  rw [hrules]
  apply lex_eq_of_iff
  · simp only [List.mem_cons, List.not_mem_nil, or_false]
    rintro rule (rfl | rfl | rfl | rfl | rfl)
    · exact d.rule_today_not_matched (.day_first b sep)
    · apply not_matched (by simp [DateWhole.dated_rules]) hnot
      -- a day has no four digits
      rintro ⟨_, rfl, _, ⟨y, hy, m, hm, rfl⟩, hsplit⟩
      rw [d.text_append, List.nil_append] at hsplit
      have hm : ∀ c ∈ m.head?, isdigit c = false :=
        (starts_tag_cons .ye (starts_cons (whitespaces_within.mono fun c hc => hc.1).starts rfl
          _)).head hm
      obtain ⟨hlength, hydigits⟩ := mem_yyyy hy
      have hday := mem_day d.day.2
      obtain ⟨heq, -⟩ := append_inj_of_class hsplit hday.digits hydigits (d.after_day b _) hm
      have hshort := hday.length_le
      rw [heq] at hshort
      omega
    · exact not_matched (by simp [DateWhole.dated_rules]) hnot (hdigits _ (by simp [digit_rules]))
    · exact not_matched (by simp [DateWhole.dated_rules]) hnot (hdigits _ (by simp [digit_rules]))
    · apply not_matched (by simp [DateWhole.dated_rules]) hnot
      obtain ⟨hstarts, hnull⟩ := DateWhole.tagged_starts monthtext_field.within.starts
        monthtext_starts.2 .ms _
      exact not_mem_of_starts hstarts hnull fun c hc => isletter_of_isdigit (hhead c hc)
  · intro tags r
    rw [d.text_append]
    exact mem_parses_day_monthtext d.year.2 hname d.day.2 d.time tags r b.2 sep.2

theorem named_date.no_nul_digits (d : named_date) : NUL ∉ d.in_digits := by
  have hday := (mem_day d.day.2).value_le
  have hmonth := d.month.isLt
  have hyear : NUL ∉ d.year.1 := fun h =>
    not_nul_of_isdigit (yyyy_takesDigits.within.forall_mem d.year.2 NUL h) rfl
  have hpad : ∀ n < 100, NUL ∉ pad2 n := fun n hn h => not_nul_of_isdigit (pad2_digits hn NUL h) rfl
  have hsign : NUL ≠ '-' := by decide
  simp only [named_date.in_digits, List.mem_append, List.mem_singleton, not_or]
  exact ⟨hyear, hsign, hpad _ (by omega), hsign, hpad _ (by omega), suffix_no_nul d.time⟩

/-- **The lexer takes the rule in digits**, also where the time has letters. -/
theorem lex_in_digits (d : named_date) :
    lex rules (d.in_digits ++ [NUL])
      = some ((.done, date_tags d.year.1 ['-'] (pad2 (d.month + 1)) ['-']
          (pad2 (digitsVal d.day.1)) (d.time.text ++ [NUL]) ++ d.time.tags), []) := by
  have hrules : rules = [(rule_today, .today), (rule_year_monthtext_day, .done)]
      ++ (rule_year_month_day, .done) :: rules.drop 3 := rfl
  have htext : d.in_digits ++ [NUL] = d.year.1 ++ (['-'] ++ (pad2 (d.month + 1) ++ (['-']
      ++ (pad2 (digitsVal d.day.1) ++ (d.time.text ++ [NUL]))))) := by
    simp [named_date.in_digits]
  have hmatch := fun tags r => mem_parses_year_month_day d.year.2 dash_mem
    (pad2_mem_month (Nat.succ_pos d.month) (by omega)) dash_mem
    (pad2_mem_day (mem_day d.day.2).value_le) d.time tags r
  rw [← htext] at hmatch
  -- it is a word of the rule, so no name is among its letters
  have hword : d.in_digits ++ [NUL] ∈ rule_year_month_day.lang := by
    obtain ⟨w, hw, hsplit⟩ := rule_year_month_day.parses_sound ((hmatch _ []).mpr ⟨rfl, rfl⟩)
    rwa [hsplit, List.append_nil]
  rw [hrules]
  apply lex_eq_of_iff _ hmatch
  simp only [List.mem_cons, List.not_mem_nil, or_false]
  rintro rule (rfl | rfl)
  · apply today_not_matched
    rw [htext]
    intro c hc
    exact DateWhole.notT_of_isdigit ((field_of_takesDigits yyyy_takesDigits).head d.year.2 _ c hc)
  · apply not_matched (by simp [DateWhole.dated_rules]) d.no_nul_digits
    intro hmem
    have hnone := letters_of_digit_rule (by simp [digit_rules]) _ hword
    exact noMonth_not_month hnone (letters_of_name_rule (by simp [name_rules]) _ hmem)

/-! ## The value -/

/-- The time that is set on a date. -/
def set_suffix (u : tm) : Suffix → tm
  | none => u
  | some (_, t) => set_time u t.1

theorem set_time_from_append (u : tm) {tags : List (date_tag × List Char)}
    (h : pointer tags .ts = none) (t : Suffix) :
    set_time_from u (tags ++ t.tags) = set_suffix u t := by
  have hpointer : pointer (tags ++ t.tags) .ts = pointer t.tags .ts := by
    unfold pointer at h ⊢
    rw [List.lookup_append, h, Option.none_or]
  unfold set_time_from
  rw [hpointer]
  cases t with
  | none => rfl
  | some suffix =>
      obtain ⟨blanks, t⟩ := suffix
      show set_time u (t.1 ++ [NUL]).dropLast = set_time u t.1
      rw [List.dropLast_concat]

/-- The text between two tags. -/
theorem between_of_pointers {tags : List (date_tag × List Char)} {first last : date_tag}
    {w s : List Char} (hfirst : pointer tags first = some (w ++ s))
    (hlast : pointer tags last = some s) : between tags first last = w := by
  unfold between
  rw [hfirst, hlast]
  exact take_append_sub w s

theorem digitsVal_lt {ds : List Char} (hds : ∀ c ∈ ds, isdigit c = true) :
    digitsVal ds < 10 ^ ds.length := by
  induction ds using List.reverseRecOn with
  | nil => decide
  | append_singleton ds c ih =>
      have hc := hds c (by simp)
      have hvalue : digitVal c ≤ 9 := by
        simp only [isdigit, Bool.and_eq_true, decide_eq_true_eq] at hc
        unfold digitVal
        omega
      have hbefore := ih fun d hd => hds d (by simp [hd])
      rw [digitsVal, List.foldl_append, ← digitsVal, List.foldl_cons, List.foldl_nil,
        List.length_append, List.length_singleton, Nat.pow_succ]
      omega

theorem yyyy_number {yd : List Char} (hyd : yd ∈ yyyy.lang) :
    yd ≠ [] ∧ (∀ c ∈ yd, isdigit c = true) ∧ digitsVal yd < 2 ^ 31 := by
  obtain ⟨hlength, hdigits⟩ := mem_yyyy hyd
  have hvalue := digitsVal_lt hdigits
  rw [hlength] at hvalue
  exact ⟨List.ne_nil_of_length_pos (by omega), hdigits, by omega⟩

theorem day_number {dd : List Char} (hdd : dd ∈ day.lang) :
    dd ≠ [] ∧ (∀ c ∈ dd, isdigit c = true) ∧ digitsVal dd < 2 ^ 31 := by
  have hday := mem_day hdd
  have hvalue := hday.value_le
  exact ⟨hday.ne_nil, hday.digits, by omega⟩

/-- The fields of the date and its time. -/
def named_date.stored (d : named_date) (t : tm) : tm :=
  set_suffix (stored_date t (digitsVal d.year.1) (d.month + 1) (digitsVal d.day.1)) d.time

theorem done_year_of_pointers {tags : List (date_tag × List Char)} {yd s : List Char}
    (hys : pointer tags .ys = some (yd ++ s)) (hye : pointer tags .ye = some s)
    (hyd : yd ∈ yyyy.lang) : done_year tags = .ok (digitsVal yd) := by
  obtain ⟨hne, hdigits, hfits⟩ := yyyy_number hyd
  -- the year is not empty, so the pointers around it differ
  have hdiffer : pointer tags .ys ≠ pointer tags .ye := by
    intro heq
    rw [hys, hye, Option.some.injEq] at heq
    have hlen := congrArg List.length heq
    have hpos := List.length_pos_of_ne_nil hne
    rw [List.length_append] at hlen
    omega
  rw [done_year, if_pos hdiffer, between_of_pointers hys hye, my_atoi_digits hne hdigits hfits]

theorem done_month_of_pointers {tags : List (date_tag × List Char)} {name s : List Char}
    {m : Fin 12} (hms : pointer tags .ms = some (name ++ s)) (hme : pointer tags .me = some s)
    (hname : Spells name m) : done_month tags = .ok (m + 1) := by
  obtain ⟨hne, hletters⟩ := spells_letters hname
  have hfirst : ¬ isdigit (deref ((pointer tags .ms).getD [])) = true := by
    obtain ⟨c, v, rfl⟩ := List.exists_cons_of_ne_nil hne
    rw [hms]
    show ¬ isdigit c = true
    rw [isdigit_of_isletter (hletters c List.mem_cons_self)]
    exact Bool.false_ne_true
  rw [done_month, if_neg hfirst, between_of_pointers hms hme, month_value_from_name_of_spells hname]

theorem yylex_done_named (d : named_date) (form : named_form) (t : tm) :
    yylex_done t (d.tags form) = .ok (d.stored t) := by
  obtain ⟨hne, hdigits, hfits⟩ := day_number d.day.2
  have hyear : done_year (d.tags form) = .ok (digitsVal d.year.1) := by
    cases form with
    | year_first b₁ b₂ => exact done_year_of_pointers rfl rfl d.year.2
    | month_first b sep => exact done_year_of_pointers rfl rfl d.year.2
    | day_first b sep => exact done_year_of_pointers rfl rfl d.year.2
  have hmonth : done_month (d.tags form) = .ok (d.month + 1) := by
    cases form with
    | year_first b₁ b₂ => exact done_month_of_pointers rfl rfl d.spells
    | month_first b sep => exact done_month_of_pointers rfl rfl d.spells
    | day_first b sep => exact done_month_of_pointers rfl rfl d.spells
  have hday : between (d.tags form) .ds .de = d.day.1 := by
    cases form with
    | year_first b₁ b₂ => exact between_of_pointers rfl rfl
    | month_first b sep => exact between_of_pointers rfl rfl
    | day_first b sep => exact between_of_pointers rfl rfl
  rw [yylex_done_eq t (by omega) hyear hmonth (by rw [hday, my_atoi_digits hne hdigits hfits])]
  congr 1
  cases form with
  | year_first b₁ b₂ => exact set_time_from_append _ rfl d.time
  | month_first b sep => exact set_time_from_append _ rfl d.time
  | day_first b sep => exact set_time_from_append _ rfl d.time

/-- **A date with a month that the lexer has** is read. -/
theorem yylex_named (d : named_date) (form : named_form) (hname : ¬ IsMar d.name) (t : tm) :
    yylex (d.text form) t = .ok (d.stored t) := by
  have hmonthtext := (mem_monthtext_of_spells d.spells).mpr hname
  have hlex : lex rules (d.text form ++ [NUL]) = some ((.done, d.tags form), []) := by
    cases form with
    | year_first b₁ b₂ => exact lex_year_first d hmonthtext b₁ b₂
    | month_first b sep => exact lex_month_first d hmonthtext b sep
    | day_first b sep => exact lex_day_first d hmonthtext b sep
  unfold yylex
  rw [hlex]
  exact yylex_done_named d form t

/-- **The date in digits** is read. -/
theorem yylex_in_digits (d : named_date) (t : tm) : yylex d.in_digits t = .ok (d.stored t) := by
  have hmonth := d.month.isLt
  have hday := (mem_day d.day.2).value_le
  have hdone := yylex_done_date_tags t ['-'] ['-'] (d.time.text ++ [NUL]) d.time.tags
    (yyyy_number d.year.2)
    ⟨by simp [pad2], pad2_digits (show (d.month : ℕ) + 1 < 100 by omega),
      by rw [digitsVal_pad2 (by omega)]; omega⟩
    ⟨by simp [pad2], pad2_digits (show digitsVal d.day.1 < 100 by omega),
      by rw [digitsVal_pad2 (by omega)]; omega⟩
  rw [digitsVal_pad2 (by omega), digitsVal_pad2 (by omega), set_time_from_append _ rfl] at hdone
  unfold yylex
  rw [lex_in_digits]
  exact hdone

/-- **`Mar` is refused**, however the date is written. -/
theorem yylex_mar (d : named_date) (form : named_form) (hname : IsMar d.name) (t t' : tm) :
    yylex (d.text form) t ≠ .ok t' := by
  intro hok
  have hmonthtext : d.name ∉ monthtext.lang := fun h =>
    (mem_monthtext_of_spells d.spells).mp h hname
  obtain ⟨w, hw, s, hs⟩ | ⟨rule, hrule, hword⟩ :=
    DateWhole.yylex_ok (s := ⟨d.text form, d.no_nul form⟩) hok
  · obtain ⟨c, hmatch⟩ := rule_today.parses_complete hw (s ++ [NUL])
    rw [← List.append_assoc, ← hs, d.rule_today_not_matched] at hmatch
    exact List.not_mem_nil hmatch
  · have hletters := d.letters_text form
    obtain hdigit | hnamed := mem_dated_rules hrule
    · have hnone := letters_of_digit_rule hdigit _ hword
      rw [hletters] at hnone
      exact noMonth_not_mar hnone hname
    · have hmonth := letters_of_name_rule hnamed _ hword
      rw [hletters] at hmonth
      exact hmonthtext hmonth

/-- The time of a date is one of the day. -/
theorem named_date.stored_timeOfDay (d : named_date) {t : tm}
    (ht : t.tm_hour = 0 ∧ t.tm_min = 0 ∧ t.tm_sec = 0) :
    TimeOfDay (stored_date t (digitsVal d.year.1) (d.month + 1) (digitsVal d.day.1))
      (d.stored t) := by
  obtain ⟨hhour, hmin, hsec⟩ := ht
  unfold named_date.stored
  cases d.time with
  | none =>
      refine ⟨t.tm_hour, t.tm_min, t.tm_sec, rfl, ?_, ?_, ?_⟩
      · omega
      · omega
      · omega
  | some suffix =>
      obtain ⟨blanks, time, htime⟩ := suffix
      exact set_time_timeOfDay (t := stored_date t _ _ _) hmin hsec htime

theorem day_pos_of_valid {t : tm} (h : is_date_valid t = .ok ()) : 1 ≤ t.tm_mday := by
  unfold is_date_valid at h
  split at h
  · exact absurd h (by simp)
  · split_ifs at h with hmonth hday
    omega

theorem march_of_isMar {name : List Char} {m : Fin 12} (h : Spells name m) (hmar : IsMar name) :
    m = 2 := by
  have hall : ∀ m : Fin 12, ∀ w ∈ [full_name m, (full_name m).take 3],
      w.map tolower = ['m', 'a', 'r'] → m = 2 := by
    decide +kernel
  rw [IsMar] at hmar
  obtain hfull | habbr := h
  · exact hall m _ List.mem_cons_self (hfull ▸ hmar)
  · exact hall m _ (by simp) (habbr ▸ hmar)

/-- Every day of March but day 0 is accepted in digits. -/
theorem march_in_digits_accepted (d : named_date) (hmonth : d.month = 2)
    (hday : digitsVal d.day.1 ≠ 0) :
    ∃ v, parse_date (some 0) june d.in_digits = .ok v := by
  obtain ⟨tm_now, hnow⟩ : ∃ tm_now, june 0 = some tm_now := ⟨_, rfl⟩
  refine ⟨_, (parse_date_eq_ok_iff hnow (yylex_in_digits d _) _).mpr ⟨?_, rfl⟩⟩
  obtain ⟨h, m, s, hstored, hh, hm, hs⟩ :=
    d.stored_timeOfDay (t := { tm_now with tm_sec := 0, tm_min := 0, tm_hour := 0 }) ⟨rfl, rfl, rfl⟩
  have hle := (mem_day d.day.2).value_le
  have hmon : (d.stored { tm_now with tm_sec := 0, tm_min := 0, tm_hour := 0 }).tm_mon
      = ((3 : ℕ) : ℤ) - 1 := by
    rw [hstored, hmonth]
    rfl
  have hmday : (d.stored { tm_now with tm_sec := 0, tm_min := 0, tm_hour := 0 }).tm_mday
      = (digitsVal d.day.1 : ℕ) := by
    rw [hstored]
    rfl
  rw [is_date_valid_eq _ (by decide) (by decide) hmon hmday (by omega) (by rw [hstored]; exact hs)
    (by rw [hstored]; exact hm) (by rw [hstored]; exact hh)]
  have hmarch : ∀ leap, monthDays leap 3 = 31 := by decide
  rw [hmarch]
  exact hle

/-- **When a name says the same as a number.** For every date with a year of four digits
and the name of a month, in any of the forms and with any time, `parse_date` gives for it
what it gives for the date in digits, whatever the current time is, if and only if the
name is not `Mar` with a day that is not 0. -/
theorem parse_date_month_name_iff (d : named_date) (form : named_form) :
    (∀ (time_now : Option ℤ) (gmtime : ℤ → Option tm) (v : ℤ),
        parse_date time_now gmtime (d.text form) = .ok v
          ↔ parse_date time_now gmtime d.in_digits = .ok v)
      ↔ ¬ (IsMar d.name ∧ digitsVal d.day.1 ≠ 0) := by
  by_cases hmar : IsMar d.name
  · have hrefused : ∀ (time_now : Option ℤ) (gmtime : ℤ → Option tm) (v : ℤ),
        parse_date time_now gmtime (d.text form) ≠ .ok v := by
      intro time_now gmtime v hv
      obtain ⟨t, t', -, hyylex, -⟩ := DateWhole.parse_date_ok hv
      exact yylex_mar d form hmar t t' hyylex
    rw [not_and, forall_prop_of_true hmar, not_not]
    constructor
    · intro hsame
      by_contra hday
      obtain ⟨v, hv⟩ := march_in_digits_accepted d (march_of_isMar d.spells hmar) hday
      exact hrefused _ _ _ ((hsame _ _ _).mpr hv)
    · intro hday time_now gmtime v
      refine iff_of_false (hrefused _ _ _) fun hv => ?_
      -- the day is not one of the month
      obtain ⟨t, t', ht, hyylex, hvalid, -⟩ := DateWhole.parse_date_ok hv
      rw [yylex_in_digits, Except.ok.injEq] at hyylex
      obtain ⟨h, m, s, hstored, -⟩ := d.stored_timeOfDay ht
      have hpos := day_pos_of_valid hvalid
      rw [← hyylex, hstored, hday] at hpos
      change (1 : ℤ) ≤ 0 at hpos
      omega
  · -- both are read, with the same fields
    refine iff_of_true (fun time_now gmtime v => ?_) fun h => hmar h.1
    have hsame : ∀ t, yylex (d.text form) t = yylex d.in_digits t := by
      intro t
      rw [yylex_named d form hmar, yylex_in_digits]
    unfold parse_date
    simp only [hsame]

theorem blank_mem : [' '] ∈ whitespaces.lang := mem_lang_of_parses rfl (by decide +kernel)

def mar_8 : named_date where
  year := ⟨"1999".toList, mem_lang_of_parses rfl (by decide +kernel)⟩
  month := 2
  name := "Mar".toList
  spells := Or.inr (by decide)
  day := ⟨"08".toList, mem_lang_of_parses rfl (by decide +kernel)⟩
  time := none

/-- March is not taken by its abbreviation. -/
theorem mar_8_refused :
    mar_8.text (.year_first ⟨[' '], blank_mem⟩ ⟨[' '], blank_mem⟩) = "1999 Mar 08".toList
      ∧ mar_8.in_digits = "1999-03-08".toList
      ∧ parse_date (some 0) june "1999 Mar 08".toList = .error .invalid_date
      ∧ parse_date (some 0) june "1999-03-08".toList = .ok 920851200 :=
  ⟨by decide +kernel, by decide +kernel, by rfl, by rfl⟩

end PkgPlugins.DateMonths
