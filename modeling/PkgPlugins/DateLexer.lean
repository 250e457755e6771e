/-
The lexer of dates: the definitions and the rules of `plugins/history/date.re`.

The generator reads the text up to its terminating NUL, which `eos` matches. Of the
rules the one with the longest match is taken, the first of several: as all of them
but the first and the last end in `eos`, these match the whole text.
-/
import PkgPlugins.Lexer
import PkgPlugins.Libc
import Mathlib.Data.List.Induction

set_option autoImplicit false

namespace PkgPlugins.DateLexer

open PkgPlugins.Libc PkgPlugins.Lexer

/-! ## Definitions -/

/-- The tags: where the year, the month, and the day start and end, and where the
time starts. -/
inductive date_tag
  | ys
  | ye
  | ms
  | me
  | ds
  | de
  | ts
deriving DecidableEq

abbrev DatePattern := Pattern Char date_tag

/-- `"c"`. -/
def exactly (c : Char) : DatePattern := .char (fun a => a = c)

/-- `[lo-hi]`. -/
def range (lo hi : Char) : DatePattern :=
  .char (fun a => lo.toNat ≤ a.toNat && a.toNat ≤ hi.toNat)

/-- `'text'`, which ignores case. -/
def literal (text : String) : DatePattern :=
  inSequence (text.toList.map fun c => .char (fun a => tolower a = tolower c))

def digit : DatePattern := range '0' '9'

def number : DatePattern := inSequence [digit, .run isdigit]

def eos : DatePattern := exactly NUL

def whitespace : DatePattern := exactly ' '

def maybe_whitespaces : DatePattern := .run (fun a => a = ' ')

def whitespaces : DatePattern := inSequence [whitespace, maybe_whitespaces]

def time_separator : DatePattern := exactly ':'

def date_separator : DatePattern :=
  oneOf
    [ inSequence [maybe_whitespaces, .char (fun a => a = '-' || a = '/' || a = '.'),
        maybe_whitespaces],
      whitespaces ]

def date_time_separator : DatePattern := whitespaces

def am_pm : DatePattern := oneOf [literal "AM", literal "PM"]

def h12 : DatePattern :=
  oneOf [inSequence [maybe (exactly '0'), digit], inSequence [exactly '1', range '0' '1']]

def h24 : DatePattern :=
  oneOf
    [ inSequence [maybe (exactly '0'), digit], inSequence [exactly '1', digit],
      inSequence [exactly '2', range '0' '3'] ]

def minute : DatePattern :=
  oneOf [inSequence [maybe (exactly '0'), digit], inSequence [range '1' '5', digit]]

def second : DatePattern :=
  oneOf [inSequence [maybe (exactly '0'), digit], inSequence [range '1' '5', digit]]

/-- The minutes and the seconds of a time, each of which may be missing. -/
def minute_second : DatePattern :=
  maybe (inSequence [maybe (inSequence [time_separator, minute]),
    maybe (inSequence [time_separator, second])])

def time12 : DatePattern := inSequence [h12, minute_second, maybe_whitespaces, am_pm]

def time24 : DatePattern := inSequence [h24, minute_second]

def time : DatePattern := oneOf [time12, time24]

def maybe_with_time : DatePattern :=
  maybe (inSequence [date_time_separator, .tag .ts, time])

def month_full_names : List String :=
  ["January", "February", "March", "April", "May", "June", "July", "August", "September",
    "October", "November", "December"]

/-- The abbreviations; that of March is not there, and that of July is twice. -/
def month_abbr_names : List String :=
  ["Jan", "Feb", "Apr", "May", "Jul", "Jun", "Jul", "Aug", "Sep", "Oct", "Nov", "Dec"]

def month_full : DatePattern := oneOf (month_full_names.map literal)

def month_abbr : DatePattern := oneOf (month_abbr_names.map literal)

def monthtext : DatePattern := oneOf [month_full, month_abbr]

def yy : DatePattern := inSequence [digit, digit]

def yyyy : DatePattern := inSequence [digit, digit, digit, digit]

def year : DatePattern := oneOf [yyyy, yy]

def maybe_year : DatePattern := maybe (inSequence [date_separator, .tag .ys, year, .tag .ye])

def day : DatePattern :=
  oneOf
    [ inSequence [oneOf [maybe (exactly '0'), range '1' '2'], digit],
      inSequence [exactly '3', range '0' '1'] ]

def month : DatePattern :=
  oneOf [inSequence [maybe (exactly '0'), digit], inSequence [exactly '1', range '0' '2']]

/-! ## Rules -/

/-- What is done after a rule: `done` is the label. -/
inductive action_t
  | today
  | done
  | month_day
  | number_month_number
  | number_number
  | invalid
deriving DecidableEq

def rule_today : DatePattern := literal "today"

def rule_year_monthtext_day : DatePattern :=
  inSequence [.tag .ys, yyyy, .tag .ye, whitespaces, .tag .ms, monthtext, .tag .me, whitespaces,
    .tag .ds, day, .tag .de, maybe_with_time, eos]

def rule_year_month_day : DatePattern :=
  inSequence [.tag .ys, yyyy, .tag .ye, date_separator, .tag .ms, month, .tag .me, date_separator,
    .tag .ds, day, .tag .de, maybe_with_time, eos]

def rule_month_day : DatePattern :=
  inSequence [.tag .ms, month, .tag .me, date_separator, .tag .ds, day, .tag .de, maybe_year,
    maybe_with_time, eos]

def rule_monthtext_day : DatePattern :=
  inSequence [.tag .ms, monthtext, .tag .me, whitespaces, .tag .ds, day, .tag .de, maybe_year,
    maybe_with_time, eos]

def rule_day_monthtext : DatePattern :=
  inSequence [.tag .ds, day, .tag .de, maybe_whitespaces, .tag .ms, monthtext, .tag .me, maybe_year,
    maybe_with_time, eos]

def rule_number_month_number : DatePattern :=
  inSequence [.tag .ys, number, .tag .ye, date_separator, .tag .ms, month, .tag .me, date_separator,
    .tag .ds, number, .tag .de, maybe_with_time, eos]

def rule_number_number : DatePattern :=
  inSequence [.tag .ms, number, maybe number, .tag .me, date_separator, .tag .ds, number,
    maybe number, .tag .de, maybe_with_time, eos]

def rules : List (DatePattern × action_t) :=
  [ (rule_today, .today),
    (rule_year_monthtext_day, .done),
    (rule_year_month_day, .done),
    (rule_month_day, .month_day),
    (rule_monthtext_day, .done),
    (rule_day_monthtext, .done),
    (rule_number_month_number, .number_month_number),
    (rule_number_number, .number_number),
    (.char (fun _ => true), .invalid) ]

/-! ## Letters -/

/-- A letter, in any case. -/
def isletter (c : Char) : Bool := 97 ≤ (tolower c).toNat && (tolower c).toNat ≤ 122

theorem isletter_of_isdigit {c : Char} (h : isdigit c = true) : isletter c = false := by
  simp only [isdigit, Bool.and_eq_true, decide_eq_true_eq] at h
  have hlower : tolower c = c := by
    rw [tolower, if_neg (by omega)]
  rw [isletter, hlower, Bool.and_eq_false_iff, decide_eq_false_iff_not, decide_eq_false_iff_not]
  omega

/-! ## Literals -/

/-- A test that doesn't see the case. -/
def CaseBlind (p : Char → Bool) : Prop := ∀ c c', tolower c = tolower c' → p c = p c'

theorem isletter_caseBlind : CaseBlind isletter := by
  intro c c' h
  rw [isletter, h, isletter]

/-- The words of a literal. -/
theorem mem_literal (text : String) (w : List Char) :
    w ∈ (literal text).lang ↔ w.map tolower = text.toList.map tolower := by
  unfold literal
  generalize text.toList = cs
  induction cs generalizing w with
  | nil => simp [inSequence]
  | cons c cs ih =>
      rw [List.map_cons, mem_lang_sequence_cons, List.map_cons]
      constructor
      · rintro ⟨_, ⟨a, ha, rfl⟩, v, hv, rfl⟩
        rw [List.singleton_append, List.map_cons, of_decide_eq_true ha, (ih v).mp hv]
      · intro h
        obtain ⟨a, v, rfl, ha, hv⟩ := List.map_eq_cons_iff.mp h
        exact ⟨[a], ⟨a, decide_eq_true ha, rfl⟩, v, (ih v).mpr hv, rfl⟩

/-- A word of a literal starts as the literal does. -/
theorem literal_starts {p : Char → Bool} (hp : CaseBlind p) {text : String}
    (htext : text.toList.head?.any p = true) :
    (literal text).Starts (fun c => p c = true) ∧ (literal text).nullable = false := by
  unfold literal
  cases hlist : text.toList with
  | nil =>
      rw [hlist] at htext
      exact absurd htext (by simp)
  | cons c cs =>
      rw [hlist] at htext
      refine ⟨⟨fun a ha => ?_, fun hnull => absurd hnull (by simp [Pattern.nullable])⟩, rfl⟩
      exact (hp a c (of_decide_eq_true ha)).trans htext

theorem literal_within {p : Char → Bool} (hp : CaseBlind p) {text : String}
    (htext : text.toList.all p = true) : (literal text).Within (fun c => p c = true) := by
  unfold literal
  generalize text.toList = cs at htext
  induction cs with
  | nil => trivial
  | cons c cs ih =>
      rw [List.all_cons, Bool.and_eq_true] at htext
      exact ⟨fun a ha => (hp a c (of_decide_eq_true ha)).trans htext.1, ih htext.2⟩

theorem literals_start {p : Char → Bool} (hp : CaseBlind p) {names : List String}
    (hnames : ∀ name ∈ names, name.toList.head?.any p = true) :
    (oneOf (names.map literal)).Starts (fun c => p c = true)
      ∧ (oneOf (names.map literal)).nullable = false := by
  constructor
  · apply oneOf_starts
    intro a ha
    obtain ⟨name, hname, rfl⟩ := List.mem_map.mp ha
    exact (literal_starts hp (hnames name hname)).1
  · apply oneOf_nullable
    intro a ha
    obtain ⟨name, hname, rfl⟩ := List.mem_map.mp ha
    exact (literal_starts hp (hnames name hname)).2

theorem literals_within {p : Char → Bool} (hp : CaseBlind p) {names : List String}
    (hnames : ∀ name ∈ names, name.toList.all p = true) :
    (oneOf (names.map literal)).Within (fun c => p c = true) := by
  apply oneOf_within
  intro a ha
  obtain ⟨name, hname, rfl⟩ := List.mem_map.mp ha
  exact literal_within hp (hnames name hname)

/-- The names of months start as their spellings do. -/
theorem monthtext_starts_of {p : Char → Bool} (hp : CaseBlind p)
    (hnames : ∀ name ∈ month_full_names ++ month_abbr_names, name.toList.head?.any p = true) :
    monthtext.Starts (fun c => p c = true) ∧ monthtext.nullable = false := by
  rw [List.forall_mem_append] at hnames
  obtain ⟨hstarts₁, hnull₁⟩ := literals_start hp hnames.1
  obtain ⟨hstarts₂, hnull₂⟩ := literals_start hp hnames.2
  exact ⟨⟨hstarts₁, hstarts₂⟩, Bool.or_eq_false_iff.mpr ⟨hnull₁, hnull₂⟩⟩

/-- **The names of months** start with letters. -/
theorem monthtext_starts :
    monthtext.Starts (fun c => isletter c = true) ∧ monthtext.nullable = false :=
  monthtext_starts_of isletter_caseBlind (by decide +kernel)

/-- The first two rules match no text without letters. -/
theorem rule_today_of_no_letter {s : List Char} (hs : ∀ c ∈ s, isletter c = false) :
    rule_today.parses s = [] := by
  rw [List.eq_nil_iff_forall_not_mem]
  rintro ⟨tags, r⟩ h
  obtain ⟨w, hw, rfl⟩ := rule_today.parses_sound h
  have htoday : "today".toList.head?.any isletter = true := by decide
  obtain ⟨hstarts, hnull⟩ := literal_starts isletter_caseBlind htoday
  obtain ⟨c, v, rfl, hc⟩ := hstarts.cons hnull hw
  exact absurd hc (by simp [hs c (by simp)])

theorem rule_year_monthtext_day_of_no_letter {s : List Char} (hs : ∀ c ∈ s, isletter c = false) :
    rule_year_monthtext_day.parses s = [] := by
  rw [List.eq_nil_iff_forall_not_mem]
  rintro ⟨tags, r⟩ h
  -- on to the name of the month
  obtain ⟨_, -, h₁⟩ := (mem_parses_tag_cons _ _ _ _ _).mp h
  obtain ⟨_, -, s₁, rfl, h₂⟩ := (mem_parses_tagless_cons rfl _ _ _ _).mp h₁
  obtain ⟨_, -, h₃⟩ := (mem_parses_tag_cons _ _ _ _ _).mp h₂
  obtain ⟨_, -, s₂, rfl, h₄⟩ := (mem_parses_tagless_cons rfl _ _ _ _).mp h₃
  obtain ⟨_, -, h₅⟩ := (mem_parses_tag_cons _ _ _ _ _).mp h₄
  obtain ⟨w, hw, s₃, rfl, -⟩ := (mem_parses_tagless_cons rfl _ _ _ _).mp h₅
  obtain ⟨c, v, rfl, hc⟩ := monthtext_starts.1.cons monthtext_starts.2 hw
  exact absurd hc (by simp [hs c (by simp)])

/-! ## Digits and separators -/

/-- A pattern that takes one or more characters, all of which are digits, or none. -/
structure TakesDigits (b : Bool) (a : DatePattern) : Prop where
  tagless : a.tagless = true
  within : a.Within (fun c => isdigit c = b)
  nullable : a.nullable = false

theorem exactly_within (c : Char) (q : Char → Prop) : (exactly c).Within q ↔ q c := by
  unfold exactly Pattern.Within
  simp

theorem range_within {lo hi : Char} (h : 48 ≤ lo.toNat ∧ hi.toNat ≤ 57) :
    (range lo hi).Within (fun c => isdigit c = true) := by
  intro c hc
  simp only [Bool.and_eq_true, decide_eq_true_eq] at hc
  simp only [isdigit, Bool.and_eq_true, decide_eq_true_eq]
  omega

theorem digit_within : digit.Within (fun c => isdigit c = true) := range_within (by decide)

theorem yyyy_takesDigits : TakesDigits true yyyy := by
  refine ⟨rfl, ?_, rfl⟩
  simp [yyyy, inSequence, Pattern.Within, digit_within]

theorem month_takesDigits : TakesDigits true month := by
  refine ⟨rfl, ?_, rfl⟩
  have hrange : (range '0' '2').Within (fun c => isdigit c = true) := range_within (by decide)
  have h0 : isdigit '0' = true := rfl
  have h1 : isdigit '1' = true := rfl
  simp [month, oneOf, maybe, inSequence, Pattern.Within, exactly_within, digit_within, hrange, h0,
    h1]

theorem day_takesDigits : TakesDigits true day := by
  refine ⟨rfl, ?_, rfl⟩
  have hrange₁ : (range '1' '2').Within (fun c => isdigit c = true) := range_within (by decide)
  have hrange₂ : (range '0' '1').Within (fun c => isdigit c = true) := range_within (by decide)
  have h0 : isdigit '0' = true := rfl
  have h3 : isdigit '3' = true := rfl
  simp [day, oneOf, maybe, inSequence, Pattern.Within, exactly_within, digit_within, hrange₁,
    hrange₂, h0, h3]

theorem date_separator_takesDigits : TakesDigits false date_separator := by
  refine ⟨rfl, ?_, rfl⟩
  have hspace : isdigit ' ' = false := rfl
  have hsign : ∀ c : Char, (c = '-' ∨ c = '/') ∨ c = '.' → isdigit c = false := by
    rintro c ((rfl | rfl) | rfl) <;> rfl
  simpa [date_separator, whitespaces, whitespace, maybe_whitespaces, oneOf, inSequence, exactly,
    Pattern.Within, hspace] using hsign

/-- A text falls apart after such a word in one way. -/
theorem TakesDigits.unique {b : Bool} {a : DatePattern} (ha : TakesDigits b a)
    {w w' r r' : List Char} (hw : w ∈ a.lang) (hw' : w' ∈ a.lang)
    (hr : ∀ c ∈ r.head?, isdigit c = !b) (hr' : ∀ c ∈ r'.head?, isdigit c = !b)
    (h : w ++ r = w' ++ r') : w = w' ∧ r = r' := by
  have hclass : ∀ v ∈ a.lang, ∀ c ∈ v, (isdigit c == b) = true := by
    intro v hv c hc
    rw [ha.within.forall_mem hv c hc]
    exact beq_self_eq_true b
  have hnot : ∀ v : List Char, (∀ c ∈ v.head?, isdigit c = !b) →
      ∀ c ∈ v.head?, (isdigit c == b) = false := by
    intro v hv c hc
    rw [hv c hc]
    cases b <;> rfl
  exact append_inj_of_class h (hclass w hw) (hclass w' hw') (hnot r hr) (hnot r' hr')

/-- A text that starts with such a word starts with a character of the class. -/
theorem TakesDigits.head {b : Bool} {a : DatePattern} (ha : TakesDigits b a) {w : List Char}
    (hw : w ∈ a.lang) (r : List Char) : ∀ c ∈ (w ++ r).head?, isdigit c = b := by
  cases w with
  | nil =>
      rw [a.nil_mem_lang_iff, ha.nullable] at hw
      exact absurd hw (by simp)
  | cons d v =>
      intro c hc
      obtain rfl : d = c := by simpa using hc
      exact ha.within.forall_mem hw d List.mem_cons_self

/-! ## The end of a text -/

/-- The NUL of a text is its last character. -/
theorem eq_nil_of_append_nul {w r s : List Char} (hs : NUL ∉ s) (h : w ++ NUL :: r = s ++ [NUL]) :
    r = [] := by
  cases r using List.reverseRecOn with
  | nil => rfl
  | append_singleton r c =>
      have hsplit : (w ++ NUL :: r) ++ [c] = s ++ [NUL] := by
        rw [← h, List.append_assoc, List.cons_append]
      have hbefore := (List.append_inj' hsplit rfl).1
      exact absurd (hbefore ▸ (by simp)) hs

theorem mem_parses_eos (s : List Char) (tags : List (date_tag × List Char)) (r : List Char) :
    (tags, r) ∈ (inSequence [eos]).parses s ↔ tags = [] ∧ s = NUL :: r := by
  rw [mem_parses_tagless_cons rfl]
  constructor
  · rintro ⟨w, ⟨c, hc, rfl⟩, m, rfl, h⟩
    obtain ⟨rfl, rfl⟩ := (mem_parses_sequence_nil _ _ _).mp h
    exact ⟨rfl, by rw [of_decide_eq_true hc]; rfl⟩
  · rintro ⟨rfl, rfl⟩
    exact ⟨[NUL], ⟨NUL, by simp, rfl⟩, r, rfl, (mem_parses_sequence_nil _ _ _).mpr ⟨rfl, rfl⟩⟩

/-- The words of `whitespaces` are not empty, and blank. -/
theorem mem_whitespaces {w : List Char} (hw : w ∈ whitespaces.lang) :
    (∃ v, w = ' ' :: v) ∧ ∀ c ∈ w, decide (c = ' ') = true := by
  obtain ⟨u, ⟨c, hc, rfl⟩, v, ⟨v', hv', e, he, rfl⟩, rfl⟩ := hw
  obtain rfl := (mem_lang_sequence_nil e).mp he
  have hblank : c = ' ' := of_decide_eq_true hc
  rw [hblank, List.append_nil]
  exact ⟨⟨v', rfl⟩, List.forall_mem_cons.mpr ⟨rfl, hv'⟩⟩

theorem h12_within : h12.Within (fun c => isdigit c = true) := by
  have hrange : (range '0' '1').Within (fun c => isdigit c = true) := range_within (by decide)
  have hdigits : isdigit '0' = true ∧ isdigit '1' = true := ⟨rfl, rfl⟩
  simp [h12, oneOf, maybe, inSequence, Pattern.Within, exactly_within, digit_within, hrange,
    hdigits]

theorem h24_within : h24.Within (fun c => isdigit c = true) := by
  have hrange : (range '0' '3').Within (fun c => isdigit c = true) := range_within (by decide)
  have hdigits : isdigit '0' = true ∧ isdigit '1' = true ∧ isdigit '2' = true := ⟨rfl, rfl, rfl⟩
  simp [h24, oneOf, maybe, inSequence, Pattern.Within, exactly_within, digit_within, hrange,
    hdigits]

theorem time_starts : time.Starts (fun c => isdigit c = true) ∧ time.nullable = false :=
  ⟨⟨⟨h12_within.starts, fun hnull => absurd hnull (by decide)⟩,
    ⟨h24_within.starts, fun hnull => absurd hnull (by decide)⟩⟩, rfl⟩

/-- What follows the day: the end of the text, or blanks, a time whose start the tag
records, and the end. -/
theorem parses_after_day {s : List Char} {tags : List (date_tag × List Char)} {r : List Char}
    (h : (tags, r) ∈ (inSequence [maybe_with_time, eos]).parses s) :
    tags = [] ∧ s = NUL :: r
      ∨ ∃ w ∈ whitespaces.lang, ∃ v ∈ time.lang,
          s = w ++ (v ++ NUL :: r) ∧ tags = [(.ts, v ++ NUL :: r)] := by
  rw [inSequence, mem_parses_seq] at h
  obtain ⟨tags₁, m, tags₂, hfirst, hsecond, rfl⟩ := h
  obtain ⟨rfl, rfl⟩ := (mem_parses_eos _ _ _).mp hsecond
  obtain hwith | ⟨rfl, rfl⟩ := (mem_parses_maybe _ _ _ _).mp hfirst
  · obtain ⟨w, hw, m, rfl, hafter⟩ := (mem_parses_tagless_cons rfl _ _ _ _).mp hwith
    obtain ⟨tags₂, rfl, htime⟩ := (mem_parses_tag_cons _ _ _ _ _).mp hafter
    obtain ⟨v, hv, s', rfl, hend⟩ := (mem_parses_tagless_cons rfl _ _ _ _).mp htime
    obtain ⟨rfl, rfl⟩ := (mem_parses_sequence_nil _ _ _).mp hend
    exact Or.inr ⟨w, hw, v, hv, rfl, rfl⟩
  · exact Or.inl ⟨rfl, rfl⟩

/-- Without a time, the text ends. -/
theorem parses_no_time {tags : List (date_tag × List Char)} {r : List Char}
    (h : (tags, r) ∈ (inSequence [maybe_with_time, eos]).parses [NUL]) : tags = [] ∧ r = [] := by
  obtain ⟨rfl, hend⟩ | ⟨w, hw, v, -, hsplit, -⟩ := parses_after_day h
  · exact ⟨rfl, (List.cons_eq_cons.mp hend).2.symm⟩
  · -- a time would start with a blank
    obtain ⟨⟨v, rfl⟩, -⟩ := mem_whitespaces hw
    exact absurd (List.cons_eq_cons.mp hsplit).1 (by decide)

/-- **With a time**, the tag records where it starts, after the blanks. -/
theorem parses_time {blanks t : List Char} (hblanks : blanks ∈ whitespaces.lang)
    (ht : ∃ c v, t = c :: v ∧ isdigit c = true) (hnul : NUL ∉ t)
    {tags : List (date_tag × List Char)} {r : List Char}
    (h : (tags, r) ∈ (inSequence [maybe_with_time, eos]).parses (blanks ++ (t ++ [NUL]))) :
    tags = [(.ts, t ++ [NUL])] ∧ r = [] := by
  obtain ⟨⟨b, hb⟩, hclass⟩ := mem_whitespaces hblanks
  obtain ⟨rfl, hend⟩ | ⟨w, hw, v, hv, hsplit, rfl⟩ := parses_after_day h
  · rw [hb] at hend
    exact absurd (List.cons_eq_cons.mp hend).1 (by decide)
  · -- both texts after the blanks start with a digit
    have hdigit : ∀ c : Char, isdigit c = true → decide (c = ' ') = false := by
      intro c hc
      rw [decide_eq_false_iff_not]
      rintro rfl
      exact absurd hc (by decide)
    obtain ⟨c, v', rfl, hc⟩ := time_starts.1.cons time_starts.2 hv
    obtain ⟨c', t', rfl, hc'⟩ := ht
    obtain ⟨-, hsame⟩ := append_inj_of_class hsplit hclass (mem_whitespaces hw).2
      (by simpa using hdigit c' hc') (by simpa using hdigit c hc)
    rw [hsame]
    exact ⟨rfl, eq_nil_of_append_nul hnul hsame.symm⟩

/-! ## Year, month, day -/

/-- What the tags of `rule_year_month_day` record on the text of a date. -/
def date_tags (yd sep₁ md sep₂ dd tail : List Char) : List (date_tag × List Char) :=
  [ (.ys, yd ++ (sep₁ ++ (md ++ (sep₂ ++ (dd ++ tail))))),
    (.ye, sep₁ ++ (md ++ (sep₂ ++ (dd ++ tail)))),
    (.ms, md ++ (sep₂ ++ (dd ++ tail))),
    (.me, sep₂ ++ (dd ++ tail)),
    (.ds, dd ++ tail),
    (.de, tail) ]

/-- What follows the day is a time or the end of the text, which starts with no
digit. -/
theorem after_day_head {s : List Char} {tags : List (date_tag × List Char)} {r : List Char}
    (h : (tags, r) ∈ (inSequence [maybe_with_time, eos]).parses s) :
    ∀ c ∈ s.head?, isdigit c = false := by
  intro c hc
  obtain ⟨-, rfl⟩ | ⟨w, hw, v, -, rfl, -⟩ := parses_after_day h
  · obtain rfl : NUL = c := by simpa using hc
    rfl
  · obtain ⟨⟨v, rfl⟩, -⟩ := mem_whitespaces hw
    obtain rfl : ' ' = c := by simpa using hc
    rfl

/-- **A match of three fields** with separators between them. -/
theorem three_fields_match {a b c : DatePattern} (ha : TakesDigits true a)
    (hb : TakesDigits true b) (hc : TakesDigits true c) {s r : List Char}
    {tags : List (date_tag × List Char)}
    (h : (tags, r) ∈ (inSequence [.tag .ys, a, .tag .ye, date_separator, .tag .ms, b, .tag .me,
      date_separator, .tag .ds, c, .tag .de, maybe_with_time, eos]).parses s) :
    ∃ y ∈ a.lang, ∃ sep₁ ∈ date_separator.lang, ∃ m ∈ b.lang, ∃ sep₂ ∈ date_separator.lang,
      ∃ d ∈ c.lang, ∃ tail rest, s = y ++ (sep₁ ++ (m ++ (sep₂ ++ (d ++ tail))))
        ∧ tags = date_tags y sep₁ m sep₂ d tail ++ rest
        ∧ (rest, r) ∈ (inSequence [maybe_with_time, eos]).parses tail := by
  obtain ⟨y, hy, _, _, rfl, rfl, h₁⟩ := parses_field ha.tagless h
  obtain ⟨sep₁, hsep₁, _, rfl, h₂⟩ :=
    (mem_parses_tagless_cons date_separator_takesDigits.tagless _ _ _ _).mp h₁
  obtain ⟨m, hm, _, _, rfl, rfl, h₃⟩ := parses_field hb.tagless h₂
  obtain ⟨sep₂, hsep₂, _, rfl, h₄⟩ :=
    (mem_parses_tagless_cons date_separator_takesDigits.tagless _ _ _ _).mp h₃
  obtain ⟨d, hd, tail, rest, rfl, rfl, h₅⟩ := parses_field hc.tagless h₄
  exact ⟨y, hy, sep₁, hsep₁, m, hm, sep₂, hsep₂, d, hd, tail, rest, rfl, rfl, h₅⟩

/-- **The matches of the rule** on the text of a date: the year, the month, the day
and the separators are where they were written, and the rest is matched by the time
and the end. -/
theorem rule_year_month_day_unique {yd sep₁ md sep₂ dd tail : List Char} (hyd : yd ∈ yyyy.lang)
    (hsep₁ : sep₁ ∈ date_separator.lang) (hmd : md ∈ month.lang)
    (hsep₂ : sep₂ ∈ date_separator.lang) (hdd : dd ∈ day.lang)
    (htail : ∀ c ∈ tail.head?, isdigit c = false) {tags : List (date_tag × List Char)}
    {r : List Char}
    (h : (tags, r) ∈ rule_year_month_day.parses
      (yd ++ (sep₁ ++ (md ++ (sep₂ ++ (dd ++ tail)))))) :
    ∃ rest, tags = date_tags yd sep₁ md sep₂ dd tail ++ rest
      ∧ (rest, r) ∈ (inSequence [maybe_with_time, eos]).parses tail := by
  obtain ⟨w₁, hw₁, w₂, hw₂, w₃, hw₃, w₄, hw₄, w₅, hw₅, tail', rest, heq₁, rfl, hrest⟩ :=
    three_fields_match yyyy_takesDigits month_takesDigits day_takesDigits h
  -- digits and others take turns, so the words are the ones that were written
  obtain ⟨rfl, heq₂⟩ := yyyy_takesDigits.unique hyd hw₁
    (date_separator_takesDigits.head hsep₁ _) (date_separator_takesDigits.head hw₂ _) heq₁
  obtain ⟨rfl, heq₃⟩ := date_separator_takesDigits.unique hsep₁ hw₂
    (month_takesDigits.head hmd _) (month_takesDigits.head hw₃ _) heq₂
  obtain ⟨rfl, heq₄⟩ := month_takesDigits.unique hmd hw₃
    (date_separator_takesDigits.head hsep₂ _) (date_separator_takesDigits.head hw₄ _) heq₃
  obtain ⟨rfl, heq₅⟩ := date_separator_takesDigits.unique hsep₂ hw₄
    (day_takesDigits.head hdd _) (day_takesDigits.head hw₅ _) heq₄
  obtain ⟨rfl, rfl⟩ := day_takesDigits.unique hdd hw₅ htail (after_day_head hrest) heq₅
  exact ⟨rest, rfl, hrest⟩

end PkgPlugins.DateLexer
