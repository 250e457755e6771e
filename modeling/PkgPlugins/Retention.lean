/-
zint's `RETENTION` setting: `retention_parse` and the filters it selects
(`plugins/zfs_integration/retention.c`).

A setting is disabled, a number of snapshots to keep, or a period: `"2 weeks"`
keeps the snapshots created over the last two weeks. The period is turned into
a creation limit once, when the setting is read,

    *limit = time(NULL) - value * retention_units[i].value;

and every snapshot is later compared with that limit. The operands are a
`time_t`, a `long long` and a `size_t`, so the whole expression is computed on
`uint64_t`, modulo `2^64`.

The first half of this file is the code. The second half says which strings
are periods (`Period`), what the parser makes of them (`retention_parse_period`)
and for which of them the limit is the exact one: the period has to fit between
the epoch and the current time. Beyond that the subtraction goes below zero and
comes back just under `2^64`, a limit that no snapshot reaches.
-/
import PkgPlugins.Libc

set_option autoImplicit false

namespace PkgPlugins.Retention

open PkgPlugins.Libc

/-! ## The filters -/

/-- `retention_type_t`, the index of a row of `kinds`. -/
inductive retention_type_t
  | DISABLED
  | BY_COUNT
  | BY_CREATION
deriving DecidableEq, Repr

/-- `retention_t`: a name and a filter `callback(value, limit, &state)`, which
answers whether to keep and leaves a new state. -/
structure retention_t where
  name : String
  callback : UInt64 → UInt64 → UInt64 → Bool × UInt64

def retention_disabled_keep (_value _limit state : UInt64) : Bool × UInt64 := (true, state)

def retention_by_count_keep (_value limit state : UInt64) : Bool × UInt64 :=
  if state < limit then (true, state + 1) else (false, state)

def retention_by_creation_keep (value limit state : UInt64) : Bool × UInt64 :=
  (decide (limit ≤ value), state)

/-- `kinds[]`. -/
def kinds : retention_type_t → retention_t
  | .DISABLED => ⟨"disabled: no deletion", retention_disabled_keep⟩
  | .BY_COUNT => ⟨"by count: keep the N most recent snapshots", retention_by_count_keep⟩
  | .BY_CREATION =>
      ⟨"by creation: keep the snapshots over the last N period", retention_by_creation_keep⟩

/-- `filter_callback_data_t`; the retention is its row of `kinds`. -/
structure filter_callback_data_t where
  retention : retention_type_t
  limit : UInt64
  state : UInt64
deriving DecidableEq, Repr

def retention_filter_callback_data_create (retention : retention_type_t) (limit : UInt64) :
    filter_callback_data_t :=
  ⟨retention, limit, 0⟩

def retention_filter_callback_data_reset (fcd : filter_callback_data_t) : filter_callback_data_t :=
  { fcd with state := 0 }

/-- `retention_filter_callback` on a snapshot of the given creation date. -/
def retention_filter_callback (creation : UInt64) (fcd : filter_callback_data_t) :
    Bool × filter_callback_data_t :=
  let (keep, state) := (kinds fcd.retention).callback creation fcd.limit fcd.state
  (keep, { fcd with state := state })

/-! ## The setting -/

/-- `pkg_object_t`, libpkg's types of a configuration value. -/
inductive pkg_object_t
  | PKG_NULL
  | PKG_OBJECT
  | PKG_BOOL
  | PKG_STRING
  | PKG_INT
  | PKG_ARRAY
deriving DecidableEq, Repr

/-- A configuration value as libpkg's accessors show it: `pkg_object_type`,
`pkg_object_bool`, `pkg_object_int` and `pkg_object_string` (`none` is `NULL`). -/
structure pkg_object where
  type : pkg_object_t
  bool : Bool
  int : ℤ
  string : Option CString

/-- The errors of `retention_parse`, each with what its message prints. -/
inductive retention_error
  | outOfRange (string : List Char)
  | notPositive (value : ℤ)
  | unparsable (string : List Char)
  | badType (string : Option CString) (type : pkg_object_t)
deriving DecidableEq

/-- `CFG_RETENTION`. -/
def CFG_RETENTION : String := "RETENTION"

/-- The text of an error; `code` gives the numbers of libpkg's types. -/
def retention_error.text (code : pkg_object_t → ℤ) : retention_error → String
  | .outOfRange s => "value '" ++ String.ofList s ++ "' for " ++ CFG_RETENTION
      ++ " setting is out of the range [" ++ toString LLONG_MIN ++ ";" ++ toString LLONG_MAX ++ "]"
  | .notPositive v => "expected quantified '" ++ CFG_RETENTION ++ "' value to be > 0, got: "
      ++ toString v
  -- the setting's name and its value are passed the other way round
  | .unparsable s => "unable to parse '" ++ CFG_RETENTION ++ "' for " ++ String.ofList s
      ++ " setting"
  | .badType s t => "expected '" ++ CFG_RETENTION
      ++ "' to be either false, null, an integer or a string, got: '"
      ++ (match s with | none => "(null)" | some s => String.ofList s.chars) ++ "' ("
      ++ toString (code t) ++ ")"

/-- A row of `retention_units`: a name and its length in seconds. -/
structure retention_unit where
  name : List Char
  value : UInt64
deriving DecidableEq

def DAY : UInt64 := 24 * 3600
def WEEK : UInt64 := 7 * DAY
def MONTH : UInt64 := 30 * DAY
def YEAR : UInt64 := 365 * DAY

def retention_units : List retention_unit :=
  [ ⟨"days".toList, DAY⟩, ⟨"day".toList, DAY⟩, ⟨"weeks".toList, WEEK⟩, ⟨"week".toList, WEEK⟩,
    ⟨"months".toList, MONTH⟩, ⟨"month".toList, MONTH⟩, ⟨"years".toList, YEAR⟩,
    ⟨"year".toList, YEAR⟩ ]

/-- The test of the unit loop: the text at `p` is the unit's name and ends there. -/
def unitMatches (p : List Char) (u : retention_unit) : Bool :=
  strncasecmp p u.name u.name.length == 0 && deref (p.drop u.name.length) == NUL

/-- The `PKG_STRING` branch of `retention_parse`. -/
def retention_parse_string (string : List Char) (now : ℤ) :
    Except retention_error (retention_type_t × UInt64) :=
  let r := strtoll string
  if r.erange && (LLONG_MAX == r.value || LLONG_MIN == r.value) then .error (.outOfRange string)
  else if deref r.endptr = NUL then
    -- only a number: a count, and a count of 0 or less disables the retention
    .ok (if 0 < r.value then .BY_COUNT else .DISABLED, toU64 r.value)
  else if r.value ≤ 0 then .error (.notPositive r.value)
  else
    match retention_units.find? (unitMatches (r.endptr.dropWhile (· == ' '))) with
    -- on `uint64_t`, so a period longer than the time since the epoch wraps
    | some u => .ok (.BY_CREATION, toU64 now - toU64 r.value * u.value)
    | none => .error (.unparsable string)

/-- `retention_parse(object, &limit, error)` at the time `now`: the row of
`kinds` and the limit; `limit0` is what `*limit` held before the call. -/
def retention_parse (object : pkg_object) (now : ℤ) (limit0 : UInt64) :
    Except retention_error (retention_type_t × UInt64) :=
  if object.type = .PKG_NULL then .ok (.DISABLED, limit0)
  else if object.type = .PKG_BOOL ∧ object.bool = false then .ok (.DISABLED, limit0)
  else if object.type = .PKG_INT then
    if 0 < object.int then .ok (.BY_COUNT, toU64 object.int) else .ok (.DISABLED, limit0)
  else if object.type = .PKG_STRING then
    retention_parse_string (match object.string with | none => [] | some s => s.chars) now
  else .error (.badType object.string object.type)

/-! ## Periods

A string made of a positive number and a unit, with everything the parser lets
through around them: blanks and a plus sign in front of the number, spaces
between the number and the unit, any case in the unit. -/

/-- The unit test says that the remaining text is the unit's name up to case. -/
theorem unitMatches_iff {p : List Char} (hp : NUL ∉ p) {u : retention_unit}
    (hu : NUL ∉ u.name) :
    unitMatches p u = true ↔ p.map tolower = u.name.map tolower := by
  have hdrop : NUL ∉ p.drop u.name.length := fun h => hp (List.mem_of_mem_drop h)
  simp only [unitMatches, Bool.and_eq_true, beq_iff_eq, strncasecmp_eq_zero_iff _ hu,
    deref_eq_nul_iff hdrop, List.drop_eq_nil_iff]
  constructor
  · -- the name is no longer than the text, so the comparison sees all of it
    rintro ⟨htake, hlen⟩
    rwa [List.take_of_length_le hlen] at htake
  · intro h
    have hlen : p.length = u.name.length := by simpa using congrArg List.length h
    exact ⟨by rwa [List.take_of_length_le hlen.le], hlen.le⟩

/-! ### The word of a unit -/

/-- Every name of the table is a non-empty lower case word. -/
theorem unit_name_lower : ∀ u ∈ retention_units, u.name.map tolower = u.name ∧ NUL ∉ u.name
    ∧ u.name ≠ [] ∧ isdigit (deref u.name) = false ∧ deref u.name ≠ ' ' := by
  decide

/-- The names of the table are distinct: looking one up finds its own row. -/
theorem find_unit : ∀ u ∈ retention_units,
    retention_units.find? (fun v => decide (u.name = v.name)) = some u := by
  decide

theorem tolower_of_isdigit {c : Char} (h : isdigit c = true) : tolower c = c := by
  simp only [isdigit, Bool.and_eq_true, decide_eq_true_eq] at h
  rw [tolower, if_neg (by omega)]

section Word

variable {word : List Char} {unit : retention_unit} (hunit : unit ∈ retention_units)
  (hword : word.map tolower = unit.name)

include hunit hword

/-- The word starts with a letter: neither a digit nor a space. -/
theorem word_head : word ≠ [] ∧ isdigit (deref word) = false ∧ deref word ≠ ' ' := by
  -- `tolower` does not move digits and spaces, and the name starts with neither
  obtain ⟨-, -, hne, hdig, hsp⟩ := unit_name_lower unit hunit
  cases word with
  | nil =>
      rw [List.map_nil] at hword
      exact absurd hword.symm hne
  | cons c w =>
      rw [List.map_cons] at hword
      rw [← hword, deref_cons] at hdig hsp
      refine ⟨by simp, ?_, ?_⟩
      · rw [deref_cons, Bool.eq_false_iff]
        intro h
        rw [tolower_of_isdigit h, h] at hdig
        exact Bool.noConfusion hdig
      · rw [deref_cons]
        rintro rfl
        exact hsp (by decide)

theorem nul_notMem_word : NUL ∉ word := by
  intro h
  have hmem : tolower NUL ∈ unit.name := hword ▸ List.mem_map_of_mem h
  exact (unit_name_lower unit hunit).2.1 hmem

/-- What follows the number does not start with a digit. -/
theorem rest_head (spaces : ℕ) : isdigit (deref (List.replicate spaces ' ' ++ word)) = false := by
  cases spaces with
  | zero => simpa using (word_head hunit hword).2.1
  | succ n => simp only [List.replicate_succ, List.cons_append, deref_cons]; decide

/-- It is not empty either. -/
theorem rest_ne_nul (spaces : ℕ) : deref (List.replicate spaces ' ' ++ word) ≠ NUL := by
  have hnul : NUL ∉ List.replicate spaces ' ' ++ word := by
    intro h
    rcases List.mem_append.mp h with h | h
    · exact absurd (List.eq_of_mem_replicate h) (by decide)
    · exact nul_notMem_word hunit hword h
  rw [Ne, deref_eq_nul_iff hnul]
  simp [(word_head hunit hword).1]

theorem rest_skip (spaces : ℕ) :
    (List.replicate spaces ' ' ++ word).dropWhile (· == ' ') = word := by
  rw [List.dropWhile_append_of_pos (by
    intro c hc
    simp [List.eq_of_mem_replicate hc])]
  obtain ⟨hne, -, hsp⟩ := word_head hunit hword
  obtain ⟨c, w, rfl⟩ := List.exists_cons_of_ne_nil hne
  rw [deref_cons] at hsp
  exact List.dropWhile_cons_of_neg (by simpa using hsp)

/-- On the word of a unit the unit test compares names. -/
theorem unitMatches_word {v : retention_unit} (hv : v ∈ retention_units) :
    unitMatches word v = decide (unit.name = v.name) := by
  obtain ⟨hlow, hnul, -⟩ := unit_name_lower v hv
  rw [Bool.eq_iff_iff, unitMatches_iff (nul_notMem_word hunit hword) hnul, decide_eq_true_eq, hword,
    hlow]

/-- The unit loop stops at the unit the word names. -/
theorem find_word : retention_units.find? (unitMatches word) = some unit := by
  rw [← find_unit unit hunit, ← List.head?_filter, ← List.head?_filter]
  exact congrArg List.head? (List.filter_congr (fun v hv => unitMatches_word hunit hword hv))

end Word

/-- A `RETENTION` string made of a positive number and a unit. -/
structure Period where
  blanks : List Char
  plus : Bool
  digits : List Char
  spaces : ℕ
  word : List Char
  unit : retention_unit
  blanks_space : ∀ c ∈ blanks, isspace c = true
  digits_digit : ∀ c ∈ digits, isdigit c = true
  positive : 0 < digitsVal digits
  unit_mem : unit ∈ retention_units
  word_unit : word.map tolower = unit.name

namespace Period

variable (r : Period)

/-- The characters of the setting. -/
def text : List Char :=
  r.blanks ++ ((if r.plus then ['+'] else [])
    ++ (r.digits ++ (List.replicate r.spaces ' ' ++ r.word)))

/-- The number of the setting. -/
def count : ℕ := digitsVal r.digits

/-- The period, in seconds and without any bound. -/
def seconds : ℕ := r.count * r.unit.value.toNat

theorem digits_ne_nil : r.digits ≠ [] := by
  intro h
  have := r.positive
  simp [h, digitsVal] at this

theorem nul_notMem_text : NUL ∉ r.text := by
  simp only [text, List.mem_append, not_or]
  refine ⟨fun h => ?_, ?_, fun h => ?_, fun h => ?_, nul_notMem_word r.unit_mem r.word_unit⟩
  · exact absurd (r.blanks_space _ h) (by decide)
  · split_ifs <;> decide
  · exact absurd (r.digits_digit _ h) (by decide)
  · exact absurd (List.eq_of_mem_replicate h) (by decide)

/-- The setting as libpkg hands it over: a string. -/
def object : pkg_object :=
  ⟨.PKG_STRING, false, 0, some ⟨r.text, r.nul_notMem_text⟩⟩

end Period

/-- **`retention_parse` on a period**: accepted exactly when the number is a
`long long`, as a filter by creation whose limit is the wrapped difference. -/
theorem retention_parse_period (r : Period) (now : ℤ) (limit0 : UInt64) :
    retention_parse r.object now limit0
      = if LLONG_MAX < (r.count : ℤ) then .error (.outOfRange r.text)
        else .ok (.BY_CREATION, toU64 now - toU64 r.count * r.unit.value) := by
  have hpos : (0 : ℤ) < (r.count : ℤ) := by exact_mod_cast r.positive
  have hnum : strtoll r.text = if LLONG_MAX < (r.count : ℤ)
      then ⟨LLONG_MAX, List.replicate r.spaces ' ' ++ r.word, true⟩
      else ⟨r.count, List.replicate r.spaces ' ' ++ r.word, false⟩ :=
    strtoll_number r.plus r.blanks_space r.digits_digit r.digits_ne_nil
      (rest_head r.unit_mem r.word_unit r.spaces)
  have hparse : retention_parse r.object now limit0 = retention_parse_string r.text now := by
    simp [retention_parse, Period.object]
  rw [hparse, retention_parse_string, hnum]
  by_cases hbig : LLONG_MAX < (r.count : ℤ)
  · simp [hbig]
  · -- there is a unit, so the string does not end after the number
    simp only [if_neg hbig, Bool.false_and, Bool.false_eq_true, if_false,
      if_neg (rest_ne_nul r.unit_mem r.word_unit r.spaces), if_neg (not_le.mpr hpos),
      rest_skip r.unit_mem r.word_unit, find_word r.unit_mem r.word_unit]

/-! ## The limit -/

/-- Whether the filter set up from `retention` and `limit` keeps a snapshot of
the given creation date. -/
def keeps (retention : retention_type_t) (limit creation : UInt64) : Bool :=
  (retention_filter_callback creation (retention_filter_callback_data_create retention limit)).1

/-- The filter keeps exactly the snapshots of the last `seconds` seconds, in
unbounded arithmetic, among those created up to `now`. -/
def KeepsPeriod (retention : retention_type_t) (limit : UInt64) (now seconds : ℕ) : Prop :=
  ∀ creation : UInt64, creation.toNat ≤ now →
    (keeps retention limit creation = true ↔ now ≤ creation.toNat + seconds)

/-- Under the law a longer period keeps what a shorter one keeps. -/
theorem KeepsPeriod.mono {k k' : retention_type_t} {l l' : UInt64} {now s s' : ℕ}
    (h : KeepsPeriod k l now s) (h' : KeepsPeriod k' l' now s') (hle : s ≤ s') {c : UInt64}
    (hc : c.toNat ≤ now) (hk : keeps k l c = true) : keeps k' l' c = true :=
  (h' c hc).mpr (le_trans ((h c hc).mp hk) (Nat.add_le_add_left hle _))

/-- Under the law no snapshot younger than the period is selected for destruction. -/
theorem KeepsPeriod.young {k : retention_type_t} {l : UInt64} {now s : ℕ}
    (h : KeepsPeriod k l now s) {c : UInt64} (hc : c.toNat ≤ now) (hyoung : now - c.toNat < s) :
    keeps k l c = true :=
  (h c hc).mpr (by omega)

/-- The filter by creation against a limit that is `now - seconds` modulo `2^64`. -/
theorem keepsPeriod_iff {limit : UInt64} {now seconds : ℕ} (hnow : now < 2 ^ 63)
    (hlimit : (limit.toNat : ℤ) = ((now : ℤ) - seconds) % 2 ^ 64) :
    KeepsPeriod .BY_CREATION limit now seconds ↔ seconds ≤ now ∨ seconds % 2 ^ 64 = now := by
  have hkeep : ∀ c : UInt64, keeps .BY_CREATION limit c = true ↔ limit.toNat ≤ c.toNat := by
    intro c
    simp [keeps, retention_filter_callback, retention_filter_callback_data_create, kinds,
      retention_by_creation_keep, UInt64.le_iff_toNat_le]
  constructor
  · intro h
    by_contra hcon
    rw [not_or] at hcon
    -- the snapshot of the epoch is within the period, so the limit has to be zero
    have h0 := (h 0 (Nat.zero_le _)).mpr (by simp; omega)
    rw [hkeep] at h0
    have hz : ((0 : UInt64).toNat : ℕ) = 0 := rfl
    omega
  · intro h c hc
    rw [hkeep]
    have hcmax := c.toNat_lt
    omega

/-- **The period law.** For a `RETENTION` period that `retention_parse` accepts
at the time `now`, the filter keeps a snapshot exactly when it is at most the
period old, for every creation date up to `now`, if and only if the period does
not go back beyond the epoch (or is the current time modulo `2^64`). -/
theorem retention_period_exact_iff (r : Period) (now : ℕ) (hnow : now < 2 ^ 63)
    (limit0 limit : UInt64) (retention : retention_type_t)
    (hparse : retention_parse r.object now limit0 = .ok (retention, limit)) :
    KeepsPeriod retention limit now r.seconds
      ↔ r.seconds ≤ now ∨ r.seconds % 2 ^ 64 = now := by
  rw [retention_parse_period] at hparse
  by_cases hbig : LLONG_MAX < (r.count : ℤ)
  · rw [if_pos hbig] at hparse
    exact absurd hparse (by simp)
  · rw [if_neg hbig] at hparse
    simp only [Except.ok.injEq, Prod.mk.injEq] at hparse
    obtain ⟨rfl, rfl⟩ := hparse
    refine keepsPeriod_iff hnow ?_
    rw [toU64_sub_mul_toNat, Period.seconds]
    push_cast
    rfl

/-- `"2 weeks"` -/
def twoWeeks : Period :=
  ⟨[], false, ['2'], 1, "weeks".toList, ⟨"weeks".toList, WEEK⟩, by simp, by simp [isdigit],
    by decide, by decide, by decide⟩

/-- The default use of the setting, `"2 weeks"` in November 2023, is exact. -/
theorem twoWeeks_exact :
    KeepsPeriod .BY_CREATION (toU64 1700000000 - toU64 2 * WEEK) 1700000000 twoWeeks.seconds :=
  (retention_period_exact_iff twoWeeks 1700000000 (by decide) 0 _ .BY_CREATION (by decide)).mpr
    (Or.inl (by decide))

/-- `"100 Years"` -/
def hundredYears : Period :=
  ⟨[], false, ['1', '0', '0'], 1, "Years".toList, ⟨"years".toList, YEAR⟩, by simp,
    by simp [isdigit], by decide, by decide, by decide⟩

/-- `"100 Years"` is accepted in November 2023 and destroys a snapshot created
that very second, and one that `"2 weeks"` keeps. -/
theorem hundredYears_destroys_all :
    ∃ limit, retention_parse hundredYears.object 1700000000 0 = .ok (.BY_CREATION, limit)
      ∧ keeps .BY_CREATION limit 1700000000 = false
      ∧ keeps .BY_CREATION (toU64 1700000000 - toU64 2 * WEEK) 1700000000 = true
      ∧ ¬ KeepsPeriod .BY_CREATION limit 1700000000 hundredYears.seconds := by
  refine ⟨toU64 1700000000 - toU64 100 * YEAR, by decide, by decide, by decide, fun h => ?_⟩
  have := (h 1700000000 (by decide)).mpr (by decide)
  exact absurd this (by decide)

end PkgPlugins.Retention
