/-
The strings that the `RETENTION` setting accepts (`retention_parse` of
`plugins/zfs_integration/retention.c`).

What is accepted is nowhere stated: it follows from what `strtoll` scans, from the test
of `errno`, from the sign of the value, and from a table of units some of which are
prefixes of others. `Classified` is the language of each kind of setting, in terms of
the number that a string starts with (`Libc.Number`).
-/
import PkgPlugins.Retention

set_option autoImplicit false

namespace PkgPlugins.Retention

open PkgPlugins.Libc

/-! ## The kinds of strings -/

/-- Nothing, or an integer that isn't positive and nothing behind it. -/
def Disables (s : List Char) : Prop :=
  s = [] ∨ ∃ n, Number s n [] ∧ LLONG_MIN ≤ n ∧ n ≤ 0

/-- A positive integer `n` and nothing behind it. -/
def Counts (s : List Char) (n : ℤ) : Prop := Number s n [] ∧ 0 < n ∧ n ≤ LLONG_MAX

/-- A positive integer `n`, spaces, and the name of `unit` in any case. -/
def Lasts (s : List Char) (n : ℤ) (unit : retention_unit) : Prop :=
  ∃ spaces word, Number s n (List.replicate spaces ' ' ++ word) ∧ 0 < n ∧ n ≤ LLONG_MAX
    ∧ unit ∈ retention_units ∧ word.map tolower = unit.name

/-- `result` is what `retention_parse` is to make of the string `s` at the time `now`. -/
structure Classified (s : List Char) (now : ℤ)
    (result : Except retention_error (retention_type_t × UInt64)) : Prop where
  disabled : (∃ limit, result = .ok (.DISABLED, limit)) ↔ Disables s
  by_count : ∀ limit, result = .ok (.BY_COUNT, limit) ↔ Counts s limit.toNat
  by_creation : ∀ limit, result = .ok (.BY_CREATION, limit)
    ↔ ∃ n unit, Lasts s n unit ∧ limit = toU64 now - toU64 n * unit.value
  error : (∃ e, result = .error e)
    ↔ ¬ Disables s ∧ (∀ n, ¬ Counts s n) ∧ ∀ n unit, ¬ Lasts s n unit

/-! ## What the parser makes of them -/

variable {s rest : List Char} {n now : ℤ}

/-- A number that is a `long long` is read. -/
theorem strtoll_in_range (h : Number s n rest) (hmin : LLONG_MIN ≤ n) (hmax : n ≤ LLONG_MAX) :
    strtoll s = ⟨n, rest, false⟩ := by
  rw [h.strtoll_eq, if_neg (not_lt.mpr hmax), if_neg (not_lt.mpr hmin)]

/-- A number and nothing behind it. -/
theorem retention_parse_string_integer (h : Number s n []) (hmin : LLONG_MIN ≤ n)
    (hmax : n ≤ LLONG_MAX) :
    retention_parse_string s now = .ok (if 0 < n then .BY_COUNT else .DISABLED, toU64 n) := by
  simp only [retention_parse_string, strtoll_in_range h hmin hmax, Bool.false_and,
    Bool.false_eq_true, if_false, deref_nil, if_true]

/-- A number out of range, whatever is behind it. -/
theorem retention_parse_string_out (h : Number s n rest) (hout : n < LLONG_MIN ∨ LLONG_MAX < n) :
    retention_parse_string s now = .error (.outOfRange s) := by
  rw [retention_parse_string, h.strtoll_eq]
  by_cases hmax : LLONG_MAX < n
  · simp [hmax]
  · simp [hmax, hout.resolve_right hmax]

theorem retention_parse_string_disables (h : Disables s) :
    ∃ limit, retention_parse_string s now = .ok (.DISABLED, limit) := by
  rcases h with rfl | ⟨n, hnumber, hmin, hn⟩
  · exact ⟨toU64 0, rfl⟩
  · refine ⟨toU64 n, ?_⟩
    rw [retention_parse_string_integer hnumber hmin (hn.trans (by decide)), if_neg (not_lt.mpr hn)]

theorem retention_parse_string_counts (h : Counts s n) :
    retention_parse_string s now = .ok (.BY_COUNT, toU64 n) := by
  obtain ⟨hnumber, hn, hmax⟩ := h
  rw [retention_parse_string_integer hnumber (le_trans (by decide) hn.le) hmax, if_pos hn]

theorem retention_parse_string_lasts {unit : retention_unit} (h : Lasts s n unit) :
    retention_parse_string s now = .ok (.BY_CREATION, toU64 now - toU64 n * unit.value) := by
  obtain ⟨spaces, word, hnumber, hn, hmax, hunit, hword⟩ := h
  simp only [retention_parse_string, strtoll_in_range hnumber (le_trans (by decide) hn.le) hmax,
    Bool.false_and, Bool.false_eq_true, if_false, if_neg (rest_ne_nul hunit hword spaces),
    if_neg (not_le.mpr hn), rest_skip hunit hword, find_word hunit hword]

/-- A unit that the loop finds is named behind the spaces. -/
theorem lasts_of_find {unit : retention_unit} (hs : NUL ∉ s) (h : Number s n rest) (hn : 0 < n)
    (hmax : n ≤ LLONG_MAX)
    (hfind : retention_units.find? (unitMatches (rest.dropWhile (· == ' '))) = some unit) :
    Lasts s n unit := by
  have hunit := List.mem_of_find?_eq_some hfind
  obtain ⟨hlow, hnul, -⟩ := unit_name_lower unit hunit
  have hword : NUL ∉ rest.dropWhile (· == ' ') := by
    intro hmem
    obtain ⟨blanks, sign, digits, rfl, -⟩ := h
    have hrest := (List.dropWhile_suffix (· == ' ')).subset hmem
    exact hs (by simp [hrest])
  have hspaces : rest.takeWhile (· == ' ')
      = List.replicate (rest.takeWhile (· == ' ')).length ' ' :=
    List.eq_replicate_of_mem fun c hc => by simpa using List.mem_takeWhile_imp hc
  refine ⟨(rest.takeWhile (· == ' ')).length, rest.dropWhile (· == ' '), ?_, hn, hmax, hunit, ?_⟩
  · rwa [← hspaces, List.takeWhile_append_dropWhile]
  · rw [(unitMatches_iff hword hnul).mp (List.find?_some hfind), hlow]

/-- Any other string is refused. -/
theorem retention_parse_string_refused (hs : NUL ∉ s) (hdisables : ¬ Disables s)
    (hcounts : ∀ n, ¬ Counts s n) (hlasts : ∀ n unit, ¬ Lasts s n unit) :
    ∃ e, retention_parse_string s now = .error e := by
  by_cases hnumber : ∃ n rest, Number s n rest
  · obtain ⟨n, rest, h⟩ := hnumber
    by_cases hrange : LLONG_MIN ≤ n ∧ n ≤ LLONG_MAX
    · obtain ⟨hmin, hmax⟩ := hrange
      have hrest : deref rest ≠ NUL := by
        intro hnul
        have hmem : NUL ∉ rest := by
          obtain ⟨blanks, sign, digits, rfl, -⟩ := h
          exact fun hmem => hs (by simp [hmem])
        rw [deref_eq_nul_iff hmem] at hnul
        subst hnul
        -- a number alone disables or counts
        by_cases hn : 0 < n
        · exact hcounts n ⟨h, hn, hmax⟩
        · exact hdisables (Or.inr ⟨n, h, hmin, not_lt.mp hn⟩)
      simp only [retention_parse_string, strtoll_in_range h hmin hmax, Bool.false_and,
        Bool.false_eq_true, if_false, if_neg hrest]
      by_cases hn : n ≤ 0
      · exact ⟨_, if_pos hn⟩
      · rw [if_neg hn]
        cases hfind : retention_units.find? (unitMatches (rest.dropWhile (· == ' '))) with
        | none => exact ⟨_, rfl⟩
        | some unit =>
            exact absurd (lasts_of_find hs h (not_le.mp hn) hmax hfind) (hlasts n unit)
    · rw [not_and_or, not_le, not_le] at hrange
      exact ⟨_, retention_parse_string_out h hrange⟩
  · -- no conversion: the value is 0, and the string isn't empty
    have hne : deref s ≠ NUL := by
      rw [Ne, deref_eq_nul_iff hs]
      exact fun hnil => hdisables (Or.inl hnil)
    refine ⟨.notPositive 0, ?_⟩
    simp [retention_parse_string, strtoll_no_number hnumber, hne]

/-! ## The setting -/

/-- What a configuration value of type `PKG_STRING` holds; `NULL` stands for `""`. -/
def setting_string (string : Option CString) : List Char :=
  match string with
  | none => []
  | some s => s.chars

theorem nul_notMem_setting_string (string : Option CString) : NUL ∉ setting_string string := by
  cases string with
  | none => exact List.not_mem_nil
  | some s => exact s.noNul

/-- A count as the `uint64_t` that it is stored in. -/
theorem toU64_eq_iff {limit : UInt64} (hn : 0 < n) (hmax : n ≤ LLONG_MAX) :
    toU64 n = limit ↔ (limit.toNat : ℤ) = n := by
  have hstored := toU64_toNat n
  rw [Int.emod_eq_of_lt hn.le (by simp only [LLONG_MAX] at hmax; omega)] at hstored
  constructor
  · rintro rfl
    exact hstored
  · intro h
    exact UInt64.toNat_inj.mp (by omega)

/-- What is accepted is of one of the three kinds, and the result is that of its kind. -/
theorem retention_parse_string_accepted (hs : NUL ∉ s) {r : retention_type_t × UInt64}
    (h : retention_parse_string s now = .ok r) :
    (Disables s ∧ r.1 = .DISABLED)
      ∨ (∃ n, Counts s n ∧ r = (.BY_COUNT, toU64 n))
      ∨ ∃ n unit, Lasts s n unit ∧ r = (.BY_CREATION, toU64 now - toU64 n * unit.value) := by
  by_contra hcon
  push Not at hcon
  obtain ⟨hdisables, hcounts, hlasts⟩ := hcon
  obtain ⟨e, he⟩ : ∃ e, retention_parse_string s now = .error e := by
    refine retention_parse_string_refused hs (fun hkind => ?_) (fun n hkind => ?_)
      fun n unit hkind => ?_
    · obtain ⟨limit, hlimit⟩ := @retention_parse_string_disables _ now hkind
      rw [h] at hlimit
      exact hdisables hkind (congrArg Prod.fst (Except.ok.inj hlimit))
    · rw [retention_parse_string_counts hkind] at h
      exact hcounts n hkind (Except.ok.inj h).symm
    · rw [retention_parse_string_lasts hkind] at h
      exact hlasts n unit hkind (Except.ok.inj h).symm
  rw [he] at h
  cases h

/-- **Every string is classified as it is to be**: disabled, a count, a period, or an
error. -/
theorem retention_parse_classified (bool : Bool) (int : ℤ) (string : Option CString) (now : ℤ)
    (limit0 : UInt64) :
    Classified (setting_string string) now
      (retention_parse ⟨.PKG_STRING, bool, int, string⟩ now limit0) := by
  have hresult : retention_parse ⟨.PKG_STRING, bool, int, string⟩ now limit0
      = retention_parse_string (setting_string string) now := rfl
  have hs := nul_notMem_setting_string string
  rw [hresult]
  generalize setting_string string = s at hs
  constructor
  case disabled =>
    refine ⟨?_, retention_parse_string_disables⟩
    rintro ⟨limit, h⟩
    rcases retention_parse_string_accepted hs h with
      ⟨hdisables, -⟩ | ⟨n, -, hr⟩ | ⟨n, unit, -, hr⟩
    · exact hdisables
    · cases hr
    · cases hr
  case by_count =>
    intro limit
    constructor
    · intro h
      rcases retention_parse_string_accepted hs h with
        ⟨-, hr⟩ | ⟨n, hcounts, hr⟩ | ⟨n, unit, -, hr⟩
      · cases hr
      · have hlimit : toU64 n = limit := (congrArg Prod.snd hr).symm
        rwa [(toU64_eq_iff hcounts.2.1 hcounts.2.2).mp hlimit]
      · cases hr
    · intro hcounts
      rw [retention_parse_string_counts hcounts, (toU64_eq_iff hcounts.2.1 hcounts.2.2).mpr rfl]
  case by_creation =>
    intro limit
    constructor
    · intro h
      rcases retention_parse_string_accepted hs h with
        ⟨-, hr⟩ | ⟨n, -, hr⟩ | ⟨n, unit, hlasts, hr⟩
      · cases hr
      · cases hr
      · exact ⟨n, unit, hlasts, congrArg Prod.snd hr⟩
    · rintro ⟨n, unit, hlasts, rfl⟩
      exact retention_parse_string_lasts hlasts
  case error =>
    constructor
    · rintro ⟨e, he⟩
      refine ⟨fun hdisables => ?_, fun n hcounts => ?_, fun n unit hlasts => ?_⟩
      · obtain ⟨limit, hlimit⟩ := @retention_parse_string_disables _ now hdisables
        rw [hlimit] at he
        cases he
      · rw [retention_parse_string_counts hcounts] at he
        cases he
      · rw [retention_parse_string_lasts hlasts] at he
        cases he
    · rintro ⟨hdisables, hcounts, hlasts⟩
      exact retention_parse_string_refused hs hdisables hcounts hlasts

end PkgPlugins.Retention
