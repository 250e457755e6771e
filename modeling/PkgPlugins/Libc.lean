/-
The C library as the plugins use it: NUL-terminated strings, `strtoll(3)`,
`strtoull(3)`, `strncasecmp(3)` and the conversion of a signed value to `uint64_t`.

A C string is the list of the characters before its terminating NUL, and a
pointer into it is the suffix that starts there: `*p` is the head of the suffix
and reads the NUL when nothing is left, `p + n` drops `n` characters. That is
all the pointer arithmetic the parsers of this repository do on text.

Only the functions the models above call are here, each after its documented
behaviour in the `C` locale.
-/
import Mathlib.Data.List.Basic
import Mathlib.Data.List.TakeWhile
import Mathlib.Tactic.Common
import Mathlib.Tactic.Linarith
import Mathlib.Tactic.Ring

set_option autoImplicit false

namespace PkgPlugins.Libc

/-! ## Strings -/

/-- The character that ends every C string. -/
abbrev NUL : Char := '\x00'

/-- A C string: the characters before the terminating NUL, none of which is NUL. -/
structure CString where
  chars : List Char
  noNul : NUL ∉ chars
deriving DecidableEq

/-- `*p` for a pointer `p` into a string: the NUL is read at its end. -/
def deref (p : List Char) : Char := p.headD NUL

@[simp] theorem deref_nil : deref [] = NUL := by simp [deref]

@[simp] theorem deref_cons (c : Char) (p : List Char) : deref (c :: p) = c := by simp [deref]

/-- In a C string the NUL is read at the end and nowhere else. -/
theorem deref_eq_nul_iff {p : List Char} (hp : NUL ∉ p) : deref p = NUL ↔ p = [] := by
  cases p with
  | nil => simp
  | cons c p =>
      simp only [deref_cons, reduceCtorEq, iff_false]
      rintro rfl
      exact hp (by simp)

theorem cons_tail_of_deref {p : List Char} {c : Char} (h : deref p = c) (hc : c ≠ NUL) :
    c :: p.tail = p := by
  cases p with
  | nil => exact absurd h.symm hc
  | cons d p => rw [← h, deref_cons, List.tail_cons]

/-! ## Character classes -/

/-- `isspace(3)`: the space and the controls from tab to carriage return. -/
def isspace (c : Char) : Bool := c == ' ' || (9 ≤ c.toNat && c.toNat ≤ 13)

/-- `isdigit(3)`. -/
def isdigit (c : Char) : Bool := 48 ≤ c.toNat && c.toNat ≤ 57

/-- `tolower(3)`. -/
def tolower (c : Char) : Char :=
  if 65 ≤ c.toNat ∧ c.toNat ≤ 90 then Char.ofNat (c.toNat + 32) else c

/-- What holds of each letter from A to Z. -/
theorem forall_upper {P : Char → Prop} (h : ∀ n : Fin 26, P (Char.ofNat (n + 65))) {c : Char}
    (hc : 65 ≤ c.toNat ∧ c.toNat ≤ 90) : P c := by
  have hletter := h ⟨c.toNat - 65, by omega⟩
  rwa [Nat.sub_add_cancel hc.1, Char.ofNat_toNat] at hletter

/-- The value of a decimal digit. -/
def digitVal (c : Char) : ℕ := c.toNat - 48

/-- The value of a run of decimal digits, the first the most significant. -/
def digitsVal (ds : List Char) : ℕ := ds.foldl (fun acc c => 10 * acc + digitVal c) 0

theorem not_isspace_of_isdigit {c : Char} (h : isdigit c = true) : isspace c = false := by
  simp only [isdigit, Bool.and_eq_true, decide_eq_true_eq] at h
  simp only [isspace, Bool.or_eq_false_iff, beq_eq_false_iff_ne, ne_eq, Bool.and_eq_false_iff,
    decide_eq_false_iff_not]
  refine ⟨?_, Or.inr (by omega)⟩
  rintro rfl
  have : (' ' : Char).toNat = 32 := rfl
  omega

/-! ## `strncasecmp(3)` -/

/-- Compare at most `n` characters ignoring case; the first difference decides,
and a NUL on both sides ends the comparison. -/
def strncasecmp : List Char → List Char → ℕ → ℤ
  | _, _, 0 => 0
  | s1, s2, n + 1 =>
      let c1 := tolower (deref s1)
      let c2 := tolower (deref s2)
      if c1 = c2 then (if deref s1 = NUL then 0 else strncasecmp s1.tail s2.tail n)
      else (c1.toNat : ℤ) - (c2.toNat : ℤ)

theorem sub_toNat_ne_zero {c1 c2 : Char} (h : c1 ≠ c2) :
    (c1.toNat : ℤ) - (c2.toNat : ℤ) ≠ 0 := by
  intro h0
  have hnat : c1.toNat = c2.toNat := by omega
  exact h (Char.ext (UInt32.toNat_inj.mp hnat))

theorem tolower_ne_nul {c : Char} (h : c ≠ NUL) : tolower c ≠ NUL := by
  unfold tolower
  split_ifs with hc
  · intro h0
    have hv : (Char.ofNat (c.toNat + 32)).toNat = c.toNat + 32 := by
      rw [Char.ofNat, dif_pos (Or.inl (by omega))]
      rfl
    rw [h0] at hv
    have : NUL.toNat = 0 := rfl
    omega
  · exact h

/-- The first `name.length` characters of a string equal `name` up to case
exactly when the comparison limited to `name`'s length returns zero. -/
theorem strncasecmp_eq_zero_iff (name : List Char) (hname : NUL ∉ name) :
    ∀ p : List Char, strncasecmp p name name.length = 0
      ↔ (p.take name.length).map tolower = name.map tolower := by
  induction name with
  | nil => intro p; simp [strncasecmp]
  | cons c name ih =>
      intro p
      have hc : c ≠ NUL := fun h => hname (by simp [h])
      have hrest : NUL ∉ name := fun h => hname (by simp [h])
      cases p with
      | nil =>
          have hne : tolower NUL ≠ tolower c := fun h => tolower_ne_nul hc (h ▸ rfl)
          simp only [List.length_cons, strncasecmp, deref_nil, deref_cons]
          rw [if_neg hne]
          simpa using sub_toNat_ne_zero hne
      | cons d p =>
          simp only [List.length_cons, strncasecmp, deref_cons, List.tail_cons, List.take_succ_cons,
            List.map_cons, List.cons.injEq]
          by_cases heq : tolower d = tolower c
          · have hd : d ≠ NUL := by
              rintro rfl
              exact tolower_ne_nul hc (heq ▸ rfl)
            rw [if_pos heq, if_neg hd, ih hrest p]
            simp [heq]
          · rw [if_neg heq]
            simp [heq, sub_toNat_ne_zero heq]

/-! ## `strtoll(3)` in base ten -/

/-- `LLONG_MAX`, which is also `LONG_MAX` on the 64-bit platforms. -/
abbrev LLONG_MAX : ℤ := 2 ^ 63 - 1

/-- `LLONG_MIN`, which is also `LONG_MIN`. -/
abbrev LLONG_MIN : ℤ := -2 ^ 63

/-- What `strtoll` leaves behind: its value, `*endptr`, and whether it set
`errno` to `ERANGE`. -/
structure Strtoll where
  value : ℤ
  endptr : List Char
  erange : Bool
deriving DecidableEq

/-- The optional sign after the blanks: whether it is a minus, and what follows. -/
def strtoll_sign (p : List Char) : Bool × List Char :=
  if deref p = '-' then (true, p.tail)
  else if deref p = '+' then (false, p.tail)
  else (false, p)

/-- `strtoll(string, &endptr, 10)`: blanks, an optional sign, digits. Without a
digit the value is zero and `endptr` is the string itself; a value out of range
is clamped. -/
def strtoll (s : List Char) : Strtoll :=
  let (neg, q) := strtoll_sign (s.dropWhile isspace)
  let digits := q.takeWhile isdigit
  let rest := q.dropWhile isdigit
  if digits = [] then ⟨0, s, false⟩
  else
    let value : ℤ := if neg then -(digitsVal digits : ℤ) else digitsVal digits
    if LLONG_MAX < value then ⟨LLONG_MAX, rest, true⟩
    else if value < LLONG_MIN then ⟨LLONG_MIN, rest, true⟩
    else ⟨value, rest, false⟩

/-- `s` starts with a decimal number: blanks, a sign or none, and all the digits there
are. `n` is its value and `rest` what follows. -/
def Number (s : List Char) (n : ℤ) (rest : List Char) : Prop :=
  ∃ blanks sign digits, s = blanks ++ (sign ++ (digits ++ rest))
    ∧ (∀ c ∈ blanks, isspace c = true) ∧ sign ∈ [[], ['+'], ['-']]
    ∧ digits ≠ [] ∧ (∀ c ∈ digits, isdigit c = true) ∧ isdigit (deref rest) = false
    ∧ n = if sign = ['-'] then -(digitsVal digits : ℤ) else digitsVal digits

/-- A run of digits ends where no digit follows. -/
theorem digits_run {digits rest : List Char} (hdigits : ∀ c ∈ digits, isdigit c = true)
    (hrest : isdigit (deref rest) = false) :
    (digits ++ rest).takeWhile isdigit = digits ∧ (digits ++ rest).dropWhile isdigit = rest := by
  rw [List.takeWhile_append_of_pos hdigits, List.dropWhile_append_of_pos hdigits]
  cases rest with
  | nil => simp
  | cons r rest =>
      have hr : ¬ isdigit r = true := by simpa using hrest
      rw [List.takeWhile_cons_of_neg hr, List.dropWhile_cons_of_neg hr, List.append_nil]
      exact ⟨rfl, rfl⟩

/-- What is read before the digits. -/
theorem sign_run {blanks sign : List Char} {d : Char} (digits : List Char)
    (hblanks : ∀ c ∈ blanks, isspace c = true) (hsign : sign ∈ [[], ['+'], ['-']])
    (hd : isdigit d = true) :
    strtoll_sign ((blanks ++ (sign ++ d :: digits)).dropWhile isspace)
      = (decide (sign = ['-']), d :: digits) := by
  rw [List.dropWhile_append_of_pos hblanks]
  simp only [List.mem_cons, List.not_mem_nil, or_false] at hsign
  rcases hsign with rfl | rfl | rfl
  · have hminus : d ≠ '-' := by rintro rfl; exact absurd hd (by decide)
    have hplus : d ≠ '+' := by rintro rfl; exact absurd hd (by decide)
    rw [List.nil_append,
      List.dropWhile_cons_of_neg (by simpa using not_isspace_of_isdigit hd)]
    simp [strtoll_sign, hminus, hplus]
  · rw [List.singleton_append, List.dropWhile_cons_of_neg (by decide)]
    simp [strtoll_sign]
  · rw [List.singleton_append, List.dropWhile_cons_of_neg (by decide)]
    simp [strtoll_sign]

/-- The number a string starts with is the one `strtoll` scans. -/
theorem number_iff {s : List Char} {n : ℤ} {rest : List Char} :
    Number s n rest ↔
      (strtoll_sign (s.dropWhile isspace)).2.takeWhile isdigit ≠ []
        ∧ n = (if (strtoll_sign (s.dropWhile isspace)).1
            then -(digitsVal ((strtoll_sign (s.dropWhile isspace)).2.takeWhile isdigit) : ℤ)
            else digitsVal ((strtoll_sign (s.dropWhile isspace)).2.takeWhile isdigit))
        ∧ rest = (strtoll_sign (s.dropWhile isspace)).2.dropWhile isdigit := by
  constructor
  · rintro ⟨blanks, sign, digits, rfl, hblanks, hsign, hne, hdigits, hrest, rfl⟩
    obtain ⟨d, ds, rfl⟩ := List.exists_cons_of_ne_nil hne
    obtain ⟨htake, hdrop⟩ := digits_run hdigits hrest
    rw [List.cons_append] at htake hdrop ⊢
    rw [sign_run _ hblanks hsign (hdigits d (by simp)), htake, hdrop]
    exact ⟨hne, by simp only [decide_eq_true_eq], rfl⟩
  · rintro ⟨hne, hn, rfl⟩
    have hs : s = s.takeWhile isspace ++ s.dropWhile isspace := List.takeWhile_append_dropWhile.symm
    generalize hq : s.dropWhile isspace = q at *
    have hrun : (strtoll_sign q).2 = (strtoll_sign q).2.takeWhile isdigit
        ++ (strtoll_sign q).2.dropWhile isdigit := List.takeWhile_append_dropWhile.symm
    obtain ⟨sign, hsign, hminus, hq'⟩ : ∃ sign, sign ∈ [[], ['+'], ['-']]
        ∧ (strtoll_sign q).1 = decide (sign = ['-']) ∧ q = sign ++ (strtoll_sign q).2 := by
      unfold strtoll_sign
      split_ifs with hm hp
      · exact ⟨['-'], by simp, rfl, (cons_tail_of_deref hm (by decide)).symm⟩
      · exact ⟨['+'], by simp, rfl, (cons_tail_of_deref hp (by decide)).symm⟩
      · exact ⟨[], by simp, rfl, rfl⟩
    refine ⟨s.takeWhile isspace, sign, (strtoll_sign q).2.takeWhile isdigit, ?_,
      fun c hc => List.mem_takeWhile_imp hc, hsign, hne,
      fun c hc => List.mem_takeWhile_imp hc, ?_, ?_⟩
    · rw [← hrun, ← hq', ← hs]
    · cases hdrop : (strtoll_sign q).2.dropWhile isdigit with
      | nil => decide
      | cons c rest => simpa [hdrop] using List.head?_dropWhile_not isdigit (strtoll_sign q).2
    · rw [hn, hminus]
      simp only [decide_eq_true_eq]

/-- `strtoll` on a string that starts with a number. -/
theorem Number.strtoll_eq {s rest : List Char} {n : ℤ} (h : Number s n rest) :
    strtoll s = if LLONG_MAX < n then ⟨LLONG_MAX, rest, true⟩
      else if n < LLONG_MIN then ⟨LLONG_MIN, rest, true⟩ else ⟨n, rest, false⟩ := by
  obtain ⟨hne, rfl, rfl⟩ := number_iff.mp h
  simp only [strtoll, if_neg hne]

/-- And on any other. -/
theorem strtoll_no_number {s : List Char} (h : ¬ ∃ n rest, Number s n rest) :
    strtoll s = ⟨0, s, false⟩ := by
  have hnil : (strtoll_sign (s.dropWhile isspace)).2.takeWhile isdigit = [] := by
    by_contra hne
    exact h ⟨_, _, number_iff.mpr ⟨hne, rfl, rfl⟩⟩
  simp only [strtoll, hnil, if_true]

/-- `strtoll` on blanks, a non-negative number, and a tail that does not go on
with a digit. -/
theorem strtoll_number {blanks digits rest : List Char} (plus : Bool)
    (hblanks : ∀ c ∈ blanks, isspace c = true) (hdigits : ∀ c ∈ digits, isdigit c = true)
    (hne : digits ≠ []) (hrest : isdigit (deref rest) = false) :
    strtoll (blanks ++ ((if plus then ['+'] else []) ++ (digits ++ rest)))
      = if LLONG_MAX < (digitsVal digits : ℤ) then ⟨LLONG_MAX, rest, true⟩
        else ⟨digitsVal digits, rest, false⟩ := by
  have hnumber : Number (blanks ++ ((if plus then ['+'] else []) ++ (digits ++ rest)))
      (digitsVal digits) rest :=
    ⟨blanks, if plus then ['+'] else [], digits, rfl, hblanks, by cases plus <;> simp, hne, hdigits,
      hrest, by cases plus <;> simp⟩
  have hmin : ¬ ((digitsVal digits : ℤ) < LLONG_MIN) := by
    simp only [LLONG_MIN]; omega
  rw [hnumber.strtoll_eq, if_neg hmin]

/-! ## `strtoull(3)` in base ten -/

/-- `ULLONG_MAX`. -/
abbrev ULLONG_MAX : ℕ := 2 ^ 64 - 1

structure Strtoull where
  value : ℕ
  endptr : List Char
  erange : Bool
deriving DecidableEq

/-- `strtoull(string, &endptr, 10)`: like `strtoll`, but a minus negates the value
as an unsigned one. -/
def strtoull (s : List Char) : Strtoull :=
  let (neg, q) := strtoll_sign (s.dropWhile isspace)
  let digits := q.takeWhile isdigit
  let rest := q.dropWhile isdigit
  if digits = [] then ⟨0, s, false⟩
  else if ULLONG_MAX < digitsVal digits then ⟨ULLONG_MAX, rest, true⟩
  else ⟨if neg then (2 ^ 64 - digitsVal digits) % 2 ^ 64 else digitsVal digits, rest, false⟩

theorem isdigit_digitChar : ∀ n < 10, isdigit (Nat.digitChar n) = true := by decide

theorem digitVal_digitChar : ∀ n < 10, digitVal (Nat.digitChar n) = n := by decide

/-- `%" PRIu64 "`, read back digit by digit. -/
theorem digitsVal_toDigits (n : ℕ) :
    (∀ c ∈ Nat.toDigits 10 n, isdigit c = true) ∧ digitsVal (Nat.toDigits 10 n) = n := by
  induction n using Nat.strongRecOn with
  | ind n ih =>
      by_cases h : n < 10
      · rw [Nat.toDigits_of_lt_base h]
        simp [digitsVal, isdigit_digitChar n h, digitVal_digitChar n h]
      · obtain ⟨hdigits, hvalue⟩ := ih (n / 10) (by omega)
        have hlt : n % 10 < 10 := by omega
        rw [Nat.toDigits_of_base_le (by omega) (by omega)]
        constructor
        · intro c hc
          rcases List.mem_append.mp hc with hc | hc
          · exact hdigits c hc
          · rw [List.mem_singleton.mp hc]
            exact isdigit_digitChar _ hlt
        · rw [digitsVal, List.foldl_append, ← digitsVal, hvalue, List.foldl_cons, List.foldl_nil,
            digitVal_digitChar _ hlt]
          omega

/-- `strtoull` on a number that was printed. -/
theorem strtoull_toDigits {n : ℕ} (h : n ≤ ULLONG_MAX) :
    strtoull (Nat.toDigits 10 n) = ⟨n, [], false⟩ := by
  obtain ⟨hdigits, hvalue⟩ := digitsVal_toDigits n
  have hne : Nat.toDigits 10 n ≠ [] := Nat.toDigits_ne_nil
  obtain ⟨d, ds, hds⟩ := List.exists_cons_of_ne_nil hne
  have hd : isdigit d = true := hdigits d (by simp [hds])
  have hblank : (Nat.toDigits 10 n).dropWhile isspace = Nat.toDigits 10 n := by
    rw [hds]
    exact List.dropWhile_cons_of_neg (by simpa using not_isspace_of_isdigit hd)
  have hsign : strtoll_sign (Nat.toDigits 10 n) = (false, Nat.toDigits 10 n) := by
    have h1 : d ≠ '-' := by rintro rfl; exact absurd hd (by decide)
    have h2 : d ≠ '+' := by rintro rfl; exact absurd hd (by decide)
    simp [hds, strtoll_sign, h1, h2]
  have htake : (Nat.toDigits 10 n).takeWhile isdigit = Nat.toDigits 10 n :=
    List.takeWhile_eq_self_iff.mpr hdigits
  have hdrop : (Nat.toDigits 10 n).dropWhile isdigit = [] := List.dropWhile_eq_nil_iff.mpr hdigits
  simp only [strtoull, hblank, hsign, htake, hdrop, if_neg hne, hvalue, if_neg (Nat.not_lt.mpr h),
    Bool.false_eq_true, if_false]

/-! ## Conversion to `uint64_t` -/

/-- The usual arithmetic conversion of a signed value to `uint64_t`. -/
def toU64 (x : ℤ) : UInt64 := UInt64.ofNat (x % 2 ^ 64).toNat

theorem toU64_toNat (x : ℤ) : ((toU64 x).toNat : ℤ) = x % 2 ^ 64 := by
  have hlt : (x % 2 ^ 64).toNat < 2 ^ 64 := by omega
  rw [toU64, UInt64.toNat_ofNat_of_lt' hlt]
  omega

/-- `a - b * c` on `uint64_t` operands is the exact value reduced modulo `2^64`. -/
theorem toU64_sub_mul_toNat (a b : ℤ) (c : UInt64) :
    ((toU64 a - toU64 b * c).toNat : ℤ) = (a - b * c.toNat) % 2 ^ 64 := by
  have ha := toU64_toNat a
  have hb := toU64_toNat b
  rw [UInt64.toNat_sub, UInt64.toNat_mul]
  have hmul : (((toU64 b).toNat * c.toNat % 2 ^ 64 : ℕ) : ℤ) = b * c.toNat % 2 ^ 64 := by
    rw [Int.natCast_emod, Int.natCast_mul, hb, Int.mul_emod]
    push_cast
    rw [Int.emod_emod_of_dvd _ (by norm_num), ← Int.mul_emod]
  omega

end PkgPlugins.Libc
