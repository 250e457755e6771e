/-
The conversion of text into integers: the functions `strnto*` and `strto*`
(`kissc/parsenum.c`), which are two macros applied to a width, one for the signed types and
one for the unsigned.

The value is accumulated in the unsigned type of the same width. Once a digit would
take it out of range (`any` is negative from there on), the remaining digits are
consumed without being added.
-/
import PkgPlugins.Accumulate
import PkgPlugins.Libc

set_option autoImplicit false

namespace PkgPlugins.ParseNum

open PkgPlugins.Libc PkgPlugins.Accumulate

/-! ## The functions -/

inductive ParseNumError
  | PARSE_NUM_NO_ERR
  | PARSE_NUM_ERR_NO_DIGIT_FOUND
  | PARSE_NUM_ERR_NON_DIGIT_FOUND
  | PARSE_NUM_ERR_INVALID_BASE
  | PARSE_NUM_ERR_TOO_SMALL
  | PARSE_NUM_ERR_TOO_LARGE
  | PARSE_NUM_ERR_LESS_THAN_MIN
  | PARSE_NUM_ERR_GREATER_THAN_MAX
deriving DecidableEq

/-- What a conversion returns: its status, `*endptr`, and `*ret` if it is set. -/
structure conversion where
  status : ParseNumError
  endptr : List Char
  ret : Option ℤ
deriving DecidableEq

/-- The value of a character, before it is compared to the base. -/
def char_value (base : ℤ) (c : Char) : Option ℤ :=
  if 48 ≤ c.toNat ∧ c.toNat ≤ 57 then some (c.toNat - 48)
  else if 10 < base ∧ 65 ≤ c.toNat ∧ c.toNat ≤ 90 then some (c.toNat - 65 - 10)
  else if 10 < base ∧ 97 ≤ c.toNat ∧ c.toNat ≤ 122 then some (c.toNat - 97 - 10)
  else none

/-- The loop over the characters, with `acc` and `any`; also gives the error and
where it stopped. -/
def digits_loop (bits : ℕ) (base cutoff cutlim : ℤ) :
    ℤ → ℤ → List Char → ℤ × ℤ × ParseNumError × List Char
  | acc, any, [] => (acc, any, .PARSE_NUM_NO_ERR, [])
  | acc, any, ch :: p =>
      match char_value base ch with
      | none => (acc, any, .PARSE_NUM_ERR_NON_DIGIT_FOUND, ch :: p)
      | some c =>
          if base ≤ c then (acc, any, .PARSE_NUM_ERR_NON_DIGIT_FOUND, ch :: p)
          else if any < 0 ∨ cutoff < acc ∨ acc = cutoff ∧ cutlim < c then
            -- after an overflow the digits are still consumed
            digits_loop bits base cutoff cutlim acc (-1) p
          else digits_loop bits base cutoff cutlim ((acc * base + c) % 2 ^ bits) 1 p

/-- The sign: whether it is negative, and what follows. -/
def sign (p : List Char) : Bool × List Char :=
  if deref p = '-' then (true, p.tail)
  else if deref p = '+' then (false, p.tail)
  else (false, p)

/-- A `0b` or `0x`, where the base allows for it. -/
def base_letters (value : ℤ) (lower upper : Char) (base : ℤ) (p : List Char) : ℤ × List Char :=
  if (base = 0 ∨ base = value) ∧ deref p = '0' ∧ 1 < p.length
      ∧ (deref p.tail = lower ∨ deref p.tail = upper) then (value, p.drop 2)
  else (base, p)

/-- The end of a conversion. -/
def convert (bits : ℕ) (negative : Bool) (min max : Option ℤ) (acc any : ℤ) (err : ParseNumError)
    (endptr : List Char) : conversion :=
  if any < 0 then
    if negative then ⟨.PARSE_NUM_ERR_TOO_SMALL, endptr, some (-2 ^ (bits - 1))⟩
    else ⟨.PARSE_NUM_ERR_TOO_LARGE, endptr, some (2 ^ (bits - 1) - 1)⟩
  else if any = 0 ∧ err = .PARSE_NUM_NO_ERR then ⟨.PARSE_NUM_ERR_NO_DIGIT_FOUND, endptr, none⟩
  else
    let ret := (if negative then -acc else acc).bmod (2 ^ bits)
    let err := if err = .PARSE_NUM_NO_ERR ∧ min.any (ret < ·) then
      .PARSE_NUM_ERR_LESS_THAN_MIN else err
    let err := if (err = .PARSE_NUM_NO_ERR ∨ err = .PARSE_NUM_ERR_LESS_THAN_MIN)
        ∧ max.any (· < ret) then .PARSE_NUM_ERR_GREATER_THAN_MAX else err
    ⟨err, endptr, some ret⟩

/-- `strnto` for the signed type of `bits` bits, on the text up to `end`. -/
def strnto (bits : ℕ) (nptr : List Char) (base : ℤ) (min max : Option ℤ) : conversion :=
  if nptr = [] then convert bits false min max 0 0 .PARSE_NUM_NO_ERR nptr
  else
    let (negative, p) := sign nptr
    let (base, p) := base_letters 2 'b' 'B' base p
    let (base, p) := base_letters 16 'x' 'X' base p
    let base := if base = 0 then (if deref p = '0' then 8 else 10) else base
    if base < 2 ∨ 36 < base then ⟨.PARSE_NUM_ERR_INVALID_BASE, p, none⟩
    else
      let cutoff : ℤ := if negative then 2 ^ (bits - 1) else 2 ^ (bits - 1) - 1
      let (acc, any, err, endptr) := digits_loop bits base (cutoff / base) (cutoff % base) 0 0 p
      convert bits negative min max acc any err endptr

/-- The end of a conversion into an unsigned type. -/
def convert_unsigned (bits : ℕ) (negative : Bool) (min max : Option ℤ) (acc any : ℤ)
    (err : ParseNumError) (endptr : List Char) : conversion :=
  if any < 0 then ⟨.PARSE_NUM_ERR_TOO_LARGE, endptr, some (2 ^ bits - 1)⟩
  else if any = 0 ∧ err = .PARSE_NUM_NO_ERR then ⟨.PARSE_NUM_ERR_NO_DIGIT_FOUND, endptr, none⟩
  else
    let ret := (if negative then -acc else acc) % 2 ^ bits
    let err := if err = .PARSE_NUM_NO_ERR ∧ min.any (ret < ·) then
      .PARSE_NUM_ERR_LESS_THAN_MIN else err
    let err := if (err = .PARSE_NUM_NO_ERR ∨ err = .PARSE_NUM_ERR_LESS_THAN_MIN)
        ∧ max.any (· < ret) then .PARSE_NUM_ERR_GREATER_THAN_MAX else err
    ⟨err, endptr, some ret⟩

/-- `strnto` for the unsigned type of `bits` bits. -/
def strnto_unsigned (bits : ℕ) (nptr : List Char) (base : ℤ) (min max : Option ℤ) : conversion :=
  if nptr = [] then convert_unsigned bits false min max 0 0 .PARSE_NUM_NO_ERR nptr
  else
    let (negative, p) := sign nptr
    let (base, p) := base_letters 2 'b' 'B' base p
    let (base, p) := base_letters 16 'x' 'X' base p
    let base := if base = 0 then (if deref p = '0' then 8 else 10) else base
    if base < 2 ∨ 36 < base then ⟨.PARSE_NUM_ERR_INVALID_BASE, p, none⟩
    else
      let limit : ℤ := 2 ^ bits - 1
      let (acc, any, err, endptr) := digits_loop bits base (limit / base) (limit % base) 0 0 p
      convert_unsigned bits negative min max acc any err endptr

def strntoint8_t : List Char → ℤ → Option ℤ → Option ℤ → conversion := strnto 8
def strntoint16_t : List Char → ℤ → Option ℤ → Option ℤ → conversion := strnto 16
def strntoint32_t : List Char → ℤ → Option ℤ → Option ℤ → conversion := strnto 32
def strntoint64_t : List Char → ℤ → Option ℤ → Option ℤ → conversion := strnto 64

def strntouint8_t : List Char → ℤ → Option ℤ → Option ℤ → conversion := strnto_unsigned 8
def strntouint16_t : List Char → ℤ → Option ℤ → Option ℤ → conversion := strnto_unsigned 16
def strntouint32_t : List Char → ℤ → Option ℤ → Option ℤ → conversion := strnto_unsigned 32
def strntouint64_t : List Char → ℤ → Option ℤ → Option ℤ → conversion := strnto_unsigned 64

/-- `strto*`, where `end` is the end of the string. -/
def up_to_nul (strnto : List Char → ℤ → Option ℤ → Option ℤ → conversion) (nptr : CString) :
    ℤ → Option ℤ → Option ℤ → conversion :=
  strnto nptr.chars

def strtoint8_t : CString → ℤ → Option ℤ → Option ℤ → conversion := up_to_nul strntoint8_t
def strtoint16_t : CString → ℤ → Option ℤ → Option ℤ → conversion := up_to_nul strntoint16_t
def strtoint32_t : CString → ℤ → Option ℤ → Option ℤ → conversion := up_to_nul strntoint32_t
def strtoint64_t : CString → ℤ → Option ℤ → Option ℤ → conversion := up_to_nul strntoint64_t

def strtouint8_t : CString → ℤ → Option ℤ → Option ℤ → conversion := up_to_nul strntouint8_t
def strtouint16_t : CString → ℤ → Option ℤ → Option ℤ → conversion := up_to_nul strntouint16_t
def strtouint32_t : CString → ℤ → Option ℤ → Option ℤ → conversion := up_to_nul strntouint32_t
def strtouint64_t : CString → ℤ → Option ℤ → Option ℤ → conversion := up_to_nul strntouint64_t

/-! ## The loop -/

/-- The value of a digit of the base. -/
def digit (base : ℤ) (c : Char) : Option ℤ := (char_value base c).filter (· < base)

/-- **The loop** accumulates the digits, and stops at what is none. -/
theorem digits_loop_eq {bits : ℕ} {base limit : ℤ} {value : Char → ℤ} {ds rest : List Char}
    (hds : ∀ c ∈ ds, digit base c = some (value c))
    (hrest : ∀ c, rest.head? = some c → digit base c = none) : ∀ acc any : ℤ,
      digits_loop bits base (limit / base) (limit % base) acc any (ds ++ rest)
        = (((ds.map value).foldl (add (2 ^ bits) base limit) (acc, any)).1,
            ((ds.map value).foldl (add (2 ^ bits) base limit) (acc, any)).2,
            (if rest = [] then .PARSE_NUM_NO_ERR else .PARSE_NUM_ERR_NON_DIGIT_FOUND), rest) := by
  induction ds with
  | nil =>
      intro acc any
      cases rest with
      | nil => rfl
      | cons c rest =>
          have hc : (char_value base c).filter (· < base) = none := hrest c rfl
          rw [List.nil_append, digits_loop, if_neg (List.cons_ne_nil c rest)]
          cases hval : char_value base c with
          | none => rfl
          | some v =>
              rw [hval, Option.filter_some, ite_eq_right_iff] at hc
              have hle : base ≤ v := by
                by_contra hlt
                exact absurd (hc (by simpa using hlt)) nofun
              simp only [if_pos hle]
              rfl
  | cons c ds ih =>
      intro acc any
      rw [List.forall_mem_cons] at hds
      obtain ⟨hval, hlt⟩ := Option.filter_eq_some_iff.mp hds.1
      have hlt' : ¬ base ≤ value c := by simpa using hlt
      rw [List.cons_append, digits_loop, hval]
      simp only [if_neg hlt', List.map_cons, List.foldl_cons]
      by_cases htest : any < 0 ∨ limit / base < acc ∨ acc = limit / base ∧ limit % base < value c
      · rw [if_pos htest, add, if_pos htest]
        exact ih hds.2 acc (-1)
      · rw [if_neg htest, add, if_neg htest]
        exact ih hds.2 _ 1

/-- The signed type has half of the values on each side of 0. -/
theorem pow_half {bits : ℕ} (hbits : 0 < bits) :
    (0 : ℤ) < 2 ^ (bits - 1) ∧ (2 : ℤ) ^ bits = 2 * 2 ^ (bits - 1) :=
  ⟨by positivity, by rw [← pow_succ', Nat.sub_add_cancel hbits]⟩

/-- A quotient by the base is far from the modulus. -/
theorem quotient_far {bits : ℕ} {base bound : ℤ} (hbits : 8 ≤ bits) (hlow : 2 ≤ base)
    (hhigh : base ≤ 36) (hbound : 0 ≤ bound) (hmodulus : bound < 2 ^ bits) :
    bound / base + base < 2 ^ bits := by
  have hpow : (2 : ℤ) ^ 8 ≤ 2 ^ bits := pow_le_pow_right₀ (by norm_num) hbits
  have hmul : bound / base * base ≤ bound := Int.ediv_mul_le bound (by omega)
  have hnonneg : 0 ≤ bound / base := Int.ediv_nonneg hbound (by omega)
  have htwo : bound / base * 2 ≤ bound / base * base := mul_le_mul_of_nonneg_left hlow hnonneg
  norm_num at hpow
  omega

/-! ## Decimal numbers -/

theorem char_value_of_isdigit {c : Char} (h : isdigit c = true) (base : ℤ) :
    char_value base c = some (digitVal c : ℤ) := by
  simp only [isdigit, Bool.and_eq_true, decide_eq_true_eq] at h
  rw [char_value, if_pos h, digitVal]
  congr 1
  omega

/-- In base ten, only a digit has a value. -/
theorem char_value_eq_none {c : Char} (h : isdigit c = false) : char_value 10 c = none := by
  have hnot : ¬ (48 ≤ c.toNat ∧ c.toNat ≤ 57) := by
    simpa [isdigit] using h
  rw [char_value, if_neg hnot, if_neg (by omega), if_neg (by omega)]

theorem digitVal_lt {c : Char} (h : isdigit c = true) : digitVal c < 10 := by
  simp only [isdigit, Bool.and_eq_true, decide_eq_true_eq] at h
  unfold digitVal
  omega

theorem digit_ten {c : Char} (h : isdigit c = true) : digit 10 c = some (digitVal c : ℤ) := by
  have hlt := digitVal_lt h
  rw [digit, char_value_of_isdigit h, Option.filter_some, if_pos]
  simp only [decide_eq_true_eq]
  omega

theorem horner_digitVal (ds : List Char) :
    horner 10 (ds.map fun c => (digitVal c : ℤ)) = digitsVal ds := by
  unfold digitsVal
  induction ds using List.reverseRecOn with
  | nil => rfl
  | append_singleton ds c ih =>
      rw [List.map_append, List.map_singleton, horner_append_one, ih, List.foldl_append]
      simp only [List.foldl_cons, List.foldl_nil]
      push_cast
      ring

/-- **The loop on decimal digits**: their number, or an overflow. -/
theorem digits_loop_ten {ds rest : List Char} (hds : ∀ c ∈ ds, isdigit c = true)
    (hrest : isdigit (deref rest) = false) :
    ∃ acc any, digits_loop 32 10 214748364 7 0 0 (ds ++ rest)
        = (acc, any, (if rest = [] then .PARSE_NUM_NO_ERR else .PARSE_NUM_ERR_NON_DIGIT_FOUND),
            rest)
      ∧ (2 ^ 31 ≤ digitsVal ds ∧ any = -1
        ∨ digitsVal ds < 2 ^ 31 ∧ acc = digitsVal ds ∧ any = if ds = [] then 0 else 1) := by
  have hnone : ∀ c, rest.head? = some c → digit 10 c = none := by
    intro c hc
    obtain ⟨rest, rfl⟩ := List.head?_eq_some_iff.mp hc
    rw [deref_cons] at hrest
    rw [digit, char_value_eq_none hrest, Option.filter_none]
  have hvalues : ∀ v ∈ ds.map fun c => (digitVal c : ℤ), 0 ≤ v ∧ v < 10 := by
    intro v hv
    obtain ⟨c, hc, rfl⟩ := List.mem_map.mp hv
    have hlt := digitVal_lt (hds c hc)
    omega
  have hspec := @accumulate_of_nonneg (2 ^ 32) 10 2147483647 (by norm_num) (by norm_num)
    (by norm_num) (by norm_num) _ hvalues
  rw [horner_digitVal] at hspec
  simp only [List.map_eq_nil_iff] at hspec
  have hloop := @digits_loop_eq 32 10 2147483647 (fun c => (digitVal c : ℤ)) ds rest
    (fun c hc => digit_ten (hds c hc)) hnone 0 0
  refine ⟨_, _, hloop, ?_⟩
  rcases hspec with ⟨hlarge, hneg⟩ | ⟨hfits, hacc⟩
  · exact Or.inl ⟨by omega, hneg⟩
  · rw [accumulate] at hacc
    exact Or.inr ⟨by omega, by rw [hacc], by rw [hacc]⟩

/-- In base ten a text that starts with a digit goes to the loop as it is. -/
theorem strntoint32_t_eq_loop {ds rest : List Char} (hne : ds ≠ [])
    (hds : ∀ c ∈ ds, isdigit c = true) {acc any : ℤ} {err : ParseNumError} {endptr : List Char}
    (hloop : digits_loop 32 10 214748364 7 0 0 (ds ++ rest) = (acc, any, err, endptr)) :
    strntoint32_t (ds ++ rest) 10 none none = convert 32 false none none acc any err endptr := by
  obtain ⟨d, tail, rfl⟩ := List.exists_cons_of_ne_nil hne
  have hd : isdigit d = true := hds d List.mem_cons_self
  have hminus : d ≠ '-' := by rintro rfl; exact absurd hd (by decide)
  have hplus : d ≠ '+' := by rintro rfl; exact absurd hd (by decide)
  -- a digit is neither a sign nor a letter of a base
  have hsign : sign ((d :: tail) ++ rest) = (false, (d :: tail) ++ rest) := by
    simp [sign, hminus, hplus]
  unfold strntoint32_t strnto
  rw [if_neg (by simp), hsign]
  generalize (d :: tail) ++ rest = text at hloop ⊢
  have hletters : ∀ (value : ℤ) (lower upper : Char), value = 2 ∨ value = 16 →
      base_letters value lower upper 10 text = (10, text) := by
    intro value lower upper hvalue
    rw [base_letters, if_neg (by omega)]
  simp [hletters, hloop]

/-- **A decimal number that fits** is converted: up to the end, or up to a character
that is no digit. -/
theorem strntoint32_t_digits {ds rest : List Char} (hne : ds ≠ [])
    (hds : ∀ c ∈ ds, isdigit c = true) (hrest : isdigit (deref rest) = false)
    (hfits : digitsVal ds < 2 ^ 31) :
    strntoint32_t (ds ++ rest) 10 none none
      = ⟨if rest = [] then .PARSE_NUM_NO_ERR else .PARSE_NUM_ERR_NON_DIGIT_FOUND, rest,
          some (digitsVal ds)⟩ := by
  obtain ⟨acc, any, hloop, ⟨hlarge, -⟩ | ⟨-, rfl, rfl⟩⟩ := digits_loop_ten hds hrest
  · omega
  · have hbmod : (digitsVal ds : ℤ).bmod (2 ^ 32) = digitsVal ds := by
      rw [Int.bmod_def]
      omega
    rw [strntoint32_t_eq_loop hne hds hloop]
    simpa [convert, hne] using hbmod

/-- A decimal number that doesn't fit is too large. -/
theorem strntoint32_t_large {ds rest : List Char} (hne : ds ≠ [])
    (hds : ∀ c ∈ ds, isdigit c = true) (hrest : isdigit (deref rest) = false)
    (hlarge : 2 ^ 31 ≤ digitsVal ds) :
    strntoint32_t (ds ++ rest) 10 none none
      = ⟨.PARSE_NUM_ERR_TOO_LARGE, rest, some (2 ^ 31 - 1)⟩ := by
  obtain ⟨acc, any, hloop, ⟨-, rfl⟩ | ⟨hfits, -⟩⟩ := digits_loop_ten hds hrest
  · rw [strntoint32_t_eq_loop hne hds hloop]
    rfl
  · omega

end PkgPlugins.ParseNum
