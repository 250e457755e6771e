/-
The conversions in the bases that need letters (`kissc/parsenum.c`), into signed and unsigned
types.

The loop takes a letter for `c - 'A' - 10` or `c - 'a' - 10`, which is 20 less than it is
worth: A is -10, K is 0, and Z is 15. `misread` is that value. As it is smaller than any base
from 16 on, no letter stops a conversion there.
-/
import PkgPlugins.ParseNum

set_option autoImplicit false

namespace PkgPlugins.ParseNumLetters

open PkgPlugins.Libc PkgPlugins.Accumulate PkgPlugins.ParseNum

/-! ## What is promised -/

def IsLetter (c : Char) : Prop :=
  65 ≤ c.toNat ∧ c.toNat ≤ 90 ∨ 97 ≤ c.toNat ∧ c.toNat ≤ 122

instance (c : Char) : Decidable (IsLetter c) := inferInstanceAs (Decidable (_ ∨ _))

/-- What a character is worth: `A` and `a` are worth 10, up to `Z` and `z`. -/
def worth (c : Char) : Option ℤ :=
  if 48 ≤ c.toNat ∧ c.toNat ≤ 57 then some (c.toNat - 48)
  else if 65 ≤ c.toNat ∧ c.toNat ≤ 90 then some (c.toNat - 65 + 10)
  else if 97 ≤ c.toNat ∧ c.toNat ≤ 122 then some (c.toNat - 97 + 10)
  else none

/-- Digits and letters below the base. -/
def IsNumeral (base : ℤ) (ds : List Char) : Prop := ∀ c ∈ ds, ∃ v, worth c = some v ∧ v < base

/-- The number that they are. -/
def value (base : ℤ) (ds : List Char) : ℤ := horner base (ds.map fun c => (worth c).getD 0)

/-- **The promise** for digits and letters below the base: their number if it is within the
limit of the type, and else an error. -/
def Reads (strnto : ℤ → Option ℤ → Option ℤ → conversion) (limit base : ℤ) (ds : List Char) :
    Prop :=
  (value base ds ≤ limit → strnto base none none = ⟨.PARSE_NUM_NO_ERR, [], some (value base ds)⟩)
    ∧ (limit < value base ds → (strnto base none none).status = .PARSE_NUM_ERR_TOO_LARGE)

/-- **The promise** for a letter that is not below the base, after such a text: the conversion
stops there, and says so if the number before is not out of range. -/
def Stops (strnto : ℤ → Option ℤ → Option ℤ → conversion) (limit base : ℤ) (ds : List Char)
    (c : Char) (rest : List Char) : Prop :=
  (strnto base none none).endptr = c :: rest
    ∧ ((strnto base none none).status = .PARSE_NUM_ERR_NON_DIGIT_FOUND
      ∨ limit < value base ds ∧ (strnto base none none).status = .PARSE_NUM_ERR_TOO_LARGE)

/-- A character with a letter 20 too low. -/
def misread (c : Char) : ℤ := if IsLetter c then (worth c).getD 0 - 20 else (worth c).getD 0

/-- Where the first promise is kept: for a text without letters, and for one whose number is
out of range if it is still refused with the letters too low. -/
def ReadKept (limit base : ℤ) (ds : List Char) : Prop :=
  (∀ c ∈ ds, ¬ IsLetter c) ∨ limit < value base ds ∧ Overflows base limit (ds.map misread)

/-- Where the second one is kept: for a letter that is not below the base even 20 too low, if
the text before it is not refused while its number is in range. -/
def StopKept (limit base : ℤ) (ds : List Char) (c : Char) : Prop :=
  (∃ v, worth c = some v ∧ base + 20 ≤ v)
    ∧ (Overflows base limit (ds.map misread) → limit < value base ds)

/-- Both promises are kept just there. -/
def KeptExactly {T : Type} (chars : T → List Char)
    (strnto : T → ℤ → Option ℤ → Option ℤ → conversion) (limit base : ℤ) (text : T) : Prop :=
  (chars text ≠ [] → IsNumeral base (chars text) →
    (Reads (strnto text) limit base (chars text) ↔ ReadKept limit base (chars text)))
  ∧ ∀ ds c rest v, chars text = ds ++ c :: rest → IsNumeral base ds → IsLetter c →
    worth c = some v → base ≤ v →
    (Stops (strnto text) limit base ds c rest ↔ StopKept limit base ds c)

/-! ## Characters -/

section Characters

variable {base : ℤ} {c : Char} {v : ℤ}

/-- The three kinds of characters that are worth something. -/
theorem worth_cases (h : worth c = some v) :
    48 ≤ c.toNat ∧ c.toNat ≤ 57 ∧ v = c.toNat - 48
      ∨ 65 ≤ c.toNat ∧ c.toNat ≤ 90 ∧ v = c.toNat - 65 + 10
      ∨ 97 ≤ c.toNat ∧ c.toNat ≤ 122 ∧ v = c.toNat - 97 + 10 := by
  unfold worth at h
  split_ifs at h <;> cases h <;> omega

theorem misread_eq (h : worth c = some v) : misread c = if IsLetter c then v - 20 else v := by
  rw [misread, h, Option.getD_some]

theorem worth_mem (h : worth c = some v) :
    0 ≤ v ∧ v < 36 ∧ (IsLetter c → 10 ≤ v) ∧ (¬ IsLetter c → v < 10) := by
  have hcases := worth_cases h
  unfold IsLetter
  omega

/-- The code's value of a character. -/
theorem char_value_eq (hbase : 11 ≤ base) (h : worth c = some v) :
    char_value base c = some (misread c) := by
  rw [misread_eq h]
  unfold char_value
  rcases worth_cases h with ⟨hlow, hhigh, rfl⟩ | ⟨hlow, hhigh, rfl⟩ | ⟨hlow, hhigh, rfl⟩
  · have hnot : ¬ IsLetter c := by
      unfold IsLetter
      omega
    rw [if_pos ⟨hlow, hhigh⟩, if_neg hnot]
  · have hletter : IsLetter c := Or.inl ⟨hlow, hhigh⟩
    rw [if_neg (by omega), if_pos ⟨by omega, hlow, hhigh⟩, if_pos hletter]
    congr 1
    omega
  · have hletter : IsLetter c := Or.inr ⟨hlow, hhigh⟩
    rw [if_neg (by omega), if_neg (by omega), if_pos ⟨by omega, hlow, hhigh⟩, if_pos hletter]
    congr 1
    omega

/-- A digit or letter below the base is taken. -/
theorem digit_misread (hbase : 11 ≤ base) (h : worth c = some v) (hlt : misread c < base) :
    digit base c = some (misread c) := by
  rw [digit, char_value_eq hbase h, Option.filter_some, if_pos (decide_eq_true hlt)]

theorem digit_none (hbase : 11 ≤ base) (h : worth c = some v) (hle : base ≤ misread c) :
    digit base c = none := by
  have hnot : ¬ misread c < base := by omega
  rw [digit, char_value_eq hbase h, Option.filter_some, if_neg (by simpa using hnot)]

theorem misread_mem (hbase : 11 ≤ base) (h : worth c = some v) (hlt : v < base) :
    -base < misread c ∧ misread c < base := by
  have hworth := worth_mem h
  rw [misread_eq h]
  split_ifs with hletter
  · have hten := hworth.2.2.1 hletter
    omega
  · omega

end Characters

/-! ## Texts -/

section Texts

variable {base limit : ℤ} {ds : List Char}

/-- How much the letters are too low, altogether. -/
def letters (base : ℤ) (ds : List Char) : ℤ :=
  horner base (ds.map fun c => if IsLetter c then 1 else 0)

theorem value_eq (base : ℤ) (ds : List Char) :
    value base ds = horner base (ds.map misread) + 20 * letters base ds := by
  unfold value letters
  induction ds using List.reverseRecOn with
  | nil => rfl
  | append_singleton ds c ih =>
      simp only [List.map_append, List.map_singleton, horner_append_one] at ih ⊢
      rw [ih, misread]
      split_ifs <;> ring

theorem letters_nonneg (hbase : 0 < base) (ds : List Char) : 0 ≤ letters base ds := by
  refine horner_nonneg hbase fun v hv => ?_
  obtain ⟨c, -, rfl⟩ := List.mem_map.mp hv
  split_ifs <;> omega

theorem letters_pos (hbase : 0 < base) (h : ∃ c ∈ ds, IsLetter c) : 0 < letters base ds := by
  unfold letters
  induction ds using List.reverseRecOn with
  | nil => exact absurd h (by simp)
  | append_singleton ds c ih =>
      rw [List.map_append, List.map_singleton, horner_append_one]
      have hnonneg : 0 ≤ letters base ds * base := mul_nonneg (letters_nonneg hbase ds) hbase.le
      unfold letters at hnonneg
      by_cases hc : IsLetter c
      · rw [if_pos hc]
        omega
      · rw [if_neg hc]
        obtain ⟨d, hd, hletter⟩ := h
        rcases List.mem_append.mp hd with hd | hd
        · have hmul := mul_pos (ih ⟨d, hd, hletter⟩) hbase
          omega
        · rw [List.mem_singleton.mp hd] at hletter
          exact absurd hletter hc

/-- Without letters nothing is misread. -/
theorem misread_value (h : ∀ c ∈ ds, ¬ IsLetter c) :
    horner base (ds.map misread) = value base ds := by
  have hsame : ds.map misread = ds.map fun c => (worth c).getD 0 :=
    List.map_congr_left fun c hc => by rw [misread, if_neg (h c hc)]
  rw [hsame, value]

theorem worth_nonneg (c : Char) : 0 ≤ (worth c).getD 0 := by
  cases h : worth c with
  | none => exact Int.le_refl 0
  | some v => exact (worth_mem h).1

theorem value_nonneg (hbase : 0 < base) (ds : List Char) : 0 ≤ value base ds := by
  refine horner_nonneg hbase fun v hv => ?_
  obtain ⟨c, -, rfl⟩ := List.mem_map.mp hv
  exact worth_nonneg c

theorem overflows_value (hbase : 0 < base) (hlimit : 0 ≤ limit) (h : ∀ c ∈ ds, ¬ IsLetter c) :
    Overflows base limit (ds.map misread) ↔ limit < value base ds := by
  rw [← misread_value h]
  refine overflows_iff hbase hlimit fun v hv => ?_
  obtain ⟨c, hc, rfl⟩ := List.mem_map.mp hv
  rw [misread, if_neg (h c hc)]
  exact worth_nonneg c

/-- No power of two is a multiple of five. -/
theorem two_pow_ne (bits : ℕ) (k : ℤ) : (2 : ℤ) ^ bits ≠ 20 * k := by
  have hfive : ∀ n : ℕ, (2 : ℤ) ^ n % 5 ≠ 0 := by
    intro n
    induction n with
    | zero => decide
    | succ n ih =>
        rw [pow_succ]
        omega
  intro h
  exact hfive bits (by omega)

/-- **A misread number is never right**: not even reduced is it the number itself. -/
theorem misread_ne {bits : ℕ} (hbase : 0 < base) (hfar : limit + base ≤ 2 * 2 ^ bits)
    (hlow : -base < horner base (ds.map misread)) (hvalue : value base ds ≤ limit)
    (hletter : ∃ c ∈ ds, IsLetter c) :
    value base ds % 2 ^ bits ≠ horner base (ds.map misread) % 2 ^ bits := by
  intro hsame
  have hpos := letters_pos hbase hletter
  have hsplit := value_eq base ds
  have hmodulus : (0 : ℤ) < 2 ^ bits := by positivity
  obtain ⟨k, hk⟩ := Int.dvd_of_emod_eq_zero (Int.emod_eq_emod_iff_emod_sub_eq_zero.mp hsame)
  -- the difference is positive and less than twice the modulus, so that it is the modulus
  have hone : k = 1 := by
    have hlow : 0 < k := by
      by_contra hk0
      have hle : 2 ^ bits * k ≤ 0 := mul_nonpos_of_nonneg_of_nonpos hmodulus.le (by omega)
      omega
    have hhigh : k < 2 := by
      by_contra hk2
      have hge : 2 ^ bits * 2 ≤ 2 ^ bits * k := mul_le_mul_of_nonneg_left (by omega) hmodulus.le
      omega
    omega
  rw [hone, mul_one] at hk
  exact two_pow_ne bits (letters base ds) (by omega)

end Texts

/-! ## Conversions -/

/-- What both macros make of the end of the loop, for a text without a sign. -/
structure Ends (bits : ℕ) (limit acc any : ℤ) (err : ParseNumError) (endptr : List Char)
    (r : conversion) : Prop where
  endptr : r.endptr = endptr
  overflow : any < 0 → r.status = .PARSE_NUM_ERR_TOO_LARGE
  status : 0 ≤ any → any ≠ 0 ∨ err ≠ .PARSE_NUM_NO_ERR → r.status = err
  ret : 0 ≤ any → any ≠ 0 ∨ err ≠ .PARSE_NUM_NO_ERR → ∃ v, r.ret = some v
    ∧ v % 2 ^ bits = acc % 2 ^ bits ∧ (0 ≤ acc → acc ≤ limit → v = acc)

/-- No sign starts the text. -/
def Unsigned (text : List Char) : Prop := deref text ≠ '-' ∧ deref text ≠ '+'

/-- What the loop is given: the text after a `0x`. -/
def stripped (base : ℤ) (text : List Char) : List Char := (base_letters 16 'x' 'X' base text).2

/-- A conversion with this limit is its loop, and its end one of the two. -/
def Loops (bits : ℕ) (limit : ℤ) (strnto : List Char → ℤ → Option ℤ → Option ℤ → conversion) :
    Prop :=
  ∀ (text : List Char) (base acc any : ℤ) (err : ParseNumError) (endptr : List Char),
    11 ≤ base → base ≤ 36 → text ≠ [] → Unsigned text →
    digits_loop bits base (limit / base) (limit % base) 0 0 (stripped base text)
      = (acc, any, err, endptr) →
    Ends bits limit acc any err endptr (strnto text base none none)

section Conversions

variable {bits : ℕ} {base limit : ℤ} {text : List Char}

theorem base_letters_high (hbase : 11 ≤ base) (text : List Char) :
    base_letters 2 'b' 'B' base text = (base, text)
      ∧ base_letters 16 'x' 'X' base text = (base, stripped base text) := by
  constructor
  · exact if_neg fun hboth => absurd hboth.1 (by omega)
  · unfold stripped base_letters
    split_ifs with h
    · rw [show base = 16 by omega]
    · rfl

theorem sign_unsigned (h : Unsigned text) : sign text = (false, text) := by
  rw [sign, if_neg h.1, if_neg h.2]

theorem convert_ends (hbits : 0 < bits) (acc any : ℤ) (err : ParseNumError) (endptr : List Char) :
    Ends bits (2 ^ (bits - 1) - 1) acc any err endptr
      (convert bits false none none acc any err endptr) := by
  have hpow := (pow_half hbits).2
  unfold convert
  by_cases hneg : any < 0
  · rw [if_pos hneg]
    exact ⟨rfl, fun _ => rfl, fun h => absurd hneg (by omega), fun h => absurd hneg (by omega)⟩
  · rw [if_neg hneg]
    by_cases hnone : any = 0 ∧ err = .PARSE_NUM_NO_ERR
    · rw [if_pos hnone]
      exact ⟨rfl, fun h => absurd h hneg, fun _ h => absurd h (by tauto),
        fun _ h => absurd h (by tauto)⟩
    · rw [if_neg hnone]
      refine ⟨rfl, fun h => absurd h hneg, fun _ _ => by simp, fun _ _ => ⟨_, rfl, ?_, ?_⟩⟩
      · have hcast : ((2 ^ bits : ℕ) : ℤ) = 2 ^ bits := by push_cast; rfl
        rw [← hcast]
        exact Int.bmod_emod
      · intro hnonneg hle
        apply Int.bmod_eq_of_le_mul_two
        · push_cast
          omega
        · push_cast
          omega

theorem convert_unsigned_ends (acc any : ℤ) (err : ParseNumError) (endptr : List Char) :
    Ends bits (2 ^ bits - 1) acc any err endptr
      (convert_unsigned bits false none none acc any err endptr) := by
  unfold convert_unsigned
  by_cases hneg : any < 0
  · rw [if_pos hneg]
    exact ⟨rfl, fun _ => rfl, fun h => absurd hneg (by omega), fun h => absurd hneg (by omega)⟩
  · rw [if_neg hneg]
    by_cases hnone : any = 0 ∧ err = .PARSE_NUM_NO_ERR
    · rw [if_pos hnone]
      exact ⟨rfl, fun h => absurd h hneg, fun _ h => absurd h (by tauto),
        fun _ h => absurd h (by tauto)⟩
    · rw [if_neg hnone]
      refine ⟨rfl, fun h => absurd h hneg, fun _ _ => by simp, fun _ _ => ⟨_, rfl, ?_, ?_⟩⟩
      · exact Int.emod_emod_of_dvd _ (Int.dvd_refl _)
      · exact fun hnonneg hle => Int.emod_eq_of_lt hnonneg (by omega)

theorem strnto_loops (hbits : 0 < bits) : Loops bits (2 ^ (bits - 1) - 1) (strnto bits) := by
  intro text base acc any err endptr hbase hhigh hne hsign hloop
  have hletters := base_letters_high hbase text
  have hrange : ¬ (base < 2 ∨ 36 < base) := by omega
  have hrun : strnto bits text base none none
      = convert bits false none none acc any err endptr := by
    rw [strnto, if_neg hne, sign_unsigned hsign]
    simp only [hletters.1, hletters.2, if_neg (show base ≠ 0 by omega), if_neg hrange,
      Bool.false_eq_true, if_false, hloop]
  rw [hrun]
  exact convert_ends hbits acc any err endptr

theorem strnto_unsigned_loops : Loops bits (2 ^ bits - 1) (strnto_unsigned bits) := by
  intro text base acc any err endptr hbase hhigh hne hsign hloop
  have hletters := base_letters_high hbase text
  have hrange : ¬ (base < 2 ∨ 36 < base) := by omega
  have hrun : strnto_unsigned bits text base none none
      = convert_unsigned bits false none none acc any err endptr := by
    rw [strnto_unsigned, if_neg hne, sign_unsigned hsign]
    simp only [hletters.1, hletters.2, if_neg (show base ≠ 0 by omega), if_neg hrange, hloop]
  rw [hrun]
  exact convert_unsigned_ends acc any err endptr

end Conversions

/-! ## Numerals -/

section Numerals

variable {bits : ℕ} {base limit : ℤ} {ds : List Char}
  {strnto : List Char → ℤ → Option ℤ → Option ℤ → conversion}

theorem unsigned_of_worth {c : Char} {v : ℤ} (h : worth c = some v) (p : List Char) :
    Unsigned (c :: p) := by
  have hminus : worth '-' = none := by decide
  have hplus : worth '+' = none := by decide
  refine ⟨?_, ?_⟩
  · rintro rfl
    cases hminus.symm.trans h
  · rintro rfl
    cases hplus.symm.trans h

/-- The `0x` is there, or the loop is given the whole text. -/
theorem stripped_cases (hbase : 11 ≤ base) (text : List Char) :
    stripped base text = text
      ∨ base = 16 ∧ ∃ c p, text = '0' :: c :: p ∧ (c = 'x' ∨ c = 'X')
        ∧ stripped base text = p := by
  unfold stripped base_letters
  split_ifs with h
  · obtain ⟨h16, hzero, hlen, hx⟩ := h
    refine Or.inr ⟨by omega, ?_⟩
    cases text with
    | nil => exact absurd hlen (by simp)
    | cons d text =>
        cases text with
        | nil => exact absurd hlen (by simp)
        | cons c p =>
            obtain rfl : d = '0' := hzero
            exact ⟨c, p, rfl, hx, rfl⟩
  · exact Or.inl rfl

/-- An `x` is not below 16. -/
theorem not_numeral_x {c : Char} (hc : c = 'x' ∨ c = 'X') : ¬ ∃ v, worth c = some v ∧ v < 16 := by
  rintro ⟨v, hv, hlt⟩
  have hx : worth c = some 33 := by
    rcases hc with rfl | rfl <;> decide
  rw [hx, Option.some.injEq] at hv
  omega

theorem stripped_numeral (hbase : 11 ≤ base) (h : IsNumeral base ds) : stripped base ds = ds := by
  rcases stripped_cases hbase ds with hsame | ⟨rfl, c, p, rfl, hc, -⟩
  · exact hsame
  · exact absurd (h c (by simp)) (not_numeral_x hc)

/-- The loop takes digits and letters below the base, which are misread. -/
theorem IsNumeral.digits (hbase : 11 ≤ base) (h : IsNumeral base ds) :
    ∀ c ∈ ds, digit base c = some (misread c) := by
  intro c hc
  obtain ⟨v, hv, hlt⟩ := h c hc
  exact digit_misread hbase hv (misread_mem hbase hv hlt).2

theorem IsNumeral.misread_mem (hbase : 11 ≤ base) (h : IsNumeral base ds) :
    ∀ v ∈ ds.map misread, -base < v ∧ v < base := by
  intro v hv
  obtain ⟨c, hc, rfl⟩ := List.mem_map.mp hv
  obtain ⟨w, hw, hlt⟩ := h c hc
  exact ParseNumLetters.misread_mem hbase hw hlt

section Outcomes

variable {f : ℤ → Option ℤ → Option ℤ → conversion}

/-- A refusal is right for a number out of range. -/
theorem reads_of_large (hrun : (f base none none).status = .PARSE_NUM_ERR_TOO_LARGE) :
    Reads f limit base ds ↔ limit < value base ds := by
  constructor
  · rintro ⟨hread, -⟩
    by_contra hle
    have hok := congrArg conversion.status (hread (Int.not_lt.mp hle))
    cases hrun.symm.trans hok
  · intro hlarge
    exact ⟨fun hle => absurd hlarge (Int.not_lt.mpr hle), fun _ => hrun⟩

/-- A number that is returned is right if it is in range and the number of the text. -/
theorem reads_of_read {v : ℤ} (hrun : f base none none = ⟨.PARSE_NUM_NO_ERR, [], some v⟩) :
    Reads f limit base ds ↔ value base ds ≤ limit ∧ v = value base ds := by
  constructor
  · rintro ⟨hread, hlarge⟩
    by_cases hle : value base ds ≤ limit
    · have hsame := hrun.symm.trans (hread hle)
      rw [conversion.mk.injEq, Option.some.injEq] at hsame
      exact ⟨hle, hsame.2.2⟩
    · cases (congrArg conversion.status hrun).symm.trans (hlarge (Int.not_le.mp hle))
  · rintro ⟨hle, rfl⟩
    exact ⟨fun _ => hrun, fun hlarge => absurd hlarge (Int.not_lt.mpr hle)⟩

end Outcomes

theorem IsNumeral.unsigned (h : IsNumeral base ds) (hne : ds ≠ []) (rest : List Char) :
    Unsigned (ds ++ rest) := by
  obtain ⟨c, p, rfl⟩ := List.exists_cons_of_ne_nil hne
  obtain ⟨v, hv, -⟩ := h c List.mem_cons_self
  exact unsigned_of_worth hv (p ++ rest)

/-- **Digits and letters below the base**: when they are read right. -/
theorem reads_iff (hloops : Loops bits limit strnto) (hbits : 8 ≤ bits) (hlimit : 0 ≤ limit)
    (hmodulus : limit < 2 ^ bits) (hbase : 11 ≤ base) (hhigh : base ≤ 36) (hne : ds ≠ [])
    (h : IsNumeral base ds) :
    Reads (strnto ds) limit base ds ↔ ReadKept limit base ds := by
  have hpos : 0 < base := by omega
  have hfar := quotient_far hbits (show 2 ≤ base by omega) hhigh hlimit hmodulus
  have hpow : (2 : ℤ) ^ 8 ≤ 2 ^ bits := pow_le_pow_right₀ (by norm_num) hbits
  norm_num at hpow
  -- the loop goes through the whole text
  have hnil : ∀ c, ([] : List Char).head? = some c → digit base c = none := by
    intro c hc
    cases hc
  have hloop := @digits_loop_eq bits base limit misread ds [] (h.digits hbase) hnil 0 0
  rw [List.append_nil, if_pos rfl] at hloop
  have hsign : Unsigned ds := List.append_nil ds ▸ h.unsigned hne []
  have hends := hloops ds base _ _ _ _ hbase hhigh hne hsign
    ((congrArg _ (stripped_numeral hbase h)).trans hloop)
  have hspec := accumulate_spec hpos hlimit hmodulus hfar (ds.map misread) (h.misread_mem hbase)
  rw [accumulate] at hspec
  unfold ReadKept
  rcases hspec with ⟨hover, hneg⟩ | ⟨hover, hlow, hfits, hacc⟩
  · rw [reads_of_large (hends.overflow (by omega))]
    constructor
    · intro hlarge
      exact Or.inr ⟨hlarge, hover⟩
    · rintro (hplain | ⟨hlarge, -⟩)
      · exact (overflows_value hpos hlimit hplain).mp hover
      · exact hlarge
  · -- the sum is taken, whether it is the number or not
    have hone : (if ds.map misread = [] then (0 : ℤ) else 1) = 1 :=
      if_neg (mt List.map_eq_nil_iff.mp hne)
    rw [hacc, hone] at hends
    obtain ⟨hendptr, -, hstatus, hret⟩ := hends
    have hok := hstatus (by simp) (Or.inl (by simp))
    obtain ⟨v, hv, hmod, hexact⟩ := hret (by simp) (Or.inl (by simp))
    simp only at hmod hexact
    rw [Int.emod_emod_of_dvd _ (Int.dvd_refl _)] at hmod
    have hrun : strnto ds base none none = ⟨.PARSE_NUM_NO_ERR, [], some v⟩ := by
      rw [← hok, ← hendptr, ← hv]
    rw [reads_of_read hrun]
    constructor
    · rintro ⟨hle, rfl⟩
      by_contra hkept
      have hletter : ∃ c ∈ ds, IsLetter c := by
        by_contra hnone
        exact hkept (Or.inl fun c hc hl => hnone ⟨c, hc, hl⟩)
      exact @misread_ne base limit ds bits hpos (by omega) hlow hle hletter hmod
    · rintro (hplain | ⟨-, hyes⟩)
      · rw [misread_value hplain] at hexact hfits
        have hnonneg := value_nonneg hpos ds
        rw [Int.emod_eq_of_lt hnonneg (by omega)] at hexact
        exact ⟨hfits, hexact hnonneg hfits⟩
      · exact absurd hyes hover

/-! ## Letters that are not below the base -/

/-- The loop ends in the text that it is given. -/
theorem endptr_length_le (cutoff cutlim : ℤ) (p : List Char) : ∀ acc any : ℤ,
    (digits_loop bits base cutoff cutlim acc any p).2.2.2.length ≤ p.length := by
  induction p with
  | nil => exact fun _ _ => Nat.le_refl _
  | cons c p ih =>
      intro acc any
      rw [digits_loop]
      split
      · exact Nat.le_refl _
      · split_ifs
        · exact Nat.le_refl _
        · exact (ih _ _).trans (Nat.le_succ _)
        · exact (ih _ _).trans (Nat.le_succ _)

/-- Digits are passed. -/
theorem endptr_digits (cutoff cutlim : ℤ) (rest : List Char) (cs : List Char)
    (hcs : ∀ c ∈ cs, ∃ v, digit base c = some v) : ∀ acc any : ℤ,
    (digits_loop bits base cutoff cutlim acc any (cs ++ rest)).2.2.2.length ≤ rest.length := by
  induction cs with
  | nil => exact endptr_length_le cutoff cutlim rest
  | cons c cs ih =>
      intro acc any
      rw [List.forall_mem_cons] at hcs
      obtain ⟨v, hv⟩ := hcs.1
      obtain ⟨hval, hlt⟩ := Option.filter_eq_some_iff.mp hv
      have hlt' : ¬ base ≤ v := by simpa using hlt
      rw [List.cons_append, digits_loop, hval]
      simp only [if_neg hlt']
      split_ifs
      · exact ih hcs.2 _ _
      · exact ih hcs.2 _ _

/-- A conversion whose loop ends after the letter doesn't stop there. -/
theorem not_stops_of_passed (hloops : Loops bits limit strnto) (hbase : 11 ≤ base)
    (hhigh : base ≤ 36) {c : Char} {rest : List Char} (hsign : Unsigned (ds ++ c :: rest))
    (hpassed : (digits_loop bits base (limit / base) (limit % base) 0 0
      (stripped base (ds ++ c :: rest))).2.2.2.length ≤ rest.length) :
    ¬ Stops (strnto (ds ++ c :: rest)) limit base ds c rest := by
  rintro ⟨hstop, -⟩
  have hends := hloops _ base _ _ _ _ hbase hhigh (by simp) hsign rfl
  rw [hends.endptr] at hstop
  rw [hstop, List.length_cons] at hpassed
  omega

/-- The letter after a numeral is the `x` if a `0x` starts the text. -/
theorem rest_of_stripped (h : IsNumeral 16 ds) {c x : Char} {rest p : List Char}
    (hletter : IsLetter c) (hx : x = 'x' ∨ x = 'X') (htext : ds ++ c :: rest = '0' :: x :: p) :
    rest = p := by
  cases ds with
  | nil =>
      obtain rfl : c = '0' := (List.cons.inj htext).1
      exact absurd hletter (by decide)
  | cons d ds =>
      cases ds with
      | nil => exact (List.cons.inj (List.cons.inj htext).2).2
      | cons e ds =>
          obtain rfl : e = x := (List.cons.inj (List.cons.inj htext).2).1
          exact absurd (h e (by simp)) (not_numeral_x hx)

/-- The loop ends at a letter that is not below the base even 20 too low, and what it returns
is about the digits before. -/
theorem stops_of_far (hloops : Loops bits limit strnto) (hbits : 8 ≤ bits) (hlimit : 0 ≤ limit)
    (hmodulus : limit < 2 ^ bits) (hbase : 11 ≤ base) (hhigh : base ≤ 36) (h : IsNumeral base ds)
    {c : Char} {v : ℤ} (hv : worth c = some v) (hfar : base ≤ misread c) {rest : List Char}
    (hsign : Unsigned (ds ++ c :: rest))
    (hsame : stripped base (ds ++ c :: rest) = ds ++ c :: rest) :
    Stops (strnto (ds ++ c :: rest)) limit base ds c rest
      ↔ (Overflows base limit (ds.map misread) → limit < value base ds) := by
  have hpos : 0 < base := by omega
  have hquotient := quotient_far hbits (show 2 ≤ base by omega) hhigh hlimit hmodulus
  have hnone : ∀ d, (c :: rest).head? = some d → digit base d = none := by
    intro d hd
    obtain rfl : c = d := Option.some.inj hd
    exact digit_none hbase hv hfar
  have hloop := @digits_loop_eq bits base limit misread ds (c :: rest) (h.digits hbase) hnone 0 0
  rw [if_neg (List.cons_ne_nil c rest)] at hloop
  have hends := hloops _ base _ _ _ _ hbase hhigh (by simp) hsign ((congrArg _ hsame).trans hloop)
  have hspec :=
    accumulate_spec hpos hlimit hmodulus hquotient (ds.map misread) (h.misread_mem hbase)
  rw [accumulate] at hspec
  unfold Stops
  rw [and_iff_right hends.endptr]
  rcases hspec with ⟨hover, hneg⟩ | ⟨hover, -, -, hacc⟩
  · rw [hends.overflow (by omega)]
    constructor
    · rintro (hother | ⟨hlarge, -⟩) -
      · cases hother
      · exact hlarge
    · intro hkept
      exact Or.inr ⟨hkept hover, rfl⟩
  · have hany : (0 : ℤ) ≤ if ds.map misread = [] then 0 else 1 := by
      split_ifs <;> omega
    rw [hacc] at hends
    have hstatus := hends.status hany (Or.inr (by decide))
    exact ⟨fun _ hyes => absurd hyes hover, fun _ => Or.inl hstatus⟩

/-- Any other letter is taken for a digit. -/
theorem not_stops_of_near (hloops : Loops bits limit strnto) (hbase : 11 ≤ base)
    (hhigh : base ≤ 36) (h : IsNumeral base ds) {c : Char} {v : ℤ} (hv : worth c = some v)
    (hnear : misread c < base) {rest : List Char}
    (hsign : Unsigned (ds ++ c :: rest))
    (hsame : stripped base (ds ++ c :: rest) = ds ++ c :: rest) :
    ¬ Stops (strnto (ds ++ c :: rest)) limit base ds c rest := by
  refine not_stops_of_passed hloops hbase hhigh hsign ?_
  have hdigits : ∀ d ∈ ds ++ [c], ∃ w, digit base d = some w := by
    intro d hd
    rcases List.mem_append.mp hd with hd | hd
    · exact ⟨_, h.digits hbase d hd⟩
    · rw [List.mem_singleton.mp hd]
      exact ⟨_, digit_misread hbase hv hnear⟩
  have hpass := @endptr_digits bits base (limit / base) (limit % base) rest (ds ++ [c]) hdigits 0 0
  rwa [List.append_assoc, List.singleton_append, ← hsame] at hpass

/-- **A letter that is not below the base**: when the conversion stops there. -/
theorem stops_iff (hloops : Loops bits limit strnto) (hbits : 8 ≤ bits) (hlimit : 0 ≤ limit)
    (hmodulus : limit < 2 ^ bits) (hbase : 11 ≤ base) (hhigh : base ≤ 36) (h : IsNumeral base ds)
    {c : Char} {v : ℤ} (hletter : IsLetter c) (hv : worth c = some v) (hle : base ≤ v)
    (rest : List Char) :
    Stops (strnto (ds ++ c :: rest)) limit base ds c rest ↔ StopKept limit base ds c := by
  have hmis : misread c = v - 20 := by rw [misread_eq hv, if_pos hletter]
  have hworth := worth_mem hv
  have hsign : Unsigned (ds ++ c :: rest) := by
    by_cases hds : ds = []
    · rw [hds]
      exact unsigned_of_worth hv rest
    · exact h.unsigned hds (c :: rest)
  have hvalue : (∃ w, worth c = some w ∧ base + 20 ≤ w) ↔ base + 20 ≤ v := by
    rw [hv]
    constructor
    · rintro ⟨w, hw, hlew⟩
      rwa [Option.some.inj hw]
    · intro hlev
      exact ⟨v, rfl, hlev⟩
  unfold StopKept
  rw [hvalue]
  rcases stripped_cases hbase (ds ++ c :: rest) with hsame | ⟨rfl, x, p, htext, hx, hstrip⟩
  · by_cases htwenty : base + 20 ≤ v
    · rw [and_iff_right htwenty]
      exact stops_of_far hloops hbits hlimit hmodulus hbase hhigh h hv (by omega) hsign hsame
    · refine iff_of_false ?_ fun hkept => htwenty hkept.1
      exact not_stops_of_near hloops hbase hhigh h hv (by omega) hsign hsame
  · -- the letter is the `x` of a `0x`, and what is behind it is left
    refine iff_of_false (not_stops_of_passed hloops hbase hhigh hsign ?_) fun hkept => ?_
    · rw [hstrip, rest_of_stripped h hletter hx htext]
      exact endptr_length_le _ _ p 0 0
    · have hmax := hkept.1
      omega

end Numerals

/-! ## The functions -/

section Functions

variable {T : Type} {base : ℤ} {chars : T → List Char}
  {conv : T → ℤ → Option ℤ → Option ℤ → conversion}

theorem kept_exactly {bits : ℕ} {limit : ℤ}
    {strnto : List Char → ℤ → Option ℤ → Option ℤ → conversion} (hloops : Loops bits limit strnto)
    (hbits : 8 ≤ bits) (hlimit : 0 ≤ limit) (hmodulus : limit < 2 ^ bits) (hbase : 11 ≤ base)
    (hhigh : base ≤ 36) (hconv : ∀ text, conv text = strnto (chars text)) (text : T) :
    KeptExactly chars conv limit base text := by
  unfold KeptExactly
  rw [hconv]
  refine ⟨reads_iff hloops hbits hlimit hmodulus hbase hhigh, ?_⟩
  intro ds c rest v htext h hletter hv hle
  rw [htext]
  exact stops_iff hloops hbits hlimit hmodulus hbase hhigh h hletter hv hle rest

theorem signed_kept_exactly {bits : ℕ} (hbits : 8 ≤ bits) (hbase : 11 ≤ base) (hhigh : base ≤ 36)
    (hconv : ∀ text, conv text = strnto bits (chars text)) (text : T) :
    KeptExactly chars conv (2 ^ (bits - 1) - 1) base text := by
  obtain ⟨hpos, hpow⟩ := pow_half (show 0 < bits by omega)
  exact kept_exactly (strnto_loops (by omega)) hbits (by omega) (by omega) hbase hhigh hconv text

theorem unsigned_kept_exactly {bits : ℕ} (hbits : 8 ≤ bits) (hbase : 11 ≤ base)
    (hhigh : base ≤ 36) (hconv : ∀ text, conv text = strnto_unsigned bits (chars text)) (text : T) :
    KeptExactly chars conv (2 ^ bits - 1) base text := by
  have hpos : (0 : ℤ) < 2 ^ bits := by positivity
  exact kept_exactly strnto_unsigned_loops hbits (by omega) (by omega) hbase hhigh hconv text

end Functions

/-- Digits and letters below the base, which can be tested. -/
theorem isNumeral_of_all {base : ℤ} {ds : List Char}
    (h : (ds.all fun c => (worth c).any (· < base)) = true) : IsNumeral base ds := by
  intro c hc
  obtain ⟨v, hv, hlt⟩ := (Option.any_eq_true _ _).mp (List.all_eq_true.mp h c hc)
  exact ⟨v, hv, of_decide_eq_true hlt⟩

end PkgPlugins.ParseNumLetters
