/-
The conversions into signed types (`kissc/parsenum.c`), in the bases that need no letters.

A text is a sign, in base 2 a `0b`, the digits and what stops them. What a conversion returns
is said of the number these digits are, and of these parts; `strnto_values` are the values
that are assigned to the accumulator, before the unsigned type reduces them.
-/
import PkgPlugins.ParseNum

set_option autoImplicit false

namespace PkgPlugins.ParseNumSigned

open PkgPlugins.Libc PkgPlugins.Accumulate PkgPlugins.ParseNum

/-! ## What is promised -/

/-- A digit of a base up to 10. -/
def IsDigit (base : ℤ) (c : Char) : Prop := 48 ≤ c.toNat ∧ (c.toNat : ℤ) < 48 + base

instance (base : ℤ) (c : Char) : Decidable (IsDigit base c) :=
  inferInstanceAs (Decidable (_ ∧ _))

/-- `'7' - '0'` -/
def digit_value (c : Char) : ℤ := c.toNat - 48

/-- The number that digits are. -/
def numeral (base : ℤ) (ds : List Char) : ℤ := horner base (ds.map digit_value)

/-- A text starts with the letters of base 2. -/
def Prefixed (p : List Char) : Prop := ['0', 'b'] <+: p ∨ ['0', 'B'] <+: p

/-- The parts of a text: the sign and the letters of base 2 if they are there, as many digits
as there are, and the rest. -/
structure Parts (base : ℤ) (text sign letters ds rest : List Char) : Prop where
  text_eq : text = sign ++ (letters ++ (ds ++ rest))
  signed : sign = ['-'] ∨ sign = ['+'] ∨ sign = [] ∧ text.head? ≠ some '-' ∧ text.head? ≠ some '+'
  lettered : base = 2 ∧ (letters = ['0', 'b'] ∨ letters = ['0', 'B'])
    ∨ letters = [] ∧ ¬ (base = 2 ∧ Prefixed (ds ++ rest))
  digits : ∀ c ∈ ds, IsDigit base c
  maximal : ∀ c, rest.head? = some c → ¬ IsDigit base c

/-- The number of a text with its sign. -/
def number (base : ℤ) (sign ds : List Char) : ℤ :=
  if sign = ['-'] then -numeral base ds else numeral base ds

/-- What a conversion into the signed type of `bits` bits returns for the number `v`: first
whether it is out of range, then whether something follows, whether there is a digit, and
last whether it is within the bounds of the caller. -/
def answer (bits : ℕ) (v : ℤ) (ds rest : List Char) (min max : Option ℤ) : conversion :=
  if 2 ^ (bits - 1) - 1 < v then ⟨.PARSE_NUM_ERR_TOO_LARGE, rest, some (2 ^ (bits - 1) - 1)⟩
  else if v < -2 ^ (bits - 1) then ⟨.PARSE_NUM_ERR_TOO_SMALL, rest, some (-2 ^ (bits - 1))⟩
  else if rest ≠ [] then ⟨.PARSE_NUM_ERR_NON_DIGIT_FOUND, rest, some v⟩
  else if ds = [] then ⟨.PARSE_NUM_ERR_NO_DIGIT_FOUND, rest, none⟩
  else if max.any (· < v) then ⟨.PARSE_NUM_ERR_GREATER_THAN_MAX, rest, some v⟩
  else if min.any (v < ·) then ⟨.PARSE_NUM_ERR_LESS_THAN_MIN, rest, some v⟩
  else ⟨.PARSE_NUM_NO_ERR, rest, some v⟩

/-- The values of `acc *= base` and `acc += c` in the loop. -/
def digits_loop_values (bits : ℕ) (base cutoff cutlim : ℤ) : ℤ → ℤ → List Char → List ℤ
  | _, _, [] => []
  | acc, any, ch :: p =>
      match char_value base ch with
      | none => []
      | some c =>
          if base ≤ c then []
          else if any < 0 ∨ cutoff < acc ∨ acc = cutoff ∧ cutlim < c then
            digits_loop_values bits base cutoff cutlim acc (-1) p
          else acc * base :: (acc * base + c)
            :: digits_loop_values bits base cutoff cutlim ((acc * base + c) % 2 ^ bits) 1 p

/-- The values of the accumulator in `strnto`. -/
def strnto_values (bits : ℕ) (nptr : List Char) (base : ℤ) : List ℤ :=
  if nptr = [] then []
  else
    let (negative, p) := sign nptr
    let (base, p) := base_letters 2 'b' 'B' base p
    let (base, p) := base_letters 16 'x' 'X' base p
    let base := if base = 0 then (if deref p = '0' then 8 else 10) else base
    if base < 2 ∨ 36 < base then []
    else
      let cutoff : ℤ := if negative then 2 ^ (bits - 1) else 2 ^ (bits - 1) - 1
      digits_loop_values bits base (cutoff / base) (cutoff % base) 0 0 p

/-- **The promise**: every text has its parts, the answer is that of its number, and the
accumulator never wraps. -/
def Converts (bits : ℕ) (strnto : List Char → ℤ → Option ℤ → Option ℤ → conversion) : Prop :=
  ∀ (text : List Char) (base : ℤ) (min max : Option ℤ), 2 ≤ base → base ≤ 10 →
    ∃ sign letters ds rest, Parts base text sign letters ds rest
      ∧ strnto text base min max = answer bits (number base sign ds) ds rest min max
      ∧ ∀ v ∈ strnto_values bits text base, 0 ≤ v ∧ v < 2 ^ bits

/-! ## The assignments -/

/-- The accumulator the loop ends with is what the assignments leave in the unsigned type,
one after the other. -/
theorem digits_loop_assigns (bits : ℕ) (base cutoff cutlim : ℤ) (p : List Char) :
    ∀ acc any : ℤ, (digits_loop bits base cutoff cutlim acc any p).1
      = (digits_loop_values bits base cutoff cutlim acc any p).foldl (fun _ v => v % 2 ^ bits)
          acc := by
  induction p with
  | nil => exact fun _ _ => rfl
  | cons ch p ih =>
      intro acc any
      rw [digits_loop, digits_loop_values]
      cases char_value base ch with
      | none => rfl
      | some c =>
          simp only
          split_ifs with hbase htest
          · rfl
          · exact ih acc (-1)
          · rw [List.foldl_cons, List.foldl_cons]
            exact ih _ 1

/-- On the start of a text the loop makes the first of its assignments, so the accumulator
is theirs at every character. -/
theorem digits_loop_values_prefix (bits : ℕ) (base cutoff cutlim : ℤ) (p q : List Char) :
    ∀ acc any : ℤ, digits_loop_values bits base cutoff cutlim acc any p
      <+: digits_loop_values bits base cutoff cutlim acc any (p ++ q) := by
  induction p with
  | nil => exact fun _ _ => List.nil_prefix
  | cons ch p ih =>
      intro acc any
      rw [List.cons_append, digits_loop_values, digits_loop_values]
      cases char_value base ch with
      | none => exact List.prefix_rfl
      | some c =>
          simp only
          split_ifs with hbase htest
          · exact List.prefix_rfl
          · exact ih acc (-1)
          · rw [List.prefix_cons_inj, List.prefix_cons_inj]
            exact ih _ 1

/-- **The assignments of `strnto`**: it converts the accumulator they leave, or there is
none and the base is not valid. -/
theorem strnto_assigns (bits : ℕ) (text : List Char) (base : ℤ) (min max : Option ℤ) :
    (∃ negative any err endptr, strnto bits text base min max
        = convert bits negative min max
            ((strnto_values bits text base).foldl (fun _ v => v % 2 ^ bits) 0) any err endptr)
      ∨ strnto_values bits text base = []
        ∧ (strnto bits text base min max).status = .PARSE_NUM_ERR_INVALID_BASE := by
  unfold strnto strnto_values
  by_cases hnil : text = []
  · rw [if_pos hnil, if_pos hnil]
    exact Or.inl ⟨_, _, _, _, rfl⟩
  · rw [if_neg hnil, if_neg hnil]
    obtain ⟨negative, p⟩ := sign text
    obtain ⟨base, p⟩ := base_letters 2 'b' 'B' base p
    obtain ⟨base, p⟩ := base_letters 16 'x' 'X' base p
    simp only
    split_ifs with hzero hrange
    all_goals first
      | exact Or.inr ⟨rfl, rfl⟩
      | exact Or.inl ⟨_, _, _, _, by rw [digits_loop_assigns]⟩

/-! ## The parts of a text -/

section Parts

variable {base : ℤ} {text signs letters ds rest : List Char}

theorem char_value_digit {c : Char} (hbase : base ≤ 10) :
    char_value base c = if 48 ≤ c.toNat ∧ c.toNat ≤ 57 then some (digit_value c) else none := by
  unfold char_value digit_value
  split_ifs <;> first | rfl | omega

theorem digit_eq {c : Char} (hbase : base ≤ 10) :
    digit base c = if IsDigit base c then some (digit_value c) else none := by
  rw [digit, char_value_digit hbase]
  by_cases hdigit : IsDigit base c
  · obtain ⟨hlow, hhigh⟩ := hdigit
    have hlt : digit_value c < base := by
      unfold digit_value
      omega
    rw [if_pos ⟨hlow, by omega⟩, if_pos ⟨hlow, hhigh⟩, Option.filter_some,
      if_pos (decide_eq_true hlt)]
  · rw [if_neg hdigit]
    split_ifs with hten
    · have hle : ¬ digit_value c < base := by
        unfold digit_value
        exact fun hlt => hdigit ⟨hten.1, by omega⟩
      rw [Option.filter_some, if_neg (by simpa using hle)]
    · rfl

theorem digit_value_mem {c : Char} (h : IsDigit base c) :
    0 ≤ digit_value c ∧ digit_value c < base := by
  obtain ⟨hlow, hhigh⟩ := h
  unfold digit_value
  omega

/-- The letters are taken where they are. -/
theorem base_letters_prefixed {p : List Char} (h : Prefixed p) :
    base_letters 2 'b' 'B' 2 p = (2, p.drop 2) := by
  unfold base_letters
  obtain ⟨q, rfl⟩ | ⟨q, rfl⟩ := h
  · exact if_pos ⟨Or.inr rfl, rfl, by simp, Or.inl rfl⟩
  · exact if_pos ⟨Or.inr rfl, rfl, by simp, Or.inr rfl⟩

/-- The letters are not taken elsewhere. -/
theorem base_letters_plain {p : List Char} (hzero : base ≠ 0) (h : ¬ (base = 2 ∧ Prefixed p)) :
    base_letters 2 'b' 'B' base p = (base, p) := by
  unfold base_letters
  refine if_neg ?_
  rintro ⟨htwo, hfirst, hlen, hsecond⟩
  refine h ⟨htwo.resolve_left hzero, ?_⟩
  cases p with
  | nil => exact absurd hlen (by simp)
  | cons c p =>
      cases p with
      | nil => exact absurd hlen (by simp)
      | cons d p =>
          obtain rfl : c = '0' := hfirst
          rcases hsecond with hsecond | hsecond
          · obtain rfl : d = 'b' := hsecond
            exact Or.inl ⟨p, rfl⟩
          · obtain rfl : d = 'B' := hsecond
            exact Or.inr ⟨p, rfl⟩

theorem Parts.sign_eq (h : Parts base text signs letters ds rest) :
    sign text = (decide (signs = ['-']), letters ++ (ds ++ rest)) := by
  have htext := h.text_eq
  obtain rfl | rfl | ⟨rfl, hminus, hplus⟩ := h.signed
  · rw [htext]
    rfl
  · rw [htext]
    rfl
  · rw [List.nil_append] at htext
    rw [← htext]
    unfold sign
    cases text with
    | nil => rfl
    | cons c text =>
        have hc : c ≠ '-' := fun heq => hminus (congrArg some heq)
        have hc' : c ≠ '+' := fun heq => hplus (congrArg some heq)
        rw [deref_cons, if_neg hc, if_neg hc']
        rfl

theorem Parts.letters_eq (h : Parts base text signs letters ds rest) (hzero : base ≠ 0) :
    base_letters 2 'b' 'B' base (letters ++ (ds ++ rest)) = (base, ds ++ rest) := by
  obtain ⟨rfl, rfl | rfl⟩ | ⟨rfl, hplain⟩ := h.lettered
  · exact base_letters_prefixed (Or.inl ⟨ds ++ rest, rfl⟩)
  · exact base_letters_prefixed (Or.inr ⟨ds ++ rest, rfl⟩)
  · exact base_letters_plain hzero hplain

/-- Every text has its parts. -/
theorem exists_parts (base : ℤ) (text : List Char) :
    ∃ signs letters ds rest, Parts base text signs letters ds rest := by
  -- the sign
  obtain ⟨signs, p, htext, hsigned⟩ : ∃ signs p, text = signs ++ p
      ∧ (signs = ['-'] ∨ signs = ['+']
        ∨ signs = [] ∧ text.head? ≠ some '-' ∧ text.head? ≠ some '+') := by
    by_cases hminus : text.head? = some '-'
    · obtain ⟨p, rfl⟩ := List.head?_eq_some_iff.mp hminus
      exact ⟨['-'], p, rfl, Or.inl rfl⟩
    · by_cases hplus : text.head? = some '+'
      · obtain ⟨p, rfl⟩ := List.head?_eq_some_iff.mp hplus
        exact ⟨['+'], p, rfl, Or.inr (Or.inl rfl)⟩
      · exact ⟨[], text, rfl, Or.inr (Or.inr ⟨rfl, hminus, hplus⟩)⟩
  -- the letters
  obtain ⟨letters, q, hp, hlettered⟩ : ∃ letters q, p = letters ++ q
      ∧ (base = 2 ∧ (letters = ['0', 'b'] ∨ letters = ['0', 'B'])
        ∨ letters = [] ∧ ¬ (base = 2 ∧ Prefixed q)) := by
    by_cases hpre : base = 2 ∧ Prefixed p
    · obtain ⟨htwo, ⟨q, hq⟩ | ⟨q, hq⟩⟩ := hpre
      · exact ⟨_, q, hq.symm, Or.inl ⟨htwo, Or.inl rfl⟩⟩
      · exact ⟨_, q, hq.symm, Or.inl ⟨htwo, Or.inr rfl⟩⟩
    · exact ⟨[], p, rfl, Or.inr ⟨rfl, hpre⟩⟩
  -- the digits
  have hsplit : (q.takeWhile fun c => IsDigit base c) ++ (q.dropWhile fun c => IsDigit base c)
      = q := List.takeWhile_append_dropWhile
  refine ⟨signs, letters, q.takeWhile fun c => IsDigit base c,
    q.dropWhile fun c => IsDigit base c, ?_, hsigned, ?_, fun c hc => ?_, fun c hc hdigit => ?_⟩
  · rw [hsplit, ← hp, ← htext]
  · rw [hsplit]
    exact hlettered
  · simpa using List.mem_takeWhile_imp hc
  · have hnot := List.head?_dropWhile_not (fun c => decide (IsDigit base c)) q
    rw [hc] at hnot
    exact absurd hdigit (by simpa using hnot)

end Parts

/-! ## The conversion -/

section Answer

variable {bits : ℕ} {base : ℤ} {text signs letters ds rest : List Char}

/-- The limit of the accumulator. -/
def limit (bits : ℕ) (signs : List Char) : ℤ :=
  if signs = ['-'] then 2 ^ (bits - 1) else 2 ^ (bits - 1) - 1

theorem limit_mem (hbits : 0 < bits) (signs : List Char) :
    0 ≤ limit bits signs ∧ limit bits signs < 2 ^ bits := by
  obtain ⟨hpos, hpow⟩ := pow_half hbits
  unfold limit
  split_ifs <;> omega

theorem cutoff_eq (bits : ℕ) (signs : List Char) :
    (if decide (signs = ['-']) = true then (2 : ℤ) ^ (bits - 1) else 2 ^ (bits - 1) - 1)
      = limit bits signs := by
  simp only [decide_eq_true_eq, limit]

/-- No part of the empty text has a character. -/
theorem Parts.nil (h : Parts base [] signs letters ds rest) : signs = [] ∧ ds ++ rest = [] := by
  obtain ⟨hsigns, hparts⟩ := List.append_eq_nil_iff.mp h.text_eq.symm
  exact ⟨hsigns, (List.append_eq_nil_iff.mp hparts).2⟩

/-- No letters of base 16 are taken. -/
theorem base_letters_low (hlow : 2 ≤ base) (hhigh : base ≤ 10) (p : List Char) :
    base_letters 16 'x' 'X' base p = (base, p) :=
  if_neg fun hboth => absurd hboth.1 (by omega)

/-- The loop of a conversion, and its end. -/
theorem strnto_eq (h : Parts base text signs letters ds rest) (hlow : 2 ≤ base) (hhigh : base ≤ 10)
    (min max : Option ℤ) {acc any : ℤ} {err : ParseNumError} {endptr : List Char}
    (hloop : digits_loop bits base (limit bits signs / base) (limit bits signs % base) 0 0
      (ds ++ rest) = (acc, any, err, endptr)) :
    strnto bits text base min max
      = convert bits (decide (signs = ['-'])) min max acc any err endptr := by
  have hzero : base ≠ 0 := by omega
  have hrange : ¬ (base < 2 ∨ 36 < base) := by omega
  unfold strnto
  by_cases hnil : text = []
  · subst hnil
    obtain ⟨rfl, hparts⟩ := h.nil
    rw [hparts] at hloop
    cases hloop
    rfl
  · rw [if_neg hnil, h.sign_eq]
    simp only [h.letters_eq hzero, base_letters_low hlow hhigh, if_neg hzero, if_neg hrange,
      cutoff_eq, hloop]

theorem strnto_values_eq (h : Parts base text signs letters ds rest) (hlow : 2 ≤ base)
    (hhigh : base ≤ 10) :
    strnto_values bits text base
      = digits_loop_values bits base (limit bits signs / base) (limit bits signs % base) 0 0
          (ds ++ rest) := by
  have hzero : base ≠ 0 := by omega
  have hrange : ¬ (base < 2 ∨ 36 < base) := by omega
  unfold strnto_values
  by_cases hnil : text = []
  · subst hnil
    rw [h.nil.2]
    rfl
  · rw [if_neg hnil, h.sign_eq]
    simp only [h.letters_eq hzero, base_letters_low hlow hhigh, if_neg hzero, if_neg hrange,
      cutoff_eq]

/-- **The accumulator never wraps**: what is assigned to it is within the limit. -/
theorem digits_loop_values_mem {limit : ℤ} (hmodulus : limit < 2 ^ bits) (hlow : 2 ≤ base)
    (hhigh : base ≤ 10) (p : List Char) : ∀ acc any : ℤ, 0 ≤ acc →
      ∀ v ∈ digits_loop_values bits base (limit / base) (limit % base) acc any p,
        0 ≤ v ∧ v ≤ limit := by
  induction p with
  | nil => exact fun _ _ _ v hv => absurd hv List.not_mem_nil
  | cons c p ih =>
      intro acc any hacc v hv
      rw [digits_loop_values, char_value_digit hhigh] at hv
      by_cases hten : 48 ≤ c.toNat ∧ c.toNat ≤ 57
      · rw [if_pos hten] at hv
        simp only at hv
        split_ifs at hv with hbase htest
        · exact absurd hv List.not_mem_nil
        · exact ih acc (-1) hacc v hv
        · have hdigit : 0 ≤ digit_value c ∧ digit_value c < base := by
            unfold digit_value at hbase ⊢
            omega
          obtain ⟨hmul, hadd, hle⟩ := sum_mem (by omega) hacc hdigit fun hor => htest (Or.inr hor)
          have hmod : (acc * base + digit_value c) % 2 ^ bits = acc * base + digit_value c :=
            Int.emod_eq_of_lt (by omega) (by omega)
          rw [hmod] at hv
          rcases List.mem_cons.mp hv with rfl | hv
          · omega
          · rcases List.mem_cons.mp hv with rfl | hv
            · omega
            · exact ih _ 1 (by omega) v hv
      · rw [if_neg hten] at hv
        exact absurd hv List.not_mem_nil

/-- What the end of a conversion makes of a number in range. -/
theorem convert_of_mem {acc v : ℤ} {negative : Bool} (hbits : 0 < bits)
    (hv : v = if negative then -acc else acc)
    (hmem : -2 ^ (bits - 1) ≤ v ∧ v ≤ 2 ^ (bits - 1) - 1) (min max : Option ℤ) :
    convert bits negative min max acc (if ds = [] then 0 else 1)
        (if rest = [] then .PARSE_NUM_NO_ERR else .PARSE_NUM_ERR_NON_DIGIT_FOUND) rest
      = answer bits v ds rest min max := by
  have hpow := (pow_half hbits).2
  have hbmod : v.bmod (2 ^ bits) = v := by
    apply Int.bmod_eq_of_le_mul_two
    · push_cast
      omega
    · push_cast
      omega
  have hany : ¬ (if ds = [] then (0 : ℤ) else 1) < 0 := by
    split_ifs <;> omega
  unfold convert answer
  rw [← hv, hbmod, if_neg hany, if_neg (show ¬ 2 ^ (bits - 1) - 1 < v by omega),
    if_neg (show ¬ v < -2 ^ (bits - 1) by omega)]
  by_cases hrest : rest = []
  · by_cases hds : ds = []
    · simp [hrest, hds]
    · -- both bounds are looked at, the maximum last
      cases hmax : max.any (· < v) <;> cases hmin : min.any (v < ·) <;>
        simp [hrest, hds, hmax, hmin]
  · simp [hrest]

/-- And of one that is not, which has overflowed. -/
theorem convert_of_overflow {acc any v : ℤ} {err : ParseNumError} (hbits : 0 < bits)
    (hover : limit bits signs < v) (hneg : any < 0) (min max : Option ℤ) :
    convert bits (decide (signs = ['-'])) min max acc any err rest
      = answer bits (if signs = ['-'] then -v else v) ds rest min max := by
  have hpos := (pow_half hbits).1
  unfold convert answer
  unfold limit at hover
  rw [if_pos hneg]
  by_cases hsign : signs = ['-']
  · rw [if_pos hsign] at hover
    simp only [hsign, decide_true, if_true]
    rw [if_neg (by omega), if_pos (by omega)]
  · rw [if_neg hsign] at hover
    simp only [hsign, decide_false, Bool.false_eq_true, if_false]
    rw [if_pos (by omega)]

/-- **A conversion** answers for the number of the digits. -/
theorem strnto_answer (hbits : 8 ≤ bits) (h : Parts base text signs letters ds rest)
    (hlow : 2 ≤ base) (hhigh : base ≤ 10) (min max : Option ℤ) :
    strnto bits text base min max = answer bits (number base signs ds) ds rest min max := by
  obtain ⟨hpos, hpow⟩ := pow_half (show 0 < bits by omega)
  obtain ⟨hnonneg, hmodulus⟩ := limit_mem (show 0 < bits by omega) signs
  have hvalues : ∀ v ∈ ds.map digit_value, 0 ≤ v ∧ v < base := by
    intro v hv
    obtain ⟨c, hc, rfl⟩ := List.mem_map.mp hv
    exact digit_value_mem (h.digits c hc)
  have hnumeral : 0 ≤ numeral base ds := horner_nonneg (by omega) fun v hv => (hvalues v hv).1
  -- the loop accumulates the digits, and what that is, is known
  have hspec := @accumulate_of_nonneg (2 ^ bits) base (limit bits signs) (by omega) hnonneg
    hmodulus (quotient_far hbits hlow (by omega) hnonneg hmodulus) _ hvalues
  have hloop := @digits_loop_eq bits base (limit bits signs) digit_value ds rest
    (fun c hc => by rw [digit_eq hhigh, if_pos (h.digits c hc)])
    (fun c hc => by rw [digit_eq hhigh, if_neg (h.maximal c hc)]) 0 0
  rw [strnto_eq h hlow hhigh min max hloop]
  rw [accumulate, ← numeral] at hspec
  simp only [List.map_eq_nil_iff] at hspec
  unfold number
  rcases hspec with ⟨hover, hneg⟩ | ⟨hfits, hacc⟩
  · exact convert_of_overflow (by omega) hover (by omega) min max
  · rw [hacc]
    unfold limit at hfits
    refine convert_of_mem (by omega) ?_ ?_ min max
    · simp only [decide_eq_true_eq]
    · split_ifs at hfits ⊢ <;> omega

end Answer

/-- The most negative value, and one beyond it. -/
example : strntoint8_t "-10000000x".toList 2 none none
      = ⟨.PARSE_NUM_ERR_NON_DIGIT_FOUND, ['x'], some (-128)⟩
    ∧ strntoint8_t "-0B10000001".toList 2 none none
      = ⟨.PARSE_NUM_ERR_TOO_SMALL, [], some (-128)⟩ := by decide

end PkgPlugins.ParseNumSigned
