/-
Strings compared without regard to case: `kissc/ascii_case.c`, and what rests on it, the
case insensitive keys of `kissc/hashtable.c` and `env_get_option` of `shared/os.c`.

A string is the bytes before its NUL. The comparisons begin with one of the two pointers,
so that what they are called on is a pair of strings together with whether the pointers
are the same.

`ascii_strcasecmp` and `ascii_strncasecmp` look for a NUL in the first string only:
`ascii_case_right_iff` says that they compare where neither string continues the other.
-/
import Mathlib.Algebra.Group.Int.Defs
import Mathlib.Algebra.Group.Nat.Defs
import Mathlib.Data.Int.Order.Basic
import Mathlib.Data.List.Infix
import Mathlib.Data.Sign.Defs
import Mathlib.Tactic.SplitIfs

set_option autoImplicit false
set_option maxRecDepth 4096

namespace PkgPlugins.AsciiCase

/-! ## Bytes -/

def upper : List UInt8 :=
  [ 0x00, 0x01, 0x02, 0x03, 0x04, 0x05, 0x06, 0x07, 0x08, 0x09, 0x0A, 0x0B, 0x0C, 0x0D, 0x0E, 0x0F,
    0x10, 0x11, 0x12, 0x13, 0x14, 0x15, 0x16, 0x17, 0x18, 0x19, 0x1A, 0x1B, 0x1C, 0x1D, 0x1E, 0x1F,
    0x20, 0x21, 0x22, 0x23, 0x24, 0x25, 0x26, 0x27, 0x28, 0x29, 0x2A, 0x2B, 0x2C, 0x2D, 0x2E, 0x2F,
    0x30, 0x31, 0x32, 0x33, 0x34, 0x35, 0x36, 0x37, 0x38, 0x39, 0x3A, 0x3B, 0x3C, 0x3D, 0x3E, 0x3F,
    0x40, 0x41, 0x42, 0x43, 0x44, 0x45, 0x46, 0x47, 0x48, 0x49, 0x4A, 0x4B, 0x4C, 0x4D, 0x4E, 0x4F,
    0x50, 0x51, 0x52, 0x53, 0x54, 0x55, 0x56, 0x57, 0x58, 0x59, 0x5A, 0x5B, 0x5C, 0x5D, 0x5E, 0x5F,
    0x60, 0x41, 0x42, 0x43, 0x44, 0x45, 0x46, 0x47, 0x48, 0x49, 0x4A, 0x4B, 0x4C, 0x4D, 0x4E, 0x4F,
    0x50, 0x51, 0x52, 0x53, 0x54, 0x55, 0x56, 0x57, 0x58, 0x59, 0x5A, 0x7B, 0x7C, 0x7D, 0x7E, 0x7F,
    0x80, 0x81, 0x82, 0x83, 0x84, 0x85, 0x86, 0x87, 0x88, 0x89, 0x8A, 0x8B, 0x8C, 0x8D, 0x8E, 0x8F,
    0x90, 0x91, 0x92, 0x93, 0x94, 0x95, 0x96, 0x97, 0x98, 0x99, 0x9A, 0x9B, 0x9C, 0x9D, 0x9E, 0x9F,
    0xA0, 0xA1, 0xA2, 0xA3, 0xA4, 0xA5, 0xA6, 0xA7, 0xA8, 0xA9, 0xAA, 0xAB, 0xAC, 0xAD, 0xAE, 0xAF,
    0xB0, 0xB1, 0xB2, 0xB3, 0xB4, 0xB5, 0xB6, 0xB7, 0xB8, 0xB9, 0xBA, 0xBB, 0xBC, 0xBD, 0xBE, 0xBF,
    0xC0, 0xC1, 0xC2, 0xC3, 0xC4, 0xC5, 0xC6, 0xC7, 0xC8, 0xC9, 0xCA, 0xCB, 0xCC, 0xCD, 0xCE, 0xCF,
    0xD0, 0xD1, 0xD2, 0xD3, 0xD4, 0xD5, 0xD6, 0xD7, 0xD8, 0xD9, 0xDA, 0xDB, 0xDC, 0xDD, 0xDE, 0xDF,
    0xE0, 0xE1, 0xE2, 0xE3, 0xE4, 0xE5, 0xE6, 0xE7, 0xE8, 0xE9, 0xEA, 0xEB, 0xEC, 0xED, 0xEE, 0xEF,
    0xF0, 0xF1, 0xF2, 0xF3, 0xF4, 0xF5, 0xF6, 0xF7, 0xF8, 0xF9, 0xFA, 0xFB, 0xFC, 0xFD, 0xFE, 0xFF ]

def ascii_toupper (c : ℤ) : ℤ := (upper.getD (c % 256).toNat 0).toNat


/-- A letter as upper case. -/
def upcase (b : UInt8) : UInt8 := if 97 ≤ b ∧ b ≤ 122 then b - 32 else b

/-- The table turns the lower case letters to upper case and nothing else. -/
theorem upper_eq : upper = (List.range 256).map fun n => upcase (UInt8.ofNat n) := by
  decide +kernel

theorem upper_getD (b : UInt8) : upper.getD b.toNat 0 = upcase b := by
  rw [upper_eq, List.getD_eq_getElem?_getD, List.getElem?_map, List.getElem?_range b.toNat_lt,
    Option.map_some, Option.getD_some, UInt8.ofNat_toNat]

theorem ascii_toupper_toNat (b : UInt8) : ascii_toupper b.toNat = (upcase b).toNat := by
  have hmod : ((b.toNat : ℤ) % 256).toNat = b.toNat := by
    have hlt := b.toNat_lt
    omega
  unfold ascii_toupper
  rw [hmod, upper_getD]

theorem ascii_toupper_zero : ascii_toupper 0 = 0 := by decide

theorem upcase_eq_zero_iff {b : UInt8} : upcase b = 0 ↔ b = 0 := by
  unfold upcase
  split_ifs with hletter
  · -- a letter is not 0, and its upper case is at least `A`
    have hlow : 97 ≤ b.toNat := UInt8.le_iff_toNat_le.mp hletter.1
    have hb : b.toNat < 256 := b.toNat_lt
    rw [← UInt8.toNat_inj, ← UInt8.toNat_inj, UInt8.toNat_sub]
    simp only [UInt8.reduceToNat]
    omega
  · rfl

/-! ## The functions -/

/-- The bytes before the NUL. -/
structure Text where
  bytes : List UInt8
  noNul : 0 ∉ bytes
deriving DecidableEq

/-- Two pointers to strings, which are the same or not. -/
structure Pointers where
  str1 : Text
  str2 : Text
  same : Bool
  same_text : same = true → str1 = str2

def Pointers.swap (p : Pointers) : Pointers :=
  ⟨p.str2, p.str1, p.same, fun h => (p.same_text h).symm⟩

/-- `ascii_toupper(*(unsigned char *) str)`, which reads the NUL at the end. -/
def upper_at (str : List UInt8) : ℤ := ascii_toupper (str.headD 0).toNat

/-- The loop of `ascii_strcasecmp`, on what is left of the strings. -/
def strcasecmp_loop : List UInt8 → List UInt8 → ℤ
  | [], _ => 0
  | b :: str1, str2 =>
      let c1 := upper_at (b :: str1)
      let c2 := upper_at str2
      if c1 = c2 then strcasecmp_loop str1 str2.tail else c1 - c2

def ascii_strcasecmp (p : Pointers) : ℤ :=
  if !p.same then strcasecmp_loop p.str1.bytes p.str2.bytes else 0

/-- `while (0 != min_len--)`: the difference, if there is one. -/
def strcasecmp_l_loop : ℕ → List UInt8 → List UInt8 → Option ℤ
  | 0, _, _ => none
  | min_len + 1, str1, str2 =>
      let c1 := upper_at str1
      let c2 := upper_at str2
      if c1 ≠ c2 then some (c1 - c2) else strcasecmp_l_loop min_len str1.tail str2.tail

/-- The difference of the lengths is returned as an `int`. -/
def ascii_strcasecmp_l (p : Pointers) (str1_len str2_len : ℕ) : ℤ :=
  let lengths := ((str1_len : ℤ) - str2_len).bmod (2 ^ 32)
  if !p.same then
    let min_len := if str2_len < str1_len then str2_len else str1_len
    (strcasecmp_l_loop min_len p.str1.bytes p.str2.bytes).getD lengths
  else lengths

/-- The loop of `ascii_strncasecmp`, where `n` is not 0. -/
def strncasecmp_loop : List UInt8 → List UInt8 → ℕ → ℤ
  | [], _, _ => 0
  | b :: str1, str2, n =>
      let c1 := upper_at (b :: str1)
      let c2 := upper_at str2
      if c1 = c2 ∧ n - 1 ≠ 0 then strncasecmp_loop str1 str2.tail (n - 1)
      else c1 % 256 - c2 % 256

def ascii_strncasecmp (p : Pointers) (n : ℕ) : ℤ :=
  if !p.same ∧ n > 0 then strncasecmp_loop p.str1.bytes p.str2.bytes n else 0

/-- Two keys: both null, one of them null, or two strings. -/
inductive Keys
  | nulls
  | one_null
  | strings (p : Pointers)

def ascii_equal_ci : Keys → Bool
  | .nulls => true
  | .one_null => false
  | .strings p => ascii_strcasecmp p == 0

/-- The loop of `ascii_hash_ci`. -/
def ascii_hash_ci_loop (h : UInt64) : List UInt8 → UInt64
  | [] => h
  | b :: str =>
      ascii_hash_ci_loop ((h + (h <<< 5)) ^^^ UInt64.ofNat (ascii_toupper b.toNat).toNat) str

def ascii_hash_ci (k : Text) : UInt64 := ascii_hash_ci_loop 5381 k.bytes

/-- The bytes of a literal. -/
def literal (s : String) : List UInt8 := s.toList.map fun c => UInt8.ofNat c.toNat

def TRUTHY : List Text :=
  [⟨literal "1", by decide⟩, ⟨literal "on", by decide⟩, ⟨literal "true", by decide⟩]

/-- `for (i = 0; i < ARRAY_SIZE(TRUTHY) && !found; i++)`. The value is not one of the
literals, so that the pointers differ. -/
def env_get_option_loop (value : Text) : List Text → Bool → Bool
  | [], found => found
  | word :: words, found =>
      if !found then
        env_get_option_loop value words (ascii_strcasecmp ⟨value, word, false, nofun⟩ == 0)
      else found

/-- `value` is what `getenv` returns. -/
def env_get_option (value : Option Text) (value_if_absent : Bool) : Bool :=
  match value with
  | none => value_if_absent
  | some value => env_get_option_loop value TRUTHY false

/-! ## What is promised -/

/-- Equal up to the case of the letters. -/
def EqCase (s t : List UInt8) : Prop := s.map upcase = t.map upcase

/-- `t` is more than `s`, and starts with `s` up to case. -/
def Continues (t s : List UInt8) : Prop := s.map upcase <+: t.map upcase ∧ s.length < t.length

/-- Neither continues the other. -/
def Apart (s t : List UInt8) : Prop := ¬ Continues t s ∧ ¬ Continues s t

/-- `cmp` compares the first `n1` and `n2` characters. -/
structure Compares (cmp : Pointers → ℤ) (p : Pointers) (n1 n2 : ℕ) : Prop where
  zero_iff : cmp p = 0 ↔ EqCase (p.str1.bytes.take n1) (p.str2.bytes.take n2)
  swap : (cmp p.swap).sign = -(cmp p).sign
  agree : (cmp p).sign = (ascii_strcasecmp_l p n1 n2).sign

/-- **The promise** on two strings: both comparisons are right, and equal keys have equal
hashes. -/
structure Right (p : Pointers) (n : ℕ) : Prop where
  whole : Compares ascii_strcasecmp p p.str1.bytes.length p.str2.bytes.length
  first : Compares (ascii_strncasecmp · n) p (min n p.str1.bytes.length)
    (min n p.str2.bytes.length)
  keys : ascii_equal_ci (.strings p) = true → ascii_hash_ci p.str1 = ascii_hash_ci p.str2

/-- **The promise** on the value of a variable that is set. -/
def OptionRight (value : Text) (value_if_absent : Bool) : Prop :=
  env_get_option (some value) value_if_absent = true
    ↔ ∃ word ∈ TRUTHY, EqCase value.bytes word.bytes

/-! ## The first difference -/

/-- The difference at the first place where the strings differ, 0 if one ends before. -/
def firstDiff : List UInt8 → List UInt8 → ℤ
  | a :: s, b :: t =>
      if upcase a = upcase b then firstDiff s t else (upcase a).toNat - (upcase b).toNat
  | _, _ => 0

theorem firstDiff_swap (s t : List UInt8) : firstDiff t s = -firstDiff s t := by
  induction s generalizing t with
  | nil => cases t <;> simp [firstDiff]
  | cons a s ih =>
      cases t with
      | nil => simp [firstDiff]
      | cons b t =>
          unfold firstDiff
          by_cases hab : upcase a = upcase b
          · rw [if_pos hab, if_pos hab.symm, ih]
          · rw [if_neg hab, if_neg (Ne.symm hab)]
            omega

theorem upper_at_cons (b : UInt8) (str : List UInt8) : upper_at (b :: str) = (upcase b).toNat :=
  ascii_toupper_toNat b

theorem upper_at_nil : upper_at [] = 0 := ascii_toupper_zero

/-- Two characters are the same as numbers if they are equal up to case. -/
theorem upper_at_eq_iff (a b : UInt8) (s t : List UInt8) :
    upper_at (a :: s) = upper_at (b :: t) ↔ upcase a = upcase b := by
  rw [upper_at_cons, upper_at_cons, Int.natCast_inj, UInt8.toNat_inj]

/-- No character is a NUL, up to case. -/
theorem upper_at_ne_nil {a : UInt8} (ha : a ≠ 0) (s : List UInt8) :
    upper_at (a :: s) ≠ upper_at [] := by
  rw [upper_at_cons, upper_at_nil]
  intro h
  have hzero : (upcase a).toNat = 0 := Int.natCast_eq_zero.mp h
  exact ha (upcase_eq_zero_iff.mp (UInt8.toNat_inj.mp hzero))

theorem not_mem_tail {b : UInt8} {s : List UInt8} (h : 0 ∉ b :: s) : b ≠ 0 ∧ 0 ∉ s :=
  ⟨fun hb => h (hb ▸ List.mem_cons_self), fun hs => h (List.mem_cons_of_mem b hs)⟩

/-- **Where the loop of `ascii_strcasecmp` ends with 0**: the second string starts with the
first. -/
theorem strcasecmp_loop_eq_zero_iff {s t : List UInt8} (hs : 0 ∉ s) :
    strcasecmp_loop s t = 0 ↔ s.map upcase <+: t.map upcase := by
  induction s generalizing t with
  | nil => simp [strcasecmp_loop]
  | cons a s ih =>
      obtain ⟨ha, hs⟩ := not_mem_tail hs
      unfold strcasecmp_loop
      cases t with
      | nil =>
          have hne := upper_at_ne_nil ha s
          rw [if_neg hne]
          exact iff_of_false (fun h => hne (Int.sub_eq_zero.mp h)) (by simp)
      | cons b t =>
          rw [List.map_cons, List.map_cons, List.cons_prefix_cons]
          by_cases hab : upcase a = upcase b
          · rw [if_pos ((upper_at_eq_iff a b s t).mpr hab), List.tail_cons, ih hs]
            exact (and_iff_right hab).symm
          · have hne := mt (upper_at_eq_iff a b s t).mp hab
            rw [if_neg hne]
            exact iff_of_false (fun h => hne (Int.sub_eq_zero.mp h)) (fun h => hab h.1)

theorem Apart.of_cons {a b : UInt8} {s t : List UInt8} (h : Apart (a :: s) (b :: t))
    (hab : upcase a = upcase b) : Apart s t := by
  refine ⟨fun hc => h.1 ⟨?_, ?_⟩, fun hc => h.2 ⟨?_, ?_⟩⟩
  · exact List.cons_prefix_cons.mpr ⟨hab, hc.1⟩
  · exact Nat.succ_lt_succ hc.2
  · exact List.cons_prefix_cons.mpr ⟨hab.symm, hc.1⟩
  · exact Nat.succ_lt_succ hc.2

/-- Of two strings that are apart, the empty one is not alone. -/
theorem Apart.nil_iff {s t : List UInt8} (h : Apart s t) : s = [] ↔ t = [] := by
  constructor
  · rintro rfl
    by_contra ht
    exact h.1 ⟨List.nil_prefix, List.length_pos_iff.mpr ht⟩
  · rintro rfl
    by_contra hs
    exact h.2 ⟨List.nil_prefix, List.length_pos_iff.mpr hs⟩

/-- The loop gives the first difference. -/
theorem strcasecmp_loop_eq {s t : List UInt8} (h : Apart s t) :
    strcasecmp_loop s t = firstDiff s t := by
  induction s generalizing t with
  | nil => rw [h.nil_iff.mp rfl]; rfl
  | cons a s ih =>
      cases t with
      | nil => exact absurd (h.nil_iff.mpr rfl) (List.cons_ne_nil a s)
      | cons b t =>
          unfold strcasecmp_loop firstDiff
          by_cases hab : upcase a = upcase b
          · rw [if_pos ((upper_at_eq_iff a b s t).mpr hab), if_pos hab]
            exact ih (h.of_cons hab)
          · rw [if_neg (mt (upper_at_eq_iff a b s t).mp hab), if_neg hab, upper_at_cons,
              upper_at_cons]

/-- Strings that are apart have no difference only if they are equal up to case. -/
theorem Apart.firstDiff_eq_zero_iff {s t : List UInt8} (h : Apart s t) :
    firstDiff s t = 0 ↔ EqCase s t := by
  induction s generalizing t with
  | nil => rw [h.nil_iff.mp rfl]; simp [firstDiff, EqCase]
  | cons a s ih =>
      cases t with
      | nil => exact absurd (h.nil_iff.mpr rfl) (List.cons_ne_nil a s)
      | cons b t =>
          unfold firstDiff EqCase
          rw [List.map_cons, List.map_cons, List.cons.injEq]
          by_cases hab : upcase a = upcase b
          · rw [if_pos hab, ih (h.of_cons hab)]
            exact (and_iff_right hab).symm
          · rw [if_neg hab]
            refine iff_of_false ?_ (fun h => hab h.1)
            intro hzero
            exact hab (UInt8.toNat_inj.mp (Int.natCast_inj.mp (Int.sub_eq_zero.mp hzero)))

/-- What is cut off after the same number of characters stays apart. -/
theorem Apart.take {s t : List UInt8} (h : Apart s t) (n : ℕ) : Apart (s.take n) (t.take n) := by
  have hcut : ∀ {u v : List UInt8}, Continues (v.take n) (u.take n) → Continues v u := by
    rintro u v ⟨hstart, hlt⟩
    rw [List.length_take, List.length_take] at hlt
    have hu : u.take n = u := List.take_of_length_le (by omega)
    rw [hu, List.map_take] at hstart
    exact ⟨hstart.trans (List.take_prefix _ _), by omega⟩
  exact ⟨fun hc => h.1 (hcut hc), fun hc => h.2 (hcut hc)⟩

theorem eqCase_apart {s t : List UInt8} (h : EqCase s t) : Apart s t := by
  have hlength : s.length = t.length := by
    rw [← List.length_map upcase, ← @List.length_map _ _ t upcase, h]
  exact ⟨fun hc => Nat.lt_irrefl _ (hlength ▸ hc.2), fun hc => Nat.lt_irrefl _ (hlength ▸ hc.2)⟩

/-! ## The lengths and the counter -/

theorem strcasecmp_l_loop_eq {s t : List UInt8} (h : Apart s t) :
    (strcasecmp_l_loop (min s.length t.length) s t).getD 0 = firstDiff s t
      ∧ (¬ EqCase s t → strcasecmp_l_loop (min s.length t.length) s t ≠ none) := by
  induction s generalizing t with
  | nil =>
      rw [h.nil_iff.mp rfl]
      exact ⟨rfl, fun hne => absurd rfl hne⟩
  | cons a s ih =>
      cases t with
      | nil => exact absurd (h.nil_iff.mpr rfl) (List.cons_ne_nil a s)
      | cons b t =>
          rw [List.length_cons, List.length_cons, Nat.succ_min_succ]
          unfold strcasecmp_l_loop firstDiff
          by_cases hab : upcase a = upcase b
          · obtain ⟨hget, hnone⟩ := ih (h.of_cons hab)
            rw [if_neg (not_not_intro ((upper_at_eq_iff a b s t).mpr hab)), if_pos hab]
            refine ⟨hget, fun hne => hnone fun heq => hne ?_⟩
            exact congrArg₂ List.cons hab heq
          · rw [if_pos (mt (upper_at_eq_iff a b s t).mp hab), if_neg hab, upper_at_cons,
              upper_at_cons]
            exact ⟨rfl, fun _ => Option.some_ne_none _⟩

theorem upper_at_take {n : ℕ} (hn : 0 < n) (s : List UInt8) : upper_at (s.take n) = upper_at s := by
  obtain ⟨n, rfl⟩ := Nat.exists_eq_add_one.mpr hn
  cases s <;> rfl

/-- The loop reads no more than `min_len` characters. -/
theorem strcasecmp_l_loop_take {m n1 n2 : ℕ} (h1 : m ≤ n1) (h2 : m ≤ n2) (s t : List UInt8) :
    strcasecmp_l_loop m (s.take n1) (t.take n2) = strcasecmp_l_loop m s t := by
  induction m generalizing n1 n2 s t with
  | zero => rfl
  | succ m ih =>
      obtain ⟨n1, rfl⟩ := Nat.exists_eq_add_one.mpr (Nat.zero_lt_of_lt h1)
      obtain ⟨n2, rfl⟩ := Nat.exists_eq_add_one.mpr (Nat.zero_lt_of_lt h2)
      have htail : ∀ (n : ℕ) (u : List UInt8), (u.take (n + 1)).tail = u.tail.take n := by
        intro n u
        cases u <;> simp
      unfold strcasecmp_l_loop
      rw [upper_at_take (Nat.succ_pos n1), upper_at_take (Nat.succ_pos n2), htail, htail,
        ih (Nat.le_of_succ_le_succ h1) (Nat.le_of_succ_le_succ h2)]

/-- `ascii_strcasecmp_l` gives the first difference too. -/
theorem ascii_strcasecmp_l_eq {p : Pointers} {n1 n2 : ℕ} (h1 : n1 ≤ p.str1.bytes.length)
    (h2 : n2 ≤ p.str2.bytes.length) (hsame : p.same = true → n1 = n2)
    (h : Apart (p.str1.bytes.take n1) (p.str2.bytes.take n2)) :
    ascii_strcasecmp_l p n1 n2 = firstDiff (p.str1.bytes.take n1) (p.str2.bytes.take n2) := by
  unfold ascii_strcasecmp_l
  cases hp : p.same with
  | true =>
      obtain rfl := hsame hp
      have hzero : firstDiff (p.str1.bytes.take n1) (p.str2.bytes.take n1) = 0 := by
        rw [h.firstDiff_eq_zero_iff, p.same_text hp]
        rfl
      rw [hzero, Int.sub_self]
      rfl
  | false =>
      have hmin : (if n2 < n1 then n2 else n1) = min n1 n2 := by
        split_ifs <;> omega
      have hl1 : (p.str1.bytes.take n1).length = n1 := List.length_take_of_le h1
      have hl2 : (p.str2.bytes.take n2).length = n2 := List.length_take_of_le h2
      obtain ⟨hget, hnone⟩ := strcasecmp_l_loop_eq h
      rw [hl1, hl2, strcasecmp_l_loop_take (Nat.min_le_left n1 n2) (Nat.min_le_right n1 n2)]
        at hget hnone
      simp only [Bool.not_false, if_true, hmin]
      cases hloop : strcasecmp_l_loop (min n1 n2) p.str1.bytes p.str2.bytes with
      | some d => rw [← hget, hloop]; rfl
      | none =>
          -- no difference: the lengths are the same
          have heq : EqCase (p.str1.bytes.take n1) (p.str2.bytes.take n2) := by
            by_contra hne
            exact hnone hne hloop
          have hlengths : n1 = n2 := by
            rw [← hl1, ← hl2, ← List.length_map upcase, heq, List.length_map]
          rw [← hget, hloop, hlengths, Int.sub_self]
          rfl

theorem upper_at_emod (str : List UInt8) : upper_at str % 256 = upper_at str := by
  cases str with
  | nil => decide
  | cons b str =>
      rw [upper_at_cons]
      have hlt := (upcase b).toNat_lt
      omega

/-- `ascii_strncasecmp` is `ascii_strcasecmp` on the strings cut off after `n` characters. -/
theorem strncasecmp_loop_eq {s : List UInt8} (hs : 0 ∉ s) (t : List UInt8) (n : ℕ) :
    strncasecmp_loop s t (n + 1) = strcasecmp_loop (s.take (n + 1)) (t.take (n + 1)) := by
  induction s generalizing t n with
  | nil => rfl
  | cons a s ih =>
      obtain ⟨ha, hs⟩ := not_mem_tail hs
      have hhead : upper_at (t.take (n + 1)) = upper_at t := upper_at_take (Nat.succ_pos n) t
      have htail : (t.take (n + 1)).tail = t.tail.take n := by cases t <;> simp
      rw [List.take_succ_cons]
      unfold strncasecmp_loop strcasecmp_loop
      dsimp only
      rw [upper_at_emod, upper_at_emod, hhead, htail, Nat.add_sub_cancel,
        show upper_at (a :: s.take n) = upper_at (a :: s) from rfl]
      by_cases hab : upper_at (a :: s) = upper_at t
      · rw [if_pos hab]
        cases n with
        | zero =>
            rw [if_neg (fun h => h.2 rfl), hab, Int.sub_self]
            rfl
        | succ n =>
            rw [if_pos ⟨hab, Nat.succ_ne_zero n⟩, ih hs]
      · rw [if_neg (fun h => hab h.1), if_neg hab]

theorem ascii_strncasecmp_eq {p : Pointers} (hp : p.same = false) (n : ℕ) :
    ascii_strncasecmp p n = strcasecmp_loop (p.str1.bytes.take n) (p.str2.bytes.take n) := by
  unfold ascii_strncasecmp
  rw [hp]
  cases n with
  | zero => rfl
  | succ n =>
      rw [if_pos ⟨rfl, Nat.succ_pos n⟩]
      exact strncasecmp_loop_eq p.str1.noNul p.str2.bytes n

/-! ## When the comparisons are right -/

/-- A comparison that gives the first difference of strings that are apart. -/
theorem Compares.of_firstDiff {cmp : Pointers → ℤ} {p : Pointers} {n1 n2 : ℕ}
    (h1 : n1 ≤ p.str1.bytes.length) (h2 : n2 ≤ p.str2.bytes.length)
    (hsame : p.same = true → n1 = n2)
    (h : Apart (p.str1.bytes.take n1) (p.str2.bytes.take n2))
    (hcmp : cmp p = firstDiff (p.str1.bytes.take n1) (p.str2.bytes.take n2))
    (hswap : cmp p.swap = firstDiff (p.str2.bytes.take n2) (p.str1.bytes.take n1)) :
    Compares cmp p n1 n2 := by
  refine ⟨?_, ?_, ?_⟩
  · rw [hcmp, h.firstDiff_eq_zero_iff]
  · rw [hswap, hcmp, firstDiff_swap, Int.sign_neg]
  · rw [hcmp, ascii_strcasecmp_l_eq h1 h2 hsame h]

theorem Apart.symm {s t : List UInt8} (h : Apart s t) : Apart t s := ⟨h.2, h.1⟩

/-- On equal pointers there is no first difference. -/
theorem firstDiff_same {p : Pointers} (hp : p.same = true) (n : ℕ) :
    firstDiff (p.str1.bytes.take n) (p.str2.bytes.take n) = 0 := by
  rw [p.same_text hp]
  exact (eqCase_apart rfl).firstDiff_eq_zero_iff.mpr rfl

theorem ascii_strcasecmp_eq {p : Pointers} (h : Apart p.str1.bytes p.str2.bytes) :
    ascii_strcasecmp p = firstDiff p.str1.bytes p.str2.bytes := by
  unfold ascii_strcasecmp
  cases hp : p.same with
  | true =>
      rw [p.same_text hp]
      exact ((eqCase_apart rfl).firstDiff_eq_zero_iff.mpr rfl).symm
  | false => exact strcasecmp_loop_eq h

theorem ascii_strncasecmp_firstDiff {p : Pointers} (h : Apart p.str1.bytes p.str2.bytes) (n : ℕ) :
    ascii_strncasecmp p n = firstDiff (p.str1.bytes.take n) (p.str2.bytes.take n) := by
  cases hp : p.same with
  | true =>
      rw [firstDiff_same hp]
      unfold ascii_strncasecmp
      rw [hp, if_neg (fun h => Bool.false_ne_true h.1)]
  | false => rw [ascii_strncasecmp_eq hp, strcasecmp_loop_eq (h.take n)]

theorem take_min_length (n : ℕ) (s : List UInt8) : s.take (min n s.length) = s.take n := by
  rw [← List.take_take, List.take_length]

theorem ascii_hash_ci_loop_congr {s t : List UInt8} (h : EqCase s t) (k : UInt64) :
    ascii_hash_ci_loop k s = ascii_hash_ci_loop k t := by
  induction s generalizing t k with
  | nil => rw [List.map_eq_nil_iff.mp h.symm]
  | cons a s ih =>
      cases t with
      | nil => exact absurd h (List.cons_ne_nil _ _)
      | cons b t =>
          obtain ⟨hab, hst⟩ := List.cons.inj h
          unfold ascii_hash_ci_loop
          rw [ascii_toupper_toNat, ascii_toupper_toNat, hab, ih hst]

/-- The strings are apart: everything is right. -/
theorem Right.of_apart {p : Pointers} (h : Apart p.str1.bytes p.str2.bytes) (n : ℕ) :
    Right p n := by
  have hwhole : Compares ascii_strcasecmp p p.str1.bytes.length p.str2.bytes.length := by
    refine Compares.of_firstDiff (Nat.le_refl _) (Nat.le_refl _) ?_ ?_ ?_ ?_
    · exact fun hp => by rw [p.same_text hp]
    · rwa [List.take_length, List.take_length]
    · rw [List.take_length, List.take_length, ascii_strcasecmp_eq h]
    · rw [List.take_length, List.take_length]
      exact ascii_strcasecmp_eq (p := p.swap) h.symm
  refine ⟨hwhole, ?_, ?_⟩
  · refine Compares.of_firstDiff (Nat.min_le_right _ _) (Nat.min_le_right _ _) ?_ ?_ ?_ ?_
    · exact fun hp => by rw [p.same_text hp]
    · rw [take_min_length, take_min_length]
      exact h.take n
    · rw [take_min_length, take_min_length, ascii_strncasecmp_firstDiff h]
    · rw [take_min_length, take_min_length]
      exact ascii_strncasecmp_firstDiff (p := p.swap) h.symm n
  · intro hkeys
    have hzero : ascii_strcasecmp p = 0 := beq_iff_eq.mp hkeys
    have heq := hwhole.zero_iff.mp hzero
    rw [List.take_length, List.take_length] at heq
    exact ascii_hash_ci_loop_congr heq 5381

/-- Where the second string continues the first, `ascii_strcasecmp` returns 0. -/
theorem ascii_strcasecmp_of_continues {p : Pointers}
    (h : Continues p.str2.bytes p.str1.bytes) : ascii_strcasecmp p = 0 := by
  unfold ascii_strcasecmp
  cases hp : p.same with
  | true => rfl
  | false => exact (strcasecmp_loop_eq_zero_iff p.str1.noNul).mpr h.1

theorem Right.apart {p : Pointers} {n : ℕ} (h : Right p n) :
    Apart p.str1.bytes p.str2.bytes := by
  have hzero : ascii_strcasecmp p = 0 → p.str1.bytes.length = p.str2.bytes.length := by
    intro h0
    have heq := h.whole.zero_iff.mp h0
    rw [List.take_length, List.take_length] at heq
    rw [← List.length_map upcase, heq, List.length_map]
  refine ⟨fun hc => ?_, fun hc => ?_⟩
  · have hlength := hzero (ascii_strcasecmp_of_continues hc)
    exact Nat.lt_irrefl _ (hlength ▸ hc.2)
  · -- the strings swapped compare as equal
    have hswap := h.whole.swap
    rw [ascii_strcasecmp_of_continues (p := p.swap) hc, Int.sign_zero] at hswap
    have hlength := hzero (Int.sign_eq_zero_iff_zero.mp (Int.neg_eq_zero.mp hswap.symm))
    exact Nat.lt_irrefl _ (hlength ▸ hc.2)

/-! ## `env_get_option` -/

theorem env_get_option_loop_eq (value : Text) (words : List Text) :
    env_get_option_loop value words false = true
      ↔ ∃ word ∈ words, value.bytes.map upcase <+: word.bytes.map upcase := by
  have hfound : ∀ words, env_get_option_loop value words true = true := by
    intro words
    cases words <;> rfl
  induction words with
  | nil => simp [env_get_option_loop]
  | cons word words ih =>
      have hword := strcasecmp_loop_eq_zero_iff (t := word.bytes) value.noNul
      rw [List.exists_mem_cons_iff, ← hword]
      refine Iff.trans ?_ (or_congr_right ih)
      have hstep : env_get_option_loop value (word :: words) false
          = env_get_option_loop value words (strcasecmp_loop value.bytes word.bytes == 0) := rfl
      rw [hstep]
      by_cases hz : strcasecmp_loop value.bytes word.bytes = 0
      · rw [beq_iff_eq.mpr hz]
        exact iff_of_true (hfound words) (Or.inl hz)
      · rw [beq_false_of_ne hz]
        exact (or_iff_right hz).symm

/-- No word continues another. -/
theorem truthy_apart : ∀ v ∈ TRUTHY, ∀ w ∈ TRUTHY,
    w.bytes.map upcase <+: v.bytes.map upcase → w = v := by
  decide

theorem optionRight_iff (value : Text) (value_if_absent : Bool) :
    OptionRight value value_if_absent ↔ ∀ word ∈ TRUTHY, ¬ Continues word.bytes value.bytes := by
  unfold OptionRight env_get_option
  rw [env_get_option_loop_eq]
  constructor
  · rintro h word hword hc
    obtain ⟨w, hw, heq⟩ := h.mp ⟨word, hword, hc.1⟩
    -- the value is a word, and another word continues it
    have hstart : w.bytes.map upcase <+: word.bytes.map upcase := heq ▸ hc.1
    obtain rfl := truthy_apart word hword w hw hstart
    have hlength := congrArg List.length heq
    rw [List.length_map, List.length_map] at hlength
    exact Nat.lt_irrefl _ (hlength ▸ hc.2)
  · intro h
    constructor
    · rintro ⟨word, hword, hstart⟩
      refine ⟨word, hword, hstart.eq_of_length_le ?_⟩
      have hle := Nat.le_of_not_lt fun hlt => h word hword ⟨hstart, hlt⟩
      rwa [List.length_map, List.length_map]
    · rintro ⟨word, hword, heq⟩
      exact ⟨word, hword, heq ▸ List.prefix_refl _⟩

/-! ## Right or not -/

/-- **When the comparisons are right**, for every `n`: where neither string continues the
other up to case. `env_get_option` is right where no word continues the value. -/
theorem ascii_case_right_iff (p : Pointers) (n : ℕ) (value : Text) (value_if_absent : Bool) :
    (Right p n ↔ Apart p.str1.bytes p.str2.bytes)
      ∧ (OptionRight value value_if_absent
          ↔ ∀ word ∈ TRUTHY, ¬ Continues word.bytes value.bytes) :=
  ⟨⟨Right.apart, fun h => Right.of_apart h n⟩, optionRight_iff value value_if_absent⟩

/-- `o` and `on`, at two addresses. -/
def o_on : Pointers := ⟨⟨literal "o", by decide⟩, ⟨literal "on", by decide⟩, false, nofun⟩

/-- **The promise is broken** on `o` and `on`, which compare as equal but not the other way
round and have different hashes as equal keys; and the value `o` switches an option on. -/
theorem ascii_case_wrong :
    (ascii_strcasecmp o_on = 0 ∧ ascii_strcasecmp o_on.swap ≠ 0
        ∧ ascii_strncasecmp o_on 2 = 0 ∧ ascii_strcasecmp_l o_on 1 2 = -1
        ∧ ascii_equal_ci (.strings o_on) = true
        ∧ ascii_hash_ci o_on.str1 ≠ ascii_hash_ci o_on.str2 ∧ ¬ Right o_on 2)
      ∧ env_get_option (some o_on.str1) false = true ∧ ¬ OptionRight o_on.str1 false := by
  refine ⟨⟨by decide, by decide, by decide, by decide, by decide, by decide, ?_⟩, by decide, ?_⟩
  · intro h
    have hkeys := h.keys (by decide)
    exact absurd hkeys (by decide)
  · intro h
    obtain ⟨word, hword, heq⟩ := h.mp (by decide)
    have hno : ∀ word ∈ TRUTHY, (literal "o").map upcase ≠ word.bytes.map upcase := by decide
    exact hno word hword heq

end PkgPlugins.AsciiCase
