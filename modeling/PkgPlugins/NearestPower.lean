/-
`nearest_power` (`kissc/nearest_power.h`), shift by shift.

`1UL << i` means nothing from `i = 64` on, so that here a shift that far is a fault. The
loop has a number of steps, and running out of them is one too. `Rounds` says that
neither happens, and which power of two comes out: it is `Hashtable.nearest_power`, with
which the tables are made.
-/
import PkgPlugins.Hashtable
import Mathlib.Data.Nat.Log
import Mathlib.Order.Bounds.Defs

set_option autoImplicit false

namespace PkgPlugins.NearestPower

/-! ## The function -/

/-- Why there is no result. -/
inductive ShiftFault
  | oversized (i : ℕ)
  | unfinished
deriving DecidableEq

/-- `1UL << i` -/
def shift (i : ℕ) : Except ShiftFault ℕ := if i < 64 then .ok (2 ^ i) else .error (.oversized i)

/-- `(1UL << (sizeof(size_t) * CHAR_BIT - 1))` -/
def HALF_SIZE : Except ShiftFault ℕ := shift (8 * 8 - 1)

/-- From `while ((1UL << i) < requested_length)` on. -/
def nearest_power_loop (requested_length : ℕ) : ℕ → ℕ → Except ShiftFault ℕ
  | 0, _ => .error .unfinished
  | fuel + 1, i => do
      let shifted ← shift i
      if shifted < requested_length then nearest_power_loop requested_length fuel (i + 1)
      else shift i

def nearest_power (fuel requested_length minimal : ℕ) : Except ShiftFault ℕ := do
  let half ← HALF_SIZE
  if half < requested_length then HALF_SIZE
  else nearest_power_loop (max requested_length minimal) fuel 1

/-- What the function is for: a result without a fault, and the right one. -/
structure Rounds (requested_length minimal : ℕ) : Prop where
  returns : ∀ fuel, 63 ≤ fuel → nearest_power fuel requested_length minimal
    = .ok (Hashtable.nearest_power requested_length minimal)
  power : ∃ j < 64, Hashtable.nearest_power requested_length minimal = 2 ^ j
  least : requested_length ≤ 2 ^ 63 →
    IsLeast {q | (∃ j, q = 2 ^ j) ∧ max (max requested_length minimal) 2 ≤ q}
      (Hashtable.nearest_power requested_length minimal)
  large : 2 ^ 63 < requested_length → Hashtable.nearest_power requested_length minimal = 2 ^ 63

/-! ## Powers of two -/

/-- The least power of two that is neither below `n` nor below 2. -/
theorem least_power (n : ℕ) :
    IsLeast {q | (∃ j, q = 2 ^ j) ∧ max n 2 ≤ q} (2 ^ max 1 (Nat.clog 2 n)) := by
  constructor
  · refine ⟨⟨_, rfl⟩, max_le ?_ ?_⟩
    · exact (Nat.le_pow_clog Nat.one_lt_two n).trans
        (Nat.pow_le_pow_right Nat.two_pos (le_max_right _ _))
    · show 2 ^ 1 ≤ _
      exact Nat.pow_le_pow_right Nat.two_pos (le_max_left 1 _)
  · rintro _ ⟨⟨j, rfl⟩, hle⟩
    have hn : Nat.clog 2 n ≤ j := Nat.clog_le_of_le_pow ((le_max_left n 2).trans hle)
    have htwo : 2 ^ 1 ≤ 2 ^ j := (le_max_right n 2).trans hle
    have hj : 1 ≤ j := (Nat.pow_le_pow_iff_right Nat.one_lt_two).mp htwo
    exact Nat.pow_le_pow_right Nat.two_pos (max_le hj hn)

/-! ## The loop -/

theorem shift_bind {i : ℕ} (hi : i < 64) (f : ℕ → Except ShiftFault ℕ) :
    shift i >>= f = f (2 ^ i) := by
  rw [shift, if_pos hi]
  rfl

/-- The test of the loop holds below the upper logarithm. -/
theorem test_iff (requested_length i : ℕ) :
    2 ^ i < requested_length ↔ i < Nat.clog 2 requested_length :=
  (Nat.lt_clog_iff_pow_lt Nat.one_lt_two).symm

/-- **The loop ends** at the upper logarithm, or where it started. -/
theorem nearest_power_loop_ok {requested_length : ℕ}
    (hle : Nat.clog 2 requested_length ≤ 63) (fuel : ℕ) : ∀ i, i ≤ 63 → 63 < i + fuel →
      nearest_power_loop requested_length fuel i
        = .ok (2 ^ max i (Nat.clog 2 requested_length)) := by
  induction fuel with
  | zero => intro i hi hfuel; omega
  | succ fuel ih =>
      intro i hi hfuel
      rw [nearest_power_loop, shift_bind (by omega)]
      -- no turn goes past the logarithm, which is what keeps the shift below 64
      by_cases htest : i < Nat.clog 2 requested_length
      · rw [if_pos ((test_iff _ _).mpr htest), ih (i + 1) (by omega) (by omega),
          max_eq_right htest.le, max_eq_right htest]
      · rw [if_neg (mt (test_iff _ _).mp htest), max_eq_left (by omega), shift,
          if_pos (by omega)]

/-- The same of the loop without its shifts. -/
theorem loop_eq {requested_length : ℕ} (fuel : ℕ) : ∀ i,
    Nat.clog 2 requested_length ≤ i + fuel →
      Hashtable.nearest_power_loop requested_length fuel i
        = 2 ^ max i (Nat.clog 2 requested_length) := by
  induction fuel with
  | zero =>
      intro i hle
      rw [Nat.add_zero] at hle
      rw [Hashtable.nearest_power_loop, max_eq_left hle]
  | succ fuel ih =>
      intro i hle
      rw [Hashtable.nearest_power_loop]
      by_cases htest : i < Nat.clog 2 requested_length
      · rw [if_pos ((test_iff _ _).mpr htest), ih (i + 1) (by omega), max_eq_right htest.le,
          max_eq_right htest]
      · rw [if_neg (mt (test_iff _ _).mp htest), max_eq_left (by omega)]

/-- Beyond the largest power that there is, the loop comes to a shift by 64. -/
theorem nearest_power_loop_oversized {requested_length : ℕ} (hlt : 2 ^ 63 < requested_length)
    (fuel : ℕ) : ∀ i, i ≤ 64 → 64 < i + fuel →
      nearest_power_loop requested_length fuel i = .error (.oversized 64) := by
  rw [test_iff] at hlt
  induction fuel with
  | zero => intro i hi hfuel; omega
  | succ fuel ih =>
      intro i hi hfuel
      rw [nearest_power_loop]
      -- each shift below 64 is tried in vain
      by_cases hi' : i < 64
      · rw [shift_bind hi', if_pos ((test_iff _ _).mpr (by omega)),
          ih (i + 1) (by omega) (by omega)]
      · obtain rfl : i = 64 := by omega
        rfl

/-! ## The result -/

variable {requested_length minimal : ℕ}

theorem nearest_power_large (hlt : 2 ^ 63 < requested_length) (fuel : ℕ) :
    nearest_power fuel requested_length minimal = .ok (2 ^ 63) := by
  rw [nearest_power, HALF_SIZE, shift_bind (by omega), if_pos hlt]
  rfl

theorem nearest_power_small (hle : requested_length ≤ 2 ^ 63) (fuel : ℕ) :
    nearest_power fuel requested_length minimal
      = nearest_power_loop (max requested_length minimal) fuel 1 := by
  rw [nearest_power, HALF_SIZE, shift_bind (by omega), if_neg (Nat.not_lt.mpr hle)]

/-- The size of a table that isn't too large. -/
theorem nearest_power_clog (hle : requested_length ≤ 2 ^ 63) (hminimal : minimal ≤ 2 ^ 63) :
    Hashtable.nearest_power requested_length minimal
      = 2 ^ max 1 (Nat.clog 2 (max requested_length minimal)) := by
  have hclog : Nat.clog 2 (max requested_length minimal) ≤ 63 :=
    Nat.clog_le_of_le_pow (max_le hle hminimal)
  rw [Hashtable.nearest_power, if_neg (Nat.not_lt.mpr hle), loop_eq 63 1 (by omega)]

/-- **`nearest_power`** rounds up to a power of two, as long as the minimum has one above
it. -/
theorem rounds (hminimal : minimal ≤ 2 ^ 63) : Rounds requested_length minimal := by
  by_cases hle : requested_length ≤ 2 ^ 63
  · have heq := nearest_power_clog hle hminimal
    have hclog : Nat.clog 2 (max requested_length minimal) ≤ 63 :=
      Nat.clog_le_of_le_pow (max_le hle hminimal)
    constructor
    case returns =>
      intro fuel hfuel
      rw [nearest_power_small hle, nearest_power_loop_ok hclog fuel 1 (by omega) (by omega), heq]
    case power =>
      exact ⟨_, by omega, heq⟩
    case least =>
      intro _
      rw [heq]
      exact least_power _
    case large =>
      intro hlt
      omega
  · have hlt : 2 ^ 63 < requested_length := by omega
    have heq : Hashtable.nearest_power requested_length minimal = 2 ^ 63 := if_pos hlt
    constructor
    case returns =>
      intro fuel _
      rw [nearest_power_large hlt, heq]
    case power =>
      exact ⟨63, by omega, heq⟩
    case least =>
      intro hle'
      exact absurd hle' hle
    case large =>
      intro _
      exact heq

/-- With a larger minimum the function shifts too far, unless it returns before. -/
theorem nearest_power_oversized (hle : requested_length ≤ 2 ^ 63) (hlt : 2 ^ 63 < minimal)
    {fuel : ℕ} (hfuel : 64 ≤ fuel) :
    nearest_power fuel requested_length minimal = .error (.oversized 64) := by
  rw [nearest_power_small hle]
  exact nearest_power_loop_oversized (hlt.trans_le (le_max_right _ _)) fuel 1 (by omega) (by omega)

/-- The buckets of a new table can be asked for if no more than `2 ^ 60` are requested. -/
theorem nearest_power_lt_iff (hminimal : minimal ≤ 2 ^ 60) :
    Hashtable.nearest_power requested_length minimal < 2 ^ 61 ↔ requested_length ≤ 2 ^ 60 := by
  by_cases hle : requested_length ≤ 2 ^ 63
  · rw [nearest_power_clog hle (by omega), Nat.pow_lt_pow_iff_right Nat.one_lt_two]
    constructor
    · intro hlt
      have hclog : Nat.clog 2 (max requested_length minimal) ≤ 60 := by omega
      exact (le_max_left _ _).trans ((Nat.clog_le_iff_le_pow Nat.one_lt_two).mp hclog)
    · intro hle60
      have hclog : Nat.clog 2 (max requested_length minimal) ≤ 60 :=
        Nat.clog_le_of_le_pow (max_le hle60 hminimal)
      omega
  · rw [Hashtable.nearest_power, if_pos (by omega)]
    omega

end PkgPlugins.NearestPower
