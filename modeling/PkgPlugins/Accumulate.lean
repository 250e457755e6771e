/-
Numerals read digit by digit into an accumulator that must stay within a limit.

A digit is refused, and all after it, if it would take the accumulator beyond the limit: the
test is made before the multiplication, against the limit's quotient and remainder by the
base. The sums are reduced by a modulus, as in an unsigned type.

The digits may be negative, as long as they are smaller than the base: a sum is then negative
only if it is the first that isn't zero, and the digit after it is refused.
-/
import Mathlib.Data.Int.Notation
import Mathlib.Data.List.Induction
import Mathlib.Tactic.Common
import Mathlib.Tactic.Linarith

set_option autoImplicit false

namespace PkgPlugins.Accumulate

/-- The number of the digits `cs`. -/
def horner (base : ℤ) (cs : List ℤ) : ℤ := cs.foldl (fun v c => v * base + c) 0

/-- One digit: the accumulator, and what is negative after a refusal. -/
def add (modulus base limit : ℤ) (s : ℤ × ℤ) (c : ℤ) : ℤ × ℤ :=
  if s.2 < 0 ∨ limit / base < s.1 ∨ s.1 = limit / base ∧ limit % base < c then (s.1, -1)
  else ((s.1 * base + c) % modulus, 1)

def accumulate (modulus base limit : ℤ) (cs : List ℤ) : ℤ × ℤ :=
  cs.foldl (add modulus base limit) (0, 0)

/-- A digit comes when the sum is negative, or takes it beyond the limit (or would, if it were
not negative). -/
def Overflows (base limit : ℤ) (cs : List ℤ) : Prop :=
  ∃ p c q, cs = p ++ c :: q
    ∧ (horner base p < 0 ∨ limit < horner base p * base + max c 0)

section Append

variable (modulus base limit : ℤ) (cs : List ℤ) (c : ℤ)

@[simp] theorem horner_nil : horner base [] = 0 := rfl

@[simp] theorem horner_append_one : horner base (cs ++ [c]) = horner base cs * base + c := by
  rw [horner, List.foldl_append]
  rfl

theorem accumulate_append_one : accumulate modulus base limit (cs ++ [c])
    = add modulus base limit (accumulate modulus base limit cs) c := by
  rw [accumulate, List.foldl_append]
  rfl

theorem not_overflows_nil : ¬ Overflows base limit [] := by
  rintro ⟨p, c, q, heq, -⟩
  exact absurd heq (by simp)

theorem overflows_append_one : Overflows base limit (cs ++ [c])
    ↔ Overflows base limit cs
      ∨ (horner base cs < 0 ∨ limit < horner base cs * base + max c 0) := by
  constructor
  · rintro ⟨p, d, q, heq, hover⟩
    rcases List.eq_nil_or_concat q with rfl | ⟨q, e, rfl⟩
    · obtain ⟨rfl, hcd⟩ := List.append_inj' heq rfl
      rw [List.cons.inj hcd |>.1]
      exact Or.inr hover
    · rw [List.concat_eq_append, ← List.cons_append, ← List.append_assoc] at heq
      exact Or.inl ⟨p, d, q, (List.append_inj' heq rfl).1, hover⟩
  · rintro (⟨p, d, q, rfl, hover⟩ | hover)
    · exact ⟨p, d, q ++ [c], by rw [List.append_assoc]; rfl, hover⟩
    · exact ⟨cs, c, [], rfl, hover⟩

end Append

variable {modulus base limit : ℤ}

/-- The test before the multiplication is the one after it. -/
theorem cutoff_iff (hbase : 0 < base) {a c : ℤ} (hc : c < base) :
    (limit / base < a ∨ a = limit / base ∧ limit % base < c) ↔ limit < a * base + max c 0 := by
  have hdiv : limit / base * base + limit % base = limit := Int.ediv_mul_add_emod limit base
  have hnonneg : 0 ≤ limit % base := Int.emod_nonneg limit (Int.ne_of_gt hbase)
  have hlt : limit % base < base := Int.emod_lt_of_pos limit hbase
  generalize limit / base = q at *
  generalize limit % base = r at *
  have hmax : max c 0 < base := max_lt hc hbase
  have hzero : 0 ≤ max c 0 := le_max_right c 0
  rcases lt_trichotomy a q with hlow | rfl | hhigh
  · have hmul : a * base + base ≤ q * base := by nlinarith
    exact iff_of_false (by omega) (by omega)
  · have hsame : r < c ↔ r < max c 0 := by
      rw [lt_max_iff]
      exact ⟨Or.inl, fun h => h.resolve_right (by omega)⟩
    omega
  · have hmul : q * base + base ≤ a * base := by nlinarith
    exact iff_of_true (Or.inl hhigh) (by omega)

/-- One digit after a number within the limit. -/
theorem add_spec (hbase : 0 < base) (hlimit : 0 ≤ limit) (hmodulus : limit < modulus)
    (hfar : limit / base + base < modulus) {v any c : ℤ} (hlow : -base < v) (hhigh : v ≤ limit)
    (hany : 0 ≤ any) (hc : c < base) :
    add modulus base limit (v % modulus, any) c
      = if v < 0 ∨ limit < v * base + max c 0 then (v % modulus, -1)
        else ((v * base + c) % modulus, 1) := by
  unfold add
  by_cases hneg : v < 0
  · -- reduced, it is beyond any quotient
    have hquotient : 0 ≤ limit / base := Int.ediv_nonneg hlimit hbase.le
    have hmod : v % modulus = v + modulus := by
      rw [← Int.add_emod_right, Int.emod_eq_of_lt (by omega) (by omega)]
    rw [if_pos (Or.inr (Or.inl (by rw [hmod]; omega))), if_pos (Or.inl hneg)]
  · have hmod : v % modulus = v := Int.emod_eq_of_lt (by omega) (by omega)
    have htest := @cutoff_iff base limit hbase v c hc
    simp only [hmod]
    refine if_congr ?_ rfl rfl
    rw [htest, or_iff_right (Int.not_lt.mpr hany), or_iff_right hneg]

/-- **What is accumulated** of digits that are smaller than the base: their number, which is
within the limit, or a refusal. -/
theorem accumulate_spec (hbase : 0 < base) (hlimit : 0 ≤ limit) (hmodulus : limit < modulus)
    (hfar : limit / base + base < modulus) (cs : List ℤ) (hcs : ∀ c ∈ cs, -base < c ∧ c < base) :
    (Overflows base limit cs ∧ (accumulate modulus base limit cs).2 = -1)
      ∨ (¬ Overflows base limit cs ∧ -base < horner base cs ∧ horner base cs ≤ limit
        ∧ accumulate modulus base limit cs
          = (horner base cs % modulus, if cs = [] then 0 else 1)) := by
  induction cs using List.reverseRecOn with
  | nil =>
      refine Or.inr ⟨not_overflows_nil base limit, ?_, hlimit, ?_⟩
      · rw [horner_nil]
        omega
      · rw [horner_nil, Int.zero_emod, if_pos rfl]
        rfl
  | append_singleton cs c ih =>
      have hc := hcs c (by simp)
      rw [overflows_append_one, accumulate_append_one, horner_append_one]
      rcases ih fun d hd => hcs d (List.mem_append_left _ hd) with
        ⟨hover, hneg⟩ | ⟨hover, hlow, hhigh, hacc⟩
      · -- refused before
        refine Or.inl ⟨Or.inl hover, ?_⟩
        rw [add, if_pos (Or.inl (by omega))]
      · have hany : (0 : ℤ) ≤ if cs = [] then 0 else 1 := by
          split_ifs <;> omega
        rw [hacc, add_spec hbase hlimit hmodulus hfar hlow hhigh hany hc.2]
        by_cases hnow : horner base cs < 0 ∨ limit < horner base cs * base + max c 0
        · exact Or.inl ⟨Or.inr hnow, by rw [if_pos hnow]⟩
        · have hmax : c ≤ max c 0 := le_max_left c 0
          have hmul : 0 ≤ horner base cs * base := mul_nonneg (by omega) (by omega)
          refine Or.inr ⟨not_or.mpr ⟨hover, hnow⟩, by omega, by omega, ?_⟩
          rw [if_neg hnow, if_neg (by simp)]

/-! ## Digits that are not negative -/

theorem horner_nonneg (hbase : 0 < base) {cs : List ℤ} (hcs : ∀ c ∈ cs, 0 ≤ c) :
    0 ≤ horner base cs := by
  induction cs using List.reverseRecOn with
  | nil => exact Int.le_refl 0
  | append_singleton cs c ih =>
      have hc := hcs c (by simp)
      have hmul := mul_nonneg (ih fun d hd => hcs d (List.mem_append_left _ hd)) hbase.le
      rw [horner_append_one]
      omega

/-- Only the number itself matters then. -/
theorem overflows_iff (hbase : 0 < base) (hlimit : 0 ≤ limit) {cs : List ℤ}
    (hcs : ∀ c ∈ cs, 0 ≤ c) : Overflows base limit cs ↔ limit < horner base cs := by
  induction cs using List.reverseRecOn with
  | nil => exact iff_of_false (not_overflows_nil base limit) (Int.not_lt.mpr hlimit)
  | append_singleton cs c ih =>
      have hc : 0 ≤ c := hcs c (by simp)
      have hcs' : ∀ d ∈ cs, 0 ≤ d := fun d hd => hcs d (List.mem_append_left _ hd)
      have hnonneg := horner_nonneg hbase hcs'
      rw [overflows_append_one, ih hcs', horner_append_one, max_eq_left hc]
      -- the number grows with each digit
      have hgrow : horner base cs ≤ horner base cs * base := le_mul_of_one_le_right hnonneg hbase
      omega

/-- **What is accumulated** of such digits. -/
theorem accumulate_of_nonneg (hbase : 0 < base) (hlimit : 0 ≤ limit) (hmodulus : limit < modulus)
    (hfar : limit / base + base < modulus) {cs : List ℤ} (hcs : ∀ c ∈ cs, 0 ≤ c ∧ c < base) :
    (limit < horner base cs ∧ (accumulate modulus base limit cs).2 = -1)
      ∨ (horner base cs ≤ limit
        ∧ accumulate modulus base limit cs = (horner base cs, if cs = [] then 0 else 1)) := by
  have hnonneg : ∀ c ∈ cs, 0 ≤ c := fun c hc => (hcs c hc).1
  have hover := @overflows_iff base limit hbase hlimit cs hnonneg
  rcases @accumulate_spec modulus base limit hbase hlimit hmodulus hfar cs fun c hc => by
      have hboth := hcs c hc
      omega with ⟨hyes, hneg⟩ | ⟨-, -, hle, hacc⟩
  · exact Or.inl ⟨hover.mp hyes, hneg⟩
  · have hmod : horner base cs % modulus = horner base cs :=
      Int.emod_eq_of_lt (horner_nonneg hbase hnonneg) (by omega)
    exact Or.inr ⟨hle, by rw [hacc, hmod]⟩

/-- A sum that isn't refused needs no modulus. -/
theorem sum_mem (hbase : 0 < base) {v c : ℤ} (hv : 0 ≤ v) (hc : 0 ≤ c ∧ c < base)
    (htest : ¬ (limit / base < v ∨ v = limit / base ∧ limit % base < c)) :
    0 ≤ v * base ∧ v * base ≤ v * base + c ∧ v * base + c ≤ limit := by
  rw [cutoff_iff hbase hc.2, max_eq_left hc.1, Int.not_lt] at htest
  exact ⟨mul_nonneg hv hbase.le, by omega, htest⟩

end PkgPlugins.Accumulate
