/-
Properties of a run at each of its points.

A run is a list of operations, and its points are the prefixes of that list. What
holds at every point is proved by an induction on the list: at the first point, and
after the first operation at those of the rest.
-/
import Mathlib.Data.List.Infix
import Mathlib.Tactic.Common

set_option autoImplicit false

namespace PkgPlugins.Prefixes

variable {α : Type}

/-- At every point of a run. -/
theorem forall_prefix_cons {P : List α → Prop} (a : α) (as : List α) :
    (∀ pre, pre <+: a :: as → P pre) ↔ P [] ∧ ∀ pre, pre <+: as → P (a :: pre) := by
  constructor
  · intro h
    exact ⟨h [] List.nil_prefix, fun pre hpre => h _ (List.cons_prefix_cons.mpr ⟨rfl, hpre⟩)⟩
  · rintro ⟨hnil, hcons⟩ pre hpre
    rcases List.prefix_cons_iff.mp hpre with rfl | ⟨t, rfl, ht⟩
    · exact hnil
    · exact hcons t ht

/-- At every operation of a run, with those before it. -/
theorem forall_operation_cons {P : List α → α → Prop} (a : α) (as : List α) :
    (∀ pre x, pre ++ [x] <+: a :: as → P pre x)
      ↔ P [] a ∧ ∀ pre x, pre ++ [x] <+: as → P (a :: pre) x := by
  constructor
  · intro h
    refine ⟨h [] a (List.cons_prefix_cons.mpr ⟨rfl, List.nil_prefix⟩), fun pre x hpre => ?_⟩
    exact h (a :: pre) x (List.cons_prefix_cons.mpr ⟨rfl, hpre⟩)
  · rintro ⟨hnil, hcons⟩ pre x hpre
    cases pre with
    | nil =>
        rw [List.nil_append, List.cons_prefix_cons] at hpre
        rw [hpre.1]
        exact hnil
    | cons b pre =>
        rw [List.cons_append, List.cons_prefix_cons] at hpre
        rw [hpre.1]
        exact hcons pre x hpre.2

end PkgPlugins.Prefixes
