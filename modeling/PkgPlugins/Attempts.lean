/-
A series of attempts, where whether an attempt succeeds may depend on those made
before it.
-/
import Mathlib.Data.List.Infix

set_option autoImplicit false

namespace PkgPlugins.Attempts

variable {α : Type} {ok : List α → α → Prop}

/-- After `done`, every attempt of `part` succeeds when it is its turn. -/
def Succeed (ok : List α → α → Prop) (done part : List α) : Prop :=
  ∀ pre a, pre ++ [a] <+: part → ok (done ++ pre) a

@[simp] theorem succeed_nil (done : List α) : Succeed ok done [] := by
  intro pre a h
  exact absurd (List.prefix_nil.mp h) (by simp)

theorem succeed_cons (done : List α) (a : α) (part : List α) :
    Succeed ok done (a :: part) ↔ ok done a ∧ Succeed ok (done ++ [a]) part := by
  constructor
  · intro h
    refine ⟨by simpa using h [] a (by simp), fun pre b hpre => ?_⟩
    simpa using h (a :: pre) b (by simpa using hpre)
  · rintro ⟨ha, hpart⟩ pre b hpre
    cases pre with
    | nil =>
        obtain rfl : b = a := by simpa using hpre
        simpa using ha
    | cons c pre =>
        rw [List.cons_append, List.cons_prefix_cons] at hpre
        obtain ⟨rfl, hpre⟩ := hpre
        simpa using hpart pre b hpre

theorem succeed_append (done xs ys : List α) :
    Succeed ok done (xs ++ ys) ↔ Succeed ok done xs ∧ Succeed ok (done ++ xs) ys := by
  induction xs generalizing done with
  | nil => simp
  | cons x xs ih => rw [List.cons_append, succeed_cons, succeed_cons, ih]; simp [and_assoc]

/-- The first attempts of a series that succeeds. -/
theorem Succeed.of_prefix {done part part' : List α} (h : Succeed ok done part')
    (hpre : part <+: part') : Succeed ok done part :=
  fun pre a hpart => h pre a (hpart.trans hpre)

end PkgPlugins.Attempts
