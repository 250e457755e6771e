/-
Fallible steps, one after the other.

A step gives a result or an error, and the first error is that of the whole. The lemmas take
such a chain apart, or carry a chain of other steps along with it.
-/
import Mathlib.Tactic.Common

set_option autoImplicit false

namespace PkgPlugins.Fallible

variable {ε α α' β β' : Type}

@[simp] theorem ok_bind (a : α) (f : α → Except ε β) : (Except.ok a >>= f) = f a := by
  simp [bind, Except.bind]

@[simp] theorem error_bind (e : ε) (f : α → Except ε β) :
    ((Except.error e : Except ε α) >>= f) = .error e := by
  simp [bind, Except.bind]

theorem bind_ok (x : Except ε α) : (x >>= fun a => .ok a) = x := by
  cases x <;> rfl

/-- A step that ends well. -/
theorem bind_of_ok {x : Except ε α} {a : α} {f : α → Except ε β} {r : Except ε β}
    (hx : x = .ok a) (hf : f a = r) : x >>= f = r := by
  rw [hx, ok_bind, hf]

/-- A bind that gives a result got one from its first part. -/
theorem bind_eq_ok {x : Except ε α} {f : α → Except ε β} {b : β} (h : x >>= f = .ok b) :
    ∃ a, x = .ok a ∧ f a = .ok b := by
  cases x with
  | error e => exact absurd h (by simp)
  | ok a => exact ⟨a, rfl, by rwa [ok_bind] at h⟩

theorem exists_ok {x : Except ε α} (h : x.toOption.isSome = true) : ∃ a, x = .ok a := by
  cases x with
  | error e => exact absurd h (by simp [Except.toOption])
  | ok a => exact ⟨a, rfl⟩

/-! ## Steps that go along -/

variable {g : α → α'} {g' : β → β'}

/-- Two steps of which the second goes along with the first one's result. -/
theorem map_bind_eq {x : Except ε α} {x' : Except ε α'} {f : α → Except ε β}
    {f' : α' → Except ε β'} (hx : x.map g = x') (hf : ∀ a, (f a).map g' = f' (g a)) :
    (x >>= f).map g' = x' >>= f' := by
  subst hx
  cases x with
  | error e => rfl
  | ok a => exact hf a

theorem of_map_ok {x : Except ε α} {b : α'} (h : x.map g = .ok b) : ∃ a, x = .ok a ∧ g a = b := by
  cases x with
  | error e => cases h
  | ok a => exact ⟨a, rfl, Except.ok.inj h⟩

theorem of_map_error {x : Except ε α} {e : ε} (h : x.map g = .error e) : x = .error e := by
  cases x with
  | error e' => exact congrArg Except.error (Except.error.inj h)
  | ok a => cases h

/-- What is read off a result, where there is one. -/
theorem of_toOption_map {x : Except ε α} {b : α'} (h : x.toOption.map g = some b) :
    ∃ a, x = .ok a ∧ g a = b := by
  cases x with
  | error e => exact absurd h (by simp [Except.toOption])
  | ok a => exact ⟨a, rfl, Option.some.inj h⟩

end PkgPlugins.Fallible
