/-
What becomes of the things that a container is given.

A container stores things, and lets go of each of them in one of two ways: it destroys it,
or it leaves it to whoever asked for that. The lemmas keep account of what the container
holds, event by event.
-/
import Mathlib.Data.Multiset.AddSub

set_option autoImplicit false

namespace PkgPlugins.Custody

variable {α : Type}

inductive Fate
  | stored
  | destroyed
  | left
deriving DecidableEq

structure Event (α : Type) where
  fate : Fate
  item : α
deriving DecidableEq

/-- The things with a fate, each as often as it met it. -/
def those (f : Fate) (t : List (Event α)) : Multiset α :=
  (t.filter fun e => e.fate = f).map Event.item

@[simp] theorem those_nil (f : Fate) : those f ([] : List (Event α)) = 0 := rfl

@[simp] theorem those_cons (f : Fate) (e : Event α) (t : List (Event α)) :
    those f (e :: t) = if e.fate = f then e.item ::ₘ those f t else those f t := by
  unfold those
  by_cases h : e.fate = f
  · rw [List.filter_cons_of_pos (by simpa using h), if_pos h, List.map_cons, Multiset.cons_coe]
  · rw [List.filter_cons_of_neg (by simpa using h), if_neg h]

@[simp] theorem those_append (f : Fate) (t u : List (Event α)) :
    those f (t ++ u) = those f t + those f u := by
  rw [those, those, those, List.filter_append, List.map_append, Multiset.coe_add]

/-- A thing is destroyed where that is asked for, and left otherwise. -/
def release (destroy : Bool) (x : α) : Event α := ⟨if destroy then .destroyed else .left, x⟩

/-- By these events, a container that held `a` comes to hold `b`. -/
def AddsUp (t : List (Event α)) (a b : Multiset α) : Prop :=
  a + those .stored t = those .destroyed t + those .left t + b

variable {a b c : Multiset α} {t u : List (Event α)}

theorem AddsUp.refl (a : Multiset α) : AddsUp [] a a := by
  simp [AddsUp]

theorem AddsUp.append (h : AddsUp t a b) (h' : AddsUp u b c) : AddsUp (t ++ u) a c := by
  classical
  unfold AddsUp at h h' ⊢
  ext x
  have hx := congrArg (Multiset.count x) h
  have hx' := congrArg (Multiset.count x) h'
  simp only [those_append, Multiset.count_add] at hx hx' ⊢
  omega

theorem AddsUp.store (x : α) (a : Multiset α) : AddsUp [⟨.stored, x⟩] a (x ::ₘ a) := by
  unfold AddsUp
  simp [Multiset.add_comm a]

theorem AddsUp.release (destroy : Bool) (x : α) (a : Multiset α) :
    AddsUp [release destroy x] (x ::ₘ a) a := by
  unfold AddsUp
  cases destroy <;> simp [Custody.release]

/-- A thing that was stored once at most is in one place: destroyed, left or still held. -/
theorem AddsUp.one_place [DecidableEq α] (h : AddsUp t 0 b) {x : α}
    (hx : (those .stored t).count x ≤ 1) :
    (those .destroyed t).count x + (those .left t).count x + b.count x ≤ 1 := by
  have hcount := congrArg (Multiset.count x) h
  rw [Multiset.zero_add, Multiset.count_add, Multiset.count_add] at hcount
  omega

end PkgPlugins.Custody
