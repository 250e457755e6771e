/-
Loops that are driven by their environment.

A loop tests its state, takes the next item of what happens around it, and
either goes on from a new state or stops with a reason. The items are a list, so
a run is a recursion on it, and a property of every run is a property of every
list of items. What a run passes through is two lists: its heads, the states in
which the test was made, and its turns, the states with the items they took.
-/
import Mathlib.Tactic.Common

set_option autoImplicit false

namespace PkgPlugins.EventLoop

variable {S I R : Type}

/-- `while (test)` around `step`; `done` is the reason of a failed test, `idle`
that of a run that nothing happens to any more. -/
structure Loop (S I R : Type) where
  test : S → Bool
  step : S → I → S ⊕ R
  done : R
  idle : R

namespace Loop

def run (l : Loop S I R) : S → List I → S × R
  | s, [] => (s, if l.test s then l.idle else l.done)
  | s, i :: is =>
      if l.test s then
        match l.step s i with
        | .inl s' => run l s' is
        | .inr r => (s, r)
      else (s, l.done)

/-- The states in which the test is made. -/
def heads (l : Loop S I R) : S → List I → List S
  | s, [] => [s]
  | s, i :: is =>
      if l.test s then
        match l.step s i with
        | .inl s' => s :: heads l s' is
        | .inr _ => [s]
      else [s]

/-- The turns after which the loop goes on. -/
def turns (l : Loop S I R) : S → List I → List (S × I)
  | _, [] => []
  | s, i :: is =>
      if l.test s then
        match l.step s i with
        | .inl s' => (s, i) :: turns l s' is
        | .inr _ => []
      else []

variable {l : Loop S I R}

/-! ## The three lists of a turn -/

theorem run_stop {s : S} (h : l.test s = false) (is : List I) : l.run s is = (s, l.done) := by
  cases is with
  | nil => simp [run, h]
  | cons i is => simp [run, h]

theorem heads_stop {s : S} (h : l.test s = false) (is : List I) : l.heads s is = [s] := by
  cases is with
  | nil => rw [heads]
  | cons i is => simp [heads, h]

theorem turns_stop {s : S} (h : l.test s = false) (is : List I) : l.turns s is = [] := by
  cases is with
  | nil => rw [turns]
  | cons i is => simp [turns, h]

theorem run_inl {s s' : S} {i : I} (h : l.test s = true) (hs : l.step s i = .inl s')
    (is : List I) : l.run s (i :: is) = l.run s' is := by
  simp [run, h, hs]

theorem heads_inl {s s' : S} {i : I} (h : l.test s = true) (hs : l.step s i = .inl s')
    (is : List I) : l.heads s (i :: is) = s :: l.heads s' is := by
  simp [heads, h, hs]

theorem turns_inl {s s' : S} {i : I} (h : l.test s = true) (hs : l.step s i = .inl s')
    (is : List I) : l.turns s (i :: is) = (s, i) :: l.turns s' is := by
  simp [turns, h, hs]

theorem run_inr {s : S} {i : I} {r : R} (h : l.test s = true) (hs : l.step s i = .inr r)
    (is : List I) : l.run s (i :: is) = (s, r) := by
  simp [run, h, hs]

theorem heads_inr {s : S} {i : I} {r : R} (h : l.test s = true) (hs : l.step s i = .inr r)
    (is : List I) : l.heads s (i :: is) = [s] := by
  simp [heads, h, hs]

theorem turns_inr {s : S} {i : I} {r : R} (h : l.test s = true) (hs : l.step s i = .inr r)
    (is : List I) : l.turns s (i :: is) = [] := by
  simp [turns, h, hs]

/-! ## Rules -/

/-- **The rule of a loop**: to prove something of a run, its heads and its turns,
prove it where the loop stops at once, and after a turn from what it is for the
rest. -/
theorem induct {motive : S → List I → Prop} (l : Loop S I R)
    (idle : ∀ s, l.test s = true → motive s [])
    (done : ∀ s is, l.test s = false → motive s is)
    (stop : ∀ s i is r, l.test s = true → l.step s i = .inr r → motive s (i :: is))
    (turn : ∀ s i is s', l.test s = true → l.step s i = .inl s' → motive s' is →
      motive s (i :: is)) (s : S) (is : List I) : motive s is := by
  -- the state is arbitrary, as it changes from item to item
  revert s
  induction is with
  | nil =>
      intro s
      cases ht : l.test s with
      | false => exact done s [] ht
      | true => exact idle s ht
  | cons i is ih =>
      intro s
      cases ht : l.test s with
      | false => exact done s (i :: is) ht
      | true =>
          cases hs : l.step s i with
          | inl s' => exact turn s i is s' ht hs (ih s')
          | inr r => exact stop s i is r ht hs

theorem head_mem_heads (l : Loop S I R) (s : S) (is : List I) : s ∈ l.heads s is := by
  cases is with
  | nil => simp [heads]
  | cons i is =>
      rw [heads]
      split
      · split <;> simp
      · simp

/-- A run ends in one of its heads. -/
theorem run_mem_heads (l : Loop S I R) (is : List I) (s : S) : (l.run s is).1 ∈ l.heads s is := by
  induction s, is using l.induct with
  | idle s ht => simp [run, heads]
  | done s is ht => simp [run_stop ht, heads_stop ht]
  | stop s i is r ht hs => simp [run_inr ht hs, heads_inr ht hs]
  | turn s i is s' ht hs ih =>
      rw [run_inl ht hs, heads_inl ht hs]
      exact List.mem_cons_of_mem s ih

/-- What every turn preserves holds where a run ends and in each of its turns. -/
theorem run_turns_inv {Inv : S → Prop}
    (hstep : ∀ s i s', Inv s → l.test s = true → l.step s i = .inl s' → Inv s')
    (is : List I) (s : S) :
    Inv s → Inv (l.run s is).1 ∧ ∀ t ∈ l.turns s is, Inv t.1 := by
  induction s, is using l.induct with
  | idle s ht => intro h; simp [run, turns, h]
  | done s is ht => intro h; simp [run_stop ht, turns_stop ht, h]
  | stop s i is r ht hs => intro h; simp [run_inr ht hs, turns_inr ht hs, h]
  | turn s i is s' ht hs ih =>
      intro h
      rw [run_inl ht hs, turns_inl ht hs, List.forall_mem_cons]
      have hrest := ih (hstep s i s' h ht hs)
      exact ⟨hrest.1, h, hrest.2⟩

/-- **What exactly the good turns preserve.** If a turn keeps `P` just when it is
good, then `P` holds in every head just when every turn is good. -/
theorem heads_iff {Inv P : S → Prop} {Good : S → I → Prop}
    (hstep : ∀ s i s', Inv s → l.test s = true → l.step s i = .inl s' → Inv s')
    (hgood : ∀ s i s', Inv s → P s → l.test s = true → l.step s i = .inl s' →
      (P s' ↔ Good s i))
    (is : List I) (s : S) :
    Inv s → P s → ((∀ h ∈ l.heads s is, P h) ↔ ∀ t ∈ l.turns s is, Good t.1 t.2) := by
  induction s, is using l.induct with
  | idle s ht => intro _ hP; simp [heads, turns, hP]
  | done s is ht => intro _ hP; simp [heads_stop ht, turns_stop ht, hP]
  | stop s i is r ht hs => intro _ hP; simp [heads_inr ht hs, turns_inr ht hs, hP]
  | turn s i is s' ht hs ih =>
      intro hinv hP
      have hinv' := hstep s i s' hinv ht hs
      rw [heads_inl ht hs, turns_inl ht hs, List.forall_mem_cons, List.forall_mem_cons,
        ← hgood s i s' hinv hP ht hs]
      -- the first head is good by assumption, so the next one decides
      constructor
      · rintro ⟨-, hall⟩
        have hP' := hall s' (head_mem_heads l s' is)
        exact ⟨hP', (ih hinv' hP').mp hall⟩
      · rintro ⟨hP', hall⟩
        exact ⟨hP, (ih hinv' hP').mpr hall⟩

/-- A loop that stopped because of its test stopped where the test fails. -/
theorem test_of_done (hidle : l.idle ≠ l.done) (hstop : ∀ s i, l.step s i ≠ .inr l.done)
    (is : List I) (s : S) : (l.run s is).2 = l.done → l.test (l.run s is).1 = false := by
  induction s, is using l.induct with
  | idle s ht => simp [run, ht, hidle]
  | done s is ht => simp [run_stop ht, ht]
  | stop s i is r ht hs =>
      intro hr
      rw [run_inr ht hs] at hr
      exact absurd (hr ▸ hs) (hstop s i)
  | turn s i is s' ht hs ih =>
      rw [run_inl ht hs]
      exact ih

end Loop

end PkgPlugins.EventLoop
