/-
Iterators and the element at an index: `iterator_at` (`kissc/iterator.c`).

An iterator is a collection behind callbacks, which may be null. What a traversal gets from
it is the relation `Yields`: after each test that the position is valid there is one more
element, and after the last one the test fails. The functions here only see the callbacks,
so that what is proved holds of every collection.

The loop of `iterator_at` moves the position but not its counter `i`. The local `value` has
no value until the test assigns it.
-/
import Mathlib.Algebra.Group.Int.Defs
import Mathlib.Data.Int.Notation
import Mathlib.Data.Nat.Notation
import Mathlib.Tactic.SplitIfs

set_option autoImplicit false

namespace PkgPlugins.IteratorAt

/-! ## Iterators -/

/-- The callbacks of an iterator whose positions are in `σ` and whose elements are in `α`;
the key of an element is left out. `valid` and `current` may change the position's state. -/
structure Iterator (σ α : Type) where
  first : Option (σ → σ)
  last : Option (σ → σ)
  current : σ → α × σ
  next : Option (σ → σ)
  previous : Option (σ → σ)
  valid : σ → Bool × σ

section Functions

variable {σ α : Type} (it : Iterator σ α)

def iterator_first (state : σ) : σ :=
  match it.first with
  | some first => first state
  | none => state

def iterator_last (state : σ) : σ :=
  match it.last with
  | some last => last state
  | none => state

def iterator_next (state : σ) : σ :=
  match it.next with
  | some next => next state
  | none => state

def iterator_previous (state : σ) : σ :=
  match it.previous with
  | some previous => previous state
  | none => state

/-- `_iterator_is_valid`: whether the position is valid, and what `*value` is then. -/
def iterator_is_valid (state : σ) (value : Option α) : Bool × Option α × σ :=
  match it.valid state with
  | (true, state) => (true, some (it.current state).1, (it.current state).2)
  | (false, state) => (false, value, state)

/-! ## `iterator_at` -/

inductive Fault
  | overflow
  | unfinished
deriving DecidableEq

abbrev INT_MIN : ℤ := -2 ^ 31

/-- `for (...; i < index && iterator_is_valid(it, NULL, &value); next(it));`, where nothing
changes `i`. -/
def iterator_at_loop (i index : ℤ) (next : σ → σ) :
    ℕ → σ → Option α → Except Fault (Option α × σ)
  | 0, _, _ => .error .unfinished
  | fuel + 1, state, value =>
      if i < index then
        match iterator_is_valid it state value with
        | (true, value, state) => iterator_at_loop i index next fuel (next state) value
        | (false, value, state) => .ok (value, state)
      else .ok (value, state)

/-- The number of moves and the callbacks that move: those in reverse for a negative index. -/
def direction (index : ℤ) : Except Fault (ℤ × (σ → σ) × (σ → σ)) :=
  if index < 0 then
    if index = INT_MIN then .error .overflow
    else .ok (-index, iterator_last it, iterator_previous it)
  else .ok (index, iterator_first it, iterator_next it)

/-- What is returned, and what `*data` is after the call if `data` is not null: `none` where
it has no value. -/
def iterator_at (fuel : ℕ) (state : σ) (index : ℤ) (data : Option (Option α)) :
    Except Fault (Bool × Option (Option α) × σ) := do
  let (index, first, next) ← direction it index
  let i : ℤ := 0
  let (value, state) ← iterator_at_loop it i index next fuel (first state) none
  return (i == index, if i = index then data.map fun _ => value else data, state)

/-! ## Collections -/

/-- What is traversed with `next` from a position on. -/
inductive Yields (next : σ → σ) : σ → List α → Prop
  | done {state : σ} (hvalid : (it.valid state).1 = false) : Yields next state []
  | element {state : σ} {x : α} {xs : List α} (hvalid : (it.valid state).1 = true)
      (hcurrent : (it.current (it.valid state).2).1 = x)
      (hnext : Yields next (next (it.current (it.valid state).2).2) xs) :
      Yields next state (x :: xs)

/-- An iterator that can be traversed forward, over the elements `xs`. -/
structure Forward (state : σ) (xs : List α) : Prop where
  first : it.first ≠ none
  next : it.next ≠ none
  yields : Yields it (iterator_next it) (iterator_first it state) xs

/-- **The promise**: the element at the index is stored and the result is `true`, or there is
none and it is `false`. -/
def FindsAt (state : σ) (xs : List α) (n : ℕ) (data : Option (Option α)) : Prop :=
  ∃ fuel returned data' state', iterator_at it fuel state n data = .ok (returned, data', state')
    ∧ match xs[n]? with
      | some x => returned = true ∧ data' = data.map fun _ => some x
      | none => returned = false

/-! ## The loop -/

variable {it}

/-- The loop ends, at the latest at the end of the collection. -/
theorem iterator_at_loop_ends {next : σ → σ} {state : σ} {xs : List α}
    (h : Yields it next state xs) (i index : ℤ) {fuel : ℕ} (hfuel : xs.length < fuel)
    (value : Option α) :
    ∃ r, iterator_at_loop it i index next fuel state value = .ok r := by
  induction h generalizing fuel value with
  | @done state hvalid =>
      obtain ⟨fuel, rfl⟩ := Nat.exists_eq_add_one.mpr hfuel
      obtain ⟨⟨b, state'⟩, hv⟩ : ∃ r, it.valid state = r := ⟨_, rfl⟩
      rw [hv] at hvalid
      have hb : b = false := hvalid
      unfold iterator_at_loop iterator_is_valid
      rw [hv, hb]
      split_ifs
      · exact ⟨_, rfl⟩
      · exact ⟨_, rfl⟩
  | @element state x xs hvalid _ _ ih =>
      obtain ⟨fuel, rfl⟩ := Nat.exists_eq_add_one.mpr (Nat.zero_lt_of_lt hfuel)
      obtain ⟨⟨b, state'⟩, hv⟩ : ∃ r, it.valid state = r := ⟨_, rfl⟩
      rw [hv] at hvalid ih
      have hb : b = true := hvalid
      unfold iterator_at_loop iterator_is_valid
      rw [hv, hb]
      split_ifs
      · exact ih (Nat.lt_of_succ_lt_succ hfuel) _
      · exact ⟨_, rfl⟩

theorem iterator_at_natCast (fuel n : ℕ) (state : σ) (data : Option (Option α)) :
    iterator_at it fuel state n data
      = (iterator_at_loop it 0 n (iterator_next it) fuel (iterator_first it state) none).map
          fun v => ((0 : ℤ) == n, if (0 : ℤ) = n then data.map fun _ => v.1 else data, v.2) := by
  have hneg : ¬ (n : ℤ) < 0 := Int.not_lt.mpr (Int.natCast_nonneg n)
  unfold iterator_at direction
  rw [if_neg hneg]
  simp only [bind, Except.bind]
  cases iterator_at_loop it 0 n (iterator_next it) fuel (iterator_first it state) none with
  | error e => rfl
  | ok v => rfl

/-- An index that is not negative: only at 0 is the result `true`, and then the loop has not
assigned `value`. -/
theorem iterator_at_eq_ok {fuel n : ℕ} {state : σ} {data : Option (Option α)}
    {r : Bool × Option (Option α) × σ} (h : iterator_at it fuel state n data = .ok r) :
    (n = 0 → r.1 = true ∧ r.2.1 = data.map fun _ => none) ∧ (n ≠ 0 → r.1 = false) := by
  rw [iterator_at_natCast] at h
  cases hloop : iterator_at_loop it 0 n (iterator_next it) fuel (iterator_first it state) none with
  | error e =>
      rw [hloop] at h
      exact absurd h nofun
  | ok v =>
      rw [hloop] at h
      cases h
      constructor
      · rintro rfl
        obtain _ | fuel := fuel
        · exact absurd hloop nofun
        · unfold iterator_at_loop at hloop
          rw [if_neg (show ¬ (0 : ℤ) < ((0 : ℕ) : ℤ) from Int.lt_irrefl 0)] at hloop
          cases hloop
          exact ⟨rfl, rfl⟩
      · intro hn
        exact beq_false_of_ne (fun h => hn (Int.natCast_eq_zero.mp h.symm))

/-- The function returns. -/
theorem iterator_at_ends {state : σ} {xs : List α} (h : Forward it state xs) (n : ℕ)
    (data : Option (Option α)) : ∃ fuel r, iterator_at it fuel state n data = .ok r := by
  obtain ⟨v, hloop⟩ := iterator_at_loop_ends h.yields 0 n (Nat.lt_succ_self _) none
  refine ⟨xs.length.succ, ?_⟩
  rw [iterator_at_natCast, hloop]
  exact ⟨_, rfl⟩

/-! ## The element at an index -/

/-- **When the promise is kept**: beyond the end, at an index that is not 0. At index 0 the
result is always `true` and what is stored has no value: right only if nothing is to be
stored and the collection is not empty. -/
theorem iterator_at_finds_iff {state : σ} {xs : List α} (h : Forward it state xs) (n : ℕ)
    (data : Option (Option α)) :
    FindsAt it state xs n data
      ↔ 1 ≤ n ∧ xs.length ≤ n ∨ n = 0 ∧ xs ≠ [] ∧ data = none := by
  constructor
  · rintro ⟨fuel, returned, data', state', hrun, hfinds⟩
    obtain ⟨hzero, hpos⟩ := iterator_at_eq_ok hrun
    by_cases hn : n = 0
    · obtain ⟨htrue, hdata⟩ := hzero hn
      subst hn
      cases xs with
      | nil => exact absurd (hfinds.symm.trans htrue) Bool.false_ne_true
      | cons x xs =>
          refine Or.inr ⟨rfl, List.cons_ne_nil x xs, ?_⟩
          have hsame : (data.map fun _ => some x) = data.map fun _ => none :=
            hfinds.2.symm.trans hdata
          cases data with
          | none => rfl
          | some d => exact absurd (Option.some.inj hsame) (Option.some_ne_none x)
    · have hfalse := hpos hn
      refine Or.inl ⟨Nat.one_le_iff_ne_zero.mpr hn, Nat.le_of_not_lt fun hlt => ?_⟩
      rw [List.getElem?_eq_getElem hlt] at hfinds
      exact absurd (hfalse.symm.trans hfinds.1) Bool.false_ne_true
  · intro hcond
    obtain ⟨fuel, ⟨returned, data', state'⟩, hrun⟩ := iterator_at_ends h n data
    obtain ⟨hzero, hpos⟩ := iterator_at_eq_ok hrun
    refine ⟨fuel, returned, data', state', hrun, ?_⟩
    obtain ⟨hone, hle⟩ | ⟨rfl, hne, rfl⟩ := hcond
    · rw [List.getElem?_eq_none hle]
      exact hpos (Nat.one_le_iff_ne_zero.mp hone)
    · obtain ⟨x, xs, rfl⟩ := List.exists_cons_of_ne_nil hne
      exact ⟨(hzero rfl).1, (hzero rfl).2⟩

end Functions

/-! ## Arrays of pointers that a null pointer ends -/

section Arrays

variable {α : Type}

/-- `null_terminated_ptr_array_to_iterator`: a position is an index, at which there is a
pointer or, at the end, a null pointer. -/
def null_terminated_ptr_array_to_iterator (array : List α) : Iterator ℕ (Option α) where
  first := some fun _ => 0
  last := none
  current state := (array[state]?, state)
  next := some fun state => state + 1
  previous := none
  valid state := (array[state]?.isSome, state)

/-- The elements are the pointers before the end. -/
theorem null_terminated_ptr_array_yields (array : List α) (k : ℕ) :
    Yields (null_terminated_ptr_array_to_iterator array)
      (iterator_next (null_terminated_ptr_array_to_iterator array)) k
      ((array.drop k).map some) := by
  induction hrest : array.drop k generalizing k with
  | nil =>
      have hlen : array.length ≤ k := List.drop_eq_nil_iff.mp hrest
      refine .done ?_
      show array[k]?.isSome = false
      rw [List.getElem?_eq_none hlen]
      rfl
  | cons x xs ih =>
      have hk : array[k]? = some x := by
        rw [← List.head?_drop, hrest]
        rfl
      have hrest' : array.drop (k + 1) = xs := by
        rw [← List.drop_drop, hrest]
        rfl
      refine .element ?_ hk (ih (k + 1) hrest')
      show array[k]?.isSome = true
      rw [hk]
      rfl

theorem null_terminated_ptr_array_forward (array : List α) (state : ℕ) :
    Forward (null_terminated_ptr_array_to_iterator array) state (array.map some) :=
  ⟨Option.some_ne_none _, Option.some_ne_none _, null_terminated_ptr_array_yields array 0⟩

/-- The third element of two: there is none, and the result is `false`. -/
theorem iterator_at_finds_beyond :
    FindsAt (null_terminated_ptr_array_to_iterator ['a', 'b']) 0 [some 'a', some 'b'] 2
        (some none) :=
  (iterator_at_finds_iff (null_terminated_ptr_array_forward ['a', 'b'] 0) 2 (some none)).mpr
    (Or.inl ⟨by decide, by decide⟩)

/-- **The promise is broken** at the second element of two, which is not found, and on an
empty array, where something is found at index 0. -/
theorem iterator_at_misses :
    (Forward (null_terminated_ptr_array_to_iterator ['a', 'b']) 0 [some 'a', some 'b']
        ∧ ¬ FindsAt (null_terminated_ptr_array_to_iterator ['a', 'b']) 0 [some 'a', some 'b'] 1
            (some none))
      ∧ Forward (null_terminated_ptr_array_to_iterator ([] : List Char)) 0 []
        ∧ ¬ FindsAt (null_terminated_ptr_array_to_iterator ([] : List Char)) 0 [] 0
            (some none) := by
  refine ⟨⟨null_terminated_ptr_array_forward ['a', 'b'] 0, ?_⟩,
    null_terminated_ptr_array_forward [] 0, ?_⟩
  · rintro ⟨fuel, returned, data', state', hrun, htrue, -⟩
    have hfalse := (iterator_at_eq_ok hrun).2 Nat.one_ne_zero
    exact absurd (htrue.symm.trans hfalse) Bool.false_ne_true.symm
  · rintro ⟨fuel, returned, data', state', hrun, hfalse⟩
    have htrue := ((iterator_at_eq_ok hrun).1 rfl).1
    exact absurd (hfalse.symm.trans htrue) Bool.false_ne_true

end Arrays

end PkgPlugins.IteratorAt
