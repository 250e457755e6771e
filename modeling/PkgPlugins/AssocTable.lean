/-
Tables: finite maps that remember the order of their insertions.

This is what a hash table whose entries are also linked in the order they were
added looks like from outside. A key occurs once, and the type says so: a table
is a list of entries together with the proof that their keys are distinct.
Putting a value under a key that is already there replaces the value where it
stands; a new key goes to the end.
-/
import Mathlib.Data.List.Nodup
import Mathlib.Tactic.Common

set_option autoImplicit false

namespace PkgPlugins.AssocTable

variable {K V : Type} [DecidableEq K]

/-! ## Entries -/

/-- Replace the value of a key, or add the key at the end. -/
def putEntry : List (K × V) → K → V → List (K × V)
  | [], k, v => [(k, v)]
  | e :: es, k, v => if e.1 = k then (e.1, v) :: es else e :: putEntry es k v

/-- The value of the first entry of a key. -/
def getEntry : List (K × V) → K → Option V
  | [], _ => none
  | e :: es, k => if e.1 = k then some e.2 else getEntry es k

theorem putEntry_keys (es : List (K × V)) (k : K) (v : V) :
    (putEntry es k v).map Prod.fst
      = if k ∈ es.map Prod.fst then es.map Prod.fst else es.map Prod.fst ++ [k] := by
  induction es with
  | nil => simp [putEntry]
  | cons e es ih =>
      by_cases hk : e.1 = k
      · simp [putEntry, hk]
      · have hk' : k ≠ e.1 := fun h => hk h.symm
        simp only [putEntry, if_neg hk, List.map_cons, ih, List.mem_cons, hk', false_or]
        split_ifs <;> simp

theorem getEntry_putEntry_self (es : List (K × V)) (k : K) (v : V) :
    getEntry (putEntry es k v) k = some v := by
  induction es with
  | nil => simp [putEntry, getEntry]
  | cons e es ih =>
      by_cases hk : e.1 = k
      · simp [putEntry, getEntry, hk]
      · simp [putEntry, getEntry, hk, ih]

theorem getEntry_putEntry_of_ne (es : List (K × V)) {k k' : K} (v : V) (h : k' ≠ k) :
    getEntry (putEntry es k v) k' = getEntry es k' := by
  induction es with
  | nil => simp [putEntry, getEntry, Ne.symm h]
  | cons e es ih =>
      by_cases hk : e.1 = k
      · have hk' : e.1 ≠ k' := fun heq => h (heq.symm.trans hk)
        rw [putEntry, if_pos hk, getEntry, if_neg hk', getEntry, if_neg hk']
      · rw [putEntry, if_neg hk, getEntry, getEntry, ih]

theorem putEntry_of_notMem {es : List (K × V)} {k : K} (h : k ∉ es.map Prod.fst) (v : V) :
    putEntry es k v = es ++ [(k, v)] := by
  induction es with
  | nil => simp [putEntry]
  | cons e es ih =>
      simp only [List.map_cons, List.mem_cons, not_or] at h
      rw [putEntry, if_neg (Ne.symm h.1), ih h.2, List.cons_append]

theorem getEntry_eq_some_iff {es : List (K × V)} (hnodup : (es.map Prod.fst).Nodup) (k : K)
    (v : V) : getEntry es k = some v ↔ (k, v) ∈ es := by
  induction es with
  | nil => simp [getEntry]
  | cons e es ih =>
      simp only [List.map_cons, List.nodup_cons] at hnodup
      rw [getEntry, List.mem_cons]
      by_cases hk : e.1 = k
      · rw [if_pos hk, Option.some.injEq]
        constructor
        · rintro rfl
          exact Or.inl (by rw [← hk])
        · rintro (heq | hmem)
          · rw [← heq]
          · exact absurd (hk ▸ List.mem_map_of_mem hmem) hnodup.1
      · rw [if_neg hk, ih hnodup.2]
        refine ⟨Or.inr, fun hor => hor.resolve_left (fun heq => hk ?_)⟩
        rw [← heq]

theorem getEntry_eq_none_iff (es : List (K × V)) (k : K) :
    getEntry es k = none ↔ k ∉ es.map Prod.fst := by
  induction es with
  | nil => simp [getEntry]
  | cons e es ih =>
      rw [getEntry, List.map_cons, List.mem_cons, not_or]
      by_cases hk : e.1 = k
      · simp [hk]
      · rw [if_neg hk, ih]
        exact ⟨fun h => ⟨fun heq => hk heq.symm, h⟩, fun h => h.2⟩

/-- The entry of a key that is there is replaced where it stands. -/
theorem putEntry_of_getEntry {es : List (K × V)} {k : K} {v₀ : V} (h : getEntry es k = some v₀)
    (v : V) : ∃ l r, es = l ++ (k, v₀) :: r ∧ putEntry es k v = l ++ (k, v) :: r := by
  induction es with
  | nil => exact absurd h (by simp [getEntry])
  | cons e es ih =>
      rw [getEntry] at h
      by_cases hk : e.1 = k
      · rw [if_pos hk, Option.some.injEq] at h
        refine ⟨[], es, ?_, ?_⟩
        · rw [List.nil_append, ← hk, ← h]
        · rw [putEntry, if_pos hk, hk, List.nil_append]
      · rw [if_neg hk] at h
        obtain ⟨l, r, hes, hput⟩ := ih h
        refine ⟨e :: l, r, by rw [hes, List.cons_append], ?_⟩
        rw [putEntry, if_neg hk, hput, List.cons_append]

/-! ## Tables -/

/-- A table from `K` to `V`, in insertion order. -/
structure Table (K V : Type) where
  entries : List (K × V)
  nodup : (entries.map Prod.fst).Nodup

namespace Table

/-- The table without entries. -/
def empty : Table K V := ⟨[], by simp⟩

/-- The keys, in insertion order. -/
def keys (t : Table K V) : List K := t.entries.map Prod.fst

/-- The values, in insertion order of their keys. -/
def values (t : Table K V) : List V := t.entries.map Prod.snd

def get (t : Table K V) (k : K) : Option V := getEntry t.entries k

def contains (t : Table K V) (k : K) : Bool := (t.get k).isSome

/-- Add or replace. -/
def put (t : Table K V) (k : K) (v : V) : Table K V :=
  ⟨putEntry t.entries k v, by
    rw [putEntry_keys]
    split_ifs with h
    · exact t.nodup
    · rw [List.nodup_append]
      refine ⟨t.nodup, by simp, fun a ha b hb heq => h ?_⟩
      rwa [← List.mem_singleton.mp hb, ← heq]⟩

/-- Add unless the key is there. -/
def putNew (t : Table K V) (k : K) (v : V) : Table K V := if t.contains k then t else t.put k v

@[simp] theorem get_empty (k : K) : (empty : Table K V).get k = none := by
  simp [get, empty, getEntry]

omit [DecidableEq K] in
@[simp] theorem keys_empty : (empty : Table K V).keys = [] := by simp [keys, empty]

@[simp] theorem get_put_self (t : Table K V) (k : K) (v : V) : (t.put k v).get k = some v :=
  getEntry_putEntry_self t.entries k v

theorem get_put_of_ne (t : Table K V) {k k' : K} (v : V) (h : k' ≠ k) :
    (t.put k v).get k' = t.get k' :=
  getEntry_putEntry_of_ne t.entries v h

theorem get_put (t : Table K V) (k k' : K) (v : V) :
    (t.put k v).get k' = if k' = k then some v else t.get k' := by
  by_cases h : k' = k
  · rw [if_pos h, h, get_put_self]
  · rw [if_neg h, get_put_of_ne t v h]

theorem get_eq_some_iff (t : Table K V) (k : K) (v : V) :
    t.get k = some v ↔ (k, v) ∈ t.entries :=
  getEntry_eq_some_iff t.nodup k v

theorem get_eq_none_iff (t : Table K V) (k : K) : t.get k = none ↔ k ∉ t.keys :=
  getEntry_eq_none_iff t.entries k

theorem contains_iff (t : Table K V) (k : K) : t.contains k = true ↔ k ∈ t.keys := by
  rw [contains, Option.isSome_iff_ne_none, Ne, get_eq_none_iff, not_not]

omit [DecidableEq K] in
theorem keys_nodup (t : Table K V) : t.keys.Nodup := t.nodup

/-- A new key goes to the end. -/
theorem entries_put_of_notMem (t : Table K V) {k : K} (h : k ∉ t.keys) (v : V) :
    (t.put k v).entries = t.entries ++ [(k, v)] :=
  putEntry_of_notMem h v

theorem putNew_of_notMem (t : Table K V) {k : K} (h : k ∉ t.keys) (v : V) :
    t.putNew k v = t.put k v := by
  rw [putNew, if_neg]
  rwa [contains_iff]

theorem values_put_of_notMem (t : Table K V) {k : K} (h : k ∉ t.keys) (v : V) :
    (t.put k v).values = t.values ++ [v] := by
  rw [values, entries_put_of_notMem t h, List.map_append, values]
  simp

theorem mem_values_iff (t : Table K V) (v : V) : v ∈ t.values ↔ ∃ k, t.get k = some v := by
  rw [values, List.mem_map]
  constructor
  · rintro ⟨⟨k, v'⟩, hmem, rfl⟩
    exact ⟨k, (t.get_eq_some_iff k v').mpr hmem⟩
  · rintro ⟨k, hget⟩
    exact ⟨(k, v), (t.get_eq_some_iff k v).mp hget, rfl⟩

/-- A known key stays where it is. -/
theorem entries_put_of_get (t : Table K V) {k : K} {v₀ : V} (h : t.get k = some v₀) (v : V) :
    ∃ l r, t.entries = l ++ (k, v₀) :: r ∧ (t.put k v).entries = l ++ (k, v) :: r :=
  putEntry_of_getEntry h v

theorem keys_put_of_get (t : Table K V) {k : K} {v₀ : V} (h : t.get k = some v₀) (v : V) :
    (t.put k v).keys = t.keys := by
  obtain ⟨l, r, hes, hput⟩ := t.entries_put_of_get h v
  rw [keys, keys, hes, hput, List.map_append, List.map_append, List.map_cons, List.map_cons]

end Table

end PkgPlugins.AssocTable
