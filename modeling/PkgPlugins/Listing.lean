/-
Listings: rows in an order that is only a preorder, and their runs.

`ORDER BY` fixes the order of rows up to ties, so a listing is any permutation of
the rows that is sorted (`Ordered`). What every listing has in common is then a
matter of the keys: two rows can stand next to each other just if no third one is
strictly between them, and three can stand in a given order just if their keys
do.

A loop that compares a row with the one before it cuts a listing into runs
(`runs`), each led by the row where the key changed.
-/
import Mathlib.Data.List.Chain
import Mathlib.Data.List.Nodup
import Mathlib.Data.List.Pairwise
import Mathlib.Data.List.Perm.Basic
import Mathlib.Data.List.Perm.Subperm
import Mathlib.Tactic.Common

set_option autoImplicit false

namespace PkgPlugins.Listing

variable {α κ : Type}

/-! ## Orders with ties -/

/-- The rows, in an order that `le` allows. -/
structure Ordered (le : α → α → Bool) (rows listing : List α) : Prop where
  perm : listing.Perm rows
  sorted : listing.Pairwise fun a b => le a b = true

section Ordered

variable {le : α → α → Bool} (trans : ∀ a b c, le a b = true → le b c = true → le a c = true)
  (total : ∀ a b, (le a b || le b a) = true) {rows : List α}

include trans total

/-- What is sorted already may stand in that order. -/
theorem exists_ordered_sublist {part rest : List α} (hperm : rows.Perm (part ++ rest))
    (hpart : part.Pairwise fun a b => le a b = true) :
    ∃ listing, Ordered le rows listing ∧ part.Sublist listing := by
  refine ⟨(part ++ rest).mergeSort le, ⟨?_, ?_⟩, ?_⟩
  · exact (List.mergeSort_perm _ le).trans hperm.symm
  · exact List.pairwise_mergeSort trans total _
  · exact List.sublist_mergeSort trans total hpart (List.sublist_append_left part rest)

/-- A row may come first if none is strictly before it. -/
theorem exists_ordered_first {x : α} {rest : List α} (hperm : rows.Perm (x :: rest))
    (hfirst : ∀ z ∈ rest, le x z = true) :
    ∃ after, Ordered le rows (x :: after) := by
  refine ⟨rest.mergeSort le, ?_, ?_⟩
  · exact ((List.mergeSort_perm rest le).cons x).trans hperm.symm
  · rw [List.pairwise_cons]
    refine ⟨fun z hz => ?_, List.pairwise_mergeSort trans total rest⟩
    exact hfirst z ((List.mergeSort_perm rest le).mem_iff.mp hz)

/-- Two rows may stand next to each other if none is strictly between them. -/
theorem exists_ordered_adjacent {x y : α} {rest : List α} (hperm : rows.Perm (x :: y :: rest))
    (hle : le x y = true) (hbetween : ∀ z ∈ rest, le z x = true ∨ le y z = true) :
    ∃ before after, Ordered le rows (before ++ x :: y :: after) := by
  -- the rows up to the first one, and the others
  let low := rest.filter fun z => le z x
  let high := rest.filter fun z => !le z x
  have hlow : ∀ z ∈ low.mergeSort le, le z x = true := by
    intro z hz
    have hmem := (List.mergeSort_perm low le).mem_iff.mp hz
    exact (List.mem_filter.mp hmem).2
  have hhigh : ∀ z ∈ high.mergeSort le, le y z = true := by
    intro z hz
    have hmem := List.mem_filter.mp ((List.mergeSort_perm high le).mem_iff.mp hz)
    have hnot : ¬ le z x = true := by simpa using hmem.2
    exact (hbetween z hmem.1).resolve_left hnot
  refine ⟨low.mergeSort le, high.mergeSort le, ?_, ?_⟩
  · have hsplit : (low ++ high).Perm rest := List.filter_append_perm _ rest
    have hsorted : (low.mergeSort le ++ high.mergeSort le).Perm rest :=
      ((List.mergeSort_perm low le).append (List.mergeSort_perm high le)).trans hsplit
    have hmiddle : (low.mergeSort le ++ x :: y :: high.mergeSort le).Perm
        (x :: y :: (low.mergeSort le ++ high.mergeSort le)) :=
      List.perm_middle.trans (List.perm_middle.cons x)
    exact (hmiddle.trans ((hsorted.cons y).cons x)).trans hperm.symm
  · rw [List.pairwise_append]
    refine ⟨List.pairwise_mergeSort trans total low, ?_, fun z hz w hw => ?_⟩
    · rw [List.pairwise_cons, List.pairwise_cons]
      refine ⟨fun w hw => ?_, hhigh, List.pairwise_mergeSort trans total high⟩
      rcases List.mem_cons.mp hw with rfl | hw
      · exact hle
      · exact trans x y w hle (hhigh w hw)
    · have hzy := trans z x y (hlow z hz) hle
      rcases List.mem_cons.mp hw with rfl | hw
      · exact hlow z hz
      · rcases List.mem_cons.mp hw with rfl | hw
        · exact hzy
        · exact trans z y w hzy (hhigh w hw)

end Ordered

/-- A row that is next to another one is in no strict order with the rest. -/
theorem Ordered.adjacent {le : α → α → Bool} {rows before after : List α} {x y : α}
    (h : Ordered le rows (before ++ x :: y :: after)) :
    le x y = true ∧ ∀ z ∈ before ++ after, le z x = true ∨ le y z = true := by
  have hsorted := h.sorted
  rw [List.pairwise_append, List.pairwise_cons, List.pairwise_cons] at hsorted
  obtain ⟨-, ⟨hx, hy, -⟩, hbefore⟩ := hsorted
  refine ⟨hx y List.mem_cons_self, fun z hz => ?_⟩
  rcases List.mem_append.mp hz with hz | hz
  · exact Or.inl (hbefore z hz x List.mem_cons_self)
  · exact Or.inr (hy z hz)

/-- Rows that are among others leave a rest. -/
theorem exists_rest (part rows : List α) (hnodup : part.Nodup) (hsub : part ⊆ rows) :
    ∃ rest, rows.Perm (part ++ rest) := by
  obtain ⟨part', hperm, hsublist⟩ := List.subperm_of_subset hnodup hsub
  obtain ⟨rest, hrest⟩ := hsublist.exists_perm_append
  exact ⟨rest, hrest.trans (hperm.append_right rest)⟩

/-! ## Runs -/

section Runs

variable [DecidableEq κ] (key : α → κ)

/-- The rows before the key changes from `previous`, and then the runs: each with
the row that leads it. -/
def runs : κ → List α → List α × List (α × List α)
  | _, [] => ([], [])
  | previous, x :: xs =>
      let (run, rest) := runs (key x) xs
      if previous ≠ key x then ([], (x, x :: run) :: rest) else (x :: run, rest)

theorem runs_changed {previous : κ} {x : α} (h : previous ≠ key x) (xs : List α) :
    runs key previous (x :: xs)
      = ([], (x, x :: (runs key (key x) xs).1) :: (runs key (key x) xs).2) := by
  simp [runs, h]

theorem runs_unchanged {previous : κ} {x : α} (h : previous = key x) (xs : List α) :
    runs key previous (x :: xs) = (x :: (runs key (key x) xs).1, (runs key (key x) xs).2) := by
  simp [runs, h]

/-- No row gets lost. -/
theorem runs_flatten (xs : List α) : ∀ previous : κ,
    (runs key previous xs).1 ++ (runs key previous xs).2.flatMap Prod.snd = xs := by
  induction xs with
  | nil => intro previous; simp [runs]
  | cons x xs ih =>
      intro previous
      by_cases h : previous = key x
      · rw [runs_unchanged key h, List.cons_append, ih]
      · rw [runs_changed key h, List.nil_append, List.flatMap_cons, List.cons_append, ih]

theorem mem_runs (previous : κ) {xs : List α} {x : α} :
    x ∈ xs ↔ x ∈ (runs key previous xs).1 ∨ ∃ s ∈ (runs key previous xs).2, x ∈ s.2 := by
  conv_lhs => rw [← runs_flatten key xs previous]
  rw [List.mem_append, List.mem_flatMap]

/-- A run starts with the row that leads it. -/
theorem runs_leader (xs : List α) : ∀ previous : κ,
    ∀ s ∈ (runs key previous xs).2, s.1 ∈ s.2 := by
  induction xs with
  | nil => intro previous s hs; exact absurd hs (by simp [runs])
  | cons x xs ih =>
      intro previous
      by_cases h : previous = key x
      · rw [runs_unchanged key h]
        exact ih (key x)
      · rw [runs_changed key h, List.forall_mem_cons]
        exact ⟨List.mem_cons_self, ih (key x)⟩

/-- Two rows of one key that stand next to each other are in one run. -/
theorem runs_adjacent {x y : α} (h : key x = key y) (after : List α) (before : List α) :
    ∀ previous : κ,
      (x ∈ (runs key previous (before ++ x :: y :: after)).1
          ∧ y ∈ (runs key previous (before ++ x :: y :: after)).1)
        ∨ ∃ s ∈ (runs key previous (before ++ x :: y :: after)).2, x ∈ s.2 ∧ y ∈ s.2 := by
  induction before with
  | nil =>
      intro previous
      rw [List.nil_append]
      have hy := runs_unchanged key h after
      by_cases hx : previous = key x
      · rw [runs_unchanged key hx, hy]
        exact Or.inl ⟨by simp, by simp⟩
      · rw [runs_changed key hx, hy]
        exact Or.inr ⟨_, List.mem_cons_self, by simp, by simp⟩
  | cons z before ih =>
      intro previous
      rw [List.cons_append]
      by_cases hz : previous = key z
      · rw [runs_unchanged key hz]
        rcases ih (key z) with ⟨hx, hy⟩ | hrun
        · exact Or.inl ⟨List.mem_cons_of_mem z hx, List.mem_cons_of_mem z hy⟩
        · exact Or.inr hrun
      · rw [runs_changed key hz]
        rcases ih (key z) with ⟨hx, hy⟩ | ⟨s, hs, hrun⟩
        · exact Or.inr ⟨_, List.mem_cons_self, List.mem_cons_of_mem z hx,
            List.mem_cons_of_mem z hy⟩
        · exact Or.inr ⟨s, List.mem_cons_of_mem _ hs, hrun⟩

end Runs

/-! ## Runs of one owner -/

section Owner

variable {γ : Type} [DecidableEq κ] {key : α → κ} {owner : α → γ}

/-- If neighbours of one key have one owner, so have all the rows of a run. -/
theorem runs_owner (xs : List α) :
    (xs.IsChain fun a b => key a = key b → owner a = owner b) → ∀ previous : κ,
      (∀ x ∈ xs.head?, ∀ r ∈ (runs key previous xs).1, owner r = owner x)
        ∧ ∀ s ∈ (runs key previous xs).2, ∀ r ∈ s.2, owner r = owner s.1 := by
  induction xs with
  | nil => intro _ previous; simp [runs]
  | cons x xs ih =>
      intro hchain previous
      obtain ⟨hrun, hrest⟩ := ih hchain.tail (key x)
      -- the rows that continue the run of `x` are its neighbour's
      have hsame : ∀ r ∈ (runs key (key x) xs).1, owner r = owner x := by
        cases xs with
        | nil => simp [runs]
        | cons y ys =>
            rw [List.isChain_cons_cons] at hchain
            intro r hr
            by_cases hkey : key x = key y
            · exact (hrun y rfl r hr).trans (hchain.1 hkey).symm
            · rw [runs_changed key hkey] at hr
              exact absurd hr (by simp)
      have hall : ∀ r ∈ x :: (runs key (key x) xs).1, owner r = owner x := by
        rw [List.forall_mem_cons]
        exact ⟨rfl, hsame⟩
      by_cases h : previous = key x
      · rw [runs_unchanged key h]
        refine ⟨fun y hy r hr => ?_, hrest⟩
        have hy : x = y := by simpa using hy
        rw [← hy]
        exact hall r hr
      · rw [runs_changed key h, List.forall_mem_cons]
        exact ⟨fun y hy r hr => absurd hr (by simp), hall, hrest⟩

/-- The rows of an owner stand together: between two of them there are only
others of theirs. -/
def Together (owner : α → γ) (xs : List α) : Prop :=
  ∀ x z y, [x, z, y].Sublist xs → owner x = owner y → owner z = owner x

theorem Together.tail {x : α} {xs : List α} (h : Together owner (x :: xs)) : Together owner xs :=
  fun a b c hsub => h a b c (hsub.trans (List.sublist_cons_self x xs))

/-- **Rows that stand together make one run for each owner.** -/
theorem runs_leaders_nodup (hkey : ∀ a b, owner a = owner b → key a = key b) (xs : List α) :
    (xs.IsChain fun a b => key a = key b → owner a = owner b) → Together owner xs →
      ∀ previous : κ, ((runs key previous xs).2.map fun s => owner s.1).Nodup
        ∧ ∀ r ∈ (runs key previous xs).1, ∀ s ∈ (runs key previous xs).2,
          owner r ≠ owner s.1 := by
  induction xs with
  | nil => intro _ _ previous; simp [runs]
  | cons x xs ih =>
      intro hchain htogether previous
      obtain ⟨hnodup, hother⟩ := ih hchain.tail htogether.tail (key x)
      have howner := (runs_owner xs hchain.tail (key x)).1
      -- no later run is led by a row of the owner of `x`
      have hx : ∀ s ∈ (runs key (key x) xs).2, owner x ≠ owner s.1 := by
        intro s hs heq
        cases xs with
        | nil => exact absurd hs (by simp [runs])
        | cons y ys =>
            rw [List.isChain_cons_cons] at hchain
            have hmem : s.1 ∈ y :: ys :=
              (mem_runs key _).mpr (Or.inr ⟨s, hs, runs_leader key (y :: ys) (key x) s hs⟩)
            by_cases hxy : key x = key y
            · refine hother y ?_ s hs ((hchain.1 hxy).symm.trans heq)
              rw [runs_unchanged key hxy]
              exact List.mem_cons_self
            · -- the run of `x` is over, so `y` stands between two rows of its owner
              have hne : owner y ≠ owner x := fun h => hxy (hkey _ _ h).symm
              have hys : s.1 ∈ ys := by
                refine (List.mem_cons.mp hmem).resolve_left fun h => hne ?_
                rw [← h, heq]
              have hsub : [x, y, s.1].Sublist (x :: y :: ys) :=
                ((List.singleton_sublist.mpr hys).cons_cons y).cons_cons x
              exact hne (htogether x y s.1 hsub heq)
      by_cases h : previous = key x
      · rw [runs_unchanged key h]
        refine ⟨hnodup, fun r hr s hs => ?_⟩
        rcases List.mem_cons.mp hr with rfl | hr
        · exact hx s hs
        · exact hother r hr s hs
      · rw [runs_changed key h, List.map_cons, List.nodup_cons, List.mem_map]
        refine ⟨⟨?_, hnodup⟩, fun r hr => absurd hr (by simp)⟩
        rintro ⟨s, hs, heq⟩
        exact hx s hs heq.symm

omit [DecidableEq κ] in
/-- Groups of one owner each, of different owners, stand together. -/
theorem together_flatMap (groups : List (α × List α))
    (howner : ∀ s ∈ groups, ∀ r ∈ s.2, owner r = owner s.1)
    (hnodup : (groups.map fun s => owner s.1).Nodup) :
    Together owner (groups.flatMap Prod.snd) := by
  induction groups with
  | nil =>
      intro x z y hsub
      exact absurd hsub (by simp)
  | cons s groups ih =>
      rw [List.forall_mem_cons] at howner
      rw [List.map_cons, List.nodup_cons, List.mem_map] at hnodup
      -- nobody after the first group is of its owner
      have hlater : ∀ r ∈ groups.flatMap Prod.snd, owner r ≠ owner s.1 := by
        intro r hr heq
        obtain ⟨s', hs', hr⟩ := List.mem_flatMap.mp hr
        exact hnodup.1 ⟨s', hs', (howner.2 s' hs' r hr).symm.trans heq⟩
      intro x z y hsub heq
      rw [List.flatMap_cons] at hsub
      obtain ⟨l, r, hlr, hl, hr⟩ := List.sublist_append_iff.mp hsub
      match l, hlr, hl, hr with
      | [], hlr, hl, hr =>
          rw [List.nil_append] at hlr
          exact ih howner.2 hnodup.2 x z y (hlr ▸ hr) heq
      | [a], hlr, hl, hr =>
          simp only [List.cons_append, List.nil_append, List.cons.injEq] at hlr
          obtain ⟨rfl, rfl⟩ := hlr
          have hx := howner.1 x (hl.subset List.mem_cons_self)
          exact absurd (heq.symm.trans hx) (hlater y (hr.subset (by simp)))
      | [a, b], hlr, hl, hr =>
          simp only [List.cons_append, List.nil_append, List.cons.injEq] at hlr
          obtain ⟨rfl, rfl, rfl⟩ := hlr
          have hx := howner.1 x (hl.subset List.mem_cons_self)
          exact absurd (heq.symm.trans hx) (hlater y (hr.subset (by simp)))
      | a :: b :: c :: l, hlr, hl, hr =>
          simp only [List.cons_append, List.cons.injEq] at hlr
          obtain ⟨rfl, rfl, rfl, -⟩ := hlr
          have hx := howner.1 x (hl.subset (by simp))
          have hz := howner.1 z (hl.subset (by simp))
          exact hz.trans hx.symm

end Owner

end PkgPlugins.Listing
