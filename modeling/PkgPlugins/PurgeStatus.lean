/-
What `purge_snapshots` returns, against the deletions it attempted.

`ok` starts as false and becomes true at the start of each filesystem: the answer is
that of the last filesystem. A failure on one before is forgotten, and without a
filesystem nothing succeeds. The texts of the errors, and the second one that a run
may set, are left out here.
-/
import PkgPlugins.Purge

set_option autoImplicit false

namespace PkgPlugins.Purge

open PkgPlugins.Fallible PkgPlugins.Libc PkgPlugins.Retention PkgPlugins.Dlist PkgPlugins.Attempts

/-! ## What is attempted -/

section Attempts

variable {method : backup_method_t}

theorem handed_eq_of_succeeds {done part : List snapshot_t}
    (h : Succeed (Destroys method) done part) :
    handed method done part = part := by
  induction part generalizing done with
  | nil => rfl
  | cons snap part ih =>
      obtain ⟨hsnap, hpart⟩ := (succeed_cons _ _ _).mp h
      rw [Destroys] at hsnap
      rw [handed, if_pos hsnap, ih hpart]

/-- Attempting stops at a failure, so it is one of the attempts. -/
theorem succeeds_handed (done part : List snapshot_t) :
    Succeed (Destroys method) done (handed method done part)
      ↔ Succeed (Destroys method) done part := by
  induction part generalizing done with
  | nil => rfl
  | cons snap part ih =>
      rw [handed, succeed_cons, succeed_cons]
      refine and_congr_right (fun hsnap => ?_)
      rw [Destroys] at hsnap
      rw [if_pos hsnap, ih]

theorem prefix_handed_all (parts : List (List snapshot_t)) :
    ∀ done, done <+: handed_all method done parts := by
  induction parts with
  | nil => exact fun done => List.prefix_refl done
  | cons part parts ih => exact fun done => (List.prefix_append _ _).trans (ih _)

theorem handed_all_concat (parts : List (List snapshot_t)) (part : List snapshot_t) :
    ∀ done, handed_all method done (parts ++ [part])
      = handed_all method done parts
        ++ handed method (handed_all method done parts) part := by
  induction parts with
  | nil => exact fun done => rfl
  | cons p parts ih => exact fun done => ih _

/-- All attempts succeed if and only if all that is due does. -/
theorem succeeds_handed_all (parts : List (List snapshot_t)) :
    ∀ done, Succeed (Destroys method) [] done →
      (Succeed (Destroys method) [] (handed_all method done parts)
        ↔ Succeed (Destroys method) done parts.flatten) := by
  induction parts with
  | nil => exact fun done hdone => iff_of_true hdone (succeed_nil done)
  | cons part parts ih =>
      intro done hdone
      rw [handed_all, List.flatten_cons, succeed_append]
      by_cases hpart : Succeed (Destroys method) done part
      · rw [handed_eq_of_succeeds hpart, ih _ ((succeed_append _ _ _).mpr ⟨hdone, hpart⟩)]
        exact (and_iff_right hpart).symm
      · refine iff_of_false (fun hall => hpart ?_) (fun h => hpart h.1)
        -- the attempts on this filesystem are among all of them
        obtain ⟨rest, hrest⟩ :=
          @prefix_handed_all method parts (done ++ handed method done part)
        rw [← hrest, succeed_append, succeed_append] at hall
        exact (succeeds_handed done part).mp hall.1.2

end Attempts

/-! ## What is returned -/

variable {method : backup_method_t} {retention : retention_type_t} {limit : UInt64}

/-- The answer of the loop over some filesystems and a last one is that of the last. -/
theorem purge_loop_concat {lists : List (DList snapshot_t)} {earlier : List (List snapshot_t)}
    {l2 : DList snapshot_t} {last : List snapshot_t} (hl : List.Forall₂ WellFormed lists earlier)
    (hlast : WellFormed l2 last) (hgoes : ∀ l ∈ earlier ++ [last], HeadGoes retention limit l)
    (ok : Bool) (state : UInt64) (done : List snapshot_t) :
    ∃ ok', purge_loop method (lists ++ [l2]) ok ⟨retention, limit, state⟩ done
        = .ok (ok', handed_all method done
            ((earlier ++ [last]).map (destroyedPart retention limit)))
      ∧ (ok' = true ↔ Succeed (Destroys method)
          (handed_all method done (earlier.map (destroyedPart retention limit)))
          (destroyedPart retention limit last)) := by
  induction hl generalizing ok state done with
  | nil =>
      obtain ⟨ok', hrun, hok'⟩ :=
        purge_filesystem_goes method hlast (hgoes last (by simp)) state done
      exact ⟨ok', by rw [List.nil_append, purge_loop, hrun]; rfl, hok'⟩
  | @cons l2' l lists earlier hwf _ ih =>
      obtain ⟨ok₁, hfirst, -⟩ := purge_filesystem_goes method hwf (hgoes l (by simp)) state done
      obtain ⟨ok', hrun, hok'⟩ := ih (fun l hl => hgoes l (by simp [hl])) ok₁ 0
        (done ++ handed method done (destroyedPart retention limit l))
      exact ⟨ok', by rw [List.cons_append, purge_loop, hfirst, ok_bind]; exact hrun, hok'⟩

/-- With no filesystem listed, the answer is the false that `ok` starts with. -/
theorem purge_snapshots_none (hlist : method.list.1 = true)
    (hfss : List.Forall₂ WellFormed method.list.2 []) :
    purge_snapshots method retention limit = .ok (false, []) := by
  rw [purge_snapshots_listed hlist, List.forall₂_nil_right_iff.mp hfss]
  rfl

/-- The answer of a purge that gets to its last filesystem. -/
theorem purge_snapshots_last {earlier : List (List snapshot_t)} {last : List snapshot_t}
    (hlist : method.list.1 = true)
    (hfss : List.Forall₂ WellFormed method.list.2 (earlier ++ [last]))
    (hgoes : ∀ l ∈ earlier ++ [last], HeadGoes retention limit l) :
    ∃ ok, purge_snapshots method retention limit
        = .ok (ok, handed_all method [] (earlier.map (destroyedPart retention limit))
          ++ handed method (handed_all method [] (earlier.map (destroyedPart retention limit)))
            (destroyedPart retention limit last))
      ∧ (ok = true ↔ Succeed (Destroys method)
          (handed_all method [] (earlier.map (destroyedPart retention limit)))
          (destroyedPart retention limit last)) := by
  have hl := List.forall₂_take_append _ _ _ hfss
  obtain ⟨l2, rest, hl2, hrest, hdrop⟩ :=
    List.forall₂_cons_right_iff.mp (List.forall₂_drop_append _ _ _ hfss)
  rw [List.forall₂_nil_right_iff] at hrest
  have hlists : method.list.2 = method.list.2.take earlier.length ++ [l2] := by
    rw [← hrest, ← hdrop, List.take_append_drop]
  obtain ⟨ok, hrun, hok⟩ := @purge_loop_concat method _ _ _ _ _ _ hl hl2 hgoes false 0 []
  rw [← hlists, ← purge_snapshots_listed hlist, List.map_append, List.map_singleton,
    handed_all_concat] at hrun
  exact ⟨ok, hrun, hok⟩

/-- `purge_snapshots` returns, and it returns true if and only if the listing
succeeded and so did every `destroy` it attempted. -/
def ReturnsOutcome (method : backup_method_t) (retention : retention_type_t) (limit : UInt64) :
    Prop :=
  ∃ ok done, purge_snapshots method retention limit = .ok (ok, done)
    ∧ (ok = true ↔ method.list.1 = true ∧ Succeed (Destroys method) [] done)

theorem returnsOutcome_of_run {ok : Bool} {done : List snapshot_t}
    (hrun : purge_snapshots method retention limit = .ok (ok, done)) :
    ReturnsOutcome method retention limit
      ↔ (ok = true ↔ method.list.1 = true ∧ Succeed (Destroys method) [] done) := by
  refine ⟨?_, fun h => ⟨ok, done, hrun, h⟩⟩
  rintro ⟨ok', done', hrun', h⟩
  rw [hrun, Except.ok.injEq, Prod.mk.injEq] at hrun'
  obtain ⟨rfl, rfl⟩ := hrun'
  exact h

/-- There is a last filesystem, and if a deletion due on one before it fails then so
does one on the last. -/
def LastTells (method : backup_method_t) (retention : retention_type_t) (limit : UInt64)
    (fss : List (List snapshot_t)) : Prop :=
  ∃ earlier last, fss = earlier ++ [last]
    ∧ (Succeed (Destroys method) [] (earlier.map (destroyedPart retention limit)).flatten
      ∨ ¬ Succeed (Destroys method)
          (handed_all method [] (earlier.map (destroyedPart retention limit)))
          (destroyedPart retention limit last))

theorem lastTells_concat_iff (earlier : List (List snapshot_t)) (last : List snapshot_t) :
    LastTells method retention limit (earlier ++ [last])
      ↔ Succeed (Destroys method) [] (earlier.map (destroyedPart retention limit)).flatten
        ∨ ¬ Succeed (Destroys method)
            (handed_all method [] (earlier.map (destroyedPart retention limit)))
            (destroyedPart retention limit last) := by
  refine ⟨?_, fun h => ⟨earlier, last, rfl, h⟩⟩
  rintro ⟨earlier', last', heq, h⟩
  obtain ⟨rfl, rfl⟩ := List.append_singleton_inj.mp heq
  exact h

/-- **What `purge_snapshots` returns is the outcome if and only if** the listing fails,
or no filesystem runs into the freed head and the last one tells of the others. -/
theorem purge_snapshots_outcome_iff (method : backup_method_t) (retention : retention_type_t)
    (limit : UInt64) (fss : List (List snapshot_t))
    (hfss : List.Forall₂ WellFormed method.list.2 fss) :
    ReturnsOutcome method retention limit
      ↔ method.list.1 = false
        ∨ (∀ l ∈ fss, HeadGoes retention limit l) ∧ LastTells method retention limit fss := by
  cases hlist : method.list.1 with
  | false =>
      refine iff_of_true ⟨false, [], by simp [purge_snapshots, hlist], ?_⟩ (Or.inl rfl)
      simp [hlist]
  | true =>
      simp only [Bool.true_eq_false, false_or]
      by_cases hgoes : ∀ l ∈ fss, HeadGoes retention limit l
      · rw [and_iff_right hgoes]
        rcases List.eq_nil_or_concat' fss with rfl | ⟨earlier, last, rfl⟩
        · rw [returnsOutcome_of_run (purge_snapshots_none hlist hfss)]
          refine iff_of_false ?_ ?_
          · simp [hlist, succeed_nil]
          · rintro ⟨earlier, last, heq, -⟩
            simp at heq
        · obtain ⟨ok, hrun, hok⟩ := purge_snapshots_last hlist hfss hgoes
          rw [returnsOutcome_of_run hrun, lastTells_concat_iff, hok, hlist, succeed_append,
            List.nil_append, succeeds_handed, succeeds_handed_all _ _ (succeed_nil [])]
          -- the last filesystem's success is the answer, and one of the two conditions
          tauto
      · refine iff_of_false ?_ (fun h => hgoes h.1)
        rintro ⟨ok, done, hok, -⟩
        exact hgoes (purge_snapshots_handed hlist hfss hok).1

/-- Two filesystems with two snapshots each, of which the last can't be destroyed. -/
def lastFailsMethod : backup_method_t :=
  ⟨(true, twoFilesystems), fun done _ => decide (done.length < 3)⟩

/-- The four are attempted, and the failure is told of. -/
theorem purge_snapshots_outcome_last :
    purge_snapshots lastFailsMethod .BY_CREATION 10
        = .ok (false, [snapshotAt 3, snapshotAt 5, snapshotAt 4, snapshotAt 7])
      ∧ ReturnsOutcome lastFailsMethod .BY_CREATION 10 := by
  refine ⟨by decide, (purge_snapshots_outcome_iff lastFailsMethod .BY_CREATION 10
    [[snapshotAt 3, snapshotAt 5], [snapshotAt 7, snapshotAt 4]] twoFilesystems_wellFormed).mpr
    (Or.inr ⟨?_, [[snapshotAt 3, snapshotAt 5]], [snapshotAt 7, snapshotAt 4], rfl, Or.inl ?_⟩)⟩
  · unfold HeadGoes
    decide
  · have hdue : ([[snapshotAt 3, snapshotAt 5]].map (destroyedPart .BY_CREATION 10)).flatten
        = [snapshotAt 3, snapshotAt 5] := by decide
    rw [hdue, succeed_cons, succeed_cons]
    exact ⟨rfl, rfl, succeed_nil _⟩

/-- The method for a system without ZFS. -/
def none_method : backup_method_t := ⟨(true, []), fun _ _ => true⟩

/-- Two filesystems with one snapshot each; only the first deletion fails. -/
def firstFailsMethod : backup_method_t :=
  ⟨(true, [oneSnapshot 5, oneSnapshot 5]), fun done _ => !done.isEmpty⟩

/-- The failure on the first filesystem is masked by the second, and nothing to delete
is a failure. -/
theorem purge_snapshots_outcome_masked :
    purge_snapshots firstFailsMethod .BY_CREATION 10 = .ok (true, [snapshotAt 5, snapshotAt 5])
      ∧ ¬ ReturnsOutcome firstFailsMethod .BY_CREATION 10
      ∧ purge_snapshots none_method .BY_CREATION 10 = .ok (false, [])
      ∧ ¬ ReturnsOutcome none_method .BY_CREATION 10 := by
  have hmasked : purge_snapshots firstFailsMethod .BY_CREATION 10
      = .ok (true, [snapshotAt 5, snapshotAt 5]) := by decide
  have hnone : purge_snapshots none_method .BY_CREATION 10 = .ok (false, []) := by decide
  refine ⟨hmasked, ?_, hnone, ?_⟩
  · rw [returnsOutcome_of_run hmasked, succeed_cons]
    simp [Destroys, firstFailsMethod]
  · rw [returnsOutcome_of_run hnone]
    simp [none_method, succeed_nil]

end PkgPlugins.Purge
