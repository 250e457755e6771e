/-
The errors of a purge (`purge_snapshots` of
`plugins/zfs_integration/plugin_zfs_integration.c`), with `method->list` and
`method->destroy` of the two methods.

A filesystem on which a deletion fails is left, but the loop goes on with the next one,
with the same `error`: `purge_snapshots_overwrites_iff` says that a second message is
set just if a deletion fails on two of the filesystems that the loop gets to.
`error_set_once_iff` is about a purge and a snapshot by a hook.
-/
import PkgPlugins.SnapshotErrors
import PkgPlugins.ListErrors
import PkgPlugins.PurgeTree

set_option autoImplicit false

namespace PkgPlugins.PurgeErrors

open PkgPlugins.WriteOnce PkgPlugins.ZintErrors PkgPlugins.ListErrors PkgPlugins.SnapshotErrors
open PkgPlugins.Retention PkgPlugins.Dlist
open PkgPlugins.RawZfs (paths_to_check_t)
open PkgPlugins.TakeSnapshot (method)
open PkgPlugins.Purge (snapshot_t snapshot_compare_by_creation_date_desc destroyedPart HeadGoes
  iterator_on iterator_reject_goes iterator_reject_stays)

variable {σ : Type}

/-! ## The code -/

/-- A function that may set the error, and that stops as a listing does. -/
abbrev Run (α : Type) := Writing String ListSnapshots.Fault α

section Functions

variable (destroy : σ → snapshot_t → Run (σ × Bool))

/-- The last loop of `purge_snapshots`, from `it2` backwards. -/
def destroy_loop : ℕ → DList snapshot_t → Ptr → σ → Bool → Run (σ × Bool)
  | 0, _, _, _, _ => lift (.error (.dlist .diverges))
  | fuel + 1, l2, it2, st, ok =>
      if ok && dlist_iterator_is_valid it2 then do
        let snap ← lift ((dlist_iterator_current l2 it2).mapError .dlist)
        let (st, destroyed) ← destroy st snap
        let it2 ← lift ((dlist_iterator_previous l2 it2).mapError .dlist)
        destroy_loop fuel l2 it2 st (ok && destroyed)
      else pure (st, ok)

/-- The body of the loop over the filesystems. -/
def purge_filesystem (fcd : filter_callback_data_t) (l2 : DList snapshot_t) (st : σ) :
    Run (σ × Bool × filter_callback_data_t) := do
  let fcd := retention_filter_callback_data_reset fcd
  let l2 ← lift ((dlist_sort l2 snapshot_compare_by_creation_date_desc).mapError .dlist)
  let (l2, fcd) ← lift ((iterator_reject l2 (fun snap => retention_filter_callback snap.creation)
    fcd).mapError .dlist)
  let (st, ok) ← destroy_loop destroy (l2.brk + 1) l2 (dlist_iterator_last l2) st true
  pure (st, ok, fcd)

/-- The loop over the filesystems: `ok` starts again on each, `error` doesn't. -/
def purge_loop : List (DList snapshot_t) → σ → Bool → filter_callback_data_t → Run (σ × Bool)
  | [], st, ok, _ => pure (st, ok)
  | l2 :: l, st, _, fcd => do
      let (st, ok, fcd) ← purge_filesystem destroy fcd l2 st
      purge_loop l st ok fcd

end Functions

section Methods

variable (z : reporting σ) (ZINT_VERSION_NUMBER : UInt64) (name_to_hook : List Char → ℤ)
  (ZFS_MAX_DATASET_NAME_LEN : ℕ) (fuel : ℕ) (m : method)

/-- `method->list` -/
def method_list (ptc : paths_to_check_t) (st : σ) : Run (σ × Bool × List (DList snapshot_t)) :=
  match m with
  | .be_method => be_list z ZINT_VERSION_NUMBER name_to_hook ZFS_MAX_DATASET_NAME_LEN fuel st
  | .raw_zfs_method _ => raw_zfs_list z ZINT_VERSION_NUMBER name_to_hook fuel ptc st

/-- `method->destroy` -/
def method_destroy (st : σ) (snap : snapshot_t) : Run (σ × Bool) :=
  match m with
  | .be_method => be_destroy_snapshot z st snap
  | .raw_zfs_method _ => raw_zfs_destroy z st snap

/-- `purge_snapshots(retention, limit, error)` -/
def purge_snapshots (ptc : paths_to_check_t) (retention : retention_type_t) (limit : UInt64)
    (st : σ) : Run (σ × Bool) := do
  let fcd := retention_filter_callback_data_create retention limit
  match ← method_list z ZINT_VERSION_NUMBER name_to_hook ZFS_MAX_DATASET_NAME_LEN fuel m ptc st with
  | (st, false, _) => pure (st, false)
  | (st, true, l) => purge_loop (method_destroy z m) l st false fcd

end Methods

/-! ## A deletion -/

/-- What a deletion comes to. -/
def destroys (z : reporting σ) (m : method) (st : σ) (snap : snapshot_t) : σ × Bool :=
  match m with
  | .be_method => z.be_destroy st snap.name.toList
  | .raw_zfs_method _ =>
      if z.zfs_get_handle st snap.name.toList = false then (st, false)
      else ListSnapshots.raw_zfs_destroy z.toaccess st snap

theorem raw_zfs_destroy_reports (z : reporting σ) (st : σ) (snap : snapshot_t)
    (h : z.zfs_get_handle st snap.name.toList = true) :
    Reports (raw_zfs_destroy z st snap : Run (σ × Bool))
      (ListSnapshots.raw_zfs_destroy z.toaccess st snap)
      (!(ListSnapshots.raw_zfs_destroy z.toaccess st snap).2) := by
  unfold raw_zfs_destroy ListSnapshots.raw_zfs_destroy uzfs_filesystem_destroy
  unfold ListSnapshots.uzfs_filesystem_destroy
  generalize z.zfs_unshareall = zfs_unshareall
  generalize z.zfs_unmountall = zfs_unmountall
  generalize z.zfs_destroy = zfs_destroy
  rw [if_neg (by simp [h])]
  rcases if z.zfs_is_shared st snap.name.toList then zfs_unshareall st snap.name.toList
    else (st, true) with ⟨st₁, - | -⟩
  · exact Reports.put _ _
  · simp only
    rcases if z.zfs_is_mounted st₁ snap.name.toList then zfs_unmountall st₁ snap.name.toList
      else (st₁, true) with ⟨st₂, - | -⟩
    · exact Reports.put _ _
    · simp only
      rcases zfs_destroy st₂ snap.name.toList with ⟨st₃, - | -⟩
      · exact Reports.put _ _
      · exact Reports.pure _

/-- **A deletion** sets the error once, if it fails. -/
theorem method_destroy_reports (z : reporting σ) (m : method) (st : σ) (snap : snapshot_t) :
    Reports (method_destroy z m st snap) (destroys z m st snap) (!(destroys z m st snap).2) := by
  cases m with
  | be_method =>
      unfold method_destroy destroys be_destroy_snapshot
      simp only
      rcases z.be_destroy st snap.name.toList with ⟨st', - | -⟩
      · exact Reports.put _ _
      · exact Reports.pure _
  | raw_zfs_method ctxt =>
      unfold method_destroy destroys
      simp only
      cases h : z.zfs_get_handle st snap.name.toList with
      | false =>
          rw [if_pos rfl, raw_zfs_destroy, uzfs_filesystem_destroy, if_pos h]
          exact Reports.put _ _
      | true => exact raw_zfs_destroy_reports z st snap h

/-! ## One filesystem -/

section Loops

variable {destroy : σ → snapshot_t → Run (σ × Bool)}

/-- The last loop destroys what is before its position, from there backwards, until a
deletion fails. -/
theorem destroy_loop_eq (destroy : σ → snapshot_t → Run (σ × Bool))
    (pre : List (ℕ × snapshot_t)) :
    ∀ (fuel : ℕ) (l2 : DList snapshot_t) (post : List (ℕ × snapshot_t)) (st : σ),
      Represents l2 (pre ++ post) → pre.length < fuel →
      destroy_loop destroy fuel l2 (lastAddr none pre) st true
        = until_fails destroy st (pre.map Prod.snd).reverse := by
  induction pre using List.reverseRecOn with
  | nil =>
      intro fuel l2 post st _ hfuel
      obtain ⟨fuel, rfl⟩ := Nat.exists_eq_succ_of_ne_zero (Nat.ne_of_gt hfuel)
      rfl
  | append_singleton pre x ih =>
      intro fuel l2 post st h hfuel
      obtain ⟨fuel, rfl⟩ := Nat.exists_eq_succ_of_ne_zero (Nat.ne_of_gt (Nat.zero_lt_of_lt hfuel))
      rw [List.length_append, List.length_singleton] at hfuel
      have hx : Represents l2 (pre ++ x :: post) := by simpa using h
      obtain ⟨hcurrent, hprevious⟩ := iterator_on hx
      have hparts : ((pre ++ [x]).map Prod.snd).reverse = x.2 :: (pre.map Prod.snd).reverse := by
        simp
      rw [hparts, until_fails_cons, destroy_loop]
      simp only [lastAddr_append, lastAddr_cons, lastAddr_nil, dlist_iterator_is_valid,
        Option.isSome_some, Bool.and_self, if_true, hcurrent, hprevious, Except.mapError, lift_ok,
        pure_bind, Bool.true_and]
      refine bind_congr fun r => ?_
      rcases r with ⟨st₁, - | -⟩
      · -- the next test of `ok` ends the loop
        obtain ⟨fuel, rfl⟩ := Nat.exists_eq_succ_of_ne_zero (show fuel ≠ 0 by omega)
        rfl
      · exact ih fuel l2 (x :: post) st₁ hx (by omega)

variable {retention : retention_type_t} {limit : UInt64}

/-- A filesystem whose newest snapshot goes. -/
theorem purge_filesystem_goes (destroy : σ → snapshot_t → Run (σ × Bool)) {l2 : DList snapshot_t}
    {l : List snapshot_t} (hl : WellFormed l2 l) (hgoes : HeadGoes retention limit l)
    (state : UInt64) (st : σ) :
    purge_filesystem destroy ⟨retention, limit, state⟩ l2 st
      = until_fails destroy st (destroyedPart retention limit l)
        >>= fun r => pure (r.1, r.2, ⟨retention, limit, 0⟩) := by
  obtain ⟨l2', l2'', ns, hsort, hreject, hrep, hpart⟩ := iterator_reject_goes hl hgoes
  have hloop := destroy_loop_eq destroy ns (l2''.brk + 1) l2'' [] st (by simpa using hrep)
    (Nat.lt_succ_of_le hrep.length_le)
  simp only [purge_filesystem, hsort, retention_filter_callback_data_reset, hreject,
    Except.mapError, lift_ok, pure_bind, dlist_iterator_last, hrep.tail, hloop, hpart]

/-- A filesystem whose newest snapshot is kept: the run stops on freed memory. -/
theorem purge_filesystem_stays (destroy : σ → snapshot_t → Run (σ × Bool)) {l2 : DList snapshot_t}
    {l : List snapshot_t} (hl : WellFormed l2 l) (hstays : ¬ HeadGoes retention limit l)
    (state : UInt64) (st : σ) (c : Cell String) :
    ∃ p, purge_filesystem destroy ⟨retention, limit, state⟩ l2 st c
      = .error (.other (.dlist (.freed p))) := by
  obtain ⟨l2', p, hsort, hreject⟩ := iterator_reject_stays hl hstays
  refine ⟨p, ?_⟩
  simp only [purge_filesystem, hsort, retention_filter_callback_data_reset, hreject,
    Except.mapError, lift_ok, pure_bind]
  rfl

/-! ## All filesystems -/

section Failing

variable (result : σ → snapshot_t → σ × Bool) (retention limit)

/-- The deletions on a filesystem. -/
def destroy_part (st : σ) (l : List snapshot_t) : σ × Bool :=
  until_fails (m := Id) result st (destroyedPart retention limit l)

/-- After the deletions on some filesystems. -/
def purged (st : σ) (fss : List (List snapshot_t)) : σ :=
  fss.foldl (fun st l => (destroy_part retention limit result st l).1) st

/-- The loop gets to the filesystem after those of `pre`, and a deletion on it
fails. -/
def FailsAfter (st : σ) (fss pre : List (List snapshot_t)) : Prop :=
  ∃ l, pre ++ [l] <+: fss ∧ (∀ f ∈ pre ++ [l], HeadGoes retention limit f)
    ∧ (destroy_part retention limit result (purged retention limit result st pre) l).2 = false

end Failing

variable {result : σ → snapshot_t → σ × Bool}

theorem failsAfter_nil (st : σ) (pre : List (List snapshot_t)) :
    ¬ FailsAfter retention limit result st [] pre := by
  rintro ⟨l, hpre, -⟩
  exact absurd (List.prefix_nil.mp hpre) (by simp)

/-- The first filesystem, or one after it. -/
theorem failsAfter_cons (st : σ) (l : List snapshot_t) (fss pre : List (List snapshot_t)) :
    FailsAfter retention limit result st (l :: fss) pre
      ↔ HeadGoes retention limit l
        ∧ (pre = [] ∧ (destroy_part retention limit result st l).2 = false
          ∨ ∃ pre', pre = l :: pre' ∧ FailsAfter retention limit result
            (destroy_part retention limit result st l).1 fss pre') := by
  constructor
  · rintro ⟨l', hpre, hgoes, hfails⟩
    cases pre with
    | nil =>
        rw [List.nil_append, List.cons_prefix_cons] at hpre
        obtain rfl := hpre.1
        exact ⟨hgoes l' (by simp), Or.inl ⟨rfl, hfails⟩⟩
    | cons f pre =>
        rw [List.cons_append, List.cons_prefix_cons] at hpre
        obtain rfl := hpre.1
        rw [List.cons_append, List.forall_mem_cons] at hgoes
        exact ⟨hgoes.1, Or.inr ⟨pre, rfl, l', hpre.2, hgoes.2, hfails⟩⟩
  · rintro ⟨hgoes, ⟨rfl, hfails⟩ | ⟨pre', rfl, l', hpre, hgoes', hfails⟩⟩
    · refine ⟨l, by simp, ?_, hfails⟩
      simpa using hgoes
    · refine ⟨l', ?_, ?_, hfails⟩
      · rw [List.cons_append, List.cons_prefix_cons]
        exact ⟨rfl, hpre⟩
      · rw [List.cons_append, List.forall_mem_cons]
        exact ⟨hgoes, hgoes'⟩

/-- The deletions on a filesystem set the error once, if one fails. -/
theorem purge_filesystem_reports
    (h : ∀ st snap, Reports (destroy st snap) (result st snap) (!(result st snap).2))
    {l2 : DList snapshot_t} {l : List snapshot_t} (hl : WellFormed l2 l)
    (hgoes : HeadGoes retention limit l) (state : UInt64) (st : σ) :
    Reports (purge_filesystem destroy ⟨retention, limit, state⟩ l2 st)
      ((destroy_part retention limit result st l).1, (destroy_part retention limit result st l).2,
        ⟨retention, limit, 0⟩) (!(destroy_part retention limit result st l).2) := by
  rw [purge_filesystem_goes destroy hl hgoes]
  exact (Reports.until_fails h _ st).map rfl

variable {lists : List (DList snapshot_t)} {fss : List (List snapshot_t)}

/-- **A purge with a message already there**: any deletion that fails overwrites it. -/
theorem purge_loop_overwrites_held
    (h : ∀ st snap, Reports (destroy st snap) (result st snap) (!(result st snap).2))
    (hl : List.Forall₂ WellFormed lists fss) (previous : String) :
    ∀ (st : σ) (ok : Bool) (state : UInt64),
      Overwrites (purge_loop destroy lists st ok ⟨retention, limit, state⟩) (some (some previous))
        ↔ ∃ pre, FailsAfter retention limit result st fss pre := by
  induction hl with
  | nil =>
      intro st ok state
      exact iff_of_false (not_overwrites_pure _ _) fun ⟨pre, hpre⟩ => failsAfter_nil st pre hpre
  | @cons l2 l lists fss hwf _ ih =>
      intro st ok state
      rw [purge_loop]
      simp only [failsAfter_cons]
      by_cases hgoes : HeadGoes retention limit l
      · have hreports := purge_filesystem_reports h hwf hgoes state st
        cases hpart : (destroy_part retention limit result st l).2 with
        | true =>
            rw [hpart] at hreports
            rw [hreports.bind_eq]
            simp only [hgoes, true_and, Bool.true_eq_false, and_false, false_or]
            rw [ih, exists_comm]
            simp
        | false =>
            rw [hpart] at hreports
            rw [overwrites_bind]
            exact iff_of_true (Or.inl (hreports.overwrites previous))
              ⟨[], hgoes, Or.inl ⟨rfl, rfl⟩⟩
      · obtain ⟨p, hfault⟩ :=
          purge_filesystem_stays destroy hwf hgoes state st (some (some previous))
        refine iff_of_false (not_overwrites_of_other (run_bind_error hfault)) ?_
        exact fun ⟨pre, hpre⟩ => hgoes hpre.1

/-- **A purge** overwrites a message just if a deletion fails on two of the
filesystems that it gets to. -/
theorem purge_loop_overwrites
    (h : ∀ st snap, Reports (destroy st snap) (result st snap) (!(result st snap).2))
    (hl : List.Forall₂ WellFormed lists fss) :
    ∀ (st : σ) (ok : Bool) (state : UInt64),
      Overwrites (purge_loop destroy lists st ok ⟨retention, limit, state⟩) (some none)
        ↔ ∃ pre pre', pre ≠ pre' ∧ FailsAfter retention limit result st fss pre
          ∧ FailsAfter retention limit result st fss pre' := by
  induction hl with
  | nil =>
      intro st ok state
      refine iff_of_false (not_overwrites_pure _ _) ?_
      exact fun ⟨pre, _, _, hpre, _⟩ => failsAfter_nil st pre hpre
  | @cons l2 l lists fss hwf hrest ih =>
      intro st ok state
      rw [purge_loop]
      simp only [failsAfter_cons]
      by_cases hgoes : HeadGoes retention limit l
      · have hreports := purge_filesystem_reports h hwf hgoes state st
        cases hpart : (destroy_part retention limit result st l).2 with
        | true =>
            rw [hpart] at hreports
            rw [hreports.bind_eq]
            simp only [hgoes, true_and, Bool.true_eq_false, and_false, false_or]
            rw [ih]
            constructor
            · rintro ⟨pre, pre', hne, hpre, hpre'⟩
              exact ⟨l :: pre, l :: pre', by simpa using hne, ⟨pre, rfl, hpre⟩, pre', rfl, hpre'⟩
            · rintro ⟨_, _, hne, ⟨pre, rfl, hpre⟩, pre', rfl, hpre'⟩
              exact ⟨pre, pre', by simpa using hne, hpre, hpre'⟩
        | false =>
            -- the error is set, and any failure from here on is the second one
            rw [hpart] at hreports
            obtain ⟨message, hrun⟩ := hreports.writes
            rw [overwrites_bind_of_ok hrun]
            simp only [hgoes, true_and, and_true]
            rw [purge_loop_overwrites_held h hrest]
            constructor
            · rintro ⟨pre, hpre⟩
              exact ⟨[], l :: pre, by simp, Or.inl rfl, Or.inr ⟨pre, rfl, hpre⟩⟩
            · rintro ⟨_, _, hne, rfl | ⟨pre, rfl, hpre⟩, hpre'⟩
              · rcases hpre' with rfl | ⟨pre', rfl, hpre'⟩
                · exact absurd rfl hne
                · exact ⟨pre', hpre'⟩
              · exact ⟨pre, hpre⟩
      · obtain ⟨p, hfault⟩ := purge_filesystem_stays destroy hwf hgoes state st (some none)
        refine iff_of_false (not_overwrites_of_other (run_bind_error hfault)) ?_
        exact fun ⟨_, _, _, hpre, _⟩ => hgoes hpre.1

end Loops

/-! ## A purge by a method -/

section Purge

variable (z : reporting σ) (ZINT_VERSION_NUMBER : UInt64) (name_to_hook : List Char → ℤ)
  (ZFS_MAX_DATASET_NAME_LEN : ℕ) (fuel : ℕ)

theorem method_list_once (m : method) (ptc : paths_to_check_t) (st : σ) :
    Once (fun r => r.2.1)
      (method_list z ZINT_VERSION_NUMBER name_to_hook ZFS_MAX_DATASET_NAME_LEN fuel m ptc st) := by
  cases m with
  | be_method => exact be_list_once z _ _ _ fuel st
  | raw_zfs_method ctxt => exact (raw_zfs_list_silent z _ _ fuel ptc st).once

theorem method_list_wellFormed (m : method) (ptc : paths_to_check_t) (st : σ) :
    Ensures (fun r => HoldAll (fun _ => True) r.2.2)
      (method_list z ZINT_VERSION_NUMBER name_to_hook ZFS_MAX_DATASET_NAME_LEN fuel m ptc st) := by
  cases m with
  | be_method =>
      intro c r c' hrun
      obtain ⟨l, hl, hall⟩ := be_list_wellFormed z _ _ fuel st c r c' hrun
      rw [hl]
      exact HoldAll.cons hall (holdAll_nil _)
  | raw_zfs_method ctxt => exact raw_zfs_list_wellFormed z _ _ fuel ptc st

/-- The deletions fail on one filesystem at most. The BE method has one list. -/
def FailsOnce (m : method) (ptc : paths_to_check_t) (retention : retention_type_t) (limit : UInt64)
    (st : σ) : Prop :=
  match m with
  | .be_method => True
  | .raw_zfs_method _ => ∀ st' lists fss,
      raw_zfs_list z ZINT_VERSION_NUMBER name_to_hook fuel ptc st (some none)
          = .ok ((st', true, lists), some none) →
        List.Forall₂ WellFormed lists fss → ∀ pre pre',
          FailsAfter retention limit (destroys z m) st' fss pre →
            FailsAfter retention limit (destroys z m) st' fss pre' → pre = pre'

/-- A listing that succeeds leaves the error empty; then the loop is to set it twice. -/
theorem purge_snapshots_overwrites (m : method) (ptc : paths_to_check_t)
    (retention : retention_type_t) (limit : UInt64) (st : σ) :
    Overwrites (purge_snapshots z ZINT_VERSION_NUMBER name_to_hook ZFS_MAX_DATASET_NAME_LEN fuel m
        ptc retention limit st) (some none)
      ↔ ∃ st' lists fss,
        method_list z ZINT_VERSION_NUMBER name_to_hook ZFS_MAX_DATASET_NAME_LEN fuel m ptc st
            (some none) = .ok ((st', true, lists), some none)
          ∧ List.Forall₂ WellFormed lists fss ∧ ∃ pre pre', pre ≠ pre'
            ∧ FailsAfter retention limit (destroys z m) st' fss pre
            ∧ FailsAfter retention limit (destroys z m) st' fss pre' := by
  have honce := method_list_once z ZINT_VERSION_NUMBER name_to_hook ZFS_MAX_DATASET_NAME_LEN fuel m
    ptc st
  have hensures := method_list_wellFormed z ZINT_VERSION_NUMBER name_to_hook ZFS_MAX_DATASET_NAME_LEN
    fuel m ptc st
  have hdestroy := method_destroy_reports z m
  unfold purge_snapshots retention_filter_callback_data_create
  constructor
  · intro hover
    rw [overwrites_bind, or_iff_right honce.not_overwrites] at hover
    obtain ⟨⟨st', ok, lists⟩, c, hrun, hover⟩ := hover
    cases ok with
    | false => exact absurd hover (not_overwrites_pure _ _)
    | true =>
        obtain rfl := honce.empty _ c hrun rfl
        obtain ⟨fss, hlists, -⟩ := hensures _ _ _ hrun
        exact ⟨st', lists, fss, hrun, hlists,
          (purge_loop_overwrites hdestroy hlists _ _ _).mp hover⟩
  · rintro ⟨st', lists, fss, hrun, hlists, hfails⟩
    rw [overwrites_bind_of_ok hrun]
    exact (purge_loop_overwrites hdestroy hlists _ _ _).mpr hfails

/-- **A purge** sets the error twice just if a deletion fails on two filesystems. -/
theorem purge_snapshots_overwrites_iff (m : method) (ptc : paths_to_check_t)
    (retention : retention_type_t) (limit : UInt64) (st : σ) :
    Overwrites (purge_snapshots z ZINT_VERSION_NUMBER name_to_hook ZFS_MAX_DATASET_NAME_LEN fuel m
        ptc retention limit st) (some none)
      ↔ ¬ FailsOnce z ZINT_VERSION_NUMBER name_to_hook fuel m ptc retention limit st := by
  rw [purge_snapshots_overwrites]
  cases m with
  | be_method =>
      refine iff_of_false ?_ fun h => h trivial
      rintro ⟨st', lists, fss, hrun, hlists, pre, pre', hne, ⟨l, hpre, -⟩, l', hpre', -⟩
      -- with one list there is nothing before it
      obtain ⟨l, hl, -⟩ := be_list_wellFormed z _ _ fuel st _ _ _ hrun
      have hlen : fss.length = 1 := hlists.length_eq.symm.trans (congrArg List.length hl)
      have hle := hpre.length_le
      have hle' := hpre'.length_le
      rw [List.length_append, List.length_singleton, hlen] at hle hle'
      obtain rfl : pre = [] := List.length_eq_zero_iff.mp (by omega)
      obtain rfl : pre' = [] := List.length_eq_zero_iff.mp (by omega)
      exact hne rfl
  | raw_zfs_method ctxt =>
      constructor
      · rintro ⟨st', lists, fss, hrun, hlists, pre, pre', hne, hpre, hpre'⟩ honce
        exact hne (honce st' lists fss hrun hlists pre pre' hpre hpre')
      · intro hnot
        by_contra hnone
        refine hnot fun st' lists fss hrun hlists pre pre' hpre hpre' => ?_
        by_contra hne
        exact hnone ⟨st', lists, fss, hrun, hlists, pre, pre', hne, hpre, hpre'⟩

end Purge

/-! ## A purge without the errors -/

section Erased

variable {z : reporting σ}

/-- The state after the deletions that were done, and what is returned. -/
def erased (z : reporting σ) (st : σ) (r : Except Dlist.Fault (Bool × List snapshot_t)) :
    Except ListSnapshots.Fault (σ × Bool) :=
  (r.mapError .dlist).map fun r => (PurgeTree.destroyed z.toaccess st r.2, r.1)

theorem erased_bind {α : Type} (z : reporting σ) (st : σ) (x : Except Dlist.Fault α)
    (f : α → Except Dlist.Fault (Bool × List snapshot_t)) :
    erased z st (x >>= f) = x.mapError .dlist >>= fun a => erased z st (f a) := by
  cases x <;> rfl

/-- After some deletions, the rest. -/
theorem erases_bind {st : σ} {x : Run (σ × Bool)} {f : σ × Bool → Run (σ × Bool)}
    {y : Except Dlist.Fault (Bool × List snapshot_t)}
    {g : Bool × List snapshot_t → Except Dlist.Fault (Bool × List snapshot_t)}
    (hx : Erases x (erased z st y))
    (hf : ∀ ok done, Erases (f (PurgeTree.destroyed z.toaccess st done, ok))
      (erased z st (g (ok, done)))) :
    Erases (x >>= f) (erased z st (y >>= g)) := by
  cases y with
  | error fault => exact hx.bind_error f
  | ok r => exact hx.bind_ok (hf r.1 r.2)

variable (hz : Handled z) (ctxt : RawZfs.raw_zfs_context_t) (st : σ)
  (list : Bool × List (DList snapshot_t))

include hz

theorem destroy_loop_erases (l2 : DList snapshot_t) (fuel : ℕ) :
    ∀ (it2 : Ptr) (ok : Bool) (done : List snapshot_t),
      Erases (destroy_loop (method_destroy z (.raw_zfs_method ctxt)) fuel l2 it2
          (PurgeTree.destroyed z.toaccess st done) ok)
        (erased z st (Purge.destroy_loop (PurgeTree.raw_zfs_method z.toaccess st list) fuel l2 it2
          ok done)) := by
  induction fuel with
  | zero => intro it2 ok done; exact Erases.lift _
  | succ fuel ih =>
      intro it2 ok done
      rw [destroy_loop, Purge.destroy_loop]
      split
      case isFalse => exact Erases.pure _
      case isTrue =>
        rw [erased_bind]
        refine (Erases.lift _).bind fun snap => ?_
        have hdestroy := Erases.of_reports (raw_zfs_destroy_reports z
          (PurgeTree.destroyed z.toaccess st done) snap (hz _ _))
        refine hdestroy.bind_ok ?_
        simp only
        rw [erased_bind]
        refine (Erases.lift _).bind fun it2' => ?_
        have hrest := ih it2' (ok && (ListSnapshots.raw_zfs_destroy z.toaccess
          (PurgeTree.destroyed z.toaccess st done) snap).2) (done ++ [snap])
        rw [PurgeTree.destroyed_append] at hrest
        exact hrest

theorem purge_loop_erases (lists : List (DList snapshot_t)) :
    ∀ (ok : Bool) (fcd : filter_callback_data_t) (done : List snapshot_t),
      Erases (purge_loop (method_destroy z (.raw_zfs_method ctxt)) lists
          (PurgeTree.destroyed z.toaccess st done) ok fcd)
        (erased z st (Purge.purge_loop (PurgeTree.raw_zfs_method z.toaccess st list) lists ok fcd
          done)) := by
  induction lists with
  | nil => intro ok fcd done; exact Erases.pure _
  | cons l2 lists ih =>
      intro ok fcd done
      rw [purge_loop, Purge.purge_loop]
      unfold purge_filesystem Purge.purge_filesystem
      simp only [bind_assoc]
      rw [erased_bind]
      refine (Erases.lift _).bind fun l2' => ?_
      rw [erased_bind]
      refine (Erases.lift _).bind fun r => ?_
      obtain ⟨l2'', fcd'⟩ := r
      refine erases_bind (destroy_loop_erases hz ctxt st list l2'' _ _ true done) ?_
      intro ok' done'
      exact ih ok' fcd' done'

/-- **A purge of the raw ZFS method** is the one of `PkgPlugins.PurgeTree`, but for the
errors. -/
theorem purge_snapshots_erases (hiter : Iterates z) (ZINT_VERSION_NUMBER : UInt64)
    (name_to_hook : List Char → ℤ) (ZFS_MAX_DATASET_NAME_LEN fuel : ℕ) (ptc : paths_to_check_t)
    (retention : retention_type_t) (limit : UInt64) :
    Erases (purge_snapshots z ZINT_VERSION_NUMBER name_to_hook ZFS_MAX_DATASET_NAME_LEN fuel
        (.raw_zfs_method ctxt) ptc retention limit st)
      ((PurgeTree.purge z.toaccess ZINT_VERSION_NUMBER name_to_hook fuel ptc retention limit st).map
        fun r => (r.1, r.2.1)) := by
  unfold purge_snapshots method_list PurgeTree.purge
  simp only
  rw [raw_zfs_list_eq _ _ hiter]
  cases ListSnapshots.raw_zfs_list z.toaccess ZINT_VERSION_NUMBER name_to_hook fuel ptc st with
  | error fault => exact (Erases.lift (.error fault)).bind_error _
  | ok r =>
      obtain ⟨st', ok, lists⟩ := r
      refine (Erases.lift (.ok (st', ok, lists))).bind_ok ?_
      have herased : ∀ y : Except Dlist.Fault (Bool × List snapshot_t),
          (y.mapError .dlist >>= fun r => pure (PurgeTree.destroyed z.toaccess st' r.2, r.1,
            PurgeTree.calls z.toaccess st' r.2)).map (fun r => (r.1, r.2.1)) = erased z st' y :=
        fun y => by cases y <;> rfl
      change Erases _ (Except.map _ (Except.mapError _ _ >>= _))
      rw [herased]
      cases ok with
      | false => exact Erases.pure (st', false)
      | true => exact purge_loop_erases hz ctxt st' (true, lists) lists false _ []

end Erased

/-! ## When the error is set once -/

/-- **`_error_set` and a message that is there.** From an empty error, a snapshot by a
hook never sets the error twice just if the properties can be set on what it creates
and opens, and a purge never does just if the deletions fail on one filesystem at most
of those that the loop gets to. -/
theorem error_set_once_iff (z : reporting σ) (ZINT_VERSION_NUMBER : UInt64)
    (name_to_hook : List Char → ℤ) (ZFS_MAX_DATASET_NAME_LEN : ℕ) (m : method)
    (ptc : paths_to_check_t) (st : σ) :
    (∀ (τ : Type) (c : clock τ) (scheme hook : List Char),
      ¬ Overwrites (take_snapshot z ZINT_VERSION_NUMBER ZFS_MAX_DATASET_NAME_LEN c m ptc st scheme
          hook) (some none)
        ↔ ∀ snapshot, formatted c scheme = some snapshot →
          Settable z ZINT_VERSION_NUMBER ZFS_MAX_DATASET_NAME_LEN m ptc st snapshot hook)
    ∧ ∀ (fuel : ℕ) (retention : retention_type_t) (limit : UInt64),
      ¬ Overwrites (purge_snapshots z ZINT_VERSION_NUMBER name_to_hook ZFS_MAX_DATASET_NAME_LEN fuel
          m ptc retention limit st) (some none)
        ↔ FailsOnce z ZINT_VERSION_NUMBER name_to_hook fuel m ptc retention limit st := by
  constructor
  · intro τ c scheme hook
    rw [take_snapshot_overwrites_iff, not_exists]
    refine forall_congr' fun snapshot => ?_
    rw [not_and, not_not]
  · intro fuel retention limit
    rw [purge_snapshots_overwrites_iff, not_not]

/-! ## Pools that fail -/

/-- A libzfs and a libbe with a pool, and a clock. -/
def reporting_pool (z : ListSnapshots.access TakeSnapshot.pool) : reporting TakeSnapshot.pool where
  toaccess := z
  zfs_get_handle _ _ := true
  zfs_iter_ends _ _ := true
  libzfs_error_action _ := "cannot perform the operation"
  libzfs_error_description _ := "permission denied"
  be_prop_list_alloc _ := true
  be_get_bootenv_props _ := some []
  be_destroy st _ := (st, false)
  libbe_error_description _ := "permission denied"

def midnight : clock Unit where
  time := some 1704067200
  localtime_r _ := some ()
  strftime _ _ _ := some PurgeTree.before_upgrade

/-- A pool on which no property can be set. -/
def unsettable : reporting TakeSnapshot.pool :=
  reporting_pool { PurgeTree.pool_access with zfs_prop_set := fun st _ _ _ => (st, false) }

/-- A pool on which nothing can be destroyed. -/
def indestructible : reporting TakeSnapshot.pool :=
  reporting_pool { PurgeTree.pool_access with zfs_destroy := fun st _ => (st, false) }

/-- **A second message**: in a snapshot with either method if the version can't be set,
and in a purge if the one snapshot of each of two filesystems can't be destroyed. -/
theorem error_overwritten :
    Overwrites (take_snapshot unsettable 1 256 midnight (.raw_zfs_method ⟨true⟩) PurgeTree.on_tree
        PurgeTree.tree "pkg_pre_upgrade_%F_%T".toList PurgeTree.PRE_UPGRADE) (some none)
      ∧ Overwrites (take_snapshot unsettable 1 256 midnight .be_method TakeSnapshot.rooted
        TakeSnapshot.flat "pkg_pre_upgrade_%F_%T".toList PurgeTree.PRE_UPGRADE) (some none)
      ∧ Overwrites (purge_snapshots indestructible 1 (fun _ => 0) 256 2 (.raw_zfs_method ⟨true⟩)
        PurgeTree.on_tree .BY_CREATION 1800000000
        (PurgeTree.snapshotted PurgeTree.before_upgrade PurgeTree.PRE_UPGRADE)) (some none) := by
  refine ⟨by decide +kernel, by decide +kernel, by decide +kernel⟩

end PkgPlugins.PurgeErrors
