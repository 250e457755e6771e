/-
The errors of a snapshot by a hook (`take_snapshot` of
`plugins/zfs_integration/plugin_zfs_integration.c`), with the raw ZFS method and with
the BE method.

`take_snapshot_overwrites_iff` says when the error is set twice: when a snapshot or a
boot environment was created and opened, and one of its properties can't be set. But
for the errors, a snapshot by a method is the one of `PkgPlugins.TakeSnapshot`
(`method_snapshot_erases`).
-/
import PkgPlugins.ZintErrors

set_option autoImplicit false

namespace PkgPlugins.SnapshotErrors

open PkgPlugins.WriteOnce PkgPlugins.Buffers PkgPlugins.ZfsProperties PkgPlugins.ZintErrors
open PkgPlugins.Zfs (ZFS_MAX_NAME_LEN snapshot_name)
open PkgPlugins.RawZfs (paths_to_check_t path_to_check_t raw_zfs_context_t null_handle)
open PkgPlugins.TakeSnapshot (method asked)

variable {σ φ : Type} {z : reporting σ} {ZINT_VERSION_NUMBER : UInt64}
  {ZFS_MAX_DATASET_NAME_LEN : ℕ} {ctxt : raw_zfs_context_t}

/-! ## A snapshot of the raw ZFS method -/

/-- Of the filesystems, one after the other, each that is taken gets the properties. -/
def SetsEach (z : reporting σ) (ZINT_VERSION_NUMBER : UInt64) (recursive : Bool)
    (snapshot hook : List Char) : σ → List (List Char) → Prop
  | _, [] => True
  | st, fs :: fss => Taken z st fs snapshot recursive →
      let st' := (z.zfs_snapshot st (snapshot_name fs snapshot) recursive).1
      Sets z.tolibraries ZINT_VERSION_NUMBER st' (snapshot_name fs snapshot) hook
        ∧ SetsEach z ZINT_VERSION_NUMBER recursive snapshot hook
          (ZfsProperties.set_zfs_properties z.tolibraries ZINT_VERSION_NUMBER st'
            (snapshot_name fs snapshot) hook).1 fss

/-- The snapshot of one filesystem, as a step. -/
def snapshot_step (z : reporting σ) (ZINT_VERSION_NUMBER : UInt64) (ctxt : raw_zfs_context_t)
    (snapshot hook : List Char) (st : σ) (fs : List Char) : Writing String null_handle (σ × Bool) :=
  individual_snapshot z ZINT_VERSION_NUMBER ctxt st (some fs) snapshot hook

theorem path_snapshot_eq (z : reporting σ) (ZINT_VERSION_NUMBER : UInt64) (ctxt : raw_zfs_context_t)
    (snapshot hook : List Char) (st : σ) (path : path_to_check_t) :
    path_snapshot z ZINT_VERSION_NUMBER ctxt st path snapshot hook
      = until_fails (snapshot_step z ZINT_VERSION_NUMBER ctxt snapshot hook) st path.fs.toList := by
  rw [path_snapshot]
  cases path.fs with
  | none => rfl
  | some fs => rw [if_neg (by simp), Option.toList_some, until_fails_singleton, snapshot_step]

/-- **`raw_zfs_snapshot`** is a loop over the filesystems that it asks for. -/
theorem raw_zfs_snapshot_eq {ptc : paths_to_check_t} (hroot : ptc.root.fs.isSome) (st : σ)
    (snapshot hook : List Char) :
    raw_zfs_snapshot z ZINT_VERSION_NUMBER ctxt ptc st snapshot hook
      = until_fails (snapshot_step z ZINT_VERSION_NUMBER ctxt snapshot hook) st
        (asked ctxt ptc) := by
  obtain ⟨root, hroot⟩ := Option.isSome_iff_exists.mp hroot
  rw [raw_zfs_snapshot, asked, hroot, Option.toList_some, List.singleton_append, until_fails_cons,
    snapshot_step]
  refine bind_congr fun r => ?_
  obtain ⟨st₁, ok⟩ := r
  cases ok with
  | false => rfl
  | true =>
      cases hrec : ctxt.recursive with
      | true => rfl
      | false =>
          simp only [Bool.false_eq_true, if_false, if_true, until_fails_append, path_snapshot_eq]
          refine bind_congr fun r => ?_
          obtain ⟨st₂, ok⟩ := r
          cases ok <;> rfl

/-- **A loop over filesystems** sets the error twice just if one is taken and its
properties can't be set. -/
theorem snapshots_overwrite_iff (z : reporting σ) (ZINT_VERSION_NUMBER : UInt64)
    (ctxt : raw_zfs_context_t) (snapshot hook : List Char) (fss : List (List Char)) : ∀ st : σ,
    Overwrites (until_fails (snapshot_step z ZINT_VERSION_NUMBER ctxt snapshot hook) st fss)
        (some none)
      ↔ ¬ SetsEach z ZINT_VERSION_NUMBER ctxt.recursive snapshot hook st fss := by
  induction fss with
  | nil => intro st; exact iff_of_false (not_overwrites_pure _ _) fun h => h trivial
  | cons fs fss ih =>
      intro st
      rw [until_fails_cons, snapshot_step, SetsEach]
      by_cases htaken : Taken z st fs snapshot ctxt.recursive
      · simp only [htaken, true_implies, individual_snapshot_taken htaken]
        by_cases hsets : Sets z.tolibraries ZINT_VERSION_NUMBER
            (z.zfs_snapshot st (snapshot_name fs snapshot) ctxt.recursive).1
            (snapshot_name fs snapshot) hook
        · obtain ⟨hreports, hok⟩ := set_zfs_properties_sets (φ := null_handle) hsets
          rw [hreports.bind_eq, hok, if_pos rfl, and_iff_right hsets]
          exact ih _
        · rw [overwrites_bind]
          exact iff_of_true (Or.inl (set_zfs_properties_overwrites hsets)) fun h => hsets h.1
      · obtain ⟨st', hreports⟩ := individual_snapshot_not_taken ZINT_VERSION_NUMBER hook htaken
        refine iff_of_false (hreports.bind_fails (b := (st', false)) ?_).not_overwrites ?_
        · rfl
        · exact fun h => h fun htaken' => absurd htaken' htaken

/-! ## A snapshot of the BE method -/

/-- The boot environment that is created, if it can be opened, gets the properties. -/
def SetsCreated (z : reporting σ) (ZINT_VERSION_NUMBER : UInt64) (ZFS_MAX_DATASET_NAME_LEN : ℕ)
    (st : σ) (snapshot hook : List Char) : Prop :=
  (z.be_create st snapshot).2 = true → ∀ fs,
    TakeSnapshot.be_to_fs z.tolibraries ZFS_MAX_DATASET_NAME_LEN (z.be_create st snapshot).1 snapshot
        = some fs →
      Sets z.tolibraries ZINT_VERSION_NUMBER (z.be_create st snapshot).1 fs hook

theorem be_take_snapshot_overwrites_iff (z : reporting σ) (ZINT_VERSION_NUMBER : UInt64)
    (ZFS_MAX_DATASET_NAME_LEN : ℕ) (st : σ) (snapshot hook : List Char) :
    Overwrites (be_take_snapshot z ZINT_VERSION_NUMBER ZFS_MAX_DATASET_NAME_LEN st snapshot hook :
        Writing String φ (σ × Bool)) (some none)
      ↔ ¬ SetsCreated z ZINT_VERSION_NUMBER ZFS_MAX_DATASET_NAME_LEN st snapshot hook := by
  unfold be_take_snapshot SetsCreated
  generalize z.be_create st snapshot = r
  obtain ⟨st₁, ok⟩ := r
  cases ok with
  | false =>
      refine iff_of_false (Reports.put _ _).not_overwrites ?_
      simp
  | true =>
      have hreports := be_to_fs_reports (φ := φ) z ZFS_MAX_DATASET_NAME_LEN st₁ snapshot
      simp only [true_implies]
      cases hfs : TakeSnapshot.be_to_fs z.tolibraries ZFS_MAX_DATASET_NAME_LEN st₁ snapshot with
      | none =>
          rw [hfs] at hreports
          refine iff_of_false (hreports.bind_fails (b := (st₁, false)) rfl).not_overwrites ?_
          simp
      | some fs =>
          rw [hfs] at hreports
          rw [hreports.bind_eq]
          simp only [Option.some.injEq, forall_eq']
          by_cases hsets : Sets z.tolibraries ZINT_VERSION_NUMBER st₁ fs hook
          · refine iff_of_false ?_ fun h => h hsets
            rw [(set_zfs_properties_sets hsets).1.eq]
            exact not_overwrites_pure _ _
          · exact iff_of_true (set_zfs_properties_overwrites hsets) hsets

/-! ## A snapshot by a hook -/

/-- The name of the snapshot, if there is no failure before. -/
def formatted {τ : Type} (c : clock τ) (scheme : List Char) : Option (List Char) := do
  let t ← c.time
  let ltm ← c.localtime_r t
  c.strftime ZFS_MAX_NAME_LEN scheme ltm

/-- What is created and opened gets the properties. -/
def Settable (z : reporting σ) (ZINT_VERSION_NUMBER : UInt64) (ZFS_MAX_DATASET_NAME_LEN : ℕ)
    (m : method) (ptc : paths_to_check_t) (st : σ) (snapshot hook : List Char) : Prop :=
  match m with
  | .be_method => SetsCreated z ZINT_VERSION_NUMBER ZFS_MAX_DATASET_NAME_LEN st snapshot hook
  | .raw_zfs_method ctxt => ptc.root.fs.isSome →
      SetsEach z ZINT_VERSION_NUMBER ctxt.recursive snapshot hook st (asked ctxt ptc)

theorem method_snapshot_overwrites_iff (z : reporting σ) (ZINT_VERSION_NUMBER : UInt64)
    (ZFS_MAX_DATASET_NAME_LEN : ℕ) (m : method) (ptc : paths_to_check_t) (st : σ)
    (snapshot hook : List Char) :
    Overwrites
        (method_snapshot z ZINT_VERSION_NUMBER ZFS_MAX_DATASET_NAME_LEN m ptc st snapshot hook)
        (some none)
      ↔ ¬ Settable z ZINT_VERSION_NUMBER ZFS_MAX_DATASET_NAME_LEN m ptc st snapshot hook := by
  cases m with
  | be_method => exact be_take_snapshot_overwrites_iff z _ _ st snapshot hook
  | raw_zfs_method ctxt =>
      unfold method_snapshot Settable
      simp only
      by_cases hroot : ptc.root.fs.isSome
      · rw [raw_zfs_snapshot_eq hroot, snapshots_overwrite_iff]
        simp only [hroot, true_implies]
      · refine iff_of_false ?_ fun h => h fun hroot' => absurd hroot' hroot
        -- the null handle stops the run
        have hnone : ptc.root.fs = none := by simpa using hroot
        have hstop : raw_zfs_snapshot z ZINT_VERSION_NUMBER ctxt ptc st snapshot hook (some none)
            = .error (.other null_handle.mk) := by
          rw [raw_zfs_snapshot, hnone]
          rfl
        exact not_overwrites_of_other hstop

/-- **A snapshot by a hook** sets the error twice just if a property can't be set on
what it created and opened. -/
theorem take_snapshot_overwrites_iff {τ : Type} (z : reporting σ) (ZINT_VERSION_NUMBER : UInt64)
    (ZFS_MAX_DATASET_NAME_LEN : ℕ) (c : clock τ) (m : method) (ptc : paths_to_check_t) (st : σ)
    (scheme hook : List Char) :
    Overwrites (take_snapshot z ZINT_VERSION_NUMBER ZFS_MAX_DATASET_NAME_LEN c m ptc st scheme hook)
        (some none)
      ↔ ∃ snapshot, formatted c scheme = some snapshot
        ∧ ¬ Settable z ZINT_VERSION_NUMBER ZFS_MAX_DATASET_NAME_LEN m ptc st snapshot hook := by
  have hreported : ∀ message : String,
      ¬ Overwrites (do put message; pure (st, false) : Writing String null_handle (σ × Bool))
        (some none) := fun message =>
    (Reports.put message (st, false)).not_overwrites
  unfold take_snapshot formatted
  cases c.time with
  | none => exact iff_of_false (hreported _) (by simp)
  | some t =>
      simp only [Option.bind_eq_bind, Option.bind_some]
      cases c.localtime_r t with
      | none => exact iff_of_false (hreported _) (by simp)
      | some ltm =>
          simp only [Option.bind_some]
          cases c.strftime ZFS_MAX_NAME_LEN scheme ltm with
          | none => exact iff_of_false (hreported _) (by simp)
          | some snapshot =>
              simp only [Option.some.injEq, exists_eq_left']
              exact method_snapshot_overwrites_iff z _ _ m ptc st snapshot hook

/-! ## The snapshots without the errors -/

/-- Every handle has one of libzfs. -/
def Handled (z : reporting σ) : Prop := ∀ st fs, z.zfs_get_handle st fs = true

section Erased

variable (ZINT_VERSION_NUMBER)

theorem individual_snapshot_erases (hz : Handled z) (ctxt : raw_zfs_context_t) (st : σ)
    (fs : Option (List Char)) (snapshot hook : List Char) :
    Erases (individual_snapshot z ZINT_VERSION_NUMBER ctxt st fs snapshot hook)
      (TakeSnapshot.individual_snapshot z.tolibraries ZINT_VERSION_NUMBER ctxt st fs snapshot
        hook) := by
  unfold individual_snapshot TakeSnapshot.individual_snapshot
  cases fs with
  | none => exact Erases.lift _
  | some fs =>
      have hsnapshot := Erases.of_reports (uzfs_snapshot_reports (φ := null_handle)
        (hz st fs) snapshot ZFS_MAX_NAME_LEN ctxt.recursive)
      simp only
      generalize TakeSnapshot.uzfs_snapshot z.tolibraries st fs snapshot ZFS_MAX_NAME_LEN
        ctxt.recursive = r at hsnapshot ⊢
      obtain ⟨st₁, buffer⟩ := r
      cases buffer with
      | none => exact hsnapshot.bind_ok (Erases.pure _)
      | some buffer =>
          refine hsnapshot.bind_ok ?_
          simp only
          by_cases hopen : z.zfs_open st₁ buffer = false
          · rw [if_pos hopen, if_pos hopen]
            exact (Erases.put _).bind_ok (Erases.pure _)
          · rw [if_neg hopen, if_neg hopen]
            exact set_zfs_properties_erases z _ st₁ buffer hook

theorem path_snapshot_erases (hz : Handled z) (ctxt : raw_zfs_context_t) (st : σ)
    (path : path_to_check_t) (snapshot hook : List Char) :
    Erases (path_snapshot z ZINT_VERSION_NUMBER ctxt st path snapshot hook)
      (TakeSnapshot.path_snapshot z.tolibraries ZINT_VERSION_NUMBER ctxt st path snapshot
        hook) := by
  unfold path_snapshot TakeSnapshot.path_snapshot
  split
  · exact Erases.pure _
  · exact individual_snapshot_erases _ hz ctxt st path.fs snapshot hook

theorem raw_zfs_snapshot_erases (hz : Handled z) (ctxt : raw_zfs_context_t)
    (ptc : paths_to_check_t) (st : σ) (snapshot hook : List Char) :
    Erases (raw_zfs_snapshot z ZINT_VERSION_NUMBER ctxt ptc st snapshot hook)
      (TakeSnapshot.raw_zfs_snapshot z.tolibraries ZINT_VERSION_NUMBER ctxt ptc st snapshot
        hook) := by
  have hpath := path_snapshot_erases ZINT_VERSION_NUMBER hz ctxt
  unfold raw_zfs_snapshot TakeSnapshot.raw_zfs_snapshot
  refine (individual_snapshot_erases _ hz ctxt st ptc.root.fs snapshot hook).bind fun r => ?_
  rcases r with ⟨st₁, - | -⟩
  · exact Erases.pure (st₁, false)
  · simp only [Bool.not_true, Bool.false_eq_true, if_false]
    split
    · exact Erases.pure (st₁, true)
    · refine (hpath st₁ ptc.localbase snapshot hook).bind fun r => ?_
      rcases r with ⟨st₂, - | -⟩
      · exact Erases.pure (st₂, false)
      · exact hpath st₂ ptc.pkg_dbdir snapshot hook

theorem be_take_snapshot_erases (ZFS_MAX_DATASET_NAME_LEN : ℕ) (st : σ)
    (snapshot hook : List Char) :
    Erases (be_take_snapshot z ZINT_VERSION_NUMBER ZFS_MAX_DATASET_NAME_LEN st snapshot hook :
        Writing String φ (σ × Bool))
      (.ok (TakeSnapshot.be_take_snapshot z.tolibraries ZINT_VERSION_NUMBER
        ZFS_MAX_DATASET_NAME_LEN st snapshot hook)) := by
  unfold be_take_snapshot TakeSnapshot.be_take_snapshot
  generalize z.be_create st snapshot = r
  rcases r with ⟨st₁, - | -⟩
  · exact (Erases.put _).bind_ok (Erases.pure _)
  · have hfs := Erases.of_reports
      (be_to_fs_reports (φ := φ) z ZFS_MAX_DATASET_NAME_LEN st₁ snapshot)
    simp only
    generalize TakeSnapshot.be_to_fs z.tolibraries ZFS_MAX_DATASET_NAME_LEN st₁ snapshot = r
      at hfs ⊢
    cases r with
    | none => exact hfs.bind_ok (Erases.pure _)
    | some fs => exact hfs.bind_ok (set_zfs_properties_erases z _ st₁ fs hook)

/-- **A snapshot by a method** is the one of `PkgPlugins.TakeSnapshot`, but for the
errors. -/
theorem method_snapshot_erases (hz : Handled z) (ZFS_MAX_DATASET_NAME_LEN : ℕ) (m : method)
    (ptc : paths_to_check_t) (st : σ) (snapshot hook : List Char) :
    Erases (method_snapshot z ZINT_VERSION_NUMBER ZFS_MAX_DATASET_NAME_LEN m ptc st snapshot hook)
      (TakeSnapshot.take_snapshot z.tolibraries ZINT_VERSION_NUMBER ZFS_MAX_DATASET_NAME_LEN m ptc
        st snapshot hook) := by
  cases m with
  | be_method => exact be_take_snapshot_erases _ _ st snapshot hook
  | raw_zfs_method ctxt => exact raw_zfs_snapshot_erases _ hz ctxt ptc st snapshot hook

end Erased

end PkgPlugins.SnapshotErrors
