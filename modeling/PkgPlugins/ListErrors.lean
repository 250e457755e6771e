/-
The errors of a listing: `raw_zfs_list` (`plugins/zfs_integration/raw_zfs_method.c`),
which has only those of allocations, and `be_list`
(`plugins/zfs_integration/be_method.c`), which sets the error once, if it fails.

Both give lists that are well formed. But for the errors, and for an iteration that
libzfs ends by itself, `raw_zfs_list` is the one of `PkgPlugins.ListSnapshots`.
-/
import PkgPlugins.ZintErrors

set_option autoImplicit false

namespace PkgPlugins.ListErrors

open PkgPlugins.WriteOnce PkgPlugins.ZintErrors
open PkgPlugins.ZfsProperties (uzfs_get_prop_numeric uzfs_get_prop transitional numeric)
open PkgPlugins.RawZfs (paths_to_check_t ZINT_HOOK_PROPERTY ZINT_VERSION_PROPERTY)
open PkgPlugins.ListSnapshots (probed dlist_append_wellFormed)
open PkgPlugins.Dlist (DList WellFormed dlist_init dlist_append dlist_init_spec)
open PkgPlugins.Purge (snapshot_t)

variable {σ φ : Type}

/-! ## What sets the error -/

/-- `has_zfs_properties` has no error to set. -/
theorem has_zfs_properties_eq (z : reporting σ) (ZINT_VERSION_NUMBER : UInt64) (fuel : ℕ) :
    ∀ (st : σ) (fs : List Char), has_zfs_properties z ZINT_VERSION_NUMBER fuel st fs
      = lift ((ZfsProperties.has_zfs_properties z.tolibraries ZINT_VERSION_NUMBER fuel st fs).elim
        (.error .diverges) .ok) := by
  induction fuel with
  | zero => intro st fs; rfl
  | succ fuel ih =>
      intro st fs
      rw [has_zfs_properties, ZfsProperties.has_zfs_properties]
      cases uzfs_get_prop_numeric z.tolibraries st fs ZINT_VERSION_PROPERTY with
      | some version =>
          simp only
          cases uzfs_get_prop z.tolibraries st fs ZINT_HOOK_PROPERTY 100 <;> rfl
      | none =>
          simp only
          by_cases htransitional : transitional fs = true
          · rw [if_pos htransitional, if_pos htransitional, (set_zfs_properties_erases z
              ZINT_VERSION_NUMBER st fs "PRE:UPGRADE".toList).detached]
            generalize ZfsProperties.set_zfs_properties z.tolibraries ZINT_VERSION_NUMBER st fs
              "PRE:UPGRADE".toList = r
            obtain ⟨st₁, ok⟩ := r
            cases ok with
            | false => rfl
            | true => exact ih st₁ fs
          · rw [if_neg htransitional, if_neg htransitional]
            rfl

theorem has_zfs_properties_silent (z : reporting σ) (ZINT_VERSION_NUMBER : UInt64) (fuel : ℕ)
    (st : σ) (fs : List Char) : Silent (has_zfs_properties z ZINT_VERSION_NUMBER fuel st fs) := by
  rw [has_zfs_properties_eq]
  exact Silent.lift _

variable (z : reporting σ) (ZINT_VERSION_NUMBER : UInt64) (name_to_hook : List Char → ℤ)
  (ZFS_MAX_DATASET_NAME_LEN : ℕ)

theorem callback_silent (fuel : ℕ) (st : σ) (l : DList snapshot_t) (fs : List Char) :
    Silent
      (snaphosts_iter_callback_build_array z ZINT_VERSION_NUMBER name_to_hook fuel st l fs) := by
  unfold snaphosts_iter_callback_build_array
  refine (has_zfs_properties_silent z _ fuel st fs).bind fun r => ?_
  rcases r with ⟨st₁, - | ⟨hook, version⟩⟩
  · exact Silent.pure _
  · simp only
    cases ListSnapshots.raw_zfs_cast_to_snapshot z.toaccess st₁ fs (name_to_hook hook) version with
    | none => exact Silent.pure _
    | some snap => exact (Silent.lift _).bind fun l' => Silent.pure _

theorem iter_callbacks_silent (fuel : ℕ) (snaps : List (List Char)) :
    ∀ (st : σ) (l : DList snapshot_t),
      Silent (iter_callbacks z ZINT_VERSION_NUMBER name_to_hook fuel st l snaps) := by
  induction snaps with
  | nil => intro st l; exact Silent.pure _
  | cons snap snaps ih =>
      intro st l
      rw [iter_callbacks]
      refine (callback_silent z _ _ fuel st l snap).bind fun r => ?_
      rcases r with ⟨st₁, l₁, - | -⟩
      · exact Silent.pure _
      · exact ih st₁ l₁

theorem raw_zfs_list_loop_silent (fuel : ℕ) (fss : List (List Char)) : ∀ st : σ,
    Silent (raw_zfs_list_loop z ZINT_VERSION_NUMBER name_to_hook fuel st fss) := by
  induction fss with
  | nil => intro st; exact Silent.pure _
  | cons fs fss ih =>
      intro st
      rw [raw_zfs_list_loop, uzfs_iter_snapshots]
      refine Silent.bind ?_ fun r => ?_
      · exact (iter_callbacks_silent z _ _ fuel _ st dlist_init).bind fun r => Silent.pure _
      · rcases r with ⟨st₁, snapshots, - | -⟩
        · exact Silent.pure _
        · exact (ih st₁).bind fun r => Silent.pure _

/-- **`raw_zfs_list`** has errors of allocations only. -/
theorem raw_zfs_list_silent (fuel : ℕ) (ptc : paths_to_check_t) (st : σ) :
    Silent (raw_zfs_list z ZINT_VERSION_NUMBER name_to_hook fuel ptc st) :=
  (Silent.lift _).bind fun fss => raw_zfs_list_loop_silent z _ _ fuel fss st

theorem be_get_prop_numeric_reports (be : nvpair_t) (property : List Char) :
    ∃ r, Reports (be_get_prop_numeric be property : Writing String φ (Option ℕ)) r r.isNone := by
  unfold be_get_prop_numeric
  cases be.dsprops.lookup property with
  | none => exact ⟨none, Reports.put _ _⟩
  | some v =>
      simp only
      cases numeric v with
      | none => exact ⟨none, Reports.put _ _⟩
      | some value => exact ⟨some value, Reports.pure _⟩

theorem be_cast_to_snapshot_reports (bepair : nvpair_t) (name : List Char) (hook : ℤ)
    (version : ℕ) :
    ∃ r, Reports (be_cast_to_snapshot bepair name hook version :
      Writing String φ (Option snapshot_t)) r r.isNone := by
  unfold be_cast_to_snapshot
  split
  · exact ⟨none, Reports.put _ _⟩
  · obtain ⟨r, hreports⟩ :=
      be_get_prop_numeric_reports (φ := φ) bepair BE_PROPERTY_CREATION
    cases r with
    | none => exact ⟨none, hreports.bind_fails rfl⟩
    | some creation =>
        refine ⟨some ⟨String.ofList name, UInt64.ofNat creation, hook, UInt64.ofNat version⟩, ?_⟩
        exact hreports.map rfl

/-- What is reported where there is no value. -/
theorem once_of_reports_isNone {α : Type} {x : Writing String φ (Option α)} {r : Option α}
    (h : Reports x r r.isNone) : Once Option.isSome x := by
  refine Once.of_reports (a := r) ?_
  rwa [Option.not_isSome]

theorem be_list_loop_once (fuel : ℕ) (props : List nvpair_t) : ∀ (st : σ) (bes : DList snapshot_t),
    Once (fun r => r.2.1) (be_list_loop z ZINT_VERSION_NUMBER name_to_hook ZFS_MAX_DATASET_NAME_LEN
      fuel st props bes) := by
  induction props with
  | nil => intro st bes; exact Once.pure _ _
  | cons cur props ih =>
      intro st bes
      rw [be_list_loop]
      refine (once_of_reports_isNone (be_to_fs_reports z _ st cur.nvpair_name)).bind
        (fun r hr => ?_) fun r hr => ?_
      · obtain ⟨fs, rfl⟩ := Option.isSome_iff_exists.mp hr
        refine (has_zfs_properties_silent z _ fuel st fs).bind_once fun r => ?_
        rcases r with ⟨st₁, - | ⟨hook, version⟩⟩
        · exact ih st₁ bes
        · obtain ⟨r, hreports⟩ := be_cast_to_snapshot_reports (φ := ListSnapshots.Fault) cur
            cur.nvpair_name (name_to_hook hook) version
          refine (once_of_reports_isNone hreports).bind (fun r hr => ?_) fun r hr => ?_
          · obtain ⟨snap, rfl⟩ := Option.isSome_iff_exists.mp hr
            exact (Silent.lift _).bind_once fun bes' => ih st₁ bes'
          · obtain rfl : r = none := by simpa using hr
            exact ⟨_, rfl, rfl⟩
      · obtain rfl : r = none := by simpa using hr
        exact ⟨_, rfl, rfl⟩

/-- **`be_list`** sets the error once, if it fails. -/
theorem be_list_once (fuel : ℕ) (st : σ) :
    Once (fun r => r.2.1)
      (be_list z ZINT_VERSION_NUMBER name_to_hook ZFS_MAX_DATASET_NAME_LEN fuel st) := by
  unfold be_list
  split
  · exact Once.of_reports (Reports.put _ _)
  · cases z.be_get_bootenv_props st with
    | none => exact Once.of_reports (Reports.put _ _)
    | some props =>
        simp only
        refine (be_list_loop_once z _ _ _ fuel props st dlist_init).bind (fun r _ => Once.pure _ _)
          fun r hr => ⟨_, rfl, hr⟩

/-! ## What is listed -/

/-- The list is well formed, and its elements satisfy `P`. -/
def Holds (P : snapshot_t → Prop) (l : DList snapshot_t) : Prop :=
  ∃ data, WellFormed l data ∧ ∀ snap ∈ data, P snap

/-- The lists are well formed, and their elements satisfy `P`. -/
def HoldAll (P : snapshot_t → Prop) (lists : List (DList snapshot_t)) : Prop :=
  ∃ fss, List.Forall₂ WellFormed lists fss ∧ ∀ l ∈ fss, ∀ snap ∈ l, P snap

/-- When `has_zfs_properties` returns on the dataset `n`, `I` holds of the state; and if
it has recognised it, `P` holds of what is listed for it under the name `name`. -/
def Recognises (fuel : ℕ) (st : σ) (n name : List Char) (I : σ → Prop)
    (P : snapshot_t → Prop) : Prop :=
  ∀ st' r, ZfsProperties.has_zfs_properties z.tolibraries ZINT_VERSION_NUMBER fuel st n
      = some (st', r) →
    I st' ∧ ∀ hook version creation, r = some (hook, version) →
      P ⟨String.ofList name, creation, name_to_hook hook, UInt64.ofNat version⟩

variable {z ZINT_VERSION_NUMBER name_to_hook ZFS_MAX_DATASET_NAME_LEN} {P : snapshot_t → Prop}

theorem recognises_trivial (fuel : ℕ) (st : σ) (n name : List Char) :
    Recognises z ZINT_VERSION_NUMBER name_to_hook fuel st n name (fun _ => True) fun _ => True :=
  fun _ _ _ => ⟨trivial, fun _ _ _ _ => trivial⟩

theorem dlist_init_holds (P : snapshot_t → Prop) : Holds P dlist_init :=
  ⟨[], ⟨[], dlist_init_spec, rfl⟩, by simp⟩

theorem append_ensures {l : DList snapshot_t} (hl : Holds P l) {snap : snapshot_t}
    (hsnap : P snap) :
    Ensures (Holds P) (lift ((dlist_append l snap).mapError .dlist) :
      Writing String ListSnapshots.Fault (DList snapshot_t)) := by
  obtain ⟨data, hdata, hall⟩ := hl
  obtain ⟨l', happend, hl'⟩ := dlist_append_wellFormed hdata snap
  rw [happend]
  refine Ensures.pure ⟨_, hl', fun s hs => ?_⟩
  rcases List.mem_append.mp hs with hs | hs
  · exact hall s hs
  · exact List.mem_singleton.mp hs ▸ hsnap

theorem holdAll_nil (P : snapshot_t → Prop) : HoldAll P [] := ⟨[], .nil, by simp⟩

theorem HoldAll.cons {l : DList snapshot_t} {lists : List (DList snapshot_t)} (hl : Holds P l)
    (hlists : HoldAll P lists) : HoldAll P (l :: lists) := by
  obtain ⟨data, hdata, hall⟩ := hl
  obtain ⟨fss, hfss, halls⟩ := hlists
  exact ⟨data :: fss, .cons hdata hfss, List.forall_mem_cons.mpr ⟨hall, halls⟩⟩

/-- What is read with its errors is what is read without. -/
theorem has_zfs_properties_ensures (fuel : ℕ) (st : σ) (fs : List Char) :
    Ensures (fun r => ZfsProperties.has_zfs_properties z.tolibraries ZINT_VERSION_NUMBER fuel st fs
      = some r) (has_zfs_properties z ZINT_VERSION_NUMBER fuel st fs) := by
  rw [has_zfs_properties_eq]
  refine Ensures.lift fun r hr => ?_
  cases h : ZfsProperties.has_zfs_properties z.tolibraries ZINT_VERSION_NUMBER fuel st fs with
  | none => rw [h] at hr; cases hr
  | some r' => rw [h] at hr; rw [Except.ok.inj hr]

theorem cast_eq {st : σ} {n : List Char} {hook : ℤ} {version : ℕ} {snap : snapshot_t}
    (h : ListSnapshots.raw_zfs_cast_to_snapshot z.toaccess st n hook version = some snap) :
    ∃ creation, snap = ⟨String.ofList n, creation, hook, UInt64.ofNat version⟩ := by
  unfold ListSnapshots.raw_zfs_cast_to_snapshot at h
  split at h
  · cases h
  · split at h
    · cases h
    · exact ⟨_, (Option.some.inj h).symm⟩

theorem callback_ensures {fuel : ℕ} {st : σ} {fs : List Char} {I : σ → Prop}
    (hread : Recognises z ZINT_VERSION_NUMBER name_to_hook fuel st fs fs I P)
    {l : DList snapshot_t} (hl : Holds P l) :
    Ensures (fun r => I r.1 ∧ Holds P r.2.1)
      (snaphosts_iter_callback_build_array z ZINT_VERSION_NUMBER name_to_hook fuel st l fs) := by
  unfold snaphosts_iter_callback_build_array
  refine (has_zfs_properties_ensures fuel st fs).bind fun r hrun => ?_
  obtain ⟨hI, hP⟩ := hread r.1 r.2 hrun
  rcases r with ⟨st₁, - | ⟨hook, version⟩⟩
  · exact Ensures.pure ⟨hI, hl⟩
  · simp only
    cases hcast : ListSnapshots.raw_zfs_cast_to_snapshot z.toaccess st₁ fs (name_to_hook hook)
      version with
    | none => exact Ensures.pure ⟨hI, hl⟩
    | some snap =>
        obtain ⟨creation, rfl⟩ := cast_eq hcast
        exact (append_ensures hl (hP hook version creation rfl)).bind
          fun l' hl' => Ensures.pure ⟨hI, hl'⟩

/-- The calls of the callback, with an invariant about those that are left. -/
theorem iter_callbacks_ensures {fuel : ℕ} {I : List (List Char) → σ → Prop}
    (hread : ∀ n rest st, I (n :: rest) st →
      Recognises z ZINT_VERSION_NUMBER name_to_hook fuel st n n (I rest) P)
    (snaps : List (List Char)) :
    ∀ (st : σ) (l : DList snapshot_t), I snaps st → Holds P l →
      Ensures (fun r => (r.2.2 = true → I [] r.1) ∧ Holds P r.2.1)
        (iter_callbacks z ZINT_VERSION_NUMBER name_to_hook fuel st l snaps) := by
  induction snaps with
  | nil => intro st l hI hl; exact Ensures.pure ⟨fun _ => hI, hl⟩
  | cons snap snaps ih =>
      intro st l hI hl
      rw [iter_callbacks]
      refine (callback_ensures (hread snap snaps st hI) hl).bind fun r hr => ?_
      rcases r with ⟨st₁, l₁, - | -⟩
      · exact Ensures.pure ⟨fun h => absurd h (by simp), hr.2⟩
      · exact ih st₁ l₁ hr.1 hr.2

/-- What the loop over the filesystems needs: an invariant about the filesystems that
are left, and on each of them one about the snapshots that are left. -/
def Iterated (z : reporting σ) (ZINT_VERSION_NUMBER : UInt64) (name_to_hook : List Char → ℤ)
    (fuel : ℕ) (J : List (List Char) → σ → Prop) (P : snapshot_t → Prop) : Prop :=
  ∀ fs fss st, J (fs :: fss) st → ∃ I : List (List Char) → σ → Prop,
    I (z.zfs_iter_snapshots st fs) st ∧ (∀ st', I [] st' → J fss st')
      ∧ ∀ n rest st', I (n :: rest) st' →
        Recognises z ZINT_VERSION_NUMBER name_to_hook fuel st' n n (I rest) P

theorem raw_zfs_list_loop_ensures {fuel : ℕ} {J : List (List Char) → σ → Prop}
    (hiter : Iterated z ZINT_VERSION_NUMBER name_to_hook fuel J P) (fss : List (List Char)) :
    ∀ st : σ, J fss st → Ensures (fun r => HoldAll P r.2.2)
      (raw_zfs_list_loop z ZINT_VERSION_NUMBER name_to_hook fuel st fss) := by
  induction fss with
  | nil => intro st _; exact Ensures.pure (holdAll_nil _)
  | cons fs fss ih =>
      intro st hJ
      obtain ⟨I, hinit, hrest, hread⟩ := hiter fs fss st hJ
      have hlisted : Ensures (fun r => (r.2.2 = true → J fss r.1) ∧ Holds P r.2.1)
          (uzfs_iter_snapshots z ZINT_VERSION_NUMBER name_to_hook fuel st fs dlist_init) := by
        refine (iter_callbacks_ensures hread _ st dlist_init hinit (dlist_init_holds _)).bind
          fun r hr => Ensures.pure ⟨fun hok => ?_, hr.2⟩
        rw [Bool.and_eq_true] at hok
        exact hrest _ (hr.1 hok.1)
      rw [raw_zfs_list_loop]
      refine hlisted.bind fun r hr => ?_
      rcases r with ⟨st₁, snapshots, - | -⟩
      · -- the list of the filesystem whose listing fails is there
        exact Ensures.pure (HoldAll.cons hr.2 (holdAll_nil _))
      · exact (ih st₁ (hr.1 rfl)).bind fun r hlists => Ensures.pure (HoldAll.cons hr.2 hlists)

/-- **`raw_zfs_list`** gives well formed lists of what it has recognised. -/
theorem raw_zfs_list_ensures {fuel : ℕ} {J : List (List Char) → σ → Prop}
    (hiter : Iterated z ZINT_VERSION_NUMBER name_to_hook fuel J P) {ptc : paths_to_check_t} {st : σ}
    (hinit : ∀ fss, probed ptc = .ok fss → J fss st) :
    Ensures (fun r => HoldAll P r.2.2)
      (raw_zfs_list z ZINT_VERSION_NUMBER name_to_hook fuel ptc st) := by
  have hprobed : Ensures (fun fss => J fss st)
      (lift ((probed ptc).mapError .hashtable) :
        Writing String ListSnapshots.Fault (List (List Char))) := by
    refine Ensures.lift fun fss hfss => hinit fss ?_
    cases h : probed ptc with
    | error fault => rw [h] at hfss; cases hfss
    | ok fss' => rw [h] at hfss; rw [Except.ok.inj hfss]
  exact hprobed.bind fun fss hJ => raw_zfs_list_loop_ensures hiter fss st hJ

theorem be_cast_to_snapshot_ensures (bepair : nvpair_t) (name : List Char) (hook : ℤ)
    (version : ℕ) :
    Ensures (fun r => ∀ snap, r = some snap →
        ∃ creation, snap = ⟨String.ofList name, creation, hook, UInt64.ofNat version⟩)
      (be_cast_to_snapshot bepair name hook version : Writing String φ (Option snapshot_t)) := by
  unfold be_cast_to_snapshot
  split
  · exact (Ensures.trivial _).bind fun _ _ => Ensures.pure (by simp)
  · refine (Ensures.trivial _).bind fun r _ => ?_
    cases r with
    | none => exact Ensures.pure (by simp)
    | some creation => exact Ensures.pure fun snap hsnap => ⟨_, (Option.some.inj hsnap).symm⟩

/-- The loop of `be_list`, with an invariant about the boot environments that are left. -/
theorem be_list_loop_ensures {fuel : ℕ} {I : List nvpair_t → σ → Prop}
    (hread : ∀ cur rest st fs, I (cur :: rest) st →
      TakeSnapshot.be_to_fs z.tolibraries ZFS_MAX_DATASET_NAME_LEN st cur.nvpair_name = some fs →
        Recognises z ZINT_VERSION_NUMBER name_to_hook fuel st fs cur.nvpair_name (I rest) P)
    (props : List nvpair_t) :
    ∀ (st : σ) (bes : DList snapshot_t), I props st → Holds P bes →
      Ensures (fun r => Holds P r.2.2)
        (be_list_loop z ZINT_VERSION_NUMBER name_to_hook ZFS_MAX_DATASET_NAME_LEN fuel st props
          bes) := by
  induction props with
  | nil => intro st bes _ hl; exact Ensures.pure hl
  | cons cur props ih =>
      intro st bes hI hl
      rw [be_list_loop]
      refine (be_to_fs_reports z _ st cur.nvpair_name).ensures.bind fun r hfs => ?_
      rcases r with - | fs
      · exact Ensures.pure hl
      · refine (has_zfs_properties_ensures fuel st fs).bind fun r hrun => ?_
        obtain ⟨hI', hP⟩ := hread cur props st fs hI hfs.symm r.1 r.2 hrun
        rcases r with ⟨st₁, - | ⟨hook, version⟩⟩
        · exact ih st₁ bes hI' hl
        · refine (be_cast_to_snapshot_ensures _ _ _ _).bind fun r hcast => ?_
          rcases r with - | snap
          · exact Ensures.pure hl
          · obtain ⟨creation, rfl⟩ := hcast snap rfl
            exact (append_ensures hl (hP hook version creation rfl)).bind
              fun bes' hbes' => ih st₁ bes' hI' hbes'

/-- **`be_list`** gives one list, well formed, of what it has recognised. -/
theorem be_list_ensures {fuel : ℕ} {I : List nvpair_t → σ → Prop}
    (hread : ∀ cur rest st fs, I (cur :: rest) st →
      TakeSnapshot.be_to_fs z.tolibraries ZFS_MAX_DATASET_NAME_LEN st cur.nvpair_name = some fs →
        Recognises z ZINT_VERSION_NUMBER name_to_hook fuel st fs cur.nvpair_name (I rest) P)
    {st : σ} (hinit : ∀ props, z.be_get_bootenv_props st = some props → I props st) :
    Ensures (fun r => ∃ l, r.2.2 = [l] ∧ Holds P l)
      (be_list z ZINT_VERSION_NUMBER name_to_hook ZFS_MAX_DATASET_NAME_LEN fuel st) := by
  unfold be_list
  split
  · exact (Ensures.trivial _).bind fun _ _ => Ensures.pure ⟨_, rfl, dlist_init_holds _⟩
  · cases hprops : z.be_get_bootenv_props st with
    | none => exact (Ensures.trivial _).bind fun _ _ => Ensures.pure ⟨_, rfl, dlist_init_holds _⟩
    | some props =>
        exact (be_list_loop_ensures hread props st dlist_init (hinit props hprops)
          (dlist_init_holds _)).bind fun r hr => Ensures.pure ⟨_, rfl, hr⟩

variable (z ZINT_VERSION_NUMBER name_to_hook)

/-- The lists of `raw_zfs_list`, whatever libzfs does. -/
theorem raw_zfs_list_wellFormed (fuel : ℕ) (ptc : paths_to_check_t) (st : σ) :
    Ensures (fun r => HoldAll (fun _ => True) r.2.2)
      (raw_zfs_list z ZINT_VERSION_NUMBER name_to_hook fuel ptc st) :=
  raw_zfs_list_ensures (J := fun _ _ => True)
    (fun _ _ _ _ => ⟨fun _ _ => True, trivial, fun _ _ => trivial,
      fun n _ st' _ => recognises_trivial fuel st' n n⟩)
    fun _ _ => trivial

/-- The list of `be_list`. -/
theorem be_list_wellFormed (fuel : ℕ) (st : σ) :
    Ensures (fun r => ∃ l, r.2.2 = [l] ∧ Holds (fun _ => True) l)
      (be_list z ZINT_VERSION_NUMBER name_to_hook ZFS_MAX_DATASET_NAME_LEN fuel st) :=
  be_list_ensures (I := fun _ _ => True)
    (fun cur _ st' fs _ _ => recognises_trivial fuel st' fs cur.nvpair_name) fun _ _ => trivial

/-! ## The listing without the errors -/

theorem callback_eq (fuel : ℕ) (st : σ) (l : DList snapshot_t) (fs : List Char) :
    snaphosts_iter_callback_build_array z ZINT_VERSION_NUMBER name_to_hook fuel st l fs
      = lift (ListSnapshots.snaphosts_iter_callback_build_array z.toaccess ZINT_VERSION_NUMBER
        name_to_hook fuel st l fs) := by
  unfold snaphosts_iter_callback_build_array ListSnapshots.snaphosts_iter_callback_build_array
  rw [has_zfs_properties_eq]
  rcases ZfsProperties.has_zfs_properties z.tolibraries ZINT_VERSION_NUMBER fuel st fs
    with - | ⟨st₁, - | ⟨hook, version⟩⟩
  · rfl
  · rfl
  · simp only [Option.elim_some, lift_ok, pure_bind]
    cases ListSnapshots.raw_zfs_cast_to_snapshot z.toaccess st₁ fs (name_to_hook hook) version with
    | none => rfl
    | some snap =>
        simp only
        rw [lift_bind]
        rfl

theorem iter_callbacks_eq (fuel : ℕ) (snaps : List (List Char)) :
    ∀ (st : σ) (l : DList snapshot_t),
      iter_callbacks z ZINT_VERSION_NUMBER name_to_hook fuel st l snaps
        = lift (ListSnapshots.iter_callbacks z.toaccess ZINT_VERSION_NUMBER name_to_hook fuel st l
          snaps) := by
  induction snaps with
  | nil => intro st l; rfl
  | cons snap snaps ih =>
      intro st l
      rw [iter_callbacks, ListSnapshots.iter_callbacks, callback_eq, lift_bind]
      refine bind_congr fun r => ?_
      rcases r with ⟨st₁, l₁, - | -⟩
      · rfl
      · exact ih st₁ l₁

/-- No iteration is ended by libzfs. -/
def Iterates (z : reporting σ) : Prop := ∀ st fs, z.zfs_iter_ends st fs = true

variable {z} in
/-- **`raw_zfs_list`** is the one of `PkgPlugins.ListSnapshots`. -/
theorem raw_zfs_list_eq (hz : Iterates z) (fuel : ℕ) (ptc : paths_to_check_t) (st : σ) :
    raw_zfs_list z ZINT_VERSION_NUMBER name_to_hook fuel ptc st
      = lift (ListSnapshots.raw_zfs_list z.toaccess ZINT_VERSION_NUMBER name_to_hook fuel ptc
        st) := by
  have hloop : ∀ (fss : List (List Char)) (st : σ),
      raw_zfs_list_loop z ZINT_VERSION_NUMBER name_to_hook fuel st fss
        = lift (ListSnapshots.raw_zfs_list_loop z.toaccess ZINT_VERSION_NUMBER name_to_hook fuel st
          fss) := by
    intro fss
    induction fss with
    | nil => intro st; rfl
    | cons fs fss ih =>
        intro st
        rw [raw_zfs_list_loop, ListSnapshots.raw_zfs_list_loop, uzfs_iter_snapshots,
          ListSnapshots.uzfs_iter_snapshots, iter_callbacks_eq, lift_bind, bind_assoc]
        refine bind_congr fun r => ?_
        rcases r with ⟨st₁, l₁, - | -⟩
        · simp only [Bool.false_and, pure_bind]
          rfl
        · simp only [Bool.true_and, hz st₁ fs, pure_bind, ih, Bool.not_true, Bool.false_eq_true,
            if_false]
          rw [lift_bind]
          rfl
  rw [raw_zfs_list, ListSnapshots.raw_zfs_list, lift_bind]
  exact bind_congr fun fss => hloop fss st

end PkgPlugins.ListErrors
