/-
The hooks of a listing: from which value of `zint:hook` the hook of a listed snapshot
comes (`has_zfs_properties` and `raw_zfs_list` of
`plugins/zfs_integration/raw_zfs_method.c`, `be_list` of
`plugins/zfs_integration/be_method.c`).

A listing sets the properties of datasets without a version as it goes. But it reads
each dataset once, and what is set on one is no matter of the others: the hook of a
snapshot is that of its dataset in the state before the listing, `listed_hook`.
-/
import PkgPlugins.PurgeErrors

set_option autoImplicit false

namespace PkgPlugins.ListHooks

open PkgPlugins.WriteOnce PkgPlugins.ListErrors
open PkgPlugins.ZintErrors (reporting nvpair_t be_list raw_zfs_list)
open PkgPlugins.ZfsProperties (libraries be_dataset uzfs_get_prop uzfs_get_prop_numeric transitional
  set_zfs_properties has_zfs_properties Setting OnlyOn set_zfs_properties_spec
  set_zfs_properties_sets uzfs_get_prop_of_lt uzfs_get_prop_numeric_version)
open PkgPlugins.RawZfs (paths_to_check_t ZINT_HOOK_PROPERTY ZINT_VERSION_PROPERTY)
open PkgPlugins.TakeSnapshot (method)
open PkgPlugins.ListSnapshots (access Of Listing probed probed_spec of_unique listing_of_set_all
  set_zfs_properties_eq)
open PkgPlugins.PurgeErrors (Run method_list)
open PkgPlugins.Purge (snapshot_t)

variable {σ : Type}

/-! ## A dataset -/

/-- The value of `zint:hook` that a listing reads, by the state before it: a dataset
without a version that it recognises gets the one of the upgrades. -/
def listed_hook (z : libraries σ) (st : σ) (n : List Char) : Option (List Char) :=
  match uzfs_get_prop_numeric z st n ZINT_VERSION_PROPERTY with
  | some _ => uzfs_get_prop z st n ZINT_HOOK_PROPERTY 100
  | none => some "PRE:UPGRADE".toList

theorem listed_hook_congr {z : libraries σ} {st st' : σ} {n : List Char}
    (h : ∀ prop, z.zfs_get_user_props st' n prop = z.zfs_get_user_props st n prop) :
    listed_hook z st' n = listed_hook z st n := by
  unfold listed_hook uzfs_get_prop_numeric uzfs_get_prop
  rw [h, h]

/-- **`has_zfs_properties`** changes nothing or sets the properties, and reads the hook of
the dataset. -/
theorem has_zfs_properties_reads {z : libraries σ} {names : σ → List (List Char)}
    (h : Setting z names) {ZINT_VERSION_NUMBER : UInt64} {fuel : ℕ} {st st' : σ} {n : List Char}
    (hn : n ∈ names st) {r : Option (List Char × ℕ)}
    (hrun : has_zfs_properties z ZINT_VERSION_NUMBER fuel st n = some (st', r)) :
    (st' = st ∨ st' = (set_zfs_properties z ZINT_VERSION_NUMBER st n "PRE:UPGRADE".toList).1)
      ∧ ∀ hook version, r = some (hook, version) → listed_hook z st n = some hook := by
  cases fuel with
  | zero => cases hrun
  | succ fuel =>
      rw [has_zfs_properties] at hrun
      rw [listed_hook]
      cases hversion : uzfs_get_prop_numeric z st n ZINT_VERSION_PROPERTY with
      | some version =>
          rw [hversion] at hrun
          cases hhook : uzfs_get_prop z st n ZINT_HOOK_PROPERTY 100 with
          | none =>
              rw [hhook] at hrun
              cases hrun
              exact ⟨Or.inl rfl, fun _ _ hr => by cases hr⟩
          | some hook =>
              rw [hhook] at hrun
              cases hrun
              exact ⟨Or.inl rfl, fun _ _ hr => by cases hr; rfl⟩
      | none =>
          rw [hversion] at hrun
          by_cases htransitional : transitional n = true
          · simp only [htransitional, if_true] at hrun
            have hsets := set_zfs_properties_sets h ZINT_VERSION_NUMBER hn "PRE:UPGRADE".toList
            generalize set_zfs_properties z ZINT_VERSION_NUMBER st n "PRE:UPGRADE".toList = set
              at hrun hsets ⊢
            obtain ⟨st₁, - | -⟩ := set
            · cases hrun
              exact ⟨Or.inr rfl, fun _ _ hr => by cases hr⟩
            · -- the next pass reads what was set
              cases fuel with
              | zero => cases hrun
              | succ fuel =>
                  obtain ⟨hversion₁, hhook₁⟩ := hsets rfl
                  simp only [has_zfs_properties, uzfs_get_prop_numeric_version hversion₁] at hrun
                  rw [uzfs_get_prop_of_lt hhook₁ (by decide)] at hrun
                  cases hrun
                  exact ⟨Or.inr rfl, fun _ _ hr => by cases hr; rfl⟩
          · simp only [htransitional, Bool.false_eq_true, if_false] at hrun
            cases hrun
            exact ⟨Or.inl rfl, fun _ _ hr => by cases hr⟩

/-! ## The documented behaviour -/

/-- The documented behaviour of libzfs and libbe: the list of libbe is of boot
environments that there are, each once. -/
structure Documented (z : reporting σ) : Prop where
  access : ListSnapshots.Documented z.toaccess
  be_once : ∀ st props, z.be_get_bootenv_props st = some props →
    (props.map nvpair_t.nvpair_name).Nodup
  be_there : ∀ st props, z.be_get_bootenv_props st = some props → ∀ be ∈ props,
    be_dataset z.tolibraries be.nvpair_name ∈ z.boot_environments st

/-- The dataset of a snapshot in a list of the method. -/
def dataset (z : reporting σ) (m : method) (snap : snapshot_t) : List Char :=
  match m with
  | .be_method => be_dataset z.tolibraries snap.name.toList
  | .raw_zfs_method _ => snap.name.toList

/-- The hook of the snapshot is decoded from that of its dataset. -/
def Decoded (z : reporting σ) (name_to_hook : List Char → ℤ) (m : method) (st : σ)
    (snap : snapshot_t) : Prop :=
  ∃ value, listed_hook z.tolibraries st (dataset z m snap) = some value
    ∧ snap.hook = name_to_hook value

variable {z : reporting σ} {ZINT_VERSION_NUMBER : UInt64} {name_to_hook : List Char → ℤ}

/-! ## The snapshots -/

/-- In a listing that began in `st₀`, the snapshots `rest` of a filesystem and the
filesystems `fss` are left. -/
structure Left (z : access σ) (st₀ : σ) (rest fss : List (List Char)) (st : σ) : Prop where
  seen : ∃ seen, Listing z seen st₀ st ∧ ∀ n ∈ seen, n ∉ rest ∧ ∀ fs ∈ fss, ¬ Of fs n
  once : rest.Nodup
  there : ∀ n ∈ rest, n ∈ z.snapshots st₀ ∧ ∀ fs ∈ fss, ¬ Of fs n
  filesystems_once : fss.Nodup
  filesystems_there : ∀ fs ∈ fss, fs ∈ z.filesystems st₀

/-- The next filesystem. -/
theorem Left.filesystem {z : access σ} (hz : ListSnapshots.Documented z) {st₀ st : σ}
    {fs : List Char} {fss : List (List Char)} (h : Left z st₀ [] (fs :: fss) st) :
    Left z st₀ (z.zfs_iter_snapshots st fs) fss st := by
  obtain ⟨seen, hlisting, hseen⟩ := h.seen
  obtain ⟨hfs, hfss⟩ := List.forall_mem_cons.mp h.filesystems_there
  obtain ⟨hnotin, honce⟩ := List.nodup_cons.mp h.filesystems_once
  have hiter := hz.iter st fs (hlisting.filesystems ▸ hfs)
  refine ⟨⟨seen, hlisting, fun n hn => ⟨fun hmem => ?_, fun fs' hfs' => ?_⟩⟩, hz.iter_once st fs,
    fun n hn => ⟨hlisting.snapshots ▸ ((hiter n).mp hn).1, fun fs' hfs' hof => ?_⟩, honce, hfss⟩
  · exact (hseen n hn).2 fs (by simp) ((hiter n).mp hmem).2
  · exact (hseen n hn).2 fs' (List.mem_cons_of_mem _ hfs')
  · -- a snapshot has one filesystem
    have hsame : fs = fs' := of_unique (hz.filesystem_name st₀ fs hfs)
      (hz.filesystem_name st₀ fs' (hfss fs' hfs')) ((hiter n).mp hn).2 hof
    exact hnotin (hsame ▸ hfs')

/-- The next snapshot. -/
theorem Left.snapshot {z : access σ} {st₀ st st' : σ} {n : List Char}
    {rest fss : List (List Char)} (h : Left z st₀ (n :: rest) fss st)
    (hstep : Listing z [n] st st') : Left z st₀ rest fss st' := by
  obtain ⟨seen, hlisting, hseen⟩ := h.seen
  obtain ⟨hnotin, honce⟩ := List.nodup_cons.mp h.once
  obtain ⟨hn, hrest⟩ := List.forall_mem_cons.mp h.there
  refine ⟨⟨seen ++ [n], hlisting.trans hstep, fun m hm => ?_⟩, honce, hrest, h.filesystems_once,
    h.filesystems_there⟩
  rcases List.mem_append.mp hm with hm | hm
  · exact ⟨fun hmem => (hseen m hm).1 (List.mem_cons_of_mem _ hmem), (hseen m hm).2⟩
  · obtain rfl := List.mem_singleton.mp hm
    exact ⟨hnotin, hn.2⟩

/-- The hook of the next snapshot is the one from before the listing. -/
theorem Left.recognises (hz : ListSnapshots.Documented z.toaccess) {ctxt : RawZfs.raw_zfs_context_t}
    {fuel : ℕ} {st₀ st : σ} {n : List Char} {rest fss : List (List Char)}
    (h : Left z.toaccess st₀ (n :: rest) fss st) :
    Recognises z ZINT_VERSION_NUMBER name_to_hook fuel st n n (Left z.toaccess st₀ rest fss)
      (Decoded z name_to_hook (.raw_zfs_method ctxt) st₀) := by
  intro st' r hrun
  obtain ⟨seen, hlisting, hseen⟩ := h.seen
  have hn₀ : n ∈ z.snapshots st₀ := (h.there n (by simp)).1
  have hn : n ∈ z.snapshots st := hlisting.snapshots ▸ hn₀
  have hunseen : n ∉ seen := fun hmem => (hseen n hmem).1 (by simp)
  obtain ⟨hstate, hhook⟩ := has_zfs_properties_reads hz.setting_snapshots hn hrun
  refine ⟨h.snapshot ?_, fun hook version creation hr => ⟨hook, ?_, rfl⟩⟩
  · rcases hstate with rfl | rfl
    · exact Listing.refl _ _
    · rw [set_zfs_properties_eq]
      exact listing_of_set_all hz _ st hn
  · rw [dataset, String.toList_ofList,
      ← listed_hook_congr (hlisting.alike n hn₀ hunseen).props]
    exact hhook hook version hr

/-- **`raw_zfs_list`** decodes the hooks of the snapshots. -/
theorem raw_zfs_list_decodes (hz : ListSnapshots.Documented z.toaccess) (fuel : ℕ)
    (ctxt : RawZfs.raw_zfs_context_t) {ptc : paths_to_check_t} {st : σ}
    (hexist : ∀ fs ∈ ptc.filesystems, fs ∈ z.filesystems st) :
    Ensures (fun r => HoldAll (Decoded z name_to_hook (.raw_zfs_method ctxt) st) r.2.2)
      (raw_zfs_list z ZINT_VERSION_NUMBER name_to_hook fuel ptc st) := by
  refine raw_zfs_list_ensures (J := Left z.toaccess st []) (fun fs fss st' hleft => ?_)
    fun fss hfss => ?_
  · exact ⟨fun rest => Left z.toaccess st rest fss, hleft.filesystem hz, fun _ => id,
      fun n rest st' h => h.recognises hz⟩
  · obtain ⟨fss', hprobed, hnodup, hmem⟩ := probed_spec ptc
    obtain rfl : fss' = fss := Except.ok.inj (hprobed.symm.trans hfss)
    exact ⟨⟨[], Listing.refl _ st, by simp⟩, List.nodup_nil, by simp, hnodup,
      fun fs hfs => hexist fs ((hmem fs).mp hfs)⟩

/-! ## The boot environments -/

/-- In a listing that began in `st₀`, the datasets `rest` are left. -/
structure Ahead (z : libraries σ) (names : σ → List (List Char)) (st₀ : σ)
    (rest : List (List Char)) (st : σ) : Prop where
  once : rest.Nodup
  there : ∀ n ∈ rest, n ∈ names st
  props : ∀ n ∈ rest, ∀ prop, z.zfs_get_user_props st n prop = z.zfs_get_user_props st₀ n prop

theorem Ahead.next {z : libraries σ} {names : σ → List (List Char)} {st₀ st st' : σ} {n : List Char}
    {rest : List (List Char)} (h : Ahead z names st₀ (n :: rest) st)
    (hstep : OnlyOn z names n st st') : Ahead z names st₀ rest st' := by
  obtain ⟨hnotin, honce⟩ := List.nodup_cons.mp h.once
  obtain ⟨-, hthere⟩ := List.forall_mem_cons.mp h.there
  refine ⟨honce, fun m hm => hstep.kept ▸ hthere m hm, fun m hm prop => ?_⟩
  have hne : m ≠ n := fun heq => hnotin (heq ▸ hm)
  rw [hstep.other m (hthere m hm) hne, h.props m (List.mem_cons_of_mem _ hm)]

/-- The datasets of the boot environments in a list of libbe. -/
def be_datasets (z : libraries σ) (props : List nvpair_t) : List (List Char) :=
  props.map fun be => be_dataset z be.nvpair_name

/-- The hook of the next boot environment is the one from before the listing. -/
theorem Ahead.recognises (hz : ZfsProperties.Documented z.tolibraries)
    {ZFS_MAX_DATASET_NAME_LEN fuel : ℕ} {st₀ st : σ} {cur : nvpair_t} {rest : List nvpair_t}
    {fs : List Char}
    (h : Ahead z.tolibraries z.boot_environments st₀ (be_datasets z.tolibraries (cur :: rest)) st)
    (hfs : TakeSnapshot.be_to_fs z.tolibraries ZFS_MAX_DATASET_NAME_LEN st cur.nvpair_name
      = some fs) :
    Recognises z ZINT_VERSION_NUMBER name_to_hook fuel st fs cur.nvpair_name
      (Ahead z.tolibraries z.boot_environments st₀ (be_datasets z.tolibraries rest))
      (Decoded z name_to_hook .be_method st₀) := by
  intro st' r hrun
  obtain rfl := TakeSnapshot.be_to_fs_dataset hz.be_root hfs
  have hn := h.there _ List.mem_cons_self
  have hset := hz.setting_boot_environments
  obtain ⟨hstate, hhook⟩ := has_zfs_properties_reads hset hn hrun
  refine ⟨h.next ?_, fun hook version creation hr => ⟨hook, ?_, rfl⟩⟩
  · rcases hstate with rfl | rfl
    · exact ⟨rfl, fun _ _ _ _ => rfl⟩
    · exact (set_zfs_properties_spec hset ZINT_VERSION_NUMBER hn _).1
  · rw [dataset, String.toList_ofList, ← listed_hook_congr (h.props _ List.mem_cons_self)]
    exact hhook hook version hr

theorem be_datasets_nodup {z : libraries σ} {props : List nvpair_t}
    (h : (props.map nvpair_t.nvpair_name).Nodup) : (be_datasets z props).Nodup := by
  have hmap : be_datasets z props = (props.map nvpair_t.nvpair_name).map (be_dataset z) := by
    rw [List.map_map]
    rfl
  rw [hmap]
  refine h.map fun be be' heq => ?_
  simpa [be_dataset] using heq

/-- **`be_list`** decodes the hooks of the boot environments. -/
theorem be_list_decodes (hz : Documented z) (ZFS_MAX_DATASET_NAME_LEN fuel : ℕ) (st : σ) :
    Ensures (fun r => ∃ l, r.2.2 = [l] ∧ Holds (Decoded z name_to_hook .be_method st) l)
      (be_list z ZINT_VERSION_NUMBER name_to_hook ZFS_MAX_DATASET_NAME_LEN fuel st) := by
  refine be_list_ensures
    (I := fun rest =>
      Ahead z.tolibraries z.boot_environments st (be_datasets z.tolibraries rest))
    (fun cur rest st' fs h hfs => h.recognises hz.access.toDocumented hfs) fun props hprops => ?_
  refine ⟨be_datasets_nodup (hz.be_once st props hprops), fun n hn => ?_, fun _ _ _ => rfl⟩
  obtain ⟨be, hbe, rfl⟩ := List.mem_map.mp hn
  exact hz.be_there st props hprops be hbe

/-- **A listing** gives well formed lists, of snapshots whose hooks are decoded from what
their datasets had before it. -/
theorem method_list_decodes (hz : Documented z) (ZFS_MAX_DATASET_NAME_LEN fuel : ℕ) (m : method)
    (ptc : paths_to_check_t) (st : σ)
    (hexist : ∀ fs ∈ ptc.filesystems, fs ∈ z.filesystems st) :
    Ensures (fun r => HoldAll (Decoded z name_to_hook m st) r.2.2)
      (method_list z ZINT_VERSION_NUMBER name_to_hook ZFS_MAX_DATASET_NAME_LEN fuel m ptc st) := by
  cases m with
  | be_method =>
      intro c r c' hrun
      obtain ⟨l, hl, hall⟩ := be_list_decodes hz ZFS_MAX_DATASET_NAME_LEN fuel st c r c' hrun
      rw [hl]
      exact HoldAll.cons hall (holdAll_nil _)
  | raw_zfs_method ctxt =>
      exact raw_zfs_list_decodes hz.access fuel ctxt hexist

end PkgPlugins.ListHooks
