/-
What becomes of the handles of zint, from `pkg_plugin_init` to `pkg_plugin_shutdown`.

`owned` is what the elements of a list have open. Each function is given what is open, and
either stops for a reason that is sound or says what is open then. What it loses is open for
good: nothing has its number any more.
-/
import PkgPlugins.ZintHandles

set_option autoImplicit false

namespace PkgPlugins.ZintHandles

open PkgPlugins.Handles PkgPlugins.ZfsProperties PkgPlugins.Retention
open PkgPlugins.RawZfs (bm_code_t raw_zfs_context_t)
open PkgPlugins.WriteOnce (until_fails until_fails_cons)
open PkgPlugins.ZintErrors (nvpair_t)
open PkgPlugins.ListSnapshots (raw_zfs_cast_to_snapshot)

variable {σ : Type} {w : world σ} {ms : Multiset ℕ}

/-! ## One handle -/

def handle (fs : Option uzfs_ptr_t) : Multiset ℕ := (fs.map uzfs_ptr_t.id).toList

@[simp] theorem handle_none : handle none = 0 := rfl

@[simp] theorem handle_some (h : uzfs_ptr_t) : handle (some h) = {h.id} := rfl

/-- A handle that is open is valid. -/
theorem valid_eq (ho : Open w.hs ms) {h : uzfs_ptr_t} (hmem : h.id ∈ ms) :
    valid w (some h) = .ok h :=
  if_pos (ho.mem_iff.mpr hmem)

/-- So is the one that was opened last. -/
theorem valid_opened {h : uzfs_ptr_t} (ho : Open w.hs (handle (some h) + ms)) :
    valid w (some h) = .ok h :=
  valid_eq ho (Multiset.mem_add.mpr (Or.inl (Multiset.mem_singleton_self _)))

/-- A handle of those that are open is valid, or null. -/
theorem valid_spec (ho : Open w.hs ms) {fs : Option uzfs_ptr_t} (hle : handle fs ≤ ms) :
    Runs Sound (valid w fs) fun h => fs = some h ∧ h.id ∈ ms := by
  cases fs with
  | none => exact fun h => Fault.noConfusion
  | some h =>
      have hmem : h.id ∈ ms := Multiset.singleton_le.mp hle
      rw [valid_eq ho hmem]
      exact ⟨rfl, hmem⟩

theorem close_spec {h : ℕ} (ho : Open w.hs (h ::ₘ ms)) :
    Runs Sound (close w h) fun w' => w'.st = w.st ∧ Open w'.hs ms := by
  obtain ⟨hs', hrelease, ho'⟩ := ho.release
  unfold close
  rw [hrelease]
  exact ⟨rfl, ho'⟩

theorem uzfs_close_spec {fs : Option uzfs_ptr_t} (ho : Open w.hs (handle fs + ms)) :
    Runs Sound (uzfs_close w fs) fun w' => w'.st = w.st ∧ Open w'.hs ms := by
  refine (valid_spec ho (Multiset.le_add_right _ _)).bind fun h hh => ?_
  obtain ⟨rfl, -⟩ := hh
  exact close_spec (ho.congr (Multiset.singleton_add h.id ms))

theorem uzfs_wrap_spec (ho : Open w.hs ms) (name : List Char) :
    Open (uzfs_wrap w name).2.hs (handle (some (uzfs_wrap w name).1) + ms) :=
  ho.acquire.congr (Multiset.singleton_add w.hs.next ms).symm

/-- What is opened has the name, and nothing else is different. -/
theorem uzfs_from_name_spec (z : system σ) (ho : Open w.hs ms) (name : List Char) :
    ∃ fs w', uzfs_from_name z w name = (fs, w') ∧ w'.st = w.st ∧ Open w'.hs (handle fs + ms)
      ∧ fs.map uzfs_ptr_t.name = if z.zfs_open w.st name then some name else none := by
  unfold uzfs_from_name
  by_cases hopen : z.zfs_open w.st name = true
  · rw [if_pos hopen, if_pos hopen]
    exact ⟨_, _, rfl, rfl, uzfs_wrap_spec ho name, rfl⟩
  · rw [if_neg hopen, if_neg hopen]
    exact ⟨none, w, rfl, rfl, ho.congr (zero_add ms).symm, rfl⟩

/-! ## The handles of a list -/

def owned (l : List snapshot_t) : Multiset ℕ := l.filterMap fun snap => snap.fs.map uzfs_ptr_t.id

@[simp] theorem owned_nil : owned [] = 0 := rfl

@[simp] theorem owned_cons (snap : snapshot_t) (l : List snapshot_t) :
    owned (snap :: l) = handle snap.fs + owned l := by
  unfold owned handle
  cases hfs : snap.fs <;> simp [hfs]

theorem owned_append (l l' : List snapshot_t) : owned (l ++ l') = owned l + owned l' := by
  unfold owned
  rw [List.filterMap_append, Multiset.coe_add]

theorem owned_perm {l l' : List snapshot_t} (h : l.Perm l') : owned l = owned l' :=
  Multiset.coe_eq_coe.mpr (h.filterMap _)

theorem snapshot_destroy_spec {snap : snapshot_t} (ho : Open w.hs (handle snap.fs + ms)) :
    Runs Sound (snapshot_destroy w snap) fun w' => w'.st = w.st ∧ Open w'.hs ms := by
  unfold snapshot_destroy
  by_cases hfs : snap.fs ≠ none
  · rw [if_pos hfs]
    exact uzfs_close_spec ho
  · rw [if_neg hfs]
    rw [not_not.mp hfs] at ho
    exact ⟨rfl, ho.congr (zero_add ms)⟩

/-- **A list is cleared** of all that it has open. -/
theorem dlist_clear_spec (l : List snapshot_t) : ∀ {w : world σ}, Open w.hs (owned l + ms) →
    Runs Sound (dlist_clear w l) fun w' => w'.st = w.st ∧ Open w'.hs ms := by
  induction l with
  | nil =>
      intro w ho
      exact ⟨rfl, ho.congr (zero_add ms)⟩
  | cons snap l ih =>
      intro w ho
      rw [owned_cons, add_assoc] at ho
      refine (snapshot_destroy_spec ho).bind fun w' hw' => ?_
      exact (ih hw'.2).imp fun w'' hw'' => ⟨hw''.1.trans hw'.1, hw''.2⟩

/-! ## A snapshot -/

/-- What the prober has open. -/
def paths_to_check_t.owned (ptc : paths_to_check_t) : Multiset ℕ :=
  handle ptc.root.fs + handle ptc.localbase.fs + handle ptc.pkg_dbdir.fs + {ptc.lh}

section Snapshots

variable (z : system σ) (ZINT_VERSION_NUMBER : UInt64) (ctxt : raw_zfs_context_t)
  (ptc : paths_to_check_t) (snapshot hook : List Char)

/-- The snapshot is taken and opened, and one of its properties can't be set. -/
def Untagged (w : world σ) (fs : Option uzfs_ptr_t) : Prop :=
  ∃ h st buffer, fs = some h
    ∧ uzfs_snapshot z w.st h.name snapshot ctxt.recursive = (st, some buffer)
    ∧ z.zfs_open st buffer = true
    ∧ (set_zfs_properties z.tolibraries ZINT_VERSION_NUMBER st buffer hook).2 = false

variable {ptc}

/-- The handles on the paths are the prober's. -/
theorem paths_le_owned (ptc : paths_to_check_t) :
    ∀ path ∈ ptc.paths, handle path.fs ≤ ptc.owned := by
  intro path hpath
  simp only [paths_to_check_t.paths, List.mem_cons, List.not_mem_nil, or_false] at hpath
  unfold paths_to_check_t.owned
  rcases hpath with rfl | rfl | rfl
  · rw [add_assoc, add_assoc]
    exact Multiset.le_add_right _ _
  · rw [add_assoc, add_assoc, add_left_comm]
    exact Multiset.le_add_right _ _
  · rw [add_assoc, add_left_comm]
    exact Multiset.le_add_right _ _

/-- Any of the handles that are asked for is one of them. -/
theorem handle_le_of_mem_asked {fs : Option uzfs_ptr_t} (h : fs ∈ asked ctxt ptc) :
    handle fs ≤ ptc.owned := by
  unfold asked at h
  rcases List.mem_cons.mp h with rfl | h
  · exact paths_le_owned ptc ptc.root (by simp [paths_to_check_t.paths])
  · split at h
    · exact absurd h List.not_mem_nil
    · have hmem := List.mem_of_mem_filter h
      rw [List.mem_cons, List.mem_singleton] at hmem
      rcases hmem with rfl | rfl
      · exact paths_le_owned ptc ptc.localbase (by simp [paths_to_check_t.paths])
      · exact paths_le_owned ptc ptc.pkg_dbdir (by simp [paths_to_check_t.paths])

theorem untagged_iff {h : uzfs_ptr_t} {st : σ} {taken : Option (List Char)}
    (htake : uzfs_snapshot z w.st h.name snapshot ctxt.recursive = (st, taken)) :
    Untagged z ZINT_VERSION_NUMBER ctxt snapshot hook w (some h)
      ↔ ∃ buffer, taken = some buffer ∧ z.zfs_open st buffer = true
        ∧ (set_zfs_properties z.tolibraries ZINT_VERSION_NUMBER st buffer hook).2 = false := by
  constructor
  · rintro ⟨h', st', buffer, heq, hrun, hopened, hset⟩
    obtain rfl := Option.some.inj heq
    rw [htake] at hrun
    cases hrun
    exact ⟨buffer, rfl, hopened, hset⟩
  · rintro ⟨buffer, rfl, hopened, hset⟩
    exact ⟨h, st, buffer, rfl, htake, hopened, hset⟩

/-- A snapshot is closed once it is tagged. -/
theorem individual_snapshot_spec {fs : Option uzfs_ptr_t} (hfs : handle fs ≤ ptc.owned)
    (ho : Open w.hs (ptc.owned + ms)) :
    Runs Sound (individual_snapshot z ZINT_VERSION_NUMBER ctxt snapshot hook w fs) fun r =>
      Loses world.hs (fun _ => ptc.owned) ms
        (Untagged z ZINT_VERSION_NUMBER ctxt snapshot hook w fs) r.1 := by
  have hnothing : ∀ {w' : world σ} {bad : Prop}, Open w'.hs (ptc.owned + ms) → ¬ bad →
      Loses world.hs (fun _ => ptc.owned) ms bad w' := fun ho' hnot =>
    ⟨0, ho'.congr (by rw [zero_add]), iff_of_true rfl hnot⟩
  refine (valid_spec ho (hfs.trans (Multiset.le_add_right _ _))).bind fun h hh => ?_
  obtain ⟨rfl, -⟩ := hh
  cases htake : uzfs_snapshot z w.st h.name snapshot ctxt.recursive with
  | mk st taken =>
      rw [untagged_iff z ZINT_VERSION_NUMBER ctxt snapshot hook htake]
      cases taken with
      | none => exact hnothing ho (by simp)
      | some buffer =>
          obtain ⟨snap, w', hopen, hst, ho', hname⟩ :=
            uzfs_from_name_spec z (w := { w with st := st }) ho buffer
          obtain hst : w'.st = st := hst
          simp only [hopen, Option.some.injEq, exists_eq_left']
          cases snap with
          | none =>
              -- the snapshot can't be opened
              refine hnothing (ho'.congr (zero_add _)) fun hbad => ?_
              rw [if_pos hbad.1] at hname
              cases hname
          | some snap =>
              have hopened : z.zfs_open st buffer = true ∧ snap.name = buffer := by
                split_ifs at hname with hopened
                · exact ⟨hopened, Option.some.inj hname⟩
                · cases hname
              simp only [valid_opened ho', Fallible.ok_bind]
              rw [hst, hopened.2]
              cases hset : set_zfs_properties z.tolibraries ZINT_VERSION_NUMBER st buffer hook with
              | mk st' tagged =>
                  cases tagged with
                  | false =>
                      refine ⟨handle (some snap), ho'.congr (add_assoc _ _ _).symm, ?_⟩
                      exact iff_of_false (Multiset.singleton_ne_zero _)
                        (not_not_intro ⟨hopened.1, rfl⟩)
                  | true =>
                      refine Runs.bind (uzfs_close_spec ho') fun w'' hw'' => ?_
                      exact hnothing hw''.2 (by simp)

theorem raw_zfs_snapshot_spec (ho : Open w.hs (ptc.owned + ms)) :
    Runs Sound (raw_zfs_snapshot z ZINT_VERSION_NUMBER ctxt w ptc snapshot hook) fun r =>
      Loses world.hs (fun _ => ptc.owned) ms
        (Along (individual_snapshot z ZINT_VERSION_NUMBER ctxt snapshot hook)
          (Untagged z ZINT_VERSION_NUMBER ctxt snapshot hook) w (asked ctxt ptc)) r.1 :=
  until_fails_loses (asked ctxt ptc) (fun _ hfs _ _ ho' =>
    individual_snapshot_spec z ZINT_VERSION_NUMBER ctxt snapshot hook
      (handle_le_of_mem_asked ctxt hfs) ho') w ms ho

/-- The handle on a boot environment is closed in any case. -/
theorem be_take_snapshot_spec (ZFS_MAX_DATASET_NAME_LEN : ℕ) (ho : Open w.hs ms) :
    Runs Sound (be_take_snapshot z ZINT_VERSION_NUMBER ZFS_MAX_DATASET_NAME_LEN w snapshot hook)
      fun r => Open r.1.hs ms := by
  unfold be_take_snapshot be_to_fs
  cases hcreate : z.be_create w.st snapshot with
  | mk st ok =>
      cases ok with
      | false => exact ho
      | true =>
          simp only
          cases hjoin : Buffers.path_join ZFS_MAX_DATASET_NAME_LEN [z.be_root_path, snapshot] with
          | error e => exact ho
          | ok dataset =>
              obtain ⟨fs, w', hopen, -, ho', -⟩ :=
                uzfs_from_name_spec z (w := { w with st := st }) ho dataset
              simp only [hopen]
              cases fs with
              | none => exact ho'.congr (zero_add ms)
              | some fs =>
                  simp only [valid_opened ho', Fallible.ok_bind]
                  have ho'' : Open w'.hs (handle (some fs) + ms) := ho'
                  refine Runs.bind (uzfs_close_spec ho'') fun w'' hw'' => ?_
                  exact hw''.2

end Snapshots

/-! ## A listing -/

section Lists

variable (z : system σ) (ZINT_VERSION_NUMBER : UInt64) (name_to_hook : List Char → ℤ) (fuel : ℕ)

/-- No snapshot is made of a dataset: it isn't zint's, or `cast` doesn't read it. -/
def Overlooked (cast : σ → ℤ → ℕ → Option Purge.snapshot_t) (st : σ) (n : List Char) : Prop :=
  ∀ st' hook version,
    has_zfs_properties z.tolibraries ZINT_VERSION_NUMBER fuel st n
        = some (st', some (hook, version)) →
      cast st' (name_to_hook hook) version = none

/-- A snapshot that a listing of the raw ZFS method comes by. -/
def OverlookedSnapshot (r : world σ × List snapshot_t) (n : List Char) : Prop :=
  Overlooked z ZINT_VERSION_NUMBER name_to_hook fuel
    (fun st => raw_zfs_cast_to_snapshot z.toaccess st n) r.1.st n

/-- A list, and what it has open. -/
abbrev Listed (ms : Multiset ℕ) (bad : Prop) (r : world σ × List snapshot_t) : Prop :=
  Loses (fun r : world σ × List snapshot_t => r.1.hs) (fun r => owned r.2) ms bad r

/-- A handle that was opened is in the list, or lost. -/
theorem listed_of_open {l : List snapshot_t} {fs : uzfs_ptr_t} {st : σ} {bad : Prop}
    (ho : Open w.hs (handle (some fs) + (owned l + ms))) :
    (bad → Listed ms bad ({ w with st := st }, l))
      ∧ (¬ bad → ∀ snap, Listed ms bad ({ w with st := st }, l ++ [⟨snap, some fs⟩])) := by
  refine ⟨fun hbad => ⟨handle (some fs), ho.congr (add_assoc _ _ _).symm, ?_⟩,
    fun hnot snap => ⟨0, ho.congr ?_, iff_of_true rfl hnot⟩⟩
  · exact iff_of_false (Multiset.singleton_ne_zero _) (not_not_intro hbad)
  · simp only [owned_append, owned_cons, owned_nil, add_zero, zero_add]
    rw [add_left_comm, add_assoc]

theorem callback_spec (r : world σ × List snapshot_t) (snap : List Char)
    (ho : Open r.1.hs (owned r.2 + ms)) :
    Runs Sound (snaphosts_iter_callback_callback z ZINT_VERSION_NUMBER name_to_hook fuel r snap)
      fun q =>
        Listed ms (OverlookedSnapshot z ZINT_VERSION_NUMBER name_to_hook fuel r snap) q.1 := by
  obtain ⟨w, l⟩ := r
  have ho' := uzfs_wrap_spec ho snap
  have hst : (uzfs_wrap w snap).2.st = w.st := rfl
  have hname : (uzfs_wrap w snap).1.name = snap := rfl
  unfold snaphosts_iter_callback_callback OverlookedSnapshot Overlooked
  simp only
  generalize uzfs_wrap w snap = p at ho' hst hname
  obtain ⟨fs, w'⟩ := p
  simp only at ho' hst hname ⊢
  unfold snaphosts_iter_callback_build_array
  rw [valid_opened ho', Fallible.ok_bind, hst, hname]
  cases hprops : has_zfs_properties z.tolibraries ZINT_VERSION_NUMBER fuel w.st snap with
  | none => exact fun h => Fault.noConfusion
  | some p =>
      obtain ⟨st, recognised⟩ := p
      cases recognised with
      | none =>
          apply (listed_of_open ho').1
          intro st' hook version hrun
          cases hrun
      | some p =>
          obtain ⟨hook, version⟩ := p
          have hiff : (∀ st' hook' version', some (st, some (hook, version))
                = some (st', some (hook', version')) →
              raw_zfs_cast_to_snapshot z.toaccess st' snap (name_to_hook hook') version' = none)
              ↔ raw_zfs_cast_to_snapshot z.toaccess st snap (name_to_hook hook) version = none := by
            constructor
            · exact fun h => h st hook version rfl
            · intro h st' hook' version' heq
              cases heq
              exact h
          rw [hiff]
          simp only
          cases hcast : raw_zfs_cast_to_snapshot z.toaccess st snap (name_to_hook hook) version with
          | none => exact (listed_of_open ho').1 rfl
          | some s => exact (listed_of_open ho').2 (by simp) s

theorem callbacks_spec (snaps : List (List Char)) (ho : Open w.hs ms) :
    Runs Sound (until_fails
        (snaphosts_iter_callback_callback z ZINT_VERSION_NUMBER name_to_hook fuel) (w, []) snaps)
      fun q => Listed ms
        (Along (snaphosts_iter_callback_callback z ZINT_VERSION_NUMBER name_to_hook fuel)
          (OverlookedSnapshot z ZINT_VERSION_NUMBER name_to_hook fuel) (w, []) snaps) q.1 :=
  until_fails_loses snaps
    (fun snap _ r _ ho' => callback_spec z ZINT_VERSION_NUMBER name_to_hook fuel r snap ho')
    (w, []) ms (ho.congr (by rw [owned_nil, zero_add]))

variable (ptc : paths_to_check_t)

/-- A filesystem that the loop over the table gets to, with a snapshot that is overlooked. -/
def OverlookedFilesystem (r : world σ × List (List snapshot_t)) (fs : List Char) : Prop :=
  Along (snaphosts_iter_callback_callback z ZINT_VERSION_NUMBER name_to_hook fuel)
    (OverlookedSnapshot z ZINT_VERSION_NUMBER name_to_hook fuel) (r.1, [])
    (z.zfs_iter_snapshots r.1.st fs)

variable {ptc}

theorem mem_owned_of_handle_of {name : List Char} {h : uzfs_ptr_t}
    (hh : handle_of ptc name = some h) : h.id ∈ ptc.owned ∧ h.name = name := by
  have hmem := List.mem_of_find?_eq_some hh
  refine ⟨?_, handle_of_name hh⟩
  rw [List.mem_filterMap] at hmem
  obtain ⟨path, hpath, hfs⟩ := hmem
  have hone : h.id ∈ handle path.fs := by
    rw [hfs]
    exact Multiset.mem_singleton_self _
  simp only [paths_to_check_t.paths, List.mem_cons, List.not_mem_nil, or_false] at hpath
  simp only [paths_to_check_t.owned, Multiset.mem_add]
  rcases hpath with rfl | rfl | rfl
  · exact Or.inl (Or.inl (Or.inl hone))
  · exact Or.inl (Or.inl (Or.inr hone))
  · exact Or.inl (Or.inr hone)

/-- The lists of a listing, and what they and the prober have open. -/
abbrev ListedAll (ptc : paths_to_check_t) (ms : Multiset ℕ) (bad : Prop)
    (r : world σ × List (List snapshot_t)) : Prop :=
  Loses (fun r : world σ × List (List snapshot_t) => r.1.hs)
    (fun r => owned r.2.flatten + ptc.owned) ms bad r

theorem list_filesystem_spec (r : world σ × List (List snapshot_t)) (fs : List Char)
    (ho : Open r.1.hs (owned r.2.flatten + ptc.owned + ms)) :
    Runs Sound (list_filesystem z ZINT_VERSION_NUMBER name_to_hook fuel ptc r fs) fun q =>
      ListedAll ptc ms (OverlookedFilesystem z ZINT_VERSION_NUMBER name_to_hook fuel r fs) q.1 := by
  obtain ⟨w, lists⟩ := r
  unfold list_filesystem uzfs_iter_snapshots
  cases hfs : handle_of ptc fs with
  | none => exact fun h => Fault.noConfusion
  | some h =>
      obtain ⟨hmem, hname⟩ := mem_owned_of_handle_of hfs
      have hmem' : h.id ∈ owned lists.flatten + ptc.owned + ms := by
        simp only [Multiset.mem_add]
        exact Or.inl (Or.inr hmem)
      rw [valid_eq ho hmem', Fallible.ok_bind, hname]
      have hloop := callbacks_spec z ZINT_VERSION_NUMBER name_to_hook fuel
        (z.zfs_iter_snapshots w.st fs) ho
      rw [bind_assoc]
      refine hloop.bind fun q hq => ?_
      obtain ⟨⟨w', l⟩, ok⟩ := q
      obtain ⟨lost, ho', hlost⟩ := hq
      refine ⟨lost, ho'.congr ?_, hlost⟩
      simp only [List.flatten_append, List.flatten_cons, List.flatten_nil, List.append_nil,
        owned_append, add_assoc, add_left_comm]

theorem raw_zfs_list_spec (ho : Open w.hs (ptc.owned + ms)) :
    Runs Sound (raw_zfs_list z ZINT_VERSION_NUMBER name_to_hook fuel w ptc) fun q =>
      ListedAll ptc ms (∃ fss, ListSnapshots.probed ptc.names = .ok fss
        ∧ Along (list_filesystem z ZINT_VERSION_NUMBER name_to_hook fuel ptc)
          (OverlookedFilesystem z ZINT_VERSION_NUMBER name_to_hook fuel) (w, []) fss) q.1 := by
  unfold raw_zfs_list
  cases hprobed : ListSnapshots.probed ptc.names with
  | error e => exact fun h => Fault.noConfusion
  | ok fss =>
      have hloop : Runs Sound (until_fails
            (list_filesystem z ZINT_VERSION_NUMBER name_to_hook fuel ptc) (w, []) fss) fun q =>
          ListedAll ptc ms (Along (list_filesystem z ZINT_VERSION_NUMBER name_to_hook fuel ptc)
            (OverlookedFilesystem z ZINT_VERSION_NUMBER name_to_hook fuel) (w, []) fss) q.1 :=
        until_fails_loses fss
          (fun fs _ r _ ho' =>
            list_filesystem_spec z ZINT_VERSION_NUMBER name_to_hook fuel r fs ho')
          (w, []) ms (ho.congr (by rw [List.flatten_nil, owned_nil, zero_add]))
      exact hloop.imp fun q hq => hq.congr (by simp)

variable (ZFS_MAX_DATASET_NAME_LEN : ℕ)

/-- A boot environment that is opened and overlooked. -/
def OverlookedBe (r : world σ × List snapshot_t) (cur : nvpair_t) : Prop :=
  ∃ fs, (be_to_fs z ZFS_MAX_DATASET_NAME_LEN r.1 cur.nvpair_name).1 = some fs
    ∧ Overlooked z ZINT_VERSION_NUMBER name_to_hook fuel (fun _ => be_cast_to_snapshot cur) r.1.st
      fs.name

theorem be_to_fs_spec (be : List Char) (ho : Open w.hs ms) :
    ∃ fs w', be_to_fs z ZFS_MAX_DATASET_NAME_LEN w be = (fs, w') ∧ w'.st = w.st
      ∧ Open w'.hs (handle fs + ms) := by
  unfold be_to_fs
  cases Buffers.path_join ZFS_MAX_DATASET_NAME_LEN [z.be_root_path, be] with
  | error e => exact ⟨none, w, rfl, rfl, ho.congr (zero_add ms).symm⟩
  | ok dataset =>
      obtain ⟨fs, w', hopen, hst, ho', -⟩ := uzfs_from_name_spec z ho dataset
      exact ⟨fs, w', hopen, hst, ho'⟩

theorem list_be_spec (r : world σ × List snapshot_t) (cur : nvpair_t)
    (ho : Open r.1.hs (owned r.2 + ms)) :
    Runs Sound (list_be z ZINT_VERSION_NUMBER ZFS_MAX_DATASET_NAME_LEN name_to_hook fuel r cur)
      fun q => Listed ms (OverlookedBe z ZINT_VERSION_NUMBER name_to_hook fuel
        ZFS_MAX_DATASET_NAME_LEN r cur) q.1 := by
  obtain ⟨w, l⟩ := r
  obtain ⟨fs, w', hopen, hst, ho'⟩ :=
    be_to_fs_spec z ZFS_MAX_DATASET_NAME_LEN cur.nvpair_name ho
  unfold list_be OverlookedBe Overlooked
  simp only [hopen]
  cases fs with
  | none => exact ⟨0, ho'.congr (add_assoc _ _ _).symm, by simp⟩
  | some fs =>
      dsimp only
      rw [valid_opened ho', Fallible.ok_bind, hst]
      cases hprops : has_zfs_properties z.tolibraries ZINT_VERSION_NUMBER fuel w.st fs.name with
      | none => exact fun h => Fault.noConfusion
      | some p =>
          obtain ⟨st, recognised⟩ := p
          cases recognised with
          | none =>
              apply (listed_of_open ho').1
              refine ⟨fs, rfl, fun st' hook version hrun => ?_⟩
              rw [hprops] at hrun
              cases hrun
          | some p =>
              obtain ⟨hook, version⟩ := p
              have hiff : (∃ fs', some fs = some fs' ∧ ∀ st' hook' version',
                    has_zfs_properties z.tolibraries ZINT_VERSION_NUMBER fuel w.st fs'.name
                      = some (st', some (hook', version')) →
                    be_cast_to_snapshot cur (name_to_hook hook') version' = none)
                  ↔ be_cast_to_snapshot cur (name_to_hook hook) version = none := by
                constructor
                · rintro ⟨fs', heq, h⟩
                  obtain rfl := Option.some.inj heq
                  exact h st hook version hprops
                · intro h
                  refine ⟨fs, rfl, fun st' hook' version' hrun => ?_⟩
                  rw [hprops] at hrun
                  cases hrun
                  exact h
              rw [hiff]
              simp only
              cases hcast : be_cast_to_snapshot cur (name_to_hook hook) version with
              | none => exact (listed_of_open ho').1 rfl
              | some s => exact (listed_of_open ho').2 (by simp) s

theorem list_bes_spec (props : List nvpair_t) (ho : Open w.hs ms) :
    Runs Sound (until_fails
        (list_be z ZINT_VERSION_NUMBER ZFS_MAX_DATASET_NAME_LEN name_to_hook fuel) (w, []) props)
      fun q => Listed ms
        (Along (list_be z ZINT_VERSION_NUMBER ZFS_MAX_DATASET_NAME_LEN name_to_hook fuel)
          (OverlookedBe z ZINT_VERSION_NUMBER name_to_hook fuel ZFS_MAX_DATASET_NAME_LEN) (w, [])
          props) q.1 :=
  until_fails_loses props
    (fun cur _ r _ ho' => list_be_spec z ZINT_VERSION_NUMBER name_to_hook fuel
      ZFS_MAX_DATASET_NAME_LEN r cur ho')
    (w, []) ms (ho.congr (by rw [owned_nil, zero_add]))

theorem be_list_spec (ho : Open w.hs (ptc.owned + ms)) :
    Runs Sound (be_list z ZINT_VERSION_NUMBER ZFS_MAX_DATASET_NAME_LEN name_to_hook fuel w) fun q =>
      ListedAll ptc ms (z.be_prop_list_alloc w.st = true
        ∧ ∃ props, z.be_get_bootenv_props w.st = some props
          ∧ Along (list_be z ZINT_VERSION_NUMBER ZFS_MAX_DATASET_NAME_LEN name_to_hook fuel)
            (OverlookedBe z ZINT_VERSION_NUMBER name_to_hook fuel ZFS_MAX_DATASET_NAME_LEN) (w, [])
            props) q.1 := by
  have hnone : Open w.hs (0 + (owned [[]].flatten + ptc.owned) + ms) :=
    ho.congr (by simp)
  unfold be_list
  cases halloc : z.be_prop_list_alloc w.st with
  | false => exact ⟨0, hnone, by simp⟩
  | true =>
      rw [if_neg (by simp)]
      cases hprops : z.be_get_bootenv_props w.st with
      | none => exact ⟨0, hnone, by simp⟩
      | some props =>
          refine (list_bes_spec z ZINT_VERSION_NUMBER name_to_hook fuel ZFS_MAX_DATASET_NAME_LEN
            props ho).bind fun q hq => ?_
          obtain ⟨⟨w', bes⟩, ok⟩ := q
          obtain ⟨lost, ho', hlost⟩ := hq
          refine ⟨lost, ho'.congr ?_, by simpa using hlost⟩
          simp only [List.flatten_cons, List.flatten_nil, List.append_nil, add_assoc]

/-- A listing comes by something that it doesn't list. -/
def ListLoses (m : method_t) (ptc : paths_to_check_t) (w : world σ) : Prop :=
  match m with
  | .be_method _ => z.be_prop_list_alloc w.st = true
      ∧ ∃ props, z.be_get_bootenv_props w.st = some props
        ∧ Along (list_be z ZINT_VERSION_NUMBER ZFS_MAX_DATASET_NAME_LEN name_to_hook fuel)
          (OverlookedBe z ZINT_VERSION_NUMBER name_to_hook fuel ZFS_MAX_DATASET_NAME_LEN) (w, [])
          props
  | .raw_zfs_method _ _ => ∃ fss, ListSnapshots.probed ptc.names = .ok fss
      ∧ Along (list_filesystem z ZINT_VERSION_NUMBER name_to_hook fuel ptc)
        (OverlookedFilesystem z ZINT_VERSION_NUMBER name_to_hook fuel) (w, []) fss
  | .none_method => False

theorem method_list_spec (m : method_t) (ho : Open w.hs (ptc.owned + ms)) :
    Runs Sound
      (method_list z ZINT_VERSION_NUMBER ZFS_MAX_DATASET_NAME_LEN name_to_hook fuel m w ptc)
      fun q => ListedAll ptc ms (ListLoses z ZINT_VERSION_NUMBER name_to_hook fuel
        ZFS_MAX_DATASET_NAME_LEN m ptc w) q.1 := by
  cases m with
  | be_method lbh =>
      exact be_list_spec z ZINT_VERSION_NUMBER name_to_hook fuel ZFS_MAX_DATASET_NAME_LEN ho
  | raw_zfs_method ctxt data => exact raw_zfs_list_spec z ZINT_VERSION_NUMBER name_to_hook fuel ho
  | none_method =>
      refine ⟨0, ho.congr ?_, by simp [ListLoses]⟩
      simp only [List.flatten_nil, owned_nil, zero_add]

end Lists

/-! ## A purge, and a rollback -/

theorem owned_sort (l2 : List snapshot_t) : owned (sort l2) = owned l2 :=
  owned_perm (BubbleSort.sort_perm l2)

theorem reject_spec (l : List snapshot_t) : ∀ {w : world σ} {ms : Multiset ℕ} (head : Bool)
    (fcd : filter_callback_data_t), Open w.hs (owned l + ms) →
      Runs Sound (reject head w fcd l) fun q => Open q.2.1.hs (owned q.1 + ms) := by
  induction l with
  | nil => exact fun _ _ ho => ho
  | cons snap l ih =>
      intro w ms head fcd ho
      unfold reject
      obtain ⟨keep, fcd'⟩ := retention_filter_callback snap.creation fcd
      rw [owned_cons, add_assoc] at ho
      cases keep with
      | true =>
          cases head with
          | true => exact fun h => Fault.noConfusion
          | false => exact (snapshot_destroy_spec ho).bind fun w' hw' => ih false fcd' hw'.2
      | false =>
          rw [add_left_comm] at ho
          refine (ih false fcd' ho).bind fun q hq => ?_
          refine hq.congr ?_
          rw [owned_cons, add_left_comm, add_assoc]

section Destroy

variable (z : system σ)

/-- A snapshot that is destroyed keeps its handle, or has it closed. -/
theorem method_destroy_spec (m : method_t) (snap : snapshot_t)
    (ho : Open w.hs (handle snap.fs + ms)) :
    Runs Sound (method_destroy z m w snap) fun q => Open q.2.1.hs (handle q.1.fs + ms) := by
  cases m with
  | be_method lbh => exact ho
  | none_method => exact ho
  | raw_zfs_method ctxt data =>
      show Runs Sound (raw_zfs_destroy z w snap) _
      refine (valid_spec ho (Multiset.le_add_right _ _)).bind fun fs hfs => ?_
      cases uzfs_filesystem_destroy z w.st fs.name with
      | mk st ok =>
          cases ok with
          | false => exact ho
          | true =>
              refine (uzfs_close_spec (w := { w with st := st }) ho).bind fun w' hw' => ?_
              exact hw'.2.congr (zero_add ms).symm

theorem destroy_loop_spec (m : method_t) (l : List snapshot_t) : ∀ {w : world σ} {ms : Multiset ℕ},
    Open w.hs (owned l + ms) →
      Runs Sound (destroy_loop z m w l) fun q => Open q.2.1.hs (owned q.1 + ms) := by
  induction l with
  | nil => exact fun ho => ho
  | cons snap l ih =>
      intro w ms ho
      rw [owned_cons, add_assoc] at ho
      refine (method_destroy_spec z m snap ho).bind fun q hq => ?_
      obtain ⟨snap', w', ok⟩ := q
      cases ok with
      | false =>
          refine hq.congr ?_
          rw [owned_cons, add_assoc]
      | true =>
          have hq' : Open w'.hs (owned l + (handle snap'.fs + ms)) := hq.congr (add_left_comm _ _ _)
          refine (ih hq').bind fun r hr => hr.congr ?_
          rw [owned_cons, add_left_comm, add_assoc]

theorem purge_filesystem_spec (m : method_t) (fcd : filter_callback_data_t) (l2 : List snapshot_t)
    (ho : Open w.hs (owned l2 + ms)) :
    Runs Sound (purge_filesystem z m fcd w l2) fun q => Open q.2.1.hs (owned q.1 + ms) := by
  rw [← owned_sort] at ho
  refine (reject_spec (sort l2) true _ ho).bind fun q hq => ?_
  rw [← owned_perm (List.reverse_perm q.1)] at hq
  refine (destroy_loop_spec z m q.1.reverse hq).bind fun r hr => ?_
  exact hr.congr (by rw [owned_perm (List.reverse_perm r.1)])

theorem purge_loop_spec (m : method_t) (l : List (List snapshot_t)) :
    ∀ {w : world σ} {ms : Multiset ℕ} (fcd : filter_callback_data_t) (ok : Bool),
      Open w.hs (owned l.flatten + ms) →
        Runs Sound (purge_loop z m fcd w ok l) fun q => Open q.2.1.hs (owned q.1.flatten + ms) := by
  induction l with
  | nil => exact fun _ _ ho => ho
  | cons l2 l ih =>
      intro w ms fcd ok ho
      rw [List.flatten_cons, owned_append, add_assoc] at ho
      refine (purge_filesystem_spec z m fcd l2 ho).bind fun q hq => ?_
      obtain ⟨l2', w', fcd', ok'⟩ := q
      have hq' : Open w'.hs (owned l.flatten + (owned l2' + ms)) := hq.congr (add_left_comm _ _ _)
      refine (ih fcd' ok' hq').bind fun r hr => hr.congr ?_
      rw [List.flatten_cons, owned_append, add_left_comm, add_assoc]

theorem method_rollback_to_hs (m : method_t) (w : world σ) (snap : snapshot_t)
    (temporary : Bool) : (method_rollback_to z m w snap temporary).1.hs = w.hs := by
  cases m <;> rfl

/-- The loop of a rollback only sorts the lists. -/
theorem rollback_loop_spec (m : method_t) (dry_run temporary : Bool) (l : List (List snapshot_t)) :
    ∀ w : world σ, (rollback_loop z m dry_run temporary w l).2.1.hs = w.hs
      ∧ owned (rollback_loop z m dry_run temporary w l).1.flatten = owned l.flatten := by
  induction l with
  | nil => exact fun w => ⟨rfl, rfl⟩
  | cons l2 l ih =>
      intro w
      have hsort := owned_sort l2
      unfold rollback_loop
      rw [List.flatten_cons, owned_append, ← hsort]
      cases sort l2 with
      | nil => exact ⟨rfl, by rw [List.flatten_cons, owned_append]⟩
      | cons last l2' =>
          have hone : (if dry_run then (w, true)
              else method_rollback_to z m w last temporary).1.hs = w.hs := by
            split_ifs
            · rfl
            · exact method_rollback_to_hs z m w last temporary
          dsimp only
          generalize (if dry_run then (w, true) else method_rollback_to z m w last temporary) = p
            at hone
          obtain ⟨w', ok⟩ := p
          cases ok with
          | false => exact ⟨hone, by rw [← owned_append, ← List.flatten_cons]; rfl⟩
          | true =>
              obtain ⟨hhs, howned⟩ := ih w'
              refine ⟨hhs.trans hone, ?_⟩
              show owned (_ :: _).flatten = _
              rw [List.flatten_cons, owned_append, howned]

end Destroy

section Plugin

variable (z : system σ) (ZINT_VERSION_NUMBER : UInt64) (ZFS_MAX_DATASET_NAME_LEN : ℕ)
  (name_to_hook : List Char → ℤ) (fuel : ℕ) {ptc : paths_to_check_t}

/-- All that a purge loses is lost by its listing. -/
theorem purge_snapshots_spec (m : method_t) (retention : retention_type_t) (limit : UInt64)
    (ho : Open w.hs (ptc.owned + ms)) :
    Runs Sound (purge_snapshots z ZINT_VERSION_NUMBER ZFS_MAX_DATASET_NAME_LEN name_to_hook fuel m
        retention limit w ptc) fun q =>
      Loses world.hs (fun _ => ptc.owned) ms (ListLoses z ZINT_VERSION_NUMBER name_to_hook fuel
        ZFS_MAX_DATASET_NAME_LEN m ptc w) q.1 := by
  refine (method_list_spec z ZINT_VERSION_NUMBER name_to_hook fuel ZFS_MAX_DATASET_NAME_LEN m
    ho).bind fun q hq => ?_
  obtain ⟨⟨w', l⟩, ok⟩ := q
  obtain ⟨lost, ho', hlost⟩ := hq
  have hopen : Open w'.hs (owned l.flatten + (lost + ptc.owned + ms)) :=
    ho'.congr (by simp only [add_assoc, add_left_comm])
  have hclear : ∀ (l : List (List snapshot_t)) (w' : world σ) (ok : Bool),
      Open w'.hs (owned l.flatten + (lost + ptc.owned + ms)) →
      Runs Sound (dlist_clear w' l.flatten >>= fun w => pure (w, ok)) fun q =>
        Loses world.hs (fun _ => ptc.owned) ms (ListLoses z ZINT_VERSION_NUMBER name_to_hook fuel
          ZFS_MAX_DATASET_NAME_LEN m ptc w) q.1 := fun l w' ok ho =>
    (dlist_clear_spec l.flatten ho).bind fun w'' hw'' => ⟨lost, hw''.2, hlost⟩
  cases ok with
  | false => exact hclear l w' false hopen
  | true =>
      refine (purge_loop_spec z m l (retention_filter_callback_data_create retention limit) false
        hopen).bind fun r hr => ?_
      exact hclear r.1 r.2.1 r.2.2 hr

theorem rollback_spec (m : method_t) (dry_run temporary : Bool)
    (ho : Open w.hs (ptc.owned + ms)) :
    Runs Sound (rollback z ZINT_VERSION_NUMBER ZFS_MAX_DATASET_NAME_LEN name_to_hook fuel m dry_run
        temporary w ptc) fun q =>
      Loses world.hs (fun _ => ptc.owned) ms (ListLoses z ZINT_VERSION_NUMBER name_to_hook fuel
        ZFS_MAX_DATASET_NAME_LEN m ptc w) q.1 := by
  refine (method_list_spec z ZINT_VERSION_NUMBER name_to_hook fuel ZFS_MAX_DATASET_NAME_LEN m
    ho).bind fun q hq => ?_
  obtain ⟨⟨w', l⟩, ok⟩ := q
  obtain ⟨lost, ho', hlost⟩ := hq
  have hopen : Open w'.hs (owned l.flatten + (lost + ptc.owned + ms)) :=
    ho'.congr (by simp only [add_assoc, add_left_comm])
  have hloop : Open (if ok then rollback_loop z m dry_run temporary w' l
        else (l, w', false)).2.1.hs
      (owned (if ok then rollback_loop z m dry_run temporary w' l
        else (l, w', false)).1.flatten + (lost + ptc.owned + ms)) := by
    cases ok with
    | false => exact hopen
    | true =>
        obtain ⟨hhs, howned⟩ := rollback_loop_spec z m dry_run temporary l w'
        rw [if_pos rfl, hhs, howned]
        exact hopen
  exact (dlist_clear_spec _ hloop).bind fun w'' hw'' => ⟨lost, hw''.2, hlost⟩

/-! ## The calls -/

/-- A call that takes a snapshot and can't tag it, or that lists the snapshots. -/
def CallLoses (m : method_t) (ptc : paths_to_check_t) (w : world σ) : call_t → Prop
  | .hook snapshot hook =>
      match m with
      | .raw_zfs_method ctxt _ =>
          Along (individual_snapshot z ZINT_VERSION_NUMBER ctxt snapshot hook)
            (Untagged z ZINT_VERSION_NUMBER ctxt snapshot hook) w (asked ctxt ptc)
      | _ => False
  | .rollback _ _ =>
      ListLoses z ZINT_VERSION_NUMBER name_to_hook fuel ZFS_MAX_DATASET_NAME_LEN m ptc w

theorem call_spec (m : method_t) (c : call_t) (ho : Open w.hs (ptc.owned + ms)) :
    Runs Sound (call z ZINT_VERSION_NUMBER ZFS_MAX_DATASET_NAME_LEN name_to_hook fuel m ptc w c)
      fun q => Loses world.hs (fun _ => ptc.owned) ms (CallLoses z ZINT_VERSION_NUMBER
        ZFS_MAX_DATASET_NAME_LEN name_to_hook fuel m ptc w c) q.1 := by
  have hnothing : ∀ {w' : world σ}, Open w'.hs (ptc.owned + ms) →
      Loses world.hs (fun _ => ptc.owned) ms False w' := fun ho' =>
    ⟨0, ho'.congr (by rw [zero_add]), iff_of_true rfl not_false⟩
  cases c with
  | rollback dry_run temporary =>
      exact rollback_spec z ZINT_VERSION_NUMBER ZFS_MAX_DATASET_NAME_LEN name_to_hook fuel m dry_run
        temporary ho
  | hook snapshot hook =>
      cases m with
      | none_method => exact hnothing ho
      | raw_zfs_method ctxt data =>
          exact raw_zfs_snapshot_spec z ZINT_VERSION_NUMBER ctxt snapshot hook ho
      | be_method lbh =>
          exact (be_take_snapshot_spec z ZINT_VERSION_NUMBER snapshot hook ZFS_MAX_DATASET_NAME_LEN
            ho).imp fun q hq => hnothing hq

/-- A call, whatever it returns. -/
def called (m : method_t) (ptc : paths_to_check_t) (w : world σ) (c : call_t) :
    Except Fault (world σ × Bool) := do
  let (w, _) ← call z ZINT_VERSION_NUMBER ZFS_MAX_DATASET_NAME_LEN name_to_hook fuel m ptc w c
  return (w, true)

theorem calls_eq (m : method_t) (ptc : paths_to_check_t) (cs : List call_t) : ∀ w : world σ,
    calls z ZINT_VERSION_NUMBER ZFS_MAX_DATASET_NAME_LEN name_to_hook fuel ⟨some ptc, some m⟩ w cs
      = (until_fails (called z ZINT_VERSION_NUMBER ZFS_MAX_DATASET_NAME_LEN name_to_hook fuel m ptc)
          w cs).map Prod.fst := by
  induction cs with
  | nil => exact fun w => rfl
  | cons c cs ih =>
      intro w
      have hcalled :
          called z ZINT_VERSION_NUMBER ZFS_MAX_DATASET_NAME_LEN name_to_hook fuel m ptc w c
          = call z ZINT_VERSION_NUMBER ZFS_MAX_DATASET_NAME_LEN name_to_hook fuel m ptc w c
            >>= fun r => pure (r.1, true) := rfl
      rw [until_fails_cons, hcalled]
      show (call z ZINT_VERSION_NUMBER ZFS_MAX_DATASET_NAME_LEN name_to_hook fuel m ptc w c
        >>= fun r => calls z ZINT_VERSION_NUMBER ZFS_MAX_DATASET_NAME_LEN name_to_hook fuel
          ⟨some ptc, some m⟩ r.1 cs) = _
      cases call z ZINT_VERSION_NUMBER ZFS_MAX_DATASET_NAME_LEN name_to_hook fuel m ptc w c with
      | error e => rfl
      | ok r => exact ih r.1

/-- What the calls lose is what those lose that are reached. -/
theorem calls_spec (m : method_t) (cs : List call_t) (ho : Open w.hs (ptc.owned + ms)) :
    Runs Sound (calls z ZINT_VERSION_NUMBER ZFS_MAX_DATASET_NAME_LEN name_to_hook fuel
        ⟨some ptc, some m⟩ w cs) fun w' =>
      Loses world.hs (fun _ => ptc.owned) ms
        (Along (called z ZINT_VERSION_NUMBER ZFS_MAX_DATASET_NAME_LEN name_to_hook fuel m ptc)
          (CallLoses z ZINT_VERSION_NUMBER ZFS_MAX_DATASET_NAME_LEN name_to_hook fuel m ptc) w cs)
        w' := by
  have hstep : ∀ c ∈ cs, ∀ (w : world σ) (ms : Multiset ℕ), Open w.hs (ptc.owned + ms) →
      Runs Sound (called z ZINT_VERSION_NUMBER ZFS_MAX_DATASET_NAME_LEN name_to_hook fuel m ptc w c)
        fun q => Loses world.hs (fun _ => ptc.owned) ms (CallLoses z ZINT_VERSION_NUMBER
          ZFS_MAX_DATASET_NAME_LEN name_to_hook fuel m ptc w c) q.1 := by
    intro c _ w ms ho
    exact (call_spec z ZINT_VERSION_NUMBER ZFS_MAX_DATASET_NAME_LEN name_to_hook fuel m c ho).bind
      fun q hq => hq
  rw [calls_eq]
  exact Runs.map (until_fails_loses cs hstep w ms ho)

/-! ## The prober and the method -/

/-- What the prober has open, if there is one. -/
def prober_owned (ptc : Option paths_to_check_t) : Multiset ℕ :=
  match ptc with
  | none => 0
  | some ptc => ptc.owned

/-- What a method has open, if there is one. -/
def method_owned (m : Option method_t) : Multiset ℕ :=
  match m with
  | some (.be_method lbh) => {lbh}
  | some (.raw_zfs_method _ data) => {data}
  | _ => 0

theorem uzfs_fs_from_file_spec (path : List Char) (ho : Open w.hs ms) :
    ∃ fs w', uzfs_fs_from_file z w path = (fs, w') ∧ w'.st = w.st
      ∧ Open w'.hs (handle fs + ms) := by
  unfold uzfs_fs_from_file
  cases z.statfs path with
  | none => exact ⟨none, w, rfl, rfl, ho.congr (zero_add ms).symm⟩
  | some name =>
      obtain ⟨fs, w', hopen, hst, ho', -⟩ := uzfs_from_name_spec z ho name
      exact ⟨fs, w', hopen, hst, ho'⟩

theorem prober_create_spec (ho : Open w.hs ms) :
    Runs Sound (prober_create z w) fun r => Open r.2.hs (prober_owned r.1 + ms) := by
  unfold prober_create
  have ho₀ : Open w.hs.acquire (w.hs.next ::ₘ ms) := ho.acquire
  by_cases hinit : z.libzfs_init = false
  · rw [if_pos hinit]
    exact fun h => Fault.noConfusion
  · rw [if_neg hinit]
    have hfails : Runs Sound (close { w with hs := w.hs.acquire } w.hs.next
        >>= fun w => pure ((none : Option paths_to_check_t), w)) fun r =>
          Open r.2.hs (prober_owned r.1 + ms) :=
      (close_spec (w := { w with hs := w.hs.acquire }) ho₀).bind fun w' hw' =>
        hw'.2.congr (zero_add ms).symm
    cases z.localbase with
    | none => exact hfails
    | some localbase =>
        cases z.pkg_dbdir with
        | none => exact hfails
        | some pkg_dbdir =>
            obtain ⟨root_fs, w₁, hroot, -, ho₁⟩ :=
              uzfs_fs_from_file_spec z (w := { w with hs := w.hs.acquire }) ['/'] ho₀
            obtain ⟨localbase_fs, w₂, hlocalbase, -, ho₂⟩ :=
              uzfs_fs_from_file_spec z localbase ho₁
            obtain ⟨pkg_dbdir_fs, w₃, hpkg_dbdir, -, ho₃⟩ :=
              uzfs_fs_from_file_spec z pkg_dbdir ho₂
            simp only [hroot, hlocalbase, hpkg_dbdir]
            refine ho₃.congr ?_
            rw [← Multiset.singleton_add]
            simp only [prober_owned, paths_to_check_t.owned, add_assoc, add_comm]

theorem close_paths_spec (paths : List path_to_check_t) : ∀ {w : world σ},
    Open w.hs ((paths.map fun path => handle path.fs).sum + ms) →
      Runs Sound (close_paths w paths) fun w' => Open w'.hs ms := by
  induction paths with
  | nil => exact fun ho => ho.congr (zero_add ms)
  | cons path paths ih =>
      intro w ho
      rw [List.map_cons, List.sum_cons, add_assoc] at ho
      unfold close_paths
      by_cases hfs : path.fs ≠ none
      · rw [if_pos hfs]
        exact (uzfs_close_spec ho).bind fun w' hw' => ih hw'.2
      · rw [if_neg hfs]
        rw [not_not.mp hfs] at ho
        exact ih (ho.congr (zero_add _))

theorem prober_destroy_spec {ptc : paths_to_check_t} (ho : Open w.hs (ptc.owned + ms)) :
    Runs Sound (prober_destroy w ptc) fun w' => Open w'.hs ms := by
  have hpaths : Open w.hs ((ptc.paths.map fun path => handle path.fs).sum + (ptc.lh ::ₘ ms)) := by
    refine ho.congr ?_
    rw [← Multiset.singleton_add]
    simp only [paths_to_check_t.owned, paths_to_check_t.paths, List.map_cons, List.map_nil,
      List.sum_cons, List.sum_nil, add_zero, add_assoc]
  exact (close_paths_spec ptc.paths hpaths).bind fun w' hw' =>
    (close_spec hw').imp fun w'' hw'' => hw''.2

/-- A suitable method has its data open; one that isn't has none. -/
def Suits (ptc : paths_to_check_t) (ms : Multiset ℕ)
    (r : bm_code_t × Option method_t × world σ) : Prop :=
  Open r.2.2.hs (method_owned r.2.1 + ptc.owned + ms) ∧ (r.1 ≠ .BM_OK → r.2.1 = none)

theorem suits_none {code : bm_code_t} (ho : Open w.hs (ptc.owned + ms)) :
    Suits ptc ms (code, none, w) :=
  ⟨ho.congr (by simp [method_owned]), fun _ => rfl⟩

theorem suits_some {m : method_t} (ho : Open w.hs (ptc.owned + ms))
    (hm : method_owned (some m) = {w.hs.next}) :
    Suits ptc ms (.BM_OK, some m, { w with hs := w.hs.acquire }) := by
  refine ⟨ho.acquire.congr ?_, fun hne => absurd rfl hne⟩
  rw [hm, add_assoc, Multiset.singleton_add]

theorem uzfs_same_fs_spec {fs1 fs2 : Option uzfs_ptr_t} (ho : Open w.hs ms)
    (h1 : handle fs1 ≤ ms) (h2 : handle fs2 ≤ ms) :
    Runs Sound (uzfs_same_fs w fs1 fs2) fun _ => True :=
  (valid_spec ho h1).bind fun _ _ => (valid_spec ho h2).bind fun _ _ => trivial

theorem be_suitable_spec (ho : Open w.hs (ptc.owned + ms)) :
    Runs Sound (be_suitable z w ptc) (Suits ptc ms) := by
  have hle : ∀ path ∈ ptc.paths, handle path.fs ≤ ptc.owned + ms := fun path hpath =>
    (paths_le_owned ptc path hpath).trans (Multiset.le_add_right _ _)
  have hroot := hle ptc.root (by simp [paths_to_check_t.paths])
  have hlocalbase := hle ptc.localbase (by simp [paths_to_check_t.paths])
  have hpkg_dbdir := hle ptc.pkg_dbdir (by simp [paths_to_check_t.paths])
  unfold be_suitable
  by_cases hoff : ptc.root.fs = none ∨ ptc.localbase.fs = none ∨ ptc.pkg_dbdir.fs = none
  · rw [if_pos hoff]
    exact suits_none ho
  · rw [if_neg hoff]
    refine (uzfs_same_fs_spec ho hroot hlocalbase).bind fun localbase _ => ?_
    refine (uzfs_same_fs_spec ho hroot hpkg_dbdir).bind fun pkg_dbdir _ => ?_
    split_ifs
    · exact suits_none ho
    · exact suits_none ho
    · exact suits_some ho rfl

theorem raw_zfs_suitable_spec (ho : Open w.hs (ptc.owned + ms)) :
    Runs Sound (raw_zfs_suitable z w ptc) (Suits ptc ms) := by
  have hok : ∀ code ctxt, RawZfs.raw_zfs_suitable z.zfs_get_pool_name ptc.names = .ok (code, some ctxt) →
      code = .BM_OK := by
    intro code ctxt hrun
    unfold RawZfs.raw_zfs_suitable at hrun
    split at hrun
    · cases hrun
    · obtain ⟨_, -, hrun⟩ := Fallible.bind_eq_ok hrun
      cases hrun
      rfl
  unfold raw_zfs_suitable
  cases hrun : RawZfs.raw_zfs_suitable z.zfs_get_pool_name ptc.names with
  | error e => exact fun h => Fault.noConfusion
  | ok r =>
      obtain ⟨code, ctxt⟩ := r
      cases ctxt with
      | none => exact suits_none ho
      | some ctxt =>
          obtain rfl := hok code ctxt hrun
          exact suits_some ho rfl

theorem suitable_spec (ho : Open w.hs (ptc.owned + ms)) :
    ∀ suitable ∈ available_methods z, Runs Sound (suitable w ptc) (Suits ptc ms) := by
  intro suitable hmem
  unfold available_methods at hmem
  rw [List.mem_append, List.mem_cons, List.mem_singleton] at hmem
  rcases hmem with hmem | rfl | rfl
  · split at hmem
    · rw [List.mem_singleton.mp hmem]
      exact be_suitable_spec z ho
    · exact absurd hmem List.not_mem_nil
  · exact raw_zfs_suitable_spec z ho
  · exact ⟨ho.congr (by simp [method_owned]), fun hne => absurd rfl hne⟩

theorem find_loop_spec
    (methods : List (world σ → paths_to_check_t →
      Except Fault (bm_code_t × Option method_t × world σ))) :
    ∀ {w : world σ}, (∀ suitable ∈ methods, ∀ {w : world σ}, Open w.hs (ptc.owned + ms) →
        Runs Sound (suitable w ptc) (Suits ptc ms)) →
      Open w.hs (ptc.owned + ms) →
        Runs Sound (find_loop ptc w methods) fun r =>
          Open r.2.2.hs (method_owned r.2.1 + ptc.owned + ms) := by
  induction methods with
  | nil => exact fun _ ho => ho.congr (by simp [method_owned])
  | cons suitable methods ih =>
      intro w hsuitable ho
      rw [List.forall_mem_cons] at hsuitable
      refine (hsuitable.1 ho).bind fun r hr => ?_
      obtain ⟨code, m, w'⟩ := r
      obtain ⟨ho', hnone⟩ := hr
      cases code with
      | BM_OK => exact ho'
      | BM_ERROR =>
          obtain rfl : m = none := hnone (by simp)
          exact ho'
      | BM_SKIP =>
          obtain rfl : m = none := hnone (by simp)
          exact ih hsuitable.2 (ho'.congr (by simp [method_owned]))

theorem find_backup_method_spec (ho : Open w.hs (ptc.owned + ms)) :
    Runs Sound (find_backup_method z w ptc) fun r =>
      Open r.2.2.hs (method_owned r.2.1 + ptc.owned + ms) :=
  find_loop_spec (available_methods z)
    (fun suitable hmem _ ho' => suitable_spec z ho' suitable hmem) ho

theorem fini_spec (m : method_t) (ho : Open w.hs (method_owned (some m) + ms)) :
    Runs Sound (fini w m) fun w' => Open w'.hs ms := by
  cases m with
  | none_method => exact ho.congr (zero_add ms)
  | be_method lbh =>
      exact (close_spec (ho.congr (Multiset.singleton_add lbh ms))).imp fun w' hw' => hw'.2
  | raw_zfs_method ctxt data =>
      exact (close_spec (ho.congr (Multiset.singleton_add data ms))).imp fun w' hw' => hw'.2

theorem pkg_plugin_shutdown_spec (p : plugin_t)
    (ho : Open w.hs (method_owned p.method + prober_owned p.ptc + ms)) :
    Runs Sound (pkg_plugin_shutdown w p) fun w' => Open w'.hs ms := by
  obtain ⟨ptc, m⟩ := p
  rw [add_assoc] at ho
  have hprober : ∀ {w : world σ}, Open w.hs (prober_owned ptc + ms) →
      Runs Sound (match ptc with | none => .ok w | some ptc => prober_destroy w ptc) fun w' =>
        Open w'.hs ms := by
    intro w ho
    cases ptc with
    | none => exact ho.congr (zero_add ms)
    | some ptc => exact prober_destroy_spec ho
  cases m with
  | none => exact hprober (ho.congr (zero_add _))
  | some m => exact (fini_spec m ho).bind fun w' hw' => hprober hw'

/-! ## Sessions -/

variable (retention : retention_type_t) (limit : UInt64)

/-- The plugin finds a method, and the listing of its purge loses a handle. -/
def PurgeLoses (st : σ) : Prop :=
  ∃ ptc w m w', prober_create z ⟨st, Ledger.empty⟩ = .ok (some ptc, w)
    ∧ find_backup_method z w ptc = .ok (.EPKG_OK, some m, w')
    ∧ ListLoses z ZINT_VERSION_NUMBER name_to_hook fuel ZFS_MAX_DATASET_NAME_LEN m ptc w'

theorem pkg_plugin_init_spec (st : σ) :
    Runs Sound (pkg_plugin_init z ZINT_VERSION_NUMBER ZFS_MAX_DATASET_NAME_LEN name_to_hook fuel
        retention limit st) fun r =>
      ∃ lost, Open r.1.hs (method_owned r.2.1.method + prober_owned r.2.1.ptc + lost)
        ∧ (lost = 0 ↔ ¬ PurgeLoses z ZINT_VERSION_NUMBER ZFS_MAX_DATASET_NAME_LEN name_to_hook fuel
          st) := by
  have hcreate := prober_create_spec z (w := ⟨st, Ledger.empty⟩) Open.empty
  unfold pkg_plugin_init PurgeLoses
  cases hptc : prober_create z ⟨st, Ledger.empty⟩ with
  | error e =>
      rw [hptc] at hcreate
      exact hcreate
  | ok r =>
      rw [hptc] at hcreate
      obtain ⟨ptc, w⟩ := r
      cases ptc with
      | none => exact ⟨0, hcreate, by simp⟩
      | some ptc =>
          have hfind := find_backup_method_spec z (hcreate : Open w.hs (ptc.owned + 0))
          simp only [Fallible.ok_bind]
          cases hm : find_backup_method z w ptc with
          | error e =>
              rw [hm] at hfind
              exact hfind
          | ok r =>
              rw [hm] at hfind
              obtain ⟨status, m, w'⟩ := r
              obtain hfind : Open w'.hs (method_owned m + ptc.owned + 0) := hfind
              rw [add_zero] at hfind
              rw [Fallible.ok_bind]
              split
              · exact fun h => Fault.noConfusion
              · rename_i m w' heq
                cases heq
                have ho : Open w'.hs (ptc.owned + method_owned (some m)) :=
                  hfind.congr (add_comm _ _)
                refine (purge_snapshots_spec z ZINT_VERSION_NUMBER ZFS_MAX_DATASET_NAME_LEN
                  name_to_hook fuel m retention limit ho).bind fun q hq => ?_
                obtain ⟨lost, ho', hlost⟩ := hq
                refine ⟨lost, ho'.congr ?_, hlost.trans (not_congr ⟨fun h => ?_, ?_⟩)⟩
                · show lost + ptc.owned + method_owned (some m) = _ + ptc.owned + lost
                  rw [add_rotate, add_comm ptc.owned]
                · exact ⟨ptc, w, m, w', rfl, hm, h⟩
                · rintro ⟨ptc', w₁, m', w₂, heq, hm', h⟩
                  cases heq
                  rw [hm] at hm'
                  cases hm'
                  exact h
              · rename_i status m w' hnone hsome heq
                cases heq
                refine ⟨0, hfind.congr (add_zero _).symm, iff_of_true rfl ?_⟩
                rintro ⟨ptc', w₁, m', w₂, heq, hm', -⟩
                cases heq
                rw [hm] at hm'
                cases hm'
                exact hsome m' rfl rfl

/-- The purge of `pkg_plugin_init` loses a handle, or one of the calls that are reached. -/
def SessionLoses (st : σ) (cs : List call_t) : Prop :=
  PurgeLoses z ZINT_VERSION_NUMBER ZFS_MAX_DATASET_NAME_LEN name_to_hook fuel st
    ∨ ∃ w ptc m, pkg_plugin_init z ZINT_VERSION_NUMBER ZFS_MAX_DATASET_NAME_LEN name_to_hook fuel
        retention limit st = .ok (w, ⟨some ptc, some m⟩, .EPKG_OK)
      ∧ Along (called z ZINT_VERSION_NUMBER ZFS_MAX_DATASET_NAME_LEN name_to_hook fuel m ptc)
        (CallLoses z ZINT_VERSION_NUMBER ZFS_MAX_DATASET_NAME_LEN name_to_hook fuel m ptc) w cs

/-- Without a prober or a method there is no call, or it reads a null pointer. -/
theorem calls_null {p : plugin_t} (hp : ∀ ptc m, p ≠ ⟨some ptc, some m⟩) (w : world σ)
    (cs : List call_t) :
    Runs Sound (calls z ZINT_VERSION_NUMBER ZFS_MAX_DATASET_NAME_LEN name_to_hook fuel p w cs)
      fun w' => w' = w := by
  cases cs with
  | nil => rfl
  | cons c cs =>
      unfold calls
      split
      · rename_i ptc m hptc hm
        exact absurd (by rw [← hptc, ← hm]) (hp ptc m)
      · exact fun h => Fault.noConfusion

/-- What is open after the last call is what was lost. -/
theorem shutdown_leaves (p : plugin_t) {lost : Multiset ℕ}
    (ho : Open w.hs (method_owned p.method + prober_owned p.ptc + lost)) :
    Runs Sound (pkg_plugin_shutdown w p) fun w' => w'.hs.opened = [] ↔ lost = 0 := by
  refine (pkg_plugin_shutdown_spec p ho).imp fun w' ho' => ?_
  rw [← ho'.opened, Multiset.coe_eq_zero]

/-- **The handles of a session**: none is closed twice or used after it was closed, and in the
end all are closed unless a listing comes by something that it doesn't list or a snapshot can't
be tagged. -/
theorem session_closes (st : σ) (cs : List call_t) :
    Runs Sound (session z ZINT_VERSION_NUMBER ZFS_MAX_DATASET_NAME_LEN name_to_hook fuel retention
        limit st cs) fun w =>
      w.hs.opened = [] ↔ ¬ SessionLoses z ZINT_VERSION_NUMBER ZFS_MAX_DATASET_NAME_LEN name_to_hook
        fuel retention limit st cs := by
  have hinit := pkg_plugin_init_spec z ZINT_VERSION_NUMBER ZFS_MAX_DATASET_NAME_LEN name_to_hook
    fuel retention limit st
  unfold session SessionLoses
  generalize pkg_plugin_init z ZINT_VERSION_NUMBER ZFS_MAX_DATASET_NAME_LEN name_to_hook fuel
    retention limit st = x at hinit
  cases x with
  | error e => exact hinit
  | ok r =>
      obtain ⟨w, p, status⟩ := r
      obtain ⟨lost, ho, hlost⟩ := hinit
      rw [Fallible.ok_bind, not_or, ← hlost]
      by_cases hp : ∃ ptc m, p = ⟨some ptc, some m⟩ ∧ status = .EPKG_OK
      · obtain ⟨ptc, m, rfl, rfl⟩ := hp
        have ho' : Open w.hs (ptc.owned + (method_owned (some m) + lost)) :=
          ho.congr (by rw [add_left_comm, ← add_assoc]; rfl)
        refine (calls_spec z ZINT_VERSION_NUMBER ZFS_MAX_DATASET_NAME_LEN name_to_hook fuel m cs
          ho').bind fun w' hw' => ?_
        obtain ⟨lost', ho'', hlost'⟩ := hw'
        have hopen : Open w'.hs (method_owned (some m) + ptc.owned + (lost + lost')) :=
          ho''.congr (by simp only [add_assoc, add_comm, add_left_comm])
        refine (shutdown_leaves ⟨some ptc, some m⟩ hopen).imp fun w'' hw'' => ?_
        rw [hw'', nothing_lost_iff, hlost']
        refine and_congr_right fun _ => not_congr ⟨fun h => ⟨w, ptc, m, rfl, h⟩, ?_⟩
        rintro ⟨w₁, ptc', m', heq, h⟩
        cases heq
        exact h
      · have hshutdown : Runs Sound (pkg_plugin_shutdown w p) fun w' => w'.hs.opened = [] ↔
            lost = 0 ∧ ¬ ∃ w₁ ptc m, Except.ok (ε := Fault) (w, p, status)
                = .ok (w₁, ⟨some ptc, some m⟩, .EPKG_OK)
              ∧ Along
                (called z ZINT_VERSION_NUMBER ZFS_MAX_DATASET_NAME_LEN name_to_hook fuel m ptc)
                (CallLoses z ZINT_VERSION_NUMBER ZFS_MAX_DATASET_NAME_LEN name_to_hook fuel m ptc)
                w₁ cs := by
          refine (shutdown_leaves p ho).imp fun w' hw' => hw'.trans (iff_self_and.mpr fun _ => ?_)
          rintro ⟨w₁, ptc, m, heq, -⟩
          cases heq
          exact hp ⟨ptc, m, rfl, rfl⟩
        dsimp only
        by_cases hstatus : status = .EPKG_OK
        · rw [if_pos hstatus]
          have hnull : ∀ ptc m, p ≠ ⟨some ptc, some m⟩ := fun ptc m heq =>
            hp ⟨ptc, m, heq, hstatus⟩
          refine (calls_null z ZINT_VERSION_NUMBER ZFS_MAX_DATASET_NAME_LEN name_to_hook fuel
            hnull w cs).bind fun w' hw' => ?_
          rw [hw']
          exact hshutdown
        · rw [if_neg hstatus]
          exact hshutdown

end Plugin

end PkgPlugins.ZintHandles
