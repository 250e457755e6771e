/-
`method->snapshot` (`raw_zfs_snapshot` of
`plugins/zfs_integration/raw_zfs_method.c`, `be_take_snapshot` of
`plugins/zfs_integration/be_method.c`), with calls to libzfs and libbe that fail.

Neither function undoes what it did before a call failed, and a recursive snapshot
is only opened and tagged at the filesystem it was asked for. `Attempt` says when
an attempt leaves nothing behind without zint's properties, and
`snapshots_recognised_iff` says that of any sequence of calls.

`/` is on ZFS, as `raw_zfs_suitable` makes sure; a null handle that is read is a
fault.
-/
import PkgPlugins.ZfsProperties
import PkgPlugins.Prefixes
import PkgPlugins.WriteOnce

set_option autoImplicit false

namespace PkgPlugins.TakeSnapshot

open PkgPlugins.Buffers PkgPlugins.Prefixes PkgPlugins.ZfsProperties
open PkgPlugins.Zfs (snapshot_name descendant ZFS_MAX_NAME_LEN uzfs_snapshot_name)
open PkgPlugins.RawZfs (paths_to_check_t path_to_check_t raw_zfs_context_t null_handle
  snapshot_name_inj)
open PkgPlugins.WriteOnce (until_fails until_fails_cons until_fails_singleton until_fails_append)

variable {σ : Type}

/-! ## The functions -/

section Functions

variable (z : libraries σ) (ZINT_VERSION_NUMBER : UInt64)

/-- `uzfs_snapshot`, for a scheme that is not passed to `strftime(3)`. -/
def uzfs_snapshot (st : σ) (filesystem scheme : List Char) (name_size : ℕ) (recursive : Bool) :
    σ × Option (List Char) :=
  match stpcpy_sp name_size [] filesystem with
  | none => (st, none)
  | some w =>
      match stpcpy_sp name_size (w ++ ['@']) scheme with
      | none => (st, none)
      | some name =>
          if z.zfs_name_valid name = false then (st, none)
          else
            let (st, ok) := z.zfs_snapshot st name recursive
            (st, if ok then some name else none)

def individual_snapshot (ctxt : raw_zfs_context_t) (st : σ) (fs : Option (List Char))
    (snapshot hook : List Char) : Except null_handle (σ × Bool) :=
  match fs with
  | none => .error .mk
  | some fs =>
      match uzfs_snapshot z st fs snapshot ZFS_MAX_NAME_LEN ctxt.recursive with
      | (st, none) => .ok (st, false)
      | (st, some buffer) =>
          if z.zfs_open st buffer = false then .ok (st, false)
          else .ok (set_zfs_properties z ZINT_VERSION_NUMBER st buffer hook)

/-- The snapshot of a path, unless it is not on ZFS. -/
def path_snapshot (ctxt : raw_zfs_context_t) (st : σ) (path : path_to_check_t)
    (snapshot hook : List Char) : Except null_handle (σ × Bool) :=
  if path.fs = none then .ok (st, true)
  else individual_snapshot z ZINT_VERSION_NUMBER ctxt st path.fs snapshot hook

def raw_zfs_snapshot (ctxt : raw_zfs_context_t) (ptc : paths_to_check_t) (st : σ)
    (snapshot hook : List Char) : Except null_handle (σ × Bool) := do
  let (st, ok) ←
    individual_snapshot z ZINT_VERSION_NUMBER ctxt st ptc.root.fs snapshot hook
  if !ok then return (st, false)
  if ctxt.recursive then return (st, true)
  let (st, ok) ← path_snapshot z ZINT_VERSION_NUMBER ctxt st ptc.localbase snapshot hook
  if !ok then return (st, false)
  path_snapshot z ZINT_VERSION_NUMBER ctxt st ptc.pkg_dbdir snapshot hook

variable (ZFS_MAX_DATASET_NAME_LEN : ℕ)

/-- `be_to_fs`: the dataset that was opened. -/
def be_to_fs (st : σ) (be : List Char) : Option (List Char) :=
  match path_join ZFS_MAX_DATASET_NAME_LEN [z.be_root_path, be] with
  | .error _ => none
  | .ok dataset => if z.zfs_open st dataset then some dataset else none

def be_take_snapshot (st : σ) (snapshot hook : List Char) : σ × Bool :=
  match z.be_create st snapshot with
  | (st, false) => (st, false)
  | (st, true) =>
      match be_to_fs z ZFS_MAX_DATASET_NAME_LEN st snapshot with
      | none => (st, false)
      | some fs => set_zfs_properties z ZINT_VERSION_NUMBER st fs hook

/-! ## A method -/

/-- The method that was chosen, and its data. -/
inductive method
  | be_method
  | raw_zfs_method (ctxt : raw_zfs_context_t)
deriving DecidableEq

/-- What a method makes: boot environments, or snapshots. -/
def made (m : method) : σ → List (List Char) :=
  match m with
  | .be_method => z.boot_environments
  | .raw_zfs_method _ => z.snapshots

/-- `method->snapshot` -/
def take_snapshot (m : method) (ptc : paths_to_check_t) (st : σ) (snapshot hook : List Char) :
    Except null_handle (σ × Bool) :=
  match m with
  | .be_method =>
      .ok (be_take_snapshot z ZINT_VERSION_NUMBER ZFS_MAX_DATASET_NAME_LEN st snapshot hook)
  | .raw_zfs_method ctxt => raw_zfs_snapshot z ZINT_VERSION_NUMBER ctxt ptc st snapshot hook

end Functions

/-! ## What a step leaves behind -/

variable {z : libraries σ} {names : σ → List (List Char)} {ZINT_VERSION_NUMBER : UInt64}

/-- What there was is there with the properties that it had, and what is new
carries zint's properties just if `tags`. -/
structure Leaves (z : libraries σ) (names : σ → List (List Char)) (st st' : σ) (tags : Prop) :
    Prop where
  kept : ∀ n ∈ names st, n ∈ names st'
  props : ∀ n ∈ names st, ∀ prop, z.zfs_get_user_props st' n prop = z.zfs_get_user_props st n prop
  tagged : (∀ n ∈ names st', n ∉ names st → Carries z st' n) ↔ tags

theorem Leaves.refl (st : σ) : Leaves z names st st True :=
  ⟨fun _ hn => hn, fun _ _ _ => rfl, iff_true_intro fun _ hn hnot => absurd hn hnot⟩

theorem Leaves.of_same {st st' : σ} (h : Same z st st') (hnames : names st' = names st) :
    Leaves z names st st' True := by
  refine ⟨fun _ hn => hnames.symm ▸ hn, fun m _ => h.props m, iff_true_intro ?_⟩
  intro n hn hnot
  rw [hnames] at hn
  exact absurd hn hnot

theorem Leaves.carries {st st' : σ} {tags : Prop} (h : Leaves z names st st' tags) {n : List Char}
    (hn : n ∈ names st) : Carries z st' n ↔ Carries z st n :=
  carries_congr (h.props n hn)

/-- One step after the other. -/
theorem Leaves.trans {st st' st'' : σ} {tags tags' : Prop} (h : Leaves z names st st' tags)
    (h' : Leaves z names st' st'' tags') : Leaves z names st st'' (tags ∧ tags') := by
  refine ⟨fun n hn => h'.kept n (h.kept n hn), fun n hn prop => ?_, ?_⟩
  · rw [h'.props n (h.kept n hn), h.props n hn]
  · rw [← h.tagged, ← h'.tagged]
    constructor
    · intro hall
      constructor
      · intro n hn hnew
        exact (h'.carries hn).mp (hall n (h'.kept n hn) hnew)
      · exact fun n hn hnew => hall n hn fun hold => hnew (h.kept n hold)
    · rintro ⟨hfirst, hsecond⟩ n hn hnew
      by_cases hn' : n ∈ names st'
      · exact (h'.carries hn').mpr (hfirst n hn' hnew)
      · exact hsecond n hn hn'

/-- What is created, and then only one of the new things is tagged. -/
theorem leaves_of_created {new : List (List Char)} {n : List Char} {st st₁ st' : σ} {tags : Prop}
    (hgrown : Grown z names new st st₁) (hn : n ∈ new) (honly : OnlyOn z names n st₁ st')
    (htags : Carries z st' n ↔ tags) :
    Leaves z names st st' (tags ∧ ∀ m ∈ new, m ≠ n → Carries z st₁ m) := by
  have hmem : ∀ m, m ∈ names st' ↔ m ∈ new ∨ m ∈ names st := by
    intro m
    rw [honly.kept, hgrown.mem]
  refine ⟨fun m hm => (hmem m).mpr (Or.inr hm), fun m hm prop => ?_, ?_⟩
  · have hne : m ≠ n := fun heq => hgrown.fresh n hn (heq ▸ hm)
    rw [honly.other m ((hgrown.mem m).mpr (Or.inr hm)) hne, hgrown.props m hm]
  · rw [← htags]
    have hother : ∀ m ∈ new, m ≠ n → (Carries z st' m ↔ Carries z st₁ m) := fun m hm hne =>
      carries_congr (honly.other m ((hgrown.mem m).mpr (Or.inl hm)) hne)
    constructor
    · intro hall
      have hnew : ∀ m ∈ new, Carries z st' m := fun m hm =>
        hall m ((hmem m).mpr (Or.inl hm)) (hgrown.fresh m hm)
      exact ⟨hnew n hn, fun m hm hne => (hother m hm hne).mp (hnew m hm)⟩
    · rintro ⟨hown, hrest⟩ m hm hnew
      have hm' : m ∈ new := ((hmem m).mp hm).resolve_right hnew
      by_cases hne : m = n
      · exact hne ▸ hown
      · exact (hother m hm' hne).mpr (hrest m hm' hne)

theorem OnlyOn.refl (n : List Char) (st : σ) : OnlyOn z names n st st :=
  ⟨rfl, fun _ _ _ _ => rfl⟩

/-! ## One snapshot -/

/-- What the buffer and `zfs_name_valid` ask of a snapshot. -/
def Requestable (z : libraries σ) (fs snapshot : List Char) : Prop :=
  fs.length + 2 < ZFS_MAX_NAME_LEN ∧ fs.length + snapshot.length + 2 ≤ ZFS_MAX_NAME_LEN
    ∧ z.zfs_name_valid (snapshot_name fs snapshot) = true

/-- The properties of what was created as `n`, if it could be opened. -/
def TaggedIf (z : libraries σ) (ZINT_VERSION_NUMBER : UInt64) (opened : Bool) (st : σ)
    (n hook : List Char) : Prop :=
  if opened then Tagged z ZINT_VERSION_NUMBER st n hook else Carries z st n

instance (z : libraries σ) (ZINT_VERSION_NUMBER : UInt64) (opened : Bool) (st : σ)
    (n hook : List Char) : Decidable (TaggedIf z ZINT_VERSION_NUMBER opened st n hook) :=
  inferInstanceAs (Decidable (ite _ _ _))

/-- The attempt at a filesystem leaves nothing without zint's properties: nothing is
created; or what is created for its descendants inherits them, and its own snapshot
gets them. -/
def Attempt (z : libraries σ) (ZINT_VERSION_NUMBER : UInt64) (recursive : Bool) (st : σ)
    (fs snapshot hook : List Char) : Prop :=
  Requestable z fs snapshot →
    (z.zfs_snapshot st (snapshot_name fs snapshot) recursive).2 = true →
      let st' := (z.zfs_snapshot st (snapshot_name fs snapshot) recursive).1
      TaggedIf z ZINT_VERSION_NUMBER (z.zfs_open st' (snapshot_name fs snapshot)) st'
          (snapshot_name fs snapshot) hook
        ∧ (recursive = true → ∀ child ∈ z.filesystems st, descendant fs child = true →
          Carries z st' (snapshot_name child snapshot))

theorem not_descendant_self (fs : List Char) : descendant fs fs = false := by
  rw [descendant, ← Bool.not_eq_true, List.isPrefixOf_iff_prefix]
  intro h
  have hlen := h.length_le
  rw [List.length_append, List.length_singleton] at hlen
  omega

/-- What is requested besides the snapshot of the filesystem itself. -/
theorem forall_requested_iff {P : List Char → Prop} (st : σ) (fs snapshot : List Char)
    (recursive : Bool) :
    (∀ m ∈ requested z st fs snapshot recursive, m ≠ snapshot_name fs snapshot → P m)
      ↔ (recursive = true → ∀ child ∈ z.filesystems st, descendant fs child = true →
        P (snapshot_name child snapshot)) := by
  unfold requested
  constructor
  · rintro h rfl child hchild hdesc
    refine h _ ?_ fun heq => ?_
    · rw [if_pos rfl]
      exact List.mem_cons_of_mem _
        (List.mem_map_of_mem (List.mem_filter.mpr ⟨hchild, hdesc⟩))
    · rw [snapshot_name_inj heq, not_descendant_self] at hdesc
      exact absurd hdesc (by simp)
  · intro h m hm hne
    rcases List.mem_cons.mp hm with heq | hm
    · exact absurd heq hne
    · cases recursive with
      | false => exact absurd hm (by simp)
      | true =>
          rw [if_pos rfl] at hm
          obtain ⟨child, hchild, rfl⟩ := List.mem_map.mp hm
          rw [List.mem_filter] at hchild
          exact h rfl child hchild.1 hchild.2

theorem uzfs_snapshot_eq {st : σ} {fs scheme : List Char} {recursive : Bool}
    (h : Requestable z fs scheme) :
    uzfs_snapshot z st fs scheme ZFS_MAX_NAME_LEN recursive
      = ((z.zfs_snapshot st (snapshot_name fs scheme) recursive).1,
        if (z.zfs_snapshot st (snapshot_name fs scheme) recursive).2 then
          some (snapshot_name fs scheme) else none) := by
  obtain ⟨hroom, hfits, hvalid⟩ := h
  have h₁ : stpcpy_sp ZFS_MAX_NAME_LEN [] fs = some fs := by
    rw [stpcpy_sp_eq_some_iff]
    simp only [List.nil_append, List.length_nil, true_and]
    omega
  have h₂ : stpcpy_sp ZFS_MAX_NAME_LEN (fs ++ ['@']) scheme = some (snapshot_name fs scheme) := by
    rw [stpcpy_sp_eq_some_iff, List.append_assoc, snapshot_name]
    simp only [List.singleton_append, List.length_append, List.length_cons, List.length_nil,
      true_and]
    omega
  simp only [uzfs_snapshot, h₁, h₂, hvalid, Bool.true_eq_false, if_false]

/-- Without a name nothing is asked for. -/
theorem uzfs_snapshot_not_requestable {st : σ} {fs scheme : List Char} {recursive : Bool}
    (h : ¬ Requestable z fs scheme) :
    uzfs_snapshot z st fs scheme ZFS_MAX_NAME_LEN recursive = (st, none) := by
  unfold uzfs_snapshot
  split
  · rfl
  · rename_i w h₁
    split
    · rfl
    · rename_i name h₂
      obtain ⟨rfl, hroom, hfits⟩ := uzfs_snapshot_name h₁ h₂
      rw [if_pos]
      by_contra hvalid
      exact h ⟨hroom, hfits, by simpa using hvalid⟩

/-- **An attempt at a filesystem** leaves all that it creates with zint's properties
just if `Attempt`. -/
theorem individual_snapshot_leaves (hz : Documented z) (ZINT_VERSION_NUMBER : UInt64)
    (ctxt : raw_zfs_context_t) {st : σ} {fs : List Char} (hfs : fs ∈ z.filesystems st)
    (snapshot hook : List Char) :
    ∃ st' ok, individual_snapshot z ZINT_VERSION_NUMBER ctxt st (some fs) snapshot hook
        = .ok (st', ok)
      ∧ z.filesystems st' = z.filesystems st
      ∧ Leaves z z.snapshots st st'
        (Attempt z ZINT_VERSION_NUMBER ctxt.recursive st fs snapshot hook) := by
  unfold individual_snapshot Attempt
  simp only
  by_cases hreq : Requestable z fs snapshot
  · have hfilesystems := hz.snapshot_filesystems st (snapshot_name fs snapshot) ctxt.recursive
    have hcreates := hz.snapshot_creates st fs snapshot ctxt.recursive hfs
    have hfails := hz.snapshot_fails st (snapshot_name fs snapshot) ctxt.recursive
    rw [uzfs_snapshot_eq hreq]
    generalize z.zfs_snapshot st (snapshot_name fs snapshot) ctxt.recursive = r
      at hfilesystems hcreates hfails
    obtain ⟨st₁, ok⟩ := r
    cases ok with
    | false =>
        -- no snapshot is taken, and nothing has changed
        refine ⟨st₁, false, rfl, hfilesystems, ?_⟩
        simpa using Leaves.of_same (hfails rfl) (hfails rfl).snapshots
    | true =>
        -- the snapshots are there; they are tagged if they can be opened
        have hgrown := hcreates rfl
        have hown : snapshot_name fs snapshot ∈ requested z st fs snapshot ctxt.recursive :=
          List.mem_cons_self
        have hmem : snapshot_name fs snapshot ∈ z.snapshots st₁ :=
          (hgrown.mem _).mpr (Or.inl hown)
        simp only [hreq, if_true, true_implies, TaggedIf,
          ← forall_requested_iff (z := z) st fs snapshot ctxt.recursive]
        cases hopen : z.zfs_open st₁ (snapshot_name fs snapshot) with
        | false =>
            exact ⟨st₁, false, rfl, hfilesystems,
              leaves_of_created hgrown hown (OnlyOn.refl _ st₁) Iff.rfl⟩
        | true =>
            obtain ⟨honly, htags⟩ :=
              set_zfs_properties_spec hz.setting_snapshots ZINT_VERSION_NUMBER hmem hook
            refine ⟨_, _, rfl, ?_, leaves_of_created hgrown hown honly htags⟩
            exact (set_zfs_properties_filesystems hz _ _ _ _).trans hfilesystems
  · refine ⟨st, false, by rw [uzfs_snapshot_not_requestable hreq], rfl, ?_⟩
    simpa [hreq] using Leaves.refl st

/-! ## A call of the raw ZFS method -/

/-- The filesystems that a snapshot is asked for, one after the other. -/
def asked (ctxt : raw_zfs_context_t) (ptc : paths_to_check_t) : List (List Char) :=
  ptc.root.fs.toList
    ++ if ctxt.recursive then [] else ptc.localbase.fs.toList ++ ptc.pkg_dbdir.fs.toList

/-- A loop over filesystems that ends with the first snapshot that fails. -/
def snapshot_all (z : libraries σ) (ZINT_VERSION_NUMBER : UInt64) (ctxt : raw_zfs_context_t)
    (snapshot hook : List Char) : σ → List (List Char) → Except null_handle (σ × Bool)
  | st, [] => .ok (st, true)
  | st, fs :: fss => do
      let (st, ok) ← individual_snapshot z ZINT_VERSION_NUMBER ctxt st (some fs) snapshot hook
      if !ok then return (st, false)
      snapshot_all z ZINT_VERSION_NUMBER ctxt snapshot hook st fss

/-- The attempts that are made: each after those before it succeeded. -/
def Attempts (z : libraries σ) (ZINT_VERSION_NUMBER : UInt64) (ctxt : raw_zfs_context_t)
    (snapshot hook : List Char) : σ → List (List Char) → Prop
  | _, [] => True
  | st, fs :: fss => Attempt z ZINT_VERSION_NUMBER ctxt.recursive st fs snapshot hook
      ∧ ∀ st', individual_snapshot z ZINT_VERSION_NUMBER ctxt st (some fs) snapshot hook
          = .ok (st', true) → Attempts z ZINT_VERSION_NUMBER ctxt snapshot hook st' fss

/-- The loop is that of the library. -/
theorem snapshot_all_eq (ctxt : raw_zfs_context_t) (snapshot hook : List Char)
    (fss : List (List Char)) : ∀ st : σ,
    snapshot_all z ZINT_VERSION_NUMBER ctxt snapshot hook st fss
      = until_fails (fun st fs =>
        individual_snapshot z ZINT_VERSION_NUMBER ctxt st (some fs) snapshot hook) st fss := by
  induction fss with
  | nil => intro st; rfl
  | cons fs fss ih =>
      intro st
      rw [snapshot_all, until_fails_cons]
      refine bind_congr fun r => ?_
      obtain ⟨st₁, ok⟩ := r
      cases ok with
      | false => rfl
      | true => exact ih st₁

theorem snapshot_all_append (ctxt : raw_zfs_context_t) (snapshot hook : List Char)
    (fss fss' : List (List Char)) (st : σ) :
    snapshot_all z ZINT_VERSION_NUMBER ctxt snapshot hook st (fss ++ fss') = (do
      let (st, ok) ← snapshot_all z ZINT_VERSION_NUMBER ctxt snapshot hook st fss
      if !ok then return (st, false)
      snapshot_all z ZINT_VERSION_NUMBER ctxt snapshot hook st fss') := by
  simp only [snapshot_all_eq, until_fails_append]
  refine bind_congr fun r => ?_
  obtain ⟨st₁, ok⟩ := r
  cases ok <;> rfl

theorem snapshot_all_singleton (ctxt : raw_zfs_context_t) (snapshot hook : List Char) (st : σ)
    (fs : List Char) :
    snapshot_all z ZINT_VERSION_NUMBER ctxt snapshot hook st [fs]
      = individual_snapshot z ZINT_VERSION_NUMBER ctxt st (some fs) snapshot hook := by
  rw [snapshot_all_eq, until_fails_singleton]

theorem path_snapshot_eq (ctxt : raw_zfs_context_t) (snapshot hook : List Char) (st : σ)
    (path : path_to_check_t) :
    path_snapshot z ZINT_VERSION_NUMBER ctxt st path snapshot hook
      = snapshot_all z ZINT_VERSION_NUMBER ctxt snapshot hook st path.fs.toList := by
  rw [path_snapshot]
  cases path.fs with
  | none => rfl
  | some fs => rw [if_neg (by simp), Option.toList_some, snapshot_all_singleton]

/-- **`raw_zfs_snapshot`** is a loop over the filesystems that it asks for. -/
theorem raw_zfs_snapshot_eq {ctxt : raw_zfs_context_t} {ptc : paths_to_check_t}
    (hroot : ptc.root.fs.isSome) (st : σ) (snapshot hook : List Char) :
    raw_zfs_snapshot z ZINT_VERSION_NUMBER ctxt ptc st snapshot hook
      = snapshot_all z ZINT_VERSION_NUMBER ctxt snapshot hook st (asked ctxt ptc) := by
  obtain ⟨root, hroot⟩ := Option.isSome_iff_exists.mp hroot
  rw [raw_zfs_snapshot, asked, hroot, Option.toList_some, snapshot_all_append,
    snapshot_all_singleton]
  cases individual_snapshot z ZINT_VERSION_NUMBER ctxt st (some root) snapshot hook with
  | error e => rfl
  | ok r =>
      obtain ⟨st₁, ok⟩ := r
      cases ok with
      | false => rfl
      | true =>
          cases hrec : ctxt.recursive with
          | true => rfl
          | false =>
              simp only [Bool.false_eq_true, if_false, snapshot_all_append, ← path_snapshot_eq]

theorem snapshot_all_leaves (hz : Documented z) (ZINT_VERSION_NUMBER : UInt64)
    (ctxt : raw_zfs_context_t) (snapshot hook : List Char) (fss : List (List Char)) : ∀ st : σ,
    (∀ fs ∈ fss, fs ∈ z.filesystems st) →
      ∃ st' ok, snapshot_all z ZINT_VERSION_NUMBER ctxt snapshot hook st fss = .ok (st', ok)
        ∧ z.filesystems st' = z.filesystems st
        ∧ Leaves z z.snapshots st st'
          (Attempts z ZINT_VERSION_NUMBER ctxt snapshot hook st fss) := by
  induction fss with
  | nil => intro st _; exact ⟨st, true, rfl, rfl, Leaves.refl st⟩
  | cons fs fss ih =>
      intro st hexist
      rw [List.forall_mem_cons] at hexist
      obtain ⟨st₁, ok, hrun, hfilesystems, hleaves⟩ := individual_snapshot_leaves
        hz ZINT_VERSION_NUMBER ctxt hexist.1 snapshot hook
      rw [snapshot_all, hrun]
      cases ok with
      | false =>
          refine ⟨st₁, false, rfl, hfilesystems, ?_⟩
          simpa [Attempts, hrun] using hleaves
      | true =>
          obtain ⟨st₂, ok', hrun', hfilesystems', hleaves'⟩ := ih st₁ fun fs' hfs' =>
            hfilesystems ▸ hexist.2 fs' hfs'
          refine ⟨st₂, ok', hrun', hfilesystems'.trans hfilesystems, ?_⟩
          simpa [Attempts, hrun] using hleaves.trans hleaves'

/-! ## A call of the BE method -/

theorem path_join_copy_ok {size : ℕ} {w w' src : List Char} {expr : String}
    (h : path_join_copy size w expr src = .ok w') : w' = w ++ src := by
  unfold path_join_copy at h
  split at h
  · rename_i w'' hcopy
    rw [Except.ok.injEq] at h
    rw [← h, ((stpcpy_sp_eq_some_iff _ _ _ _).mp hcopy).1]
  · exact absurd h (by simp)

/-- What `be_to_fs` opens is the dataset of the boot environment. -/
theorem be_to_fs_dataset (hroot : z.be_root_path ≠ []) {size : ℕ} {st : σ} {be fs : List Char}
    (h : be_to_fs z size st be = some fs) : fs = be_dataset z be := by
  unfold be_to_fs path_join path_join_loop at h
  cases hfirst : path_join_copy size [] "arg" z.be_root_path with
  | error e => simp [hfirst, bind, Except.bind] at h
  | ok w =>
      have hw := path_join_copy_ok hfirst
      rw [List.nil_append] at hw
      subst hw
      cases hslash : path_join_copy size z.be_root_path "\"/\"" ['/'] with
      | error e => simp [hfirst, hslash, hroot, path_join_loop, bind, Except.bind] at h
      | ok w =>
          have hw := path_join_copy_ok hslash
          subst hw
          cases hbe : path_join_copy size (z.be_root_path ++ ['/']) "arg" be with
          | error e => simp [hfirst, hslash, hbe, hroot, path_join_loop, bind, Except.bind] at h
          | ok w =>
              have hw := path_join_copy_ok hbe
              rw [List.append_assoc] at hw
              subst hw
              simp [hfirst, hslash, hbe, hroot, path_join_loop, bind, Except.bind] at h
              rw [be_dataset, ← h.2]

/-- The attempt at a boot environment leaves none without zint's properties: none is
created, or it gets them. -/
def Creation (z : libraries σ) (ZINT_VERSION_NUMBER : UInt64) (ZFS_MAX_DATASET_NAME_LEN : ℕ)
    (st : σ) (snapshot hook : List Char) : Prop :=
  (z.be_create st snapshot).2 = true →
    let st' := (z.be_create st snapshot).1
    TaggedIf z ZINT_VERSION_NUMBER (be_to_fs z ZFS_MAX_DATASET_NAME_LEN st' snapshot).isSome st'
      (be_dataset z snapshot) hook

/-- **A call of the BE method** leaves the boot environment that it creates with
zint's properties just if `Creation`. -/
theorem be_take_snapshot_leaves (hz : Documented z) (ZINT_VERSION_NUMBER : UInt64)
    (ZFS_MAX_DATASET_NAME_LEN : ℕ) (st : σ) (snapshot hook : List Char) :
    Leaves z z.boot_environments st
      (be_take_snapshot z ZINT_VERSION_NUMBER ZFS_MAX_DATASET_NAME_LEN st snapshot hook).1
      (Creation z ZINT_VERSION_NUMBER ZFS_MAX_DATASET_NAME_LEN st snapshot hook) := by
  have hcreates := hz.be_creates st snapshot
  have hfails := hz.be_fails st snapshot
  unfold be_take_snapshot Creation
  generalize z.be_create st snapshot = r at hcreates hfails
  obtain ⟨st₁, ok⟩ := r
  cases ok with
  | false => simpa using Leaves.of_same (hfails rfl) (hfails rfl).boot_environments
  | true =>
      have hgrown := hcreates rfl
      have hown : be_dataset z snapshot ∈ [be_dataset z snapshot] := List.mem_singleton_self _
      have halone : ∀ {P : Prop}, (P ∧ ∀ m ∈ [be_dataset z snapshot], m ≠ be_dataset z snapshot →
          Carries z st₁ m) ↔ P := by
        simp
      simp only [true_implies, TaggedIf]
      cases hfs : be_to_fs z ZFS_MAX_DATASET_NAME_LEN st₁ snapshot with
      | none =>
          have hleaves := leaves_of_created hgrown hown (OnlyOn.refl _ st₁) Iff.rfl
          rw [halone] at hleaves
          exact hleaves
      | some fs =>
          obtain rfl := be_to_fs_dataset hz.be_root hfs
          have hmem := (hgrown.mem _).mpr (Or.inl hown)
          obtain ⟨honly, htags⟩ :=
            set_zfs_properties_spec hz.setting_boot_environments ZINT_VERSION_NUMBER hmem hook
          have hleaves := leaves_of_created hgrown hown honly htags
          rw [halone] at hleaves
          exact hleaves

/-! ## A call of a method -/

/-- The filesystems of the paths that the raw ZFS method was found suitable for:
`/` is on one, and they exist. -/
def Probed (z : libraries σ) (m : method) (ptc : paths_to_check_t) (st : σ) : Prop :=
  match m with
  | .be_method => True
  | .raw_zfs_method _ => ptc.root.fs.isSome ∧ ∀ fs ∈ ptc.filesystems, fs ∈ z.filesystems st

/-- A call leaves nothing that it makes without zint's properties. -/
def Meets (z : libraries σ) (ZINT_VERSION_NUMBER : UInt64) (ZFS_MAX_DATASET_NAME_LEN : ℕ)
    (m : method) (ptc : paths_to_check_t) (st : σ) (snapshot hook : List Char) : Prop :=
  match m with
  | .be_method => Creation z ZINT_VERSION_NUMBER ZFS_MAX_DATASET_NAME_LEN st snapshot hook
  | .raw_zfs_method ctxt =>
      Attempts z ZINT_VERSION_NUMBER ctxt snapshot hook st (asked ctxt ptc)

theorem asked_subset (ctxt : raw_zfs_context_t) (ptc : paths_to_check_t) :
    asked ctxt ptc ⊆ ptc.filesystems := by
  unfold asked paths_to_check_t.filesystems
  intro fs hfs
  split at hfs
  · rw [List.append_nil] at hfs
    exact List.mem_append_left _ (List.mem_append_left _ hfs)
  · rwa [← List.append_assoc] at hfs

/-- **A call of a method** returns, and leaves what it makes with zint's properties
just if `Meets`. -/
theorem take_snapshot_leaves (hz : Documented z) (ZINT_VERSION_NUMBER : UInt64)
    (ZFS_MAX_DATASET_NAME_LEN : ℕ) {m : method} {ptc : paths_to_check_t} {st : σ}
    (hprobed : Probed z m ptc st) (snapshot hook : List Char) :
    ∃ st' ok, take_snapshot z ZINT_VERSION_NUMBER ZFS_MAX_DATASET_NAME_LEN m ptc st snapshot hook
        = .ok (st', ok)
      ∧ Probed z m ptc st'
      ∧ Leaves z (made z m) st st'
        (Meets z ZINT_VERSION_NUMBER ZFS_MAX_DATASET_NAME_LEN m ptc st snapshot hook) := by
  cases m with
  | be_method =>
      exact ⟨_, _, rfl, trivial,
        be_take_snapshot_leaves hz ZINT_VERSION_NUMBER ZFS_MAX_DATASET_NAME_LEN st snapshot hook⟩
  | raw_zfs_method ctxt =>
      obtain ⟨hroot, hexist⟩ := hprobed
      obtain ⟨st', ok, hrun, hfilesystems, hleaves⟩ := snapshot_all_leaves
        hz ZINT_VERSION_NUMBER ctxt snapshot hook (asked ctxt ptc) st
        fun fs hfs => hexist fs (asked_subset ctxt ptc hfs)
      refine ⟨st', ok, ?_, ⟨hroot, fun fs hfs => hfilesystems.symm ▸ hexist fs hfs⟩, hleaves⟩
      rw [take_snapshot, raw_zfs_snapshot_eq hroot, hrun]

/-! ## Runs -/

/-- The arguments of a call. -/
structure call where
  snapshot : List Char
  hook : List Char
deriving DecidableEq

section Runs

variable (z : libraries σ) (ZINT_VERSION_NUMBER : UInt64) (ZFS_MAX_DATASET_NAME_LEN : ℕ)
  (m : method) (ptc : paths_to_check_t)

/-- The state after some calls, which may fail or not. -/
def run : σ → List call → Except null_handle σ
  | st, [] => .ok st
  | st, c :: calls => do
      let (st, _) ←
        take_snapshot z ZINT_VERSION_NUMBER ZFS_MAX_DATASET_NAME_LEN m ptc st c.snapshot c.hook
      run st calls

/-- What came to be in one of some calls. -/
def Created : σ → List call → List Char → Prop
  | _, [], _ => False
  | st, c :: calls, n => ∃ st' ok,
      take_snapshot z ZINT_VERSION_NUMBER ZFS_MAX_DATASET_NAME_LEN m ptc st c.snapshot c.hook
          = .ok (st', ok)
        ∧ (n ∈ made z m st' ∧ n ∉ made z m st ∨ Created st' calls n)

/-- The calls return, and what they created and is there is recognised as zint's. -/
def Recognised (st : σ) (calls : List call) : Prop :=
  ∃ st', run z ZINT_VERSION_NUMBER ZFS_MAX_DATASET_NAME_LEN m ptc st calls = .ok st'
    ∧ ∀ n ∈ made z m st',
      Created z ZINT_VERSION_NUMBER ZFS_MAX_DATASET_NAME_LEN m ptc st calls n → Carries z st' n

end Runs

/-- What is there before some calls is there after them, with its properties. -/
theorem run_kept (hz : Documented z) (ZINT_VERSION_NUMBER : UInt64) (ZFS_MAX_DATASET_NAME_LEN : ℕ)
    {m : method} {ptc : paths_to_check_t} (calls : List call) : ∀ {st : σ}, Probed z m ptc st →
    ∃ st', run z ZINT_VERSION_NUMBER ZFS_MAX_DATASET_NAME_LEN m ptc st calls = .ok st'
      ∧ ∀ n ∈ made z m st, n ∈ made z m st' ∧ (Carries z st' n ↔ Carries z st n) := by
  induction calls with
  | nil => intro st _; exact ⟨st, rfl, fun n hn => ⟨hn, Iff.rfl⟩⟩
  | cons c calls ih =>
      intro st hprobed
      obtain ⟨st₁, ok, hcall, hprobed₁, hleaves⟩ := take_snapshot_leaves hz ZINT_VERSION_NUMBER
        ZFS_MAX_DATASET_NAME_LEN hprobed c.snapshot c.hook
      obtain ⟨st₂, hrun, hkept⟩ := ih hprobed₁
      refine ⟨st₂, ?_, fun n hn => ?_⟩
      · rw [run, hcall]
        exact hrun
      · obtain ⟨hmem, hcarries⟩ := hkept n (hleaves.kept n hn)
        exact ⟨hmem, hcarries.trans (hleaves.carries hn)⟩

/-- One call more at the front. -/
theorem recognised_cons (hz : Documented z) (ZINT_VERSION_NUMBER : UInt64)
    (ZFS_MAX_DATASET_NAME_LEN : ℕ) {m : method} {ptc : paths_to_check_t} {st : σ}
    (hprobed : Probed z m ptc st) (c : call) :
    ∃ st' ok, take_snapshot z ZINT_VERSION_NUMBER ZFS_MAX_DATASET_NAME_LEN m ptc st c.snapshot
          c.hook = .ok (st', ok)
      ∧ Probed z m ptc st'
      ∧ ∀ calls, Recognised z ZINT_VERSION_NUMBER ZFS_MAX_DATASET_NAME_LEN m ptc st (c :: calls)
        ↔ Meets z ZINT_VERSION_NUMBER ZFS_MAX_DATASET_NAME_LEN m ptc st c.snapshot c.hook
          ∧ Recognised z ZINT_VERSION_NUMBER ZFS_MAX_DATASET_NAME_LEN m ptc st' calls := by
  obtain ⟨st₁, ok, hcall, hprobed₁, hleaves⟩ := take_snapshot_leaves hz ZINT_VERSION_NUMBER
    ZFS_MAX_DATASET_NAME_LEN hprobed c.snapshot c.hook
  refine ⟨st₁, ok, hcall, hprobed₁, fun calls => ?_⟩
  obtain ⟨st₂, hrun, hkept⟩ :=
    run_kept hz ZINT_VERSION_NUMBER ZFS_MAX_DATASET_NAME_LEN calls hprobed₁
  have hrun' : run z ZINT_VERSION_NUMBER ZFS_MAX_DATASET_NAME_LEN m ptc st (c :: calls)
      = .ok st₂ := by
    rw [run, hcall]
    exact hrun
  -- what a run creates is what its first call does, or the others do
  have hcreated : ∀ n, Created z ZINT_VERSION_NUMBER ZFS_MAX_DATASET_NAME_LEN m ptc st (c :: calls) n
      ↔ n ∈ made z m st₁ ∧ n ∉ made z m st
        ∨ Created z ZINT_VERSION_NUMBER ZFS_MAX_DATASET_NAME_LEN m ptc st₁ calls n := by
    intro n
    simp only [Created, hcall, Except.ok.injEq, Prod.mk.injEq]
    constructor
    · rintro ⟨_, _, ⟨rfl, rfl⟩, h⟩
      exact h
    · exact fun h => ⟨st₁, ok, ⟨rfl, rfl⟩, h⟩
  rw [← hleaves.tagged]
  unfold Recognised
  rw [hrun, hrun']
  simp only [Except.ok.injEq, exists_eq_left', hcreated]
  constructor
  · intro hall
    constructor
    · intro n hn hnew
      exact (hkept n hn).2.mp (hall n (hkept n hn).1 (Or.inl ⟨hn, hnew⟩))
    · exact fun n hn hc => hall n hn (Or.inr hc)
  · rintro ⟨hfirst, hrest⟩ n hn hor
    rcases hor with ⟨hn', hnew⟩ | hc
    · exact (hkept n hn').2.mpr (hfirst n hn' hnew)
    · exact hrest n hn hc

/-- **What zint made is recognised as its own** after every call of a run, just if
each call meets the condition in the state that it is made in. -/
theorem snapshots_recognised_iff (hz : Documented z) (ZINT_VERSION_NUMBER : UInt64)
    (ZFS_MAX_DATASET_NAME_LEN : ℕ) (m : method) (ptc : paths_to_check_t) (calls : List call) :
    ∀ st, Probed z m ptc st →
      ((∀ pre, pre <+: calls →
          Recognised z ZINT_VERSION_NUMBER ZFS_MAX_DATASET_NAME_LEN m ptc st pre)
        ↔ ∀ pre c, pre ++ [c] <+: calls → ∀ st',
          run z ZINT_VERSION_NUMBER ZFS_MAX_DATASET_NAME_LEN m ptc st pre = .ok st' →
            Meets z ZINT_VERSION_NUMBER ZFS_MAX_DATASET_NAME_LEN m ptc st' c.snapshot c.hook) := by
  induction calls with
  | nil =>
      intro st _
      refine iff_of_true ?_ ?_
      · intro pre hpre
        rw [List.prefix_nil] at hpre
        subst hpre
        exact ⟨st, rfl, fun _ _ h => h.elim⟩
      · intro pre c hpre
        exact absurd (List.prefix_nil.mp hpre) (by simp)
  | cons c calls ih =>
      intro st hprobed
      obtain ⟨st₁, ok, hcall, hprobed₁, hcons⟩ :=
        recognised_cons hz ZINT_VERSION_NUMBER ZFS_MAX_DATASET_NAME_LEN hprobed c
      have hnow : Recognised z ZINT_VERSION_NUMBER ZFS_MAX_DATASET_NAME_LEN m ptc st [] :=
        ⟨st, rfl, fun _ _ h => h.elim⟩
      rw [forall_prefix_cons, forall_operation_cons, and_iff_right hnow]
      simp only [hcons, run, hcall, Except.ok.injEq, forall_eq']
      -- the condition on the first call doesn't depend on the rest of the run
      have hsplit : (∀ pre, pre <+: calls →
          Meets z ZINT_VERSION_NUMBER ZFS_MAX_DATASET_NAME_LEN m ptc st c.snapshot c.hook
            ∧ Recognised z ZINT_VERSION_NUMBER ZFS_MAX_DATASET_NAME_LEN m ptc st₁ pre)
          ↔ Meets z ZINT_VERSION_NUMBER ZFS_MAX_DATASET_NAME_LEN m ptc st c.snapshot c.hook
            ∧ ∀ pre, pre <+: calls →
              Recognised z ZINT_VERSION_NUMBER ZFS_MAX_DATASET_NAME_LEN m ptc st₁ pre :=
        ⟨fun h => ⟨(h [] List.nil_prefix).1, fun pre hpre => (h pre hpre).2⟩,
          fun h pre hpre => ⟨h.1, h.2 pre hpre⟩⟩
      rw [hsplit]
      exact and_congr_right fun _ => ih st₁ hprobed₁

/-! ## The model without failures -/

/-- A libzfs on a state of filesystems and snapshots alone, without libbe. -/
def of_libzfs (z : Zfs.libzfs) : libraries Zfs.zfs_state where
  filesystems := Zfs.zfs_state.filesystems
  snapshots := Zfs.zfs_state.snapshots
  boot_environments _ := []
  zfs_get_user_props _ _ _ := none
  zfs_name_valid := z.zfs_name_valid
  zfs_snapshot := z.zfs_snapshot
  zfs_open := z.zfs_open
  zfs_prop_set := z.zfs_prop_set
  be_root_path := []
  be_create st _ := (st, false)

section OfLibzfs

variable (z : Zfs.libzfs) (ZINT_VERSION_NUMBER : UInt64)

theorem set_zfs_properties_of_libzfs (st : Zfs.zfs_state) (fs hook : List Char) :
    set_zfs_properties (of_libzfs z) ZINT_VERSION_NUMBER st fs hook
      = RawZfs.set_zfs_properties z ZINT_VERSION_NUMBER.toNat st fs hook := by
  have hset : uzfs_set_prop_numeric (of_libzfs z) st fs RawZfs.ZINT_VERSION_PROPERTY
      ZINT_VERSION_NUMBER = z.zfs_prop_set st fs RawZfs.ZINT_VERSION_PROPERTY
        (Nat.toDigits 10 ZINT_VERSION_NUMBER.toNat) := rfl
  rw [set_zfs_properties, RawZfs.set_zfs_properties, hset]
  rcases z.zfs_prop_set st fs RawZfs.ZINT_VERSION_PROPERTY
    (Nat.toDigits 10 ZINT_VERSION_NUMBER.toNat) with ⟨st₁, ok⟩
  cases ok <;> rfl

theorem individual_snapshot_of_libzfs (ctxt : raw_zfs_context_t) (st : Zfs.zfs_state)
    (fs : Option (List Char)) (snapshot hook : List Char) :
    individual_snapshot (of_libzfs z) ZINT_VERSION_NUMBER ctxt st fs snapshot hook
      = RawZfs.individual_snapshot z ZINT_VERSION_NUMBER.toNat ctxt st fs snapshot hook := by
  cases fs with
  | none => rfl
  | some fs =>
      have hrequest : uzfs_snapshot (of_libzfs z) st fs snapshot ZFS_MAX_NAME_LEN ctxt.recursive
          = Zfs.uzfs_snapshot z st fs snapshot ZFS_MAX_NAME_LEN ctxt.recursive := rfl
      simp only [individual_snapshot, RawZfs.individual_snapshot, hrequest,
        set_zfs_properties_of_libzfs]
      rcases Zfs.uzfs_snapshot z st fs snapshot ZFS_MAX_NAME_LEN ctxt.recursive with ⟨st₁, buffer⟩
      cases buffer <;> rfl

/-- The raw ZFS method over such a state is the one of `PkgPlugins.RawZfs`. -/
theorem raw_zfs_snapshot_of_libzfs (ctxt : raw_zfs_context_t) (ptc : paths_to_check_t)
    (st : Zfs.zfs_state) (snapshot hook : List Char) :
    raw_zfs_snapshot (of_libzfs z) ZINT_VERSION_NUMBER ctxt ptc st snapshot hook
      = RawZfs.raw_zfs_snapshot z ZINT_VERSION_NUMBER.toNat ctxt ptc st snapshot hook := by
  unfold raw_zfs_snapshot RawZfs.raw_zfs_snapshot path_snapshot RawZfs.path_snapshot
  simp only [individual_snapshot_of_libzfs]

end OfLibzfs

/-! ## A pool with properties -/

/-- Filesystems, snapshots and boot environments, and the properties that were set
on them, the last one first. -/
structure pool where
  filesystems : List (List Char)
  snapshots : List (List Char)
  boot_environments : List (List Char)
  props : List ((List Char × List Char) × List Char)
  valid : ∀ fs ∈ filesystems, '@' ∉ fs

namespace pool

def request (st : pool) (fs snapshot : List Char) (recursive : Bool) : List (List Char) :=
  snapshot_name fs snapshot ::
    if recursive then
      (st.filesystems.filter (descendant fs)).map fun child => snapshot_name child snapshot
    else []

def zfs_snapshot (st : pool) (name : List Char) (recursive : Bool) : pool × Bool :=
  let new := st.request (name.takeWhile (· ≠ '@')) (name.dropWhile (· ≠ '@')).tail recursive
  if new.any st.snapshots.contains then (st, false)
  else ({ st with snapshots := new ++ st.snapshots }, true)

def zfs_open (st : pool) (name : List Char) : Bool :=
  st.snapshots.contains name || st.boot_environments.contains name

def zfs_prop_set (st : pool) (name prop value : List Char) : pool × Bool :=
  if st.zfs_open name then ({ st with props := ((name, prop), value) :: st.props }, true)
  else (st, false)

def be_create (st : pool) (be : List Char) : pool × Bool :=
  let dataset := "zroot/ROOT".toList ++ '/' :: be
  if st.boot_environments.contains dataset then (st, false)
  else ({ st with boot_environments := dataset :: st.boot_environments }, true)

end pool

/-- A libzfs and a libbe that keep a pool; nothing is inherited. -/
def pool_libraries : libraries pool where
  filesystems := pool.filesystems
  snapshots := pool.snapshots
  boot_environments := pool.boot_environments
  zfs_get_user_props st n prop := st.props.lookup (n, prop)
  zfs_name_valid name := name.count '@' = 1
  zfs_snapshot := pool.zfs_snapshot
  zfs_open := pool.zfs_open
  zfs_prop_set := pool.zfs_prop_set
  be_root_path := "zroot/ROOT".toList
  be_create := pool.be_create

theorem same_refl (z : libraries σ) (st : σ) : Same z st st := ⟨rfl, rfl, rfl, fun _ _ => rfl⟩

theorem pool_propSet {names : pool → List (List Char)} (st : pool) (n prop value : List Char)
    (hnames : names { st with props := ((n, prop), value) :: st.props } = names st) :
    PropSet pool_libraries names n prop value st
      { st with props := ((n, prop), value) :: st.props } := by
  refine ⟨hnames, List.lookup_cons_self, fun m _ q hne => ?_⟩
  have hkey : ((m, q) == (n, prop)) = false := by
    rw [beq_eq_false_iff_ne, ne_eq, Prod.mk.injEq, not_and_or]
    exact hne
  show List.lookup (m, q) (((n, prop), value) :: st.props) = _
  rw [List.lookup_cons, hkey]
  rfl

theorem pool_libraries_documented : Documented pool_libraries where
  snapshot_fails st name recursive h := by
    simp only [pool_libraries, pool.zfs_snapshot] at h ⊢
    split at h
    case isTrue hany => rw [if_pos hany]; exact same_refl pool_libraries st
    case isFalse => exact absurd h (by simp)
  snapshot_filesystems st name recursive := by
    simp only [pool_libraries, pool.zfs_snapshot]
    split <;> rfl
  snapshot_creates st fs snapshot recursive hfs h := by
    -- the name of the file system is what stands before the `@`
    obtain ⟨htake, hdrop⟩ := RawZfs.split_snapshot_name (st.valid fs hfs) snapshot
    simp only [pool_libraries, pool.zfs_snapshot, htake, hdrop] at h ⊢
    split at h
    case isTrue => exact absurd h (by simp)
    case isFalse hany =>
      rw [if_neg hany]
      refine ⟨fun n => List.mem_append, fun n hn hold => hany ?_, fun _ _ _ => rfl⟩
      exact List.any_eq_true.mpr ⟨n, hn, by simpa using hold⟩
  set_fails st n prop value h := by
    simp only [pool_libraries, pool.zfs_prop_set] at h ⊢
    split at h
    case isTrue => exact absurd h (by simp)
    case isFalse hnot => rw [if_neg hnot]; exact same_refl pool_libraries st
  set_filesystems st n prop value := by
    simp only [pool_libraries, pool.zfs_prop_set]
    split <;> rfl
  set_snapshot st n prop value hn _ := by
    have hopen : st.zfs_open n = true := by
      have hn' : n ∈ st.snapshots := hn
      simp [pool.zfs_open, hn']
    simp only [pool_libraries, pool.zfs_prop_set, hopen]
    exact pool_propSet st n prop value rfl
  set_boot_environment st n prop value hn _ := by
    have hopen : st.zfs_open n = true := by
      have hn' : n ∈ st.boot_environments := hn
      simp [pool.zfs_open, hn']
    simp only [pool_libraries, pool.zfs_prop_set, hopen]
    exact pool_propSet st n prop value rfl
  be_root := by decide
  be_fails st be h := by
    simp only [pool_libraries, pool.be_create] at h ⊢
    split at h
    case isTrue hany => rw [if_pos hany]; exact same_refl pool_libraries st
    case isFalse => exact absurd h (by simp)
  be_creates st be h := by
    simp only [pool_libraries, pool.be_create] at h ⊢
    split at h
    case isTrue => exact absurd h (by simp)
    case isFalse hnot =>
      rw [if_neg hnot]
      refine ⟨fun n => List.mem_cons.trans (by rw [List.mem_singleton]; rfl), fun n hn hold => ?_,
        fun _ _ _ => rfl⟩
      rw [List.mem_singleton.mp hn] at hold
      exact hnot (List.contains_iff_mem.mpr hold)

/-- A pool in which `/` has a filesystem of its own, and `/var` one below it. -/
def zroot : pool where
  filesystems := ["zroot/ROOT/default".toList, "zroot/ROOT/default/var".toList]
  snapshots := []
  boot_environments := ["zroot/ROOT/default".toList]
  props := []
  valid := by simp

/-- The same pool without the filesystem below. -/
def flat : pool where
  filesystems := ["zroot/ROOT/default".toList]
  snapshots := []
  boot_environments := ["zroot/ROOT/default".toList]
  props := []
  valid := by simp

/-- All three paths are on the filesystem of `/`. -/
def rooted : paths_to_check_t where
  root := ⟨some "zroot/ROOT/default".toList, "/".toList⟩
  localbase := ⟨some "zroot/ROOT/default".toList, "/usr/local".toList⟩
  pkg_dbdir := ⟨some "zroot/ROOT/default".toList, "/var/db/pkg".toList⟩

def before_install : call where
  snapshot := "pkg_pre_install_2024-01-01_00:00:00".toList
  hook := "PRE:INSTALL".toList

theorem flat_recognised : Probed pool_libraries (.raw_zfs_method ⟨true⟩) rooted flat
    ∧ ∀ pre, pre <+: [before_install] →
      Recognised pool_libraries 1 256 (.raw_zfs_method ⟨true⟩) rooted flat pre := by
  have hprobed : Probed pool_libraries (.raw_zfs_method ⟨true⟩) rooted flat :=
    ⟨rfl, by decide +kernel⟩
  refine ⟨hprobed, ?_⟩
  refine (snapshots_recognised_iff pool_libraries_documented 1 256 (.raw_zfs_method ⟨true⟩) rooted
    [before_install] flat hprobed).mpr ?_
  rw [forall_operation_cons]
  refine ⟨fun st' hrun => ?_, fun pre c hpre => absurd hpre (by simp)⟩
  rw [run, Except.ok.injEq] at hrun
  subst hrun
  exact ⟨fun _ _ => ⟨by decide +kernel, fun _ => by decide +kernel⟩, fun _ _ => trivial⟩

/-- **A snapshot without properties**: no call fails, but the snapshot of the
filesystem below `/` gets none. -/
theorem below_not_recognised :
    Documented pool_libraries
      ∧ Probed pool_libraries (.raw_zfs_method ⟨true⟩) rooted zroot
      ∧ ¬ ∀ pre, pre <+: [before_install] →
        Recognised pool_libraries 1 256 (.raw_zfs_method ⟨true⟩) rooted zroot pre := by
  have hprobed : Probed pool_libraries (.raw_zfs_method ⟨true⟩) rooted zroot :=
    ⟨rfl, by decide +kernel⟩
  refine ⟨pool_libraries_documented, hprobed, fun hall => ?_⟩
  obtain ⟨st', ok, -, -, hcons⟩ :=
    recognised_cons pool_libraries_documented 1 256 hprobed before_install
  obtain ⟨⟨hattempt, -⟩, -⟩ := (hcons []).mp (hall _ (List.prefix_refl _))
  have hreq : Requestable pool_libraries "zroot/ROOT/default".toList before_install.snapshot :=
    ⟨by decide +kernel, by decide +kernel, by decide +kernel⟩
  obtain ⟨-, hbelow⟩ := hattempt hreq (by decide +kernel)
  have hvar := hbelow rfl "zroot/ROOT/default/var".toList (by decide +kernel) (by decide +kernel)
  exact absurd hvar (by decide +kernel)

end PkgPlugins.TakeSnapshot
