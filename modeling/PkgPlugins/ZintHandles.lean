/-
The handles of zint (`plugins/zfs_integration/`): the prober and its handles on the
filesystems of the paths (`probe.c`), the choice of a method and its data
(`find_backup_method`), and the handles on snapshots and boot environments that a hook, a
listing, a purge and a rollback open, from `pkg_plugin_init` to `pkg_plugin_shutdown`.

ZfsProperties, TakeSnapshot, ListSnapshots and ZintErrors take a handle for the name that it
was opened for. Here it has a number in a ledger too (Handles); the functions do what they
do there, as `method_snapshot_names` and `raw_zfs_list_names` say, and a use of a handle that
was closed is a fault. No allocation fails. The lists are lists, with the operations that
Dlist and DlistSort prove of their code: `iterator_reject` reads the head again after it has
freed it.

Nothing is closed twice or used after it was closed. A handle is never closed if it is on a
snapshot that can't be tagged, or on one that a listing comes by and doesn't list.
-/
import PkgPlugins.Handles
import PkgPlugins.Pkg
import PkgPlugins.ListErrors
import PkgPlugins.SnapshotErrors

set_option autoImplicit false

namespace PkgPlugins.ZintHandles

open PkgPlugins.Handles PkgPlugins.ZfsProperties PkgPlugins.Retention
open PkgPlugins.Pkg (pkg_error_t)
open PkgPlugins.Zfs (ZFS_MAX_NAME_LEN)
open PkgPlugins.RawZfs (bm_code_t raw_zfs_context_t)
open PkgPlugins.WriteOnce (until_fails)
open PkgPlugins.ZintErrors (reporting nvpair_t BE_PROPERTY_CREATION)
open PkgPlugins.ListSnapshots (SNAPSHOT_MAX_NAME_LEN raw_zfs_cast_to_snapshot)

variable {σ : Type}

/-! ## Handles -/

/-- Why a run stops. -/
inductive Fault
  | null
  | closed (h : ℕ)
  | freed
  | diverges
deriving DecidableEq

/-- The reasons other than the use of a handle that isn't open. -/
def Sound (f : Fault) : Prop := ∀ h, f ≠ .closed h

structure uzfs_ptr_t where
  id : ℕ
  name : List Char
deriving DecidableEq

/-- The state of libzfs and libbe, and the ledger. -/
structure world (σ : Type) where
  st : σ
  hs : Ledger

/-- `assert_valid_uzfs_ptr_t` -/
def valid (w : world σ) : Option uzfs_ptr_t → Except Fault uzfs_ptr_t
  | none => .error .null
  | some h => if h.id ∈ w.hs.opened then .ok h else .error (.closed h.id)

def uzfs_wrap (w : world σ) (name : List Char) : uzfs_ptr_t × world σ :=
  (⟨w.hs.next, name⟩, { w with hs := w.hs.acquire })

/-- Closes a handle of any kind. -/
def close (w : world σ) (h : ℕ) : Except Fault (world σ) :=
  match w.hs.release h with
  | none => .error (.closed h)
  | some hs => .ok { w with hs := hs }

def uzfs_close (w : world σ) (h : Option uzfs_ptr_t) : Except Fault (world σ) := do
  let h ← valid w h
  close w h.id

/-! ## The prober -/

/-- What else the plugin asks the system. `statfs` gives the filesystem that a path is on, if
it is one of ZFS; `HAVE_BE` is set by the build. -/
structure system (σ : Type) extends reporting σ where
  libzfs_init : Bool
  libbe_init : Bool
  HAVE_BE : Bool
  localbase : Option (List Char)
  pkg_dbdir : Option (List Char)
  statfs : List Char → Option (List Char)
  zfs_get_pool_name : List Char → Option (List Char)
  be_activate : σ → List Char → Bool → σ × Bool

structure path_to_check_t where
  fs : Option uzfs_ptr_t
  path : List Char

structure paths_to_check_t where
  lh : ℕ
  root : path_to_check_t
  localbase : path_to_check_t
  pkg_dbdir : path_to_check_t

def paths_to_check_t.paths (ptc : paths_to_check_t) : List path_to_check_t :=
  [ptc.root, ptc.localbase, ptc.pkg_dbdir]

def path_to_check_t.names (path : path_to_check_t) : RawZfs.path_to_check_t :=
  ⟨path.fs.map uzfs_ptr_t.name, path.path⟩

/-- The paths, without the handles. -/
def paths_to_check_t.names (ptc : paths_to_check_t) : RawZfs.paths_to_check_t :=
  ⟨ptc.root.names, ptc.localbase.names, ptc.pkg_dbdir.names⟩

section Functions

variable (z : system σ)

/-- `zfs_open` stands for the allocation too. -/
def uzfs_from_name (w : world σ) (name : List Char) : Option uzfs_ptr_t × world σ :=
  if z.zfs_open w.st name then
    let (h, w) := uzfs_wrap w name
    (some h, w)
  else (none, w)

def uzfs_fs_from_file (w : world σ) (path : List Char) : Option uzfs_ptr_t × world σ :=
  match z.statfs path with
  | none => (none, w)
  | some name => uzfs_from_name z w name

/-- `prober_create`. Without a handle on libzfs the one that it closes is null. -/
def prober_create (w : world σ) : Except Fault (Option paths_to_check_t × world σ) :=
  if z.libzfs_init = false then .error .null
  else
    let lh := w.hs.next
    let w := { w with hs := w.hs.acquire }
    match z.localbase, z.pkg_dbdir with
    | some localbase, some pkg_dbdir =>
        let (root_fs, w) := uzfs_fs_from_file z w ['/']
        let (localbase_fs, w) := uzfs_fs_from_file z w localbase
        let (pkg_dbdir_fs, w) := uzfs_fs_from_file z w pkg_dbdir
        .ok (some ⟨lh, ⟨root_fs, ['/']⟩, ⟨localbase_fs, localbase⟩, ⟨pkg_dbdir_fs, pkg_dbdir⟩⟩, w)
    | _, _ => do
        let w ← close w lh
        return (none, w)

/-- The loop of `prober_destroy`. -/
def close_paths : world σ → List path_to_check_t → Except Fault (world σ)
  | w, [] => .ok w
  | w, path :: paths =>
      if path.fs ≠ none then do
        let w ← uzfs_close w path.fs
        close_paths w paths
      else close_paths w paths

def prober_destroy (w : world σ) (ptc : paths_to_check_t) : Except Fault (world σ) := do
  let w ← close_paths w ptc.paths
  close w ptc.lh

/-! ## The choice of a method -/

/-- A method and its data: the handle of libbe, or the memory of the context. -/
inductive method_t
  | be_method (lbh : ℕ)
  | raw_zfs_method (ctxt : raw_zfs_context_t) (data : ℕ)
  | none_method

def uzfs_same_fs (w : world σ) (fs1 fs2 : Option uzfs_ptr_t) : Except Fault Bool := do
  let fs1 ← valid w fs1
  let fs2 ← valid w fs2
  return fs1.name = fs2.name

def be_suitable (w : world σ) (ptc : paths_to_check_t) :
    Except Fault (bm_code_t × Option method_t × world σ) :=
  if ptc.root.fs = none ∨ ptc.localbase.fs = none ∨ ptc.pkg_dbdir.fs = none then
    .ok (.BM_SKIP, none, w)
  else do
    let localbase ← uzfs_same_fs w ptc.root.fs ptc.localbase.fs
    let pkg_dbdir ← uzfs_same_fs w ptc.root.fs ptc.pkg_dbdir.fs
    if !localbase || !pkg_dbdir then return (.BM_SKIP, none, w)
    else if z.libbe_init = false then return (.BM_ERROR, none, w)
    else return (.BM_OK, some (.be_method w.hs.next), { w with hs := w.hs.acquire })

/-- `raw_zfs_suitable`, with the context that it allocates. -/
def raw_zfs_suitable (w : world σ) (ptc : paths_to_check_t) :
    Except Fault (bm_code_t × Option method_t × world σ) :=
  match RawZfs.raw_zfs_suitable z.zfs_get_pool_name ptc.names with
  | .error .mk => .error .null
  | .ok (code, none) => .ok (code, none, w)
  | .ok (code, some ctxt) =>
      .ok (code, some (.raw_zfs_method ctxt w.hs.next), { w with hs := w.hs.acquire })

def none_suitable (w : world σ) (_ptc : paths_to_check_t) :
    Except Fault (bm_code_t × Option method_t × world σ) := .ok (.BM_OK, some .none_method, w)

/-- `method->fini` -/
def fini (w : world σ) : method_t → Except Fault (world σ)
  | .be_method lbh => close w lbh
  | .raw_zfs_method _ data => close w data
  | .none_method => .ok w

def available_methods :
    List (world σ → paths_to_check_t → Except Fault (bm_code_t × Option method_t × world σ)) :=
  (if z.HAVE_BE then [be_suitable z] else []) ++ [raw_zfs_suitable z, none_suitable]

/-- The loop of `find_backup_method`. -/
def find_loop (ptc : paths_to_check_t) : world σ →
    List (world σ → paths_to_check_t → Except Fault (bm_code_t × Option method_t × world σ)) →
      Except Fault (pkg_error_t × Option method_t × world σ)
  | w, [] => .ok (.EPKG_OK, none, w)
  | w, suitable :: methods => do
      let (bm_status, method, w) ← suitable w ptc
      match bm_status with
      | .BM_OK => return (.EPKG_OK, method, w)
      | .BM_ERROR => return (.EPKG_FATAL, none, w)
      | .BM_SKIP => find_loop ptc w methods

def find_backup_method (w : world σ) (ptc : paths_to_check_t) :
    Except Fault (pkg_error_t × Option method_t × world σ) :=
  find_loop ptc w (available_methods z)

/-! ## Snapshots -/

variable (ZINT_VERSION_NUMBER : UInt64)

/-- `uzfs_snapshot`, for the name that a handle was opened for. -/
def uzfs_snapshot (st : σ) (fs snapshot : List Char) (recursive : Bool) :
    σ × Option (List Char) :=
  if z.zfs_get_handle st fs = false then (st, none)
  else TakeSnapshot.uzfs_snapshot z.tolibraries st fs snapshot ZFS_MAX_NAME_LEN recursive

/-- `individual_snapshot`: the handle on a snapshot that can't be tagged stays open. -/
def individual_snapshot (ctxt : raw_zfs_context_t) (snapshot hook : List Char) (w : world σ)
    (fs : Option uzfs_ptr_t) : Except Fault (world σ × Bool) := do
  let fs ← valid w fs
  match uzfs_snapshot z w.st fs.name snapshot ctxt.recursive with
  | (st, none) => return ({ w with st := st }, false)
  | (st, some buffer) =>
      match uzfs_from_name z { w with st := st } buffer with
      | (none, w) => return (w, false)
      | (some snap, w) => do
          let snap ← valid w snap
          match set_zfs_properties z.tolibraries ZINT_VERSION_NUMBER w.st snap.name hook with
          | (st, false) => return ({ w with st := st }, false)
          | (st, true) => do
              let w ← uzfs_close { w with st := st } snap
              return (w, true)

/-- The handles that `raw_zfs_snapshot` takes a snapshot of: that of `/`, and if it isn't
recursive those of the other paths on ZFS. -/
def asked (ctxt : raw_zfs_context_t) (ptc : paths_to_check_t) : List (Option uzfs_ptr_t) :=
  ptc.root.fs :: if ctxt.recursive then []
    else [ptc.localbase.fs, ptc.pkg_dbdir.fs].filter fun fs => fs ≠ none

def raw_zfs_snapshot (ctxt : raw_zfs_context_t) (w : world σ) (ptc : paths_to_check_t)
    (snapshot hook : List Char) : Except Fault (world σ × Bool) :=
  until_fails (individual_snapshot z ZINT_VERSION_NUMBER ctxt snapshot hook) w (asked ctxt ptc)

variable (ZFS_MAX_DATASET_NAME_LEN : ℕ)

def be_to_fs (w : world σ) (be : List Char) : Option uzfs_ptr_t × world σ :=
  match Buffers.path_join ZFS_MAX_DATASET_NAME_LEN [z.be_root_path, be] with
  | .error _ => (none, w)
  | .ok dataset => uzfs_from_name z w dataset

def be_take_snapshot (w : world σ) (snapshot hook : List Char) :
    Except Fault (world σ × Bool) :=
  match z.be_create w.st snapshot with
  | (st, false) => .ok ({ w with st := st }, false)
  | (st, true) =>
      match be_to_fs z ZFS_MAX_DATASET_NAME_LEN { w with st := st } snapshot with
      | (none, w) => .ok (w, false)
      | (some fs, w) => do
          let fs ← valid w fs
          let (st, ok) := set_zfs_properties z.tolibraries ZINT_VERSION_NUMBER w.st fs.name hook
          let w ← uzfs_close { w with st := st } fs
          return (w, ok)

/-- `method->snapshot` -/
def method_snapshot (m : method_t) (w : world σ) (ptc : paths_to_check_t)
    (snapshot hook : List Char) : Except Fault (world σ × Bool) :=
  match m with
  | .be_method _ =>
      be_take_snapshot z ZINT_VERSION_NUMBER ZFS_MAX_DATASET_NAME_LEN w snapshot hook
  | .raw_zfs_method ctxt _ => raw_zfs_snapshot z ZINT_VERSION_NUMBER ctxt w ptc snapshot hook
  | .none_method => .ok (w, true)

/-! ## Lists of snapshots -/

/-- A snapshot with its handle. -/
structure snapshot_t extends Purge.snapshot_t where
  fs : Option uzfs_ptr_t

def snapshot_destroy (w : world σ) (snap : snapshot_t) : Except Fault (world σ) :=
  if snap.fs ≠ none then uzfs_close w snap.fs else .ok w

/-- `dlist_clear`, with `snapshot_destroy` for each element. -/
def dlist_clear : world σ → List snapshot_t → Except Fault (world σ)
  | w, [] => .ok w
  | w, snap :: l => do
      let w ← snapshot_destroy w snap
      dlist_clear w l

variable (name_to_hook : List Char → ℤ) (fuel : ℕ)

/-- The callback of `raw_zfs_list` on a handle that libzfs has opened; one that it doesn't put
into the list stays open. -/
def snaphosts_iter_callback_build_array (w : world σ) (l : List snapshot_t) (fs : uzfs_ptr_t) :
    Except Fault ((world σ × List snapshot_t) × Bool) := do
  let fs ← valid w fs
  match has_zfs_properties z.tolibraries ZINT_VERSION_NUMBER fuel w.st fs.name with
  | none => .error .diverges
  | some (st, none) => return (({ w with st := st }, l), true)
  | some (st, some (hook, version)) =>
      match raw_zfs_cast_to_snapshot z.toaccess st fs.name (name_to_hook hook) version with
      | none => return (({ w with st := st }, l), false)
      | some snap => return (({ w with st := st }, l ++ [⟨snap, some fs⟩]), true)

def snaphosts_iter_callback_callback (r : world σ × List snapshot_t) (snap : List Char) :
    Except Fault ((world σ × List snapshot_t) × Bool) :=
  let (snapshot, w) := uzfs_wrap r.1 snap
  snaphosts_iter_callback_build_array z ZINT_VERSION_NUMBER name_to_hook fuel w r.2 snapshot

/-- `uzfs_iter_snapshots`: it fails if a callback does, or libzfs. -/
def uzfs_iter_snapshots (w : world σ) (fs : Option uzfs_ptr_t) :
    Except Fault ((world σ × List snapshot_t) × Bool) := do
  let fs ← valid w fs
  let (r, ok) ← until_fails
    (snaphosts_iter_callback_callback z ZINT_VERSION_NUMBER name_to_hook fuel) (w, [])
    (z.zfs_iter_snapshots w.st fs.name)
  return (r, ok && z.zfs_iter_ends r.1.st fs.name)

/-- The handle that the table of `raw_zfs_list` holds under a name: the first one put. -/
def handle_of (ptc : paths_to_check_t) (name : List Char) : Option uzfs_ptr_t :=
  (ptc.paths.filterMap path_to_check_t.fs).find? fun fs => fs.name = name

theorem handle_of_name {ptc : paths_to_check_t} {name : List Char} {h : uzfs_ptr_t}
    (hh : handle_of ptc name = some h) : h.name = name := by
  have hname := List.find?_some hh
  exact of_decide_eq_true hname

/-- The body of the loop over the table. -/
def list_filesystem (ptc : paths_to_check_t) (r : world σ × List (List snapshot_t))
    (fs : List Char) : Except Fault ((world σ × List (List snapshot_t)) × Bool) := do
  let ((w, snapshots), ok) ←
    uzfs_iter_snapshots z ZINT_VERSION_NUMBER name_to_hook fuel r.1 (handle_of ptc fs)
  return ((w, r.2 ++ [snapshots]), ok)

def raw_zfs_list (w : world σ) (ptc : paths_to_check_t) :
    Except Fault ((world σ × List (List snapshot_t)) × Bool) :=
  match ListSnapshots.probed ptc.names with
  | .error _ => .error .diverges
  | .ok fss =>
      until_fails (list_filesystem z ZINT_VERSION_NUMBER name_to_hook fuel ptc) (w, []) fss

/-- `be_cast_to_snapshot` -/
def be_cast_to_snapshot (bepair : nvpair_t) (hook : ℤ) (version : ℕ) :
    Option Purge.snapshot_t :=
  if SNAPSHOT_MAX_NAME_LEN ≤ bepair.nvpair_name.length then none
  else
    match (bepair.dsprops.lookup BE_PROPERTY_CREATION).bind numeric with
    | none => none
    | some creation =>
        some ⟨String.ofList bepair.nvpair_name, UInt64.ofNat creation, hook, UInt64.ofNat version⟩

/-- The body of the loop of `be_list`; the call that would close a handle is left out of the
build. -/
def list_be (r : world σ × List snapshot_t) (cur : nvpair_t) :
    Except Fault ((world σ × List snapshot_t) × Bool) :=
  match be_to_fs z ZFS_MAX_DATASET_NAME_LEN r.1 cur.nvpair_name with
  | (none, w) => .ok ((w, r.2), false)
  | (some fs, w) => do
      let fs ← valid w fs
      match has_zfs_properties z.tolibraries ZINT_VERSION_NUMBER fuel w.st fs.name with
      | none => .error .diverges
      | some (st, none) => return (({ w with st := st }, r.2), true)
      | some (st, some (hook, version)) =>
          match be_cast_to_snapshot cur (name_to_hook hook) version with
          | none => return (({ w with st := st }, r.2), false)
          | some snap => return (({ w with st := st }, r.2 ++ [⟨snap, some fs⟩]), true)

def be_list (w : world σ) : Except Fault ((world σ × List (List snapshot_t)) × Bool) :=
  if z.be_prop_list_alloc w.st = false then .ok ((w, [[]]), false)
  else
    match z.be_get_bootenv_props w.st with
    | none => .ok ((w, [[]]), false)
    | some props => do
        let ((w, bes), ok) ← until_fails
          (list_be z ZINT_VERSION_NUMBER ZFS_MAX_DATASET_NAME_LEN name_to_hook fuel) (w, []) props
        return ((w, [bes]), ok)

/-- `method->list` -/
def method_list (m : method_t) (w : world σ) (ptc : paths_to_check_t) :
    Except Fault ((world σ × List (List snapshot_t)) × Bool) :=
  match m with
  | .be_method _ =>
      be_list z ZINT_VERSION_NUMBER ZFS_MAX_DATASET_NAME_LEN name_to_hook fuel w
  | .raw_zfs_method _ _ => raw_zfs_list z ZINT_VERSION_NUMBER name_to_hook fuel w ptc
  | .none_method => .ok ((w, []), true)

/-! ## A purge -/

def uzfs_filesystem_destroy (st : σ) (fs : List Char) : σ × Bool :=
  if z.zfs_get_handle st fs = false then (st, false)
  else ListSnapshots.uzfs_filesystem_destroy z.toaccess st fs

/-- `raw_zfs_destroy`: the handle of a snapshot that was destroyed is closed and null. -/
def raw_zfs_destroy (w : world σ) (snap : snapshot_t) :
    Except Fault (snapshot_t × world σ × Bool) := do
  let fs ← valid w snap.fs
  match uzfs_filesystem_destroy z w.st fs.name with
  | (st, false) => return (snap, { w with st := st }, false)
  | (st, true) => do
      let w ← uzfs_close { w with st := st } snap.fs
      return ({ snap with fs := none }, w, true)

def be_destroy_snapshot (w : world σ) (snap : snapshot_t) :
    Except Fault (snapshot_t × world σ × Bool) :=
  let (st, ok) := z.be_destroy w.st snap.name.toList
  .ok (snap, { w with st := st }, ok)

/-- `method->destroy` -/
def method_destroy (m : method_t) (w : world σ) (snap : snapshot_t) :
    Except Fault (snapshot_t × world σ × Bool) :=
  match m with
  | .be_method _ => be_destroy_snapshot z w snap
  | .raw_zfs_method _ _ => raw_zfs_destroy z w snap
  | .none_method => .ok (snap, w, true)

/-- `dlist_sort(l2, snapshot_compare_by_creation_date_desc)` -/
def sort (l2 : List snapshot_t) : List snapshot_t :=
  BubbleSort.sort (Dlist.exchanges fun a b : snapshot_t =>
    Purge.snapshot_compare_by_creation_date_desc a.tosnapshot_t b.tosnapshot_t) l2

/-- `iterator_reject(it2, retention_filter_callback, fcd)`, from an element that is the head or
not: what is removed is destroyed. -/
def reject : Bool → world σ → filter_callback_data_t → List snapshot_t →
    Except Fault (List snapshot_t × world σ × filter_callback_data_t)
  | _, w, fcd, [] => .ok ([], w, fcd)
  | head, w, fcd, snap :: l => do
      let (keep, fcd) := retention_filter_callback snap.creation fcd
      if keep then do
        if head then .error .freed
        let w ← snapshot_destroy w snap
        reject false w fcd l
      else do
        let (l, w, fcd) ← reject false w fcd l
        return (snap :: l, w, fcd)

/-- The last loop of `purge_snapshots`, on the elements from the tail on. -/
def destroy_loop (m : method_t) : world σ → List snapshot_t →
    Except Fault (List snapshot_t × world σ × Bool)
  | w, [] => .ok ([], w, true)
  | w, snap :: l => do
      let (snap, w, ok) ← method_destroy z m w snap
      if ok then do
        let (l, w, ok) ← destroy_loop m w l
        return (snap :: l, w, ok)
      else return (snap :: l, w, false)

/-- The body of the loop over the filesystems. -/
def purge_filesystem (m : method_t) (fcd : filter_callback_data_t) (w : world σ)
    (l2 : List snapshot_t) :
    Except Fault (List snapshot_t × world σ × filter_callback_data_t × Bool) := do
  let fcd := retention_filter_callback_data_reset fcd
  let (l2, w, fcd) ← reject true w fcd (sort l2)
  let (l2, w, ok) ← destroy_loop z m w l2.reverse
  return (l2.reverse, w, fcd, ok)

def purge_loop (m : method_t) : filter_callback_data_t → world σ → Bool →
    List (List snapshot_t) → Except Fault (List (List snapshot_t) × world σ × Bool)
  | _, w, ok, [] => .ok ([], w, ok)
  | fcd, w, _, l2 :: l => do
      let (l2, w, fcd, ok) ← purge_filesystem z m fcd w l2
      let (l, w, ok) ← purge_loop m fcd w ok l
      return (l2 :: l, w, ok)

/-- `purge_snapshots(retention, limit, error)`, with the `dlist_clear` at its end, which
destroys each of the lists. -/
def purge_snapshots (m : method_t) (retention : retention_type_t) (limit : UInt64) (w : world σ)
    (ptc : paths_to_check_t) : Except Fault (world σ × Bool) := do
  let fcd := retention_filter_callback_data_create retention limit
  let ((w, l), ok) ←
    method_list z ZINT_VERSION_NUMBER ZFS_MAX_DATASET_NAME_LEN name_to_hook fuel m w ptc
  let (l, w, ok) ← if ok then purge_loop z m fcd w false l else .ok (l, w, false)
  let w ← dlist_clear w l.flatten
  return (w, ok)

/-! ## A rollback -/

/-- `method->rollback_to` -/
def method_rollback_to (m : method_t) (w : world σ) (snap : snapshot_t) (temporary : Bool) :
    world σ × Bool :=
  match m with
  | .be_method _ =>
      let (st, ok) := z.be_activate w.st snap.name.toList temporary
      ({ w with st := st }, ok)
  | .raw_zfs_method _ _ => (w, true)
  | .none_method => (w, true)

/-- The loop of `pkg_zint_main`: the lists after it, and whether it gets to its end. -/
def rollback_loop (m : method_t) (dry_run temporary : Bool) : world σ →
    List (List snapshot_t) → List (List snapshot_t) × world σ × Bool
  | w, [] => ([], w, true)
  | w, l2 :: l =>
      match sort l2 with
      | [] => ([] :: l, w, false)
      | last :: l2 =>
          let (w, ok) := if dry_run then (w, true) else method_rollback_to z m w last temporary
          if ok then
            let (l, w, ok) := rollback_loop m dry_run temporary w l
            ((last :: l2) :: l, w, ok)
          else ((last :: l2) :: l, w, false)

/-- `pkg zint rollback` -/
def rollback (m : method_t) (dry_run temporary : Bool) (w : world σ) (ptc : paths_to_check_t) :
    Except Fault (world σ × Bool) := do
  let ((w, l), ok) ←
    method_list z ZINT_VERSION_NUMBER ZFS_MAX_DATASET_NAME_LEN name_to_hook fuel m w ptc
  let (l, w, ok) := if ok then rollback_loop z m dry_run temporary w l else (l, w, false)
  let w ← dlist_clear w l.flatten
  return (w, ok)

/-! ## The life of the plugin -/

/-- `ptc` and `method` with `method_data`. -/
structure plugin_t where
  ptc : Option paths_to_check_t
  method : Option method_t

/-- `pkg_plugin_init`, once the hooks are registered: without a prober the status is the one
of the last hook. -/
def pkg_plugin_init (retention : retention_type_t) (limit : UInt64) (st : σ) :
    Except Fault (world σ × plugin_t × pkg_error_t) := do
  let (ptc, w) ← prober_create z ⟨st, Ledger.empty⟩
  match ptc with
  | none => return (w, ⟨none, none⟩, .EPKG_OK)
  | some ptc => do
      match ← find_backup_method z w ptc with
      | (.EPKG_OK, none, _) => .error .null
      | (.EPKG_OK, some m, w) => do
          let (w, _) ← purge_snapshots z ZINT_VERSION_NUMBER ZFS_MAX_DATASET_NAME_LEN name_to_hook
            fuel m retention limit w ptc
          return (w, ⟨some ptc, some m⟩, .EPKG_OK)
      | (status, method, w) => return (w, ⟨some ptc, method⟩, status)

def pkg_plugin_shutdown (w : world σ) (p : plugin_t) : Except Fault (world σ) := do
  let w ← match p.method with
    | none => .ok w
    | some m => fini w m
  match p.ptc with
  | none => .ok w
  | some ptc => prober_destroy w ptc

/-- What pkg calls the plugin for: a hook that takes a snapshot, or `pkg zint rollback`. -/
inductive call_t
  | hook (snapshot hook : List Char)
  | rollback (dry_run temporary : Bool)

def call (m : method_t) (ptc : paths_to_check_t) (w : world σ) (c : call_t) :
    Except Fault (world σ × Bool) :=
  match c with
  | .hook snapshot hook =>
      method_snapshot z ZINT_VERSION_NUMBER ZFS_MAX_DATASET_NAME_LEN m w ptc snapshot hook
  | .rollback dry_run temporary =>
      rollback z ZINT_VERSION_NUMBER ZFS_MAX_DATASET_NAME_LEN name_to_hook fuel m dry_run temporary
        w ptc

/-- The calls one after the other, whatever they return. Without a method `method` is null. -/
def calls (p : plugin_t) : world σ → List call_t → Except Fault (world σ)
  | w, [] => .ok w
  | w, c :: cs =>
      match p.ptc, p.method with
      | some ptc, some m => do
          let (w, _) ←
            call z ZINT_VERSION_NUMBER ZFS_MAX_DATASET_NAME_LEN name_to_hook fuel m ptc w c
          calls p w cs
      | _, _ => .error .null

/-- **The life of the plugin**: it is called if `pkg_plugin_init` returns `EPKG_OK`, and shut
down in the end. -/
def session (retention : retention_type_t) (limit : UInt64) (st : σ) (cs : List call_t) :
    Except Fault (world σ) := do
  let (w, p, status) ← pkg_plugin_init z ZINT_VERSION_NUMBER ZFS_MAX_DATASET_NAME_LEN name_to_hook
    fuel retention limit st
  let w ← if status = .EPKG_OK then
      calls z ZINT_VERSION_NUMBER ZFS_MAX_DATASET_NAME_LEN name_to_hook fuel p w cs
    else .ok w
  pkg_plugin_shutdown w p

end Functions

end PkgPlugins.ZintHandles
