/-
The layer over libzfs (`plugins/zfs_integration/zfs.c`), as far as taking a
snapshot goes.

libzfs is not part of the repository: its functions are a parameter, over a state
that holds the filesystems and the snapshots there are. What is used of them is
their documented behaviour (`Documented`): a request for snapshots that don't
exist yet creates all of them, a request that includes an existing one fails, a
recursive request includes the descendants of the filesystem, and a pool, where it is
known, is the start of the filesystem's name.
-/
import PkgPlugins.Buffers

set_option autoImplicit false

namespace PkgPlugins.Zfs

open PkgPlugins.Buffers

/-! ## libzfs -/

/-- The names of the filesystems, which contain no `@`, and those of the snapshots. -/
structure zfs_state where
  filesystems : List (List Char)
  snapshots : List (List Char)
  valid : ∀ fs ∈ filesystems, '@' ∉ fs

/-- The functions of libzfs that are called, on a filesystem or a snapshot by its name:
the name of its pool or `NULL`, whether a name is valid, whether `zfs_snapshot`
returns 0, whether `zfs_open` finds it, and whether `zfs_prop_set` returns 0. -/
structure libzfs where
  zfs_get_pool_name : List Char → Option (List Char)
  zfs_name_valid : List Char → Bool
  zfs_snapshot : zfs_state → List Char → Bool → zfs_state × Bool
  zfs_open : zfs_state → List Char → Bool
  zfs_prop_set : zfs_state → List Char → List Char → List Char → zfs_state × Bool

/-- `FILESYSTEM@SNAPSHOT`. -/
def snapshot_name (fs snapshot : List Char) : List Char := fs ++ '@' :: snapshot

/-- Whether a filesystem is below another. -/
def descendant (fs child : List Char) : Bool := (fs ++ ['/']).isPrefixOf child

/-- The snapshots a request asks for. -/
def requested (st : zfs_state) (fs snapshot : List Char) (recursive : Bool) : List (List Char) :=
  snapshot_name fs snapshot ::
    if recursive then
      (st.filesystems.filter (descendant fs)).map (fun child => snapshot_name child snapshot)
    else []

/-- The documented behaviour of libzfs. -/
structure Documented (z : libzfs) : Prop where
  pools : ∀ fs pool, z.zfs_get_pool_name fs = some pool → pool = fs.takeWhile (· ≠ '/')
  creates : ∀ st fs snapshot recursive, fs ∈ st.filesystems →
    z.zfs_name_valid (snapshot_name fs snapshot) = true →
    (∀ n ∈ requested st fs snapshot recursive, n ∉ st.snapshots) →
    (z.zfs_snapshot st (snapshot_name fs snapshot) recursive).2 = true
      ∧ (z.zfs_snapshot st (snapshot_name fs snapshot) recursive).1.filesystems = st.filesystems
      ∧ ∀ n, n ∈ (z.zfs_snapshot st (snapshot_name fs snapshot) recursive).1.snapshots
          ↔ n ∈ requested st fs snapshot recursive ∨ n ∈ st.snapshots
  exists_fails : ∀ st fs snapshot recursive, fs ∈ st.filesystems →
    (∃ n ∈ requested st fs snapshot recursive, n ∈ st.snapshots) →
    (z.zfs_snapshot st (snapshot_name fs snapshot) recursive).2 = false
  opens : ∀ st n, z.zfs_open st n = true ↔ n ∈ st.snapshots
  sets : ∀ st n prop value, n ∈ st.snapshots → (z.zfs_prop_set st n prop value).2 = true
    ∧ (z.zfs_prop_set st n prop value).1.filesystems = st.filesystems
    ∧ (z.zfs_prop_set st n prop value).1.snapshots = st.snapshots

/-! ## The functions -/

def ZFS_MAX_NAME_LEN : ℕ := 256

/-- `uzfs_same_pool`: where a pool is not known, it is not the same. -/
def uzfs_same_pool (zfs_get_pool_name : List Char → Option (List Char)) (fs1 fs2 : List Char) :
    Bool :=
  match zfs_get_pool_name fs1, zfs_get_pool_name fs2 with
  | some pool1_name, some pool2_name => pool1_name = pool2_name
  | _, _ => false

/-- Two filesystems are on the same pool just if their pools are known and their names
start with the same component. -/
theorem uzfs_same_pool_iff {z : libzfs} (hz : Documented z) (fs1 fs2 : List Char) :
    uzfs_same_pool z.zfs_get_pool_name fs1 fs2 = true
      ↔ (z.zfs_get_pool_name fs1).isSome ∧ (z.zfs_get_pool_name fs2).isSome
        ∧ fs1.takeWhile (· ≠ '/') = fs2.takeWhile (· ≠ '/') := by
  unfold uzfs_same_pool
  cases h1 : z.zfs_get_pool_name fs1 with
  | none => simp
  | some pool1_name =>
      cases h2 : z.zfs_get_pool_name fs2 with
      | none => simp
      | some pool2_name =>
          rw [← hz.pools fs1 pool1_name h1, ← hz.pools fs2 pool2_name h2]
          simp

/-- `uzfs_snapshot`, for a scheme that is not passed to `strftime(3)`: the state
after it, and the name in the buffer if it succeeds. -/
def uzfs_snapshot (z : libzfs) (st : zfs_state) (filesystem scheme : List Char) (name_size : ℕ)
    (recursive : Bool) : zfs_state × Option (List Char) :=
  match stpcpy_sp name_size [] filesystem with
  | none => (st, none)
  | some w =>
      match stpcpy_sp name_size (w ++ ['@']) scheme with
      | none => (st, none)
      | some name =>
          if z.zfs_name_valid name = false then (st, none)
          else
            let (st, ok) := z.zfs_snapshot st name recursive
            (st, if ok then some name else none)

/-- What the buffer and `zfs_name_valid` ask of a snapshot. -/
def Requestable (z : libzfs) (fs snapshot : List Char) : Prop :=
  fs.length + 2 < ZFS_MAX_NAME_LEN ∧ fs.length + snapshot.length + 2 ≤ ZFS_MAX_NAME_LEN
    ∧ z.zfs_name_valid (snapshot_name fs snapshot) = true

/-- The snapshots a request asks for don't exist yet. -/
def Fresh (st : zfs_state) (fs snapshot : List Char) (recursive : Bool) : Prop :=
  ∀ n ∈ requested st fs snapshot recursive, n ∉ st.snapshots

/-- The name a request puts into its buffer. -/
theorem uzfs_snapshot_name {size : ℕ} {fs scheme name w : List Char}
    (h₁ : stpcpy_sp size [] fs = some w) (h₂ : stpcpy_sp size (w ++ ['@']) scheme = some name) :
    name = snapshot_name fs scheme ∧ fs.length + 2 < size
      ∧ fs.length + scheme.length + 2 ≤ size := by
  rw [stpcpy_sp_eq_some_iff] at h₁ h₂
  obtain ⟨rfl, -, -⟩ := h₁
  obtain ⟨rfl, hroom, hfits⟩ := h₂
  simp only [List.length_append, List.length_cons, List.length_nil] at hroom hfits
  refine ⟨?_, by omega, by omega⟩
  rw [List.append_assoc, snapshot_name]
  rfl

/-- **A request that can be made and asks for nothing that exists** succeeds, and
adds what it asks for. -/
theorem uzfs_snapshot_succeeds {z : libzfs} (hz : Documented z) {st : zfs_state}
    {fs scheme : List Char} {recursive : Bool} (hfs : fs ∈ st.filesystems)
    (hreq : Requestable z fs scheme) (hfresh : Fresh st fs scheme recursive) :
    ∃ st', uzfs_snapshot z st fs scheme ZFS_MAX_NAME_LEN recursive
        = (st', some (snapshot_name fs scheme))
      ∧ st'.filesystems = st.filesystems
      ∧ ∀ n, n ∈ st'.snapshots ↔ n ∈ requested st fs scheme recursive ∨ n ∈ st.snapshots := by
  obtain ⟨hroom, hfits, hvalid⟩ := hreq
  obtain ⟨hok, hfilesystems, hsnapshots⟩ := hz.creates st fs scheme recursive hfs hvalid hfresh
  have h₁ : stpcpy_sp ZFS_MAX_NAME_LEN [] fs = some fs := by
    rw [stpcpy_sp_eq_some_iff]
    simp only [List.nil_append, List.length_nil, true_and]
    omega
  have h₂ : stpcpy_sp ZFS_MAX_NAME_LEN (fs ++ ['@']) scheme = some (snapshot_name fs scheme) := by
    rw [stpcpy_sp_eq_some_iff, List.append_assoc, snapshot_name]
    simp only [List.singleton_append, List.length_append, List.length_cons, List.length_nil,
      true_and]
    omega
  refine ⟨(z.zfs_snapshot st (snapshot_name fs scheme) recursive).1, ?_, hfilesystems, hsnapshots⟩
  simp [uzfs_snapshot, h₁, h₂, hvalid, hok]

/-- Any other request fails. -/
theorem uzfs_snapshot_fails {z : libzfs} (hz : Documented z) {st : zfs_state}
    {fs scheme : List Char} {recursive : Bool} (hfs : fs ∈ st.filesystems)
    (h : ¬ (Requestable z fs scheme ∧ Fresh st fs scheme recursive)) :
    ∃ st', uzfs_snapshot z st fs scheme ZFS_MAX_NAME_LEN recursive = (st', none) := by
  unfold uzfs_snapshot
  split
  · exact ⟨st, rfl⟩
  · rename_i w h₁
    split
    · exact ⟨st, rfl⟩
    · rename_i name h₂
      obtain ⟨rfl, hroom, hfits⟩ := uzfs_snapshot_name h₁ h₂
      split
      · exact ⟨st, rfl⟩
      · rename_i hvalid
        have hreq : Requestable z fs scheme := ⟨hroom, hfits, by simpa using hvalid⟩
        have hnot : ¬ Fresh st fs scheme recursive := fun hfresh => h ⟨hreq, hfresh⟩
        unfold Fresh at hnot
        push Not at hnot
        have hfail := hz.exists_fails st fs scheme recursive hfs hnot
        exact ⟨(z.zfs_snapshot st (snapshot_name fs scheme) recursive).1, by simp [hfail]⟩

end PkgPlugins.Zfs
