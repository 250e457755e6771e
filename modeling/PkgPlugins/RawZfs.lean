/-
The raw ZFS backup method (`plugins/zfs_integration/raw_zfs_method.c`): when it is
suitable, and how it takes a snapshot.

The prober gives, for `/`, `LOCALBASE` and `PKG_DBDIR`, the filesystem each is on
(`plugins/zfs_integration/probe.h`); a path that is not on ZFS has a null handle,
and a null handle that is read is a fault. If `/` and `LOCALBASE` are on one pool
the filesystem of `/` alone is snapshotted, recursively, else each of the three.

`raw_zfs_snapshot_covers_iff` says for which layouts this covers the three paths:
a recursive snapshot reaches the descendants of `/` and not the rest of its pool,
and the same filesystem can't be snapshotted twice under one name.
-/
import PkgPlugins.Zfs
import Mathlib.Data.List.Basic

set_option autoImplicit false

namespace PkgPlugins.RawZfs

open PkgPlugins.Zfs

/-! ## The probed paths -/

structure path_to_check_t where
  fs : Option (List Char)
  path : List Char

structure paths_to_check_t where
  root : path_to_check_t
  localbase : path_to_check_t
  pkg_dbdir : path_to_check_t

/-- The filesystems of the paths that are on ZFS. -/
def paths_to_check_t.filesystems (ptc : paths_to_check_t) : List (List Char) :=
  ptc.root.fs.toList ++ ptc.localbase.fs.toList ++ ptc.pkg_dbdir.fs.toList

/-! ## The method -/

inductive bm_code_t
  | BM_OK
  | BM_SKIP
  | BM_ERROR
deriving DecidableEq

structure raw_zfs_context_t where
  recursive : Bool
deriving DecidableEq

/-- A null handle was read. -/
inductive null_handle
  | mk
deriving DecidableEq

/-- `uzfs_depth`, of which only the iteration over the children of `parent` is
left: it reads both handles and returns nothing of use. -/
def uzfs_depth (parent child : Option (List Char)) : Except null_handle Unit :=
  match parent, child with
  | some _, some _ => .ok ()
  | _, _ => .error .mk

/-- `raw_zfs_suitable`: the code and the context. Where `/` is not on ZFS nothing
sets `recursive`, but `uzfs_depth` does not let such a context out. -/
def raw_zfs_suitable (zfs_get_pool_name : List Char → Option (List Char))
    (ptc : paths_to_check_t) : Except null_handle (bm_code_t × Option raw_zfs_context_t) :=
  match ptc.localbase.fs with
  | none => .ok (.BM_SKIP, none)
  | some localbase => do
      let recursive := match ptc.root.fs with
        | some root => uzfs_same_pool zfs_get_pool_name root localbase
        | none => false
      uzfs_depth ptc.root.fs ptc.localbase.fs
      .ok (.BM_OK, some ⟨recursive⟩)

def ZINT_HOOK_PROPERTY : List Char := "zint:hook".toList

def ZINT_VERSION_PROPERTY : List Char := "zint:version".toList

section Method

variable (z : libzfs) (ZINT_VERSION_NUMBER : ℕ)

/-- `set_zfs_properties`, on a snapshot. -/
def set_zfs_properties (st : zfs_state) (snap hook : List Char) : zfs_state × Bool :=
  match z.zfs_prop_set st snap ZINT_VERSION_PROPERTY (Nat.toDigits 10 ZINT_VERSION_NUMBER) with
  | (st, false) => (st, false)
  | (st, true) => z.zfs_prop_set st snap ZINT_HOOK_PROPERTY hook

def individual_snapshot (ctxt : raw_zfs_context_t) (st : zfs_state) (fs : Option (List Char))
    (snapshot hook : List Char) : Except null_handle (zfs_state × Bool) :=
  match fs with
  | none => .error .mk
  | some fs =>
      match uzfs_snapshot z st fs snapshot ZFS_MAX_NAME_LEN ctxt.recursive with
      | (st, none) => .ok (st, false)
      | (st, some buffer) =>
          if z.zfs_open st buffer = false then .ok (st, false)
          else .ok (set_zfs_properties z ZINT_VERSION_NUMBER st buffer hook)

/-- The snapshot of a path, unless it is not on ZFS. -/
def path_snapshot (ctxt : raw_zfs_context_t) (st : zfs_state) (path : path_to_check_t)
    (snapshot hook : List Char) : Except null_handle (zfs_state × Bool) :=
  if path.fs = none then .ok (st, true)
  else individual_snapshot z ZINT_VERSION_NUMBER ctxt st path.fs snapshot hook

def raw_zfs_snapshot (ctxt : raw_zfs_context_t) (ptc : paths_to_check_t) (st : zfs_state)
    (snapshot hook : List Char) : Except null_handle (zfs_state × Bool) := do
  let (st, ok) ←
    individual_snapshot z ZINT_VERSION_NUMBER ctxt st ptc.root.fs snapshot hook
  if !ok then return (st, false)
  if ctxt.recursive then return (st, true)
  let (st, ok) ← path_snapshot z ZINT_VERSION_NUMBER ctxt st ptc.localbase snapshot hook
  if !ok then return (st, false)
  path_snapshot z ZINT_VERSION_NUMBER ctxt st ptc.pkg_dbdir snapshot hook

end Method

/-! ## One snapshot -/

section Specs

variable {z : libzfs} (ZINT_VERSION_NUMBER : ℕ)

/-- What is in a state after a request: the same filesystems, and the snapshots
that were there with those that were asked for. -/
structure Added (st st' : zfs_state) (names : List (List Char)) : Prop where
  filesystems : st'.filesystems = st.filesystems
  snapshots : ∀ n, n ∈ st'.snapshots ↔ n ∈ names ∨ n ∈ st.snapshots

theorem set_zfs_properties_spec (hz : Documented z) {st : zfs_state} {snap : List Char}
    (hsnap : snap ∈ st.snapshots) (hook : List Char) :
    ∃ st', set_zfs_properties z ZINT_VERSION_NUMBER st snap hook = (st', true)
      ∧ Added st st' [] := by
  obtain ⟨hok₁, hfs₁, hsnaps₁⟩ := hz.sets st snap ZINT_VERSION_PROPERTY
    (Nat.toDigits 10 ZINT_VERSION_NUMBER) hsnap
  generalize hset : z.zfs_prop_set st snap ZINT_VERSION_PROPERTY
    (Nat.toDigits 10 ZINT_VERSION_NUMBER) = r at hok₁ hfs₁ hsnaps₁
  obtain ⟨st₁, ok₁⟩ := r
  obtain rfl : ok₁ = true := hok₁
  -- the snapshot is still there for the second property
  obtain ⟨hok₂, hfs₂, hsnaps₂⟩ := hz.sets st₁ snap ZINT_HOOK_PROPERTY hook (hsnaps₁ ▸ hsnap)
  refine ⟨(z.zfs_prop_set st₁ snap ZINT_HOOK_PROPERTY hook).1, ?_, hfs₂.trans hfs₁, fun n => ?_⟩
  · rw [set_zfs_properties, hset]
    exact Prod.ext rfl hok₂
  · rw [hsnaps₂, hsnaps₁]
    simp

/-- A snapshot that can be taken is taken. -/
theorem individual_snapshot_succeeds (hz : Documented z) (ctxt : raw_zfs_context_t)
    {st : zfs_state} {fs snapshot : List Char} (hfs : fs ∈ st.filesystems)
    (hreq : Requestable z fs snapshot) (hfresh : Fresh st fs snapshot ctxt.recursive)
    (hook : List Char) :
    ∃ st', individual_snapshot z ZINT_VERSION_NUMBER ctxt st (some fs) snapshot hook
        = .ok (st', true)
      ∧ Added st st' (requested st fs snapshot ctxt.recursive) := by
  obtain ⟨st₁, hrun, hfilesystems, hsnapshots⟩ := uzfs_snapshot_succeeds hz hfs hreq hfresh
  have hmem : snapshot_name fs snapshot ∈ st₁.snapshots := by
    rw [hsnapshots]
    exact Or.inl List.mem_cons_self
  have hopen := (hz.opens st₁ (snapshot_name fs snapshot)).mpr hmem
  obtain ⟨st₂, hset, hadded⟩ := set_zfs_properties_spec ZINT_VERSION_NUMBER hz hmem hook
  refine ⟨st₂, ?_, hadded.filesystems.trans hfilesystems, fun n => ?_⟩
  · simp [individual_snapshot, hrun, hopen, hset]
  · rw [hadded.snapshots, hsnapshots]
    simp

/-- Another is not. -/
theorem individual_snapshot_fails (hz : Documented z) (ctxt : raw_zfs_context_t) {st : zfs_state}
    {fs snapshot : List Char} (hfs : fs ∈ st.filesystems)
    (h : ¬ (Requestable z fs snapshot ∧ Fresh st fs snapshot ctxt.recursive)) (hook : List Char) :
    ∃ st', individual_snapshot z ZINT_VERSION_NUMBER ctxt st (some fs) snapshot hook
      = .ok (st', false) := by
  obtain ⟨st', hrun⟩ := uzfs_snapshot_fails hz hfs h
  exact ⟨st', by simp [individual_snapshot, hrun]⟩

theorem snapshot_name_inj {fs fs' snapshot : List Char}
    (h : snapshot_name fs snapshot = snapshot_name fs' snapshot) : fs = fs' :=
  List.append_cancel_right h

/-- A snapshot that is asked for is that of the filesystem or of a descendant. -/
theorem mem_requested_iff {st : zfs_state} {fs fs' snapshot : List Char}
    (hfs' : fs' ∈ st.filesystems) :
    snapshot_name fs' snapshot ∈ requested st fs snapshot true
      ↔ fs' = fs ∨ descendant fs fs' = true := by
  rw [requested, if_pos rfl, List.mem_cons, List.mem_map]
  refine or_congr ⟨snapshot_name_inj, fun h => by rw [h]⟩ ⟨?_, fun h => ⟨fs', ?_, rfl⟩⟩
  · rintro ⟨child, hchild, heq⟩
    rw [← snapshot_name_inj heq]
    exact (List.mem_filter.mp hchild).2
  · exact List.mem_filter.mpr ⟨hfs', h⟩

/-- One filesystem at a time, only its own snapshot is asked for. -/
theorem requested_single (st : zfs_state) (fs snapshot : List Char) :
    requested st fs snapshot false = [snapshot_name fs snapshot] := by
  simp [requested]

/-- What a snapshot of one filesystem needs. -/
def Single (z : libzfs) (st : zfs_state) (fs snapshot : List Char) : Prop :=
  Requestable z fs snapshot ∧ snapshot_name fs snapshot ∉ st.snapshots

theorem single_iff (st : zfs_state) (fs snapshot : List Char) :
    Requestable z fs snapshot ∧ Fresh st fs snapshot false ↔ Single z st fs snapshot := by
  rw [Fresh, requested_single, Single]
  simp

/-- Snapshots of the filesystems of a list, one after the other. -/
def Separate (z : libzfs) (st : zfs_state) (fss : List (List Char)) (snapshot : List Char) : Prop :=
  fss.Nodup ∧ ∀ fs ∈ fss, Single z st fs snapshot

/-- The snapshots of some filesystems. -/
def snapshot_names (fss : List (List Char)) (snapshot : List Char) : List (List Char) :=
  fss.map (fun fs => snapshot_name fs snapshot)

theorem mem_snapshot_names {fss : List (List Char)} {fs snapshot : List Char} :
    snapshot_name fs snapshot ∈ snapshot_names fss snapshot ↔ fs ∈ fss := by
  rw [snapshot_names, List.mem_map]
  exact ⟨fun ⟨_, hmem, heq⟩ => snapshot_name_inj heq ▸ hmem, fun hmem => ⟨fs, hmem, rfl⟩⟩

/-- After some filesystems, those can be taken that could be before, except the
same ones. -/
theorem Added.separate {st st' : zfs_state} {fss fss' : List (List Char)} {snapshot : List Char}
    (h : Added st st' (snapshot_names fss snapshot)) (hsep : Separate z st fss snapshot) :
    Separate z st' fss' snapshot ↔ Separate z st (fss ++ fss') snapshot := by
  -- a name that was free is taken now just if it is one of those added
  have hsingle : ∀ fs, Single z st' fs snapshot ↔ Single z st fs snapshot ∧ fs ∉ fss := by
    intro fs
    unfold Single
    rw [h.snapshots, mem_snapshot_names, not_or]
    tauto
  unfold Separate
  rw [List.nodup_append, List.forall_mem_append]
  constructor
  · rintro ⟨hnodup, hall⟩
    refine ⟨⟨hsep.1, hnodup, ?_⟩, hsep.2, fun fs hfs => ((hsingle fs).mp (hall fs hfs)).1⟩
    rintro fs hfs fs' hfs' rfl
    exact ((hsingle fs).mp (hall fs hfs')).2 hfs
  · rintro ⟨⟨-, hnodup, hdisjoint⟩, -, hall⟩
    exact ⟨hnodup, fun fs hfs =>
      (hsingle fs).mpr ⟨hall fs hfs, fun hmem => hdisjoint fs hmem fs hfs rfl⟩⟩

theorem Added.append {st st₁ st₂ : zfs_state} {fss fss' : List (List Char)} {snapshot : List Char}
    (h : Added st st₁ (snapshot_names fss snapshot))
    (h' : Added st₁ st₂ (snapshot_names fss' snapshot)) :
    Added st st₂ (snapshot_names (fss ++ fss') snapshot) := by
  refine ⟨h'.filesystems.trans h.filesystems, fun n => ?_⟩
  have hnames : snapshot_names (fss ++ fss') snapshot
      = snapshot_names fss snapshot ++ snapshot_names fss' snapshot := List.map_append
  rw [h'.snapshots, h.snapshots, hnames, List.mem_append]
  exact or_left_comm.trans (or_assoc.symm)

/-- A step that takes snapshots of some filesystems if they can be taken one after
the other, and fails if not. -/
structure Takes (z : libzfs) (st : zfs_state) (r : Except null_handle (zfs_state × Bool))
    (fss : List (List Char)) (snapshot : List Char) : Prop where
  succeeds : Separate z st fss snapshot →
    ∃ st', r = .ok (st', true) ∧ Added st st' (snapshot_names fss snapshot)
  fails : ¬ Separate z st fss snapshot → ∃ st', r = .ok (st', false)

/-- One step after another, which is left out if the first fails. -/
def and_then (r : Except null_handle (zfs_state × Bool))
    (next : zfs_state → Except null_handle (zfs_state × Bool)) :
    Except null_handle (zfs_state × Bool) := do
  let (st, ok) ← r
  if !ok then return (st, false)
  next st

theorem Takes.seq {st : zfs_state} {r : Except null_handle (zfs_state × Bool)}
    {next : zfs_state → Except null_handle (zfs_state × Bool)} {fss fss' : List (List Char)}
    {snapshot : List Char} (h : Takes z st r fss snapshot)
    (hnext : ∀ st', st'.filesystems = st.filesystems → Takes z st' (next st') fss' snapshot) :
    Takes z st (and_then r next) (fss ++ fss') snapshot := by
  by_cases hsep : Separate z st fss snapshot
  · obtain ⟨st₁, rfl, hadded₁⟩ := h.succeeds hsep
    have hrest := hnext st₁ hadded₁.filesystems
    have hrun : and_then (.ok (st₁, true)) next = next st₁ := rfl
    rw [hrun]
    constructor
    · intro hboth
      obtain ⟨st₂, heq, hadded₂⟩ := hrest.succeeds ((hadded₁.separate hsep).mpr hboth)
      exact ⟨st₂, heq, hadded₁.append hadded₂⟩
    · intro hnot
      exact hrest.fails (fun hsep' => hnot ((hadded₁.separate hsep).mp hsep'))
  · obtain ⟨st₁, rfl⟩ := h.fails hsep
    refine ⟨fun hboth => absurd ?_ hsep, fun _ => ⟨st₁, rfl⟩⟩
    exact ⟨(List.nodup_append.mp hboth.1).1, fun fs hfs => hboth.2 fs (List.mem_append_left _ hfs)⟩

/-- A snapshot of one filesystem. -/
theorem individual_snapshot_takes (hz : Documented z) {st : zfs_state} {fs snapshot : List Char}
    (hfs : fs ∈ st.filesystems) (hook : List Char) :
    Takes z st (individual_snapshot z ZINT_VERSION_NUMBER ⟨false⟩ st (some fs) snapshot hook) [fs]
      snapshot := by
  have hsep : Separate z st [fs] snapshot ↔ Single z st fs snapshot := by
    simp [Separate]
  constructor
  · intro h
    obtain ⟨hreq, hfresh⟩ := (single_iff st fs snapshot).mpr (hsep.mp h)
    obtain ⟨st', hrun, hadded⟩ :=
      individual_snapshot_succeeds ZINT_VERSION_NUMBER hz ⟨false⟩ hfs hreq hfresh hook
    rw [requested_single] at hadded
    exact ⟨st', hrun, hadded⟩
  · intro h
    rw [hsep, ← single_iff] at h
    exact individual_snapshot_fails ZINT_VERSION_NUMBER hz ⟨false⟩ hfs h hook

/-- The snapshot of a path. -/
theorem path_snapshot_takes (hz : Documented z) {st : zfs_state} {path : path_to_check_t}
    {snapshot : List Char} (hfs : ∀ fs ∈ path.fs, fs ∈ st.filesystems) (hook : List Char) :
    Takes z st (path_snapshot z ZINT_VERSION_NUMBER ⟨false⟩ st path snapshot hook) path.fs.toList
      snapshot := by
  unfold path_snapshot
  cases hpath : path.fs with
  | none =>
      refine ⟨fun _ => ⟨st, rfl, rfl, by simp [snapshot_names]⟩, fun h => absurd ?_ h⟩
      simp [Separate]
  | some fs => exact individual_snapshot_takes ZINT_VERSION_NUMBER hz (hfs fs hpath) hook

/-! ## The three paths -/

/-- **The three paths one by one**: this succeeds just if their filesystems
differ and each snapshot can be taken, and then adds them all. -/
theorem raw_zfs_snapshot_separate (hz : Documented z) {ptc : paths_to_check_t} {st : zfs_state}
    {root : List Char} (snapshot : List Char) (hroot : ptc.root.fs = some root)
    (hexist : ∀ fs ∈ ptc.filesystems, fs ∈ st.filesystems) (hook : List Char) :
    Takes z st (raw_zfs_snapshot z ZINT_VERSION_NUMBER ⟨false⟩ ptc st snapshot hook)
      ptc.filesystems snapshot := by
  have hpath : ∀ path : path_to_check_t, (∀ fs ∈ path.fs, fs ∈ ptc.filesystems) →
      ∀ st' : zfs_state, st'.filesystems = st.filesystems →
        ∀ fs ∈ path.fs, fs ∈ st'.filesystems := by
    intro path hmem st' heq fs hfs
    rw [heq]
    exact hexist fs (hmem fs hfs)
  have hlocalbase : ∀ fs ∈ ptc.localbase.fs, fs ∈ ptc.filesystems := by
    intro fs hfs
    simp [paths_to_check_t.filesystems, Option.mem_def.mp hfs]
  have hdbdir : ∀ fs ∈ ptc.pkg_dbdir.fs, fs ∈ ptc.filesystems := by
    intro fs hfs
    simp [paths_to_check_t.filesystems, Option.mem_def.mp hfs]
  have hfirst : root ∈ st.filesystems := hexist root (by simp [paths_to_check_t.filesystems, hroot])
  -- the three requests are steps one after the other
  have hrun : raw_zfs_snapshot z ZINT_VERSION_NUMBER ⟨false⟩ ptc st snapshot hook
      = and_then (and_then
          (individual_snapshot z ZINT_VERSION_NUMBER ⟨false⟩ st (some root) snapshot hook)
          (fun st => path_snapshot z ZINT_VERSION_NUMBER ⟨false⟩ st ptc.localbase snapshot hook))
        (fun st => path_snapshot z ZINT_VERSION_NUMBER ⟨false⟩ st ptc.pkg_dbdir snapshot hook) := by
    unfold raw_zfs_snapshot and_then
    rw [hroot]
    cases individual_snapshot z ZINT_VERSION_NUMBER ⟨false⟩ st (some root) snapshot hook with
    | error e => rfl
    | ok r =>
        obtain ⟨st₁, ok⟩ := r
        cases ok <;> rfl
  rw [hrun]
  have htakes : Takes z st (and_then (and_then
      (individual_snapshot z ZINT_VERSION_NUMBER ⟨false⟩ st (some root) snapshot hook)
      (fun st => path_snapshot z ZINT_VERSION_NUMBER ⟨false⟩ st ptc.localbase snapshot hook))
      (fun st => path_snapshot z ZINT_VERSION_NUMBER ⟨false⟩ st ptc.pkg_dbdir snapshot hook))
      ([root] ++ ptc.localbase.fs.toList ++ ptc.pkg_dbdir.fs.toList) snapshot := by
    apply Takes.seq
    · apply Takes.seq
      · exact individual_snapshot_takes ZINT_VERSION_NUMBER hz hfirst hook
      · exact fun st' heq =>
          path_snapshot_takes ZINT_VERSION_NUMBER hz (hpath _ hlocalbase st' heq) hook
    · exact fun st' heq =>
        path_snapshot_takes ZINT_VERSION_NUMBER hz (hpath _ hdbdir st' heq) hook
  have hlist : ptc.filesystems
      = [root] ++ ptc.localbase.fs.toList ++ ptc.pkg_dbdir.fs.toList := by
    simp [paths_to_check_t.filesystems, hroot]
  rw [hlist]
  exact htakes

/-- **A recursive snapshot**: this succeeds just if the snapshot of `/` and of
everything below can be taken. -/
theorem raw_zfs_snapshot_recursive (hz : Documented z) {ptc : paths_to_check_t} {st : zfs_state}
    {root : List Char} (snapshot : List Char) (hroot : ptc.root.fs = some root)
    (hexist : ∀ fs ∈ ptc.filesystems, fs ∈ st.filesystems) (hook : List Char) :
    (Requestable z root snapshot ∧ Fresh st root snapshot true →
        ∃ st', raw_zfs_snapshot z ZINT_VERSION_NUMBER ⟨true⟩ ptc st snapshot hook = .ok (st', true)
          ∧ Added st st' (requested st root snapshot true))
      ∧ (¬ (Requestable z root snapshot ∧ Fresh st root snapshot true) →
        ∃ st', raw_zfs_snapshot z ZINT_VERSION_NUMBER ⟨true⟩ ptc st snapshot hook
          = .ok (st', false)) := by
  have hfirst : root ∈ st.filesystems := hexist root (by simp [paths_to_check_t.filesystems, hroot])
  unfold raw_zfs_snapshot
  rw [hroot]
  constructor
  · rintro ⟨hreq, hfresh⟩
    obtain ⟨st', hrun, hadded⟩ :=
      individual_snapshot_succeeds ZINT_VERSION_NUMBER hz ⟨true⟩ hfirst hreq hfresh hook
    exact ⟨st', by rw [hrun]; rfl, hadded⟩
  · intro h
    obtain ⟨st', hrun⟩ := individual_snapshot_fails ZINT_VERSION_NUMBER hz ⟨true⟩ hfirst h hook
    exact ⟨st', by rw [hrun]; rfl⟩

/-- What a snapshot of the three paths should come to: no null handle is read,
and if the method is suitable, the snapshot succeeds and each path that is on ZFS
has one on its filesystem. -/
def Covered (z : libzfs) (ptc : paths_to_check_t) (st : zfs_state) (snapshot hook : List Char) :
    Prop :=
  ∃ code data, raw_zfs_suitable z.zfs_get_pool_name ptc = .ok (code, data) ∧
    ∀ ctxt, code = .BM_OK → data = some ctxt →
    ∃ st', raw_zfs_snapshot z ZINT_VERSION_NUMBER ctxt ptc st snapshot hook = .ok (st', true)
      ∧ ∀ fs ∈ ptc.filesystems, snapshot_name fs snapshot ∈ st'.snapshots

/-- The layouts for which it does. -/
def Coverable (z : libzfs) (ptc : paths_to_check_t) (st : zfs_state) (snapshot : List Char) :
    Prop :=
  ptc.localbase.fs = none ∨ ∃ root localbase, ptc.root.fs = some root
    ∧ ptc.localbase.fs = some localbase
    ∧ if uzfs_same_pool z.zfs_get_pool_name root localbase then
        (Requestable z root snapshot ∧ Fresh st root snapshot true)
        ∧ ∀ fs ∈ ptc.filesystems, fs = root ∨ descendant root fs = true
            ∨ snapshot_name fs snapshot ∈ st.snapshots
      else Separate z st ptc.filesystems snapshot

/-- Where `/` and `LOCALBASE` are on ZFS, the coverage is that of the snapshot. -/
theorem covered_iff {ptc : paths_to_check_t} {root localbase : List Char}
    (hroot : ptc.root.fs = some root) (hlocalbase : ptc.localbase.fs = some localbase)
    (st : zfs_state) (snapshot hook : List Char) :
    Covered ZINT_VERSION_NUMBER z ptc st snapshot hook ↔
      ∃ st', raw_zfs_snapshot z ZINT_VERSION_NUMBER
          ⟨uzfs_same_pool z.zfs_get_pool_name root localbase⟩ ptc st snapshot hook = .ok (st', true)
        ∧ ∀ fs ∈ ptc.filesystems, snapshot_name fs snapshot ∈ st'.snapshots := by
  have hsuitable : raw_zfs_suitable z.zfs_get_pool_name ptc
      = .ok (.BM_OK, some ⟨uzfs_same_pool z.zfs_get_pool_name root localbase⟩) := by
    rw [raw_zfs_suitable, hlocalbase, hroot]
    rfl
  constructor
  · rintro ⟨code, data, hrun, h⟩
    rw [hsuitable, Except.ok.injEq, Prod.mk.injEq] at hrun
    exact h _ hrun.1.symm hrun.2.symm
  · rintro ⟨st', h⟩
    refine ⟨_, _, hsuitable, fun ctxt _ hctxt => ?_⟩
    rw [← Option.some.inj hctxt]
    exact ⟨st', h⟩

/-- A recursive snapshot covers the three paths just if it can be taken, and each
filesystem is the one it is of, or below it, or had the snapshot already. -/
theorem raw_zfs_snapshot_recursive_covers (hz : Documented z) {ptc : paths_to_check_t}
    {st : zfs_state} {root : List Char} (snapshot : List Char) (hroot : ptc.root.fs = some root)
    (hexist : ∀ fs ∈ ptc.filesystems, fs ∈ st.filesystems) (hook : List Char) :
    (∃ st', raw_zfs_snapshot z ZINT_VERSION_NUMBER ⟨true⟩ ptc st snapshot hook = .ok (st', true)
        ∧ ∀ fs ∈ ptc.filesystems, snapshot_name fs snapshot ∈ st'.snapshots)
      ↔ (Requestable z root snapshot ∧ Fresh st root snapshot true)
        ∧ ∀ fs ∈ ptc.filesystems, fs = root ∨ descendant root fs = true
            ∨ snapshot_name fs snapshot ∈ st.snapshots := by
  obtain ⟨hsucceeds, hfails⟩ :=
    raw_zfs_snapshot_recursive ZINT_VERSION_NUMBER hz snapshot hroot hexist hook
  by_cases hcan : Requestable z root snapshot ∧ Fresh st root snapshot true
  · obtain ⟨st₁, hrun, hadded⟩ := hsucceeds hcan
    have hmem : ∀ fs ∈ ptc.filesystems, (snapshot_name fs snapshot ∈ st₁.snapshots
        ↔ fs = root ∨ descendant root fs = true ∨ snapshot_name fs snapshot ∈ st.snapshots) := by
      intro fs hfs
      rw [hadded.snapshots, mem_requested_iff (hexist fs hfs), or_assoc]
    rw [and_iff_right hcan, hrun]
    constructor
    · rintro ⟨st', hst', hall⟩
      rw [Except.ok.injEq, Prod.mk.injEq] at hst'
      obtain rfl := hst'.1
      exact fun fs hfs => (hmem fs hfs).mp (hall fs hfs)
    · intro hall
      exact ⟨st₁, rfl, fun fs hfs => (hmem fs hfs).mpr (hall fs hfs)⟩
  · obtain ⟨st₁, hrun⟩ := hfails hcan
    rw [hrun]
    refine iff_of_false ?_ (fun h => hcan h.1)
    rintro ⟨st', hst', -⟩
    exact absurd hst' (by simp)

/-- Separate snapshots cover the three paths just if they can be taken. -/
theorem raw_zfs_snapshot_separate_covers (hz : Documented z) {ptc : paths_to_check_t}
    {st : zfs_state} {root : List Char} (snapshot : List Char) (hroot : ptc.root.fs = some root)
    (hexist : ∀ fs ∈ ptc.filesystems, fs ∈ st.filesystems) (hook : List Char) :
    (∃ st', raw_zfs_snapshot z ZINT_VERSION_NUMBER ⟨false⟩ ptc st snapshot hook = .ok (st', true)
        ∧ ∀ fs ∈ ptc.filesystems, snapshot_name fs snapshot ∈ st'.snapshots)
      ↔ Separate z st ptc.filesystems snapshot := by
  have htakes := raw_zfs_snapshot_separate ZINT_VERSION_NUMBER hz snapshot hroot hexist hook
  by_cases hsep : Separate z st ptc.filesystems snapshot
  · obtain ⟨st₁, hrun, hadded⟩ := htakes.succeeds hsep
    refine iff_of_true ⟨st₁, hrun, fun fs hfs => ?_⟩ hsep
    rw [hadded.snapshots]
    exact Or.inl (mem_snapshot_names.mpr hfs)
  · obtain ⟨st₁, hrun⟩ := htakes.fails hsep
    rw [hrun]
    refine iff_of_false ?_ hsep
    rintro ⟨st', hst', -⟩
    exact absurd hst' (by simp)

/-- **When the raw ZFS method covers the three paths.** With libzfs as documented,
it does if and only if `LOCALBASE` is not on ZFS, and the method is not used; or
`/` is on ZFS too, and: on the same pool, the recursive snapshot can be taken, and
each filesystem is that of `/`, or below it, or has the snapshot already; on
another pool, the filesystems all differ, and each snapshot can be taken. -/
theorem raw_zfs_snapshot_covers_iff (hz : Documented z) (ptc : paths_to_check_t) (st : zfs_state)
    (hexist : ∀ fs ∈ ptc.filesystems, fs ∈ st.filesystems) (snapshot hook : List Char) :
    Covered ZINT_VERSION_NUMBER z ptc st snapshot hook ↔ Coverable z ptc st snapshot := by
  cases hlocalbase : ptc.localbase.fs with
  | none =>
      refine iff_of_true ⟨.BM_SKIP, none, by rw [raw_zfs_suitable, hlocalbase], ?_⟩
        (Or.inl hlocalbase)
      exact fun ctxt _ hnone => absurd hnone (by simp)
  | some localbase =>
      cases hroot : ptc.root.fs with
      | none =>
          -- the depth of a null handle is asked for
          have hfault : raw_zfs_suitable z.zfs_get_pool_name ptc = .error .mk := by
            rw [raw_zfs_suitable, hlocalbase, hroot]
            rfl
          apply iff_of_false
          · rintro ⟨code, data, hrun, -⟩
            rw [hfault] at hrun
            exact absurd hrun (by simp)
          · simp [Coverable, hlocalbase, hroot]
      | some root =>
          have hcoverable : Coverable z ptc st snapshot ↔
              if uzfs_same_pool z.zfs_get_pool_name root localbase then
                (Requestable z root snapshot ∧ Fresh st root snapshot true)
                ∧ ∀ fs ∈ ptc.filesystems, fs = root ∨ descendant root fs = true
                    ∨ snapshot_name fs snapshot ∈ st.snapshots
              else Separate z st ptc.filesystems snapshot := by
            simp [Coverable, hlocalbase, hroot]
          rw [covered_iff ZINT_VERSION_NUMBER hroot hlocalbase, hcoverable]
          cases uzfs_same_pool z.zfs_get_pool_name root localbase with
          | true =>
              rw [if_pos rfl]
              exact raw_zfs_snapshot_recursive_covers ZINT_VERSION_NUMBER hz snapshot hroot hexist
                hook
          | false =>
              rw [if_neg (by simp)]
              exact raw_zfs_snapshot_separate_covers ZINT_VERSION_NUMBER hz snapshot hroot hexist
                hook

end Specs

/-! ## A pool -/

/-- A libzfs over the state alone: properties are not kept, and a name is valid if
it has one `@`. -/
def pool_zfs : libzfs where
  zfs_get_pool_name fs := some (fs.takeWhile (· ≠ '/'))
  zfs_name_valid name := name.count '@' = 1
  zfs_snapshot st name recursive :=
    let fs := name.takeWhile (· ≠ '@')
    let snapshot := (name.dropWhile (· ≠ '@')).tail
    if (requested st fs snapshot recursive).any st.snapshots.contains then (st, false)
    else ({ st with snapshots := requested st fs snapshot recursive ++ st.snapshots }, true)
  zfs_open st name := st.snapshots.contains name
  zfs_prop_set st name _ _ := (st, st.snapshots.contains name)

/-- The name of a snapshot is taken apart at the `@`, which a filesystem has not. -/
theorem split_snapshot_name {fs : List Char} (h : '@' ∉ fs) (snapshot : List Char) :
    (snapshot_name fs snapshot).takeWhile (· ≠ '@') = fs
      ∧ ((snapshot_name fs snapshot).dropWhile (· ≠ '@')).tail = snapshot := by
  have hfs : ∀ c ∈ fs, decide (c ≠ '@') = true := by
    intro c hc
    simpa using fun heq : c = '@' => h (heq ▸ hc)
  unfold snapshot_name
  rw [List.takeWhile_append_of_pos hfs, List.dropWhile_append_of_pos hfs]
  simp

theorem pool_zfs_documented : Documented pool_zfs where
  pools fs pool hpool := (Option.some.inj hpool).symm
  creates st fs snapshot recursive hfs _ hfresh := by
    obtain ⟨htake, hdrop⟩ := split_snapshot_name (st.valid fs hfs) snapshot
    have hnone : ¬ (requested st fs snapshot recursive).any st.snapshots.contains = true := by
      simpa using hfresh
    simp only [pool_zfs, htake, hdrop, if_neg hnone, List.mem_append, true_and, implies_true]
  exists_fails st fs snapshot recursive hfs hexists := by
    obtain ⟨htake, hdrop⟩ := split_snapshot_name (st.valid fs hfs) snapshot
    have hsome : (requested st fs snapshot recursive).any st.snapshots.contains = true := by
      simpa using hexists
    simp only [pool_zfs, htake, hdrop, if_pos hsome]
  opens st n := by simp [pool_zfs]
  sets st n prop value hn := by simpa [pool_zfs] using hn

/-- A pool with the filesystems of an installation. -/
def zroot : zfs_state where
  filesystems := ["zroot/ROOT/default".toList, "zroot/usr/local".toList, "zroot/var/db".toList,
    "zroot/ROOT/default/var".toList]
  snapshots := []
  valid := by simp

/-- Everything that matters is in `/` or in a filesystem below it. -/
def nested : paths_to_check_t where
  root := ⟨some "zroot/ROOT/default".toList, "/".toList⟩
  localbase := ⟨some "zroot/ROOT/default".toList, "/usr/local".toList⟩
  pkg_dbdir := ⟨some "zroot/ROOT/default/var".toList, "/var/db/pkg".toList⟩

/-- `/usr/local` and `/var/db` have filesystems that are not below that of `/`. -/
def siblings : paths_to_check_t where
  root := ⟨some "zroot/ROOT/default".toList, "/".toList⟩
  localbase := ⟨some "zroot/usr/local".toList, "/usr/local".toList⟩
  pkg_dbdir := ⟨some "zroot/var/db".toList, "/var/db/pkg".toList⟩

theorem nested_covered :
    (∀ fs ∈ nested.filesystems, fs ∈ zroot.filesystems)
      ∧ Covered 1 pool_zfs nested zroot "upgrade".toList "PRE:UPGRADE".toList := by
  have hexist : ∀ fs ∈ nested.filesystems, fs ∈ zroot.filesystems := by
    decide +kernel
  refine ⟨hexist, (raw_zfs_snapshot_covers_iff 1 pool_zfs_documented nested zroot hexist
    "upgrade".toList "PRE:UPGRADE".toList).mpr (Or.inr ⟨_, _, rfl, rfl, ?_⟩)⟩
  rw [if_pos (by decide +kernel)]
  refine ⟨⟨?_, ?_⟩, by decide +kernel⟩
  · exact ⟨by decide +kernel, by decide +kernel, by decide +kernel⟩
  · exact fun n _ => List.not_mem_nil

/-- **Siblings are missed**: the method is suitable and no name is taken, but the
recursive snapshot of `/` reaches neither `/usr/local` nor `/var/db`. -/
theorem siblings_not_covered :
    Documented pool_zfs ∧ (∀ fs ∈ siblings.filesystems, fs ∈ zroot.filesystems)
      ∧ raw_zfs_suitable pool_zfs.zfs_get_pool_name siblings = .ok (.BM_OK, some ⟨true⟩)
      ∧ Requestable pool_zfs "zroot/ROOT/default".toList "upgrade".toList
      ∧ zroot.snapshots = []
      ∧ ¬ Covered 1 pool_zfs siblings zroot "upgrade".toList "PRE:UPGRADE".toList := by
  have hexist : ∀ fs ∈ siblings.filesystems, fs ∈ zroot.filesystems := by
    decide +kernel
  have hpool : uzfs_same_pool pool_zfs.zfs_get_pool_name "zroot/ROOT/default".toList
      "zroot/usr/local".toList = true :=
    (uzfs_same_pool_iff pool_zfs_documented _ _).mpr ⟨rfl, rfl, by decide⟩
  refine ⟨pool_zfs_documented, hexist, ?_, ?_, rfl, ?_⟩
  · rw [raw_zfs_suitable]
    show Except.ok (_, some (raw_zfs_context_t.mk (uzfs_same_pool _ _ _))) = _
    rw [hpool]
  · exact ⟨by decide +kernel, by decide +kernel, by decide +kernel⟩
  · have hroot : siblings.root.fs = some "zroot/ROOT/default".toList := rfl
    rw [covered_iff 1 hroot rfl, hpool,
      raw_zfs_snapshot_recursive_covers 1 pool_zfs_documented "upgrade".toList rfl hexist]
    rintro ⟨-, hall⟩
    exact absurd hall (by decide +kernel)

end PkgPlugins.RawZfs
