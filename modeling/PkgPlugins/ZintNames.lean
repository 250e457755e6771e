/-
The functions of ZintHandles without the handles.

A run that ends does what TakeSnapshot and ListSnapshots say of the names that the handles
were opened for; the lists of the raw ZFS method are those that ListSnapshots builds. libzfs
gives its handle for any of the others, and ends no iteration.
-/
import PkgPlugins.ZintHandles

set_option autoImplicit false

namespace PkgPlugins.ZintHandles

open PkgPlugins.Handles PkgPlugins.ZfsProperties
open PkgPlugins.RawZfs (raw_zfs_context_t)
open PkgPlugins.WriteOnce (until_fails until_fails_cons)
open PkgPlugins.SnapshotErrors (Handled)
open PkgPlugins.ListErrors (Iterates)
open PkgPlugins.ListSnapshots (raw_zfs_cast_to_snapshot)
open PkgPlugins.Dlist (DList WellFormed dlist_init dlist_append dlist_append_spec dlist_init_spec)

variable {σ ε : Type} {w w' : world σ}

/-! ## One handle -/

theorem eq_of_valid {fs : Option uzfs_ptr_t} {h : uzfs_ptr_t} (hvalid : valid w fs = .ok h) :
    fs = some h := by
  cases fs with
  | none => cases hvalid
  | some h' =>
      simp only [valid] at hvalid
      split_ifs at hvalid
      exact congrArg some (Except.ok.inj hvalid)

theorem uzfs_close_st {fs : Option uzfs_ptr_t} (h : uzfs_close w fs = .ok w') : w'.st = w.st := by
  obtain ⟨h', -, hclose⟩ := Fallible.bind_eq_ok h
  unfold close at hclose
  split at hclose
  · cases hclose
  · rw [← Except.ok.inj hclose]

theorem uzfs_from_name_names (z : system σ) (w : world σ) (name : List Char) :
    (uzfs_from_name z w name).2.st = w.st
      ∧ (uzfs_from_name z w name).1.map uzfs_ptr_t.name
        = if z.zfs_open w.st name then some name else none := by
  unfold uzfs_from_name
  split_ifs
  · exact ⟨rfl, rfl⟩
  · exact ⟨rfl, rfl⟩

/-- The same state, and the same status. -/
abbrev Named (r : world σ × Bool) (q : σ × Bool) : Prop := Alongside (fun w st => w.st = st) r q

section Snapshots

variable (z : system σ) (ZINT_VERSION_NUMBER : UInt64) (ctxt : raw_zfs_context_t)
  (snapshot hook : List Char)

variable {z} in
theorem individual_snapshot_names (hz : Handled z.toreporting) (h : uzfs_ptr_t) :
    Follows Named (individual_snapshot z ZINT_VERSION_NUMBER ctxt snapshot hook w (some h))
      (TakeSnapshot.individual_snapshot z.tolibraries ZINT_VERSION_NUMBER ctxt w.st (some h.name)
        snapshot hook) := by
  intro r hrun
  obtain ⟨fs, hvalid, hrun⟩ := Fallible.bind_eq_ok hrun
  obtain rfl := Option.some.inj (eq_of_valid hvalid)
  have hhandle : uzfs_snapshot z w.st h.name snapshot ctxt.recursive
      = TakeSnapshot.uzfs_snapshot z.tolibraries w.st h.name snapshot Zfs.ZFS_MAX_NAME_LEN
        ctxt.recursive := if_neg (by simp [hz w.st h.name])
  unfold TakeSnapshot.individual_snapshot
  rw [hhandle] at hrun
  dsimp only
  generalize TakeSnapshot.uzfs_snapshot z.tolibraries w.st h.name snapshot Zfs.ZFS_MAX_NAME_LEN
    ctxt.recursive = p at hrun ⊢
  obtain ⟨st, taken⟩ := p
  cases taken with
  | none =>
      cases hrun
      exact ⟨_, rfl, rfl, rfl⟩
  | some buffer =>
      have hnames := uzfs_from_name_names z { w with st := st } buffer
      dsimp only at hrun ⊢
      generalize uzfs_from_name z { w with st := st } buffer = q at hrun hnames
      obtain ⟨snap, w₁⟩ := q
      obtain ⟨hst, hname⟩ := hnames
      cases snap with
      | none =>
          have hclosed : z.zfs_open st buffer = false := by
            split_ifs at hname with hopened
            · cases hname
            · simpa using hopened
          cases hrun
          rw [if_pos hclosed]
          exact ⟨_, rfl, hst, rfl⟩
      | some snap =>
          have hopened : z.zfs_open st buffer = true ∧ snap.name = buffer := by
            split_ifs at hname with hopened
            · exact ⟨hopened, Option.some.inj hname⟩
            · cases hname
          rw [if_neg (by simp [hopened.1])]
          obtain ⟨snap', hvalid', hrun⟩ := Fallible.bind_eq_ok hrun
          obtain rfl := Option.some.inj (eq_of_valid hvalid')
          obtain hst : w₁.st = st := hst
          rw [hst, hopened.2] at hrun
          refine ⟨_, rfl, ?_⟩
          generalize set_zfs_properties z.tolibraries ZINT_VERSION_NUMBER st buffer hook = q
            at hrun ⊢
          obtain ⟨st', tagged⟩ := q
          cases tagged with
          | false =>
              cases hrun
              exact ⟨rfl, rfl⟩
          | true =>
              obtain ⟨w₂, hclose, hrun⟩ := Fallible.bind_eq_ok hrun
              cases hrun
              exact ⟨uzfs_close_st hclose, rfl⟩

theorem raw_zfs_snapshot_names (hz : Handled z.toreporting) (ptc : paths_to_check_t)
    (w : world σ) :
    Follows Named (raw_zfs_snapshot z ZINT_VERSION_NUMBER ctxt w ptc snapshot hook)
      (TakeSnapshot.raw_zfs_snapshot z.tolibraries ZINT_VERSION_NUMBER ctxt ptc.names w.st snapshot
        hook) := by
  unfold raw_zfs_snapshot
  cases hroot : ptc.root.fs with
  | none =>
      rw [asked, hroot, until_fails_cons]
      exact Follows.error Named Fault.null _
  | some root =>
      have hasked : List.Forall₂ (fun fs n => ∃ h, fs = some h ∧ h.name = n) (asked ctxt ptc)
          (TakeSnapshot.asked ctxt ptc.names) := by
        unfold asked TakeSnapshot.asked paths_to_check_t.names path_to_check_t.names
        rw [hroot]
        cases ctxt.recursive <;> cases ptc.localbase.fs <;> cases ptc.pkg_dbdir.fs <;> simp
      have hsome : ptc.names.root.fs.isSome := by
        simp [paths_to_check_t.names, path_to_check_t.names, hroot]
      rw [TakeSnapshot.raw_zfs_snapshot_eq hsome, TakeSnapshot.snapshot_all_eq]
      refine until_fails_follows hasked (fun fs n w st hfs hst => ?_) w w.st rfl
      obtain ⟨h, rfl, rfl⟩ := hfs
      obtain rfl := hst
      exact individual_snapshot_names ZINT_VERSION_NUMBER ctxt snapshot hook hz h

theorem be_to_fs_names (ZFS_MAX_DATASET_NAME_LEN : ℕ) (w : world σ) (be : List Char) :
    (be_to_fs z ZFS_MAX_DATASET_NAME_LEN w be).2.st = w.st
      ∧ (be_to_fs z ZFS_MAX_DATASET_NAME_LEN w be).1.map uzfs_ptr_t.name
        = TakeSnapshot.be_to_fs z.tolibraries ZFS_MAX_DATASET_NAME_LEN w.st be := by
  unfold be_to_fs TakeSnapshot.be_to_fs
  cases Buffers.path_join ZFS_MAX_DATASET_NAME_LEN [z.be_root_path, be] with
  | error e => exact ⟨rfl, rfl⟩
  | ok dataset => exact uzfs_from_name_names z w dataset

theorem be_take_snapshot_names (ZFS_MAX_DATASET_NAME_LEN : ℕ) (w : world σ) :
    Follows Named (be_take_snapshot z ZINT_VERSION_NUMBER ZFS_MAX_DATASET_NAME_LEN w snapshot hook)
      (.ok (TakeSnapshot.be_take_snapshot z.tolibraries ZINT_VERSION_NUMBER ZFS_MAX_DATASET_NAME_LEN
        w.st snapshot hook) : Except ε (σ × Bool)) := by
  intro r hrun
  refine ⟨_, rfl, ?_⟩
  unfold be_take_snapshot at hrun
  unfold TakeSnapshot.be_take_snapshot
  generalize z.be_create w.st snapshot = p at hrun ⊢
  obtain ⟨st, created⟩ := p
  cases created with
  | false =>
      cases hrun
      exact ⟨rfl, rfl⟩
  | true =>
      have hnames := be_to_fs_names z ZFS_MAX_DATASET_NAME_LEN { w with st := st } snapshot
      dsimp only at hrun hnames ⊢
      rw [← hnames.2]
      generalize be_to_fs z ZFS_MAX_DATASET_NAME_LEN { w with st := st } snapshot = q at hrun hnames
      obtain ⟨fs, w₁⟩ := q
      obtain hst : w₁.st = st := hnames.1
      cases fs with
      | none =>
          cases hrun
          exact ⟨hst, rfl⟩
      | some fs =>
          obtain ⟨fs', hvalid, hrun⟩ := Fallible.bind_eq_ok hrun
          obtain rfl := Option.some.inj (eq_of_valid hvalid)
          obtain ⟨w₂, hclose, hrun⟩ := Fallible.bind_eq_ok hrun
          cases hrun
          rw [hst] at hclose
          exact ⟨uzfs_close_st hclose, by rw [hst]; rfl⟩

/-- A method, without its data. -/
def method_t.names : method_t → Option TakeSnapshot.method
  | .be_method _ => some .be_method
  | .raw_zfs_method ctxt _ => some (.raw_zfs_method ctxt)
  | .none_method => none

/-- **A snapshot by a method** is the one of TakeSnapshot. -/
theorem method_snapshot_names (hz : Handled z.toreporting) (ZFS_MAX_DATASET_NAME_LEN : ℕ)
    {m : method_t} {m' : TakeSnapshot.method} (hm : m.names = some m') (ptc : paths_to_check_t)
    (w : world σ) :
    Follows Named (method_snapshot z ZINT_VERSION_NUMBER ZFS_MAX_DATASET_NAME_LEN m w ptc snapshot
        hook)
      (TakeSnapshot.take_snapshot z.tolibraries ZINT_VERSION_NUMBER ZFS_MAX_DATASET_NAME_LEN m'
        ptc.names w.st snapshot hook) := by
  cases m with
  | none_method => cases hm
  | raw_zfs_method ctxt data =>
      cases hm
      exact raw_zfs_snapshot_names z ZINT_VERSION_NUMBER ctxt snapshot hook hz ptc w
  | be_method lbh =>
      cases hm
      exact be_take_snapshot_names z ZINT_VERSION_NUMBER snapshot hook ZFS_MAX_DATASET_NAME_LEN w

end Snapshots

/-! ## The lists of the raw ZFS method -/

section Lists

variable (z : system σ) (ZINT_VERSION_NUMBER : UInt64) (name_to_hook : List Char → ℤ) (fuel : ℕ)

/-- A list of the code, and one of snapshots with handles. -/
def Lists (dl : DList Purge.snapshot_t) (l : List snapshot_t) : Prop :=
  WellFormed dl (l.map snapshot_t.tosnapshot_t)

theorem Lists.append {dl : DList Purge.snapshot_t} {l : List snapshot_t} (h : Lists dl l)
    (snap : snapshot_t) :
    ∃ dl', dlist_append dl snap.tosnapshot_t = .ok dl' ∧ Lists dl' (l ++ [snap]) := by
  obtain ⟨ns, hns, heq⟩ := h
  obtain ⟨dl', happend, hdl'⟩ := dlist_append_spec hns snap.tosnapshot_t
  refine ⟨dl', happend, _, hdl', ?_⟩
  rw [List.map_append, heq, List.map_append]
  rfl

/-- The same state and the same status, with a list that goes with the other one. -/
def NamedList (r : (world σ × List snapshot_t) × Bool) (q : σ × DList Purge.snapshot_t × Bool) :
    Prop :=
  r.1.1.st = q.1 ∧ Lists q.2.1 r.1.2 ∧ r.2 = q.2.2

theorem callback_names (w : world σ) {l : List snapshot_t} {dl : DList Purge.snapshot_t}
    (hl : Lists dl l) (snap : List Char) :
    Follows NamedList
      (snaphosts_iter_callback_callback z ZINT_VERSION_NUMBER name_to_hook fuel (w, l) snap)
      (ListSnapshots.snaphosts_iter_callback_build_array z.toaccess ZINT_VERSION_NUMBER name_to_hook
        fuel w.st dl snap) := by
  intro r hrun
  obtain ⟨fs, hvalid, hrun⟩ := Fallible.bind_eq_ok hrun
  obtain rfl := Option.some.inj (eq_of_valid hvalid)
  unfold ListSnapshots.snaphosts_iter_callback_build_array
  dsimp only at hrun
  generalize has_zfs_properties z.tolibraries ZINT_VERSION_NUMBER fuel w.st snap = p at hrun ⊢
  rcases p with - | ⟨st, - | ⟨hook, version⟩⟩
  · cases hrun
  · cases hrun
    exact ⟨_, rfl, rfl, hl, rfl⟩
  · dsimp only at hrun ⊢
    cases hcast : raw_zfs_cast_to_snapshot z.toaccess st snap (name_to_hook hook) version with
    | none =>
        rw [hcast] at hrun
        cases hrun
        exact ⟨_, rfl, rfl, hl, rfl⟩
    | some s =>
        rw [hcast] at hrun
        cases hrun
        obtain ⟨dl', happend, hdl'⟩ := hl.append ⟨s, some (uzfs_wrap w snap).1⟩
        dsimp only
        rw [show dlist_append dl s = .ok dl' from happend]
        exact ⟨_, rfl, rfl, hdl', rfl⟩

theorem callbacks_names (snaps : List (List Char)) : ∀ (w : world σ) {l : List snapshot_t}
    {dl : DList Purge.snapshot_t}, Lists dl l →
      Follows NamedList (until_fails
          (snaphosts_iter_callback_callback z ZINT_VERSION_NUMBER name_to_hook fuel) (w, l) snaps)
        (ListSnapshots.iter_callbacks z.toaccess ZINT_VERSION_NUMBER name_to_hook fuel w.st dl
          snaps) := by
  induction snaps with
  | nil => exact fun w _ _ hl => Follows.ok ⟨rfl, hl, rfl⟩
  | cons snap snaps ih =>
      intro w l dl hl
      rw [until_fails_cons, ListSnapshots.iter_callbacks]
      refine (callback_names z ZINT_VERSION_NUMBER name_to_hook fuel w hl snap).bind
        fun r q hrq => ?_
      obtain ⟨⟨w', l'⟩, ok⟩ := r
      obtain ⟨st', dl', ok'⟩ := q
      obtain ⟨rfl, hl', rfl⟩ := hrq
      cases ok with
      | false => exact Follows.ok ⟨rfl, hl', rfl⟩
      | true => exact ih w' hl'

theorem Lists.init : Lists dlist_init [] := ⟨[], dlist_init_spec, rfl⟩

/-- The same state and the same status, with lists that go with the other ones. -/
def NamedLists (l : List (List snapshot_t)) (r : (world σ × List (List snapshot_t)) × Bool)
    (q : σ × Bool × List (DList Purge.snapshot_t)) : Prop :=
  r.1.1.st = q.1 ∧ r.2 = q.2.1 ∧ ∃ l', r.1.2 = l ++ l' ∧ List.Forall₂ Lists q.2.2 l'

variable {z}

theorem list_filesystem_names (hz : Iterates z.toreporting) (ptc : paths_to_check_t)
    (w : world σ) (l : List (List snapshot_t)) (fs : List Char) :
    Follows (fun r q => NamedList ((r.1.1, r.1.2.getLastD []), r.2) q
        ∧ r.1.2 = l ++ [r.1.2.getLastD []])
      (list_filesystem z ZINT_VERSION_NUMBER name_to_hook fuel ptc (w, l) fs)
      (ListSnapshots.uzfs_iter_snapshots z.toaccess ZINT_VERSION_NUMBER name_to_hook fuel w.st fs
        dlist_init) := by
  intro r hrun
  obtain ⟨q, hiter, hrun⟩ := Fallible.bind_eq_ok hrun
  obtain ⟨h, hvalid, hiter⟩ := Fallible.bind_eq_ok hiter
  obtain ⟨p, hcallbacks, hiter⟩ := Fallible.bind_eq_ok hiter
  rw [handle_of_name (eq_of_valid hvalid)] at hcallbacks
  obtain ⟨p', hp', hst, hlist, hok⟩ := callbacks_names z ZINT_VERSION_NUMBER name_to_hook fuel
    (z.zfs_iter_snapshots w.st fs) w Lists.init p hcallbacks
  refine ⟨p', hp', ?_⟩
  cases hiter
  cases hrun
  refine ⟨⟨hst, ?_, ?_⟩, ?_⟩
  · simpa using hlist
  · show (p.2 && z.zfs_iter_ends p.1.1.st h.name) = p'.2.2
    rw [hz p.1.1.st h.name, Bool.and_true, hok]
  · simp

theorem raw_zfs_list_loop_names (hz : Iterates z.toreporting) (ptc : paths_to_check_t)
    (fss : List (List Char)) : ∀ (w : world σ) (l : List (List snapshot_t)),
      Follows (NamedLists l) (until_fails
          (list_filesystem z ZINT_VERSION_NUMBER name_to_hook fuel ptc) (w, l) fss)
        (ListSnapshots.raw_zfs_list_loop z.toaccess ZINT_VERSION_NUMBER name_to_hook fuel w.st
          fss) := by
  induction fss with
  | nil => exact fun w l => Follows.ok ⟨rfl, rfl, [], by simp, .nil⟩
  | cons fs fss ih =>
      intro w l
      rw [until_fails_cons, ListSnapshots.raw_zfs_list_loop]
      refine (list_filesystem_names ZINT_VERSION_NUMBER name_to_hook fuel hz ptc w l fs).bind
        fun r q hrq => ?_
      obtain ⟨⟨w', l'⟩, ok⟩ := r
      obtain ⟨st', dl, ok'⟩ := q
      obtain ⟨⟨rfl, hlist, rfl⟩, hl'⟩ := hrq
      dsimp only at hlist hl' ⊢
      cases ok with
      | false => exact Follows.ok ⟨rfl, rfl, _, hl', .cons hlist .nil⟩
      | true =>
          intro r hrun
          obtain ⟨⟨st'', ok, lists⟩, hloop, hst, hok, l'', heq, hlists⟩ := ih w' l' r hrun
          refine ⟨(st'', ok, dl :: lists), ?_, hst, hok, l'.getLastD [] :: l'', ?_,
            .cons hlist hlists⟩
          · show (ListSnapshots.raw_zfs_list_loop z.toaccess ZINT_VERSION_NUMBER name_to_hook fuel
              w'.st fss >>= fun q => pure (q.1, q.2.1, dl :: q.2.2)) = _
            rw [hloop]
            rfl
          · rw [heq, hl', List.append_assoc]
            simp

/-- **`raw_zfs_list`** is the one of ListSnapshots. -/
theorem raw_zfs_list_names (hz : Iterates z.toreporting) (ptc : paths_to_check_t) (w : world σ) :
    Follows (NamedLists []) (raw_zfs_list z ZINT_VERSION_NUMBER name_to_hook fuel w ptc)
      (ListSnapshots.raw_zfs_list z.toaccess ZINT_VERSION_NUMBER name_to_hook fuel ptc.names
        w.st) := by
  unfold raw_zfs_list ListSnapshots.raw_zfs_list
  cases hprobed : ListSnapshots.probed ptc.names with
  | error e => exact Follows.error _ _ _
  | ok fss => exact raw_zfs_list_loop_names ZINT_VERSION_NUMBER name_to_hook fuel hz ptc fss w []

end Lists

end PkgPlugins.ZintHandles
