/-
`method->list` and `method->destroy` of the raw ZFS method (`raw_zfs_list` and
`raw_zfs_destroy` of `plugins/zfs_integration/raw_zfs_method.c`,
`uzfs_iter_snapshots` and `uzfs_filesystem_destroy` of
`plugins/zfs_integration/zfs.c`).

The filesystems of the three paths go through a hash table, so that each is listed
once. Of its snapshots those are listed that `has_zfs_properties` recognises, which
may set the properties of a snapshot on the way; the listing ends with the first
snapshot whose name is too long or whose date can't be read.

`Recognisable` says, in the state before the listing, which snapshots it
recognises, and `raw_zfs_list_spec` that the lists are made of exactly those.
-/
import PkgPlugins.ZfsProperties
import PkgPlugins.TakeSnapshot
import PkgPlugins.HashtableRuns
import PkgPlugins.Purge

set_option autoImplicit false

namespace PkgPlugins.ListSnapshots

open PkgPlugins.Libc PkgPlugins.ZfsProperties
open PkgPlugins.Zfs (snapshot_name)
open PkgPlugins.RawZfs (paths_to_check_t ZINT_HOOK_PROPERTY ZINT_VERSION_PROPERTY)
open PkgPlugins.Dlist (DList WellFormed Represents dlist_init dlist_append dlist_append_spec
  dlist_init_spec)
open PkgPlugins.Purge (snapshot_t)

/-! ## libzfs -/

/-- The functions of libzfs that a listing and a deletion call besides the others.
`zfs_iter_snapshots` gives the snapshots that the callback is called on, and
`zfs_prop_get` what is left in a buffer of the size. -/
structure access (σ : Type) extends libraries σ where
  zfs_iter_snapshots : σ → List Char → List (List Char)
  zfs_prop_get : σ → List Char → List Char → ℕ → Option (List Char)
  zfs_is_shared : σ → List Char → Bool
  zfs_unshareall : σ → List Char → σ × Bool
  zfs_is_mounted : σ → List Char → Bool
  zfs_unmountall : σ → List Char → σ × Bool
  zfs_destroy : σ → List Char → σ × Bool

variable {σ : Type}

/-- Why a run stops without a result. -/
inductive Fault
  | hashtable (fault : Hashtable.Fault)
  | dlist (fault : Dlist.Fault)
  | diverges
deriving DecidableEq

/-! ## The table of the filesystems -/

/-- `ascii_hash_cs`, on `uintptr_t`. -/
def ascii_hash_cs (key : List Char) : ℕ :=
  key.foldl (fun h c => ((h + h * 2 ^ 5) % 2 ^ 64) ^^^ c.toNat) 5381

def ascii_equal_cs (key1 key2 : List Char) : Bool := key1 == key2

/-- `hashtable_put(&ht, HT_PUT_ON_DUP_KEY_PRESERVE, name, fs, NULL)` -/
def put_filesystem (fs : List Char) : HashtableRuns.Op (List Char) (List Char) := .put true fs fs

/-- The filesystems that a loop over the table comes by. -/
def probed (ptc : paths_to_check_t) : Except Hashtable.Fault (List (List Char)) := do
  let ht ← HashtableRuns.run ascii_hash_cs ascii_equal_cs id
    (Hashtable.hashtable_init Hashtable.HASHTABLE_MIN_SIZE fun _ => none)
    (ptc.filesystems.map put_filesystem)
  let fss ← Hashtable.forward ht
  return fss.map Prod.snd

/-! ## The functions -/

def SNAPSHOT_MAX_NAME_LEN : ℕ := 4096

section Functions

variable (z : access σ) (ZINT_VERSION_NUMBER : UInt64) (name_to_hook : List Char → ℤ)

/-- `uzfs_get_prop_numeric` of `creation`, which is not a user property. -/
def uzfs_get_creation (st : σ) (snap : List Char) : Option ℕ :=
  match z.zfs_prop_get st snap "creation".toList 128 with
  | none => none
  | some propstr => numeric propstr

/-- `raw_zfs_cast_to_snapshot`; the name that is copied is that of the handle. -/
def raw_zfs_cast_to_snapshot (st : σ) (snap : List Char) (hook : ℤ) (version : ℕ) :
    Option snapshot_t :=
  if SNAPSHOT_MAX_NAME_LEN ≤ snap.length then none
  else
    match uzfs_get_creation z st snap with
    | none => none
    | some creation =>
        some ⟨String.ofList snap, UInt64.ofNat creation, hook, UInt64.ofNat version⟩

/-- The callback of `raw_zfs_list`; `fuel` is that of `has_zfs_properties`. -/
def snaphosts_iter_callback_build_array (fuel : ℕ) (st : σ) (l : DList snapshot_t)
    (fs : List Char) : Except Fault (σ × DList snapshot_t × Bool) :=
  match has_zfs_properties z.tolibraries ZINT_VERSION_NUMBER fuel st fs with
  | none => .error .diverges
  | some (st, none) => .ok (st, l, true)
  | some (st, some (hook, version)) =>
      match raw_zfs_cast_to_snapshot z st fs (name_to_hook hook) version with
      | none => .ok (st, l, false)
      | some snap => do
          let l ← (dlist_append l snap).mapError .dlist
          return (st, l, true)

/-- The calls of the callback, until it fails. -/
def iter_callbacks (fuel : ℕ) : σ → DList snapshot_t → List (List Char) →
    Except Fault (σ × DList snapshot_t × Bool)
  | st, l, [] => .ok (st, l, true)
  | st, l, snap :: snaps => do
      let (st, l, ok) ←
        snaphosts_iter_callback_build_array z ZINT_VERSION_NUMBER name_to_hook fuel st l snap
      if !ok then return (st, l, false)
      iter_callbacks fuel st l snaps

def uzfs_iter_snapshots (fuel : ℕ) (st : σ) (fs : List Char) (l : DList snapshot_t) :
    Except Fault (σ × DList snapshot_t × Bool) :=
  iter_callbacks z ZINT_VERSION_NUMBER name_to_hook fuel st l (z.zfs_iter_snapshots st fs)

/-- The loop of `raw_zfs_list`: a list is there for a filesystem whose listing fails
too. -/
def raw_zfs_list_loop (fuel : ℕ) : σ → List (List Char) →
    Except Fault (σ × Bool × List (DList snapshot_t))
  | st, [] => .ok (st, true, [])
  | st, fs :: fss => do
      let (st, snapshots, ok) ←
        uzfs_iter_snapshots z ZINT_VERSION_NUMBER name_to_hook fuel st fs dlist_init
      if !ok then return (st, false, [snapshots])
      let (st, ok, l) ← raw_zfs_list_loop fuel st fss
      return (st, ok, snapshots :: l)

def raw_zfs_list (fuel : ℕ) (ptc : paths_to_check_t) (st : σ) :
    Except Fault (σ × Bool × List (DList snapshot_t)) := do
  let fss ← (probed ptc).mapError .hashtable
  raw_zfs_list_loop z ZINT_VERSION_NUMBER name_to_hook fuel st fss

def uzfs_filesystem_destroy (st : σ) (fs : List Char) : σ × Bool :=
  match if z.zfs_is_shared st fs then z.zfs_unshareall st fs else (st, true) with
  | (st, false) => (st, false)
  | (st, true) =>
      match if z.zfs_is_mounted st fs then z.zfs_unmountall st fs else (st, true) with
      | (st, false) => (st, false)
      | (st, true) => z.zfs_destroy st fs

/-- The handle of the snapshot is the one that was opened for its name. -/
def raw_zfs_destroy (st : σ) (snap : snapshot_t) : σ × Bool :=
  uzfs_filesystem_destroy z st snap.name.toList

end Functions

/-! ## Each filesystem once -/

theorem ascii_equal_keys : HashtableChains.KeyEquality ascii_hash_cs ascii_equal_cs id := by
  constructor
  · constructor <;> simp_all [ascii_equal_cs]
  · intro a b h
    rw [eq_of_beq h]
  · simp [ascii_equal_cs]

/-- What the table holds after a filesystem was put into it. -/
def put_once (fss : List (List Char)) (fs : List Char) : List (List Char) :=
  if fs ∈ fss then fss else fss ++ [fs]

/-- As long as the filesystems are fewer than the buckets, the table is that of its
beginning. -/
theorem assoc_run_put (fss : List (List Char)) : ∀ seen : List (List Char),
    seen.length + fss.length < Hashtable.HASHTABLE_MIN_SIZE →
      HashtableRuns.assoc_run ascii_equal_cs id
          ⟨seen.map fun fs => (fs, fs), Hashtable.HASHTABLE_MIN_SIZE⟩ (fss.map put_filesystem)
        = ⟨(fss.foldl put_once seen).map fun fs => (fs, fs), Hashtable.HASHTABLE_MIN_SIZE⟩ := by
  induction fss with
  | nil => intro seen _; rfl
  | cons fs fss ih =>
      intro seen hlen
      rw [List.length_cons] at hlen
      have hentries : HashtableRuns.list_step ascii_equal_cs id (seen.map fun fs => (fs, fs))
          (put_filesystem fs) = (put_once seen fs).map fun fs => (fs, fs) := by
        have hany : ((seen.map fun fs => (fs, fs)).any fun e => ascii_equal_cs fs e.1) = true
            ↔ fs ∈ seen := by
          simp [ascii_equal_cs]
        simp only [put_filesystem, HashtableRuns.list_step, hany, put_once, if_true]
        split <;> simp
      have hput : (put_once seen fs).length ≤ seen.length + 1 := by
        unfold put_once
        split <;> simp
      have hgrown : HashtableChains.grown Hashtable.HASHTABLE_MIN_SIZE (put_once seen fs).length
          = Hashtable.HASHTABLE_MIN_SIZE := HashtableRuns.grown_self (by omega)
      have hstep : HashtableRuns.assoc_step ascii_equal_cs id
          ⟨seen.map fun fs => (fs, fs), Hashtable.HASHTABLE_MIN_SIZE⟩ (put_filesystem fs)
            = ⟨(put_once seen fs).map fun fs => (fs, fs), Hashtable.HASHTABLE_MIN_SIZE⟩ := by
        simp only [HashtableRuns.assoc_step, hentries, List.length_map, hgrown]
      have hrest := ih (put_once seen fs) (by omega)
      rw [HashtableRuns.assoc_run] at hrest ⊢
      rw [List.map_cons, List.foldl_cons, hstep, hrest, List.foldl_cons]

theorem put_once_spec (fss : List (List Char)) : ∀ seen : List (List Char), seen.Nodup →
    (fss.foldl put_once seen).Nodup
      ∧ ∀ fs, fs ∈ fss.foldl put_once seen ↔ fs ∈ seen ∨ fs ∈ fss := by
  induction fss with
  | nil => intro seen h; simpa using h
  | cons fs fss ih =>
      intro seen h
      have hput : (put_once seen fs).Nodup ∧ ∀ g, g ∈ put_once seen fs ↔ g ∈ seen ∨ g = fs := by
        unfold put_once
        by_cases hmem : fs ∈ seen
        · rw [if_pos hmem]
          exact ⟨h, fun g => ⟨Or.inl, fun hg => hg.elim id fun heq => heq ▸ hmem⟩⟩
        · rw [if_neg hmem]
          refine ⟨?_, fun g => by simp⟩
          rw [List.nodup_append]
          refine ⟨h, List.nodup_singleton fs, fun a ha b hb heq => hmem ?_⟩
          rwa [← List.mem_singleton.mp hb, ← heq]
      obtain ⟨hnodup, hmem⟩ := ih (put_once seen fs) hput.1
      refine ⟨hnodup, fun g => ?_⟩
      rw [List.foldl_cons, hmem, hput.2, List.mem_cons, or_assoc]

/-- **The loop over the table** comes by each filesystem of the paths, once. -/
theorem probed_spec (ptc : paths_to_check_t) :
    ∃ fss, probed ptc = .ok fss ∧ fss.Nodup ∧ ∀ fs, fs ∈ fss ↔ fs ∈ ptc.filesystems := by
  have hlen : ∀ path : Option (List Char), path.toList.length ≤ 1 := fun path => by
    cases path <;> simp
  -- three paths never fill the smallest table
  have hfew : ptc.filesystems.length < Hashtable.HASHTABLE_MIN_SIZE := by
    have h₁ := hlen ptc.root.fs
    have h₂ := hlen ptc.localbase.fs
    have h₃ := hlen ptc.pkg_dbdir.fs
    simp only [paths_to_check_t.filesystems, List.length_append, Hashtable.HASHTABLE_MIN_SIZE]
    omega
  have hinit : (HashtableRuns.assoc_init Hashtable.HASHTABLE_MIN_SIZE :
      HashtableRuns.Assoc (List Char) (List Char))
        = ⟨([] : List (List Char)).map fun fs => (fs, fs), Hashtable.HASHTABLE_MIN_SIZE⟩ := by
    have hcapacity : Hashtable.nearest_power Hashtable.HASHTABLE_MIN_SIZE
        Hashtable.HASHTABLE_MIN_SIZE = Hashtable.HASHTABLE_MIN_SIZE := by decide
    rw [HashtableRuns.assoc_init, hcapacity]
    rfl
  -- so that it is not resized, and holds each file system once
  have hrun : ∀ fss : List (List Char), fss.length < Hashtable.HASHTABLE_MIN_SIZE →
      HashtableRuns.assoc_run ascii_equal_cs id
          (HashtableRuns.assoc_init Hashtable.HASHTABLE_MIN_SIZE) (fss.map put_filesystem)
        = ⟨(fss.foldl put_once []).map fun fs => (fs, fs), Hashtable.HASHTABLE_MIN_SIZE⟩ := by
    intro fss h
    rw [hinit]
    exact assoc_run_put fss [] (by simpa using h)
  have hfits : ∀ pre, pre <+: ptc.filesystems.map put_filesystem →
      HashtableRuns.Fits ascii_hash_cs (HashtableRuns.assoc_run ascii_equal_cs id
        (HashtableRuns.assoc_init Hashtable.HASHTABLE_MIN_SIZE) pre) := by
    intro pre hpre
    obtain ⟨fss, hfss, rfl⟩ := List.prefix_map_iff.mp hpre
    have hle := hfss.length_le
    rw [hrun fss (by omega)]
    refine ⟨show Hashtable.HASHTABLE_MIN_SIZE < 2 ^ 61 by decide, fun e _ => ?_⟩
    have hindex : ascii_hash_cs e.1 &&& (Hashtable.HASHTABLE_MIN_SIZE - 1)
        ≤ Hashtable.HASHTABLE_MIN_SIZE - 1 := Nat.and_le_right
    exact Nat.lt_of_le_of_lt hindex (by decide)
  obtain ⟨ht, htable, hrefines⟩ := (HashtableRuns.run_refines_iff ascii_equal_keys _
    (HashtableRuns.init_simulates _ _)).mpr hfits _ (List.prefix_refl _)
  rw [hrun ptc.filesystems hfew] at hrefines
  obtain ⟨hnodup, hmem⟩ := put_once_spec ptc.filesystems [] List.nodup_nil
  refine ⟨ptc.filesystems.foldl put_once [], ?_, hnodup, fun fs => by simpa using hmem fs⟩
  rw [probed, htable, Fallible.ok_bind, hrefines.forward]
  simp [pure, Except.pure, bind, Except.bind, Function.comp_def]

/-! ## What libzfs does -/

/-- The properties of a snapshot that are set one after the other, until one can't
be. -/
def set_all (z : libraries σ) (n : List Char) : σ → List (List Char × List Char) → σ × Bool
  | st, [] => (st, true)
  | st, (prop, value) :: props =>
      match z.zfs_prop_set st n prop value with
      | (st, false) => (st, false)
      | (st, true) => set_all z n st props

/-- The date of creation, as libzfs prints it. -/
def creation (z : access σ) (st : σ) (n : List Char) : Option (List Char) :=
  z.zfs_prop_get st n "creation".toList 128

/-- The snapshots are the same, but for those that are `gone`, and so are their
dates. -/
structure Without (z : access σ) (gone : List Char → Prop) (st st' : σ) : Prop where
  mem : ∀ n, n ∈ z.snapshots st' ↔ n ∈ z.snapshots st ∧ ¬ gone n
  creation : ∀ n, n ∈ z.snapshots st' → creation z st' n = creation z st n

/-- The snapshots of a filesystem. -/
def Of (fs n : List Char) : Prop := ∃ snapshot, n = snapshot_name fs snapshot

theorem prefix_iff_of (fs n : List Char) : fs ++ ['@'] <+: n ↔ Of fs n := by
  unfold Of snapshot_name
  constructor
  · rintro ⟨snapshot, rfl⟩
    exact ⟨snapshot, by simp⟩
  · rintro ⟨snapshot, rfl⟩
    exact ⟨snapshot, by simp⟩

instance (fs n : List Char) : Decidable (Of fs n) :=
  decidable_of_iff (fs ++ ['@'] <+: n) (prefix_iff_of fs n)

/-- The documented behaviour of libzfs. The snapshots of one request have one date;
setting a property of a snapshot is no matter of the others, which can be set as
before; a date never changes. -/
structure Documented (z : access σ) : Prop extends ZfsProperties.Documented z.tolibraries where
  filesystem_name : ∀ st, ∀ fs ∈ z.filesystems st, '@' ∉ fs
  snapshot_creation : ∀ st fs snapshot recursive, fs ∈ z.filesystems st →
    (z.zfs_snapshot st (snapshot_name fs snapshot) recursive).2 = true →
    ∀ n ∈ requested z.tolibraries st fs snapshot recursive,
      creation z (z.zfs_snapshot st (snapshot_name fs snapshot) recursive).1 n
        = creation z (z.zfs_snapshot st (snapshot_name fs snapshot) recursive).1
          (snapshot_name fs snapshot)
  set_creation : ∀ st m prop value n,
    creation z (z.zfs_prop_set st m prop value).1 n = creation z st n
  set_apart : ∀ st m prop value n props, m ∈ z.snapshots st → n ∈ z.snapshots st → n ≠ m →
    (set_all z.tolibraries n (z.zfs_prop_set st m prop value).1 props).2
      = (set_all z.tolibraries n st props).2
  iter : ∀ st, ∀ fs ∈ z.filesystems st,
    ∀ n, n ∈ z.zfs_iter_snapshots st fs ↔ n ∈ z.snapshots st ∧ Of fs n
  iter_once : ∀ st fs, (z.zfs_iter_snapshots st fs).Nodup
  unshare : ∀ st n, Without z (fun _ => False) st (z.zfs_unshareall st n).1
  unmount : ∀ st n, Without z (fun _ => False) st (z.zfs_unmountall st n).1
  destroy_fails : ∀ st n, (z.zfs_destroy st n).2 = false →
    Without z (fun _ => False) st (z.zfs_destroy st n).1
  destroys : ∀ st n, n ∈ z.snapshots st → (z.zfs_destroy st n).2 = true →
    Without z (fun m => m = n) st (z.zfs_destroy st n).1

/-! ## What is recognised -/

/-- What `has_zfs_properties` recognises: the properties are there, or the version is
not and the name is one of those that get both, which can be set. -/
def Recognisable (z : libraries σ) (ZINT_VERSION_NUMBER : UInt64) (st : σ) (n : List Char) : Prop :=
  Carries z st n ∨ uzfs_get_prop_numeric z st n ZINT_VERSION_PROPERTY = none
    ∧ transitional n = true
    ∧ (set_zfs_properties z ZINT_VERSION_NUMBER st n "PRE:UPGRADE".toList).2 = true

instance (z : libraries σ) (ZINT_VERSION_NUMBER : UInt64) (st : σ) (n : List Char) :
    Decidable (Recognisable z ZINT_VERSION_NUMBER st n) :=
  inferInstanceAs (Decidable (_ ∨ _))

theorem set_zfs_properties_eq (z : libraries σ) (ZINT_VERSION_NUMBER : UInt64) (st : σ)
    (n hook : List Char) :
    set_zfs_properties z ZINT_VERSION_NUMBER st n hook
      = set_all z n st [(ZINT_VERSION_PROPERTY, Nat.toDigits 10 ZINT_VERSION_NUMBER.toNat),
          (ZINT_HOOK_PROPERTY, hook)] := by
  unfold set_zfs_properties uzfs_set_prop_numeric
  simp only [set_all]
  generalize z.zfs_prop_set st n ZINT_VERSION_PROPERTY
    (Nat.toDigits 10 ZINT_VERSION_NUMBER.toNat) = r
  obtain ⟨st₁, ok⟩ := r
  cases ok with
  | false => rfl
  | true =>
      simp only
      generalize z.zfs_prop_set st₁ n ZINT_HOOK_PROPERTY hook = r
      obtain ⟨st₂, ok⟩ := r
      cases ok <;> rfl

/-- For a snapshot nothing is different: its properties, its date, and what setting
its properties comes to. -/
structure Alike (z : access σ) (n : List Char) (st st' : σ) : Prop where
  props : ∀ prop, z.zfs_get_user_props st' n prop = z.zfs_get_user_props st n prop
  creation : creation z st' n = creation z st n
  sets : ∀ props, (set_all z.tolibraries n st' props).2 = (set_all z.tolibraries n st props).2

/-- A part of a listing: the snapshots in `seen` may have got properties. -/
structure Listing (z : access σ) (seen : List (List Char)) (st st' : σ) : Prop where
  filesystems : z.filesystems st' = z.filesystems st
  snapshots : z.snapshots st' = z.snapshots st
  creation : ∀ n, creation z st' n = creation z st n
  alike : ∀ n ∈ z.snapshots st, n ∉ seen → Alike z n st st'

variable {z : access σ} {ZINT_VERSION_NUMBER : UInt64}

theorem Listing.refl (seen : List (List Char)) (st : σ) : Listing z seen st st :=
  ⟨rfl, rfl, fun _ => rfl, fun _ _ _ => ⟨fun _ => rfl, rfl, fun _ => rfl⟩⟩

theorem Listing.trans {seen seen' : List (List Char)} {st st' st'' : σ} (h : Listing z seen st st')
    (h' : Listing z seen' st' st'') : Listing z (seen ++ seen') st st'' := by
  refine ⟨h'.filesystems.trans h.filesystems, h'.snapshots.trans h.snapshots, fun n => ?_,
    fun n hn hunseen => ?_⟩
  · rw [h'.creation, h.creation]
  · rw [List.mem_append, not_or] at hunseen
    have hfirst := h.alike n hn hunseen.1
    have hsecond := h'.alike n (h.snapshots ▸ hn) hunseen.2
    refine ⟨fun prop => ?_, hsecond.creation.trans hfirst.creation, fun props => ?_⟩
    · rw [hsecond.props, hfirst.props]
    · rw [hsecond.sets, hfirst.sets]

theorem recognisable_congr {st st' : σ} {n : List Char} (h : Alike z n st st') :
    Recognisable z.tolibraries ZINT_VERSION_NUMBER st' n
      ↔ Recognisable z.tolibraries ZINT_VERSION_NUMBER st n := by
  unfold Recognisable Carries uzfs_get_prop_numeric uzfs_get_prop
  rw [set_zfs_properties_eq, set_zfs_properties_eq, h.props, h.props, h.sets]

/-- A property that is set. -/
theorem listing_of_set (hz : Documented z) {st : σ} {n : List Char} (hn : n ∈ z.snapshots st)
    (prop value : List Char) : Listing z [n] st (z.zfs_prop_set st n prop value).1 := by
  have honly := hz.setting_snapshots.onlyOn hn prop value
  refine ⟨hz.set_filesystems st n prop value, honly.kept, fun m => hz.set_creation st n prop value m,
    fun m hm hunseen => ?_⟩
  rw [List.mem_singleton] at hunseen
  exact ⟨honly.other m hm hunseen, hz.set_creation st n prop value m,
    fun props => hz.set_apart st n prop value m props hn hm hunseen⟩

theorem listing_of_set_all (hz : Documented z) {n : List Char} (props : List (List Char × List Char)) :
    ∀ st : σ, n ∈ z.snapshots st → Listing z [n] st (set_all z.tolibraries n st props).1 := by
  induction props with
  | nil => intro st _; exact Listing.refl [n] st
  | cons prop props ih =>
      intro st hn
      have hset := listing_of_set hz hn prop.1 prop.2
      rw [set_all]
      generalize z.zfs_prop_set st n prop.1 prop.2 = r at hset
      obtain ⟨st₁, ok⟩ := r
      cases ok with
      | false => exact hset
      | true =>
          have hboth := hset.trans (ih st₁ (hset.snapshots ▸ hn))
          refine ⟨hboth.filesystems, hboth.snapshots, hboth.creation, fun m hm hunseen => ?_⟩
          exact hboth.alike m hm (by simpa using hunseen)

theorem carries_of_set (hz : Documented z) (ZINT_VERSION_NUMBER : UInt64) {st : σ}
    {n hook : List Char} (hn : n ∈ z.snapshots st) (hlen : hook.length < 100)
    (h : (set_zfs_properties z.tolibraries ZINT_VERSION_NUMBER st n hook).2 = true) :
    Carries z.tolibraries (set_zfs_properties z.tolibraries ZINT_VERSION_NUMBER st n hook).1 n := by
  rw [(set_zfs_properties_spec hz.setting_snapshots ZINT_VERSION_NUMBER hn hook).2]
  unfold set_zfs_properties at h
  unfold Tagged
  simp only
  generalize uzfs_set_prop_numeric z.tolibraries st n ZINT_VERSION_PROPERTY ZINT_VERSION_NUMBER = r
    at h
  obtain ⟨st₁, ok⟩ := r
  cases ok with
  | false => exact absurd h (by simp)
  | true =>
      simp only at h
      rw [if_pos rfl, if_pos h]
      exact hlen

/-- **`has_zfs_properties`** ends after two passes at most, recognises what is
recognisable, and touches nothing else. -/
theorem has_zfs_properties_spec (hz : Documented z) (ZINT_VERSION_NUMBER : UInt64) {st : σ}
    {n : List Char} (hn : n ∈ z.snapshots st) (fuel : ℕ) :
    ∃ st' r, has_zfs_properties z.tolibraries ZINT_VERSION_NUMBER (fuel + 2) st n = some (st', r)
      ∧ (r.isSome ↔ Recognisable z.tolibraries ZINT_VERSION_NUMBER st n)
      ∧ Listing z [n] st st' := by
  have hsets := listing_of_set_all hz (n := n) [(ZINT_VERSION_PROPERTY,
    Nat.toDigits 10 ZINT_VERSION_NUMBER.toNat), (ZINT_HOOK_PROPERTY, "PRE:UPGRADE".toList)] st hn
  rw [← set_zfs_properties_eq] at hsets
  have hcarries := carries_of_set hz ZINT_VERSION_NUMBER hn
    (show "PRE:UPGRADE".toList.length < 100 by decide)
  rw [has_zfs_properties, Recognisable]
  cases hversion : uzfs_get_prop_numeric z.tolibraries st n ZINT_VERSION_PROPERTY with
  | some version =>
      cases hhook : uzfs_get_prop z.tolibraries st n ZINT_HOOK_PROPERTY 100 with
      | none => exact ⟨st, none, rfl, by simp [Carries, hhook], Listing.refl _ st⟩
      | some hook =>
          exact ⟨st, some (hook, version), rfl, by simp [Carries, hversion, hhook],
            Listing.refl _ st⟩
  | none =>
      cases htransitional : transitional n with
      | false => exact ⟨st, none, rfl, by simp [Carries, hversion], Listing.refl _ st⟩
      | true =>
          simp only [if_true, Carries, hversion, Option.isSome_none, Bool.false_eq_true, false_and,
            false_or, true_and]
          generalize set_zfs_properties z.tolibraries ZINT_VERSION_NUMBER st n "PRE:UPGRADE".toList = r
            at hsets hcarries
          obtain ⟨st₁, ok⟩ := r
          cases ok with
          | false => exact ⟨st₁, none, rfl, by simp, hsets⟩
          | true =>
              -- the second pass finds what the first one has set
              obtain ⟨hook, version, hagain⟩ :=
                has_zfs_properties_of_carries ZINT_VERSION_NUMBER (hcarries rfl) fuel
              exact ⟨st₁, some (hook, version), hagain, by simp, hsets⟩

/-! ## What is listed -/

/-- The name of a listed snapshot. -/
def named (snap : snapshot_t) : List Char := snap.name.toList

/-- The snapshots of a list have these dates. -/
def Dated (z : access σ) (st : σ) (data : List snapshot_t) : Prop :=
  ∀ snap ∈ data, ∃ date, uzfs_get_creation z st (named snap) = some date
    ∧ snap.creation = UInt64.ofNat date

/-- The list of a filesystem: its recognisable snapshots, each once, with their
dates. -/
structure Listed (z : access σ) (ZINT_VERSION_NUMBER : UInt64) (st : σ) (fs : List Char)
    (data : List snapshot_t) : Prop where
  once : (data.map named).Nodup
  mem : ∀ n, n ∈ data.map named
    ↔ n ∈ z.snapshots st ∧ Of fs n ∧ Recognisable z.tolibraries ZINT_VERSION_NUMBER st n
  dated : Dated z st data

theorem named_cast {st : σ} {n : List Char} {hook : ℤ} {version : ℕ} {snap : snapshot_t}
    (h : raw_zfs_cast_to_snapshot z st n hook version = some snap) :
    named snap = n ∧ ∃ date, uzfs_get_creation z st n = some date
      ∧ snap.creation = UInt64.ofNat date := by
  unfold raw_zfs_cast_to_snapshot at h
  split at h
  · exact absurd h (by simp)
  · cases hdate : uzfs_get_creation z st n with
    | none => simp [hdate] at h
    | some date =>
        rw [hdate, Option.some.injEq] at h
        subst h
        exact ⟨String.toList_ofList, date, rfl, rfl⟩

theorem dated_congr {st st' : σ} {data : List snapshot_t}
    (h : ∀ n, creation z st' n = creation z st n) : Dated z st' data ↔ Dated z st data := by
  unfold Dated uzfs_get_creation
  simp only [show ∀ n, z.zfs_prop_get st' n "creation".toList 128
    = z.zfs_prop_get st n "creation".toList 128 from h]

/-- Of some snapshots the recognisable ones, in their order and with their dates. -/
structure Picked (z : access σ) (ZINT_VERSION_NUMBER : UInt64) (st : σ) (snaps : List (List Char))
    (data : List snapshot_t) : Prop where
  sublist : (data.map named).Sublist snaps
  mem : ∀ n ∈ snaps, n ∈ data.map named ↔ Recognisable z.tolibraries ZINT_VERSION_NUMBER st n
  dated : Dated z st data

theorem Picked.skip {st st' : σ} {n : List Char} {snaps : List (List Char)} {data : List snapshot_t}
    (h : Picked z ZINT_VERSION_NUMBER st' snaps data) (hstep : Listing z [n] st st')
    (hn : n ∉ snaps) (hsnaps : ∀ m ∈ snaps, m ∈ z.snapshots st)
    (hnot : ¬ Recognisable z.tolibraries ZINT_VERSION_NUMBER st n) :
    Picked z ZINT_VERSION_NUMBER st (n :: snaps) data := by
  refine ⟨h.sublist.cons n, fun m hm => ?_, (dated_congr hstep.creation).mp h.dated⟩
  rcases List.mem_cons.mp hm with rfl | hm
  · exact iff_of_false (fun hmem => hn (h.sublist.subset hmem)) hnot
  · have hne : m ≠ n := fun heq => hn (heq ▸ hm)
    rw [h.mem m hm, recognisable_congr (hstep.alike m (hsnaps m hm) (by simpa using hne))]

theorem Picked.take {st st' : σ} {n : List Char} {snaps : List (List Char)} {data : List snapshot_t}
    {snap : snapshot_t} (h : Picked z ZINT_VERSION_NUMBER st' snaps data)
    (hstep : Listing z [n] st st') (hn : n ∉ snaps) (hsnaps : ∀ m ∈ snaps, m ∈ z.snapshots st)
    (hrecognisable : Recognisable z.tolibraries ZINT_VERSION_NUMBER st n) (hname : named snap = n)
    (hdate : ∃ date, uzfs_get_creation z st' n = some date ∧ snap.creation = UInt64.ofNat date) :
    Picked z ZINT_VERSION_NUMBER st (n :: snaps) (snap :: data) := by
  have hdated : Dated z st' (snap :: data) := by
    intro s hs
    rcases List.mem_cons.mp hs with rfl | hs
    · rwa [hname]
    · exact h.dated s hs
  refine ⟨?_, fun m hm => ?_, (dated_congr hstep.creation).mp hdated⟩
  · rw [List.map_cons, hname]
    exact h.sublist.cons_cons n
  · rw [List.map_cons, hname, List.mem_cons]
    rcases List.mem_cons.mp hm with rfl | hm
    · exact iff_of_true (Or.inl rfl) hrecognisable
    · have hne : m ≠ n := fun heq => hn (heq ▸ hm)
      rw [or_iff_right hne, h.mem m hm,
        recognisable_congr (hstep.alike m (hsnaps m hm) (by simpa using hne))]

theorem dlist_append_wellFormed {l : DList snapshot_t} {data : List snapshot_t}
    (h : WellFormed l data) (snap : snapshot_t) :
    ∃ l', dlist_append l snap = .ok l' ∧ WellFormed l' (data ++ [snap]) := by
  obtain ⟨ns, hns, rfl⟩ := h
  obtain ⟨l', hrun, hrep⟩ := dlist_append_spec hns snap
  exact ⟨l', hrun, _, hrep, by simp⟩

variable (ZINT_VERSION_NUMBER) (name_to_hook : List Char → ℤ)

/-- One call of the callback. -/
theorem callback_spec (hz : Documented z) {st : σ} {n : List Char} (hn : n ∈ z.snapshots st)
    {l : DList snapshot_t} {acc : List snapshot_t} (hl : WellFormed l acc) (fuel : ℕ) :
    ∃ st' l' ok, snaphosts_iter_callback_build_array z ZINT_VERSION_NUMBER name_to_hook (fuel + 2)
          st l n = .ok (st', l', ok)
      ∧ Listing z [n] st st'
      ∧ (ok = true →
        ¬ Recognisable z.tolibraries ZINT_VERSION_NUMBER st n ∧ WellFormed l' acc
        ∨ Recognisable z.tolibraries ZINT_VERSION_NUMBER st n ∧ ∃ snap, WellFormed l' (acc ++ [snap])
          ∧ named snap = n ∧ ∃ date, uzfs_get_creation z st' n = some date
            ∧ snap.creation = UInt64.ofNat date) := by
  obtain ⟨st', r, hrun, hrecognised, hstep⟩ :=
    has_zfs_properties_spec hz ZINT_VERSION_NUMBER hn fuel
  rw [snaphosts_iter_callback_build_array, hrun]
  cases r with
  | none =>
      refine ⟨st', l, true, rfl, hstep, fun _ => Or.inl ⟨?_, hl⟩⟩
      rw [← hrecognised]
      simp
  | some r =>
      obtain ⟨hook, version⟩ := r
      simp only
      cases hcast : raw_zfs_cast_to_snapshot z st' n (name_to_hook hook) version with
      | none => exact ⟨st', l, false, rfl, hstep, fun h => absurd h (by simp)⟩
      | some snap =>
          obtain ⟨l', happend, hl'⟩ := dlist_append_wellFormed hl snap
          obtain ⟨hname, hdate⟩ := named_cast hcast
          refine ⟨st', l', true, by simp only [happend]; rfl, hstep,
            fun _ => Or.inr ⟨?_, snap, hl', hname, hdate⟩⟩
          rw [← hrecognised]
          simp

/-- The calls of the callback on some snapshots. -/
theorem iter_callbacks_spec (hz : Documented z) (fuel : ℕ) (snaps : List (List Char)) :
    ∀ (st : σ) (l : DList snapshot_t) (acc : List snapshot_t), WellFormed l acc → snaps.Nodup →
      (∀ n ∈ snaps, n ∈ z.snapshots st) →
      ∃ st' l' ok, iter_callbacks z ZINT_VERSION_NUMBER name_to_hook (fuel + 2) st l snaps
            = .ok (st', l', ok)
        ∧ Listing z snaps st st'
        ∧ (ok = true → ∃ data, WellFormed l' (acc ++ data)
          ∧ Picked z ZINT_VERSION_NUMBER st snaps data) := by
  induction snaps with
  | nil =>
      intro st l acc hl _ _
      refine ⟨st, l, true, rfl, Listing.refl _ st, fun _ => ⟨[], by simpa using hl, ?_⟩⟩
      exact ⟨List.Sublist.refl _, fun _ hn => absurd hn (by simp), fun _ hs => absurd hs (by simp)⟩
  | cons n snaps ih =>
      intro st l acc hl hnodup hsnaps
      rw [List.nodup_cons] at hnodup
      rw [List.forall_mem_cons] at hsnaps
      obtain ⟨st₁, l₁, ok, hcall, hstep, hpick⟩ :=
        callback_spec ZINT_VERSION_NUMBER name_to_hook hz hsnaps.1 hl fuel
      have hsnaps₁ : ∀ m ∈ snaps, m ∈ z.snapshots st₁ := fun m hm =>
        hstep.snapshots ▸ hsnaps.2 m hm
      rw [iter_callbacks, hcall]
      cases ok with
      | false =>
          -- an error ends the iteration
          refine ⟨st₁, l₁, false, rfl, ?_, fun h => absurd h (by simp)⟩
          refine ⟨hstep.filesystems, hstep.snapshots, hstep.creation, fun m hm hunseen => ?_⟩
          rw [List.mem_cons, not_or] at hunseen
          exact hstep.alike m hm (by simpa using hunseen.1)
      | true =>
          rcases hpick rfl with ⟨hnot, hl₁⟩ | ⟨hrecognisable, snap, hl₁, hname, hdate⟩
          · -- the snapshot is passed over
            obtain ⟨st₂, l₂, ok', hrun, hrest, hpicked⟩ := ih st₁ l₁ acc hl₁ hnodup.2 hsnaps₁
            refine ⟨st₂, l₂, ok', hrun, hstep.trans hrest, fun hok => ?_⟩
            obtain ⟨data, hl₂, hdata⟩ := hpicked hok
            exact ⟨data, hl₂, hdata.skip hstep hnodup.1 hsnaps.2 hnot⟩
          · -- the snapshot is added at the end
            obtain ⟨st₂, l₂, ok', hrun, hrest, hpicked⟩ :=
              ih st₁ l₁ (acc ++ [snap]) hl₁ hnodup.2 hsnaps₁
            refine ⟨st₂, l₂, ok', hrun, hstep.trans hrest, fun hok => ?_⟩
            obtain ⟨data, hl₂, hdata⟩ := hpicked hok
            refine ⟨snap :: data, by simpa using hl₂, ?_⟩
            exact hdata.take hstep hnodup.1 hsnaps.2 hrecognisable hname hdate

/-- The listing of a filesystem. -/
theorem uzfs_iter_snapshots_spec (hz : Documented z) (fuel : ℕ) {st : σ} {fs : List Char}
    (hfs : fs ∈ z.filesystems st) :
    ∃ st' l ok, uzfs_iter_snapshots z ZINT_VERSION_NUMBER name_to_hook (fuel + 2) st fs dlist_init
          = .ok (st', l, ok)
      ∧ Listing z (z.zfs_iter_snapshots st fs) st st'
      ∧ (ok = true → ∃ data, WellFormed l data ∧ Listed z ZINT_VERSION_NUMBER st fs data) := by
  have hiter := hz.iter st fs hfs
  obtain ⟨st', l, ok, hrun, hlisting, hpicked⟩ := iter_callbacks_spec ZINT_VERSION_NUMBER name_to_hook
    hz fuel (z.zfs_iter_snapshots st fs) st dlist_init [] ⟨[], dlist_init_spec, rfl⟩
    (hz.iter_once st fs) fun n hn => ((hiter n).mp hn).1
  refine ⟨st', l, ok, hrun, hlisting, fun hok => ?_⟩
  obtain ⟨data, hl, hdata⟩ := hpicked hok
  refine ⟨data, by simpa using hl, hdata.sublist.nodup (hz.iter_once st fs), fun n => ?_,
    hdata.dated⟩
  rw [← and_assoc, ← hiter]
  constructor
  · intro hmem
    have hn := hdata.sublist.subset hmem
    exact ⟨hn, (hdata.mem n hn).mp hmem⟩
  · exact fun h => (hdata.mem n h.1).mpr h.2

theorem of_unique {fs fs' n : List Char} (hfs : '@' ∉ fs) (hfs' : '@' ∉ fs') (h : Of fs n)
    (h' : Of fs' n) : fs = fs' := by
  obtain ⟨snapshot, rfl⟩ := h
  obtain ⟨snapshot', heq⟩ := h'
  rw [← (RawZfs.split_snapshot_name hfs snapshot).1, heq,
    (RawZfs.split_snapshot_name hfs' snapshot').1]

variable {ZINT_VERSION_NUMBER} in
/-- The listing of other filesystems before is no matter. -/
theorem Listed.before {seen : List (List Char)} {st st' : σ} {fs : List Char}
    {data : List snapshot_t} (h : Listed z ZINT_VERSION_NUMBER st' fs data)
    (hlisting : Listing z seen st st') (hother : ∀ n ∈ seen, ¬ Of fs n) :
    Listed z ZINT_VERSION_NUMBER st fs data := by
  refine ⟨h.once, fun n => ?_, (dated_congr hlisting.creation).mp h.dated⟩
  rw [h.mem, hlisting.snapshots]
  refine and_congr_right fun hn => and_congr_right fun hof => recognisable_congr ?_
  exact hlisting.alike n hn fun hseen => hother n hseen hof

theorem raw_zfs_list_loop_spec (hz : Documented z) (fuel : ℕ) (fss : List (List Char)) :
    ∀ st : σ, fss.Nodup → (∀ fs ∈ fss, fs ∈ z.filesystems st) →
      ∃ st' ok lists, raw_zfs_list_loop z ZINT_VERSION_NUMBER name_to_hook (fuel + 2) st fss
            = .ok (st', ok, lists)
        ∧ (∃ seen, Listing z seen st st')
        ∧ (ok = true → ∃ datas, List.Forall₂ WellFormed lists datas
          ∧ List.Forall₂ (Listed z ZINT_VERSION_NUMBER st) fss datas) := by
  induction fss with
  | nil =>
      intro st _ _
      exact ⟨st, true, [], rfl, ⟨[], Listing.refl _ st⟩, fun _ => ⟨[], .nil, .nil⟩⟩
  | cons fs fss ih =>
      intro st hnodup hexist
      rw [List.nodup_cons] at hnodup
      rw [List.forall_mem_cons] at hexist
      obtain ⟨st₁, l, ok, hiter, hlisting, hlisted⟩ :=
        uzfs_iter_snapshots_spec ZINT_VERSION_NUMBER name_to_hook hz fuel hexist.1
      rw [raw_zfs_list_loop, hiter]
      cases ok with
      | false => exact ⟨st₁, false, [l], rfl, ⟨_, hlisting⟩, fun h => absurd h (by simp)⟩
      | true =>
          obtain ⟨data, hl, hdata⟩ := hlisted rfl
          obtain ⟨st₂, ok', lists, hrun, ⟨seen, hrest⟩, hdatas⟩ := ih st₁ hnodup.2 fun fs' hfs' =>
            hlisting.filesystems ▸ hexist.2 fs' hfs'
          refine ⟨st₂, ok', l :: lists, ?_, ⟨_, hlisting.trans hrest⟩, fun hok => ?_⟩
          · show (raw_zfs_list_loop z ZINT_VERSION_NUMBER name_to_hook (fuel + 2) st₁ fss
              >>= fun r => Except.ok (r.1, r.2.1, l :: r.2.2)) = _
            rw [hrun]
            rfl
          obtain ⟨datas, hlists, hlisted'⟩ := hdatas hok
          refine ⟨data :: datas, .cons hl hlists, .cons hdata ?_⟩
          -- the snapshots of another filesystem are not those that were seen
          refine ((List.forall₂_and_left fss datas).mpr ⟨fun _ h => h, hlisted'⟩).imp
            fun fs' data' h => h.2.before hlisting fun n hn hof => ?_
          have hfs : fs = fs' := of_unique (hz.filesystem_name st fs hexist.1)
            (hz.filesystem_name st fs' (hexist.2 fs' h.1)) ((hz.iter st fs hexist.1 n).mp hn).2 hof
          exact hnodup.1 (hfs ▸ h.1)

/-- **`raw_zfs_list`** ends, and if it succeeds there is a list for each filesystem
of the paths, of its recognisable snapshots. -/
theorem raw_zfs_list_spec (hz : Documented z) (fuel : ℕ) (ptc : paths_to_check_t) {st : σ}
    (hexist : ∀ fs ∈ ptc.filesystems, fs ∈ z.filesystems st) :
    ∃ st' ok lists, raw_zfs_list z ZINT_VERSION_NUMBER name_to_hook (fuel + 2) ptc st
          = .ok (st', ok, lists)
      ∧ (∃ seen, Listing z seen st st')
      ∧ (ok = true → ∃ fss datas, fss.Nodup ∧ (∀ fs, fs ∈ fss ↔ fs ∈ ptc.filesystems)
        ∧ List.Forall₂ WellFormed lists datas
        ∧ List.Forall₂ (Listed z ZINT_VERSION_NUMBER st) fss datas) := by
  obtain ⟨fss, hprobed, hnodup, hmem⟩ := probed_spec ptc
  obtain ⟨st', ok, lists, hrun, hlisting, hdatas⟩ := raw_zfs_list_loop_spec ZINT_VERSION_NUMBER
    name_to_hook hz fuel fss st hnodup fun fs hfs => hexist fs ((hmem fs).mp hfs)
  refine ⟨st', ok, lists, by rw [raw_zfs_list, hprobed]; exact hrun, hlisting, fun hok => ?_⟩
  obtain ⟨datas, hlists, hlisted⟩ := hdatas hok
  exact ⟨fss, datas, hnodup, hmem, hlists, hlisted⟩

/-! ## What is destroyed -/

theorem Without.refl (st : σ) : Without z (fun _ => False) st st :=
  ⟨fun _ => by simp, fun _ _ => rfl⟩

theorem Without.trans {gone gone' : List Char → Prop} {st st' st'' : σ}
    (h : Without z gone st st') (h' : Without z gone' st' st'') :
    Without z (fun n => gone n ∨ gone' n) st st'' := by
  refine ⟨fun n => ?_, fun n hn => ?_⟩
  · rw [h'.mem, h.mem, and_assoc, not_or]
  · rw [h'.creation n hn, h.creation n ((h'.mem n).mp hn).1]

theorem Without.congr {gone gone' : List Char → Prop} {st st' : σ} (h : Without z gone st st')
    (hiff : ∀ n, gone n ↔ gone' n) : Without z gone' st st' :=
  ⟨fun n => by rw [h.mem, hiff], h.creation⟩

/-- A step before the deletion, if it is needed. -/
theorem without_of_step (needed : Bool) {st : σ} {r : σ × Bool}
    (h : Without z (fun _ => False) st r.1) :
    Without z (fun _ => False) st (if needed then r else (st, true)).1 := by
  cases needed with
  | false => exact Without.refl st
  | true => exact h

/-- **A snapshot that is destroyed** is gone, and no other. -/
theorem uzfs_filesystem_destroy_spec (hz : Documented z) {st : σ} {n : List Char}
    (hn : n ∈ z.snapshots st) :
    Without z (fun m => (uzfs_filesystem_destroy z st n).2 = true ∧ m = n) st
      (uzfs_filesystem_destroy z st n).1 := by
  have hunshare := without_of_step (z.zfs_is_shared st n) (hz.unshare st n)
  unfold uzfs_filesystem_destroy
  generalize (if z.zfs_is_shared st n then z.zfs_unshareall st n else (st, true)) = r at hunshare
  obtain ⟨st₁, ok⟩ := r
  cases ok with
  | false => exact hunshare.congr fun m => by simp
  | true =>
      have hunmount := hunshare.trans
        (without_of_step (z.zfs_is_mounted st₁ n) (hz.unmount st₁ n))
      simp only
      generalize (if z.zfs_is_mounted st₁ n then z.zfs_unmountall st₁ n else (st₁, true)) = r
        at hunmount
      obtain ⟨st₂, ok⟩ := r
      cases ok with
      | false => exact hunmount.congr fun m => by simp
      | true =>
          have hn₂ : n ∈ z.snapshots st₂ := (hunmount.mem n).mpr ⟨hn, by simp⟩
          have hdestroys := hz.destroys st₂ n hn₂
          have hfails := hz.destroy_fails st₂ n
          simp only
          generalize z.zfs_destroy st₂ n = r at hdestroys hfails
          obtain ⟨st₃, ok⟩ := r
          cases ok with
          | false => exact (hunmount.trans (hfails rfl)).congr fun m => by simp
          | true => exact (hunmount.trans (hdestroys rfl)).congr fun m => by simp

end PkgPlugins.ListSnapshots
