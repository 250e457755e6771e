/-
The errors of zint: `_error_set` (`error/error.c`), and the functions of `zfs.c`,
`raw_zfs_method.c`, `be_method.c` and `plugin_zfs_integration.c` that take a snapshot,
list the snapshots and destroy one, with their `char **error`.

`_error_set` warns of a message that is there already and then frees the address of
the variable, not the message: a run stops there. The messages are those without
`DEBUG`, and no allocation fails.

Most functions set the error once, where a call fails, and stop (`Reports`).
`set_zfs_properties` doesn't: `uzfs_set_prop` has set the error when it sets its own
(`set_zfs_properties_overwrites`).
-/
import PkgPlugins.WriteOnce
import PkgPlugins.TakeSnapshot
import PkgPlugins.ListSnapshots

set_option autoImplicit false

namespace PkgPlugins.ZintErrors

open PkgPlugins.WriteOnce PkgPlugins.Buffers PkgPlugins.ZfsProperties
open PkgPlugins.Zfs (ZFS_MAX_NAME_LEN snapshot_name)
open PkgPlugins.RawZfs (paths_to_check_t path_to_check_t raw_zfs_context_t null_handle
  ZINT_HOOK_PROPERTY ZINT_VERSION_PROPERTY)
open PkgPlugins.TakeSnapshot (method Requestable asked)
open PkgPlugins.ListSnapshots (access SNAPSHOT_MAX_NAME_LEN probed named)
open PkgPlugins.Dlist (DList WellFormed dlist_init dlist_append)
open PkgPlugins.Purge (snapshot_t)

variable {σ φ : Type}

/-! ## libzfs and libbe -/

/-- A boot environment in the list of libbe: its name and its properties. -/
structure nvpair_t where
  nvpair_name : List Char
  dsprops : List (List Char × List Char)

/-- What is called besides: where a handle is got from, whether an iteration ends by
itself, and the texts of errors; the functions of libbe on the list of the boot
environments. -/
structure reporting (σ : Type) extends access σ where
  zfs_get_handle : σ → List Char → Bool
  zfs_iter_ends : σ → List Char → Bool
  libzfs_error_action : σ → String
  libzfs_error_description : σ → String
  be_prop_list_alloc : σ → Bool
  be_get_bootenv_props : σ → Option (List nvpair_t)
  be_destroy : σ → List Char → σ × Bool
  libbe_error_description : σ → String

/-! ## `error.c` -/

/-- `_error_set(error, format, ...)`, with the text that is formatted; `error` is `NULL`,
or the address of a variable that is `NULL` or holds a message. -/
def _error_set (message : String) : Writing String φ Unit := put message

def set_generic_error (message : String) : Writing String φ Unit := _error_set message

def set_buffer_overflow_error (dst : String) (e : buffer_overflow) : Writing String φ Unit :=
  _error_set (e.text dst)

section Functions

variable (z : reporting σ)

def set_zfs_error (st : σ) (message : String) : Writing String φ Unit :=
  _error_set (message ++ ": " ++ z.libzfs_error_action st ++ " " ++ z.libzfs_error_description st)

def set_be_error (st : σ) (message : String) : Writing String φ Unit :=
  _error_set (message ++ ": " ++ z.libbe_error_description st)

/-! ## The functions of `zfs.c` -/

def uzfs_set_prop (st : σ) (h name value : List Char) : Writing String φ (σ × Bool) :=
  match z.zfs_prop_set st h name value with
  | (st, true) => pure (st, true)
  | (st, false) => do
      set_zfs_error z st ("failed to set property '" ++ String.ofList name ++ "' to '"
        ++ String.ofList value ++ "'")
      pure (st, false)

def uzfs_set_prop_numeric (st : σ) (h name : List Char) (value : UInt64) :
    Writing String φ (σ × Bool) :=
  uzfs_set_prop z st h name (Nat.toDigits 10 value.toNat)

/-- `uzfs_snapshot`, for a scheme that is not passed to `strftime(3)`. -/
def uzfs_snapshot (st : σ) (filesystem scheme : List Char) (name_size : ℕ) (recursive : Bool) :
    Writing String φ (σ × Option (List Char)) :=
  if z.zfs_get_handle st filesystem = false then do
    set_generic_error "can't acquire a valid libzfs_handle_t"
    pure (st, none)
  else
    match stpcpy_sp name_size [] filesystem with
    | none => do
        set_buffer_overflow_error "name" ⟨"filesystem", filesystem, name_size⟩
        pure (st, none)
    | some w =>
        match stpcpy_sp name_size (w ++ ['@']) scheme with
        | none => do
            set_buffer_overflow_error "w" ⟨"scheme", scheme, name_size - (w.length + 1)⟩
            pure (st, none)
        | some name =>
            if z.zfs_name_valid name = false then do
              set_generic_error ("'" ++ String.ofList name ++ "' is not a valid ZFS snapshot name")
              pure (st, none)
            else
              match z.zfs_snapshot st name recursive with
              | (st, true) => pure (st, some name)
              | (st, false) => do
                  set_zfs_error z st ("zfs_snapshot failed to create snapshot '"
                    ++ String.ofList name ++ "'")
                  pure (st, none)

def uzfs_filesystem_destroy (st : σ) (fs : List Char) : Writing String φ (σ × Bool) :=
  if z.zfs_get_handle st fs = false then do
    set_generic_error "can't acquire a valid libzfs_handle_t"
    pure (st, false)
  else
    match if z.zfs_is_shared st fs then z.zfs_unshareall st fs else (st, true) with
    | (st, false) => do
        set_zfs_error z st ("zfs_unshareall " ++ String.ofList fs ++ " failed")
        pure (st, false)
    | (st, true) =>
        match if z.zfs_is_mounted st fs then z.zfs_unmountall st fs else (st, true) with
        | (st, false) => do
            set_zfs_error z st ("zfs_unmountall " ++ String.ofList fs ++ " failed")
            pure (st, false)
        | (st, true) =>
            match z.zfs_destroy st fs with
            | (st, true) => pure (st, true)
            | (st, false) => do
                set_zfs_error z st ("zfs_destroy " ++ String.ofList fs ++ " failed")
                pure (st, false)

/-! ## The functions of `raw_zfs_method.c` -/

variable (ZINT_VERSION_NUMBER : UInt64) (name_to_hook : List Char → ℤ)

def set_zfs_properties (st : σ) (fs hook : List Char) : Writing String φ (σ × Bool) := do
  match ← uzfs_set_prop_numeric z st fs ZINT_VERSION_PROPERTY ZINT_VERSION_NUMBER with
  | (st, false) =>
      set_generic_error ("setting property '" ++ String.ofList ZINT_VERSION_PROPERTY ++ "' to '"
        ++ toString ZINT_VERSION_NUMBER.toNat ++ "' on '" ++ String.ofList fs ++ "' failed")
      pure (st, false)
  | (st, true) =>
      match ← uzfs_set_prop z st fs ZINT_HOOK_PROPERTY hook with
      | (st, false) =>
          set_generic_error ("setting property '" ++ String.ofList ZINT_HOOK_PROPERTY ++ "' to '"
            ++ String.ofList hook ++ "' on '" ++ String.ofList fs ++ "' failed")
          pure (st, false)
      | (st, true) => pure (st, true)

/-- `has_zfs_properties`, whose only call with an error passes `NULL`. -/
def has_zfs_properties : ℕ → σ → List Char →
    Writing String ListSnapshots.Fault (σ × Option (List Char × ℕ))
  | 0, _, _ => lift (.error .diverges)
  | fuel + 1, st, fs =>
      match uzfs_get_prop_numeric z.tolibraries st fs ZINT_VERSION_PROPERTY with
      | some version =>
          match uzfs_get_prop z.tolibraries st fs ZINT_HOOK_PROPERTY 100 with
          | none => pure (st, none)
          | some hook => pure (st, some (hook, version))
      | none =>
          if transitional fs then do
            match ← detached (set_zfs_properties z ZINT_VERSION_NUMBER st fs "PRE:UPGRADE".toList) with
            | (st, true) => has_zfs_properties fuel st fs
            | (st, false) => pure (st, none)
          else pure (st, none)

def individual_snapshot (ctxt : raw_zfs_context_t) (st : σ) (fs : Option (List Char))
    (snapshot hook : List Char) : Writing String null_handle (σ × Bool) :=
  match fs with
  | none => lift (.error .mk)
  | some fs => do
      match ← uzfs_snapshot z st fs snapshot ZFS_MAX_NAME_LEN ctxt.recursive with
      | (st, none) => pure (st, false)
      | (st, some buffer) =>
          if z.zfs_open st buffer = false then do
            set_generic_error ("couldn't acquire a ZFS descriptor on snapshot '"
              ++ String.ofList buffer ++ "'")
            pure (st, false)
          else set_zfs_properties z ZINT_VERSION_NUMBER st buffer hook

/-- The snapshot of a path, unless it is not on ZFS. -/
def path_snapshot (ctxt : raw_zfs_context_t) (st : σ) (path : path_to_check_t)
    (snapshot hook : List Char) : Writing String null_handle (σ × Bool) :=
  if path.fs = none then pure (st, true)
  else individual_snapshot z ZINT_VERSION_NUMBER ctxt st path.fs snapshot hook

def raw_zfs_snapshot (ctxt : raw_zfs_context_t) (ptc : paths_to_check_t) (st : σ)
    (snapshot hook : List Char) : Writing String null_handle (σ × Bool) := do
  match ← individual_snapshot z ZINT_VERSION_NUMBER ctxt st ptc.root.fs snapshot hook with
  | (st, false) => pure (st, false)
  | (st, true) =>
      if ctxt.recursive then pure (st, true)
      else
        match ← path_snapshot z ZINT_VERSION_NUMBER ctxt st ptc.localbase snapshot hook with
        | (st, false) => pure (st, false)
        | (st, true) => path_snapshot z ZINT_VERSION_NUMBER ctxt st ptc.pkg_dbdir snapshot hook

def snaphosts_iter_callback_build_array (fuel : ℕ) (st : σ) (l : DList snapshot_t)
    (fs : List Char) : Writing String ListSnapshots.Fault (σ × DList snapshot_t × Bool) := do
  match ← has_zfs_properties z ZINT_VERSION_NUMBER fuel st fs with
  | (st, none) => pure (st, l, true)
  | (st, some (hook, version)) =>
      -- a date that can't be read is not reported
      match ListSnapshots.raw_zfs_cast_to_snapshot z.toaccess st fs (name_to_hook hook) version with
      | none => pure (st, l, false)
      | some snap => do
          let l ← lift ((dlist_append l snap).mapError .dlist)
          pure (st, l, true)

/-- The calls of the callback, until it fails. -/
def iter_callbacks (fuel : ℕ) : σ → DList snapshot_t → List (List Char) →
    Writing String ListSnapshots.Fault (σ × DList snapshot_t × Bool)
  | st, l, [] => pure (st, l, true)
  | st, l, snap :: snaps => do
      match ← snaphosts_iter_callback_build_array z ZINT_VERSION_NUMBER name_to_hook fuel st l snap with
      | (st, l, false) => pure (st, l, false)
      | (st, l, true) => iter_callbacks fuel st l snaps

/-- `uzfs_iter_snapshots` fails if the callback does, or libzfs. -/
def uzfs_iter_snapshots (fuel : ℕ) (st : σ) (fs : List Char) (l : DList snapshot_t) :
    Writing String ListSnapshots.Fault (σ × DList snapshot_t × Bool) := do
  let (st, l, ok) ←
    iter_callbacks z ZINT_VERSION_NUMBER name_to_hook fuel st l (z.zfs_iter_snapshots st fs)
  pure (st, l, ok && z.zfs_iter_ends st fs)

def raw_zfs_list_loop (fuel : ℕ) : σ → List (List Char) →
    Writing String ListSnapshots.Fault (σ × Bool × List (DList snapshot_t))
  | st, [] => pure (st, true, [])
  | st, fs :: fss => do
      match ← uzfs_iter_snapshots z ZINT_VERSION_NUMBER name_to_hook fuel st fs dlist_init with
      | (st, snapshots, false) => pure (st, false, [snapshots])
      | (st, snapshots, true) => do
          let (st, ok, l) ← raw_zfs_list_loop fuel st fss
          pure (st, ok, snapshots :: l)

def raw_zfs_list (fuel : ℕ) (ptc : paths_to_check_t) (st : σ) :
    Writing String ListSnapshots.Fault (σ × Bool × List (DList snapshot_t)) := do
  let fss ← lift ((probed ptc).mapError .hashtable)
  raw_zfs_list_loop z ZINT_VERSION_NUMBER name_to_hook fuel st fss

def raw_zfs_destroy (st : σ) (snap : snapshot_t) : Writing String φ (σ × Bool) :=
  uzfs_filesystem_destroy z st snap.name.toList

/-! ## The functions of `be_method.c` -/

variable (ZFS_MAX_DATASET_NAME_LEN : ℕ)

def BE_PROPERTY_CREATION : List Char := "creation".toList

def be_get_prop_numeric (be : nvpair_t) (property : List Char) : Writing String φ (Option ℕ) :=
  match be.dsprops.lookup property with
  | none => do
      set_generic_error ("couldn't retrieve property '" ++ String.ofList property ++ "' for BE '"
        ++ String.ofList be.nvpair_name ++ "'")
      pure none
  | some v =>
      match numeric v with
      | none => do
          set_generic_error ("value '" ++ String.ofList v ++ "' of property '"
            ++ String.ofList property ++ "' couldn't be properly parsed for BE '"
            ++ String.ofList be.nvpair_name ++ "'")
          pure none
      | some value => pure (some value)

def be_to_fs (st : σ) (be : List Char) : Writing String φ (Option (List Char)) :=
  match path_join ZFS_MAX_DATASET_NAME_LEN [z.be_root_path, be] with
  | .error e => do
      set_buffer_overflow_error "w" e
      pure none
  | .ok dataset =>
      if z.zfs_open st dataset then pure (some dataset)
      else do
        set_generic_error ("couldn't acquire a ZFS descriptor for BE '" ++ String.ofList be ++ "'")
        pure none

def be_take_snapshot (st : σ) (snapshot hook : List Char) : Writing String φ (σ × Bool) :=
  match z.be_create st snapshot with
  | (st, false) => do
      set_be_error z st ("failed to create BE '" ++ String.ofList snapshot ++ "'")
      pure (st, false)
  | (st, true) => do
      match ← be_to_fs z ZFS_MAX_DATASET_NAME_LEN st snapshot with
      | none => pure (st, false)
      | some fs => set_zfs_properties z ZINT_VERSION_NUMBER st fs hook

def be_cast_to_snapshot (bepair : nvpair_t) (name : List Char) (hook : ℤ) (version : ℕ) :
    Writing String φ (Option snapshot_t) :=
  if SNAPSHOT_MAX_NAME_LEN ≤ name.length then do
    set_generic_error ("BE name '" ++ String.ofList name ++ "' is too long "
      ++ toString name.length ++ " for " ++ toString SNAPSHOT_MAX_NAME_LEN)
    pure none
  else do
    match ← be_get_prop_numeric bepair BE_PROPERTY_CREATION with
    | none => pure none
    | some creation =>
        pure (some ⟨String.ofList name, UInt64.ofNat creation, hook, UInt64.ofNat version⟩)

/-- The loop of `be_list` over the boot environments. -/
def be_list_loop (fuel : ℕ) : σ → List nvpair_t → DList snapshot_t →
    Writing String ListSnapshots.Fault (σ × Bool × DList snapshot_t)
  | st, [], bes => pure (st, true, bes)
  | st, cur :: props, bes => do
      match ← be_to_fs z ZFS_MAX_DATASET_NAME_LEN st cur.nvpair_name with
      | none => pure (st, false, bes)
      | some fs =>
          match ← has_zfs_properties z ZINT_VERSION_NUMBER fuel st fs with
          | (st, none) => be_list_loop fuel st props bes
          | (st, some (hook, version)) =>
              match ← be_cast_to_snapshot cur cur.nvpair_name (name_to_hook hook) version with
              | none => pure (st, false, bes)
              | some snap => do
                  let bes ← lift ((dlist_append bes snap).mapError .dlist)
                  be_list_loop fuel st props bes

/-- `be_list`, with the one list that it appends before anything can fail. -/
def be_list (fuel : ℕ) (st : σ) :
    Writing String ListSnapshots.Fault (σ × Bool × List (DList snapshot_t)) :=
  if z.be_prop_list_alloc st = false then do
    set_be_error z st "be_prop_list_alloc failed"
    pure (st, false, [dlist_init])
  else
    match z.be_get_bootenv_props st with
    | none => do
        set_be_error z st "be_get_bootenv_props failed"
        pure (st, false, [dlist_init])
    | some props => do
        let (st, ok, bes) ← be_list_loop z ZINT_VERSION_NUMBER name_to_hook ZFS_MAX_DATASET_NAME_LEN
          fuel st props dlist_init
        pure (st, ok, [bes])

def be_destroy_snapshot (st : σ) (snap : snapshot_t) : Writing String φ (σ × Bool) :=
  match z.be_destroy st snap.name.toList with
  | (st, true) => pure (st, true)
  | (st, false) => do
      set_be_error z st ("failed to destroy BE '" ++ snap.name ++ "'")
      pure (st, false)

/-! ## A snapshot by a hook -/

/-- What the C library answers; `strftime` into a buffer of a size. -/
structure clock (τ : Type) where
  time : Option ℤ
  localtime_r : ℤ → Option τ
  strftime : ℕ → List Char → τ → Option (List Char)

def method_snapshot (m : method) (ptc : paths_to_check_t) (st : σ) (snapshot hook : List Char) :
    Writing String null_handle (σ × Bool) :=
  match m with
  | .be_method => be_take_snapshot z ZINT_VERSION_NUMBER ZFS_MAX_DATASET_NAME_LEN st snapshot hook
  | .raw_zfs_method ctxt => raw_zfs_snapshot z ZINT_VERSION_NUMBER ctxt ptc st snapshot hook

/-- `take_snapshot(scheme, hook, error)` -/
def take_snapshot {τ : Type} (c : clock τ) (m : method) (ptc : paths_to_check_t) (st : σ)
    (scheme hook : List Char) : Writing String null_handle (σ × Bool) :=
  match c.time with
  | none => do
      set_generic_error "time(3) failed"
      pure (st, false)
  | some t =>
      match c.localtime_r t with
      | none => do
          set_generic_error "localtime_r(3) failed"
          pure (st, false)
      | some ltm =>
          match c.strftime ZFS_MAX_NAME_LEN scheme ltm with
          | none => do
              set_generic_error ("unsufficient buffer to strftime '" ++ String.ofList scheme
                ++ "' into " ++ toString ZFS_MAX_NAME_LEN ++ " bytes")
              pure (st, false)
          | some snapshot =>
              method_snapshot z ZINT_VERSION_NUMBER ZFS_MAX_DATASET_NAME_LEN m ptc st snapshot hook

end Functions

variable {z : reporting σ} {ZINT_VERSION_NUMBER : UInt64} {name_to_hook : List Char → ℤ}
  {ZFS_MAX_DATASET_NAME_LEN : ℕ}

/-! ## The properties -/

/-- Both properties can be set. -/
def Sets (z : libraries σ) (ZINT_VERSION_NUMBER : UInt64) (st : σ) (n hook : List Char) : Prop :=
  let version := ZfsProperties.uzfs_set_prop_numeric z st n ZINT_VERSION_PROPERTY ZINT_VERSION_NUMBER
  version.2 = true ∧ (z.zfs_prop_set version.1 n ZINT_HOOK_PROPERTY hook).2 = true

instance (z : libraries σ) (ZINT_VERSION_NUMBER : UInt64) (st : σ) (n hook : List Char) :
    Decidable (Sets z ZINT_VERSION_NUMBER st n hook) :=
  inferInstanceAs (Decidable (_ ∧ _))

theorem uzfs_set_prop_reports (z : reporting σ) (st : σ) (n prop value : List Char) :
    Reports (uzfs_set_prop z st n prop value : Writing String φ (σ × Bool))
      (z.zfs_prop_set st n prop value) (!(z.zfs_prop_set st n prop value).2) := by
  unfold uzfs_set_prop
  generalize z.zfs_prop_set st n prop value = r
  obtain ⟨st', ok⟩ := r
  cases ok with
  | false => exact Reports.put _ _
  | true => exact Reports.pure _

/-- Properties that can be set are set without an error. -/
theorem set_zfs_properties_sets {st : σ} {n hook : List Char}
    (h : Sets z.tolibraries ZINT_VERSION_NUMBER st n hook) :
    Reports (set_zfs_properties z ZINT_VERSION_NUMBER st n hook : Writing String φ (σ × Bool))
        (ZfsProperties.set_zfs_properties z.tolibraries ZINT_VERSION_NUMBER st n hook) false
      ∧ (ZfsProperties.set_zfs_properties z.tolibraries ZINT_VERSION_NUMBER st n hook).2
          = true := by
  obtain ⟨hversion, hhook⟩ := h
  have hfirst := uzfs_set_prop_reports (φ := φ) z st n ZINT_VERSION_PROPERTY
    (Nat.toDigits 10 ZINT_VERSION_NUMBER.toNat)
  unfold set_zfs_properties ZfsProperties.set_zfs_properties
  unfold uzfs_set_prop_numeric
  unfold ZfsProperties.uzfs_set_prop_numeric at hversion hhook ⊢
  generalize z.zfs_prop_set st n ZINT_VERSION_PROPERTY
    (Nat.toDigits 10 ZINT_VERSION_NUMBER.toNat) = r at *
  obtain ⟨st₁, ok⟩ := r
  obtain rfl : ok = true := hversion
  have hsecond := uzfs_set_prop_reports (φ := φ) z st₁ n ZINT_HOOK_PROPERTY hook
  rw [hfirst.bind_eq]
  simp only at hhook ⊢
  generalize z.zfs_prop_set st₁ n ZINT_HOOK_PROPERTY hook = r at *
  obtain ⟨st₂, ok⟩ := r
  obtain rfl : ok = true := hhook
  rw [hsecond.bind_eq]
  exact ⟨Reports.pure _, rfl⟩

/-- **The second message**: if a property can't be set, the error is set twice. -/
theorem set_zfs_properties_overwrites {st : σ} {n hook : List Char}
    (h : ¬ Sets z.tolibraries ZINT_VERSION_NUMBER st n hook) :
    Overwrites (set_zfs_properties z ZINT_VERSION_NUMBER st n hook : Writing String φ (σ × Bool))
      (some none) := by
  have hfirst := uzfs_set_prop_reports (φ := φ) z st n ZINT_VERSION_PROPERTY
    (Nat.toDigits 10 ZINT_VERSION_NUMBER.toNat)
  unfold set_zfs_properties uzfs_set_prop_numeric
  unfold Sets ZfsProperties.uzfs_set_prop_numeric at h
  generalize z.zfs_prop_set st n ZINT_VERSION_PROPERTY
    (Nat.toDigits 10 ZINT_VERSION_NUMBER.toNat) = r at *
  obtain ⟨st₁, ok⟩ := r
  cases ok with
  | false =>
      obtain ⟨message, hrun⟩ := hfirst.writes
      rw [overwrites_bind_of_ok hrun]
      exact (Reports.put _ (st₁, false)).overwrites message
  | true =>
      rw [hfirst.bind_eq]
      have hsecond := uzfs_set_prop_reports (φ := φ) z st₁ n ZINT_HOOK_PROPERTY hook
      simp only at h ⊢
      generalize z.zfs_prop_set st₁ n ZINT_HOOK_PROPERTY hook = r at *
      obtain ⟨st₂, ok⟩ := r
      obtain rfl : ok = false := by simpa using h
      obtain ⟨message, hrun⟩ := hsecond.writes
      rw [overwrites_bind_of_ok hrun]
      exact (Reports.put _ (st₂, false)).overwrites message

theorem set_zfs_properties_erases (z : reporting σ) (ZINT_VERSION_NUMBER : UInt64) (st : σ)
    (n hook : List Char) :
    Erases (set_zfs_properties z ZINT_VERSION_NUMBER st n hook : Writing String φ (σ × Bool))
      (.ok (ZfsProperties.set_zfs_properties z.tolibraries ZINT_VERSION_NUMBER st n hook)) := by
  have hfirst := Erases.of_reports (uzfs_set_prop_reports (φ := φ) z st n ZINT_VERSION_PROPERTY
    (Nat.toDigits 10 ZINT_VERSION_NUMBER.toNat))
  unfold set_zfs_properties uzfs_set_prop_numeric
  unfold ZfsProperties.set_zfs_properties ZfsProperties.uzfs_set_prop_numeric
  generalize z.zfs_prop_set st n ZINT_VERSION_PROPERTY
    (Nat.toDigits 10 ZINT_VERSION_NUMBER.toNat) = r at *
  refine hfirst.bind (g := fun r => .ok (match r with
    | (st, false) => (st, false)
    | (st, true) => z.zfs_prop_set st n ZINT_HOOK_PROPERTY hook)) fun r => ?_
  obtain ⟨st₁, ok⟩ := r
  cases ok with
  | false => exact (Erases.put _).bind fun _ => Erases.pure (st₁, false)
  | true =>
      have hsecond := Erases.of_reports
        (uzfs_set_prop_reports (φ := φ) z st₁ n ZINT_HOOK_PROPERTY hook)
      simp only
      generalize z.zfs_prop_set st₁ n ZINT_HOOK_PROPERTY hook = r at *
      refine hsecond.bind (g := fun r => .ok r) fun r => ?_
      obtain ⟨st₂, ok⟩ := r
      cases ok with
      | false => exact (Erases.put _).bind fun _ => Erases.pure (st₂, false)
      | true => exact Erases.pure (st₂, true)

/-! ## One snapshot -/

/-- The snapshot is created, and it can be opened. -/
structure Taken (z : reporting σ) (st : σ) (fs snapshot : List Char) (recursive : Bool) : Prop where
  handle : z.zfs_get_handle st fs = true
  requestable : Requestable z.tolibraries fs snapshot
  created : (z.zfs_snapshot st (snapshot_name fs snapshot) recursive).2 = true
  opened : z.zfs_open (z.zfs_snapshot st (snapshot_name fs snapshot) recursive).1
    (snapshot_name fs snapshot) = true

theorem uzfs_snapshot_no_handle {st : σ} {fs : List Char} (h : z.zfs_get_handle st fs = false)
    (scheme : List Char) (size : ℕ) (recursive : Bool) :
    Reports (uzfs_snapshot z st fs scheme size recursive :
      Writing String φ (σ × Option (List Char))) (st, none) true := by
  unfold uzfs_snapshot
  rw [if_pos h]
  exact Reports.put _ _

/-- With a handle, what is not taken is reported. -/
theorem uzfs_snapshot_reports {st : σ} {fs : List Char} (h : z.zfs_get_handle st fs = true)
    (scheme : List Char) (size : ℕ) (recursive : Bool) :
    Reports (uzfs_snapshot z st fs scheme size recursive :
        Writing String φ (σ × Option (List Char)))
      (TakeSnapshot.uzfs_snapshot z.tolibraries st fs scheme size recursive)
      (TakeSnapshot.uzfs_snapshot z.tolibraries st fs scheme size recursive).2.isNone := by
  unfold uzfs_snapshot TakeSnapshot.uzfs_snapshot
  generalize z.zfs_snapshot = zfs_snapshot
  rw [if_neg (by simp [h])]
  cases stpcpy_sp size [] fs with
  | none => exact Reports.put _ _
  | some w =>
      simp only
      cases stpcpy_sp size (w ++ ['@']) scheme with
      | none => exact Reports.put _ _
      | some name =>
          simp only
          by_cases hvalid : z.zfs_name_valid name = false
          · rw [if_pos hvalid, if_pos hvalid]
            exact Reports.put _ _
          · rw [if_neg hvalid, if_neg hvalid]
            rcases zfs_snapshot st name recursive with ⟨st', ok⟩
            cases ok with
            | false => exact Reports.put _ _
            | true => exact Reports.pure _

variable {ctxt : raw_zfs_context_t} {st : σ} {fs snapshot hook : List Char}

/-- What is taken gets the properties. -/
theorem individual_snapshot_taken (h : Taken z st fs snapshot ctxt.recursive) :
    individual_snapshot z ZINT_VERSION_NUMBER ctxt st (some fs) snapshot hook
      = set_zfs_properties z ZINT_VERSION_NUMBER
        (z.zfs_snapshot st (snapshot_name fs snapshot) ctxt.recursive).1
        (snapshot_name fs snapshot) hook := by
  have hreports := uzfs_snapshot_reports (φ := null_handle) h.handle snapshot ZFS_MAX_NAME_LEN
    ctxt.recursive
  have hname : TakeSnapshot.uzfs_snapshot z.tolibraries st fs snapshot ZFS_MAX_NAME_LEN
      ctxt.recursive = _ := TakeSnapshot.uzfs_snapshot_eq h.requestable
  rw [h.created, if_pos rfl] at hname
  rw [hname] at hreports
  unfold individual_snapshot
  simp only
  rw [hreports.bind_eq]
  simp only
  rw [if_neg (by simp [h.opened])]

/-- What is not taken is reported, once. -/
theorem individual_snapshot_not_taken (ZINT_VERSION_NUMBER : UInt64) (hook : List Char)
    (h : ¬ Taken z st fs snapshot ctxt.recursive) :
    ∃ st', Reports (individual_snapshot z ZINT_VERSION_NUMBER ctxt st (some fs) snapshot hook)
      (st', false) true := by
  unfold individual_snapshot
  simp only
  cases hhandle : z.zfs_get_handle st fs with
  | false =>
      exact ⟨st, (uzfs_snapshot_no_handle hhandle _ _ _).bind_fails rfl⟩
  | true =>
      have hreports := uzfs_snapshot_reports (φ := null_handle) hhandle snapshot ZFS_MAX_NAME_LEN
        ctxt.recursive
      by_cases hreq : Requestable z.tolibraries fs snapshot
      · rw [TakeSnapshot.uzfs_snapshot_eq hreq] at hreports
        cases hcreated : (z.zfs_snapshot st (snapshot_name fs snapshot) ctxt.recursive).2 with
        | false =>
            rw [hcreated] at hreports
            exact ⟨_, hreports.bind_fails rfl⟩
        | true =>
            -- it was created, so it can't be opened
            have hopened : z.zfs_open
                (z.zfs_snapshot st (snapshot_name fs snapshot) ctxt.recursive).1
                (snapshot_name fs snapshot) = false := by
              rw [← Bool.not_eq_true]
              exact fun hopened => h ⟨hhandle, hreq, hcreated, hopened⟩
            rw [hcreated, if_pos rfl] at hreports
            rw [hreports.bind_eq]
            simp only [hopened, if_true]
            exact ⟨_, Reports.put _ _⟩
      · rw [TakeSnapshot.uzfs_snapshot_not_requestable hreq] at hreports
        exact ⟨st, hreports.bind_fails rfl⟩

/-! ## The dataset of a boot environment -/

theorem be_to_fs_reports (z : reporting σ) (ZFS_MAX_DATASET_NAME_LEN : ℕ) (st : σ)
    (be : List Char) :
    Reports (be_to_fs z ZFS_MAX_DATASET_NAME_LEN st be : Writing String φ (Option (List Char)))
      (TakeSnapshot.be_to_fs z.tolibraries ZFS_MAX_DATASET_NAME_LEN st be)
      (TakeSnapshot.be_to_fs z.tolibraries ZFS_MAX_DATASET_NAME_LEN st be).isNone := by
  unfold be_to_fs TakeSnapshot.be_to_fs
  cases path_join ZFS_MAX_DATASET_NAME_LEN [z.be_root_path, be] with
  | error e => exact Reports.put _ _
  | ok dataset =>
      simp only
      cases z.zfs_open st dataset with
      | false => exact Reports.put _ _
      | true => exact Reports.pure _

end PkgPlugins.ZintErrors
