/-
zint's properties on snapshots and boot environments (`zfs.c`,
`set_zfs_properties` and `has_zfs_properties` of
`plugins/zfs_integration/raw_zfs_method.c`).

libzfs and libbe are a parameter, over a state that is not looked into but by their
own functions: any call may fail, whatever the ones before it did. What is used of
them is their documented behaviour (`Documented`): a call that fails changes
nothing, a snapshot or a boot environment that is created is a new one, a user
property that is set can be read, and no other snapshot or boot environment is
affected. A new one may have user properties all the same, those that it inherits.

A handle is the name it was opened for. `zfs_open` stands for `zfs_open(3)` and the
allocation of the handle that wraps it, and `errno` is 0 before a `strtoull(3)`.
-/
import PkgPlugins.RawZfs

set_option autoImplicit false

namespace PkgPlugins.ZfsProperties

open PkgPlugins.Libc PkgPlugins.Zfs
open PkgPlugins.RawZfs (ZINT_HOOK_PROPERTY ZINT_VERSION_PROPERTY)

/-! ## libzfs and libbe -/

/-- The names of what there is in a state, and the functions that are called: for
those that return an `int`, whether it is 0. `boot_environments` are the datasets
that libbe manages. -/
structure libraries (σ : Type) where
  filesystems : σ → List (List Char)
  snapshots : σ → List (List Char)
  boot_environments : σ → List (List Char)
  zfs_get_user_props : σ → List Char → List Char → Option (List Char)
  zfs_name_valid : List Char → Bool
  zfs_snapshot : σ → List Char → Bool → σ × Bool
  zfs_open : σ → List Char → Bool
  zfs_prop_set : σ → List Char → List Char → List Char → σ × Bool
  be_root_path : List Char
  be_create : σ → List Char → σ × Bool

variable {σ : Type}

/-- The snapshots a request asks for. -/
def requested (z : libraries σ) (st : σ) (fs snapshot : List Char) (recursive : Bool) :
    List (List Char) :=
  snapshot_name fs snapshot ::
    if recursive then
      ((z.filesystems st).filter (descendant fs)).map fun child => snapshot_name child snapshot
    else []

/-- The dataset of a boot environment. -/
def be_dataset (z : libraries σ) (be : List Char) : List Char := z.be_root_path ++ '/' :: be

/-- Nothing that can be seen is different. -/
structure Same (z : libraries σ) (st st' : σ) : Prop where
  filesystems : z.filesystems st' = z.filesystems st
  snapshots : z.snapshots st' = z.snapshots st
  boot_environments : z.boot_environments st' = z.boot_environments st
  props : ∀ n prop, z.zfs_get_user_props st' n prop = z.zfs_get_user_props st n prop

/-- The names `old` and `new` are those there are, the new ones were not there
before, and the old ones have the properties that they had. -/
structure Grown (z : libraries σ) (names : σ → List (List Char)) (new : List (List Char))
    (st st' : σ) : Prop where
  mem : ∀ n, n ∈ names st' ↔ n ∈ new ∨ n ∈ names st
  fresh : ∀ n ∈ new, n ∉ names st
  props : ∀ n ∈ names st, ∀ prop, z.zfs_get_user_props st' n prop = z.zfs_get_user_props st n prop

/-- Of the names there are, one has a property that was set, and nothing else is
different. -/
structure PropSet (z : libraries σ) (names : σ → List (List Char)) (n prop value : List Char)
    (st st' : σ) : Prop where
  kept : names st' = names st
  set : z.zfs_get_user_props st' n prop = some value
  other : ∀ m ∈ names st, ∀ q, m ≠ n ∨ q ≠ prop →
    z.zfs_get_user_props st' m q = z.zfs_get_user_props st m q

/-- The documented behaviour of libzfs and libbe. -/
structure Documented (z : libraries σ) : Prop where
  snapshot_fails : ∀ st name recursive, (z.zfs_snapshot st name recursive).2 = false →
    Same z st (z.zfs_snapshot st name recursive).1
  snapshot_filesystems : ∀ st name recursive,
    z.filesystems (z.zfs_snapshot st name recursive).1 = z.filesystems st
  snapshot_creates : ∀ st fs snapshot recursive, fs ∈ z.filesystems st →
    (z.zfs_snapshot st (snapshot_name fs snapshot) recursive).2 = true →
    Grown z z.snapshots (requested z st fs snapshot recursive) st
      (z.zfs_snapshot st (snapshot_name fs snapshot) recursive).1
  set_fails : ∀ st n prop value, (z.zfs_prop_set st n prop value).2 = false →
    Same z st (z.zfs_prop_set st n prop value).1
  set_filesystems : ∀ st n prop value,
    z.filesystems (z.zfs_prop_set st n prop value).1 = z.filesystems st
  set_snapshot : ∀ st n prop value, n ∈ z.snapshots st → (z.zfs_prop_set st n prop value).2 = true →
    PropSet z z.snapshots n prop value st (z.zfs_prop_set st n prop value).1
  set_boot_environment : ∀ st n prop value, n ∈ z.boot_environments st →
    (z.zfs_prop_set st n prop value).2 = true →
    PropSet z z.boot_environments n prop value st (z.zfs_prop_set st n prop value).1
  be_root : z.be_root_path ≠ []
  be_fails : ∀ st be, (z.be_create st be).2 = false → Same z st (z.be_create st be).1
  be_creates : ∀ st be, (z.be_create st be).2 = true →
    Grown z z.boot_environments [be_dataset z be] st (z.be_create st be).1

/-! ## The functions of `zfs.c` -/

section Functions

variable (z : libraries σ)

/-- `uzfs_get_prop` of a property with a `:`, into a buffer of `size` bytes. -/
def uzfs_get_prop (st : σ) (n prop : List Char) (size : ℕ) : Option (List Char) :=
  match z.zfs_get_user_props st n prop with
  | none => none
  | some v => if size ≤ v.length then none else some v

/-- What `uzfs_get_prop_numeric` makes of the text. -/
def numeric (propstr : List Char) : Option ℕ :=
  let propui := strtoull propstr
  if propui.endptr ≠ [] ∨ (propui.erange = true ∧ propui.value = ULLONG_MAX) then none
  else some propui.value

def uzfs_get_prop_numeric (st : σ) (n prop : List Char) : Option ℕ :=
  match uzfs_get_prop z st n prop 128 with
  | none => none
  | some propstr => numeric propstr

/-- `uzfs_set_prop_numeric` prints the value. -/
def uzfs_set_prop_numeric (st : σ) (n prop : List Char) (value : UInt64) : σ × Bool :=
  z.zfs_prop_set st n prop (Nat.toDigits 10 value.toNat)

/-! ## The functions of `raw_zfs_method.c` -/

variable (ZINT_VERSION_NUMBER : UInt64)

def set_zfs_properties (st : σ) (fs hook : List Char) : σ × Bool :=
  match uzfs_set_prop_numeric z st fs ZINT_VERSION_PROPERTY ZINT_VERSION_NUMBER with
  | (st, false) => (st, false)
  | (st, true) => z.zfs_prop_set st fs ZINT_HOOK_PROPERTY hook

/-- The names of the versions without properties: `pkg_pre_upgrade_`, a date and a
time. -/
def transitional (fullname : List Char) : Bool :=
  let basename := match fullname.dropWhile (· ≠ '@') with
    | [] => fullname
    | _ :: basename => basename
  "pkg_pre_upgrade_".toList.isPrefixOf basename
    && basename.length = "pkg_pre_upgrade_YYYY-mm-dd_HH:ii:ss".length

/-- `has_zfs_properties`: the state after it, and the hook and the version if both
properties are there. The number of steps is that of the passes by `retry`. -/
def has_zfs_properties : ℕ → σ → List Char → Option (σ × Option (List Char × ℕ))
  | 0, _, _ => none
  | fuel + 1, st, fs =>
      match uzfs_get_prop_numeric z st fs ZINT_VERSION_PROPERTY with
      | some version =>
          match uzfs_get_prop z st fs ZINT_HOOK_PROPERTY 100 with
          | none => some (st, none)
          | some hook => some (st, some (hook, version))
      | none =>
          if transitional fs then
            match set_zfs_properties z ZINT_VERSION_NUMBER st fs "PRE:UPGRADE".toList with
            | (st, true) => has_zfs_properties fuel st fs
            | (st, false) => some (st, none)
          else some (st, none)

end Functions

/-! ## What carries the properties -/

variable {z : libraries σ}

/-- Both properties can be read, as `has_zfs_properties` reads them. -/
def Carries (z : libraries σ) (st : σ) (n : List Char) : Prop :=
  (uzfs_get_prop_numeric z st n ZINT_VERSION_PROPERTY).isSome
    ∧ (uzfs_get_prop z st n ZINT_HOOK_PROPERTY 100).isSome

instance (z : libraries σ) (st : σ) (n : List Char) : Decidable (Carries z st n) :=
  inferInstanceAs (Decidable (_ ∧ _))

/-- **What carries both properties is recognised**, without a change. -/
theorem has_zfs_properties_of_carries (ZINT_VERSION_NUMBER : UInt64) {st : σ} {n : List Char}
    (h : Carries z st n) (fuel : ℕ) :
    ∃ hook version, has_zfs_properties z ZINT_VERSION_NUMBER (fuel + 1) st n
      = some (st, some (hook, version)) := by
  obtain ⟨version, hversion⟩ := Option.isSome_iff_exists.mp h.1
  obtain ⟨hook, hhook⟩ := Option.isSome_iff_exists.mp h.2
  exact ⟨hook, version, by rw [has_zfs_properties, hversion, hhook]⟩

/-- Properties that are the same are read the same. -/
theorem carries_congr {st st' : σ} {n : List Char}
    (h : ∀ prop, z.zfs_get_user_props st' n prop = z.zfs_get_user_props st n prop) :
    Carries z st' n ↔ Carries z st n := by
  unfold Carries uzfs_get_prop_numeric uzfs_get_prop
  rw [h, h]

/-! ## Setting the properties -/

/-- The setting of a property on the names there are, whether it fails or not. -/
structure Setting (z : libraries σ) (names : σ → List (List Char)) : Prop where
  sets : ∀ st n prop value, n ∈ names st → (z.zfs_prop_set st n prop value).2 = true →
    PropSet z names n prop value st (z.zfs_prop_set st n prop value).1
  fails : ∀ st n prop value, (z.zfs_prop_set st n prop value).2 = false →
    Same z st (z.zfs_prop_set st n prop value).1
  kept : ∀ st n prop value, (z.zfs_prop_set st n prop value).2 = false →
    names (z.zfs_prop_set st n prop value).1 = names st

theorem Documented.setting_snapshots (hz : Documented z) : Setting z z.snapshots :=
  ⟨hz.set_snapshot, hz.set_fails,
    fun st n prop value h => (hz.set_fails st n prop value h).snapshots⟩

theorem Documented.setting_boot_environments (hz : Documented z) :
    Setting z z.boot_environments :=
  ⟨hz.set_boot_environment, hz.set_fails,
    fun st n prop value h => (hz.set_fails st n prop value h).boot_environments⟩

/-- The names there are stay, and only one of them may have other properties. -/
structure OnlyOn (z : libraries σ) (names : σ → List (List Char)) (n : List Char) (st st' : σ) :
    Prop where
  kept : names st' = names st
  other : ∀ m ∈ names st, m ≠ n → ∀ prop,
    z.zfs_get_user_props st' m prop = z.zfs_get_user_props st m prop

variable {names : σ → List (List Char)}

theorem Setting.onlyOn (h : Setting z names) {st : σ} {n : List Char} (hn : n ∈ names st)
    (prop value : List Char) : OnlyOn z names n st (z.zfs_prop_set st n prop value).1 := by
  by_cases hok : (z.zfs_prop_set st n prop value).2 = true
  · have hset := h.sets st n prop value hn hok
    exact ⟨hset.kept, fun m hm hne q => hset.other m hm q (Or.inl hne)⟩
  · rw [Bool.not_eq_true] at hok
    exact ⟨h.kept st n prop value hok, fun m _ _ q => (h.fails st n prop value hok).props m q⟩

theorem OnlyOn.trans {n : List Char} {st st' st'' : σ} (h : OnlyOn z names n st st')
    (h' : OnlyOn z names n st' st'') : OnlyOn z names n st st'' := by
  refine ⟨h'.kept.trans h.kept, fun m hm hne prop => ?_⟩
  rw [h'.other m (h.kept ▸ hm) hne, h.other m hm hne]

theorem set_zfs_properties_filesystems (hz : Documented z) (ZINT_VERSION_NUMBER : UInt64) (st : σ)
    (n hook : List Char) :
    z.filesystems (set_zfs_properties z ZINT_VERSION_NUMBER st n hook).1 = z.filesystems st := by
  have hfirst := hz.set_filesystems st n ZINT_VERSION_PROPERTY
    (Nat.toDigits 10 ZINT_VERSION_NUMBER.toNat)
  unfold set_zfs_properties uzfs_set_prop_numeric
  generalize z.zfs_prop_set st n ZINT_VERSION_PROPERTY
    (Nat.toDigits 10 ZINT_VERSION_NUMBER.toNat) = r at hfirst
  obtain ⟨st₁, ok⟩ := r
  cases ok with
  | false => exact hfirst
  | true => exact (hz.set_filesystems st₁ n ZINT_HOOK_PROPERTY hook).trans hfirst

/-- A printed version is read back. -/
theorem numeric_version (version : UInt64) :
    (Nat.toDigits 10 version.toNat).length < 128
      ∧ numeric (Nat.toDigits 10 version.toNat) = some version.toNat := by
  have hlt : version.toNat < 2 ^ 64 := version.toNat_lt
  constructor
  · have hlen : (Nat.toDigits 10 version.toNat).length ≤ 20 := by
      rw [Nat.length_toDigits_le_iff (by omega) (by omega)]
      omega
    omega
  · have hle : version.toNat ≤ ULLONG_MAX := by
      unfold ULLONG_MAX
      omega
    rw [numeric, strtoull_toDigits hle]
    simp

theorem uzfs_get_prop_of_lt {st : σ} {n prop value : List Char} {size : ℕ}
    (h : z.zfs_get_user_props st n prop = some value) (hlen : value.length < size) :
    uzfs_get_prop z st n prop size = some value := by
  simp only [uzfs_get_prop, h, if_neg (Nat.not_le.mpr hlen)]

theorem uzfs_get_prop_numeric_version {st : σ} {n prop : List Char} {version : UInt64}
    (h : z.zfs_get_user_props st n prop = some (Nat.toDigits 10 version.toNat)) :
    uzfs_get_prop_numeric z st n prop = some version.toNat := by
  obtain ⟨hlen, hnumeric⟩ := numeric_version version
  simp only [uzfs_get_prop_numeric, uzfs_get_prop_of_lt h hlen, hnumeric]

/-- **The properties that are set** are there. -/
theorem set_zfs_properties_sets (h : Setting z names) (ZINT_VERSION_NUMBER : UInt64) {st : σ}
    {n : List Char} (hn : n ∈ names st) (hook : List Char)
    (hok : (set_zfs_properties z ZINT_VERSION_NUMBER st n hook).2 = true) :
    z.zfs_get_user_props (set_zfs_properties z ZINT_VERSION_NUMBER st n hook).1 n
        ZINT_VERSION_PROPERTY = some (Nat.toDigits 10 ZINT_VERSION_NUMBER.toNat)
      ∧ z.zfs_get_user_props (set_zfs_properties z ZINT_VERSION_NUMBER st n hook).1 n
        ZINT_HOOK_PROPERTY = some hook := by
  have hsets := h.sets st n ZINT_VERSION_PROPERTY (Nat.toDigits 10 ZINT_VERSION_NUMBER.toNat) hn
  unfold set_zfs_properties uzfs_set_prop_numeric at hok ⊢
  generalize z.zfs_prop_set st n ZINT_VERSION_PROPERTY
    (Nat.toDigits 10 ZINT_VERSION_NUMBER.toNat) = r at hsets hok
  obtain ⟨st₁, ok⟩ := r
  cases ok with
  | false => simp at hok
  | true =>
      have hversion := hsets rfl
      have hn₁ : n ∈ names st₁ := hversion.kept ▸ hn
      have hhook := h.sets st₁ n ZINT_HOOK_PROPERTY hook hn₁ hok
      refine ⟨?_, hhook.set⟩
      exact (hhook.other n hn₁ ZINT_VERSION_PROPERTY (Or.inr (by decide))).trans hversion.set

/-- When the properties are there after an attempt to set them: both were set, and
the hook fits into the buffer it is read into; or what was not set was there. -/
def Tagged (z : libraries σ) (ZINT_VERSION_NUMBER : UInt64) (st : σ) (n hook : List Char) : Prop :=
  let version := uzfs_set_prop_numeric z st n ZINT_VERSION_PROPERTY ZINT_VERSION_NUMBER
  if version.2 then
    if (z.zfs_prop_set version.1 n ZINT_HOOK_PROPERTY hook).2 then hook.length < 100
    else (uzfs_get_prop z st n ZINT_HOOK_PROPERTY 100).isSome
  else Carries z st n

instance (z : libraries σ) (ZINT_VERSION_NUMBER : UInt64) (st : σ) (n hook : List Char) :
    Decidable (Tagged z ZINT_VERSION_NUMBER st n hook) :=
  inferInstanceAs (Decidable (ite _ _ _))

/-- **An attempt to set the properties** touches nothing else. -/
theorem set_zfs_properties_spec (h : Setting z names) (ZINT_VERSION_NUMBER : UInt64) {st : σ}
    {n : List Char} (hn : n ∈ names st) (hook : List Char) :
    OnlyOn z names n st (set_zfs_properties z ZINT_VERSION_NUMBER st n hook).1
      ∧ (Carries z (set_zfs_properties z ZINT_VERSION_NUMBER st n hook).1 n
        ↔ Tagged z ZINT_VERSION_NUMBER st n hook) := by
  have honly := h.onlyOn hn ZINT_VERSION_PROPERTY (Nat.toDigits 10 ZINT_VERSION_NUMBER.toNat)
  have hsets := h.sets st n ZINT_VERSION_PROPERTY (Nat.toDigits 10 ZINT_VERSION_NUMBER.toNat) hn
  have hfails := h.fails st n ZINT_VERSION_PROPERTY (Nat.toDigits 10 ZINT_VERSION_NUMBER.toNat)
  unfold set_zfs_properties Tagged uzfs_set_prop_numeric
  generalize z.zfs_prop_set st n ZINT_VERSION_PROPERTY
    (Nat.toDigits 10 ZINT_VERSION_NUMBER.toNat) = r at honly hsets hfails
  obtain ⟨st₁, ok⟩ := r
  cases ok with
  | false => exact ⟨honly, by simpa using carries_congr ((hfails rfl).props n)⟩
  | true =>
      -- the version is set; the hook is a property of its own
      have hversion := hsets rfl
      have hn₁ : n ∈ names st₁ := hversion.kept ▸ hn
      have honly₁ := h.onlyOn hn₁ ZINT_HOOK_PROPERTY hook
      refine ⟨honly.trans honly₁, ?_⟩
      simp only [if_true]
      have hne : ZINT_VERSION_PROPERTY ≠ ZINT_HOOK_PROPERTY := by decide
      obtain ⟨hlen, hnumeric⟩ := numeric_version ZINT_VERSION_NUMBER
      split
      case isTrue hok =>
        have hhook := h.sets st₁ n ZINT_HOOK_PROPERTY hook hn₁ hok
        have hkept := hhook.other n hn₁ ZINT_VERSION_PROPERTY (Or.inr hne)
        unfold Carries uzfs_get_prop_numeric uzfs_get_prop
        rw [hkept, hversion.set, hhook.set]
        simp only [if_neg (Nat.not_le.mpr hlen), hnumeric, Option.isSome_some, true_and]
        -- a hook that fills the buffer is not read back
        by_cases hlong : 100 ≤ hook.length
        · rw [if_pos hlong]
          simp only [Option.isSome_none, Bool.false_eq_true, false_iff]
          omega
        · rw [if_neg hlong]
          simp only [Option.isSome_some, true_iff]
          omega
      case isFalse hok =>
        rw [Bool.not_eq_true] at hok
        have hsame := h.fails st₁ n ZINT_HOOK_PROPERTY hook hok
        unfold Carries uzfs_get_prop_numeric uzfs_get_prop
        rw [hsame.props, hsame.props, hversion.set,
          hversion.other n hn ZINT_HOOK_PROPERTY (Or.inr (Ne.symm hne))]
        simp only [if_neg (Nat.not_le.mpr hlen), hnumeric, Option.isSome_some, true_and]

end PkgPlugins.ZfsProperties
