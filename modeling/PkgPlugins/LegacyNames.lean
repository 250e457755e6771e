/-
Datasets of versions of zint that set no properties: which names
`has_zfs_properties` takes for theirs
(`plugins/zfs_integration/raw_zfs_method.c`).

A version without properties named what it created `pkg_pre_upgrade_` and a date
and time, the snapshot behind the `@` of a filesystem, and the boot environment as
the last component of a dataset. The code looks for the first `@` only, so for a boot
environment it tests the whole name; and behind the prefix it asks for a length, not
for the form of a date.
-/
import PkgPlugins.TakeSnapshot

set_option autoImplicit false

namespace PkgPlugins.LegacyNames

open PkgPlugins.ZfsProperties
open PkgPlugins.RawZfs (ZINT_HOOK_PROPERTY ZINT_VERSION_PROPERTY)

variable {σ : Type}

/-! ## Names -/

/-- The name of a dataset: a boot environment `path/be`, or a snapshot
`dataset@snap`. -/
inductive dataset_name
  | boot_environment (path be : List Char) (valid : '@' ∉ path ++ '/' :: be ∧ '/' ∉ be)
  | snapshot (dataset snap : List Char) (valid : '@' ∉ dataset)

namespace dataset_name

def name : dataset_name → List Char
  | boot_environment path be _ => path ++ '/' :: be
  | snapshot dataset snap _ => dataset ++ '@' :: snap

/-- The name of the environment, or of the snapshot. -/
def part : dataset_name → List Char
  | boot_environment _ be _ => be
  | snapshot _ snap _ => snap

/-- The names of this kind that there are. -/
def names (z : libraries σ) : dataset_name → σ → List (List Char)
  | boot_environment _ _ _ => z.boot_environments
  | snapshot _ _ _ => z.snapshots

end dataset_name

/-- The text has a form, in which a letter stands for a digit. -/
def hasForm : List Char → List Char → Bool
  | [], [] => true
  | f :: form, c :: text => (if f.isAlpha then c.isDigit else c == f) && hasForm form text
  | _, _ => false

def pkg_pre_upgrade_ : List Char := "pkg_pre_upgrade_".toList

/-- The names a version without properties gave. -/
def LegacyName (part : List Char) : Prop :=
  ∃ stamp, part = pkg_pre_upgrade_ ++ stamp
    ∧ hasForm "YYYY-mm-dd_HH:MM:SS".toList stamp = true

theorem hasForm_length {form text : List Char} (h : hasForm form text = true) :
    text.length = form.length := by
  induction form generalizing text with
  | nil => cases text <;> simp_all [hasForm]
  | cons f form ih =>
      cases text with
      | nil => simp [hasForm] at h
      | cons c text =>
          rw [hasForm, Bool.and_eq_true] at h
          simpa using ih h.2

theorem LegacyName.length {part : List Char} (h : LegacyName part) : part.length = 35 := by
  obtain ⟨stamp, rfl, hform⟩ := h
  rw [List.length_append, hasForm_length hform]
  decide

/-! ## What the code tests -/

/-- The prefix and the length. -/
theorem prefix_length_iff (basename : List Char) :
    ("pkg_pre_upgrade_".toList.isPrefixOf basename
        && basename.length = "pkg_pre_upgrade_YYYY-mm-dd_HH:ii:ss".length) = true
      ↔ ∃ rest, basename = pkg_pre_upgrade_ ++ rest ∧ rest.length = 19 := by
  have hlen : pkg_pre_upgrade_.length = 16 := by decide
  have hlong : "pkg_pre_upgrade_YYYY-mm-dd_HH:ii:ss".length = 35 := by decide
  rw [Bool.and_eq_true, List.isPrefixOf_iff_prefix, decide_eq_true_eq, hlong]
  constructor
  · rintro ⟨⟨rest, rfl⟩, hrest⟩
    refine ⟨rest, rfl, ?_⟩
    rw [List.length_append] at hrest
    change pkg_pre_upgrade_.length + rest.length = 35 at hrest
    omega
  · rintro ⟨rest, rfl, hrest⟩
    exact ⟨List.prefix_append _ _, by rw [List.length_append, hlen, hrest]⟩

theorem transitional_snapshot {dataset : List Char} (valid : '@' ∉ dataset) (snap : List Char) :
    transitional (dataset ++ '@' :: snap) = true
      ↔ ∃ rest, snap = pkg_pre_upgrade_ ++ rest ∧ rest.length = 19 := by
  have hdrop : (dataset ++ '@' :: snap).dropWhile (· ≠ '@') = '@' :: snap := by
    rw [List.dropWhile_append_of_pos
      (fun c hc => decide_eq_true (ne_of_mem_of_not_mem hc valid))]
    simp
  rw [transitional, hdrop]
  exact prefix_length_iff snap

theorem transitional_whole {n : List Char} (valid : '@' ∉ n) :
    transitional n = true ↔ ∃ rest, n = pkg_pre_upgrade_ ++ rest ∧ rest.length = 19 := by
  have hdrop : n.dropWhile (· ≠ '@') = [] :=
    List.dropWhile_eq_nil_iff.mpr (fun c hc => decide_eq_true (ne_of_mem_of_not_mem hc valid))
  rw [transitional, hdrop]
  exact prefix_length_iff n

/-- The condition on a name: what is behind the prefix of a snapshot has the form of a
date if it has the length of one; a boot environment has not got a legacy name, and its
whole name not the prefix and the length. -/
def Unmistakable : dataset_name → Prop
  | .snapshot _ snap _ =>
      ∀ rest, snap = pkg_pre_upgrade_ ++ rest → rest.length = 19 →
        hasForm "YYYY-mm-dd_HH:MM:SS".toList rest = true
  | .boot_environment path be _ =>
      ¬ LegacyName be
        ∧ ∀ rest, path ++ '/' :: be = pkg_pre_upgrade_ ++ rest → rest.length ≠ 19

/-- The test is that for a legacy name just where the name is unmistakable. -/
theorem transitional_iff_legacy_iff (d : dataset_name) :
    (transitional d.name = true ↔ LegacyName d.part) ↔ Unmistakable d := by
  cases d with
  | snapshot dataset snap valid =>
      rw [dataset_name.name, dataset_name.part, transitional_snapshot valid, Unmistakable]
      constructor
      · rintro h rest rfl hlen
        obtain ⟨stamp, heq, hform⟩ := h.mp ⟨rest, rfl, hlen⟩
        rwa [List.append_cancel_left heq]
      · intro h
        constructor
        · rintro ⟨rest, rfl, hlen⟩
          exact ⟨rest, rfl, h rest rfl hlen⟩
        · rintro ⟨stamp, rfl, hform⟩
          exact ⟨stamp, rfl, hasForm_length hform⟩
  | boot_environment path be valid =>
      rw [dataset_name.name, dataset_name.part, transitional_whole valid.1, Unmistakable]
      have hlong : LegacyName be →
          ∀ rest, path ++ '/' :: be = pkg_pre_upgrade_ ++ rest → rest.length ≠ 19 := by
        -- a name that ends in a legacy name is longer than one
        intro hlegacy rest heq hlen
        have hlegacy := hlegacy.length
        have heq := congrArg List.length heq
        have hstart : pkg_pre_upgrade_.length = 16 := by decide
        rw [List.length_append, List.length_append, List.length_cons] at heq
        omega
      constructor
      · intro h
        have hnot : ¬ LegacyName be := by
          intro hlegacy
          obtain ⟨rest, heq, hlen⟩ := h.mpr hlegacy
          exact hlong hlegacy rest heq hlen
        exact ⟨hnot, fun rest heq hlen => hnot (h.mp ⟨rest, heq, hlen⟩)⟩
      · rintro ⟨hnot, hwhole⟩
        exact iff_of_false (fun ⟨rest, heq, hlen⟩ => hwhole rest heq hlen) hnot

/-! ## What is adopted -/

/-- Every property can be set on a dataset that there is. -/
def Settable (z : libraries σ) (d : dataset_name) : Prop :=
  ∀ st prop value, d.name ∈ d.names z st → (z.zfs_prop_set st d.name prop value).2 = true

/-- `has_zfs_properties` sets both properties and recognises the dataset. -/
def Adopted (z : libraries σ) (ZINT_VERSION_NUMBER : UInt64) (st : σ) (n : List Char) : Prop :=
  ∀ fuel, ∃ st', has_zfs_properties z ZINT_VERSION_NUMBER (fuel + 2) st n
      = some (st', some ("PRE:UPGRADE".toList, ZINT_VERSION_NUMBER.toNat))
    ∧ z.zfs_get_user_props st' n ZINT_VERSION_PROPERTY
      = some (Nat.toDigits 10 ZINT_VERSION_NUMBER.toNat)
    ∧ z.zfs_get_user_props st' n ZINT_HOOK_PROPERTY = some "PRE:UPGRADE".toList

/-- `has_zfs_properties` passes the dataset over and changes nothing. -/
def Ignored (z : libraries σ) (ZINT_VERSION_NUMBER : UInt64) (st : σ) (n : List Char) : Prop :=
  ∀ fuel, has_zfs_properties z ZINT_VERSION_NUMBER (fuel + 2) st n = some (st, none)

variable {z : libraries σ} {ZINT_VERSION_NUMBER : UInt64} {st : σ} {d : dataset_name}

theorem setting_of_documented (hz : Documented z) (d : dataset_name) : Setting z (d.names z) := by
  cases d with
  | boot_environment path be valid => exact hz.setting_boot_environments
  | snapshot dataset snap valid => exact hz.setting_snapshots

theorem no_version (hversion : z.zfs_get_user_props st d.name ZINT_VERSION_PROPERTY = none) :
    uzfs_get_prop_numeric z st d.name ZINT_VERSION_PROPERTY = none := by
  rw [uzfs_get_prop_numeric, uzfs_get_prop, hversion]

theorem ignored_of_not_transitional
    (hversion : z.zfs_get_user_props st d.name ZINT_VERSION_PROPERTY = none)
    (h : transitional d.name = false) : Ignored z ZINT_VERSION_NUMBER st d.name := by
  intro fuel
  simp only [has_zfs_properties, no_version hversion, h, Bool.false_eq_true, if_false]

theorem set_zfs_properties_settable (hz : Documented z) (hd : d.name ∈ d.names z st)
    (hset : Settable z d) (hook : List Char) :
    (set_zfs_properties z ZINT_VERSION_NUMBER st d.name hook).2 = true := by
  have hok := hset st ZINT_VERSION_PROPERTY (Nat.toDigits 10 ZINT_VERSION_NUMBER.toNat) hd
  have hkept := ((setting_of_documented hz d).sets st d.name ZINT_VERSION_PROPERTY _ hd hok).kept
  unfold set_zfs_properties uzfs_set_prop_numeric
  cases hrun : z.zfs_prop_set st d.name ZINT_VERSION_PROPERTY
    (Nat.toDigits 10 ZINT_VERSION_NUMBER.toNat) with
  | mk st₁ ok₁ =>
      rw [hrun] at hok hkept
      obtain rfl : ok₁ = true := hok
      exact hset st₁ ZINT_HOOK_PROPERTY hook (hkept ▸ hd)

/-- What is set is read on the second pass. -/
theorem adopted_of_transitional (hz : Documented z) (hd : d.name ∈ d.names z st)
    (hset : Settable z d)
    (hversion : z.zfs_get_user_props st d.name ZINT_VERSION_PROPERTY = none)
    (h : transitional d.name = true) : Adopted z ZINT_VERSION_NUMBER st d.name := by
  intro fuel
  have hok : (set_zfs_properties z ZINT_VERSION_NUMBER st d.name "PRE:UPGRADE".toList).2 = true :=
    set_zfs_properties_settable hz hd hset _
  obtain ⟨hversion₁, hhook₁⟩ :=
    set_zfs_properties_sets (setting_of_documented hz d) ZINT_VERSION_NUMBER hd _ hok
  have hread : uzfs_get_prop z (set_zfs_properties z ZINT_VERSION_NUMBER st d.name
      "PRE:UPGRADE".toList).1 d.name ZINT_HOOK_PROPERTY 100 = some "PRE:UPGRADE".toList :=
    uzfs_get_prop_of_lt hhook₁ (by decide)
  refine ⟨_, ?_, hversion₁, hhook₁⟩
  generalize hrun : set_zfs_properties z ZINT_VERSION_NUMBER st d.name "PRE:UPGRADE".toList = r
    at hok hversion₁ hread
  obtain ⟨st₁, ok⟩ := r
  obtain rfl : ok = true := hok
  simp only [has_zfs_properties, no_version hversion, h, if_true, hrun,
    uzfs_get_prop_numeric_version hversion₁, hread]

/-- **The datasets without properties that are adopted are those with a legacy name if
and only if** the name is unmistakable. -/
theorem adopted_iff_legacy_iff (hz : Documented z) (hd : d.name ∈ d.names z st)
    (hset : Settable z d)
    (hversion : z.zfs_get_user_props st d.name ZINT_VERSION_PROPERTY = none) :
    ((LegacyName d.part → Adopted z ZINT_VERSION_NUMBER st d.name)
        ∧ (¬ LegacyName d.part → Ignored z ZINT_VERSION_NUMBER st d.name))
      ↔ Unmistakable d := by
  rw [← transitional_iff_legacy_iff]
  have hboth : Adopted z ZINT_VERSION_NUMBER st d.name →
      Ignored z ZINT_VERSION_NUMBER st d.name → False := by
    intro hadopted hignored
    obtain ⟨st', hrun, -⟩ := hadopted 0
    rw [hignored 0] at hrun
    simp at hrun
  cases htransitional : transitional d.name with
  | true =>
      have hadopted : Adopted z ZINT_VERSION_NUMBER st d.name :=
        adopted_of_transitional hz hd hset hversion htransitional
      constructor
      · exact fun h => iff_of_true rfl (by_contra fun hnot => hboth hadopted (h.2 hnot))
      · exact fun h => ⟨fun _ => hadopted, fun hnot => absurd (h.mp rfl) hnot⟩
  | false =>
      have hignored : Ignored z ZINT_VERSION_NUMBER st d.name :=
        ignored_of_not_transitional hversion htransitional
      constructor
      · exact fun h => iff_of_false (by simp) (fun hlegacy => hboth (h.1 hlegacy) hignored)
      · exact fun h => ⟨fun hlegacy => absurd (h.mpr hlegacy) (by simp), fun _ => hignored⟩

/-! ## Names that are mistaken -/

/-- A pool with one snapshot, or one boot environment, of that name. -/
def pool_of (d : dataset_name) : TakeSnapshot.pool where
  filesystems := []
  snapshots := match d with
    | .snapshot _ _ _ => [d.name]
    | .boot_environment _ _ _ => []
  boot_environments := match d with
    | .snapshot _ _ _ => []
    | .boot_environment _ _ _ => [d.name]
  props := []
  valid := by simp

theorem mem_pool_of (d : dataset_name) :
    d.name ∈ d.names TakeSnapshot.pool_libraries (pool_of d) := by
  cases d <;> exact List.mem_singleton_self _

theorem settable_pool (d : dataset_name) : Settable TakeSnapshot.pool_libraries d := by
  intro st prop value hd
  have hopen : st.zfs_open d.name = true := by
    cases d with
    | boot_environment path be valid =>
        have hd' : (path ++ '/' :: be) ∈ st.boot_environments := hd
        simp [TakeSnapshot.pool.zfs_open, dataset_name.name, hd']
    | snapshot dataset snap valid =>
        have hd' : (dataset ++ '@' :: snap) ∈ st.snapshots := hd
        simp [TakeSnapshot.pool.zfs_open, dataset_name.name, hd']
  simp [TakeSnapshot.pool_libraries, TakeSnapshot.pool.zfs_prop_set, hopen]

/-- A snapshot of a version without properties. -/
def legacy_snapshot : dataset_name :=
  .snapshot "zroot".toList "pkg_pre_upgrade_2021-05-01_12:00:00".toList (by decide)

/-- It is adopted. -/
theorem legacy_snapshot_adopted :
    (LegacyName legacy_snapshot.part →
        Adopted TakeSnapshot.pool_libraries 1 (pool_of legacy_snapshot) legacy_snapshot.name)
      ∧ (¬ LegacyName legacy_snapshot.part →
        Ignored TakeSnapshot.pool_libraries 1 (pool_of legacy_snapshot) legacy_snapshot.name) :=
  (adopted_iff_legacy_iff TakeSnapshot.pool_libraries_documented (mem_pool_of legacy_snapshot)
    (settable_pool legacy_snapshot) rfl).mpr (by
      intro rest heq hlen
      have hstamp : "pkg_pre_upgrade_2021-05-01_12:00:00".toList
          = pkg_pre_upgrade_ ++ "2021-05-01_12:00:00".toList := by decide
      rw [hstamp] at heq
      rw [← List.append_cancel_left heq]
      decide)

/-- A snapshot with a name of somebody's own that has the prefix and the length. -/
def own_snapshot : dataset_name :=
  .snapshot "zroot/home".toList "pkg_pre_upgrade_before_my_big_test1".toList (by decide)

/-- A boot environment of a version without properties. -/
def legacy_environment : dataset_name :=
  .boot_environment "zroot/ROOT".toList "pkg_pre_upgrade_2021-05-01_12:00:00".toList (by decide)

/-- **The test of the name goes wrong both ways**: a snapshot of somebody's own is
adopted, and a boot environment of an old version is not. -/
theorem adopted_wrongly :
    Documented TakeSnapshot.pool_libraries
      ∧ ¬ LegacyName own_snapshot.part
      ∧ Adopted TakeSnapshot.pool_libraries 1 (pool_of own_snapshot) own_snapshot.name
      ∧ LegacyName legacy_environment.part
      ∧ Ignored TakeSnapshot.pool_libraries 1 (pool_of legacy_environment)
          legacy_environment.name := by
  refine ⟨TakeSnapshot.pool_libraries_documented, ?_, ?_, ?_, ?_⟩
  · rintro ⟨stamp, heq, hform⟩
    have hown : own_snapshot.part = pkg_pre_upgrade_ ++ "before_my_big_test1".toList := by decide
    rw [hown] at heq
    rw [← List.append_cancel_left heq] at hform
    exact absurd hform (by decide)
  · exact adopted_of_transitional TakeSnapshot.pool_libraries_documented (mem_pool_of own_snapshot)
      (settable_pool own_snapshot) rfl (by decide)
  · exact ⟨"2021-05-01_12:00:00".toList, by decide, by decide⟩
  · exact ignored_of_not_transitional (d := legacy_environment) rfl (by decide)

end PkgPlugins.LegacyNames
