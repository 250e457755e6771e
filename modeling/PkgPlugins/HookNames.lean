/-
The names of the hooks: `hooks`, `name_to_hook` and `hook_to_name`
(`plugins/zfs_integration/plugin_zfs_integration.c`), and what reaches
`hook_to_name`.

A listing decodes the value of `zint:hook` with `name_to_hook`, which answers -1 for a
name it doesn't know, and keeps the answer with the snapshot; `hook_to_name` uses it as
an index without a check. `pkg zint rollback` does so for each snapshot it reports, and
a purge, when it is built with `DEBUG`, for each snapshot of each filesystem before the
retention and for those that are left after it.

The values of `pkg_plugin_hook_t` are those of libpkg: they are a parameter, `code`,
and all that is used of them is that they differ.
-/
import PkgPlugins.Rollback
import PkgPlugins.ZintHooks
import PkgPlugins.ListHooks
import Mathlib.Data.List.MinMax

set_option autoImplicit false

namespace PkgPlugins.HookNames

open PkgPlugins.Fallible PkgPlugins.Pkg PkgPlugins.Retention PkgPlugins.Dlist
open PkgPlugins.ZintHooks (HOOK hooks_h hooks_h_value_inj)
open PkgPlugins.Purge (snapshot_t snapshot_compare_by_creation_date_desc sortedNewestFirst
  sortedNewestFirst_perm HeadGoes destroyedPart iterator_reject_goes iterator_reject_stays)
open PkgPlugins.PurgeErrors (method_list)
open PkgPlugins.ListHooks (listed_hook dataset Decoded method_list_decodes)
open PkgPlugins.Rollback (pkg_zint_main rollback_loop dlist_at_sorted head?_sorted_eq_none_iff)

/-! ## The table -/

section Table

variable (code : pkg_plugin_hook_t → ℕ)

/-- `static const char *hooks[]`: the elements that no hook initializes are `NULL`. -/
def hooks : List (Option (List Char)) :=
  (List.range ((hooks_h.map fun h => code h.value).foldr max 0 + 1)).map fun i =>
    (hooks_h.find? fun h => code h.value = i).map HOOK.name

/-- The loop of `name_to_hook`, from the element `i`. -/
def name_to_hook_loop (name : List Char) : ℕ → List (Option (List Char)) → ℤ
  | _, [] => -1
  | i, none :: hooks => name_to_hook_loop name (i + 1) hooks
  | i, some hook :: hooks => if hook = name then i else name_to_hook_loop name (i + 1) hooks

def name_to_hook (name : List Char) : ℤ := name_to_hook_loop name 0 (hooks code)

/-- `hooks[hook]`, where there is such an element. -/
def hook_to_name (hook : ℤ) : Option (Option (List Char)) :=
  if 0 ≤ hook then (hooks code)[hook.toNat]? else none

/-- The index is within the table, and the element not `NULL`. -/
def Designates (hook : ℤ) : Prop := ∃ name, hook_to_name code hook = some (some name)

/-- The names of `hooks.h`. -/
def KnownHook (name : List Char) : Prop := name ∈ hooks_h.map HOOK.name

instance (name : List Char) : Decidable (KnownHook name) :=
  inferInstanceAs (Decidable (_ ∈ _))

variable {code}

theorem mem_hooks_iff (hcode : Function.Injective code) (name : List Char) :
    some name ∈ hooks code ↔ KnownHook name := by
  simp only [hooks, List.mem_map, List.mem_range, Option.map_eq_some_iff, KnownHook]
  constructor
  · rintro ⟨i, -, h, hfind, rfl⟩
    exact ⟨h, List.mem_of_find?_eq_some hfind, rfl⟩
  · rintro ⟨h, hmem, rfl⟩
    -- the element of a hook is its own, as the values differ
    have hsize : code h.value < (hooks_h.map fun h => code h.value).foldr max 0 + 1 :=
      Nat.lt_succ_of_le (List.le_max_of_le (List.mem_map_of_mem hmem) (Nat.le_refl _))
    obtain ⟨h', hfind⟩ := Option.isSome_iff_exists.mp
      (List.find?_isSome (p := fun h' => decide (code h'.value = code h.value)).mpr
        ⟨h, hmem, decide_eq_true rfl⟩)
    have heq : h' = h := hooks_h_value_inj h' (List.mem_of_find?_eq_some hfind) h hmem
      (hcode (by simpa using List.find?_some hfind))
    exact ⟨code h.value, hsize, h', hfind, by rw [heq]⟩

/-- The loop answers the index of the name, or -1. -/
theorem name_to_hook_loop_spec (name : List Char) (hooks : List (Option (List Char))) :
    ∀ i : ℕ, some name ∈ hooks ∧ (∃ j : ℕ, name_to_hook_loop name i hooks = (i + j : ℕ)
          ∧ hooks[j]? = some (some name))
        ∨ some name ∉ hooks ∧ name_to_hook_loop name i hooks = -1 := by
  induction hooks with
  | nil => exact fun i => Or.inr ⟨by simp, rfl⟩
  | cons hook hooks ih =>
      intro i
      have hnext : some name ∈ hooks ∧ (∃ j : ℕ,
            name_to_hook_loop name (i + 1) hooks = (i + j : ℕ)
              ∧ (hook :: hooks)[j]? = some (some name))
          ∨ some name ∉ hooks ∧ name_to_hook_loop name (i + 1) hooks = -1 := by
        refine (ih (i + 1)).imp_left fun h => ⟨h.1, ?_⟩
        obtain ⟨-, j, hloop, hget⟩ := h
        exact ⟨j + 1, by rw [hloop]; congr 1; omega, by simpa using hget⟩
      cases hook with
      | none => simpa [name_to_hook_loop] using hnext
      | some hook =>
          by_cases heq : hook = name
          · subst heq
            exact Or.inl ⟨by simp, 0, by simp [name_to_hook_loop], rfl⟩
          · simpa [name_to_hook_loop, heq, Ne.symm heq] using hnext

/-- **What `name_to_hook` answers can be used as an index if and only if it knew the
name.** -/
theorem designates_name_to_hook_iff (hcode : Function.Injective code) (name : List Char) :
    Designates code (name_to_hook code name) ↔ KnownHook name := by
  rw [← mem_hooks_iff hcode, Designates, name_to_hook]
  rcases name_to_hook_loop_spec name (hooks code) 0 with ⟨hmem, j, hloop, hget⟩ | ⟨hmem, hloop⟩
  · refine iff_of_true ⟨name, ?_⟩ hmem
    rw [hloop, hook_to_name, if_pos (Int.natCast_nonneg _), Int.toNat_natCast, Nat.zero_add, hget]
  · refine iff_of_false ?_ hmem
    rintro ⟨name', h⟩
    rw [hloop] at h
    simp [hook_to_name] at h

end Table

/-! ## A purge that lists what it does

In a build with `DEBUG`. What is printed isn't of interest, only what it reads. -/

/-- A run that stops: on the memory of a list, or on an index of `hook_to_name`. -/
inductive purge_fault
  | dlist (fault : Fault)
  | hook (index : ℤ)
deriving DecidableEq

section Purge

variable (code : pkg_plugin_hook_t → ℕ)

/-- The argument `hook_to_name(snap->hook)` of `debug`, which is printed as a string. -/
def debug_hook (snap : snapshot_t) : Except purge_fault Unit :=
  match hook_to_name code snap.hook with
  | some (some _) => .ok ()
  | _ => .error (.hook snap.hook)

/-- One of the two loops that print, from `it2`; `step` is the one of the iterator. -/
def debug_loop (step : DList snapshot_t → Ptr → Except Fault Ptr) :
    ℕ → DList snapshot_t → Ptr → Except purge_fault Unit
  | 0, _, _ => .error (.dlist .diverges)
  | fuel + 1, l2, it2 =>
      if dlist_iterator_is_valid it2 then do
        let snap ← (dlist_iterator_current l2 it2).mapError .dlist
        debug_hook code snap
        let it2 ← (step l2 it2).mapError .dlist
        debug_loop step fuel l2 it2
      else .ok ()

variable (DEBUG : Bool) (method : Purge.backup_method_t)

/-- The body of the loop over the filesystems. -/
def purge_filesystem (fcd : filter_callback_data_t) (l2 : DList snapshot_t)
    (done : List snapshot_t) :
    Except purge_fault (Bool × filter_callback_data_t × List snapshot_t) := do
  let fcd := retention_filter_callback_data_reset fcd
  let l2 ← (dlist_sort l2 snapshot_compare_by_creation_date_desc).mapError .dlist
  if DEBUG then
    debug_loop code dlist_iterator_next (l2.brk + 1) l2 (dlist_iterator_first l2)
  let (l2, fcd) ← (iterator_reject l2 (fun snap => retention_filter_callback snap.creation)
    fcd).mapError .dlist
  if DEBUG then
    debug_loop code dlist_iterator_previous (l2.brk + 1) l2 (dlist_iterator_last l2)
  let (ok, done) ← (Purge.destroy_loop method (l2.brk + 1) l2 (dlist_iterator_last l2) true
    done).mapError .dlist
  return (ok, fcd, done)

/-- The loop over the filesystems. -/
def purge_loop : List (DList snapshot_t) → Bool → filter_callback_data_t → List snapshot_t →
    Except purge_fault (Bool × List snapshot_t)
  | [], ok, _, done => .ok (ok, done)
  | l2 :: l, _, fcd, done => do
      let (ok, fcd, done) ← purge_filesystem code DEBUG method fcd l2 done
      purge_loop l ok fcd done

/-- `purge_snapshots(retention, limit, error)` -/
def purge_snapshots (retention : retention_type_t) (limit : UInt64) :
    Except purge_fault (Bool × List snapshot_t) :=
  let fcd := retention_filter_callback_data_create retention limit
  if method.list.1 then purge_loop code DEBUG method method.list.2 false fcd []
  else .ok (false, [])

end Purge

/-! ### What is printed -/

section Printed

variable {code : pkg_plugin_hook_t → ℕ} {l : List snapshot_t}

theorem debug_hook_known {snap : snapshot_t} (h : Designates code snap.hook) :
    debug_hook code snap = .ok () := by
  obtain ⟨name, hname⟩ := h
  rw [debug_hook, hname]

theorem debug_hook_unknown {snap : snapshot_t} (h : ¬ Designates code snap.hook) :
    debug_hook code snap = .error (.hook snap.hook) := by
  unfold debug_hook
  split
  · rename_i name hname
    exact absurd ⟨name, hname⟩ h
  · rfl

theorem debug_hooks_known (h : ∀ s ∈ l, Designates code s.hook) :
    forM l (debug_hook code) = .ok () := by
  induction l with
  | nil => rfl
  | cons s l ih =>
      rw [List.forall_mem_cons] at h
      rw [List.forM_cons, debug_hook_known h.1, ok_bind, ih h.2]

/-- The first hook that isn't known ends the loop. -/
theorem debug_hooks_unknown (h : ¬ ∀ s ∈ l, Designates code s.hook) :
    ∃ index, forM l (debug_hook code) = .error (.hook index) := by
  induction l with
  | nil => exact absurd (by simp) h
  | cons s l ih =>
      by_cases hs : Designates code s.hook
      · obtain ⟨index, hindex⟩ := ih (fun hl => h (List.forall_mem_cons.mpr ⟨hs, hl⟩))
        exact ⟨index, by rw [List.forM_cons, debug_hook_known hs, ok_bind, hindex]⟩
      · exact ⟨s.hook, by rw [List.forM_cons, debug_hook_unknown hs]; rfl⟩

/-- What an iterator on an element reads, going forward. -/
theorem iterator_on_next {l2 : DList snapshot_t} {pre post : List (ℕ × snapshot_t)}
    {x : ℕ × snapshot_t} (h : Represents l2 (pre ++ x :: post)) :
    dlist_iterator_current l2 (some x.1) = .ok x.2
      ∧ dlist_iterator_next l2 (some x.1) = .ok (firstAddr post none) := by
  simp only [dlist_iterator_current, dlist_iterator_next, h.read, ok_bind, pure, Except.pure,
    and_self]

theorem debug_loop_next (post : List (ℕ × snapshot_t)) :
    ∀ (fuel : ℕ) (l2 : DList snapshot_t) (pre : List (ℕ × snapshot_t)),
      Represents l2 (pre ++ post) → post.length < fuel →
      debug_loop code dlist_iterator_next fuel l2 (firstAddr post none)
        = forM (post.map Prod.snd) (debug_hook code) := by
  induction post with
  | nil =>
      intro fuel l2 pre _ hfuel
      obtain ⟨fuel, rfl⟩ := Nat.exists_eq_succ_of_ne_zero (Nat.ne_of_gt hfuel)
      rfl
  | cons x post ih =>
      intro fuel l2 pre h hfuel
      obtain ⟨fuel, rfl⟩ := Nat.exists_eq_succ_of_ne_zero (Nat.ne_of_gt (Nat.zero_lt_of_lt hfuel))
      obtain ⟨hcurrent, hnext⟩ := iterator_on_next h
      have hrest := ih fuel l2 (pre ++ [x]) (by simpa using h) (by simpa using hfuel)
      simp only [debug_loop, firstAddr_cons, dlist_iterator_is_valid, Option.isSome_some, if_true,
        hcurrent, hnext, Except.mapError, ok_bind, List.map_cons, List.forM_cons, hrest]

theorem debug_loop_previous (pre : List (ℕ × snapshot_t)) :
    ∀ (fuel : ℕ) (l2 : DList snapshot_t) (post : List (ℕ × snapshot_t)),
      Represents l2 (pre ++ post) → pre.length < fuel →
      debug_loop code dlist_iterator_previous fuel l2 (lastAddr none pre)
        = forM (pre.map Prod.snd).reverse (debug_hook code) := by
  induction pre using List.reverseRecOn with
  | nil =>
      intro fuel l2 post _ hfuel
      obtain ⟨fuel, rfl⟩ := Nat.exists_eq_succ_of_ne_zero (Nat.ne_of_gt hfuel)
      rfl
  | append_singleton pre x ih =>
      intro fuel l2 post h hfuel
      obtain ⟨fuel, rfl⟩ := Nat.exists_eq_succ_of_ne_zero (Nat.ne_of_gt (Nat.zero_lt_of_lt hfuel))
      rw [List.length_append, List.length_singleton] at hfuel
      have hx : Represents l2 (pre ++ x :: post) := by simpa using h
      obtain ⟨hcurrent, hprevious⟩ := Purge.iterator_on hx
      have hparts : ((pre ++ [x]).map Prod.snd).reverse = x.2 :: (pre.map Prod.snd).reverse := by
        simp
      have hrest := ih fuel l2 (x :: post) hx (by omega)
      simp only [debug_loop, lastAddr_append, lastAddr_cons, lastAddr_nil,
        dlist_iterator_is_valid, Option.isSome_some, if_true, hcurrent, hprevious,
        Except.mapError, ok_bind, hparts, List.forM_cons, hrest]

end Printed

/-! ### One filesystem, and all of them -/

section Filesystems

variable {code : pkg_plugin_hook_t → ℕ} {DEBUG : Bool} {method : Purge.backup_method_t}

theorem sorted_represents {l2 : DList snapshot_t} {l : List snapshot_t} (h : WellFormed l2 l) :
    ∃ l2' ns, dlist_sort l2 snapshot_compare_by_creation_date_desc = .ok l2'
      ∧ Represents l2' ns ∧ ns.map Prod.snd = sortedNewestFirst l := by
  obtain ⟨ns, hns, rfl⟩ := h
  obtain ⟨l2', ns', hsort, -, -, hdata, hrep⟩ :=
    dlist_sort_spec hns snapshot_compare_by_creation_date_desc
  exact ⟨l2', ns', hsort, hrep, hdata⟩

theorem mem_of_mem_destroyedPart {retention : retention_type_t} {limit : UInt64}
    {l : List snapshot_t} {s : snapshot_t} (h : s ∈ destroyedPart retention limit l) : s ∈ l :=
  (sortedNewestFirst_perm l).mem_iff.mp (List.mem_of_mem_filter (List.mem_reverse.mp h))

/-- Without `DEBUG` it is the purge. -/
theorem purge_filesystem_quiet (fcd : filter_callback_data_t) (l2 : DList snapshot_t)
    (done : List snapshot_t) :
    purge_filesystem code false method fcd l2 done
      = (Purge.purge_filesystem method fcd l2 done).mapError .dlist := by
  unfold purge_filesystem Purge.purge_filesystem
  cases dlist_sort l2 snapshot_compare_by_creation_date_desc with
  | error fault => rfl
  | ok l2 =>
      cases hreject : iterator_reject l2 (fun snap => retention_filter_callback snap.creation)
          (retention_filter_callback_data_reset fcd) with
      | error fault => simp only [hreject, ok_bind, Except.mapError]; rfl
      | ok r =>
          cases hloop : Purge.destroy_loop method (r.1.brk + 1) r.1 (dlist_iterator_last r.1) true
              done with
          | error fault => simp only [hreject, hloop, ok_bind, Except.mapError]; rfl
          | ok r' => simp only [hreject, hloop, ok_bind, Except.mapError]; rfl

/-- Where all hooks are known the loops only print. -/
theorem purge_filesystem_known {l2 : DList snapshot_t} {l : List snapshot_t} (hl : WellFormed l2 l)
    (hknown : ∀ s ∈ l, Designates code s.hook) (fcd : filter_callback_data_t)
    (done : List snapshot_t) :
    purge_filesystem code true method fcd l2 done
      = purge_filesystem code false method fcd l2 done := by
  obtain ⟨retention, limit, state⟩ := fcd
  obtain ⟨l2', ns, hsort, hrep, hsorted⟩ := sorted_represents hl
  have hfirst : debug_loop code dlist_iterator_next (l2'.brk + 1) l2' (dlist_iterator_first l2')
      = .ok () := by
    rw [dlist_iterator_first, hrep.head,
      debug_loop_next ns _ l2' [] hrep (Nat.lt_succ_of_le hrep.length_le), hsorted]
    exact debug_hooks_known fun s hs => hknown s ((sortedNewestFirst_perm l).mem_iff.mp hs)
  by_cases hgoes : HeadGoes retention limit l
  · obtain ⟨l2₁, l2'', ns', hsort₁, hreject, hrep', hpart⟩ := iterator_reject_goes hl hgoes
    obtain rfl := Except.ok.inj (hsort.symm.trans hsort₁)
    have hlast : debug_loop code dlist_iterator_previous (l2''.brk + 1) l2''
        (dlist_iterator_last l2'') = .ok () := by
      rw [dlist_iterator_last, hrep'.tail, debug_loop_previous ns' _ l2'' [] (by simpa using hrep')
        (Nat.lt_succ_of_le hrep'.length_le), hpart]
      exact debug_hooks_known fun s hs => hknown s (mem_of_mem_destroyedPart hs)
    simp only [purge_filesystem, hsort, hreject, retention_filter_callback_data_reset, hfirst,
      hlast, Except.mapError, ok_bind, if_true, Bool.false_eq_true, if_false]
  · obtain ⟨l2₁, p, hsort₁, hreject⟩ := iterator_reject_stays hl hgoes
    obtain rfl := Except.ok.inj (hsort.symm.trans hsort₁)
    simp only [purge_filesystem, hsort, hreject, retention_filter_callback_data_reset, hfirst,
      Except.mapError, ok_bind, if_true, Bool.false_eq_true, if_false]
    rfl

/-- Where one isn't, the first loop gets to it. -/
theorem purge_filesystem_unknown {l2 : DList snapshot_t} {l : List snapshot_t}
    (hl : WellFormed l2 l) (hunknown : ¬ ∀ s ∈ l, Designates code s.hook)
    (fcd : filter_callback_data_t) (done : List snapshot_t) :
    ∃ index, purge_filesystem code true method fcd l2 done = .error (.hook index) := by
  obtain ⟨l2', ns, hsort, hrep, hsorted⟩ := sorted_represents hl
  obtain ⟨index, hindex⟩ := debug_hooks_unknown (l := sortedNewestFirst l)
    (fun h => hunknown fun s hs => h s ((sortedNewestFirst_perm l).mem_iff.mpr hs))
  have hfirst : debug_loop code dlist_iterator_next (l2'.brk + 1) l2' (dlist_iterator_first l2')
      = .error (.hook index) := by
    rw [dlist_iterator_first, hrep.head,
      debug_loop_next ns _ l2' [] hrep (Nat.lt_succ_of_le hrep.length_le), hsorted, hindex]
  refine ⟨index, ?_⟩
  simp only [purge_filesystem, hsort, hfirst, Except.mapError, ok_bind, if_true]
  rfl

variable {lists : List (DList snapshot_t)} {fss : List (List snapshot_t)}

theorem purge_loop_known (hl : List.Forall₂ WellFormed lists fss)
    (hknown : DEBUG = true → ∀ l ∈ fss, ∀ s ∈ l, Designates code s.hook) :
    ∀ (ok : Bool) (fcd : filter_callback_data_t) (done : List snapshot_t),
      purge_loop code DEBUG method lists ok fcd done
        = (Purge.purge_loop method lists ok fcd done).mapError .dlist := by
  induction hl with
  | nil => exact fun ok fcd done => rfl
  | @cons l2 l lists fss hwf _ ih =>
      intro ok fcd done
      have hfirst : purge_filesystem code DEBUG method fcd l2 done
          = (Purge.purge_filesystem method fcd l2 done).mapError .dlist := by
        have hquiet : purge_filesystem code false method fcd l2 done = _ :=
          purge_filesystem_quiet fcd l2 done
        rw [← hquiet]
        cases DEBUG with
        | false => rfl
        | true => exact purge_filesystem_known hwf (hknown rfl l (by simp)) fcd done
      rw [purge_loop, Purge.purge_loop, hfirst]
      cases Purge.purge_filesystem method fcd l2 done with
      | error fault => rfl
      | ok r =>
          exact ih (fun hDEBUG l hl => hknown hDEBUG l (List.mem_cons_of_mem _ hl)) r.1 r.2.1 r.2.2

/-- A purge that keeps nothing gets to every filesystem. -/
theorem purge_loop_unknown (hl : List.Forall₂ WellFormed lists fss)
    (hunknown : ¬ ∀ l ∈ fss, ∀ s ∈ l, Designates code s.hook) :
    ∀ (ok : Bool) (state : UInt64) (done : List snapshot_t), ∃ index,
      purge_loop code true method lists ok ⟨.BY_COUNT, 0, state⟩ done = .error (.hook index) := by
  induction hl with
  | nil => exact absurd (by simp) hunknown
  | @cons l2 l lists fss hwf _ ih =>
      intro ok state done
      by_cases hknown : ∀ s ∈ l, Designates code s.hook
      · have hgoes : HeadGoes .BY_COUNT 0 l := fun _ _ => rfl
        obtain ⟨ok', hrun, -⟩ := Purge.purge_filesystem_goes method hwf hgoes state done
        obtain ⟨index, hindex⟩ := ih (fun h => hunknown (List.forall_mem_cons.mpr ⟨hknown, h⟩))
          ok' 0 (done ++ Purge.handed method done (destroyedPart .BY_COUNT 0 l))
        refine ⟨index, ?_⟩
        rw [purge_loop, purge_filesystem_known hwf hknown, purge_filesystem_quiet, hrun]
        exact hindex
      · obtain ⟨index, hindex⟩ : ∃ index, purge_filesystem code true method ⟨.BY_COUNT, 0, state⟩ l2
            done = .error (.hook index) := purge_filesystem_unknown hwf hknown _ done
        exact ⟨index, by rw [purge_loop, hindex]; rfl⟩

end Filesystems

/-! ## What a rollback reports -/

section Reports

/-- The snapshots to go back to, up to a filesystem without one. -/
def targets : List (List snapshot_t) → List snapshot_t
  | [] => []
  | l :: fss =>
      match (sortedNewestFirst l).head? with
      | none => []
      | some last => last :: targets fss

theorem mem_flatten_of_mem_targets {s : snapshot_t} (fss : List (List snapshot_t))
    (h : s ∈ targets fss) : s ∈ fss.flatten := by
  induction fss with
  | nil => exact h
  | cons l fss ih =>
      rw [List.flatten_cons, List.mem_append]
      rw [targets] at h
      split at h
      · exact absurd h List.not_mem_nil
      · rename_i last hlast
        rcases List.mem_cons.mp h with rfl | h
        · exact Or.inl ((sortedNewestFirst_perm l).mem_iff.mp (List.mem_of_mem_head? hlast))
        · exact Or.inr (ih h)

variable {DEBUG : Bool} {method : Rollback.backup_method_t} {dry_run temporary : Bool}
  {lists : List (DList snapshot_t)} {fss : List (List snapshot_t)}

/-- The loop reports targets, one after the other, and all of them when it doesn't roll
back. -/
theorem rollback_loop_reports (hl : List.Forall₂ WellFormed lists fss) :
    ∀ rolled reported : List snapshot_t, ∃ error rolled' new,
      rollback_loop DEBUG method dry_run temporary lists rolled reported
          = .ok (error, rolled', reported ++ new)
        ∧ new <+: targets fss ∧ (dry_run = true → new = targets fss) := by
  induction hl with
  | nil =>
      intro rolled reported
      exact ⟨none, rolled, [], by simp [rollback_loop], by simp, fun _ => rfl⟩
  | @cons l2 l lists fss hwf _ ih =>
      intro rolled reported
      obtain ⟨l2', hsort, hat⟩ := dlist_at_sorted hwf
      cases hhead : (sortedNewestFirst l).head? with
      | none =>
          have htargets : targets (l :: fss) = [] := by rw [targets, hhead]
          refine ⟨some "no identified previous version to rollback to", rolled, [], ?_,
            List.nil_prefix, fun _ => htargets.symm⟩
          simp only [rollback_loop, hsort, ok_bind, hat, hhead, List.append_nil]
          rfl
      | some last =>
          have htargets : targets (l :: fss) = last :: targets fss := by rw [targets, hhead]
          rw [htargets]
          -- the report of this one, and those of the rest of the loop
          have hgoes : ∀ rolled₁, ∃ error rolled' new,
              rollback_loop DEBUG method dry_run temporary lists rolled₁ (reported ++ [last])
                  = .ok (error, rolled', reported ++ new)
                ∧ new <+: last :: targets fss ∧ (dry_run = true → new = last :: targets fss) := by
            intro rolled₁
            obtain ⟨error, rolled', new, hrun, hstart, hall⟩ := ih rolled₁ (reported ++ [last])
            exact ⟨error, rolled', last :: new, by rw [hrun, List.append_assoc]; rfl,
              List.prefix_cons_inj last |>.mpr hstart, fun h => by rw [hall h]⟩
          by_cases hreal : (!dry_run && !DEBUG) = true
          · cases hroll : method.rollback_to rolled last temporary with
            | error message =>
                refine ⟨some message, rolled ++ [last], [], ?_, List.nil_prefix, fun h => ?_⟩
                · simp only [rollback_loop, hsort, ok_bind, hat, hhead, hreal, if_true, hroll,
                    List.append_nil]
                  rfl
                · simp [h] at hreal
            | ok =>
                obtain ⟨error, rolled', new, hrun, hnew⟩ := hgoes (rolled ++ [last])
                refine ⟨error, rolled', new, ?_, hnew⟩
                simp only [rollback_loop, hsort, ok_bind, hat, hhead, hreal, if_true, hroll, hrun]
          · obtain ⟨error, rolled', new, hrun, hnew⟩ := hgoes rolled
            refine ⟨error, rolled', new, ?_, hnew⟩
            simp only [rollback_loop, hsort, ok_bind, hat, hhead, hreal, hrun]
            rfl

end Reports

/-! ## What reaches `hook_to_name` -/

section Runs

variable (code : pkg_plugin_hook_t → ℕ) (DEBUG : Bool)

/-- The snapshots whose hook gets to `hook_to_name`, in a rollback or in a purge. -/
def reached (fss : List (List snapshot_t)) : List snapshot_t :=
  if DEBUG then fss.flatten else targets fss

/-- With these lists, each rollback reports snapshots whose hook has a name, and no purge
stops on the index of a hook. -/
structure HooksDesignate (lists : List (DList snapshot_t)) : Prop where
  rollback : ∀ rollback_to opts argv, ∃ r,
    pkg_zint_main DEBUG ⟨.ok lists, rollback_to⟩ opts argv = .ok r
      ∧ ∀ s ∈ r.reported, Designates code s.hook
  purge : ∀ destroy retention limit index,
    purge_snapshots code DEBUG ⟨(true, lists), destroy⟩ retention limit ≠ .error (.hook index)

variable {code DEBUG} {lists : List (DList snapshot_t)} {fss : List (List snapshot_t)}

theorem mem_reached_of_mem_targets {s : snapshot_t} (h : s ∈ targets fss) :
    s ∈ reached DEBUG fss := by
  cases DEBUG with
  | false => exact h
  | true => exact mem_flatten_of_mem_targets fss h

theorem mem_flatten_of_mem_reached {s : snapshot_t} (h : s ∈ reached DEBUG fss) :
    s ∈ fss.flatten := by
  cases DEBUG with
  | false => exact mem_flatten_of_mem_targets fss h
  | true => exact h

/-- What a rollback reports are targets, and with `-n` all of them. -/
theorem pkg_zint_main_reports (hl : List.Forall₂ WellFormed lists fss)
    (rollback_to : List snapshot_t → snapshot_t → Bool → Except String Unit) (opts : List Char)
    (argv : List String) :
    ∃ r, pkg_zint_main DEBUG ⟨.ok lists, rollback_to⟩ opts argv = .ok r
      ∧ (∀ s ∈ r.reported, s ∈ targets fss)
      ∧ (opts = ['n'] → argv = ["rollback"] → r.reported = targets fss) := by
  generalize hs : Rollback.options_loop opts ⟨.EPKG_FATAL, false, false, false⟩ = s
  by_cases husage : (if argv = ["rollback"] then s.status else .EX_USAGE) = .EX_USAGE
  · refine ⟨_, by rw [pkg_zint_main, hs]; exact if_pos husage, by simp, ?_⟩
    rintro rfl rfl
    rw [if_pos rfl, ← hs] at husage
    cases husage
  · obtain ⟨error, rolled, new, hrun, hstart, hall⟩ :=
      @rollback_loop_reports DEBUG ⟨.ok lists, rollback_to⟩ s.dry_run s.temporary _ _ hl [] []
    refine ⟨⟨.EPKG_OK, error, rolled, new⟩, ?_, fun s hs => hstart.subset hs, ?_⟩
    · rw [pkg_zint_main, hs]
      simp only [if_neg husage, hrun, ok_bind, List.nil_append]
      rfl
    · rintro rfl rfl
      refine hall ?_
      rw [← hs]
      rfl

/-- For the lists of a listing. -/
theorem hooksDesignate_iff (hl : List.Forall₂ WellFormed lists fss) :
    HooksDesignate code DEBUG lists ↔ ∀ s ∈ reached DEBUG fss, Designates code s.hook := by
  constructor
  · intro h s hs
    cases DEBUG with
    | false =>
        obtain ⟨r, hr, hdesignates⟩ := h.rollback (fun _ _ _ => .ok ()) ['n'] ["rollback"]
        obtain ⟨r', hr', -, hall⟩ := @pkg_zint_main_reports false _ _ hl
          (fun _ _ _ => .ok ()) ['n'] ["rollback"]
        obtain rfl := Except.ok.inj (hr.symm.trans hr')
        exact hdesignates s (by rw [hall rfl rfl]; exact hs)
    | true =>
        by_contra hcon
        have hunknown : ¬ ∀ l ∈ fss, ∀ s ∈ l, Designates code s.hook := by
          obtain ⟨l, hmem, hsl⟩ := List.mem_flatten.mp hs
          exact fun hknown => hcon (hknown l hmem s hsl)
        obtain ⟨index, hindex⟩ :=
          @purge_loop_unknown _ ⟨(true, lists), fun _ _ => true⟩ _ _ hl hunknown false 0 []
        exact h.purge (fun _ _ => true) .BY_COUNT 0 index hindex
  · intro h
    refine ⟨fun rollback_to opts argv => ?_, fun destroy retention limit index hcon => ?_⟩
    · obtain ⟨r, hr, hreported, -⟩ :=
        @pkg_zint_main_reports DEBUG _ _ hl rollback_to opts argv
      exact ⟨r, hr, fun s hs => h s (mem_reached_of_mem_targets (hreported s hs))⟩
    · have hknown : DEBUG = true → ∀ l ∈ fss, ∀ s ∈ l, Designates code s.hook := by
        rintro rfl l hmem s hs
        exact h s (List.mem_flatten.mpr ⟨l, hmem, hs⟩)
      simp only [purge_snapshots, if_true, purge_loop_known hl hknown] at hcon
      cases hrun : Purge.purge_loop ⟨(true, lists), destroy⟩ lists false
          (retention_filter_callback_data_create retention limit) [] with
      | error fault => simp [hrun, Except.mapError] at hcon
      | ok r => simp [hrun, Except.mapError] at hcon

end Runs

/-! ## The datasets -/

/-- The dataset had one of the names of `hooks.h`. -/
def Known {σ : Type} (z : ZintErrors.reporting σ) (m : TakeSnapshot.method) (st : σ)
    (s : snapshot_t) : Prop :=
  ∃ value, listed_hook z.tolibraries st (dataset z m s) = some value ∧ KnownHook value

/-- What is decoded designates a name just if the value is the name of a hook. -/
theorem designates_decoded_iff {σ : Type} {z : ZintErrors.reporting σ}
    {code : pkg_plugin_hook_t → ℕ} (hcode : Function.Injective code) {m : TakeSnapshot.method}
    {st : σ} {s : snapshot_t} (h : Decoded z (name_to_hook code) m st s) :
    Designates code s.hook ↔ Known z m st s := by
  obtain ⟨value, hvalue, hhook⟩ := h
  rw [hhook, designates_name_to_hook_iff hcode, Known, hvalue]
  simp

/-- **Every index that reaches `hook_to_name` designates a name if and only if** each
snapshot that gets there was listed from a dataset with one of the names of `hooks.h`. -/
theorem hooks_designate_iff {σ : Type} (code : pkg_plugin_hook_t → ℕ)
    (hcode : Function.Injective code) (DEBUG : Bool) {z : ZintErrors.reporting σ}
    (hz : ListHooks.Documented z) (ZINT_VERSION_NUMBER : UInt64)
    (ZFS_MAX_DATASET_NAME_LEN fuel : ℕ) (m : TakeSnapshot.method) (ptc : RawZfs.paths_to_check_t)
    (st : σ) (hexist : ∀ fs ∈ ptc.filesystems, fs ∈ z.filesystems st) :
    (∀ st' lists error', method_list z ZINT_VERSION_NUMBER (name_to_hook code)
        ZFS_MAX_DATASET_NAME_LEN fuel m ptc st (some none) = .ok ((st', true, lists), error') →
      HooksDesignate code DEBUG lists)
    ↔ ∀ st' lists error', method_list z ZINT_VERSION_NUMBER (name_to_hook code)
        ZFS_MAX_DATASET_NAME_LEN fuel m ptc st (some none) = .ok ((st', true, lists), error') →
      ∃ fss, List.Forall₂ WellFormed lists fss ∧ ∀ s ∈ reached DEBUG fss, Known z m st s := by
  refine forall_congr' fun st' => forall_congr' fun lists => forall_congr' fun error' =>
    forall_congr' fun hrun => ?_
  obtain ⟨fss, hfss, hdecoded⟩ := method_list_decodes hz ZFS_MAX_DATASET_NAME_LEN fuel m ptc
    st hexist _ _ _ hrun
  have hknown : ∀ s ∈ reached DEBUG fss, Designates code s.hook ↔ Known z m st s := by
    intro s hs
    obtain ⟨l, hmem, hsl⟩ := List.mem_flatten.mp (mem_flatten_of_mem_reached hs)
    exact designates_decoded_iff hcode (hdecoded l hmem s hsl)
  rw [hooksDesignate_iff hfss, forall₂_congr hknown]
  constructor
  · exact fun h => ⟨fss, hfss, h⟩
  · rintro ⟨fss', hfss', h⟩
    -- the lists have one content
    obtain rfl := wellFormed_rightUnique.forall₂ hfss hfss'
    exact h

/-! ## A snapshot of another version -/

/-- The values of libpkg. -/
def libpkg : pkg_plugin_hook_t → ℕ
  | .PKG_PLUGIN_HOOK_PRE_INSTALL => 1
  | .PKG_PLUGIN_HOOK_POST_INSTALL => 2
  | .PKG_PLUGIN_HOOK_PRE_DEINSTALL => 3
  | .PKG_PLUGIN_HOOK_POST_DEINSTALL => 4
  | .PKG_PLUGIN_HOOK_PRE_UPGRADE => 8
  | .PKG_PLUGIN_HOOK_POST_UPGRADE => 9
  | .PKG_PLUGIN_HOOK_PRE_AUTOREMOVE => 10
  | .PKG_PLUGIN_HOOK_POST_AUTOREMOVE => 11

theorem libpkg_injective : Function.Injective libpkg := by
  intro a b h
  cases a <;> cases b <;> first | rfl | cases h

/-- The listing of the two snapshots of a recursive one, with this value of `zint:hook`. -/
def listed (hook : List Char) :
    Except (WriteOnce.Fault String ListSnapshots.Fault)
      ((TakeSnapshot.pool × Bool × List (DList snapshot_t)) × WriteOnce.Cell String) :=
  method_list (PurgeErrors.reporting_pool PurgeTree.pool_access) 1 (name_to_hook libpkg) 256 2
    (.raw_zfs_method ⟨true⟩) PurgeTree.on_tree (PurgeTree.snapshotted PurgeTree.before_upgrade hook)
    (some none)

theorem pool_documented :
    ListHooks.Documented (PurgeErrors.reporting_pool PurgeTree.pool_access) where
  access := PurgeTree.pool_access_documented
  be_once _ _ h := by
    obtain rfl := Option.some.inj h
    exact List.nodup_nil
  be_there _ _ h := by
    obtain rfl := Option.some.inj h
    simp

theorem on_tree_exist (hook : List Char) : ∀ fs ∈ PurgeTree.on_tree.filesystems,
    fs ∈ (PurgeTree.snapshotted PurgeTree.before_upgrade hook).filesystems := by
  change ∀ fs ∈ PurgeTree.on_tree.filesystems, fs ∈ PurgeTree.tree.filesystems
  decide

/-- The hooks that `pkg zint -n rollback` reports after it. -/
def reported_hooks (hook : List Char) : Option (List ℤ) :=
  match listed hook with
  | .ok ((_, true, lists), _) =>
      match pkg_zint_main false ⟨.ok lists, fun _ _ _ => .ok ()⟩ ['n'] ["rollback"] with
      | .ok r => some (r.reported.map snapshot_t.hook)
      | .error _ => none
  | _ => none

/-- What it reports are the targets. -/
theorem reported_hooks_eq {hook : List Char} {st' : TakeSnapshot.pool}
    {lists : List (DList snapshot_t)} {error' : WriteOnce.Cell String}
    (hrun : listed hook = .ok ((st', true, lists), error')) {fss : List (List snapshot_t)}
    (hfss : List.Forall₂ WellFormed lists fss) :
    reported_hooks hook = some ((targets fss).map snapshot_t.hook) := by
  obtain ⟨r, hr, -, hall⟩ :=
    @pkg_zint_main_reports false _ _ hfss (fun _ _ _ => .ok ()) ['n'] ["rollback"]
  simp only [reported_hooks, hrun, hr, hall rfl rfl]

/-- It reports a listing that succeeded. -/
theorem listed_of_reported_hooks {hook : List Char} {hooks : List ℤ}
    (h : reported_hooks hook = some hooks) :
    ∃ st' lists error', listed hook = .ok ((st', true, lists), error') := by
  unfold reported_hooks at h
  split at h
  · rename_i st' lists error' hrun
    exact ⟨st', lists, error', hrun⟩
  · cases h

/-- The hook of this version, read from one snapshot and given to the other. -/
theorem hooks_designate_upgrade :
    ∃ st' lists error', listed PurgeTree.PRE_UPGRADE = .ok ((st', true, lists), error')
      ∧ HooksDesignate libpkg false lists := by
  have hreported : reported_hooks PurgeTree.PRE_UPGRADE = some [8, 8] := by decide +kernel
  have hexist := on_tree_exist PurgeTree.PRE_UPGRADE
  obtain ⟨st₀, lists₀, error₀, hrun₀⟩ := listed_of_reported_hooks hreported
  refine ⟨st₀, lists₀, error₀, hrun₀, (hooks_designate_iff libpkg libpkg_injective false
    pool_documented 1 256 2 (.raw_zfs_method ⟨true⟩) PurgeTree.on_tree
    (PurgeTree.snapshotted PurgeTree.before_upgrade PurgeTree.PRE_UPGRADE) hexist).mpr ?_
    _ _ _ hrun₀⟩
  intro st' lists error' hrun
  obtain ⟨fss, hfss, hdecoded⟩ := method_list_decodes pool_documented 256 2 (.raw_zfs_method ⟨true⟩)
    PurgeTree.on_tree (PurgeTree.snapshotted PurgeTree.before_upgrade PurgeTree.PRE_UPGRADE)
    hexist _ _ _ hrun
  refine ⟨fss, hfss, fun s hs => ?_⟩
  obtain ⟨l, hmem, hsl⟩ := List.mem_flatten.mp (mem_flatten_of_mem_reached hs)
  rw [← designates_decoded_iff libpkg_injective (hdecoded l hmem s hsl)]
  -- each hook is 8
  rw [reported_hooks_eq hrun hfss, Option.some.injEq] at hreported
  have hhook : s.hook ∈ [8, 8] := hreported ▸ List.mem_map_of_mem hs
  rw [show s.hook = 8 by simpa using hhook]
  exact ⟨PurgeTree.PRE_UPGRADE, by decide⟩

/-- **A hook that this version doesn't know**: `hooks[-1]` is read by a rollback. -/
theorem hooks_designate_fetch :
    (∃ st' lists error', listed "PRE:FETCH".toList = .ok ((st', true, lists), error')
        ∧ ¬ HooksDesignate libpkg false lists)
      ∧ reported_hooks "PRE:FETCH".toList = some [-1, 8]
      ∧ hook_to_name libpkg (-1) = none := by
  have hreported : reported_hooks "PRE:FETCH".toList = some [-1, 8] := by decide +kernel
  refine ⟨?_, hreported, rfl⟩
  obtain ⟨st', lists, error', hrun⟩ := listed_of_reported_hooks hreported
  refine ⟨st', lists, error', hrun, fun h => ?_⟩
  obtain ⟨fss, hfss, -⟩ :=
    PurgeErrors.method_list_wellFormed _ _ _ _ _ _ _ _ _ _ _ hrun
  rw [reported_hooks_eq hrun hfss, Option.some.injEq] at hreported
  obtain ⟨s, hs, hhook⟩ := List.mem_map.mp
    (show (-1 : ℤ) ∈ (targets fss).map snapshot_t.hook by rw [hreported]; simp)
  obtain ⟨name, hname⟩ := (@hooksDesignate_iff _ false _ _ hfss).mp h s hs
  rw [hhook] at hname
  cases hname

end PkgPlugins.HookNames
