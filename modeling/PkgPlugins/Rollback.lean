/-
`pkg zint rollback` (`pkg_zint_main` of
`plugins/zfs_integration/plugin_zfs_integration.c`).

The snapshots of each filesystem are sorted newest first, and the first of the list
is the one to go back to. A filesystem without a snapshot and a `rollback_to` that
fails both leave the loop with a message, but behind the loop `status` is
`EPKG_OK` whatever happened in it: only a listing that fails, and a wrong use, are
told from a success.

Which snapshot comes first is decided by `BubbleSort.sort_head`: the newest one, if
the comparison sees so for each snapshot listed before it.
-/
import PkgPlugins.SnapshotOrder

set_option autoImplicit false

namespace PkgPlugins.Rollback

open PkgPlugins.Fallible PkgPlugins.Dlist PkgPlugins.Attempts
open PkgPlugins.Purge (snapshot_t snapshot_compare_by_creation_date_desc sortedNewestFirst
  sortedNewestFirst_perm newer Fits compare_pos_iff)

/-! ## The code -/

/-- The values of `status`, which has the type `pkg_error_t` and holds `EX_USAGE` too. -/
inductive status_t
  | EPKG_OK
  | EPKG_FATAL
  | EX_USAGE
deriving DecidableEq, Repr

/-- What `pkg_zint_main` uses of a `backup_method_t`. `rollback_to` may depend on the
snapshots it was called on before; it gets `temporary`. What fails has a message. -/
structure backup_method_t where
  list : Except String (List (DList snapshot_t))
  rollback_to : List snapshot_t → snapshot_t → Bool → Except String Unit

/-- What the options set. -/
structure settings where
  status : status_t
  dry_run : Bool
  temporary : Bool
  yes : Bool

/-- The loop over the options that `getopt_long` returns. -/
def options_loop : List Char → settings → settings
  | [], s => s
  | 'n' :: opts, s => options_loop opts { s with dry_run := true }
  | 't' :: opts, s => options_loop opts { s with temporary := true }
  | 'y' :: opts, s => options_loop opts { s with yes := true }
  | _ :: opts, s => options_loop opts { s with status := .EX_USAGE }

/-- A run: what it returns, the message it ends with, the snapshots `rollback_to` was
called on, and those it was reported for. -/
structure run where
  status : status_t
  error : Option String
  rolled : List snapshot_t
  reported : List snapshot_t
deriving DecidableEq

/-- The loop over the filesystems: the message, the calls of `rollback_to` and the
reports. -/
def rollback_loop (DEBUG : Bool) (method : backup_method_t) (dry_run temporary : Bool) :
    List (DList snapshot_t) → List snapshot_t → List snapshot_t →
      Except Fault (Option String × List snapshot_t × List snapshot_t)
  | [], rolled, reported => .ok (none, rolled, reported)
  | l2 :: l, rolled, reported => do
      let l2 ← dlist_sort l2 snapshot_compare_by_creation_date_desc
      match ← dlist_at l2 0 with
      | none =>
          return (some "no identified previous version to rollback to", rolled, reported)
      | some last =>
          if !dry_run && !DEBUG then
            match method.rollback_to rolled last temporary with
            | .error message => return (some message, rolled ++ [last], reported)
            | .ok () =>
                rollback_loop DEBUG method dry_run temporary l (rolled ++ [last])
                  (reported ++ [last])
          else rollback_loop DEBUG method dry_run temporary l rolled (reported ++ [last])

/-- `pkg_zint_main(argc, argv)`, with the options of `argv` and the rest of it. -/
def pkg_zint_main (DEBUG : Bool) (method : backup_method_t) (opts : List Char)
    (argv : List String) : Except Fault run :=
  let s := options_loop opts ⟨.EPKG_FATAL, false, false, false⟩
  let status := if argv = ["rollback"] then s.status else .EX_USAGE
  if status = .EX_USAGE then .ok ⟨status, none, [], []⟩
  else
    match method.list with
    | .error message => .ok ⟨status, some message, [], []⟩
    | .ok l => do
        let (error, rolled, reported) ← rollback_loop DEBUG method s.dry_run s.temporary l [] []
        return ⟨.EPKG_OK, error, rolled, reported⟩

/-! ## The snapshot to go back to -/

/-- `s` is a most recently created snapshot of `l`. -/
def Newest (l : List snapshot_t) (s : snapshot_t) : Prop :=
  s ∈ l ∧ ∀ t ∈ l, ¬ newer t s

/-- The first of the most recently created snapshots of a filesystem. -/
def newest (l : List snapshot_t) : Option snapshot_t :=
  l.find? (fun s => l.all (fun t => decide (¬ newer t s)))

/-- The snapshots before the first of the newest ones. -/
def listedBefore (l : List snapshot_t) (s : snapshot_t) : List snapshot_t :=
  l.takeWhile (fun t => decide (newer s t))

/-- The comparison sees that the newest snapshot is newer than each one before it. -/
def InSight (l : List snapshot_t) : Prop :=
  ∃ m, newest l = some m ∧ ∀ x ∈ listedBefore l m, Fits x m

theorem exists_newest {l : List snapshot_t} (h : l ≠ []) : ∃ s, Newest l s := by
  induction l with
  | nil => exact absurd rfl h
  | cons x xs ih =>
      by_cases hxs : xs = []
      · exact ⟨x, by simp, by simp [hxs, newer]⟩
      · obtain ⟨s, hs, hmax⟩ := ih hxs
        -- the newer one of `x` and the newest of the others
        by_cases hnewer : newer x s
        · refine ⟨x, by simp, List.forall_mem_cons.mpr ⟨?_, fun t ht => ?_⟩⟩
          · exact UInt64.lt_irrefl _
          · exact Purge.not_newer_trans x s t (Purge.newer_asymm x s hnewer) (hmax t ht)
        · exact ⟨s, List.mem_cons_of_mem x hs, List.forall_mem_cons.mpr ⟨hnewer, hmax⟩⟩

theorem isNewest_iff {l : List snapshot_t} {s : snapshot_t} (hs : s ∈ l) :
    l.all (fun t => decide (¬ newer t s)) = true ↔ Newest l s := by
  simp [Newest, hs]

theorem newest_ne_nil {l : List snapshot_t} (h : l ≠ []) : ∃ m, newest l = some m := by
  obtain ⟨s, hs⟩ := exists_newest h
  exact Option.isSome_iff_exists.mp (List.find?_isSome.mpr ⟨s, hs.1, (isNewest_iff hs.1).mpr hs⟩)

/-- The first of the newest, and what is listed before it. -/
theorem newest_spec {l : List snapshot_t} {m : snapshot_t} (h : newest l = some m) :
    Newest l m ∧ (∀ x ∈ listedBefore l m, newer m x)
      ∧ ∃ post, l = listedBefore l m ++ m :: post := by
  obtain ⟨hall, pre, post, hl, hpre⟩ := List.find?_eq_some_iff_append.mp h
  have hm : Newest l m := (isNewest_iff (by simp [hl])).mp hall
  -- what is before `m` has a newer one, and `m` is not older than that
  have hbefore : ∀ x ∈ pre, newer m x := by
    intro x hx
    have hnot := hpre x hx
    simp only [Bool.not_eq_true', List.all_eq_false, decide_eq_true_eq, not_not] at hnot
    obtain ⟨t, ht, hnewer⟩ := hnot
    by_contra hcon
    exact Purge.not_newer_trans x m t hcon (hm.2 t ht) hnewer
  have heq : listedBefore l m = pre := by
    have hself : ¬ newer m m := UInt64.lt_irrefl _
    rw [listedBefore, hl, List.takeWhile_append_of_pos (fun x hx => decide_eq_true (hbefore x hx)),
      List.takeWhile_cons_of_neg (by simpa using hself), List.append_nil]
  rw [heq]
  exact ⟨hm, hbefore, post, hl⟩

/-- What the sort puts first, and whether it is a newest one. -/
theorem sorted_head {l : List snapshot_t} {m : snapshot_t} (h : newest l = some m) :
    (∀ x ∈ listedBefore l m, Fits x m) ∧ (sortedNewestFirst l).head? = some m
      ∨ ¬ (∀ x ∈ listedBefore l m, Fits x m)
        ∧ ∃ x, (sortedNewestFirst l).head? = some x ∧ ¬ Newest l x := by
  obtain ⟨hm, hbefore, post, hl⟩ := newest_spec h
  have hpasses : ∀ x ∈ listedBefore l m,
      (exchanges snapshot_compare_by_creation_date_desc x m = true ↔ Fits x m) := by
    intro x hx
    rw [exchanges, decide_eq_true_eq, compare_pos_iff, and_iff_right (hbefore x hx)]
  have hnever : ∀ y ∈ listedBefore l m ++ post,
      ¬ exchanges snapshot_compare_by_creation_date_desc m y = true := by
    intro y hy hgt
    have hmem : y ∈ l := by
      rw [hl]
      exact (List.perm_middle.symm.subset (List.mem_cons_of_mem m hy))
    exact hm.2 y hmem (Purge.exchanges_sound m y hgt)
  have hhead := BubbleSort.sort_head hnever
  rw [← hl] at hhead
  rcases hhead with ⟨hall, hfirst⟩ | ⟨⟨x, hx, hblocked⟩, y, hy, hfirst⟩
  · exact Or.inl ⟨fun x hx => (hpasses x hx).mp (hall x hx), hfirst⟩
  · refine Or.inr ⟨fun hall => hblocked ((hpasses x hx).mpr (hall x hx)), y, hfirst, ?_⟩
    exact fun hnewest => hnewest.2 m hm.1 (hbefore y hy)

/-- **The head of the sorted list is a newest snapshot if and only if the newest one is
in sight**, and then it is that one. -/
theorem target_iff {l : List snapshot_t} {s : snapshot_t}
    (h : (sortedNewestFirst l).head? = some s) : Newest l s ↔ InSight l ∧ newest l = some s := by
  have hne : l ≠ [] := by
    rintro rfl
    simp [sortedNewestFirst, BubbleSort.sort, BubbleSort.sortLoop] at h
  obtain ⟨m, hm⟩ := newest_ne_nil hne
  rcases sorted_head hm with ⟨hfits, hhead⟩ | ⟨hblocked, x, hhead, hx⟩
  · rw [h, Option.some.injEq] at hhead
    subst hhead
    exact iff_of_true (newest_spec hm).1 ⟨⟨s, hm, hfits⟩, hm⟩
  · rw [h, Option.some.injEq] at hhead
    subst hhead
    refine iff_of_false hx ?_
    rintro ⟨⟨m', hm', hfits⟩, -⟩
    rw [hm, Option.some.injEq] at hm'
    exact hblocked (hm' ▸ hfits)

/-! ## The loop -/

/-- The head of the list `dlist_sort` leaves. -/
theorem dlist_at_sorted {l2 : DList snapshot_t} {l : List snapshot_t} (h : WellFormed l2 l) :
    ∃ l2', dlist_sort l2 snapshot_compare_by_creation_date_desc = .ok l2'
      ∧ dlist_at l2' 0 = .ok (sortedNewestFirst l).head? := by
  obtain ⟨ns, hns, rfl⟩ := h
  obtain ⟨l2', ns', hsort, -, -, hdata, hrep⟩ :=
    dlist_sort_spec hns snapshot_compare_by_creation_date_desc
  refine ⟨l2', hsort, ?_⟩
  rw [← Int.natCast_zero, dlist_at_spec hrep 0, hdata, ← List.head?_eq_getElem?]
  rfl

theorem head?_sorted_eq_none_iff {l : List snapshot_t} :
    (sortedNewestFirst l).head? = none ↔ l = [] := by
  rw [List.head?_eq_none_iff]
  refine ⟨fun h => List.nil_perm.mp (h ▸ sortedNewestFirst_perm l), ?_⟩
  rintro rfl
  exact List.perm_nil.mp (sortedNewestFirst_perm [])

/-- `rollback_to` succeeds on `s` after the snapshots `rolled`. -/
def RollsBack (method : backup_method_t) (temporary : Bool) (rolled : List snapshot_t)
    (s : snapshot_t) : Prop :=
  method.rollback_to rolled s temporary = .ok ()

variable {method : backup_method_t} {temporary : Bool} {lists : List (DList snapshot_t)}
  {fss : List (List snapshot_t)}

/-- The loop calls `rollback_to` on the heads of the sorted lists, one filesystem after
the other, and gets to the last one if nothing fails. -/
theorem rollback_loop_spec (hl : List.Forall₂ WellFormed lists fss) :
    ∀ rolled reported : List snapshot_t, ∃ error new reported',
      rollback_loop false method false temporary lists rolled reported
          = .ok (error, rolled ++ new, reported')
        ∧ List.Forall₂ (fun l s => (sortedNewestFirst l).head? = some s)
            (fss.take new.length) new
        ∧ (Succeed (RollsBack method temporary) rolled new → (∀ l ∈ fss, l ≠ []) →
            new.length = fss.length) := by
  induction hl with
  | nil =>
      intro rolled reported
      exact ⟨none, [], reported, by simp [rollback_loop], by simp, fun _ _ => rfl⟩
  | @cons l2 l lists fss hwf _ ih =>
      intro rolled reported
      obtain ⟨l2', hsort, hat⟩ := dlist_at_sorted hwf
      cases hhead : (sortedNewestFirst l).head? with
      | none =>
          -- the loop is left at a filesystem without a snapshot
          refine ⟨some "no identified previous version to rollback to", [], reported, ?_, by simp,
            fun _ hne => ?_⟩
          · simp only [rollback_loop, hsort, ok_bind, hat, hhead, List.append_nil]
            rfl
          · exact absurd (head?_sorted_eq_none_iff.mp hhead) (hne l (by simp))
      | some s =>
          cases hroll : method.rollback_to rolled s temporary with
          | error message =>
              -- and after a call that fails
              refine ⟨some message, [s], reported, ?_, by simpa using hhead, fun hsucceed _ => ?_⟩
              · simp only [rollback_loop, hsort, ok_bind, hat, hhead, hroll, Bool.not_false,
                  Bool.and_self, if_true]
                rfl
              · have hs := ((succeed_cons _ _ _).mp hsucceed).1
                rw [RollsBack, hroll] at hs
                cases hs
          | ok =>
              obtain ⟨error, new, reported', hrun, htargets, hall⟩ :=
                ih (rolled ++ [s]) (reported ++ [s])
              refine ⟨error, s :: new, reported', ?_, by simpa using ⟨hhead, htargets⟩,
                fun hsucceed hne => ?_⟩
              · simp only [rollback_loop, hsort, ok_bind, hat, hhead, hroll, Bool.not_false,
                  Bool.and_self, if_true, hrun, List.append_assoc, List.singleton_append]
              · simpa using hall ((succeed_cons _ _ _).mp hsucceed).2
                  (fun l hl => hne l (List.mem_cons_of_mem _ hl))

/-! ## What a rollback is said to have done -/

/-- The options of a rollback that is carried out, and the `temporary` they set. -/
theorem options_loop_real {opts : List Char} (h : ∀ c ∈ opts, c = 't' ∨ c = 'y') :
    ∀ s : settings, ∃ yes, options_loop opts s
      = ⟨s.status, s.dry_run, s.temporary || opts.contains 't', yes⟩ := by
  induction opts with
  | nil => exact fun s => ⟨s.yes, by simp [options_loop]⟩
  | cons c opts ih =>
      intro s
      rw [List.forall_mem_cons] at h
      rcases h.1 with rfl | rfl
      · obtain ⟨yes, hloop⟩ := ih h.2 { s with temporary := true }
        exact ⟨yes, by simp [options_loop, hloop]⟩
      · obtain ⟨yes, hloop⟩ := ih h.2 { s with yes := true }
        exact ⟨yes, by simp [options_loop, hloop]⟩

/-- `pkg zint rollback` ends; it called `rollback_to` on a most recently created
snapshot of each filesystem it got to, and returns `EPKG_OK` only if every filesystem
had a snapshot and every call succeeded. -/
def RollbackTold (method : backup_method_t) (opts : List Char) (fss : List (List snapshot_t)) :
    Prop :=
  ∃ r, pkg_zint_main false method opts ["rollback"] = .ok r
    ∧ List.Forall₂ Newest (fss.take r.rolled.length) r.rolled
    ∧ (r.status = .EPKG_OK → (∀ l ∈ fss, l ≠ [])
        ∧ Succeed (RollsBack method (opts.contains 't')) [] r.rolled)

/-- A run that is carried out, from the listing on. -/
theorem pkg_zint_main_listed {opts : List Char} (hopts : ∀ c ∈ opts, c = 't' ∨ c = 'y')
    (hlist : method.list = .ok lists) {error : Option String} {rolled reported : List snapshot_t}
    (hrun : rollback_loop false method false (opts.contains 't') lists [] []
      = .ok (error, rolled, reported)) :
    pkg_zint_main false method opts ["rollback"] = .ok ⟨.EPKG_OK, error, rolled, reported⟩ := by
  obtain ⟨yes, hloop⟩ := options_loop_real hopts ⟨.EPKG_FATAL, false, false, false⟩
  rw [Bool.false_or] at hloop
  simp only [pkg_zint_main, hloop, if_true, reduceCtorEq, if_false, hlist, hrun, ok_bind]
  rfl

theorem pkg_zint_main_not_listed {opts : List Char} (hopts : ∀ c ∈ opts, c = 't' ∨ c = 'y')
    {message : String} (hlist : method.list = .error message) :
    pkg_zint_main false method opts ["rollback"] = .ok ⟨.EPKG_FATAL, some message, [], []⟩ := by
  obtain ⟨yes, hloop⟩ := options_loop_real hopts ⟨.EPKG_FATAL, false, false, false⟩
  simp only [pkg_zint_main, hloop, if_true, reduceCtorEq, if_false, hlist]

/-- A newest snapshot in sight is the head of the sorted list. -/
theorem InSight.newest_eq {l : List snapshot_t} (h : InSight l) :
    newest l = (sortedNewestFirst l).head? := by
  obtain ⟨m, hm, hfits⟩ := h
  rcases sorted_head hm with ⟨-, hhead⟩ | ⟨hblocked, -⟩
  · rw [hm, hhead]
  · exact absurd hfits hblocked

theorem InSight.ne_nil {l : List snapshot_t} (h : InSight l) : l ≠ [] := by
  obtain ⟨m, hm, -⟩ := h
  exact List.ne_nil_of_mem (newest_spec hm).1.1

theorem filterMap_newest_of_forall₂ {l : List (List snapshot_t)} {ss : List snapshot_t}
    (h : List.Forall₂ (fun l s => newest l = some s) l ss) : l.filterMap newest = ss := by
  induction h with
  | nil => rfl
  | cons hs _ ih => rw [List.filterMap_cons_some hs, ih]

/-- **What `pkg zint rollback` did is what it says if and only if** the listing fails, or
on every filesystem there is a newest snapshot in sight and the rollbacks to these all
succeed. -/
theorem rollback_told_iff (method : backup_method_t) (opts : List Char)
    (fss : List (List snapshot_t)) (hopts : ∀ c ∈ opts, c = 't' ∨ c = 'y')
    (hfss : ∀ lists, method.list = .ok lists → List.Forall₂ WellFormed lists fss) :
    RollbackTold method opts fss
      ↔ (∃ message, method.list = .error message)
        ∨ (∀ l ∈ fss, InSight l)
          ∧ Succeed (RollsBack method (opts.contains 't')) [] (fss.filterMap newest) := by
  cases hlist : method.list with
  | error message =>
      refine iff_of_true ?_ (Or.inl ⟨message, rfl⟩)
      exact ⟨_, pkg_zint_main_not_listed hopts hlist, by simp, by simp⟩
  | ok lists =>
      simp only [reduceCtorEq, exists_false, false_or]
      obtain ⟨error, rolled, reported, hrun, htargets, hall⟩ :=
        @rollback_loop_spec method (opts.contains 't') _ _ (hfss lists hlist) [] []
      rw [List.nil_append] at hrun
      have hmain := pkg_zint_main_listed hopts hlist hrun
      constructor
      · rintro ⟨r, hr, hnewest, htold⟩
        rw [hmain, Except.ok.injEq] at hr
        subst hr
        obtain ⟨hne, hsucceed⟩ := htold rfl
        rw [hall hsucceed hne, List.take_length] at htargets hnewest
        have hboth : List.Forall₂ (fun l s => InSight l ∧ newest l = some s) fss rolled :=
          List.Forall₂.mp (fun l s hhead hs => (target_iff hhead).mp hs) htargets hnewest
        obtain ⟨hsight, heq⟩ := (List.forall₂_and_left _ _).mp hboth
        rw [filterMap_newest_of_forall₂ heq]
        exact ⟨hsight, hsucceed⟩
      · rintro ⟨hsight, hsucceed⟩
        -- the calls so far are those on the first of the newest snapshots
        have hcalls : List.Forall₂ (fun l s => newest l = some s)
            (fss.take rolled.length) rolled := by
          refine ((List.forall₂_and_left _ _).mpr ⟨fun l hl => hsight l ?_, htargets⟩).imp ?_
          · exact List.mem_of_mem_take hl
          · exact fun l s h => by rw [h.1.newest_eq, h.2]
        have hstart : rolled <+: fss.filterMap newest := by
          rw [← filterMap_newest_of_forall₂ hcalls]
          exact (List.take_prefix _ fss).filterMap newest
        refine ⟨_, hmain, hcalls.imp (fun l s h => (newest_spec h).1), fun _ => ⟨?_, ?_⟩⟩
        · exact fun l hl => (hsight l hl).ne_nil
        · exact hsucceed.of_prefix hstart

/-- Two filesystems with two snapshots each, and rollbacks that succeed: to the newer one
of each. -/
theorem rollback_told_two_filesystems :
    pkg_zint_main false ⟨.ok Purge.twoFilesystems, fun _ _ _ => .ok ()⟩ ['y'] ["rollback"]
        = .ok ⟨.EPKG_OK, none, [Purge.snapshotAt 5, Purge.snapshotAt 7],
            [Purge.snapshotAt 5, Purge.snapshotAt 7]⟩
      ∧ RollbackTold ⟨.ok Purge.twoFilesystems, fun _ _ _ => .ok ()⟩ ['y']
          [[Purge.snapshotAt 3, Purge.snapshotAt 5], [Purge.snapshotAt 7, Purge.snapshotAt 4]] := by
  refine ⟨by decide, (rollback_told_iff ⟨.ok Purge.twoFilesystems, fun _ _ _ => .ok ()⟩ ['y']
    [[Purge.snapshotAt 3, Purge.snapshotAt 5], [Purge.snapshotAt 7, Purge.snapshotAt 4]]
    (by simp) ?_).mpr (Or.inr ⟨fun l hl => ?_, fun _ _ _ => rfl⟩)⟩
  · intro lists hlists
    obtain rfl := Except.ok.inj hlists
    exact Purge.twoFilesystems_wellFormed
  · simp only [List.mem_cons, List.not_mem_nil, or_false] at hl
    obtain rfl | rfl := hl
    · exact ⟨Purge.snapshotAt 5, by decide, by decide⟩
    · exact ⟨Purge.snapshotAt 7, by decide, by decide⟩

/-- A rollback that fails, a filesystem without a snapshot, and one whose newest
snapshot is `2^31` seconds newer than the other: `EPKG_OK` each time. -/
theorem rollback_told_fails :
    pkg_zint_main false ⟨.ok [Purge.oneSnapshot 5], fun _ _ _ => .error "no"⟩ ['y'] ["rollback"]
        = .ok ⟨.EPKG_OK, some "no", [Purge.snapshotAt 5], []⟩
      ∧ ¬ RollbackTold ⟨.ok [Purge.oneSnapshot 5], fun _ _ _ => .error "no"⟩ ['y']
          [[Purge.snapshotAt 5]]
      ∧ pkg_zint_main false ⟨.ok [dlist_init], fun _ _ _ => .ok ()⟩ ['y'] ["rollback"]
        = .ok ⟨.EPKG_OK, some "no identified previous version to rollback to", [], []⟩
      ∧ ¬ RollbackTold ⟨.ok [dlist_init], fun _ _ _ => .ok ()⟩ ['y'] [[]]
      ∧ pkg_zint_main false ⟨.ok [Purge.twoSnapshots 5 2147483653], fun _ _ _ => .ok ()⟩ ['y']
          ["rollback"]
        = .ok ⟨.EPKG_OK, none, [Purge.snapshotAt 5], [Purge.snapshotAt 5]⟩
      ∧ WellFormed (Purge.twoSnapshots 5 2147483653)
          [Purge.snapshotAt 5, Purge.snapshotAt 2147483653]
      ∧ ¬ RollbackTold ⟨.ok [Purge.twoSnapshots 5 2147483653], fun _ _ _ => .ok ()⟩ ['y']
          [[Purge.snapshotAt 5, Purge.snapshotAt 2147483653]] := by
  have hfails : pkg_zint_main false
      ⟨.ok [Purge.oneSnapshot 5], fun _ _ _ => .error "no"⟩ ['y'] ["rollback"]
      = .ok ⟨.EPKG_OK, some "no", [Purge.snapshotAt 5], []⟩ := by decide
  have hnone : pkg_zint_main false ⟨.ok [dlist_init], fun _ _ _ => .ok ()⟩ ['y'] ["rollback"]
      = .ok ⟨.EPKG_OK, some "no identified previous version to rollback to", [], []⟩ := by decide
  have hfar : pkg_zint_main false
      ⟨.ok [Purge.twoSnapshots 5 2147483653], fun _ _ _ => .ok ()⟩ ['y'] ["rollback"]
      = .ok ⟨.EPKG_OK, none, [Purge.snapshotAt 5], [Purge.snapshotAt 5]⟩ := by decide
  refine ⟨hfails, ?_, hnone, ?_, hfar, Purge.twoSnapshots_wellFormed _ _, ?_⟩
  · rintro ⟨r, hr, -, htold⟩
    obtain rfl := Except.ok.inj (hfails.symm.trans hr)
    have hs := (htold rfl).2 [] (Purge.snapshotAt 5) (by simp)
    simp [RollsBack] at hs
  · rintro ⟨r, hr, -, htold⟩
    obtain rfl := Except.ok.inj (hnone.symm.trans hr)
    exact (htold rfl).1 [] (by simp) rfl
  · rintro ⟨r, hr, hnewest, -⟩
    obtain rfl := Except.ok.inj (hfar.symm.trans hr)
    have hs : Newest [Purge.snapshotAt 5, Purge.snapshotAt 2147483653] (Purge.snapshotAt 5) := by
      simpa using hnewest
    exact hs.2 (Purge.snapshotAt 2147483653) (by simp) (by decide)

end PkgPlugins.Rollback
