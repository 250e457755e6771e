/-
zint's deletion of old recovery points: `purge_snapshots`
(`plugins/zfs_integration/plugin_zfs_integration.c`) and the order it sorts by
(`snapshot.c`).

For each filesystem the snapshots are sorted newest first, those the retention
keeps are taken out of the list with `iterator_reject`, and what is left is
destroyed from the tail, the oldest first. `rejected` says which snapshots the
retention means to destroy; `purge_snapshots_iff` says when the code destroys
exactly those, in order and without reading freed memory.

Two things stand in its way. The newest snapshot is the head of the sorted list,
and `iterator_reject` reads the head again after it has freed it
(`Dlist.iterator_reject_head`): any retention that keeps something runs into
it. And the comparison returns the difference of two `uint64_t` as an `int`, so
it overlooks some pairs of dates that are `2^31` seconds or more apart.
-/
import PkgPlugins.Retention
import PkgPlugins.Dlist
import PkgPlugins.Attempts
import Mathlib.Data.List.Flatten

set_option autoImplicit false

namespace PkgPlugins.Purge

open PkgPlugins.Fallible PkgPlugins.Libc PkgPlugins.Retention PkgPlugins.Dlist PkgPlugins.Attempts

/-! ## The code -/

structure snapshot_t where
  name : String
  creation : UInt64
  hook : ℤ
  version : UInt64
deriving DecidableEq

/-- A `uint64_t` returned as an `int`: its low 32 bits, in two's complement. -/
def toInt32 (x : UInt64) : ℤ := x.toUInt32.toInt32.toInt

/-- The two branches have the common type `uint64_t`, `-1` included. -/
def snapshot_compare_by_creation_date_desc (sa sb : snapshot_t) : ℤ :=
  toInt32 (if sa.creation ≤ sb.creation then sb.creation - sa.creation else -1)

/-- What `purge_snapshots` uses of a `backup_method_t`. `list` answers whether
it succeeded and the lists it appended; `destroy` may depend on the snapshots
already destroyed. -/
structure backup_method_t where
  list : Bool × List (DList snapshot_t)
  destroy : List snapshot_t → snapshot_t → Bool

/-- The last loop of `purge_snapshots`, from `it2` backwards: `ok` and the
snapshots handed to `destroy` so far. -/
def destroy_loop (method : backup_method_t) :
    ℕ → DList snapshot_t → Ptr → Bool → List snapshot_t → Except Fault (Bool × List snapshot_t)
  | 0, _, _, _, _ => .error .diverges
  | fuel + 1, l2, it2, ok, done =>
      if ok && dlist_iterator_is_valid it2 then do
        let snap ← dlist_iterator_current l2 it2
        let ok := ok && method.destroy done snap
        let it2 ← dlist_iterator_previous l2 it2
        destroy_loop method fuel l2 it2 ok (done ++ [snap])
      else return (ok, done)

/-- The body of the loop over the filesystems. -/
def purge_filesystem (method : backup_method_t) (fcd : filter_callback_data_t)
    (l2 : DList snapshot_t) (done : List snapshot_t) :
    Except Fault (Bool × filter_callback_data_t × List snapshot_t) := do
  -- the count starts again on each filesystem
  let fcd := retention_filter_callback_data_reset fcd
  let l2 ← dlist_sort l2 snapshot_compare_by_creation_date_desc
  -- `iterator_reject` removes what the callback answers true on: what is kept
  let (l2, fcd) ← iterator_reject l2 (fun snap => retention_filter_callback snap.creation) fcd
  let (ok, done) ← destroy_loop method (l2.brk + 1) l2 (dlist_iterator_last l2) true done
  return (ok, fcd, done)

/-- The loop over the filesystems. -/
def purge_loop (method : backup_method_t) :
    List (DList snapshot_t) → Bool → filter_callback_data_t → List snapshot_t →
      Except Fault (Bool × List snapshot_t)
  | [], ok, _, done => .ok (ok, done)
  | l2 :: l, _, fcd, done => do
      let (ok, fcd, done) ← purge_filesystem method fcd l2 done
      purge_loop method l ok fcd done

/-- `purge_snapshots(retention, limit, error)`: what it returns and the
snapshots it called `method->destroy` on, in order. -/
def purge_snapshots (method : backup_method_t) (retention : retention_type_t) (limit : UInt64) :
    Except Fault (Bool × List snapshot_t) :=
  let fcd := retention_filter_callback_data_create retention limit
  if method.list.1 then purge_loop method method.list.2 false fcd []
  else .ok (false, [])

/-! ## What a retention rejects -/

/-- `a` was created after `b`. -/
def newer (a b : snapshot_t) : Prop := b.creation < a.creation

instance : DecidableRel newer := fun a b => inferInstanceAs (Decidable (b.creation < a.creation))

/-- The snapshots of a filesystem a retention means to destroy. -/
def rejected (retention : retention_type_t) (limit : UInt64) (l : List snapshot_t) :
    List snapshot_t :=
  match retention with
  | .DISABLED => []
  | .BY_COUNT => l.filter (fun s => decide (limit.toNat ≤ l.countP (fun t => decide (newer t s))))
  | .BY_CREATION => l.filter (fun s => decide (s.creation < limit))

/-- `destroyed` is what `rejected` rejects on each filesystem, one after the
other, each filesystem's oldest snapshot first. -/
def Purged (retention : retention_type_t) (limit : UInt64) (fss : List (List snapshot_t))
    (destroyed : List snapshot_t) : Prop :=
  ∃ parts : List (List snapshot_t), destroyed = parts.flatten
    ∧ List.Forall₂ (fun l part => part.Perm (rejected retention limit l)
        ∧ part.Pairwise (fun a b => newer b a)) fss parts

/-! ## The order of the snapshots -/

/-- The order `dlist_sort` leaves the snapshots of a filesystem in. -/
def sortedNewestFirst (l : List snapshot_t) : List snapshot_t :=
  BubbleSort.sort (exchanges snapshot_compare_by_creation_date_desc) l

/-- The comparison is positive on every pair of the list that is in the wrong
order, the older one first. -/
def Compares (l : List snapshot_t) : Prop :=
  BubbleSort.Seen (exchanges snapshot_compare_by_creation_date_desc) newer l

theorem newer_asymm (a b : snapshot_t) (h : newer a b) : ¬ newer b a := by
  simp only [newer, UInt64.lt_iff_toNat_lt] at h ⊢
  omega

theorem not_newer_trans (a b c : snapshot_t) (h : ¬ newer b a) (h' : ¬ newer c b) :
    ¬ newer c a := by
  simp only [newer, UInt64.lt_iff_toNat_lt] at h h' ⊢
  omega

/-- The comparison never asks for a wrong exchange. -/
theorem exchanges_sound (a b : snapshot_t)
    (h : exchanges snapshot_compare_by_creation_date_desc a b = true) : newer b a := by
  rw [exchanges, decide_eq_true_eq, snapshot_compare_by_creation_date_desc] at h
  -- a positive answer can only come from the first branch
  by_cases hle : a.creation ≤ b.creation
  · rw [if_pos hle] at h
    rcases UInt64.lt_or_eq_of_le hle with hlt | heq
    · exact hlt
    · rw [heq, UInt64.sub_self] at h
      exact absurd h (by decide)
  · rw [if_neg hle] at h
    exact absurd h (by decide)

theorem sortedNewestFirst_perm (l : List snapshot_t) : (sortedNewestFirst l).Perm l :=
  BubbleSort.sort_perm l

/-- The list comes out without an older snapshot before a newer one exactly when the
comparison sees what there is to exchange. -/
theorem sortedNewestFirst_ordered_iff (l : List snapshot_t) :
    (sortedNewestFirst l).Pairwise (fun a b => ¬ newer b a) ↔ Compares l :=
  BubbleSort.sort_pairwise_iff (fun a b h => newer_asymm b a (exchanges_sound a b h))
    (fun a h => newer_asymm a a h h) not_newer_trans l

/-- The dates of a filesystem's snapshots are distinct. -/
def Distinct (l : List snapshot_t) : Prop := (l.map snapshot_t.creation).Nodup

theorem Distinct.total {l : List snapshot_t} (h : Distinct l) :
    l.Pairwise (fun a b => newer a b ∨ newer b a) := by
  rw [Distinct, List.Nodup, List.pairwise_map] at h
  refine h.imp (fun {a b} hne => ?_)
  have hne' : a.creation.toNat ≠ b.creation.toNat := fun heq => hne (UInt64.toNat_inj.mp heq)
  simp only [newer, UInt64.lt_iff_toNat_lt]
  omega

/-- With distinct dates, the list comes out newest first. -/
theorem sortedNewestFirst_iff {l : List snapshot_t} (h : Distinct l) :
    (sortedNewestFirst l).Pairwise newer ↔ Compares l := by
  rw [← sortedNewestFirst_ordered_iff]
  have htotal : (sortedNewestFirst l).Pairwise (fun a b => newer a b ∨ newer b a) :=
    (sortedNewestFirst_perm l).symm.pairwise h.total (fun hab => hab.symm)
  constructor
  · exact fun hsorted => hsorted.imp (fun {a b} hab => newer_asymm a b hab)
  · exact fun hsorted => (htotal.and hsorted).imp (fun hab => hab.1.resolve_right hab.2)

/-! ## One filesystem -/

/-- The snapshots of a filesystem that are handed to `destroy`: up to the first
that it fails on. -/
def handed (method : backup_method_t) : List snapshot_t → List snapshot_t → List snapshot_t
  | _, [] => []
  | done, snap :: part =>
      snap :: if method.destroy done snap then handed method (done ++ [snap]) part else []

/-- The snapshots of all filesystems that are, after `done`. -/
def handed_all (method : backup_method_t) : List snapshot_t → List (List snapshot_t) →
    List snapshot_t
  | done, [] => done
  | done, part :: parts => handed_all method (done ++ handed method done part) parts

/-- After `done`, the snapshot is destroyed. -/
def Destroys (method : backup_method_t) (done : List snapshot_t) (snap : snapshot_t) : Prop :=
  method.destroy done snap = true

theorem handed_of_succeeds {method : backup_method_t}
    (hdestroy : ∀ done snap, method.destroy done snap = true) (part : List snapshot_t) :
    ∀ done, handed method done part = part := by
  induction part with
  | nil => intro done; rfl
  | cons snap part ih => intro done; rw [handed, if_pos (hdestroy done snap), ih]

theorem handed_all_of_succeeds {method : backup_method_t}
    (hdestroy : ∀ done snap, method.destroy done snap = true) (parts : List (List snapshot_t)) :
    ∀ done, handed_all method done parts = done ++ parts.flatten := by
  induction parts with
  | nil => intro done; simp [handed_all]
  | cons part parts ih =>
      intro done
      rw [handed_all, handed_of_succeeds hdestroy, ih, List.flatten_cons, List.append_assoc]

/-- What an iterator on an element reads. -/
theorem iterator_on {l2 : DList snapshot_t} {pre post : List (ℕ × snapshot_t)} {x : ℕ × snapshot_t}
    (h : Represents l2 (pre ++ x :: post)) :
    dlist_iterator_current l2 (some x.1) = .ok x.2
      ∧ dlist_iterator_previous l2 (some x.1) = .ok (lastAddr none pre) := by
  simp only [dlist_iterator_current, dlist_iterator_previous, h.read, ok_bind, pure, Except.pure,
    and_self]

/-- The last loop destroys what is before its position, from there backwards, until
it fails. -/
theorem destroy_loop_spec (method : backup_method_t) (pre : List (ℕ × snapshot_t)) :
    ∀ (fuel : ℕ) (l2 : DList snapshot_t) (post : List (ℕ × snapshot_t))
      (done : List snapshot_t), Represents l2 (pre ++ post) → pre.length < fuel →
      ∃ ok, destroy_loop method fuel l2 (lastAddr none pre) true done
          = .ok (ok, done ++ handed method done (pre.map Prod.snd).reverse)
        ∧ (ok = true ↔ Succeed (Destroys method) done (pre.map Prod.snd).reverse) := by
  -- the loop goes backwards, so the induction takes the last element away
  induction pre using List.reverseRecOn with
  | nil =>
      intro fuel l2 post done _ hfuel
      obtain ⟨fuel, rfl⟩ := Nat.exists_eq_succ_of_ne_zero (Nat.ne_of_gt hfuel)
      exact ⟨true, by simp [destroy_loop, handed, dlist_iterator_is_valid, pure, Except.pure],
        iff_of_true rfl (succeed_nil done)⟩
  | append_singleton pre x ih =>
      intro fuel l2 post done h hfuel
      obtain ⟨fuel, rfl⟩ := Nat.exists_eq_succ_of_ne_zero (Nat.ne_of_gt (Nat.zero_lt_of_lt hfuel))
      rw [List.length_append, List.length_singleton] at hfuel
      have hx : Represents l2 (pre ++ x :: post) := by simpa using h
      obtain ⟨hcurrent, hprevious⟩ := iterator_on hx
      have hparts : ((pre ++ [x]).map Prod.snd).reverse = x.2 :: (pre.map Prod.snd).reverse := by
        simp
      cases hdestroy : method.destroy done x.2 with
      | true =>
          obtain ⟨ok, hrun, hok⟩ := ih fuel l2 (x :: post) (done ++ [x.2]) hx (by omega)
          refine ⟨ok, ?_, by rw [hok, hparts, succeed_cons, Destroys, hdestroy, eq_self, true_and]⟩
          simp only [destroy_loop, lastAddr_append, lastAddr_cons, lastAddr_nil,
            dlist_iterator_is_valid, Option.isSome_some, Bool.and_self, if_true, hcurrent, ok_bind,
            hdestroy, hprevious, hrun, hparts, handed]
          simp
      | false =>
          -- the next test of `ok` ends the loop
          obtain ⟨fuel, rfl⟩ := Nat.exists_eq_succ_of_ne_zero (show fuel ≠ 0 by omega)
          refine ⟨false, ?_, by rw [hparts, succeed_cons, Destroys, hdestroy]; simp⟩
          simp only [destroy_loop, lastAddr_append, lastAddr_cons, lastAddr_nil,
            dlist_iterator_is_valid, Option.isSome_some, Bool.and_self, if_true, hcurrent, ok_bind,
            pure, Except.pure, hdestroy, hprevious, hparts, handed]
          simp

/-- What is destroyed on a filesystem when nothing faults. -/
def destroyedPart (retention : retention_type_t) (limit : UInt64) (l : List snapshot_t) :
    List snapshot_t :=
  ((sortedNewestFirst l).filter (fun s => !keeps retention limit s.creation)).reverse

/-- The retention lets the head of the sorted list go. -/
def HeadGoes (retention : retention_type_t) (limit : UInt64) (l : List snapshot_t) : Prop :=
  ∀ s ∈ (sortedNewestFirst l).head?, keeps retention limit s.creation = false

/-- A retention that lets a first snapshot go keeps no count: from then on it
answers on each snapshot by itself. -/
theorem callback_of_not_keeps {retention : retention_type_t} {limit c : UInt64}
    (h : keeps retention limit c = false) (c' : UInt64) :
    retention_filter_callback c' (retention_filter_callback_data_create retention limit)
      = (keeps retention limit c', retention_filter_callback_data_create retention limit) := by
  cases retention with
  | DISABLED => rfl
  | BY_COUNT =>
      -- a count that lets the first snapshot go is 0, and stays so
      have hzero : ¬ (0 : UInt64) < limit := by
        intro hpos
        simp [keeps, retention_filter_callback, retention_filter_callback_data_create, kinds,
          retention_by_count_keep, hpos] at h
      simp [keeps, retention_filter_callback, retention_filter_callback_data_create, kinds,
        retention_by_count_keep, hzero]
  | BY_CREATION => rfl

variable {method : backup_method_t} {retention : retention_type_t} {limit : UInt64}

/-- What is left of a filesystem whose newest snapshot goes: what is destroyed, from
the tail backwards. -/
theorem iterator_reject_goes {l2 : DList snapshot_t} {l : List snapshot_t} (hl : WellFormed l2 l)
    (hgoes : HeadGoes retention limit l) :
    ∃ l2' l2'' ns, dlist_sort l2 snapshot_compare_by_creation_date_desc = .ok l2'
      ∧ iterator_reject l2' (fun snap => retention_filter_callback snap.creation)
          ⟨retention, limit, 0⟩ = .ok (l2'', ⟨retention, limit, 0⟩)
      ∧ Represents l2'' ns ∧ (ns.map Prod.snd).reverse = destroyedPart retention limit l := by
  obtain ⟨ns, hns, rfl⟩ := hl
  obtain ⟨l2', ns', hsort, -, -, hdata, hrep⟩ :=
    dlist_sort_spec hns snapshot_compare_by_creation_date_desc
  have hdata' : sortedNewestFirst (ns.map Prod.snd) = ns'.map Prod.snd := hdata.symm
  cases ns' with
  | nil =>
      -- nothing to sort, reject or destroy
      refine ⟨l2', l2', [], hsort, iterator_reject_nil hrep _ _, hrep, ?_⟩
      simp [destroyedPart, hdata']
  | cons x xs =>
      have hx : keeps retention limit x.2.creation = false := hgoes x.2 (by simp [hdata'])
      -- the state does not change, so the callback is a predicate of the snapshot
      have hconst : ∀ s : snapshot_t,
          retention_filter_callback s.creation ⟨retention, limit, 0⟩
            = (keeps retention limit s.creation, ⟨retention, limit, 0⟩) :=
        fun s => callback_of_not_keeps hx s.creation
      obtain ⟨l2'', ns'', hrun, hmap, hrep'⟩ := iterator_reject_keeps_head hrep
        (fun snap => retention_filter_callback snap.creation) ⟨retention, limit, 0⟩
        (by rw [hconst]; exact hx)
      rw [rejectList_const hconst] at hrun hmap
      refine ⟨l2', l2'', ns'', hsort, hrun, hrep', ?_⟩
      rw [hmap, destroyedPart, hdata']

/-- Where the newest snapshot is kept, the head is removed and the iterator is left on
it. -/
theorem iterator_reject_stays {l2 : DList snapshot_t} {l : List snapshot_t} (hl : WellFormed l2 l)
    (hstays : ¬ HeadGoes retention limit l) :
    ∃ l2' p, dlist_sort l2 snapshot_compare_by_creation_date_desc = .ok l2'
      ∧ iterator_reject l2' (fun snap => retention_filter_callback snap.creation)
          ⟨retention, limit, 0⟩ = .error (.freed p) := by
  obtain ⟨ns, hns, rfl⟩ := hl
  obtain ⟨l2', ns', hsort, -, -, hdata, hrep⟩ :=
    dlist_sort_spec hns snapshot_compare_by_creation_date_desc
  have hdata' : sortedNewestFirst (ns.map Prod.snd) = ns'.map Prod.snd := hdata.symm
  cases ns' with
  | nil => simp [HeadGoes, hdata'] at hstays
  | cons x xs =>
      have hx : keeps retention limit x.2.creation = true := by
        simpa [HeadGoes, hdata'] using hstays
      exact ⟨l2', x.1, hsort, iterator_reject_head hrep
        (fun snap => retention_filter_callback snap.creation) ⟨retention, limit, 0⟩ hx⟩

/-- A filesystem whose newest snapshot goes. -/
theorem purge_filesystem_goes (method : backup_method_t) {l2 : DList snapshot_t}
    {l : List snapshot_t} (hl : WellFormed l2 l) (hgoes : HeadGoes retention limit l)
    (state : UInt64) (done : List snapshot_t) :
    ∃ ok, purge_filesystem method ⟨retention, limit, state⟩ l2 done
        = .ok (ok, ⟨retention, limit, 0⟩,
          done ++ handed method done (destroyedPart retention limit l))
      ∧ (ok = true ↔ Succeed (Destroys method) done (destroyedPart retention limit l)) := by
  obtain ⟨l2', l2'', ns, hsort, hreject, hrep, hpart⟩ := iterator_reject_goes hl hgoes
  obtain ⟨ok, hloop, hok⟩ := destroy_loop_spec method ns (l2''.brk + 1) l2'' [] done
    (by simpa using hrep) (Nat.lt_succ_of_le hrep.length_le)
  refine ⟨ok, ?_, hpart ▸ hok⟩
  simp only [purge_filesystem, hsort, ok_bind, retention_filter_callback_data_reset, hreject,
    dlist_iterator_last, hrep.tail, hloop, hpart, pure, Except.pure]

/-- A filesystem whose newest snapshot is kept: the run stops on freed memory. -/
theorem purge_filesystem_stays {l2 : DList snapshot_t} {l : List snapshot_t}
    (hl : WellFormed l2 l) (hstays : ¬ HeadGoes retention limit l) (state : UInt64)
    (done : List snapshot_t) :
    ∃ p, purge_filesystem method ⟨retention, limit, state⟩ l2 done = .error (.freed p) := by
  obtain ⟨l2', p, hsort, hreject⟩ := iterator_reject_stays hl hstays
  refine ⟨p, ?_⟩
  simp only [purge_filesystem, hsort, ok_bind, retention_filter_callback_data_reset, hreject]
  rfl

/-! ## All filesystems -/

theorem purge_loop_goes {lists : List (DList snapshot_t)} {fss : List (List snapshot_t)}
    (hl : List.Forall₂ WellFormed lists fss)
    (hgoes : ∀ l ∈ fss, HeadGoes retention limit l) (ok : Bool) (state : UInt64)
    (done : List snapshot_t) :
    ∃ ok', purge_loop method lists ok ⟨retention, limit, state⟩ done
      = .ok (ok', handed_all method done (fss.map (destroyedPart retention limit))) := by
  induction hl generalizing ok state done with
  | nil => exact ⟨ok, rfl⟩
  | @cons l2 l lists fss hwf _ ih =>
      obtain ⟨ok₁, hfirst, -⟩ := purge_filesystem_goes method hwf (hgoes l (by simp)) state
        done
      obtain ⟨ok', hrun⟩ := ih (fun l hl => hgoes l (by simp [hl])) ok₁ 0
        (done ++ handed method done (destroyedPart retention limit l))
      refine ⟨ok', ?_⟩
      rw [purge_loop, hfirst, ok_bind]
      exact hrun

theorem purge_loop_stays {lists : List (DList snapshot_t)} {fss : List (List snapshot_t)}
    (hl : List.Forall₂ WellFormed lists fss)
    (hstays : ∃ l ∈ fss, ¬ HeadGoes retention limit l) (ok : Bool) (state : UInt64)
    (done : List snapshot_t) :
    ∃ p, purge_loop method lists ok ⟨retention, limit, state⟩ done = .error (.freed p) := by
  induction hl generalizing ok state done with
  | nil => simp at hstays
  | @cons l2 l lists fss hwf _ ih =>
      -- the filesystems before the first that faults are purged
      by_cases hl : HeadGoes retention limit l
      · obtain ⟨l', hmem, hl'⟩ := hstays
        have hmem' : l' ∈ fss := by
          rcases List.mem_cons.mp hmem with rfl | hmem'
          · exact absurd hl hl'
          · exact hmem'
        obtain ⟨ok₁, hfirst, -⟩ := purge_filesystem_goes method hwf hl state done
        obtain ⟨p, hrun⟩ := ih ⟨l', hmem', hl'⟩ ok₁ 0
          (done ++ handed method done (destroyedPart retention limit l))
        exact ⟨p, by rw [purge_loop, hfirst, ok_bind]; exact hrun⟩
      · obtain ⟨p, hrun⟩ := purge_filesystem_stays hwf hl state done
        exact ⟨p, by rw [purge_loop, hrun]; rfl⟩

theorem purge_snapshots_listed (hlist : method.list.1 = true) :
    purge_snapshots method retention limit
      = purge_loop method method.list.2 false ⟨retention, limit, 0⟩ [] := by
  simp [purge_snapshots, hlist, retention_filter_callback_data_create]

/-- A run that ends has handed over what is to be destroyed, until it failed. -/
theorem purge_snapshots_handed {fss : List (List snapshot_t)} (hlist : method.list.1 = true)
    (hfss : List.Forall₂ WellFormed method.list.2 fss) {ok : Bool} {done : List snapshot_t}
    (hrun : purge_snapshots method retention limit = .ok (ok, done)) :
    (∀ l ∈ fss, HeadGoes retention limit l)
      ∧ done = handed_all method [] (fss.map (destroyedPart retention limit)) := by
  rw [purge_snapshots_listed hlist] at hrun
  have hgoes : ∀ l ∈ fss, HeadGoes retention limit l := by
    by_contra hcon
    push Not at hcon
    obtain ⟨p, hfault⟩ := purge_loop_stays hfss hcon false 0 []
    rw [hfault] at hrun
    exact absurd hrun (by simp)
  obtain ⟨ok', hok'⟩ := purge_loop_goes hfss hgoes false 0 []
  rw [hok', Except.ok.injEq, Prod.mk.injEq] at hrun
  exact ⟨hgoes, hrun.2.symm⟩

/-! ## When the right snapshots are destroyed -/

/-- The condition on a filesystem: the retention keeps none of its snapshots and
the comparison sees every pair that is in the wrong order. The last disjunct is
an accident of the comparison: pairs it overlooked leave an old snapshot in
front of those the retention keeps, and the old ones are in order all the same. -/
def Clean (retention : retention_type_t) (limit : UInt64) (l : List snapshot_t) : Prop :=
  ((∀ s ∈ l, s ∈ rejected retention limit l) ∧ Compares l)
    ∨ (retention = .BY_CREATION ∧ (∀ s ∈ (sortedNewestFirst l).head?, s.creation < limit)
      ∧ ((sortedNewestFirst l).filter (fun s => decide (s.creation < limit))).Pairwise newer)

theorem keeps_disabled (limit c : UInt64) : keeps .DISABLED limit c = true := by
  simp [keeps, retention_filter_callback, retention_filter_callback_data_create, kinds,
    retention_disabled_keep]

theorem keeps_by_creation (limit c : UInt64) :
    keeps .BY_CREATION limit c = !decide (c < limit) := by
  change decide (limit ≤ c) = !decide (c < limit)
  rw [← decide_not, decide_eq_decide, UInt64.le_iff_toNat_le, UInt64.lt_iff_toNat_lt]
  omega

theorem keeps_by_count (limit c : UInt64) :
    keeps .BY_COUNT limit c = decide (0 < limit.toNat) := by
  have h : (0 : UInt64) < limit ↔ 0 < limit.toNat := by
    rw [UInt64.lt_iff_toNat_lt]
    rfl
  by_cases hpos : (0 : UInt64) < limit <;>
    simp [keeps, retention_filter_callback, retention_filter_callback_data_create, kinds,
      retention_by_count_keep, hpos, ← h]

/-- Only a filter by creation looks at the snapshot. -/
theorem keeps_eq_of_ne (h : retention ≠ .BY_CREATION) (c c' : UInt64) :
    keeps retention limit c = keeps retention limit c' := by
  cases retention with
  | DISABLED => simp [keeps_disabled]
  | BY_COUNT => simp [keeps_by_count]
  | BY_CREATION => exact absurd rfl h

/-- A retention that lets a first snapshot go rejects those it does not keep,
each by itself. -/
theorem rejected_of_not_keeps {c : UInt64} (h : keeps retention limit c = false)
    (l : List snapshot_t) :
    rejected retention limit l = l.filter (fun s => !keeps retention limit s.creation) := by
  cases retention with
  | DISABLED => exact absurd h (by simp [keeps_disabled])
  | BY_COUNT =>
      rw [keeps_by_count, decide_eq_false_iff_not] at h
      have hzero : limit.toNat = 0 := by omega
      simp [rejected, keeps_by_count, hzero]
  | BY_CREATION => simp [rejected, keeps_by_creation]

/-- What is destroyed when the newest snapshot goes is what is rejected. -/
theorem destroyedPart_perm {l : List snapshot_t} (h : HeadGoes retention limit l) :
    (destroyedPart retention limit l).Perm (rejected retention limit l) := by
  have hperm := sortedNewestFirst_perm l
  refine (List.reverse_perm _).trans ?_
  cases hsorted : sortedNewestFirst l with
  | nil =>
      rw [hsorted] at hperm
      rw [List.nil_perm.mp hperm]
      cases retention <;> simp [rejected]
  | cons y ys =>
      have hy : keeps retention limit y.creation = false := h y (by simp [hsorted])
      rw [rejected_of_not_keeps hy, ← hsorted]
      exact hperm.filter _

/-- A filesystem none of whose snapshots is kept lets its newest one go. -/
theorem headGoes_of_none_kept {l : List snapshot_t}
    (hnone : ∀ s ∈ l, s ∈ rejected retention limit l)
    (hsorted : (sortedNewestFirst l).Pairwise newer) :
    HeadGoes retention limit l := by
  intro s hs
  obtain ⟨ys, hys⟩ := List.head?_eq_some_iff.mp hs
  have hperm := sortedNewestFirst_perm l
  have hmem : s ∈ l := hperm.subset (by simp [hys])
  have hrej := hnone s hmem
  cases retention with
  | DISABLED => simp [rejected] at hrej
  | BY_COUNT =>
      -- nothing is newer than the head, so keeping nothing means a limit of zero
      have hcount : l.countP (fun t => decide (newer t s)) = 0 := by
        rw [← hperm.countP_eq, List.countP_eq_zero]
        intro t ht
        rw [hys] at ht hsorted
        rcases List.mem_cons.mp ht with rfl | ht
        · simpa using fun hnew => newer_asymm _ _ hnew hnew
        · simpa using newer_asymm _ _ (List.rel_of_pairwise_cons hsorted ht)
      simp only [rejected, List.mem_filter, hcount, decide_eq_true_eq] at hrej
      simp only [keeps_by_count, decide_eq_false_iff_not]
      omega
  | BY_CREATION =>
      simp only [rejected, List.mem_filter, decide_eq_true_eq] at hrej
      simp [keeps_by_creation, hrej.2]

/-- On one filesystem the condition is that the newest snapshot goes and what is
destroyed comes oldest first. -/
theorem clean_iff {l : List snapshot_t} (hl : Distinct l) :
    Clean retention limit l ↔ HeadGoes retention limit l
      ∧ (destroyedPart retention limit l).Pairwise (fun a b => newer b a) := by
  have hperm := sortedNewestFirst_perm l
  simp only [destroyedPart, List.pairwise_reverse]
  constructor
  · rintro (⟨hnone, hseen⟩ | ⟨rfl, hhead, hsorted⟩)
    · have hsorted := (sortedNewestFirst_iff hl).mpr hseen
      exact ⟨headGoes_of_none_kept hnone hsorted, hsorted.filter _⟩
    · exact ⟨fun s hs => by simpa [keeps_by_creation] using hhead s hs,
        by simpa [keeps_by_creation] using hsorted⟩
  · rintro ⟨hgoes, hsorted⟩
    by_cases hretention : retention = .BY_CREATION
    · subst hretention
      exact Or.inr ⟨rfl, fun s hs => by simpa [keeps_by_creation] using hgoes s hs,
        by simpa [keeps_by_creation] using hsorted⟩
    · refine Or.inl ?_
      cases hys : sortedNewestFirst l with
      | nil =>
          rw [hys] at hperm
          rw [List.nil_perm.mp hperm]
          exact ⟨by simp, by simp [Compares, BubbleSort.Seen]⟩
      | cons y ys =>
          have hy : keeps retention limit y.creation = false := hgoes y (by simp [hys])
          have hall : ∀ s : snapshot_t, keeps retention limit s.creation = false :=
            fun s => (keeps_eq_of_ne hretention _ _).trans hy
          refine ⟨fun s hs => ?_, ?_⟩
          · rw [rejected_of_not_keeps hy]
            simp [hs, hall]
          · rw [← sortedNewestFirst_iff hl]
            simpa [hall] using hsorted

/-- **`purge_snapshots` on any collection of filesystems.** With lists that are
well formed, distinct dates on each filesystem and a `destroy` that succeeds,
the run ends without reading freed memory and destroys exactly what the
retention rejects, the oldest of each filesystem first, if and only if every
filesystem is `Clean`. -/
theorem purge_snapshots_iff (method : backup_method_t) (retention : retention_type_t)
    (limit : UInt64) (fss : List (List snapshot_t)) (hlist : method.list.1 = true)
    (hfss : List.Forall₂ WellFormed method.list.2 fss) (hdistinct : ∀ l ∈ fss, Distinct l)
    (hdestroy : ∀ done snap, method.destroy done snap = true) :
    (∃ ok destroyed, purge_snapshots method retention limit = .ok (ok, destroyed)
        ∧ Purged retention limit fss destroyed)
      ↔ ∀ l ∈ fss, Clean retention limit l := by
  constructor
  · rintro ⟨ok, destroyed, hok, parts, rfl, hparts⟩
    obtain ⟨hgoes, hdone⟩ := purge_snapshots_handed hlist hfss hok
    rw [handed_all_of_succeeds hdestroy, List.nil_append] at hdone
    -- both cut the destroyed snapshots into parts of the same lengths
    have hlen : (fss.map (destroyedPart retention limit)).map List.length
        = parts.map List.length := by
      rw [List.map_map, ← List.forall₂_eq_eq_eq, List.forall₂_map_left_iff,
        List.forall₂_map_right_iff]
      refine ((List.forall₂_and_left fss parts).mpr ⟨hgoes, hparts⟩).imp (fun l part h => ?_)
      exact (destroyedPart_perm h.1).length_eq.trans h.2.1.length_eq.symm
    obtain rfl := List.eq_iff_flatten_eq.mpr ⟨hdone.symm, hlen⟩
    rw [List.forall₂_map_right_iff, List.forall₂_same] at hparts
    exact fun l hl => (clean_iff (hdistinct l hl)).mpr ⟨hgoes l hl, (hparts l hl).2⟩
  · intro hclean
    have hgoes : ∀ l ∈ fss, HeadGoes retention limit l :=
      fun l hl => ((clean_iff (hdistinct l hl)).mp (hclean l hl)).1
    obtain ⟨ok', hok'⟩ := purge_loop_goes hfss hgoes false 0 []
    rw [← purge_snapshots_listed hlist, handed_all_of_succeeds hdestroy] at hok'
    refine ⟨ok', _, hok', fss.map (destroyedPart retention limit), by simp, ?_⟩
    rw [List.forall₂_map_right_iff, List.forall₂_same]
    exact fun l hl => ⟨destroyedPart_perm (hgoes l hl),
      ((clean_iff (hdistinct l hl)).mp (hclean l hl)).2⟩

/-- A snapshot of the given date. -/
def snapshotAt (creation : UInt64) : snapshot_t := ⟨"pool/fs@zint", creation, 0, 0⟩

/-- A filesystem with one snapshot. -/
def oneSnapshot (creation : UInt64) : DList snapshot_t :=
  ⟨1, some 0, some 0, fun a => if a = 0 then some ⟨none, none, snapshotAt creation⟩ else none, 1⟩

theorem oneSnapshot_wellFormed (creation : UInt64) :
    WellFormed (oneSnapshot creation) [snapshotAt creation] := by
  refine ⟨[(0, snapshotAt creation)], ⟨rfl, rfl, ?_, by simp, by simp [oneSnapshot], rfl⟩, rfl⟩
  simp [oneSnapshot]

/-- A method that lists one filesystem with one snapshot and destroys without fail. -/
def oneSnapshotMethod (creation : UInt64) : backup_method_t :=
  ⟨(true, [oneSnapshot creation]), fun _ _ => true⟩

/-- A filesystem with two snapshots. -/
def twoSnapshots (a b : UInt64) : DList snapshot_t :=
  ⟨2, some 0, some 1, fun p =>
    if p = 0 then some ⟨some 1, none, snapshotAt a⟩
    else if p = 1 then some ⟨none, some 0, snapshotAt b⟩ else none, 2⟩

theorem twoSnapshots_wellFormed (a b : UInt64) :
    WellFormed (twoSnapshots a b) [snapshotAt a, snapshotAt b] := by
  refine ⟨[(0, snapshotAt a), (1, snapshotAt b)],
    ⟨rfl, rfl, ?_, by simp, by simp [twoSnapshots], rfl⟩, rfl⟩
  simp [twoSnapshots]

/-- Two filesystems with two snapshots each, the first listed oldest first, the second
newest first. -/
def twoFilesystems : List (DList snapshot_t) := [twoSnapshots 3 5, twoSnapshots 7 4]

theorem twoFilesystems_wellFormed : List.Forall₂ WellFormed twoFilesystems
    [[snapshotAt 3, snapshotAt 5], [snapshotAt 7, snapshotAt 4]] :=
  .cons (twoSnapshots_wellFormed 3 5) (.cons (twoSnapshots_wellFormed 7 4) .nil)

/-- The four are older than the limit: they are destroyed, as they have to be, the older
one of each filesystem first. -/
theorem purge_snapshots_two_filesystems :
    purge_snapshots ⟨(true, twoFilesystems), fun _ _ => true⟩ .BY_CREATION 10
        = .ok (true, [snapshotAt 3, snapshotAt 5, snapshotAt 4, snapshotAt 7])
      ∧ ∃ ok destroyed,
        purge_snapshots ⟨(true, twoFilesystems), fun _ _ => true⟩ .BY_CREATION 10
          = .ok (ok, destroyed)
        ∧ Purged .BY_CREATION 10 [[snapshotAt 3, snapshotAt 5], [snapshotAt 7, snapshotAt 4]]
            destroyed := by
  refine ⟨by decide, (purge_snapshots_iff ⟨(true, twoFilesystems), fun _ _ => true⟩ .BY_CREATION 10
    [[snapshotAt 3, snapshotAt 5], [snapshotAt 7, snapshotAt 4]] rfl twoFilesystems_wellFormed ?_
    (fun _ _ => rfl)).mpr ?_⟩
  · unfold Distinct
    decide
  · intro l hl
    have hboth : ∀ l ∈ [[snapshotAt 3, snapshotAt 5], [snapshotAt 7, snapshotAt 4]],
        (∀ s ∈ l, s ∈ rejected .BY_CREATION 10 l) ∧ Compares l := by
      unfold Compares
      decide
    exact Or.inl (hboth l hl)

/-- One snapshot and a retention that keeps one: nothing is to be destroyed, and
the run reads the list's only element after freeing it. -/
theorem purge_snapshots_keep_one :
    WellFormed (oneSnapshot 5) [snapshotAt 5]
      ∧ purge_snapshots (oneSnapshotMethod 5) .BY_COUNT 1 = .error (.freed 0)
      ∧ ¬ ∃ ok destroyed, purge_snapshots (oneSnapshotMethod 5) .BY_COUNT 1 = .ok (ok, destroyed)
          ∧ Purged .BY_COUNT 1 [[snapshotAt 5]] destroyed := by
  have hfault : purge_snapshots (oneSnapshotMethod 5) .BY_COUNT 1 = .error (.freed 0) := by decide
  refine ⟨oneSnapshot_wellFormed 5, hfault, ?_⟩
  rintro ⟨ok, destroyed, hok, -⟩
  rw [hfault] at hok
  exact absurd hok (by simp)

end PkgPlugins.Purge
