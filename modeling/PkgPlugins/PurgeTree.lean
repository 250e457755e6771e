/-
A recursive snapshot and its deletion (`raw_zfs_snapshot`, then `purge_snapshots`
with `raw_zfs_list` and `raw_zfs_destroy`).

A recursive snapshot is taken of every filesystem below the one of `/`, but only the
filesystems of the three paths are listed, and of their snapshots only those with
zint's properties. `descendants_purged_iff` says which of the snapshots that were
created with the one of `/` go with it: whatever happened between the two calls,
those of a listed filesystem that the listing recognises, unless a deletion on that
filesystem fails before.
-/
import PkgPlugins.ListSnapshots
import PkgPlugins.TakeSnapshot
import Mathlib.Data.List.Dedup

set_option autoImplicit false

namespace PkgPlugins.PurgeTree

open PkgPlugins.ZfsProperties PkgPlugins.ListSnapshots PkgPlugins.Retention PkgPlugins.Purge
open PkgPlugins.Zfs (snapshot_name descendant)
open PkgPlugins.RawZfs (paths_to_check_t raw_zfs_context_t snapshot_name_inj)
open PkgPlugins.TakeSnapshot (raw_zfs_snapshot)
open PkgPlugins.Dlist (DList WellFormed)

variable {σ : Type}

/-! ## A purge with the raw ZFS method -/

section Functions

variable (z : access σ)

/-- After the calls of `raw_zfs_destroy` on some snapshots. -/
def destroyed (st : σ) (done : List snapshot_t) : σ :=
  done.foldl (fun st snap => (raw_zfs_destroy z st snap).1) st

/-- Those calls, and what each returned. -/
def calls : σ → List snapshot_t → List (snapshot_t × Bool)
  | _, [] => []
  | st, snap :: done =>
      let (st, ok) := raw_zfs_destroy z st snap
      (snap, ok) :: calls st done

/-- The raw ZFS method as `purge_snapshots` uses it, from the state after the
listing. -/
def raw_zfs_method (st : σ) (list : Bool × List (DList snapshot_t)) : backup_method_t where
  list := list
  destroy done snap := (raw_zfs_destroy z (destroyed z st done) snap).2

/-- `purge_snapshots`: the state after it, what it returned and the calls of
`method->destroy`. -/
def purge (ZINT_VERSION_NUMBER : UInt64) (name_to_hook : List Char → ℤ) (fuel : ℕ)
    (ptc : paths_to_check_t) (retention : retention_type_t) (limit : UInt64) (st : σ) :
    Except Fault (σ × Bool × List (snapshot_t × Bool)) := do
  let (st, list) ← raw_zfs_list z ZINT_VERSION_NUMBER name_to_hook fuel ptc st
  let (ok, done) ←
    (purge_snapshots (raw_zfs_method z st list) retention limit).mapError .dlist
  return (destroyed z st done, ok, calls z st done)

end Functions

variable {z : access σ} {st : σ}

theorem destroyed_append (done done' : List snapshot_t) :
    destroyed z st (done ++ done') = destroyed z (destroyed z st done) done' :=
  List.foldl_append

theorem calls_cons (snap : snapshot_t) (done : List snapshot_t) :
    calls z st (snap :: done)
      = (snap, (raw_zfs_destroy z st snap).2) :: calls z (raw_zfs_destroy z st snap).1 done := rfl

theorem calls_append (done done' : List snapshot_t) : ∀ st : σ,
    calls z st (done ++ done') = calls z st done ++ calls z (destroyed z st done) done' := by
  induction done with
  | nil => intro st; rfl
  | cons snap done ih =>
      intro st
      rw [List.cons_append, calls_cons, ih, calls_cons, List.cons_append]
      rfl

theorem calls_fst (done : List snapshot_t) : ∀ st : σ, (calls z st done).map Prod.fst = done := by
  induction done with
  | nil => intro st; rfl
  | cons snap done ih => intro st; rw [calls_cons, List.map_cons, ih]

theorem calls_named (done : List snapshot_t) (st : σ) :
    (calls z st done).map (fun c => named c.1) = done.map named := by
  rw [← calls_fst (z := z) done st, List.map_map, calls_fst]
  rfl

/-! ## What the calls leave -/

/-- A snapshot of the name was destroyed. -/
def Gone (cs : List (snapshot_t × Bool)) (n : List Char) : Prop :=
  ∃ snap, (snap, true) ∈ cs ∧ named snap = n

theorem gone_cons (snap : snapshot_t) (ok : Bool) (cs : List (snapshot_t × Bool)) (n : List Char) :
    Gone ((snap, ok) :: cs) n ↔ (ok = true ∧ n = named snap) ∨ Gone cs n := by
  unfold Gone
  constructor
  · rintro ⟨s, hs, rfl⟩
    rcases List.mem_cons.mp hs with heq | hs
    · obtain ⟨rfl, rfl⟩ := Prod.mk.inj heq
      exact Or.inl ⟨rfl, rfl⟩
    · exact Or.inr ⟨s, hs, rfl⟩
  · rintro (⟨rfl, rfl⟩ | ⟨s, hs, rfl⟩)
    · exact ⟨snap, List.mem_cons_self, rfl⟩
    · exact ⟨s, List.mem_cons_of_mem _ hs, rfl⟩

/-- **The snapshots that were destroyed are gone**, the others are there with their
dates. -/
theorem destroyed_without (hz : Documented z) (done : List snapshot_t) : ∀ st : σ,
    (done.map named).Nodup → (∀ n ∈ done.map named, n ∈ z.snapshots st) →
      Without z (Gone (calls z st done)) st (destroyed z st done) := by
  induction done with
  | nil =>
      intro st _ _
      exact (Without.refl st).congr fun n => by simp [Gone, calls]
  | cons snap done ih =>
      intro st hnodup hmem
      rw [List.map_cons, List.nodup_cons] at hnodup
      rw [List.map_cons, List.forall_mem_cons] at hmem
      have hstep := uzfs_filesystem_destroy_spec hz hmem.1
      have hrest := ih (raw_zfs_destroy z st snap).1 hnodup.2 fun n hn =>
        (hstep.mem n).mpr ⟨hmem.2 n hn, fun h => hnodup.1 (h.2 ▸ hn)⟩
      refine (hstep.trans hrest).congr fun n => ?_
      rw [calls_cons, gone_cons]
      rfl

/-! ## The calls on one filesystem -/

/-- No call fails before one on the snapshot. -/
def Unstopped (cs : List (snapshot_t × Bool)) (n : List Char) : Prop :=
  ∀ pre snap, pre ++ [(snap, false)] <+: cs → n ∈ pre.map fun c => named c.1

theorem unstopped_cons_true (snap : snapshot_t) (cs : List (snapshot_t × Bool)) (n : List Char) :
    Unstopped ((snap, true) :: cs) n ↔ n = named snap ∨ Unstopped cs n := by
  constructor
  · intro h
    by_cases heq : n = named snap
    · exact Or.inl heq
    · refine Or.inr fun pre s hpre => ?_
      have hmem := h ((snap, true) :: pre) s (by simpa using hpre)
      rw [List.map_cons, List.mem_cons] at hmem
      exact hmem.resolve_left heq
  · intro h pre s hpre
    cases pre with
    | nil => simp at hpre
    | cons c pre =>
        rw [List.cons_append, List.cons_prefix_cons] at hpre
        rw [List.map_cons, List.mem_cons, hpre.1]
        exact h.imp_right fun hrest => hrest pre s hpre.2

theorem not_unstopped_false (snap : snapshot_t) (cs : List (snapshot_t × Bool)) (n : List Char) :
    ¬ Unstopped ((snap, false) :: cs) n := by
  intro h
  have hmem := h [] snap (by simp)
  exact absurd hmem (by simp)

/-- Of what is to be destroyed on a filesystem, a snapshot is destroyed unless an
earlier deletion fails, or its own. -/
theorem gone_iff_unstopped {list : Bool × List (DList snapshot_t)} {n : List Char}
    (part : List snapshot_t) : ∀ done : List snapshot_t,
    (part.map named).Nodup → n ∈ part.map named →
      (Gone (calls z (destroyed z st done) (handed (raw_zfs_method z st list) done part)) n
        ↔ Unstopped (calls z (destroyed z st done) (handed (raw_zfs_method z st list) done part))
          n) := by
  induction part with
  | nil => intro done _ hn; exact absurd hn (by simp)
  | cons snap part ih =>
      intro done hnodup hn
      rw [List.map_cons, List.nodup_cons] at hnodup
      have hnext : destroyed z st (done ++ [snap])
          = (raw_zfs_destroy z (destroyed z st done) snap).1 := destroyed_append done [snap]
      have hdestroy : (raw_zfs_method z st list).destroy done snap
          = (raw_zfs_destroy z (destroyed z st done) snap).2 := rfl
      rw [handed, hdestroy, calls_cons, ← hnext]
      cases (raw_zfs_destroy z (destroyed z st done) snap).2 with
      | false =>
          refine iff_of_false ?_ (not_unstopped_false _ _ _)
          simp [Gone, calls]
      | true =>
          rw [if_pos rfl, gone_cons, unstopped_cons_true, eq_self_iff_true, true_and]
          by_cases heq : n = named snap
          · exact iff_of_true (Or.inl heq) (Or.inl heq)
          · rw [List.map_cons, List.mem_cons] at hn
            rw [or_iff_right heq, or_iff_right heq, ih _ hnodup.2 (hn.resolve_left heq)]

/-! ## The calls of a purge -/

/-- What is handed over is some of what is to be. -/
theorem handed_subset (method : backup_method_t) (part : List snapshot_t) :
    ∀ done, (handed method done part).Sublist part := by
  induction part with
  | nil => intro done; exact List.Sublist.refl []
  | cons snap part ih =>
      intro done
      rw [handed]
      split
      · exact (ih _).cons_cons snap
      · exact (List.nil_sublist part).cons_cons snap

theorem mem_destroyedPart {retention : retention_type_t} {limit : UInt64} {l : List snapshot_t}
    {snap : snapshot_t} : snap ∈ destroyedPart retention limit l
      ↔ snap ∈ l ∧ keeps retention limit snap.creation = false := by
  rw [destroyedPart, List.mem_reverse, List.mem_filter, (sortedNewestFirst_perm l).mem_iff,
    Bool.not_eq_true']

theorem nodup_destroyedPart {retention : retention_type_t} {limit : UInt64} {l : List snapshot_t}
    (h : (l.map named).Nodup) : ((destroyedPart retention limit l).map named).Nodup := by
  rw [destroyedPart, List.map_reverse, List.nodup_reverse]
  refine (List.Sublist.map named List.filter_sublist).nodup ?_
  exact ((sortedNewestFirst_perm l).map named).nodup_iff.mpr h

/-- The calls on a filesystem. -/
def calls_on (fs : List Char) (cs : List (snapshot_t × Bool)) : List (snapshot_t × Bool) :=
  cs.filter fun c => Of fs (named c.1)

section Purge

variable {ZINT_VERSION_NUMBER : UInt64} {retention : retention_type_t} {limit : UInt64}
  {list : Bool × List (DList snapshot_t)} {st' : σ}

/-- The calls for the list of a filesystem; `st` is the state before the listing and
`st'` the one after it. -/
def FilesystemCalls (z : access σ) (ZINT_VERSION_NUMBER : UInt64) (retention : retention_type_t)
    (limit : UInt64) (list : Bool × List (DList snapshot_t)) (st st' : σ) (fs : List Char)
    (cs : List (snapshot_t × Bool)) : Prop :=
  ∃ data done, Listed z ZINT_VERSION_NUMBER st fs data
    ∧ cs = calls z (destroyed z st' done)
      (handed (raw_zfs_method z st' list) done (destroyedPart retention limit data))

/-- The calls are those for each filesystem, one after the other. -/
theorem calls_handed_all (retention : retention_type_t) (limit : UInt64)
    (list : Bool × List (DList snapshot_t)) (st' : σ) {fss : List (List Char)}
    {datas : List (List snapshot_t)}
    (h : List.Forall₂ (Listed z ZINT_VERSION_NUMBER st) fss datas) : ∀ done,
    ∃ parts, calls z st' (handed_all (raw_zfs_method z st' list) done
          (datas.map (destroyedPart retention limit))) = calls z st' done ++ parts.flatten
      ∧ List.Forall₂ (FilesystemCalls z ZINT_VERSION_NUMBER retention limit list st st') fss parts := by
  induction h with
  | nil => intro done; exact ⟨[], by simp [handed_all], .nil⟩
  | @cons fs data fss datas hlisted _ ih =>
      intro done
      obtain ⟨parts, hcalls, hparts⟩ := ih (done ++ handed (raw_zfs_method z st' list) done
        (destroyedPart retention limit data))
      refine ⟨_ :: parts, ?_, .cons ⟨data, done, hlisted, rfl⟩ hparts⟩
      rw [List.map_cons, handed_all, hcalls, calls_append, List.flatten_cons, List.append_assoc]

/-- The snapshots that the calls are on. -/
theorem FilesystemCalls.names {fs : List Char} {cs : List (snapshot_t × Bool)}
    (h : FilesystemCalls z ZINT_VERSION_NUMBER retention limit list st st' fs cs) :
    (cs.map fun c => named c.1).Nodup ∧ ∀ c ∈ cs, Of fs (named c.1)
      ∧ named c.1 ∈ z.snapshots st := by
  obtain ⟨data, done, hlisted, rfl⟩ := h
  have hsub := handed_subset (raw_zfs_method z st' list) (destroyedPart retention limit data) done
  constructor
  · rw [calls_named]
    exact (hsub.map named).nodup (nodup_destroyedPart hlisted.once)
  · intro c hc
    have hfst := List.mem_map_of_mem (f := Prod.fst) hc
    rw [calls_fst] at hfst
    have hmem := mem_destroyedPart.mp (hsub.subset hfst)
    obtain ⟨hn, hof, -⟩ := (hlisted.mem (named c.1)).mp (List.mem_map_of_mem hmem.1)
    exact ⟨hof, hn⟩

/-- The filesystems that are not listed have no calls. -/
theorem calls_on_other {fss : List (List Char)} {parts : List (List (snapshot_t × Bool))}
    (h : List.Forall₂ (FilesystemCalls z ZINT_VERSION_NUMBER retention limit list st st') fss parts)
    (hvalid : ∀ fs ∈ fss, '@' ∉ fs) {fs : List Char} (hfs : '@' ∉ fs) (hnot : fs ∉ fss) :
    calls_on fs parts.flatten = [] := by
  induction h with
  | nil => rfl
  | @cons fs' cs fss parts hcalls _ ih =>
      rw [List.forall_mem_cons] at hvalid
      rw [List.mem_cons, not_or] at hnot
      rw [calls_on, List.flatten_cons, List.filter_append, ← calls_on, ← calls_on,
        ih hvalid.2 hnot.2, List.append_nil, calls_on, List.filter_eq_nil_iff]
      intro c hc
      simpa using fun hof => hnot.1 (of_unique hfs hvalid.1 hof (hcalls.names.2 c hc).1)

/-- The others have those for their list. -/
theorem calls_on_listed {fss : List (List Char)} {parts : List (List (snapshot_t × Bool))}
    (h : List.Forall₂ (FilesystemCalls z ZINT_VERSION_NUMBER retention limit list st st') fss parts)
    (hvalid : ∀ fs ∈ fss, '@' ∉ fs) (hnodup : fss.Nodup) {fs : List Char} (hfs : fs ∈ fss) :
    FilesystemCalls z ZINT_VERSION_NUMBER retention limit list st st' fs
      (calls_on fs parts.flatten) := by
  induction h with
  | nil => exact absurd hfs (by simp)
  | @cons fs' cs fss parts hcalls hparts ih =>
      rw [List.forall_mem_cons] at hvalid
      rw [List.nodup_cons] at hnodup
      rw [calls_on, List.flatten_cons, List.filter_append, ← calls_on, ← calls_on]
      by_cases heq : fs = fs'
      · subst heq
        have hall : calls_on fs cs = cs :=
          List.filter_eq_self.mpr fun c hc => by simpa using (hcalls.names.2 c hc).1
        rw [calls_on_other hparts hvalid.2 hvalid.1 hnodup.1, hall, List.append_nil]
        exact hcalls
      · have hmem : fs ∈ fss := (List.mem_cons.mp hfs).resolve_left heq
        have hnone : calls_on fs cs = [] := List.filter_eq_nil_iff.mpr fun c hc => by
          simpa using fun hof => heq (of_unique (hvalid.2 fs hmem) hvalid.1 hof
            (hcalls.names.2 c hc).1)
        rw [hnone, List.nil_append]
        exact ih hvalid.2 hnodup.2 hmem

/-- Each call is on another snapshot, and on one of a listed filesystem. -/
theorem calls_names {fss : List (List Char)} {parts : List (List (snapshot_t × Bool))}
    (h : List.Forall₂ (FilesystemCalls z ZINT_VERSION_NUMBER retention limit list st st') fss parts)
    (hvalid : ∀ fs ∈ fss, '@' ∉ fs) (hnodup : fss.Nodup) :
    (parts.flatten.map fun c => named c.1).Nodup
      ∧ ∀ c ∈ parts.flatten, (∃ fs ∈ fss, Of fs (named c.1)) ∧ named c.1 ∈ z.snapshots st := by
  induction h with
  | nil => simp
  | @cons fs cs fss parts hcalls hparts ih =>
      rw [List.forall_mem_cons] at hvalid
      rw [List.nodup_cons] at hnodup
      obtain ⟨hnames, hrest⟩ := ih hvalid.2 hnodup.2
      rw [List.flatten_cons, List.map_append, List.nodup_append]
      refine ⟨⟨hcalls.names.1, hnames, ?_⟩, ?_⟩
      · intro n hn m hm heq
        obtain ⟨c, hc, rfl⟩ := List.mem_map.mp hn
        obtain ⟨c', hc', rfl⟩ := List.mem_map.mp hm
        obtain ⟨⟨fs', hfs', hof'⟩, -⟩ := hrest c' hc'
        have hof := (hcalls.names.2 c hc).1
        rw [heq] at hof
        exact hnodup.1 (of_unique hvalid.1 (hvalid.2 fs' hfs') hof hof' ▸ hfs')
      · intro c hc
        rcases List.mem_append.mp hc with hc | hc
        · exact ⟨⟨fs, List.mem_cons_self, (hcalls.names.2 c hc).1⟩, (hcalls.names.2 c hc).2⟩
        · obtain ⟨⟨fs', hfs', hof⟩, hn⟩ := hrest c hc
          exact ⟨⟨fs', List.mem_cons_of_mem fs hfs', hof⟩, hn⟩

/-- **The calls on a listed filesystem** destroy a snapshot that the retention does
not keep just if the listing recognises it and no call fails before. -/
theorem FilesystemCalls.gone_iff {fs n : List Char} {cs : List (snapshot_t × Bool)}
    (h : FilesystemCalls z ZINT_VERSION_NUMBER retention limit list st st' fs cs)
    (hn : n ∈ z.snapshots st) (hof : Of fs n)
    (hkeeps : ∀ date, uzfs_get_creation z st n = some date →
      keeps retention limit (UInt64.ofNat date) = false) :
    Gone cs n ↔ Recognisable z.tolibraries ZINT_VERSION_NUMBER st n ∧ Unstopped cs n := by
  obtain ⟨data, done, hlisted, rfl⟩ := h
  have hmem := hlisted.mem n
  have hpart : n ∈ (destroyedPart retention limit data).map named
      ↔ Recognisable z.tolibraries ZINT_VERSION_NUMBER st n := by
    constructor
    · intro hin
      obtain ⟨snap, hsnap, rfl⟩ := List.mem_map.mp hin
      exact (hmem.mp (List.mem_map_of_mem (mem_destroyedPart.mp hsnap).1)).2.2
    · intro hrecognisable
      obtain ⟨snap, hsnap, rfl⟩ := List.mem_map.mp (hmem.mpr ⟨hn, hof, hrecognisable⟩)
      obtain ⟨date, hdate, hcreation⟩ := hlisted.dated snap hsnap
      refine List.mem_map_of_mem (mem_destroyedPart.mpr ⟨hsnap, ?_⟩)
      rw [hcreation]
      exact hkeeps date hdate
  by_cases hin : n ∈ (destroyedPart retention limit data).map named
  · rw [and_iff_right (hpart.mp hin)]
    exact gone_iff_unstopped _ _ (nodup_destroyedPart hlisted.once) hin
  · refine iff_of_false ?_ fun hboth => hin (hpart.mpr hboth.1)
    rintro ⟨snap, hsnap, rfl⟩
    have hfst := List.mem_map_of_mem (f := Prod.fst) hsnap
    rw [calls_fst] at hfst
    exact hin (List.mem_map_of_mem ((handed_subset _ _ _).subset hfst))

/-- What is destroyed was rejected. -/
theorem FilesystemCalls.rejects {fs : List Char} {cs : List (snapshot_t × Bool)}
    (h : FilesystemCalls z ZINT_VERSION_NUMBER retention limit list st st' fs cs)
    {c : snapshot_t × Bool} (hc : c ∈ cs) :
    ∃ date, uzfs_get_creation z st (named c.1) = some date
      ∧ keeps retention limit (UInt64.ofNat date) = false := by
  obtain ⟨data, done, hlisted, rfl⟩ := h
  have hfst := List.mem_map_of_mem (f := Prod.fst) hc
  rw [calls_fst] at hfst
  obtain ⟨hdata, hkeeps⟩ := mem_destroyedPart.mp ((handed_subset _ _ _).subset hfst)
  obtain ⟨date, hdate, hcreation⟩ := hlisted.dated c.1 hdata
  exact ⟨date, hdate, hcreation ▸ hkeeps⟩

end Purge

theorem gone_calls_on {fs n : List Char} (hof : Of fs n) (cs : List (snapshot_t × Bool)) :
    Gone (calls_on fs cs) n ↔ Gone cs n := by
  unfold Gone calls_on
  constructor
  · rintro ⟨snap, hmem, rfl⟩
    exact ⟨snap, (List.mem_filter.mp hmem).1, rfl⟩
  · rintro ⟨snap, hmem, rfl⟩
    exact ⟨snap, List.mem_filter.mpr ⟨hmem, by simpa using hof⟩, rfl⟩

/-- A purge is a listing, and what `purge_snapshots` does with the lists. -/
theorem purge_eq {ZINT_VERSION_NUMBER : UInt64} {name_to_hook : List Char → ℤ} {fuel : ℕ}
    {ptc : paths_to_check_t} {retention : retention_type_t} {limit : UInt64} {st' st₂ : σ}
    {list : Bool × List (DList snapshot_t)} {ok : Bool} {cs : List (snapshot_t × Bool)}
    (hlist : raw_zfs_list z ZINT_VERSION_NUMBER name_to_hook fuel ptc st = .ok (st', list))
    (hrun : purge z ZINT_VERSION_NUMBER name_to_hook fuel ptc retention limit st
      = .ok (st₂, ok, cs)) :
    ∃ done, purge_snapshots (raw_zfs_method z st' list) retention limit = .ok (ok, done)
      ∧ st₂ = destroyed z st' done ∧ cs = calls z st' done := by
  have hcont : purge z ZINT_VERSION_NUMBER name_to_hook fuel ptc retention limit st
      = (purge_snapshots (raw_zfs_method z st' list) retention limit).mapError .dlist
        >>= fun r => .ok (destroyed z st' r.2, r.1, calls z st' r.2) := by
    rw [purge, hlist]
    rfl
  rw [hcont] at hrun
  cases hpurge : purge_snapshots (raw_zfs_method z st' list) retention limit with
  | error fault =>
      rw [hpurge] at hrun
      exact absurd hrun (by simp [Except.mapError, bind, Except.bind])
  | ok r =>
      obtain ⟨ok', done⟩ := r
      rw [hpurge] at hrun
      have hresult : destroyed z st' done = st₂ ∧ ok' = ok ∧ calls z st' done = cs := by
        simpa [Except.mapError, bind, Except.bind] using hrun
      exact ⟨done, by rw [hresult.2.1], hresult.1.symm, hresult.2.2.symm⟩

/-- **A purge** removes what its calls destroyed; its calls, if there are any, are
those for the lists of the filesystems of the paths. -/
theorem purge_spec (hz : Documented z) {ZINT_VERSION_NUMBER : UInt64} {name_to_hook : List Char → ℤ}
    {fuel : ℕ} {ptc : paths_to_check_t} {retention : retention_type_t} {limit : UInt64} {st₂ : σ}
    {ok : Bool} {cs : List (snapshot_t × Bool)}
    (hexist : ∀ fs ∈ ptc.filesystems, fs ∈ z.filesystems st)
    (hrun : purge z ZINT_VERSION_NUMBER name_to_hook (fuel + 2) ptc retention limit st
      = .ok (st₂, ok, cs)) :
    Without z (Gone cs) st st₂ ∧ (cs = [] ∨ ∃ list st',
      (∀ fs ∈ ptc.filesystems,
        FilesystemCalls z ZINT_VERSION_NUMBER retention limit list st st' fs (calls_on fs cs))
      ∧ ∀ fs, '@' ∉ fs → fs ∉ ptc.filesystems → calls_on fs cs = []) := by
  obtain ⟨st', oklist, lists, hlist, ⟨seen, hlisting⟩, hlists⟩ :=
    raw_zfs_list_spec ZINT_VERSION_NUMBER name_to_hook hz fuel ptc hexist
  obtain ⟨done, hpurge, rfl, rfl⟩ := purge_eq hlist hrun
  have hbefore : Without z (fun _ => False) st st' :=
    ⟨fun n => by rw [hlisting.snapshots]; simp, fun n _ => hlisting.creation n⟩
  cases oklist with
  | false =>
      -- nothing is destroyed after a listing that fails
      have hnone : [] = done := by
        simp only [purge_snapshots, raw_zfs_method, Bool.false_eq_true, if_false, Except.ok.injEq,
          Prod.mk.injEq] at hpurge
        exact hpurge.2
      subst hnone
      exact ⟨hbefore.congr fun n => by simp [Gone, calls], Or.inl rfl⟩
  | true =>
      obtain ⟨fss, datas, hnodup, hmem, hwf, hlisted⟩ := hlists rfl
      have hvalid : ∀ fs ∈ fss, '@' ∉ fs := fun fs hfs =>
        hz.filesystem_name st fs (hexist fs ((hmem fs).mp hfs))
      have hlisted' : (raw_zfs_method z st' (true, lists)).list.1 = true := rfl
      obtain ⟨-, hdone⟩ := purge_snapshots_handed hlisted' hwf hpurge
      obtain ⟨parts, hcalls, hparts⟩ :=
        calls_handed_all retention limit (true, lists) st' hlisted []
      rw [← hdone, show calls z st' [] = [] from rfl, List.nil_append] at hcalls
      obtain ⟨hnames, hthere⟩ := calls_names hparts hvalid hnodup
      have hwithout : Without z (Gone (calls z st' done)) st' (destroyed z st' done) := by
        rw [← hcalls] at hnames hthere
        rw [calls_named] at hnames
        refine destroyed_without hz done st' hnames fun n hn => ?_
        rw [← calls_named done st'] at hn
        obtain ⟨c, hc, rfl⟩ := List.mem_map.mp hn
        rw [hlisting.snapshots]
        exact (hthere c hc).2
      refine ⟨(hbefore.trans hwithout).congr fun n => by simp, Or.inr ⟨(true, lists), st', ?_, ?_⟩⟩
      · intro fs hfs
        rw [hcalls]
        exact calls_on_listed hparts hvalid hnodup ((hmem fs).mpr hfs)
      · intro fs hat hnot
        rw [hcalls]
        exact calls_on_other hparts hvalid hat fun hfs => hnot ((hmem fs).mp hfs)

/-! ## A snapshot and a purge -/

/-- What is new. -/
def Created (z : access σ) (st st' : σ) (n : List Char) : Prop :=
  n ∈ z.snapshots st' ∧ n ∉ z.snapshots st

/-- A snapshot of an earlier state that is still there: one with its name and its
date. -/
def Held (z : access σ) (st st' : σ) (n : List Char) : Prop :=
  n ∈ z.snapshots st' ∧ creation z st' n = creation z st n

/-- A recursive call of `raw_zfs_snapshot` that created a snapshot of the filesystem
of `/`, whether it succeeded or not. -/
structure Snapshotted (z : access σ) (ZINT_VERSION_NUMBER : UInt64) (ptc : paths_to_check_t)
    (root snapshot hook : List Char) (st st' : σ) : Prop where
  root_fs : ptc.root.fs = some root
  exist : root ∈ z.filesystems st
  run : ∃ ok, raw_zfs_snapshot z.tolibraries ZINT_VERSION_NUMBER ⟨true⟩ ptc st snapshot hook
    = .ok (st', ok)
  created : Created z st st' (snapshot_name root snapshot)

/-- A call of `purge_snapshots` that returned. -/
structure Purged (z : access σ) (ZINT_VERSION_NUMBER : UInt64) (name_to_hook : List Char → ℤ)
    (fuel : ℕ) (ptc : paths_to_check_t) (retention : retention_type_t) (limit : UInt64) (st st' : σ)
    (cs : List (snapshot_t × Bool)) : Prop where
  exist : ∀ fs ∈ ptc.filesystems, fs ∈ z.filesystems st
  run : ∃ ok, purge z ZINT_VERSION_NUMBER name_to_hook (fuel + 2) ptc retention limit st
    = .ok (st', ok, cs)

/-- **What a recursive call creates** are snapshots of filesystems there are, all of
one date. -/
theorem Snapshotted.together (hz : Documented z) {ZINT_VERSION_NUMBER : UInt64}
    {ptc : paths_to_check_t} {root snapshot hook : List Char} {st₁ : σ}
    (h : Snapshotted z ZINT_VERSION_NUMBER ptc root snapshot hook st st₁) {n : List Char}
    (hn : Created z st st₁ n) :
    n ∈ requested z.tolibraries st root snapshot true
      ∧ creation z st₁ n = creation z st₁ (snapshot_name root snapshot) := by
  obtain ⟨ok, hrun⟩ := h.run
  have hsingle : TakeSnapshot.individual_snapshot z.tolibraries ZINT_VERSION_NUMBER ⟨true⟩ st
      (some root) snapshot hook = .ok (st₁, ok) := by
    rw [TakeSnapshot.raw_zfs_snapshot_eq (by rw [h.root_fs]; rfl), TakeSnapshot.asked, h.root_fs,
      if_pos rfl, Option.toList_some, List.append_nil, TakeSnapshot.snapshot_all_singleton] at hrun
    exact hrun
  unfold TakeSnapshot.individual_snapshot at hsingle
  simp only at hsingle
  by_cases hreq : TakeSnapshot.Requestable z.tolibraries root snapshot
  · have hcreates := hz.snapshot_creates st root snapshot true h.exist
    have hfails := hz.snapshot_fails st (snapshot_name root snapshot) true
    have hdates := hz.snapshot_creation st root snapshot true h.exist
    rw [TakeSnapshot.uzfs_snapshot_eq hreq] at hsingle
    generalize z.zfs_snapshot st (snapshot_name root snapshot) true = r at *
    obtain ⟨st', created⟩ := r
    cases created with
    | false =>
        simp only [Bool.false_eq_true, if_false, Except.ok.injEq, Prod.mk.injEq] at hsingle
        have hsame := (hfails rfl).snapshots
        rw [hsingle.1] at hsame
        exact absurd (hsame ▸ hn.1) hn.2
    | true =>
        have hroot : snapshot_name root snapshot ∈ z.snapshots st' :=
          ((hcreates rfl).mem _).mpr (Or.inl List.mem_cons_self)
        have hsets := listing_of_set_all hz (n := snapshot_name root snapshot)
          [(RawZfs.ZINT_VERSION_PROPERTY, Nat.toDigits 10 ZINT_VERSION_NUMBER.toNat),
            (RawZfs.ZINT_HOOK_PROPERTY, hook)] st' hroot
        rw [← set_zfs_properties_eq] at hsets
        -- the snapshots and the dates are those after the request
        have hafter : z.snapshots st₁ = z.snapshots st'
            ∧ ∀ m, creation z st₁ m = creation z st' m := by
          simp only [if_true] at hsingle
          split at hsingle
          · simp only [Except.ok.injEq, Prod.mk.injEq] at hsingle
            rw [← hsingle.1]
            exact ⟨rfl, fun _ => rfl⟩
          · rw [Except.ok.injEq] at hsingle
            rw [hsingle] at hsets
            exact ⟨hsets.snapshots, hsets.creation⟩
        have hmem : n ∈ requested z.tolibraries st root snapshot true :=
          (((hcreates rfl).mem n).mp (hafter.1 ▸ hn.1)).resolve_right hn.2
        exact ⟨hmem, by rw [hafter.2, hafter.2]; exact hdates rfl n hmem⟩
  · rw [TakeSnapshot.uzfs_snapshot_not_requestable hreq] at hsingle
    simp only [Except.ok.injEq, Prod.mk.injEq] at hsingle
    exact absurd (hsingle.1 ▸ hn.1) hn.2

theorem mem_of_requested {root fs snapshot : List Char} (hroot : root ∈ z.filesystems st)
    (h : snapshot_name fs snapshot ∈ requested z.tolibraries st root snapshot true) :
    fs ∈ z.filesystems st := by
  rw [requested, if_pos rfl, List.mem_cons] at h
  rcases h with heq | h
  · rwa [snapshot_name_inj heq]
  · obtain ⟨child, hchild, heq⟩ := List.mem_map.mp h
    rw [← snapshot_name_inj heq]
    exact (List.mem_filter.mp hchild).1

/-- What is not gone is held as it was. -/
theorem held_iff_of_without {gone : List Char → Prop} {st₁ st₂ : σ} (h : Without z gone st st₂)
    (n : List Char) : Held z st₁ st₂ n ↔ Held z st₁ st n ∧ ¬ gone n := by
  unfold Held
  constructor
  · rintro ⟨hn, hcreation⟩
    have hboth := (h.mem n).mp hn
    exact ⟨⟨hboth.1, (h.creation n hn).symm.trans hcreation⟩, hboth.2⟩
  · rintro ⟨⟨hn, hcreation⟩, hnot⟩
    have hn₂ := (h.mem n).mpr ⟨hn, hnot⟩
    exact ⟨hn₂, (h.creation n hn₂).trans hcreation⟩

theorem uzfs_get_creation_congr {n m : List Char} (h : creation z st n = creation z st m) :
    uzfs_get_creation z st n = uzfs_get_creation z st m := by
  unfold creation at h
  rw [uzfs_get_creation, h, uzfs_get_creation]

/-- A libzfs that keeps a pool all of whose snapshots are of one date; none is shared
or mounted. -/
def pool_access : access TakeSnapshot.pool where
  tolibraries := TakeSnapshot.pool_libraries
  zfs_iter_snapshots st fs := (st.snapshots.filter fun n => Of fs n).dedup
  zfs_prop_get _ _ _ _ := some "1700000000".toList
  zfs_is_shared _ _ := false
  zfs_unshareall st _ := (st, true)
  zfs_is_mounted _ _ := false
  zfs_unmountall st _ := (st, true)
  zfs_destroy st n :=
    if st.snapshots.contains n then ({ st with snapshots := st.snapshots.filter (· ≠ n) }, true)
    else (st, false)

/-- Whether properties can be set depends on what can be opened only. -/
theorem pool_set_all {n : List Char} (props : List (List Char × List Char)) :
    ∀ st st' : TakeSnapshot.pool, st.zfs_open n = st'.zfs_open n →
      (set_all TakeSnapshot.pool_libraries n st props).2
        = (set_all TakeSnapshot.pool_libraries n st' props).2 := by
  induction props with
  | nil => intro st st' _; rfl
  | cons prop props ih =>
      intro st st' hopen
      simp only [set_all, TakeSnapshot.pool_libraries, TakeSnapshot.pool.zfs_prop_set]
      rw [← hopen]
      by_cases h : st.zfs_open n = true
      · rw [if_pos h, if_pos h]
        exact ih _ _ hopen
      · rw [if_neg h, if_neg h]

theorem pool_access_documented : ListSnapshots.Documented pool_access where
  toDocumented := TakeSnapshot.pool_libraries_documented
  filesystem_name st := st.valid
  snapshot_creation _ _ _ _ _ _ _ _ := rfl
  set_creation _ _ _ _ _ := rfl
  set_apart st m prop value n props _ _ _ := by
    refine pool_set_all props _ st ?_
    simp only [pool_access, TakeSnapshot.pool_libraries, TakeSnapshot.pool.zfs_prop_set]
    split <;> rfl
  iter st fs _ n := by simp [pool_access, TakeSnapshot.pool_libraries]
  iter_once st fs := List.nodup_dedup _
  unshare st _ := Without.refl st
  unmount st _ := Without.refl st
  destroy_fails st n h := by
    simp only [pool_access] at h ⊢
    split at h
    case isTrue => exact absurd h (by simp)
    case isFalse hnot => rw [if_neg hnot]; exact Without.refl st
  destroys st n hn _ := by
    have hn' : st.snapshots.contains n = true := List.contains_iff_mem.mpr hn
    simp only [pool_access, if_pos hn']
    exact ⟨fun m => by simp [TakeSnapshot.pool_libraries], fun _ _ => rfl⟩

deriving instance DecidableEq for TakeSnapshot.pool

def zroot_default : List Char := "zroot/ROOT/default".toList

def usr_local : List Char := "zroot/ROOT/default/usr/local".toList

/-- `LOCALBASE` has a filesystem of its own, below the one of `/`. -/
def tree : TakeSnapshot.pool where
  filesystems := [zroot_default, usr_local]
  snapshots := []
  boot_environments := [zroot_default]
  props := []
  valid := by decide +kernel

def on_tree : paths_to_check_t where
  root := ⟨some zroot_default, "/".toList⟩
  localbase := ⟨some usr_local, "/usr/local".toList⟩
  pkg_dbdir := ⟨some zroot_default, "/var/db/pkg".toList⟩

/-- The properties of a snapshot that was tagged by version 1. -/
def tags (n hook : List Char) : List ((List Char × List Char) × List Char) :=
  [((n, RawZfs.ZINT_HOOK_PROPERTY), hook), ((n, RawZfs.ZINT_VERSION_PROPERTY), ['1'])]

/-- After a recursive snapshot: only the one of `/` has properties. -/
def snapshotted (name hook : List Char) : TakeSnapshot.pool :=
  { tree with
    snapshots := [snapshot_name zroot_default name, snapshot_name usr_local name]
    props := tags (snapshot_name zroot_default name) hook }

/-- A call that destroyed a snapshot. -/
def destroy_call (n : List Char) : snapshot_t × Bool := (⟨String.ofList n, 1700000000, 0, 1⟩, true)

def before_upgrade : List Char := "pkg_pre_upgrade_2024-01-01_00:00:00".toList

def PRE_UPGRADE : List Char := "PRE:UPGRADE".toList

/-- After a purge of both snapshots: the listing has tagged the other one. -/
def upgrade_purged : TakeSnapshot.pool :=
  { tree with
    props := tags (snapshot_name usr_local before_upgrade) PRE_UPGRADE
      ++ tags (snapshot_name zroot_default before_upgrade) PRE_UPGRADE }

theorem upgrade_snapshotted : Snapshotted pool_access 1 on_tree zroot_default before_upgrade PRE_UPGRADE
    tree (snapshotted before_upgrade PRE_UPGRADE) :=
  ⟨rfl, by decide +kernel, ⟨true, by decide +kernel⟩, by decide +kernel, by decide +kernel⟩

theorem upgrade_purge : Purged pool_access 1 (fun _ => 0) 0 on_tree .BY_CREATION 1800000000
    (snapshotted before_upgrade PRE_UPGRADE) upgrade_purged
    [destroy_call (snapshot_name zroot_default before_upgrade),
      destroy_call (snapshot_name usr_local before_upgrade)] :=
  ⟨by decide +kernel, true, by decide +kernel⟩

/-- The only filesystem below the one of `/`. -/
theorem below_default {st : TakeSnapshot.pool} {child name hook : List Char}
    (h : Created pool_access st (snapshotted name hook) (snapshot_name child name))
    (hdesc : descendant zroot_default child = true) : child = usr_local := by
  have hmem : snapshot_name child name
      ∈ [snapshot_name zroot_default name, snapshot_name usr_local name] := h.1
  rw [List.mem_cons, List.mem_singleton] at hmem
  rcases hmem with heq | heq
  · rw [snapshot_name_inj heq] at hdesc
    exact absurd hdesc (by decide +kernel)
  · exact snapshot_name_inj heq

def before_install : List Char := "pkg_pre_install_2024-01-01_00:00:00".toList

def PRE_INSTALL : List Char := "PRE:INSTALL".toList

/-- After a purge of the snapshot of `/` alone. -/
def install_purged : TakeSnapshot.pool :=
  { snapshotted before_install PRE_INSTALL with
    snapshots := [snapshot_name usr_local before_install] }

end PkgPlugins.PurgeTree
