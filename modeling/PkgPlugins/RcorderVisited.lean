/-
`pkg rcorder` with its hash table (`visit_script_bis` and `services_db_rcorder_iter`,
`plugins/services/services_db.c`).

The scripts that were visited are kept in a hash table without functions: a key is the
address of a script, and its hash is the key. `Rcorder` has a list of the scripts instead.
Here the traversal goes through the hash table, which grows with it, and passes the same
scripts to the callback in the same order.
-/
import PkgPlugins.RcorderComplete
import PkgPlugins.HashtableTables

set_option autoImplicit false

namespace PkgPlugins.RcorderVisited

open PkgPlugins.AssocTable PkgPlugins.Fallible PkgPlugins.Links PkgPlugins.Hashtable
open PkgPlugins.HashtableRuns PkgPlugins.HashtableTables PkgPlugins.ServicesDb PkgPlugins.Rcorder
open PkgPlugins.RcorderComplete PkgPlugins.ServicesClosed

/-! ## The traversal -/

section Traversal

variable (address : ℕ → ℕ)

/-- `hashtable_direct_contains(visited, child)` -/
def visited_contains (visited : HashTable ℕ Unit) (child : ℕ) : Except Fault Bool :=
  hashtable_quick_contains same visited (address child) (address child)

/-- `visit_script_bis`. -/
def visit_script_bis_hashed (db : services_db_t) (ro : rcorder_options_t) :
    ℕ → HashTable ℕ Unit → ℕ → Except Fault (HashTable ℕ Unit × List ℕ)
  | 0, _, _ => .error .diverges
  | fuel + 1, visited, script => do
      let r ← hashtable_put id same id visited false (address script) ()
      let keep := passes db ro script
      let (visited, passed) ← Dfs.eachIn (visited_contains address)
        (visit_script_bis_hashed db ro fuel) r.1 (children db script)
      .ok (visited, (if keep && ro.reverse then [script] else []) ++ passed
        ++ (if keep && !ro.reverse then [script] else []))

/-- The loop of `services_db_rcorder_iter` over the roots. -/
def rcorder_iter_hashed_loop (db : services_db_t) (ro : rcorder_options_t) (fuel : ℕ) :
    HashTable ℕ Unit → List ℕ → Except Fault (List ℕ)
  | _, [] => .ok []
  | visited, script :: roots => do
      let (visited, passed) ← visit_script_bis_hashed address db ro fuel visited script
      let rest ← rcorder_iter_hashed_loop db ro fuel visited roots
      .ok (passed ++ rest)

/-- `services_db_rcorder_iter`; `nodes` is what the memory of the buckets held before. -/
def services_db_rcorder_iter_hashed (db : services_db_t) (ro : rcorder_options_t)
    (nodes : ℕ → Ptr) : Except Fault (List ℕ) :=
  rcorder_iter_hashed_loop address db ro db.store.length
    (hashtable_init db.scripts.entries.length nodes) db.roots

end Traversal

/-! ## The visited scripts -/

/-- The hash table holds the addresses of the visited scripts, of `n` scripts. -/
def Visited (address : ℕ → ℕ) (n : ℕ) (visited : HashTable ℕ Unit) (vis : List ℕ) : Prop :=
  ∃ t : Table ℕ Unit, Stores id visited t ∧ t.keys ⊆ (List.range n).map address
    ∧ ∀ p, address p ∈ t.keys ↔ p ∈ vis

section Visited

variable {address : ℕ → ℕ} {n : ℕ} {visited : HashTable ℕ Unit} {vis : List ℕ}

theorem visited_init {capacity : ℕ} (hle : capacity ≤ 2 ^ 60) (nodes : ℕ → Ptr) :
    Visited address n (hashtable_init capacity nodes) [] :=
  ⟨Table.empty, stores_init id hle nodes, by simp, by simp⟩

theorem Visited.contains (h : Visited address n visited vis) (p : ℕ) :
    visited_contains address visited p = .ok (decide (p ∈ vis)) := by
  obtain ⟨t, hstores, -, hkeys⟩ := h
  have hasked : visited_contains address visited p = .ok (t.contains (address p)) :=
    hstores.contains (address p)
  rw [hasked, Except.ok.injEq, Bool.eq_iff_iff, t.contains_iff, hkeys, decide_eq_true_eq]

/-- **A put** of a script, whether it was visited or not: there are no more keys than
scripts. -/
theorem Visited.put (h : Visited address n visited vis) (hinj : Function.Injective address)
    (hroom : n + 1 < 2 ^ 60) {p : ℕ} (hp : p < n) :
    ∃ visited' b, hashtable_put id same id visited false (address p) () = .ok (visited', b)
      ∧ Visited address n visited' (p :: vis) := by
  obtain ⟨t, hstores, hsub, hkeys⟩ := h
  have hlength : t.entries.length ≤ n := by
    have hle := (List.subperm_of_subset t.keys_nodup hsub).length_le
    rwa [Table.keys, List.length_map, List.length_map, List.length_range] at hle
  obtain ⟨visited', b, hput, hnext⟩ :=
    hstores.put false (address p) () (list_step_put t (address p) ()) (by omega)
  have hmem : ∀ k, k ∈ (t.put (address p) ()).keys ↔ k = address p ∨ k ∈ t.keys := by
    intro k
    rw [← Table.contains_iff, ← Table.contains_iff, Table.contains, Table.contains, Table.get_put]
    by_cases hk : k = address p
    · simp [hk]
    · simp [hk]
  refine ⟨visited', b, hput, t.put (address p) (), hnext, ?_, ?_⟩
  · intro k hk
    rcases (hmem k).mp hk with rfl | hk
    · exact List.mem_map_of_mem (List.mem_range.mpr hp)
    · exact hsub hk
  · intro q
    rw [hmem, hinj.eq_iff, hkeys, List.mem_cons]

end Visited

/-! ## The same scripts -/

section Same

variable {address : ℕ → ℕ} {db : services_db_t} {ro : rcorder_options_t}

/-- **A visit** with the hash table follows the visit with the list. -/
theorem visit_script_bis_hashed_follows (h : Traversable db) (hinj : Function.Injective address)
    (hroom : db.store.length + 1 < 2 ^ 60) (fuel : ℕ) :
    Dfs.Follows (Visited address db.store.length) (List.range db.store.length)
      (visit_script_bis_hashed address db ro fuel) (visit_script_bis db ro fuel) := by
  induction fuel with
  | zero =>
      intro visited vis script vis' passed _ _ hrun
      exact absurd hrun (by simp [visit_script_bis])
  | succ fuel ih =>
      intro visited vis script vis' passed hvisited hscript hrun
      rw [visit_script_bis] at hrun
      simp only [Option.bind_eq_bind, Option.bind_eq_some_iff, Option.pure_def,
        Option.some.injEq, Prod.mk.injEq] at hrun
      obtain ⟨⟨vis₁, passed₁⟩, hchildren, rfl, rfl⟩ := hrun
      obtain ⟨visited₁, b, hput, hvisited₁⟩ :=
        hvisited.put hinj hroom (List.mem_range.mp hscript)
      have hsub : children db script ⊆ List.range db.store.length :=
        fun c hc => List.mem_range.mpr (h.children_bound script c hc)
      obtain ⟨visited₂, hloop, hvisited₂⟩ := Dfs.eachIn_follows
        (fun _ _ a hrep _ => hrep.contains a) ih (children db script) visited₁ _ _ _ hvisited₁
        hsub hchildren
      refine ⟨visited₂, ?_, hvisited₂⟩
      rw [visit_script_bis_hashed, hput, ok_bind, hloop, ok_bind]

theorem rcorder_iter_hashed_loop_spec (h : Traversable db) (hinj : Function.Injective address)
    (hroom : db.store.length + 1 < 2 ^ 60) (fuel : ℕ) (roots : List ℕ) :
    ∀ visited vis out, Visited address db.store.length visited vis →
      roots ⊆ List.range db.store.length → rcorder_iter_loop db ro fuel vis roots = some out →
      rcorder_iter_hashed_loop address db ro fuel visited roots = .ok out := by
  induction roots with
  | nil =>
      intro visited vis out _ _ hrun
      rw [rcorder_iter_loop, Option.some.injEq] at hrun
      rw [rcorder_iter_hashed_loop, hrun]
  | cons script roots ih =>
      intro visited vis out hvisited hsub hrun
      rw [List.cons_subset] at hsub
      rw [rcorder_iter_loop] at hrun
      simp only [Option.bind_eq_bind, Option.bind_eq_some_iff, Option.pure_def,
        Option.some.injEq] at hrun
      obtain ⟨⟨vis₁, passed⟩, hvisit, rest, hrest, rfl⟩ := hrun
      obtain ⟨visited₁, hfirst, hvisited₁⟩ :=
        visit_script_bis_hashed_follows h hinj hroom fuel visited vis script vis₁ passed hvisited
          hsub.1 hvisit
      have hothers := ih visited₁ vis₁ rest hvisited₁ hsub.2 hrest
      rw [rcorder_iter_hashed_loop, hfirst, ok_bind]
      show (do
        let rest ← rcorder_iter_hashed_loop address db ro fuel visited₁ roots
        (.ok (passed ++ rest) : Except Fault (List ℕ))) = _
      rw [hothers, ok_bind]

/-- There are no more registered scripts than scripts. -/
theorem scripts_length_le {sys : rc_system} {pkg_db : pkgdb}
    (hscan : services_db_scan_system sys pkg_db services_db_create = .ok db) :
    db.scripts.entries.length ≤ db.store.length := by
  obtain ⟨db₀, hsound, rfl, hholds⟩ := services_db_scan_system_sound hscan
  have hlen : (link_scripts db₀).store.length = (filesOf sys).length :=
    (link_scripts_kept hsound).length.trans hsound.1.length
  have hsub : (link_scripts db₀).scripts.values ⊆ List.range (link_scripts db₀).store.length := by
    intro p hp
    obtain ⟨k, hk⟩ := (Table.mem_values_iff _ p).mp hp
    rw [List.mem_range, hlen]
    exact (hholds.scripts k p hk).lt
  have hle := (List.subperm_of_subset (values_nodup hholds.scripts) hsub).length_le
  rwa [Table.values, List.length_map, List.length_range] at hle

/-- **With its hash table `pkg rcorder` passes the same scripts**: of any database that is
scanned, wherever its scripts are in memory and whatever was in the memory of the buckets,
the traversal comes to its end, and it passes to the callback what the traversal with a list
does, in the same order. -/
theorem services_db_rcorder_iter_hashed_eq {sys : rc_system} {pkg_db : pkgdb}
    (hscan : services_db_scan_system sys pkg_db services_db_create = .ok db)
    (hroom : db.store.length + 1 < 2 ^ 60) (hinj : Function.Injective address)
    (ro : rcorder_options_t) (nodes : ℕ → Ptr) :
    ∃ out, services_db_rcorder_iter_hashed address db ro nodes = .ok out
      ∧ services_db_rcorder_iter db ro = some out := by
  have htraversable := (scan_traversable hscan).1
  obtain ⟨out, hiter, -⟩ := services_db_rcorder_iter_mem hscan ro
  refine ⟨out, ?_, hiter⟩
  have hsub : db.roots ⊆ List.range db.store.length :=
    fun r hr => List.mem_range.mpr (htraversable.roots_bound r hr)
  have hcapacity : db.scripts.entries.length ≤ 2 ^ 60 := by
    have hle := scripts_length_le hscan
    omega
  exact rcorder_iter_hashed_loop_spec htraversable hinj hroom db.store.length db.roots _ []
    out (visited_init hcapacity nodes) hsub hiter

end Same

/-- Three scripts, two of them on a cycle, at addresses that fall into one bucket. -/
theorem cycleBelow_hashed : ∃ db,
    services_db_scan_system cycleBelow noPackages services_db_create = .ok db
      ∧ services_db_rcorder_iter_hashed (fun p => 64 * p + 4096) db orphans (fun _ => none)
        = .ok [2, 1, 0] := by
  have hrun : (services_db_scan_system cycleBelow noPackages services_db_create).toOption.map
      (fun db => (db.store.length, services_db_rcorder_iter db orphans))
        = some (3, some [2, 1, 0]) := by decide
  obtain ⟨db, hscan, hrun⟩ := Fallible.of_toOption_map hrun
  simp only [Prod.mk.injEq] at hrun
  obtain ⟨hlength, hout⟩ := hrun
  have hinj : Function.Injective fun p : ℕ => 64 * p + 4096 := by
    intro p q hpq
    simpa using hpq
  obtain ⟨out, hhashed, hiter⟩ := services_db_rcorder_iter_hashed_eq hscan
    (by rw [hlength]; decide) hinj orphans fun _ => none
  have heq : out = [2, 1, 0] := Option.some.inj (hiter.symm.trans hout)
  exact ⟨db, hscan, by rw [hhashed, heq]⟩

end PkgPlugins.RcorderVisited
