/-
The children and the parents of the scripts after a scan
(`services_db_scan_system`, `plugins/services/services_db.c`).

`ServicesDb.services_db_scan_system_complete` says which scripts are in the two
lists of a script. Here are the lists themselves: `dlist_insert_unique` keeps each
of them without repetition, as a script compares equal to itself, and what is in
one of them is mirrored in the other. The roots are read off the parents.
-/
import PkgPlugins.ServicesClosed

set_option autoImplicit false

namespace PkgPlugins.ServicesLinks

open PkgPlugins.AssocTable PkgPlugins.ServicesDb PkgPlugins.ServicesClosed PkgPlugins.Rcorder

/-! ## No list repeats a script -/

/-- A script that is in the list already is found there. -/
theorem dlist_insert_unique_nodup (db : services_db_t) {list : List ℕ} (h : list.Nodup)
    (data : ℕ) : (dlist_insert_unique db list data).Nodup := by
  unfold dlist_insert_unique
  by_cases hfind : (list.find? (fun el => compare_scripts db el data)).isNone = true
  · rw [if_pos hfind]
    have hnot : data ∉ list := by
      intro hmem
      rw [Option.isNone_iff_eq_none, List.find?_eq_none] at hfind
      exact hfind data hmem (by simp [compare_scripts])
    rw [← List.concat_eq_append]
    exact h.concat hnot
  · rwa [if_neg hfind]

/-- No script is twice among the children or the parents of another. -/
def Unrepeated (db : services_db_t) : Prop :=
  ∀ (q : ℕ) s, db.store[q]? = some s → s.children.Nodup ∧ s.parents.Nodup

theorem Unrepeated.parenthood {db : services_db_t} (h : Unrepeated db) (parent child : ℕ) :
    Unrepeated (set_parenthood db parent child) := by
  intro q s hs
  rw [Linked.set_parenthood_store, Option.map_eq_some_iff] at hs
  obtain ⟨s₀, hs₀, rfl⟩ := hs
  obtain ⟨hchildren, hparents⟩ := h q s₀ hs₀
  refine ⟨?_, ?_⟩
  · by_cases hq : parent = q
    · simpa only [hq, if_true] using dlist_insert_unique_nodup db hchildren child
    · simpa only [hq, if_false] using hchildren
  · by_cases hq : child = q
    · simpa only [hq, if_true] using dlist_insert_unique_nodup db hparents parent
    · simpa only [hq, if_false] using hparents

theorem Unrepeated.link {db : services_db_t} (h : Unrepeated db) : Unrepeated (link_scripts db) :=
  relationships_induction (P := fun _ => True) (I := Unrepeated) (fun _ _ _ _ _ => trivial)
    (fun _ parent child _ _ hdb => hdb.parenthood parent child) db.scripts.values
    (fun _ _ => trivial) db h

theorem services_db_scan_system_unrepeated {sys : rc_system} {pkg_db : pkgdb}
    {db : services_db_t}
    (hscan : services_db_scan_system sys pkg_db services_db_create = .ok db) :
    Unrepeated db := by
  obtain ⟨db₀, hsound, rfl, -⟩ := services_db_scan_system_sound hscan
  refine Unrepeated.link (fun q s hs => ?_)
  -- before the links are made the lists are empty
  obtain ⟨hchildren, hparents⟩ := hsound.1.unlinked_eq hs
  rw [hchildren, hparents]
  exact ⟨List.nodup_nil, List.nodup_nil⟩

/-! ## The lists of a scanned database -/

/-- What the source keeps of the relationships between its scripts: two lists for each
of them, which mirror each other, and the scripts that have no parent. -/
structure LinksOf (db : services_db_t) (fs : List rc_d_file) : Prop where
  scripts : db.store.map rc_d_script_t.name = fs.map rc_d_file.name
  mirrored : ∀ (p c : ℕ) sp sc, db.script p = some sp → db.script c = some sc →
    (c ∈ sp.children ↔ p ∈ sc.parents)
      ∧ (p ∈ sc.parents ↔ (∃ n, Mentions fs .require c n ∧ Provides fs p n)
        ∨ ∃ n, Mentions fs .before p n ∧ Provides fs c n)
  valid : ∀ (p : ℕ) s, db.script p = some s →
    ∀ q ∈ s.children ++ s.parents, q < db.store.length
  unrepeated : ∀ (p : ℕ) s, db.script p = some s → s.children.Nodup ∧ s.parents.Nodup
  roots : ∀ p, p ∈ db.roots ↔ ∃ s, db.script p = some s ∧ s.parents = []
  roots_nodup : db.roots.Nodup

theorem Complete.scripts {db : services_db_t} {fs : List rc_d_file} (h : Complete db fs) :
    db.store.map rc_d_script_t.name = fs.map rc_d_file.name := by
  have hnames := congrArg (List.map node_t.name) h.nodes
  rw [List.map_map, List.map_map] at hnames
  exact hnames

theorem Complete.length {db : services_db_t} {fs : List rc_d_file} (h : Complete db fs) :
    db.store.length = fs.length := by
  simpa using congrArg List.length h.nodes

/-- A root is a script without parents, as what is related to it would be a parent. -/
theorem Complete.root_iff {db : services_db_t} {fs : List rc_d_file} (h : Complete db fs) (p : ℕ) :
    p ∈ db.roots ↔ ∃ s, db.script p = some s ∧ s.parents = [] := by
  rw [h.roots]
  constructor
  · rintro ⟨hp, hnone⟩
    rw [← Complete.length h] at hp
    refine ⟨_, List.getElem?_eq_getElem hp, ?_⟩
    rw [List.eq_nil_iff_forall_not_mem]
    intro a ha
    exact hnone a ((h.parents p _ (List.getElem?_eq_getElem hp) a).mp ha)
  · rintro ⟨s, hs, hnil⟩
    have hp := (List.getElem?_eq_some_iff.mp hs).1
    rw [Complete.length h] at hp
    refine ⟨hp, fun a ha => ?_⟩
    have hmem := (h.parents p s hs a).mpr ha
    rw [hnil] at hmem
    exact absurd hmem (by simp)

/-- **The links of a scan**, when the names of the scripts are distinct. -/
theorem services_db_scan_system_links {sys : rc_system} {pkg_db : pkgdb} {db : services_db_t}
    (hscan : services_db_scan_system sys pkg_db services_db_create = .ok db)
    (hnames : ((filesOf sys).map rc_d_file.name).Nodup) : LinksOf db (filesOf sys) := by
  have hdb := services_db_scan_system_complete hscan hnames
  refine ⟨Complete.scripts hdb, fun p c sp sc hp hc => ?_, fun p s hs q hq => ?_,
    services_db_scan_system_unrepeated hscan, Complete.root_iff hdb, hdb.roots_nodup⟩
  · have hchild := hdb.children p sp hp c
    have hparent := hdb.parents c sc hc p
    exact ⟨hchild.trans hparent.symm, hparent⟩
  · rw [Complete.length hdb]
    rcases List.mem_append.mp hq with hq | hq
    · exact (related_bound ((hdb.children p s hs q).mp hq)).2
    · exact (related_bound ((hdb.parents p s hs q).mp hq)).1

/-- `web` requires what `net` provides, twice. -/
def netAndWebTwice : rc_system :=
  systemOf [("net".toList, ["# PROVIDE: NET NET".toList, "# BEFORE: WEB".toList]),
    ("web".toList, ["# PROVIDE: WEB".toList, "# REQUIRE: NET NET".toList])]

/-- Each is in the list of the other once. -/
theorem netAndWebTwice_linked :
    ∃ db, services_db_scan_system netAndWebTwice noPackages services_db_create = .ok db
      ∧ db.store.map rc_d_script_t.links = [([1], []), ([], [0])]
      ∧ LinksOf db (filesOf netAndWebTwice) := by
  have hrun : (services_db_scan_system netAndWebTwice noPackages services_db_create).toOption.map
      (fun db => db.store.map rc_d_script_t.links) = some [([1], []), ([], [0])] := by decide
  obtain ⟨db, hscan, hrun⟩ := Fallible.of_toOption_map hrun
  exact ⟨db, hscan, hrun, services_db_scan_system_links hscan (by decide)⟩

end PkgPlugins.ServicesLinks
