/-
Which scripts the traversal of `pkg rcorder` comes to
(`services_db_rcorder_iter`, `plugins/services/services_db.c`).

The traversal starts from the roots, the scripts without parents. Without cycles
every script is below one of them (`Rcorder.rcorder_post_order`). Here nothing is
asked of the scripts: their names may repeat and their relationships may have
cycles, one script long or longer. The traversal still terminates, and what it
comes to is exactly what is below a root.

The roots are looked for among the scripts of the table, and the second script of a
name is in the lists but not in the table. `rcorder_exact_iff` says when that makes no
difference.
-/
import PkgPlugins.ServicesClosed

set_option autoImplicit false

namespace PkgPlugins.RcorderComplete

open PkgPlugins.AssocTable PkgPlugins.ServicesDb PkgPlugins.ServicesClosed PkgPlugins.Rcorder

/-- A table in which each pointer is under the name of its file points to each at
most once. -/
theorem values_nodup {t : Table Text ℕ} {fs : List rc_d_file}
    (h : ∀ k p, t.get k = some p → Named fs k p) : t.values.Nodup := by
  refine List.Nodup.map_on ?_ (List.Nodup.of_map _ t.nodup)
  rintro ⟨k, p⟩ hk ⟨k', p'⟩ hk' heq
  obtain rfl : p = p' := heq
  obtain ⟨f, hf, hname⟩ := h k p ((t.get_eq_some_iff k p).mpr hk)
  obtain ⟨f', hf', hname'⟩ := h k' p ((t.get_eq_some_iff k' p).mpr hk')
  rw [hf, Option.some.injEq] at hf'
  rw [← hname, ← hname', hf']

theorem mem_children {db : services_db_t} {a b : ℕ} :
    b ∈ children db a ↔ ∃ s, db.store[a]? = some s ∧ b ∈ s.children := by
  unfold children services_db_t.script
  cases db.store[a]? <;> simp

theorem isRoot_iff {db : services_db_t} {p : ℕ} :
    isRoot db p = true ↔ ∃ s, db.store[p]? = some s ∧ s.parents = [] := by
  unfold isRoot services_db_t.script
  cases db.store[p]? <;> simp

/-- **Every database that is scanned can be traversed**, and its roots are the
registered scripts without parents. -/
theorem scan_traversable {sys : rc_system} {pkg_db : pkgdb} {db : services_db_t}
    (hscan : services_db_scan_system sys pkg_db services_db_create = .ok db) :
    Traversable db ∧ db.roots = db.scripts.values.filter (isRoot db) := by
  obtain ⟨db₀, hsound, rfl, hholds⟩ := services_db_scan_system_sound hscan
  have hkept := link_scripts_kept hsound
  have hlen : (link_scripts db₀).store.length = (filesOf sys).length :=
    hkept.length.trans hsound.1.length
  -- the roots are read off the linked scripts, which are those of the result
  have hroots : (link_scripts db₀).roots
      = (link_scripts db₀).scripts.values.filter (isRoot (link_scripts db₀)) := by
    have happend : (link_scripts db₀).roots
        = (db₀.scripts.values.foldl manage_relationships db₀).roots
          ++ (link_scripts db₀).scripts.values.filter (isRoot (link_scripts db₀)) := rfl
    rw [happend, hkept.roots, hsound.1.roots, List.nil_append]
  have hbound : ∀ p ∈ (link_scripts db₀).scripts.values, p < (link_scripts db₀).store.length := by
    intro p hp
    obtain ⟨k, hk⟩ := (Table.mem_values_iff _ p).mp hp
    rw [hlen]
    exact (hholds.scripts k p hk).lt
  refine ⟨⟨?_, fun r hr => ?_, fun r hr a hmem => ?_, fun a b hb => ?_⟩, hroots⟩
  · rw [hroots]
    exact (values_nodup hholds.scripts).filter _
  · rw [hroots] at hr
    exact hbound r (List.mem_of_mem_filter hr)
  · -- a root has no parent, and a child has one
    rw [hroots, List.mem_filter, isRoot_iff] at hr
    obtain ⟨-, s, hs, hnil⟩ := hr
    obtain ⟨s₀, hs₀, hchild⟩ := mem_children.mp hmem
    obtain ⟨s', hs', hne⟩ := hkept.parented a s₀ hs₀ r hchild
    have heq : s = s' := Option.some.inj (hs.symm.trans hs')
    exact hne (heq ▸ hnil)
  · obtain ⟨s, hs, hchild⟩ := mem_children.mp hb
    rw [hlen]
    exact hholds.links a s hs b (List.mem_append_left _ hchild)

/-- The callback sees a script just if the script passes and the traversal comes to
it, before or after its children. -/
theorem mem_reported {db : services_db_t} {ro : rcorder_options_t} {tr : List (Dfs.Event ℕ)}
    (h : Dfs.Balanced tr) (p : ℕ) :
    p ∈ tr.filterMap (reported db ro) ↔ passes db ro p = true ∧ p ∈ Dfs.left tr := by
  rw [List.mem_filterMap, Dfs.mem_left]
  constructor
  · rintro ⟨e, he, hp⟩
    cases e with
    | enter a =>
        simp only [reported, Option.ite_none_right_eq_some, Bool.and_eq_true,
          Option.some.injEq] at hp
        obtain ⟨⟨hpass, -⟩, rfl⟩ := hp
        exact ⟨hpass, (h a).mp he⟩
    | leave a =>
        simp only [reported, Option.ite_none_right_eq_some, Bool.and_eq_true,
          Option.some.injEq] at hp
        obtain ⟨⟨hpass, -⟩, rfl⟩ := hp
        exact ⟨hpass, he⟩
  · rintro ⟨hpass, hleave⟩
    by_cases hreverse : ro.reverse = true
    · exact ⟨.enter p, (h p).mpr hleave, by simp [reported, hpass, hreverse]⟩
    · exact ⟨.leave p, hleave, by simp [reported, hpass, hreverse]⟩

/-- **What the callback sees**, of any database that is scanned: the scripts that
pass the filters and are below a registered script without parents. -/
theorem services_db_rcorder_iter_mem {sys : rc_system} {pkg_db : pkgdb} {db : services_db_t}
    (hscan : services_db_scan_system sys pkg_db services_db_create = .ok db)
    (ro : rcorder_options_t) :
    ∃ out, services_db_rcorder_iter db ro = some out
      ∧ ∀ p, p ∈ out ↔ passes db ro p = true
        ∧ ∃ r ∈ db.scripts.values, isRoot db r = true ∧ Dfs.Reach (children db) r p := by
  obtain ⟨htraversable, hroots⟩ := scan_traversable hscan
  obtain ⟨visited, tr, hspec, hbalanced, hrun⟩ :=
    services_db_rcorder_iter_traverses htraversable ro
  refine ⟨_, hrun, fun p => ?_⟩
  rw [mem_reported hbalanced, hspec.mem_iff, hroots]
  simp only [List.mem_filter, and_assoc]

/-- The callback sees no script twice: a traversal enters a node as often as it leaves
it, and it leaves none twice. -/
theorem services_db_rcorder_iter_nodup {db : services_db_t} (h : Traversable db)
    {ro : rcorder_options_t} {out : List ℕ} (hrun : services_db_rcorder_iter db ro = some out) :
    out.Nodup := by
  obtain ⟨visited, tr, hvisits, hiter⟩ := services_db_rcorder_iter_trace h
  have hspec := Dfs.each_spec Dfs.left rfl Dfs.left_append (Dfs.visit_spec db.store.length)
    db.roots [] visited tr hvisits
  have hperm := Dfs.each_entered_perm (Dfs.visit_entered_perm db.store.length) db.roots []
    visited tr hvisits
  rw [hiter ro, Option.some.injEq] at hrun
  rw [← hrun]
  by_cases hreverse : ro.reverse = true
  · rw [filterMap_reported_reverse hreverse]
    exact (hperm.nodup_iff.mpr hspec.nodup).filter _
  · rw [filterMap_reported (by simpa using hreverse)]
    exact hspec.nodup.filter _

/-- The traversal, of any database that is scanned, with cycles or without, and for any
options: it terminates, and passes each of the scripts that are below a registered script
without parents and that pass the filters exactly once, and no other. -/
theorem services_db_rcorder_iter_registered {sys : rc_system} {pkg_db : pkgdb}
    {db : services_db_t}
    (hscan : services_db_scan_system sys pkg_db services_db_create = .ok db)
    (ro : rcorder_options_t) :
    ∃ out, services_db_rcorder_iter db ro = some out ∧ out.Nodup
      ∧ ∀ p, p ∈ out ↔ passes db ro p = true
        ∧ ∃ r ∈ db.scripts.values, isRoot db r = true ∧ Dfs.Reach (children db) r p := by
  obtain ⟨out, hrun, hmem⟩ := services_db_rcorder_iter_mem hscan ro
  have hnodup := services_db_rcorder_iter_nodup (scan_traversable hscan).1 hrun
  exact ⟨out, hrun, hnodup, hmem⟩

/-- The traversal terminates, and passes each of the scripts that are below a script
without parents, registered or not, and that pass the filters exactly once, and no
other. -/
def Exact (db : services_db_t) (ro : rcorder_options_t) : Prop :=
  ∃ out, services_db_rcorder_iter db ro = some out ∧ out.Nodup
    ∧ ∀ p, p ∈ out ↔ passes db ro p = true
      ∧ ∃ r, isRoot db r = true ∧ Dfs.Reach (children db) r p

/-- **The traversal is exact** if and only if every script that passes the filters and is
below a script without parents is below a registered script without parents. -/
theorem rcorder_exact_iff {sys : rc_system} {pkg_db : pkgdb} {db : services_db_t}
    (hscan : services_db_scan_system sys pkg_db services_db_create = .ok db)
    (ro : rcorder_options_t) :
    Exact db ro
      ↔ ∀ p r, passes db ro p = true → isRoot db r = true → Dfs.Reach (children db) r p →
        ∃ r' ∈ db.scripts.values, isRoot db r' = true ∧ Dfs.Reach (children db) r' p := by
  obtain ⟨out, hrun, hnodup, hmem⟩ := services_db_rcorder_iter_registered hscan ro
  constructor
  · rintro ⟨out', hrun', -, hmem'⟩ p r hpass hroot hreach
    rw [hrun, Option.some.injEq] at hrun'
    subst hrun'
    have hp : p ∈ out := (hmem' p).mpr ⟨hpass, r, hroot, hreach⟩
    exact ((hmem p).mp hp).2
  · intro hregistered
    refine ⟨out, hrun, hnodup, fun p => (hmem p).trans ⟨?_, ?_⟩⟩
    · rintro ⟨hpass, r, -, hroot, hreach⟩
      exact ⟨hpass, r, hroot, hreach⟩
    · rintro ⟨hpass, r, hroot, hreach⟩
      exact ⟨hpass, hregistered p r hpass hroot hreach⟩

/-- A script `net` above `web` and `api`, which require each other. -/
def cycleBelow : rc_system :=
  systemOf [("net".toList, ["# PROVIDE: NET".toList]),
    ("web".toList, ["# PROVIDE: WEB".toList, "# REQUIRE: NET API".toList]),
    ("api".toList, ["# PROVIDE: API".toList, "# REQUIRE: WEB".toList])]

/-- The three are passed once each, the cycle notwithstanding. -/
theorem cycleBelow_passed :
    ∃ db, services_db_scan_system cycleBelow noPackages services_db_create = .ok db
      ∧ services_db_rcorder_iter db orphans = some [2, 1, 0] ∧ Exact db orphans := by
  have hrun : (services_db_scan_system cycleBelow noPackages services_db_create).toOption.map
      (fun db => (db.store.length, db.scripts.values, services_db_rcorder_iter db orphans))
        = some (3, [0, 1, 2], some [2, 1, 0]) := by decide
  obtain ⟨db, hscan, hrun⟩ := Fallible.of_toOption_map hrun
  simp only [Prod.mk.injEq] at hrun
  obtain ⟨hlength, hvalues, hout⟩ := hrun
  refine ⟨db, hscan, hout, (rcorder_exact_iff hscan orphans).mpr ?_⟩
  -- all three are registered
  intro p r _ hroot hreach
  obtain ⟨script, hscript, -⟩ := isRoot_iff.mp hroot
  have hr : r < 3 := hlength ▸ (List.getElem?_eq_some_iff.mp hscript).1
  refine ⟨r, ?_, hroot, hreach⟩
  rw [hvalues]
  exact List.mem_range.mpr hr

/-- The second `web` has no parent and passes the filter, but is no root. -/
theorem webTwice_unvisited :
    ∃ db, services_db_scan_system webTwice noPackages services_db_create = .ok db
      ∧ db.scripts.values = [0] ∧ isRoot db 1 = true ∧ passes db orphans 1 = true
      ∧ services_db_rcorder_iter db orphans = some [0] ∧ ¬ Exact db orphans := by
  have hrun : (services_db_scan_system webTwice noPackages services_db_create).toOption.map
      (fun db => (db.scripts.values, isRoot db 1, passes db orphans 1,
        services_db_rcorder_iter db orphans)) = some ([0], true, true, some [0]) := by decide
  obtain ⟨db, hscan, hrun⟩ := Fallible.of_toOption_map hrun
  simp only [Prod.mk.injEq] at hrun
  obtain ⟨hvalues, hroot, hpass, hout⟩ := hrun
  refine ⟨db, hscan, hvalues, hroot, hpass, hout, ?_⟩
  rintro ⟨out, hrun', -, hmem⟩
  rw [hout, Option.some.injEq] at hrun'
  have hweb : 1 ∈ out := (hmem 1).mpr ⟨hpass, 1, hroot, Relation.ReflTransGen.refl⟩
  rw [← hrun'] at hweb
  exact absurd hweb (by decide)

/-- **No script is lost** if and only if every registered script that passes the
filters is below a registered script without parents. -/
theorem rcorder_lossless_iff {sys : rc_system} {pkg_db : pkgdb} {db : services_db_t}
    (hscan : services_db_scan_system sys pkg_db services_db_create = .ok db)
    (ro : rcorder_options_t) :
    (∃ out, services_db_rcorder_iter db ro = some out
        ∧ ∀ p ∈ db.scripts.values, passes db ro p = true → p ∈ out)
      ↔ ∀ p ∈ db.scripts.values, passes db ro p = true →
        ∃ r ∈ db.scripts.values, isRoot db r = true ∧ Dfs.Reach (children db) r p := by
  obtain ⟨out, hrun, hmem⟩ := services_db_rcorder_iter_mem hscan ro
  constructor
  · rintro ⟨out', hrun', hall⟩ p hp hpass
    rw [hrun, Option.some.injEq] at hrun'
    subst hrun'
    exact ((hmem p).mp (hall p hp hpass)).2
  · intro hreach
    refine ⟨out, hrun, fun p hp hpass => ?_⟩
    exact (hmem p).mpr ⟨hpass, hreach p hp hpass⟩

/-- The two on the cycle are below `net`, and none of the three is lost. -/
theorem cycleBelow_lossless :
    ∃ db, services_db_scan_system cycleBelow noPackages services_db_create = .ok db
      ∧ db.scripts.values = [0, 1, 2]
      ∧ ∃ out, services_db_rcorder_iter db orphans = some out
        ∧ ∀ p ∈ db.scripts.values, passes db orphans p = true → p ∈ out := by
  have hrun : (services_db_scan_system cycleBelow noPackages services_db_create).toOption.map
      (fun db => (db.scripts.values, isRoot db 0, children db 0, children db 1))
        = some ([0, 1, 2], true, [1], [2]) := by decide
  obtain ⟨db, hscan, hrun⟩ := Fallible.of_toOption_map hrun
  simp only [Prod.mk.injEq] at hrun
  obtain ⟨hvalues, hroot, hnet, hweb⟩ := hrun
  have hreach₁ : Dfs.Reach (children db) 0 1 :=
    Relation.ReflTransGen.single (show 1 ∈ children db 0 by rw [hnet]; simp)
  have hreach₂ : Dfs.Reach (children db) 0 2 :=
    hreach₁.tail (show 2 ∈ children db 1 by rw [hweb]; simp)
  refine ⟨db, hscan, hvalues, (rcorder_lossless_iff hscan orphans).mpr (fun p hp _ => ?_)⟩
  rw [hvalues] at hp ⊢
  refine ⟨0, by simp, hroot, ?_⟩
  simp only [List.mem_cons, List.not_mem_nil, or_false] at hp
  obtain rfl | rfl | rfl := hp
  · exact Relation.ReflTransGen.refl
  · exact hreach₁
  · exact hreach₂

/-- A script `web` that requires the name it provides, and `api` that requires it
too. -/
def selfRequired : rc_system :=
  systemOf [("web".toList, ["# PROVIDE: WEB".toList, "# REQUIRE: WEB".toList]),
    ("api".toList, ["# REQUIRE: WEB".toList])]

/-- Neither has no parent, so there is no root and both are lost. -/
theorem selfRequired_lost :
    ∃ db, services_db_scan_system selfRequired noPackages services_db_create = .ok db
      ∧ db.scripts.values = [0, 1] ∧ passes db orphans 0 = true ∧ passes db orphans 1 = true
      ∧ services_db_rcorder_iter db orphans = some [] := by
  have hrun : (services_db_scan_system selfRequired noPackages services_db_create).toOption.map
      (fun db => (db.scripts.values, passes db orphans 0, passes db orphans 1,
        services_db_rcorder_iter db orphans)) = some ([0, 1], true, true, some []) := by decide
  obtain ⟨db, hscan, hrun⟩ := Fallible.of_toOption_map hrun
  simp only [Prod.mk.injEq] at hrun
  obtain ⟨hvalues, hweb, hapi, hout⟩ := hrun
  exact ⟨db, hscan, hvalues, hweb, hapi, hout⟩

end PkgPlugins.RcorderComplete
