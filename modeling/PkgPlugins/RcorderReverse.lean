/-
`pkg rcorder -r` (`visit_script_bis` and `services_db_rcorder_iter`,
`plugins/services/services_db.c`).

With `reverse` the callback is called on a script before the recursion on its children
instead of after it. So the scripts are passed as the traversal enters them, and not in
the reverse of the order in which it leaves them: the branches below a script are gone
through in the same order both times. The two are the same where there is one branch.
-/
import PkgPlugins.RcorderComplete
import PkgPlugins.DfsPaths

set_option autoImplicit false

namespace PkgPlugins.RcorderReverse

open PkgPlugins.ServicesDb PkgPlugins.Rcorder PkgPlugins.RcorderComplete

/-- The scripts passed with `reverse` are those passed without it, the last first. -/
def Reverses (db : services_db_t) (ro : rcorder_options_t) : Prop :=
  ∃ out rev, services_db_rcorder_iter db (rcorder_options_set_reverse ro false) = some out
    ∧ services_db_rcorder_iter db (rcorder_options_set_reverse ro true) = some rev
    ∧ rev = out.reverse

/-- `x` is on the first path from a root to `y`: the one that takes at every script the
first child from which `y` can still be reached without coming back to the path. -/
def OnFirstPath (db : services_db_t) (x y : ℕ) : Prop :=
  ∃ path, Dfs.FirstPath (children db) [] db.roots y path ∧ x ∈ path

/-- A script that passes the filters and is below a root. -/
def Met (db : services_db_t) (ro : rcorder_options_t) (p : ℕ) : Prop :=
  passes db ro p = true ∧ ∃ r ∈ db.roots, Dfs.Reach (children db) r p

theorem keep_script_loop_set_reverse (ro : rcorder_options_t) (reverse : Bool)
    (keywords : List Text) : ∀ action,
      keep_script_loop (rcorder_options_set_reverse ro reverse) keywords action
        = keep_script_loop ro keywords action := by
  induction keywords with
  | nil => exact fun _ => rfl
  | cons kw keywords ih =>
      intro action
      rw [keep_script_loop, keep_script_loop, ih]
      rfl

/-- The filters do not look at `reverse`. -/
theorem passes_set_reverse (db : services_db_t) (ro : rcorder_options_t) (reverse : Bool) :
    passes db (rcorder_options_set_reverse ro reverse) = passes db ro := by
  funext p
  simp only [passes, keep_script, keep_script_loop_set_reverse]
  rfl

theorem reverses_iff {db : services_db_t} (h : Traversable db) (ro : rcorder_options_t) :
    Reverses db ro ↔ ∀ x y, Met db ro x → Met db ro y →
      OnFirstPath db x y ∨ OnFirstPath db y x := by
  obtain ⟨visited, tr, hrun, hiter⟩ := services_db_rcorder_iter_trace h
  have hspec := Dfs.each_spec Dfs.left rfl Dfs.left_append (Dfs.visit_spec db.store.length)
    db.roots [] visited tr hrun
  have hmet : ∀ p, Met db ro p ↔ p ∈ Dfs.left tr ∧ passes db ro p = true := by
    intro p
    rw [Met, hspec.mem_iff, and_comm]
  have hlists : Reverses db ro
      ↔ (Dfs.entered tr).filter (passes db ro) = ((Dfs.left tr).filter (passes db ro)).reverse := by
    have hout : tr.filterMap (reported db (rcorder_options_set_reverse ro false)) = _ :=
      filterMap_reported rfl tr
    have hrev : tr.filterMap (reported db (rcorder_options_set_reverse ro true)) = _ :=
      filterMap_reported_reverse rfl tr
    rw [passes_set_reverse] at hout hrev
    simp only [Reverses, hiter, Option.some.injEq, hout, hrev]
    constructor
    · rintro ⟨_, _, rfl, rfl, heq⟩
      exact heq
    · exact fun heq => ⟨_, _, rfl, rfl, heq⟩
  rw [hlists, Dfs.entered_eq_reverse_iff hrun]
  simp only [hmet, OnFirstPath, and_imp]
  constructor
  · exact fun hpaths x y hx hpx hy hpy => hpaths x hx y hy hpx hpy
  · exact fun hpaths x hx y hy hpx hpy => hpaths x y hx hpx hy hpy

/-- **When `-r` reverses the order**: if and only if the scripts that are passed are on
one branch, that is, of any two of them one is on the first path to the other. -/
theorem rcorder_reverse_iff {sys : rc_system} {pkg_db : pkgdb} {db : services_db_t}
    (hscan : services_db_scan_system sys pkg_db services_db_create = .ok db)
    (ro : rcorder_options_t) :
    Reverses db ro ↔ ∀ x y, Met db ro x → Met db ro y →
      OnFirstPath db x y ∨ OnFirstPath db y x :=
  reverses_iff (scan_traversable hscan).1 ro

/-- A script below another: `-r` passes them the other way round. -/
theorem netAndWeb_one_branch :
    ∃ db, services_db_scan_system netAndWeb noPackages services_db_create = .ok db
      ∧ Reverses db orphans
      ∧ ∀ x y, Met db orphans x → Met db orphans y → OnFirstPath db x y ∨ OnFirstPath db y x := by
  have hrun : (services_db_scan_system netAndWeb noPackages services_db_create).toOption.map
      (fun db => (services_db_rcorder_iter db (rcorder_options_set_reverse orphans false),
        services_db_rcorder_iter db (rcorder_options_set_reverse orphans true)))
        = some (some [1, 0], some [0, 1]) := by decide
  obtain ⟨db, hscan, hrun⟩ := Fallible.of_toOption_map hrun
  simp only [Prod.mk.injEq] at hrun
  have hreverses : Reverses db orphans := ⟨_, _, hrun.1, hrun.2, rfl⟩
  exact ⟨db, hscan, hreverses, (rcorder_reverse_iff hscan orphans).mp hreverses⟩

/-- `web` and `dns` require what `net` provides. -/
def twoBelowNet : rc_system :=
  systemOf [("net".toList, ["# PROVIDE: NET".toList]), ("web".toList, ["# REQUIRE: NET".toList]),
    ("dns".toList, ["# REQUIRE: NET".toList])]

/-- `web` is passed before `dns`, with `-r` and without. -/
theorem twoBelowNet_not_reversed :
    ¬ ∀ (sys : rc_system) (pkg_db : pkgdb) (db : services_db_t) (ro : rcorder_options_t),
      services_db_scan_system sys pkg_db services_db_create = .ok db → Reverses db ro := by
  intro hall
  have hrun : (services_db_scan_system twoBelowNet noPackages services_db_create).toOption.map
      (fun db => (services_db_rcorder_iter db (rcorder_options_set_reverse orphans false),
        services_db_rcorder_iter db (rcorder_options_set_reverse orphans true)))
        = some (some [1, 2, 0], some [0, 1, 2]) := by decide
  obtain ⟨db, hscan, hrun⟩ := Fallible.of_toOption_map hrun
  simp only [Prod.mk.injEq] at hrun
  obtain ⟨out, rev, hout, hrev, heq⟩ := hall twoBelowNet noPackages db orphans hscan
  rw [hrun.1, Option.some.injEq] at hout
  rw [hrun.2, Option.some.injEq] at hrev
  rw [← hout, ← hrev] at heq
  exact absurd heq (by decide)

end PkgPlugins.RcorderReverse
