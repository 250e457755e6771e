/-
`pkg rcorder`: the options (`plugins/services/rcorder.c`) and the traversal that
hands the scripts to the callback (`visit_script_bis` and
`services_db_rcorder_iter`, `plugins/services/services_db.c`).

The traversal goes from the scripts without parents to their children, and calls
the callback on a script after its children; with `reverse`, before them. The
children of a script are those that require it. So a script is passed after the
scripts that require it: the post-order of this graph is the order of a
shutdown, and `rcorder_order_iff` says that the order of `rcorder(8)` comes out
only where there is nothing to order.
-/
import PkgPlugins.Fallible
import PkgPlugins.ServicesDb
import PkgPlugins.Dfs

set_option autoImplicit false

namespace PkgPlugins.Rcorder

open PkgPlugins.AssocTable PkgPlugins.ServicesDb

/-! ## Options -/

inductive rcorder_action_t
  | RCORDER_ACTION_NONE
  | RCORDER_ACTION_KEEP
  | RCORDER_ACTION_SKIP
deriving DecidableEq, Repr

structure rcorder_options_t where
  reverse : Bool
  ks : Table Text rcorder_action_t
  keep_count : UInt64
  include_orphans : Bool

def rcorder_options_create : rcorder_options_t := ⟨false, Table.empty, 0, false⟩

def rcorder_options_set_reverse (ro : rcorder_options_t) (reverse : Bool) : rcorder_options_t :=
  { ro with reverse := reverse }

def rcorder_options_set_include_orphans (ro : rcorder_options_t) (include_orphans : Bool) :
    rcorder_options_t :=
  { ro with include_orphans := include_orphans }

/-- `rcorder_options_add_ks`: the options and the old action. -/
def rcorder_options_add_ks (ro : rcorder_options_t) (name : Text) (action : rcorder_action_t) :
    rcorder_options_t × rcorder_action_t :=
  let old_action := (ro.ks.get name).getD .RCORDER_ACTION_NONE
  let ro := { ro with ks := ro.ks.put name action }
  if action = .RCORDER_ACTION_KEEP ∧ old_action ≠ .RCORDER_ACTION_KEEP then
    ({ ro with keep_count := ro.keep_count + 1 }, old_action)
  else if action = .RCORDER_ACTION_SKIP ∧ old_action = .RCORDER_ACTION_KEEP then
    ({ ro with keep_count := ro.keep_count - 1 }, old_action)
  else (ro, old_action)

/-- The loop of `keep_script` over the keywords of a script. -/
def keep_script_loop (ro : rcorder_options_t) : List Text → rcorder_action_t → rcorder_action_t
  | [], action => action
  | kw :: keywords, action =>
      if action = .RCORDER_ACTION_SKIP then action
      else keep_script_loop ro keywords ((ro.ks.get kw).getD action)

def keep_script (script : rc_d_script_t) (ro : rcorder_options_t) : Bool :=
  let action := keep_script_loop ro script.keywords .RCORDER_ACTION_NONE
  action == .RCORDER_ACTION_KEEP || (action == .RCORDER_ACTION_NONE && ro.keep_count == 0)

/-! ## The traversal -/

/-- `script->children`. -/
def children (db : services_db_t) (p : ℕ) : List ℕ :=
  match db.script p with
  | none => []
  | some script => script.children

/-- `keep` of `visit_script_bis`: the orphan filter and the keyword filter. -/
def passes (db : services_db_t) (ro : rcorder_options_t) (p : ℕ) : Bool :=
  match db.script p with
  | none => false
  | some script => (ro.include_orphans || script.package.isSome) && keep_script script ro

/-- `visit_script_bis`: the keys of `visited` and the scripts passed to the
callback, in order. -/
def visit_script_bis (db : services_db_t) (ro : rcorder_options_t) :
    ℕ → List ℕ → ℕ → Option (List ℕ × List ℕ)
  | 0, _, _ => none
  | fuel + 1, visited, script => do
      let keep := passes db ro script
      let (visited, passed) ←
        Dfs.each (visit_script_bis db ro fuel) (script :: visited) (children db script)
      return (visited, (if keep && ro.reverse then [script] else []) ++ passed
        ++ (if keep && !ro.reverse then [script] else []))

/-- The loop of `services_db_rcorder_iter` over the roots. -/
def rcorder_iter_loop (db : services_db_t) (ro : rcorder_options_t) (fuel : ℕ) :
    List ℕ → List ℕ → Option (List ℕ)
  | _, [] => some []
  | visited, script :: roots => do
      let (visited, passed) ← visit_script_bis db ro fuel visited script
      let rest ← rcorder_iter_loop db ro fuel visited roots
      return passed ++ rest

/-- `services_db_rcorder_iter`: the scripts passed to the callback, in order. No
recursion is deeper than the number of scripts. -/
def services_db_rcorder_iter (db : services_db_t) (ro : rcorder_options_t) : Option (List ℕ) :=
  rcorder_iter_loop db ro db.store.length [] db.roots

/-! ## The traversal as a depth-first search -/

/-- What the callback sees of a traversal. -/
def reported (db : services_db_t) (ro : rcorder_options_t) : Dfs.Event ℕ → Option ℕ
  | .enter a => if passes db ro a && ro.reverse then some a else none
  | .leave a => if passes db ro a && !ro.reverse then some a else none

/-- Without `reverse` the callback sees the scripts as they are left. -/
theorem filterMap_reported {db : services_db_t} {ro : rcorder_options_t}
    (hreverse : ro.reverse = false) (tr : List (Dfs.Event ℕ)) :
    tr.filterMap (reported db ro) = (Dfs.left tr).filter (passes db ro) := by
  induction tr with
  | nil => simp [Dfs.left]
  | cons e tr ih =>
      cases e with
      | enter a =>
          have hnone : reported db ro (.enter a) = none := by simp [reported, hreverse]
          rw [List.filterMap_cons_none hnone, ih, Dfs.left]
      | leave a =>
          cases hp : passes db ro a with
          | true =>
              have hsome : reported db ro (.leave a) = some a := by simp [reported, hreverse, hp]
              rw [List.filterMap_cons_some hsome, ih, Dfs.left, List.filter_cons_of_pos hp]
          | false =>
              have hnone : reported db ro (.leave a) = none := by simp [reported, hp]
              rw [List.filterMap_cons_none hnone, ih, Dfs.left,
                List.filter_cons_of_neg (by simp [hp])]

/-- With `reverse` the callback sees the scripts as they are entered. -/
theorem filterMap_reported_reverse {db : services_db_t} {ro : rcorder_options_t}
    (hreverse : ro.reverse = true) (tr : List (Dfs.Event ℕ)) :
    tr.filterMap (reported db ro) = (Dfs.entered tr).filter (passes db ro) := by
  induction tr with
  | nil => simp [Dfs.entered]
  | cons e tr ih =>
      cases e with
      | leave a =>
          have hnone : reported db ro (.leave a) = none := by simp [reported, hreverse]
          rw [List.filterMap_cons_none hnone, ih, Dfs.entered]
      | enter a =>
          cases hp : passes db ro a with
          | true =>
              have hsome : reported db ro (.enter a) = some a := by simp [reported, hreverse, hp]
              rw [List.filterMap_cons_some hsome, ih, Dfs.entered, List.filter_cons_of_pos hp]
          | false =>
              have hnone : reported db ro (.enter a) = none := by simp [reported, hp]
              rw [List.filterMap_cons_none hnone, ih, Dfs.entered,
                List.filter_cons_of_neg (by simp [hp])]

/-- `visit_script_bis` is a visit of which the callback sees a part. -/
theorem visit_script_bis_eq (db : services_db_t) (ro : rcorder_options_t) (fuel : ℕ) :
    ∀ visited script, visit_script_bis db ro fuel visited script
      = (Dfs.visit (children db) fuel visited script).map
          (fun r => (r.1, r.2.filterMap (reported db ro))) := by
  induction fuel with
  | zero => intro visited script; simp [visit_script_bis, Dfs.visit]
  | succ fuel ih =>
      intro visited script
      rw [visit_script_bis, Dfs.visit,
        Dfs.each_map (List.filterMap (reported db ro)) rfl (fun _ _ => List.filterMap_append) ih]
      cases Dfs.each (Dfs.visit (children db) fuel) (script :: visited) (children db script) with
      | none => simp
      | some r =>
          cases hp : passes db ro script <;> cases hr : ro.reverse <;>
            simp [reported, hp, hr, List.filterMap_append]

/-- No root is met before its turn, so the loop over the roots is a traversal
from them. -/
theorem rcorder_iter_loop_eq (db : services_db_t) (ro : rcorder_options_t) (fuel : ℕ)
    (roots : List ℕ) : ∀ visited, roots.Nodup → (∀ r ∈ roots, ∀ a, r ∉ children db a) →
      (∀ r ∈ roots, r ∉ visited) →
      rcorder_iter_loop db ro fuel visited roots
        = (Dfs.each (Dfs.visit (children db) fuel) visited roots).map
            (fun r => r.2.filterMap (reported db ro)) := by
  induction roots with
  | nil => intro visited _ _ _; simp [rcorder_iter_loop, Dfs.each]
  | cons r roots ih =>
      intro visited hnodup hroots hfresh
      rw [List.nodup_cons] at hnodup
      rw [rcorder_iter_loop, Dfs.each, if_neg (hfresh r List.mem_cons_self), visit_script_bis_eq]
      cases hrun : Dfs.visit (children db) fuel visited r with
      | none => simp
      | some res =>
          obtain ⟨visited₁, tr⟩ := res
          have hspec := Dfs.visit_spec fuel visited r visited₁ tr
            (hfresh r List.mem_cons_self) hrun
          -- a root is not reached from another, as nothing has it for a child
          have hfresh₁ : ∀ r' ∈ roots, r' ∉ visited₁ := by
            intro r' hr' hv
            rcases (hspec.visited r').mp hv with hv | hpost
            · exact hfresh r' (List.mem_cons_of_mem r hr') hv
            · obtain ⟨s, hs, hreach⟩ := hspec.reach r' hpost
              rw [List.mem_singleton.mp hs] at hreach
              rcases Relation.ReflTransGen.cases_tail hreach with heq | ⟨a, -, hedge⟩
              · exact hnodup.1 (heq ▸ hr')
              · exact hroots r' (List.mem_cons_of_mem r hr') a hedge
          have hrest := ih visited₁ hnodup.2
            (fun r' hr' => hroots r' (List.mem_cons_of_mem r hr')) hfresh₁
          simp only [Option.map_some, Option.bind_eq_bind, Option.bind_some, hrest]
          cases Dfs.each (Dfs.visit (children db) fuel) visited₁ roots <;>
            simp [List.filterMap_append]

/-- A database whose pointers are those of scripts, and whose roots are nobody's
children. -/
structure Traversable (db : services_db_t) : Prop where
  roots_nodup : db.roots.Nodup
  roots_bound : ∀ r ∈ db.roots, r < db.store.length
  roots_top : ∀ r ∈ db.roots, ∀ a, r ∉ children db a
  children_bound : ∀ a, ∀ b ∈ children db a, b < db.store.length

/-- **The traversal terminates**: it is a depth-first search from the roots, the same
for all options, of which the callback sees a part. -/
theorem services_db_rcorder_iter_trace {db : services_db_t} (h : Traversable db) :
    ∃ visited tr,
      Dfs.each (Dfs.visit (children db) db.store.length) [] db.roots = some (visited, tr)
      ∧ ∀ ro, services_db_rcorder_iter db ro = some (tr.filterMap (reported db ro)) := by
  have hclosed : ∀ a ∈ List.range db.store.length, ∀ b ∈ children db a,
      b ∈ List.range db.store.length :=
    fun a _ b hb => List.mem_range.mpr (h.children_bound a b hb)
  -- the store has room for as many nested calls as there are scripts
  have hunvisited : (Dfs.unvisited (List.range db.store.length) []).length ≤ db.store.length := by
    refine (List.length_filter_le _ _).trans ?_
    simp
  obtain ⟨visited, tr, hrun, -⟩ := Dfs.each_total (Dfs.visit_total hclosed db.store.length)
    db.roots [] (fun r hr => List.mem_range.mpr (h.roots_bound r hr)) hunvisited
  refine ⟨visited, tr, hrun, fun ro => ?_⟩
  rw [services_db_rcorder_iter, rcorder_iter_loop_eq db ro _ db.roots [] h.roots_nodup h.roots_top
    (by simp), hrun]
  rfl

/-- The traversal is a full one, and it leaves what it enters. -/
theorem services_db_rcorder_iter_traverses {db : services_db_t} (h : Traversable db)
    (ro : rcorder_options_t) :
    ∃ visited tr, Dfs.Spec (children db) [] db.roots visited (Dfs.left tr) ∧ Dfs.Balanced tr
      ∧ services_db_rcorder_iter db ro = some (tr.filterMap (reported db ro)) := by
  obtain ⟨visited, tr, hrun, hiter⟩ := services_db_rcorder_iter_trace h
  exact ⟨visited, tr, Dfs.each_spec Dfs.left rfl Dfs.left_append
    (Dfs.visit_spec db.store.length) db.roots [] visited tr hrun,
    Dfs.each_balanced (Dfs.visit_balanced db.store.length) db.roots [] visited tr hrun, hiter ro⟩

/-! ## The order -/

section Order

variable {db : services_db_t} {ro : rcorder_options_t} {fs : List rc_d_file}

theorem mem_children_iff (h : Complete db fs) (a b : ℕ) :
    b ∈ children db a ↔ Related fs a b := by
  unfold children services_db_t.script
  cases hs : db.store[a]? with
  | some s => exact h.children a s hs b
  | none =>
      have hlen : fs.length ≤ a := by
        have := List.getElem?_eq_none_iff.mp hs
        have hmap := congrArg List.length h.nodes
        simp only [List.length_map] at hmap
        omega
      have hnot : ¬ Related fs a b := by
        rintro (⟨n, -, ha⟩ | ⟨n, ha, -⟩)
        · have := Linked.provides_bound ha
          omega
        · have := mentions_bound ha
          omega
      simp [hnot]

theorem related_bound {a b : ℕ} (h : Related fs a b) : a < fs.length ∧ b < fs.length := by
  rcases h with ⟨n, hb, ha⟩ | ⟨n, ha, hb⟩
  · exact ⟨Linked.provides_bound ha, mentions_bound hb⟩
  · exact ⟨mentions_bound ha, Linked.provides_bound hb⟩

theorem passes_bound (h : Complete db fs) {p : ℕ} (hp : passes db ro p = true) :
    p < fs.length := by
  unfold passes services_db_t.script at hp
  cases hs : db.store[p]? with
  | none => rw [hs] at hp; exact absurd hp (by simp)
  | some s =>
      have hlen := (List.getElem?_eq_some_iff.mp hs).1
      have hmap := congrArg List.length h.nodes
      simp only [List.length_map] at hmap
      omega

theorem services_db_rcorder_iter_spec (h : Complete db fs) (ro : rcorder_options_t) :
    ∃ visited tr, Dfs.Spec (children db) [] db.roots visited (Dfs.left tr)
      ∧ services_db_rcorder_iter db ro = some (tr.filterMap (reported db ro)) := by
  have hlen : db.store.length = fs.length := by
    simpa using congrArg List.length h.nodes
  have htraversable : Traversable db := by
    refine ⟨h.roots_nodup, fun r hr => ?_, fun r hr a hmem => ?_, fun a b hb => ?_⟩
    · rw [hlen]
      exact ((h.roots r).mp hr).1
    · exact ((h.roots r).mp hr).2 a ((mem_children_iff h a r).mp hmem)
    · rw [hlen]
      exact (related_bound ((mem_children_iff h a b).mp hb)).2
  obtain ⟨visited, tr, hspec, -, hrun⟩ := services_db_rcorder_iter_traverses htraversable ro
  exact ⟨visited, tr, hspec, hrun⟩

theorem reach_iff (h : Complete db fs) (a b : ℕ) :
    Dfs.Reach (children db) a b ↔ Relation.ReflTransGen (Related fs) a b := by
  have hedge : Dfs.Edge (children db) = Related fs :=
    funext (fun a => funext (fun b => propext (mem_children_iff h a b)))
  rw [Dfs.Reach, hedge]

theorem acyclic_of_related (h : Complete db fs)
    (hacyclic : ∀ p, ¬ Relation.TransGen (Related fs) p p) : Dfs.Acyclic (children db) := by
  intro a b hab hba
  rw [reach_iff h] at hba
  exact hacyclic a (Relation.TransGen.head' ((mem_children_iff h a b).mp hab) hba)

/-- Without cycles every script that passes the filters is passed, each after
its children that are. -/
theorem rcorder_post_order (h : Complete db fs)
    (hacyclic : ∀ p, ¬ Relation.TransGen (Related fs) p p) (hreverse : ro.reverse = false) :
    ∃ out, services_db_rcorder_iter db ro = some out ∧ out.Nodup
      ∧ (∀ p, p ∈ out ↔ passes db ro p = true)
      ∧ ∀ a ∈ out, ∀ b ∈ out, Related fs a b → Dfs.Before out b a := by
  obtain ⟨visited, tr, hspec, hrun⟩ := services_db_rcorder_iter_spec h ro
  have hacyc := acyclic_of_related h hacyclic
  rw [filterMap_reported hreverse] at hrun
  -- every script is below a root, so the traversal comes to it
  have hall : ∀ p, p < fs.length → p ∈ Dfs.left tr := by
    intro p hp
    obtain ⟨r, hr, hnone, hreach⟩ := Dfs.exists_root hacyc p (List.mem_range.mpr hp)
    refine hspec.complete ((h.roots r).mpr ⟨List.mem_range.mp hr, fun a ha => ?_⟩) hreach
    exact hnone a (List.mem_range.mpr (related_bound ha).1) ((mem_children_iff h a r).mpr ha)
  refine ⟨_, hrun, hspec.nodup.filter _, fun p => ?_, fun a ha b hb hrel => ?_⟩
  · rw [List.mem_filter]
    exact ⟨And.right, fun hp => ⟨hall p (passes_bound h hp), hp⟩⟩
  · obtain ⟨ha, hpa⟩ := List.mem_filter.mp ha
    obtain ⟨-, hpb⟩ := List.mem_filter.mp hb
    exact (hspec.before hacyc ha ((mem_children_iff h a b).mpr hrel)).filter hpb hpa

end Order

/-- **The order of the scripts.** For scripts with distinct names and without a
cycle, a traversal that is not reversed passes every related pair in dependency
order if and only if no two of the scripts that pass the filters are related. -/
theorem rcorder_order_iff (sys : rc_system) (pkg_db : pkgdb) (db : services_db_t)
    (ro : rcorder_options_t)
    (hscan : services_db_scan_system sys pkg_db services_db_create = .ok db)
    (hnames : ((filesOf sys).map rc_d_file.name).Nodup)
    (hacyclic : ∀ p, ¬ Relation.TransGen (Related (filesOf sys)) p p)
    (hreverse : ro.reverse = false) :
    (∃ out, services_db_rcorder_iter db ro = some out
        ∧ ∀ a ∈ out, ∀ b ∈ out, Related (filesOf sys) a b → Dfs.Before out a b)
      ↔ ∀ a b, passes db ro a = true → passes db ro b = true → ¬ Related (filesOf sys) a b := by
  have hdb := services_db_scan_system_complete hscan hnames
  obtain ⟨out, hrun, hnodup, hmem, hpost⟩ := rcorder_post_order hdb hacyclic hreverse
  constructor
  · rintro ⟨out', hrun', horder⟩ a b ha hb hrel
    rw [hrun, Option.some.injEq] at hrun'
    subst hrun'
    -- a pair in order would be in both orders
    have ha' := (hmem a).mpr ha
    have hb' := (hmem b).mpr hb
    exact (hpost a ha' b hb' hrel).asymm hnodup (horder a ha' b hb' hrel)
  · intro hnone
    refine ⟨out, hrun, ?_⟩
    intro a ha b hb hrel
    exact absurd hrel (hnone a b ((hmem a).mp ha) ((hmem b).mp hb))

/-- A system whose `/etc/rc.d` holds the given scripts, no package owning any. -/
def systemOf (scripts : List (Text × List Text)) : rc_system :=
  ⟨fun directory => if directory = "/etc/rc.d".toList
      then some (scripts.map (fun s => ⟨s.1, .regular s.2⟩)) else some [],
    "/usr/local".toList⟩

/-- A package database in which nothing belongs to a package. -/
def noPackages : pkgdb := ⟨fun _ => some none, fun _ => []⟩

/-- `-o`: scripts without a package are passed too. -/
def orphans : rcorder_options_t := rcorder_options_set_include_orphans rcorder_options_create true

/-- A script `web` that requires `NET`, next to `net`. -/
def netAndWeb : rc_system :=
  systemOf [("net".toList, ["# PROVIDE: NET".toList]), ("web".toList, ["# REQUIRE: NET".toList])]

theorem filesOf_netAndWeb : filesOf netAndWeb
    = [⟨"net".toList, [(.provide, "NET".toList)]⟩, ⟨"web".toList, [(.require, "NET".toList)]⟩] := by
  decide

theorem related_netAndWeb (a b : ℕ) : Related (filesOf netAndWeb) a b ↔ a = 0 ∧ b = 1 := by
  rw [filesOf_netAndWeb]
  unfold Related Mentions Provides
  rcases a with _ | _ | a <;> rcases b with _ | _ | b <;> simp [rc_d_file.listed]

/-- `web` and `mail` require what `net` provides, and `net` is not for jails. -/
def netNotInJail : rc_system :=
  systemOf [("net".toList, ["# PROVIDE: NET".toList, "# KEYWORD: nojail".toList]),
    ("web".toList, ["# REQUIRE: NET".toList]), ("mail".toList, ["# REQUIRE: NET".toList])]

/-- `-o -s nojail`. -/
def inJail : rcorder_options_t :=
  (rcorder_options_add_ks orphans "nojail".toList .RCORDER_ACTION_SKIP).1

theorem filesOf_netNotInJail : filesOf netNotInJail
    = [⟨"net".toList, [(.provide, "NET".toList), (.keyword, "nojail".toList)]⟩,
      ⟨"web".toList, [(.require, "NET".toList)]⟩, ⟨"mail".toList, [(.require, "NET".toList)]⟩] := by
  decide

theorem related_netNotInJail (a b : ℕ) :
    Related (filesOf netNotInJail) a b ↔ a = 0 ∧ (b = 1 ∨ b = 2) := by
  rw [filesOf_netNotInJail]
  unfold Related Mentions Provides
  rcases a with _ | _ | _ | a <;> rcases b with _ | _ | _ | b <;> simp [rc_d_file.listed]

/-- Without `net`, the two that are left are in order: they are not related. -/
theorem netNotInJail_ordered :
    ∃ db, services_db_scan_system netNotInJail noPackages services_db_create = .ok db
      ∧ services_db_rcorder_iter db inJail = some [1, 2]
      ∧ ∃ out, services_db_rcorder_iter db inJail = some out
        ∧ ∀ a ∈ out, ∀ b ∈ out, Related (filesOf netNotInJail) a b → Dfs.Before out a b := by
  have hrun : (services_db_scan_system netNotInJail noPackages services_db_create).toOption.map
      (fun db => (passes db inJail 0, services_db_rcorder_iter db inJail))
        = some (false, some [1, 2]) := by decide
  obtain ⟨db, hscan, hrun⟩ := Fallible.of_toOption_map hrun
  simp only [Prod.mk.injEq] at hrun
  obtain ⟨hskipped, hout⟩ := hrun
  refine ⟨db, hscan, hout,
    (rcorder_order_iff netNotInJail noPackages db inJail hscan ?_ ?_ rfl).mpr ?_⟩
  · rw [filesOf_netNotInJail]
    decide
  · -- a relation starts at `net`, and none ends there
    intro p hp
    obtain ⟨q, hpq, -⟩ := Relation.TransGen.head'_iff.mp hp
    obtain ⟨q', -, hqp⟩ := Relation.TransGen.tail'_iff.mp hp
    have hfrom := (related_netNotInJail _ _).mp hpq
    have hto := (related_netNotInJail _ _).mp hqp
    omega
  · intro a b ha _ hrel
    rw [((related_netNotInJail a b).mp hrel).1, hskipped] at ha
    exact Bool.false_ne_true ha

/-- `web` requires what `net` provides, and is passed before it. -/
theorem netAndWeb_reversed :
    ∃ db, services_db_scan_system netAndWeb noPackages services_db_create = .ok db
      ∧ ((filesOf netAndWeb).map rc_d_file.name).Nodup
      ∧ (∀ p, ¬ Relation.TransGen (Related (filesOf netAndWeb)) p p)
      ∧ orphans.reverse = false ∧ services_db_rcorder_iter db orphans = some [1, 0]
      ∧ Related (filesOf netAndWeb) 0 1 ∧ ¬ Dfs.Before [1, 0] 0 1 := by
  have hrun : (services_db_scan_system netAndWeb noPackages services_db_create).toOption.map
      (fun db => services_db_rcorder_iter db orphans) = some (some [1, 0]) := by decide
  have hacyclic : ∀ p q, Relation.TransGen (Related (filesOf netAndWeb)) p q → p = 0 ∧ q = 1 := by
    intro p q hpq
    induction hpq with
    | single h => exact (related_netAndWeb _ _).mp h
    | tail _ h ih =>
        have := (related_netAndWeb _ _).mp h
        omega
  obtain ⟨db, hscan, hrun⟩ := Fallible.of_toOption_map hrun
  refine ⟨db, hscan, ?_, ?_, rfl, hrun, (related_netAndWeb 0 1).mpr ⟨rfl, rfl⟩, ?_⟩
  · rw [filesOf_netAndWeb]
    decide
  · intro p hp
    have := hacyclic p p hp
    omega
  · have hbefore : Dfs.Before [1, 0] 1 0 := ⟨[1], [0], rfl, by simp, by simp⟩
    exact hbefore.asymm (by simp)

end PkgPlugins.Rcorder
