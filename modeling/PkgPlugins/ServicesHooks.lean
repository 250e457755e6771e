/-
The hook of the services plugin: `handle_hooks` (`plugins/services/plugin_services.c`).

For the packages that are deleted the services are stopped, for those that are
upgraded they are restarted, along with the services of packages that need their
shared libraries. The blocklist is only read for jobs of the type
`PKG_JOBS_UPGRADE`, while what is restarted depends on what is solved for each
package: an upgrade that is part of another job restarts blocklisted services.
-/
import PkgPlugins.Pkg
import PkgPlugins.ServicesDb
import PkgPlugins.ServicesHandle

set_option autoImplicit false

namespace PkgPlugins.ServicesHooks

open PkgPlugins.Pkg PkgPlugins.AssocTable PkgPlugins.EventLoop PkgPlugins.ProcessMonitor
  PkgPlugins.MonitorRuns PkgPlugins.ServicesDb PkgPlugins.ServicesSelection
  PkgPlugins.ServicesHandle

/-! ## Jobs -/

/-- The type of a job and what `pkg_jobs_iter` yields: the name of each new
package and what was solved for it. -/
structure pkg_jobs where
  type : pkg_jobs_t
  solved : List (Text × pkg_solved_t)

/-- `hooks[]`. -/
def hooks : List pkg_plugin_hook_t :=
  [ .PKG_PLUGIN_HOOK_PRE_INSTALL, .PKG_PLUGIN_HOOK_PRE_DEINSTALL, .PKG_PLUGIN_HOOK_POST_UPGRADE,
    .PKG_PLUGIN_HOOK_PRE_AUTOREMOVE ]

/-! ## The selection -/

/-- `services_db_rshlib`: the scripts of the packages that require a library of
the package. -/
def services_db_rshlib (db : services_db_t) (pkg_name : Text) : List ℕ :=
  match db.packages.get pkg_name with
  | none => []
  | some pkg => pkg.rshlibs

/-- `script->name`. -/
def script_name (db : services_db_t) (script : ℕ) : Text :=
  match db.script script with
  | none => []
  | some s => s.name

/-- `services_db_add_services_from_package_to_services_selection`. -/
def services_db_add_services_from_package_to_services_selection (db : services_db_t)
    (ss : services_selection_t) (pkg_name : Text) (action : service_action_t)
    (include_rshlibs : Bool) : services_selection_t :=
  let ss := match db.packages.get pkg_name with
    | none => ss
    | some pkg => pkg.scripts.foldl
        (fun ss script => services_selection_add_direct ss (script_name db script) action) ss
  if include_rshlibs then
    (services_db_rshlib db pkg_name).foldl
      (fun ss script => services_selection_add_rdep ss (script_name db script) action) ss
  else ss

/-- The body of the loop over the jobs. -/
def handle_job (db : services_db_t) (ss : services_selection_t) (job : Text × pkg_solved_t) :
    services_selection_t :=
  let ss := if .PKG_SOLVED_DELETE = job.2 then
      services_db_add_services_from_package_to_services_selection db ss job.1
        .SERVICE_ACTION_STOP false
    else ss
  if .PKG_SOLVED_UPGRADE = job.2 then
    services_db_add_services_from_package_to_services_selection db ss job.1
      .SERVICE_ACTION_RESTART true
  else ss

/-- The blocklist goes to the selection of an upgrade. -/
def handle_blocklist (jobs : pkg_jobs) (blocklist : List Text) (ss : services_selection_t) :
    services_selection_t :=
  if .PKG_JOBS_UPGRADE = jobs.type then blocklist.foldl services_selection_block ss else ss

/-! ## The hook -/

/-- What else decides a run of the hook: whether the database and the selection
are created, and what happens to the services. -/
structure hooks_env where
  services_db_created : Bool
  selection_created : Bool
  handle : handle_env

/-- Why the hook ends before its summary. -/
inductive hooks_stop
  | no_memory
  | scan (e : scan_error)
  | handle (s : handle_stop)

/-- `handle_hooks`, up to the summary it prints. -/
def handle_hooks (sys : rc_system) (pkg_db : pkgdb) (jobs : pkg_jobs) (blocklist : List Text)
    (env : hooks_env) : Except hooks_stop (kernel_t × services_result_t) :=
  if env.services_db_created = false ∨ env.selection_created = false then .error .no_memory
  else
    let ss := handle_blocklist jobs blocklist services_selection_create
    match services_db_scan_system sys pkg_db services_db_create with
    | .error e => .error (.scan e)
    | .ok db =>
        let ss := jobs.solved.foldl (handle_job db) ss
        match services_selection_handle ss env.handle with
        | .error s => .error (.handle s)
        | .ok r => .ok r

/-- The commands that a run of the hook forks children for. -/
def executed (sys : rc_system) (pkg_db : pkgdb) (jobs : pkg_jobs) (blocklist : List Text)
    (env : hooks_env) : List image_t :=
  match handle_hooks sys pkg_db jobs blocklist env with
  | .error _ => []
  | .ok (k, _) => k.executed

/-! ## The calls on the selection -/

/-- The additions for a package. -/
def package_calls (db : services_db_t) (pkg_name : Text) (action : requested_action_t)
    (include_rshlibs : Bool) : List selection_call :=
  (match db.packages.get pkg_name with
    | none => []
    | some pkg => pkg.scripts.map (fun script => .add_direct (script_name db script) action))
  ++ if include_rshlibs then
      (services_db_rshlib db pkg_name).map (fun script => .add_rdep (script_name db script) action)
    else []

/-- The additions for a job: a deletion stops, an upgrade restarts. -/
def job_calls (db : services_db_t) (job : Text × pkg_solved_t) : List selection_call :=
  match job.2 with
  | .PKG_SOLVED_DELETE => package_calls db job.1 .stop false
  | .PKG_SOLVED_UPGRADE => package_calls db job.1 .restart true
  | _ => []

/-- The additions of the loop over the jobs. -/
def jobs_calls (db : services_db_t) (solved : List (Text × pkg_solved_t)) : List selection_call :=
  solved.flatMap (job_calls db)

/-- The calls for the blocklist. -/
def blocklist_calls (jobs : pkg_jobs) (blocklist : List Text) : List selection_call :=
  if .PKG_JOBS_UPGRADE = jobs.type then blocklist.map .block else []

theorem services_db_add_eq (db : services_db_t) (pkg_name : Text) (action : requested_action_t)
    (include_rshlibs : Bool) (ss : services_selection_t) :
    services_db_add_services_from_package_to_services_selection db ss pkg_name action
        include_rshlibs
      = (package_calls db pkg_name action include_rshlibs).foldl selection_call.run ss := by
  unfold services_db_add_services_from_package_to_services_selection package_calls
  rw [List.foldl_append]
  cases db.packages.get pkg_name with
  | none => cases include_rshlibs <;> simp [List.foldl_map, selection_call.run]
  | some pkg => cases include_rshlibs <;> simp [List.foldl_map, selection_call.run]

theorem handle_job_eq (db : services_db_t) (ss : services_selection_t) (job : Text × pkg_solved_t) :
    handle_job db ss job = (job_calls db job).foldl selection_call.run ss := by
  obtain ⟨pkg_name, solved⟩ := job
  unfold handle_job job_calls
  cases solved with
  | PKG_SOLVED_DELETE =>
      exact services_db_add_eq db pkg_name .stop false ss
  | PKG_SOLVED_UPGRADE =>
      exact services_db_add_eq db pkg_name .restart true ss
  | PKG_SOLVED_INSTALL => simp
  | PKG_SOLVED_UPGRADE_REMOVE => simp
  | PKG_SOLVED_FETCH => simp
  | PKG_SOLVED_UPGRADE_INSTALL => simp

/-- **The selection of the hook is built by calls**: those for the blocklist, if
it is read, and then those for the jobs. -/
theorem hook_selection_eq (db : services_db_t) (jobs : pkg_jobs) (blocklist : List Text) :
    jobs.solved.foldl (handle_job db) (handle_blocklist jobs blocklist services_selection_create)
      = build (blocklist_calls jobs blocklist ++ jobs_calls db jobs.solved) := by
  have hblocklist : handle_blocklist jobs blocklist services_selection_create
      = (blocklist_calls jobs blocklist).foldl selection_call.run services_selection_create := by
    unfold handle_blocklist blocklist_calls
    split
    · rw [List.foldl_map]
      rfl
    · rfl
  have hjobs : handle_job db = fun ss job => (job_calls db job).foldl selection_call.run ss :=
    funext (fun ss => funext (fun job => handle_job_eq db ss job))
  rw [build, List.foldl_append, jobs_calls, List.foldl_flatMap, hblocklist, hjobs]

/-- The loop over the jobs blocks nothing. -/
theorem block_notMem_jobs_calls (db : services_db_t) (solved : List (Text × pkg_solved_t))
    (name : Text) : selection_call.block name ∉ jobs_calls db solved := by
  have hpackage : ∀ pkg_name action include_rshlibs,
      selection_call.block name ∉ package_calls db pkg_name action include_rshlibs := by
    intro pkg_name action include_rshlibs
    unfold package_calls
    cases db.packages.get pkg_name <;> cases include_rshlibs <;> simp
  rw [jobs_calls, List.mem_flatMap]
  rintro ⟨⟨pkg_name, solved⟩, -, hmem⟩
  unfold job_calls at hmem
  cases solved with
  | PKG_SOLVED_DELETE => exact hpackage _ _ _ hmem
  | PKG_SOLVED_UPGRADE => exact hpackage _ _ _ hmem
  | PKG_SOLVED_INSTALL => exact absurd hmem (by simp)
  | PKG_SOLVED_UPGRADE_REMOVE => exact absurd hmem (by simp)
  | PKG_SOLVED_FETCH => exact absurd hmem (by simp)
  | PKG_SOLVED_UPGRADE_INSTALL => exact absurd hmem (by simp)

/-! ## The blocklist -/

section Blocklist

variable {sys : rc_system} {pkg_db : pkgdb} {jobs : pkg_jobs} {blocklist : List Text}

/-- The restart of a service. -/
def restart (name : Text) : image_t := (service_argv name "restart".toList).image

/-- What is restarted is not blocked, and its last addition is a restart. -/
theorem restart_executed {env : hooks_env} {name : Text}
    (h : restart name ∈ executed sys pkg_db jobs blocklist env) :
    ∃ db, services_db_scan_system sys pkg_db services_db_create = .ok db
      ∧ selection_call.block name ∉ blocklist_calls jobs blocklist
      ∧ last_action (blocklist_calls jobs blocklist ++ jobs_calls db jobs.solved) name
        = some .SERVICE_ACTION_RESTART := by
  unfold executed handle_hooks at h
  split at h
  · exact absurd h (by simp)
  · rename_i hooks_k hooks_sr hrun
    split at hrun
    · exact absurd hrun (by simp)
    · cases hscan : services_db_scan_system sys pkg_db services_db_create with
      | error e => rw [hscan] at hrun; exact absurd hrun (by simp)
      | ok db =>
          simp only [hscan, hook_selection_eq] at hrun
          split at hrun
          · exact absurd hrun (by simp)
          · rename_i r hhandle
            obtain rfl := Except.ok.inj hrun
            obtain ⟨hblock, ⟨action, hlast, hne, hcommand⟩, -⟩ :=
              stop_restart_executed _ env.handle hhandle (Or.inr rfl) h
            refine ⟨db, rfl, fun hmem => hblock (List.mem_append_left _ hmem), ?_⟩
            rw [hlast]
            cases action with
            | SERVICE_ACTION_NONE => exact absurd rfl hne
            | SERVICE_ACTION_RESTART => rfl
            | SERVICE_ACTION_STOP =>
                have hstop : "restart".toList ≠ "stop".toList := by decide
                exact absurd hcommand hstop

/-- What is not blocked, and whose last addition is a restart, can be restarted. -/
theorem exists_restart {db : services_db_t} {name : Text}
    (hscan : services_db_scan_system sys pkg_db services_db_create = .ok db)
    (hblock : selection_call.block name ∉ blocklist_calls jobs blocklist)
    (hlast : last_action (blocklist_calls jobs blocklist ++ jobs_calls db jobs.solved) name
      = some .SERVICE_ACTION_RESTART) :
    ∃ env, restart name ∈ executed sys pkg_db jobs blocklist env := by
  generalize hcs : blocklist_calls jobs blocklist ++ jobs_calls db jobs.solved = cs at hlast
  have hnot : selection_call.block name ∉ cs := by
    rw [← hcs, List.mem_append, not_or]
    exact ⟨hblock, block_notMem_jobs_calls db jobs.solved name⟩
  cases hget : (build cs).get name with
  | none =>
      -- a name that was added has an entry
      have hnone : cs.filter (fun c => c.name = name) = [] := by
        rw [List.filter_eq_nil_iff]
        intro c hc
        simpa using (build_get cs name).2 hget c hc
      rw [last_action, hnone] at hlast
      exact absurd hlast (by simp)
  | some sd =>
      have hrecorded := (build_get cs name).1 sd hget
      have hblocked : sd.blocked = false := by
        rw [← Bool.not_eq_true]
        exact fun h => hnot (hrecorded.blocked.mp h)
      have haction : sd.action = .SERVICE_ACTION_RESTART :=
        Option.some.inj (hrecorded.action.symm.trans hlast)
      obtain ⟨env, k, sr, hok, hmem⟩ := exists_acting cs hget hblocked
      refine ⟨⟨true, true, env⟩, ?_⟩
      have hrun : handle_hooks sys pkg_db jobs blocklist ⟨true, true, env⟩ = .ok (k, sr) := by
        unfold handle_hooks
        simp only [hscan, hook_selection_eq, hcs, hok]
        rfl
      rw [executed, hrun]
      rw [action_argv, hrecorded.name, haction] at hmem
      exact hmem

end Blocklist

/-- **When the blocklist protects its services.** Whatever the processes do, no
service of the blocklist is restarted, if and only if the job is an upgrade, or
the last addition of no service of the blocklist is a restart. -/
theorem handle_hooks_blocklist_iff (sys : rc_system) (pkg_db : pkgdb) (jobs : pkg_jobs)
    (blocklist : List Text) :
    (∀ env, ∀ name ∈ blocklist, restart name ∉ executed sys pkg_db jobs blocklist env)
      ↔ jobs.type = .PKG_JOBS_UPGRADE
        ∨ ∀ db, services_db_scan_system sys pkg_db services_db_create = .ok db →
            ∀ name ∈ blocklist,
              last_action (jobs_calls db jobs.solved) name ≠ some .SERVICE_ACTION_RESTART := by
  by_cases hupgrade : jobs.type = .PKG_JOBS_UPGRADE
  · -- the blocklist is read, and what it blocks is never executed
    refine iff_of_true (fun env name hname hmem => ?_) (Or.inl hupgrade)
    obtain ⟨-, -, hblock, -⟩ := restart_executed hmem
    refine hblock ?_
    rw [blocklist_calls, if_pos hupgrade.symm]
    exact List.mem_map_of_mem hname
  · -- the blocklist is not read
    have hcalls : blocklist_calls jobs blocklist = [] := by
      rw [blocklist_calls, if_neg (fun h => hupgrade h.symm)]
    rw [or_iff_right hupgrade]
    constructor
    · intro hnever db hscan name hname hlast
      have hblock : selection_call.block name ∉ blocklist_calls jobs blocklist := by
        rw [hcalls]
        exact List.not_mem_nil
      obtain ⟨env, hmem⟩ := exists_restart hscan hblock (by rw [hcalls]; exact hlast)
      exact hnever env name hname hmem
    · intro hcond env name hname hmem
      obtain ⟨db, hscan, -, hlast⟩ := restart_executed hmem
      rw [hcalls, List.nil_append] at hlast
      exact hcond db hscan name hname hlast

/-- A system with one script, which belongs to the package `nginx`. -/
def nginx_system : rc_system :=
  ⟨fun directory => if directory = "/usr/local/etc/rc.d".toList
      then some [⟨"nginx".toList, .regular []⟩] else some [],
    "/usr/local".toList⟩

def nginx_pkgdb : pkgdb := ⟨fun _ => some (some ("nginx".toList, [])), fun _ => []⟩

/-- `pkg install` of a package that is upgraded by it. -/
def nginx_jobs : pkg_jobs := ⟨.PKG_JOBS_INSTALL, [("nginx".toList, .PKG_SOLVED_UPGRADE)]⟩

/-- The hook runs for installations, and restarts a service of the blocklist. -/
theorem nginx_restarted :
    .PKG_PLUGIN_HOOK_PRE_INSTALL ∈ hooks
    ∧ nginx_jobs.type = pkg_plugin_hook_t.jobs .PKG_PLUGIN_HOOK_PRE_INSTALL
    ∧ restart "nginx".toList ∈ executed nginx_system nginx_pkgdb nginx_jobs ["nginx".toList]
        ⟨true, true, ending (.exited 0) (.exited 0)⟩ := by
  refine ⟨by simp [hooks], rfl, ?_⟩
  decide +kernel

end PkgPlugins.ServicesHooks
