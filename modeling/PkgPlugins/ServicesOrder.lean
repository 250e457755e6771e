/-
What the order of the jobs does to the selection of the services plugin
(`handle_hooks`, `plugins/services/plugin_services.c`).

The loop over the jobs adds the services of one job after the other, and an
addition takes the place of the action before it. The services of a package that
is deleted are to be stopped, those of a package that is upgraded, and those of
the packages that need its shared libraries, to be restarted. A service that is
asked for both gets what the later job asks for.
-/
import PkgPlugins.Fallible
import PkgPlugins.ServicesHooks

set_option autoImplicit false

namespace PkgPlugins.ServicesOrder

open PkgPlugins.Pkg PkgPlugins.AssocTable PkgPlugins.ServicesDb PkgPlugins.ServicesSelection
  PkgPlugins.ServicesHooks

/-! ## The last call -/

section LastAction

variable {cs cs' : List selection_call} {name : List Char} {a : service_action_t}

theorem last_action_eq_none_iff : last_action cs name = none ↔ ∀ c ∈ cs, c.name ≠ name := by
  rw [last_action, Option.map_eq_none_iff, List.getLast?_eq_none_iff, List.filter_eq_nil_iff]
  simp

theorem last_action_append : last_action (cs ++ cs') name
    = (last_action cs' name).or (last_action cs name) := by
  simp only [last_action, List.filter_append, List.getLast?_append]
  cases (cs'.filter (fun c => c.name = name)).getLast? <;> simp

/-- If the calls for a name ask for one action, the last one does. -/
theorem last_action_of_uniform {c : selection_call} (hc : c ∈ cs) (hname : c.name = name)
    (hall : ∀ c ∈ cs, c.name = name → c.action = a) : last_action cs name = some a := by
  cases hlast : last_action cs name with
  | none => exact absurd hname (last_action_eq_none_iff.mp hlast c hc)
  | some b =>
      obtain ⟨d, hd, rfl⟩ := exists_of_last_action hlast
      rw [hall d hd.1 hd.2]

end LastAction

/-! ## What a job asks for -/

/-- The names of the services of a package. -/
def owned (db : services_db_t) (pkg_name : Text) : List Text :=
  match db.packages.get pkg_name with
  | none => []
  | some pkg => pkg.scripts.map (script_name db)

/-- The names of the services of the packages that need a library of a package. -/
def dependents (db : services_db_t) (pkg_name : Text) : List Text :=
  (services_db_rshlib db pkg_name).map (script_name db)

/-- A call for the service `name` with the action `a`. -/
def Asks (cs : List selection_call) (name : Text) (a : service_action_t) : Prop :=
  ∃ c ∈ cs, c.name = name ∧ c.action = a

theorem asks_package_calls (db : services_db_t) (pkg_name : Text) (action : requested_action_t)
    (include_rshlibs : Bool) (name : Text) (a : service_action_t) :
    Asks (package_calls db pkg_name action include_rshlibs) name a
      ↔ a = action ∧ (name ∈ owned db pkg_name
        ∨ include_rshlibs = true ∧ name ∈ dependents db pkg_name) := by
  -- a list of calls for some scripts with one action
  have hmap : ∀ (f : Text → requested_action_t → selection_call) (scripts : List ℕ),
      (∀ n, (f n action).name = n ∧ (f n action).action = action) →
      (Asks (scripts.map (fun script => f (script_name db script) action)) name a
        ↔ a = action ∧ name ∈ scripts.map (script_name db)) := by
    intro f scripts hf
    simp only [Asks, List.mem_map, exists_exists_and_eq_and, hf]
    constructor
    · rintro ⟨script, hscript, rfl, rfl⟩
      exact ⟨rfl, script, hscript, rfl⟩
    · rintro ⟨rfl, script, hscript, rfl⟩
      exact ⟨script, hscript, rfl, rfl⟩
  have happend : ∀ cs cs', Asks (cs ++ cs') name a ↔ Asks cs name a ∨ Asks cs' name a := by
    intro cs cs'
    simp only [Asks, List.mem_append, or_and_right, exists_or]
  have hnil : ¬ Asks [] name a := by simp [Asks]
  rw [package_calls, happend, and_or_left]
  refine or_congr ?_ ?_
  · unfold owned
    cases db.packages.get pkg_name with
    | none => simp [hnil]
    | some pkg => exact hmap .add_direct pkg.scripts (fun _ => ⟨rfl, rfl⟩)
  · cases include_rshlibs with
    | false => simp [hnil]
    | true =>
        rw [if_pos rfl, hmap .add_rdep _ (fun _ => ⟨rfl, rfl⟩), dependents]
        simp

/-- **What the jobs ask for**: a stop for the services of what is deleted, a restart
for those of what is upgraded and of what needs its libraries. -/
theorem asks_jobs_calls (db : services_db_t) (solved : List (Text × pkg_solved_t)) (name : Text)
    (a : service_action_t) :
    Asks (jobs_calls db solved) name a
      ↔ (a = .SERVICE_ACTION_STOP ∧ ∃ p, (p, .PKG_SOLVED_DELETE) ∈ solved ∧ name ∈ owned db p)
        ∨ (a = .SERVICE_ACTION_RESTART ∧ ∃ p, (p, .PKG_SOLVED_UPGRADE) ∈ solved
          ∧ (name ∈ owned db p ∨ name ∈ dependents db p)) := by
  have hjob : Asks (jobs_calls db solved) name a
      ↔ ∃ job ∈ solved, Asks (job_calls db job) name a := by
    simp only [Asks, jobs_calls, List.mem_flatMap]
    constructor
    · rintro ⟨c, ⟨job, hjob, hc⟩, hcall⟩
      exact ⟨job, hjob, c, hc, hcall⟩
    · rintro ⟨job, hjob, c, hc, hcall⟩
      exact ⟨c, ⟨job, hjob, hc⟩, hcall⟩
  rw [hjob]
  constructor
  · rintro ⟨⟨p, solved_type⟩, hmem, hasks⟩
    unfold job_calls at hasks
    cases solved_type with
    | PKG_SOLVED_DELETE =>
        obtain ⟨rfl, hname⟩ := (asks_package_calls ..).mp hasks
        exact Or.inl ⟨rfl, p, hmem, by simpa using hname⟩
    | PKG_SOLVED_UPGRADE =>
        obtain ⟨rfl, hname⟩ := (asks_package_calls ..).mp hasks
        exact Or.inr ⟨rfl, p, hmem, by simpa using hname⟩
    | PKG_SOLVED_INSTALL => exact absurd hasks (by simp [Asks])
    | PKG_SOLVED_UPGRADE_REMOVE => exact absurd hasks (by simp [Asks])
    | PKG_SOLVED_FETCH => exact absurd hasks (by simp [Asks])
    | PKG_SOLVED_UPGRADE_INSTALL => exact absurd hasks (by simp [Asks])
  · rintro (⟨rfl, p, hmem, hname⟩ | ⟨rfl, p, hmem, hname⟩)
    · exact ⟨_, hmem, (asks_package_calls db p .stop false name _).mpr ⟨rfl, Or.inl hname⟩⟩
    · exact ⟨_, hmem, (asks_package_calls db p .restart true name _).mpr
        ⟨rfl, by simpa using hname⟩⟩

/-! ## The selection -/

/-- The selection that `handle_hooks` makes of the blocklist and the jobs. -/
def hook_selection (db : services_db_t) (jobs : pkg_jobs) (blocklist : List Text) :
    services_selection_t :=
  jobs.solved.foldl (handle_job db) (handle_blocklist jobs blocklist services_selection_create)

/-- The action attached to a service, if it is selected. -/
def attached (db : services_db_t) (jobs : pkg_jobs) (blocklist : List Text) (name : Text) :
    Option service_action_t :=
  ((hook_selection db jobs blocklist).get name).map service_data_t.action

/-- The action of the last call for the service: the jobs come after the blocklist. -/
theorem attached_eq (db : services_db_t) (jobs : pkg_jobs) (blocklist : List Text) (name : Text) :
    attached db jobs blocklist name
      = (last_action (jobs_calls db jobs.solved) name).or
        (last_action (blocklist_calls jobs blocklist) name) := by
  rw [attached, hook_selection, hook_selection_eq, ← last_action_append]
  have hbuild := build_get (blocklist_calls jobs blocklist ++ jobs_calls db jobs.solved) name
  cases hget : (build (blocklist_calls jobs blocklist ++ jobs_calls db jobs.solved)).get name with
  | none => exact (last_action_eq_none_iff.mpr (hbuild.2 hget)).symm
  | some sd => exact (hbuild.1 sd hget).action.symm

/-- The jobs with what was solved in another order. -/
def reordered (jobs : pkg_jobs) (solved : List (Text × pkg_solved_t)) : pkg_jobs :=
  { jobs with solved := solved }

/-- **The order of the jobs does not matter**, and what is deleted is stopped. -/
structure OrderFree (db : services_db_t) (jobs : pkg_jobs) (blocklist : List Text) : Prop where
  perm : ∀ solved, solved.Perm jobs.solved → ∀ name,
    attached db (reordered jobs solved) blocklist name = attached db jobs blocklist name
  deleted : ∀ p, (p, .PKG_SOLVED_DELETE) ∈ jobs.solved → ∀ name ∈ owned db p,
    attached db jobs blocklist name = some .SERVICE_ACTION_STOP

/-- No service of a package that is deleted is one of a package that is upgraded, or
of one that needs its libraries. -/
def Separate (db : services_db_t) (solved : List (Text × pkg_solved_t)) : Prop :=
  ∀ p p', (p, .PKG_SOLVED_DELETE) ∈ solved → (p', .PKG_SOLVED_UPGRADE) ∈ solved →
    ∀ name ∈ owned db p, name ∉ owned db p' ∧ name ∉ dependents db p'

/-- What the last job asks for is attached. -/
theorem attached_concat (db : services_db_t) (jobs : pkg_jobs) (blocklist : List Text)
    (solved : List (Text × pkg_solved_t)) (job : Text × pkg_solved_t) {name : Text}
    {a : service_action_t} (hlast : last_action (job_calls db job) name = some a) :
    attached db (reordered jobs (solved ++ [job])) blocklist name = some a := by
  rw [attached_eq, reordered, jobs_calls, List.flatMap_append, last_action_append]
  simp [hlast]

theorem last_action_package_calls (db : services_db_t) (pkg_name : Text)
    (action : requested_action_t) (include_rshlibs : Bool) {name : Text}
    (hname : name ∈ owned db pkg_name
      ∨ include_rshlibs = true ∧ name ∈ dependents db pkg_name) :
    last_action (package_calls db pkg_name action include_rshlibs) name = some action.val := by
  have hasks := (asks_package_calls db pkg_name action include_rshlibs name _).mpr ⟨rfl, hname⟩
  obtain ⟨c, hc, hcname, -⟩ := hasks
  refine last_action_of_uniform hc hcname (fun d hd hdname => ?_)
  exact ((asks_package_calls ..).mp ⟨d, hd, hdname, rfl⟩).1

/-- Where the jobs are separate, the calls for a service ask for one action in any
order. -/
theorem last_action_of_separate {db : services_db_t} {jobs : pkg_jobs}
    (hseparate : Separate db jobs.solved) {solved : List (Text × pkg_solved_t)}
    (hperm : solved.Perm jobs.solved) {name : Text} {a : service_action_t}
    (hasks : Asks (jobs_calls db jobs.solved) name a) :
    last_action (jobs_calls db solved) name = some a := by
  have hmem : ∀ b, Asks (jobs_calls db solved) name b
      ↔ Asks (jobs_calls db jobs.solved) name b := by
    intro b
    rw [asks_jobs_calls, asks_jobs_calls]
    simp only [hperm.mem_iff]
  obtain ⟨c, hc, hcname, -⟩ := (hmem a).mpr hasks
  refine last_action_of_uniform hc hcname (fun d hd hdname => ?_)
  have hd' := (hmem d.action).mp ⟨d, hd, hdname, rfl⟩
  rw [asks_jobs_calls] at hasks hd'
  rcases hasks with ⟨rfl, p, hp, hname⟩ | ⟨rfl, p, hp, hname⟩ <;>
    rcases hd' with ⟨hstop, q, hq, hname'⟩ | ⟨hrestart, q, hq, hname'⟩
  · exact hstop
  · have hsep := hseparate p q hp hq name hname
    exact absurd hname' (not_or.mpr hsep)
  · have hsep := hseparate q p hq hp name hname'
    exact absurd hname (not_or.mpr hsep)
  · exact hrestart

/-- So the last action is the same in any order. -/
theorem last_action_reordered {db : services_db_t} {jobs : pkg_jobs}
    (hseparate : Separate db jobs.solved) {solved : List (Text × pkg_solved_t)}
    (hperm : solved.Perm jobs.solved) (name : Text) :
    last_action (jobs_calls db solved) name = last_action (jobs_calls db jobs.solved) name := by
  cases hlast : last_action (jobs_calls db jobs.solved) name with
  | some a =>
      obtain ⟨d, hd, ha⟩ := exists_of_last_action hlast
      exact last_action_of_separate hseparate hperm ⟨d, hd.1, hd.2, ha⟩
  | none =>
      rw [last_action_eq_none_iff] at hlast ⊢
      intro c hc
      obtain ⟨job, hjob, hcall⟩ := List.mem_flatMap.mp hc
      exact hlast c (List.mem_flatMap.mpr ⟨job, hperm.mem_iff.mp hjob, hcall⟩)

/-- Whatever the order is free for, the last job that asks for a service decides. -/
theorem attached_of_free {db : services_db_t} {jobs : pkg_jobs} {blocklist : List Text}
    (hfree : OrderFree db jobs blocklist) {job : Text × pkg_solved_t} (hjob : job ∈ jobs.solved)
    {name : Text} {a : service_action_t} (ha : last_action (job_calls db job) name = some a) :
    attached db jobs blocklist name = some a := by
  have hperm : (jobs.solved.erase job ++ [job]).Perm jobs.solved :=
    (List.perm_append_singleton job _).trans (List.perm_cons_erase hjob).symm
  rw [← hfree.perm _ hperm name]
  exact attached_concat db jobs blocklist _ job ha

/-- **When the order of the jobs does not matter**: if and only if no service is to
be stopped by one job and restarted by another. -/
theorem handle_hooks_order_iff (db : services_db_t) (jobs : pkg_jobs) (blocklist : List Text) :
    OrderFree db jobs blocklist ↔ Separate db jobs.solved := by
  constructor
  · -- of two jobs that ask for both, either can come last
    intro hfree p p' hdelete hupgrade name hname
    have hstop := attached_of_free hfree hdelete
      (last_action_package_calls db p .stop false (Or.inl hname))
    have hnot : ¬ (name ∈ owned db p' ∨ name ∈ dependents db p') := by
      intro hor
      have hrestart := attached_of_free hfree hupgrade
        (last_action_package_calls db p' .restart true (by simpa using hor))
      rw [hstop] at hrestart
      exact absurd (Option.some.inj hrestart) (by decide)
    exact not_or.mp hnot
  · intro hseparate
    constructor
    · intro solved hperm name
      have hblocklist : blocklist_calls (reordered jobs solved) blocklist
          = blocklist_calls jobs blocklist := rfl
      rw [attached_eq, attached_eq, hblocklist]
      change (last_action (jobs_calls db solved) name).or _ = _
      rw [last_action_reordered hseparate hperm]
    · intro p hp name hname
      have hasks : Asks (jobs_calls db jobs.solved) name .SERVICE_ACTION_STOP :=
        (asks_jobs_calls ..).mpr (Or.inl ⟨rfl, p, hp, hname⟩)
      rw [attached_eq, last_action_of_separate hseparate (List.Perm.refl _) hasks, Option.some_or]

/-- The package `nginx` with its service needs a library of the package `openssl`. -/
def openssl_pkgdb : pkgdb :=
  ⟨fun _ => some (some ("nginx".toList, ["libssl.so".toList])), fun _ => ["openssl".toList]⟩

/-- An installation for which `nginx` is deleted and `openssl` upgraded. -/
def openssl_jobs : pkg_jobs :=
  ⟨.PKG_JOBS_INSTALL,
    [("nginx".toList, .PKG_SOLVED_DELETE), ("openssl".toList, .PKG_SOLVED_UPGRADE)]⟩

/-- The service of the deleted package is stopped if its job comes last, and
restarted if it comes first. -/
theorem nginx_deleted_restarted :
    ∃ db, services_db_scan_system nginx_system openssl_pkgdb services_db_create = .ok db
      ∧ openssl_jobs.solved.reverse.Perm openssl_jobs.solved
      ∧ "nginx".toList ∈ owned db "nginx".toList
      ∧ attached db openssl_jobs [] "nginx".toList = some .SERVICE_ACTION_RESTART
      ∧ attached db (reordered openssl_jobs openssl_jobs.solved.reverse) [] "nginx".toList
        = some .SERVICE_ACTION_STOP := by
  have hrun : (services_db_scan_system nginx_system openssl_pkgdb services_db_create).toOption.map
      (fun db => (owned db "nginx".toList, attached db openssl_jobs [] "nginx".toList,
        attached db (reordered openssl_jobs openssl_jobs.solved.reverse) [] "nginx".toList))
      = some (["nginx".toList], some .SERVICE_ACTION_RESTART, some .SERVICE_ACTION_STOP) := by
    decide
  obtain ⟨db, hscan, hrun⟩ := Fallible.of_toOption_map hrun
  simp only [Prod.mk.injEq] at hrun
  obtain ⟨howned, hrestart, hstop⟩ := hrun
  refine ⟨db, hscan, List.reverse_perm _, ?_, hrestart, hstop⟩
  rw [howned]
  exact List.mem_singleton_self _

end PkgPlugins.ServicesOrder
