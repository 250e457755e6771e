/-
The commands `pkg rcorder` and `pkg services` (`plugins/services/plugin_services.c`).

Both open pkg's database and scan the system as the hook does, and print what they find.
The first prints what the traversal passes to its callback, so that its options matter in
three respects only. What the second prints of a package is what the hook acts on when the
package is a job: the two read the same lists.
-/
import PkgPlugins.RcorderComplete
import PkgPlugins.RcorderOptions
import PkgPlugins.ServicesOrder

set_option autoImplicit false

namespace PkgPlugins.ServicesCommands

open PkgPlugins.Pkg PkgPlugins.AssocTable PkgPlugins.ServicesDb PkgPlugins.Rcorder
open PkgPlugins.RcorderOptions hiding last_action last_action_append
open PkgPlugins.ServicesSelection PkgPlugins.ServicesHooks PkgPlugins.ServicesOrder

/-! ## What is printed -/

/-- A line on the standard output. -/
inductive line_t
  | path (path : Text)
  | blank
  | listed (required : Bool) (pkg_name : Text)
  | entry (name path : Text)
  | unlisted (required : Bool) (pkg_name : Text)
deriving DecidableEq

def line_t.text : line_t → Text
  | .path p => p
  | .blank => []
  | .listed required pkg_name => "The package ".toList ++ pkg_name
      ++ if required then " is required by the following service(s):".toList
        else " provides the following service(s):".toList
  | .entry name p => "- ".toList ++ name ++ " (".toList ++ p ++ ")".toList
  | .unlisted required pkg_name => "The package ".toList ++ pkg_name
      ++ if required then " is not required by any service".toList
        else " does not provide any service".toList

inductive status_t
  | EPKG_OK
  | EPKG_FATAL
  | EX_USAGE
deriving DecidableEq

inductive command_error
  | no_memory
  | open_failed
  | locked
  | scan (e : scan_error)
deriving DecidableEq

def command_error.text (malloc_error strerror : String) : command_error → String
  | .no_memory => malloc_error
  | .open_failed => "Cannot open database"
  | .locked => "Cannot get a read lock on a database, it is locked by another process"
  | .scan e => e.text strerror

/-! ## The databases -/

/-- What is done with pkg's database and with that of the services. The calls that fail are
left out, but for `pkgdb_release_lock`, whose result nobody reads. -/
inductive db_call
  | pkgdb_open
  | pkgdb_obtain_lock
  | services_db_create
  | pkgdb_release_lock
  | pkgdb_close
  | services_db_close
deriving DecidableEq

/-- What else decides a run of a command. -/
structure command_env where
  options_created : Bool
  pkgdb_opened : Bool
  lock_obtained : Bool
  services_db_created : Bool

/-- The two databases, whether they aren't `NULL`, what was called, and the error. -/
structure databases_t where
  pkg_db : Bool
  services_db : Bool
  calls : List db_call
  scanned : Except command_error services_db_t

section Commands

variable (sys : rc_system) (pkg_db : pkgdb) (env : command_env)

def databases_open : databases_t :=
  if env.pkgdb_opened = false then ⟨false, false, [], .error .open_failed⟩
  else if env.lock_obtained = false then ⟨true, false, [.pkgdb_open], .error .locked⟩
  else if env.services_db_created = false then
    ⟨true, false, [.pkgdb_open, .pkgdb_obtain_lock], .error .no_memory⟩
  else
    ⟨true, true, [.pkgdb_open, .pkgdb_obtain_lock, .services_db_create],
      match services_db_scan_system sys pkg_db services_db_create with
      | .error e => .error (.scan e)
      | .ok db => .ok db⟩

def databases_close (pkg_db services_db : Bool) : List db_call :=
  (if pkg_db then [.pkgdb_release_lock, .pkgdb_close] else [])
    ++ if services_db then [.services_db_close] else []

/-- The result of a command, what it prints, and what it does with the databases. -/
structure command_run where
  status : status_t
  usage : Bool
  stdout : List line_t
  error : Option command_error
  calls : List db_call

/-- `script_get(script, SCRIPT_ATTR_PATH, &path)` -/
def script_path (db : services_db_t) (script : ℕ) : Text :=
  match db.script script with
  | none => []
  | some s => s.path

/-! ## `pkg rcorder` -/

/-- What `getopt_long` finds; arguments of options are pointers into the command line. -/
inductive rcorder_opt
  | o
  | r
  | k (optarg : { p : UInt64 // p ≠ 0 })
  | s (optarg : { p : UInt64 // p ≠ 0 })
  | other
deriving DecidableEq

def rcorder_option (memory : UInt64 → Text) (ro : rcorder_options_t) :
    rcorder_opt → rcorder_options_t
  | .o => rcorder_options_set_include_orphans ro true
  | .r => rcorder_options_set_reverse ro true
  | .k optarg => (rcorder_options_add_ks ro (memory optarg.val) .RCORDER_ACTION_KEEP).1
  | .s optarg => (rcorder_options_add_ks ro (memory optarg.val) .RCORDER_ACTION_SKIP).1
  | .other => ro

/-- `pkg_rcorder_main`; `argc` is the number of arguments after the options. -/
def pkg_rcorder_main (memory : UInt64 → Text) (opts : List rcorder_opt) (argc : ℕ) :
    Option command_run :=
  if env.options_created = false then some ⟨.EPKG_FATAL, false, [], some .no_memory, []⟩
  else
    let ro := opts.foldl (rcorder_option memory) rcorder_options_create
    if .other ∈ opts ∨ 0 ≠ argc then some ⟨.EX_USAGE, true, [], none, []⟩
    else
      let dbs := databases_open sys pkg_db env
      let calls := dbs.calls ++ databases_close dbs.pkg_db dbs.services_db
      match dbs.scanned with
      | .error e => some ⟨.EPKG_FATAL, false, [], some e, calls⟩
      | .ok db => do
          let scripts ← services_db_rcorder_iter db ro
          some ⟨.EPKG_OK, false, scripts.map fun script => .path (script_path db script), none,
            calls⟩

/-! ## `pkg services` -/

inductive services_opt
  | required
  | other
deriving DecidableEq

/-- `package_to_services_iterator` -/
def package_to_services_iterator (db : services_db_t) (pkg_name : Text) : List ℕ :=
  match db.packages.get pkg_name with
  | none => []
  | some pkg => pkg.scripts

/-- What is printed of a package. -/
def print_package (db : services_db_t) (required : Bool) (pkg_name : Text) : List line_t :=
  match if required then services_db_rshlib db pkg_name
    else package_to_services_iterator db pkg_name with
  | [] => [.unlisted required pkg_name]
  | scripts => .listed required pkg_name
      :: scripts.map fun script => .entry (script_name db script) (script_path db script)

/-- The loop over the packages, from the `i`th on. -/
def print_packages (db : services_db_t) (required : Bool) : ℕ → List Text → List line_t
  | _, [] => []
  | i, pkg_name :: argv => (if i ≠ 0 then [.blank] else []) ++ print_package db required pkg_name
      ++ print_packages db required (i + 1) argv

def pkg_services_main (opts : List services_opt) (argv : List Text) : command_run :=
  if .other ∈ opts then ⟨.EX_USAGE, true, [], none, []⟩
  else
    let dbs := databases_open sys pkg_db env
    let calls := dbs.calls ++ databases_close dbs.pkg_db dbs.services_db
    match dbs.scanned with
    | .error e => ⟨.EPKG_FATAL, false, [], some e, calls⟩
    | .ok db => ⟨.EPKG_OK, false, print_packages db (.required ∈ opts) 0 argv, none, calls⟩

end Commands

/-! ## The options of `pkg rcorder` -/

section Options

variable {memory : UInt64 → Text}

/-- The keywords of a command line, with what is asked for them. -/
def ks_calls (opts : List rcorder_opt) : List ks_call :=
  opts.filterMap fun
    | .k optarg => some ⟨optarg, .RCORDER_ACTION_KEEP, Or.inl rfl⟩
    | .s optarg => some ⟨optarg, .RCORDER_ACTION_SKIP, Or.inr rfl⟩
    | _ => none

/-- The options are those of the command line. -/
structure Parsed (memory : UInt64 → Text) (opts : List rcorder_opt) (ro : rcorder_options_t) :
    Prop where
  tracks : Tracks memory ro (ks_calls opts)
  reverse : ro.reverse = decide (.r ∈ opts)
  include_orphans : ro.include_orphans = decide (.o ∈ opts)

theorem rcorder_options_add_ks_others (ro : rcorder_options_t) (name : Text)
    (action : rcorder_action_t) :
    (rcorder_options_add_ks ro name action).1.reverse = ro.reverse
      ∧ (rcorder_options_add_ks ro name action).1.include_orphans = ro.include_orphans := by
  unfold rcorder_options_add_ks
  simp only
  split_ifs <;> exact ⟨rfl, rfl⟩

theorem ks_calls_append (opts : List rcorder_opt) (opt : rcorder_opt) :
    ks_calls (opts ++ [opt]) = ks_calls opts ++ ks_calls [opt] :=
  List.filterMap_append

/-- One option more. -/
theorem Parsed.option {opts : List rcorder_opt} {ro : rcorder_options_t}
    (h : Parsed memory opts ro) (opt : rcorder_opt) :
    Parsed memory (opts ++ [opt]) (rcorder_option memory ro opt) := by
  have hnew : ∀ call, ks_calls [opt] = [call] →
      rcorder_option memory ro opt
        = (rcorder_options_add_ks ro (memory call.name.val) call.action).1 →
      opt ≠ .r → opt ≠ .o →
      Parsed memory (opts ++ [opt]) (rcorder_option memory ro opt) := by
    intro call hcall hopt hr ho
    obtain ⟨hreverse, horphans⟩ :=
      rcorder_options_add_ks_others ro (memory call.name.val) call.action
    rw [hopt]
    constructor
    · rw [ks_calls_append, hcall]
      exact h.tracks.add call
    · rw [hreverse, h.reverse]
      simp [hr.symm]
    · rw [horphans, h.include_orphans]
      simp [ho.symm]
  -- the other options leave the keywords alone
  have hsame : ks_calls [opt] = [] → (rcorder_option memory ro opt).ks = ro.ks →
      (rcorder_option memory ro opt).keep_count = ro.keep_count →
      Tracks memory (rcorder_option memory ro opt) (ks_calls (opts ++ [opt])) := by
    intro hcalls hks hcount
    rw [ks_calls_append, hcalls, List.append_nil]
    exact ⟨hks ▸ h.tracks.ks, hks ▸ h.tracks.keys, by rw [hcount, hks, h.tracks.keep_count]⟩
  cases opt with
  | k optarg => exact hnew ⟨optarg, _, Or.inl rfl⟩ rfl rfl (by simp) (by simp)
  | s optarg => exact hnew ⟨optarg, _, Or.inr rfl⟩ rfl rfl (by simp) (by simp)
  | o =>
      refine ⟨hsame rfl rfl rfl, ?_, by simp [rcorder_option, rcorder_options_set_include_orphans]⟩
      simp [rcorder_option, rcorder_options_set_include_orphans, h.reverse]
  | r =>
      refine ⟨hsame rfl rfl rfl, by simp [rcorder_option, rcorder_options_set_reverse], ?_⟩
      simp [rcorder_option, rcorder_options_set_reverse, h.include_orphans]
  | other =>
      exact ⟨hsame rfl rfl rfl, by simp [rcorder_option, h.reverse],
        by simp [rcorder_option, h.include_orphans]⟩

theorem parsed (memory : UInt64 → Text) (opts : List rcorder_opt) :
    Parsed memory opts (opts.foldl (rcorder_option memory) rcorder_options_create) := by
  induction opts using List.reverseRecOn with
  | nil => exact ⟨Tracks.create memory, rfl, rfl⟩
  | append_singleton opts opt ih =>
      rw [List.foldl_append]
      exact ih.option opt

end Options

/-! ## What `pkg rcorder` prints -/

/-- A script that is to be printed: it has a package, or orphans are asked for, and its
keywords are as the last options about them want it. -/
def Wanted (memory : UInt64 → Text) (opts : List rcorder_opt) (script : rc_d_script_t) : Prop :=
  (.o ∈ opts ∨ script.package ≠ none)
    ∧ (∀ kw ∈ script.keywords,
      RcorderOptions.last_action memory (ks_calls opts) kw ≠ some .RCORDER_ACTION_SKIP)
    ∧ ((∀ kw, RcorderOptions.last_action memory (ks_calls opts) kw ≠ some .RCORDER_ACTION_KEEP)
      ∨ ∃ kw ∈ script.keywords,
        RcorderOptions.last_action memory (ks_calls opts) kw = some .RCORDER_ACTION_KEEP)

theorem passes_iff {memory : UInt64 → Text} {opts : List rcorder_opt} {ro : rcorder_options_t}
    (h : Parsed memory opts ro) (db : services_db_t) (p : ℕ) :
    passes db ro p = true ↔ ∃ script, db.script p = some script ∧ Wanted memory opts script := by
  unfold passes
  cases db.script p with
  | none => simp
  | some script =>
      simp only [Bool.and_eq_true, Bool.or_eq_true, keep_script_iff h.tracks, h.include_orphans,
        decide_eq_true_eq, Option.isSome_iff_ne_none, Option.some.injEq, exists_eq_left']
      rfl

/-- A command for which every call succeeds. -/
def ready : command_env := ⟨true, true, true, true⟩

/-- What a command that gets to its output does with the databases. -/
def all_calls : List db_call :=
  [.pkgdb_open, .pkgdb_obtain_lock, .services_db_create, .pkgdb_release_lock, .pkgdb_close,
    .services_db_close]

open Classical in
/-- **The options of `pkg rcorder`** choose from one of two fixed orders: that in which the
traversal leaves the scripts, and with `-r` that in which it enters them. Each is made of the
scripts below a registered one without parents, once each, and what is printed are the paths of
those that `-o` and the last `-k` or `-s` about each keyword want, wherever the options stand. -/
theorem pkg_rcorder_main_prints {sys : rc_system} {pkg_db : pkgdb} {db : services_db_t}
    (hscan : services_db_scan_system sys pkg_db services_db_create = .ok db) :
    ∃ order reversed : List ℕ, order.Nodup ∧ reversed.Perm order
      ∧ (∀ p, p ∈ order
        ↔ ∃ r ∈ db.scripts.values, isRoot db r = true ∧ Dfs.Reach (children db) r p)
      ∧ ∀ (memory : UInt64 → Text) (opts : List rcorder_opt), .other ∉ opts →
        pkg_rcorder_main sys pkg_db ready memory opts 0
          = some ⟨.EPKG_OK, false, ((if .r ∈ opts then reversed else order).filter fun p =>
              ∃ script, db.script p = some script ∧ Wanted memory opts script).map fun p =>
                .path (script_path db p), none, all_calls⟩ := by
  obtain ⟨htraversable, hroots⟩ := RcorderComplete.scan_traversable hscan
  obtain ⟨visited, tr, hrun, hiter⟩ := services_db_rcorder_iter_trace htraversable
  have hspec := Dfs.each_spec Dfs.left rfl Dfs.left_append (Dfs.visit_spec db.store.length)
    db.roots [] visited tr hrun
  refine ⟨Dfs.left tr, Dfs.entered tr, hspec.nodup,
    Dfs.each_entered_perm (Dfs.visit_entered_perm db.store.length) db.roots [] visited tr hrun,
    fun p => ?_, fun memory opts hother => ?_⟩
  · rw [hspec.mem_iff, hroots]
    simp only [List.mem_filter, and_assoc]
  · have hparsed := parsed memory opts
    have hopen : databases_open sys pkg_db ready
        = ⟨true, true, [.pkgdb_open, .pkgdb_obtain_lock, .services_db_create], .ok db⟩ := by
      simp [databases_open, ready, hscan]
    have hshown : ∀ scripts : List ℕ, scripts.filter (passes db
          (opts.foldl (rcorder_option memory) rcorder_options_create))
        = scripts.filter fun p => ∃ script, db.script p = some script
          ∧ Wanted memory opts script := by
      intro scripts
      refine List.filter_congr fun p _ => ?_
      rw [Bool.eq_iff_iff, passes_iff hparsed, decide_eq_true_eq]
    rw [pkg_rcorder_main, if_neg (by simp [ready])]
    simp only
    rw [if_neg (by simp [hother]), hopen]
    simp only
    rw [hiter]
    by_cases hr : .r ∈ opts
    · rw [filterMap_reported_reverse (by rw [hparsed.reverse, decide_eq_true hr]), hshown,
        if_pos hr]
      rfl
    · rw [filterMap_reported (by rw [hparsed.reverse, decide_eq_false hr]), hshown, if_neg hr]
      rfl

/-- A script above another. -/
theorem netAndWeb_printed : ∃ order reversed : List ℕ, order.Nodup ∧ reversed.Perm order
    ∧ ∀ (memory : UInt64 → Text) (opts : List rcorder_opt), .other ∉ opts →
      ∃ stdout, pkg_rcorder_main netAndWeb noPackages ready memory opts 0
        = some ⟨.EPKG_OK, false, stdout, none, all_calls⟩ := by
  obtain ⟨db, hscan⟩ := Fallible.exists_ok
    (x := services_db_scan_system netAndWeb noPackages services_db_create) (by decide)
  obtain ⟨order, reversed, hnodup, hperm, -, hprints⟩ := pkg_rcorder_main_prints hscan
  exact ⟨order, reversed, hnodup, hperm, fun memory opts hother => ⟨_, hprints memory opts hother⟩⟩

/-! ## What the hook acts on -/

section Listed

variable {sys : rc_system} {pkg_db : pkgdb} {db : services_db_t}

/-- The service that a line lists. -/
def line_t.service : line_t → Option Text
  | .entry name _ => some name
  | _ => none

/-- The services that a run lists. -/
def shown (r : command_run) : List Text := r.stdout.filterMap line_t.service

/-- `pkg services`, and with `-r`, of a package. -/
def provided (sys : rc_system) (pkg_db : pkgdb) (pkg_name : Text) : List Text :=
  shown (pkg_services_main sys pkg_db ready [] [pkg_name])

def required_by (sys : rc_system) (pkg_db : pkgdb) (pkg_name : Text) : List Text :=
  shown (pkg_services_main sys pkg_db ready [.required] [pkg_name])

theorem package_shown (db : services_db_t) (required : Bool) (pkg_name : Text) :
    (print_packages db required 0 [pkg_name]).filterMap line_t.service
      = if required then dependents db pkg_name else owned db pkg_name := by
  have hentries : ∀ scripts : List ℕ,
      (match scripts with
        | [] => [line_t.unlisted required pkg_name]
        | scripts => .listed required pkg_name :: scripts.map fun script =>
          line_t.entry (script_name db script) (script_path db script)).filterMap line_t.service
        = scripts.map (script_name db) := by
    intro scripts
    cases scripts with
    | nil => rfl
    | cons script scripts =>
        simp only
        rw [List.filterMap_cons_none rfl, List.filterMap_map]
        exact congrFun (List.filterMap_eq_map (f := script_name db)) _
  rw [print_packages, print_packages, List.append_nil, if_neg (by simp), List.nil_append,
    print_package, hentries]
  cases required with
  | true => rfl
  | false =>
      rw [if_neg (by simp), if_neg (by simp), package_to_services_iterator, owned]
      cases db.packages.get pkg_name <;> rfl

theorem shown_pkg_services (hscan : services_db_scan_system sys pkg_db services_db_create = .ok db)
    (opts : List services_opt) (hother : .other ∉ opts) (pkg_name : Text) :
    shown (pkg_services_main sys pkg_db ready opts [pkg_name])
      = if .required ∈ opts then dependents db pkg_name else owned db pkg_name := by
  have hrun : (pkg_services_main sys pkg_db ready opts [pkg_name]).stdout
      = print_packages db (decide (.required ∈ opts)) 0 [pkg_name] := by
    simp [pkg_services_main, hother, databases_open, ready, hscan]
  rw [shown, hrun, package_shown]
  simp

/-- Whether a job concerns a service, by what the commands list of its package. -/
def job_lists (sys : rc_system) (pkg_db : pkgdb) (name : Text) (job : Text × pkg_solved_t) : Bool :=
  match job.2 with
  | .PKG_SOLVED_DELETE => (provided sys pkg_db job.1).contains name
  | .PKG_SOLVED_UPGRADE => (provided sys pkg_db job.1 ++ required_by sys pkg_db job.1).contains name
  | _ => false

theorem job_lists_iff (hscan : services_db_scan_system sys pkg_db services_db_create = .ok db)
    (name : Text) (job : Text × pkg_solved_t) :
    job_lists sys pkg_db name job = true
      ↔ (job.2 = .PKG_SOLVED_DELETE ∧ name ∈ owned db job.1)
        ∨ (job.2 = .PKG_SOLVED_UPGRADE ∧ (name ∈ owned db job.1 ∨ name ∈ dependents db job.1)) := by
  have hprovided : provided sys pkg_db job.1 = owned db job.1 := by
    rw [provided, shown_pkg_services hscan [] (by simp)]
    rfl
  have hrequired : required_by sys pkg_db job.1 = dependents db job.1 := by
    rw [required_by, shown_pkg_services hscan [.required] (by simp)]
    rfl
  unfold job_lists
  rw [hprovided, hrequired]
  cases job.2 <;> simp

/-- The last call of a job for a service. -/
theorem last_action_job_calls
    (hscan : services_db_scan_system sys pkg_db services_db_create = .ok db)
    (job : Text × pkg_solved_t) (name : Text) :
    last_action (job_calls db job) name = if job_lists sys pkg_db name job then
        if job.2 = .PKG_SOLVED_UPGRADE then some .SERVICE_ACTION_RESTART
        else some .SERVICE_ACTION_STOP
      else none := by
  have hiff := job_lists_iff hscan name job
  obtain ⟨pkg_name, solved⟩ := job
  by_cases hlists : job_lists sys pkg_db name (pkg_name, solved) = true
  · rw [if_pos hlists]
    rcases hiff.mp hlists with ⟨hsolved, hname⟩ | ⟨hsolved, hname⟩
    · simp only at hsolved
      subst hsolved
      rw [if_neg (by simp)]
      exact last_action_package_calls db pkg_name .stop false (Or.inl hname)
    · simp only at hsolved
      subst hsolved
      rw [if_pos rfl]
      exact last_action_package_calls db pkg_name .restart true (by simpa using hname)
  · rw [if_neg hlists, last_action_eq_none_iff]
    intro c hc hname
    apply hlists
    rw [hiff]
    have hasks : Asks (jobs_calls db [(pkg_name, solved)]) name c.action :=
      ⟨c, by simpa [jobs_calls] using hc, hname, rfl⟩
    rw [asks_jobs_calls] at hasks
    rcases hasks with ⟨-, p, hp, hmem⟩ | ⟨-, p, hp, hmem⟩
    · rw [List.mem_singleton, Prod.mk.injEq] at hp
      obtain ⟨rfl, rfl⟩ := hp
      exact Or.inl ⟨rfl, hmem⟩
    · rw [List.mem_singleton, Prod.mk.injEq] at hp
      obtain ⟨rfl, rfl⟩ := hp
      exact Or.inr ⟨rfl, hmem⟩

/-- The job that decides about a service. -/
def deciding (sys : rc_system) (pkg_db : pkgdb) (name : Text)
    (solved : List (Text × pkg_solved_t)) : Option (Text × pkg_solved_t) :=
  (solved.filter (job_lists sys pkg_db name)).getLast?

/-- The last call of all jobs for a service is that of the last job that concerns it. -/
theorem last_action_jobs_calls
    (hscan : services_db_scan_system sys pkg_db services_db_create = .ok db)
    (solved : List (Text × pkg_solved_t)) (name : Text) :
    last_action (jobs_calls db solved) name
      = (deciding sys pkg_db name solved).map fun job =>
        if job.2 = .PKG_SOLVED_UPGRADE then .SERVICE_ACTION_RESTART else .SERVICE_ACTION_STOP := by
  induction solved using List.reverseRecOn with
  | nil => rfl
  | append_singleton solved job ih =>
      rw [jobs_calls, List.flatMap_append, last_action_append, ← jobs_calls, ← jobs_calls, ih,
        jobs_calls, List.flatMap_singleton, last_action_job_calls hscan, deciding, deciding,
        List.filter_append]
      by_cases hlists : job_lists sys pkg_db name job = true
      · rw [if_pos hlists, List.filter_cons_of_pos hlists, List.filter_nil, List.getLast?_concat]
        split_ifs with hup <;> simp [hup]
      · rw [if_neg hlists, List.filter_cons_of_neg hlists, List.filter_nil, List.append_nil]
        rfl

theorem last_action_blocklist (jobs : pkg_jobs) (blocklist : List Text) (name : Text) :
    last_action (blocklist_calls jobs blocklist) name ≠ some .SERVICE_ACTION_RESTART := by
  intro hlast
  obtain ⟨c, ⟨hc, -⟩, haction⟩ := exists_of_last_action hlast
  unfold blocklist_calls at hc
  split at hc
  · obtain ⟨blocked, -, rfl⟩ := List.mem_map.mp hc
    exact absurd haction (by simp [selection_call.action])
  · exact absurd hc (by simp)

end Listed

/-- **The commands tell what the hook restarts.** Some behaviour of the processes makes the
hook restart a service if and only if it isn't a blocked one of an upgrade, and the last job
that concerns it is an upgrade: a deletion concerns the services that `pkg services` lists of
its package, an upgrade those of `pkg services -r` too. -/
theorem restart_iff_listed (sys : rc_system) (pkg_db : pkgdb) (jobs : pkg_jobs)
    (blocklist : List Text) (name : Text) :
    (∃ env, restart name ∈ executed sys pkg_db jobs blocklist env)
      ↔ ¬ (jobs.type = .PKG_JOBS_UPGRADE ∧ name ∈ blocklist)
        ∧ (deciding sys pkg_db name jobs.solved).map Prod.snd = some .PKG_SOLVED_UPGRADE := by
  have hblocked : selection_call.block name ∉ blocklist_calls jobs blocklist
      ↔ ¬ (jobs.type = .PKG_JOBS_UPGRADE ∧ name ∈ blocklist) := by
    unfold blocklist_calls
    by_cases hup : jobs.type = .PKG_JOBS_UPGRADE
    · simp [hup]
    · simp [hup, Ne.symm hup]
  have hlast : ∀ {db : services_db_t},
      services_db_scan_system sys pkg_db services_db_create = .ok db →
      (last_action (blocklist_calls jobs blocklist ++ jobs_calls db jobs.solved) name
          = some .SERVICE_ACTION_RESTART
        ↔ (deciding sys pkg_db name jobs.solved).map Prod.snd = some .PKG_SOLVED_UPGRADE) := by
    intro db hscan
    rw [last_action_append, last_action_jobs_calls hscan]
    cases deciding sys pkg_db name jobs.solved with
    | none => simpa using last_action_blocklist jobs blocklist name
    | some job => cases hsolved : job.2 <;> simp [hsolved]
  constructor
  · rintro ⟨env, hmem⟩
    obtain ⟨db, hscan, hblock, hrestart⟩ := restart_executed hmem
    exact ⟨hblocked.mp hblock, (hlast hscan).mp hrestart⟩
  · rintro ⟨hblock, hdeciding⟩
    cases hscan : services_db_scan_system sys pkg_db services_db_create with
    | ok db => exact exists_restart hscan (hblocked.mpr hblock) ((hlast hscan).mpr hdeciding)
    | error e =>
        -- the commands list nothing, so that no job is deciding
        have hshown : ∀ opts pkg_name,
            shown (pkg_services_main sys pkg_db ready opts [pkg_name]) = [] := by
          intro opts pkg_name
          unfold pkg_services_main
          split
          · rfl
          · simp [databases_open, ready, hscan, shown]
        have hnone : deciding sys pkg_db name jobs.solved = none := by
          rw [deciding, List.getLast?_eq_none_iff, List.filter_eq_nil_iff]
          intro job _
          unfold job_lists provided required_by
          rw [hshown, hshown]
          cases job.2 <;> simp
        rw [hnone] at hdeciding
        exact absurd hdeciding (by simp)

/-! ## What the commands leave behind -/

/-- A command closes what it opens, and releases a lock that it did not obtain just if it
says that the database is locked. -/
structure Tidy (r : command_run) : Prop where
  pkgdb : r.calls.count .pkgdb_close = r.calls.count .pkgdb_open
  services_db : r.calls.count .services_db_close = r.calls.count .services_db_create
  lock_le : r.calls.count .pkgdb_obtain_lock ≤ r.calls.count .pkgdb_release_lock
  lock : r.calls.count .pkgdb_obtain_lock < r.calls.count .pkgdb_release_lock
    ↔ r.error = some .locked

theorem tidy_of_no_calls {r : command_run} (hcalls : r.calls = [])
    (herror : r.error ≠ some .locked) : Tidy r := by
  constructor <;> simp [hcalls, herror]

/-- A run that opens the databases, with the result of that. -/
theorem tidy_of_databases {sys : rc_system} {pkg_db : pkgdb} {env : command_env} {r : command_run}
    (hcalls : r.calls = (databases_open sys pkg_db env).calls
      ++ databases_close (databases_open sys pkg_db env).pkg_db
        (databases_open sys pkg_db env).services_db)
    (herror : r.error = match (databases_open sys pkg_db env).scanned with
      | .error e => some e
      | .ok _ => none) : Tidy r := by
  unfold databases_open at hcalls herror
  cases hopened : env.pkgdb_opened with
  | false =>
      simp only [hopened, if_true] at hcalls herror
      constructor <;> simp [hcalls, herror, databases_close]
  | true =>
      cases hlock : env.lock_obtained with
      | false =>
          simp only [hopened, hlock, if_true] at hcalls herror
          constructor <;> simp [hcalls, herror, databases_close]
      | true =>
          cases hcreated : env.services_db_created with
          | false =>
              simp only [hopened, hlock, hcreated, if_true] at hcalls herror
              constructor <;> simp [hcalls, herror, databases_close]
          | true =>
              simp only [hopened, hlock, hcreated] at hcalls herror
              have hnot : r.error ≠ some .locked := by
                rw [herror]
                cases services_db_scan_system sys pkg_db services_db_create <;> simp
              constructor <;> simp [hcalls, hnot, databases_close]

/-- **A lock of another process**: whatever fails, both commands close each database as often
as they open it. `databases_close` releases the read lock whenever pkg's database is open, so
the command that couldn't obtain it, and only that one, releases a lock that isn't its own. -/
theorem commands_tidy (sys : rc_system) (pkg_db : pkgdb) (env : command_env) :
    (∀ opts argv, Tidy (pkg_services_main sys pkg_db env opts argv))
      ∧ ∀ memory opts argc r, pkg_rcorder_main sys pkg_db env memory opts argc = some r →
        Tidy r := by
  constructor
  · intro opts argv
    unfold pkg_services_main
    split
    · exact tidy_of_no_calls rfl (by simp)
    · simp only
      cases hscanned : (databases_open sys pkg_db env).scanned with
      | error e => exact tidy_of_databases rfl (by rw [hscanned])
      | ok db => exact tidy_of_databases rfl (by rw [hscanned])
  · intro memory opts argc r hrun
    unfold pkg_rcorder_main at hrun
    split at hrun
    · rw [Option.some.injEq] at hrun
      subst hrun
      exact tidy_of_no_calls rfl (by simp)
    · simp only at hrun
      split at hrun
      · rw [Option.some.injEq] at hrun
        subst hrun
        exact tidy_of_no_calls rfl (by simp)
      · cases hscanned : (databases_open sys pkg_db env).scanned with
        | error e =>
            rw [hscanned] at hrun
            rw [Option.some.injEq] at hrun
            subst hrun
            exact tidy_of_databases rfl (by rw [hscanned])
        | ok db =>
            rw [hscanned] at hrun
            obtain ⟨scripts, -, hsome⟩ := Option.bind_eq_some_iff.mp hrun
            rw [Option.some.injEq] at hsome
            subst hsome
            exact tidy_of_databases rfl (by rw [hscanned])

/-- `pkg rcorder` while another process has the lock. -/
theorem netAndWeb_locked : ∃ r, pkg_rcorder_main netAndWeb noPackages ⟨true, true, false, true⟩
      (fun _ => []) [.o] 0 = some r
    ∧ r.error = some .locked
    ∧ r.calls.count .pkgdb_obtain_lock < r.calls.count .pkgdb_release_lock :=
  ⟨_, rfl, rfl, ((commands_tidy netAndWeb noPackages ⟨true, true, false, true⟩).2 (fun _ => [])
    [.o] 0 _ rfl).lock.mpr rfl⟩

end PkgPlugins.ServicesCommands
