/-
The history over many runs of the plugin: `handle_hooks`, each time on what the time
before left in the file (`plugins/history/plugin_history.c`).

Whatever fails, the tables only grow (`hook_runs_grow`): no run deletes a row or
changes one, and the constraints stay. Where no run loses its transaction to the
insertion of the command, whose result is not looked at, the file is an append-only
log: each run puts down all of its record, or nothing (`hook_runs_log`).
-/
import PkgPlugins.HistoryQueries
import Mathlib.Data.List.Infix

set_option autoImplicit false

namespace PkgPlugins.HistoryRuns

open PkgPlugins.Pkg PkgPlugins.Sqlite PkgPlugins.History PkgPlugins.HistoryQueries

/-! ## Runs -/

/-- A run of a hook: its jobs, and how its SQLite steps end. -/
structure hook_run where
  hook : pkg_plugin_hook_t
  jobs : List (pkg_job × step_result)
  steps : hook_steps

section Runs

variable (new_rowid : List ℤ → ℤ)

/-- Runs one after the other. Each is a process of its own, or opens the file again:
it starts with what is in the file, and a transaction that is left open is lost. -/
def hook_runs : List hook_run → tables → Option (List pkg_error_t × tables)
  | [], t => some ([], t)
  | run :: runs, t => do
      let (status, left) ← handle_hooks new_rowid run.hook.jobs run.jobs run.steps t
      let (statuses, t) ← hook_runs runs left.durable
      some (status :: statuses, t)

/-! ## The tables grow -/

/-- Rows are added at the end, under the constraints that the tables are declared
with. -/
structure Grown (t t' : tables) : Prop where
  commands : t.commands <+: t'.commands
  lines : t.lines <+: t'.lines
  commands_id : (t'.commands.map history_command.id).Nodup
  lines_id : (t'.lines.map history_line.id).Nodup
  operation_id : ∀ l ∈ t'.lines, l.operation_id ∈ [PKG_OP_INSTALL, PKG_OP_DEINSTALL, PKG_OP_UPGRADE]

theorem Grown.refl (db : history_db) : Grown db.totables db.totables :=
  ⟨List.prefix_refl _, List.prefix_refl _, db.commands_id, db.lines_id, db.operation_id⟩

/-- The database that the tables have grown to. -/
def Grown.db {t t' : tables} (h : Grown t t') : history_db :=
  ⟨t', h.commands_id, h.lines_id, h.operation_id⟩

theorem Grown.trans {t t' t'' : tables} (h : Grown t t') (h' : Grown t' t'') : Grown t t'' :=
  ⟨h.commands.trans h'.commands, h.lines.trans h'.lines, h'.commands_id, h'.lines_id,
    h'.operation_id⟩

theorem nodup_append_rowid (hfresh : ∀ ids, new_rowid ids ∉ ids) {ids : List ℤ} (h : ids.Nodup) :
    (ids ++ [new_rowid ids]).Nodup := by
  rw [← List.concat_eq_append]
  exact h.concat (hfresh ids)

theorem Grown.create_command (hfresh : ∀ ids, new_rowid ids ∉ ids) {t t' : tables}
    (h : Grown t t') (now : ℤ) (cmd : List Char) :
    Grown t (create_command new_rowid now cmd t').1 where
  commands := h.commands.trans (List.prefix_append _ _)
  lines := h.lines
  commands_id := by
    rw [History.create_command, List.map_append]
    exact nodup_append_rowid new_rowid hfresh h.commands_id
  lines_id := h.lines_id
  operation_id := h.operation_id

theorem operation_mem {job_type : pkg_jobs_t} {solved_type : pkg_solved_t} {op : ℤ}
    (h : operation job_type solved_type = some op) :
    op ∈ [PKG_OP_INSTALL, PKG_OP_DEINSTALL, PKG_OP_UPGRADE] := by
  unfold operation at h
  cases job_type <;> simp at h <;> grind

theorem job_line_spec {job : pkg_job} {op command_id : ℤ} {row : ℤ → history_line}
    (h : job_line job op command_id = some row) (id : ℤ) :
    (row id).id = id ∧ (row id).operation_id = op ∧ (row id).command_id = command_id := by
  unfold job_line at h
  simp only [Option.bind_eq_bind, Option.bind_eq_some_iff, Option.some.injEq] at h
  obtain ⟨name, -, origin, -, version, -, rfl⟩ := h
  exact ⟨rfl, rfl, rfl⟩

theorem Grown.create_line (hfresh : ∀ ids, new_rowid ids ∉ ids) {t t' : tables}
    (h : Grown t t') {job : pkg_job} {job_type : pkg_jobs_t} {op command_id : ℤ}
    {row : ℤ → history_line} (hop : operation job_type job.solved_type = some op)
    (hrow : job_line job op command_id = some row) :
    Grown t (create_line new_rowid row t').1 where
  commands := h.commands
  lines := h.lines.trans (List.prefix_append _ _)
  commands_id := h.commands_id
  lines_id := by
    obtain ⟨hid, -, -⟩ := job_line_spec hrow (new_rowid (t'.lines.map history_line.id))
    rw [History.create_line, List.map_append, List.map_singleton, hid]
    exact nodup_append_rowid new_rowid hfresh h.lines_id
  operation_id := by
    obtain ⟨-, hoperation, -⟩ := job_line_spec hrow (new_rowid (t'.lines.map history_line.id))
    rw [History.create_line, List.forall_mem_append, List.forall_mem_singleton, hoperation]
    exact ⟨h.operation_id, operation_mem hop⟩

/-- The loop over the jobs, by what a round of it does. -/
theorem create_lines_holds (hfresh : ∀ ids, new_rowid ids ∉ ids) (t : tables)
    (hook : pkg_plugin_hook_t) (command_id : ℤ) (jobs : List (pkg_job × step_result)) :
    ∀ (db : sqlite_db_t tables) (fetch_status : ℤ), db.Holds (Grown t) →
      ∃ db' status, create_lines new_rowid hook.jobs command_id db fetch_status jobs
          = some (db', status) ∧ db'.Holds (Grown t) := by
  induction jobs with
  | nil => exact fun db fetch_status h => ⟨db, fetch_status, rfl, h⟩
  | cons job jobs ih =>
      intro db fetch_status h
      obtain ⟨-, op, row, hop, hrow, hrun⟩ | ⟨-, hrun⟩ | ⟨-, hrun⟩ :=
        create_lines_cons new_rowid hook command_id db fetch_status job jobs
      · rw [hrun]
        apply ih
        apply statement_fetch_holds h
        exact fun _ hgrown => hgrown.create_line new_rowid hfresh hop hrow
      · exact ⟨db, -1, hrun, h⟩
      · exact ⟨_, -1, hrun, h.durable, fun _ hnone => absurd hnone (by simp)⟩

theorem record_lines_holds (hfresh : ∀ ids, new_rowid ids ∉ ids) {t : tables}
    (hook : pkg_plugin_hook_t) (jobs : List (pkg_job × step_result)) (commit : step_result)
    (command_id : ℤ) {db : sqlite_db_t tables} (h : db.Holds (Grown t)) :
    ∃ status left, record_lines new_rowid hook.jobs jobs commit command_id db
        = some (status, left) ∧ left.Holds (Grown t) := by
  obtain ⟨db', fetch_status, hlines, hgrown⟩ :=
    create_lines_holds new_rowid hfresh t hook command_id jobs db 0 h
  rw [record_lines, hlines]
  have hcommit := sqlite_transaction_commit_holds hgrown commit
  by_cases hstatus : 0 ≠ fetch_status
  · exact ⟨.EPKG_FATAL, db', if_pos hstatus, hgrown⟩
  · cases hresult : sqlite_transaction_commit db' commit with
    | mk left ok =>
        rw [hresult] at hcommit
        cases ok with
        | true => exact ⟨.EPKG_OK, left, by simp [hstatus, hresult], hcommit⟩
        | false => exact ⟨.EPKG_FATAL, left, by simp [hstatus, hresult], hcommit⟩

theorem record_jobs_holds (hfresh : ∀ ids, new_rowid ids ∉ ids) {t : tables} (run : hook_run)
    {db : sqlite_db_t tables} (h : db.Holds (Grown t)) :
    ∃ status left, record_jobs new_rowid run.hook.jobs run.jobs run.steps db
        = some (status, left) ∧ left.Holds (Grown t) := by
  unfold record_jobs
  have hbegin := sqlite_transaction_begin_holds h run.steps.transaction_begin
  cases hcmd : run.steps.cmd with
  | none => exact ⟨_, _, rfl, h⟩
  | some cmd =>
      cases hresult : sqlite_transaction_begin db run.steps.transaction_begin with
      | mk begun ok =>
          rw [hresult] at hbegin
          cases ok with
          | false => exact ⟨_, _, rfl, hbegin⟩
          | true =>
              apply record_lines_holds new_rowid hfresh
              apply statement_fetch_holds hbegin
              exact fun _ hgrown => hgrown.create_command new_rowid hfresh run.steps.now cmd

/-- The close changes nothing in the file. -/
theorem closed_durable (is_open : Bool) (left : sqlite_db_t tables) :
    (if is_open = true then sqlite_close left else left).durable = left.durable := by
  split
  · exact sqlite_close_durable left
  · rfl

/-- After an opening that fails, the file is as it was. -/
theorem handle_hooks_unopened {run : hook_run} (hopen : run.steps.db_open.succeed = false)
    (t : tables) :
    ∃ left, handle_hooks new_rowid run.hook.jobs run.jobs run.steps t = some (.EPKG_FATAL, left)
      ∧ left.durable = t := by
  obtain ⟨hdurable, -, -, hfail⟩ := db_open_spec run.steps.db_open t
  refine ⟨_, ?_, (closed_durable (db_open run.steps.db_open t).2.is_open _).trans hdurable⟩
  simp [handle_hooks, hfail hopen]

/-- After one that succeeds, it is as the body leaves it. -/
theorem handle_hooks_durable {run : hook_run} (hopen : run.steps.db_open.succeed = true)
    {t : tables} {status : pkg_error_t} {left : sqlite_db_t tables}
    (hbody : record_jobs new_rowid run.hook.jobs run.jobs run.steps
      (db_open run.steps.db_open t).2 = some (status, left)) :
    ∃ left', handle_hooks new_rowid run.hook.jobs run.jobs run.steps t = some (status, left')
      ∧ left'.durable = left.durable := by
  obtain ⟨-, -, hok, -⟩ := db_open_spec run.steps.db_open t
  refine ⟨_, ?_, closed_durable (db_open run.steps.db_open t).2.is_open left⟩
  simp [handle_hooks, hbody, (hok hopen).1]

/-- **A run**, however its steps end, leaves tables that have grown. -/
theorem handle_hooks_grown (hfresh : ∀ ids, new_rowid ids ∉ ids) (run : hook_run)
    (db : history_db) :
    ∃ status left, handle_hooks new_rowid run.hook.jobs run.jobs run.steps db.totables
        = some (status, left) ∧ Grown db.totables left.durable := by
  obtain ⟨hdurable, hnone, -, -⟩ := db_open_spec run.steps.db_open db.totables
  have hopened : (db_open run.steps.db_open db.totables).2.Holds (Grown db.totables) := by
    refine ⟨?_, fun _ hsome => absurd (hnone.symm.trans hsome) (by simp)⟩
    rw [hdurable]
    exact Grown.refl db
  cases hopen : run.steps.db_open.succeed with
  | true =>
      obtain ⟨status, left, hbody, hgrown⟩ := record_jobs_holds new_rowid hfresh run hopened
      obtain ⟨left', hrun, hleft⟩ := handle_hooks_durable new_rowid hopen hbody
      exact ⟨status, left', hrun, hleft ▸ hgrown.durable⟩
  | false =>
      obtain ⟨left, hrun, hleft⟩ := handle_hooks_unopened new_rowid hopen db.totables
      exact ⟨.EPKG_FATAL, left, hrun, hleft ▸ Grown.refl db⟩

/-- Many runs leave tables that have grown. -/
theorem hook_runs_grown (hfresh : ∀ ids, new_rowid ids ∉ ids) (runs : List hook_run) :
    ∀ db : history_db, ∃ statuses t, hook_runs new_rowid runs db.totables = some (statuses, t)
      ∧ Grown db.totables t := by
  induction runs with
  | nil => exact fun db => ⟨[], db.totables, rfl, Grown.refl db⟩
  | cons run runs ih =>
      intro db
      obtain ⟨status, left, hrun, hgrown⟩ := handle_hooks_grown new_rowid hfresh run db
      obtain ⟨statuses, t, hruns, hrest⟩ := ih hgrown.db
      have hruns' : hook_runs new_rowid runs left.durable = some (statuses, t) := hruns
      refine ⟨status :: statuses, t, ?_, hgrown.trans hrest⟩
      simp [hook_runs, hrun, hruns']

theorem hook_runs_append (runs later : List hook_run) {statuses' : List pkg_error_t}
    {t' t'' : tables} (hlater : hook_runs new_rowid later t' = some (statuses', t'')) :
    ∀ {t : tables} {statuses : List pkg_error_t}, hook_runs new_rowid runs t = some (statuses, t') →
      hook_runs new_rowid (runs ++ later) t = some (statuses ++ statuses', t'') := by
  induction runs with
  | nil =>
      intro t statuses h
      obtain ⟨rfl, rfl⟩ : [] = statuses ∧ t = t' := by simpa [hook_runs] using h
      exact hlater
  | cons run runs ih =>
      intro t statuses h
      simp only [hook_runs, Option.bind_eq_bind, Option.bind_eq_some_iff] at h
      obtain ⟨⟨status, left⟩, hrun, ⟨statuses₁, t₁⟩, hruns, heq⟩ := h
      obtain ⟨rfl, rfl⟩ : status :: statuses₁ = statuses ∧ t₁ = t' := by simpa using heq
      simp [hook_runs, hrun, ih hruns]

/-- **No run takes anything back.** Whatever the runs are and however their steps end,
what some of them leave is still there, at the head of the tables, after the others,
and the constraints of the tables hold at both times. -/
theorem hook_runs_grow (hfresh : ∀ ids, new_rowid ids ∉ ids) (db : history_db)
    (runs later : List hook_run) :
    ∃ statuses t statuses' t', hook_runs new_rowid runs db.totables = some (statuses, t)
      ∧ hook_runs new_rowid (runs ++ later) db.totables = some (statuses ++ statuses', t')
      ∧ Grown db.totables t ∧ Grown t t' := by
  obtain ⟨statuses, t, hruns, hgrown⟩ := hook_runs_grown new_rowid hfresh runs db
  obtain ⟨statuses', t', hlater, hgrown'⟩ := hook_runs_grown new_rowid hfresh later hgrown.db
  refine ⟨statuses, t, statuses', t', hruns, ?_, hgrown, hgrown'⟩
  exact hook_runs_append new_rowid runs later hlater hruns

end Runs

/-! ## The log -/

/-- What a line tells of a package. -/
structure change_t where
  repo : Option (List Char)
  name : List Char
  origin : List Char
  old_version : Option (List Char)
  new_version : List Char
  operation_id : ℤ
deriving DecidableEq

/-- A command and what it did. -/
structure record_t where
  inserted_at : ℤ
  command : List Char
  changes : List change_t
deriving DecidableEq

/-- The line without the ids. -/
def change (l : history_line) : change_t :=
  ⟨l.repo, l.name, l.origin, l.old_version, l.new_version, l.operation_id⟩

/-- What the file says: the commands in the order of their rows, each with its lines. -/
def log_of (t : tables) : List record_t :=
  t.commands.map fun c => ⟨c.inserted_at, c.command, (lines_of t c).map change⟩

/-- What is to be put down of a job, if its package has what the columns need. -/
def job_change (job_type : pkg_jobs_t) (job : pkg_job) : Option change_t := do
  let op ← operation job_type job.solved_type
  let name ← job.new_pkg.name
  let origin ← job.new_pkg.origin
  let new_version ← job.new_pkg.version
  some ⟨job.new_pkg.reponame, name, origin, job.old_pkg.bind pkg.version, new_version, op⟩

/-- No step of the run fails. -/
def hook_run.succeeds (run : hook_run) : Bool :=
  run.steps.db_open.succeed && run.steps.transaction_begin = .done && run.steps.command = .done
    && run.jobs.all (fun job => job.2 = .done) && run.steps.commit = .done

/-- What a run is to put down: nothing if a step fails, the command line is not found, or
a package lacks a name, an origin or a version. -/
def hook_run.record (run : hook_run) : Option record_t :=
  if run.succeeds then do
    let cmd ← run.steps.cmd
    let changes ← run.jobs.mapM fun job => job_change run.hook.jobs job.1
    some ⟨run.steps.now, cmd, changes⟩
  else none

/-- The record of a job is what is to be put down of it, for the command. -/
theorem change_of_records {job_type : pkg_jobs_t} {command_id : ℤ} {job : pkg_job × step_result}
    {line : history_line} (h : Records job_type command_id job line) :
    job_change job_type job.1 = some (change line) ∧ line.command_id = command_id := by
  obtain ⟨op, row, hop, hrow, hline⟩ := h
  rw [hline]
  refine ⟨?_, (job_line_spec hrow line.id).2.2⟩
  unfold job_line at hrow
  simp only [Option.bind_eq_bind, Option.bind_eq_some_iff, Option.some.injEq] at hrow
  obtain ⟨name, hname, origin, horigin, version, hversion, rfl⟩ := hrow
  simp [job_change, hop, hname, horigin, hversion, change]

theorem changes_of_records {job_type : pkg_jobs_t} {command_id : ℤ}
    {jobs : List (pkg_job × step_result)} {lines : List history_line}
    (h : List.Forall₂ (Records job_type command_id) jobs lines) :
    (jobs.mapM fun job => job_change job_type job.1) = some (lines.map change)
      ∧ ∀ l ∈ lines, l.command_id = command_id := by
  induction h with
  | nil => exact ⟨rfl, by simp⟩
  | cons hjob _ ih =>
      obtain ⟨hchange, hid⟩ := change_of_records hjob
      rw [List.mapM_cons, ih.1, hchange, List.map_cons, List.forall_mem_cons]
      exact ⟨rfl, hid, ih.2⟩

/-- A job that is put down is one whose line is inserted, if its insertion is done. -/
theorem recordable_of_change {job_type : pkg_jobs_t} {job : pkg_job} {c : change_t}
    (h : job_change job_type job = some c) : job.new_pkg.recordable = true := by
  simp only [job_change, Option.bind_eq_bind, Option.bind_eq_some_iff] at h
  obtain ⟨op, -, name, hname, origin, horigin, version, hversion, -⟩ := h
  simp [pkg.recordable, hname, horigin, hversion]

theorem recordable_of_changes {job_type : pkg_jobs_t} (jobs : List (pkg_job × step_result)) :
    ∀ changes, (jobs.mapM fun job => job_change job_type job.1) = some changes →
      ∀ job ∈ jobs, job.1.new_pkg.recordable = true := by
  induction jobs with
  | nil => simp
  | cons job jobs ih =>
      intro changes h
      rw [List.mapM_cons] at h
      simp only [Option.bind_eq_bind, Option.bind_eq_some_iff] at h
      obtain ⟨c, hc, cs, hcs, -⟩ := h
      rw [List.forall_mem_cons]
      exact ⟨recordable_of_change hc, ih cs hcs⟩

/-- **A run that is to put down a record** is one of which every step is done, the
constraints on the lines included. -/
theorem hook_run.of_record {run : hook_run} {r : record_t} (h : run.record = some r) :
    run.steps.begun ∧ run.steps.command = .done
      ∧ ∀ result ∈ later_results run.jobs run.steps, result = .done := by
  unfold hook_run.record at h
  split at h
  case isFalse => exact absurd h (by simp)
  case isTrue hsucceeds =>
    simp only [Option.bind_eq_bind, Option.bind_eq_some_iff] at h
    obtain ⟨cmd, hcmd, changes, hchanges, -⟩ := h
    simp only [hook_run.succeeds, Bool.and_eq_true, decide_eq_true_eq, List.all_eq_true]
      at hsucceeds
    obtain ⟨⟨⟨⟨hopen, hbegin⟩, hcommand⟩, hjobs⟩, hcommit⟩ := hsucceeds
    refine ⟨⟨hopen, by simp [hcmd], hbegin⟩, hcommand, ?_⟩
    rw [later_results, List.forall_mem_append, List.forall_mem_singleton, List.forall_mem_map]
    refine ⟨fun job hjob => ?_, hcommit⟩
    rw [line_result, if_pos (recordable_of_changes run.jobs changes hchanges job hjob)]
    exact hjobs job hjob

/-- And it puts it down. -/
theorem hook_run.record_eq {run : hook_run} (hbegun : run.steps.begun)
    (hcommand : run.steps.command = .done)
    (hdone : ∀ result ∈ later_results run.jobs run.steps, result = .done) {cmd : List Char}
    (hcmd : run.steps.cmd = some cmd) {command_id : ℤ} {lines : List history_line}
    (hlines : List.Forall₂ (Records run.hook.jobs command_id) run.jobs lines) :
    run.record = some ⟨run.steps.now, cmd, lines.map change⟩ := by
  obtain ⟨hopen, -, hbegin⟩ := hbegun
  rw [later_results, List.forall_mem_append, List.forall_mem_singleton, List.forall_mem_map]
    at hdone
  have hjobs : ∀ job ∈ run.jobs, job.2 = .done := by
    intro job hjob
    have hline := hdone.1 job hjob
    unfold line_result at hline
    split at hline
    · exact hline
    · exact absurd hline (by simp)
  have hsucceeds : run.succeeds = true := by
    simp only [hook_run.succeeds, hopen, hbegin, hcommand, hdone.2, List.all_eq_true.mpr
      (fun job hjob => decide_eq_true (hjobs job hjob))]
    rfl
  rw [hook_run.record, if_pos hsucceeds, hcmd, (changes_of_records hlines).1]
  rfl

/-! ## The file is the log -/

/-- The numbers from 1 on. -/
def rowids (n : ℕ) : List ℤ := (List.range n).map fun i : ℕ => (i : ℤ) + 1

theorem rowids_succ (n : ℕ) : rowids (n + 1) = rowids n ++ [(n : ℤ) + 1] := by
  rw [rowids, rowids, List.range_succ, List.map_append, List.map_singleton]

theorem mem_rowids {n : ℕ} {id : ℤ} (h : id ∈ rowids n) : 0 < id ∧ id ≤ n := by
  obtain ⟨i, hi, rfl⟩ := List.mem_map.mp h
  rw [List.mem_range] at hi
  omega

theorem next_rowid_rowids (n : ℕ) : next_rowid (rowids n) = n + 1 := by
  have hmax : (rowids n).foldl max 0 = n := by
    induction n with
    | zero => rfl
    | succ n ih =>
        rw [rowids_succ, List.foldl_append, ih, List.foldl_cons, List.foldl_nil,
          max_eq_right (by omega)]
        omega
  rw [next_rowid, hmax]

/-- The file holds the log: the commands are numbered from 1 on, and each line is one
of a command. -/
structure Recorded (log : List record_t) (t : tables) : Prop where
  log : log_of t = log
  ids : t.commands.map history_command.id = rowids t.commands.length
  owned : ∀ l ∈ t.lines, l.command_id ∈ t.commands.map history_command.id

theorem Recorded.nil : Recorded [] ⟨[], []⟩ := ⟨rfl, rfl, by simp⟩

theorem Recorded.length {log : List record_t} {t : tables} (h : Recorded log t) :
    t.commands.length = log.length := by
  rw [← h.log, log_of, List.length_map]

theorem Recorded.id_bounds {log : List record_t} {t : tables} (h : Recorded log t) :
    ∀ id ∈ t.commands.map history_command.id, 0 < id ∧ id ≤ log.length := by
  rw [h.ids, h.length]
  exact fun id hid => mem_rowids hid

/-- **A command of a new id, with its lines**, is one more record: the lines of the
others are what they were, and it has no lines of theirs. -/
theorem log_of_append {t : tables} {c : history_command} {lines : List history_line}
    (howned : ∀ l ∈ t.lines, l.command_id ∈ t.commands.map history_command.id)
    (hnew : c.id ∉ t.commands.map history_command.id)
    (hlines : ∀ l ∈ lines, l.command_id = c.id) :
    log_of ⟨t.commands ++ [c], t.lines ++ lines⟩
      = log_of t ++ [⟨c.inserted_at, c.command, lines.map change⟩] := by
  have hothers : ∀ c' ∈ t.commands,
      lines_of ⟨t.commands ++ [c], t.lines ++ lines⟩ c' = lines_of t c' := by
    intro c' hc'
    have hne : c'.id ≠ c.id := by
      intro heq
      exact hnew (heq ▸ List.mem_map_of_mem hc')
    have hnone : lines.filter (fun l => l.command_id = c'.id) = [] := by
      rw [List.filter_eq_nil_iff]
      intro l hl
      simpa [hlines l hl] using Ne.symm hne
    rw [lines_of, lines_of, List.filter_append, hnone, List.append_nil]
  have hown : lines_of ⟨t.commands ++ [c], t.lines ++ lines⟩ c = lines := by
    have hnone : t.lines.filter (fun l => l.command_id = c.id) = [] := by
      rw [List.filter_eq_nil_iff]
      intro l hl
      have hne : l.command_id ≠ c.id := fun heq => hnew (heq ▸ howned l hl)
      simpa using hne
    have hall : lines.filter (fun l => l.command_id = c.id) = lines := by
      rw [List.filter_eq_self]
      intro l hl
      simpa using hlines l hl
    rw [lines_of, List.filter_append, hnone, hall, List.nil_append]
  rw [log_of, log_of, List.map_append, List.map_singleton, hown]
  congr 1
  apply List.map_congr_left
  intro c' hc'
  rw [hothers c' hc']

section Log

/-- What SQLite gives as rowids, where they are `INTEGER PRIMARY KEY`: one that is not
there, which is one more than the largest as long as that can be. -/
structure Rowids (new_rowid : List ℤ → ℤ) : Prop where
  fresh : ∀ ids, new_rowid ids ∉ ids
  next : ∀ ids, (∀ id ∈ ids, 0 < id ∧ id < 2 ^ 63 - 1) → new_rowid ids = next_rowid ids

variable {new_rowid : List ℤ → ℤ} {log : List record_t} {t : tables}

/-- The id of the next command. -/
theorem Recorded.next (hrowid : Rowids new_rowid) (h : Recorded log t)
    (hlength : log.length < 2 ^ 31) :
    new_rowid (t.commands.map history_command.id) = log.length + 1 := by
  have hbounds : ∀ id ∈ t.commands.map history_command.id, 0 < id ∧ id < 2 ^ 63 - 1 := by
    intro id hid
    have := h.id_bounds id hid
    omega
  rw [hrowid.next _ hbounds, h.ids, next_rowid_rowids, h.length]

/-- The file after a commit holds one record more. -/
theorem Recorded.append (hrowid : Rowids new_rowid) (h : Recorded log t)
    (hlength : log.length < 2 ^ 31) (now : ℤ) (cmd : List Char) {lines : List history_line}
    (hlines : ∀ l ∈ lines, l.command_id = new_rowid (t.commands.map history_command.id)) :
    Recorded (log ++ [⟨now, cmd, lines.map change⟩])
      ⟨t.commands ++ [⟨new_rowid (t.commands.map history_command.id), now, cmd⟩],
        t.lines ++ lines⟩ where
  log := by
    rw [← h.log]
    exact log_of_append h.owned (hrowid.fresh _) hlines
  ids := by
    rw [List.map_append, List.map_singleton, h.next hrowid hlength, h.ids, List.length_append,
      List.length_singleton, rowids_succ, h.length]
  owned := by
    rw [List.forall_mem_append, List.map_append]
    refine ⟨fun l hl => List.mem_append_left _ (h.owned l hl), fun l hl => ?_⟩
    rw [hlines l hl]
    exact List.mem_append_right _ (by simp)

/-- The body of a run, after an opening that succeeds. -/
theorem record_jobs_recorded (hrowid : Rowids new_rowid) (h : Recorded log t)
    (hlength : log.length < 2 ^ 31 - 1) (run : hook_run)
    (hcommand : run.steps.begun → run.steps.command = .done)
    (hopen : run.steps.db_open.succeed = true) :
    ∃ left, record_jobs new_rowid run.hook.jobs run.jobs run.steps (db_open run.steps.db_open t).2
        = some (if run.record.isSome then .EPKG_OK else .EPKG_FATAL, left)
      ∧ Recorded (log ++ run.record.toList) left.durable := by
  obtain ⟨hdurable, hnone, -, -⟩ := db_open_spec run.steps.db_open t
  by_cases hbegun : run.steps.begun
  · have hdone := hcommand hbegun
    obtain ⟨cmd, hcmd⟩ := Option.ne_none_iff_exists'.mp hbegun.2.1
    obtain ⟨begun, hbegin, db, hdb, hrun⟩ :=
      record_jobs_begun new_rowid run.hook.jobs run.jobs hcmd hbegun.2.2 hnone
    have hin : begun.transaction = some t := by
      rw [hbegin]
      exact congrArg some hdurable
    -- the command has the next id, which an int holds
    set id := new_rowid (t.commands.map history_command.id) with hid
    have hnext : id = log.length + 1 := h.next hrowid (by omega)
    have hcommands : db.transaction
        = some ⟨t.commands ++ [⟨id, run.steps.now, cmd⟩], t.lines⟩ := by
      simp [hdb, hdone, statement_fetch, sqlite_db_t.put, sqlite_db_t.view, create_command,
        hin, id]
    have hkept : db.durable = t := by
      rw [hdb, statement_fetch_durable (by simp [hin]), hbegin, hdurable]
    have hlast : sqlite_last_insert_id db = id := by
      have hrowid' : db.last_insert_rowid = id := by
        simp [hdb, hdone, statement_fetch, sqlite_db_t.view, create_command, hin, id]
      rw [sqlite_last_insert_id, hrowid']
      exact (bmod_eq_self_iff id).mpr (by omega)
    rw [hlast] at hrun
    -- by the first of the lines and the commit that is not done, if there is one
    cases hfind : (later_results run.jobs run.steps).find? (· ≠ .done) with
    | none =>
        have hall : ∀ r ∈ later_results run.jobs run.steps, r = .done := by
          simpa using List.find?_eq_none.mp hfind
        obtain ⟨left, lines, hlines, -, hleft, hrecords⟩ :=
          record_lines_done new_rowid run.hook hall id hcommands
        refine ⟨left, ?_, ?_⟩
        · rw [hrun, hlines, hook_run.record_eq hbegun hdone hall hcmd hrecords]
          rfl
        · rw [hleft, hook_run.record_eq hbegun hdone hall hcmd hrecords]
          exact h.append hrowid (by omega) run.steps.now cmd (changes_of_records hrecords).2
    | some r =>
        obtain ⟨left, hlines, -, hleft, -⟩ :=
          record_lines_stopped new_rowid run.hook hfind id hcommands
        have hrecord : run.record = none := by
          rw [Option.eq_none_iff_forall_ne_some]
          intro record hsome
          have hdone' := (hook_run.of_record hsome).2.2 r (List.mem_of_find?_eq_some hfind)
          exact absurd hdone' (by simpa using List.find?_some hfind)
        refine ⟨left, ?_, ?_⟩
        · rw [hrun, hlines, hrecord]
          rfl
        · rw [hleft, hkept, hrecord, Option.toList_none, List.append_nil]
          exact h
  · have hstop : run.steps.cmd = none ∨ run.steps.transaction_begin ≠ .done := by
      rw [hook_steps.begun, hopen] at hbegun
      tauto
    have hrecord : run.record = none := by
      rw [Option.eq_none_iff_forall_ne_some]
      intro record hsome
      exact hbegun (hook_run.of_record hsome).1
    refine ⟨(db_open run.steps.db_open t).2, ?_, ?_⟩
    · rw [record_jobs_not_begun new_rowid run.hook.jobs run.jobs hstop hnone, hrecord]
      rfl
    · rw [hdurable, hrecord, Option.toList_none, List.append_nil]
      exact h

/-- **A run puts down its record**, and returns `EPKG_OK`, or it puts down nothing. -/
theorem handle_hooks_recorded (hrowid : Rowids new_rowid) (h : Recorded log t)
    (hlength : log.length < 2 ^ 31 - 1) (run : hook_run)
    (hcommand : run.steps.begun → run.steps.command = .done) :
    ∃ left, handle_hooks new_rowid run.hook.jobs run.jobs run.steps t
        = some (if run.record.isSome then .EPKG_OK else .EPKG_FATAL, left)
      ∧ Recorded (log ++ run.record.toList) left.durable := by
  cases hopen : run.steps.db_open.succeed with
  | true =>
      obtain ⟨left, hbody, hrecorded⟩ :=
        record_jobs_recorded hrowid h hlength run hcommand hopen
      obtain ⟨left', hrun, hleft⟩ := handle_hooks_durable new_rowid hopen hbody
      exact ⟨left', hrun, hleft ▸ hrecorded⟩
  | false =>
      have hrecord : run.record = none := by
        rw [Option.eq_none_iff_forall_ne_some]
        intro record hsome
        exact absurd ((hook_run.of_record hsome).1.1.symm.trans hopen) (by simp)
      obtain ⟨left, hrun, hleft⟩ := handle_hooks_unopened new_rowid hopen t
      rw [hrecord, Option.toList_none, List.append_nil]
      exact ⟨left, hrun, hleft ▸ h⟩

theorem hook_runs_recorded (hrowid : Rowids new_rowid) (runs : List hook_run) :
    ∀ (log : List record_t) (t : tables), Recorded log t →
      (∀ run ∈ runs, run.steps.begun → run.steps.command = .done) →
      log.length + runs.length < 2 ^ 31 →
      ∃ t', hook_runs new_rowid runs t
          = some (runs.map fun run => if run.record.isSome then .EPKG_OK else .EPKG_FATAL, t')
        ∧ Recorded (log ++ runs.filterMap hook_run.record) t' := by
  induction runs with
  | nil =>
      intro log t h _ _
      exact ⟨t, rfl, by rwa [List.filterMap_nil, List.append_nil]⟩
  | cons run runs ih =>
      intro log t h hcommand hlength
      rw [List.forall_mem_cons] at hcommand
      rw [List.length_cons] at hlength
      obtain ⟨left, hrun, hleft⟩ := handle_hooks_recorded hrowid h (by omega) run hcommand.1
      have hlog : (log ++ run.record.toList).length ≤ log.length + 1 := by
        rw [List.length_append]
        cases run.record <;> simp
      obtain ⟨t', hrest, hrecorded⟩ := ih _ left.durable hleft hcommand.2 (by omega)
      refine ⟨t', ?_, ?_⟩
      · simp [hook_runs, hrun, hrest]
      · rw [List.append_assoc] at hrecorded
        cases hrecord : run.record with
        | none => simpa [hrecord] using hrecorded
        | some r => simpa [hrecord] using hrecorded

/-- **The history is an append-only log.** Of runs that begin with an empty file, and
of which none loses the insertion of its command, each returns `EPKG_OK` just if there
is a record to be put down, and the file holds these records, in the order of the runs. -/
theorem hook_runs_log (hrowid : Rowids new_rowid) (runs : List hook_run)
    (hcommand : ∀ run ∈ runs, run.steps.begun → run.steps.command = .done)
    (hlength : runs.length < 2 ^ 31) :
    ∃ t, hook_runs new_rowid runs ⟨[], []⟩
        = some (runs.map fun run => if run.record.isSome then .EPKG_OK else .EPKG_FATAL, t)
      ∧ Recorded (runs.filterMap hook_run.record) t :=
  hook_runs_recorded hrowid runs [] ⟨[], []⟩ Recorded.nil hcommand (by simpa using hlength)

end Log

/-! ## A lock, and then none -/

theorem le_foldl_max (ids : List ℤ) :
    ∀ largest : ℤ, largest ≤ ids.foldl max largest ∧ ∀ id ∈ ids, id ≤ ids.foldl max largest := by
  induction ids with
  | nil => simp
  | cons id ids ih =>
      intro largest
      obtain ⟨hlargest, hids⟩ := ih (max largest id)
      rw [List.foldl_cons, List.forall_mem_cons]
      exact ⟨(le_max_left _ _).trans hlargest, (le_max_right _ _).trans hlargest, hids⟩

theorem next_rowid_spec : Rowids next_rowid where
  fresh ids hmem := by
    have hle := (le_foldl_max ids 0).2 _ hmem
    rw [next_rowid] at hle
    omega
  next _ _ := rfl

/-- The database is locked when the second line is to be inserted. -/
def locked_run : hook_run :=
  ⟨.PKG_PLUGIN_HOOK_POST_INSTALL, [(install "a", .done), (install "b", .failed)], locked_steps⟩

def unlocked_run : hook_run :=
  ⟨.PKG_PLUGIN_HOOK_POST_INSTALL, [(install "b", .done)], locked_steps⟩

/-- A history with one command. -/
def one_line : history_db where
  commands := [⟨1, 1000, "pkg delete vim".toList⟩]
  lines := [⟨1, none, "vim".toList, "editors/vim".toList, none, "9.1".toList, PKG_OP_DEINSTALL, 1⟩]
  commands_id := by simp
  lines_id := by simp
  operation_id := by simp

/-- The second run finds nothing of the first. -/
theorem locked_then_unlocked : ∃ t, hook_runs next_rowid [locked_run, unlocked_run] ⟨[], []⟩
      = some ([.EPKG_FATAL, .EPKG_OK], t)
    ∧ Recorded [⟨1700000000, "pkg install a b".toList, [⟨some "FreeBSD".toList, "b".toList,
        "misc/b".toList, none, "1.0".toList, PKG_OP_INSTALL⟩]⟩] t :=
  hook_runs_log next_rowid_spec [locked_run, unlocked_run]
    (by simp [locked_run, unlocked_run, locked_steps]) (by decide)

/-- And no row is lost, whatever the file held. -/
theorem locked_grow : ∃ statuses t statuses' t',
    hook_runs next_rowid [locked_run] one_line.totables = some (statuses, t)
      ∧ hook_runs next_rowid [locked_run, unlocked_run] one_line.totables
        = some (statuses ++ statuses', t')
      ∧ Grown one_line.totables t ∧ Grown t t' :=
  hook_runs_grow next_rowid next_rowid_spec.fresh one_line [locked_run] [unlocked_run]

end PkgPlugins.HistoryRuns
