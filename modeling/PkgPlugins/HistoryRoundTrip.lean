/-
What the runs of the plugin put down is what the full listing shows
(`plugins/history/plugin_history.c`).

The two halves meet at `Ticking`: the file holds a log of commands that each did
something, no two in one second. The runs of `handle_hooks` leave such a file, and
`display_history_full` shows such a file as its log, the newest command first.
-/
import PkgPlugins.HistoryReport
import PkgPlugins.HistoryRuns
import Mathlib.Data.List.Sort
import Mathlib.Data.Set.List

set_option autoImplicit false

namespace PkgPlugins.HistoryRoundTrip

open PkgPlugins.Pkg PkgPlugins.Sqlite PkgPlugins.History PkgPlugins.HistoryQueries
open PkgPlugins.Listing PkgPlugins.HistoryAgree PkgPlugins.HistoryReport PkgPlugins.HistoryRuns

/-! ## What a reader sees -/

/-- A header and what is below it; `none` is "no operation". -/
structure block_t where
  inserted_at : ℤ
  command : Option (List Char)
  packages : List (Option package_t)
deriving DecidableEq

/-- What is printed, as a reader sees it: the packages above the first header, and the
blocks. -/
def blocks : List printed_t → List (Option package_t) × List block_t
  | [] => ([], [])
  | .command _ inserted_at command :: ps =>
      ([], ⟨inserted_at, command, (blocks ps).1⟩ :: (blocks ps).2)
  | .package _ p :: ps => (some p :: (blocks ps).1, (blocks ps).2)
  | .no_operation _ :: ps => (none :: (blocks ps).1, (blocks ps).2)
  | .newline :: ps => blocks ps
  | .package_header :: ps => blocks ps
  | .nothing_to_show :: ps => blocks ps

/-- How a change is to be shown. -/
def shown (qo : query_options_t) (c : change_t) : package_t where
  operation := c.operation_id
  name := some (if qo.use_origin then c.origin else c.name)
  repo := c.repo
  new_version := some c.new_version
  old_version := c.old_version

/-- The block shows the record: its time, its command line, and its changes by name. -/
def Shows (qo : query_options_t) (b : block_t) (r : record_t) : Prop :=
  b.inserted_at = r.inserted_at ∧ b.command = some r.command
    ∧ ∃ changes : List change_t, changes.Perm r.changes
      ∧ (changes.Pairwise fun c c' => c.name ≤ c'.name)
      ∧ b.packages = changes.map fun c => some (shown qo c)

/-- The record is of a time between the bounds. -/
def asked (qo : query_options_t) (r : record_t) : Bool :=
  qo.from_ ≤ r.inserted_at ∧ r.inserted_at ≤ qo.to_

/-! ## The loop -/

/-- The columns of a row that a header shows. -/
theorem read_full_header (qo : query_options_t) (r : joined) (vars : vars_t) :
    (read_full qo r vars).command = some r.command.command := by
  by_cases horigin : qo.use_origin = true
  · simp [read_full, line_binds, line_columns, horigin, statement_iterator_current,
      set_output_bind, sqlite3_column_text]
  · simp [read_full, line_binds, line_columns, horigin, statement_iterator_current,
      set_output_bind, sqlite3_column_text]

/-- The block of a run. -/
def block_of (qo : query_options_t) (s : joined × List joined) : block_t :=
  ⟨s.1.command.inserted_at, some s.1.command.command, s.2.map fun r => some (package_of qo r)⟩

/-- **The loop makes a block of each run.** -/
theorem blocks_full_loop (qo : query_options_t) (rows : List joined) :
    (∀ r ∈ rows, ∃ l, r.line = some l) → ∀ (previous : ℤ) (vars : vars_t),
      blocks (full_loop qo previous vars rows)
        = ((runs id_key previous rows).1.map fun r => some (package_of qo r),
          (runs id_key previous rows).2.map (block_of qo)) := by
  induction rows with
  | nil => intro _ previous vars; rfl
  | cons r rs ih =>
      intro hline previous vars
      rw [List.forall_mem_cons] at hline
      obtain ⟨hid, htime, hname, hpackage⟩ := read_full_eq qo r vars
      have hrest := ih hline.2 (read_full qo r vars).command_id (read_full qo r vars)
      rw [hid] at hrest
      rw [full_loop, hname, if_neg (package_of_name hline.1), hpackage, hid, htime,
        read_full_header]
      by_cases hkey : previous = int32 r.command.id
      · rw [if_neg (not_not.mpr hkey), runs_unchanged id_key hkey]
        simp only [List.nil_append, List.cons_append, blocks, hrest]
        rfl
      · rw [if_pos hkey, runs_changed id_key hkey]
        split <;> simp only [List.nil_append, List.cons_append, blocks, hrest] <;> rfl

/-! ## Files that tick -/

/-- The file holds the log, whose commands did something each, at a later second than
the one before. -/
structure Ticking (log : List record_t) (db : history_db) : Prop where
  recorded : Recorded log db.totables
  length : log.length < 2 ^ 31
  changes : ∀ r ∈ log, r.changes ≠ []
  clock : log.Pairwise fun r r' => r.inserted_at < r'.inserted_at

section Ticking

variable {log : List record_t} {db : history_db} {qo : query_options_t}

/-- The record of a command. -/
def record_of (t : tables) (c : history_command) : record_t :=
  ⟨c.inserted_at, c.command, (lines_of t c).map change⟩

theorem Ticking.log_eq (h : Ticking log db) : db.commands.map (record_of db.totables) = log :=
  h.recorded.log

theorem Ticking.lines (h : Ticking log db) {c : history_command} (hc : c ∈ db.commands) :
    lines_of db.totables c ≠ [] := by
  intro hnil
  have hmem : record_of db.totables c ∈ log := h.log_eq ▸ List.mem_map_of_mem hc
  exact h.changes _ hmem (by rw [record_of, hnil, List.map_nil])

theorem Ticking.commands_clock (h : Ticking log db) :
    db.commands.Pairwise fun c c' => c.inserted_at < c'.inserted_at := by
  have hclock := h.clock
  rw [← h.log_eq, List.pairwise_map] at hclock
  exact hclock

/-- A second tells the command. -/
theorem Ticking.command_eq (h : Ticking log db) {c c' : history_command} (hc : c ∈ db.commands)
    (hc' : c' ∈ db.commands) (htime : c.inserted_at = c'.inserted_at) : c = c' := by
  have hnodup : (db.commands.map history_command.inserted_at).Nodup := by
    rw [List.nodup_iff_pairwise_ne, List.pairwise_map]
    exact h.commands_clock.imp fun hlt => hlt.ne
  exact List.inj_on_of_nodup_map hnodup hc hc' htime

/-- An int holds the id of a command. -/
theorem Ticking.int32_id (h : Ticking log db) {c : history_command} (hc : c ∈ db.commands) :
    0 < c.id ∧ int32 c.id = c.id := by
  obtain ⟨hpos, hle⟩ := h.recorded.id_bounds c.id (List.mem_map_of_mem hc)
  have hlength := h.length
  exact ⟨hpos, (bmod_eq_self_iff c.id).mpr (by omega)⟩

theorem command_of_row {r : joined} (hr : r ∈ rows_between db.totables qo) :
    r.command ∈ db.commands :=
  List.mem_of_mem_filter (mem_rows_between.mp hr).1

/-- **The commands are kept apart**, so that the listing is a report. -/
theorem Ticking.separable (h : Ticking log db) : Separable db.totables qo where
  lines c hc := h.lines (List.mem_of_mem_filter hc)
  names r hr r' hr' m hm _ hcommand hrm hmr := by
    apply h.command_eq (command_of_row hm) (command_of_row hr)
    -- the row between two of one second is of that second
    have hrm' : m.command.inserted_at ≤ r.command.inserted_at := by
      unfold by_date_and_name at hrm
      grind
    have hmr' : r'.command.inserted_at ≤ m.command.inserted_at := by
      unfold by_date_and_name at hmr
      grind
    rw [← hcommand] at hmr'
    omega
  ids r hr r' hr' hkey _ := by
    left
    rw [id_key, id_key, (h.int32_id (command_of_row hr)).2, (h.int32_id (command_of_row hr')).2]
      at hkey
    exact List.inj_on_of_nodup_map db.commands_id (command_of_row hr) (command_of_row hr') hkey
  first r hr hkey := by
    obtain ⟨hpos, hint⟩ := h.int32_id (command_of_row hr)
    rw [id_key, hint] at hkey
    omega

/-- The blocks of an answer, one for each run of it. -/
theorem blocks_of_answer (vars : vars_t) {answer : List joined}
    (horder : Ordered by_date_and_name (rows_between db.totables qo) answer) :
    blocks (display_history_full qo vars answer)
      = ((runs id_key (-1) answer).1.map fun r => some (package_of qo r),
        (runs id_key (-1) answer).2.map (block_of qo)) := by
  unfold display_history_full
  by_cases hnil : answer = []
  · rw [if_pos hnil, hnil]
    rfl
  · rw [if_neg hnil]
    apply blocks_full_loop
    intro r hr
    exact rows_between_line (horder.perm.mem_iff.mp hr)

/-- The runs are cut out of the answer. -/
theorem flat_sublist (answer : List joined) :
    ((runs id_key (-1) answer).2.map Prod.snd).flatten.Sublist answer := by
  have hflat := runs_flatten id_key answer (-1)
  rw [List.flatMap_def] at hflat
  conv_rhs => rw [← hflat]
  exact List.sublist_append_right _ _

/-- They are led by rows of it, in its order. -/
theorem leaders_sublist (answer : List joined) :
    ((runs id_key (-1) answer).2.map Prod.fst).Sublist answer := by
  have hleaders : ∀ groups : List (joined × List joined), (∀ s ∈ groups, s.1 ∈ s.2) →
      (groups.map Prod.fst).Sublist (groups.map Prod.snd).flatten := by
    intro groups
    induction groups with
    | nil => intro _; exact List.Sublist.refl []
    | cons s groups ih =>
        intro hmem
        rw [List.forall_mem_cons] at hmem
        exact (List.singleton_sublist.mpr hmem.1).append (ih hmem.2)
  exact (hleaders _ (runs_leader id_key answer (-1))).trans (flat_sublist answer)

/-- **The headers**: the commands between the bounds, the newest first. -/
theorem Ticking.headers_eq (h : Ticking log db) {answer : List joined}
    (horder : Ordered by_date_and_name (rows_between db.totables qo) answer) :
    ((runs id_key (-1) answer).2.map fun s => s.1.command)
      = (commands_between db.totables qo).reverse := by
  have hreported := h.separable.reported horder
  have hnewest : ((runs id_key (-1) answer).2.map fun s => s.1.command).Pairwise
      fun c c' => c'.inserted_at ≤ c.inserted_at := by
    have hsorted := horder.sorted.sublist (leaders_sublist answer)
    rw [List.pairwise_map] at hsorted ⊢
    refine hsorted.imp ?_
    intro s s' hle
    unfold by_date_and_name at hle
    grind
  have hreverse : (commands_between db.totables qo).reverse.Pairwise
      fun c c' => c'.inserted_at ≤ c.inserted_at := by
    rw [List.pairwise_reverse]
    exact (h.commands_clock.filter _).imp fun hlt => hlt.le
  apply (hreported.leaders.trans (List.reverse_perm _).symm).eq_of_pairwise ?_ hnewest hreverse
  -- no two commands are of one second
  intro c c' hc hc' hle hle'
  have hc₁ : c ∈ commands_between db.totables qo := hreported.leaders.mem_iff.mp hc
  rw [List.mem_reverse] at hc'
  exact h.command_eq (List.mem_of_mem_filter hc₁) (List.mem_of_mem_filter hc')
    (le_antisymm hle' hle)

/-- A line is shown as its change. -/
theorem package_of_line (c : history_command) {l : history_line} (hl : l ∈ db.lines) :
    package_of qo ⟨c, some l⟩ = shown qo (change l) := by
  have hoperation := db.operation_id l hl
  have hint : int32 l.operation_id = l.operation_id := by
    rw [int32, bmod_eq_self_iff]
    simp only [PKG_OP_INSTALL, PKG_OP_DEINSTALL, PKG_OP_UPGRADE, List.mem_cons,
      List.not_mem_nil, or_false] at hoperation
    omega
  unfold package_of shown
  by_cases horigin : qo.use_origin = true
  · simp [horigin, column, sqlite3_column_int, hint, change]
  · simp [horigin, column, sqlite3_column_int, hint, change]

/-- **A run shows the record of its command**, its lines by name. -/
theorem Ticking.shows (h : Ticking log db) {answer : List joined}
    (horder : Ordered by_date_and_name (rows_between db.totables qo) answer)
    {s : joined × List joined} (hs : s ∈ (runs id_key (-1) answer).2) :
    Shows qo (block_of qo s) (record_of db.totables s.1.command) := by
  have hreported := h.separable.reported horder
  have hperm := (hreported.lines s hs).2
  -- the rows of the run are lines of the command
  have hrows : s.2 ∈ Set.range (List.map fun l => (⟨s.1.command, some l⟩ : joined)) := by
    rw [Set.range_list_map]
    intro r hr
    obtain ⟨l, -, hrow⟩ := List.mem_map.mp (hperm.mem_iff.mp hr)
    exact ⟨l, hrow⟩
  obtain ⟨lines, hlines⟩ := hrows
  rw [eq_comm] at hlines
  have hsame : lines.Perm (lines_of db.totables s.1.command) := by
    rw [hlines] at hperm
    refine (List.map_perm_map_iff ?_).mp hperm
    intro l l' heq
    simpa using heq
  have hnames : lines.Pairwise fun l l' => l.name ≤ l'.name := by
    have hsub : s.2.Sublist answer :=
      (List.sublist_flatten_of_mem (List.mem_map_of_mem hs)).trans (flat_sublist answer)
    have hsorted := horder.sorted.sublist hsub
    rw [hlines, List.pairwise_map] at hsorted
    refine hsorted.imp ?_
    intro l l' hle
    simpa [by_date_and_name] using hle
  refine ⟨rfl, rfl, lines.map change, hsame.map change, ?_, ?_⟩
  · rw [List.pairwise_map]
    exact hnames
  · rw [block_of, hlines, List.map_map, List.map_map]
    apply List.map_congr_left
    intro l hl
    have hmem := (mem_lines_of.mp (hsame.mem_iff.mp hl)).1
    rw [Function.comp_apply, Function.comp_apply, package_of_line s.1.command hmem]

/-- **The listing of a file that ticks** is its log between the bounds, the newest
command first, whatever SQLite answers. -/
theorem Ticking.listing (h : Ticking log db) (hall : qo.operations = PKG_OP_ALL) {q : query_t}
    (hq : full_query db.totables qo = some q) (hlimit : (q.rows.length : ℤ) ≤ q.limit)
    {answer : List joined} (hanswer : q.Answers answer) (vars : vars_t) :
    (blocks (display_history_full qo vars answer)).1 = []
      ∧ List.Forall₂ (Shows qo) (blocks (display_history_full qo vars answer)).2
        (log.filter (asked qo)).reverse := by
  have horder := (answers_iff_ordered hall hq hlimit answer).mp hanswer
  have hlog : (log.filter (asked qo)).reverse
      = (runs id_key (-1) answer).2.map fun s => record_of db.totables s.1.command := by
    have hheaders := congrArg (List.map (record_of db.totables)) (h.headers_eq horder)
    rw [List.map_map, List.map_reverse, commands_between] at hheaders
    rw [← h.log_eq, List.filter_map]
    exact hheaders.symm
  rw [blocks_of_answer vars horder, hlog, h.separable.above horder, List.forall₂_map_left_iff,
    List.forall₂_map_right_iff, List.forall₂_same]
  exact ⟨rfl, fun s hs => h.shows horder hs⟩

end Ticking

/-! ## From the runs to the listing -/

/-- A run that has jobs puts down what it did. -/
theorem changes_ne_nil {run : hook_run} (hjobs : run.jobs ≠ []) {r : record_t}
    (hrecord : run.record = some r) : r.changes ≠ [] := by
  unfold hook_run.record at hrecord
  split at hrecord
  case isFalse => exact absurd hrecord (by simp)
  case isTrue =>
    simp only [Option.bind_eq_bind, Option.bind_eq_some_iff, Option.some.injEq] at hrecord
    obtain ⟨cmd, -, changes, hchanges, rfl⟩ := hrecord
    intro hnil
    have hnil' : changes = [] := hnil
    subst hnil'
    cases hcases : run.jobs with
    | nil => exact hjobs hcases
    | cons job jobs =>
        rw [hcases, List.mapM_cons] at hchanges
        simp [Option.bind_eq_some_iff] at hchanges

/-- A file without rows. -/
def empty_db : history_db := ⟨⟨[], []⟩, List.nodup_nil, List.nodup_nil, by simp⟩

/-- **What was put down is what is shown.** Runs of the hooks on an empty file, each with
jobs, of which those that are recorded are a second apart at least, leave a file whose
full listing has one block for each recorded run between the bounds, the newest first:
with its time, its command line and all its changes by name, and nothing else. -/
theorem listing_of_hook_runs {new_rowid : List ℤ → ℤ} (hrowid : Rowids new_rowid)
    (runs : List hook_run) (hlength : runs.length < 2 ^ 31)
    (hcommand : ∀ run ∈ runs, run.steps.begun → run.steps.command = .done)
    (hjobs : ∀ run ∈ runs, run.jobs ≠ [])
    (hclock : (runs.filterMap hook_run.record).Pairwise fun r r' =>
      r.inserted_at < r'.inserted_at) :
    ∃ (statuses : List pkg_error_t) (db : history_db),
      hook_runs new_rowid runs ⟨[], []⟩ = some (statuses, db.totables)
        ∧ ∀ (qo : query_options_t) (q : query_t) (answer : List joined) (vars : vars_t),
          qo.operations = PKG_OP_ALL → full_query db.totables qo = some q →
          (q.rows.length : ℤ) ≤ q.limit → q.Answers answer →
          (blocks (display_history_full qo vars answer)).1 = []
            ∧ List.Forall₂ (Shows qo) (blocks (display_history_full qo vars answer)).2
              ((runs.filterMap hook_run.record).filter (asked qo)).reverse := by
  obtain ⟨statuses, t, hruns, hgrown⟩ := hook_runs_grown new_rowid hrowid.fresh runs empty_db
  obtain ⟨t', hruns', hrecorded⟩ :=
    hook_runs_recorded hrowid runs [] ⟨[], []⟩ Recorded.nil hcommand (by simpa using hlength)
  obtain ⟨-, rfl⟩ : _ ∧ t = t' := by simpa using hruns.symm.trans hruns'
  have hticking : Ticking (runs.filterMap hook_run.record) hgrown.db := by
    refine ⟨hrecorded, ?_, ?_, hclock⟩
    · exact (List.length_filterMap_le _ _).trans_lt hlength
    · intro r hr
      obtain ⟨run, hrun, hrecord⟩ := List.mem_filterMap.mp hr
      exact changes_ne_nil (hjobs run hrun) hrecord
  refine ⟨statuses, hgrown.db, hruns, ?_⟩
  intro qo q answer vars hall hq hlimit hanswer
  exact hticking.listing hall hq hlimit hanswer vars

/-- The file after `locked_run` and `unlocked_run`. -/
def unlocked_file : tables where
  commands := [⟨1, 1700000000, "pkg install a b".toList⟩]
  lines := [⟨1, some "FreeBSD".toList, "b".toList, "misc/b".toList, none, "1.0".toList,
    PKG_OP_INSTALL, 1⟩]

/-- Of the two runs the second is shown, and of the first nothing. -/
theorem unlocked_listed : ∃ q, full_query unlocked_file (up_to 1800000000) = some q
    ∧ ∀ answer, q.Answers answer →
      List.Forall₂ (Shows (up_to 1800000000))
        (blocks (display_history_full (up_to 1800000000) zeros answer)).2
        [⟨1700000000, "pkg install a b".toList, [⟨some "FreeBSD".toList, "b".toList,
          "misc/b".toList, none, "1.0".toList, PKG_OP_INSTALL⟩]⟩] := by
  obtain ⟨statuses, db, hruns, hlisting⟩ := listing_of_hook_runs next_rowid_spec
    [locked_run, unlocked_run] (by decide) (by simp [locked_run, unlocked_run, locked_steps])
    (by simp [locked_run, unlocked_run]) (List.pairwise_singleton _ _)
  have hfile : hook_runs next_rowid [locked_run, unlocked_run] ⟨[], []⟩
      = some ([.EPKG_FATAL, .EPKG_OK], unlocked_file) := rfl
  obtain ⟨-, htables⟩ : _ ∧ db.totables = unlocked_file := by simpa using hruns.symm.trans hfile
  rw [htables] at hlisting
  refine ⟨_, full_query_eq _ _, fun answer hanswer => ?_⟩
  exact (hlisting (up_to 1800000000) _ answer zeros rfl (full_query_eq _ _) (by decide)
    hanswer).2

end PkgPlugins.HistoryRoundTrip
