/-
The full listing of the history: one header for each command, with its lines
below it.

`display_history_full` prints a header where the id of the command differs from
that of the row before. What it prints is therefore cut into the runs of the
answer, and it is a report of the commands just if each command has one run of its
own. The order by date and name does not see to that: the lines of two commands of
one second are sorted by name. `display_history_full_report_iff` says for which
databases every answer gives a report.
-/
import PkgPlugins.HistoryAgree
import Mathlib.Order.Lattice

set_option autoImplicit false

namespace PkgPlugins.HistoryReport

open PkgPlugins.History PkgPlugins.Listing PkgPlugins.HistoryQueries PkgPlugins.HistoryAgree

/-! ## Reports -/

/-- What is printed for rows, in the order in which it is printed: above the first
header, and below each header, with the command that the header is for. -/
def sections : List printed_t → List printed_t × List (history_command × List printed_t)
  | [] => ([], [])
  | .command r _ _ :: ps => ([], (r.command, (sections ps).1) :: (sections ps).2)
  | .package r p :: ps => (.package r p :: (sections ps).1, (sections ps).2)
  | .no_operation r :: ps => (.no_operation r :: (sections ps).1, (sections ps).2)
  | .newline :: ps => sections ps
  | .package_header :: ps => sections ps
  | .nothing_to_show :: ps => sections ps

def PKG_OP_ALL : ℤ := 7

/-- The commands between the bounds. -/
def commands_between (t : tables) (qo : query_options_t) : List history_command :=
  t.commands.filter fun c => qo.from_ ≤ c.inserted_at ∧ c.inserted_at ≤ qo.to_

/-- What is to be printed below the header of a command. -/
def body (t : tables) (qo : query_options_t) (c : history_command) : List printed_t :=
  if lines_of t c = [] then [.no_operation ⟨c, none⟩]
  else (lines_of t c).map fun l => .package ⟨c, some l⟩ (package_of qo ⟨c, some l⟩)

/-- **A report**: each command between the bounds has one header, and below it
there are its lines, or that there was no operation. -/
structure Report (t : tables) (qo : query_options_t) (out : List printed_t) : Prop where
  above : (sections out).1 = []
  headers : ((sections out).2.map Prod.fst).Perm (commands_between t qo)
  bodies : ∀ s ∈ (sections out).2, s.2.Perm (body t qo s.1)

/-! ## Databases that are reported -/

/-- The rows between the bounds. -/
def rows_between (t : tables) (qo : query_options_t) : List joined :=
  (join t).filter fun r => between qo.from_ qo.to_ r

/-- The first row is listed before the second in every answer. -/
def Before (a b : joined) : Prop := by_date_and_name b a = false

/-- What keeps the runs of the commands apart, whatever the answer: each has a
line; of two commands of one second, no line of the one has a name between those
of two lines of the other; and an id whose lower half is that of another command,
or that of the -1 the loop starts with, does not meet it. -/
structure Separable (t : tables) (qo : query_options_t) : Prop where
  lines : ∀ c ∈ commands_between t qo, lines_of t c ≠ []
  names : ∀ r ∈ rows_between t qo, ∀ r' ∈ rows_between t qo, ∀ m ∈ rows_between t qo, r ≠ r' →
    r.command = r'.command → by_date_and_name r m = true → by_date_and_name m r' = true →
    m.command = r.command
  ids : ∀ r ∈ rows_between t qo, ∀ r' ∈ rows_between t qo, id_key r = id_key r' →
    by_date_and_name r r' = true → r.command = r'.command
      ∨ ∃ m ∈ rows_between t qo, Before r m ∧ Before m r'
  first : ∀ r ∈ rows_between t qo, id_key r = -1 → ∃ m ∈ rows_between t qo, Before m r

/-! ## The order -/

theorem by_date_and_name_trans (a b c : joined) (hab : by_date_and_name a b = true)
    (hbc : by_date_and_name b c = true) : by_date_and_name a c = true := by
  unfold by_date_and_name at *
  grind

theorem by_date_and_name_total (a b : joined) :
    (by_date_and_name a b || by_date_and_name b a) = true := by
  unfold by_date_and_name
  grind

/-! ## The rows -/

/-- `PKG_OP_ALL` selects every line. -/
theorem has_operation_all (db : history_db) {r : joined} (hr : r ∈ join db.totables) :
    has_operation (int32 PKG_OP_ALL) r = true := by
  obtain ⟨-, l, hl, hline⟩ := mem_join.mp hr
  have hoperation := db.operation_id l (mem_lines_of.mp hl).1
  simp only [List.mem_cons, List.not_mem_nil, or_false] at hoperation
  simp only [has_operation, hline]
  rcases hoperation with h | h | h <;> rw [h] <;> decide

section Rows

variable {db : history_db} {qo : query_options_t}

theorem mem_rows_between {r : joined} : r ∈ rows_between db.totables qo
    ↔ r.command ∈ commands_between db.totables qo
      ∧ ∃ l ∈ lines_of db.totables r.command, r.line = some l := by
  rw [rows_between, List.mem_filter, mem_join, commands_between, List.mem_filter, between,
    and_right_comm]

theorem rows_between_line {r : joined} (hr : r ∈ rows_between db.totables qo) :
    ∃ l, r.line = some l := by
  obtain ⟨-, l, -, hline⟩ := mem_rows_between.mp hr
  exact ⟨l, hline⟩

theorem rows_between_nodup : (rows_between db.totables qo).Nodup := db.join_nodup.filter _

theorem commands_between_nodup : (commands_between db.totables qo).Nodup :=
  db.commands_nodup.filter _

/-- **What SQLite may answer** when every operation is selected and the limit is not
reached: the rows between the bounds, in an order that is allowed. -/
theorem answers_iff_ordered (hall : qo.operations = PKG_OP_ALL) {q : query_t}
    (hq : full_query db.totables qo = some q) (hlimit : (q.rows.length : ℤ) ≤ q.limit)
    (answer : List joined) :
    q.Answers answer ↔ Ordered by_date_and_name (rows_between db.totables qo) answer := by
  have hmem : ∀ r, r ∈ q.rows ↔ r ∈ rows_between db.totables qo := by
    intro r
    rw [mem_full_rows hq, rows_between, List.mem_filter, hall]
    refine and_congr_right fun hr => and_iff_left (has_operation_all db hr)
  have hnodup : q.rows.Nodup := by
    rw [full_query_eq, Option.some.injEq] at hq
    rw [← hq]
    exact db.left_join_nodup.filter _
  have hperm := (List.perm_ext_iff_of_nodup hnodup rows_between_nodup).mpr hmem
  have horder : q.order_by = by_date_and_name := by
    rw [full_query_eq, Option.some.injEq] at hq
    rw [← hq]
  rw [query_t.answers_iff hlimit, query_t.Lists, horder]
  exact ⟨fun h => ⟨h.perm.trans hperm, h.sorted⟩, fun h => ⟨h.perm.trans hperm.symm, h.sorted⟩⟩

end Rows

/-! ## The loop cuts the answer into runs -/

/-- What is printed for a row. -/
def item (qo : query_options_t) (r : joined) : printed_t := .package r (package_of qo r)

theorem item_injective (qo : query_options_t) : Function.Injective (item qo) := by
  intro r r' h
  exact (printed_t.package.inj h).1

theorem sections_full_loop (qo : query_options_t) (rows : List joined) :
    (∀ r ∈ rows, ∃ l, r.line = some l) → ∀ (previous : ℤ) (vars : vars_t),
      sections (full_loop qo previous vars rows)
        = ((runs id_key previous rows).1.map (item qo),
          (runs id_key previous rows).2.map fun s => (s.1.command, s.2.map (item qo))) := by
  induction rows with
  | nil => intro _ previous vars; rfl
  | cons r rs ih =>
      intro hline previous vars
      rw [List.forall_mem_cons] at hline
      obtain ⟨hid, -, hname, hpackage⟩ := read_full_eq qo r vars
      have hrest := ih hline.2 (read_full qo r vars).command_id (read_full qo r vars)
      rw [hid] at hrest
      rw [full_loop, hname, if_neg (package_of_name hline.1), hpackage, hid]
      by_cases hkey : previous = int32 r.command.id
      · rw [if_neg (not_not.mpr hkey), runs_unchanged id_key hkey]
        simp only [List.nil_append, List.cons_append, sections, hrest]
        rfl
      · rw [if_pos hkey, runs_changed id_key hkey]
        split <;> simp only [List.nil_append, List.cons_append, sections, hrest] <;> rfl

/-- The runs of an answer report the commands: none of its rows comes before the
first run, each command has one, and it consists of the rows of the command. -/
structure Reported (t : tables) (qo : query_options_t) (answer : List joined) : Prop where
  above : (runs id_key (-1) answer).1 = []
  leaders : ((runs id_key (-1) answer).2.map fun s => s.1.command).Perm (commands_between t qo)
  lines : ∀ s ∈ (runs id_key (-1) answer).2, lines_of t s.1.command ≠ []
    ∧ s.2.Perm ((lines_of t s.1.command).map fun l => ⟨s.1.command, some l⟩)

/-- A run is the body of its command. -/
theorem perm_body_iff (t : tables) (qo : query_options_t) (c : history_command)
    (run : List joined) :
    (run.map (item qo)).Perm (body t qo c) ↔ lines_of t c ≠ []
      ∧ run.Perm ((lines_of t c).map fun l => ⟨c, some l⟩) := by
  rw [body]
  by_cases hnil : lines_of t c = []
  · rw [if_pos hnil]
    simp only [hnil, ne_eq, not_true, false_and, iff_false]
    intro hperm
    -- no row of an answer is printed as "no operation"
    have hmem := hperm.mem_iff.mpr (List.mem_singleton_self _)
    obtain ⟨r, -, heq⟩ := List.mem_map.mp hmem
    exact absurd heq (by simp [item])
  · have hbody : ((lines_of t c).map fun l =>
        printed_t.package ⟨c, some l⟩ (package_of qo ⟨c, some l⟩))
        = ((lines_of t c).map fun l => (⟨c, some l⟩ : joined)).map (item qo) := by
      rw [List.map_map]
      rfl
    rw [if_neg hnil, hbody, List.map_perm_map_iff (item_injective qo)]
    exact (and_iff_right hnil).symm

theorem report_iff (t : tables) (qo : query_options_t) (vars : vars_t) {answer : List joined}
    (hline : ∀ r ∈ answer, ∃ l, r.line = some l) :
    Report t qo (display_history_full qo vars answer) ↔ Reported t qo answer := by
  have hsections : sections (display_history_full qo vars answer)
      = ((runs id_key (-1) answer).1.map (item qo),
        (runs id_key (-1) answer).2.map fun s => (s.1.command, s.2.map (item qo))) := by
    unfold display_history_full
    by_cases hnil : answer = []
    · rw [if_pos hnil, hnil]
      rfl
    · rw [if_neg hnil, sections_full_loop qo answer hline]
  constructor
  · rintro ⟨habove, hheaders, hbodies⟩
    rw [hsections] at habove hheaders hbodies
    refine ⟨List.map_eq_nil_iff.mp habove, ?_, fun s hs => ?_⟩
    · rw [List.map_map] at hheaders
      exact hheaders
    · exact (perm_body_iff t qo s.1.command s.2).mp
        (hbodies _ (List.mem_map_of_mem hs))
  · rintro ⟨habove, hleaders, hlines⟩
    constructor
    · rw [hsections, habove, List.map_nil]
    · rw [hsections, List.map_map]
      exact hleaders
    · rw [hsections]
      intro s hs
      obtain ⟨s', hs', rfl⟩ := List.mem_map.mp hs
      exact (perm_body_iff t qo s'.1.command s'.2).mpr (hlines s' hs')

/-! ## When every answer gives a report -/

section Separate

variable {db : history_db} {qo : query_options_t}

/-- Neighbours in an answer with the same lower half of the id are of one command. -/
theorem Separable.chain (h : Separable db.totables qo) {answer : List joined}
    (horder : Ordered by_date_and_name (rows_between db.totables qo) answer) :
    answer.IsChain fun a b => id_key a = id_key b → a.command = b.command := by
  rw [List.isChain_iff_forall_rel_of_append_cons_cons]
  intro a b before after heq hkey
  subst heq
  obtain ⟨hle, hbetween⟩ := horder.adjacent
  have hmem : ∀ r, r ∈ rows_between db.totables qo ↔ r ∈ before ++ a :: b :: after :=
    fun r => horder.perm.mem_iff.symm
  rcases h.ids a ((hmem a).mpr (by simp)) b ((hmem b).mpr (by simp)) hkey hle with
    hsame | ⟨m, hm, ham, hmb⟩
  · exact hsame
  · -- nothing is listed between them
    rw [Before] at ham hmb
    have hcases : m ∈ before ++ after ∨ m = a ∨ m = b := by
      have hm' := (hmem m).mp hm
      simp only [List.mem_append, List.mem_cons] at hm' ⊢
      tauto
    rcases hcases with hm' | rfl | rfl
    · rcases hbetween m hm' with hma | hbm
      · exact absurd (hma.symm.trans ham) (by simp)
      · exact absurd (hbm.symm.trans hmb) (by simp)
    · have hrefl := by_date_and_name_total m m
      rw [Bool.or_self] at hrefl
      exact absurd (hrefl.symm.trans ham) (by simp)
    · have hrefl := by_date_and_name_total m m
      rw [Bool.or_self] at hrefl
      exact absurd (hrefl.symm.trans hmb) (by simp)

/-- The rows of a command stand together in an answer. -/
theorem Separable.together (h : Separable db.totables qo) {answer : List joined}
    (horder : Ordered by_date_and_name (rows_between db.totables qo) answer) :
    Together joined.command answer := by
  intro r m r' hsub hcommand
  have hsorted := horder.sorted.sublist hsub
  simp only [List.pairwise_cons, List.mem_cons, List.not_mem_nil, or_false] at hsorted
  have hmem : ∀ z ∈ [r, m, r'], z ∈ rows_between db.totables qo :=
    fun z hz => horder.perm.mem_iff.mp (hsub.subset hz)
  have hnodup := (horder.perm.nodup_iff.mpr rows_between_nodup).sublist hsub
  refine h.names r (hmem r (by simp)) r' (hmem r' (by simp)) m (hmem m (by simp)) ?_ hcommand
    (hsorted.1 m (by simp)) (hsorted.2.1 r' rfl)
  rintro rfl
  simp at hnodup

/-- The row that comes first in an answer has no id whose lower half is -1. -/
theorem Separable.above (h : Separable db.totables qo) {answer : List joined}
    (horder : Ordered by_date_and_name (rows_between db.totables qo) answer) :
    (runs id_key (-1) answer).1 = [] := by
  have hmem : ∀ r, r ∈ answer ↔ r ∈ rows_between db.totables qo := fun r => horder.perm.mem_iff
  cases hanswer : answer with
  | nil => simp [runs]
  | cons r rs =>
      by_cases hid : id_key r = -1
      · obtain ⟨m, hm, hbefore⟩ := h.first r ((hmem r).mp (by simp [hanswer])) hid
        rw [← hmem, hanswer] at hm
        have hle : by_date_and_name r m = true := by
          rcases List.mem_cons.mp hm with rfl | hm
          · simpa using by_date_and_name_total m m
          · exact (List.pairwise_cons.mp (hanswer ▸ horder.sorted)).1 m hm
        exact absurd (hle.symm.trans hbefore) (by simp)
      · rw [runs_changed id_key (Ne.symm hid)]

/-- Every row between the bounds is in a run. -/
theorem Separable.mem_runs_iff (h : Separable db.totables qo) {answer : List joined}
    (horder : Ordered by_date_and_name (rows_between db.totables qo) answer) (r : joined) :
    r ∈ rows_between db.totables qo ↔ ∃ s ∈ (runs id_key (-1) answer).2, r ∈ s.2 := by
  rw [← horder.perm.mem_iff, mem_runs id_key (-1), h.above horder]
  simp

theorem Separable.reported (h : Separable db.totables qo) {answer : List joined}
    (horder : Ordered by_date_and_name (rows_between db.totables qo) answer) :
    Reported db.totables qo answer := by
  have hchain := h.chain horder
  have howner := (runs_owner answer hchain (-1)).2
  have hkey : ∀ a b : joined, a.command = b.command → id_key a = id_key b := by
    intro a b heq
    rw [id_key, id_key, heq]
  have hleaders := (runs_leaders_nodup hkey answer hchain (h.together horder) (-1)).1
  have hin := h.mem_runs_iff horder
  have hleader : ∀ s ∈ (runs id_key (-1) answer).2, s.1 ∈ rows_between db.totables qo :=
    fun s hs => (hin s.1).mpr ⟨s, hs, runs_leader id_key answer (-1) s hs⟩
  refine ⟨h.above horder, ?_, fun s hs => ⟨?_, ?_⟩⟩
  · rw [List.perm_ext_iff_of_nodup hleaders commands_between_nodup]
    intro c
    rw [List.mem_map]
    constructor
    · rintro ⟨s, hs, rfl⟩
      exact (mem_rows_between.mp (hleader s hs)).1
    · intro hc
      obtain ⟨l, hl⟩ := List.exists_mem_of_ne_nil _ (h.lines c hc)
      obtain ⟨s, hs, hr⟩ := (hin ⟨c, some l⟩).mp (mem_rows_between.mpr ⟨hc, l, hl, rfl⟩)
      exact ⟨s, hs, (howner s hs _ hr).symm⟩
  · obtain ⟨hc, -⟩ := mem_rows_between.mp (hleader s hs)
    exact h.lines _ hc
  · have hrun : s.2.Nodup := by
      have hflat := horder.perm.nodup_iff.mpr rows_between_nodup
      rw [← runs_flatten id_key answer (-1), List.nodup_append, List.nodup_flatMap] at hflat
      exact hflat.2.1.1 s hs
    have hlines : ((lines_of db.totables s.1.command).map fun l =>
        (⟨s.1.command, some l⟩ : joined)).Nodup := by
      refine (db.lines_of_nodup _).map ?_
      intro l l' heq
      simpa using heq
    rw [List.perm_ext_iff_of_nodup hrun hlines]
    intro r
    rw [List.mem_map]
    constructor
    · intro hr
      obtain ⟨-, l, hl, hline⟩ := mem_rows_between.mp ((hin r).mpr ⟨s, hs, hr⟩)
      have hcommand := howner s hs r hr
      exact ⟨l, hcommand ▸ hl, by rw [← hcommand, ← hline]⟩
    · rintro ⟨l, hl, rfl⟩
      have hc := (mem_rows_between.mp (hleader s hs)).1
      obtain ⟨s', hs', hr⟩ := (hin ⟨s.1.command, some l⟩).mp (mem_rows_between.mpr ⟨hc, l, hl, rfl⟩)
      -- the run of this row is led by its command, and so is this one
      have hsame := List.inj_on_of_nodup_map hleaders hs' hs (howner s' hs' _ hr).symm
      exact hsame ▸ hr

/-- The rows of a run that is reported are of one command. -/
theorem Reported.owner {answer : List joined} (h : Reported db.totables qo answer) :
    ∀ s ∈ (runs id_key (-1) answer).2, ∀ r ∈ s.2, r.command = s.1.command := by
  intro s hs r hr
  obtain ⟨l, -, rfl⟩ := List.mem_map.mp ((h.lines s hs).2.mem_iff.mp hr)
  rfl

/-- If every answer is reported, so is one in which three rows that may stand in this
order are listed in it: the one in the middle is of the command of the others. -/
theorem names_of_reported (h : ∀ answer, Ordered by_date_and_name (rows_between db.totables qo)
      answer → Reported db.totables qo answer) {r r' m : joined}
    (hr : r ∈ rows_between db.totables qo) (hr' : r' ∈ rows_between db.totables qo)
    (hm : m ∈ rows_between db.totables qo) (hne : r ≠ r') (hcommand : r.command = r'.command)
    (hrm : by_date_and_name r m = true) (hmr : by_date_and_name m r' = true) :
    m.command = r.command := by
  by_contra hother
  have hnodup : [r, m, r'].Nodup := by
    have hrm' : r ≠ m := fun heq => hother (by rw [heq])
    have hmr' : m ≠ r' := fun heq => hother (by rw [heq, hcommand])
    simp [hrm', hmr', hne]
  have hrows : [r, m, r'] ⊆ rows_between db.totables qo := by
    intro z hz
    simp only [List.mem_cons, List.not_mem_nil, or_false] at hz
    rcases hz with rfl | rfl | rfl
    · exact hr
    · exact hm
    · exact hr'
  have hsorted : [r, m, r'].Pairwise fun a b => by_date_and_name a b = true := by
    simp [hrm, hmr, by_date_and_name_trans r m r' hrm hmr]
  obtain ⟨rest, hrest⟩ := exists_rest [r, m, r'] (rows_between db.totables qo) hnodup hrows
  obtain ⟨answer, horder, hsub⟩ :=
    exists_ordered_sublist by_date_and_name_trans by_date_and_name_total hrest hsorted
  have hreported := h answer horder
  have hleaders := hreported.leaders.nodup_iff.mpr commands_between_nodup
  have htogether := together_flatMap (runs id_key (-1) answer).2 hreported.owner hleaders
  have hflat := runs_flatten id_key answer (-1)
  rw [hreported.above, List.nil_append] at hflat
  rw [hflat] at htogether
  exact hother (htogether r m r' hsub hcommand)

/-- And so is one in which two rows are neighbours that may be. -/
theorem ids_of_reported (h : ∀ answer, Ordered by_date_and_name (rows_between db.totables qo)
      answer → Reported db.totables qo answer) {r r' : joined}
    (hr : r ∈ rows_between db.totables qo) (hr' : r' ∈ rows_between db.totables qo)
    (hkey : id_key r = id_key r') (hle : by_date_and_name r r' = true) :
    r.command = r'.command ∨ ∃ m ∈ rows_between db.totables qo, Before r m ∧ Before m r' := by
  by_contra hnot
  rw [not_or, not_exists] at hnot
  have hne : r ≠ r' := fun heq => hnot.1 (by rw [heq])
  have hrows : [r, r'] ⊆ rows_between db.totables qo := by
    intro z hz
    simp only [List.mem_cons, List.not_mem_nil, or_false] at hz
    rcases hz with rfl | rfl
    · exact hr
    · exact hr'
  obtain ⟨rest, hrest⟩ :=
    exists_rest [r, r'] (rows_between db.totables qo) (by simpa using hne) hrows
  have hbetween : ∀ z ∈ rest, by_date_and_name z r = true ∨ by_date_and_name r' z = true := by
    intro z hz
    have hmem : z ∈ rows_between db.totables qo := hrest.mem_iff.mpr (by simp [hz])
    by_contra hstrict
    rw [not_or, Bool.not_eq_true, Bool.not_eq_true] at hstrict
    exact hnot.2 z ⟨hmem, hstrict.1, hstrict.2⟩
  obtain ⟨before, after, horder⟩ := exists_ordered_adjacent by_date_and_name_trans
    by_date_and_name_total hrest hle hbetween
  have hreported := h _ horder
  rcases runs_adjacent id_key hkey after before (-1) with ⟨hx, -⟩ | ⟨s, hs, hx, hy⟩
  · rw [hreported.above] at hx
    exact absurd hx (by simp)
  · exact hnot.1 ((hreported.owner s hs r hx).trans (hreported.owner s hs r' hy).symm)

/-- And one that a row leads that may lead it. -/
theorem first_of_reported (h : ∀ answer, Ordered by_date_and_name (rows_between db.totables qo)
      answer → Reported db.totables qo answer) {r : joined}
    (hr : r ∈ rows_between db.totables qo) (hkey : id_key r = -1) :
    ∃ m ∈ rows_between db.totables qo, Before m r := by
  by_contra hnot
  rw [not_exists] at hnot
  obtain ⟨rest, hrest⟩ :=
    exists_rest [r] (rows_between db.totables qo) (by simp) (by simpa using hr)
  have hfirst : ∀ z ∈ rest, by_date_and_name r z = true := by
    intro z hz
    have hmem : z ∈ rows_between db.totables qo := hrest.mem_iff.mpr (by simp [hz])
    by_contra hstrict
    exact hnot z ⟨hmem, Bool.not_eq_true _ |>.mp hstrict⟩
  obtain ⟨after, horder⟩ :=
    exists_ordered_first by_date_and_name_trans by_date_and_name_total hrest hfirst
  have habove := (h _ horder).above
  rw [runs_unchanged id_key hkey.symm] at habove
  exact absurd habove (by simp)

/-- If every answer is reported, the commands are kept apart. -/
theorem separable_of_reported
    (h : ∀ answer, Ordered by_date_and_name (rows_between db.totables qo) answer →
      Reported db.totables qo answer) : Separable db.totables qo where
  lines c hc := by
    obtain ⟨answer, horder, -⟩ := exists_ordered_sublist by_date_and_name_trans
      by_date_and_name_total (List.Perm.refl ([] ++ rows_between db.totables qo)) List.Pairwise.nil
    have hreported := h answer horder
    obtain ⟨s, hs, rfl⟩ := List.mem_map.mp (hreported.leaders.mem_iff.mpr hc)
    exact (hreported.lines s hs).1
  names _ hr _ hr' _ hm hne hcommand hrm hmr := names_of_reported h hr hr' hm hne hcommand hrm hmr
  ids _ hr _ hr' hkey hle := ids_of_reported h hr hr' hkey hle
  first _ hr hkey := first_of_reported h hr hkey

/-- **The full listing is a report**, whatever SQLite answers, if and only if the
commands between the bounds have lines and are kept apart. -/
theorem display_history_full_report_iff (vars : vars_t) (hall : qo.operations = PKG_OP_ALL)
    {q : query_t} (hq : full_query db.totables qo = some q)
    (hlimit : (q.rows.length : ℤ) ≤ q.limit) :
    (∀ answer, q.Answers answer →
        Report db.totables qo (display_history_full qo vars answer))
      ↔ Separable db.totables qo := by
  have hreport : ∀ answer, Ordered by_date_and_name (rows_between db.totables qo) answer →
      (Report db.totables qo (display_history_full qo vars answer)
        ↔ Reported db.totables qo answer) := by
    intro answer horder
    apply report_iff
    intro r hr
    exact rows_between_line (horder.perm.mem_iff.mp hr)
  constructor
  · intro h
    apply separable_of_reported
    intro answer horder
    have hanswer := (answers_iff_ordered hall hq hlimit answer).mpr horder
    exact (hreport answer horder).mp (h answer hanswer)
  · intro h answer hanswer
    have horder := (answers_iff_ordered hall hq hlimit answer).mp hanswer
    exact (hreport answer horder).mpr (h.reported horder)

end Separate

/-! ## Three lines in one second -/

/-- A line of a command. -/
def installed (id : ℤ) (name : List Char) (command_id : ℤ) : history_line :=
  ⟨id, some "FreeBSD".toList, name, "misc/".toList ++ name, none, "1.0".toList, PKG_OP_INSTALL,
    command_id⟩

/-- Two commands of one second: the name of the package of the second is between
those of the first. -/
def one_second : history_db where
  commands := [⟨1, 1000, "pkg install a c".toList⟩, ⟨2, 1000, "pkg install b".toList⟩]
  lines := [installed 1 ['a'] 1, installed 2 ['c'] 1, installed 3 ['b'] 2]
  commands_id := by simp
  lines_id := by simp [installed]
  operation_id := by simp [installed]

/-- The order that SQLite lists them in. -/
def one_second_listing : List joined :=
  [⟨⟨1, 1000, "pkg install a c".toList⟩, some (installed 1 ['a'] 1)⟩,
    ⟨⟨2, 1000, "pkg install b".toList⟩, some (installed 3 ['b'] 2)⟩,
    ⟨⟨1, 1000, "pkg install a c".toList⟩, some (installed 2 ['c'] 1)⟩]

/-- The header of the first command is printed twice. -/
theorem one_second_repeated : ∃ q, full_query one_second.totables (up_to 2000) = some q
    ∧ (q.rows.length : ℤ) ≤ q.limit ∧ q.Answers one_second_listing
    ∧ ¬ Report one_second.totables (up_to 2000)
      (display_history_full (up_to 2000) zeros one_second_listing) := by
  refine ⟨_, full_query_eq _ _, by decide, ?_, fun hreport => ?_⟩
  · rw [query_t.answers_iff (by decide)]
    exact ⟨by decide, by decide⟩
  · have hheaders := hreport.headers
    revert hheaders
    decide

/-- Three commands, of which two in one second, on packages whose names don't mix. -/
def three_commands : history_db where
  commands := [⟨1, 1000, "pkg install a c".toList⟩, ⟨2, 1001, "pkg install b".toList⟩,
    ⟨3, 1001, "pkg install d e".toList⟩]
  lines := [installed 1 ['a'] 1, installed 2 ['c'] 1, installed 3 ['b'] 2, installed 4 ['d'] 3,
    installed 5 ['e'] 3]
  commands_id := by simp
  lines_id := by simp [installed]
  operation_id := by simp [installed]

def three_commands_listing : List joined :=
  [⟨⟨2, 1001, "pkg install b".toList⟩, some (installed 3 ['b'] 2)⟩,
    ⟨⟨3, 1001, "pkg install d e".toList⟩, some (installed 4 ['d'] 3)⟩,
    ⟨⟨3, 1001, "pkg install d e".toList⟩, some (installed 5 ['e'] 3)⟩,
    ⟨⟨1, 1000, "pkg install a c".toList⟩, some (installed 1 ['a'] 1)⟩,
    ⟨⟨1, 1000, "pkg install a c".toList⟩, some (installed 2 ['c'] 1)⟩]

/-- The history with three commands is reported. -/
theorem three_commands_reported : Report three_commands.totables (up_to 2000)
    (display_history_full (up_to 2000) zeros three_commands_listing) := by
  have hseparable : Separable three_commands.totables (up_to 2000) := by
    refine ⟨by decide, by decide, ?_, ?_⟩
    · unfold Before
      decide
    · unfold Before
      decide
  refine (display_history_full_report_iff zeros rfl (full_query_eq _ _) (by decide)).mpr hseparable
    three_commands_listing ?_
  rw [query_t.answers_iff (by decide)]
  exact ⟨by decide, by decide⟩

end PkgPlugins.HistoryReport
