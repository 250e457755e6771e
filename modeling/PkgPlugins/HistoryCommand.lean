/-
`pkg history` (`pkg_history_main` of `plugins/history/plugin_history.c`): its options in any
order and number, the values of `-n`, `-f` and `-t`, and what it prints of the file.

Of the options that set one member of the query options the last one counts; `-d`, `-i` and
`-u` add up. The first that is wrong ends the command before the file is opened, with a
message and `EPKG_OK` if it is its value, unless the assertion of `my_atoi` fails.

The file stays open: `sqlite_close` doesn't finalize the statements of the plugin.
-/
import PkgPlugins.Date
import PkgPlugins.HistoryReport
import PkgPlugins.ParseNum

set_option autoImplicit false

namespace PkgPlugins.HistoryCommand

open PkgPlugins.Libc PkgPlugins.ParseNum PkgPlugins.Pkg PkgPlugins.Sqlite PkgPlugins.History
open PkgPlugins.Listing PkgPlugins.HistoryQueries PkgPlugins.HistoryAgree
open PkgPlugins.Date (tm date_error parse_date)
open PkgPlugins.HistoryReport (PKG_OP_ALL by_date_and_name_trans by_date_and_name_total)

/-! ## The options -/

/-- What `getopt_long(3)` gives: an option of `optstr`, or something else. -/
inductive option_t
  | d
  | i
  | u
  | C
  | g
  | o
  | n (optarg : CString)
  | f (optarg : CString)
  | t (optarg : CString)
  | other
deriving DecidableEq

inductive option_error
  | count
  | date (error : date_error)
deriving DecidableEq

def INT_MAX : ℤ := 2 ^ 31 - 1

/-- The messages. -/
def option_error.text (address : String → ℤ) : option_error → String
  | .count => "parameter --count/-n is invalid: integer expected in range of [1;"
      ++ toString INT_MAX ++ "]"
  | .date error => error.text address

/-- Why the options end the command. -/
inductive stop_t
  | usage
  | invalid_argument (error : option_error)
  | assertion
deriving DecidableEq

/-- What the system does; the clock stands still. -/
structure system_t where
  time : Option ℤ
  gmtime : ℤ → Option tm
  db_open : open_steps

/-- `|=`, on an `int`. -/
def or_int (a b : ℤ) : ℤ := (BitVec.ofInt 32 a ||| BitVec.ofInt 32 b).toInt

section Options

variable (s : system_t)

/-- Here `time(3)` isn't checked. -/
def query_options_init : query_options_t where
  limit := 100
  operations := 0
  to_ := s.time.getD (-1)
  from_ := 0
  use_origin := false
  statement := .STMT_SEARCH_LINE_EXACT_CI

/-- The value of `-f` and `-t`; the assertion is that of `my_atoi`. -/
def date_option (optarg : CString) : Except stop_t ℤ :=
  match parse_date s.time s.gmtime optarg.chars with
  | .error .assertion => .error .assertion
  | .error e => .error (.invalid_argument (.date e))
  | .ok v => .ok v

/-- The value of `-n`. -/
def count_option (optarg : CString) : Except stop_t ℤ :=
  match strtoint32_t optarg 10 (some 1) (some INT_MAX) with
  | ⟨.PARSE_NUM_NO_ERR, _, some val⟩ => .ok val
  | _ => .error (.invalid_argument .count)

/-- The `switch`. -/
def handle_option (qo : query_options_t) : option_t → Except stop_t query_options_t
  | .d => .ok { qo with operations := or_int qo.operations PKG_OP_DEINSTALL }
  | .i => .ok { qo with operations := or_int qo.operations PKG_OP_INSTALL }
  | .u => .ok { qo with operations := or_int qo.operations PKG_OP_UPGRADE }
  | .C => .ok { qo with statement := .STMT_SEARCH_LINE_EXACT }
  | .g => .ok { qo with statement := .STMT_SEARCH_LINE_GLOB }
  | .o => .ok { qo with use_origin := true }
  | .n optarg => (count_option optarg).map fun val => { qo with limit := val }
  | .f optarg => (date_option s optarg).map fun date => { qo with from_ := date }
  | .t optarg => (date_option s optarg).map fun date => { qo with to_ := date }
  | .other => .error .usage

/-- The loop over the options. -/
def handle_options : query_options_t → List option_t → Except stop_t query_options_t
  | qo, [] => .ok qo
  | qo, opt :: opts =>
      match handle_option s qo opt with
      | .error stop => .error stop
      | .ok qo => handle_options qo opts

end Options

/-! ## The command -/

/-- The query is one of the plugin's. -/
def Asked (glob : List Char → List Char → Bool) (t : tables) (q : query_t) : Prop :=
  ∃ qo, full_query t qo = some q ∨ ∃ searched, search_query glob t qo searched = some q

/-- What SQLite answers to the queries on a file with the contents `t`. -/
structure sqlite_t (glob : List Char → List Char → Bool) (t : tables) where
  select : query_t → List joined
  answers : ∀ q, Asked glob t q → q.Answers (select q)

/-- The rows can be sorted. -/
instance (glob : List Char → List Char → Bool) (t : tables) : Inhabited (sqlite_t glob t) where
  default :=
    { select := fun q => sql_limit q.limit (q.rows.mergeSort q.order_by)
      answers := by
        rintro q ⟨qo, hq | ⟨searched, hq⟩⟩
        · rw [full_query_eq, Option.some.injEq] at hq
          refine ⟨_, ⟨List.mergeSort_perm _ _, ?_⟩, rfl⟩
          rw [← hq]
          exact List.pairwise_mergeSort by_date_and_name_trans by_date_and_name_total _
        · rw [search_query_eq, Option.some.injEq] at hq
          refine ⟨_, ⟨List.mergeSort_perm _ _, ?_⟩, rfl⟩
          rw [← hq]
          apply List.pairwise_mergeSort
          · intro a b c hab hbc
            simp only [by_date, decide_eq_true_iff] at *
            omega
          · intro a b
            simp only [by_date, Bool.or_eq_true, decide_eq_true_iff]
            omega }

/-- `db_open`, to read: the version isn't set. -/
def db_open_read (s : system_t) (t : tables) : pkg_error_t × sqlite_db_t tables :=
  db_open { s.db_open with set_user_version := true } t

inductive status_t
  | EX_USAGE
  | EPKG_OK
deriving DecidableEq

/-- What the command returns, unless an assertion fails, the error of an option that it reports,
the status of `db_open` if it gets there, what is left of the connection, and what is printed. -/
structure outcome_t where
  returned : Option status_t
  error : Option option_error
  db_open : Option pkg_error_t
  db : sqlite_db_t tables
  printed : List printed_t

section Command

variable {glob : List Char → List Char → Bool} {t : tables}

/-- The listing, or the search if there is one argument. -/
def display (sqlite : sqlite_t glob t) (vars : vars_t) (qo : query_options_t) (view : tables) :
    List CString → List printed_t
  | [] => (full_query view qo).elim [] fun q => display_history_full qo vars (sqlite.select q)
  | [searched] => (search_query glob view qo searched.chars).elim [] fun q =>
      display_history_search qo vars (sqlite.select q)
  | _ => []

def pkg_history_main (s : system_t) (sqlite : sqlite_t glob t) (vars : vars_t)
    (opts : List option_t) (args : List CString) : outcome_t :=
  let closed : sqlite_db_t tables := ⟨t, none, 0, 0, false⟩
  match handle_options s (query_options_init s) opts with
  | .error .usage => ⟨some .EX_USAGE, none, none, closed, []⟩
  | .error (.invalid_argument error) => ⟨some .EPKG_OK, some error, none, closed, []⟩
  | .error .assertion => ⟨none, none, none, closed, []⟩
  | .ok qo =>
      let qo := if qo.operations = 0 then { qo with operations := PKG_OP_ALL } else qo
      let (status, db) := db_open_read s t
      let printed := if status = .EPKG_OK then display sqlite vars qo db.view args else []
      ⟨some .EPKG_OK, none, some status, if db.is_open then sqlite_close db else db, printed⟩

end Command

/-! ## What the options ask for -/

/-- The value of the last option that has one. -/
def last_of {α β : Type} (value : α → Option β) (default : β) (opts : List α) : β :=
  (opts.filterMap value).getLastD default

def error_of {ε α : Type} : Except ε α → Option ε
  | .error e => some e
  | .ok _ => none

def count_of : option_t → Option ℤ
  | .n optarg => (count_option optarg).toOption
  | _ => none

def from_of (s : system_t) : option_t → Option ℤ
  | .f optarg => (date_option s optarg).toOption
  | _ => none

def to_of (s : system_t) : option_t → Option ℤ
  | .t optarg => (date_option s optarg).toOption
  | _ => none

def statement_of : option_t → Option search_t
  | .C => some .STMT_SEARCH_LINE_EXACT
  | .g => some .STMT_SEARCH_LINE_GLOB
  | _ => none

def operation_of : option_t → Option ℤ
  | .d => some PKG_OP_DEINSTALL
  | .i => some PKG_OP_INSTALL
  | .u => some PKG_OP_UPGRADE
  | _ => none

/-- Why an option ends the command. -/
def stop_of (s : system_t) : option_t → Option stop_t
  | .n optarg => error_of (count_option optarg)
  | .f optarg => error_of (date_option s optarg)
  | .t optarg => error_of (date_option s optarg)
  | .other => some .usage
  | _ => none

/-- The query options after the options. -/
structure Settled (s : system_t) (opts : List option_t) (qo : query_options_t) : Prop where
  limit : qo.limit = last_of count_of 100 opts
  statement : qo.statement = last_of statement_of .STMT_SEARCH_LINE_EXACT_CI opts
  operations : qo.operations = (opts.filterMap operation_of).foldl or_int 0
  use_origin : qo.use_origin = opts.contains .o
  from_ : qo.from_ = last_of (from_of s) 0 opts
  to_ : qo.to_ = last_of (to_of s) (s.time.getD (-1)) opts

/-- An operation that is asked for; without `-d`, `-i` and `-u`, all are. -/
def Wants (opts : List option_t) (operation : ℤ) : Prop :=
  opts.filterMap operation_of = [] ∨ operation ∈ opts.filterMap operation_of

/-- The search binds the bounds as `int`. -/
def bound (date : ℤ) : List CString → ℤ
  | [] => date
  | _ => int32 date

/-- The rows that the options and the arguments ask for, newest first. -/
structure Listed (s : system_t) (glob : List Char → List Char → Bool) (t : tables)
    (opts : List option_t) (args : List CString) (listing : List joined) : Prop where
  nodup : listing.Nodup
  newest_first : listing.Pairwise fun a b => b.command.inserted_at ≤ a.command.inserted_at
  mem_iff : ∀ r, r ∈ listing ↔ r ∈ join t
    ∧ between (bound (last_of (from_of s) 0 opts) args)
      (bound (last_of (to_of s) (s.time.getD (-1)) opts) args) r = true
    ∧ (∃ l, r.line = some l ∧ Wants opts l.operation_id)
    ∧ ∀ searched ∈ args, name_matches glob
      (last_of statement_of .STMT_SEARCH_LINE_EXACT_CI opts) searched.chars r = true

/-- The first of them are shown, as many as `-n` says, by their origin if there is a `-o`. -/
structure Shows (opts : List option_t) (listing : List joined) (printed : List printed_t) :
    Prop where
  rows : (lines_shown none printed).map Prod.fst
    = listing.take (last_of count_of 100 opts).toNat
  names : ∀ shown ∈ lines_shown none printed, shown.2.1.name
    = shown.1.line.map (if opts.contains .o then history_line.origin else history_line.name)
  nothing : printed = [.nothing_to_show] ↔ listing = []

/-! ## The loop over the options -/

theorem last_of_append {α β : Type} (value : α → Option β) (default : β) (opts : List α)
    (opt : α) :
    last_of value default (opts ++ [opt]) = (value opt).getD (last_of value default opts) := by
  unfold last_of
  rw [List.filterMap_append]
  cases hvalue : value opt with
  | none => simp [hvalue]
  | some v => simp [hvalue]

/-- What holds of the default and of every value holds of the last one. -/
theorem last_of_induction {α β : Type} {value : α → Option β} {default : β} (P : β → Prop)
    (hdefault : P default) (hvalue : ∀ opt v, value opt = some v → P v) (opts : List α) :
    P (last_of value default opts) := by
  unfold last_of
  rcases List.mem_cons.mp (List.getLastD_mem_cons (l := opts.filterMap value) (a := default))
    with hlast | hlast
  · rwa [hlast]
  · obtain ⟨opt, -, hopt⟩ := List.mem_filterMap.mp hlast
    exact hvalue opt _ hopt

theorem map_error {ε α β : Type} {x : Except ε α} {e : ε} (h : error_of x = some e)
    (f : α → β) : x.map f = .error e := by
  cases x with
  | error e' => rw [Except.map, Option.some.inj h]
  | ok v => exact absurd h (by simp [error_of])

theorem ok_of_error_of {ε α : Type} {x : Except ε α} (h : error_of x = none) :
    ∃ v, x = .ok v := by
  cases x with
  | error e => exact absurd h (by simp [error_of])
  | ok v => exact ⟨v, rfl⟩

section Loop

variable (s : system_t)

theorem handle_options_append (opts : List option_t) (opt : option_t) :
    ∀ qo, handle_options s qo (opts ++ [opt]) = match handle_options s qo opts with
      | .error stop => .error stop
      | .ok qo => handle_option s qo opt := by
  induction opts with
  | nil =>
      intro qo
      simp only [List.nil_append, handle_options]
      cases handle_option s qo opt with
      | error stop => rfl
      | ok qo => rfl
  | cons opt' opts ih =>
      intro qo
      rw [List.cons_append, handle_options, handle_options]
      cases handle_option s qo opt' with
      | error stop => rfl
      | ok qo => exact ih qo

/-- An option ends the command whatever the query options are. -/
theorem handle_option_stop {opt : option_t} {stop : stop_t} (h : stop_of s opt = some stop)
    (qo : query_options_t) : handle_option s qo opt = .error stop := by
  cases opt with
  | n optarg => exact map_error h _
  | f optarg => exact map_error h _
  | t optarg => exact map_error h _
  | other => rw [handle_option, Option.some.inj h]
  | _ => exact absurd h (by simp [stop_of])

variable {s} in
/-- What an option changes. -/
theorem Settled.append {opts : List option_t} {qo qo' : query_options_t} (h : Settled s opts qo)
    (opt : option_t) (hlimit : qo'.limit = (count_of opt).getD qo.limit)
    (hstatement : qo'.statement = (statement_of opt).getD qo.statement)
    (hoperations : qo'.operations = (operation_of opt).elim qo.operations (or_int qo.operations))
    (horigin : qo'.use_origin = (qo.use_origin || opt == .o))
    (hfrom : qo'.from_ = (from_of s opt).getD qo.from_)
    (hto : qo'.to_ = (to_of s opt).getD qo.to_) : Settled s (opts ++ [opt]) qo' where
  limit := by rw [hlimit, last_of_append, h.limit]
  statement := by rw [hstatement, last_of_append, h.statement]
  operations := by
    rw [hoperations, h.operations, List.filterMap_append, List.foldl_append]
    cases hoperation : operation_of opt with
    | none => simp [hoperation]
    | some operation => simp [hoperation]
  use_origin := by
    rw [horigin, h.use_origin, List.contains_eq_any_beq, List.contains_eq_any_beq, List.any_append]
    simp [BEq.comm]
  from_ := by rw [hfrom, last_of_append, h.from_]
  to_ := by rw [hto, last_of_append, h.to_]

variable {s} in
/-- **An option that is none to end the command** does what it stands for. -/
theorem handle_option_settled {opts : List option_t} {qo : query_options_t}
    (h : Settled s opts qo) {opt : option_t} (hopt : stop_of s opt = none) :
    ∃ qo', handle_option s qo opt = .ok qo' ∧ Settled s (opts ++ [opt]) qo' := by
  cases opt with
  | n optarg =>
      obtain ⟨val, hval⟩ := ok_of_error_of hopt
      refine ⟨_, by rw [handle_option, hval]; rfl, ?_⟩
      apply h.append <;>
        simp [count_of, statement_of, operation_of, from_of, to_of, hval, Except.toOption]
  | f optarg =>
      obtain ⟨date, hdate⟩ := ok_of_error_of hopt
      refine ⟨_, by rw [handle_option, hdate]; rfl, ?_⟩
      apply h.append <;>
        simp [count_of, statement_of, operation_of, from_of, to_of, hdate, Except.toOption]
  | t optarg =>
      obtain ⟨date, hdate⟩ := ok_of_error_of hopt
      refine ⟨_, by rw [handle_option, hdate]; rfl, ?_⟩
      apply h.append <;>
        simp [count_of, statement_of, operation_of, from_of, to_of, hdate, Except.toOption]
  | other => exact absurd hopt (by simp [stop_of])
  | _ =>
      refine ⟨_, rfl, ?_⟩
      apply h.append <;> simp [count_of, statement_of, operation_of, from_of, to_of]

theorem settled_init : Settled s [] (query_options_init s) :=
  ⟨rfl, rfl, rfl, rfl, rfl, rfl⟩

/-- **The loop**: the first option that ends the command does, and without any the query options
are what the options make of them. -/
theorem handle_options_spec (opts : List option_t) :
    match opts.findSome? (stop_of s) with
    | some stop => handle_options s (query_options_init s) opts = .error stop
    | none => ∃ qo, handle_options s (query_options_init s) opts = .ok qo ∧ Settled s opts qo := by
  induction opts using List.reverseRecOn with
  | nil => exact ⟨_, rfl, settled_init s⟩
  | append_singleton opts opt ih =>
      rw [handle_options_append, List.findSome?_append]
      cases hstop : opts.findSome? (stop_of s) with
      | some stop =>
          rw [hstop] at ih
          simp only [Option.some_or]
          rw [ih]
      | none =>
          rw [hstop] at ih
          obtain ⟨qo, hqo, hsettled⟩ := ih
          simp only [Option.none_or, List.findSome?_singleton]
          rw [hqo]
          cases hopt : stop_of s opt with
          | some stop => exact handle_option_stop s hopt qo
          | none => exact handle_option_settled hsettled hopt

end Loop

/-! ## Operations -/

/-- What `history_operations` holds. -/
def kinds : List ℤ := [PKG_OP_INSTALL, PKG_OP_DEINSTALL, PKG_OP_UPGRADE]

/-- What `qo.operations` may be. -/
def masks : List ℤ := [0, 1, 2, 3, 4, 5, 6, 7]

/-- `(l.operation_id & ?) <> 0`. -/
def selects (operations operation : ℤ) : Bool :=
  BitVec.ofInt 64 operation &&& BitVec.ofInt 64 (int32 operations) ≠ 0

theorem or_int_masks : ∀ a ∈ masks, ∀ b ∈ kinds, or_int a b ∈ masks
    ∧ ∀ operation ∈ kinds,
      selects (or_int a b) operation = (selects a operation || operation = b) := by
  decide

theorem foldl_or_int {asked : List ℤ} (hasked : ∀ b ∈ asked, b ∈ kinds) :
    asked.foldl or_int 0 ∈ masks
      ∧ ∀ operation ∈ kinds,
        selects (asked.foldl or_int 0) operation = true ↔ operation ∈ asked := by
  induction asked using List.reverseRecOn with
  | nil => exact ⟨by decide, by decide⟩
  | append_singleton asked b ih =>
      rw [List.forall_mem_append, List.forall_mem_singleton] at hasked
      obtain ⟨hmask, hselects⟩ := ih hasked.1
      obtain ⟨hor, heq⟩ := or_int_masks _ hmask b hasked.2
      rw [List.foldl_append, List.foldl_cons, List.foldl_nil]
      refine ⟨hor, ?_⟩
      intro operation hoperation
      rw [heq operation hoperation, Bool.or_eq_true, hselects operation hoperation,
        decide_eq_true_iff, List.mem_append, List.mem_singleton]

theorem operation_of_kinds (opts : List option_t) :
    ∀ b ∈ opts.filterMap operation_of, b ∈ kinds := by
  intro b hb
  obtain ⟨opt, -, hopt⟩ := List.mem_filterMap.mp hb
  cases opt <;> simp [operation_of] at hopt <;> rw [← hopt] <;> decide

/-- What is bound for the operations. -/
theorem selects_iff (opts : List option_t) {operation : ℤ} (hoperation : operation ∈ kinds) :
    selects (if (opts.filterMap operation_of).foldl or_int 0 = 0 then PKG_OP_ALL
        else (opts.filterMap operation_of).foldl or_int 0) operation = true
      ↔ Wants opts operation := by
  obtain ⟨hmask, hselects⟩ := foldl_or_int (operation_of_kinds opts)
  have hall : ∀ b ∈ kinds, selects PKG_OP_ALL b = true := by decide
  have hzero : ∀ b ∈ kinds, selects 0 b = false := by decide
  rw [Wants]
  by_cases hmask : (opts.filterMap operation_of).foldl or_int 0 = 0
  · rw [if_pos hmask]
    refine iff_of_true (hall operation hoperation) (Or.inl ?_)
    -- any operation would be in the mask
    rw [List.eq_nil_iff_forall_not_mem]
    intro b hb
    have hb' := (hselects b (operation_of_kinds opts b hb)).mpr hb
    rw [hmask, hzero b (operation_of_kinds opts b hb)] at hb'
    exact absurd hb' (by simp)
  · rw [if_neg hmask, hselects operation hoperation]
    refine ⟨Or.inr, fun h => h.resolve_left ?_⟩
    intro hnil
    rw [hnil] at hmask
    exact hmask rfl

/-! ## The count -/

theorem convert_bounds {bits : ℕ} {negative : Bool} {lo hi acc any v : ℤ} {err : ParseNumError}
    {endptr endptr' : List Char} (h : convert bits negative (some lo) (some hi) acc any err endptr
      = ⟨.PARSE_NUM_NO_ERR, endptr', some v⟩) : lo ≤ v ∧ v ≤ hi := by
  unfold convert at h
  grind

theorem strnto_bounds {bits : ℕ} {nptr endptr : List Char} {base lo hi v : ℤ}
    (h : strnto bits nptr base (some lo) (some hi) = ⟨.PARSE_NUM_NO_ERR, endptr, some v⟩) :
    lo ≤ v ∧ v ≤ hi := by
  unfold strnto at h
  dsimp only at h
  split_ifs at h <;> first | exact convert_bounds h | exact absurd h (by simp)

/-- `-n` is positive and an `int`. -/
theorem count_option_bounds {optarg : CString} {val : ℤ} (h : count_option optarg = .ok val) :
    1 ≤ val ∧ val ≤ INT_MAX := by
  unfold count_option at h
  split at h
  case h_1 endptr v hconversion =>
    have hstrnto : strnto 32 optarg.chars 10 (some 1) (some INT_MAX)
        = ⟨.PARSE_NUM_NO_ERR, endptr, some v⟩ := hconversion
    rw [← Except.ok.inj h]
    exact strnto_bounds hstrnto
  case h_2 => exact absurd h (by simp)

theorem limit_bounds (opts : List option_t) :
    1 ≤ last_of count_of 100 opts ∧ last_of count_of 100 opts ≤ INT_MAX := by
  apply last_of_induction (fun limit => 1 ≤ limit ∧ limit ≤ INT_MAX)
  · decide
  · intro opt v hopt
    cases opt with
    | n optarg =>
        rw [count_of] at hopt
        cases hcount : count_option optarg with
        | error stop => exact absurd hopt (by simp [hcount, Except.toOption])
        | ok val =>
            have hval : val = v := by simpa [hcount, Except.toOption] using hopt
            rw [← hval]
            exact count_option_bounds hcount
    | _ => exact absurd hopt (by simp [count_of])

/-- The limit is the count of `-n`. -/
theorem sql_limit_eq (opts : List option_t) (rows : List joined) :
    sql_limit (int32 (last_of count_of 100 opts)) rows
      = rows.take (last_of count_of 100 opts).toNat := by
  obtain ⟨hlow, hhigh⟩ := limit_bounds opts
  have hint : int32 (last_of count_of 100 opts) = last_of count_of 100 opts := by
    unfold INT_MAX at hhigh
    rw [int32, bmod_eq_self_iff]
    omega
  rw [hint, sql_limit, if_neg (by omega)]

/-! ## What is shown -/

/-- The listing shows every row, whatever headers stand between them. -/
theorem shown_full (qo : query_options_t) (vars : vars_t) {rows : List joined}
    (hline : ∀ r ∈ rows, ∃ l, r.line = some l) :
    (lines_shown none (display_history_full qo vars rows)).map (fun shown => (shown.1, shown.2.1))
      = rows.map fun r => (r, package_of qo r) := by
  unfold display_history_full
  by_cases hnil : rows = []
  · rw [if_pos hnil, hnil]
    rfl
  · rw [if_neg hnil, lines_shown_full qo rows hline]
    conv_rhs => rw [← runs_flatten id_key rows (-1)]
    rw [List.map_append, List.map_append, List.map_map, List.map_flatMap, List.map_flatMap]
    congr 1
    apply List.flatMap_congr
    intro s _
    rw [List.map_map]
    rfl

theorem shown_search (qo : query_options_t) (vars : vars_t) (rows : List joined) :
    (lines_shown none (display_history_search qo vars rows)).map
        (fun shown => (shown.1, shown.2.1))
      = rows.map fun r => (r, package_of qo r) := by
  have heq := search_shown_eq qo vars rows
  rw [search_shown] at heq
  rw [heq, List.map_map]
  rfl

/-- The rows of an answer are the first ones of a listing. -/
theorem shows_of_shown {opts : List option_t} {qo : query_options_t} {listing : List joined}
    {printed : List printed_t} (horigin : qo.use_origin = opts.contains .o)
    (hshown : (lines_shown none printed).map (fun shown => (shown.1, shown.2.1))
      = (listing.take (last_of count_of 100 opts).toNat).map fun r => (r, package_of qo r))
    (hnothing : listing = [] → printed = [.nothing_to_show]) : Shows opts listing printed where
  rows := by
    have hfst := congrArg (List.map Prod.fst) hshown
    rw [List.map_map, List.map_map] at hfst
    exact hfst.trans (List.map_id' _)
  names := by
    intro shown hmem
    have hpair := List.mem_map_of_mem (f := fun shown => (shown.1, shown.2.1)) hmem
    rw [hshown, List.mem_map] at hpair
    obtain ⟨r, -, heq⟩ := hpair
    simp only [Prod.mk.injEq] at heq
    obtain ⟨rfl, hpackage⟩ := heq
    rw [← hpackage, package_of, horigin]
    split <;> rfl
  nothing := by
    refine ⟨?_, hnothing⟩
    intro hprinted
    have hempty : lines_shown none printed = [] := by rw [hprinted]; rfl
    rw [hempty, List.map_nil, eq_comm, List.map_eq_nil_iff, List.take_eq_nil_iff] at hshown
    -- the count is positive
    have hlow := (limit_bounds opts).1
    exact hshown.resolve_left (by omega)

/-- The query options the file is asked with. -/
structure Ready (s : system_t) (opts : List option_t) (qo : query_options_t) : Prop where
  limit : qo.limit = last_of count_of 100 opts
  statement : qo.statement = last_of statement_of .STMT_SEARCH_LINE_EXACT_CI opts
  operations : ∀ operation ∈ kinds, selects qo.operations operation = true ↔ Wants opts operation
  use_origin : qo.use_origin = opts.contains .o
  from_ : qo.from_ = last_of (from_of s) 0 opts
  to_ : qo.to_ = last_of (to_of s) (s.time.getD (-1)) opts

theorem Settled.ready {s : system_t} {opts : List option_t} {qo : query_options_t}
    (h : Settled s opts qo) :
    Ready s opts (if qo.operations = 0 then { qo with operations := PKG_OP_ALL } else qo) := by
  have hselects := fun operation (hoperation : operation ∈ kinds) => selects_iff opts hoperation
  rw [← h.operations] at hselects
  split
  case isTrue hzero =>
    rw [if_pos hzero] at hselects
    exact ⟨h.limit, h.statement, hselects, h.use_origin, h.from_, h.to_⟩
  case isFalse hzero =>
    rw [if_neg hzero] at hselects
    exact ⟨h.limit, h.statement, hselects, h.use_origin, h.from_, h.to_⟩

section Display

variable {s : system_t} {glob : List Char → List Char → Bool} {db : history_db}
  {opts : List option_t} {qo : query_options_t}

theorem Ready.has_operation_iff (h : Ready s opts qo) {r : joined} (hr : r ∈ join db.totables) :
    has_operation (int32 qo.operations) r = true
      ↔ ∃ l, r.line = some l ∧ Wants opts l.operation_id := by
  obtain ⟨-, l, hl, hline⟩ := mem_join.mp hr
  have hkind := db.operation_id l (mem_lines_of.mp hl).1
  have hselects : has_operation (int32 qo.operations) r = selects qo.operations l.operation_id := by
    simp only [has_operation, hline, selects]
  rw [hselects, h.operations _ hkind, hline]
  simp

/-- **The listing**: the rows between the bounds, of the operations asked for. -/
theorem Ready.listed_full (h : Ready s opts qo) {listing : List joined}
    (hlisting : FullListing db qo listing) : Listed s glob db.totables opts [] listing where
  nodup := hlisting.nodup
  newest_first := by
    obtain ⟨q, hq, hlists⟩ := hlisting
    rw [full_query_eq, Option.some.injEq] at hq
    have hsorted := hlists.sorted
    rw [← hq] at hsorted
    refine hsorted.imp ?_
    intro a b hab
    unfold by_date_and_name at hab
    grind
  mem_iff := by
    intro r
    rw [hlisting.mem_iff, h.from_, h.to_]
    simp only [bound, List.not_mem_nil, false_implies, implies_true, and_true]
    refine and_congr_right fun hr => and_congr_right fun _ => h.has_operation_iff hr

/-- **The search**: those that match, between the lower halves of the bounds. -/
theorem Ready.listed_search (h : Ready s opts qo) {searched : CString} {listing : List joined}
    (hlisting : SearchListing glob db qo searched.chars listing) :
    Listed s glob db.totables opts [searched] listing where
  nodup := hlisting.nodup
  newest_first := by
    obtain ⟨q, hq, hlists⟩ := hlisting
    rw [search_query_eq, Option.some.injEq] at hq
    have hsorted := hlists.sorted
    rw [← hq] at hsorted
    refine hsorted.imp ?_
    intro a b hab
    simpa [by_date] using hab
  mem_iff := by
    intro r
    rw [hlisting.mem_iff, h.from_, h.to_, h.statement]
    simp only [bound, List.mem_singleton, forall_eq]
    refine and_congr_right fun hr => ?_
    rw [h.has_operation_iff hr]
    tauto

end Display

/-! ## The command as a whole -/

/-- Every step of `db_open` succeeds, but for the version, which isn't set. -/
def system_t.opens (s : system_t) : Bool := { s.db_open with set_user_version := true }.succeed

/-- The options end the command: it doesn't open the file. -/
structure Stopped (stop : stop_t) (outcome : outcome_t) : Prop where
  returned : outcome.returned = match stop with
    | .usage => some .EX_USAGE
    | .invalid_argument _ => some .EPKG_OK
    | .assertion => none
  error : outcome.error = match stop with
    | .invalid_argument error => some error
    | _ => none
  db_open : outcome.db_open = none
  is_open : outcome.db.is_open = false
  printed : outcome.printed = []

/-- The options are right: if the file is opened it stays open, and what is asked for is shown;
with two arguments or more, nothing is. -/
structure Answered (s : system_t) (glob : List Char → List Char → Bool) (t : tables)
    (opts : List option_t) (args : List CString) (outcome : outcome_t) : Prop where
  returned : outcome.returned = some .EPKG_OK
  error : outcome.error = none
  db_open : outcome.db_open = some .EPKG_OK ↔ s.opens = true
  is_open : s.opens = true → outcome.db.is_open = true
  printed : if s.opens = true ∧ args.length ≤ 1 then
      ∃ listing, Listed s glob t opts args listing ∧ Shows opts listing outcome.printed
    else outcome.printed = []

theorem db_open_read_spec (s : system_t) (t : tables) :
    (db_open_read s t).2.durable = t ∧ (db_open_read s t).2.transaction = none
      ∧ ((db_open_read s t).1 = .EPKG_OK ↔ s.opens = true)
      ∧ (s.opens = true → (db_open_read s t).2.is_open = true
        ∧ (sqlite_close (db_open_read s t).2).is_open = true) := by
  obtain ⟨hdurable, htransaction, hsucceed, hfail⟩ :=
    db_open_spec { s.db_open with set_user_version := true } t
  refine ⟨hdurable, htransaction, ⟨?_, fun h => (hsucceed h).1⟩, ?_⟩
  · intro hok
    by_contra hopens
    rw [Bool.not_eq_true] at hopens
    exact hfail hopens hok
  · intro hopens
    obtain ⟨-, hprepared, hopen⟩ := hsucceed hopens
    refine ⟨hopen, ?_⟩
    -- the statements of the plugin are left
    have hleft : STMT_COUNT + STATEMENTS_SIZE - STMT_COUNT ≠ 0 := by decide
    rw [db_open_read, sqlite_close, hprepared, sqlite3_close, if_neg hleft]
    exact hopen

section Main

variable {s : system_t} {glob : List Char → List Char → Bool} {db : history_db}
  {opts : List option_t} {qo : query_options_t}

theorem Ready.display (h : Ready s opts qo) (sqlite : sqlite_t glob db.totables) (vars : vars_t)
    {args : List CString} (hargs : args.length ≤ 1) :
    ∃ listing, Listed s glob db.totables opts args listing
      ∧ Shows opts listing (display sqlite vars qo db.totables args) := by
  match args, hargs with
  | [], _ =>
      have hquery := full_query_eq db.totables qo
      obtain ⟨listing, hlists, hanswer⟩ := sqlite.answers _ ⟨qo, Or.inl hquery⟩
      have hlisting : FullListing db qo listing := ⟨_, hquery, hlists⟩
      refine ⟨listing, h.listed_full hlisting, ?_⟩
      rw [HistoryCommand.display, hquery, Option.elim_some, hanswer, h.limit, sql_limit_eq]
      apply shows_of_shown h.use_origin
      · apply shown_full
        intro r hr
        exact has_operation_line ((hlisting.mem_iff db qo r).mp (List.mem_of_mem_take hr)).2.2
      · rintro rfl
        rw [List.take_nil]
        rfl
  | [searched], _ =>
      have hquery := search_query_eq glob db.totables qo searched.chars
      obtain ⟨listing, hlists, hanswer⟩ :=
        sqlite.answers _ ⟨qo, Or.inr ⟨searched.chars, hquery⟩⟩
      refine ⟨listing, h.listed_search ⟨_, hquery, hlists⟩, ?_⟩
      rw [HistoryCommand.display, hquery, Option.elim_some, hanswer, h.limit, sql_limit_eq]
      apply shows_of_shown h.use_origin
      · exact shown_search qo vars _
      · rintro rfl
        rw [List.take_nil]
        rfl

theorem display_many (sqlite : sqlite_t glob db.totables) (vars : vars_t) (qo : query_options_t)
    (view : tables) {args : List CString} (hargs : ¬ args.length ≤ 1) :
    display sqlite vars qo view args = [] := by
  match args, hargs with
  | [], hargs => exact absurd (Nat.zero_le 1) hargs
  | [_], hargs => exact absurd (Nat.le_refl 1) hargs
  | _ :: _ :: _, _ => rfl

end Main

end PkgPlugins.HistoryCommand
