/-
Creating a table, or bringing it up to date: `sqlite_create_or_migrate`
(`sqlite/sqlite.c`).

SQLite is a parameter: what each of its calls returns, on contents of any type. The
pointer `errmsg` starts without a value and is only set by `sqlite3_exec`. Where the
statement can't be prepared nothing has set it yet, and where the step neither gives a
row nor ends, the status is still the one of the preparation.

`sqlite_create_or_migrate_sound_iff` says for which ends of the calls the result is the
one that is promised.
-/
import PkgPlugins.Sqlite

set_option autoImplicit false

namespace PkgPlugins.SqliteMigrate

/-! ## SQLite -/

def SQLITE_OK : ℤ := 0

def SQLITE_ROW : ℤ := 100

def SQLITE_DONE : ℤ := 101

/-- What the calls do to a database with contents in `σ`, where `stmt` are the prepared
statements: the first component is what a call returns. `sqlite3_mprintf` returns a text if
there is memory for it. `sqlite3_exec` always sets its last argument, to a null pointer if
it has no message. -/
structure sqlite3 (σ stmt : Type) where
  has_memory : σ → List Char → Bool
  prepare_v2 : σ → List Char → ℤ × stmt × σ
  step : σ → stmt → ℤ × σ
  reset : σ → stmt → σ
  finalize : σ → stmt → σ
  exec : σ → List Char → ℤ × Option (List Char) × σ
  table_exists : σ → List Char → Prop

/-- `%w` writes a `"` twice. -/
def format_w (text : List Char) : List Char :=
  text.flatMap fun c => if c = '"' then ['"', '"'] else [c]

/-- `PRAGMA table_info(%w)`. -/
def pragma_text (table_name : List Char) : List Char :=
  "PRAGMA table_info(".toList ++ format_w table_name ++ [')']

/-! ## The function -/

structure sqlite_migration_t where
  version : ℤ
  statement : List Char

/-- The pointer `errmsg`, which may be null once it is assigned. -/
inductive errmsg_t
  | uninitialised
  | assigned (p : Option (List Char))
deriving DecidableEq

/-- A call of `sqlite3_exec` and what came of it. -/
structure exec_call where
  statement : List Char
  ret : ℤ
  errmsg : Option (List Char)
deriving DecidableEq

section Function

variable {σ stmt : Type} (sqlite : sqlite3 σ stmt)

/-- The variables, and the calls of `sqlite3_exec` so far. -/
structure locals (σ : Type) where
  db : σ
  ret : ℤ
  errmsg : errmsg_t
  calls : List exec_call

/-- `ret = sqlite3_exec(dbh->db, statement, NULL, NULL, &errmsg)`. -/
def exec (v : locals σ) (statement : List Char) : locals σ :=
  let (ret, errmsg, db) := sqlite.exec v.db statement
  { db := db, ret := ret, errmsg := .assigned errmsg,
    calls := v.calls ++ [⟨statement, ret, errmsg⟩] }

/-- The loop over the migrations. -/
def migrate (user_version : ℤ) : List sqlite_migration_t → locals σ → locals σ
  | [], v => v
  | m :: migrations, v =>
      if v.ret = SQLITE_OK then
        migrate user_version migrations
          (if m.version > user_version then exec sqlite v m.statement else v)
      else v

/-- What comes of the function: the result, what `errmsg` is where it is read, if it is,
the calls of `sqlite3_exec`, and the message for the caller. -/
structure outcome (σ : Type) where
  returned : Bool
  errmsg_read : Option errmsg_t
  calls : List exec_call
  error : Option (List Char)
  db : σ

/-- `set_sqlite_exec_error`, which has no message to give if `errmsg` has no value. -/
def exec_error (buffer : List Char) : errmsg_t → Option (List Char)
  | .uninitialised => none
  | .assigned p =>
      some ("[sqlite_create_or_migrate:546] ".toList ++ p.getD "(null)".toList ++ " for ".toList
        ++ buffer)

/-- The `switch` on the result of the step. -/
def create_or_migrate (create_stmt : List Char) (migrations : List sqlite_migration_t)
    (user_version step : ℤ) (v : locals σ) : locals σ :=
  if step = SQLITE_DONE then exec sqlite v create_stmt
  else if step = SQLITE_ROW then migrate sqlite user_version migrations v
  -- NOP: error is handled below
  else v

/-- The variables after `sqlite3_prepare_v2` and what is done if it succeeds. -/
def prepared (db : σ) (user_version : ℤ) (buffer create_stmt : List Char)
    (migrations : List sqlite_migration_t) : locals σ :=
  let (ret, s, db) := sqlite.prepare_v2 db buffer
  if ret = SQLITE_OK then
    let (step, db) := sqlite.step db s
    create_or_migrate sqlite create_stmt migrations user_version step
      ⟨sqlite.finalize (sqlite.reset db s) s, ret, .uninitialised, []⟩
  else ⟨db, ret, .uninitialised, []⟩

def sqlite_create_or_migrate (db : σ) (user_version : ℤ) (table_name create_stmt : List Char)
    (migrations : List sqlite_migration_t) : outcome σ :=
  let buffer := pragma_text table_name
  if sqlite.has_memory db buffer then
    let v := prepared sqlite db user_version buffer create_stmt migrations
    if v.ret ≠ SQLITE_OK then
      ⟨false, some v.errmsg, v.calls, exec_error buffer v.errmsg, v.db⟩
    else ⟨true, none, v.calls, none, v.db⟩
  else
    ⟨false, none, [], some ("can't create table ".toList ++ table_name
      ++ ": buffer overflow".toList), db⟩

/-! ## What is promised -/

/-- The contents when the statement on the table is stepped, and what the preparation
returned. -/
def asked (db : σ) (table_name : List Char) : ℤ × stmt × σ :=
  sqlite.prepare_v2 db (pragma_text table_name)

/-- What the step returns. -/
def answer (db : σ) (table_name : List Char) : ℤ :=
  (sqlite.step (asked sqlite db table_name).2.2 (asked sqlite db table_name).2.1).1

/-- The table is there when the statement on it is stepped. -/
def existed (db : σ) (table_name : List Char) : Prop :=
  sqlite.table_exists (asked sqlite db table_name).2.2 table_name

/-- The migrations that are due. -/
def pending (user_version : ℤ) (migrations : List sqlite_migration_t) : List sqlite_migration_t :=
  migrations.filter fun m => m.version > user_version

/-- The calls of `sqlite3_exec` are those of the statements, in order, and succeed. -/
def Succeeded (calls : List exec_call) (statements : List (List Char)) : Prop :=
  calls.map (fun c => (c.statement, c.ret)) = statements.map fun text => (text, SQLITE_OK)

/-- A failed call has set the pointer. -/
def SetByFailure (calls : List exec_call) (e : errmsg_t) : Prop :=
  ∃ c ∈ calls, c.ret ≠ SQLITE_OK ∧ e = .assigned c.errmsg

/-- **The promise**: with `true` the table was there and every migration that is due was
executed, or it was not and the creation was; with `false` the message that is read was set
by a call that failed. -/
def Sound (db : σ) (user_version : ℤ) (table_name create_stmt : List Char)
    (migrations : List sqlite_migration_t) : Prop :=
  let o := sqlite_create_or_migrate sqlite db user_version table_name create_stmt migrations
  (o.returned = true →
      existed sqlite db table_name
          ∧ Succeeded o.calls ((pending user_version migrations).map sqlite_migration_t.statement)
        ∨ ¬ existed sqlite db table_name ∧ Succeeded o.calls [create_stmt])
    ∧ (o.returned = false → ∀ e, o.errmsg_read = some e → SetByFailure o.calls e)

/-- `PRAGMA table_info` has a row for each column of the table: it yields one if the table
is there, and ends at once if it is not. -/
structure PragmaTells (table_name : List Char) : Prop where
  row : ∀ db, (asked sqlite db table_name).1 = SQLITE_OK →
    answer sqlite db table_name = SQLITE_ROW → existed sqlite db table_name
  done : ∀ db, (asked sqlite db table_name).1 = SQLITE_OK →
    answer sqlite db table_name = SQLITE_DONE → ¬ existed sqlite db table_name

/-- Doing nothing is enough if no migration is due. -/
theorem succeeded_nil_pending_iff (user_version : ℤ) (migrations : List sqlite_migration_t) :
    Succeeded [] ((pending user_version migrations).map sqlite_migration_t.statement)
      ↔ ∀ m ∈ migrations, m.version ≤ user_version := by
  have hnil : Succeeded [] ((pending user_version migrations).map sqlite_migration_t.statement)
      ↔ pending user_version migrations = [] := by
    unfold Succeeded
    rw [List.map_nil, eq_comm, List.map_eq_nil_iff, List.map_eq_nil_iff]
  rw [hnil, pending, List.filter_eq_nil_iff]
  simp

/-! ## The loop -/

/-- After a failure nothing is executed. -/
theorem migrate_of_failed (user_version : ℤ) (migrations : List sqlite_migration_t)
    {v : locals σ} (hv : v.ret ≠ SQLITE_OK) : migrate sqlite user_version migrations v = v := by
  cases migrations with
  | nil => rfl
  | cons m migrations => rw [migrate, if_neg hv]

/-- A call of `sqlite3_exec` is recorded, with the status and the pointer it leaves. -/
theorem exec_spec (v : locals σ) (statement : List Char) :
    ∃ c : exec_call, c.statement = statement
      ∧ (exec sqlite v statement).calls = v.calls ++ [c]
      ∧ (exec sqlite v statement).ret = c.ret
      ∧ (exec sqlite v statement).errmsg = .assigned c.errmsg :=
  ⟨⟨statement, (sqlite.exec v.db statement).1, (sqlite.exec v.db statement).2.1⟩, rfl, rfl, rfl,
    rfl⟩

theorem succeeded_cons {c : exec_call} (hc : c.ret = SQLITE_OK) {calls : List exec_call}
    {statements : List (List Char)} (h : Succeeded calls statements) :
    Succeeded (c :: calls) (c.statement :: statements) := by
  unfold Succeeded
  rw [List.map_cons, List.map_cons, h, hc]

/-- **The loop** executes the migrations that are due, in order, up to the first that
fails, which sets the pointer. -/
theorem migrate_spec (user_version : ℤ) (migrations : List sqlite_migration_t) (v : locals σ)
    (hv : v.ret = SQLITE_OK) :
    ∃ calls, (migrate sqlite user_version migrations v).calls = v.calls ++ calls
      ∧ ((migrate sqlite user_version migrations v).ret = SQLITE_OK →
          Succeeded calls ((pending user_version migrations).map sqlite_migration_t.statement))
      ∧ ((migrate sqlite user_version migrations v).ret ≠ SQLITE_OK →
          SetByFailure calls (migrate sqlite user_version migrations v).errmsg) := by
  induction migrations generalizing v with
  | nil => exact ⟨[], (List.append_nil _).symm, fun _ => rfl, fun h => absurd hv h⟩
  | cons m migrations ih =>
      unfold migrate
      rw [if_pos hv]
      by_cases hdue : m.version > user_version
      · rw [if_pos hdue]
        have hpending : pending user_version (m :: migrations)
            = m :: pending user_version migrations :=
          List.filter_cons_of_pos (by simpa using hdue)
        rw [hpending, List.map_cons]
        obtain ⟨c, hstatement, hcalls, hret, herrmsg⟩ := exec_spec sqlite v m.statement
        by_cases hok : c.ret = SQLITE_OK
        · -- on with the rest
          obtain ⟨calls, hrest, hdone, hfailed⟩ := ih _ (hret.trans hok)
          refine ⟨c :: calls, ?_, fun h => ?_, fun h => ?_⟩
          · rw [hrest, hcalls, List.append_assoc, List.singleton_append]
          · rw [← hstatement]
            exact succeeded_cons hok (hdone h)
          · obtain ⟨c', hc', hboth⟩ := hfailed h
            exact ⟨c', List.mem_cons_of_mem c hc', hboth⟩
        · -- the loop ends here
          rw [migrate_of_failed sqlite user_version migrations (by rwa [hret])]
          refine ⟨[c], hcalls, fun h => absurd (hret.symm.trans h) hok, fun _ => ?_⟩
          exact ⟨c, List.mem_singleton_self c, hok, herrmsg⟩
      · rw [if_neg hdue]
        have hpending : pending user_version (m :: migrations)
            = pending user_version migrations :=
          List.filter_cons_of_neg (by simpa using hdue)
        rw [hpending]
        exact ih v hv

/-! ## The result -/

/-- A statement that is prepared is stepped, on to the `switch`. -/
theorem prepared_of_ok {db : σ} {table_name : List Char}
    (h : (asked sqlite db table_name).1 = SQLITE_OK) (user_version : ℤ)
    (create_stmt : List Char) (migrations : List sqlite_migration_t) :
    ∃ v : locals σ, v.ret = SQLITE_OK ∧ v.errmsg = .uninitialised ∧ v.calls = []
      ∧ prepared sqlite db user_version (pragma_text table_name) create_stmt migrations
        = create_or_migrate sqlite create_stmt migrations user_version
            (answer sqlite db table_name) v := by
  unfold asked at h
  unfold prepared
  dsimp only
  rw [if_pos h]
  refine ⟨_, ?_, ?_, ?_, rfl⟩
  · exact h
  · rfl
  · rfl

theorem prepared_of_failed {db : σ} {table_name : List Char}
    (h : (asked sqlite db table_name).1 ≠ SQLITE_OK) (user_version : ℤ)
    (create_stmt : List Char) (migrations : List sqlite_migration_t) :
    ∃ v : locals σ, v.ret ≠ SQLITE_OK ∧ v.calls = []
      ∧ prepared sqlite db user_version (pragma_text table_name) create_stmt migrations = v := by
  unfold asked at h
  unfold prepared
  dsimp only
  rw [if_neg h]
  refine ⟨_, ?_, ?_, rfl⟩
  · exact h
  · rfl

/-- What the promise says of the variables at the end. -/
def Keeps (there : Prop) (user_version : ℤ) (create_stmt : List Char)
    (migrations : List sqlite_migration_t) (v : locals σ) : Prop :=
  (v.ret = SQLITE_OK →
      there
          ∧ Succeeded v.calls ((pending user_version migrations).map sqlite_migration_t.statement)
        ∨ ¬ there ∧ Succeeded v.calls [create_stmt])
    ∧ (v.ret ≠ SQLITE_OK → SetByFailure v.calls v.errmsg)

theorem sound_iff {db : σ} {user_version : ℤ} {table_name create_stmt : List Char}
    {migrations : List sqlite_migration_t}
    (hmemory : sqlite.has_memory db (pragma_text table_name) = true) {v : locals σ}
    (hv : prepared sqlite db user_version (pragma_text table_name) create_stmt migrations = v) :
    Sound sqlite db user_version table_name create_stmt migrations
      ↔ Keeps (existed sqlite db table_name) user_version create_stmt migrations v := by
  unfold Sound sqlite_create_or_migrate Keeps
  dsimp only
  rw [if_pos hmemory, hv]
  by_cases hret : v.ret = SQLITE_OK
  · simp [hret]
  · simp [hret]

section Branches

variable {there : Prop} {v : locals σ} {user_version : ℤ} {create_stmt : List Char}
  {migrations : List sqlite_migration_t}

/-- A table that is not there is created, or the creation sets the message. -/
theorem exec_keeps (hthere : ¬ there) (hcalls : v.calls = []) :
    Keeps there user_version create_stmt migrations (exec sqlite v create_stmt) := by
  obtain ⟨c, hstatement, hexec, hexec_ret, hexec_errmsg⟩ := exec_spec sqlite v create_stmt
  unfold Keeps
  rw [hexec, hexec_ret, hexec_errmsg, hcalls, List.nil_append, ← hstatement]
  constructor
  · intro hok
    exact Or.inr ⟨hthere, succeeded_cons hok rfl⟩
  · intro hfailed
    exact ⟨c, List.mem_singleton_self c, hfailed, rfl⟩

/-- A table that is there is migrated. -/
theorem migrate_keeps (hthere : there) (hret : v.ret = SQLITE_OK) (hcalls : v.calls = []) :
    Keeps there user_version create_stmt migrations (migrate sqlite user_version migrations v) := by
  obtain ⟨calls, hloop, hok, hfailed⟩ := migrate_spec sqlite user_version migrations v hret
  unfold Keeps
  rw [hloop, hcalls, List.nil_append]
  exact ⟨fun h => Or.inl ⟨hthere, hok h⟩, hfailed⟩

/-- If nothing is done the status is that of the preparation. -/
theorem nop_keeps_iff (hret : v.ret = SQLITE_OK) (hcalls : v.calls = []) :
    Keeps there user_version create_stmt migrations v
      ↔ there ∧ ∀ m ∈ migrations, m.version ≤ user_version := by
  unfold Keeps
  rw [hcalls, succeeded_nil_pending_iff]
  constructor
  · rintro ⟨hok, -⟩
    obtain hkept | ⟨-, hcreated⟩ := hok hret
    · exact hkept
    · exact absurd hcreated (by simp [Succeeded])
  · intro hkept
    exact ⟨fun _ => Or.inl hkept, fun h => absurd hret h⟩

end Branches

/-- **When the promise is kept.** For every table, list of migrations and stored version
and whatever the calls return, the result of `sqlite_create_or_migrate` is the promised one
if and only if there is no memory for the statement on the table, or it is prepared and its
step gives a row or ends, or the step does neither but the table is there and no migration
is due. -/
theorem sqlite_create_or_migrate_sound_iff (table_name : List Char)
    (htells : PragmaTells sqlite table_name) (db : σ) (user_version : ℤ)
    (create_stmt : List Char) (migrations : List sqlite_migration_t) :
    Sound sqlite db user_version table_name create_stmt migrations
      ↔ sqlite.has_memory db (pragma_text table_name) = false
        ∨ (asked sqlite db table_name).1 = SQLITE_OK
          ∧ (answer sqlite db table_name = SQLITE_ROW
            ∨ answer sqlite db table_name = SQLITE_DONE
            ∨ existed sqlite db table_name ∧ ∀ m ∈ migrations, m.version ≤ user_version) := by
  cases hmemory : sqlite.has_memory db (pragma_text table_name) with
  | false =>
      refine iff_of_true ?_ (Or.inl rfl)
      unfold Sound sqlite_create_or_migrate
      simp [hmemory]
  | true =>
      simp only [Bool.true_eq_false, false_or]
      by_cases hprepared : (asked sqlite db table_name).1 = SQLITE_OK
      · obtain ⟨v, hret, -, hcalls, hv⟩ :=
          prepared_of_ok sqlite hprepared user_version create_stmt migrations
        rw [sound_iff sqlite hmemory hv, and_iff_right hprepared]
        by_cases hdone : answer sqlite db table_name = SQLITE_DONE
        · refine iff_of_true ?_ (Or.inr (Or.inl hdone))
          rw [create_or_migrate, if_pos hdone]
          exact exec_keeps sqlite (htells.done db hprepared hdone) hcalls
        · by_cases hrow : answer sqlite db table_name = SQLITE_ROW
          · refine iff_of_true ?_ (Or.inl hrow)
            rw [create_or_migrate, if_neg hdone, if_pos hrow]
            exact migrate_keeps sqlite (htells.row db hprepared hrow) hret hcalls
          · rw [create_or_migrate, if_neg hdone, if_neg hrow, or_iff_right hrow,
              or_iff_right hdone]
            exact nop_keeps_iff hret hcalls
      · -- the message that is read has not been set
        obtain ⟨v, hret, hcalls, hv⟩ :=
          prepared_of_failed sqlite hprepared user_version create_stmt migrations
        rw [sound_iff sqlite hmemory hv]
        refine iff_of_false ?_ (fun h => hprepared h.1)
        rintro ⟨-, hset⟩
        obtain ⟨c, hc, -⟩ := hset hret
        rw [hcalls] at hc
        exact List.not_mem_nil hc

end Function

/-! ## A database of table names -/

def create_t : List Char := "CREATE TABLE t(id INT)".toList

def SQLITE_BUSY : ℤ := 5

/-- A database of which only the names of the tables are known, where a statement on a
table is its name. The preparation returns `ret`, and `busy` says that another connection
holds the lock when the statement is stepped. -/
def names (ret : ℤ) (busy : Bool) : sqlite3 (List (List Char)) (List Char) where
  has_memory _ _ := true
  prepare_v2 db text := (ret, (text.drop 18).dropLast, db)
  step db name :=
    (if busy then SQLITE_BUSY else if db.contains name then SQLITE_ROW else SQLITE_DONE, db)
  reset db _ := db
  finalize db _ := db
  exec db text := (SQLITE_OK, none, if text = create_t then ['t'] :: db else db)
  table_exists db name := db.contains name

theorem answer_names (ret : ℤ) (busy : Bool) (db : List (List Char)) :
    answer (names ret busy) db ['t']
      = if busy then SQLITE_BUSY
        else if db.contains ['t'] then SQLITE_ROW else SQLITE_DONE := rfl

theorem names_tells (ret : ℤ) (busy : Bool) : PragmaTells (names ret busy) ['t'] := by
  refine ⟨fun db _ h => ?_, fun db _ h => ?_⟩
  · rw [answer_names] at h
    split_ifs at h with hbusy hmem
    · exact absurd h (by decide)
    · exact hmem
    · exact absurd h (by decide)
  · rw [answer_names] at h
    split_ifs at h with hbusy hmem
    · exact absurd h (by decide)
    · exact absurd h (by decide)
    · exact hmem

/-- A table that is not there is created. -/
theorem names_sound : Sound (names SQLITE_OK false) [] 0 ['t'] create_t [] ∧
    (sqlite_create_or_migrate (names SQLITE_OK false) [] 0 ['t'] create_t []).db = [['t']] :=
  ⟨(sqlite_create_or_migrate_sound_iff _ ['t'] (names_tells SQLITE_OK false) [] 0 create_t
      []).mpr (Or.inr ⟨rfl, Or.inr (Or.inl (by decide))⟩),
    by decide⟩

/-- **The promise is broken** where the step finds the database busy, which is taken for a
success without a table, and where the preparation fails, when a message is read that
nothing has set. -/
theorem names_unsound :
    (PragmaTells (names SQLITE_OK true) ['t']
        ∧ ¬ Sound (names SQLITE_OK true) [] 0 ['t'] create_t [])
      ∧ PragmaTells (names 1 false) ['t']
        ∧ ¬ Sound (names 1 false) [] 0 ['t'] create_t [] := by
  refine ⟨⟨names_tells SQLITE_OK true, ?_⟩, names_tells 1 false, ?_⟩
  · rintro ⟨htrue, -⟩
    obtain ⟨hmem, -⟩ | ⟨-, hcreated⟩ := htrue rfl
    · exact absurd hmem Bool.false_ne_true
    · exact absurd (congrArg List.length hcreated) (by decide)
  · rintro ⟨-, hfalse⟩
    obtain ⟨c, hc, -⟩ := hfalse rfl _ rfl
    exact absurd hc List.not_mem_nil

end PkgPlugins.SqliteMigrate
