/-
Connections to SQLite (`sqlite/sqlite.c`): transactions, statements that write,
and the close.

SQLite itself is not part of the repository. What a connection does with a
statement is given by how the statement ends (`step_result`): a write that is
done adds to the transaction, or to the database if there is none; one that fails
changes nothing; an error may also roll the whole transaction back. A close is
refused while a statement is not finalized.
-/
import Mathlib.Algebra.Group.Nat.Defs
import Mathlib.Data.Int.Init
import Mathlib.Tactic.SplitIfs

set_option autoImplicit false

namespace PkgPlugins.Sqlite

/-! ## Connections -/

/-- How the execution of a statement ends. -/
inductive step_result
  | done
  | failed
  | rolled_back
deriving DecidableEq

/-- A connection to a database with contents in `α`. A connection that is not open
is a null pointer. -/
structure sqlite_db_t (α : Type) where
  durable : α
  transaction : Option α
  last_insert_rowid : ℤ
  prepared : ℕ
  is_open : Bool

section Connections

variable {α : Type}

/-- What the connection reads. -/
def sqlite_db_t.view (dbh : sqlite_db_t α) : α := dbh.transaction.getD dbh.durable

/-- A write: to the transaction if there is one. -/
def sqlite_db_t.put (dbh : sqlite_db_t α) (contents : α) : sqlite_db_t α :=
  match dbh.transaction with
  | some _ => { dbh with transaction := some contents }
  | none => { dbh with durable := contents }

/-- `statement_fetch` of an `INSERT`, which has no row to fetch; `write` gives the
new contents and the rowid. -/
def statement_fetch (dbh : sqlite_db_t α) (r : step_result) (write : α → α × ℤ) :
    sqlite_db_t α × ℤ :=
  match r with
  | .done => ({ dbh.put (write dbh.view).1 with last_insert_rowid := (write dbh.view).2 }, 0)
  | .failed => (dbh, -1)
  | .rolled_back => ({ dbh with transaction := none }, -1)

/-- `sqlite_last_insert_id`, which returns an `int`. -/
def sqlite_last_insert_id (dbh : sqlite_db_t α) : ℤ := dbh.last_insert_rowid.bmod (2 ^ 32)

def sqlite_transaction_begin (dbh : sqlite_db_t α) (r : step_result) : sqlite_db_t α × Bool :=
  match dbh.transaction, r with
  | none, .done => ({ dbh with transaction := some dbh.durable }, true)
  | _, _ => (dbh, false)

def sqlite_transaction_commit (dbh : sqlite_db_t α) (r : step_result) : sqlite_db_t α × Bool :=
  match dbh.transaction, r with
  | some contents, .done => ({ dbh with durable := contents, transaction := none }, true)
  | some _, .rolled_back => ({ dbh with transaction := none }, false)
  | _, _ => (dbh, false)

/-- `sqlite3_close`: with `SQLITE_BUSY` the connection stays as it is. -/
def sqlite3_close (dbh : sqlite_db_t α) : sqlite_db_t α :=
  if dbh.prepared = 0 then { dbh with transaction := none, is_open := false } else dbh

/-- `ARRAY_SIZE(statements)` in `sqlite.c`. -/
def STMT_COUNT : ℕ := 1

/-- `sqlite_close`: of the prepared statements only those of `sqlite.c` are
finalized. -/
def sqlite_close (dbh : sqlite_db_t α) : sqlite_db_t α :=
  sqlite3_close { dbh with prepared := dbh.prepared - STMT_COUNT }

/-! ## What they keep -/

/-- A statement in a transaction leaves the database alone. -/
theorem statement_fetch_durable {dbh : sqlite_db_t α} (h : dbh.transaction ≠ none)
    (r : step_result) (write : α → α × ℤ) :
    (statement_fetch dbh r write).1.durable = dbh.durable := by
  unfold statement_fetch sqlite_db_t.put
  obtain ⟨contents, hcontents⟩ := Option.ne_none_iff_exists'.mp h
  rw [hcontents]
  cases r <;> rfl

theorem statement_fetch_prepared (dbh : sqlite_db_t α) (r : step_result) (write : α → α × ℤ) :
    (statement_fetch dbh r write).1.prepared = dbh.prepared := by
  unfold statement_fetch sqlite_db_t.put
  cases dbh.transaction <;> cases r <;> rfl

/-- Without a transaction, none comes up. -/
theorem statement_fetch_transaction {dbh : sqlite_db_t α} (h : dbh.transaction = none)
    (r : step_result) (write : α → α × ℤ) :
    (statement_fetch dbh r write).1.transaction = none := by
  unfold statement_fetch sqlite_db_t.put
  rw [h]
  cases r <;> simp [h]

theorem sqlite_close_durable (dbh : sqlite_db_t α) : (sqlite_close dbh).durable = dbh.durable := by
  unfold sqlite_close sqlite3_close
  split_ifs <;> rfl

/-- No close leaves a transaction open if none was. -/
theorem sqlite_close_transaction {dbh : sqlite_db_t α} (h : dbh.transaction = none) :
    (sqlite_close dbh).transaction = none := by
  unfold sqlite_close sqlite3_close
  split_ifs
  · rfl
  · exact h

/-- **A close is refused** while there are statements of others: the transaction
stays open. -/
theorem sqlite_close_busy {dbh : sqlite_db_t α} (h : STMT_COUNT < dbh.prepared) :
    (sqlite_close dbh).transaction = dbh.transaction := by
  unfold sqlite_close sqlite3_close
  have hleft : dbh.prepared - STMT_COUNT ≠ 0 := by omega
  rw [if_neg hleft]

/-! ## What holds of the contents -/

/-- The contents satisfy `P`, and so does what a transaction would make of them. -/
structure sqlite_db_t.Holds (P : α → Prop) (dbh : sqlite_db_t α) : Prop where
  durable : P dbh.durable
  transaction : ∀ contents, dbh.transaction = some contents → P contents

section Holds

variable {P : α → Prop} {dbh : sqlite_db_t α}

theorem sqlite_db_t.Holds.view (h : dbh.Holds P) : P dbh.view := by
  unfold sqlite_db_t.view
  cases htransaction : dbh.transaction with
  | none => exact h.durable
  | some contents => exact h.transaction contents htransaction

/-- **A write** that keeps what holds of the contents keeps it on the connection,
however its statement ends. -/
theorem statement_fetch_holds (h : dbh.Holds P) (r : step_result) {write : α → α × ℤ}
    (hwrite : ∀ contents, P contents → P (write contents).1) :
    (statement_fetch dbh r write).1.Holds P := by
  cases r with
  | failed => exact h
  | rolled_back => exact ⟨h.durable, fun _ hnone => absurd hnone (by simp [statement_fetch])⟩
  | done =>
      have hput := hwrite dbh.view h.view
      simp only [statement_fetch, sqlite_db_t.put]
      cases htransaction : dbh.transaction with
      | none => exact ⟨hput, fun _ hsome => absurd hsome (by simp)⟩
      | some contents =>
          refine ⟨h.durable, ?_⟩
          intro contents' hsome
          rw [← Option.some.inj hsome]
          exact hput

theorem sqlite_transaction_begin_holds (h : dbh.Holds P) (r : step_result) :
    (sqlite_transaction_begin dbh r).1.Holds P := by
  unfold sqlite_transaction_begin
  split
  · refine ⟨h.durable, ?_⟩
    intro contents hsome
    rw [← Option.some.inj hsome]
    exact h.durable
  · exact h

theorem sqlite_transaction_commit_holds (h : dbh.Holds P) (r : step_result) :
    (sqlite_transaction_commit dbh r).1.Holds P := by
  unfold sqlite_transaction_commit
  split
  case h_1 contents htransaction =>
    exact ⟨h.transaction contents htransaction, fun _ hnone => absurd hnone (by simp)⟩
  case h_2 => exact ⟨h.durable, fun _ hnone => absurd hnone (by simp)⟩
  case h_3 => exact h

end Holds

end Connections

end PkgPlugins.Sqlite
