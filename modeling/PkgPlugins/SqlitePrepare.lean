/-
Preparing an array of statements: `sqlite_stmt_prepare` (`sqlite/sqlite.c`).

The function stops at the first statement that can't be prepared, takes one off the index
to name it, and goes down from there to finalize those before it. The index is a `size_t`:
taking one off 0 wraps around, and a read beyond the array is a fault.

SQLite is a parameter, with what it documents on a call that fails.
`sqlite_stmt_prepare_all_or_nothing` says that either every statement is prepared or none
is left so.
-/
import Mathlib.Data.List.Induction
import PkgPlugins.SqliteMigrate

set_option autoImplicit false

namespace PkgPlugins.SqlitePrepare

open PkgPlugins.SqliteMigrate (SQLITE_OK)

/-! ## SQLite -/

/-- The calls, on a connection in a state of `σ`, where `stmt` are the prepared statements
and a pointer to one may be null. -/
structure sqlite3 (σ stmt : Type) where
  prepare_v2 : σ → List Char → ℤ × Option stmt × σ
  errmsg : σ → List Char
  finalize : σ → Option stmt → σ

/-- If an error occurs, the pointer to the statement is null. -/
def NullOnError {σ stmt : Type} (sqlite : sqlite3 σ stmt) : Prop :=
  ∀ db text, (sqlite.prepare_v2 db text).1 ≠ SQLITE_OK → (sqlite.prepare_v2 db text).2.1 = none

/-! ## The function -/

structure sqlite_statement_t (stmt : Type) where
  statement : List Char
  prepared : Option stmt
deriving DecidableEq

/-- A call of `sqlite3_prepare_v2` and what came of it. -/
structure prepare_call (σ stmt : Type) where
  statement : List Char
  ret : ℤ
  prepared : Option stmt
  db : σ
deriving DecidableEq

inductive Fault
  | out_of_bounds
  | unfinished
deriving DecidableEq

/-- The variables, the array, and the calls of SQLite so far. -/
structure locals (σ stmt : Type) where
  db : σ
  ok : Bool
  i : UInt64
  statements : List (sqlite_statement_t stmt)
  calls : List (prepare_call σ stmt)
  finalized : List (Option stmt)

/-- What comes of the function: the result, the connection, the array, the calls, and the
message. -/
structure outcome (σ stmt : Type) where
  returned : Bool
  db : σ
  statements : List (sqlite_statement_t stmt)
  calls : List (prepare_call σ stmt)
  finalized : List (Option stmt)
  error : Option (List Char)
deriving DecidableEq

section Function

variable {σ stmt : Type} (sqlite : sqlite3 σ stmt)

/-- `statements[i]`. -/
def locals.element (v : locals σ stmt) : Except Fault (sqlite_statement_t stmt) :=
  match v.statements[v.i.toNat]? with
  | some s => .ok s
  | none => .error .out_of_bounds

/-- A turn of the first loop, with its `i++`. -/
def prepare_body (v : locals σ stmt) : Except Fault (locals σ stmt) := do
  let s ← v.element
  let (ret, prepared, db) := sqlite.prepare_v2 v.db s.statement
  return { v with
    db := db
    ok := v.ok && ret == SQLITE_OK
    i := v.i + 1
    statements := v.statements.set v.i.toNat { s with prepared := prepared }
    calls := v.calls ++ [⟨s.statement, ret, prepared, db⟩] }

/-- `for (i = 0; ok && i < count; i++)`. -/
def prepare_loop (count : UInt64) : ℕ → locals σ stmt → Except Fault (locals σ stmt)
  | 0, _ => .error .unfinished
  | fuel + 1, v =>
      if v.ok = true ∧ v.i < count then do prepare_loop count fuel (← prepare_body sqlite v)
      else .ok v

/-- A turn of the second loop. -/
def finalize_body (v : locals σ stmt) : Except Fault (locals σ stmt) := do
  let s ← v.element
  return { v with
    db := sqlite.finalize v.db s.prepared
    statements := v.statements.set v.i.toNat { s with prepared := none }
    finalized := v.finalized ++ [s.prepared] }

/-- `while (i-- != 0)`. -/
def finalize_loop : ℕ → locals σ stmt → Except Fault (locals σ stmt)
  | 0, _ => .error .unfinished
  | fuel + 1, v =>
      if v.i ≠ 0 then do finalize_loop fuel (← finalize_body sqlite { v with i := v.i - 1 })
      else .ok { v with i := v.i - 1 }

def sqlite_stmt_prepare (db : σ) (statements : List (sqlite_statement_t stmt)) (count : UInt64) :
    Except Fault (outcome σ stmt) := do
  let v ← prepare_loop sqlite count (count.toNat + 1) ⟨db, true, 0, statements, [], []⟩
  if v.ok then
    return ⟨true, v.db, v.statements, v.calls, v.finalized, none⟩
  else
    -- return on the statement which actually failed
    let v := { v with i := v.i - 1 }
    let s ← v.element
    let error := sqlite.errmsg v.db ++ " for ".toList ++ s.statement
    let v ← finalize_loop sqlite (v.i.toNat + 1) v
    return ⟨false, v.db, v.statements, v.calls, v.finalized, some error⟩

/-! ## What is promised -/

/-- The element of the array after the call. -/
def prepare_call.entry (c : prepare_call σ stmt) : sqlite_statement_t stmt :=
  ⟨c.statement, c.prepared⟩

/-- The calls are what `sqlite3_prepare_v2` answers, one after the other, on a connection
in the state `db`. -/
def Answered : σ → List (prepare_call σ stmt) → Prop
  | _, [] => True
  | db, c :: calls =>
      sqlite.prepare_v2 db c.statement = (c.ret, c.prepared, c.db) ∧ Answered c.db calls

/-- The state the calls leave the connection in. -/
def after : σ → List (prepare_call σ stmt) → σ
  | db, [] => db
  | _, c :: calls => after c.db calls

theorem after_append (db : σ) (calls calls' : List (prepare_call σ stmt)) :
    after db (calls ++ calls') = after (after db calls) calls' := by
  induction calls generalizing db with
  | nil => rfl
  | cons c calls ih => exact ih c.db

theorem Answered.append {db : σ} {calls calls' : List (prepare_call σ stmt)} :
    Answered sqlite db (calls ++ calls')
      ↔ Answered sqlite db calls ∧ Answered sqlite (after db calls) calls' := by
  induction calls generalizing db with
  | nil =>
      rw [List.nil_append]
      exact (and_iff_right trivial).symm
  | cons c calls ih =>
      rw [List.cons_append, Answered, Answered, ih, and_assoc]
      rfl

/-- `true`: every statement is prepared, and stays so. -/
structure All (db : σ) (statements : List (sqlite_statement_t stmt)) (o : outcome σ stmt) :
    Prop where
  returned : o.returned = true
  answered : Answered sqlite db o.calls
  each : o.calls.map (·.statement) = statements.map (·.statement)
  succeeded : ∀ c ∈ o.calls, c.ret = SQLITE_OK
  entries : o.statements = o.calls.map prepare_call.entry
  kept : o.finalized = []
  left : o.db = after db o.calls
  silent : o.error = none

/-- `false`: the calls are those up to the first failure `c`, which the message names. The
statements before it are finalized, each once, and every pointer is null. -/
structure Nothing (db : σ) (statements : List (sqlite_statement_t stmt)) (o : outcome σ stmt)
    (done : List (prepare_call σ stmt)) (c : prepare_call σ stmt) : Prop where
  returned : o.returned = false
  calls : o.calls = done ++ [c]
  answered : Answered sqlite db o.calls
  first : o.calls.map (·.statement) <+: statements.map (·.statement)
  succeeded : ∀ c ∈ done, c.ret = SQLITE_OK
  failed : c.ret ≠ SQLITE_OK
  finalized : o.finalized = (done.map (·.prepared)).reverse
  left : o.db = o.finalized.foldl sqlite.finalize (after db o.calls)
  null : o.statements = statements.map fun s => ⟨s.statement, none⟩
  error : o.error = some (sqlite.errmsg c.db ++ " for ".toList ++ c.statement)

/-! ## The loops -/

/-- In the first loop: the array is what the calls made of it, and what is left. -/
structure Preparing (v : locals σ stmt) (rest : List (sqlite_statement_t stmt)) : Prop where
  index : v.i.toNat = v.calls.length
  statements : v.statements = v.calls.map prepare_call.entry ++ rest
  finalized : v.finalized = []

/-- `statements[i]` where the array is split at `i`. -/
theorem element_eq {v : locals σ stmt} {pre post : List (sqlite_statement_t stmt)}
    {s : sqlite_statement_t stmt} (hstatements : v.statements = pre ++ s :: post)
    (hi : v.i.toNat = pre.length) : v.element = .ok s := by
  unfold locals.element
  rw [hstatements, hi, List.getElem?_append_right (Nat.le_refl _), Nat.sub_self]
  rfl

/-- A write to `statements[i]`. -/
theorem set_eq (pre post : List (sqlite_statement_t stmt)) (s s' : sqlite_statement_t stmt) :
    (pre ++ s :: post).set pre.length s' = pre ++ s' :: post := by
  rw [List.set_append_right _ _ (Nat.le_refl _), Nat.sub_self, List.set_cons_zero]

theorem toNat_succ {i : UInt64} {n : ℕ} (h : i.toNat + 1 ≤ n) (hn : n < 2 ^ 64) :
    (i + 1).toNat = i.toNat + 1 := by
  rw [UInt64.toNat_add, UInt64.toNat_one, Nat.mod_eq_of_lt (by omega)]

theorem toNat_pred {i : UInt64} {n : ℕ} (h : i.toNat = n + 1) : (i - 1).toNat = n := by
  have hone : (1 : UInt64) ≤ i := UInt64.le_iff_toNat_le.mpr (by rw [h, UInt64.toNat_one]; omega)
  rw [UInt64.toNat_sub_of_le _ _ hone, h, UInt64.toNat_one, Nat.add_sub_cancel]

/-- A turn of the first loop prepares the statement at the index. -/
theorem prepare_body_spec {v : locals σ stmt} {s : sqlite_statement_t stmt}
    {rest : List (sqlite_statement_t stmt)} (h : Preparing v (s :: rest))
    (hlen : v.statements.length < 2 ^ 64) :
    ∃ v' c, prepare_body sqlite v = .ok v' ∧ Preparing v' rest
      ∧ v'.calls = v.calls ++ [c] ∧ c.statement = s.statement ∧ v'.db = c.db
      ∧ sqlite.prepare_v2 v.db c.statement = (c.ret, c.prepared, c.db)
      ∧ v'.ok = (v.ok && c.ret == SQLITE_OK) := by
  have hindex : v.i.toNat = (v.calls.map prepare_call.entry).length := by
    rw [List.length_map, h.index]
  have helement := element_eq h.statements hindex
  obtain ⟨⟨ret, prepared, db⟩, hcall⟩ : ∃ r, sqlite.prepare_v2 v.db s.statement = r := ⟨_, rfl⟩
  have hbody : prepare_body sqlite v = .ok { v with
      db := db
      ok := v.ok && ret == SQLITE_OK
      i := v.i + 1
      statements := v.statements.set v.i.toNat { s with prepared := prepared }
      calls := v.calls ++ [⟨s.statement, ret, prepared, db⟩] } := by
    unfold prepare_body
    rw [helement]
    simp only [bind, Except.bind, hcall]
    rfl
  refine ⟨_, ⟨s.statement, ret, prepared, db⟩, hbody, ⟨?_, ?_, h.finalized⟩, rfl, rfl, rfl,
    hcall, rfl⟩
  · have hlt : v.i.toNat + 1 ≤ v.statements.length := by
      rw [h.statements, List.length_append, List.length_cons, hindex]
      omega
    have hnext : (v.i + 1).toNat = v.i.toNat + 1 := toNat_succ hlt hlen
    rw [hnext, h.index, List.length_append, List.length_singleton]
  · rw [h.statements, hindex, set_eq, List.map_append, List.append_assoc]
    rfl

/-- From `db`, the loop went over the rest of the array. -/
structure Through (db : σ) (v : locals σ stmt) (rest : List (sqlite_statement_t stmt))
    (calls : List (prepare_call σ stmt)) : Prop where
  ok : v.ok = true
  preparing : Preparing v []
  answered : Answered sqlite db calls
  left : v.db = after db calls
  succeeded : ∀ c ∈ calls, c.ret = SQLITE_OK
  each : calls.map (·.statement) = rest.map (·.statement)

/-- From `db`, the loop was stopped by the failure `c`, after the calls `done` and before
`post`. -/
structure Stopped (db : σ) (v : locals σ stmt) (rest : List (sqlite_statement_t stmt))
    (done : List (prepare_call σ stmt)) (c : prepare_call σ stmt)
    (post : List (sqlite_statement_t stmt)) : Prop where
  ok : v.ok = false
  preparing : Preparing v post
  answered : Answered sqlite db (done ++ [c])
  left : v.db = after db (done ++ [c])
  succeeded : ∀ c ∈ done, c.ret = SQLITE_OK
  failed : c.ret ≠ SQLITE_OK
  each : rest.map (·.statement) = (done ++ [c]).map (·.statement) ++ post.map (·.statement)
  suffix : post <:+ rest

/-- A call that succeeds comes before the others. -/
theorem Through.cons {db : σ} {v : locals σ stmt} {s : sqlite_statement_t stmt}
    {rest : List (sqlite_statement_t stmt)} {c : prepare_call σ stmt}
    {calls : List (prepare_call σ stmt)} (h : Through sqlite c.db v rest calls)
    (hcall : sqlite.prepare_v2 db c.statement = (c.ret, c.prepared, c.db))
    (hc : c.ret = SQLITE_OK) (hstatement : c.statement = s.statement) :
    Through sqlite db v (s :: rest) (c :: calls) := by
  refine ⟨h.ok, h.preparing, ⟨hcall, h.answered⟩, h.left,
    List.forall_mem_cons.mpr ⟨hc, h.succeeded⟩, ?_⟩
  rw [List.map_cons, List.map_cons, h.each, hstatement]

theorem Stopped.cons {db : σ} {v : locals σ stmt} {s : sqlite_statement_t stmt}
    {rest post : List (sqlite_statement_t stmt)} {c d : prepare_call σ stmt}
    {done : List (prepare_call σ stmt)} (h : Stopped sqlite c.db v rest done d post)
    (hcall : sqlite.prepare_v2 db c.statement = (c.ret, c.prepared, c.db))
    (hc : c.ret = SQLITE_OK) (hstatement : c.statement = s.statement) :
    Stopped sqlite db v (s :: rest) (c :: done) d post := by
  refine ⟨h.ok, h.preparing, ⟨hcall, h.answered⟩, h.left,
    List.forall_mem_cons.mpr ⟨hc, h.succeeded⟩, h.failed, ?_,
    h.suffix.trans (List.suffix_cons s rest)⟩
  rw [List.map_cons, h.each, List.cons_append, List.map_cons, hstatement, List.cons_append]

/-- **The first loop**: either it gets to the end, or the last call is the first that
failed. -/
theorem prepare_loop_spec (count : UInt64) (rest : List (sqlite_statement_t stmt)) :
    ∀ {fuel : ℕ} {v : locals σ stmt}, rest.length < fuel → Preparing v rest → v.ok = true →
      v.statements.length = count.toNat →
      ∃ v' calls, prepare_loop sqlite count fuel v = .ok v' ∧ v'.calls = v.calls ++ calls
        ∧ (Through sqlite v.db v' rest calls
          ∨ ∃ done c post, calls = done ++ [c] ∧ Stopped sqlite v.db v' rest done c post) := by
  induction rest with
  | nil =>
      intro fuel v hfuel h hok hcount
      obtain ⟨fuel, rfl⟩ := Nat.exists_eq_add_one.mpr hfuel
      have hend : ¬ v.i < count := by
        rw [UInt64.lt_iff_toNat_lt, ← hcount, h.index, h.statements, List.append_nil,
          List.length_map]
        exact Nat.lt_irrefl _
      refine ⟨v, [], ?_, (List.append_nil _).symm, Or.inl ⟨hok, h, trivial, rfl, ?_, rfl⟩⟩
      · rw [prepare_loop, if_neg (fun hc => hend hc.2)]
      · exact fun c hc => absurd hc List.not_mem_nil
  | cons s rest ih =>
      intro fuel v hfuel h hok hcount
      obtain ⟨fuel, rfl⟩ := Nat.exists_eq_add_one.mpr (Nat.zero_lt_of_lt hfuel)
      have hlength : v.statements.length = v.i.toNat + (rest.length + 1) := by
        rw [h.statements, List.length_append, List.length_map, h.index, List.length_cons]
      have hlt : v.i < count := by
        rw [UInt64.lt_iff_toNat_lt, ← hcount, hlength]
        omega
      have hsize : v.statements.length < 2 ^ 64 := by
        rw [hcount]
        exact count.toNat_lt
      obtain ⟨w, c, hw, hprep, hcalls, hstatement, hdb, hcall, hwok⟩ :=
        prepare_body_spec sqlite h hsize
      have hstep : prepare_loop sqlite count (fuel + 1) v = prepare_loop sqlite count fuel w := by
        rw [prepare_loop, if_pos ⟨hok, hlt⟩, hw]
        rfl
      rw [hstep]
      by_cases hc : c.ret = SQLITE_OK
      · -- the rest is up to the next turns
        have hokw : w.ok = true := by rw [hwok, hok, hc]; rfl
        have hcountw : w.statements.length = count.toNat := by
          rw [hprep.statements, List.length_append, List.length_map, hcalls, List.length_append,
            ← hcount, hlength, h.index, List.length_singleton]
          omega
        have hfuelw : rest.length < fuel := by
          rw [List.length_cons] at hfuel
          omega
        obtain ⟨v', calls, hrun, hcalls', hend⟩ := ih hfuelw hprep hokw hcountw
        refine ⟨v', c :: calls, hrun, ?_, ?_⟩
        · rw [hcalls', hcalls, List.append_assoc]
          rfl
        · rw [hdb] at hend
          obtain hthrough | ⟨done, d, post, rfl, hstopped⟩ := hend
          · exact Or.inl (hthrough.cons sqlite hcall hc hstatement)
          · exact Or.inr ⟨c :: done, d, post, rfl, hstopped.cons sqlite hcall hc hstatement⟩
      · -- the loop stops with the index one past the statement that failed
        have hokw : w.ok = false := by
          rw [hwok, Bool.and_eq_false_imp]
          exact fun _ => beq_false_of_ne hc
        have hfuelw : fuel ≠ 0 := by
          rw [List.length_cons] at hfuel
          omega
        obtain ⟨fuel, rfl⟩ := Nat.exists_eq_succ_of_ne_zero hfuelw
        refine ⟨w, [c], ?_, hcalls, Or.inr ⟨[], c, rest, rfl, hokw, hprep, ⟨hcall, trivial⟩, hdb,
          ?_, hc, ?_, ?_⟩⟩
        · rw [prepare_loop, if_neg (by rw [hokw]; exact fun h => absurd h.1 Bool.false_ne_true)]
        · exact fun d hd => absurd hd List.not_mem_nil
        · rw [List.map_cons, List.nil_append, List.map_singleton, hstatement, List.singleton_append]
        · exact List.suffix_cons s rest

/-- **The second loop** goes down over what is prepared, to the start of the array. -/
theorem finalize_loop_spec (done : List (sqlite_statement_t stmt)) :
    ∀ {fuel : ℕ} {v : locals σ stmt} {post : List (sqlite_statement_t stmt)},
      done.length < fuel → v.i.toNat = done.length → v.statements = done ++ post →
      ∃ v', finalize_loop sqlite fuel v = .ok v' ∧ v'.calls = v.calls
        ∧ v'.statements = (done.map fun s => ⟨s.statement, none⟩) ++ post
        ∧ v'.db = (done.map (·.prepared)).reverse.foldl sqlite.finalize v.db
        ∧ v'.finalized = v.finalized ++ (done.map (·.prepared)).reverse := by
  induction done using List.reverseRecOn with
  | nil =>
      intro fuel v post hfuel hi hstatements
      obtain ⟨fuel, rfl⟩ := Nat.exists_eq_add_one.mpr hfuel
      have hzero : v.i = 0 := UInt64.toNat_inj.mp hi
      refine ⟨{ v with i := v.i - 1 }, ?_, rfl, hstatements, rfl, (List.append_nil _).symm⟩
      rw [finalize_loop, if_neg (not_not_intro hzero)]
  | append_singleton done s ih =>
      intro fuel v post hfuel hi hstatements
      rw [List.length_append, List.length_singleton] at hfuel hi
      obtain ⟨fuel, rfl⟩ := Nat.exists_eq_add_one.mpr (Nat.zero_lt_of_lt hfuel)
      have hne : v.i ≠ 0 := by
        intro hzero
        rw [hzero] at hi
        exact absurd hi (Nat.zero_ne_add_one _)
      have hpred : (v.i - 1).toNat = done.length := toNat_pred hi
      rw [List.append_assoc, List.singleton_append] at hstatements
      have helement : locals.element { v with i := v.i - 1 } = .ok s :=
        element_eq hstatements hpred
      have hset : v.statements.set (v.i - 1).toNat ⟨s.statement, none⟩
          = done ++ ⟨s.statement, none⟩ :: post := by
        rw [hstatements, hpred, set_eq]
      obtain ⟨v', hrun, hcalls, hstatements', hdb, hfinalized⟩ := @ih fuel
        { v with
          i := v.i - 1
          db := sqlite.finalize v.db s.prepared
          statements := v.statements.set (v.i - 1).toNat { s with prepared := none }
          finalized := v.finalized ++ [s.prepared] }
        (⟨s.statement, none⟩ :: post) (Nat.lt_of_succ_lt_succ hfuel) hpred hset
      refine ⟨v', ?_, hcalls, ?_, ?_, ?_⟩
      · rw [finalize_loop, if_pos hne, finalize_body, helement]
        exact hrun
      · rw [hstatements', List.map_append, List.append_assoc]
        rfl
      · rw [hdb, List.map_append, List.reverse_append, List.foldl_append]
        rfl
      · rw [hfinalized, List.map_append, List.reverse_append, List.append_assoc]
        rfl

/-! ## All or nothing -/

theorem map_texts (statements : List (sqlite_statement_t stmt)) :
    (statements.map fun s => (⟨s.statement, none⟩ : sqlite_statement_t stmt))
      = (statements.map (·.statement)).map fun text => ⟨text, none⟩ := by
  rw [List.map_map]
  rfl

/-- Where no pointer is set, there is nothing to reset. -/
theorem map_null {statements : List (sqlite_statement_t stmt)}
    (h : ∀ s ∈ statements, s.prepared = none) :
    (statements.map fun s => (⟨s.statement, none⟩ : sqlite_statement_t stmt)) = statements := by
  refine (List.map_congr_left fun s hs => ?_).trans (List.map_id statements)
  rw [← h s hs]
  rfl

/-- **All or nothing**: the function returns, and either every statement is prepared or
those that were are finalized, each once, every pointer is null and the message names the
first that failed. The calls are those SQLite answered, and the connection is as the last
of them, or the last of the finalizations, left it. -/
theorem sqlite_stmt_prepare_all_or_nothing (hsqlite : NullOnError sqlite) (db : σ)
    {statements : List (sqlite_statement_t stmt)} (hnull : ∀ s ∈ statements, s.prepared = none)
    {count : UInt64} (hcount : statements.length = count.toNat) :
    ∃ o, sqlite_stmt_prepare sqlite db statements count = .ok o
      ∧ (All sqlite db statements o ∨ ∃ done c, Nothing sqlite db statements o done c) := by
  have hstart : Preparing (⟨db, true, 0, statements, [], []⟩ : locals σ stmt) statements :=
    ⟨rfl, rfl, rfl⟩
  have hfuel : statements.length < count.toNat + 1 := by omega
  obtain ⟨v, calls, hloop, hcalls, hend⟩ :=
    prepare_loop_spec sqlite count statements hfuel hstart rfl hcount
  have hcalls : v.calls = calls := hcalls
  unfold sqlite_stmt_prepare
  rw [hloop]
  obtain ⟨hok, hprep, hanswered, hdb, hall, htexts⟩ | ⟨done, c, post, rfl, hstopped⟩ := hend
  · refine ⟨⟨true, v.db, v.statements, v.calls, v.finalized, none⟩, ?_, Or.inl ?_⟩
    · simp only [bind, Except.bind, hok]
      rfl
    · refine ⟨rfl, ?_, ?_, ?_, ?_, hprep.finalized, ?_, rfl⟩
      · rw [hcalls]
        exact hanswered
      · rw [hcalls, htexts]
      · rw [hcalls]
        exact hall
      · rw [hprep.statements, List.append_nil]
      · rw [hcalls]
        exact hdb
  · -- the index goes back to the statement that failed, whose pointer is null
    obtain ⟨hok, hprep, hanswered, hdb, hall, hc, htexts, hsuffix⟩ := hstopped
    have hcall : sqlite.prepare_v2 (after db done) c.statement = (c.ret, c.prepared, c.db) :=
      ((Answered.append sqlite).mp hanswered).2.1
    have hi : v.i.toNat = done.length + 1 := by
      rw [hprep.index, hcalls, List.length_append, List.length_singleton]
    have hpred : (v.i - 1).toNat = (done.map prepare_call.entry).length := by
      rw [toNat_pred hi, List.length_map]
    have hfailed : c.entry = ⟨c.statement, none⟩ := by
      have hnone : c.prepared = none := by
        have hnull := hsqlite (after db done) c.statement
        rw [hcall] at hnull
        exact hnull hc
      rw [prepare_call.entry, hnone]
    have harray : v.statements = done.map prepare_call.entry ++ c.entry :: post := by
      rw [hprep.statements, hcalls, List.map_append, List.append_assoc]
      rfl
    have helement : locals.element { v with i := v.i - 1 } = .ok c.entry :=
      element_eq harray hpred
    have hdownfuel : (done.map prepare_call.entry).length < (v.i - 1).toNat + 1 := by omega
    obtain ⟨w, hdown, hwcalls, hwstatements, hwdb, hwfinalized⟩ :=
      @finalize_loop_spec σ stmt sqlite (done.map prepare_call.entry) _ { v with i := v.i - 1 } _
        hdownfuel hpred harray
    refine ⟨⟨false, w.db, w.statements, w.calls, w.finalized,
      some (sqlite.errmsg v.db ++ " for ".toList ++ c.statement)⟩, ?_, Or.inr ⟨done, c, ?_⟩⟩
    · have hnok : ¬ v.ok = true := by rw [hok]; exact Bool.false_ne_true
      simp only [bind, Except.bind, if_neg hnok, helement]
      rw [hdown]
      rfl
    · refine ⟨rfl, ?_, ?_, ?_, hall, hc, ?_, ?_, ?_, ?_⟩
      · rw [hwcalls, hcalls]
      · rw [hwcalls, hcalls]
        exact hanswered
      · rw [hwcalls, hcalls, htexts]
        exact List.prefix_append _ _
      · rw [hwfinalized, hprep.finalized, List.nil_append, List.map_map]
        rfl
      · rw [hwdb, hwfinalized, hprep.finalized, List.nil_append, hwcalls, hcalls, ← hdb]
      · have hpost := map_null fun s hs => hnull s (hsuffix.subset hs)
        rw [hwstatements, hfailed, ← hpost, map_texts statements, htexts]
        simp [prepare_call.entry, map_texts post]
      · rw [hdb, after_append]
        rfl

end Function

/-! ## A connection that can't prepare one text -/

/-- A statement is its text, the state counts the calls, and the text `b` has a syntax
error. -/
def syntax_error : sqlite3 ℕ (List Char) where
  prepare_v2 n text := if text = ['b'] then (1, none, n + 1) else (SQLITE_OK, some text, n + 1)
  errmsg _ := "near \"b\": syntax error".toList
  finalize n _ := n + 1

theorem syntax_error_null : NullOnError syntax_error := by
  intro db text h
  by_cases htext : text = ['b']
  · simp only [syntax_error, if_pos htext]
  · simp only [syntax_error, if_neg htext] at h
    exact absurd rfl h

/-- The second of three statements fails, and the first is finalized. -/
theorem sqlite_stmt_prepare_second :
    (∃ o, sqlite_stmt_prepare syntax_error 0 [⟨['a'], none⟩, ⟨['b'], none⟩, ⟨['c'], none⟩] 3 = .ok o
      ∧ (All syntax_error 0 [⟨['a'], none⟩, ⟨['b'], none⟩, ⟨['c'], none⟩] o
        ∨ ∃ done c, Nothing syntax_error 0 [⟨['a'], none⟩, ⟨['b'], none⟩, ⟨['c'], none⟩] o done c))
      ∧ sqlite_stmt_prepare syntax_error 0 [⟨['a'], none⟩, ⟨['b'], none⟩, ⟨['c'], none⟩] 3
        = .ok ⟨false, 3, [⟨['a'], none⟩, ⟨['b'], none⟩, ⟨['c'], none⟩],
            [⟨['a'], 0, some ['a'], 1⟩, ⟨['b'], 1, none, 2⟩], [some ['a']],
            some "near \"b\": syntax error for b".toList⟩ :=
  ⟨sqlite_stmt_prepare_all_or_nothing syntax_error syntax_error_null 0 (by decide) rfl, by decide⟩

end PkgPlugins.SqlitePrepare
