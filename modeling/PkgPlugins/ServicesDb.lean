/-
The services plugin's database of rc.d scripts (`plugins/services/services_db.c`).

`services_db_scan_system` reads the scripts of `/etc/rc.d` and of
`LOCALBASE/etc/rc.d`, with the packages they belong to and their magic comments,
and then turns the names in REQUIRE and BEFORE into two lists per script: its
children and its parents. A pointer to a script is its position in `store`, the
scripts in the order they were allocated; the lists of scripts of the source are
lists of pointers.

The second half of the file says what a successful scan leaves. The scripts are
described by what was found on disk (`rc_d_file`: a name and the tokens of the
magic comments), and the children and parents by the relation `Related` between
those files. What is needed of the order in which the relationships are entered
is nothing, so they are followed as a list of pairs that only grows (`Linked`).
-/
import PkgPlugins.AssocTable
import PkgPlugins.Buffers

set_option autoImplicit false

namespace PkgPlugins.ServicesDb

open PkgPlugins.AssocTable PkgPlugins.Buffers

/-- A C string: names, paths, keywords. -/
abbrev Text := List Char

/-! ## What the plugin reads -/

/-- The handlers of the magic comments, by what they handle. -/
inductive handle_token
  | before
  | require
  | provide
  | keyword
deriving DecidableEq, Repr

/-- `rc_d_magic_comments[]`. -/
def rc_d_magic_comments : List (Text × handle_token) :=
  [ ("# BEFORE:".toList, .before), ("# REQUIRE:".toList, .require),
    ("# REQUIRES:".toList, .require), ("# PROVIDE:".toList, .provide),
    ("# PROVIDES:".toList, .provide), ("# KEYWORD:".toList, .keyword),
    ("# KEYWORDS:".toList, .keyword) ]

/-- The state of `parse_rc_d_script`. -/
inductive parsing_t
  | PARSING_BEFORE
  | PARSING_PENDING
  | PARSING_DONE
deriving DecidableEq

/-- The non-empty pieces `strsep(&p, " \t\n")` cuts a string into. -/
def strsep_tokens (p : Text) : List Text :=
  (p.splitOnP (fun c => c == ' ' || c == '\t' || c == '\n')).filter (· ≠ [])

/-- The loop of `parse_rc_d_script` over the logical lines of a script: the
tokens, each with the handler it is handed to, in order. -/
def rc_d_tokens : parsing_t → List Text → List (handle_token × Text)
  | _, [] => []
  | state, line :: lines =>
      if state = .PARSING_DONE then []
      else
        let state := if state ≠ .PARSING_BEFORE then .PARSING_DONE else state
        match rc_d_magic_comments.find? (fun m => m.1.isPrefixOf line) with
        | some m => (strsep_tokens (line.drop m.1.length)).map (fun t => (m.2, t))
            ++ rc_d_tokens .PARSING_PENDING lines
        | none => rc_d_tokens state lines

/-- What `stat(2)` and `fopen(3)` find at a directory entry. -/
inductive entry_t
  | statFailed
  | notRegular
  | unreadable
  | regular (lines : List Text)

/-- A directory entry. -/
structure dirent where
  d_name : Text
  entry : entry_t

/-- The queries to pkg's database. `query_which` gives the package a path belongs
to, with the shared libraries it requires; `none` is a failure.
`query_shlib_provide` gives the packages that provide a library. -/
structure pkgdb where
  query_which : Text → Option (Option (Text × List Text))
  query_shlib_provide : Text → List Text

/-- The system: `opendir(3)` with what `readdir(3)` yields, and `LOCALBASE`. -/
structure rc_system where
  opendir : Text → Option (List dirent)
  localbase : Text

/-- Why a scan fails, with what the message prints. -/
inductive scan_error
  | opendir (directory : Text)
  | overflow (e : buffer_overflow)
  | stat (path : Text)
  | which (path : Text)
  | fopen (path : Text)
deriving DecidableEq

/-- The message of an error; `strerror` is what `errno` adds. -/
def scan_error.text (strerror : String) : scan_error → String
  | .opendir d => "opendir(3) " ++ String.ofList d ++ " failed: " ++ strerror
  | .overflow e => e.text "w"
  | .stat p => "stat(2) failed for " ++ String.ofList p ++ ": " ++ strerror
  | .which p => "failed to fetch package owner of " ++ String.ofList p
  | .fopen p => "can't fopen(3) " ++ String.ofList p

/-! ## The database -/

structure package_t where
  rshlibs : List ℕ
  scripts : List ℕ
deriving DecidableEq

/-- A script; its package and its keywords are named, the names being the keys
of their tables. -/
structure rc_d_script_t where
  name : Text
  path : Text
  package : Option Text
  befores : List Text
  requires : List Text
  keywords : List Text
  children : List ℕ
  parents : List ℕ
deriving DecidableEq

structure services_db_t where
  store : List rc_d_script_t
  roots : List ℕ
  scripts : Table Text ℕ
  provides : Table Text (List ℕ)
  keywords : Table Text (List ℕ)
  packages : Table Text package_t

def services_db_create : services_db_t :=
  ⟨[], [], Table.empty, Table.empty, Table.empty, Table.empty⟩

/-- `*script`. -/
def services_db_t.script (db : services_db_t) (p : ℕ) : Option rc_d_script_t := db.store[p]?

/-- An assignment to fields of `*script`. -/
def services_db_t.modify (db : services_db_t) (p : ℕ) (f : rc_d_script_t → rc_d_script_t) :
    services_db_t :=
  { db with store := db.store.modify p f }

/-- `compare_scripts(a, b)` is zero. -/
def compare_scripts (db : services_db_t) (a b : ℕ) : Bool :=
  (db.script a).map rc_d_script_t.name == (db.script b).map rc_d_script_t.name

/-- `dlist_insert_unique` with `compare_scripts`. -/
def dlist_insert_unique (db : services_db_t) (list : List ℕ) (data : ℕ) : List ℕ :=
  if (list.find? (fun el => compare_scripts db el data)).isNone then list ++ [data] else list

def set_parenthood (db : services_db_t) (parent child : ℕ) : services_db_t :=
  let db := db.modify parent
    (fun s => { s with children := dlist_insert_unique db s.children child })
  db.modify child (fun s => { s with parents := dlist_insert_unique db s.parents parent })

def provides_by_name (db : services_db_t) (name : Text) : Option (List ℕ) := db.provides.get name

def add_before_relationship (db : services_db_t) (parent : ℕ) (child_name : Text) :
    services_db_t :=
  match provides_by_name db child_name with
  | some children => children.foldl (fun db child => set_parenthood db parent child) db
  | none => db

def add_require_relationship (db : services_db_t) (child : ℕ) (parent_name : Text) :
    services_db_t :=
  match provides_by_name db parent_name with
  | some parents => parents.foldl (fun db parent => set_parenthood db parent child) db
  | none => db

/-! ### Magic comments -/

def handle_before (db : services_db_t) (script : ℕ) (token : Text) : services_db_t :=
  db.modify script (fun s => { s with befores := s.befores ++ [token] })

def handle_require (db : services_db_t) (script : ℕ) (token : Text) : services_db_t :=
  db.modify script (fun s => { s with requires := s.requires ++ [token] })

def handle_provide (db : services_db_t) (script : ℕ) (token : Text) : services_db_t :=
  let scripts := (db.provides.get token).getD []
  { db with provides := db.provides.put token (scripts ++ [script]) }

def handle_keyword (db : services_db_t) (script : ℕ) (token : Text) : services_db_t :=
  let scripts := (db.keywords.get token).getD []
  let db := { db with keywords := db.keywords.put token (scripts ++ [script]) }
  db.modify script (fun s => { s with keywords := s.keywords ++ [token] })

/-- The call of a handler. -/
def handle_token.run (db : services_db_t) (script : ℕ) (t : handle_token × Text) : services_db_t :=
  match t.1 with
  | .before => handle_before db script t.2
  | .require => handle_require db script t.2
  | .provide => handle_provide db script t.2
  | .keyword => handle_keyword db script t.2

/-- `parse_rc_d_script` on the lines of a script: the handlers do not act on the
parsing, so the tokens are cut first. -/
def parse_rc_d_script (db : services_db_t) (script : ℕ) (lines : List Text) : services_db_t :=
  (rc_d_tokens .PARSING_BEFORE lines).foldl (fun db t => handle_token.run db script t) db

/-! ### Packages -/

/-- `package_retrieve`: the database with the package in it, and the package. -/
def package_retrieve (db : services_db_t) (name : Text) : services_db_t × package_t :=
  match db.packages.get name with
  | some pkg => (db, pkg)
  | none => ({ db with packages := db.packages.put name ⟨[], []⟩ }, ⟨[], []⟩)

def associate_package_to_script (db : services_db_t) (script : ℕ) (name : Text)
    (pkg : package_t) : services_db_t :=
  let db := { db with
    packages := db.packages.put name { pkg with scripts := pkg.scripts ++ [script] } }
  db.modify script (fun s => { s with package := some name })

/-- The body of the loop over the providers of a shared library. -/
def add_rshlib (script : ℕ) (db : services_db_t) (name : Text) : services_db_t :=
  let (db, shlib_package) := package_retrieve db name
  { db with packages := db.packages.put name { shlib_package with
      rshlibs := dlist_insert_unique db shlib_package.rshlibs script } }

def pkg_from_rc_d_script (pkg_db : pkgdb) (db : services_db_t) (script : ℕ) (path : Text) :
    Except scan_error services_db_t :=
  match pkg_db.query_which path with
  | none => .error (.which path)
  | some none => .ok db
  | some (some (pkg_name, shlibs)) =>
      let (db, script_package) := package_retrieve db pkg_name
      let db := associate_package_to_script db script pkg_name script_package
      .ok (shlibs.foldl (fun db shlib_name =>
        (pkg_db.query_shlib_provide shlib_name).foldl (add_rshlib script) db) db)

/-! ### The scan -/

/-- `register_script`: the database and the pointer to the new script. A name
that is already there keeps its first script in the table. -/
def register_script (db : services_db_t) (name path : Text) : services_db_t × ℕ :=
  let script := db.store.length
  ({ db with
      store := db.store ++ [⟨name, path, none, [], [], [], [], []⟩]
      scripts := db.scripts.putNew name script }, script)

/-- `MAXPATHLEN`. -/
def MAXPATHLEN : ℕ := 1024

/-- The body of the loop of `scan_rc_d_directory`. -/
def scan_entry (pkg_db : pkgdb) (directory : Text) (db : services_db_t) (dp : dirent) :
    Except scan_error services_db_t :=
  if dp.d_name = ['.'] ∨ dp.d_name = ['.', '.'] then .ok db
  else
    match path_join MAXPATHLEN [directory, dp.d_name] with
    | .error e => .error (.overflow e)
    | .ok path =>
        match dp.entry with
        | .statFailed => .error (.stat path)
        | .notRegular => .ok db
        | .unreadable => do
            let (db, script) := register_script db dp.d_name path
            let _ ← pkg_from_rc_d_script pkg_db db script path
            .error (.fopen path)
        | .regular lines => do
            let (db, script) := register_script db dp.d_name path
            let db ← pkg_from_rc_d_script pkg_db db script path
            .ok (parse_rc_d_script db script lines)

def scan_rc_d_directory (sys : rc_system) (pkg_db : pkgdb) (db : services_db_t)
    (directory : Text) : Except scan_error services_db_t :=
  match sys.opendir directory with
  | none => .error (.opendir directory)
  | some entries => entries.foldlM (scan_entry pkg_db directory) db

/-- The relationships of one script. -/
def manage_relationships (db : services_db_t) (script : ℕ) : services_db_t :=
  match db.script script with
  | none => db
  | some s =>
      let db := s.requires.foldl (fun db name => add_require_relationship db script name) db
      s.befores.foldl (fun db name => add_before_relationship db script name) db

/-- `dlist_empty(&script->parents)`. -/
def isRoot (db : services_db_t) (script : ℕ) : Bool :=
  match db.script script with
  | none => false
  | some s => s.parents.isEmpty

/-- The two steps of `services_db_scan_system` after the directories. -/
def link_scripts (db : services_db_t) : services_db_t :=
  let db := db.scripts.values.foldl manage_relationships db
  { db with roots := db.roots ++ db.scripts.values.filter (isRoot db) }

def services_db_scan_system (sys : rc_system) (pkg_db : pkgdb) (db : services_db_t) :
    Except scan_error services_db_t := do
  let db ← scan_rc_d_directory sys pkg_db db "/etc/rc.d".toList
  match path_join MAXPATHLEN [sys.localbase, "etc/rc.d".toList] with
  | .error e => .error (.overflow e)
  | .ok rc_d_directory => do
      let db ← scan_rc_d_directory sys pkg_db db rc_d_directory
      .ok (link_scripts db)

/-! ## What is on disk -/

/-- A script as it is on disk: its base name and the tokens of its magic comments. -/
structure rc_d_file where
  name : Text
  tokens : List (handle_token × Text)
deriving DecidableEq

/-- The names a script lists under a magic comment. -/
def rc_d_file.listed (f : rc_d_file) (h : handle_token) : List Text :=
  f.tokens.filterMap (fun t => if t.1 = h then some t.2 else none)

/-- The script a directory entry is read as, if it is one. -/
def fileOf (dp : dirent) : Option rc_d_file :=
  if dp.d_name = ['.'] ∨ dp.d_name = ['.', '.'] then none
  else
    match dp.entry with
    | .regular lines => some ⟨dp.d_name, rc_d_tokens .PARSING_BEFORE lines⟩
    | _ => none

/-- The scripts of the two directories, in the order they are read. -/
def filesOf (sys : rc_system) : List rc_d_file :=
  let read (directory : Text) := ((sys.opendir directory).getD []).filterMap fileOf
  read "/etc/rc.d".toList
    ++ match path_join MAXPATHLEN [sys.localbase, "etc/rc.d".toList] with
      | .error _ => []
      | .ok directory => read directory

/-- What the relationships of a script depend on. -/
structure node_t where
  name : Text
  requires : List Text
  befores : List Text
deriving DecidableEq

def rc_d_script_t.node (s : rc_d_script_t) : node_t := ⟨s.name, s.requires, s.befores⟩

def rc_d_file.node (f : rc_d_file) : node_t := ⟨f.name, f.listed .require, f.listed .before⟩

@[simp] theorem listed_append (name : Text) (toks : List (handle_token × Text))
    (t : handle_token × Text) (h : handle_token) :
    (rc_d_file.mk name (toks ++ [t])).listed h
      = (rc_d_file.mk name toks).listed h ++ (if t.1 = h then [t.2] else []) := by
  by_cases ht : t.1 = h <;> simp [rc_d_file.listed, ht]

/-- The two lists `services_db_scan_system` fills in. -/
def rc_d_script_t.links (s : rc_d_script_t) : List ℕ × List ℕ := (s.children, s.parents)

/-- The database after some scripts were read and before they are linked. -/
structure Scanned (db : services_db_t) (fs : List rc_d_file) : Prop where
  nodes : db.store.map rc_d_script_t.node = fs.map rc_d_file.node
  unlinked : db.store.map rc_d_script_t.links = fs.map (fun _ => ([], []))
  provides : ∀ n i, i ∈ (db.provides.get n).getD []
    ↔ ∃ f, fs[i]? = some f ∧ n ∈ f.listed .provide
  scripts : (fs.map rc_d_file.name).Nodup → db.scripts.entries = (fs.map rc_d_file.name).zipIdx
  roots : db.roots = []

theorem services_db_create_scanned : Scanned services_db_create [] :=
  ⟨rfl, rfl, by simp [services_db_create], fun _ => rfl, rfl⟩

/-- A change of one element, seen through a function. -/
theorem map_modify {α β : Type} {f : α → α} {g : α → β} {f' : β → β}
    (h : ∀ a, g (f a) = f' (g a)) (l : List α) (i : ℕ) :
    (l.modify i f).map g = (l.map g).modify i f' := by
  refine List.ext_getElem? (fun j => ?_)
  rw [List.getElem?_map, List.getElem?_modify, List.getElem?_modify, List.getElem?_map]
  cases l[j]? with
  | none => simp
  | some a => by_cases hij : i = j <;> simp [hij, h]

/-- A change that the function does not see. -/
theorem map_modify_eq {α β : Type} {f : α → α} {g : α → β} (h : ∀ a, g (f a) = g a) (l : List α)
    (i : ℕ) : (l.modify i f).map g = l.map g := by
  have hid : (l.modify i f).map g = (l.map g).modify i id := map_modify h l i
  rw [hid, List.modify_id]

theorem modify_last {α : Type} (l : List α) (a : α) (f : α → α) :
    (l ++ [a]).modify l.length f = l ++ [f a] := by
  induction l with
  | nil => simp
  | cons b l ih => simp [ih]

theorem getElem?_concat_eq_some {α : Type} (l : List α) (a b : α) (i : ℕ) :
    (l ++ [a])[i]? = some b ↔ l[i]? = some b ∨ (i = l.length ∧ b = a) := by
  rcases Nat.lt_trichotomy i l.length with hi | rfl | hi
  · rw [List.getElem?_append_left hi]
    exact ⟨Or.inl, fun h => h.elim id (fun h => absurd h.1 (by omega))⟩
  · simp [eq_comm]
  · rw [List.getElem?_eq_none (by simp; omega), List.getElem?_eq_none (by omega)]
    simp only [reduceCtorEq, false_or, false_iff, not_and]
    omega

/-- **What a directory entry does** to a scan that goes on: nothing, or it is
registered, looked up and parsed. -/
theorem scan_entry_cases {pkg_db : pkgdb} {directory : Text} {db db' : services_db_t}
    {dp : dirent} (hrun : scan_entry pkg_db directory db dp = .ok db') :
    (fileOf dp = none ∧ db' = db)
      ∨ ∃ path lines db₁, path_join MAXPATHLEN [directory, dp.d_name] = .ok path
        ∧ fileOf dp = some ⟨dp.d_name, rc_d_tokens .PARSING_BEFORE lines⟩
        ∧ pkg_from_rc_d_script pkg_db (register_script db dp.d_name path).1
            (register_script db dp.d_name path).2 path = .ok db₁
        ∧ db' = parse_rc_d_script db₁ (register_script db dp.d_name path).2 lines := by
  unfold scan_entry at hrun
  unfold fileOf
  by_cases hdot : dp.d_name = ['.'] ∨ dp.d_name = ['.', '.']
  · rw [if_pos hdot, Except.ok.injEq] at hrun
    exact Or.inl ⟨if_pos hdot, hrun.symm⟩
  · rw [if_neg hdot] at hrun ⊢
    cases hpath : path_join MAXPATHLEN [directory, dp.d_name] with
    | error e => rw [hpath] at hrun; exact absurd hrun (by simp)
    | ok path =>
        rw [hpath] at hrun
        cases hentry : dp.entry with
        | statFailed => rw [hentry] at hrun; exact absurd hrun (by simp)
        | notRegular =>
            rw [hentry] at hrun
            simp only [Except.ok.injEq] at hrun
            exact Or.inl ⟨rfl, hrun.symm⟩
        | unreadable =>
            -- the script is registered, but the scan fails on it
            rw [hentry] at hrun
            cases hpkg : pkg_from_rc_d_script pkg_db (register_script db dp.d_name path).1
                (register_script db dp.d_name path).2 path with
            | error e => simp [hpkg, bind, Except.bind] at hrun
            | ok db₁ => simp [hpkg, bind, Except.bind] at hrun
        | regular lines =>
            rw [hentry] at hrun
            cases hpkg : pkg_from_rc_d_script pkg_db (register_script db dp.d_name path).1
                (register_script db dp.d_name path).2 path with
            | error e => simp [hpkg, bind, Except.bind] at hrun
            | ok db₁ =>
                simp only [hpkg, bind, Except.bind, Except.ok.injEq] at hrun
                exact Or.inr ⟨path, lines, db₁, rfl, rfl, hpkg, hrun.symm⟩

/-- What is made of the entries of the two directories, in the order they are read. -/
def readAll {β : Type} (sys : rc_system) (f : Text → dirent → Option β) : List β :=
  let read (directory : Text) := ((sys.opendir directory).getD []).filterMap (f directory)
  read "/etc/rc.d".toList
    ++ match path_join MAXPATHLEN [sys.localbase, "etc/rc.d".toList] with
      | .error _ => []
      | .ok directory => read directory

section Induction

variable {β : Type} {f : Text → dirent → Option β} {I : services_db_t → List β → Prop}
  {pkg_db : pkgdb}

/-- What every entry keeps, a directory keeps. -/
theorem scan_rc_d_directory_induction
    (hentry : ∀ directory dp db db' xs, I db xs →
      scan_entry pkg_db directory db dp = .ok db' → I db' (xs ++ (f directory dp).toList))
    {sys : rc_system} {directory : Text} {db db' : services_db_t} {xs : List β}
    (h : I db xs) (hrun : scan_rc_d_directory sys pkg_db db directory = .ok db') :
    I db' (xs ++ ((sys.opendir directory).getD []).filterMap (f directory)) := by
  unfold scan_rc_d_directory at hrun
  cases hopen : sys.opendir directory with
  | none => rw [hopen] at hrun; exact absurd hrun (by simp)
  | some entries =>
      rw [hopen] at hrun
      rw [Option.getD_some]
      change entries.foldlM (scan_entry pkg_db directory) db = .ok db' at hrun
      clear hopen
      -- over the entries, as what is before the current one is known
      induction entries generalizing db xs with
      | nil =>
          simp only [List.foldlM_nil, pure, Except.pure, Except.ok.injEq] at hrun
          simpa [hrun] using h
      | cons dp entries ih =>
          rw [List.foldlM_cons] at hrun
          cases hdp : scan_entry pkg_db directory db dp with
          | error e => simp [hdp, bind, Except.bind] at hrun
          | ok db₁ =>
              simp only [hdp, bind, Except.bind] at hrun
              have hrest := ih (hentry directory dp db db₁ xs h hdp) hrun
              cases hf : f directory dp with
              | none => simpa [hf] using hrest
              | some x => simpa [hf] using hrest

/-- **A successful scan** links a database of which everything holds that every
entry keeps. -/
theorem services_db_scan_system_readAll
    (hentry : ∀ directory dp db db' xs, I db xs →
      scan_entry pkg_db directory db dp = .ok db' → I db' (xs ++ (f directory dp).toList))
    (hnil : I services_db_create []) {sys : rc_system} {db : services_db_t}
    (hrun : services_db_scan_system sys pkg_db services_db_create = .ok db) :
    ∃ db₀, I db₀ (readAll sys f) ∧ db = link_scripts db₀ := by
  unfold services_db_scan_system at hrun
  cases h₁ : scan_rc_d_directory sys pkg_db services_db_create "/etc/rc.d".toList with
  | error e => simp only [h₁, bind, Except.bind, reduceCtorEq] at hrun
  | ok db₁ =>
      simp only [h₁, bind, Except.bind] at hrun
      cases hpath : path_join MAXPATHLEN [sys.localbase, "etc/rc.d".toList] with
      | error e => simp only [hpath, reduceCtorEq] at hrun
      | ok path =>
          simp only [hpath] at hrun
          cases h₂ : scan_rc_d_directory sys pkg_db db₁ path with
          | error e => simp only [h₂, reduceCtorEq] at hrun
          | ok db₂ =>
              simp only [h₂, Except.ok.injEq] at hrun
              have hfirst := scan_rc_d_directory_induction hentry hnil h₁
              have hboth := scan_rc_d_directory_induction hentry hfirst h₂
              have hall : readAll sys f = []
                  ++ ((sys.opendir "/etc/rc.d".toList).getD []).filterMap (f "/etc/rc.d".toList)
                  ++ ((sys.opendir path).getD []).filterMap (f path) := by
                simp only [readAll, hpath, List.nil_append]
              exact ⟨db₂, hall ▸ hboth, hrun.symm⟩

end Induction

/-- A successful scan, for what is kept of the scripts read so far. -/
theorem services_db_scan_system_induction {I : services_db_t → List rc_d_file → Prop}
    {pkg_db : pkgdb}
    (hentry : ∀ directory dp db db' fs, I db fs →
      scan_entry pkg_db directory db dp = .ok db' → I db' (fs ++ (fileOf dp).toList))
    (hnil : I services_db_create []) {sys : rc_system} {db : services_db_t}
    (hrun : services_db_scan_system sys pkg_db services_db_create = .ok db) :
    ∃ db₀, I db₀ (filesOf sys) ∧ db = link_scripts db₀ :=
  services_db_scan_system_readAll (f := fun _ => fileOf) hentry hnil hrun

namespace Scanned

variable {db db' : services_db_t} {fs : List rc_d_file}

theorem length (h : Scanned db fs) : db.store.length = fs.length := by
  simpa using congrArg List.length h.nodes

/-- Changing nothing but packages and keywords. -/
theorem congr (h : Scanned db fs)
    (hnodes : db'.store.map rc_d_script_t.node = db.store.map rc_d_script_t.node)
    (hlinks : db'.store.map rc_d_script_t.links = db.store.map rc_d_script_t.links)
    (hprovides : db'.provides = db.provides) (hscripts : db'.scripts = db.scripts)
    (hroots : db'.roots = db.roots) : Scanned db' fs :=
  ⟨hnodes.trans h.nodes, hlinks.trans h.unlinked, hprovides ▸ h.provides, hscripts ▸ h.scripts,
    hroots.trans h.roots⟩

/-- A new script has no magic comments yet. -/
theorem register (h : Scanned db fs) (name path : Text) :
    (register_script db name path).2 = fs.length
      ∧ Scanned (register_script db name path).1 (fs ++ [⟨name, []⟩]) := by
  refine ⟨h.length, ?_, ?_, ?_, ?_, h.roots⟩
  · rw [register_script, List.map_append, h.nodes, List.map_append]
    rfl
  · rw [register_script, List.map_append, h.unlinked, List.map_append]
    rfl
  · -- the new script provides nothing, so the lists of providers stay
    intro n i
    change i ∈ (db.provides.get n).getD [] ↔ _
    simp only [h.provides n i, getElem?_concat_eq_some]
    constructor
    · rintro ⟨f, hf, hn⟩
      exact ⟨f, Or.inl hf, hn⟩
    · rintro ⟨f, hf | ⟨-, rfl⟩, hn⟩
      · exact ⟨f, hf, hn⟩
      · exact absurd hn (by simp [rc_d_file.listed])
  · intro hnodup
    rw [List.map_append, List.nodup_append] at hnodup
    obtain ⟨hfs, -, hsep⟩ := hnodup
    have hentries := h.scripts hfs
    -- a new name goes to the end of the table
    have hnew : name ∉ db.scripts.keys := by
      intro hmem
      rw [Table.keys, hentries, List.zipIdx_map_fst] at hmem
      exact hsep name hmem name (by simp) rfl
    have hput : (register_script db name path).1.scripts
        = db.scripts.put name db.store.length := by
      rw [register_script, Table.putNew, if_neg (by rwa [Table.contains_iff])]
    rw [hput, Table.entries_put_of_notMem _ hnew, hentries, List.map_append, List.zipIdx_append,
      h.length]
    simp

/-- A change of the last script, which leaves its children and parents alone. -/
theorem modify_last_script {file file' : rc_d_file} (h : Scanned db (fs ++ [file]))
    {f : rc_d_script_t → rc_d_script_t} (g : node_t → node_t) (hnode : ∀ s, (f s).node = g s.node)
    (hlinks : ∀ s, (f s).links = s.links) (hfile : file'.node = g file.node)
    (hname : file'.name = file.name) (hprovide : file'.listed .provide = file.listed .provide) :
    Scanned (db.modify fs.length f) (fs ++ [file']) := by
  have hlen : (fs.map rc_d_file.node).length = fs.length := List.length_map _
  refine ⟨?_, ?_, ?_, ?_, h.roots⟩
  · have hmap : (db.store.modify fs.length f).map rc_d_script_t.node
        = (db.store.map rc_d_script_t.node).modify fs.length g := map_modify hnode _ _
    rw [services_db_t.modify, hmap, h.nodes, List.map_append, List.map_append, ← hlen]
    simp only [List.map_cons, List.map_nil]
    rw [modify_last, hfile]
  · rw [services_db_t.modify, map_modify_eq hlinks, h.unlinked]
    simp
  · intro n i
    refine (h.provides n i).trans ?_
    simp only [getElem?_concat_eq_some, or_and_right, exists_or, and_assoc, exists_eq_left,
      exists_and_left, hprovide]
  · intro hnodup
    have hnames : (fs ++ [file']).map rc_d_file.name = (fs ++ [file]).map rc_d_file.name := by
      simp [hname]
    rw [hnames] at hnodup ⊢
    exact h.scripts hnodup

/-- A token adds to what its script lists. -/
theorem token {name : Text} {toks : List (handle_token × Text)}
    (h : Scanned db (fs ++ [⟨name, toks⟩])) (t : handle_token × Text) :
    Scanned (handle_token.run db fs.length t) (fs ++ [⟨name, toks ++ [t]⟩]) := by
  obtain ⟨handler, tok⟩ := t
  cases handler with
  | before =>
      exact h.modify_last_script (fun n => { n with befores := n.befores ++ [tok] })
        (fun _ => rfl) (fun _ => rfl) (by simp [rc_d_file.node]) rfl (by simp)
  | require =>
      exact h.modify_last_script (fun n => { n with requires := n.requires ++ [tok] })
        (fun _ => rfl) (fun _ => rfl) (by simp [rc_d_file.node]) rfl (by simp)
  | keyword =>
      -- keywords are not part of the description
      have hlast : Scanned
          (db.modify fs.length (fun s => { s with keywords := s.keywords ++ [tok] }))
          (fs ++ [⟨name, toks ++ [(handle_token.keyword, tok)]⟩]) :=
        h.modify_last_script id (fun _ => rfl) (fun _ => rfl) (by simp [rc_d_file.node]) rfl
          (by simp)
      exact hlast.congr rfl rfl rfl rfl rfl
  | provide =>
      refine ⟨?_, ?_, fun n i => ?_, ?_, h.roots⟩
      · refine h.nodes.trans ?_
        simp [rc_d_file.node]
      · refine h.unlinked.trans ?_
        simp
      · change i ∈ ((db.provides.put tok
          ((db.provides.get tok).getD [] ++ [fs.length])).get n).getD [] ↔ _
        have hold := h.provides n i
        simp only [getElem?_concat_eq_some, or_and_right, exists_or, and_assoc, exists_eq_left,
          exists_and_left] at hold ⊢
        rw [Table.get_put]
        -- only the list of the providers of this name grows
        by_cases hn : n = tok
        · rw [if_pos hn, Option.getD_some, List.mem_append, List.mem_singleton, ← hn, hold]
          simp only [listed_append, if_true, List.mem_append, List.mem_singleton, or_true,
            and_true, or_assoc]
          exact or_congr_right ⟨fun hor => hor.elim And.left id, Or.inr⟩
        · rw [if_neg hn, hold]
          simp [hn]
      · intro hnodup
        have hnames : (fs ++ [rc_d_file.mk name (toks ++ [(.provide, tok)])]).map rc_d_file.name
            = (fs ++ [rc_d_file.mk name toks]).map rc_d_file.name := by simp
        rw [hnames] at hnodup ⊢
        exact h.scripts hnodup

theorem parse {name : Text} (h : Scanned db (fs ++ [⟨name, []⟩])) (lines : List Text) :
    Scanned (parse_rc_d_script db fs.length lines)
      (fs ++ [⟨name, rc_d_tokens .PARSING_BEFORE lines⟩]) := by
  have hall : ∀ (rest toks : List (handle_token × Text)) (db : services_db_t),
      Scanned db (fs ++ [⟨name, toks⟩]) →
      Scanned (rest.foldl (fun db t => handle_token.run db fs.length t) db)
        (fs ++ [⟨name, toks ++ rest⟩]) := by
    intro rest
    induction rest with
    | nil => intro toks db h; simpa using h
    | cons t rest ih =>
        intro toks db h
        have hstep := ih (toks ++ [t]) _ (h.token t)
        rwa [List.append_assoc, List.singleton_append] at hstep
  exact hall (rc_d_tokens .PARSING_BEFORE lines) [] db h

/-! The packages do not enter into the relationships. -/

theorem retrieve (h : Scanned db fs) (name : Text) : Scanned (package_retrieve db name).1 fs := by
  unfold package_retrieve
  cases db.packages.get name with
  | some pkg => exact h
  | none => exact h.congr rfl rfl rfl rfl rfl

theorem associate (h : Scanned db fs) (script : ℕ) (name : Text) (pkg : package_t) :
    Scanned (associate_package_to_script db script name pkg) fs := by
  have hnode : ∀ s : rc_d_script_t, { s with package := some name }.node = s.node := fun _ => rfl
  have hlinks : ∀ s : rc_d_script_t, { s with package := some name }.links = s.links :=
    fun _ => rfl
  exact h.congr (map_modify_eq hnode _ _) (map_modify_eq hlinks _ _) rfl rfl rfl

theorem rshlib (h : Scanned db fs) (script : ℕ) (name : Text) :
    Scanned (add_rshlib script db name) fs :=
  (h.retrieve name).congr rfl rfl rfl rfl rfl

/-- A step that keeps the description keeps it along a list. -/
theorem foldl {β : Type} {step : services_db_t → β → services_db_t}
    (hstep : ∀ db b, Scanned db fs → Scanned (step db b) fs) (l : List β) :
    ∀ db, Scanned db fs → Scanned (l.foldl step db) fs := by
  induction l with
  | nil => intro db h; exact h
  | cons b l ih => intro db h; exact ih _ (hstep db b h)

theorem package (h : Scanned db fs) {pkg_db : pkgdb} {script : ℕ} {path : Text}
    (hrun : pkg_from_rc_d_script pkg_db db script path = .ok db') : Scanned db' fs := by
  unfold pkg_from_rc_d_script at hrun
  cases hq : pkg_db.query_which path with
  | none => rw [hq] at hrun; exact absurd hrun (by simp)
  | some owner =>
      cases owner with
      | none =>
          rw [hq] at hrun
          simp only [Except.ok.injEq] at hrun
          exact hrun ▸ h
      | some pkg =>
          rw [hq] at hrun
          simp only [Except.ok.injEq] at hrun
          rw [← hrun]
          refine foldl (fun db shlib hdb => ?_) pkg.2 _ ((h.retrieve pkg.1).associate _ _ _)
          exact foldl (fun db name hdb => hdb.rshlib script name) _ db hdb

/-- A directory entry adds the script it is, if it is one. -/
theorem entry (h : Scanned db fs) {pkg_db : pkgdb} {directory : Text} {dp : dirent}
    (hrun : scan_entry pkg_db directory db dp = .ok db') :
    Scanned db' (fs ++ (fileOf dp).toList) := by
  rcases scan_entry_cases hrun with ⟨hfile, rfl⟩ | ⟨path, lines, db₁, -, hfile, hpkg, rfl⟩
  · simpa [hfile] using h
  · obtain ⟨hptr, hreg⟩ := h.register dp.d_name path
    rw [hfile, hptr]
    exact (hreg.package hpkg).parse lines

end Scanned

/-! ## Children and parents -/

/-- The script `p` provides the name `n`. -/
def Provides (fs : List rc_d_file) (p : ℕ) (n : Text) : Prop :=
  ∃ f, fs[p]? = some f ∧ n ∈ f.listed .provide

/-- The script `p` lists the name `n` under a magic comment. -/
def Mentions (fs : List rc_d_file) (h : handle_token) (p : ℕ) (n : Text) : Prop :=
  ∃ f, fs[p]? = some f ∧ n ∈ f.listed h

/-- The script `b` requires a name that `a` provides, or `a` lists in BEFORE a
name that `b` provides. -/
def Related (fs : List rc_d_file) (a b : ℕ) : Prop :=
  (∃ n, Mentions fs .require b n ∧ Provides fs a n)
    ∨ ∃ n, Mentions fs .before a n ∧ Provides fs b n

/-- The database while it is being linked: `E a b` holds when `a` was made a
parent of `b`. -/
structure Linked (db : services_db_t) (fs : List rc_d_file) (E : ℕ → ℕ → Prop) : Prop where
  nodes : db.store.map rc_d_script_t.node = fs.map rc_d_file.node
  provides : ∀ n i, i ∈ (db.provides.get n).getD [] ↔ Provides fs i n
  scripts : db.scripts.entries = (fs.map rc_d_file.name).zipIdx
  children : ∀ p s, db.store[p]? = some s → ∀ c, c ∈ s.children ↔ E p c
  parents : ∀ c s, db.store[c]? = some s → ∀ p, p ∈ s.parents ↔ E p c
  bound : ∀ a b, E a b → a < fs.length ∧ b < fs.length
  roots : db.roots = []

/-- Nothing is linked before `link_scripts`. -/
theorem Scanned.unlinked_eq {db : services_db_t} {fs : List rc_d_file} (h : Scanned db fs) {p : ℕ}
    {s : rc_d_script_t} (hs : db.store[p]? = some s) : s.children = [] ∧ s.parents = [] := by
  have hmem : s.links ∈ db.store.map rc_d_script_t.links :=
    List.mem_map_of_mem (List.mem_of_getElem? hs)
  rw [h.unlinked] at hmem
  obtain ⟨f, -, hf⟩ := List.mem_map.mp hmem
  simpa [rc_d_script_t.links, eq_comm] using hf

theorem Scanned.linked {db : services_db_t} {fs : List rc_d_file} (h : Scanned db fs)
    (hnames : (fs.map rc_d_file.name).Nodup) : Linked db fs (fun _ _ => False) := by
  refine ⟨h.nodes, h.provides, h.scripts hnames, ?_, ?_, fun _ _ => False.elim, h.roots⟩
  · intro p s hs c
    simp [(h.unlinked_eq hs).1]
  · intro p s hs c
    simp [(h.unlinked_eq hs).2]

namespace Linked

variable {db : services_db_t} {fs : List rc_d_file} {E : ℕ → ℕ → Prop}

theorem length (h : Linked db fs E) : db.store.length = fs.length := by
  simpa using congrArg List.length h.nodes

/-- A script of the database and its file. -/
theorem node_eq (h : Linked db fs E) {p : ℕ} {s : rc_d_script_t} (hs : db.store[p]? = some s) :
    ∃ f, fs[p]? = some f ∧ s.node = f.node := by
  have hmap := congrArg (fun l => l[p]?) h.nodes
  simp only [List.getElem?_map, hs, Option.map_some] at hmap
  obtain ⟨f, hf, heq⟩ := Option.map_eq_some_iff.mp hmap.symm
  exact ⟨f, hf, heq.symm⟩

/-- With distinct names, comparing scripts compares pointers. -/
theorem compare_iff (h : Linked db fs E) (hnames : (fs.map rc_d_file.name).Nodup) {a b : ℕ}
    (ha : a < fs.length) (hb : b < fs.length) : compare_scripts db a b = true ↔ a = b := by
  -- the names that are compared are those of the files
  have hname : ∀ i, i < fs.length →
      (db.script i).map rc_d_script_t.name = (fs.map rc_d_file.name)[i]? := by
    intro i hi
    obtain ⟨script, hs⟩ : ∃ script, db.store[i]? = some script := by
      rw [← h.length] at hi
      exact ⟨_, List.getElem?_eq_getElem hi⟩
    obtain ⟨f, hf, hnode⟩ := h.node_eq hs
    have hname : script.name = f.name := congrArg node_t.name hnode
    simp [services_db_t.script, hs, hf, hname]
  rw [compare_scripts, beq_iff_eq, hname a ha, hname b hb]
  have ha' : a < (fs.map rc_d_file.name).length := by simpa using ha
  exact ⟨fun heq => (List.getElem?_inj ha' hnames).mp heq, fun heq => by rw [heq]⟩

theorem mem_insert (h : Linked db fs E) (hnames : (fs.map rc_d_file.name).Nodup)
    {list : List ℕ} (hlist : ∀ i ∈ list, i < fs.length) {data : ℕ} (hdata : data < fs.length)
    (c : ℕ) : c ∈ dlist_insert_unique db list data ↔ c ∈ list ∨ c = data := by
  unfold dlist_insert_unique
  cases hfind : list.find? (fun el => compare_scripts db el data) with
  | none => simp
  | some el =>
      have hmem := List.mem_of_find?_eq_some hfind
      have hcmp : compare_scripts db el data = true :=
        (List.find?_eq_some_iff_append.mp hfind).1
      have heq := (h.compare_iff hnames (hlist el hmem) hdata).mp hcmp
      simp only [Option.isNone_some, Bool.false_eq_true, if_false]
      exact ⟨Or.inl, fun hor => hor.elim id (fun hc => hc ▸ heq ▸ hmem)⟩

/-- The children of a script are scripts. -/
theorem children_bound (h : Linked db fs E) {p : ℕ} {s : rc_d_script_t}
    (hs : db.store[p]? = some s) : ∀ c ∈ s.children, c < fs.length :=
  fun c hc => (h.bound p c ((h.children p s hs c).mp hc)).2

theorem parents_bound (h : Linked db fs E) {c : ℕ} {s : rc_d_script_t}
    (hs : db.store[c]? = some s) : ∀ p ∈ s.parents, p < fs.length :=
  fun p hp => (h.bound p c ((h.parents c s hs p).mp hp)).1

/-- The first half of `set_parenthood`. -/
def addChild (db : services_db_t) (parent child : ℕ) : services_db_t :=
  db.modify parent (fun s => { s with children := dlist_insert_unique db s.children child })

theorem compare_addChild (db : services_db_t) (parent child : ℕ) :
    compare_scripts (addChild db parent child) = compare_scripts db := by
  have hname : ∀ i, ((addChild db parent child).script i).map rc_d_script_t.name
      = (db.script i).map rc_d_script_t.name := by
    intro i
    simp only [addChild, services_db_t.modify, services_db_t.script, List.getElem?_modify]
    cases db.store[i]? with
    | none => simp
    | some s => by_cases hi : parent = i <;> simp [hi]
  funext a b
  simp only [compare_scripts, hname]

theorem set_parenthood_store (db : services_db_t) (parent child q : ℕ) :
    (set_parenthood db parent child).store[q]?
      = (db.store[q]?).map (fun s => { s with
          children := if parent = q then dlist_insert_unique db s.children child else s.children
          parents := if child = q then dlist_insert_unique db s.parents parent
            else s.parents }) := by
  change ((addChild db parent child).store.modify child _)[q]? = _
  -- the second half compares as the first, since no name changes
  have hins : dlist_insert_unique (addChild db parent child) = dlist_insert_unique db := by
    funext list data
    simp only [dlist_insert_unique, compare_addChild]
  rw [List.getElem?_modify]
  simp only [addChild, services_db_t.modify, List.getElem?_modify] at hins ⊢
  rw [hins]
  cases db.store[q]? with
  | none => simp
  | some s => by_cases hp : parent = q <;> by_cases hc : child = q <;> simp [hp, hc]

/-- Parenthood is no part of a node. -/
theorem set_parenthood_nodes (db : services_db_t) (parent child : ℕ) :
    (set_parenthood db parent child).store.map rc_d_script_t.node
      = db.store.map rc_d_script_t.node := by
  refine List.ext_getElem? (fun q => ?_)
  rw [List.getElem?_map, List.getElem?_map, set_parenthood_store]
  cases db.store[q]? <;> rfl

/-- **`set_parenthood`** enters one pair. -/
theorem parenthood (h : Linked db fs E) (hnames : (fs.map rc_d_file.name).Nodup)
    {parent child : ℕ} (hp : parent < fs.length) (hc : child < fs.length) :
    Linked (set_parenthood db parent child) fs
      (fun a b => E a b ∨ (a = parent ∧ b = child)) := by
  refine ⟨?_, h.provides, h.scripts, ?_, ?_, ?_, h.roots⟩
  · rw [← h.nodes, set_parenthood_nodes]
  · intro q s hs c
    rw [set_parenthood_store] at hs
    obtain ⟨s₀, hs₀, rfl⟩ := Option.map_eq_some_iff.mp hs
    rw [← h.children q s₀ hs₀ c]
    by_cases hq : parent = q
    · simp only [hq, if_true, h.mem_insert hnames (h.children_bound hs₀) hc, true_and]
    · simp [hq, Ne.symm hq]
  · intro q s hs p
    rw [set_parenthood_store] at hs
    obtain ⟨s₀, hs₀, rfl⟩ := Option.map_eq_some_iff.mp hs
    rw [← h.parents q s₀ hs₀ p]
    by_cases hq : child = q
    · simp only [hq, if_true, h.mem_insert hnames (h.parents_bound hs₀) hp, and_true]
    · simp [hq, Ne.symm hq]
  · rintro a b (hab | ⟨rfl, rfl⟩)
    · exact h.bound a b hab
    · exact ⟨hp, hc⟩

theorem congr {E' : ℕ → ℕ → Prop} (h : Linked db fs E) (heq : ∀ a b, E a b ↔ E' a b) :
    Linked db fs E' := by
  have hE : E = E' := funext (fun a => funext (fun b => propext (heq a b)))
  exact hE ▸ h

theorem provides_bound {p : ℕ} {n : Text} (hp : Provides fs p n) : p < fs.length := by
  obtain ⟨f, hf, -⟩ := hp
  exact (List.getElem?_eq_some_iff.mp hf).1

/-- A loop whose steps enter one pair each enters them all. -/
theorem foldl {β : Type} {step : services_db_t → β → services_db_t} {R : β → ℕ → ℕ → Prop}
    (l : List β) (hstep : ∀ x ∈ l, ∀ db E, Linked db fs E →
      Linked (step db x) fs (fun a b => E a b ∨ R x a b)) :
    ∀ db E, Linked db fs E →
      Linked (l.foldl step db) fs (fun a b => E a b ∨ ∃ x ∈ l, R x a b) := by
  induction l with
  | nil => intro db E h; simpa using h
  | cons x l ih =>
      intro db E h
      have hrest := ih (fun y hy => hstep y (List.mem_cons_of_mem x hy)) _ _
        (hstep x List.mem_cons_self db E h)
      refine hrest.congr (fun a b => ?_)
      simp only [List.mem_cons, exists_eq_or_imp, or_assoc]

/-- The loop over the scripts that provide a name: what its step enters for each of
them, the loop enters for them all. -/
theorem providers (h : Linked db fs E) (name : Text) (step : services_db_t → ℕ → services_db_t)
    {R : ℕ → ℕ → ℕ → Prop}
    (hstep : ∀ x, x < fs.length → ∀ db E, Linked db fs E →
      Linked (step db x) fs (fun a b => E a b ∨ R x a b)) :
    Linked (match provides_by_name db name with
      | some scripts => scripts.foldl step db
      | none => db) fs
      (fun a b => E a b ∨ ∃ x, Provides fs x name ∧ R x a b) := by
  have hprov := h.provides name
  unfold provides_by_name
  cases hget : db.provides.get name with
  | none =>
      refine h.congr (fun a b => ?_)
      have hnone : ∀ x, ¬ Provides fs x name := by simpa [hget] using hprov
      simp [hnone]
  | some scripts =>
      simp only [hget, Option.getD_some] at hprov
      have hall := foldl scripts
        (fun x hx => hstep x (provides_bound ((hprov x).mp hx))) db E h
      exact hall.congr (fun a b => by simp only [hprov])

theorem require (h : Linked db fs E) (hnames : (fs.map rc_d_file.name).Nodup) {child : ℕ}
    (hc : child < fs.length) (name : Text) :
    Linked (add_require_relationship db child name) fs
      (fun a b => E a b ∨ (b = child ∧ Provides fs a name)) := by
  have hall := h.providers name (fun db parent => set_parenthood db parent child)
    (fun x hx db E hE => hE.parenthood hnames hx hc)
  refine hall.congr (fun a b => or_congr_right ?_)
  constructor
  · rintro ⟨x, hx, rfl, rfl⟩
    exact ⟨rfl, hx⟩
  · rintro ⟨rfl, ha⟩
    exact ⟨a, ha, rfl, rfl⟩

theorem before (h : Linked db fs E) (hnames : (fs.map rc_d_file.name).Nodup) {parent : ℕ}
    (hp : parent < fs.length) (name : Text) :
    Linked (add_before_relationship db parent name) fs
      (fun a b => E a b ∨ (a = parent ∧ Provides fs b name)) := by
  have hall := h.providers name (fun db child => set_parenthood db parent child)
    (fun x hx db E hE => hE.parenthood hnames hp hx)
  refine hall.congr (fun a b => or_congr_right ?_)
  constructor
  · rintro ⟨x, hx, rfl, rfl⟩
    exact ⟨rfl, hx⟩
  · rintro ⟨rfl, hb⟩
    exact ⟨b, hb, rfl, rfl⟩

/-- The relationships one script declares. -/
def Declared (fs : List rc_d_file) (p a b : ℕ) : Prop :=
  (b = p ∧ ∃ n, Mentions fs .require p n ∧ Provides fs a n)
    ∨ (a = p ∧ ∃ n, Mentions fs .before p n ∧ Provides fs b n)

theorem relationships (h : Linked db fs E) (hnames : (fs.map rc_d_file.name).Nodup) {p : ℕ}
    (hp : p < fs.length) :
    Linked (manage_relationships db p) fs (fun a b => E a b ∨ Declared fs p a b) := by
  obtain ⟨script, hs⟩ : ∃ script, db.store[p]? = some script := by
    rw [← h.length] at hp
    exact ⟨_, List.getElem?_eq_getElem hp⟩
  obtain ⟨f, hf, hnode⟩ := h.node_eq hs
  have hrequires := congrArg node_t.requires hnode
  have hbefores := congrArg node_t.befores hnode
  simp only [rc_d_script_t.node, rc_d_file.node] at hrequires hbefores
  unfold manage_relationships services_db_t.script
  rw [hs]
  simp only [hrequires, hbefores]
  -- first what the script requires, then what it lists in BEFORE
  have h₁ := foldl (f.listed .require) (fun n _ db E hE => hE.require hnames hp n) db E h
  have h₂ := foldl (f.listed .before) (fun n _ db E hE => hE.before hnames hp n) _ _ h₁
  refine h₂.congr (fun a b => ?_)
  simp only [Declared, Mentions, hf, Option.some.injEq, exists_eq_left', or_assoc]
  refine or_congr_right (or_congr ?_ ?_)
  · exact ⟨fun ⟨n, hn, hb, ha⟩ => ⟨hb, n, hn, ha⟩, fun ⟨hb, n, hn, ha⟩ => ⟨n, hn, hb, ha⟩⟩
  · exact ⟨fun ⟨n, hn, hb, ha⟩ => ⟨hb, n, hn, ha⟩, fun ⟨hb, n, hn, ha⟩ => ⟨n, hn, hb, ha⟩⟩

/-- The pointers in the table of scripts are all the scripts. -/
theorem values_eq (h : Linked db fs E) : db.scripts.values = List.range fs.length := by
  rw [Table.values, h.scripts, List.zipIdx_map_snd, List.length_map, List.range_eq_range']

end Linked

/-- **The linked database**: its children and parents are the related scripts,
and its roots the scripts nothing is a parent of. -/
structure Complete (db : services_db_t) (fs : List rc_d_file) : Prop where
  nodes : db.store.map rc_d_script_t.node = fs.map rc_d_file.node
  children : ∀ p s, db.store[p]? = some s → ∀ c, c ∈ s.children ↔ Related fs p c
  parents : ∀ c s, db.store[c]? = some s → ∀ p, p ∈ s.parents ↔ Related fs p c
  roots : ∀ p, p ∈ db.roots ↔ p < fs.length ∧ ∀ a, ¬ Related fs a p
  roots_nodup : db.roots.Nodup

theorem mentions_bound {fs : List rc_d_file} {h : handle_token} {p : ℕ} {n : Text}
    (hp : Mentions fs h p n) : p < fs.length := by
  obtain ⟨f, hf, -⟩ := hp
  exact (List.getElem?_eq_some_iff.mp hf).1

/-- Every relationship is declared by one of its two scripts. -/
theorem related_iff_declared (fs : List rc_d_file) (a b : ℕ) :
    Related fs a b ↔ ∃ p ∈ List.range fs.length, Linked.Declared fs p a b := by
  simp only [List.mem_range, Related, Linked.Declared]
  constructor
  · rintro (⟨n, hn, ha⟩ | ⟨n, hn, hb⟩)
    · exact ⟨b, mentions_bound hn, Or.inl ⟨rfl, n, hn, ha⟩⟩
    · exact ⟨a, mentions_bound hn, Or.inr ⟨rfl, n, hn, hb⟩⟩
  · rintro ⟨p, -, ⟨rfl, n, hn, ha⟩ | ⟨rfl, n, hn, hb⟩⟩
    · exact Or.inl ⟨n, hn, ha⟩
    · exact Or.inr ⟨n, hn, hb⟩

theorem link_scripts_complete {db : services_db_t} {fs : List rc_d_file} (h : Scanned db fs)
    (hnames : (fs.map rc_d_file.name).Nodup) : Complete (link_scripts db) fs := by
  have h₀ := h.linked hnames
  have hvalues := h₀.values_eq
  -- every pointer in the table is visited once, so all pairs are entered
  have hlinked : Linked (db.scripts.values.foldl manage_relationships db) fs (Related fs) := by
    rw [hvalues]
    have hstep : ∀ p ∈ List.range fs.length, ∀ db E, Linked db fs E →
        Linked (manage_relationships db p) fs (fun a b => E a b ∨ Linked.Declared fs p a b) :=
      fun p hp db E hE => hE.relationships hnames (List.mem_range.mp hp)
    have hall := Linked.foldl (List.range fs.length) hstep db _ h₀
    refine hall.congr (fun a b => ?_)
    rw [false_or, related_iff_declared]
  have hroot : ∀ p, isRoot (db.scripts.values.foldl manage_relationships db) p = true
      ↔ p < fs.length ∧ ∀ a, ¬ Related fs a p := by
    intro p
    unfold isRoot services_db_t.script
    cases hs : (db.scripts.values.foldl manage_relationships db).store[p]? with
    | none =>
        have hlen := List.getElem?_eq_none_iff.mp hs
        rw [hlinked.length] at hlen
        simp only [Bool.false_eq_true, false_iff, not_and]
        omega
    | some s =>
        have hlen := (List.getElem?_eq_some_iff.mp hs).1
        rw [hlinked.length] at hlen
        simp only [List.isEmpty_iff, List.eq_nil_iff_forall_not_mem, hlinked.parents p s hs, hlen,
          true_and]
  have hroots : (link_scripts db).roots = (List.range fs.length).filter
      (isRoot (db.scripts.values.foldl manage_relationships db)) := by
    simp only [link_scripts, hlinked.roots, List.nil_append, hlinked.values_eq]
  refine ⟨hlinked.nodes, hlinked.children, hlinked.parents, fun p => ?_, ?_⟩
  · rw [hroots, List.mem_filter, hroot, List.mem_range]
    exact ⟨And.right, fun hp => ⟨hp.1, hp⟩⟩
  · rw [hroots]
    exact List.nodup_range.filter _

/-- **What a successful scan leaves**, when the names of the scripts are distinct. -/
theorem services_db_scan_system_complete {sys : rc_system} {pkg_db : pkgdb} {db : services_db_t}
    (hrun : services_db_scan_system sys pkg_db services_db_create = .ok db)
    (hnames : ((filesOf sys).map rc_d_file.name).Nodup) : Complete db (filesOf sys) := by
  obtain ⟨db₀, hscanned, rfl⟩ := services_db_scan_system_induction (I := Scanned)
    (fun _ _ _ _ _ h hrun => Scanned.entry h hrun) services_db_create_scanned hrun
  exact link_scripts_complete hscanned hnames

end PkgPlugins.ServicesDb
