/-
The packages of the scripts, and the scripts that need the packages (`package_retrieve`,
`associate_package_to_script`, `pkg_from_rc_d_script` and
`services_db_add_services_from_package_to_services_selection`,
`plugins/services/services_db.c`).

While the scripts are read, each is listed by its package, and by every package that
provides a library its package requires; a package is created when it is first named,
as either of the two. What the lists are in the end is told by the queries to pkg's
database (`Indexed`), and these by what is installed (`Answers`). A job reads the lists,
so it selects what the installed packages say.
-/
import PkgPlugins.ServicesOrder
import PkgPlugins.ServicesClosed

set_option autoImplicit false

namespace PkgPlugins.ServicesPackages

open PkgPlugins.Pkg PkgPlugins.AssocTable PkgPlugins.Buffers PkgPlugins.ServicesDb
  PkgPlugins.ServicesClosed PkgPlugins.ServicesSelection PkgPlugins.ServicesHooks
  PkgPlugins.ServicesOrder

/-! ## What is on disk -/

/-- A script as it is found: its base name and where it is. -/
structure rc_d_place where
  name : Text
  path : Text
deriving DecidableEq

def rc_d_script_t.place (s : rc_d_script_t) : rc_d_place := ⟨s.name, s.path⟩

/-- The place of the script a directory entry is read as, if it is one. -/
def placeOf (directory : Text) (dp : dirent) : Option rc_d_place :=
  match fileOf dp, path_join MAXPATHLEN [directory, dp.d_name] with
  | some f, .ok path => some ⟨f.name, path⟩
  | _, _ => none

/-- The places of the scripts of the two directories, in the order they are read. -/
def placesOf (sys : rc_system) : List rc_d_place := readAll sys placeOf

/-! ## What is installed -/

structure installed_pkg where
  name : Text
  files : List Text
  shlibs_required : List Text
  shlibs_provided : List Text

/-- The packages that are installed. A file belongs to one of them at most. -/
structure installed_db where
  packages : List installed_pkg
  owner_unique : ∀ p ∈ packages, ∀ q ∈ packages, ∀ path ∈ p.files, path ∈ q.files → p = q

/-- The queries to pkg's database answer according to what is installed, when they do
not fail. -/
structure Answers (pkg_db : pkgdb) (installed : installed_db) : Prop where
  which : ∀ path owner, pkg_db.query_which path = some owner →
    (owner = none ∧ ∀ p ∈ installed.packages, path ∉ p.files)
      ∨ ∃ p ∈ installed.packages, path ∈ p.files ∧ owner = some (p.name, p.shlibs_required)
  provide : ∀ lib name, name ∈ pkg_db.query_shlib_provide lib
    ↔ ∃ p ∈ installed.packages, lib ∈ p.shlibs_provided ∧ p.name = name

/-- The script at `path` belongs to the package. -/
def Owns (installed : installed_db) (pkg_name path : Text) : Prop :=
  ∃ p ∈ installed.packages, p.name = pkg_name ∧ path ∈ p.files

/-- The script at `path` belongs to a package that requires a library of the package. -/
def Needs (installed : installed_db) (pkg_name path : Text) : Prop :=
  ∃ p ∈ installed.packages, path ∈ p.files ∧ ∃ lib ∈ p.shlibs_required,
    ∃ q ∈ installed.packages, q.name = pkg_name ∧ lib ∈ q.shlibs_provided

/-! ## The lists of a package -/

/-- `pkg->scripts`, for a package that may not be there. -/
def scriptsOf (db : services_db_t) (pkg_name : Text) : List ℕ :=
  ((db.packages.get pkg_name).map package_t.scripts).getD []

/-- `pkg->rshlibs`. -/
def rshlibsOf (db : services_db_t) (pkg_name : Text) : List ℕ :=
  ((db.packages.get pkg_name).map package_t.rshlibs).getD []

theorem services_db_rshlib_eq (db : services_db_t) (pkg_name : Text) :
    services_db_rshlib db pkg_name = rshlibsOf db pkg_name := by
  unfold services_db_rshlib rshlibsOf
  cases db.packages.get pkg_name <;> rfl

theorem owned_eq (db : services_db_t) (pkg_name : Text) :
    owned db pkg_name = (scriptsOf db pkg_name).map (script_name db) := by
  unfold owned scriptsOf
  cases db.packages.get pkg_name <;> rfl

section Lists

variable {db : services_db_t} {name : Text}

/-- An assignment to a package, with what it lists. -/
theorem scriptsOf_put (db : services_db_t) (name : Text) (pkg : package_t) (n : Text) :
    scriptsOf { db with packages := db.packages.put name pkg } n
      = if n = name then pkg.scripts else scriptsOf db n := by
  unfold scriptsOf
  rw [Table.get_put]
  split_ifs <;> rfl

theorem rshlibsOf_put (db : services_db_t) (name : Text) (pkg : package_t) (n : Text) :
    rshlibsOf { db with packages := db.packages.put name pkg } n
      = if n = name then pkg.rshlibs else rshlibsOf db n := by
  unfold rshlibsOf
  rw [Table.get_put]
  split_ifs <;> rfl

/-- Retrieving a package creates it with empty lists, which is what it has until then. -/
theorem package_retrieve_spec (db : services_db_t) (name : Text) :
    (package_retrieve db name).1.store = db.store
      ∧ scriptsOf (package_retrieve db name).1 = scriptsOf db
      ∧ rshlibsOf (package_retrieve db name).1 = rshlibsOf db
      ∧ (package_retrieve db name).2.scripts = scriptsOf db name
      ∧ (package_retrieve db name).2.rshlibs = rshlibsOf db name := by
  unfold package_retrieve
  cases hget : db.packages.get name with
  | some pkg => simp [scriptsOf, rshlibsOf, hget]
  | none =>
      have hscripts : scriptsOf db name = [] := by simp [scriptsOf, hget]
      have hrshlibs : rshlibsOf db name = [] := by simp [rshlibsOf, hget]
      refine ⟨rfl, ?_, ?_, hscripts.symm, hrshlibs.symm⟩
      · funext n
        rw [scriptsOf_put]
        split_ifs with hn
        · rw [hn, hscripts]
        · rfl
      · funext n
        rw [rshlibsOf_put]
        split_ifs with hn
        · rw [hn, hrshlibs]
        · rfl

theorem associate_package_to_script_spec (db : services_db_t) (script : ℕ) (name : Text)
    {pkg : package_t} (hscripts : pkg.scripts = scriptsOf db name)
    (hrshlibs : pkg.rshlibs = rshlibsOf db name) :
    (associate_package_to_script db script name pkg).store.map rc_d_script_t.place
        = db.store.map rc_d_script_t.place
      ∧ rshlibsOf (associate_package_to_script db script name pkg) = rshlibsOf db
      ∧ ∀ n, scriptsOf (associate_package_to_script db script name pkg) n
        = scriptsOf db n ++ if n = name then [script] else [] := by
  refine ⟨?_, ?_, fun n => ?_⟩
  · change (db.store.modify script _).map _ = _
    refine map_modify_eq ?_ _ _
    exact fun _ => rfl
  · funext n
    change rshlibsOf { db with packages := db.packages.put name _ } n = _
    rw [rshlibsOf_put]
    split_ifs with hn
    · rw [hn, ← hrshlibs]
    · rfl
  · change scriptsOf { db with packages := db.packages.put name _ } n = _
    rw [scriptsOf_put]
    split_ifs with hn
    · rw [hn, ← hscripts]
    · rw [List.append_nil]

/-- No other script has the name of the script. -/
def Distinguished (db : services_db_t) (script : ℕ) : Prop :=
  ∀ p, compare_scripts db p script = true → p = script

theorem mem_insert_unique_iff {script : ℕ} (h : Distinguished db script) (list : List ℕ) (p : ℕ) :
    p ∈ dlist_insert_unique db list script ↔ p ∈ list ∨ p = script := by
  unfold dlist_insert_unique
  cases hfind : list.find? (fun el => compare_scripts db el script) with
  | none => simp
  | some el =>
      -- what was found is the script itself
      have hmem := List.mem_of_find?_eq_some hfind
      have hel := h el (by simpa using List.find?_some hfind)
      rw [hel] at hmem
      simp only [Option.isNone_some, Bool.false_eq_true, if_false]
      exact ⟨Or.inl, fun hp => hp.elim id (fun heq => heq ▸ hmem)⟩

theorem compare_scripts_congr {db db' : services_db_t}
    (h : db'.store.map rc_d_script_t.place = db.store.map rc_d_script_t.place) :
    compare_scripts db' = compare_scripts db := by
  have hnames : ∀ p,
      (db'.script p).map rc_d_script_t.name = (db.script p).map rc_d_script_t.name := by
    intro p
    have hp := congrArg (fun l => (l[p]?).map rc_d_place.name) h
    simpa [services_db_t.script, List.getElem?_map, Function.comp_def, rc_d_script_t.place] using hp
  funext a b
  rw [compare_scripts, compare_scripts, hnames, hnames]

theorem Distinguished.congr {db db' : services_db_t} {script : ℕ} (h : Distinguished db script)
    (hplaces : db'.store.map rc_d_script_t.place = db.store.map rc_d_script_t.place) :
    Distinguished db' script := by
  intro p hp
  rw [compare_scripts_congr hplaces] at hp
  exact h p hp

/-- `add_rshlib` is an assignment to the package it retrieves. -/
theorem add_rshlib_eq (script : ℕ) (db : services_db_t) (name : Text) :
    add_rshlib script db name = { (package_retrieve db name).1 with
      packages := (package_retrieve db name).1.packages.put name
        { (package_retrieve db name).2 with
          rshlibs := dlist_insert_unique (package_retrieve db name).1
            (package_retrieve db name).2.rshlibs script } } := rfl

/-- One provider of a library: the script goes to its list. -/
theorem add_rshlib_spec {script : ℕ} (h : Distinguished db script) (name : Text) :
    (add_rshlib script db name).store = db.store
      ∧ scriptsOf (add_rshlib script db name) = scriptsOf db
      ∧ ∀ n p, p ∈ rshlibsOf (add_rshlib script db name) n
        ↔ p ∈ rshlibsOf db n ∨ (p = script ∧ n = name) := by
  obtain ⟨hstore, hscripts, hrshlibs, hpkg, hpkg'⟩ := package_retrieve_spec db name
  have hdistinguished : Distinguished (package_retrieve db name).1 script :=
    h.congr (by rw [hstore])
  rw [add_rshlib_eq]
  refine ⟨hstore, ?_, fun n p => ?_⟩
  · funext n
    rw [scriptsOf_put, hscripts]
    split_ifs with hn
    · rw [hn, ← hpkg]
    · rfl
  · rw [rshlibsOf_put, hrshlibs]
    split_ifs with hn
    · rw [mem_insert_unique_iff hdistinguished, hpkg', hn, and_iff_left rfl]
    · rw [or_iff_left (fun heq => hn heq.2)]

/-- The providers of a library, and the libraries, one after the other. -/
theorem add_rshlibs_spec {script : ℕ} (names : List Text) : ∀ db : services_db_t,
    Distinguished db script →
    (names.foldl (add_rshlib script) db).store = db.store
      ∧ scriptsOf (names.foldl (add_rshlib script) db) = scriptsOf db
      ∧ ∀ n p, p ∈ rshlibsOf (names.foldl (add_rshlib script) db) n
        ↔ p ∈ rshlibsOf db n ∨ (p = script ∧ n ∈ names) := by
  induction names with
  | nil => exact fun db _ => ⟨rfl, rfl, by simp⟩
  | cons name names ih =>
      intro db h
      obtain ⟨hstore₁, hscripts₁, hrshlibs₁⟩ := add_rshlib_spec h name
      have h₁ : Distinguished (add_rshlib script db name) script := h.congr (by rw [hstore₁])
      obtain ⟨hstore, hscripts, hrshlibs⟩ := ih _ h₁
      refine ⟨hstore.trans hstore₁, hscripts.trans hscripts₁, fun n p => ?_⟩
      rw [List.foldl_cons, hrshlibs, hrshlibs₁, List.mem_cons, or_assoc, ← and_or_left]

/-- **`pkg_from_rc_d_script`** on a script of its own name: the owner lists it, and so does
every package that provides what the owner requires. -/
theorem pkg_from_rc_d_script_spec {pkg_db : pkgdb} {db' : services_db_t} {script : ℕ}
    {path : Text} (h : Distinguished db script)
    (hrun : pkg_from_rc_d_script pkg_db db script path = .ok db') :
    db'.store.map rc_d_script_t.place = db.store.map rc_d_script_t.place
      ∧ pkg_db.query_which path ≠ none
      ∧ (∀ n p, p ∈ scriptsOf db' n ↔ p ∈ scriptsOf db n
        ∨ (p = script ∧ ∃ libs, pkg_db.query_which path = some (some (n, libs))))
      ∧ ∀ n p, p ∈ rshlibsOf db' n ↔ p ∈ rshlibsOf db n
        ∨ (p = script ∧ ∃ owner libs, pkg_db.query_which path = some (some (owner, libs))
          ∧ ∃ lib ∈ libs, n ∈ pkg_db.query_shlib_provide lib) := by
  unfold pkg_from_rc_d_script at hrun
  cases hwhich : pkg_db.query_which path with
  | none => rw [hwhich] at hrun; exact absurd hrun (by simp)
  | some owner =>
      rw [hwhich] at hrun
      cases owner with
      | none =>
          simp only [Except.ok.injEq] at hrun
          rw [← hrun]
          simp
      | some pkg =>
          obtain ⟨pkg_name, libs⟩ := pkg
          simp only [Except.ok.injEq] at hrun
          obtain ⟨hstore₁, hscripts₁, hrshlibs₁, hpkg, hpkg'⟩ := package_retrieve_spec db pkg_name
          obtain ⟨hplaces₂, hrshlibs₂, hscripts₂⟩ := associate_package_to_script_spec
            (package_retrieve db pkg_name).1 script pkg_name (hscripts₁ ▸ hpkg) (hrshlibs₁ ▸ hpkg')
          rw [hstore₁] at hplaces₂
          have h₂ : Distinguished (associate_package_to_script (package_retrieve db pkg_name).1
              script pkg_name (package_retrieve db pkg_name).2) script := h.congr hplaces₂
          -- the loop over the libraries is one over all their providers
          rw [← List.foldl_flatMap] at hrun
          obtain ⟨hstore₃, hscripts₃, hrshlibs₃⟩ := add_rshlibs_spec
            (libs.flatMap pkg_db.query_shlib_provide) _ h₂
          rw [hrun] at hstore₃ hscripts₃ hrshlibs₃
          refine ⟨by rw [hstore₃, hplaces₂], by simp, fun n p => ?_, fun n p => ?_⟩
          · rw [hscripts₃, hscripts₂, hscripts₁, List.mem_append]
            by_cases hn : n = pkg_name
            · simp [hn]
            · simp [hn, Ne.symm hn]
          · rw [hrshlibs₃, hrshlibs₂, hrshlibs₁]
            simp [List.mem_flatMap]

end Lists

/-! ## The index -/

/-- The lists of the packages, as the queries tell them for the scripts read so far. -/
structure Indexed (pkg_db : pkgdb) (db : services_db_t) (ps : List rc_d_place) : Prop where
  places : db.store.map rc_d_script_t.place = ps
  answered : ∀ place ∈ ps, pkg_db.query_which place.path ≠ none
  scripts : ∀ n p, p ∈ scriptsOf db n ↔ ∃ place libs, ps[p]? = some place
    ∧ pkg_db.query_which place.path = some (some (n, libs))
  rshlibs : ∀ n p, p ∈ rshlibsOf db n ↔ ∃ place owner libs, ps[p]? = some place
    ∧ pkg_db.query_which place.path = some (some (owner, libs))
    ∧ ∃ lib ∈ libs, n ∈ pkg_db.query_shlib_provide lib

section Index

variable {pkg_db : pkgdb} {db db' : services_db_t} {ps : List rc_d_place}

theorem Indexed.create : Indexed pkg_db services_db_create [] :=
  ⟨rfl, by simp, by simp [services_db_create, scriptsOf], by simp [services_db_create, rshlibsOf]⟩

/-- What changes neither the packages nor the places keeps the index. -/
theorem Indexed.congr (h : Indexed pkg_db db ps) (hpackages : db'.packages = db.packages)
    (hplaces : db'.store.map rc_d_script_t.place = db.store.map rc_d_script_t.place) :
    Indexed pkg_db db' ps := by
  have hscripts : scriptsOf db' = scriptsOf db := by
    funext n
    rw [scriptsOf, scriptsOf, hpackages]
  have hrshlibs : rshlibsOf db' = rshlibsOf db := by
    funext n
    rw [rshlibsOf, rshlibsOf, hpackages]
  exact ⟨hplaces.trans h.places, h.answered, hscripts ▸ h.scripts, hrshlibs ▸ h.rshlibs⟩

theorem script_name_eq (hplaces : db.store.map rc_d_script_t.place = ps) {p : ℕ}
    {place : rc_d_place} (hp : ps[p]? = some place) : script_name db p = place.name := by
  rw [← hplaces, List.getElem?_map, Option.map_eq_some_iff] at hp
  obtain ⟨s, hs, rfl⟩ := hp
  simp [script_name, services_db_t.script, hs, rc_d_script_t.place]

/-- Where the names are distinct, each script is alone with its name. -/
theorem distinguished_of_nodup (hplaces : db.store.map rc_d_script_t.place = ps)
    (hnames : (ps.map rc_d_place.name).Nodup) {script : ℕ} (hlt : script < ps.length) :
    Distinguished db script := by
  have hname : ∀ q, (db.script q).map rc_d_script_t.name = (ps.map rc_d_place.name)[q]? := by
    intro q
    rw [← hplaces, List.map_map, List.getElem?_map]
    rfl
  intro p hp
  rw [compare_scripts, beq_iff_eq, hname, hname] at hp
  have hlt' : script < (ps.map rc_d_place.name).length := by simpa using hlt
  exact ((List.getElem?_inj hlt' hnames).mp hp.symm).symm

/-- The magic comments change neither the packages nor the places. -/
theorem parse_rc_d_script_keeps (script : ℕ) (lines : List Text) (db : services_db_t) :
    (parse_rc_d_script db script lines).packages = db.packages
      ∧ (parse_rc_d_script db script lines).store.map rc_d_script_t.place
        = db.store.map rc_d_script_t.place := by
  refine foldl_induction (I := fun db' => db'.packages = db.packages
    ∧ db'.store.map rc_d_script_t.place = db.store.map rc_d_script_t.place) _
    (fun db' t _ h => ?_) db ⟨rfl, rfl⟩
  have hmodify : ∀ f : rc_d_script_t → rc_d_script_t,
      (∀ s, rc_d_script_t.place (f s) = rc_d_script_t.place s) →
      (db'.store.modify script f).map rc_d_script_t.place = db.store.map rc_d_script_t.place :=
    fun f hf => (map_modify_eq hf _ _).trans h.2
  obtain ⟨handler, token⟩ := t
  cases handler with
  | before => exact ⟨h.1, hmodify _ (fun _ => rfl)⟩
  | require => exact ⟨h.1, hmodify _ (fun _ => rfl)⟩
  | provide => exact h
  | keyword => exact ⟨h.1, hmodify _ (fun _ => rfl)⟩

theorem link_scripts_keeps (db : services_db_t) :
    (link_scripts db).packages = db.packages
      ∧ (link_scripts db).store.map rc_d_script_t.place = db.store.map rc_d_script_t.place := by
  refine relationships_induction (P := fun _ => True) (I := fun db' => db'.packages = db.packages
    ∧ db'.store.map rc_d_script_t.place = db.store.map rc_d_script_t.place)
    (fun _ _ _ _ _ => trivial) (fun db' parent child _ _ h => ⟨h.1, ?_⟩) db.scripts.values
    (fun _ _ => trivial) db ⟨rfl, rfl⟩
  rw [← h.2]
  refine List.ext_getElem? (fun q => ?_)
  rw [List.getElem?_map, List.getElem?_map, Linked.set_parenthood_store]
  cases db'.store[q]? <;> rfl

/-- **An entry that is read** is indexed by its owner and by what its owner needs. -/
theorem Indexed.entry {directory : Text} {dp : dirent} (h : Indexed pkg_db db ps)
    (hnames : ((ps ++ (placeOf directory dp).toList).map rc_d_place.name).Nodup)
    (hrun : scan_entry pkg_db directory db dp = .ok db') :
    Indexed pkg_db db' (ps ++ (placeOf directory dp).toList) := by
  rcases scan_entry_cases hrun with ⟨hfile, rfl⟩ | ⟨path, lines, db₁, hpath, hfile, hpkg, rfl⟩
  · simpa [placeOf, hfile] using h
  · have hplace : placeOf directory dp = some ⟨dp.d_name, path⟩ := by simp [placeOf, hfile, hpath]
    rw [hplace, Option.toList_some] at hnames ⊢
    have hlen : db.store.length = ps.length := by
      rw [← h.places, List.length_map]
    have hscript : (register_script db dp.d_name path).2 = ps.length := hlen
    have hregistered : (register_script db dp.d_name path).1.store.map rc_d_script_t.place
        = ps ++ [⟨dp.d_name, path⟩] := by
      rw [← h.places]
      exact List.map_append
    -- the new script is the only one of its name
    have hdistinguished : Distinguished (register_script db dp.d_name path).1 ps.length :=
      distinguished_of_nodup hregistered hnames (by simp)
    rw [hscript] at hpkg ⊢
    obtain ⟨hplaces, hanswered, hscripts, hrshlibs⟩ := pkg_from_rc_d_script_spec hdistinguished hpkg
    obtain ⟨hpackages, hparsed⟩ := parse_rc_d_script_keeps ps.length lines db₁
    refine Indexed.congr ⟨hplaces.trans hregistered, fun place hp => ?_, fun n p => ?_,
      fun n p => ?_⟩ hpackages hparsed
    · rcases List.mem_append.mp hp with hp | hp
      · exact h.answered place hp
      · rw [List.mem_singleton.mp hp]
        exact hanswered
    · have hold : p ∈ scriptsOf (register_script db dp.d_name path).1 n ↔ _ := h.scripts n p
      rw [hscripts, hold]
      simp only [getElem?_concat_eq_some, or_and_right, exists_or]
      refine or_congr_right ?_
      simp
    · have hold : p ∈ rshlibsOf (register_script db dp.d_name path).1 n ↔ _ := h.rshlibs n p
      rw [hrshlibs, hold]
      simp only [getElem?_concat_eq_some, or_and_right, exists_or]
      refine or_congr_right ?_
      simp

theorem services_db_scan_system_indexed {sys : rc_system}
    (hscan : services_db_scan_system sys pkg_db services_db_create = .ok db)
    (hnames : ((placesOf sys).map rc_d_place.name).Nodup) :
    Indexed pkg_db db (placesOf sys) := by
  have hentry : ∀ directory dp db db' ps,
      ((ps.map rc_d_place.name).Nodup → Indexed pkg_db db ps) →
      scan_entry pkg_db directory db dp = .ok db' →
      ((ps ++ (placeOf directory dp).toList).map rc_d_place.name).Nodup →
      Indexed pkg_db db' (ps ++ (placeOf directory dp).toList) := by
    intro directory dp db db' ps h hrun hnodup
    have hold := hnodup
    rw [List.map_append, List.nodup_append] at hold
    exact (h hold.1).entry hnodup hrun
  obtain ⟨db₀, hindexed, rfl⟩ := services_db_scan_system_readAll
    (I := fun db ps => (ps.map rc_d_place.name).Nodup → Indexed pkg_db db ps) hentry
    (fun _ => Indexed.create) hscan
  obtain ⟨hpackages, hplaces⟩ := link_scripts_keeps db₀
  exact (hindexed hnames).congr hpackages hplaces

end Index

/-! ## What is selected -/

/-- What a job does to a selection: the services of `names` get the action, each once,
and the others stay as they are. -/
structure Selected (ss ss' : services_selection_t) (names : Text → Prop)
    (action : service_action_t) : Prop where
  selected : ∀ name, names name → (ss'.get name).map service_data_t.action = some action
  others : ∀ name, ¬ names name → ss'.get name = ss.get name
  once : ss'.keys.Nodup

theorem run_get (c : selection_call) (ss : services_selection_t) (name : Text) :
    (c.name = name → ((c.run ss).get name).map service_data_t.action = some c.action)
      ∧ (c.name ≠ name → (c.run ss).get name = ss.get name) := by
  rw [selection_call.run_eq, services_selection_add_eq]
  refine ⟨fun hname => ?_, fun hne => Table.get_put_of_ne _ _ (Ne.symm hne)⟩
  rw [hname, Table.get_put_self]
  cases ss.get name <;> rfl

/-- Calls with one action give it to what they name. -/
theorem selected_of_calls {action : service_action_t} (cs : List selection_call)
    (hall : ∀ c ∈ cs, c.action = action) (ss : services_selection_t) :
    Selected ss (cs.foldl selection_call.run ss) (fun name => Asks cs name action) action := by
  induction cs using List.reverseRecOn with
  | nil => exact ⟨by simp [Asks], fun _ _ => rfl, ss.keys_nodup⟩
  | append_singleton cs c ih =>
      have hold := ih (fun d hd => hall d (List.mem_append_left [c] hd))
      have hc := hall c (List.mem_append_right cs (List.mem_singleton_self c))
      rw [List.foldl_append, List.foldl_cons, List.foldl_nil]
      refine ⟨fun name hasks => ?_, fun name hnot => ?_, Table.keys_nodup _⟩
      · by_cases hname : c.name = name
        · rw [(run_get c _ name).1 hname, hc]
        · -- an earlier call asks for it
          obtain ⟨d, hd, hdname, hdaction⟩ := hasks
          rcases List.mem_append.mp hd with hd | hd
          · rw [(run_get c _ name).2 hname]
            exact hold.selected name ⟨d, hd, hdname, hdaction⟩
          · rw [List.mem_singleton.mp hd] at hdname
            exact absurd hdname hname
      · have hname : c.name ≠ name := fun heq => hnot ⟨c, by simp, heq, hc⟩
        rw [(run_get c _ name).2 hname]
        refine hold.others name (fun hasks => hnot ?_)
        obtain ⟨d, hd, hd'⟩ := hasks
        exact ⟨d, List.mem_append_left [c] hd, hd'⟩

theorem package_calls_action (db : services_db_t) (pkg_name : Text) (action : requested_action_t)
    (include_rshlibs : Bool) :
    ∀ c ∈ package_calls db pkg_name action include_rshlibs, c.action = action := by
  intro c hc
  exact ((asks_package_calls db pkg_name action include_rshlibs c.name c.action).mp
    ⟨c, hc, rfl, rfl⟩).1

theorem Selected.congr {ss ss' : services_selection_t} {names names' : Text → Prop}
    {action : service_action_t} (h : Selected ss ss' names action)
    (heq : ∀ name, names name ↔ names' name) : Selected ss ss' names' action := by
  have hnames : names = names' := funext (fun name => propext (heq name))
  exact hnames ▸ h

section Jobs

variable {sys : rc_system} {pkg_db : pkgdb} {installed : installed_db} {db : services_db_t}
  {ps : List rc_d_place}

/-- What the query answers for a script is its package. -/
theorem Answers.which_iff (h : Answers pkg_db installed) {path : Text}
    (hanswered : pkg_db.query_which path ≠ none) (n : Text) (libs : List Text) :
    pkg_db.query_which path = some (some (n, libs))
      ↔ ∃ p ∈ installed.packages, path ∈ p.files ∧ p.name = n ∧ p.shlibs_required = libs := by
  obtain ⟨owner, howner⟩ := Option.ne_none_iff_exists'.mp hanswered
  have hwhich := h.which path owner howner
  rw [howner, Option.some.injEq]
  constructor
  · rintro rfl
    rcases hwhich with ⟨hnone, -⟩ | ⟨p, hp, hpath, heq⟩
    · exact absurd hnone (by simp)
    · simp only [Option.some.injEq, Prod.mk.injEq] at heq
      exact ⟨p, hp, hpath, heq.1.symm, heq.2.symm⟩
  · rintro ⟨p, hp, hpath, rfl, rfl⟩
    rcases hwhich with ⟨-, hnone⟩ | ⟨q, hq, hpath', heq⟩
    · exact absurd hpath (hnone p hp)
    · rw [heq, installed.owner_unique p hp q hq path hpath hpath']

theorem Indexed.mem_owned (h : Indexed pkg_db db ps) (hanswers : Answers pkg_db installed)
    (pkg_name name : Text) : name ∈ owned db pkg_name
      ↔ ∃ place ∈ ps, place.name = name ∧ Owns installed pkg_name place.path := by
  rw [owned_eq, List.mem_map]
  constructor
  · rintro ⟨p, hp, rfl⟩
    obtain ⟨place, libs, hplace, hwhich⟩ := (h.scripts pkg_name p).mp hp
    have hmem := List.mem_of_getElem? hplace
    obtain ⟨q, hq, hpath, hname, -⟩ :=
      (hanswers.which_iff (h.answered place hmem) pkg_name libs).mp hwhich
    exact ⟨place, hmem, (script_name_eq h.places hplace).symm, q, hq, hname, hpath⟩
  · rintro ⟨place, hmem, rfl, q, hq, hname, hpath⟩
    obtain ⟨p, hplace⟩ := List.mem_iff_getElem?.mp hmem
    refine ⟨p, (h.scripts pkg_name p).mpr ⟨place, q.shlibs_required, hplace, ?_⟩,
      script_name_eq h.places hplace⟩
    exact (hanswers.which_iff (h.answered place hmem) _ _).mpr ⟨q, hq, hpath, hname, rfl⟩

theorem Indexed.mem_dependents (h : Indexed pkg_db db ps) (hanswers : Answers pkg_db installed)
    (pkg_name name : Text) : name ∈ dependents db pkg_name
      ↔ ∃ place ∈ ps, place.name = name ∧ Needs installed pkg_name place.path := by
  rw [dependents, services_db_rshlib_eq, List.mem_map]
  constructor
  · rintro ⟨p, hp, rfl⟩
    obtain ⟨place, owner, libs, hplace, hwhich, lib, hlib, hprovide⟩ :=
      (h.rshlibs pkg_name p).mp hp
    have hmem := List.mem_of_getElem? hplace
    obtain ⟨q, hq, hpath, -, hlibs⟩ :=
      (hanswers.which_iff (h.answered place hmem) owner libs).mp hwhich
    obtain ⟨r, hr, hlib', hrname⟩ := (hanswers.provide lib pkg_name).mp hprovide
    exact ⟨place, hmem, (script_name_eq h.places hplace).symm, q, hq, hpath, lib, hlibs ▸ hlib, r,
      hr, hrname, hlib'⟩
  · rintro ⟨place, hmem, rfl, q, hq, hpath, lib, hlib, r, hr, hrname, hlib'⟩
    obtain ⟨p, hplace⟩ := List.mem_iff_getElem?.mp hmem
    refine ⟨p, (h.rshlibs pkg_name p).mpr ⟨place, q.name, q.shlibs_required, hplace, ?_, lib, hlib,
      (hanswers.provide lib pkg_name).mpr ⟨r, hr, hlib', hrname⟩⟩, script_name_eq h.places hplace⟩
    exact (hanswers.which_iff (h.answered place hmem) _ _).mpr ⟨q, hq, hpath, rfl, rfl⟩

/-- **What a job selects**, for scripts with distinct names, where the queries answer
according to what is installed: the upgrade of a package restarts its services and those
whose package requires a library of it, its deletion stops its services. -/
theorem handle_job_selects
    (hscan : services_db_scan_system sys pkg_db services_db_create = .ok db)
    (hnames : ((placesOf sys).map rc_d_place.name).Nodup) (hanswers : Answers pkg_db installed)
    (pkg_name : Text) (ss : services_selection_t) :
    Selected ss (handle_job db ss (pkg_name, .PKG_SOLVED_UPGRADE))
        (fun name => ∃ place ∈ placesOf sys, place.name = name
          ∧ (Owns installed pkg_name place.path ∨ Needs installed pkg_name place.path))
        .SERVICE_ACTION_RESTART
      ∧ Selected ss (handle_job db ss (pkg_name, .PKG_SOLVED_DELETE))
        (fun name => ∃ place ∈ placesOf sys, place.name = name
          ∧ Owns installed pkg_name place.path)
        .SERVICE_ACTION_STOP := by
  have hindexed := services_db_scan_system_indexed hscan hnames
  rw [handle_job_eq, handle_job_eq]
  constructor
  · refine (selected_of_calls _ (package_calls_action db pkg_name .restart true) ss).congr
      (fun name => ?_)
    rw [asks_package_calls, hindexed.mem_owned hanswers, hindexed.mem_dependents hanswers]
    simp only [and_or_left, exists_or, true_and]
  · refine (selected_of_calls _ (package_calls_action db pkg_name .stop false) ss).congr
      (fun name => ?_)
    rw [asks_package_calls, hindexed.mem_owned hanswers]
    simp only [Bool.false_eq_true, false_and, or_false]
    exact and_iff_right trivial

end Jobs

/-- The queries to the database of what is installed. -/
def queriesOf (installed : installed_db) : pkgdb :=
  ⟨fun path => some ((installed.packages.find? (fun p => p.files.contains path)).map
      (fun p => (p.name, p.shlibs_required))),
    fun lib => (installed.packages.filter (fun p => p.shlibs_provided.contains lib)).map
      installed_pkg.name⟩

theorem queriesOf_answers (installed : installed_db) : Answers (queriesOf installed) installed := by
  refine ⟨fun path owner howner => ?_, fun lib name => ?_⟩
  · simp only [queriesOf, Option.some.injEq] at howner
    cases hfind : installed.packages.find? (fun p => p.files.contains path) with
    | none =>
        rw [hfind, Option.map_none] at howner
        rw [List.find?_eq_none] at hfind
        exact Or.inl ⟨howner.symm, fun p hp hpath => hfind p hp (by simpa using hpath)⟩
    | some p =>
        rw [hfind, Option.map_some] at howner
        have hpath : path ∈ p.files := by simpa using List.find?_some hfind
        exact Or.inr ⟨p, List.mem_of_find?_eq_some hfind, hpath, howner.symm⟩
  · simp [queriesOf, List.mem_map, List.mem_filter, and_assoc]

/-- The package `nginx` with its service requires the library that `openssl` provides. -/
def nginx_installed : installed_db :=
  ⟨[⟨"nginx".toList, ["/usr/local/etc/rc.d/nginx".toList], ["libssl.so".toList], []⟩,
    ⟨"openssl".toList, [], [], ["libssl.so".toList]⟩], by
    intro p hp q hq path hpath hpath'
    simp only [List.mem_cons, List.not_mem_nil, or_false] at hp hq
    rcases hp with rfl | rfl <;> rcases hq with rfl | rfl
    · rfl
    · exact absurd hpath' (by simp)
    · exact absurd hpath (by simp)
    · rfl⟩

/-- An upgrade of `openssl` restarts `nginx`, and nothing else. -/
theorem nginx_needs_openssl :
    ∃ db, services_db_scan_system nginx_system (queriesOf nginx_installed) services_db_create
        = .ok db
      ∧ (handle_job db services_selection_create ("openssl".toList, .PKG_SOLVED_UPGRADE)).keys
        = ["nginx".toList]
      ∧ Selected services_selection_create
        (handle_job db services_selection_create ("openssl".toList, .PKG_SOLVED_UPGRADE))
        (fun name => ∃ place ∈ placesOf nginx_system, place.name = name
          ∧ (Owns nginx_installed "openssl".toList place.path
            ∨ Needs nginx_installed "openssl".toList place.path))
        .SERVICE_ACTION_RESTART := by
  have hrun : (services_db_scan_system nginx_system (queriesOf nginx_installed)
      services_db_create).toOption.map (fun db => (handle_job db services_selection_create
        ("openssl".toList, .PKG_SOLVED_UPGRADE)).keys) = some ["nginx".toList] := by decide
  obtain ⟨db, hscan, hrun⟩ := Fallible.of_toOption_map hrun
  have hnames : ((placesOf nginx_system).map rc_d_place.name).Nodup := by decide
  exact ⟨db, hscan, hrun, (handle_job_selects hscan hnames (queriesOf_answers nginx_installed)
    "openssl".toList services_selection_create).1⟩

end PkgPlugins.ServicesPackages
