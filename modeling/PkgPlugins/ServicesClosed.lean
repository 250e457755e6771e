/-
Which scripts the lists of the services database point to
(`plugins/services/services_db.c`).

A script is found through the table `scripts`, which has one entry per name, or
through the lists of providers, of keywords, of packages and of relatives. The
table keeps the first script of a name, while the lists take whatever script is
read. `Holds` says of a database what holds of every pointer in it, so that one
pass over the operations of a scan serves every such statement; whatever the
names of the scripts are, each pointer is that of a script that was read
(`services_db_scan_system_sound`).
-/
import PkgPlugins.Rcorder

set_option autoImplicit false

namespace PkgPlugins.ServicesClosed

open PkgPlugins.AssocTable PkgPlugins.Buffers PkgPlugins.ServicesDb PkgPlugins.Rcorder

/-! ## The pointers of a database -/

/-- Every pointer in a list of the database satisfies `P`, and every entry of the
table of scripts satisfies `Q`. -/
structure Holds (Q : Text → ℕ → Prop) (P : ℕ → Prop) (db : services_db_t) : Prop where
  scripts : ∀ k p, db.scripts.get k = some p → Q k p
  provides : ∀ n, ∀ p ∈ (db.provides.get n).getD [], P p
  keywords : ∀ n, ∀ p ∈ (db.keywords.get n).getD [], P p
  packages : ∀ n pkg, db.packages.get n = some pkg → ∀ p ∈ pkg.scripts ++ pkg.rshlibs, P p
  links : ∀ (q : ℕ) s, db.store[q]? = some s → ∀ p ∈ s.children ++ s.parents, P p

/-- **A closed database**: `register_script` inserted every script it made, and
every script in a list is a value of the table of scripts. -/
structure Closed (db : services_db_t) : Prop where
  inserted : ∀ p < db.store.length, p ∈ db.scripts.values
  listed : Holds (fun _ _ => True) (fun p => p ∈ db.scripts.values) db

/-! ## What the loop over the relationships keeps -/

section Relationships

variable {P : ℕ → Prop} {I : services_db_t → Prop}

/-- What a step keeps is kept along a list. -/
theorem foldl_induction {β : Type} {step : services_db_t → β → services_db_t} (l : List β)
    (hstep : ∀ db, ∀ b ∈ l, I db → I (step db b)) : ∀ db, I db → I (l.foldl step db) := by
  induction l with
  | nil => exact fun db h => h
  | cons b l ih =>
      intro db h
      exact ih (fun db x hx => hstep db x (List.mem_cons_of_mem b hx)) _
        (hstep db b List.mem_cons_self h)

/-- The loop over the scripts that provide a name. -/
theorem providers_induction {db : services_db_t} (name : Text)
    {step : services_db_t → ℕ → services_db_t}
    (hprov : ∀ p ∈ (db.provides.get name).getD [], P p)
    (hstep : ∀ db x, P x → I db → I (step db x)) (h : I db) :
    I (match provides_by_name db name with
      | some scripts => scripts.foldl step db
      | none => db) := by
  unfold provides_by_name
  cases hget : db.provides.get name with
  | none => exact h
  | some scripts =>
      rw [hget, Option.getD_some] at hprov
      exact foldl_induction scripts (fun db x hx hdb => hstep db x (hprov x hx) hdb) db h

/-- **What `set_parenthood` keeps**, the loop over the relationships keeps. The
scripts it is called on are those of the loop and those that provide something. -/
theorem relationships_induction
    (hprov : ∀ db, I db → ∀ n, ∀ p ∈ (db.provides.get n).getD [], P p)
    (hstep : ∀ db parent child, P parent → P child → I db → I (set_parenthood db parent child))
    (scripts : List ℕ) (hscripts : ∀ p ∈ scripts, P p) :
    ∀ db, I db → I (scripts.foldl manage_relationships db) := by
  refine foldl_induction scripts (fun db script hmem h => ?_)
  have hs := hscripts script hmem
  unfold manage_relationships
  cases db.script script with
  | none => exact h
  | some s =>
      have hrequire : ∀ db, ∀ name ∈ s.requires, I db → I (add_require_relationship db script name) :=
        fun db name _ h => providers_induction name (hprov db h name)
          (fun db x hx h => hstep db x script hx hs h) h
      have hbefore : ∀ db, ∀ name ∈ s.befores, I db → I (add_before_relationship db script name) :=
        fun db name _ h => providers_induction name (hprov db h name)
          (fun db x hx h => hstep db script x hs hx h) h
      exact foldl_induction s.befores hbefore _ (foldl_induction s.requires hrequire db h)

end Relationships

/-! ## The operations -/

namespace Holds

variable {Q Q' : Text → ℕ → Prop} {P P' : ℕ → Prop} {db db' : services_db_t}

theorem create : Holds Q P services_db_create :=
  ⟨by simp [services_db_create], by simp [services_db_create], by simp [services_db_create],
    by simp [services_db_create], by simp [services_db_create]⟩

theorem mono (h : Holds Q P db) (hQ : ∀ k p, Q k p → Q' k p) (hP : ∀ p, P p → P' p) :
    Holds Q' P' db :=
  ⟨fun k p hp => hQ k p (h.scripts k p hp), fun n p hp => hP p (h.provides n p hp),
    fun n p hp => hP p (h.keywords n p hp), fun n pkg hpkg p hp => hP p (h.packages n pkg hpkg p hp),
    fun q s hs p hp => hP p (h.links q s hs p hp)⟩

/-- The children and the parents of the scripts after an assignment to one of them. -/
theorem links_modify (h : Holds Q P db) {script : ℕ} {f : rc_d_script_t → rc_d_script_t}
    (hf : ∀ s, ∀ p ∈ (f s).children ++ (f s).parents, p ∈ s.children ++ s.parents ∨ P p) (q : ℕ)
    (s : rc_d_script_t) (hs : (db.store.modify script f)[q]? = some s) :
    ∀ p ∈ s.children ++ s.parents, P p := by
  rw [List.getElem?_modify, Option.map_eq_map, Option.map_eq_some_iff] at hs
  obtain ⟨s₀, hs₀, rfl⟩ := hs
  intro p hp
  by_cases hq : script = q
  · rw [if_pos hq] at hp
    rcases hf s₀ p hp with hp | hp
    · exact h.links q s₀ hs₀ p hp
    · exact hp
  · rw [if_neg hq] at hp
    exact h.links q s₀ hs₀ p hp

theorem modify (h : Holds Q P db) {script : ℕ} {f : rc_d_script_t → rc_d_script_t}
    (hf : ∀ s, ∀ p ∈ (f s).children ++ (f s).parents, p ∈ s.children ++ s.parents ∨ P p) :
    Holds Q P (db.modify script f) :=
  ⟨h.scripts, h.provides, h.keywords, h.packages, h.links_modify hf⟩

/-- A pointer added at the end of a list of a table. -/
theorem put_getD {t : Table Text (List ℕ)} (h : ∀ n, ∀ p ∈ (t.get n).getD [], P p) (token : Text)
    {script : ℕ} (hs : P script) (n : Text) :
    ∀ p ∈ ((t.put token ((t.get token).getD [] ++ [script])).get n).getD [], P p := by
  intro p hp
  rw [Table.get_put] at hp
  by_cases hn : n = token
  · rw [if_pos hn, Option.getD_some, List.mem_append, List.mem_singleton] at hp
    rcases hp with hp | rfl
    · exact h token p hp
    · exact hs
  · rw [if_neg hn] at hp
    exact h n p hp

/-- A token adds its script to at most a list of providers and one of a keyword. -/
theorem token (h : Holds Q P db) {script : ℕ} (hs : P script) (t : handle_token × Text) :
    Holds Q P (handle_token.run db script t) := by
  obtain ⟨handler, tok⟩ := t
  cases handler with
  | before => exact h.modify (fun s p hp => Or.inl hp)
  | require => exact h.modify (fun s p hp => Or.inl hp)
  | provide => exact ⟨h.scripts, put_getD h.provides tok hs, h.keywords, h.packages, h.links⟩
  | keyword =>
      exact ⟨h.scripts, h.provides, put_getD h.keywords tok hs, h.packages,
        h.links_modify (fun s p hp => Or.inl hp)⟩

theorem parse (h : Holds Q P db) {script : ℕ} (hs : P script) (lines : List Text) :
    Holds Q P (parse_rc_d_script db script lines) :=
  foldl_induction _ (fun _ t _ hdb => hdb.token hs t) db h

/-! ### Packages -/

theorem put_package (h : Holds Q P db) (name : Text) {pkg : package_t}
    (hpkg : ∀ p ∈ pkg.scripts ++ pkg.rshlibs, P p) :
    Holds Q P { db with packages := db.packages.put name pkg } := by
  refine ⟨h.scripts, h.provides, h.keywords, fun n pkg' hget => ?_, h.links⟩
  rw [Table.get_put] at hget
  by_cases hn : n = name
  · rw [if_pos hn, Option.some.injEq] at hget
    exact hget ▸ hpkg
  · rw [if_neg hn] at hget
    exact h.packages n pkg' hget

/-- A package that is retrieved lists what its entry lists, or nothing. -/
theorem retrieve (h : Holds Q P db) (name : Text) :
    Holds Q P (package_retrieve db name).1
      ∧ ∀ p ∈ (package_retrieve db name).2.scripts ++ (package_retrieve db name).2.rshlibs,
        P p := by
  unfold package_retrieve
  cases hget : db.packages.get name with
  | some pkg => exact ⟨h, h.packages name pkg hget⟩
  | none => exact ⟨h.put_package name (by simp), by simp⟩

theorem associate (h : Holds Q P db) {script : ℕ} (hs : P script) (name : Text) {pkg : package_t}
    (hpkg : ∀ p ∈ pkg.scripts ++ pkg.rshlibs, P p) :
    Holds Q P (associate_package_to_script db script name pkg) := by
  have hput : Holds Q P { db with
      packages := db.packages.put name { pkg with scripts := pkg.scripts ++ [script] } } := by
    apply h.put_package
    intro p hp
    simp only [List.mem_append, List.mem_singleton] at hp
    rcases hp with (hp | rfl) | hp
    · exact hpkg p (List.mem_append_left _ hp)
    · exact hs
    · exact hpkg p (List.mem_append_right _ hp)
  exact hput.modify (fun s p hp => Or.inl hp)

theorem mem_insert_unique {db : services_db_t} {list : List ℕ} {data p : ℕ}
    (hp : p ∈ dlist_insert_unique db list data) : p ∈ list ∨ p = data := by
  unfold dlist_insert_unique at hp
  split at hp
  · simpa using hp
  · exact Or.inl hp

theorem rshlib (h : Holds Q P db) {script : ℕ} (hs : P script) (name : Text) :
    Holds Q P (add_rshlib script db name) := by
  obtain ⟨hret, hpkg⟩ := h.retrieve name
  apply hret.put_package
  intro p hp
  rcases List.mem_append.mp hp with hp | hp
  · exact hpkg p (List.mem_append_left _ hp)
  · rcases mem_insert_unique hp with hp | rfl
    · exact hpkg p (List.mem_append_right _ hp)
    · exact hs

theorem package (h : Holds Q P db) {pkg_db : pkgdb} {script : ℕ} (hs : P script) {path : Text}
    (hrun : pkg_from_rc_d_script pkg_db db script path = .ok db') : Holds Q P db' := by
  unfold pkg_from_rc_d_script at hrun
  cases hq : pkg_db.query_which path with
  | none => rw [hq] at hrun; exact absurd hrun (by simp)
  | some owner =>
      rw [hq] at hrun
      cases owner with
      | none =>
          simp only [Except.ok.injEq] at hrun
          exact hrun ▸ h
      | some pkg =>
          simp only [Except.ok.injEq] at hrun
          obtain ⟨hret, hpkg⟩ := h.retrieve pkg.1
          rw [← hrun]
          -- every library the package requires, and every package that provides it
          refine foldl_induction pkg.2 (fun db lib _ hdb => ?_) _ (hret.associate hs _ hpkg)
          exact foldl_induction _ (fun db name _ hdb => hdb.rshlib hs name) db hdb

/-! ### Relatives -/

theorem parenthood (h : Holds Q P db) {parent child : ℕ} (hp : P parent) (hc : P child) :
    Holds Q P (set_parenthood db parent child) := by
  have hfirst : Holds Q P (Linked.addChild db parent child) := by
    refine h.modify (fun s p hmem => ?_)
    rcases List.mem_append.mp hmem with hmem | hmem
    · rcases mem_insert_unique hmem with hmem | rfl
      · exact Or.inl (List.mem_append_left _ hmem)
      · exact Or.inr hc
    · exact Or.inl (List.mem_append_right _ hmem)
  refine hfirst.modify (fun s p hmem => ?_)
  rcases List.mem_append.mp hmem with hmem | hmem
  · exact Or.inl (List.mem_append_left _ hmem)
  · rcases mem_insert_unique hmem with hmem | rfl
    · exact Or.inl (List.mem_append_right _ hmem)
    · exact Or.inr hp

/-- Linking adds only scripts of the table and scripts that provide something. -/
theorem link (h : Holds Q P db) (hQ : ∀ k p, Q k p → P p) : Holds Q P (link_scripts db) := by
  have hvalues : ∀ p ∈ db.scripts.values, P p := by
    intro p hp
    obtain ⟨k, hk⟩ := (db.scripts.mem_values_iff p).mp hp
    exact hQ k p (h.scripts k p hk)
  have hall : Holds Q P (db.scripts.values.foldl manage_relationships db) :=
    relationships_induction (fun _ hdb => hdb.provides)
      (fun _ _ _ hp hc hdb => hdb.parenthood hp hc) _ hvalues db h
  exact ⟨hall.scripts, hall.provides, hall.keywords, hall.packages, hall.links⟩

end Holds

/-! ## The scan -/

/-- The pointer `p` is that of a file named `k`. -/
def Named (fs : List rc_d_file) (k : Text) (p : ℕ) : Prop := ∃ f, fs[p]? = some f ∧ f.name = k

/-- The pointers of a database are those of the scripts read so far. -/
def Sound (db : services_db_t) (fs : List rc_d_file) : Prop :=
  Scanned db fs ∧ Holds (Named fs) (· < fs.length) db

theorem Named.lt {fs : List rc_d_file} {k : Text} {p : ℕ} (h : Named fs k p) : p < fs.length := by
  obtain ⟨f, hf, -⟩ := h
  exact (List.getElem?_eq_some_iff.mp hf).1

theorem Named.append {fs : List rc_d_file} {k : Text} {p : ℕ} (h : Named fs k p)
    (fs' : List rc_d_file) : Named (fs ++ fs') k p := by
  have hlt := h.lt
  obtain ⟨f, hf, hname⟩ := h
  refine ⟨f, ?_, hname⟩
  rw [List.getElem?_append_left hlt, hf]

/-- A new script is in no list, and in the table only under its own name. -/
theorem Sound.register {db : services_db_t} {fs : List rc_d_file} (h : Sound db fs) (name path : Text)
    (toks : List (handle_token × Text)) :
    Holds (Named (fs ++ [⟨name, toks⟩])) (· < fs.length + 1) (register_script db name path).1 := by
  obtain ⟨hscanned, hholds⟩ := h
  have hold : Holds (Named (fs ++ [⟨name, toks⟩])) (· < fs.length + 1) db :=
    hholds.mono (fun k p hp => hp.append _) (fun p hp => by omega)
  refine ⟨fun k p hp => ?_, hold.provides, hold.keywords, hold.packages, fun q s hs p hp => ?_⟩
  · change (db.scripts.putNew name db.store.length).get k = some p at hp
    rw [Table.putNew] at hp
    by_cases hin : db.scripts.contains name = true
    · -- the name is taken: the table stays
      rw [if_pos hin] at hp
      exact hold.scripts k p hp
    · rw [if_neg hin, Table.get_put] at hp
      by_cases hk : k = name
      · rw [if_pos hk, Option.some.injEq, hscanned.length] at hp
        refine ⟨⟨name, toks⟩, ?_, hk.symm⟩
        rw [← hp, List.getElem?_concat_length]
      · rw [if_neg hk] at hp
        exact hold.scripts k p hp
  · change (db.store ++ [_])[q]? = some s at hs
    rcases (getElem?_concat_eq_some _ _ _ _).mp hs with hs | ⟨-, rfl⟩
    · exact hold.links q s hs p hp
    · exact absurd hp (by simp)

theorem Sound.entry {db db' : services_db_t} {fs : List rc_d_file} {pkg_db : pkgdb}
    {directory : Text} {dp : dirent} (h : Sound db fs)
    (hrun : scan_entry pkg_db directory db dp = .ok db') : Sound db' (fs ++ (fileOf dp).toList) := by
  refine ⟨h.1.entry hrun, ?_⟩
  rcases scan_entry_cases hrun with ⟨hfile, rfl⟩ | ⟨path, lines, db₁, -, hfile, hpkg, rfl⟩
  · simpa [hfile] using h.2
  · rw [hfile, Option.toList_some, List.length_append, List.length_singleton]
    have hlt : (register_script db dp.d_name path).2 < fs.length + 1 := by
      rw [(h.1.register dp.d_name path).1]
      omega
    have hreg := h.register dp.d_name path (rc_d_tokens .PARSING_BEFORE lines)
    exact (hreg.package hlt hpkg).parse hlt lines

/-! ## The links -/

theorem insert_unique_ne_nil (db : services_db_t) (list : List ℕ) (data : ℕ) :
    dlist_insert_unique db list data ≠ [] := by
  unfold dlist_insert_unique
  by_cases hfind : (list.find? (fun el => compare_scripts db el data)).isNone = true
  · simp [hfind]
  · rw [if_neg hfind]
    -- something was found in the list
    rintro rfl
    simp at hfind

/-- What linking leaves of the database `db₀` of the scripts, and that it makes
nobody a child without a parent. -/
structure Kept (db₀ db : services_db_t) : Prop where
  scripts : db.scripts = db₀.scripts
  roots : db.roots = db₀.roots
  nodes : db.store.map rc_d_script_t.node = db₀.store.map rc_d_script_t.node
  parented : ∀ (a : ℕ) s, db.store[a]? = some s → ∀ b ∈ s.children,
    ∃ s', db.store[b]? = some s' ∧ s'.parents ≠ []

theorem Kept.length {db₀ db : services_db_t} (h : Kept db₀ db) :
    db.store.length = db₀.store.length := by
  simpa using congrArg List.length h.nodes

/-- Before the links are made nobody is a child. -/
theorem Kept.refl {db : services_db_t} {fs : List rc_d_file} (h : Scanned db fs) : Kept db db := by
  refine ⟨rfl, rfl, rfl, fun a s hs b hb => ?_⟩
  rw [(h.unlinked_eq hs).1] at hb
  exact absurd hb (by simp)

theorem Kept.parenthood {db₀ db : services_db_t} (h : Kept db₀ db) (parent : ℕ) {child : ℕ}
    (hc : child < db₀.store.length) : Kept db₀ (set_parenthood db parent child) := by
  refine ⟨h.scripts, h.roots, ?_, fun a s hs b hb => ?_⟩
  · rw [← h.nodes, Linked.set_parenthood_nodes]
  · rw [Linked.set_parenthood_store, Option.map_eq_some_iff] at hs
    obtain ⟨s₀, hs₀, rfl⟩ := hs
    -- a new child is the one that gets a parent here; an old one keeps its parents
    have hold : b ∈ s₀.children ∨ b = child := by
      by_cases hp : parent = a
      · simp only [hp, if_true] at hb
        exact Holds.mem_insert_unique hb
      · simp only [hp, if_false] at hb
        exact Or.inl hb
    have hparents : ∃ s', db.store[b]? = some s' ∧ (child ≠ b → s'.parents ≠ []) := by
      rcases hold with hb | rfl
      · obtain ⟨s', hs', hne⟩ := h.parented a s₀ hs₀ b hb
        exact ⟨s', hs', fun _ => hne⟩
      · rw [← h.length] at hc
        exact ⟨_, List.getElem?_eq_getElem hc, fun hne => absurd rfl hne⟩
    obtain ⟨s', hs', hne⟩ := hparents
    rw [Linked.set_parenthood_store, hs']
    refine ⟨_, rfl, ?_⟩
    by_cases hb : child = b
    · simp only [hb, if_true]
      exact insert_unique_ne_nil db _ _
    · simp only [hb, if_false]
      exact hne hb

/-- The database that `link_scripts` looks for the roots in. -/
theorem link_scripts_kept {db : services_db_t} {fs : List rc_d_file} (h : Sound db fs) :
    Kept db (db.scripts.values.foldl manage_relationships db) := by
  have hlen := h.1.length
  have hvalues : ∀ p ∈ db.scripts.values, p < fs.length := by
    intro p hp
    obtain ⟨k, hk⟩ := (db.scripts.mem_values_iff p).mp hp
    exact (h.2.scripts k p hk).lt
  have hall : Holds (Named fs) (· < fs.length) (db.scripts.values.foldl manage_relationships db)
      ∧ Kept db (db.scripts.values.foldl manage_relationships db) := by
    refine relationships_induction (P := (· < fs.length))
      (I := fun db' => Holds (Named fs) (· < fs.length) db' ∧ Kept db db')
      (fun _ hdb => hdb.1.provides) (fun db' parent child hp hc hdb => ?_) _ hvalues db
      ⟨h.2, Kept.refl h.1⟩
    exact ⟨hdb.1.parenthood hp hc, hdb.2.parenthood parent (by omega)⟩
  exact hall.2

/-- **Whatever the names**, a pointer in a list of the database is that of a script
that was read, and a pointer in the table of scripts that of a script of its name. -/
theorem services_db_scan_system_sound {sys : rc_system} {pkg_db : pkgdb} {db : services_db_t}
    (hrun : services_db_scan_system sys pkg_db services_db_create = .ok db) :
    ∃ db₀, Sound db₀ (filesOf sys) ∧ db = link_scripts db₀
      ∧ Holds (Named (filesOf sys)) (· < (filesOf sys).length) db := by
  obtain ⟨db₀, hsound, rfl⟩ := services_db_scan_system_induction (I := Sound)
    (fun _ _ _ _ _ h hrun => h.entry hrun) ⟨services_db_create_scanned, Holds.create⟩ hrun
  exact ⟨db₀, hsound, rfl, hsound.2.link (fun _ _ h => h.lt)⟩

/-- **When the database is closed**: if and only if no two of the scripts read have
one name. -/
theorem services_db_scan_system_closed_iff {sys : rc_system} {pkg_db : pkgdb}
    {db : services_db_t}
    (hscan : services_db_scan_system sys pkg_db services_db_create = .ok db) :
    Closed db ↔ ((filesOf sys).map rc_d_file.name).Nodup := by
  obtain ⟨db₀, hsound, rfl, hholds⟩ := services_db_scan_system_sound hscan
  have hkept := link_scripts_kept hsound
  have hscripts : (link_scripts db₀).scripts = db₀.scripts := hkept.scripts
  have hlen : (link_scripts db₀).store.length = (filesOf sys).length :=
    hkept.length.trans hsound.1.length
  constructor
  · -- two pointers in the table are under the names of their scripts
    intro hclosed
    rw [List.nodup_iff_injective_getElem]
    rintro ⟨i, hi⟩ ⟨j, hj⟩ heq
    rw [List.length_map] at hi hj
    simp only [List.getElem_map] at heq
    obtain ⟨k, hk⟩ := (Table.mem_values_iff _ _).mp (hclosed.inserted i (by omega))
    obtain ⟨k', hk'⟩ := (Table.mem_values_iff _ _).mp (hclosed.inserted j (by omega))
    obtain ⟨f, hf, hname⟩ := hholds.scripts k i hk
    obtain ⟨f', hf', hname'⟩ := hholds.scripts k' j hk'
    rw [List.getElem?_eq_getElem hi, Option.some.injEq] at hf
    rw [List.getElem?_eq_getElem hj, Option.some.injEq] at hf'
    have hkk : k = k' := by rw [← hname, ← hname', ← hf, ← hf', heq]
    rw [hkk, hk', Option.some.injEq] at hk
    exact Fin.ext hk.symm
  · -- every script is in the table, so every pointer is
    intro hnames
    have hvalues : ∀ p < (filesOf sys).length, p ∈ (link_scripts db₀).scripts.values := by
      intro p hp
      rw [hscripts, (hsound.1.linked hnames).values_eq]
      exact List.mem_range.mpr hp
    exact ⟨fun p hp => hvalues p (by omega),
      hholds.mono (fun _ _ _ => trivial) (fun p hp => hvalues p hp)⟩

/-- The database of `net` and `web`, which requires it, is closed. -/
theorem netAndWeb_closed :
    ∃ db, services_db_scan_system netAndWeb noPackages services_db_create = .ok db
      ∧ db.scripts.values = [0, 1] ∧ Closed db := by
  have hrun : (services_db_scan_system netAndWeb noPackages services_db_create).toOption.map
      (fun db => db.scripts.values) = some [0, 1] := by decide
  obtain ⟨db, hscan, hrun⟩ := Fallible.of_toOption_map hrun
  refine ⟨db, hscan, hrun, (services_db_scan_system_closed_iff hscan).mpr ?_⟩
  rw [filesOf_netAndWeb]
  decide

/-- A script `web` in both directories. -/
def webTwice : rc_system :=
  ⟨fun _ => some [⟨"web".toList, .regular ["# PROVIDE: WEB".toList]⟩], "/usr/local".toList⟩

/-- The second `web` is not in the table, but it provides `WEB`. -/
theorem webTwice_dangling :
    ∃ db, services_db_scan_system webTwice noPackages services_db_create = .ok db
      ∧ db.store.length = 2 ∧ db.scripts.values = [0]
      ∧ db.provides.get "WEB".toList = some [0, 1] ∧ ¬ Closed db := by
  have hrun : (services_db_scan_system webTwice noPackages services_db_create).toOption.map
      (fun db => (db.store.length, db.scripts.values, db.provides.get "WEB".toList))
        = some (2, [0], some [0, 1]) := by decide
  obtain ⟨db, hscan, hrun⟩ := Fallible.of_toOption_map hrun
  simp only [Prod.mk.injEq] at hrun
  obtain ⟨hlength, hvalues, hprovides⟩ := hrun
  refine ⟨db, hscan, hlength, hvalues, hprovides, fun hclosed => ?_⟩
  have hmem := hclosed.inserted 1 (by omega)
  rw [hvalues] at hmem
  exact absurd hmem (by decide)

end PkgPlugins.ServicesClosed
