/-
The two ways to list the history: what `pkg history` shows of a package, against
what `pkg history` with its name shows.

`display_history_full` binds the bounds as `time_t` and reads the dates of the
commands so; `display_history_search` does both through an `int`. The bounds it
searches between are therefore the lower halves of those it was given, and the
date it shows has the lower half of the command's and the upper half of whatever
was in its variable.

In the full listing, the date of a line is that of the header above it.
-/
import PkgPlugins.HistoryQueries

set_option autoImplicit false

namespace PkgPlugins.HistoryAgree

open PkgPlugins.History PkgPlugins.Listing PkgPlugins.HistoryQueries

/-! ## What the loops show -/

/-- The search shows each row of the answer under a date of its own, of which the
upper half never changes. -/
theorem lines_shown_search (qo : query_options_t) (rows : List joined) :
    ∀ (time : Option ℤ) (vars : vars_t), lines_shown time (search_loop qo vars rows)
      = rows.map fun r =>
        (r, package_of qo r, some (store_int vars.inserted_at r.command.inserted_at)) := by
  induction rows with
  | nil => intro time vars; rfl
  | cons r rs ih =>
      intro time vars
      obtain ⟨htime, hpackage⟩ := read_search_eq qo r vars
      rw [search_loop, List.map_cons, ← htime, ← hpackage]
      simp only [List.cons_append, List.nil_append, lines_shown, List.cons.injEq, true_and]
      rw [ih]
      apply List.map_congr_left
      intro r' _
      rw [htime, store_int_store_int]

/-- The full listing shows each run of rows under the date of the one that leads
it, and the rows before the first run under what was printed before. -/
theorem lines_shown_full (qo : query_options_t) (rows : List joined) :
    (∀ r ∈ rows, ∃ l, r.line = some l) → ∀ (time : Option ℤ) (previous : ℤ) (vars : vars_t),
      lines_shown time (full_loop qo previous vars rows)
        = (runs id_key previous rows).1.map (fun r => (r, package_of qo r, time))
          ++ (runs id_key previous rows).2.flatMap fun s =>
            s.2.map fun r => (r, package_of qo r, some s.1.command.inserted_at) := by
  induction rows with
  | nil => intro _ time previous vars; rfl
  | cons r rs ih =>
      intro hline time previous vars
      rw [List.forall_mem_cons] at hline
      obtain ⟨hid, htime, hname, hpackage⟩ := read_full_eq qo r vars
      rw [full_loop]
      rw [hname, if_neg (package_of_name hline.1), hpackage, htime, hid]
      have hrest := ih hline.2
      by_cases hkey : previous = int32 r.command.id
      · rw [if_neg (not_not.mpr hkey), runs_unchanged id_key hkey]
        simp only [List.nil_append, List.cons_append, lines_shown, List.map_cons]
        rw [hrest]
        rfl
      · rw [if_pos hkey, runs_changed id_key hkey]
        split <;>
          simp only [List.nil_append, List.cons_append, lines_shown, List.map_cons, List.map_nil,
            List.flatMap_cons] <;>
          rw [hrest] <;> rfl

/-! ## When they agree -/

section Agree

variable (glob : List Char → List Char → Bool) (db : history_db) (qo : query_options_t)
  (searched : List Char)

/-- An answer to the query of `display_history_full`, the limit aside. -/
def FullListing (listing : List joined) : Prop :=
  ∃ q, full_query db.totables qo = some q ∧ q.Lists listing

/-- An answer to the query of `display_history_search`, the limit aside. -/
def SearchListing (listing : List joined) : Prop :=
  ∃ q, search_query glob db.totables qo searched = some q ∧ q.Lists listing

theorem FullListing.mem_iff {listing : List joined} (h : FullListing db qo listing) (r : joined) :
    r ∈ listing ↔ r ∈ join db.totables ∧ between qo.from_ qo.to_ r = true
      ∧ has_operation (int32 qo.operations) r = true := by
  obtain ⟨q, hq, hlists⟩ := h
  rw [hlists.perm.mem_iff, mem_full_rows hq]

theorem FullListing.nodup {listing : List joined} (h : FullListing db qo listing) :
    listing.Nodup := by
  obtain ⟨q, hq, hlists⟩ := h
  rw [full_query_eq, Option.some.injEq] at hq
  rw [hlists.perm.nodup_iff, ← hq]
  exact db.left_join_nodup.filter _

theorem SearchListing.mem_iff {listing : List joined}
    (h : SearchListing glob db qo searched listing) (r : joined) :
    r ∈ listing ↔ r ∈ join db.totables ∧ name_matches glob qo.statement searched r = true
      ∧ has_operation (int32 qo.operations) r = true
      ∧ between (int32 qo.from_) (int32 qo.to_) r = true := by
  obtain ⟨q, hq, hlists⟩ := h
  rw [search_query_eq, Option.some.injEq] at hq
  rw [hlists.perm.mem_iff, ← hq, query_t.rows, List.mem_filter, Bool.and_eq_true, Bool.and_eq_true,
    and_assoc]

theorem SearchListing.nodup {listing : List joined}
    (h : SearchListing glob db qo searched listing) : listing.Nodup := by
  obtain ⟨q, hq, hlists⟩ := h
  rw [search_query_eq, Option.some.injEq] at hq
  rw [hlists.perm.nodup_iff, ← hq]
  exact db.join_nodup.filter _

/-- The lines that the full listing shows. -/
def full_shown (vars : vars_t) (listing : List joined) : List (joined × package_t × Option ℤ) :=
  lines_shown none (display_history_full qo vars listing)

/-- The lines that the search shows. -/
def search_shown (vars : vars_t) (listing : List joined) : List (joined × package_t × Option ℤ) :=
  lines_shown none (display_history_search qo vars listing)

/-- The search shows the lines that the full listing shows of the packages whose
name matches, with the same dates. -/
def Agree (vars : vars_t) (full search : List joined) : Prop :=
  (search_shown qo vars search).Perm
    ((full_shown qo vars full).filter fun shown =>
      name_matches glob qo.statement searched shown.1)

theorem search_shown_eq (vars : vars_t) (listing : List joined) :
    search_shown qo vars listing = listing.map fun r =>
      (r, package_of qo r, some (store_int vars.inserted_at r.command.inserted_at)) := by
  unfold search_shown display_history_search
  by_cases hnil : listing = []
  · rw [if_pos hnil, hnil]
    rfl
  · rw [if_neg hnil, lines_shown_search]

theorem mem_search_shown (vars : vars_t) (listing : List joined) (r : joined) (p : package_t)
    (time : Option ℤ) : (r, p, time) ∈ search_shown qo vars listing ↔ r ∈ listing
      ∧ p = package_of qo r
      ∧ time = some (store_int vars.inserted_at r.command.inserted_at) := by
  rw [search_shown_eq, List.mem_map]
  constructor
  · rintro ⟨r', hr', heq⟩
    simp only [Prod.mk.injEq] at heq
    obtain ⟨rfl, rfl, rfl⟩ := heq
    exact ⟨hr', rfl, rfl⟩
  · rintro ⟨hr, rfl, rfl⟩
    exact ⟨r, hr, rfl⟩

theorem search_shown_fst (vars : vars_t) (listing : List joined) :
    (search_shown qo vars listing).map Prod.fst = listing := by
  rw [search_shown_eq, List.map_map]
  exact List.map_id' listing

variable {db qo} in
theorem full_shown_eq {listing : List joined} (h : FullListing db qo listing) (vars : vars_t) :
    full_shown qo vars listing
      = (runs id_key (-1) listing).1.map (fun r => (r, package_of qo r, none))
        ++ (runs id_key (-1) listing).2.flatMap fun s =>
          s.2.map fun r => (r, package_of qo r, some s.1.command.inserted_at) := by
  unfold full_shown display_history_full
  by_cases hnil : listing = []
  · rw [if_pos hnil, hnil]
    rfl
  · rw [if_neg hnil]
    apply lines_shown_full
    intro r hr
    exact has_operation_line ((FullListing.mem_iff db qo h r).mp hr).2.2

variable {db qo} in
theorem full_shown_fst {listing : List joined} (h : FullListing db qo listing) (vars : vars_t) :
    (full_shown qo vars listing).map Prod.fst = listing := by
  conv_rhs => rw [← runs_flatten id_key listing (-1)]
  rw [full_shown_eq h, List.map_append, List.map_map, List.map_flatMap]
  congr 1
  · exact List.map_id' _
  · apply List.flatMap_congr
    intro s _
    rw [List.map_map]
    exact List.map_id' _

variable {db qo} in
theorem mem_full_shown {listing : List joined} (h : FullListing db qo listing) (vars : vars_t)
    (r : joined) (p : package_t) (time : Option ℤ) :
    (r, p, time) ∈ full_shown qo vars listing ↔ p = package_of qo r
      ∧ (r ∈ (runs id_key (-1) listing).1 ∧ time = none
        ∨ ∃ s ∈ (runs id_key (-1) listing).2, r ∈ s.2 ∧ time = some s.1.command.inserted_at) := by
  rw [full_shown_eq h, List.mem_append, List.mem_map, List.mem_flatMap]
  constructor
  · rintro (⟨r', hr', heq⟩ | ⟨s, hs, hmem⟩)
    · simp only [Prod.mk.injEq] at heq
      obtain ⟨rfl, rfl, rfl⟩ := heq
      exact ⟨rfl, Or.inl ⟨hr', rfl⟩⟩
    · obtain ⟨r', hr', heq⟩ := List.mem_map.mp hmem
      simp only [Prod.mk.injEq] at heq
      obtain ⟨rfl, rfl, rfl⟩ := heq
      exact ⟨rfl, Or.inr ⟨s, hs, hr', rfl⟩⟩
  · rintro ⟨rfl, ⟨hr, rfl⟩ | ⟨s, hs, hr, rfl⟩⟩
    · exact Or.inl ⟨r, hr, rfl⟩
    · exact Or.inr ⟨s, hs, List.mem_map.mpr ⟨r, hr, rfl⟩⟩

variable {glob db qo searched} in
theorem search_shown_nodup {search : List joined}
    (hsearch : SearchListing glob db qo searched search) (vars : vars_t) :
    (search_shown qo vars search).Nodup := by
  refine List.Nodup.of_map Prod.fst ?_
  rw [search_shown_fst]
  exact SearchListing.nodup glob db qo searched hsearch

variable {db qo} in
theorem full_shown_fst_nodup {full : List joined} (hfull : FullListing db qo full)
    (vars : vars_t) : ((full_shown qo vars full).map Prod.fst).Nodup := by
  rw [full_shown_fst hfull]
  exact FullListing.nodup db qo hfull

variable {glob db qo searched} in
theorem agree_iff {vars : vars_t} {full search : List joined} (hfull : FullListing db qo full)
    (hsearch : SearchListing glob db qo searched search) :
    Agree glob qo searched vars full search
      ↔ ∀ shown, shown ∈ search_shown qo vars search
        ↔ shown ∈ full_shown qo vars full
          ∧ name_matches glob qo.statement searched shown.1 = true := by
  have hnodup : (full_shown qo vars full).Nodup :=
    List.Nodup.of_map Prod.fst (full_shown_fst_nodup hfull vars)
  rw [Agree, List.perm_ext_iff_of_nodup (search_shown_nodup hsearch vars) (hnodup.filter _)]
  simp only [List.mem_filter]

variable {glob db qo searched} in
/-- When they agree, a row of the search is in a run of the full listing, which shows
it with the date of the search. -/
theorem run_of_agree {vars : vars_t} {full search : List joined}
    (hfull : FullListing db qo full) (hsearch : SearchListing glob db qo searched search)
    (hagree : Agree glob qo searched vars full search) {r : joined} (hrow : r ∈ search) :
    ∃ s ∈ (runs id_key (-1) full).2, r ∈ s.2
      ∧ s.1.command.inserted_at = store_int vars.inserted_at r.command.inserted_at := by
  have hshown := (((agree_iff hfull hsearch).mp hagree _).mp
    ((mem_search_shown qo vars search r _ _).mpr ⟨hrow, rfl, rfl⟩)).1
  obtain ⟨-, ⟨-, hnone⟩ | ⟨s, hs, hrun, htime⟩⟩ := (mem_full_shown hfull vars _ _ _).mp hshown
  · exact absurd hnone (by simp)
  · exact ⟨s, hs, hrun, (Option.some.inj htime).symm⟩

variable {glob db qo searched} in
/-- When they agree, a row of the full listing whose name matches is in the search. -/
theorem searched_of_agree {vars : vars_t} {full search : List joined}
    (hfull : FullListing db qo full) (hsearch : SearchListing glob db qo searched search)
    (hagree : Agree glob qo searched vars full search) {r : joined} (hrow : r ∈ full)
    (hname : name_matches glob qo.statement searched r = true) : r ∈ search := by
  rw [← full_shown_fst hfull vars, List.mem_map] at hrow
  obtain ⟨⟨r', p, time⟩, hshown, rfl⟩ := hrow
  have hboth := ((agree_iff hfull hsearch).mp hagree (r', p, time)).mpr ⟨hshown, hname⟩
  exact ((mem_search_shown qo vars search r' p time).mp hboth).1

variable {db qo} in
/-- A row is shown once: what is shown of a row of a run has the date of the row that
leads it. -/
theorem shown_of_run {vars : vars_t} {full : List joined} (hfull : FullListing db qo full)
    {r : joined} {p : package_t} {time : Option ℤ}
    (hshown : (r, p, time) ∈ full_shown qo vars full) {s : joined × List joined}
    (hs : s ∈ (runs id_key (-1) full).2) (hr : r ∈ s.2) :
    p = package_of qo r ∧ time = some s.1.command.inserted_at := by
  have hother : (r, package_of qo r, some s.1.command.inserted_at) ∈ full_shown qo vars full :=
    (mem_full_shown hfull vars _ _ _).mpr ⟨rfl, Or.inr ⟨s, hs, hr, rfl⟩⟩
  have hsame := List.inj_on_of_nodup_map (full_shown_fst_nodup hfull vars) hshown hother rfl
  simp only [Prod.mk.injEq, true_and] at hsame
  exact hsame

/-- **The two queries agree** if and only if, for every line whose name matches and
whose operation is asked for, the command is between the bounds just when it is
between their lower halves, and then the row that leads its run in the full
listing has the date which the lower half of its own makes with the upper half of
the uninitialized variable. -/
theorem display_history_agree_iff (vars : vars_t) {full search : List joined}
    (hfull : FullListing db qo full) (hsearch : SearchListing glob db qo searched search) :
    Agree glob qo searched vars full search
      ↔ ∀ r ∈ join db.totables, name_matches glob qo.statement searched r = true →
        has_operation (int32 qo.operations) r = true →
        (between qo.from_ qo.to_ r = true
            ↔ between (int32 qo.from_) (int32 qo.to_) r = true)
          ∧ (between qo.from_ qo.to_ r = true → ∃ s ∈ (runs id_key (-1) full).2, r ∈ s.2
            ∧ s.1.command.inserted_at
              = store_int vars.inserted_at r.command.inserted_at) := by
  have hmem_full := FullListing.mem_iff db qo hfull
  have hmem_search := SearchListing.mem_iff glob db qo searched hsearch
  constructor
  · intro hagree r hr hname hoperation
    -- a row of one listing is one of the other
    refine ⟨⟨fun hbetween => ?_, fun hbetween => ?_⟩, fun hbetween => ?_⟩
    · have hrow := searched_of_agree hfull hsearch hagree
        ((hmem_full r).mpr ⟨hr, hbetween, hoperation⟩) hname
      exact ((hmem_search r).mp hrow).2.2.2
    · obtain ⟨s, hs, hrun, -⟩ := run_of_agree hfull hsearch hagree
        ((hmem_search r).mpr ⟨hr, hname, hoperation, hbetween⟩)
      have hrow : r ∈ full := (mem_runs id_key _).mpr (Or.inr ⟨s, hs, hrun⟩)
      exact ((hmem_full r).mp hrow).2.1
    · have hrow := (hmem_full r).mpr ⟨hr, hbetween, hoperation⟩
      exact run_of_agree hfull hsearch hagree
        (searched_of_agree hfull hsearch hagree hrow hname)
  · intro hall
    rw [agree_iff hfull hsearch]
    rintro ⟨r, p, time⟩
    constructor
    · intro hshown
      obtain ⟨hrow, rfl, rfl⟩ := (mem_search_shown qo vars search r p time).mp hshown
      obtain ⟨hr, hname, hoperation, hbetween⟩ := (hmem_search r).mp hrow
      obtain ⟨hiff, hrun⟩ := hall r hr hname hoperation
      obtain ⟨s, hs, hr, htime⟩ := hrun (hiff.mpr hbetween)
      exact ⟨(mem_full_shown hfull vars _ _ _).mpr ⟨rfl, Or.inr ⟨s, hs, hr, by rw [htime]⟩⟩, hname⟩
    · rintro ⟨hshown, hname⟩
      have hrow : r ∈ full :=
        full_shown_fst hfull vars ▸ List.mem_map_of_mem (f := Prod.fst) hshown
      obtain ⟨hr, hbetween, hoperation⟩ := (hmem_full r).mp hrow
      obtain ⟨hiff, hrun⟩ := hall r hr hname hoperation
      obtain ⟨s, hs, hr', htime⟩ := hrun hbetween
      obtain ⟨rfl, rfl⟩ := shown_of_run hfull hshown hs hr'
      rw [mem_search_shown]
      exact ⟨(hmem_search r).mpr ⟨hr, hname, hoperation, hiff.mp hbetween⟩, rfl, by rw [htime]⟩

end Agree

/-! ## One installation -/

/-- The line of an installation. -/
def vim : history_line :=
  ⟨1, some "FreeBSD".toList, "vim".toList, "editors/vim".toList, none, "9.1".toList,
    PKG_OP_INSTALL, 1⟩

/-- A history with one command, at the second 1000. -/
def one_command : history_db where
  commands := [⟨1, 1000, "pkg install vim".toList⟩]
  lines := [vim]
  commands_id := by simp
  lines_id := by simp
  operation_id := by simp [vim]

/-- Its only row. -/
def vim_row : joined := ⟨⟨1, 1000, "pkg install vim".toList⟩, some vim⟩

/-- `pkg history -t ... vim`, up to a second. -/
def up_to (upper : ℤ) : query_options_t := ⟨100, .STMT_SEARCH_LINE_EXACT_CI, 7, false, 0, upper⟩

/-- Variables that happen to be 0. -/
def zeros : vars_t := ⟨0, 0, none, none, none, none, none, 0⟩

/-- **Up to a second after 2038** the search finds nothing: its upper bound is
negative. -/
theorem after_2038_disagree :
    ∃ full search, FullListing one_command (up_to (2 ^ 31)) full
      ∧ SearchListing (fun _ _ => false) one_command (up_to (2 ^ 31)) "vim".toList search
      ∧ ¬ Agree (fun _ _ => false) (up_to (2 ^ 31)) "vim".toList zeros full search := by
  have hfull : FullListing one_command (up_to (2 ^ 31)) [vim_row] :=
    ⟨_, full_query_eq _ _, by decide, List.pairwise_singleton _ _⟩
  have hsearch : SearchListing (fun _ _ => false) one_command (up_to (2 ^ 31)) "vim".toList [] :=
    ⟨_, search_query_eq _ _ _ _, by decide, List.Pairwise.nil⟩
  refine ⟨[vim_row], [], hfull, hsearch, ?_⟩
  unfold Agree
  decide

/-- In 1970, the upper half of the variable being 0, they agree. -/
theorem in_1970_agree :
    Agree (fun _ _ => false) (up_to 2000) "vim".toList zeros [vim_row] [vim_row] := by
  have hfull : FullListing one_command (up_to 2000) [vim_row] :=
    ⟨_, full_query_eq _ _, by decide, List.pairwise_singleton _ _⟩
  have hsearch : SearchListing (fun _ _ => false) one_command (up_to 2000) "vim".toList
      [vim_row] :=
    ⟨_, search_query_eq _ _ _ _, by decide, List.pairwise_singleton _ _⟩
  have hagree := display_history_agree_iff (fun _ _ => false) one_command (up_to 2000) "vim".toList
    zeros hfull hsearch
  exact hagree.mpr (by decide)

end PkgPlugins.HistoryAgree
