/-
The keyword filter of `pkg rcorder` (`rcorder_options_add_ks`,
`plugins/services/rcorder.c`, and `keep_script`, `plugins/services/services_db.c`).

The options keep the last action of each keyword in a table, and next to it a count
of the keywords whose action is to keep, which is corrected at each call from the
action that was replaced. The count is a `size_t`, so on its own it is the number of
those keywords modulo `2 ^ 64`. The table does not copy the keywords, so a keyword is
an address in a memory that stays as it is, and there are less than `2 ^ 64` of them.
-/
import PkgPlugins.Rcorder
import Mathlib.Data.Set.Card
import Mathlib.Data.Fintype.Card

set_option autoImplicit false

namespace PkgPlugins.RcorderOptions

open PkgPlugins.AssocTable PkgPlugins.ServicesDb PkgPlugins.Rcorder

/-! ## The calls -/

/-- A call of `rcorder_options_add_ks` that the assertions let through: the keyword is
not `NULL`, and the action is to keep or to skip. -/
structure ks_call where
  name : { p : UInt64 // p ≠ 0 }
  action : rcorder_action_t
  valid : action = .RCORDER_ACTION_KEEP ∨ action = .RCORDER_ACTION_SKIP

/-- The calls one after the other; `memory` has the string at each address. -/
def add_all (memory : UInt64 → Text) (ro : rcorder_options_t) (calls : List ks_call) :
    rcorder_options_t :=
  calls.foldl (fun ro c => (rcorder_options_add_ks ro (memory c.name.val) c.action).1) ro

/-- The action a keyword was last given. -/
def last_action (memory : UInt64 → Text) (calls : List ks_call) (kw : Text) :
    Option rcorder_action_t :=
  (calls.reverse.find? (fun c => memory c.name.val == kw)).map ks_call.action

theorem add_all_append (memory : UInt64 → Text) (ro : rcorder_options_t) (calls : List ks_call)
    (c : ks_call) : add_all memory ro (calls ++ [c])
      = (rcorder_options_add_ks (add_all memory ro calls) (memory c.name.val) c.action).1 := by
  rw [add_all, List.foldl_append]
  rfl

theorem last_action_append (memory : UInt64 → Text) (calls : List ks_call) (c : ks_call)
    (kw : Text) : last_action memory (calls ++ [c]) kw
      = if kw = memory c.name.val then some c.action else last_action memory calls kw := by
  rw [last_action, List.reverse_append, List.reverse_singleton, List.singleton_append,
    List.find?_cons]
  by_cases hkw : kw = memory c.name.val
  · rw [if_pos hkw, hkw]
    simp
  · have hne : (memory c.name.val == kw) = false := by simpa using Ne.symm hkw
    rw [if_neg hkw, hne]
    rfl

/-! ## The count -/

/-- The keywords a table keeps. -/
def keptKeys (ks : Table Text rcorder_action_t) : List Text :=
  (ks.entries.filter (fun e => e.2 = .RCORDER_ACTION_KEEP)).map Prod.fst

theorem mem_keptKeys (ks : Table Text rcorder_action_t) (kw : Text) :
    kw ∈ keptKeys ks ↔ ks.get kw = some .RCORDER_ACTION_KEEP := by
  rw [ks.get_eq_some_iff, keptKeys, List.mem_map]
  constructor
  · rintro ⟨⟨k, a⟩, hmem, rfl⟩
    obtain ⟨hentry, hkeep⟩ := List.mem_filter.mp hmem
    obtain rfl : a = .RCORDER_ACTION_KEEP := by simpa using hkeep
    exact hentry
  · intro hentry
    exact ⟨_, List.mem_filter.mpr ⟨hentry, by simp⟩, rfl⟩

theorem keptKeys_sublist (ks : Table Text rcorder_action_t) :
    (keptKeys ks).Sublist ks.keys :=
  List.filter_sublist.map Prod.fst

theorem keptKeys_nodup (ks : Table Text rcorder_action_t) : (keptKeys ks).Nodup :=
  ks.keys_nodup.sublist (keptKeys_sublist ks)

/-- 1 for an action to keep. -/
def kept (action : rcorder_action_t) : ℕ := if action = .RCORDER_ACTION_KEEP then 1 else 0

/-- One call changes how many keywords are kept by what it replaces. -/
theorem keptKeys_put_length (ks : Table Text rcorder_action_t) (kw : Text)
    (action : rcorder_action_t) :
    (keptKeys (ks.put kw action)).length + kept ((ks.get kw).getD .RCORDER_ACTION_NONE)
      = (keptKeys ks).length + kept action := by
  have hlength : ∀ es : List (Text × rcorder_action_t),
      ((es.filter (fun e => e.2 = .RCORDER_ACTION_KEEP)).map Prod.fst).length
        = (es.map (fun e => kept e.2)).sum := by
    intro es
    induction es with
    | nil => rfl
    | cons e es ih =>
        rw [List.map_cons, List.sum_cons, ← ih, kept]
        by_cases he : e.2 = .RCORDER_ACTION_KEEP
        · simp [he]; omega
        · simp [he]
  simp only [keptKeys, hlength]
  cases hget : ks.get kw with
  | none =>
      rw [ks.entries_put_of_notMem ((ks.get_eq_none_iff kw).mp hget)]
      simp [kept]
  | some old =>
      obtain ⟨l, r, hes, hput⟩ := ks.entries_put_of_get hget action
      rw [hes, hput]
      simp only [List.map_append, List.map_cons, List.sum_append, List.sum_cons, Option.getD_some]
      omega

/-- What the options are after some calls: the table has the last action of each
keyword, and the count is right modulo `2 ^ 64`. -/
structure Tracks (memory : UInt64 → Text) (ro : rcorder_options_t) (calls : List ks_call) :
    Prop where
  ks : ∀ kw, ro.ks.get kw = last_action memory calls kw
  keys : ∀ kw ∈ ro.ks.keys, ∃ p : { p : UInt64 // p ≠ 0 }, memory p.val = kw
  keep_count : ro.keep_count = UInt64.ofNat (keptKeys ro.ks).length

theorem Tracks.create (memory : UInt64 → Text) : Tracks memory rcorder_options_create [] :=
  ⟨fun kw => by simp [rcorder_options_create, last_action],
    by simp [rcorder_options_create], rfl⟩

/-- `rcorder_options_add_ks` on the table and on the count. -/
theorem rcorder_options_add_ks_eq (ro : rcorder_options_t) (name : Text)
    {action : rcorder_action_t}
    (hvalid : action = .RCORDER_ACTION_KEEP ∨ action = .RCORDER_ACTION_SKIP) :
    (rcorder_options_add_ks ro name action).1.ks = ro.ks.put name action
      ∧ (rcorder_options_add_ks ro name action).1.keep_count
        = ro.keep_count + UInt64.ofNat (kept action)
          - UInt64.ofNat (kept ((ro.ks.get name).getD .RCORDER_ACTION_NONE)) := by
  unfold rcorder_options_add_ks
  generalize (ro.ks.get name).getD .RCORDER_ACTION_NONE = old
  rcases hvalid with rfl | rfl <;> cases old <;> simp [kept]

theorem Tracks.add {memory : UInt64 → Text} {ro : rcorder_options_t} {calls : List ks_call}
    (h : Tracks memory ro calls) (c : ks_call) :
    Tracks memory (rcorder_options_add_ks ro (memory c.name.val) c.action).1 (calls ++ [c]) := by
  obtain ⟨hks, hcount⟩ := rcorder_options_add_ks_eq ro (memory c.name.val) c.valid
  refine ⟨fun kw => ?_, fun kw hkw => ?_, ?_⟩
  · rw [hks, Table.get_put, last_action_append, h.ks]
  · -- a key that was not there is the keyword of the call
    rw [hks] at hkw
    by_cases heq : kw = memory c.name.val
    · exact ⟨c.name, heq.symm⟩
    · apply h.keys kw
      rw [← Table.contains_iff, Table.contains] at hkw ⊢
      rwa [Table.get_put_of_ne _ _ heq] at hkw
  · rw [hcount, hks, h.keep_count]
    have hlength := keptKeys_put_length ro.ks (memory c.name.val) c.action
    have hsum := congrArg UInt64.ofNat hlength
    rw [UInt64.ofNat_add, UInt64.ofNat_add] at hsum
    rw [← hsum, UInt64.add_sub_cancel]

theorem add_all_tracks (memory : UInt64 → Text) (calls : List ks_call) :
    Tracks memory (add_all memory rcorder_options_create calls) calls := by
  induction calls using List.reverseRecOn with
  | nil => exact Tracks.create memory
  | append_singleton calls c ih =>
      rw [add_all_append]
      exact ih.add c

/-- There are fewer keywords than addresses. -/
theorem Tracks.kept_lt {memory : UInt64 → Text} {ro : rcorder_options_t} {calls : List ks_call}
    (h : Tracks memory ro calls) : (keptKeys ro.ks).length < 2 ^ 64 := by
  have haddress : ∀ kw : Text, ∃ n : ℕ, kw ∈ keptKeys ro.ks →
      ∃ p : { p : UInt64 // p ≠ 0 }, memory p.val = kw ∧ p.val.toNat = n := by
    intro kw
    by_cases hkw : kw ∈ keptKeys ro.ks
    · obtain ⟨p, hp⟩ := h.keys kw ((keptKeys_sublist ro.ks).subset hkw)
      exact ⟨p.val.toNat, fun _ => ⟨p, hp, rfl⟩⟩
    · exact ⟨0, fun hmem => absurd hmem hkw⟩
  choose address haddress using haddress
  -- two keywords at one address are one
  have hnodup : ((keptKeys ro.ks).map address).Nodup := by
    refine (keptKeys_nodup ro.ks).map_on (fun kw hkw kw' hkw' heq => ?_)
    obtain ⟨p, hp, hn⟩ := haddress kw hkw
    obtain ⟨p', hp', hn'⟩ := haddress kw' hkw'
    have hpp : p.val = p'.val := UInt64.toNat_inj.mp (by omega)
    rw [← hp, ← hp', hpp]
  have hsubset : (keptKeys ro.ks).map address ⊆ List.range' 1 (2 ^ 64 - 1) := by
    intro n hn
    obtain ⟨kw, hkw, rfl⟩ := List.mem_map.mp hn
    obtain ⟨p, -, hn⟩ := haddress kw hkw
    have hlt := p.val.toNat_lt
    have hne : p.val.toNat ≠ 0 := fun hzero => p.property (UInt64.toNat_inj.mp hzero)
    rw [List.mem_range'_1]
    omega
  have hle := (List.subperm_of_subset hnodup hsubset).length_le
  rw [List.length_map, List.length_range'] at hle
  omega

theorem Tracks.keep_count_eq {memory : UInt64 → Text} {ro : rcorder_options_t}
    {calls : List ks_call} (h : Tracks memory ro calls) :
    ro.keep_count.toNat = (keptKeys ro.ks).length := by
  rw [h.keep_count, UInt64.toNat_ofNat', Nat.mod_eq_of_lt h.kept_lt]

theorem Tracks.ncard_kept {memory : UInt64 → Text} {ro : rcorder_options_t}
    {calls : List ks_call} (h : Tracks memory ro calls) :
    { kw | last_action memory calls kw = some .RCORDER_ACTION_KEEP }.ncard
      = (keptKeys ro.ks).length := by
  have hset : { kw | last_action memory calls kw = some .RCORDER_ACTION_KEEP }
      = ((keptKeys ro.ks).toFinset : Set Text) := by
    ext kw
    rw [Set.mem_ofPred_eq, Finset.mem_coe, List.mem_toFinset, mem_keptKeys, h.ks]
  rw [hset, Set.ncard_coe_finset, List.toFinset_card_of_nodup (keptKeys_nodup ro.ks)]

theorem Tracks.keep_count_zero_iff {memory : UInt64 → Text} {ro : rcorder_options_t}
    {calls : List ks_call} (h : Tracks memory ro calls) :
    ro.keep_count = 0 ↔ ∀ kw, last_action memory calls kw ≠ some .RCORDER_ACTION_KEEP := by
  rw [← UInt64.toNat_inj, h.keep_count_eq, UInt64.toNat_zero, List.length_eq_zero_iff,
    List.eq_nil_iff_forall_not_mem]
  simp only [mem_keptKeys, h.ks, ne_eq]

/-! ## The filter -/

/-- A table that has only actions to keep and to skip. -/
def Decided (ro : rcorder_options_t) : Prop :=
  ∀ kw action, ro.ks.get kw = some action →
    action = .RCORDER_ACTION_KEEP ∨ action = .RCORDER_ACTION_SKIP

theorem Tracks.decided {memory : UInt64 → Text} {ro : rcorder_options_t} {calls : List ks_call}
    (h : Tracks memory ro calls) : Decided ro := by
  intro kw action hget
  rw [h.ks, last_action, Option.map_eq_some_iff] at hget
  obtain ⟨c, -, rfl⟩ := hget
  exact c.valid

/-- The loop over the keywords stops at the first that is skipped. -/
theorem keep_script_loop_skip (ro : rcorder_options_t) (keywords : List Text) :
    keep_script_loop ro keywords .RCORDER_ACTION_SKIP = .RCORDER_ACTION_SKIP := by
  cases keywords with
  | nil => rfl
  | cons kw keywords => rw [keep_script_loop, if_pos rfl]

/-- **What the loop ends with**, whatever the order of the keywords: to skip if one of
them is skipped, else to keep if one of them is kept or one was before. -/
theorem keep_script_loop_iff {ro : rcorder_options_t} (h : Decided ro) (keywords : List Text) :
    ∀ action, action ≠ .RCORDER_ACTION_SKIP →
      (keep_script_loop ro keywords action = .RCORDER_ACTION_SKIP
        ↔ ∃ kw ∈ keywords, ro.ks.get kw = some .RCORDER_ACTION_SKIP)
      ∧ (keep_script_loop ro keywords action = .RCORDER_ACTION_KEEP
        ↔ (∀ kw ∈ keywords, ro.ks.get kw ≠ some .RCORDER_ACTION_SKIP)
          ∧ (action = .RCORDER_ACTION_KEEP
            ∨ ∃ kw ∈ keywords, ro.ks.get kw = some .RCORDER_ACTION_KEEP)) := by
  induction keywords with
  | nil =>
      intro action haction
      simp [keep_script_loop, haction]
  | cons kw keywords ih =>
      intro action haction
      rw [keep_script_loop, if_neg haction]
      simp only [List.mem_cons, exists_eq_or_imp, forall_eq_or_imp]
      cases hget : ro.ks.get kw with
      | none =>
          obtain ⟨hskip, hkeep⟩ := ih action haction
          simp only [Option.getD_none, hskip, hkeep]
          simp
      | some a =>
          rcases h kw a hget with rfl | rfl
          · obtain ⟨hskip, hkeep⟩ := ih .RCORDER_ACTION_KEEP (by simp)
            simp only [Option.getD_some, hskip, hkeep]
            simp
          · rw [Option.getD_some, keep_script_loop_skip]
            simp

theorem keep_script_iff {memory : UInt64 → Text} {ro : rcorder_options_t} {calls : List ks_call}
    (h : Tracks memory ro calls) (script : rc_d_script_t) :
    keep_script script ro = true
      ↔ (∀ kw ∈ script.keywords, last_action memory calls kw ≠ some .RCORDER_ACTION_SKIP)
        ∧ ((∀ kw, last_action memory calls kw ≠ some .RCORDER_ACTION_KEEP)
          ∨ ∃ kw ∈ script.keywords,
            last_action memory calls kw = some .RCORDER_ACTION_KEEP) := by
  obtain ⟨hskip, hkeep⟩ := keep_script_loop_iff h.decided script.keywords
    .RCORDER_ACTION_NONE (by simp)
  simp only [h.ks, reduceCtorEq, false_or] at hskip hkeep
  rw [← h.keep_count_zero_iff]
  have hnotSkip : (∀ kw ∈ script.keywords,
        last_action memory calls kw ≠ some .RCORDER_ACTION_SKIP)
      ↔ keep_script_loop ro script.keywords .RCORDER_ACTION_NONE ≠ .RCORDER_ACTION_SKIP := by
    rw [ne_eq, hskip]
    push Not
    rfl
  unfold keep_script
  cases hloop : keep_script_loop ro script.keywords .RCORDER_ACTION_NONE with
  | RCORDER_ACTION_SKIP =>
      rw [hnotSkip, hloop]
      simp
  | RCORDER_ACTION_KEEP =>
      have hkept := hkeep.mp hloop
      simp only [beq_self_eq_true, Bool.true_or, true_iff]
      exact ⟨hkept.1, Or.inr hkept.2⟩
  | RCORDER_ACTION_NONE =>
      have hnone : ¬ ∃ kw ∈ script.keywords,
          last_action memory calls kw = some .RCORDER_ACTION_KEEP := by
        intro hex
        have := hkeep.mpr ⟨hnotSkip.mpr (by rw [hloop]; simp), hex⟩
        rw [hloop] at this
        exact absurd this (by simp)
      rw [hnotSkip, hloop]
      simp [hnone]

/-- **The keyword filter**, after any calls: the count is the number of the keywords
that were last kept, and a script goes through if none of its keywords was last skipped,
and, where some keyword is kept, one of its own is. -/
theorem rcorder_options_add_ks_filter (memory : UInt64 → Text) (calls : List ks_call) :
    (add_all memory rcorder_options_create calls).keep_count.toNat
        = { kw | last_action memory calls kw = some .RCORDER_ACTION_KEEP }.ncard
      ∧ ∀ script : rc_d_script_t,
        keep_script script (add_all memory rcorder_options_create calls) = true
          ↔ (∀ kw ∈ script.keywords, last_action memory calls kw ≠ some .RCORDER_ACTION_SKIP)
            ∧ ((∀ kw, last_action memory calls kw ≠ some .RCORDER_ACTION_KEEP)
              ∨ ∃ kw ∈ script.keywords,
                last_action memory calls kw = some .RCORDER_ACTION_KEEP) := by
  have htracks := add_all_tracks memory calls
  refine ⟨?_, keep_script_iff htracks⟩
  rw [htracks.keep_count_eq, htracks.ncard_kept]

end PkgPlugins.RcorderOptions
