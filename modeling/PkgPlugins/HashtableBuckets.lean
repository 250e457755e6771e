/-
The number of buckets of a hash table, in any run.

After `hashtable_init` and any operations the capacity is a power of two and the mask one
less (`Masked`), so that `hash & mask` is below the capacity, whatever the keys are and
`ef` and `hf` compute. That it is the index of a bucket (`Indexes`) is another matter:
`sizeof(*ht->nodes) * capacity` overflows from `2 ^ 61` buckets on, where neither
`HALF_SIZE` nor the test of `capacity << 1` stops the table, and no bucket is left.
`hashtable_indexes_iff` says which runs get there.
-/
import PkgPlugins.HashtableRekey

set_option autoImplicit false

namespace PkgPlugins.HashtableBuckets

open PkgPlugins.Fallible PkgPlugins.Links PkgPlugins.Prefixes PkgPlugins.Hashtable
open PkgPlugins.HashtableChains PkgPlugins.HashtableOps PkgPlugins.HashtableRuns
open PkgPlugins.HashtableRekey

variable {K V : Type}

/-! ## Capacity, mask and buckets -/

/-- The capacity is a power of two that a `size_t` holds, and the mask goes with it. -/
structure Masked (ht : HashTable K V) : Prop where
  power : ∃ j < 64, ht.capacity = 2 ^ j
  mask : ht.mask = ht.capacity - 1
  below : ∀ h, h &&& ht.mask < ht.capacity

/-- There is a bucket at `hash & mask`, also once a `uint32_t` holds it. -/
structure Indexes (ht : HashTable K V) : Prop extends Masked ht where
  bucket : ∀ h, ∃ p, ht.bucket (h &&& ht.mask) = .ok p
  index : ∀ h, ∃ p, ht.bucket (ht.index h) = .ok p

/-- The operation adds a key, and there are `2 ^ 60` then. -/
def Overfills (hash : K → ℕ) (ef : K → K → Bool) (ht : HashTable K V) (op : Op K V) : Prop :=
  Adds hash ef ht op ∧ 2 ^ 60 ≤ ht.count + 1

section Buckets

variable {ht : HashTable K V} {s : Assoc (ℕ × ℕ) V}

theorem count_eq (h : Shaped ht s) : ht.count = s.entries.length := by
  obtain ⟨ns, hvalid, hentries, -, -, -⟩ := h
  rw [← hentries, length_entries]
  exact hvalid.count

theorem masked_of_mask {j : ℕ} (hj : j < 64) (hcapacity : ht.capacity = 2 ^ j)
    (hmask : ht.mask = ht.capacity - 1) : Masked ht := by
  refine ⟨⟨j, hj, hcapacity⟩, hmask, fun k => ?_⟩
  have hand : k &&& ht.mask ≤ ht.mask := Nat.and_le_right
  have hpos := Nat.two_pow_pos j
  omega

theorem masked (h : Shaped ht s) (hle : s.capacity ≤ 2 ^ 63) : Masked ht := by
  obtain ⟨ns, hvalid, -, hcapacity, -, j, hj⟩ := h
  have hj' : j ≤ 63 := (Nat.pow_le_pow_iff_right Nat.one_lt_two).mp (hj ▸ hle)
  exact masked_of_mask (by omega) (hcapacity.trans hj) hvalid.mask

/-- The array has a bucket for each index just if its size hasn't overflowed. -/
theorem indexes_iff (h : Shaped ht s) (hle : s.capacity ≤ 2 ^ 63) :
    Indexes ht ↔ s.capacity < 2 ^ 61 := by
  have hmasked := masked h hle
  obtain ⟨ns, hvalid, -, hcapacity, -, j, hj⟩ := h
  have hcap : ht.capacity = s.capacity := hcapacity
  have hsize : ht.size = Hashtable.allocated ht.capacity := hvalid.size
  constructor
  · intro hindexes
    by_contra hge
    obtain ⟨p, hp⟩ := hindexes.bucket 0
    rw [hcap, allocated_of_le hj (by omega)] at hsize
    rw [HashTable.bucket, if_neg (by omega)] at hp
    cases hp
  · intro hlt
    rw [allocated_of_lt (by omega)] at hsize
    refine ⟨hmasked, fun k => ?_, fun k => ?_⟩
    · have hbelow := hmasked.below k
      exact ⟨ht.nodes (k &&& ht.mask), if_pos (by omega)⟩
    · have hbelow := hmasked.below k
      have hmod : ht.index k ≤ k &&& ht.mask := Nat.mod_le _ _
      exact ⟨ht.nodes (ht.index k), if_pos (by omega)⟩

/-! ## Doubling -/

/-- The buckets are as many as before. -/
def Keeps (ht ht' : HashTable K V) : Prop := ht'.capacity = ht.capacity ∧ ht'.mask = ht.mask

theorem Keeps.trans {ht₁ ht₂ ht₃ : HashTable K V} (h : Keeps ht₁ ht₂) (h' : Keeps ht₂ ht₃) :
    Keeps ht₁ ht₃ :=
  ⟨h'.1.trans h.1, h'.2.trans h.2⟩

theorem keeps_of_ok {ht' ht'' : HashTable K V}
    (hok : (Except.ok ht' : Except Fault (HashTable K V)) = .ok ht'') (h : Keeps ht ht') :
    Keeps ht ht'' :=
  Except.ok.inj hok ▸ h

theorem link_bucket_keeps {ht' : HashTable K V} {n index : ℕ}
    (h : link_bucket ht n index = .ok ht') : Keeps ht ht' := by
  obtain ⟨head, -, hset⟩ := bind_eq_ok h
  cases head with
  | none => exact keeps_of_ok hset ⟨rfl, rfl⟩
  | some q =>
      simp only [HashTable.unless_null] at hset
      split at hset
      · exact keeps_of_ok hset ⟨rfl, rfl⟩
      · cases hset

theorem set_bucket_keeps {ht' : HashTable K V} {index : ℕ} {p : Ptr}
    (h : ht.set_bucket index p = .ok ht') : Keeps ht ht' := by
  rw [HashTable.set_bucket] at h
  split at h
  · exact keeps_of_ok h ⟨rfl, rfl⟩
  · cases h

/-- The nodes find their places in the buckets that there are. -/
theorem hashtable_rehash_loop_keeps {ht' : HashTable K V} (fuel : ℕ) :
    ∀ {ht : HashTable K V} {p : Ptr}, hashtable_rehash_loop fuel ht p = .ok ht' →
      Keeps ht ht' := by
  induction fuel with
  | zero =>
      intro ht p h
      cases p <;> cases h
  | succ fuel ih =>
      intro ht p h
      cases p with
      | none => exact keeps_of_ok h ⟨rfl, rfl⟩
      | some n =>
          obtain ⟨c, -, hlink⟩ := bind_eq_ok h
          obtain ⟨ht₁, hlink, hset⟩ := bind_eq_ok hlink
          obtain ⟨ht₂, hset, hloop⟩ := bind_eq_ok hset
          exact ((link_bucket_keeps hlink).trans (set_bucket_keeps hset)).trans (ih hloop)

theorem hashtable_rehash_keeps {ht' : HashTable K V} (h : hashtable_rehash ht = .ok ht') :
    Keeps ht ht' := by
  rw [hashtable_rehash] at h
  split at h
  · exact keeps_of_ok h ⟨rfl, rfl⟩
  · exact @hashtable_rehash_loop_keeps K V ht' (ht.brk + 1) ht.memset _ h

/-- **A doubling** goes from a power of two to the next, but for the last one that there is:
`capacity << 1` is zero there, and the capacity stays. -/
theorem Masked.maybe_resize {ht' : HashTable K V} (h : Masked ht)
    (hok : hashtable_maybe_resize ht = .ok ht') : Masked ht' := by
  obtain ⟨j, hj, hcapacity⟩ := h.power
  rw [hashtable_maybe_resize] at hok
  split at hok
  · rwa [← Except.ok.inj hok]
  · split at hok
    next hpos =>
      have hdouble : ht.capacity * 2 = 2 ^ (j + 1) := by rw [hcapacity, Nat.pow_succ]
      have hlast : j + 1 < 64 := by
        by_contra hlast
        obtain rfl : j = 63 := by omega
        rw [hdouble, Nat.mod_self] at hpos
        exact absurd hpos (Nat.lt_irrefl 0)
      have hlt : 2 ^ (j + 1) < 2 ^ 64 := Nat.pow_lt_pow_right Nat.one_lt_two hlast
      have hmod : ht.capacity * 2 % 2 ^ 64 = 2 ^ (j + 1) := by rw [hdouble, Nat.mod_eq_of_lt hlt]
      obtain ⟨hcapacity', hmask'⟩ := hashtable_rehash_keeps hok
      exact masked_of_mask hlast (hcapacity'.trans hmod) (hmask'.trans (by rw [hcapacity']))
    next => rwa [← Except.ok.inj hok]

/-! ## One operation -/

/-- The table is well formed, whatever its keys are, and there is room for its buckets. -/
def Roomed (ht : HashTable K V) : Prop :=
  ∃ s, Shaped ht s ∧ s.capacity < 2 ^ 61

/-- Without room for buckets a table stays empty. -/
def Kept (ht : HashTable K V) : Prop :=
  ∃ s, Shaped ht s ∧ (s.capacity < 2 ^ 61 ∨ s.entries = [] ∧ s.capacity ≤ 2 ^ 63)

variable {hash : K → ℕ} {ef : K → K → Bool} {key_duper : K → K}

/-- **One operation with room** faults just if it overfills the table. -/
theorem Roomed.outcome (h : Roomed ht) (op : Op K V) :
    (¬ Overfills hash ef ht op ∧ ∃ ht', step hash ef key_duper ht op = .ok ht' ∧ Roomed ht'
        ∧ ht'.count ≤ ht.count + 1)
      ∨ (Overfills hash ef ht op ∧ ∃ e, step hash ef key_duper ht op = .error e) := by
  obtain ⟨s, hsim, hcap⟩ := h
  obtain ⟨op', hstep, hadds, hkept⟩ := @step_follows K V hash ef key_duper ht s hsim hcap op
  have hcount := count_eq hsim
  have hfew := hsim.length_lt hcap
  -- it is about the entries of the other table
  have hover : Overfills hash ef ht op
      ↔ 2 ^ 60 ≤ (list_step (fun a b => a == b) id s.entries op').length := by
    rw [Overfills, hcount]
    by_cases hadd : Adds hash ef ht op
    · rw [hadds hadd]
      exact and_iff_right hadd
    · have hlen := hkept hadd
      refine iff_of_false (fun hboth => hadd hboth.1) ?_
      omega
  have hroom := @Simulates.capacity_lt_iff _ V Prod.snd _ id _ s hsim hcap op'
  rcases step_simulates hsim addresses_keys hcap op' with
    ⟨hlt, ht', hok, hsim'⟩ | ⟨hle, e, herror⟩
  · left
    rw [hok] at hstep
    obtain ⟨ht', hok', rfl⟩ := of_map_ok hstep
    have hlen := hroom.mp hlt
    refine ⟨fun h => ?_, ht', hok', ⟨_, hsim', hlt⟩, ?_⟩
    · have hle := hover.mp h
      omega
    · rw [count_eq hsim', hcount]
      exact length_list_step_le s.entries op'
  · right
    rw [herror] at hstep
    refine ⟨hover.mpr (Nat.not_lt.mp fun hlen => ?_), e, of_map_error hstep⟩
    exact absurd (hroom.mpr hlen) (Nat.not_lt.mpr hle)

theorem Roomed.of_step (h : Roomed ht) {op : Op K V} {ht' : HashTable K V}
    (hstep : step hash ef key_duper ht op = .ok ht') : Roomed ht' ∧ ht'.count ≤ ht.count + 1 := by
  rcases @Roomed.outcome K V ht hash ef key_duper h op with
    ⟨-, ht₁, hok, hnext, hcount⟩ | ⟨-, e, herror⟩
  · obtain rfl : ht₁ = ht' := Except.ok.inj (hok.symm.trans hstep)
    exact ⟨hnext, hcount⟩
  · rw [herror] at hstep
    cases hstep

/-- Without room nothing can be put into the table, and nothing else changes it. -/
theorem step_without_room (h : Shaped ht s) (hle : 2 ^ 61 ≤ s.capacity) (hnil : s.entries = [])
    {op : Op K V} {ht' : HashTable K V}
    (hstep : step hash ef key_duper ht op = .ok ht') : Shaped ht' s := by
  obtain ⟨ns, hvalid, hentries, hcapacity, hlt, j, hj⟩ := h
  obtain rfl : ns = [] := List.map_eq_nil_iff.mp (hentries.trans hnil)
  have hsize : ht.size = 0 := by
    have hsize : ht.size = Hashtable.allocated ht.capacity := hvalid.size
    have hcap : ht.capacity = s.capacity := hcapacity
    rw [hsize, hcap, allocated_of_le hj hle]
  have hbucket : ∀ k, ht.bucket (ht.index k) = .error (.bounds (ht.index k)) :=
    fun k => if_neg (by omega)
  cases op with
  | put preserve key value =>
      obtain ⟨r, hput, -⟩ := bind_eq_ok hstep
      obtain ⟨head, hhead, -⟩ := bind_eq_ok hput
      rw [hbucket] at hhead
      cases hhead
  | delete key =>
      obtain ⟨r, hdelete, -⟩ := bind_eq_ok hstep
      obtain ⟨head, hhead, -⟩ := bind_eq_ok hdelete
      rw [hbucket] at hhead
      cases hhead
  | delete_node i =>
      have hhead : ht.gHead = none := hvalid.head
      have hnode : node_at ht i none = .ok none := by cases i <;> rfl
      rw [step, hhead, hnode, ok_bind, Except.ok.injEq] at hstep
      rw [← hstep]
      exact ⟨[], hvalid, hentries, hcapacity, hlt, j, hj⟩
  | clear =>
      obtain ⟨ht₁, hclear, hvalid₁, hcapacity₁⟩ := hashtable_clear_spec hvalid
      have hrekey := hashtable_clear_rekey ht
      rw [show hashtable_clear ht = .ok ht' from hstep, hclear] at hrekey
      obtain rfl : rekey ht' = ht₁ := Except.ok.inj hrekey
      exact ⟨[], hvalid₁, hentries, hcapacity₁.trans hcapacity, hlt, j, hj⟩

theorem Kept.of_step (h : Kept ht) {op : Op K V} {ht' : HashTable K V}
    (hstep : step hash ef key_duper ht op = .ok ht') : Kept ht' := by
  obtain ⟨s, hsim, hroom⟩ := h
  by_cases hlt : s.capacity < 2 ^ 61
  · have hroomed : Roomed ht := ⟨s, hsim, hlt⟩
    obtain ⟨s', hsim', hlt'⟩ := (hroomed.of_step hstep).1
    exact ⟨s', hsim', Or.inl hlt'⟩
  · have hnil := hroom.resolve_left hlt
    exact ⟨s, step_without_room hsim (by omega) hnil.1 hstep, Or.inr hnil⟩

theorem Kept.masked (h : Kept ht) : Masked ht := by
  obtain ⟨s, hsim, hroom⟩ := h
  exact HashtableBuckets.masked hsim (by omega)

/-! ## Runs -/

/-- Where a run is at the end, if it is anywhere. -/
theorem run_kept (ops : List (Op K V)) : ∀ {ht ht' : HashTable K V}, Kept ht →
    run hash ef key_duper ht ops = .ok ht' → Kept ht' := by
  induction ops with
  | nil =>
      intro ht ht' h hrun
      rw [run, Except.ok.injEq] at hrun
      rwa [← hrun]
  | cons op ops ih =>
      intro ht ht' h hrun
      obtain ⟨ht₁, hstep, hrest⟩ := bind_eq_ok hrun
      exact ih (h.of_step hstep) hrest

theorem run_count_le (ops : List (Op K V)) : ∀ {ht ht' : HashTable K V}, Roomed ht →
    run hash ef key_duper ht ops = .ok ht' → ht'.count ≤ ht.count + ops.length := by
  induction ops with
  | nil =>
      intro ht ht' _ hrun
      rw [run, Except.ok.injEq] at hrun
      rw [← hrun]
      exact le_refl _
  | cons op ops ih =>
      intro ht ht' h hrun
      obtain ⟨ht₁, hstep, hrest⟩ := bind_eq_ok hrun
      obtain ⟨hnext, hcount⟩ := h.of_step hstep
      have hcounts := ih hnext hrest
      rw [List.length_cons]
      omega

theorem Roomed.indexes (h : Roomed ht) : Indexes ht := by
  obtain ⟨s, hsim, hlt⟩ := h
  exact (indexes_iff hsim (by omega)).mpr hlt

/-- A run from a table with room has it at every point just if no operation overfills the
table. -/
theorem run_indexes_iff (ops : List (Op K V)) : ∀ {ht : HashTable K V}, Roomed ht →
    ((∀ done, done <+: ops → ∃ ht', run hash ef key_duper ht done = .ok ht' ∧ Indexes ht')
      ↔ ∀ done op, done ++ [op] <+: ops → ∀ ht', run hash ef key_duper ht done = .ok ht' →
        ¬ Overfills hash ef ht' op) := by
  induction ops with
  | nil =>
      intro ht h
      refine iff_of_true (fun done hdone => ?_) fun done op hdone => ?_
      · rw [List.prefix_nil.mp hdone]
        exact ⟨ht, rfl, h.indexes⟩
      · exact absurd (List.prefix_nil.mp hdone) (by simp)
  | cons op ops ih =>
      intro ht h
      rw [forall_prefix_cons, forall_operation_cons]
      rcases @Roomed.outcome K V ht hash ef key_duper h op with
        ⟨hnot, ht₁, hok, hnext, -⟩ | ⟨hover, e, herror⟩
      · refine and_congr (iff_of_true ⟨ht, rfl, h.indexes⟩ ?_) ?_
        · intro ht' hrun
          obtain rfl : ht = ht' := Except.ok.inj hrun
          exact hnot
        · simp only [run, hok, ok_bind]
          exact ih hnext
      · -- this operation faults
        refine iff_of_false (fun hall => ?_) fun hall => hall.1 ht rfl hover
        obtain ⟨ht', hrun, -⟩ := hall.2 [] List.nil_prefix
        rw [run, herror, error_bind] at hrun
        cases hrun

end Buckets

/-! ## From the start -/

section Start

variable {hash : K → ℕ} {ef : K → K → Bool} {key_duper : K → K}

/-- A new table has no keys. -/
theorem init_rekey (capacity : ℕ) (nodes : ℕ → Ptr) :
    Shaped (hashtable_init capacity nodes : HashTable K V) (assoc_init capacity) :=
  init_simulates capacity nodes

theorem init_le (capacity : ℕ) : (assoc_init capacity : Assoc K V).capacity ≤ 2 ^ 63 := by
  have hrounds : NearestPower.Rounds capacity HASHTABLE_MIN_SIZE := NearestPower.rounds (by decide)
  obtain ⟨j, hj, hpow⟩ := hrounds.power
  show nearest_power capacity HASHTABLE_MIN_SIZE ≤ 2 ^ 63
  rw [hpow]
  exact Nat.pow_le_pow_right Nat.two_pos (by omega)

theorem init_roomed {capacity : ℕ} (hle : capacity ≤ 2 ^ 60) (nodes : ℕ → Ptr) :
    Roomed (hashtable_init capacity nodes : HashTable K V) :=
  ⟨_, init_rekey capacity nodes, (NearestPower.nearest_power_lt_iff (by decide)).mpr hle⟩

/-- Less than `2 ^ 60` operations can't add that many keys. -/
theorem not_overfills_of_short {capacity : ℕ} (hle : capacity ≤ 2 ^ 60) (nodes : ℕ → Ptr)
    {ops : List (Op K V)} (hlen : ops.length < 2 ^ 60) {done : List (Op K V)} {op : Op K V}
    (hdone : done ++ [op] <+: ops) {ht : HashTable K V}
    (hrun : run hash ef key_duper (hashtable_init capacity nodes) done = .ok ht) :
    ¬ Overfills hash ef ht op := by
  intro hover
  have hcount : ht.count ≤ 0 + done.length := run_count_le done (init_roomed hle nodes) hrun
  have hfew := hdone.length_le
  have hmany := hover.2
  rw [List.length_append, List.length_singleton] at hfew
  omega

/-- So a run of so few always has its buckets. -/
theorem short_run_indexes {capacity : ℕ} (hle : capacity ≤ 2 ^ 60) (nodes : ℕ → Ptr)
    {ops : List (Op K V)} (hlen : ops.length < 2 ^ 60) : ∀ done, done <+: ops →
      ∃ ht, run hash ef key_duper (hashtable_init capacity nodes) done = .ok ht ∧ Indexes ht :=
  (run_indexes_iff ops (init_roomed hle nodes)).mpr fun _ _ hdone _ hrun =>
    not_overfills_of_short hle nodes hlen hdone hrun

end Start

/-- **`nearest_power` rounds up to a power of two**, and the capacity of a table is one at every
point of a run, with its mask. The index of a bucket it gives **as long as there are less than
`2 ^ 61` of them**: just if no more than `2 ^ 60` are asked for, and no put makes a full table
of so many buckets double them. -/
theorem hashtable_indexes_iff (requested_length : ℕ) {minimal : ℕ} (hminimal : minimal ≤ 2 ^ 63)
    (hash : K → ℕ) (ef : K → K → Bool) (key_duper : K → K) (capacity : ℕ) (nodes : ℕ → Ptr)
    (ops : List (Op K V)) :
    NearestPower.Rounds requested_length minimal
      ∧ (∀ ht, run hash ef key_duper (hashtable_init capacity nodes) ops = .ok ht → Masked ht)
      ∧ (∀ ht ht' : HashTable K V, Masked ht → hashtable_maybe_resize ht = .ok ht' → Masked ht')
      ∧ ((∀ done, done <+: ops →
          ∃ ht, run hash ef key_duper (hashtable_init capacity nodes) done = .ok ht ∧ Indexes ht)
        ↔ capacity ≤ 2 ^ 60 ∧ ∀ done op, done ++ [op] <+: ops → ∀ ht,
          run hash ef key_duper (hashtable_init capacity nodes) done = .ok ht →
            ¬ Overfills hash ef ht op) := by
  have hinit := @init_rekey K V capacity nodes
  have hle63 := @init_le (ℕ × ℕ) V capacity
  refine ⟨NearestPower.rounds hminimal, fun ht hrun => ?_, fun _ _ h hok => h.maybe_resize hok, ?_⟩
  · exact (run_kept ops ⟨_, hinit, Or.inr ⟨rfl, hle63⟩⟩ hrun).masked
  · by_cases hle : capacity ≤ 2 ^ 60
    · rw [run_indexes_iff ops (init_roomed hle nodes)]
      exact (and_iff_right hle).symm
    · refine iff_of_false (fun hall => ?_) fun hall => hle hall.1
      obtain ⟨ht, hrun, hindexes⟩ := hall [] List.nil_prefix
      rw [← Except.ok.inj hrun, indexes_iff hinit hle63] at hindexes
      exact hle ((NearestPower.nearest_power_lt_iff (by decide)).mp hindexes)

/-- Eight keys, a ninth that makes the table double, and a deletion. -/
def nine_keys : List (Op ℕ ℕ) :=
  [.put false 1 10, .put false 2 10, .put false 3 10, .put false 4 10, .put true 5 10,
    .put false 6 10, .put false 7 10, .put false 8 10, .put false 9 10, .delete 5]

theorem nine_keys_indexes : NearestPower.Rounds 3 8
    ∧ ∀ done, done <+: nine_keys →
      ∃ ht, run id (fun a b => a == b) id (hashtable_init 3 fun _ => none) done = .ok ht
        ∧ Indexes ht := by
  have hall := @hashtable_indexes_iff ℕ ℕ 3 8 (by decide) id (fun a b => a == b) id 3
    (fun _ => none) nine_keys
  refine ⟨hall.1, hall.2.2.2.mpr ⟨by decide, fun done op hdone ht hrun => ?_⟩⟩
  exact not_overfills_of_short (by decide) (fun _ => none) (by decide) hdone hrun

/-- A table for one key more than `2 ^ 60` has `2 ^ 61` buckets by its capacity, and none in
memory. -/
theorem large_table_unindexed :
    run id (fun a b => a == b) id (hashtable_init (2 ^ 60 + 1) fun _ => none)
        [(.put false 1 10 : Op ℕ ℕ)] = .error (.bounds 1)
      ∧ ¬ ∀ done, done <+: [(.put false 1 10 : Op ℕ ℕ)] →
        ∃ ht, run id (fun a b => a == b) id (hashtable_init (2 ^ 60 + 1) fun _ => none) done
          = .ok ht ∧ Indexes ht := by
  have hput : run id (fun a b => a == b) id (hashtable_init (2 ^ 60 + 1) fun _ => none)
      [(.put false 1 10 : Op ℕ ℕ)] = .error (.bounds 1) := rfl
  refine ⟨hput, fun hall => ?_⟩
  obtain ⟨ht, hrun, -⟩ := hall _ (List.prefix_refl _)
  rw [hput] at hrun
  cases hrun

end PkgPlugins.HashtableBuckets
