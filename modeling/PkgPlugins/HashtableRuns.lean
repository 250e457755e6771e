/-
Runs of a hash table, next to an association list in the order of insertion.

The operations are `put` (with and without `HT_PUT_ON_DUP_KEY_PRESERVE`), `delete`,
`delete_node` (of the node that a loop over the table is at after some steps) and
`clear`. What they are for is said on a list of keys and values; the number of
buckets, which is a matter of the history of the table too, goes along with it.

The list and the table agree as long as two conditions hold: the array of the
buckets is one that can be asked for, and no hash has a bit from the 33rd on among
those of the mask, as the index of a bucket is kept in 32 bits.
-/
import PkgPlugins.HashtableOps
import PkgPlugins.NearestPower
import PkgPlugins.Prefixes

set_option autoImplicit false

namespace PkgPlugins.HashtableRuns

open PkgPlugins.Fallible PkgPlugins.Links PkgPlugins.Prefixes PkgPlugins.Hashtable
open PkgPlugins.HashtableChains PkgPlugins.HashtableOps

variable {K V : Type}

/-! ## Operations -/

inductive Op (K V : Type)
  | put (preserve : Bool) (key : K) (value : V)
  | delete (key : K)
  | delete_node (i : ℕ)
  | clear
deriving DecidableEq

section Runs

variable (hash : K → ℕ) (ef : K → K → Bool) (key_duper : K → K)

/-- One operation on a table. -/
def step (ht : HashTable K V) : Op K V → Except Fault (HashTable K V)
  | .put preserve key value => do
      let r ← hashtable_put hash ef key_duper ht preserve key value
      .ok r.1
  | .delete key => do
      let r ← hashtable_delete hash ef ht key
      .ok r.1
  | .delete_node i => do
      match ← node_at ht i ht.gHead with
      | none => .ok ht
      | some n => do
          let r ← hashtable_delete_node ht n
          .ok r.1
  | .clear => hashtable_clear ht

def run (ht : HashTable K V) : List (Op K V) → Except Fault (HashTable K V)
  | [] => .ok ht
  | op :: ops => do
      let ht ← step hash ef key_duper ht op
      run ht ops

/-! ## The association list -/

/-- What an operation is for, on a list of keys and values. -/
def list_step (es : List (K × V)) : Op K V → List (K × V)
  | .put preserve key value =>
      if es.any fun e => ef key e.1 then
        if preserve then es else es.map fun e => if ef key e.1 then (e.1, value) else e
      else es ++ [(key_duper key, value)]
  | .delete key => es.filter fun e => !ef key e.1
  | .delete_node i => es.eraseIdx i
  | .clear => []

/-- An association list, and the number of buckets of a table with its history. -/
structure Assoc (K V : Type) where
  entries : List (K × V)
  capacity : ℕ

def assoc_step (s : Assoc K V) (op : Op K V) : Assoc K V :=
  let entries := list_step ef key_duper s.entries op
  { entries := entries, capacity := grown s.capacity entries.length }

def assoc_run (s : Assoc K V) (ops : List (Op K V)) : Assoc K V :=
  ops.foldl (assoc_step ef key_duper) s

def assoc_init (capacity : ℕ) : Assoc K V :=
  { entries := [], capacity := nearest_power capacity HASHTABLE_MIN_SIZE }

/-! ## Refinement -/

/-- The table is made of chains: `as` through all the nodes, and `b i` through those
of the bucket `i`, which are the ones with this `hash & mask`. -/
structure Chained (ht : HashTable K V) (as : List ℕ) (b : ℕ → List ℕ) : Prop where
  head : ht.gHead = first as none
  tail : ht.gTail = last none as
  global : Chain ht.gNext ht.gPrev none as none
  nodup : as.Nodup
  heads : ∀ i < ht.capacity, ht.bucket i = .ok (first (b i) none)
  chains : ∀ i, Chain ht.nNext ht.nPrev none (b i) none
  nodups : ∀ i, (b i).Nodup
  place : ∀ i n, n ∈ b i ↔ n ∈ as ∧ ∃ c, ht.cells n = some c ∧ c.hash &&& ht.mask = i

/-- The table is the association list `es`. -/
structure Refines (ht : HashTable K V) (es : List (K × V)) : Prop where
  get : ∀ key, hashtable_get hash ef ht key = .ok ((es.find? fun e => ef key e.1).map Prod.snd)
  contains : ∀ key, hashtable_contains hash ef ht key = .ok (es.any fun e => ef key e.1)
  size : hashtable_size ht = es.length
  forward : forward ht = .ok es
  backward : backward ht = .ok es.reverse
  once : es.Pairwise fun e f => ef e.1 f.1 = false
  chained : ∃ as b, Chained ht as b

/-- The buckets can be asked for, and 32 bits are enough for their indexes. -/
def Fits (s : Assoc K V) : Prop :=
  s.capacity < 2 ^ 61 ∧ ∀ e ∈ s.entries, hash e.1 &&& (s.capacity - 1) < 2 ^ 32

instance (s : Assoc K V) : Decidable (Fits hash s) :=
  inferInstanceAs (Decidable (_ ∧ _))

/-- A well-formed table with the entries and the capacity of an association list. -/
def Simulates (ht : HashTable K V) (s : Assoc K V) : Prop :=
  ∃ ns, Valid hash ef ht ns ∧ entries ns = s.entries ∧ ht.capacity = s.capacity
    ∧ s.entries.length < s.capacity ∧ ∃ j, s.capacity = 2 ^ j

end Runs

variable {hash : K → ℕ} {ef : K → K → Bool} {key_duper : K → K} {ht : HashTable K V}
  {ns : List (ℕ × HashNode K V)} {s : Assoc K V}

/-! ## Entries -/

theorem length_entries (ns : List (ℕ × HashNode K V)) : (entries ns).length = ns.length :=
  List.length_map _

theorem find_entries (ns : List (ℕ × HashNode K V)) (key : K) :
    ((entries ns).find? fun e => ef key e.1).map Prod.snd
      = (ns.find? fun x => ef key x.2.key).map fun x => x.2.data := by
  rw [entries, List.find?_map, Option.map_map]
  rfl

theorem any_entries (ef : K → K → Bool) (ns : List (ℕ × HashNode K V)) (key : K) :
    ((entries ns).any fun e => ef key e.1) = (ns.find? fun x => ef key x.2.key).isSome := by
  rw [entries, List.any_map, List.isSome_find?]
  rfl

/-- A node of the table is the only one whose key equals a key that equals its. -/
theorem other_keys (h : Valid hash ef ht ns) (heq : KeyEquality hash ef key_duper) {key : K}
    {x y : ℕ × HashNode K V} (hx : x ∈ ns) (hkey : ef key x.2.key = true) (hy : y ∈ ns) :
    y.1 = x.1 ↔ ef key y.2.key = true := by
  constructor
  · intro hyx
    rw [List.inj_on_of_nodup_map h.nodup hy hx hyx]
    exact hkey
  · intro hkey'
    rw [h.eq_of_match heq hy hx hkey' hkey]

theorem entries_set_data (h : Valid hash ef ht ns) (heq : KeyEquality hash ef key_duper) {key : K}
    {x : ℕ × HashNode K V} (hx : x ∈ ns) (hkey : ef key x.2.key = true) (value : V) :
    entries (ns.map (set_data x.1 value))
      = (entries ns).map fun e => if ef key e.1 then (e.1, value) else e := by
  rw [entries, entries, List.map_map, List.map_map]
  refine List.map_congr_left fun y hy => ?_
  simp only [Function.comp_apply, set_data, other_keys h heq hx hkey hy]
  split <;> rfl

theorem entries_without {pre post : List (ℕ × HashNode K V)} {x : ℕ × HashNode K V}
    (h : Valid hash ef ht (pre ++ x :: post)) (heq : KeyEquality hash ef key_duper) {key : K}
    (hkey : ef key x.2.key = true) :
    entries (pre ++ post) = (entries (pre ++ x :: post)).filter fun e => !ef key e.1 := by
  have hx : x ∈ pre ++ x :: post := by simp
  have hnodup := h.nodup
  rw [List.map_append, List.map_cons, List.nodup_middle, List.nodup_cons, ← List.map_append]
    at hnodup
  have hother : ∀ y ∈ pre ++ post, ef key y.2.key = false := by
    intro y hy
    rw [← Bool.not_eq_true, ← other_keys h heq hx hkey]
    · exact fun heq' => hnodup.1 (heq' ▸ List.mem_map_of_mem hy)
    · exact ((List.sublist_cons_self x post).append_left pre).subset hy
  rw [entries, entries, List.filter_map]
  congr 1
  rw [List.filter_append, List.filter_cons_of_neg (by simp [hkey]), ← List.filter_append,
    List.filter_eq_self.mpr]
  intro y hy
  simp [hother y hy]

/-! ## Growing -/

theorem grown_eq {capacity n : ℕ} (hpos : 0 < capacity) (hlt : capacity < 2 ^ 61) :
    grown capacity n = if n < capacity then capacity else 2 * capacity := by
  unfold grown
  have hmod : capacity * 2 % 2 ^ 64 = 2 * capacity := by omega
  rw [hmod, if_pos (show 0 < 2 * capacity by omega)]

/-- A list that has got no longer needs no more buckets. -/
theorem grown_self {n capacity : ℕ} (h : n < capacity) : grown capacity n = capacity :=
  if_pos h

/-- There are buckets for fewer than `2 ^ 60` entries. -/
theorem grown_lt_iff {capacity n j : ℕ} (hpow : capacity = 2 ^ j) (hcap : capacity < 2 ^ 61)
    (hn : n ≤ capacity) : grown capacity n < 2 ^ 61 ↔ n < 2 ^ 60 := by
  subst hpow
  have hj : j < 61 := (Nat.pow_lt_pow_iff_right (by omega)).mp hcap
  have hle : 2 ^ j ≤ 2 ^ 60 := Nat.pow_le_pow_right (by omega) (by omega)
  rw [grown_eq (Nat.two_pow_pos j) hcap]
  split <;> omega

/-- There is no room for an array of the size of a larger power of two. -/
theorem allocated_of_le {n j : ℕ} (h : n = 2 ^ j) (hle : 2 ^ 61 ≤ n) :
    Hashtable.allocated n = 0 := by
  subst h
  have hj : 61 ≤ j := (Nat.pow_le_pow_iff_right (by omega)).mp hle
  obtain ⟨k, rfl⟩ := Nat.exists_eq_add_of_le hj
  have hmul : 8 * 2 ^ (61 + k) = 2 ^ 64 * 2 ^ k := by
    rw [Nat.pow_add]
    omega
  rw [Hashtable.allocated, hmul, Nat.mul_mod_right]

/-- An operation adds one entry at most. -/
theorem length_list_step_le (es : List (K × V)) (op : Op K V) :
    (list_step ef key_duper es op).length ≤ es.length + 1 := by
  cases op with
  | put preserve key value =>
      rw [list_step]
      split_ifs
      · exact Nat.le_succ _
      · rw [List.length_map]
        exact Nat.le_succ _
      · rw [List.length_append]
        exact le_refl _
  | delete key => exact (List.length_filter_le _ _).trans (Nat.le_succ _)
  | delete_node i => exact ((List.eraseIdx_sublist _ _).length_le).trans (Nat.le_succ _)
  | clear => exact Nat.zero_le _

/-- The buckets can be asked for after an operation if there are few entries then. -/
theorem Simulates.capacity_lt_iff (h : Simulates hash ef ht s) (hcap : s.capacity < 2 ^ 61)
    (op : Op K V) : (assoc_step ef key_duper s op).capacity < 2 ^ 61
      ↔ (list_step ef key_duper s.entries op).length < 2 ^ 60 := by
  obtain ⟨-, -, -, -, hlt, j, hj⟩ := h
  exact grown_lt_iff hj hcap ((length_list_step_le s.entries op).trans hlt)

/-- A table whose buckets can be asked for has few entries. -/
theorem Simulates.length_lt (h : Simulates hash ef ht s) (hcap : s.capacity < 2 ^ 61) :
    s.entries.length < 2 ^ 60 := by
  obtain ⟨-, -, -, -, hlt, j, hj⟩ := h
  have hgrown := grown_self hlt
  rw [← grown_lt_iff hj hcap hlt.le, hgrown]
  exact hcap

/-! ## One operation -/

theorem length_put_present {es : List (K × V)} {key : K}
    (hany : (es.any fun e => ef key e.1) = true) (preserve : Bool) (value : V) :
    (list_step ef key_duper es (.put preserve key value)).length = es.length := by
  rw [list_step, if_pos hany]
  split
  · rfl
  · exact List.length_map _

/-- An operation that adds no entry leaves the number of buckets as it is. -/
theorem Simulates.capacity_of_le (h : Simulates hash ef ht s) {op : Op K V}
    (hlen : (list_step ef key_duper s.entries op).length ≤ s.entries.length) :
    (assoc_step ef key_duper s op).capacity = s.capacity := by
  obtain ⟨-, -, -, -, hlt, -⟩ := h
  exact grown_self (hlen.trans_lt hlt)

theorem simulates_shrunk {ht' : HashTable K V} {ns' : List (ℕ × HashNode K V)} {op : Op K V}
    (h : Simulates hash ef ht s) (hvalid : Valid hash ef ht' ns')
    (hentries : entries ns' = list_step ef key_duper s.entries op)
    (hlen : (list_step ef key_duper s.entries op).length ≤ s.entries.length)
    (hcapacity : ht'.capacity = ht.capacity) :
    Simulates hash ef ht' (assoc_step ef key_duper s op) := by
  have hsame := h.capacity_of_le hlen
  obtain ⟨ns, -, -, hcap, hlt, hpow⟩ := h
  refine ⟨ns', hvalid, hentries, ?_, ?_, ?_⟩
  · rw [hcapacity, hcap, hsame]
  · rw [hsame]
    exact hlen.trans_lt hlt
  · rw [hsame]
    exact hpow

theorem put_present_simulates (h : Simulates hash ef ht s) (heq : KeyEquality hash ef key_duper)
    (hcap : s.capacity < 2 ^ 61) {key : K} (hany : (s.entries.any fun e => ef key e.1) = true)
    (preserve : Bool) (value : V) :
    ∃ ht', step hash ef key_duper ht (.put preserve key value) = .ok ht'
      ∧ Simulates hash ef ht' (assoc_step ef key_duper s (.put preserve key value)) := by
  have h' := h
  obtain ⟨ns, hvalid, hentries, hcapacity, hlt, -⟩ := h
  have hroom : Roomy ht := ⟨by omega, by omega⟩
  rw [← hentries, any_entries] at hany
  obtain ⟨x, hfind⟩ := Option.isSome_iff_exists.mp hany
  have hx := List.mem_of_find?_eq_some hfind
  have hkey : ef key x.2.key = true := by simpa using List.find?_some hfind
  have hlist : list_step ef key_duper s.entries (.put preserve key value)
      = if preserve then s.entries
        else s.entries.map fun e => if ef key e.1 then (e.1, value) else e := by
    rw [list_step, ← hentries, any_entries, if_pos hany]
  rw [step, hashtable_put_present hvalid heq hroom hfind preserve value, ok_bind]
  cases preserve with
  | true => exact ⟨ht, rfl, simulates_shrunk h' hvalid (by rw [hlist, hentries]; rfl)
      (by rw [hlist, if_pos rfl]) rfl⟩
  | false =>
      refine ⟨_, rfl, simulates_shrunk h' (valid_set_data hvalid hx value) ?_ ?_ rfl⟩
      · rw [hlist, entries_set_data hvalid heq hx hkey, hentries]
        rfl
      · rw [hlist, if_neg (by simp), List.length_map]

/-- **Doubling**: a table that was not full before its last entry has room for all of them,
or the buckets it needs are too many. -/
theorem maybe_resize_simulates {j : ℕ} (hvalid : Valid hash ef ht ns) (hne : ns ≠ [])
    (hle : ns.length ≤ ht.capacity) (hpow : ht.capacity = 2 ^ j) (hcap : ht.capacity < 2 ^ 61) :
    (grown ht.capacity ns.length < 2 ^ 61
        ∧ ∃ ht', hashtable_maybe_resize ht = .ok ht'
          ∧ Simulates hash ef ht' ⟨entries ns, grown ht.capacity ns.length⟩)
      ∨ (2 ^ 61 ≤ grown ht.capacity ns.length ∧ ∃ e, hashtable_maybe_resize ht = .error e) := by
  have hpos : 0 < ht.capacity := hpow ▸ Nat.two_pow_pos j
  have hcount := hvalid.count
  have hgrown : grown ht.capacity ns.length
      = if ns.length < ht.capacity then ht.capacity else 2 * ht.capacity := grown_eq hpos hcap
  by_cases hroom : grown ht.capacity ns.length < 2 ^ 61
  · left
    rw [← hcount] at hroom
    obtain ⟨ht', hresize, hvalid', hcapacity'⟩ := hashtable_maybe_resize_spec hvalid hpos hroom
    rw [hcount] at hroom hcapacity'
    refine ⟨hroom, ht', hresize, ns, hvalid', rfl, hcapacity', ?_, ?_⟩
    · show (entries ns).length < grown ht.capacity ns.length
      rw [length_entries, hgrown]
      split <;> omega
    · show ∃ j, grown ht.capacity ns.length = 2 ^ j
      rw [hgrown]
      split
      · exact ⟨j, hpow⟩
      · exact ⟨j + 1, by rw [hpow, Nat.pow_succ, Nat.mul_comm]⟩
  · right
    -- the buckets are to be doubled, which needs more than there can be
    have hfull : ¬ ns.length < ht.capacity := by
      intro hlt
      rw [hgrown, if_pos hlt] at hroom
      omega
    rw [hgrown, if_neg hfull] at hroom ⊢
    have hdouble : ht.capacity * 2 % 2 ^ 64 = 2 ^ (j + 1) := by
      rw [Nat.pow_succ]
      omega
    obtain ⟨e, herror⟩ := hashtable_maybe_resize_error hvalid hne (by omega) (by omega)
      (allocated_of_le hdouble (by omega))
    exact ⟨by omega, e, herror⟩

/-- A put under a new key faults just if there is no room for the buckets then. -/
theorem put_new_simulates (h : Simulates hash ef ht s) (heq : KeyEquality hash ef key_duper)
    (hcap : s.capacity < 2 ^ 61) {key : K} (hany : (s.entries.any fun e => ef key e.1) = false)
    (preserve : Bool) (value : V) :
    ((assoc_step ef key_duper s (.put preserve key value)).capacity < 2 ^ 61
        ∧ ∃ ht', step hash ef key_duper ht (.put preserve key value) = .ok ht'
          ∧ Simulates hash ef ht' (assoc_step ef key_duper s (.put preserve key value)))
      ∨ (2 ^ 61 ≤ (assoc_step ef key_duper s (.put preserve key value)).capacity
        ∧ ∃ e, step hash ef key_duper ht (.put preserve key value) = .error e) := by
  obtain ⟨ns, hvalid, hentries, hcapacity, hlt, j, hj⟩ := h
  have hroom : Roomy ht := ⟨by omega, by omega⟩
  have hfind : (ns.find? fun x => ef key x.2.key) = none := by
    rw [← hentries, any_entries] at hany
    simpa using hany
  obtain ⟨ht₁, hvalid₁, hcapacity₁, hput⟩ := hashtable_put_new hvalid heq hroom hfind preserve value
  generalize hns : ns ++ [(ht.brk, (⟨hash key, key_duper key, value⟩ : HashNode K V))] = ns₁
    at hvalid₁
  have hlen : ns₁.length = s.entries.length + 1 := by
    rw [← hns, List.length_append, ← length_entries ns, hentries]
    rfl
  have hlist : list_step ef key_duper s.entries (.put preserve key value) = entries ns₁ := by
    rw [list_step, hany, if_neg (by simp), ← hentries, ← hns]
    simp [entries]
  -- the entry is counted before the buckets are
  have hstep : assoc_step ef key_duper s (.put preserve key value)
      = ⟨entries ns₁, grown ht₁.capacity ns₁.length⟩ := by
    rw [assoc_step, hlist, length_entries, hcapacity₁, hcapacity]
  rw [hstep, step, hput]
  have hpow : ht₁.capacity = 2 ^ j := hcapacity₁.trans (hcapacity.trans hj)
  rcases maybe_resize_simulates hvalid₁ (List.ne_nil_of_length_eq_add_one hlen) (by omega)
      hpow (by omega) with
    ⟨hlt', ht₂, hresize, hsim⟩ | ⟨hle', e, herror⟩
  · exact Or.inl ⟨hlt', ht₂, by rw [hresize, ok_bind, ok_bind], hsim⟩
  · exact Or.inr ⟨hle', e, by rw [herror, error_bind, error_bind]⟩

theorem delete_simulates (h : Simulates hash ef ht s) (heq : KeyEquality hash ef key_duper)
    (hcap : s.capacity < 2 ^ 61) (key : K) :
    ∃ ht', step hash ef key_duper ht (.delete key) = .ok ht'
      ∧ Simulates hash ef ht' (assoc_step ef key_duper s (.delete key)) := by
  have h' := h
  obtain ⟨ns, hvalid, hentries, hcapacity, hlt, -⟩ := h
  have hroom : Roomy ht := ⟨by omega, by omega⟩
  have hlen : (list_step ef key_duper s.entries (.delete key)).length ≤ s.entries.length :=
    List.length_filter_le _ _
  rw [step, hashtable_delete_eq hvalid heq hroom, ok_bind]
  cases hfind : ns.find? fun x => ef key x.2.key with
  | none =>
      refine ⟨ht, rfl, simulates_shrunk h' hvalid ?_ hlen rfl⟩
      rw [list_step, ← hentries, List.filter_eq_self.mpr]
      have hany := any_entries ef ns key
      rw [hfind, Option.isSome_none, List.any_eq_false] at hany
      intro e he
      simpa using hany e he
  | some x =>
      obtain ⟨pre, post, rfl⟩ := List.append_of_mem (List.mem_of_find?_eq_some hfind)
      have hkey : ef key x.2.key = true := by simpa using List.find?_some hfind
      refine ⟨_, rfl, simulates_shrunk h' (valid_without hvalid) ?_ hlen rfl⟩
      rw [entries_without hvalid heq hkey, hentries]
      rfl

theorem delete_node_simulates (h : Simulates hash ef ht s) (hcap : s.capacity < 2 ^ 61) (i : ℕ) :
    ∃ ht', step hash ef key_duper ht (.delete_node i) = .ok ht'
      ∧ Simulates hash ef ht' (assoc_step ef key_duper s (.delete_node i)) := by
  have h' := h
  obtain ⟨ns, hvalid, hentries, hcapacity, hlt, -⟩ := h
  have hroom : Roomy ht := ⟨by omega, by omega⟩
  have hlen : (list_step ef key_duper s.entries (.delete_node i)).length ≤ s.entries.length :=
    (List.eraseIdx_sublist _ _).length_le
  rw [step, node_at_spec hvalid, ok_bind]
  cases hnode : ns[i]? with
  | none =>
      refine ⟨ht, rfl, simulates_shrunk h' hvalid ?_ hlen rfl⟩
      have hle : s.entries.length ≤ i := by
        rw [← hentries, length_entries]
        exact List.getElem?_eq_none_iff.mp hnode
      rw [list_step, List.eraseIdx_of_length_le hle, hentries]
  | some x =>
      obtain ⟨hi, hget⟩ := List.getElem?_eq_some_iff.mp hnode
      have hsplit : ns = ns.take i ++ x :: ns.drop (i + 1) := by
        rw [← hget, List.cons_getElem_drop_succ, List.take_append_drop]
      have hvalid' := hvalid
      rw [hsplit] at hvalid'
      rw [Option.map_some]
      simp only
      rw [hashtable_delete_node_eq hvalid hroom (List.mem_of_getElem? hnode), ok_bind]
      refine ⟨_, rfl, simulates_shrunk h' (valid_without hvalid') ?_ hlen rfl⟩
      rw [list_step, ← hentries, List.eraseIdx_eq_take_drop_succ, entries, entries,
        List.map_append, List.map_take, List.map_drop]

theorem clear_simulates (h : Simulates hash ef ht s) :
    ∃ ht', step hash ef key_duper ht .clear = .ok ht'
      ∧ Simulates hash ef ht' (assoc_step ef key_duper s .clear) := by
  have h' := h
  obtain ⟨ns, hvalid, -, -, -, -⟩ := h
  obtain ⟨ht', hclear, hvalid', hcapacity⟩ := hashtable_clear_spec hvalid
  exact ⟨ht', hclear, simulates_shrunk h' hvalid' rfl (Nat.zero_le _) hcapacity⟩

/-- **One operation**: the table goes along with the association list as long as the
buckets can be asked for, and faults otherwise. -/
theorem step_simulates (h : Simulates hash ef ht s) (heq : KeyEquality hash ef key_duper)
    (hcap : s.capacity < 2 ^ 61) (op : Op K V) :
    ((assoc_step ef key_duper s op).capacity < 2 ^ 61
        ∧ ∃ ht', step hash ef key_duper ht op = .ok ht'
          ∧ Simulates hash ef ht' (assoc_step ef key_duper s op))
      ∨ (2 ^ 61 ≤ (assoc_step ef key_duper s op).capacity
        ∧ ∃ e, step hash ef key_duper ht op = .error e) := by
  have hkept : (list_step ef key_duper s.entries op).length ≤ s.entries.length →
      (assoc_step ef key_duper s op).capacity < 2 ^ 61 :=
    fun hlen => (h.capacity_of_le hlen).trans_lt hcap
  cases op with
  | put preserve key value =>
      by_cases hany : (s.entries.any fun e => ef key e.1) = true
      · exact Or.inl ⟨hkept (length_put_present hany preserve value).le,
          put_present_simulates h heq hcap hany preserve value⟩
      · rw [Bool.not_eq_true] at hany
        exact put_new_simulates h heq hcap hany preserve value
  | delete key => exact Or.inl ⟨hkept (List.length_filter_le _ _), delete_simulates h heq hcap key⟩
  | delete_node i =>
      exact Or.inl ⟨hkept (List.eraseIdx_sublist _ _).length_le, delete_node_simulates h hcap i⟩
  | clear => exact Or.inl ⟨hkept (Nat.zero_le _), clear_simulates h⟩

/-! ## One table -/

/-- A well-formed table that has room for its buckets, with 32 bits for their
indexes, is the association list of its entries. -/
theorem refines_of_fits (h : Simulates hash ef ht s) (heq : KeyEquality hash ef key_duper)
    (hfits : Fits hash s) : Refines hash ef ht s.entries := by
  obtain ⟨ns, hvalid, hentries, hcapacity, hlt, -⟩ := h
  obtain ⟨hcap, hindex⟩ := hfits
  have hroom : Roomy ht := ⟨by omega, by omega⟩
  have hanswers := hashtable_get_contains_spec hvalid heq hroom
  obtain ⟨hforward, hbackward⟩ := forward_backward_spec hvalid
  obtain ⟨b, hb⟩ := hvalid.buckets
  have hsize : ht.size = ht.capacity := by rw [hvalid.size, allocated_of_lt hroom.2]
  rw [← hentries]
  constructor
  case get =>
    intro key
    rw [(hanswers key).1, find_entries]
  case contains =>
    intro key
    rw [(hanswers key).2, any_entries]
  case size =>
    rw [hashtable_size, hvalid.count, length_entries]
  case forward =>
    exact hforward
  case backward =>
    exact hbackward
  case once =>
    rw [entries, List.pairwise_map]
    exact hvalid.keys
  case chained =>
    refine ⟨ns.map Prod.fst, b, hvalid.head, hvalid.tail, hvalid.global, hvalid.nodup, ?_, hb.chains,
      hb.nodup, fun i n => ?_⟩
    · intro i hi
      rw [HashTable.bucket, if_pos (by omega), hb.heads i (by omega)]
    · rw [hb.mem]
      refine and_congr_right fun hn => ?_
      obtain ⟨c, hx, hc⟩ := hvalid.mem_of_fst hn
      -- the index of this node isn't cut off
      have hfit : ht.index c.hash = c.hash &&& ht.mask := by
        have he : (c.key, c.data) ∈ s.entries := hentries ▸ List.mem_map_of_mem hx
        have hlt32 := hindex _ he
        rw [← hvalid.hashes _ hx, ← hcapacity, ← hvalid.mask] at hlt32
        exact Nat.mod_eq_of_lt hlt32
      rw [HashtableChains.place, hc, Option.map_some, hfit]
      simp

/-- A well-formed table that is an association list has room for its buckets, and
32 bits are enough for their indexes. -/
theorem fits_of_refines (h : Simulates hash ef ht s) (hrefines : Refines hash ef ht s.entries) :
    Fits hash s := by
  obtain ⟨ns, hvalid, hentries, hcapacity, hlt, j, hj⟩ := h
  obtain ⟨as, b, hchained⟩ := hrefines.chained
  have hcap : s.capacity < 2 ^ 61 := by
    by_contra hge
    have hsize := hvalid.size
    rw [hcapacity, allocated_of_le hj (by omega)] at hsize
    have hhead := hchained.heads 0 (by omega)
    rw [HashTable.bucket, if_neg (by omega)] at hhead
    exact absurd hhead (by simp)
  refine ⟨hcap, fun e he => ?_⟩
  rw [← hentries] at he
  obtain ⟨x, hx, rfl⟩ := List.mem_map.mp he
  have hroom : Roomy ht := ⟨by omega, by omega⟩
  have hindex := hvalid.index_lt hroom x.2.hash
  obtain ⟨b', hb'⟩ := hvalid.buckets
  -- both descriptions give this bucket the same nodes
  have hsame : b (ht.index x.2.hash) = b' (ht.index x.2.hash) := by
    refine (hchained.chains _).path.unique (hb'.chains _).path ?_
    have hhead := hchained.heads (ht.index x.2.hash) (by
      rw [hvalid.size, allocated_of_lt hroom.2] at hindex
      exact hindex)
    rw [hvalid.bucket hroom, Except.ok.injEq] at hhead
    rw [← hhead, hb'.heads _ hindex]
  have hmem : x.1 ∈ b (ht.index x.2.hash) := by
    rw [hsame, hb'.mem]
    exact ⟨List.mem_map_of_mem hx, hvalid.place_eq hx⟩
  obtain ⟨-, c, hc, hplace⟩ := (hchained.place _ _).mp hmem
  rw [hvalid.cells x hx, Option.some.injEq] at hc
  subst hc
  show hash x.2.key &&& (s.capacity - 1) < 2 ^ 32
  rw [← hvalid.hashes x hx, ← hcapacity, ← hvalid.mask, hplace]
  exact Nat.mod_lt _ (by omega)

/-! ## Runs -/

/-- Before the first operation. -/
theorem run_nil_refines_iff (h : Simulates hash ef ht s) (heq : KeyEquality hash ef key_duper) :
    (∃ ht', run hash ef key_duper ht [] = .ok ht'
        ∧ Refines hash ef ht' (assoc_run ef key_duper s []).entries)
      ↔ Fits hash (assoc_run ef key_duper s []) := by
  constructor
  · rintro ⟨ht', hrun, hrefines⟩
    rw [run, Except.ok.injEq] at hrun
    subst hrun
    exact fits_of_refines h hrefines
  · exact fun hfits => ⟨ht, rfl, refines_of_fits h heq hfits⟩

/-- A run from a well-formed table: the table is the association list after every
operation just if that list always fits. -/
theorem run_refines_iff (heq : KeyEquality hash ef key_duper) (ops : List (Op K V)) :
    ∀ {ht : HashTable K V} {s : Assoc K V}, Simulates hash ef ht s →
      ((∀ pre, pre <+: ops → ∃ ht', run hash ef key_duper ht pre = .ok ht'
          ∧ Refines hash ef ht' (assoc_run ef key_duper s pre).entries)
        ↔ ∀ pre, pre <+: ops → Fits hash (assoc_run ef key_duper s pre)) := by
  induction ops with
  | nil =>
      intro ht s h
      simp only [List.prefix_nil, forall_eq]
      exact run_nil_refines_iff h heq
  | cons op ops ih =>
      intro ht s h
      rw [forall_prefix_cons, forall_prefix_cons, run_nil_refines_iff h heq]
      refine and_congr_right fun hfits => ?_
      rcases step_simulates h heq hfits.1 op with ⟨-, ht', hstep, h'⟩ | ⟨hle, e, herror⟩
      · simp only [run, hstep, ok_bind]
        exact ih h'
      · -- neither holds after this operation
        constructor
        · intro hall
          obtain ⟨ht', hrun, -⟩ := hall [] List.nil_prefix
          rw [run, herror, error_bind] at hrun
          exact absurd hrun (by simp)
        · intro hall
          exact absurd (hall [] List.nil_prefix).1 (Nat.not_lt.mpr hle)

theorem init_simulates (capacity : ℕ) (nodes : ℕ → Ptr) :
    Simulates hash ef (hashtable_init capacity nodes : HashTable K V) (assoc_init capacity) := by
  have hrounds : NearestPower.Rounds capacity HASHTABLE_MIN_SIZE := NearestPower.rounds (by decide)
  obtain ⟨j, -, hj⟩ := hrounds.power
  refine ⟨[], hashtable_init_spec capacity nodes, rfl, rfl, ?_, j, hj⟩
  show 0 < nearest_power capacity HASHTABLE_MIN_SIZE
  rw [hj]
  exact Nat.two_pow_pos j

/-- **A hash table is an association list in the order of insertion** after every
operation of a run that starts with `hashtable_init`, just if its buckets could
always be asked for and 32 bits were always enough for their indexes: the
`uint32_t` that holds `hash & mask` cuts a longer one off, and the size of an array
of `2 ^ 61` buckets overflows. -/
theorem hashtable_refines_iff (hash : K → ℕ) (ef : K → K → Bool) (key_duper : K → K)
    (heq : KeyEquality hash ef key_duper) (capacity : ℕ) (nodes : ℕ → Ptr)
    (ops : List (Op K V)) :
    (∀ pre, pre <+: ops →
        ∃ ht, run hash ef key_duper (hashtable_init capacity nodes) pre = .ok ht
          ∧ Refines hash ef ht (assoc_run ef key_duper (assoc_init capacity) pre).entries)
      ↔ ∀ pre, pre <+: ops → Fits hash (assoc_run ef key_duper (assoc_init capacity) pre) :=
  run_refines_iff heq ops (init_simulates capacity nodes)

/-- Numbers as keys and as their own hashes, as in `value_hash` and `value_equal`. -/
theorem value_equal_keys : KeyEquality id (fun a b : ℕ => a == b) id := by
  constructor
  · constructor <;> simp_all
  · simp
  · simp

/-- Keys of one bucket are put in, one is replaced, one kept, one deleted, and the
first node is deleted in a loop. -/
theorem collisions_refine : KeyEquality id (fun a b : ℕ => a == b) id
    ∧ ∀ pre, pre <+: [.put false 1 10, .put false 9 20, .put true 1 30, .put false 17 40,
        .put false 9 50, .delete 17, .delete_node 0, (.clear : Op ℕ ℕ)] →
      ∃ ht, run id (fun a b => a == b) id (hashtable_init 0 fun _ => none) pre = .ok ht
        ∧ Refines id (fun a b => a == b) ht
          (assoc_run (fun a b => a == b) id (assoc_init 0) pre).entries := by
  refine ⟨value_equal_keys,
    (hashtable_refines_iff id _ id value_equal_keys 0 (fun _ => none) _).mpr ?_⟩
  simp only [← List.mem_inits]
  decide

/-- In a table of `2 ^ 33` buckets, the key whose hash is `2 ^ 32` is not in the
bucket of that number. -/
theorem high_hash_misplaced : ¬ ∀ pre, pre <+: [(.put false (2 ^ 32) 0 : Op ℕ ℕ)] →
    ∃ ht, run id (fun a b => a == b) id (hashtable_init (2 ^ 33) fun _ => none) pre = .ok ht
      ∧ Refines id (fun a b => a == b) ht
        (assoc_run (fun a b => a == b) id (assoc_init (2 ^ 33)) pre).entries := by
  rw [run_refines_iff value_equal_keys _ (init_simulates _ _)]
  simp only [← List.mem_inits]
  decide

end PkgPlugins.HashtableRuns
