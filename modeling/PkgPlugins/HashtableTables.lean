/-
The tables of the services plugin are hash tables (`kissc/hashtable.c`).

`services_db.c`, `services_selection.c` and `rcorder.c` keep scripts, keywords, provisions,
packages, services and options in hash tables, from which nothing is deleted. What they
make of them rests on `Table`, the finite map that remembers the order of its insertions;
here it is shown to be what such a hash table holds, after any operations, and for any hash
function: how the keys are spread over the buckets is not to be seen from outside.
-/
import PkgPlugins.AssocTable
import PkgPlugins.HashtableUnion

set_option autoImplicit false

namespace PkgPlugins.HashtableTables

open PkgPlugins.AssocTable PkgPlugins.Links PkgPlugins.Hashtable PkgPlugins.HashtableChains
open PkgPlugins.HashtableOps PkgPlugins.HashtableRuns
open PkgPlugins.HashtableUnion hiding Table

variable {K V : Type} [DecidableEq K]

/-! ## What is stored -/

/-- Keys that are equal if they are the same, as addresses are, or strings to `strcmp`. -/
def same (a b : K) : Bool := a = b

@[simp] theorem same_iff (a b : K) : same a b = true ↔ a = b := by simp [same]

theorem same_keys (hash : K → ℕ) : KeyEquality hash same id where
  equivalence := by
    simp only [same_iff]
    exact eq_equivalence
  hash_eq a b h := by rw [(same_iff a b).mp h]
  copy k := by simp

/-- A well-formed hash table with the entries of the table, in their order. -/
def Stores (hash : K → ℕ) (ht : HashTable K V) (t : Table K V) : Prop :=
  Represents hash same ht t.entries

theorem lookup_eq (es : List (K × V)) (k : K) : lookup same es k = getEntry es k := by
  induction es with
  | nil => rfl
  | cons e es ih =>
      rw [lookup_cons, getEntry, ih]
      by_cases hk : e.1 = k
      · rw [if_pos hk, if_pos ((same_iff _ _).mpr hk.symm)]
        rfl
      · rw [if_neg hk, if_neg (by simpa using Ne.symm hk)]
        rfl

theorem any_eq_contains (t : Table K V) (k : K) :
    (t.entries.any fun e => same k e.1) = t.contains k := by
  rw [← lookup_isSome, lookup_eq]
  rfl

section Stored

variable {hash : K → ℕ} {ht : HashTable K V} {t : Table K V}

theorem Stores.get (h : Stores hash ht t) (k : K) :
    hashtable_get hash same ht k = .ok (t.get k) := by
  rw [(Represents.answers h (same_keys hash) k).1, lookup_eq]
  rfl

theorem Stores.contains (h : Stores hash ht t) (k : K) :
    hashtable_contains hash same ht k = .ok (t.contains k) := by
  rw [(Represents.answers h (same_keys hash) k).2, any_eq_contains]

/-- An iterator over the hash table comes by the entries in the order of their insertion. -/
theorem Stores.forward (h : Stores hash ht t) : Hashtable.forward ht = .ok t.entries :=
  Represents.forward h

theorem Stores.size (h : Stores hash ht t) : hashtable_size ht = t.entries.length := by
  obtain ⟨ns, hvalid, -, hentries⟩ := Represents.nodes h
  rw [hashtable_size, hvalid.count, ← length_entries, hentries]

theorem Stores.length_lt (h : Stores hash ht t) : t.entries.length < 2 ^ 60 :=
  Represents.length_lt h

/-! ## What is put -/

/-- A put that replaces. -/
theorem list_step_put (t : Table K V) (k : K) (v : V) :
    list_step same id t.entries (.put false k v) = (t.put k v).entries := by
  rw [list_step, any_eq_contains]
  cases hcontains : t.contains k with
  | false =>
      have hnew : k ∉ t.keys := by
        rw [← t.contains_iff, hcontains]
        simp
      rw [if_neg (by simp), t.entries_put_of_notMem hnew]
      rfl
  | true =>
      obtain ⟨v₀, hget⟩ := Option.isSome_iff_exists.mp hcontains
      obtain ⟨l, r, hes, hput⟩ := t.entries_put_of_get hget v
      have hnodup := t.nodup
      rw [hes, List.map_append, List.map_cons, List.nodup_middle, List.nodup_cons,
        ← List.map_append] at hnodup
      -- no other entry has the key
      have hother : ∀ e ∈ l ++ r, (if same k e.1 then (e.1, v) else e) = e := by
        intro e he
        have hne : ¬ same k e.1 = true := by
          intro heq
          apply hnodup.1
          show k ∈ (l ++ r).map Prod.fst
          rw [(same_iff _ _).mp heq]
          exact List.mem_map_of_mem he
        rw [if_neg hne]
      rw [if_pos rfl, if_neg (by simp), hput, hes, List.map_append, List.map_cons,
        List.map_congr_left fun e he => hother e (List.mem_append_left _ he),
        List.map_congr_left fun e he => hother e (List.mem_append_right _ he)]
      simp

/-- A put that preserves. -/
theorem list_step_putNew (t : Table K V) (k : K) (v : V) :
    list_step same id t.entries (.put true k v) = (t.putNew k v).entries := by
  rw [Table.putNew]
  cases hcontains : t.contains k with
  | true => rw [list_step, any_eq_contains, hcontains, if_pos rfl, if_pos rfl, if_pos rfl]
  | false =>
      have hsame : list_step same id t.entries (.put true k v)
          = list_step same id t.entries (.put false k v) := by
        rw [list_step, list_step, any_eq_contains, hcontains]
        rfl
      rw [hsame, list_step_put, if_neg (by simp)]

/-- **A put**: the hash table goes on storing the table, as long as there can be buckets. -/
theorem Stores.put (h : Stores hash ht t) (preserve : Bool) (k : K) (v : V) {t' : Table K V}
    (hentries : list_step same id t.entries (.put preserve k v) = t'.entries)
    (hroom : t.entries.length + 1 < 2 ^ 60) :
    ∃ ht' b, hashtable_put hash same id ht preserve k v = .ok (ht', b) ∧ Stores hash ht' t' := by
  obtain ⟨-, ht₁, b, hput, hnext⟩ | ⟨hle, -⟩ := Represents.put h (same_keys hash) preserve k v
  · rw [hentries] at hnext
    exact ⟨ht₁, b, hput, hnext⟩
  · have hlen : (list_step same id t.entries (.put preserve k v)).length ≤ t.entries.length + 1 :=
      length_list_step_le t.entries (.put preserve k v)
    omega

end Stored

/-! ## Runs -/

/-- What is done to a table. -/
inductive Call (K V : Type)
  | put (k : K) (v : V)
  | putNew (k : K) (v : V)

/-- The call of the hash table. -/
def Call.op : Call K V → Op K V
  | .put k v => .put false k v
  | .putNew k v => .put true k v

/-- Its effect on the table. -/
def Call.apply (t : Table K V) : Call K V → Table K V
  | .put k v => t.put k v
  | .putNew k v => t.putNew k v

theorem list_step_op (t : Table K V) (c : Call K V) :
    list_step same id t.entries c.op = (c.apply t).entries := by
  cases c with
  | put k v => exact list_step_put t k v
  | putNew k v => exact list_step_putNew t k v

theorem Stores.call {hash : K → ℕ} {ht : HashTable K V} {t : Table K V} (h : Stores hash ht t)
    (c : Call K V) (hroom : t.entries.length + 1 < 2 ^ 60) :
    ∃ ht', step hash same id ht c.op = .ok ht' ∧ Stores hash ht' (c.apply t) := by
  cases c with
  | put k v =>
      obtain ⟨ht', b, hput, hnext⟩ := h.put false k v (list_step_put t k v) hroom
      exact ⟨ht', by rw [Call.op, step, hput]; rfl, hnext⟩
  | putNew k v =>
      obtain ⟨ht', b, hput, hnext⟩ := h.put true k v (list_step_putNew t k v) hroom
      exact ⟨ht', by rw [Call.op, step, hput]; rfl, hnext⟩

theorem stores_init (hash : K → ℕ) {capacity : ℕ} (hle : capacity ≤ 2 ^ 60) (nodes : ℕ → Ptr) :
    Stores hash (hashtable_init capacity nodes : HashTable K V) Table.empty :=
  ⟨_, init_simulates capacity nodes, rfl, (NearestPower.nearest_power_lt_iff (by decide)).mpr hle⟩

theorem run_stores (hash : K → ℕ) (calls : List (Call K V)) :
    ∀ {ht : HashTable K V} {t : Table K V}, Stores hash ht t →
      t.entries.length + calls.length < 2 ^ 60 →
      ∃ ht', run hash same id ht (calls.map Call.op) = .ok ht'
        ∧ Stores hash ht' (calls.foldl Call.apply t) := by
  induction calls with
  | nil => exact fun {ht t} h _ => ⟨ht, rfl, h⟩
  | cons c calls ih =>
      intro ht t h hroom
      rw [List.length_cons] at hroom
      obtain ⟨ht₁, hstep, hnext⟩ := h.call c (by omega)
      have hlen : (c.apply t).entries.length ≤ t.entries.length + 1 := by
        rw [← list_step_op]
        exact length_list_step_le t.entries c.op
      obtain ⟨ht', hrest, hstored⟩ := ih hnext (by omega)
      refine ⟨ht', ?_, hstored⟩
      rw [List.map_cons, run, hstep]
      exact hrest

/-- **A hash table is a table.** After any calls on a new hash table, of any size and with
any hash function, the answers of `hashtable_get`, `hashtable_contains` and `hashtable_size`
are those of the table that the calls make, and an iterator comes by its entries in their
order. -/
theorem hash_table_is_table (hash : K → ℕ) {capacity : ℕ} (hle : capacity ≤ 2 ^ 60)
    (nodes : ℕ → Ptr) (calls : List (Call K V)) (hlength : calls.length < 2 ^ 60) :
    ∃ ht, run hash same id (hashtable_init capacity nodes) (calls.map Call.op) = .ok ht
      ∧ (∀ k, hashtable_get hash same ht k = .ok ((calls.foldl Call.apply Table.empty).get k))
      ∧ (∀ k, hashtable_contains hash same ht k
        = .ok ((calls.foldl Call.apply Table.empty).contains k))
      ∧ hashtable_size ht = (calls.foldl Call.apply (Table.empty : Table K V)).entries.length
      ∧ Hashtable.forward ht = .ok (calls.foldl Call.apply Table.empty).entries := by
  have hroom : (Table.empty : Table K V).entries.length + calls.length < 2 ^ 60 := by
    show 0 + calls.length < 2 ^ 60
    omega
  obtain ⟨ht, hrun, hstored⟩ := run_stores hash calls (stores_init hash hle nodes) hroom
  exact ⟨ht, hrun, hstored.get, hstored.contains, hstored.size, hstored.forward⟩

/-! ## Keys of one bucket -/

/-- The keys of eight options, one replaced and one kept, with a hash that tells none of them
apart. -/
def options : List (Call ℕ ℕ) :=
  [.put 1 10, .put 2 20, .putNew 1 30, .put 2 40, .put 3 50, .put 4 60, .put 5 70, .put 6 80,
    .put 7 90, .put 8 100]

theorem one_bucket : ∃ ht, run (fun _ => 0) same id (hashtable_init 0 fun _ => none)
      (options.map Call.op) = .ok ht
    ∧ Hashtable.forward ht = .ok [(1, 10), (2, 40), (3, 50), (4, 60), (5, 70), (6, 80), (7, 90),
      (8, 100)] := by
  obtain ⟨ht, hrun, -, -, -, hforward⟩ := hash_table_is_table (fun _ => 0) (Nat.zero_le (2 ^ 60))
    (fun _ => none) options (by decide)
  exact ⟨ht, hrun, hforward⟩

end PkgPlugins.HashtableTables
