/-
`hashtable_equals` (`kissc/hashtable.c`).

The loop goes one way: it looks up each entry of the first table in the second, and the
counts are compared before it. That decides whether the tables answer alike in both
ways, as the keys of a table are different: a table that has all the keys of another and
no more of them has no others.

A key is looked up with the hash that the first table keeps of it, so that tables of two
hash functions are equal only if these agree on the keys. Values are compared as keys
are, by `ef`; here they are of the type of the keys. The assertion that the tables share
`ef` is a matter of the caller.
-/
import PkgPlugins.HashtableUnion
import Mathlib.Data.Option.Defs
import Mathlib.Data.Quot

set_option autoImplicit false

namespace PkgPlugins.HashtableEquals

open PkgPlugins.Fallible PkgPlugins.Links PkgPlugins.Hashtable PkgPlugins.HashtableChains
open PkgPlugins.HashtableOps PkgPlugins.HashtableRuns PkgPlugins.HashtableUnion

variable {K : Type}

/-! ## The comparison -/

section Comparison

variable (ef : K → K → Bool)

/-- The loop; `equals` ends it. -/
def equals_loop (ht1 ht2 : HashTable K K) : ℕ → Bool → Ptr → Except Fault Bool
  | 0, _, _ => .error .diverges
  | _ + 1, false, _ => .ok false
  | _ + 1, true, none => .ok true
  | fuel + 1, true, some n => do
      let c ← ht1.node n
      let data ← hashtable_quick_get ef ht2 c.hash c.key
      equals_loop ht1 ht2 fuel (data.any fun data => ef c.data data) (ht1.gNext n)

def hashtable_equals (ht1 ht2 : HashTable K K) : Except Fault Bool :=
  equals_loop ef ht1 ht2 (ht1.brk + 2) (ht1.count = ht2.count) ht1.gHead

/-- Each key has equal values in the two tables, or none in both. -/
def Alike (hash1 hash2 : K → ℕ) (ht1 ht2 : HashTable K K) : Prop :=
  ∀ key, ∃ v w, hashtable_get hash1 ef ht1 key = .ok v ∧ hashtable_get hash2 ef ht2 key = .ok w
    ∧ Option.Rel (fun a b => ef a b = true) v w

end Comparison

/-! ## Entries -/

section Entries

variable {hash : K → ℕ} {ef : K → K → Bool}

/-- Keys up to equality. -/
def keys (heq : KeyEquality hash ef id) : Setoid K := ⟨fun a b => ef a b = true, heq.equivalence⟩

/-- The keys of entries, up to equality. -/
def key_classes (heq : KeyEquality hash ef id) (es : List (K × K)) : List (Quotient (keys heq)) :=
  es.map fun e => Quotient.mk (keys heq) e.1

theorem mem_key_classes (heq : KeyEquality hash ef id) {es : List (K × K)} {key : K} :
    Quotient.mk (keys heq) key ∈ key_classes heq es ↔ (lookup ef es key).isSome = true := by
  rw [lookup_isSome, List.any_eq_true, key_classes, List.mem_map]
  constructor
  · rintro ⟨e, he, hclass⟩
    exact ⟨e, he, heq.equivalence.symm (Quotient.exact hclass)⟩
  · rintro ⟨e, he, hkey⟩
    exact ⟨e, he, Quotient.sound (heq.equivalence.symm hkey)⟩

theorem key_classes_nodup (heq : KeyEquality hash ef id) {es : List (K × K)}
    (honce : es.Pairwise fun e f => ef e.1 f.1 = false) : (key_classes heq es).Nodup := by
  rw [key_classes, List.nodup_iff_pairwise_ne, List.pairwise_map]
  refine honce.imp ?_
  intro e f hne hclass
  have hequal : ef e.1 f.1 = true := Quotient.exact hclass
  rw [hequal] at hne
  exact absurd hne (by simp)

/-- The values under the key of each of the entries of the first list. -/
def Found (ef : K → K → Bool) (es1 es2 : List (K × K)) : Prop :=
  ∀ e ∈ es1, ∃ v, lookup ef es2 e.1 = some v ∧ ef e.2 v = true

theorem isSome_eq_of_rel {r : K → K → Prop} {a b : Option K} (h : Option.Rel r a b) :
    a.isSome = b.isSome := by
  cases h <;> rfl

/-- **One way is both ways**: where each entry of a list is found in another of the same
length, no key of the other is missing in the first. -/
theorem found_iff (heq : KeyEquality hash ef id) {es1 es2 : List (K × K)}
    (honce1 : es1.Pairwise fun e f => ef e.1 f.1 = false)
    (honce2 : es2.Pairwise fun e f => ef e.1 f.1 = false) :
    es1.length = es2.length ∧ Found ef es1 es2
      ↔ ∀ key, Option.Rel (fun a b => ef a b = true) (lookup ef es1 key) (lookup ef es2 key) := by
  have hlength : ∀ es, (key_classes heq es).length = es.length := fun es => List.length_map _
  constructor
  · rintro ⟨hlen, hfound⟩ key
    have hsub : key_classes heq es1 ⊆ key_classes heq es2 := by
      intro q hq
      obtain ⟨e, he, rfl⟩ := List.mem_map.mp hq
      obtain ⟨v, hv, -⟩ := hfound e he
      rw [mem_key_classes, hv]
      rfl
    have hperm : (key_classes heq es1).Perm (key_classes heq es2) :=
      ((key_classes_nodup heq honce1).subperm hsub).perm_of_length_le
        (by rw [hlength, hlength, hlen])
    cases hkey : es1.find? fun e => ef key e.1 with
    | none =>
        have hnone : lookup ef es1 key = none := by rw [lookup, hkey, Option.map_none]
        have hother : lookup ef es2 key = none := by
          rw [← Option.not_isSome_iff_eq_none, ← mem_key_classes heq, ← hperm.mem_iff,
            mem_key_classes, hnone]
          simp
        rw [hnone, hother]
        exact Option.Rel.none
    | some e =>
        have he := List.mem_of_find?_eq_some hkey
        have hequal : ef key e.1 = true := by simpa using List.find?_some hkey
        obtain ⟨v, hv, hvalue⟩ := hfound e he
        rw [lookup_congr heq hequal, lookup_congr heq hequal, lookup_of_mem heq honce1 he, hv]
        exact Option.Rel.some hvalue
  · intro halike
    have hsome : ∀ key, (lookup ef es1 key).isSome = (lookup ef es2 key).isSome :=
      fun key => isSome_eq_of_rel (halike key)
    refine ⟨?_, fun e he => ?_⟩
    · have hperm : (key_classes heq es1).Perm (key_classes heq es2) := by
        rw [List.perm_ext_iff_of_nodup (key_classes_nodup heq honce1)
          (key_classes_nodup heq honce2)]
        intro q
        induction q using Quotient.inductionOn with
        | h key => rw [mem_key_classes, mem_key_classes, hsome]
      rw [← hlength es1, ← hlength es2, hperm.length_eq]
    · have hrel := halike e.1
      rw [lookup_of_mem heq honce1 he] at hrel
      cases hv : lookup ef es2 e.1 with
      | none =>
          rw [hv] at hrel
          cases hrel
      | some v =>
          rw [hv] at hrel
          cases hrel with
          | some hvalue => exact ⟨v, rfl, hvalue⟩

end Entries

/-! ## The loop -/

section Loop

variable {hash1 hash2 : K → ℕ} {ef : K → K → Bool} {ht1 ht2 : HashTable K K}
  {ns : List (ℕ × HashNode K K)} {es1 es2 : List (K × K)}

/-- **A look-up with some hash** finds the node of the key if it is the hash of the key,
and nothing else. -/
theorem hashtable_quick_get_spec {hash : K → ℕ} {ht : HashTable K K} (h : Valid hash ef ht ns)
    (heq : KeyEquality hash ef id) (hroom : Roomy ht) (k : ℕ) (key : K) :
    hashtable_quick_get ef ht k key
      = .ok (if hash key = k then lookup ef (entries ns) key else none) := by
  by_cases hk : hash key = k
  · rw [if_pos hk, ← hk, lookup, find_entries]
    exact (hashtable_get_contains_spec h heq hroom key).1
  · obtain ⟨b, hb⟩ := h.buckets
    have hsub : b (ht.index k) ⊆ ns.map Prod.fst := fun n hn => ((hb.mem _ n).mp hn).1
    have hlive : ∀ n ∈ b (ht.index k), ∃ c, ht.cells n = some c := by
      intro n hn
      obtain ⟨c, -, hc⟩ := h.mem_of_fst (hsub hn)
      exact ⟨c, hc⟩
    have hlen := h.length_le (hb.nodup _) hsub
    have hnone : (b (ht.index k)).find? (tests ef ht k key) = none := by
      rw [List.find?_eq_none]
      intro n hn htest
      obtain ⟨c, hx, hc⟩ := h.mem_of_fst (hsub hn)
      have htest' : c.hash = k ∧ ef key c.key = true := by simpa [tests, hc] using htest
      -- the node keeps the hash of its key
      apply hk
      rw [← htest'.1, h.hashes (n, c) hx, heq.hash_eq _ _ htest'.2]
    rw [if_neg hk, hashtable_quick_get, h.bucket hroom, ok_bind, hb.heads _ (h.index_lt hroom _),
      bucket_find_chain k key _ _ none (hb.chains _) hlive (by omega), hnone, ok_bind]

/-- The entry is found in the second table, with an equal value. -/
def matched (hash1 hash2 : K → ℕ) (ef : K → K → Bool) (es2 : List (K × K)) (e : K × K) : Bool :=
  hash2 e.1 = hash1 e.1 && (lookup ef es2 e.1).any fun v => ef e.2 v

/-- The rest of the loop: whether all the nodes ahead are found. -/
theorem equals_loop_spec (heq2 : KeyEquality hash2 ef id) (h2 : Represents hash2 ef ht2 es2)
    (ns : List (ℕ × HashNode K K)) : ∀ (fuel : ℕ) (equals : Bool),
      Path ht1.gNext (ns.map Prod.fst) → (∀ x ∈ ns, ht1.cells x.1 = some x.2) →
      (∀ x ∈ ns, x.2.hash = hash1 x.2.key) → ns.length + 1 < fuel →
      equals_loop ef ht1 ht2 fuel equals (first (ns.map Prod.fst) none)
        = .ok (equals && (entries ns).all (matched hash1 hash2 ef es2)) := by
  obtain ⟨ns2, hvalid2, hroom2, hentries2⟩ := h2.nodes
  induction ns with
  | nil =>
      intro fuel equals _ _ _ hfuel
      obtain ⟨fuel, rfl⟩ := Nat.exists_eq_succ_of_ne_zero (Nat.ne_of_gt (Nat.zero_lt_of_lt hfuel))
      cases equals <;> rfl
  | cons x ns ih =>
      intro fuel equals hpath hcells hhashes hfuel
      obtain ⟨fuel, rfl⟩ := Nat.exists_eq_succ_of_ne_zero (Nat.ne_of_gt (Nat.zero_lt_of_lt hfuel))
      rw [List.length_cons] at hfuel
      rw [List.forall_mem_cons] at hcells hhashes
      rw [List.map_cons] at hpath ⊢
      cases equals with
      | false => rfl
      | true =>
          have hstep : ((if hash2 x.2.key = hash1 x.2.key then lookup ef es2 x.2.key else none).any
              fun data => ef x.2.data data) = matched hash1 hash2 ef es2 (x.2.key, x.2.data) := by
            unfold matched
            by_cases hhash : hash2 x.2.key = hash1 x.2.key
            · simp [hhash]
            · simp [hhash]
          rw [first_cons, equals_loop, node_ok hcells.1, ok_bind,
            hashtable_quick_get_spec hvalid2 heq2 hroom2, hentries2, ok_bind, hhashes.1, hstep,
            hpath.1, ih fuel _ hpath.2 hcells.2 hhashes.2 (by omega)]
          rfl

/-- What `hashtable_equals` computes. -/
theorem hashtable_equals_spec (h1 : Represents hash1 ef ht1 es1)
    (heq2 : KeyEquality hash2 ef id) (h2 : Represents hash2 ef ht2 es2) :
    hashtable_equals ef ht1 ht2
      = .ok (es1.length = es2.length && es1.all (matched hash1 hash2 ef es2)) := by
  obtain ⟨ns1, hentries1, hvalid1, -, hhead, hpath, hlen⟩ := h1.walk
  obtain ⟨ns2, hvalid2, -, hentries2⟩ := h2.nodes
  rw [hashtable_equals, hhead,
    equals_loop_spec heq2 h2 ns1 _ _ hpath hvalid1.cells hvalid1.hashes (by omega), hentries1,
    hvalid1.count, hvalid2.count, ← length_entries ns1, ← length_entries ns2, hentries1, hentries2]

theorem all_matched_iff : es1.all (matched hash1 hash2 ef es2) = true
    ↔ Found ef es1 es2 ∧ ∀ e ∈ es1, hash2 e.1 = hash1 e.1 := by
  rw [List.all_eq_true, Found, ← forall₂_and]
  refine forall₂_congr fun e _ => ?_
  simp [matched, Option.any_eq_true, and_comm]

/-- **`hashtable_equals` returns true** if and only if the tables answer alike under each
key, and their hash functions agree on the keys that are there. -/
theorem hashtable_equals_iff (heq1 : KeyEquality hash1 ef id) (heq2 : KeyEquality hash2 ef id)
    (h1 : Represents hash1 ef ht1 es1) (h2 : Represents hash2 ef ht2 es2) :
    ∃ equals, hashtable_equals ef ht1 ht2 = .ok equals
      ∧ (equals = true ↔ Alike ef hash1 hash2 ht1 ht2 ∧ ∀ e ∈ es1, hash2 e.1 = hash1 e.1) := by
  refine ⟨_, hashtable_equals_spec h1 heq2 h2, ?_⟩
  have halike : Alike ef hash1 hash2 ht1 ht2
      ↔ ∀ key, Option.Rel (fun a b => ef a b = true) (lookup ef es1 key) (lookup ef es2 key) := by
    refine forall_congr' fun key => ?_
    rw [(h1.answers heq1 key).1, (h2.answers heq2 key).1]
    simp
  rw [Bool.and_eq_true, decide_eq_true_eq, all_matched_iff, halike,
    ← found_iff heq1 h1.once h2.once, and_assoc]

end Loop

/-! ## Tables with a history -/

section Histories

variable {hash : K → ℕ} {ef : K → K → Bool}

/-- The entries that operations leave. -/
def recorded (ef : K → K → Bool) (ops : List (Op K K)) : List (K × K) :=
  ops.foldl (list_step ef id) []

/-- A run that comes to its end leaves a well-formed table. -/
theorem run_represents (heq : KeyEquality hash ef id) (ops : List (Op K K)) :
    ∀ {ht ht' : HashTable K K} {es : List (K × K)}, Represents hash ef ht es →
      run hash ef id ht ops = .ok ht' →
      Represents hash ef ht' (ops.foldl (list_step ef id) es) := by
  induction ops with
  | nil =>
      intro ht ht' es h hrun
      rw [run, Except.ok.injEq] at hrun
      exact hrun ▸ h
  | cons op ops ih =>
      intro ht ht' es h hrun
      obtain ⟨s, hsim, rfl, hcap⟩ := h
      rw [run] at hrun
      obtain ⟨ht₁, hstep, hrest⟩ := bind_eq_ok hrun
      obtain ⟨hcap', ht₂, hstep', hsim'⟩ | ⟨-, f, hfault⟩ := step_simulates hsim heq hcap op
      · have hsame : ht₁ = ht₂ := by simpa using hstep.symm.trans hstep'
        rw [hsame] at hrest
        exact ih ⟨_, hsim', rfl, hcap'⟩ hrest
      · exact absurd (hstep.symm.trans hfault) (by simp)

theorem init_represents {capacity : ℕ} (hle : capacity ≤ 2 ^ 60) (nodes : ℕ → Ptr) :
    Represents hash ef (hashtable_init capacity nodes : HashTable K K) [] :=
  ⟨_, init_simulates capacity nodes, rfl, (NearestPower.nearest_power_lt_iff (by decide)).mpr hle⟩

/-- **Two tables are equal whatever their histories**: after any runs of operations on new
tables, of any sizes and in any memory, `hashtable_equals` returns true if and only if the
operations leave equal values under each key. The order in which the keys came, and the
growth of the tables, make no difference. -/
theorem hashtable_equals_histories (heq : KeyEquality hash ef id) {capacity1 capacity2 : ℕ}
    (hle1 : capacity1 ≤ 2 ^ 60) (hle2 : capacity2 ≤ 2 ^ 60) {nodes1 nodes2 : ℕ → Ptr}
    {ops1 ops2 : List (Op K K)} {ht1 ht2 : HashTable K K}
    (hrun1 : run hash ef id (hashtable_init capacity1 nodes1) ops1 = .ok ht1)
    (hrun2 : run hash ef id (hashtable_init capacity2 nodes2) ops2 = .ok ht2) :
    ∃ equals, hashtable_equals ef ht1 ht2 = .ok equals
      ∧ (equals = true ↔ ∀ key, Option.Rel (fun a b => ef a b = true)
        (lookup ef (recorded ef ops1) key) (lookup ef (recorded ef ops2) key)) := by
  have h1 : Represents hash ef ht1 (recorded ef ops1) :=
    run_represents heq ops1 (init_represents hle1 nodes1) hrun1
  have h2 : Represents hash ef ht2 (recorded ef ops2) :=
    run_represents heq ops2 (init_represents hle2 nodes2) hrun2
  refine ⟨_, hashtable_equals_spec h1 heq h2, ?_⟩
  rw [Bool.and_eq_true, decide_eq_true_eq, all_matched_iff, ← found_iff heq h1.once h2.once]
  simp

end Histories

/-! ## Tables of numbers -/

def straight : List (Op ℕ ℕ) := [.put false 1 10, .put false 2 20]

def detour : List (Op ℕ ℕ) := [.put false 3 30, .put false 2 20, .delete 3, .put false 1 10]

/-- A key more that is deleted again, another order and more buckets make no difference. -/
theorem detour_equal : ∃ ht1 ht2 : HashTable ℕ ℕ,
    run id (fun a b => a == b) id (hashtable_init 0 fun _ => none) straight = .ok ht1
      ∧ run id (fun a b => a == b) id (hashtable_init 100 fun _ => none) detour = .ok ht2
      ∧ hashtable_equals (fun a b => a == b) ht1 ht2 = .ok true := by
  obtain ⟨ht1, hrun1⟩ := exists_ok
    (x := run id (fun a b => a == b) id (hashtable_init 0 fun _ => none) straight) (by decide)
  obtain ⟨ht2, hrun2⟩ := exists_ok
    (x := run id (fun a b => a == b) id (hashtable_init 100 fun _ => none) detour) (by decide)
  refine ⟨ht1, ht2, hrun1, hrun2, ?_⟩
  obtain ⟨equals, hequals, hiff⟩ := hashtable_equals_histories value_equal_keys (by decide)
    (by decide) hrun1 hrun2
  rw [hequals, hiff.mpr]
  intro key
  have h1 : recorded (fun a b => a == b) straight = [(1, 10), (2, 20)] := by decide
  have h2 : recorded (fun a b => a == b) detour = [(2, 20), (1, 10)] := by decide
  rw [h1, h2, lookup_cons, lookup_cons, lookup_cons, lookup_cons]
  by_cases hone : key = 1
  · simp [hone, lookup]
  · by_cases htwo : key = 2 <;> simp [hone, htwo, lookup]

theorem next_hash_keys : KeyEquality (fun k : ℕ => k + 1) (fun a b : ℕ => a == b) id where
  equivalence := value_equal_keys.equivalence
  hash_eq a b h := congrArg (· + 1) (value_equal_keys.hash_eq a b h)
  copy := value_equal_keys.copy

/-- Tables of one entry are not equal if their hash functions differ on its key. -/
theorem other_hash_unequal : ∃ ht1 ht2 : HashTable ℕ ℕ,
    Represents id (fun a b => a == b) ht1 [(1, 10)]
      ∧ Represents (fun k => k + 1) (fun a b => a == b) ht2 [(1, 10)]
      ∧ hashtable_equals (fun a b => a == b) ht1 ht2 = .ok false := by
  obtain ⟨ht1, hrep1⟩ := exists_numbers [(1, 10)] (by decide)
  obtain ⟨ht2, hrep2⟩ := exists_put_all next_hash_keys [(1, 10)]
    (init_represents (Nat.zero_le _) fun _ => none) (by decide)
  refine ⟨ht1, ht2, hrep1, hrep2, ?_⟩
  obtain ⟨equals, hequals, hiff⟩ :=
    hashtable_equals_iff value_equal_keys next_hash_keys hrep1 hrep2
  have hfalse : ¬ equals = true := by
    intro htrue
    exact absurd ((hiff.mp htrue).2 (1, 10) (by simp [put_all, list_step])) (by decide)
  rw [hequals, Bool.not_eq_true _ |>.mp hfalse]

end PkgPlugins.HashtableEquals
