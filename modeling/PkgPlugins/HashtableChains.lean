/-
The chains of a hash table, and what the operations do to them.

`Bucketed` says that the buckets hold certain nodes, each in the one that its hash
gives; `Valid` says the same of a whole table and the nodes of its global chain,
in the order of their insertion. Each operation has one specification in terms of
`Valid`, and none of them faults as long as the array of the buckets is as large
as the capacity says (`Roomy`).
-/
import PkgPlugins.Fallible
import PkgPlugins.Hashtable

set_option autoImplicit false

namespace PkgPlugins.HashtableChains

open PkgPlugins.Fallible PkgPlugins.Links PkgPlugins.Hashtable

variable {K V : Type}

/-! ## Faults -/

/-- A pointer that may be followed if it is not `NULL`. -/
def Followable (ht : HashTable K V) (p : Ptr) : Prop := ∀ n, p = some n → (ht.cells n).isSome

theorem node_ok {ht : HashTable K V} {n : ℕ} {c : HashNode K V} (h : ht.cells n = some c) :
    ht.node n = .ok c := by
  rw [HashTable.node, h]

theorem unless_null_ok {ht ht' : HashTable K V} {p : Ptr} (h : Followable ht p)
    {set : ℕ → HashTable K V} (hnone : p = none → ht = ht') (hsome : ∀ n, p = some n → set n = ht') :
    ht.unless_null p set = .ok ht' := by
  cases p with
  | none => rw [HashTable.unless_null, hnone rfl]
  | some n =>
      have hlive := h n rfl
      simp only [HashTable.unless_null]
      rw [if_pos hlive, hsome n rfl]

/-! ## Buckets -/

/-- The bucket a node belongs to. -/
def place (ht : HashTable K V) (n : ℕ) : Option ℕ := (ht.cells n).map fun c => ht.index c.hash

/-- The bucket `i` is the chain `b i`, and these chains hold the nodes `as`, each in
its place. -/
structure Bucketed (size : ℕ) (nodes nNext nPrev : ℕ → Ptr) (place : ℕ → Option ℕ)
    (as : List ℕ) (b : ℕ → List ℕ) : Prop where
  heads : ∀ i < size, nodes i = first (b i) none
  chains : ∀ i, Chain nNext nPrev none (b i) none
  nodup : ∀ i, (b i).Nodup
  mem : ∀ i n, n ∈ b i ↔ n ∈ as ∧ place n = some i

namespace Bucketed

variable {size : ℕ} {nodes nNext nPrev : ℕ → Ptr} {place : ℕ → Option ℕ} {as : List ℕ}
  {b : ℕ → List ℕ}

/-- Buckets that are all empty. -/
theorem empty (h : ∀ i < size, nodes i = none) :
    Bucketed size nodes nNext nPrev place [] fun _ => [] :=
  ⟨h, fun _ => trivial, fun _ => List.nodup_nil, by simp⟩

/-- Only the set of nodes and their places count. -/
theorem congr (h : Bucketed size nodes nNext nPrev place as b) {as' : List ℕ}
    {place' : ℕ → Option ℕ} (has : ∀ n, n ∈ as' ↔ n ∈ as) (hplace : ∀ n ∈ as, place' n = place n) :
    Bucketed size nodes nNext nPrev place' as' b := by
  refine ⟨h.heads, h.chains, h.nodup, fun i n => ?_⟩
  rw [h.mem, has]
  exact and_congr_right fun hn => by rw [hplace n hn]

/-- The bucket of a node, around it. -/
theorem split (h : Bucketed size nodes nNext nPrev place as b) {n i : ℕ} (hn : n ∈ as)
    (hplace : place n = some i) : ∃ pre post, b i = pre ++ n :: post :=
  List.append_of_mem ((h.mem i n).mpr ⟨hn, hplace⟩)

/-- A node is in one bucket only. -/
theorem apart (h : Bucketed size nodes nNext nPrev place as b) {n i j : ℕ} (hi : n ∈ b i)
    (hj : n ∈ b j) : i = j := by
  have hplace := ((h.mem i n).mp hi).2
  rw [((h.mem j n).mp hj).2, Option.some.injEq] at hplace
  exact hplace.symm

/-- A new node in front of its bucket. -/
theorem prepend (h : Bucketed size nodes nNext nPrev place as b) {n i : ℕ} (hn : n ∉ as)
    (hplace : place n = some i) :
    Bucketed size (Function.update nodes i (some n))
      (Function.update nNext n (first (b i) none))
      (write (Function.update nPrev n none) (first (b i) none) (some n)) place (n :: as)
      (Function.update b i (n :: b i)) := by
  have hnodup : (n :: b i).Nodup :=
    List.nodup_cons.mpr ⟨fun hmem => hn ((h.mem i n).mp hmem).1, h.nodup i⟩
  constructor
  case heads =>
    intro j hj
    by_cases hji : j = i
    · rw [hji, Function.update_self, Function.update_self, first_cons]
    · rw [Function.update_of_ne hji, Function.update_of_ne hji, h.heads j hj]
  case chains =>
    intro j
    by_cases hji : j = i
    · rw [hji, Function.update_self]
      exact (h.chains i).prepend hnodup
    · -- the writes are to nodes of another bucket
      rw [Function.update_of_ne hji]
      have hother : ∀ m ∈ b j, m ≠ n ∧ m ∉ b i := by
        intro m hm
        have hmas := ((h.mem j m).mp hm).1
        exact ⟨fun heq => hn (heq ▸ hmas), fun hmi => hji (h.apart hm hmi)⟩
      refine (h.chains j).congr (fun m hm => ?_) fun m hm => ?_
      · rw [Function.update_of_ne (hother m hm).1]
      · rw [write_of_ne fun heq => (hother m hm).2 (first_mem heq),
          Function.update_of_ne (hother m hm).1]
  case nodup =>
    intro j
    by_cases hji : j = i
    · rwa [hji, Function.update_self]
    · rw [Function.update_of_ne hji]
      exact h.nodup j
  case mem =>
    intro j m
    by_cases hji : j = i
    · rw [hji, Function.update_self, List.mem_cons, List.mem_cons, h.mem]
      constructor
      · rintro (rfl | ⟨hm, hmi⟩)
        · exact ⟨Or.inl rfl, hplace⟩
        · exact ⟨Or.inr hm, hmi⟩
      · rintro ⟨rfl | hm, hmi⟩
        · exact Or.inl rfl
        · exact Or.inr ⟨hm, hmi⟩
    · rw [Function.update_of_ne hji, h.mem, List.mem_cons]
      refine and_congr_left fun hmj => ⟨Or.inr, fun hor => hor.resolve_left ?_⟩
      rintro rfl
      rw [hplace, Option.some.injEq] at hmj
      exact hji hmj.symm

/-- A node is taken out of its bucket. -/
theorem remove (h : Bucketed size nodes nNext nPrev place as b) {n i : ℕ} (hn : n ∈ as)
    (hplace : place n = some i) {as' : List ℕ} (has : ∀ m, m ∈ as' ↔ m ∈ as ∧ m ≠ n)
    {place' : ℕ → Option ℕ} (hplace' : ∀ m, m ≠ n → place' m = place m) :
    ∃ b', Bucketed size (if nPrev n = none then Function.update nodes i (nNext n) else nodes)
      (write nNext (nPrev n) (nNext n)) (write nPrev (nNext n) (nPrev n)) place' as' b' := by
  obtain ⟨pre, post, hb⟩ := h.split hn hplace
  have hchain := h.chains i
  have hnodup := h.nodup i
  rw [hb] at hchain hnodup
  obtain ⟨hnext, hprev⟩ := hchain.fields
  have hsub : (pre ++ post).Sublist (pre ++ n :: post) :=
    (List.sublist_cons_self n post).append_left pre
  have hn' : n ∉ pre ++ post := by
    rw [List.nodup_middle, List.nodup_cons] at hnodup
    exact hnodup.1
  refine ⟨Function.update b i (pre ++ post), ?_⟩
  constructor
  case heads =>
    intro j hj
    by_cases hji : j = i
    · rw [hji, Function.update_self, hprev, hnext]
      -- the bucket itself changes just if the node is its first
      rw [← first_remove pre post n, ← hb, ← h.heads i (hji ▸ hj)]
      split
      · rw [Function.update_self]
      · rfl
    · rw [Function.update_of_ne hji, ← h.heads j hj]
      split
      · rw [Function.update_of_ne hji]
      · rfl
  case chains =>
    intro j
    by_cases hji : j = i
    · rw [hji, Function.update_self, hprev, hnext]
      exact hchain.remove hnodup
    · rw [Function.update_of_ne hji]
      have hother : ∀ m ∈ b j, m ∉ b i := fun m hm hmi => hji (h.apart hm hmi)
      refine (h.chains j).congr (fun m hm => ?_) fun m hm => ?_
      · rw [write_of_ne]
        rw [hprev]
        intro heq
        refine hother m hm (hb ▸ List.mem_append_left _ (last_mem heq))
      · rw [write_of_ne]
        rw [hnext]
        intro heq
        refine hother m hm (hb ▸ List.mem_append_right _ (List.mem_cons_of_mem n (first_mem heq)))
  case nodup =>
    intro j
    by_cases hji : j = i
    · rw [hji, Function.update_self]
      exact hnodup.sublist hsub
    · rw [Function.update_of_ne hji]
      exact h.nodup j
  case mem =>
    intro j m
    have hmem : m ∈ Function.update b i (pre ++ post) j ↔ m ∈ b j ∧ m ≠ n := by
      by_cases hji : j = i
      · rw [hji, Function.update_self, hb, List.mem_append, List.mem_append, List.mem_cons]
        rw [List.mem_append] at hn'
        constructor
        · intro hm
          exact ⟨hm.imp id Or.inr, fun heq => hn' (heq ▸ hm)⟩
        · rintro ⟨hm, hne⟩
          exact hm.imp id fun hor => hor.resolve_left hne
      · rw [Function.update_of_ne hji]
        refine (and_iff_left_of_imp fun hm heq => hji (h.apart hm ?_)).symm
        rw [heq]
        exact (h.mem i n).mpr ⟨hn, hplace⟩
    rw [hmem, h.mem, has, and_right_comm]
    refine and_congr_right fun hm => ?_
    rw [hplace' m hm.2]

end Bucketed

/-! ## Tables -/

/-- What a table needs of its keys: the equality is one, equal keys have equal
hashes, and a copy of a key is equal to it. -/
structure KeyEquality (hash : K → ℕ) (ef : K → K → Bool) (key_duper : K → K) : Prop where
  equivalence : Equivalence fun a b => ef a b = true
  hash_eq : ∀ a b, ef a b = true → hash a = hash b
  copy : ∀ k, ef k (key_duper k) = true

/-- The table is well formed, and its nodes, in the order of their insertion, are
`ns`. -/
structure Valid (hash : K → ℕ) (ef : K → K → Bool) (ht : HashTable K V)
    (ns : List (ℕ × HashNode K V)) : Prop where
  head : ht.gHead = first (ns.map Prod.fst) none
  tail : ht.gTail = last none (ns.map Prod.fst)
  global : Chain ht.gNext ht.gPrev none (ns.map Prod.fst) none
  nodup : (ns.map Prod.fst).Nodup
  cells : ∀ x ∈ ns, ht.cells x.1 = some x.2
  allocated : ∀ x ∈ ns, x.1 < ht.brk
  buckets : ∃ b, Bucketed ht.size ht.nodes ht.nNext ht.nPrev (place ht) (ns.map Prod.fst) b
  count : ht.count = ns.length
  hashes : ∀ x ∈ ns, x.2.hash = hash x.2.key
  keys : ns.Pairwise fun x y => ef x.2.key y.2.key = false
  mask : ht.mask = ht.capacity - 1
  size : ht.size = Hashtable.allocated ht.capacity

/-- The array of the buckets is as large as the capacity says. -/
def Roomy (ht : HashTable K V) : Prop := 0 < ht.capacity ∧ ht.capacity < 2 ^ 61

theorem allocated_of_lt {n : ℕ} (h : n < 2 ^ 61) : Hashtable.allocated n = n := by
  unfold Hashtable.allocated
  omega

section Valid

variable {hash : K → ℕ} {ef : K → K → Bool} {key_duper : K → K} {ht : HashTable K V}
  {ns : List (ℕ × HashNode K V)}

theorem Valid.index_lt (h : Valid hash ef ht ns) (hroom : Roomy ht) (k : ℕ) :
    ht.index k < ht.size := by
  rw [h.size, allocated_of_lt hroom.2, HashTable.index, h.mask]
  have hand : k &&& (ht.capacity - 1) ≤ ht.capacity - 1 := Nat.and_le_right
  have hmod : (k &&& (ht.capacity - 1)) % 2 ^ 32 ≤ k &&& (ht.capacity - 1) := Nat.mod_le _ _
  have hpos := hroom.1
  omega

theorem Valid.bucket (h : Valid hash ef ht ns) (hroom : Roomy ht) (k : ℕ) :
    ht.bucket (ht.index k) = .ok (ht.nodes (ht.index k)) := by
  rw [HashTable.bucket, if_pos (h.index_lt hroom k)]

theorem Valid.set_bucket (h : Valid hash ef ht ns) (hroom : Roomy ht) (k : ℕ) (p : Ptr) :
    ht.set_bucket (ht.index k) p
      = .ok { ht with nodes := Function.update ht.nodes (ht.index k) p } := by
  rw [HashTable.set_bucket, if_pos (h.index_lt hroom k)]

theorem Valid.mem_of_fst (h : Valid hash ef ht ns) {n : ℕ} (hn : n ∈ ns.map Prod.fst) :
    ∃ c, (n, c) ∈ ns ∧ ht.cells n = some c := by
  obtain ⟨⟨m, c⟩, hx, rfl⟩ := List.mem_map.mp hn
  exact ⟨c, hx, h.cells _ hx⟩

/-- A node of the table belongs to the bucket of its hash. -/
theorem Valid.place_eq (h : Valid hash ef ht ns) {x : ℕ × HashNode K V} (hx : x ∈ ns) :
    place ht x.1 = some (ht.index x.2.hash) := by
  rw [place, h.cells x hx, Option.map_some]

/-- There are no more nodes than allocations. -/
theorem Valid.length_le (h : Valid hash ef ht ns) {as : List ℕ} (hnodup : as.Nodup)
    (hsub : as ⊆ ns.map Prod.fst) : as.length ≤ ht.brk := by
  have hrange : as ⊆ List.range ht.brk := by
    intro n hn
    obtain ⟨x, hx, rfl⟩ := List.mem_map.mp (hsub hn)
    exact List.mem_range.mpr (h.allocated x hx)
  have hle := (List.subperm_of_subset hnodup hrange).length_le
  rwa [List.length_range] at hle

/-- Two nodes whose keys equal a key are one. -/
theorem Valid.eq_of_match (h : Valid hash ef ht ns) (heq : KeyEquality hash ef key_duper) {key : K}
    {x y : ℕ × HashNode K V} (hx : x ∈ ns) (hy : y ∈ ns) (hkx : ef key x.2.key = true)
    (hky : ef key y.2.key = true) : x = y := by
  by_contra hne
  have hsymm : Std.Symm fun x y : ℕ × HashNode K V => ef x.2.key y.2.key = false := by
    constructor
    intro a b hab
    by_contra hba
    rw [Bool.not_eq_false] at hba
    rw [heq.equivalence.symm hba] at hab
    exact absurd hab (by simp)
  have hxy := h.keys.forall hx hy hne
  have hxy' : ef x.2.key y.2.key = true :=
    heq.equivalence.trans (heq.equivalence.symm hkx) hky
  rw [hxy] at hxy'
  exact absurd hxy' (by simp)

/-! ## Look-ups -/

/-- The test in the loop over a bucket. -/
def tests (ef : K → K → Bool) (ht : HashTable K V) (h : ℕ) (key : K) (n : ℕ) : Bool :=
  (ht.cells n).any fun c => c.hash = h ∧ ef key c.key

theorem bucket_find_chain (k : ℕ) (key : K) (as : List ℕ) : ∀ (fuel : ℕ) (p : Ptr),
    Chain ht.nNext ht.nPrev p as none → (∀ n ∈ as, ∃ c, ht.cells n = some c) → as.length < fuel →
      bucket_find ef ht k key fuel (first as none) = .ok (as.find? (tests ef ht k key)) := by
  induction as with
  | nil =>
      intro fuel p _ _ hfuel
      obtain ⟨fuel, rfl⟩ := Nat.exists_eq_succ_of_ne_zero (Nat.ne_of_gt hfuel)
      rw [first_nil, bucket_find, List.find?_nil]
  | cons n as ih =>
      intro fuel p hchain hlive hfuel
      obtain ⟨fuel, rfl⟩ := Nat.exists_eq_succ_of_ne_zero (Nat.ne_of_gt (Nat.zero_lt_of_lt hfuel))
      rw [List.length_cons] at hfuel
      rw [List.forall_mem_cons] at hlive
      obtain ⟨c, hc⟩ := hlive.1
      rw [first_cons, bucket_find, node_ok hc, ok_bind]
      by_cases htest : c.hash = k ∧ ef key c.key = true
      · rw [if_pos htest, List.find?_cons_of_pos]
        rw [tests, hc]
        simpa using htest
      · rw [if_neg htest, hchain.1, ih fuel _ hchain.2.2 hlive.2 (by omega),
          List.find?_cons_of_neg]
        rw [tests, hc]
        simpa using htest

/-- **A look-up finds the node whose key equals the key**, if there is one. -/
theorem Valid.bucket_find (h : Valid hash ef ht ns) (heq : KeyEquality hash ef key_duper)
    (hroom : Roomy ht) (key : K) :
    Hashtable.bucket_find ef ht (hash key) key (ht.brk + 1) (ht.nodes (ht.index (hash key)))
      = .ok ((ns.find? fun x => ef key x.2.key).map Prod.fst) := by
  obtain ⟨b, hb⟩ := h.buckets
  have hsub : b (ht.index (hash key)) ⊆ ns.map Prod.fst := fun n hn => ((hb.mem _ n).mp hn).1
  have hlive : ∀ n ∈ b (ht.index (hash key)), ∃ c, ht.cells n = some c := by
    intro n hn
    obtain ⟨c, -, hc⟩ := h.mem_of_fst (hsub hn)
    exact ⟨c, hc⟩
  have hlen := h.length_le (hb.nodup _) hsub
  rw [hb.heads _ (h.index_lt hroom _),
    bucket_find_chain (hash key) key _ _ none (hb.chains _) hlive (by omega)]
  congr 1
  -- the test of a node of the table is that of its key
  have htests : ∀ x ∈ ns, tests ef ht (hash key) key x.1 = true ↔ ef key x.2.key = true := by
    intro x hx
    rw [tests, h.cells x hx]
    simp only [Option.any_some, decide_eq_true_eq, and_iff_right_iff_imp]
    intro hkey
    rw [h.hashes x hx, heq.hash_eq _ _ hkey]
  cases hfind : ns.find? fun x => ef key x.2.key with
  | none =>
      rw [List.find?_eq_none] at hfind
      rw [Option.map_none, List.find?_eq_none]
      intro n hn
      obtain ⟨c, hx, -⟩ := h.mem_of_fst (hsub hn)
      exact fun htest => hfind (n, c) hx ((htests (n, c) hx).mp htest)
  | some x =>
      have hx := List.mem_of_find?_eq_some hfind
      have hkey : ef key x.2.key = true := by simpa using List.find?_some hfind
      have hin : x.1 ∈ b (ht.index (hash key)) := by
        rw [hb.mem, h.place_eq hx, h.hashes x hx, heq.hash_eq _ _ hkey]
        exact ⟨List.mem_map_of_mem hx, rfl⟩
      cases hfind' : (b (ht.index (hash key))).find? (tests ef ht (hash key) key) with
      | none =>
          rw [List.find?_eq_none] at hfind'
          exact absurd ((htests x hx).mpr hkey) (hfind' x.1 hin)
      | some n =>
          obtain ⟨c, hy, -⟩ := h.mem_of_fst (hsub (List.mem_of_find?_eq_some hfind'))
          have hkey' := (htests (n, c) hy).mp (List.find?_some hfind')
          rw [Option.map_some, h.eq_of_match heq hx hy hkey hkey']

end Valid

/-! ## Rehashing -/

theorem link_bucket_eq (ht : HashTable K V) {place : ℕ → Option ℕ} {as : List ℕ}
    {b : ℕ → List ℕ} (hb : Bucketed ht.size ht.nodes ht.nNext ht.nPrev place as b) {i : ℕ}
    (hi : i < ht.size) (hlive : ∀ m ∈ as, (ht.cells m).isSome) (n : ℕ) :
    link_bucket ht n i = .ok { ht with
      nNext := Function.update ht.nNext n (first (b i) none)
      nPrev := write (Function.update ht.nPrev n none) (first (b i) none) (some n) } := by
  rw [link_bucket, HashTable.bucket, if_pos hi, ok_bind, hb.heads i hi]
  apply unless_null_ok
  · intro m hm
    exact hlive m ((hb.mem i m).mp (first_mem hm)).1
  · intro hnone
    rw [hnone, write_none]
  · intro m hm
    rw [hm, write_some]

/-- The loop puts the nodes of the rest of the global chain into their buckets. -/
theorem hashtable_rehash_loop_spec (rest : List ℕ) : ∀ (fuel : ℕ) (ht : HashTable K V) (p : Ptr)
    (done all : List ℕ) (b : ℕ → List ℕ), Chain ht.gNext ht.gPrev p rest none →
      Bucketed ht.size ht.nodes ht.nNext ht.nPrev (place ht) done b →
      (∀ m, m ∈ all ↔ m ∈ done ∨ m ∈ rest) → (∀ m ∈ all, (ht.cells m).isSome) →
      (∀ k, ht.index k < ht.size) → (done ++ rest).Nodup → rest.length < fuel →
      ∃ nodes nNext nPrev b', hashtable_rehash_loop fuel ht (first rest none)
          = .ok { ht with nodes := nodes, nNext := nNext, nPrev := nPrev }
        ∧ Bucketed ht.size nodes nNext nPrev (place ht) all b' := by
  induction rest with
  | nil =>
      intro fuel ht p done all b _ hb hall _ _ _ hfuel
      obtain ⟨fuel, rfl⟩ := Nat.exists_eq_succ_of_ne_zero (Nat.ne_of_gt hfuel)
      refine ⟨ht.nodes, ht.nNext, ht.nPrev, b, by rw [first_nil, hashtable_rehash_loop], ?_⟩
      exact hb.congr (by simpa using hall) fun _ _ => rfl
  | cons n rest ih =>
      intro fuel ht p done all b hchain hb hall hlive hindex hnodup hfuel
      obtain ⟨fuel, rfl⟩ := Nat.exists_eq_succ_of_ne_zero (Nat.ne_of_gt (Nat.zero_lt_of_lt hfuel))
      rw [List.length_cons] at hfuel
      obtain ⟨c, hc⟩ := Option.isSome_iff_exists.mp (hlive n ((hall n).mpr (Or.inr (by simp))))
      have hplace : place ht n = some (ht.index c.hash) := by rw [place, hc, Option.map_some]
      have hn : n ∉ done := by
        rw [List.nodup_append] at hnodup
        exact fun hmem => hnodup.2.2 n hmem n List.mem_cons_self rfl
      have hdone : ∀ m ∈ done, (ht.cells m).isSome := fun m hm =>
        hlive m ((hall m).mpr (Or.inl hm))
      -- the loop goes on from the table with this node in its bucket
      obtain ⟨nodes, nNext, nPrev, b', hrun, hb'⟩ := ih fuel { ht with
          nNext := Function.update ht.nNext n (first (b (ht.index c.hash)) none)
          nPrev := write (Function.update ht.nPrev n none) (first (b (ht.index c.hash)) none)
            (some n)
          nodes := Function.update ht.nodes (ht.index c.hash) (some n) }
        (some n) (n :: done) all _ hchain.2.2 (hb.prepend hn hplace)
        (fun m => by rw [hall, List.mem_cons, List.mem_cons]; tauto) hlive hindex
        (by rw [List.cons_append]; exact List.nodup_middle.mp hnodup) (by omega)
      refine ⟨nodes, nNext, nPrev, b', ?_, hb'⟩
      rw [first_cons, hashtable_rehash_loop, node_ok hc, ok_bind]
      simp only
      rw [link_bucket_eq ht hb (hindex c.hash) hdone n, ok_bind, HashTable.set_bucket,
        if_pos (hindex c.hash), ok_bind]
      simp only
      rw [hchain.1]
      exact hrun

/-- The capacity after an insertion that leaves `count` nodes. -/
def grown (capacity count : ℕ) : ℕ :=
  if count < capacity then capacity
  else if 0 < capacity * 2 % 2 ^ 64 then capacity * 2 % 2 ^ 64 else capacity

section Operations

variable {hash : K → ℕ} {ef : K → K → Bool} {key_duper : K → K} {ht : HashTable K V}
  {ns : List (ℕ × HashNode K V)}

theorem Valid.isSome (h : Valid hash ef ht ns) {n : ℕ} (hn : n ∈ ns.map Prod.fst) :
    (ht.cells n).isSome := by
  obtain ⟨c, -, hc⟩ := h.mem_of_fst hn
  rw [hc, Option.isSome_some]

/-- **`hashtable_maybe_resize`** keeps the nodes, whether it resizes or not. -/
theorem hashtable_maybe_resize_spec (h : Valid hash ef ht ns) (hpos : 0 < ht.capacity)
    (hgrown : grown ht.capacity ht.count < 2 ^ 61) :
    ∃ ht', hashtable_maybe_resize ht = .ok ht' ∧ Valid hash ef ht' ns
      ∧ ht'.capacity = grown ht.capacity ht.count := by
  rw [hashtable_maybe_resize]
  rw [grown] at hgrown ⊢
  by_cases hcount : ht.count < ht.capacity
  · rw [if_pos hcount, if_pos hcount]
    exact ⟨ht, rfl, h, rfl⟩
  · rw [if_neg hcount] at hgrown
    rw [if_neg hcount, if_neg hcount]
    by_cases hdouble : 0 < ht.capacity * 2 % 2 ^ 64
    · rw [if_pos hdouble] at hgrown
      rw [if_pos hdouble, if_pos hdouble]
      have hone : ¬ ht.count < 1 := by omega
      have hlen := h.length_le h.nodup (List.Subset.refl _)
      have hsize := allocated_of_lt hgrown
      simp only [hashtable_rehash, if_neg hone]
      -- the buckets are emptied before the nodes are put into them again
      obtain ⟨nodes, nNext, nPrev, b', hrun, hb'⟩ := hashtable_rehash_loop_spec
        (ns.map Prod.fst) (ht.brk + 1)
        (HashTable.memset { ht with
          size := Hashtable.allocated (ht.capacity * 2 % 2 ^ 64)
          capacity := ht.capacity * 2 % 2 ^ 64
          mask := ht.capacity * 2 % 2 ^ 64 - 1 })
        none [] (ns.map Prod.fst) (fun _ => []) h.global
        (Bucketed.empty fun i hi => if_pos hi) (by simp) (fun m hm => h.isSome hm)
        (fun k => by
          have hand : k &&& (ht.capacity * 2 % 2 ^ 64 - 1) ≤ ht.capacity * 2 % 2 ^ 64 - 1 :=
            Nat.and_le_right
          have hmod : (k &&& (ht.capacity * 2 % 2 ^ 64 - 1)) % 2 ^ 32
            ≤ k &&& (ht.capacity * 2 % 2 ^ 64 - 1) := Nat.mod_le _ _
          show (k &&& (ht.capacity * 2 % 2 ^ 64 - 1)) % 2 ^ 32
            < Hashtable.allocated (ht.capacity * 2 % 2 ^ 64)
          omega)
        (by simpa using h.nodup) (by omega)
      rw [← h.head] at hrun
      refine ⟨_, hrun, ?_, rfl⟩
      exact ⟨h.head, h.tail, h.global, h.nodup, h.cells, h.allocated, ⟨b', hb'⟩, h.count, h.hashes,
        h.keys, rfl, rfl⟩
    · rw [if_neg hdouble, if_neg hdouble]
      exact ⟨ht, rfl, h, rfl⟩

/-- A bucket beyond the array stops the loop. -/
theorem hashtable_rehash_loop_bounds (ht : HashTable K V) {n : ℕ} {c : HashNode K V}
    (hc : ht.cells n = some c) (hsize : ht.size ≤ ht.index c.hash) (fuel : ℕ) :
    hashtable_rehash_loop (fuel + 1) ht (some n) = .error (.bounds (ht.index c.hash)) := by
  rw [hashtable_rehash_loop, node_ok hc, ok_bind]
  simp only
  rw [link_bucket, HashTable.bucket, if_neg (by omega), error_bind, error_bind]

/-- Without room for a bucket, a table that has nodes can't be resized. -/
theorem hashtable_maybe_resize_error (h : Valid hash ef ht ns) (hne : ns ≠ [])
    (hcount : ht.capacity ≤ ht.count) (hdouble : 0 < ht.capacity * 2 % 2 ^ 64)
    (hsize : Hashtable.allocated (ht.capacity * 2 % 2 ^ 64) = 0) :
    ∃ e, hashtable_maybe_resize ht = .error e := by
  obtain ⟨x, rest, rfl⟩ := List.exists_cons_of_ne_nil hne
  have hone : ¬ ht.count < 1 := by
    rw [h.count, List.length_cons]
    omega
  have hhead : ht.gHead = some x.1 := h.head
  rw [hashtable_maybe_resize, if_neg (by omega), if_pos hdouble]
  simp only [hashtable_rehash, if_neg hone, hhead]
  refine ⟨_, hashtable_rehash_loop_bounds _ (c := x.2) ?_ ?_ _⟩
  · exact h.cells x List.mem_cons_self
  show Hashtable.allocated (ht.capacity * 2 % 2 ^ 64) ≤ _
  omega

end Operations

end PkgPlugins.HashtableChains
