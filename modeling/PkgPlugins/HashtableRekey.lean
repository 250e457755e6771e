/-
What becomes of a hash table does not depend on what its keys are.

The functions of a table look at a key in the loop over a bucket only, and all that they
take from there is which node it ends at. A table whose keys are the addresses of its nodes
(`rekey`) therefore goes through the same links, whatever `ef` and `hf` compute: the
addresses are keys with an equality, so that what holds of such tables holds of any.
-/
import PkgPlugins.HashtableRuns

set_option autoImplicit false

namespace PkgPlugins.HashtableRekey

open PkgPlugins.Fallible PkgPlugins.Links PkgPlugins.Hashtable PkgPlugins.HashtableChains
open PkgPlugins.HashtableOps PkgPlugins.HashtableRuns

variable {K V : Type}

/-! ## Addresses as keys -/

/-- The node at `n` with its address for a key, next to its hash. -/
def rekey_node (n : ℕ) (c : HashNode K V) : HashNode (ℕ × ℕ) V := ⟨c.hash, (n, c.hash), c.data⟩

def rekey (ht : HashTable K V) : HashTable (ℕ × ℕ) V :=
  { nodes := ht.nodes
    size := ht.size
    gHead := ht.gHead
    gTail := ht.gTail
    capacity := ht.capacity
    count := ht.count
    mask := ht.mask
    cells := fun n => (ht.cells n).map (rekey_node n)
    nNext := ht.nNext
    nPrev := ht.nPrev
    gNext := ht.gNext
    gPrev := ht.gPrev
    brk := ht.brk }

/-- Such keys are what a table needs. -/
theorem addresses_keys : KeyEquality Prod.snd (fun a b : ℕ × ℕ => a == b) id := by
  constructor
  · constructor <;> simp_all
  · simp_all
  · simp

theorem rekeyed_update (cells : ℕ → Option (HashNode K V)) (n : ℕ) (o : Option (HashNode K V)) :
    (fun m => (Function.update cells n o m).map (rekey_node m))
      = Function.update (fun m => (cells m).map (rekey_node m)) n (o.map (rekey_node n)) := by
  funext m
  by_cases hm : m = n
  · rw [hm, Function.update_self, Function.update_self]
  · rw [Function.update_of_ne hm, Function.update_of_ne hm]

/-- A write to a node. -/
theorem rekey_update (ht : HashTable K V) (n : ℕ) (o : Option (HashNode K V)) :
    rekey { ht with cells := Function.update ht.cells n o }
      = { rekey ht with cells := Function.update (rekey ht).cells n (o.map (rekey_node n)) } :=
  congrArg (fun cells => ({ rekey ht with cells := cells } : HashTable (ℕ × ℕ) V))
    (rekeyed_update ht.cells n o)

/-! ## The links -/

theorem node_rekey (ht : HashTable K V) (n : ℕ) :
    (ht.node n).map (rekey_node n) = (rekey ht).node n := by
  simp only [HashTable.node, rekey]
  cases ht.cells n <;> rfl

theorem unless_null_rekey (ht : HashTable K V) (p : Ptr) {set : ℕ → HashTable K V}
    {set' : ℕ → HashTable (ℕ × ℕ) V} (hset : ∀ n, rekey (set n) = set' n) :
    (ht.unless_null p set).map rekey = (rekey ht).unless_null p set' := by
  cases p with
  | none => rfl
  | some n =>
      simp only [HashTable.unless_null, rekey, Option.isSome_map]
      split
      · exact congrArg Except.ok (hset n)
      · rfl

theorem set_bucket_rekey (ht : HashTable K V) (index : ℕ) (p : Ptr) :
    (ht.set_bucket index p).map rekey = (rekey ht).set_bucket index p := by
  rw [HashTable.set_bucket, HashTable.set_bucket, rekey]
  split <;> rfl

theorem bucket_rekey (ht : HashTable K V) (index : ℕ) :
    (ht.bucket index).map id = (rekey ht).bucket index := by
  rw [HashTable.bucket, HashTable.bucket, rekey]
  split <;> rfl

theorem link_bucket_rekey (ht : HashTable K V) (n index : ℕ) :
    (link_bucket ht n index).map rekey = link_bucket (rekey ht) n index :=
  map_bind_eq (bucket_rekey ht index) fun _ => unless_null_rekey _ _ fun _ => rfl

theorem link_global_rekey (ht : HashTable K V) (n : ℕ) :
    (link_global ht n).map rekey = link_global (rekey ht) n := by
  rw [link_global, link_global]
  refine map_bind_eq (unless_null_rekey _ _ fun _ => rfl) fun ht => ?_
  show Except.ok (rekey (if ht.gHead = none then _ else _))
    = Except.ok (if ht.gHead = none then _ else _)
  split <;> rfl

theorem unlink_rekey (ht : HashTable K V) (n : ℕ) :
    (unlink ht n).map rekey = unlink (rekey ht) n := by
  rw [unlink, unlink]
  refine map_bind_eq (unless_null_rekey _ _ fun _ => rfl) fun ht => ?_
  refine @map_bind_eq _ _ _ _ _ rekey rekey _ _ _ _ ?_ fun ht => ?_
  · show _ = if ht.gPrev n ≠ none then _ else _
    split
    · exact unless_null_rekey _ _ fun _ => rfl
    · rfl
  · show _ = if ht.gNext n ≠ none then _ else _
    split
    · exact unless_null_rekey _ _ fun _ => rfl
    · rfl

theorem node_at_rekey (ht : HashTable K V) (i : ℕ) : ∀ p,
    (node_at ht i p).map id = node_at (rekey ht) i p := by
  induction i with
  | zero => intro p; cases p <;> rfl
  | succ i ih =>
      intro p
      cases p with
      | none => rfl
      | some n => exact map_bind_eq (node_rekey ht n) fun _ => ih _

/-! ## Resizing -/

theorem hashtable_rehash_loop_rekey (fuel : ℕ) : ∀ (ht : HashTable K V) p,
    (hashtable_rehash_loop fuel ht p).map rekey = hashtable_rehash_loop fuel (rekey ht) p := by
  induction fuel with
  | zero => intro ht p; cases p <;> rfl
  | succ fuel ih =>
      intro ht p
      cases p with
      | none => rfl
      | some n =>
          refine map_bind_eq (node_rekey ht n) fun c => ?_
          refine map_bind_eq (link_bucket_rekey ht n (ht.index c.hash)) fun ht' => ?_
          exact map_bind_eq (set_bucket_rekey ht' _ _) fun ht'' => ih ht'' _

theorem hashtable_rehash_rekey (ht : HashTable K V) :
    (hashtable_rehash ht).map rekey = hashtable_rehash (rekey ht) := by
  rw [hashtable_rehash, hashtable_rehash, rekey]
  split
  · rfl
  · exact hashtable_rehash_loop_rekey _ _ _

theorem hashtable_maybe_resize_rekey (ht : HashTable K V) :
    (hashtable_maybe_resize ht).map rekey = hashtable_maybe_resize (rekey ht) := by
  rw [hashtable_maybe_resize, hashtable_maybe_resize, rekey]
  split
  · rfl
  · split
    · exact hashtable_rehash_rekey _
    · rfl

/-! ## Operations -/

/-- `hashtable_put_real` from its `malloc` on. -/
def insert_node (ht : HashTable K V) (index : ℕ) (c : HashNode K V) :
    Except Fault (HashTable K V) := do
  let n := ht.brk
  let ht := { ht with cells := Function.update ht.cells n (some c), brk := n + 1 }
  let ht ← link_bucket ht n index
  let ht ← link_global ht n
  let ht ← ht.set_bucket index (some n)
  hashtable_maybe_resize { ht with count := ht.count + 1 }

theorem insert_node_rekey (ht : HashTable K V) (index : ℕ) (c : HashNode K V) :
    (insert_node ht index c).map rekey = insert_node (rekey ht) index (rekey_node ht.brk c) := by
  have hcells := congrArg (fun ht => ({ ht with brk := ht.brk + 1 } : HashTable (ℕ × ℕ) V))
    (rekey_update ht ht.brk (some c))
  refine map_bind_eq ((link_bucket_rekey _ _ _).trans ?_) fun ht => ?_
  · exact congrArg (fun ht' => link_bucket ht' ht.brk index) hcells
  refine map_bind_eq (link_global_rekey _ _) fun ht => ?_
  refine map_bind_eq (set_bucket_rekey _ _ _) fun ht => ?_
  exact hashtable_maybe_resize_rekey _

/-- `hashtable_delete_real` from the node that was found on. -/
def remove_node (ht : HashTable K V) (index : ℕ) (head : Ptr) (n : ℕ) :
    Except Fault (HashTable K V) := do
  let ht ← (if some n = head then ht.set_bucket index (ht.nNext n)
    else if ht.nPrev n = none then .error .null
    else ht.unless_null (ht.nPrev n) fun q =>
      { ht with nNext := Function.update ht.nNext q (ht.nNext n) })
  let ht ← unlink ht n
  let ht := ht.free n
  .ok { ht with count := ht.count - 1 }

theorem remove_node_rekey (ht : HashTable K V) (index : ℕ) (head : Ptr) (n : ℕ) :
    (remove_node ht index head n).map rekey = remove_node (rekey ht) index head n := by
  refine @map_bind_eq _ _ _ _ _ rekey rekey _ _ _ _ ?_ fun ht => ?_
  · show _ = if some n = head then _ else if ht.nPrev n = none then _ else _
    split
    · exact set_bucket_rekey _ _ _
    · split
      · rfl
      · exact unless_null_rekey _ _ fun _ => rfl
  refine map_bind_eq (unlink_rekey ht n) fun ht => ?_
  exact congrArg (fun ht' => Except.ok ({ ht' with count := ht.count - 1 } : HashTable (ℕ × ℕ) V))
    (rekey_update ht n none)

theorem hashtable_delete_node_rekey (ht : HashTable K V) (n : ℕ) :
    (hashtable_delete_node ht n).map (Prod.map rekey id) = hashtable_delete_node (rekey ht) n := by
  refine map_bind_eq (node_rekey ht n) fun c => ?_
  refine @map_bind_eq _ _ _ _ _ rekey _ _ _ _ _ ?_ fun ht => ?_
  · show _ = if ht.nPrev n ≠ none then _ else _
    split
    · exact unless_null_rekey _ _ fun _ => rfl
    · exact set_bucket_rekey _ _ _
  refine map_bind_eq (unlink_rekey ht n) fun ht => ?_
  exact congrArg (fun ht' =>
    Except.ok (({ ht' with count := ht.count - 1 } : HashTable (ℕ × ℕ) V), ht.gNext n))
    (rekey_update ht n none)

theorem hashtable_clear_loop_rekey (fuel : ℕ) : ∀ (ht : HashTable K V) p,
    (hashtable_clear_loop fuel ht p).map rekey = hashtable_clear_loop fuel (rekey ht) p := by
  induction fuel with
  | zero => intro ht p; cases p <;> rfl
  | succ fuel ih =>
      intro ht p
      cases p with
      | none => rfl
      | some n =>
          refine map_bind_eq (node_rekey ht n) fun _ => (ih _ _).trans ?_
          exact congrArg (fun ht' => hashtable_clear_loop fuel ht' (ht.gNext n))
            (rekey_update ht n none)

theorem hashtable_clear_rekey (ht : HashTable K V) :
    (hashtable_clear ht).map rekey = hashtable_clear (rekey ht) :=
  map_bind_eq (hashtable_clear_loop_rekey _ _ _) fun _ => rfl

/-! ## Look-ups -/

section Lookups

variable {hash : K → ℕ} {ef : K → K → Bool} {key_duper : K → K} {ht : HashTable K V}
  {ns : List (ℕ × HashNode (ℕ × ℕ) V)}

/-- The nodes of such a table have their addresses for keys. -/
theorem node_eq (h : Valid Prod.snd (fun a b => a == b) (rekey ht) ns)
    {x : ℕ × HashNode (ℕ × ℕ) V} (hx : x ∈ ns) :
    ∃ c, ht.cells x.1 = some c ∧ x.2 = rekey_node x.1 c := by
  obtain ⟨c, hc, heq⟩ := Option.map_eq_some_iff.mp (h.cells x hx)
  exact ⟨c, hc, heq.symm⟩

/-- A look-up ends at a node with this hash, or at none. -/
theorem bucket_find_ends (h : Valid Prod.snd (fun a b => a == b) (rekey ht) ns) (hroom : Roomy ht)
    (k : ℕ) (key : K) :
    bucket_find ef ht k key (ht.brk + 1) (ht.nodes (ht.index k)) = .ok none
      ∨ ∃ n c, bucket_find ef ht k key (ht.brk + 1) (ht.nodes (ht.index k)) = .ok (some n)
        ∧ ht.cells n = some c ∧ c.hash = k ∧ (n, rekey_node n c) ∈ ns := by
  obtain ⟨b, hb⟩ := h.buckets
  -- the chain of the bucket is the same under both keys; only the test is not
  have hsub : b (ht.index k) ⊆ ns.map Prod.fst := fun n hn => ((hb.mem _ n).mp hn).1
  have hlive : ∀ n ∈ b (ht.index k), ∃ c, ht.cells n = some c := by
    intro n hn
    obtain ⟨x, hx, rfl⟩ := List.mem_map.mp (hsub hn)
    obtain ⟨c, hc, -⟩ := node_eq h hx
    exact ⟨c, hc⟩
  have hheads : ht.nodes (ht.index k) = first (b (ht.index k)) none :=
    hb.heads _ (h.index_lt hroom k)
  have hlen : (b (ht.index k)).length ≤ ht.brk := h.length_le (hb.nodup _) hsub
  rw [hheads, bucket_find_chain k key _ _ none (hb.chains _) hlive (by omega)]
  cases hfind : (b (ht.index k)).find? (tests ef ht k key) with
  | none => exact Or.inl rfl
  | some n =>
      obtain ⟨x, hx, rfl⟩ := List.mem_map.mp (hsub (List.mem_of_find?_eq_some hfind))
      obtain ⟨c, hc, heq⟩ := node_eq h hx
      have htest := List.find?_some hfind
      rw [tests, hc, Option.any_some, decide_eq_true_eq] at htest
      exact Or.inr ⟨x.1, c, rfl, hc, htest.1, heq ▸ hx⟩

theorem find_address (h : Valid Prod.snd (fun a b => a == b) (rekey ht) ns) {n : ℕ}
    {c : HashNode K V} (hx : (n, rekey_node n c) ∈ ns) :
    ns.find? (fun x => (n, c.hash) == x.2.key) = some (n, rekey_node n c) := by
  have hkey : ((n, c.hash) == (rekey_node n c).key) = true := beq_self_eq_true _
  cases hfind : ns.find? fun x => (n, c.hash) == x.2.key with
  | none => exact absurd hkey (List.find?_eq_none.mp hfind _ hx)
  | some y =>
      have hkey' : ((n, c.hash) == y.2.key) = true := by simpa using List.find?_some hfind
      rw [h.eq_of_match addresses_keys hx (List.mem_of_find?_eq_some hfind) hkey hkey']

/-- The next address is not among the keys yet. -/
theorem find_fresh (h : Valid Prod.snd (fun a b => a == b) (rekey ht) ns) (k : ℕ) :
    (ns.find? fun x => (ht.brk, k) == x.2.key) = none := by
  rw [List.find?_eq_none]
  intro x hx hkey
  obtain ⟨c, -, heq⟩ := node_eq h hx
  have hlt : x.1 < ht.brk := h.allocated x hx
  rw [heq, beq_iff_eq] at hkey
  exact absurd (congrArg Prod.fst hkey) (Nat.ne_of_gt hlt)

/-! ## One operation -/

theorem contains_of_find {head r : Ptr} {key : K}
    (hbucket : ht.bucket (ht.index (hash key)) = .ok head)
    (hfind : bucket_find ef ht (hash key) key (ht.brk + 1) head = .ok r) :
    hashtable_contains hash ef ht key = .ok r.isSome := by
  rw [hashtable_contains, hashtable_quick_contains, hbucket, ok_bind, hfind, ok_bind]

theorem step_put_none {head : Ptr} {key : K} (hbucket : ht.bucket (ht.index (hash key)) = .ok head)
    (hfind : bucket_find ef ht (hash key) key (ht.brk + 1) head = .ok none) (preserve : Bool)
    (value : V) :
    step hash ef key_duper ht (.put preserve key value)
      = insert_node ht (ht.index (hash key)) ⟨hash key, key_duper key, value⟩ := by
  rw [step, hashtable_put, hashtable_put_real]
  simp only
  rw [hbucket, ok_bind, hfind, ok_bind, insert_node]
  simp only [bind_assoc, ok_bind, bind_ok]

theorem step_put_some {head : Ptr} {key : K} {n : ℕ} {c : HashNode K V}
    (hbucket : ht.bucket (ht.index (hash key)) = .ok head)
    (hfind : bucket_find ef ht (hash key) key (ht.brk + 1) head = .ok (some n))
    (hc : ht.cells n = some c) (preserve : Bool) (value : V) :
    step hash ef key_duper ht (.put preserve key value)
      = .ok (if preserve then ht
        else { ht with cells := Function.update ht.cells n (some { c with data := value }) }) := by
  rw [step, hashtable_put, hashtable_put_real]
  simp only
  rw [hbucket, ok_bind, hfind, ok_bind]
  simp only
  rw [node_ok hc, ok_bind]
  cases preserve <;> rfl

theorem step_delete_none {head : Ptr} {key : K}
    (hbucket : ht.bucket (ht.index (hash key)) = .ok head)
    (hfind : bucket_find ef ht (hash key) key (ht.brk + 1) head = .ok none) :
    step hash ef key_duper ht (.delete key) = .ok ht := by
  rw [step, hashtable_delete, hashtable_delete_real]
  simp only
  rw [hbucket, ok_bind, hfind, ok_bind, ok_bind]

theorem step_delete_some {head : Ptr} {key : K} {n : ℕ}
    (hbucket : ht.bucket (ht.index (hash key)) = .ok head)
    (hfind : bucket_find ef ht (hash key) key (ht.brk + 1) head = .ok (some n)) :
    step hash ef key_duper ht (.delete key) = remove_node ht (ht.index (hash key)) head n := by
  rw [step, hashtable_delete, hashtable_delete_real]
  simp only
  rw [hbucket, ok_bind, hfind, ok_bind, remove_node]
  simp only [bind_assoc, ok_bind]

end Lookups

/-! ## One operation with addresses -/

/-- With addresses for keys the table is well formed, with the entries and the capacity of an
association list. -/
abbrev Shaped (ht : HashTable K V) (s : Assoc (ℕ × ℕ) V) : Prop :=
  Simulates Prod.snd (fun a b => a == b) (rekey ht) s

/-- The operation puts something under a new key. -/
def Adds (hash : K → ℕ) (ef : K → K → Bool) (ht : HashTable K V) : Op K V → Prop
  | .put _ key _ => hashtable_contains hash ef ht key = .ok false
  | _ => False

section Follows

variable {hash : K → ℕ} {ef : K → K → Bool} {key_duper : K → K} {ht : HashTable K V}
  {s : Assoc (ℕ × ℕ) V}

/-- The table with addresses for keys does what the table does, in an operation of its own
that adds an entry just if this one does. -/
def Follows (hash : K → ℕ) (ef : K → K → Bool) (key_duper : K → K) (ht : HashTable K V)
    (s : Assoc (ℕ × ℕ) V) (op : Op K V) : Prop :=
  ∃ op', (step hash ef key_duper ht op).map rekey
      = step Prod.snd (fun a b => a == b) id (rekey ht) op'
    ∧ (Adds hash ef ht op →
      (list_step (fun a b => a == b) id s.entries op').length = s.entries.length + 1)
    ∧ (¬ Adds hash ef ht op →
      (list_step (fun a b => a == b) id s.entries op').length ≤ s.entries.length)

theorem put_follows (h : Shaped ht s) (hcap : s.capacity < 2 ^ 61) (preserve : Bool) (key : K) (value : V) :
    Follows hash ef key_duper ht s (.put preserve key value) := by
  obtain ⟨ns, hvalid, hentries, hcapacity, hlt, -⟩ := h
  have hroom : Roomy (rekey ht) := ⟨by omega, by omega⟩
  have hbucket : ht.bucket (ht.index (hash key)) = .ok (ht.nodes (ht.index (hash key))) :=
    hvalid.bucket hroom (hash key)
  have hlook := hvalid.bucket_find addresses_keys hroom
  rcases @bucket_find_ends K V ef ht ns hvalid hroom (hash key) key with
    hfind | ⟨n, c, hfind, hc, hhash, hx⟩
  · -- the new node's address is the new key
    have hnew : (s.entries.any fun e => (ht.brk, hash key) == e.1) = false := by
      rw [← hentries, any_entries, find_fresh hvalid, Option.isSome_none]
    have hlook' := hlook (ht.brk, hash key)
    rw [find_fresh hvalid, Option.map_none] at hlook'
    have hadds : Adds hash ef ht (.put preserve key value) := contains_of_find hbucket hfind
    refine ⟨.put preserve (ht.brk, hash key) value, ?_, fun _ => ?_, absurd hadds⟩
    · have hother := @step_put_none (ℕ × ℕ) V Prod.snd (fun a b => a == b) id (rekey ht) _
        (ht.brk, hash key) (hvalid.bucket hroom _) hlook' preserve value
      rw [step_put_none hbucket hfind, insert_node_rekey, hother]
      rfl
    · rw [list_step, hnew, if_neg Bool.false_ne_true, List.length_append]
      rfl
  · have hany : (s.entries.any fun e => (n, hash key) == e.1) = true := by
      rw [← hentries, any_entries, ← hhash, find_address hvalid hx, Option.isSome_some]
    have hlook' := hlook (n, c.hash)
    rw [find_address hvalid hx, Option.map_some] at hlook'
    have hkept : ¬ Adds hash ef ht (.put preserve key value) := by
      show ¬ hashtable_contains hash ef ht key = _
      rw [contains_of_find hbucket hfind]
      simp
    refine ⟨.put preserve (n, hash key) value, ?_, fun hadds => absurd hadds hkept,
      fun _ => (length_put_present hany preserve value).le⟩
    have hother := @step_put_some (ℕ × ℕ) V Prod.snd (fun a b => a == b) id (rekey ht) _
      (n, c.hash) n _ (hvalid.bucket hroom _) hlook' (hvalid.cells _ hx) preserve value
    rw [step_put_some hbucket hfind hc, ← hhash, hother]
    cases preserve with
    | true => rfl
    | false => exact congrArg Except.ok (rekey_update ht n (some { c with data := value }))

theorem delete_follows (h : Shaped ht s) (hcap : s.capacity < 2 ^ 61) (key : K) :
    Follows hash ef key_duper ht s (.delete key) := by
  obtain ⟨ns, hvalid, -, hcapacity, hlt, -⟩ := h
  have hroom : Roomy (rekey ht) := ⟨by omega, by omega⟩
  have hbucket : ht.bucket (ht.index (hash key)) = .ok (ht.nodes (ht.index (hash key))) :=
    hvalid.bucket hroom (hash key)
  have hlook := hvalid.bucket_find addresses_keys hroom
  rcases @bucket_find_ends K V ef ht ns hvalid hroom (hash key) key with
    hfind | ⟨n, c, hfind, hc, hhash, hx⟩
  · have hlook' := hlook (ht.brk, hash key)
    rw [find_fresh hvalid, Option.map_none] at hlook'
    refine ⟨.delete (ht.brk, hash key), ?_, False.elim, fun _ => List.length_filter_le _ _⟩
    have hother := @step_delete_none (ℕ × ℕ) V Prod.snd (fun a b => a == b) id (rekey ht) _
      (ht.brk, hash key) (hvalid.bucket hroom _) hlook'
    rw [step_delete_none hbucket hfind, hother]
    rfl
  · have hlook' := hlook (n, c.hash)
    rw [find_address hvalid hx, Option.map_some] at hlook'
    refine ⟨.delete (n, c.hash), ?_, False.elim, fun _ => List.length_filter_le _ _⟩
    have hother := @step_delete_some (ℕ × ℕ) V Prod.snd (fun a b => a == b) id (rekey ht) _
      (n, c.hash) n (hvalid.bucket hroom _) hlook'
    rw [step_delete_some hbucket hfind, remove_node_rekey, ← hhash, hother]
    rfl

/-- **The table goes the way of one with addresses for keys**, in every operation. -/
theorem step_follows (h : Shaped ht s) (hcap : s.capacity < 2 ^ 61) (op : Op K V) :
    Follows hash ef key_duper ht s op := by
  cases op with
  | put preserve key value => exact put_follows h hcap preserve key value
  | delete key => exact delete_follows h hcap key
  | delete_node i =>
      refine ⟨.delete_node i, ?_, False.elim, fun _ => (List.eraseIdx_sublist _ _).length_le⟩
      refine map_bind_eq (node_at_rekey ht i ht.gHead) fun p => ?_
      cases p with
      | none => rfl
      | some n => exact map_bind_eq (hashtable_delete_node_rekey ht n) fun _ => rfl
  | clear =>
      exact ⟨.clear, hashtable_clear_rekey ht, False.elim, fun _ => Nat.zero_le _⟩

end Follows

end PkgPlugins.HashtableRekey
