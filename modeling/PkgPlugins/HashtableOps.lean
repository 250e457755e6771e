/-
What the operations of a hash table do to its chains.

Each operation that is given a well-formed table with room for its buckets (`Valid`,
`Roomy`) ends without a fault, in a table that is well formed again; its nodes are
those before, in the same order, with one changed, one more at the end, one less,
or none left.
-/
import PkgPlugins.HashtableChains

set_option autoImplicit false

namespace PkgPlugins.HashtableOps

open PkgPlugins.Fallible PkgPlugins.Links PkgPlugins.Hashtable PkgPlugins.HashtableChains

variable {K V : Type} {hash : K → ℕ} {ef : K → K → Bool} {key_duper : K → K}
  {ht : HashTable K V} {ns : List (ℕ × HashNode K V)}

/-! ## Putting -/

theorem link_global_eq (hlive : Followable ht ht.gTail) (n : ℕ) :
    link_global ht n = .ok { ht with
      gPrev := Function.update ht.gPrev n ht.gTail
      gTail := some n
      gNext := write (Function.update ht.gNext n none) ht.gTail (some n)
      gHead := if ht.gHead = none then some n else ht.gHead } := by
  rw [link_global]
  cases htail : ht.gTail with
  | none =>
      simp only [HashTable.unless_null, write_none, ok_bind]
      split <;> rfl
  | some m =>
      simp only [HashTable.unless_null, write_some]
      rw [if_pos (hlive m htail), ok_bind]
      split <;> rfl

/-- Data stored in a node. -/
def set_data (n : ℕ) (value : V) (x : ℕ × HashNode K V) : ℕ × HashNode K V :=
  if x.1 = n then (x.1, { x.2 with data := value }) else x

theorem set_data_fst (n : ℕ) (value : V) (x : ℕ × HashNode K V) :
    (set_data n value x).1 = x.1 := by
  unfold set_data
  split <;> rfl

theorem set_data_key (n : ℕ) (value : V) (x : ℕ × HashNode K V) :
    (set_data n value x).2.key = x.2.key ∧ (set_data n value x).2.hash = x.2.hash := by
  unfold set_data
  split <;> exact ⟨rfl, rfl⟩

theorem map_set_data_fst (n : ℕ) (value : V) (ns : List (ℕ × HashNode K V)) :
    (ns.map (set_data n value)).map Prod.fst = ns.map Prod.fst := by
  rw [List.map_map]
  exact List.map_congr_left fun x _ => set_data_fst n value x

/-- Other data in a node leave the chains as they are. -/
theorem valid_set_data (h : Valid hash ef ht ns) {x : ℕ × HashNode K V} (hx : x ∈ ns) (value : V) :
    Valid hash ef
      { ht with cells := Function.update ht.cells x.1 (some { x.2 with data := value }) }
      (ns.map (set_data x.1 value)) := by
  have hcells : ∀ y ∈ ns, Function.update ht.cells x.1 (some { x.2 with data := value })
      (set_data x.1 value y).1
        = some (set_data x.1 value y).2 := by
    intro y hy
    rw [set_data_fst, set_data]
    by_cases hyx : y.1 = x.1
    · have hsame : y = x := List.inj_on_of_nodup_map h.nodup hy hx hyx
      rw [if_pos hyx, hyx, Function.update_self, hsame]
    · rw [if_neg hyx, Function.update_of_ne hyx, h.cells y hy]
  obtain ⟨b, hb⟩ := h.buckets
  -- a node is placed by its hash, which is not written
  have hplace : place { ht with
      cells := Function.update ht.cells x.1 (some { x.2 with data := value }) } = place ht := by
    funext n
    show (Function.update ht.cells x.1 _ n).map _ = _
    by_cases hn : n = x.1
    · rw [hn, h.place_eq hx, Function.update_self]
      rfl
    · rw [Function.update_of_ne hn]
      rfl
  constructor
  case head =>
    rw [map_set_data_fst]
    exact h.head
  case tail =>
    rw [map_set_data_fst]
    exact h.tail
  case global =>
    rw [map_set_data_fst]
    exact h.global
  case nodup =>
    rw [map_set_data_fst]
    exact h.nodup
  case cells =>
    intro y' hy'
    obtain ⟨y, hy, rfl⟩ := List.mem_map.mp hy'
    exact hcells y hy
  case allocated =>
    intro y' hy'
    obtain ⟨y, hy, rfl⟩ := List.mem_map.mp hy'
    rw [set_data_fst]
    exact h.allocated y hy
  case buckets =>
    rw [map_set_data_fst, hplace]
    exact ⟨b, hb⟩
  case count =>
    rw [List.length_map]
    exact h.count
  case hashes =>
    intro y' hy'
    obtain ⟨y, hy, rfl⟩ := List.mem_map.mp hy'
    rw [(set_data_key x.1 value y).1, (set_data_key x.1 value y).2]
    exact h.hashes y hy
  case keys =>
    rw [List.pairwise_map]
    refine h.keys.imp fun {y z} hyz => ?_
    rw [(set_data_key x.1 value y).1, (set_data_key x.1 value z).1]
    exact hyz
  case mask =>
    exact h.mask
  case size =>
    exact h.size

/-- **`hashtable_put` under a key that is there** replaces its value where it
stands, or keeps it. -/
theorem hashtable_put_present (h : Valid hash ef ht ns) (heq : KeyEquality hash ef key_duper)
    (hroom : Roomy ht) {key : K} {x : ℕ × HashNode K V}
    (hfind : ns.find? (fun x => ef key x.2.key) = some x) (preserve : Bool) (value : V) :
    hashtable_put hash ef key_duper ht preserve key value
      = .ok (if preserve then (ht, false) else
        ({ ht with cells := Function.update ht.cells x.1 (some { x.2 with data := value }) },
          true)) := by
  have hx := List.mem_of_find?_eq_some hfind
  rw [hashtable_put, hashtable_put_real]
  simp only
  rw [h.bucket hroom, ok_bind, h.bucket_find heq hroom, hfind, ok_bind, Option.map_some]
  simp only
  rw [node_ok (h.cells x hx), ok_bind]
  cases preserve <;> rfl

/-- The table once a node is allocated. -/
def allocate (ht : HashTable K V) (c : HashNode K V) : HashTable K V :=
  { ht with cells := Function.update ht.cells ht.brk (some c), brk := ht.brk + 1 }

/-- The next address is that of no node. -/
theorem brk_notMem (h : Valid hash ef ht ns) : ht.brk ∉ ns.map Prod.fst := by
  intro hmem
  obtain ⟨x, hx, hbrk⟩ := List.mem_map.mp hmem
  have hlt := h.allocated x hx
  omega

theorem allocate_cells (h : Valid hash ef ht ns) (c : HashNode K V) {n : ℕ}
    (hn : n ∈ ns.map Prod.fst) : (allocate ht c).cells n = ht.cells n := by
  show Function.update ht.cells ht.brk _ n = ht.cells n
  rw [Function.update_of_ne]
  exact fun heq => brk_notMem h (heq ▸ hn)

theorem place_allocate (ht : HashTable K V) (c : HashNode K V) :
    place (allocate ht c) ht.brk = some (ht.index c.hash) := by
  rw [place]
  show (Function.update ht.cells ht.brk _ ht.brk).map _ = _
  rw [Function.update_self]
  rfl

theorem bucketed_allocate (h : Valid hash ef ht ns) (c : HashNode K V) {b : ℕ → List ℕ}
    (hb : Bucketed ht.size ht.nodes ht.nNext ht.nPrev (place ht) (ns.map Prod.fst) b) :
    Bucketed ht.size ht.nodes ht.nNext ht.nPrev (place (allocate ht c)) (ns.map Prod.fst) b := by
  refine hb.congr (fun n => Iff.rfl) fun n hn => ?_
  rw [place, allocate_cells h c hn]
  rfl

/-- The table with a new node of the bucket `i`, in front of `head`. -/
def with_node (ht : HashTable K V) (c : HashNode K V) (i : ℕ) (head : Ptr) : HashTable K V :=
  { allocate ht c with
    nNext := Function.update ht.nNext ht.brk head
    nPrev := write (Function.update ht.nPrev ht.brk none) head (some ht.brk)
    gPrev := Function.update ht.gPrev ht.brk ht.gTail
    gTail := some ht.brk
    gNext := write (Function.update ht.gNext ht.brk none) ht.gTail (some ht.brk)
    gHead := if ht.gHead = none then some ht.brk else ht.gHead
    nodes := Function.update ht.nodes i (some ht.brk)
    count := ht.count + 1 }

/-- A node whose key no other key equals keeps the table well formed. -/
theorem valid_with_node (h : Valid hash ef ht ns) {c : HashNode K V} (hhash : c.hash = hash c.key)
    (hnew : ∀ x ∈ ns, ef x.2.key c.key = false) {b : ℕ → List ℕ}
    (hb : Bucketed ht.size ht.nodes ht.nNext ht.nPrev (place ht) (ns.map Prod.fst) b) :
    Valid hash ef (with_node ht c (ht.index c.hash) (first (b (ht.index c.hash)) none))
      (ns ++ [(ht.brk, c)]) := by
  have hfresh := brk_notMem h
  have hnodup : (ns.map Prod.fst ++ [ht.brk]).Nodup := by
    rw [List.nodup_append]
    refine ⟨h.nodup, by simp, fun n hn m hm heq' => hfresh ?_⟩
    rwa [heq', List.mem_singleton.mp hm] at hn
  have hmap : (ns ++ [(ht.brk, c)]).map Prod.fst = ns.map Prod.fst ++ [ht.brk] := by simp
  constructor
  case head =>
    rw [hmap, first_append]
    show (if ht.gHead = none then some ht.brk else ht.gHead) = _
    rw [h.head]
    -- the new node is the first one of an empty table
    by_cases hnil : ns.map Prod.fst = []
    · rw [hnil, first_nil, first_nil, if_pos rfl]
      rfl
    · rw [if_neg (fun heq' => hnil (first_eq_none_iff.mp heq'))]
      obtain ⟨n, as, has⟩ := List.exists_cons_of_ne_nil hnil
      rw [has]
      rfl
  case tail =>
    rw [hmap, last_append]
    rfl
  case global =>
    show Chain (write (Function.update ht.gNext ht.brk none) ht.gTail (some ht.brk))
      (Function.update ht.gPrev ht.brk ht.gTail) none _ none
    rw [hmap, h.tail]
    exact h.global.append hnodup
  case nodup =>
    rw [hmap]
    exact hnodup
  case cells =>
    intro x hx
    rcases List.mem_append.mp hx with hx | hx
    · exact (allocate_cells h c (List.mem_map_of_mem hx)).trans (h.cells x hx)
    · rw [List.mem_singleton.mp hx]
      exact Function.update_self ..
  case allocated =>
    intro x hx
    show x.1 < ht.brk + 1
    rcases List.mem_append.mp hx with hx | hx
    · exact Nat.lt_succ_of_lt (h.allocated x hx)
    · rw [List.mem_singleton.mp hx]
      exact Nat.lt_succ_self _
  case buckets =>
    rw [hmap]
    -- it goes to the front of its bucket, and to the end of the global chain
    refine ⟨_, ((bucketed_allocate h c hb).prepend hfresh (place_allocate ht c)).congr
      (fun n => ?_) fun n _ => rfl⟩
    rw [List.mem_append, List.mem_singleton, List.mem_cons]
    tauto
  case count =>
    rw [List.length_append]
    exact congrArg (· + 1) h.count
  case hashes =>
    intro x hx
    rcases List.mem_append.mp hx with hx | hx
    · exact h.hashes x hx
    · rw [List.mem_singleton.mp hx]
      exact hhash
  case keys =>
    rw [List.pairwise_append]
    refine ⟨h.keys, List.pairwise_singleton _ _, fun x hx y hy => ?_⟩
    rw [List.mem_singleton.mp hy]
    exact hnew x hx
  case mask =>
    exact h.mask
  case size =>
    exact h.size

/-- **`hashtable_put` under a new key** adds a node at the end, and then may
resize. -/
theorem hashtable_put_new (h : Valid hash ef ht ns) (heq : KeyEquality hash ef key_duper)
    (hroom : Roomy ht) {key : K} (hfind : ns.find? (fun x => ef key x.2.key) = none)
    (preserve : Bool) (value : V) :
    ∃ ht', Valid hash ef ht' (ns ++ [(ht.brk, ⟨hash key, key_duper key, value⟩)])
      ∧ ht'.capacity = ht.capacity
      ∧ hashtable_put hash ef key_duper ht preserve key value
        = (do let ht ← hashtable_maybe_resize ht'; .ok (ht, true)) := by
  obtain ⟨b, hb⟩ := h.buckets
  let c : HashNode K V := ⟨hash key, key_duper key, value⟩
  have hnew : ∀ x ∈ ns, ef x.2.key c.key = false := by
    intro x hx
    by_contra hne
    rw [Bool.not_eq_false] at hne
    have hkey : ef key x.2.key = true :=
      heq.equivalence.trans (heq.copy key) (heq.equivalence.symm hne)
    have hnot := List.find?_eq_none.mp hfind x hx
    exact hnot hkey
  have hlive : ∀ n ∈ ns.map Prod.fst, ((allocate ht c).cells n).isSome := by
    intro n hn
    rw [allocate_cells h c hn]
    exact h.isSome hn
  have hindex := h.index_lt hroom (hash key)
  have hlink :=
    link_bucket_eq (allocate ht c) (bucketed_allocate h c hb) hindex hlive ht.brk
  refine ⟨with_node ht c (ht.index (hash key)) (first (b (ht.index (hash key))) none),
    valid_with_node h (heq.hash_eq _ _ (heq.copy key)) hnew hb, rfl, ?_⟩
  rw [hashtable_put, hashtable_put_real]
  simp only
  rw [h.bucket hroom, ok_bind, h.bucket_find heq hroom, hfind, ok_bind, Option.map_none]
  simp only
  rw [allocate] at hlink
  rw [hlink, ok_bind, link_global_eq, ok_bind, HashTable.set_bucket, if_pos hindex, ok_bind]
  · rfl
  · intro n hn
    exact hlive n (last_mem (h.tail.symm.trans hn))

/-! ## Deleting -/

/-- The table without a node of the bucket `i`. -/
def without (ht : HashTable K V) (n i : ℕ) : HashTable K V :=
  { ht with
    nodes := if ht.nPrev n = none then Function.update ht.nodes i (ht.nNext n) else ht.nodes
    nNext := write ht.nNext (ht.nPrev n) (ht.nNext n)
    nPrev := write ht.nPrev (ht.nNext n) (ht.nPrev n)
    gNext := write ht.gNext (ht.gPrev n) (ht.gNext n)
    gPrev := write ht.gPrev (ht.gNext n) (ht.gPrev n)
    gHead := if ht.gPrev n = none then ht.gNext n else ht.gHead
    gTail := if ht.gNext n = none then ht.gPrev n else ht.gTail
    count := ht.count - 1
    cells := Function.update ht.cells n none }

/-- A write where the source has an `else` branch for `NULL`. -/
theorem unless_null_or_ok {ht ht' ht'' : HashTable K V} {p : Ptr} (hlive : Followable ht p)
    {set : ℕ → HashTable K V} (hnone : p = none → ht'' = ht')
    (hsome : ∀ n, p = some n → set n = ht') :
    (if p ≠ none then ht.unless_null p set else .ok ht'') = .ok ht' := by
  cases p with
  | none => rw [if_neg (by simp), hnone rfl]
  | some n =>
      have hn := hlive n rfl
      rw [if_pos (by simp), HashTable.unless_null, if_pos hn, hsome n rfl]

theorem unlink_eq {n : ℕ} (hnext : Followable ht (ht.nNext n)) (hprev : Followable ht (ht.gPrev n))
    (hgnext : Followable ht (ht.gNext n)) :
    unlink ht n = .ok { ht with
      nPrev := write ht.nPrev (ht.nNext n) (ht.nPrev n)
      gNext := write ht.gNext (ht.gPrev n) (ht.gNext n)
      gPrev := write ht.gPrev (ht.gNext n) (ht.gPrev n)
      gHead := if ht.gPrev n = none then ht.gNext n else ht.gHead
      gTail := if ht.gNext n = none then ht.gPrev n else ht.gTail } := by
  rw [unlink]
  refine bind_of_ok (a := { ht with nPrev := write ht.nPrev (ht.nNext n) (ht.nPrev n) }) ?_ ?_
  · apply unless_null_ok hnext
    · intro h
      rw [h, write_none]
    · intro m h
      rw [h, write_some]
  refine bind_of_ok (a := { ht with
    nPrev := write ht.nPrev (ht.nNext n) (ht.nPrev n)
    gNext := write ht.gNext (ht.gPrev n) (ht.gNext n)
    gHead := if ht.gPrev n = none then ht.gNext n else ht.gHead }) ?_ ?_
  · apply unless_null_or_ok
    · exact hprev
    · intro (h : ht.gPrev n = none)
      rw [if_pos h, h, write_none]
    · intro m (h : ht.gPrev n = some m)
      have hne : ht.gPrev n ≠ none := by simp [h]
      rw [if_neg hne, h, write_some]
  · simp only [write_same]
    apply unless_null_or_ok
    · exact hgnext
    · intro (h : ht.gNext n = none)
      rw [if_pos h, h, write_none]
    · intro m (h : ht.gNext n = some m)
      have hne : ht.gNext n ≠ none := by simp [h]
      rw [if_neg hne, h, write_some]

/-- The neighbours of a node in the global chain. -/
theorem global_fields {pre post : List (ℕ × HashNode K V)} {x : ℕ × HashNode K V}
    (h : Valid hash ef ht (pre ++ x :: post)) :
    ht.gNext x.1 = first (post.map Prod.fst) none ∧ ht.gPrev x.1 = last none (pre.map Prod.fst) := by
  have hglobal := h.global
  rw [List.map_append, List.map_cons] at hglobal
  exact hglobal.fields

/-- What the links of a node point to is there. -/
theorem followable_links (h : Valid hash ef ht ns) {x : ℕ × HashNode K V} (hx : x ∈ ns) :
    Followable ht (ht.nNext x.1) ∧ Followable ht (ht.nPrev x.1) ∧ Followable ht (ht.gNext x.1)
      ∧ Followable ht (ht.gPrev x.1) := by
  obtain ⟨b, hb⟩ := h.buckets
  have hmem := List.mem_map_of_mem (f := Prod.fst) hx
  obtain ⟨pre, post, hsplit⟩ := hb.split hmem (h.place_eq hx)
  have hchain := hb.chains (ht.index x.2.hash)
  have hsub : ∀ n ∈ b (ht.index x.2.hash), n ∈ ns.map Prod.fst := fun n hn => ((hb.mem _ n).mp hn).1
  rw [hsplit] at hchain hsub
  obtain ⟨preg, postg, rfl⟩ := List.append_of_mem hx
  rw [hchain.fields.1, hchain.fields.2, (global_fields h).1, (global_fields h).2]
  refine ⟨fun n hn => h.isSome (hsub n ?_), fun n hn => h.isSome (hsub n ?_),
    fun n hn => h.isSome ?_, fun n hn => h.isSome ?_⟩
  · exact List.mem_append_right _ (List.mem_cons_of_mem _ (first_mem hn))
  · exact List.mem_append_left _ (last_mem hn)
  · rw [List.map_append, List.map_cons]
    exact List.mem_append_right _ (List.mem_cons_of_mem _ (first_mem hn))
  · rw [List.map_append]
    exact List.mem_append_left _ (last_mem hn)

/-- A node is the first of its bucket just if nothing is before it. -/
theorem head_iff (h : Valid hash ef ht ns) (hroom : Roomy ht) {x : ℕ × HashNode K V}
    (hx : x ∈ ns) : some x.1 = ht.nodes (ht.index x.2.hash) ↔ ht.nPrev x.1 = none := by
  obtain ⟨b, hb⟩ := h.buckets
  obtain ⟨pre, post, hsplit⟩ := hb.split (List.mem_map_of_mem hx) (h.place_eq hx)
  have hchain := hb.chains (ht.index x.2.hash)
  have hnodup := hb.nodup (ht.index x.2.hash)
  rw [hb.heads _ (h.index_lt hroom _)]
  rw [hsplit] at hchain hnodup ⊢
  rw [hchain.fields.2, last_eq_none_iff]
  constructor
  · intro heq
    by_contra hne
    obtain ⟨n, pre, rfl⟩ := List.exists_cons_of_ne_nil hne
    rw [List.cons_append, first_cons, Option.some.injEq] at heq
    rw [List.cons_append, List.nodup_cons, ← heq] at hnodup
    exact hnodup.1 (by simp)
  · rintro rfl
    rfl

/-- A table without one of its nodes. -/
theorem valid_without {pre post : List (ℕ × HashNode K V)} {x : ℕ × HashNode K V}
    (h : Valid hash ef ht (pre ++ x :: post)) :
    Valid hash ef (without ht x.1 (ht.index x.2.hash)) (pre ++ post) := by
  have hx : x ∈ pre ++ x :: post := by simp
  have hmap : (pre ++ x :: post).map Prod.fst = pre.map Prod.fst ++ x.1 :: post.map Prod.fst := by
    simp
  have hsub : (pre ++ post).Sublist (pre ++ x :: post) :=
    (List.sublist_cons_self x post).append_left pre
  have hnodup := h.nodup
  rw [hmap, List.nodup_middle, List.nodup_cons] at hnodup
  -- the other nodes are at other addresses
  have hne : ∀ y ∈ pre ++ post, y.1 ≠ x.1 := by
    intro y hy heq
    apply hnodup.1
    rw [← heq, ← List.map_append]
    exact List.mem_map_of_mem hy
  obtain ⟨hnext, hprev⟩ := global_fields h
  constructor
  case head =>
    show (if ht.gPrev x.1 = none then ht.gNext x.1 else ht.gHead) = _
    rw [hnext, hprev, h.head, hmap, first_remove, List.map_append]
  case tail =>
    show (if ht.gNext x.1 = none then ht.gPrev x.1 else ht.gTail) = _
    rw [hnext, hprev, h.tail, hmap, last_remove, List.map_append]
  case global =>
    show Chain (write ht.gNext (ht.gPrev x.1) (ht.gNext x.1))
      (write ht.gPrev (ht.gNext x.1) (ht.gPrev x.1)) none _ none
    have hglobal := h.global
    have hnodup' := h.nodup
    rw [hmap] at hglobal hnodup'
    rw [hnext, hprev, List.map_append]
    exact hglobal.remove hnodup'
  case nodup =>
    exact h.nodup.sublist (hsub.map Prod.fst)
  case cells =>
    intro y hy
    show Function.update ht.cells x.1 none y.1 = some y.2
    rw [Function.update_of_ne (hne y hy), h.cells y (hsub.subset hy)]
  case allocated =>
    exact fun y hy => h.allocated y (hsub.subset hy)
  case buckets =>
    obtain ⟨b, hb⟩ := h.buckets
    refine hb.remove (List.mem_map_of_mem hx) (h.place_eq hx) (fun m => ?_) fun m hm => ?_
    · rw [hmap, List.map_append, List.mem_append, List.mem_append, List.mem_cons]
      rw [List.mem_append] at hnodup
      constructor
      · intro hm
        exact ⟨hm.imp_right Or.inr, fun heq => hnodup.1 (heq ▸ hm)⟩
      · rintro ⟨hm, hmx⟩
        exact hm.imp_right fun hor => hor.resolve_left hmx
    · show (Function.update ht.cells x.1 none m).map _ = (ht.cells m).map _
      rw [Function.update_of_ne hm]
      rfl
  case count =>
    show ht.count - 1 = _
    rw [h.count, List.length_append, List.length_append, List.length_cons]
    omega
  case hashes =>
    exact fun y hy => h.hashes y (hsub.subset hy)
  case keys =>
    exact h.keys.sublist hsub
  case mask =>
    exact h.mask
  case size =>
    exact h.size

/-- **`hashtable_delete_node`** takes the node out of both its chains, and gives the
one after it. -/
theorem hashtable_delete_node_eq (h : Valid hash ef ht ns) (hroom : Roomy ht)
    {x : ℕ × HashNode K V} (hx : x ∈ ns) :
    hashtable_delete_node ht x.1
      = .ok (without ht x.1 (ht.index x.2.hash), ht.gNext x.1) := by
  obtain ⟨hnext, hprev, hgnext, hgprev⟩ := followable_links h hx
  rw [hashtable_delete_node, node_ok (h.cells x hx), ok_bind]
  refine bind_of_ok (a := { ht with
    nodes := if ht.nPrev x.1 = none then
      Function.update ht.nodes (ht.index x.2.hash) (ht.nNext x.1) else ht.nodes
    nNext := write ht.nNext (ht.nPrev x.1) (ht.nNext x.1) }) ?_ ?_
  · rw [h.set_bucket hroom]
    apply unless_null_or_ok hprev
    · intro hnone
      rw [if_pos hnone, hnone, write_none]
    · intro m hm
      have hne : ht.nPrev x.1 ≠ none := by simp [hm]
      rw [if_neg hne, hm, write_some]
  · simp only
    rw [unlink_eq, ok_bind]
    · simp only [write_same]
      rfl
    · simp only [write_same]
      exact hnext
    · exact hgprev
    · exact hgnext

/-- **`hashtable_delete`** takes out the node of the key, if there is one. -/
theorem hashtable_delete_eq (h : Valid hash ef ht ns) (heq : KeyEquality hash ef key_duper)
    (hroom : Roomy ht) (key : K) :
    hashtable_delete hash ef ht key
      = .ok (match ns.find? fun x => ef key x.2.key with
        | none => (ht, false)
        | some x => (without ht x.1 (ht.index x.2.hash), true)) := by
  rw [hashtable_delete, hashtable_delete_real]
  simp only
  rw [h.bucket hroom, ok_bind, h.bucket_find heq hroom, ok_bind]
  cases hfind : ns.find? fun x => ef key x.2.key with
  | none => rfl
  | some x =>
      have hx := List.mem_of_find?_eq_some hfind
      have hkey : ef key x.2.key = true := by simpa using List.find?_some hfind
      have hhash : hash key = x.2.hash := by rw [h.hashes x hx, heq.hash_eq _ _ hkey]
      obtain ⟨hnext, hprev, hgnext, hgprev⟩ := followable_links h hx
      rw [Option.map_some, hhash]
      -- out of the bucket first, then out of the global chain
      refine bind_of_ok (a := { ht with
        nodes := if ht.nPrev x.1 = none then
          Function.update ht.nodes (ht.index x.2.hash) (ht.nNext x.1) else ht.nodes
        nNext := write ht.nNext (ht.nPrev x.1) (ht.nNext x.1) }) ?_ ?_
      · rw [h.set_bucket hroom]
        by_cases hnone : ht.nPrev x.1 = none
        · rw [if_pos ((head_iff h hroom hx).mpr hnone), if_pos hnone, hnone, write_none]
        · rw [if_neg fun hhead => hnone ((head_iff h hroom hx).mp hhead), if_neg hnone,
            if_neg hnone]
          apply unless_null_ok hprev
          · exact fun hnone' => absurd hnone' hnone
          · intro m hm
            rw [hm, write_some]
      · simp only
        rw [unlink_eq, ok_bind]
        · simp only [write_same]
          rfl
        · simp only [write_same]
          exact hnext
        · exact hgprev
        · exact hgnext

/-! ## Clearing -/

/-- The loop frees the nodes that it passes through. -/
theorem hashtable_clear_loop_spec (as : List ℕ) : ∀ (fuel : ℕ) (ht : HashTable K V),
    Path ht.gNext as → (∀ n ∈ as, (ht.cells n).isSome) → as.Nodup → as.length < fuel →
      ∃ cells, hashtable_clear_loop fuel ht (first as none) = .ok { ht with cells := cells } := by
  induction as with
  | nil =>
      intro fuel ht _ _ _ hfuel
      obtain ⟨fuel, rfl⟩ := Nat.exists_eq_succ_of_ne_zero (Nat.ne_of_gt hfuel)
      exact ⟨ht.cells, rfl⟩
  | cons n as ih =>
      intro fuel ht hpath hlive hnodup hfuel
      obtain ⟨fuel, rfl⟩ := Nat.exists_eq_succ_of_ne_zero (Nat.ne_of_gt (Nat.zero_lt_of_lt hfuel))
      rw [List.length_cons] at hfuel
      rw [List.nodup_cons] at hnodup
      rw [List.forall_mem_cons] at hlive
      obtain ⟨c, hc⟩ := Option.isSome_iff_exists.mp hlive.1
      have hrest : ∀ m ∈ as, ((ht.free n).cells m).isSome := by
        intro m hm
        show (Function.update ht.cells n none m).isSome
        rw [Function.update_of_ne]
        · exact hlive.2 m hm
        · exact fun heq => hnodup.1 (heq ▸ hm)
      obtain ⟨cells, hrun⟩ := ih fuel (ht.free n) hpath.2 hrest hnodup.2 (by omega)
      refine ⟨cells, ?_⟩
      rw [first_cons, hashtable_clear_loop, node_ok hc, ok_bind, hpath.1, hrun]
      rfl

/-- **`hashtable_clear`** leaves a table without nodes, of the same capacity. -/
theorem hashtable_clear_spec (h : Valid hash ef ht ns) :
    ∃ ht', hashtable_clear ht = .ok ht' ∧ Valid hash ef ht' [] ∧ ht'.capacity = ht.capacity := by
  have hlen := h.length_le h.nodup (List.Subset.refl _)
  obtain ⟨cells, hrun⟩ := hashtable_clear_loop_spec (ns.map Prod.fst) (ht.brk + 1)
    { ht with count := 0, gHead := none, gTail := none } h.global.path (fun n hn => h.isSome hn)
    h.nodup (by omega)
  refine ⟨HashTable.memset { ht with count := 0, gHead := none, gTail := none, cells := cells },
    ?_, ?_, rfl⟩
  · rw [hashtable_clear]
    simp only
    rw [h.head, hrun, ok_bind]
  · exact ⟨rfl, rfl, trivial, List.nodup_nil, by simp, by simp,
      ⟨fun _ => [], Bucketed.empty fun i hi => if_pos hi⟩, rfl, by simp, List.Pairwise.nil, h.mask,
      h.size⟩

/-! ## Going through a table -/

/-- The keys and values of nodes. -/
def entries (ns : List (ℕ × HashNode K V)) : List (K × V) :=
  ns.map fun x => (x.2.key, x.2.data)

theorem iterate_path {next : ℕ → Ptr} (ns : List (ℕ × HashNode K V)) : ∀ fuel : ℕ,
    Path next (ns.map Prod.fst) → (∀ x ∈ ns, ht.cells x.1 = some x.2) → ns.length < fuel →
      iterate ht next fuel (first (ns.map Prod.fst) none) = .ok (entries ns) := by
  induction ns with
  | nil =>
      intro fuel _ _ hfuel
      obtain ⟨fuel, rfl⟩ := Nat.exists_eq_succ_of_ne_zero (Nat.ne_of_gt hfuel)
      rfl
  | cons x ns ih =>
      intro fuel hpath hcells hfuel
      obtain ⟨fuel, rfl⟩ := Nat.exists_eq_succ_of_ne_zero (Nat.ne_of_gt (Nat.zero_lt_of_lt hfuel))
      rw [List.length_cons] at hfuel
      rw [List.forall_mem_cons] at hcells
      rw [List.map_cons] at hpath ⊢
      rw [first_cons, iterate, node_ok hcells.1, ok_bind, hpath.1,
        ih fuel hpath.2 hcells.2 (by omega), ok_bind]
      rfl

/-- **A loop over a table, forwards or backwards,** comes by each node once. -/
theorem forward_backward_spec (h : Valid hash ef ht ns) :
    forward ht = .ok (entries ns) ∧ backward ht = .ok (entries ns).reverse := by
  have hlen := h.length_le h.nodup (List.Subset.refl _)
  rw [List.length_map] at hlen
  constructor
  · rw [forward, h.head]
    exact iterate_path ns _ h.global.path h.cells (by omega)
  · have hpath := h.global.path_reverse
    rw [← List.map_reverse] at hpath
    rw [backward, h.tail, last_eq_first_reverse, ← List.map_reverse, entries, ← List.map_reverse]
    refine iterate_path ns.reverse _ hpath (fun x hx => h.cells x (List.mem_reverse.mp hx)) ?_
    rw [List.length_reverse]
    omega

theorem node_at_path (as : List ℕ) : ∀ i : ℕ, Path ht.gNext as →
    (∀ n ∈ as, (ht.cells n).isSome) → node_at ht i (first as none) = .ok as[i]? := by
  induction as with
  | nil => intro i _ _; cases i <;> rfl
  | cons n as ih =>
      intro i hpath hlive
      rw [List.forall_mem_cons] at hlive
      obtain ⟨c, hc⟩ := Option.isSome_iff_exists.mp hlive.1
      cases i with
      | zero => rfl
      | succ i =>
          rw [first_cons, node_at, node_ok hc, ok_bind, hpath.1, ih i hpath.2 hlive.2,
            List.getElem?_cons_succ]

/-- The node after `i` steps is the one of that number. -/
theorem node_at_spec (h : Valid hash ef ht ns) (i : ℕ) :
    node_at ht i ht.gHead = .ok (ns[i]?.map Prod.fst) := by
  rw [h.head, node_at_path _ i h.global.path fun n hn => h.isSome hn, List.getElem?_map]

/-! ## Answers -/

/-- **`hashtable_get` and `hashtable_contains`** answer from the node of the key. -/
theorem hashtable_get_contains_spec (h : Valid hash ef ht ns)
    (heq : KeyEquality hash ef key_duper) (hroom : Roomy ht) (key : K) :
    hashtable_get hash ef ht key
        = .ok ((ns.find? fun x => ef key x.2.key).map fun x => x.2.data)
      ∧ hashtable_contains hash ef ht key
        = .ok (ns.find? fun x => ef key x.2.key).isSome := by
  constructor
  · rw [hashtable_get, hashtable_quick_get, h.bucket hroom, ok_bind, h.bucket_find heq hroom,
      ok_bind]
    cases hfind : ns.find? fun x => ef key x.2.key with
    | none => rfl
    | some x =>
        rw [Option.map_some]
        simp only
        rw [node_ok (h.cells x (List.mem_of_find?_eq_some hfind)), ok_bind]
        rfl
  · rw [hashtable_contains, hashtable_quick_contains, h.bucket hroom, ok_bind,
      h.bucket_find heq hroom, ok_bind, Option.isSome_map]

/-! ## A new table -/

theorem hashtable_init_spec (capacity : ℕ) (nodes : ℕ → Ptr) :
    Valid hash ef (hashtable_init capacity nodes : HashTable K V) [] :=
  ⟨rfl, rfl, trivial, List.nodup_nil, by simp, by simp,
    ⟨fun _ => [], Bucketed.empty fun i hi => if_pos hi⟩, rfl, by simp, List.Pairwise.nil, rfl, rfl⟩

end PkgPlugins.HashtableOps
