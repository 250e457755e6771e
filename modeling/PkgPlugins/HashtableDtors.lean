/-
What becomes of the keys and the values of a hash table (`kissc/hashtable.c`).

`key_duper` copies the keys that the table keeps, and `key_dtor` and `value_dtor` destroy
what the table lets go of. Here the operations are those of `Hashtable`, with what they
store, destroy and leave, in the order of the source, and with the old value that
`hashtable_put_real` hands out.
-/
import PkgPlugins.Custody
import PkgPlugins.HashtableRuns

set_option autoImplicit false

namespace PkgPlugins.HashtableDtors

open PkgPlugins.Custody PkgPlugins.Fallible PkgPlugins.Links PkgPlugins.Hashtable
open PkgPlugins.HashtableChains PkgPlugins.HashtableOps
open PkgPlugins.HashtableRuns hiding Op step run

variable {K V : Type}

/-! ## The operations -/

/-- What a node holds. -/
inductive Item (K V : Type)
  | key (key : K)
  | value (value : V)
deriving DecidableEq

/-- The destructors that aren't `NULL`. -/
structure Dtors where
  value_dtor : Bool
  key_dtor : Bool

/-- `if (call_dtor && NULL != ht->value_dtor) ht->value_dtor(n->data);`, and the same for
the key. -/
def call_dtors (d : Dtors) (call_dtor : Bool) (c : HashNode K V) : List (Event (Item K V)) :=
  [release (call_dtor && d.value_dtor) (.value c.data),
    release (call_dtor && d.key_dtor) (.key c.key)]

/-- What `hashtable_put_real` gives; `oldvalue` is what it assigns to `*oldvalue`. -/
structure Put (K V : Type) where
  ht : HashTable K V
  changed : Bool
  oldvalue : Option V
  events : List (Event (Item K V))

section Keys

variable (hash : K → ℕ) (ef : K → K → Bool) (key_duper : K → K) (d : Dtors)

def hashtable_put_real (ht : HashTable K V) (preserve : Bool) (h : ℕ) (key : K) (value : V) :
    Except Fault (Put K V) := do
  let index := ht.index h
  let head ← ht.bucket index
  match ← bucket_find ef ht h key (ht.brk + 1) head with
  | some n =>
      let c ← ht.node n
      if preserve then .ok ⟨ht, false, some c.data, []⟩
      else
        -- the old value is destroyed before the new one is stored
        .ok ⟨{ ht with cells := Function.update ht.cells n (some { c with data := value }) }, true,
          some c.data, [release d.value_dtor (.value c.data), ⟨.stored, .value value⟩]⟩
  | none =>
      let n := ht.brk
      let ht := { ht with
        cells := Function.update ht.cells n (some ⟨h, key_duper key, value⟩)
        brk := n + 1 }
      let ht ← link_bucket ht n index
      let ht ← link_global ht n
      let ht ← ht.set_bucket index (some n)
      let ht ← hashtable_maybe_resize { ht with count := ht.count + 1 }
      .ok ⟨ht, true, none, [⟨.stored, .key (key_duper key)⟩, ⟨.stored, .value value⟩]⟩

def hashtable_put (ht : HashTable K V) (preserve : Bool) (key : K) (value : V) :
    Except Fault (Put K V) :=
  hashtable_put_real ef key_duper d ht preserve (hash key) key value

/-- `hashtable_delete_node`, whose destructors are always called. -/
def hashtable_delete_node (ht : HashTable K V) (n : ℕ) :
    Except Fault (HashTable K V × Ptr × List (Event (Item K V))) := do
  let c ← ht.node n
  let ht ← (if ht.nPrev n ≠ none then
      ht.unless_null (ht.nPrev n) fun q =>
        { ht with nNext := Function.update ht.nNext q (ht.nNext n) }
    else ht.set_bucket (ht.index c.hash) (ht.nNext n))
  let ht ← unlink ht n
  let ht := { ht with count := ht.count - 1 }
  .ok (ht.free n, ht.gNext n, call_dtors d true c)

def hashtable_delete_real (ht : HashTable K V) (h : ℕ) (key : K) (call_dtor : Bool) :
    Except Fault (HashTable K V × Bool × List (Event (Item K V))) := do
  let index := ht.index h
  let head ← ht.bucket index
  match ← bucket_find ef ht h key (ht.brk + 1) head with
  | none => .ok (ht, false, [])
  | some n =>
      let c ← ht.node n
      let ht ← (if some n = head then ht.set_bucket index (ht.nNext n)
        else if ht.nPrev n = none then .error .null
        else ht.unless_null (ht.nPrev n) fun q =>
          { ht with nNext := Function.update ht.nNext q (ht.nNext n) })
      let ht ← unlink ht n
      let ht := ht.free n
      .ok ({ ht with count := ht.count - 1 }, true, call_dtors d call_dtor c)

def hashtable_delete (ht : HashTable K V) (key : K) (call_dtor : Bool) :
    Except Fault (HashTable K V × Bool × List (Event (Item K V))) :=
  hashtable_delete_real ef d ht (hash key) key call_dtor

/-- The loop of `hashtable_clear_real`. -/
def hashtable_clear_loop : ℕ → HashTable K V → Ptr →
    Except Fault (HashTable K V × List (Event (Item K V)))
  | 0, _, _ => .error .diverges
  | _ + 1, ht, none => .ok (ht, [])
  | fuel + 1, ht, some n => do
      let c ← ht.node n
      let r ← hashtable_clear_loop fuel (ht.free n) (ht.gNext n)
      .ok (r.1, call_dtors d true c ++ r.2)

def hashtable_clear (ht : HashTable K V) :
    Except Fault (HashTable K V × List (Event (Item K V))) := do
  let n := ht.gHead
  let ht := { ht with count := 0, gHead := none, gTail := none }
  let r ← hashtable_clear_loop d (ht.brk + 1) ht n
  .ok (r.1.memset, r.2)

/-- `hashtable_destroy`; there are no buckets after it. -/
def hashtable_destroy (ht : HashTable K V) :
    Except Fault (HashTable K V × List (Event (Item K V))) := do
  let r ← hashtable_clear d ht
  .ok ({ r.1 with size := 0 }, r.2)

/-! ## Runs -/

inductive Op (K V : Type)
  | put (preserve : Bool) (key : K) (value : V)
  | delete (key : K) (call_dtor : Bool)
  | delete_node (i : ℕ)
  | clear
deriving DecidableEq

/-- One operation on a table. -/
def step (ht : HashTable K V) : Op K V → Except Fault (HashTable K V × List (Event (Item K V)))
  | .put preserve key value => do
      let r ← hashtable_put hash ef key_duper d ht preserve key value
      .ok (r.ht, r.events)
  | .delete key call_dtor => do
      let r ← hashtable_delete hash ef d ht key call_dtor
      .ok (r.1, r.2.2)
  | .delete_node i => do
      match ← node_at ht i ht.gHead with
      | none => .ok (ht, [])
      | some n => do
          let r ← hashtable_delete_node d ht n
          .ok (r.1, r.2.2)
  | .clear => hashtable_clear d ht

def run (ht : HashTable K V) :
    List (Op K V) → Except Fault (HashTable K V × List (Event (Item K V)))
  | [] => .ok (ht, [])
  | op :: ops => do
      let r ← step hash ef key_duper d ht op
      let r' ← run r.1 ops
      .ok (r'.1, r.2 ++ r'.2)

end Keys

/-- The operation, whatever becomes of what it takes out. -/
def Op.plain : Op K V → HashtableRuns.Op K V
  | .put preserve key value => .put preserve key value
  | .delete key _ => .delete key
  | .delete_node i => .delete_node i
  | .clear => .clear

/-- Whether the operation calls the destructors of what it takes out. -/
def Op.call_dtor : Op K V → Bool
  | .delete _ call_dtor => call_dtor
  | _ => true

variable {hash : K → ℕ} {ef : K → K → Bool} {key_duper : K → K} {d : Dtors} {ht : HashTable K V}
  {ns : List (ℕ × HashNode K V)} {s : Assoc K V}

/-! ## The same tables -/

/-- **`hashtable_put`** under a key that is there lets go of the old value, unless it keeps
it; under a new key, it stores a copy of the key. -/
theorem hashtable_put_eq (h : Valid hash ef ht ns) (heq : KeyEquality hash ef key_duper)
    (hroom : Roomy ht) (preserve : Bool) (key : K) (value : V) :
    hashtable_put hash ef key_duper d ht preserve key value
      = (Hashtable.hashtable_put hash ef key_duper ht preserve key value).map fun r =>
        match ns.find? fun x => ef key x.2.key with
        | none => ⟨r.1, r.2, none, [⟨.stored, .key (key_duper key)⟩, ⟨.stored, .value value⟩]⟩
        | some x => ⟨r.1, r.2, some x.2.data, if preserve then []
            else [release d.value_dtor (.value x.2.data), ⟨.stored, .value value⟩]⟩ := by
  rw [hashtable_put, hashtable_put_real, Hashtable.hashtable_put, Hashtable.hashtable_put_real]
  simp only
  rw [h.bucket hroom, ok_bind, ok_bind, h.bucket_find heq hroom, ok_bind, ok_bind]
  cases hfind : ns.find? fun x => ef key x.2.key with
  | some x =>
      simp only [Option.map_some]
      rw [node_ok (h.cells x (List.mem_of_find?_eq_some hfind)), ok_bind, ok_bind]
      cases preserve <;> rfl
  | none =>
      simp only [Option.map_none]
      symm
      apply map_bind_eq (g := id) (by simp)
      intro ht
      apply map_bind_eq (g := id) (by simp)
      intro ht
      apply map_bind_eq (g := id) (by simp)
      intro ht
      apply map_bind_eq (g := id) (by simp)
      intro ht
      rfl

/-- **`hashtable_delete`** lets go of the key and the value of the node. -/
theorem hashtable_delete_eq (h : Valid hash ef ht ns) (heq : KeyEquality hash ef key_duper)
    (hroom : Roomy ht) (key : K) (call_dtor : Bool) :
    hashtable_delete hash ef d ht key call_dtor
      = (Hashtable.hashtable_delete hash ef ht key).map fun r =>
        (r.1, r.2, match ns.find? fun x => ef key x.2.key with
          | none => []
          | some x => call_dtors d call_dtor x.2) := by
  rw [hashtable_delete, hashtable_delete_real, Hashtable.hashtable_delete,
    Hashtable.hashtable_delete_real]
  simp only
  rw [h.bucket hroom, ok_bind, ok_bind, h.bucket_find heq hroom, ok_bind, ok_bind]
  cases hfind : ns.find? fun x => ef key x.2.key with
  | none => rfl
  | some x =>
      simp only [Option.map_some]
      rw [node_ok (h.cells x (List.mem_of_find?_eq_some hfind)), ok_bind]
      symm
      apply map_bind_eq (g := id) (by simp)
      intro ht
      apply map_bind_eq (g := id) (by simp)
      intro ht
      rfl

theorem hashtable_delete_node_eq (h : Valid hash ef ht ns) {x : ℕ × HashNode K V} (hx : x ∈ ns) :
    hashtable_delete_node d ht x.1
      = (Hashtable.hashtable_delete_node ht x.1).map fun r =>
        (r.1, r.2, call_dtors d true x.2) := by
  rw [hashtable_delete_node, Hashtable.hashtable_delete_node, node_ok (h.cells x hx), ok_bind,
    ok_bind]
  symm
  apply map_bind_eq (g := id) (by simp)
  intro ht
  apply map_bind_eq (g := id) (by simp)
  intro ht
  rfl

/-- The loop lets go of the nodes in the order of their insertion. -/
theorem hashtable_clear_loop_eq (ns : List (ℕ × HashNode K V)) :
    ∀ (fuel : ℕ) (ht : HashTable K V), Path ht.gNext (ns.map Prod.fst) →
      (∀ x ∈ ns, ht.cells x.1 = some x.2) → (ns.map Prod.fst).Nodup → ns.length < fuel →
      hashtable_clear_loop d fuel ht (first (ns.map Prod.fst) none)
        = (Hashtable.hashtable_clear_loop fuel ht (first (ns.map Prod.fst) none)).map fun ht =>
          (ht, ns.flatMap fun x => call_dtors d true x.2) := by
  induction ns with
  | nil =>
      intro fuel ht _ _ _ hfuel
      obtain ⟨fuel, rfl⟩ := Nat.exists_eq_succ_of_ne_zero (Nat.ne_of_gt hfuel)
      rfl
  | cons x ns ih =>
      intro fuel ht hpath hcells hnodup hfuel
      obtain ⟨fuel, rfl⟩ := Nat.exists_eq_succ_of_ne_zero (Nat.ne_of_gt (Nat.zero_lt_of_lt hfuel))
      rw [List.length_cons] at hfuel
      rw [List.map_cons, List.nodup_cons] at hnodup
      rw [List.map_cons] at hpath
      rw [List.forall_mem_cons] at hcells
      have hrest : ∀ y ∈ ns, (ht.free x.1).cells y.1 = some y.2 := by
        intro y hy
        show Function.update ht.cells x.1 none y.1 = some y.2
        rw [Function.update_of_ne]
        · exact hcells.2 y hy
        · exact fun heq => hnodup.1 (heq ▸ List.mem_map_of_mem hy)
      have hrec := ih fuel (ht.free x.1) hpath.2 hrest hnodup.2 (by omega)
      rw [List.map_cons, first_cons, hashtable_clear_loop, Hashtable.hashtable_clear_loop,
        node_ok hcells.1, ok_bind, ok_bind, hpath.1, hrec]
      cases Hashtable.hashtable_clear_loop fuel (ht.free x.1) (first (ns.map Prod.fst) none) <;> rfl

/-- **`hashtable_clear`** lets go of every key and every value. -/
theorem hashtable_clear_eq (h : Valid hash ef ht ns) :
    hashtable_clear d ht = (Hashtable.hashtable_clear ht).map fun ht =>
      (ht, ns.flatMap fun x => call_dtors d true x.2) := by
  have hlen := h.length_le h.nodup (List.Subset.refl _)
  rw [List.length_map] at hlen
  rw [hashtable_clear, Hashtable.hashtable_clear]
  simp only
  have hloop := hashtable_clear_loop_eq (d := d) ns (ht.brk + 1)
    { ht with count := 0, gHead := none, gTail := none } h.global.path h.cells h.nodup (by omega)
  rw [h.head, hloop]
  cases Hashtable.hashtable_clear_loop (ht.brk + 1)
    { ht with count := 0, gHead := none, gTail := none } (first (ns.map Prod.fst) none) <;> rfl

/-! ## What a table holds -/

/-- The keys and the values of entries. -/
def holdings (es : List (K × V)) : Multiset (Item K V) :=
  (es.flatMap fun e => [.value e.2, .key e.1] : List (Item K V))

theorem holdings_split (pre post : List (K × V)) (e : K × V) :
    holdings (pre ++ e :: post) = .value e.2 ::ₘ .key e.1 ::ₘ holdings (pre ++ post) := by
  rw [holdings, holdings, List.flatMap_append, List.flatMap_append, List.flatMap_cons,
    List.cons_append, List.cons_append, List.nil_append, Multiset.cons_coe, Multiset.cons_coe,
    Multiset.coe_eq_coe]
  exact List.perm_middle.trans (List.perm_middle.cons _)

/-- The events account for what the table holds no longer, and nothing is left to the caller
where all the destructors are called. -/
structure Accounts (d : Dtors) (call_dtor : Bool) (t : List (Event (Item K V)))
    (a b : Multiset (Item K V)) : Prop where
  balanced : AddsUp t a b
  tidy : d.value_dtor = true → d.key_dtor = true → call_dtor = true → those .left t = 0

theorem Accounts.refl (d : Dtors) (call_dtor : Bool) (a : Multiset (Item K V)) :
    Accounts d call_dtor [] a a :=
  ⟨AddsUp.refl a, fun _ _ _ => rfl⟩

theorem Accounts.append {call_dtor : Bool} {t u : List (Event (Item K V))}
    {a b c : Multiset (Item K V)} (h : Accounts d call_dtor t a b)
    (h' : Accounts d call_dtor u b c) : Accounts d call_dtor (t ++ u) a c := by
  refine ⟨h.balanced.append h'.balanced, fun hv hk hc => ?_⟩
  rw [those_append, h.tidy hv hk hc, h'.tidy hv hk hc, Multiset.add_zero]

theorem Accounts.imp {c c' : Bool} {t : List (Event (Item K V))} {a b : Multiset (Item K V)}
    (h : Accounts d c t a b) (himp : c' = true → c = true) : Accounts d c' t a b :=
  ⟨h.balanced, fun hv hk hc => h.tidy hv hk (himp hc)⟩

theorem accounts_call_dtors (d : Dtors) (call_dtor : Bool) (c : HashNode K V)
    (a : Multiset (Item K V)) :
    Accounts d call_dtor (call_dtors d call_dtor c) (.value c.data ::ₘ .key c.key ::ₘ a) a := by
  refine ⟨(AddsUp.release _ _ _).append (AddsUp.release _ _ _), fun hv hk hc => ?_⟩
  simp [call_dtors, release, hv, hk, hc]

/-- A node less in the table. -/
theorem accounts_without (d : Dtors) (call_dtor : Bool) (pre post : List (ℕ × HashNode K V))
    (x : ℕ × HashNode K V) :
    Accounts d call_dtor (call_dtors d call_dtor x.2) (holdings (entries (pre ++ x :: post)))
      (holdings (entries (pre ++ post))) := by
  rw [entries, entries, List.map_append, List.map_cons, List.map_append, holdings_split]
  exact accounts_call_dtors d call_dtor x.2 _

theorem accounts_clear (d : Dtors) (ns : List (ℕ × HashNode K V)) :
    Accounts d true (ns.flatMap fun x => call_dtors d true x.2) (holdings (entries ns)) 0 := by
  induction ns with
  | nil => exact Accounts.refl d true 0
  | cons x ns ih =>
      rw [List.flatMap_cons]
      exact (accounts_without d true [] ns x).append ih

theorem accounts_replace (d : Dtors) (old value : V) (a : Multiset (Item K V)) :
    Accounts d true [release d.value_dtor (.value old), ⟨.stored, .value value⟩]
      (.value old ::ₘ a) (.value value ::ₘ a) := by
  refine ⟨(AddsUp.release _ _ _).append (AddsUp.store _ _), fun hv _ _ => ?_⟩
  simp [release, hv]

theorem accounts_insert (d : Dtors) (key : K) (value : V) (a : Multiset (Item K V)) :
    Accounts d true [⟨.stored, .key key⟩, ⟨.stored, .value value⟩] a
      (.value value ::ₘ .key key ::ₘ a) := by
  refine ⟨(AddsUp.store _ _).append (AddsUp.store _ _), fun _ _ _ => ?_⟩
  simp

/-- The entries once the value under a key is replaced. -/
theorem entries_replaced {pre post : List (ℕ × HashNode K V)} {x : ℕ × HashNode K V}
    (h : Valid hash ef ht (pre ++ x :: post)) (heq : KeyEquality hash ef key_duper) {key : K}
    (hkey : ef key x.2.key = true) (value : V) :
    (entries (pre ++ x :: post)).map (fun e => if ef key e.1 then (e.1, value) else e)
      = entries pre ++ (x.2.key, value) :: entries post := by
  have hx : x ∈ pre ++ x :: post := by simp
  have hnodup := h.nodup
  rw [List.map_append, List.map_cons, List.nodup_middle, List.nodup_cons, ← List.map_append]
    at hnodup
  -- the nodes before and after stay as they are
  have hother : ∀ y ∈ pre ++ post, set_data x.1 value y = y := by
    intro y hy
    rw [set_data, if_neg]
    exact fun heq => hnodup.1 (heq ▸ List.mem_map_of_mem hy)
  have hpre : pre.map (set_data x.1 value) = pre := by
    conv_rhs => rw [← List.map_id pre]
    exact List.map_congr_left fun y hy => hother y (List.mem_append_left _ hy)
  have hpost : post.map (set_data x.1 value) = post := by
    conv_rhs => rw [← List.map_id post]
    exact List.map_congr_left fun y hy => hother y (List.mem_append_right _ hy)
  rw [← entries_set_data h heq hx hkey, List.map_append, List.map_cons, hpre, hpost, set_data,
    if_pos rfl, entries, List.map_append, List.map_cons]
  rfl

/-! ## One operation -/

section Step

variable (h : Simulates hash ef ht s) (heq : KeyEquality hash ef key_duper)
  (hcap : s.capacity < 2 ^ 61)

include h heq hcap

theorem put_accounts (preserve : Bool) (key : K) (value : V) :
    ∃ t, step hash ef key_duper d ht (.put preserve key value)
        = (HashtableRuns.step hash ef key_duper ht (.put preserve key value)).map (·, t)
      ∧ Accounts d true t (holdings s.entries)
        (holdings (list_step ef key_duper s.entries (.put preserve key value))) := by
  obtain ⟨ns, hvalid, hentries, hcapacity, hlt, -⟩ := h
  have hroom : Roomy ht := ⟨by omega, by omega⟩
  have hany := any_entries ef ns key
  rw [step, HashtableRuns.step, hashtable_put_eq hvalid heq hroom, ← hentries]
  cases hfind : ns.find? fun x => ef key x.2.key with
  | none =>
      rw [hfind] at hany
      refine ⟨[⟨.stored, .key (key_duper key)⟩, ⟨.stored, .value value⟩], ?_, ?_⟩
      · cases Hashtable.hashtable_put hash ef key_duper ht preserve key value <;> rfl
      · rw [list_step, if_neg (by simp [hany]), holdings_split, List.append_nil]
        exact accounts_insert d _ _ _
  | some x =>
      rw [hfind, Option.isSome_some] at hany
      refine ⟨if preserve then []
        else [release d.value_dtor (.value x.2.data), ⟨.stored, .value value⟩], ?_, ?_⟩
      · cases Hashtable.hashtable_put hash ef key_duper ht preserve key value <;> rfl
      · rw [list_step, if_pos hany]
        cases preserve with
        | true => exact Accounts.refl _ _ _
        | false =>
            obtain ⟨pre, post, rfl⟩ := List.append_of_mem (List.mem_of_find?_eq_some hfind)
            have hkey : ef key x.2.key = true := by simpa using List.find?_some hfind
            simp only [Bool.false_eq_true, if_false]
            rw [entries_replaced hvalid heq hkey, entries, List.map_append, List.map_cons,
              holdings_split, holdings_split]
            exact accounts_replace d _ _ _

theorem delete_accounts (key : K) (call_dtor : Bool) :
    ∃ t, step hash ef key_duper d ht (.delete key call_dtor)
        = (HashtableRuns.step hash ef key_duper ht (.delete key)).map (·, t)
      ∧ Accounts d call_dtor t (holdings s.entries)
        (holdings (list_step ef key_duper s.entries (.delete key))) := by
  obtain ⟨ns, hvalid, hentries, hcapacity, hlt, -⟩ := h
  have hroom : Roomy ht := ⟨by omega, by omega⟩
  rw [step, HashtableRuns.step, hashtable_delete_eq hvalid heq hroom, list_step, ← hentries]
  cases hfind : ns.find? fun x => ef key x.2.key with
  | none =>
      refine ⟨[], ?_, ?_⟩
      · cases Hashtable.hashtable_delete hash ef ht key <;> rfl
      · have hany := any_entries ef ns key
        rw [hfind, Option.isSome_none, List.any_eq_false] at hany
        rw [List.filter_eq_self.mpr fun e he => by simpa using hany e he]
        exact Accounts.refl _ _ _
  | some x =>
      refine ⟨call_dtors d call_dtor x.2, ?_, ?_⟩
      · cases Hashtable.hashtable_delete hash ef ht key <;> rfl
      · obtain ⟨pre, post, rfl⟩ := List.append_of_mem (List.mem_of_find?_eq_some hfind)
        have hkey : ef key x.2.key = true := by simpa using List.find?_some hfind
        rw [← entries_without hvalid heq hkey]
        exact accounts_without d call_dtor pre post x

omit heq hcap in
theorem delete_node_accounts (i : ℕ) :
    ∃ t, step hash ef key_duper d ht (.delete_node i)
        = (HashtableRuns.step hash ef key_duper ht (.delete_node i)).map (·, t)
      ∧ Accounts d true t (holdings s.entries)
        (holdings (list_step ef key_duper s.entries (.delete_node i))) := by
  obtain ⟨ns, hvalid, hentries, -, -, -⟩ := h
  rw [step, HashtableRuns.step, node_at_spec hvalid, ok_bind, ok_bind, list_step, ← hentries]
  cases hnode : ns[i]? with
  | none =>
      have hle : (entries ns).length ≤ i := by
        rw [length_entries]
        exact List.getElem?_eq_none_iff.mp hnode
      rw [List.eraseIdx_of_length_le hle]
      exact ⟨[], rfl, Accounts.refl _ _ _⟩
  | some x =>
      obtain ⟨hi, hget⟩ := List.getElem?_eq_some_iff.mp hnode
      have hsplit : ns = ns.take i ++ x :: ns.drop (i + 1) := by
        rw [← hget, List.cons_getElem_drop_succ, List.take_append_drop]
      simp only [Option.map_some]
      rw [hashtable_delete_node_eq hvalid (List.mem_of_getElem? hnode)]
      refine ⟨call_dtors d true x.2, ?_, ?_⟩
      · cases Hashtable.hashtable_delete_node ht x.1 <;> rfl
      · have hwithout := accounts_without d true (ns.take i) (ns.drop (i + 1)) x
        rw [← hsplit] at hwithout
        rw [List.eraseIdx_eq_take_drop_succ]
        simpa only [entries, List.map_append, List.map_take, List.map_drop] using hwithout

omit heq hcap in
theorem clear_accounts :
    ∃ t, step hash ef key_duper d ht .clear
        = (HashtableRuns.step hash ef key_duper ht .clear).map (·, t)
      ∧ Accounts d true t (holdings s.entries) 0 := by
  obtain ⟨ns, hvalid, hentries, -, -, -⟩ := h
  rw [← hentries]
  exact ⟨_, hashtable_clear_eq hvalid, accounts_clear d ns⟩

/-- **One operation** makes of the table what it makes of it without destructors, and
accounts for what the table holds no longer. -/
theorem step_accounts (op : Op K V) :
    ∃ t, step hash ef key_duper d ht op
        = (HashtableRuns.step hash ef key_duper ht op.plain).map (·, t)
      ∧ Accounts d op.call_dtor t (holdings s.entries)
        (holdings (list_step ef key_duper s.entries op.plain)) := by
  cases op with
  | put preserve key value => exact put_accounts h heq hcap preserve key value
  | delete key call_dtor => exact delete_accounts h heq hcap key call_dtor
  | delete_node i => exact delete_node_accounts h i
  | clear => exact clear_accounts h

end Step

/-! ## Runs -/

/-- A run from a well-formed table: with destructors and without, it fails, or it makes the
same table. -/
theorem run_accounts (heq : KeyEquality hash ef key_duper) (ops : List (Op K V)) :
    ∀ {ht : HashTable K V} {s : Assoc K V}, Simulates hash ef ht s → s.capacity < 2 ^ 61 →
      (∃ e, run hash ef key_duper d ht ops = .error e
          ∧ HashtableRuns.run hash ef key_duper ht (ops.map Op.plain) = .error e)
        ∨ ∃ ht' t s', run hash ef key_duper d ht ops = .ok (ht', t)
          ∧ HashtableRuns.run hash ef key_duper ht (ops.map Op.plain) = .ok ht'
          ∧ Simulates hash ef ht' s' ∧ s'.capacity < 2 ^ 61
          ∧ Accounts d (ops.all Op.call_dtor) t (holdings s.entries) (holdings s'.entries) := by
  induction ops with
  | nil =>
      intro ht s h hcap
      exact Or.inr ⟨ht, [], s, rfl, rfl, h, hcap, Accounts.refl _ _ _⟩
  | cons op ops ih =>
      intro ht s h hcap
      rw [List.map_cons, HashtableRuns.run, run]
      obtain ⟨t, hstep, haccounts⟩ := step_accounts (d := d) h heq hcap op
      rw [hstep]
      rcases step_simulates h heq hcap op.plain with ⟨hcap₁, ht₁, hplain, h₁⟩ | ⟨-, e, herror⟩
      · rw [hplain, ok_bind]
        change (∃ e, (run hash ef key_duper d ht₁ ops >>= _) = _ ∧ _)
          ∨ ∃ ht' t s', (run hash ef key_duper d ht₁ ops >>= _) = _ ∧ _
        rcases ih h₁ hcap₁ with
          ⟨e, herror, hplain'⟩ | ⟨ht', t', s', hrun', hplain', h', hcap', haccounts'⟩
        · exact Or.inl ⟨e, by rw [herror, error_bind], hplain'⟩
        · refine Or.inr ⟨ht', t ++ t', s', by rw [hrun', ok_bind], hplain', h', hcap', ?_⟩
          have hall : ∀ c : Bool, (op.call_dtor && ops.all Op.call_dtor) = c → c = true →
              op.call_dtor = true ∧ ops.all Op.call_dtor = true := by
            intro c hc htrue
            rwa [htrue, Bool.and_eq_true] at hc
          rw [List.all_cons]
          exact (haccounts.imp fun hc => (hall _ rfl hc).1).append
            (haccounts'.imp fun hc => (hall _ rfl hc).2)
      · rw [herror]
        exact Or.inl ⟨e, rfl, rfl⟩

/-- `hashtable_destroy` lets go of all that the table holds. -/
theorem hashtable_destroy_accounts (h : Simulates hash ef ht s) :
    ∃ ht' t, hashtable_destroy d ht = .ok (ht', t)
      ∧ Accounts d true t (holdings s.entries) 0 := by
  obtain ⟨ns, hvalid, hentries, -⟩ := h
  obtain ⟨ht', hclear, -⟩ := hashtable_clear_spec hvalid
  rw [← hentries]
  refine ⟨{ ht' with size := 0 }, ns.flatMap fun x => call_dtors d true x.2, ?_,
    accounts_clear d ns⟩
  rw [hashtable_destroy, hashtable_clear_eq hvalid, hclear]
  rfl

/-- **Nothing is lost**: a run with destructors makes of a new table what the run makes of it
without them, and each thing that was stored is destroyed, left to the caller or still in the
table. After `hashtable_destroy` it is destroyed or left, and nothing is left if there are
both destructors and no deletion asks not to call them. -/
theorem run_destroy_accounts (hash : K → ℕ) (ef : K → K → Bool) (key_duper : K → K) (d : Dtors)
    (heq : KeyEquality hash ef key_duper) (capacity : ℕ) (nodes : ℕ → Ptr)
    (hcap : nearest_power capacity HASHTABLE_MIN_SIZE < 2 ^ 61) (ops : List (Op K V))
    {ht : HashTable K V}
    (hrun : HashtableRuns.run hash ef key_duper (hashtable_init capacity nodes)
      (ops.map Op.plain) = .ok ht) :
    ∃ t ht' t' es, run hash ef key_duper d (hashtable_init capacity nodes) ops = .ok (ht, t)
      ∧ forward ht = .ok es
      ∧ those .stored t = those .destroyed t + those .left t + holdings es
      ∧ hashtable_destroy d ht = .ok (ht', t')
      ∧ those .stored (t ++ t') = those .destroyed (t ++ t') + those .left (t ++ t')
      ∧ (d.value_dtor = true → d.key_dtor = true → (∀ op ∈ ops, op.call_dtor = true) →
        those .left (t ++ t') = 0) := by
  rcases run_accounts (d := d) heq ops (init_simulates capacity nodes) hcap with
    ⟨e, -, herror⟩ | ⟨ht₁, t, s, hrun', hplain, hsim, -, haccounts⟩
  · rw [herror] at hrun
    exact absurd hrun (by simp)
  · rw [hplain, Except.ok.injEq] at hrun
    subst hrun
    obtain ⟨ht', t', hdestroy, haccounts'⟩ := hashtable_destroy_accounts (d := d) hsim
    have hforward : forward ht₁ = .ok s.entries := by
      obtain ⟨ns, hvalid, hentries, -⟩ := hsim
      rw [(forward_backward_spec hvalid).1, hentries]
    have hwhole := haccounts.append (haccounts'.imp fun _ => rfl)
    have hstored := haccounts.balanced
    have hstored' := hwhole.balanced
    unfold AddsUp at hstored hstored'
    refine ⟨t, ht', t', s.entries, hrun', hforward, ?_, hdestroy, ?_, fun hv hk hall => ?_⟩
    · rw [← hstored]
      exact (Multiset.zero_add _).symm
    · rw [← Multiset.add_zero (those .destroyed _ + _), ← hstored']
      exact (Multiset.zero_add _).symm
    · exact hwhole.tidy hv hk (List.all_eq_true.mpr hall)

/-- One value is replaced, one is given back by a deletion, one is deleted with its node, and
one is there until the end. -/
theorem copies_accounted : ∃ ht : HashTable ℕ ℕ, ∃ t ht' t' es,
    run id (fun a b => a == b) id ⟨true, true⟩ (hashtable_init 0 fun _ => none)
        [.put false 1 10, .put false 9 20, .put false 1 30, .delete 9 false, .put true 1 40,
          .put false 2 50, .delete_node 0] = .ok (ht, t)
      ∧ forward ht = .ok es
      ∧ those .stored t = those .destroyed t + those .left t + holdings es
      ∧ hashtable_destroy ⟨true, true⟩ ht = .ok (ht', t')
      ∧ those .stored (t ++ t') = those .destroyed (t ++ t') + those .left (t ++ t') := by
  obtain ⟨ht, hrun⟩ := exists_ok
    (x := HashtableRuns.run id (fun a b => a == b) id (hashtable_init 0 fun _ => none)
      (([.put false 1 10, .put false 9 20, .put false 1 30, .delete 9 false, .put true 1 40,
          .put false 2 50, .delete_node 0] : List (Op ℕ ℕ)).map Op.plain)) (by decide)
  obtain ⟨t, ht', t', es, h₁, h₂, h₃, h₄, h₅, -⟩ := run_destroy_accounts id (fun a b => a == b) id
    ⟨true, true⟩ value_equal_keys 0 (fun _ => none) (by decide) _ hrun
  exact ⟨ht, t, ht', t', es, h₁, h₂, h₃, h₄, h₅⟩

section Held

variable [DecidableEq K] [DecidableEq V] {capacity : ℕ} {nodes : ℕ → Ptr} {ops : List (Op K V)}
  {t : List (Event (Item K V))}

/-- A value in the table was neither destroyed nor left, if it was stored once. -/
theorem run_held (heq : KeyEquality hash ef key_duper)
    (hcap : nearest_power capacity HASHTABLE_MIN_SIZE < 2 ^ 61)
    (hrun : run hash ef key_duper d (hashtable_init capacity nodes) ops = .ok (ht, t)) :
    ∃ ns, Valid hash ef ht ns ∧ Roomy ht ∧ ∀ x ∈ ns,
      (those .stored t).count (.value x.2.data) ≤ 1 →
        .value x.2.data ∉ those .destroyed t ∧ .value x.2.data ∉ those .left t := by
  rcases run_accounts (d := d) heq ops (init_simulates capacity nodes) hcap with
    ⟨e, herror, -⟩ | ⟨ht₁, t₁, s, hrun', -, ⟨ns, hvalid, hentries, hcapacity, hlt, -⟩, hroom,
      haccounts⟩
  · rw [herror] at hrun
    exact absurd hrun (by simp)
  · rw [hrun', Except.ok.injEq, Prod.mk.injEq] at hrun
    obtain ⟨rfl, rfl⟩ := hrun
    refine ⟨ns, hvalid, ⟨by omega, by omega⟩, fun x hx honce => ?_⟩
    have hheld : .value x.2.data ∈ holdings s.entries := by
      have hentry : (x.2.key, x.2.data) ∈ s.entries := hentries ▸ List.mem_map_of_mem hx
      exact Multiset.mem_coe.mpr (List.mem_flatMap.mpr ⟨_, hentry, List.mem_cons_self⟩)
    have hplace := haccounts.balanced.one_place honce
    rw [← Multiset.one_le_count_iff_mem] at hheld
    constructor
    · rw [← Multiset.count_eq_zero]
      omega
    · rw [← Multiset.count_eq_zero]
      omega

/-- **No value that was destroyed is handed out**: what `hashtable_get` gives after a run was
neither destroyed nor left before, as long as it was stored once. -/
theorem get_not_destroyed (heq : KeyEquality hash ef key_duper)
    (hcap : nearest_power capacity HASHTABLE_MIN_SIZE < 2 ^ 61)
    (hrun : run hash ef key_duper d (hashtable_init capacity nodes) ops = .ok (ht, t))
    {key : K} {value : V} (hget : hashtable_get hash ef ht key = .ok (some value))
    (honce : (those .stored t).count (.value value) ≤ 1) :
    .value value ∉ those .destroyed t ∧ .value value ∉ those .left t := by
  obtain ⟨ns, hvalid, hroom, hheld⟩ := run_held heq hcap hrun
  rw [(hashtable_get_contains_spec hvalid heq hroom key).1, Except.ok.injEq,
    Option.map_eq_some_iff] at hget
  obtain ⟨x, hfind, rfl⟩ := hget
  exact hheld x (List.mem_of_find?_eq_some hfind) honce

/-- A run of two puts under one key. -/
def replacing : Except Fault (HashTable ℕ ℕ × List (Event (Item ℕ ℕ))) :=
  run id (fun a b => a == b) id ⟨true, false⟩ (hashtable_init 0 fun _ => none)
    [.put false 1 10, .put false 1 30]

theorem replacing_events : ∃ ht, replacing = .ok (ht, [⟨.stored, .key 1⟩, ⟨.stored, .value 10⟩,
    ⟨.destroyed, .value 10⟩, ⟨.stored, .value 30⟩]) := by
  obtain ⟨⟨ht, t⟩, hrun, rfl⟩ := of_map_ok (show replacing.map Prod.snd = .ok [⟨.stored, .key 1⟩,
    ⟨.stored, .value 10⟩, ⟨.destroyed, .value 10⟩, ⟨.stored, .value 30⟩] by decide)
  exact ⟨ht, hrun⟩

/-- The value that replaces one which is destroyed. -/
theorem replacement_not_destroyed : ∃ ht t, replacing = .ok (ht, t)
    ∧ .value 10 ∈ those .destroyed t ∧ .value 30 ∉ those .destroyed t := by
  obtain ⟨ht, hrun⟩ := replacing_events
  have hget : (replacing >>= fun r => hashtable_get id (fun a b => a == b) r.1 1)
      = .ok (some 30) := by decide
  rw [hrun, ok_bind] at hget
  exact ⟨ht, _, hrun, by decide,
    (get_not_destroyed value_equal_keys (by decide) hrun hget (by decide)).1⟩

/-- **The old value** that a `hashtable_put` hands out was destroyed by it, just if there is a
destructor and the value was to be replaced. -/
theorem oldvalue_destroyed_iff (heq : KeyEquality hash ef key_duper)
    (hcap : nearest_power capacity HASHTABLE_MIN_SIZE < 2 ^ 61)
    (hrun : run hash ef key_duper d (hashtable_init capacity nodes) ops = .ok (ht, t))
    {preserve : Bool} {key : K} {value old : V} {r : Put K V}
    (hput : hashtable_put hash ef key_duper d ht preserve key value = .ok r)
    (hold : r.oldvalue = some old) (honce : (those .stored t).count (.value old) ≤ 1) :
    .value old ∈ those .destroyed (t ++ r.events) ↔ d.value_dtor = true ∧ preserve = false := by
  obtain ⟨ns, hvalid, hroom, hheld⟩ := run_held heq hcap hrun
  rw [hashtable_put_eq hvalid heq hroom] at hput
  obtain ⟨r', -, rfl⟩ := of_map_ok hput
  cases hfind : ns.find? fun x => ef key x.2.key with
  | none =>
      rw [hfind] at hold
      exact absurd hold (by simp)
  | some x =>
      rw [hfind] at hold
      obtain rfl : x.2.data = old := Option.some.inj hold
      have hbefore := (hheld x (List.mem_of_find?_eq_some hfind) honce).1
      rw [those_append, Multiset.mem_add, or_iff_right hbefore]
      cases preserve <;> cases d.value_dtor <;> simp [release]

/-- A third value under the key: the second one is handed out, and destroyed. -/
theorem replaced_destroyed : ∃ ht t r, replacing = .ok (ht, t)
    ∧ hashtable_put id (fun a b => a == b) id ⟨true, false⟩ ht false 1 50 = .ok r
    ∧ r.oldvalue = some 30 ∧ .value 30 ∈ those .destroyed (t ++ r.events) := by
  obtain ⟨ht, hrun⟩ := replacing_events
  have hput : (replacing >>= fun r => hashtable_put id (fun a b => a == b) id ⟨true, false⟩ r.1
      false 1 50).map Put.oldvalue = .ok (some 30) := by decide
  rw [hrun, ok_bind] at hput
  obtain ⟨r, hr, hold⟩ := of_map_ok hput
  exact ⟨ht, _, r, hrun, hr, hold, (oldvalue_destroyed_iff value_equal_keys (by decide) hrun hr hold
    (by decide)).mpr ⟨rfl, rfl⟩⟩

end Held

end PkgPlugins.HashtableDtors
