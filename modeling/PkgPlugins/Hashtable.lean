/-
The hash table (`kissc/hashtable.c`) and its iterator.

Every node is in two doubly linked chains: that of its bucket, and the global one,
which keeps the order of insertion. The nodes live in memory: `cells` maps an
address to what is stored there, and an address that was never allocated, or whose
node was freed, to nothing; the links are kept by field. Reading through `NULL`,
through a freed address, or beyond the array of the buckets is a fault, and the
operations return `Except Fault`. Allocations succeed, but the size they ask for
may have overflowed.

A loop of the source is a recursion on a number of steps; `Fault.diverges` is its
running out of them.

The hash of a key is what `hf` computes, or the key itself if there is no `hf`;
`key_duper` is the identity if there is none. What the destructors do to keys and
values is not part of the table.
-/
import PkgPlugins.Links
import Mathlib.Algebra.Group.Nat.Defs
import Mathlib.Data.List.Range
import Mathlib.Data.List.Perm.Subperm

set_option autoImplicit false

namespace PkgPlugins.Hashtable

open PkgPlugins.Links

/-! ## Memory -/

/-- Why a run stops without a result. -/
inductive Fault
  | null
  | freed (p : ℕ)
  | bounds (index : ℕ)
  | diverges
deriving DecidableEq

/-- A node but for its links. -/
structure HashNode (K V : Type) where
  hash : ℕ
  key : K
  data : V

/-- A table and the memory its nodes live in. `size` is the number of buckets that
were allocated, `brk` the next address `malloc` returns. -/
structure HashTable (K V : Type) where
  nodes : ℕ → Ptr
  size : ℕ
  gHead : Ptr
  gTail : Ptr
  capacity : ℕ
  count : ℕ
  mask : ℕ
  cells : ℕ → Option (HashNode K V)
  nNext : ℕ → Ptr
  nPrev : ℕ → Ptr
  gNext : ℕ → Ptr
  gPrev : ℕ → Ptr
  brk : ℕ

variable {K V : Type}

namespace HashTable

variable (ht : HashTable K V)

/-- The node at an address. -/
def node (n : ℕ) : Except Fault (HashNode K V) :=
  match ht.cells n with
  | some c => .ok c
  | none => .error (.freed n)

/-- `if (NULL != p) p->f = v;`, where `set` is the assignment. -/
def unless_null (p : Ptr) (set : ℕ → HashTable K V) : Except Fault (HashTable K V) :=
  match p with
  | none => .ok ht
  | some n => if (ht.cells n).isSome then .ok (set n) else .error (.freed n)

/-- `free(n)`. -/
def free (n : ℕ) : HashTable K V := { ht with cells := Function.update ht.cells n none }

/-- `ht->nodes[index]` -/
def bucket (index : ℕ) : Except Fault Ptr :=
  if index < ht.size then .ok (ht.nodes index) else .error (.bounds index)

/-- `ht->nodes[index] = p` -/
def set_bucket (index : ℕ) (p : Ptr) : Except Fault (HashTable K V) :=
  if index < ht.size then .ok { ht with nodes := Function.update ht.nodes index p }
  else .error (.bounds index)

/-- `uint32_t index = h & ht->mask;` -/
def index (h : ℕ) : ℕ := (h &&& ht.mask) % 2 ^ 32

/-- `memset(ht->nodes, 0, ht->capacity * sizeof(*ht->nodes))` -/
def memset : HashTable K V :=
  { ht with nodes := fun i => if i < ht.size then none else ht.nodes i }

end HashTable

/-! ## The operations -/

def HASHTABLE_MIN_SIZE : ℕ := 8

/-- The loop of `nearest_power`. -/
def nearest_power_loop (requested_length : ℕ) : ℕ → ℕ → ℕ
  | 0, i => 2 ^ i
  | fuel + 1, i => if 2 ^ i < requested_length then nearest_power_loop requested_length fuel (i + 1)
      else 2 ^ i

def nearest_power (requested_length minimal : ℕ) : ℕ :=
  if 2 ^ 63 < requested_length then 2 ^ 63
  else nearest_power_loop (max requested_length minimal) 63 1

/-- How many pointers of eight bytes an allocation of `sizeof(*ht->nodes) * n`
bytes is for. -/
def allocated (n : ℕ) : ℕ := 8 * n % 2 ^ 64 / 8

/-- `hashtable_init`; `nodes` is what was in the memory of the buckets. -/
def hashtable_init (capacity : ℕ) (nodes : ℕ → Ptr) : HashTable K V :=
  let capacity := nearest_power capacity HASHTABLE_MIN_SIZE
  { nodes := fun i => if i < allocated capacity then none else nodes i
    size := allocated capacity
    gHead := none
    gTail := none
    capacity := capacity
    count := 0
    mask := capacity - 1
    cells := fun _ => none
    nNext := fun _ => none
    nPrev := fun _ => none
    gNext := fun _ => none
    gPrev := fun _ => none
    brk := 0 }

/-- A node in front of its bucket, but for the assignment to the bucket:
`n->nNext = ht->nodes[index]; n->nPrev = NULL; if (NULL != n->nNext)
n->nNext->nPrev = n;`. -/
def link_bucket (ht : HashTable K V) (n index : ℕ) : Except Fault (HashTable K V) := do
  let head ← ht.bucket index
  let ht := { ht with
    nNext := Function.update ht.nNext n head
    nPrev := Function.update ht.nPrev n none }
  ht.unless_null head fun q => { ht with nPrev := Function.update ht.nPrev q (some n) }

/-- The loop of `hashtable_rehash`. -/
def hashtable_rehash_loop : ℕ → HashTable K V → Ptr → Except Fault (HashTable K V)
  | 0, _, _ => .error .diverges
  | _ + 1, ht, none => .ok ht
  | fuel + 1, ht, some n => do
      let c ← ht.node n
      let index := ht.index c.hash
      let ht ← link_bucket ht n index
      let ht ← ht.set_bucket index (some n)
      hashtable_rehash_loop fuel ht (ht.gNext n)

def hashtable_rehash (ht : HashTable K V) : Except Fault (HashTable K V) :=
  if ht.count < 1 then .ok ht
  else hashtable_rehash_loop (ht.brk + 1) ht.memset ht.gHead

def hashtable_maybe_resize (ht : HashTable K V) : Except Fault (HashTable K V) :=
  if ht.count < ht.capacity then .ok ht
  else if 0 < ht.capacity * 2 % 2 ^ 64 then
    let capacity := ht.capacity * 2 % 2 ^ 64
    hashtable_rehash
      { ht with size := allocated capacity, capacity := capacity, mask := capacity - 1 }
  else .ok ht

section Keys

variable (hash : K → ℕ) (ef : K → K → Bool) (key_duper : K → K)

/-- The loop over a bucket that `hashtable_put_real`, `hashtable_delete_real` and the
look-ups share. -/
def bucket_find (ht : HashTable K V) (h : ℕ) (key : K) : ℕ → Ptr → Except Fault Ptr
  | 0, _ => .error .diverges
  | _ + 1, none => .ok none
  | fuel + 1, some n => do
      let c ← ht.node n
      if c.hash = h ∧ ef key c.key then .ok (some n) else bucket_find ht h key fuel (ht.nNext n)

def hashtable_quick_get (ht : HashTable K V) (h : ℕ) (key : K) : Except Fault (Option V) := do
  let head ← ht.bucket (ht.index h)
  match ← bucket_find ef ht h key (ht.brk + 1) head with
  | none => .ok none
  | some n => do
      let c ← ht.node n
      .ok (some c.data)

def hashtable_quick_contains (ht : HashTable K V) (h : ℕ) (key : K) : Except Fault Bool := do
  let head ← ht.bucket (ht.index h)
  let n ← bucket_find ef ht h key (ht.brk + 1) head
  .ok n.isSome

def hashtable_get (ht : HashTable K V) (key : K) : Except Fault (Option V) :=
  hashtable_quick_get ef ht (hash key) key

def hashtable_contains (ht : HashTable K V) (key : K) : Except Fault Bool :=
  hashtable_quick_contains ef ht (hash key) key

def hashtable_size (ht : HashTable K V) : ℕ := ht.count

/-- A node at the end of the global chain. -/
def link_global (ht : HashTable K V) (n : ℕ) : Except Fault (HashTable K V) := do
  let tail := ht.gTail
  let ht := { ht with
    gPrev := Function.update ht.gPrev n tail
    gTail := some n
    gNext := Function.update ht.gNext n none }
  let ht ← ht.unless_null tail fun q => { ht with gNext := Function.update ht.gNext q (some n) }
  .ok (if ht.gHead = none then { ht with gHead := some n } else ht)

/-- `hashtable_put_real`; `preserve` is `HT_PUT_ON_DUP_KEY_PRESERVE`. -/
def hashtable_put_real (ht : HashTable K V) (preserve : Bool) (h : ℕ) (key : K) (value : V) :
    Except Fault (HashTable K V × Bool) := do
  let index := ht.index h
  let head ← ht.bucket index
  match ← bucket_find ef ht h key (ht.brk + 1) head with
  | some n =>
      let c ← ht.node n
      if preserve then .ok (ht, false)
      else
        .ok ({ ht with cells := Function.update ht.cells n (some { c with data := value }) }, true)
  | none =>
      let n := ht.brk
      let ht := { ht with
        cells := Function.update ht.cells n (some ⟨h, key_duper key, value⟩)
        brk := n + 1 }
      let ht ← link_bucket ht n index
      let ht ← link_global ht n
      let ht ← ht.set_bucket index (some n)
      let ht ← hashtable_maybe_resize { ht with count := ht.count + 1 }
      .ok (ht, true)

def hashtable_put (ht : HashTable K V) (preserve : Bool) (key : K) (value : V) :
    Except Fault (HashTable K V × Bool) :=
  hashtable_put_real ef key_duper ht preserve (hash key) key value

/-- What both deletions do after the `nNext` of the node before, or the bucket, was
set. -/
def unlink (ht : HashTable K V) (n : ℕ) : Except Fault (HashTable K V) := do
  let ht ← ht.unless_null (ht.nNext n) fun q =>
    { ht with nPrev := Function.update ht.nPrev q (ht.nPrev n) }
  let ht ← (if ht.gPrev n ≠ none then
      ht.unless_null (ht.gPrev n) fun q =>
        { ht with gNext := Function.update ht.gNext q (ht.gNext n) }
    else .ok { ht with gHead := ht.gNext n })
  if ht.gNext n ≠ none then
    ht.unless_null (ht.gNext n) fun q =>
      { ht with gPrev := Function.update ht.gPrev q (ht.gPrev n) }
  else .ok { ht with gTail := ht.gPrev n }

/-- `hashtable_delete_node`: the table and the next node. -/
def hashtable_delete_node (ht : HashTable K V) (n : ℕ) : Except Fault (HashTable K V × Ptr) := do
  let c ← ht.node n
  let ht ← (if ht.nPrev n ≠ none then
      ht.unless_null (ht.nPrev n) fun q =>
        { ht with nNext := Function.update ht.nNext q (ht.nNext n) }
    else ht.set_bucket (ht.index c.hash) (ht.nNext n))
  let ht ← unlink ht n
  let ht := { ht with count := ht.count - 1 }
  .ok (ht.free n, ht.gNext n)

/-- `hashtable_delete_real`. Without the node before, the assignment to its `nNext`
is one through `NULL`. -/
def hashtable_delete_real (ht : HashTable K V) (h : ℕ) (key : K) :
    Except Fault (HashTable K V × Bool) := do
  let index := ht.index h
  let head ← ht.bucket index
  match ← bucket_find ef ht h key (ht.brk + 1) head with
  | none => .ok (ht, false)
  | some n =>
      let ht ← (if some n = head then ht.set_bucket index (ht.nNext n)
        else if ht.nPrev n = none then .error .null
        else ht.unless_null (ht.nPrev n) fun q =>
          { ht with nNext := Function.update ht.nNext q (ht.nNext n) })
      let ht ← unlink ht n
      let ht := ht.free n
      .ok ({ ht with count := ht.count - 1 }, true)

def hashtable_delete (ht : HashTable K V) (key : K) : Except Fault (HashTable K V × Bool) :=
  hashtable_delete_real ef ht (hash key) key

end Keys

/-- The loop of `hashtable_clear_real`. -/
def hashtable_clear_loop : ℕ → HashTable K V → Ptr → Except Fault (HashTable K V)
  | 0, _, _ => .error .diverges
  | _ + 1, ht, none => .ok ht
  | fuel + 1, ht, some n => do
      let _ ← ht.node n
      hashtable_clear_loop fuel (ht.free n) (ht.gNext n)

def hashtable_clear (ht : HashTable K V) : Except Fault (HashTable K V) := do
  let n := ht.gHead
  let ht := { ht with count := 0, gHead := none, gTail := none }
  let ht ← hashtable_clear_loop (ht.brk + 1) ht n
  .ok ht.memset

/-! ## The iterator -/

/-- A loop with `iterator_is_valid`, in the direction of `next`: the keys and values
that it comes by. -/
def iterate (ht : HashTable K V) (next : ℕ → Ptr) : ℕ → Ptr → Except Fault (List (K × V))
  | 0, _ => .error .diverges
  | _ + 1, none => .ok []
  | fuel + 1, some n => do
      let c ← ht.node n
      let rest ← iterate ht next fuel (next n)
      .ok ((c.key, c.data) :: rest)

/-- From `iterator_first` with `iterator_next`. -/
def forward (ht : HashTable K V) : Except Fault (List (K × V)) :=
  iterate ht ht.gNext (ht.brk + 1) ht.gHead

/-- From `iterator_last` with `iterator_previous`. -/
def backward (ht : HashTable K V) : Except Fault (List (K × V)) :=
  iterate ht ht.gPrev (ht.brk + 1) ht.gTail

/-- The node that a loop like that of `forward` is at after `i` steps. -/
def node_at (ht : HashTable K V) : ℕ → Ptr → Except Fault Ptr
  | _, none => .ok none
  | 0, some n => .ok (some n)
  | i + 1, some n => do
      let _ ← ht.node n
      node_at ht i (ht.gNext n)

end PkgPlugins.Hashtable
