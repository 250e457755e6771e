/-
The doubly linked list (`kissc/dlist.c`) and its iterator (`kissc/iterator.c`).

The elements live in memory, so the model has a memory: `cells` maps an address
to the element stored there, and an address that was never allocated, or whose
element was freed, maps to nothing. Reading such an address, or `NULL`, is a
fault (`Fault`), and every operation returns `Except Fault`: a function that
returns `.ok` has read and written live elements only. A list shares its
elements with nobody, so each list carries its own memory. Allocations succeed.

A loop of the source is a recursion on a number of steps; `Fault.diverges` is
its running out of them, and the specifications below exclude it.

The abstract view of a list is the sequence of its elements with their
addresses. `Represents l ns` says that `l` is well formed and holds `ns`; each
operation has one specification in terms of it, and what follows from those
never opens the memory again.
-/
import PkgPlugins.BubbleSort
import PkgPlugins.Fallible
import Mathlib.Logic.Function.Basic
import Mathlib.Data.List.Nodup
import Mathlib.Data.List.Range
import Mathlib.Data.List.Perm.Subperm

set_option autoImplicit false

namespace PkgPlugins.Dlist

open PkgPlugins.Fallible

/-! ## Memory -/

/-- A pointer to an element; `none` is `NULL`. -/
abbrev Ptr := Option ℕ

/-- Why a run stops without a result. -/
inductive Fault
  | null
  | freed (p : ℕ)
  | diverges
deriving DecidableEq, Repr

structure DListElement (α : Type) where
  next : Ptr
  prev : Ptr
  data : α
deriving DecidableEq

/-- A list and the memory its elements live in; `brk` is the next address
`malloc` returns. -/
structure DList (α : Type) where
  length : UInt64
  head : Ptr
  tail : Ptr
  cells : ℕ → Option (DListElement α)
  brk : ℕ

namespace DList

variable {α : Type}

/-- `*p`. -/
def read (l : DList α) : Ptr → Except Fault (DListElement α)
  | none => .error .null
  | some p => match l.cells p with
    | none => .error (.freed p)
    | some e => .ok e

/-- Memory with `e` at the address `a`, or nothing. -/
def put (l : DList α) (a : ℕ) (e : Option (DListElement α)) : DList α :=
  { l with cells := Function.update l.cells a e }

/-- An assignment to fields of `*p`. -/
def modify (l : DList α) (p : Ptr) (f : DListElement α → DListElement α) :
    Except Fault (DList α) :=
  match p with
  | none => .error .null
  | some a => match l.cells a with
    | none => .error (.freed a)
    | some e => .ok (l.put a (some (f e)))

/-- `free(p)`. -/
def free (l : DList α) : Ptr → DList α
  | none => l
  | some p => l.put p none

variable {l : DList α} {a : ℕ} {e : DListElement α}

theorem read_ok (h : l.cells a = some e) : l.read (some a) = .ok e := by simp [read, h]

theorem modify_ok (h : l.cells a = some e) (f : DListElement α → DListElement α) :
    l.modify (some a) f = .ok (l.put a (some (f e))) := by
  simp [modify, h]

@[simp] theorem put_head (e : Option (DListElement α)) : (l.put a e).head = l.head := by
  simp [put]

@[simp] theorem put_tail (e : Option (DListElement α)) : (l.put a e).tail = l.tail := by
  simp [put]

@[simp] theorem put_length (e : Option (DListElement α)) : (l.put a e).length = l.length := by
  simp [put]

@[simp] theorem put_cells (e : Option (DListElement α)) :
    (l.put a e).cells = Function.update l.cells a e := by
  simp [put]

end DList

variable {α : Type}

/-! ## The list operations -/

def dlist_init : DList α := ⟨0, none, none, fun _ => none, 0⟩

def dlist_append (list : DList α) (data : α) : Except Fault (DList α) :=
  let tmp := list.brk
  if list.tail ≠ none then do
    let list' ← list.modify list.tail (fun e => { e with next := some tmp })
    return { list'.put tmp (some ⟨none, list.tail, data⟩) with
      tail := some tmp, brk := tmp + 1, length := list.length + 1 }
  else
    return { list.put tmp (some ⟨none, none, data⟩) with
      head := some tmp, tail := some tmp, brk := tmp + 1, length := list.length + 1 }

/-- `if (NULL != element->prev) element->prev->next = element->next;` -/
def unlink_prev (list : DList α) (element : Ptr) : Except Fault (DList α) := do
  let e ← list.read element
  if e.prev ≠ none then list.modify e.prev (fun x => { x with next := e.next }) else return list

/-- `if (NULL != element->next) element->next->prev = element->prev;` -/
def unlink_next (list : DList α) (element : Ptr) : Except Fault (DList α) := do
  let e ← list.read element
  if e.next ≠ none then list.modify e.next (fun x => { x with prev := e.prev }) else return list

/-- The branch `element == list->head`. -/
def unlink_head (list : DList α) (element : Ptr) : Except Fault (DList α) :=
  if element = list.head then do
    let h ← list.read list.head
    let list := { list with head := h.next }
    if list.head ≠ none then list.modify list.head (fun x => { x with prev := none })
    else return list
  else return list

/-- The branch `element == list->tail`. -/
def unlink_tail (list : DList α) (element : Ptr) : Except Fault (DList α) :=
  if element = list.tail then do
    let t ← list.read list.tail
    let list := { list with tail := t.prev }
    if list.tail ≠ none then list.modify list.tail (fun x => { x with next := none })
    else return list
  else return list

def dlist_remove_link (list : DList α) (element : Ptr) : Except Fault (DList α) := do
  let list ← unlink_prev list element
  let list ← unlink_next list element
  let list ← unlink_head list element
  let list ← unlink_tail list element
  let list := list.free element
  return { list with length := list.length - 1 }

/-- The inner loop of `dlist_sort`, from `cur` up to the element before `tmp`:
the list, the last `cur`, and `swapped`. -/
def dlist_sort_pass (cmp : α → α → ℤ) (tmp : Ptr) :
    ℕ → DList α → Ptr → Bool → Except Fault (DList α × Ptr × Bool)
  | 0, _, _, _ => .error .diverges
  | fuel + 1, list, cur, swapped => do
      let c ← list.read cur
      if c.next ≠ tmp then
        let n ← list.read c.next
        if 0 < cmp c.data n.data then
          let list ← list.modify cur (fun e => { e with data := n.data })
          let list ← list.modify c.next (fun e => { e with data := c.data })
          dlist_sort_pass cmp tmp fuel list c.next true
        else dlist_sort_pass cmp tmp fuel list c.next swapped
      else return (list, cur, swapped)

/-- The outer loop of `dlist_sort`. -/
def dlist_sort_loop (cmp : α → α → ℤ) : ℕ → DList α → Ptr → Except Fault (DList α)
  | 0, _, _ => .error .diverges
  | fuel + 1, list, tmp => do
      let (list, cur, swapped) ← dlist_sort_pass cmp tmp (list.brk + 1) list list.head false
      if swapped then dlist_sort_loop cmp fuel list cur else return list

def dlist_sort (list : DList α) (cmp : α → α → ℤ) : Except Fault (DList α) :=
  if list.head ≠ none then dlist_sort_loop cmp (list.brk + 1) list none else return list

/-- The loop of `resolve_position`: `c` steps from `cur`. -/
def resolve_position_loop (list : DList α) (n : ℤ) : ℕ → Ptr → Except Fault Ptr
  | 0, cur => .ok cur
  | _ + 1, none => .ok none
  | c + 1, some p => do
      let cur ← list.read (some p)
      resolve_position_loop list n c (if n < 0 then cur.prev else cur.next)

def resolve_position (list : DList α) (n : ℤ) : Except Fault Ptr :=
  resolve_position_loop list n n.natAbs (if n < 0 then list.tail else list.head)

/-- The data at the position `n`, where there is an element. -/
def dlist_at (list : DList α) (n : ℤ) : Except Fault (Option α) := do
  match ← resolve_position list n with
  | none => return none
  | some cur => return some (← list.read (some cur)).data

/-! ## The iterator

Its state is a pointer to the current element. -/

def dlist_iterator_first (list : DList α) : Ptr := list.head

def dlist_iterator_last (list : DList α) : Ptr := list.tail

def dlist_iterator_is_valid (state : Ptr) : Bool := state.isSome

def dlist_iterator_current (list : DList α) (state : Ptr) : Except Fault α := do
  return (← list.read state).data

def dlist_iterator_next (list : DList α) (state : Ptr) : Except Fault Ptr := do
  return (← list.read state).next

def dlist_iterator_previous (list : DList α) (state : Ptr) : Except Fault Ptr := do
  return (← list.read state).prev

def dlist_iterator_delete (list : DList α) (el : Ptr) : Except Fault (DList α × Ptr) := do
  let e ← list.read el
  let state := if e.prev = none then list.head else e.prev
  let list ← dlist_remove_link list el
  return (list, state)

variable {σ : Type}

/-- The loop of `iterator_reject` on the iterator of a list. -/
def iterator_reject_loop (callback : α → σ → Bool × σ) :
    ℕ → DList α → Ptr → σ → Except Fault (DList α × σ)
  | 0, _, _, _ => .error .diverges
  | fuel + 1, list, state, data =>
      if dlist_iterator_is_valid state then do
        let value ← dlist_iterator_current list state
        let (reject, data) := callback value data
        let (list, state) ← if reject then dlist_iterator_delete list state else pure (list, state)
        let state ← dlist_iterator_next list state
        iterator_reject_loop callback fuel list state data
      else return (list, data)

/-- `iterator_reject(it, callback, data)`; the callback may change its data. -/
def iterator_reject (list : DList α) (callback : α → σ → Bool × σ) (data : σ) :
    Except Fault (DList α × σ) :=
  iterator_reject_loop callback (list.brk + 1) list (dlist_iterator_first list) data

/-! ## Chains of elements -/

/-- The first address of a chain that goes on with `n`. -/
def firstAddr : List (ℕ × α) → Ptr → Ptr
  | [], n => n
  | x :: _, _ => some x.1

/-- The last address of a chain that starts after `p`. -/
def lastAddr : Ptr → List (ℕ × α) → Ptr
  | p, [] => p
  | _, x :: xs => lastAddr (some x.1) xs

@[simp] theorem firstAddr_nil (n : Ptr) : firstAddr ([] : List (ℕ × α)) n = n := by
  simp [firstAddr]

@[simp] theorem firstAddr_cons (x : ℕ × α) (xs : List (ℕ × α)) (n : Ptr) :
    firstAddr (x :: xs) n = some x.1 := by
  simp [firstAddr]

@[simp] theorem lastAddr_nil (p : Ptr) : lastAddr p ([] : List (ℕ × α)) = p := by
  simp [lastAddr]

@[simp] theorem lastAddr_cons (p : Ptr) (x : ℕ × α) (xs : List (ℕ × α)) :
    lastAddr p (x :: xs) = lastAddr (some x.1) xs := by
  simp [lastAddr]

theorem firstAddr_append (xs ys : List (ℕ × α)) (n : Ptr) :
    firstAddr (xs ++ ys) n = firstAddr xs (firstAddr ys n) := by
  cases xs <;> simp

theorem lastAddr_append (p : Ptr) (xs ys : List (ℕ × α)) :
    lastAddr p (xs ++ ys) = lastAddr (lastAddr p xs) ys := by
  induction xs generalizing p with
  | nil => simp
  | cons x xs ih => simp [ih]

theorem exists_lastAddr (p : Ptr) {ns : List (ℕ × α)} (hne : ns ≠ []) :
    ∃ y ∈ ns, lastAddr p ns = some y.1 := by
  obtain ⟨pre, y, rfl⟩ := (List.eq_nil_or_concat' ns).resolve_left hne
  exact ⟨y, by simp, by simp [lastAddr_append]⟩

/-- The elements of `ns` are in memory, chained both ways, the first after `p`
and the last before `n`. -/
def Seg (c : ℕ → Option (DListElement α)) : Ptr → List (ℕ × α) → Ptr → Prop
  | _, [], _ => True
  | p, x :: xs, n => c x.1 = some ⟨firstAddr xs n, p, x.2⟩ ∧ Seg c (some x.1) xs n

@[simp] theorem seg_nil (c : ℕ → Option (DListElement α)) (p n : Ptr) : Seg c p [] n := by
  simp [Seg]

@[simp] theorem seg_cons (c : ℕ → Option (DListElement α)) (p n : Ptr) (x : ℕ × α)
    (xs : List (ℕ × α)) :
    Seg c p (x :: xs) n ↔ c x.1 = some ⟨firstAddr xs n, p, x.2⟩ ∧ Seg c (some x.1) xs n := by
  simp [Seg]

theorem seg_append (c : ℕ → Option (DListElement α)) (p n : Ptr) (xs ys : List (ℕ × α)) :
    Seg c p (xs ++ ys) n ↔ Seg c p xs (firstAddr ys n) ∧ Seg c (lastAddr p xs) ys n := by
  induction xs generalizing p with
  | nil => simp
  | cons x xs ih => simp [ih, firstAddr_append, and_assoc]

/-- A write elsewhere leaves a chain as it is. -/
theorem Seg.update {c : ℕ → Option (DListElement α)} {p n : Ptr} {xs : List (ℕ × α)}
    (h : Seg c p xs n) {a : ℕ} (ha : a ∉ xs.map Prod.fst) (e : Option (DListElement α)) :
    Seg (Function.update c a e) p xs n := by
  induction xs generalizing p with
  | nil => simp
  | cons x xs ih =>
      rw [seg_cons] at h ⊢
      simp only [List.map_cons, List.mem_cons, not_or] at ha
      refine ⟨?_, ih h.2 ha.2⟩
      rw [Function.update_of_ne (Ne.symm ha.1), h.1]

/-- Setting `next` in the last element of a chain. -/
theorem Seg.set_next {c : ℕ → Option (DListElement α)} {p n : Ptr} {xs : List (ℕ × α)}
    {y : ℕ × α} (h : Seg c p (xs ++ [y]) n) (hy : y.1 ∉ xs.map Prod.fst) (n' : Ptr) :
    Seg (Function.update c y.1 (some ⟨n', lastAddr p xs, y.2⟩)) p (xs ++ [y]) n' := by
  rw [seg_append] at h ⊢
  exact ⟨h.1.update hy _, by simp⟩

/-- Setting `prev` in the first element of a chain. -/
theorem Seg.set_prev {c : ℕ → Option (DListElement α)} {p n : Ptr} {xs : List (ℕ × α)}
    {y : ℕ × α} (h : Seg c p (y :: xs) n) (hy : y.1 ∉ xs.map Prod.fst) (p' : Ptr) :
    Seg (Function.update c y.1 (some ⟨firstAddr xs n, p', y.2⟩)) p' (y :: xs) n := by
  rw [seg_cons] at h ⊢
  exact ⟨by simp, h.2.update hy _⟩

/-- A chain is determined by its first address. -/
theorem Seg.unique {c : ℕ → Option (DListElement α)} {p : Ptr} {xs ys : List (ℕ × α)}
    (h : Seg c p xs none) (h' : Seg c p ys none) (hfirst : firstAddr xs none = firstAddr ys none) :
    xs = ys := by
  induction xs generalizing p ys with
  | nil =>
      cases ys with
      | nil => rfl
      | cons y ys => simp at hfirst
  | cons x xs ih =>
      cases ys with
      | nil => simp at hfirst
      | cons y ys =>
          rw [seg_cons] at h h'
          have haddr : x.1 = y.1 := by simpa using hfirst
          have hcell := h.1.symm.trans (haddr ▸ h'.1)
          rw [Option.some.injEq, DListElement.mk.injEq] at hcell
          rw [Prod.ext haddr hcell.2.2, ih h.2 (haddr ▸ h'.2) hcell.1]

/-- `list` is well formed and its elements, from head to tail, are `ns`. -/
structure Represents (list : DList α) (ns : List (ℕ × α)) : Prop where
  head : list.head = firstAddr ns none
  tail : list.tail = lastAddr none ns
  seg : Seg list.cells none ns none
  nodup : (ns.map Prod.fst).Nodup
  allocated : ∀ x ∈ ns, x.1 < list.brk
  length : list.length = UInt64.ofNat ns.length

/-- A list that some operations of this file could have built. -/
def WellFormed (list : DList α) (data : List α) : Prop :=
  ∃ ns, Represents list ns ∧ ns.map Prod.snd = data

/-- A list has one content. -/
theorem wellFormed_rightUnique : Relator.RightUnique (@WellFormed α) := by
  rintro list data data' ⟨ns, hns, rfl⟩ ⟨ns', hns', rfl⟩
  rw [hns.seg.unique hns'.seg (hns.head.symm.trans hns'.head)]

namespace Represents

variable {list : DList α} {ns pre post : List (ℕ × α)} {x : ℕ × α}

/-- There are no more elements than allocations. -/
theorem length_le (h : Represents list ns) : ns.length ≤ list.brk := by
  have hsub : ns.map Prod.fst ⊆ List.range list.brk := by
    intro a ha
    obtain ⟨x, hx, rfl⟩ := List.mem_map.mp ha
    exact List.mem_range.mpr (h.allocated x hx)
  have := (List.subperm_of_subset h.nodup hsub).length_le
  simpa using this

/-- The element at a position of the list. -/
theorem cell (h : Represents list (pre ++ x :: post)) :
    list.cells x.1 = some ⟨firstAddr post none, lastAddr none pre, x.2⟩ := by
  have hseg := h.seg
  rw [seg_append, seg_cons] at hseg
  exact hseg.2.1

theorem read (h : Represents list (pre ++ x :: post)) :
    list.read (some x.1) = .ok ⟨firstAddr post none, lastAddr none pre, x.2⟩ := by
  simp [DList.read, h.cell]

/-- Writing the data of one element. -/
theorem set_data (h : Represents list (pre ++ x :: post)) (d : α) :
    ∃ list', list.modify (some x.1) (fun e => { e with data := d }) = .ok list'
      ∧ list'.brk = list.brk ∧ Represents list' (pre ++ (x.1, d) :: post) := by
  have hnodup := h.nodup
  have hseg := h.seg
  rw [seg_append, seg_cons] at hseg
  simp only [List.map_append, List.map_cons, List.nodup_append, List.nodup_cons,
    List.mem_cons, ne_eq, forall_eq_or_imp] at hnodup
  have hpre : x.1 ∉ pre.map Prod.fst := fun hx => (hnodup.2.2 _ hx).1 rfl
  refine ⟨_, DList.modify_ok h.cell _, rfl, ?_, ?_, ?_, by simpa using h.nodup, ?_,
    by simpa using h.length⟩
  · simpa [firstAddr_append] using h.head
  · simpa [lastAddr_append] using h.tail
  · rw [DList.put_cells, seg_append, seg_cons]
    refine ⟨by simpa using hseg.1.update hpre _, by simp, ?_⟩
    exact hseg.2.2.update hnodup.2.1.1 _
  · intro y hy
    simp only [List.mem_append, List.mem_cons] at hy
    rcases hy with hy | rfl | hy
    · exact h.allocated y (by simp [hy])
    · exact h.allocated x (by simp)
    · exact h.allocated y (by simp [hy])

/-- The parts of a list around one of its elements. -/
theorem split (h : Represents list (pre ++ x :: post)) :
    Seg list.cells none pre (some x.1) ∧ Seg list.cells (some x.1) post none
      ∧ (x.1 ∉ pre.map Prod.fst ∧ x.1 ∉ post.map Prod.fst)
      ∧ ∀ y ∈ pre, y.1 ∉ post.map Prod.fst := by
  have hseg := h.seg
  have hnodup := h.nodup
  rw [seg_append, seg_cons] at hseg
  simp only [List.map_append, List.map_cons, List.nodup_append, List.nodup_cons,
    List.mem_cons, ne_eq, forall_eq_or_imp] at hnodup
  obtain ⟨-, ⟨hpost, -⟩, hsep⟩ := hnodup
  refine ⟨hseg.1, hseg.2.2, ⟨fun hx => (hsep _ hx).1 rfl, hpost⟩, fun y hy hmem => ?_⟩
  exact (hsep y.1 (List.mem_map_of_mem hy)).2 _ hmem rfl

theorem head_eq_iff (h : Represents list (pre ++ x :: post)) :
    some x.1 = list.head ↔ pre = [] := by
  rw [h.head]
  cases pre with
  | nil => simp
  | cons y pre =>
      have hx := h.split.2.2.1.1
      simp only [List.map_cons, List.mem_cons, not_or] at hx
      simpa using hx.1

theorem tail_eq_iff (h : Represents list (pre ++ x :: post)) :
    some x.1 = list.tail ↔ post = [] := by
  rw [h.tail, lastAddr_append, lastAddr_cons]
  refine ⟨fun heq => ?_, fun hnil => by simp [hnil]⟩
  by_contra hne
  obtain ⟨y, hy, hlast⟩ := exists_lastAddr (some x.1) hne
  rw [hlast, Option.some.injEq] at heq
  exact h.split.2.2.1.2 (heq ▸ List.mem_map_of_mem hy)

/-- A list from which one element is unlinked, once both parts are chained. -/
theorem unlinked {list' : DList α} (h : Represents list (pre ++ x :: post))
    (hhead : list'.head = firstAddr (pre ++ post) none)
    (htail : list'.tail = lastAddr none (pre ++ post))
    (hpre : Seg list'.cells none pre (firstAddr post none))
    (hpost : Seg list'.cells (lastAddr none pre) post none)
    (hbrk : list'.brk = list.brk) (hlength : list'.length = list.length - 1) :
    Represents list' (pre ++ post) := by
  have hsub : (pre ++ post).Sublist (pre ++ x :: post) :=
    (List.sublist_cons_self x post).append_left pre
  refine ⟨hhead, htail, (seg_append _ _ _ _ _).mpr ⟨hpre, hpost⟩, ?_, ?_, ?_⟩
  · exact h.nodup.sublist (hsub.map Prod.fst)
  · exact fun y hy => hbrk ▸ h.allocated y (hsub.subset hy)
  · have hlen : (pre ++ x :: post).length = (pre ++ post).length + 1 := by
      simp only [List.length_append, List.length_cons]; omega
    rw [hlength, h.length, hlen, UInt64.ofNat_add]
    exact UInt64.add_sub_cancel _ 1

end Represents

/-! ## Building a list -/

theorem read_eq_ok {list : DList α} {p : Ptr} {e : DListElement α} (h : list.read p = .ok e) :
    ∃ a, p = some a ∧ list.cells a = some e := by
  unfold DList.read at h
  cases p with
  | none => exact absurd h nofun
  | some a =>
      simp only at h
      cases hcell : list.cells a with
      | none =>
          rw [hcell] at h
          exact absurd h nofun
      | some e' =>
          rw [hcell] at h
          cases h
          exact ⟨a, rfl, hcell⟩

theorem dlist_init_spec : Represents (dlist_init : DList α) [] :=
  ⟨rfl, rfl, trivial, List.nodup_nil, by simp, rfl⟩

/-- `dlist_append` adds an element at the end. -/
theorem dlist_append_spec {list : DList α} {ns : List (ℕ × α)} (h : Represents list ns) (data : α) :
    ∃ list', dlist_append list data = .ok list' ∧ Represents list' (ns ++ [(list.brk, data)]) := by
  have hfresh : list.brk ∉ ns.map Prod.fst := by
    intro hmem
    obtain ⟨x, hx, heq⟩ := List.mem_map.mp hmem
    have := h.allocated x hx
    omega
  have hnodup : ((ns ++ [(list.brk, data)]).map Prod.fst).Nodup := by
    rw [List.map_append, List.nodup_append]
    refine ⟨h.nodup, by simp, fun a ha b hb heq => hfresh ?_⟩
    have hb' : b = list.brk := by simpa using hb
    rwa [heq, hb'] at ha
  have hbound : ∀ x ∈ ns ++ [(list.brk, data)], x.1 < list.brk + 1 := by
    intro x hx
    rcases List.mem_append.mp hx with hx | hx
    · exact Nat.lt_succ_of_lt (h.allocated x hx)
    · simp [List.mem_singleton.mp hx]
  have hlength : list.length + 1 = UInt64.ofNat (ns ++ [(list.brk, data)]).length := by
    rw [List.length_append, UInt64.ofNat_add, h.length]
    rfl
  rcases List.eq_nil_or_concat' ns with rfl | ⟨ns, y, rfl⟩
  · have htail : list.tail = none := h.tail
    refine ⟨_, by simp [dlist_append, htail]; rfl, rfl, rfl, by simp, hnodup, hbound, hlength⟩
  · have htail : list.tail = some y.1 := by simpa [lastAddr_append] using h.tail
    have hy : list.cells y.1 = some ⟨none, lastAddr none ns, y.2⟩ := by simpa using h.cell
    have hseg := (h.seg.set_next h.split.2.2.1.1 (some list.brk)).update hfresh
      (some ⟨none, some y.1, data⟩)
    refine ⟨_, by simp [dlist_append, htail, DList.modify_ok hy]; rfl, ?_, ?_, ?_, hnodup, hbound,
      hlength⟩
    · simpa [firstAddr_append] using h.head
    · simp [lastAddr_append]
    · rw [seg_append]
      refine ⟨by simpa using hseg, by simp [lastAddr_append]⟩

/-! ## Removing an element -/

/-- The memory of `dlist_remove_link` between two of its steps: the element `x`
is still there, the part before it ends with a pointer to `n`, and the part
after it starts with a pointer back to `p`. -/
structure Gap (c : ℕ → Option (DListElement α)) (pre : List (ℕ × α)) (x : ℕ × α)
    (post : List (ℕ × α)) (n p : Ptr) : Prop where
  cell : c x.1 = some ⟨firstAddr post none, lastAddr none pre, x.2⟩
  before : Seg c none pre n
  after : Seg c p post none
  nodup : ((pre ++ x :: post).map Prod.fst).Nodup

namespace Gap

variable {c : ℕ → Option (DListElement α)} {pre post : List (ℕ × α)}
  {x y : ℕ × α} {n p : Ptr}

theorem cell_before (h : Gap c (pre ++ [y]) x post n p) :
    c y.1 = some ⟨n, lastAddr none pre, y.2⟩ := by
  have hseg := h.before
  rw [seg_append, seg_cons] at hseg
  simpa using hseg.2.1

theorem cell_after (h : Gap c pre x (y :: post) n p) :
    c y.1 = some ⟨firstAddr post none, p, y.2⟩ :=
  ((seg_cons _ _ _ _ _).mp h.after).1

theorem set_next (h : Gap c (pre ++ [y]) x post n p) (n' : Ptr) :
    Gap (Function.update c y.1 (some ⟨n', lastAddr none pre, y.2⟩)) (pre ++ [y]) x post n' p := by
  have hnodup := h.nodup
  simp only [List.map_append, List.map_cons, List.append_assoc, List.cons_append,
    List.nil_append, List.nodup_append, List.nodup_cons, List.mem_cons, ne_eq,
    forall_eq_or_imp, not_or] at hnodup
  -- `y` is neither the removed element nor one after it
  obtain ⟨-, ⟨⟨hyx, hypost⟩, -⟩, hsep⟩ := hnodup
  refine ⟨?_, ?_, ?_, h.nodup⟩
  · rw [Function.update_of_ne (Ne.symm hyx), h.cell]
  · exact h.before.set_next (fun hy => (hsep _ hy).1 rfl) n'
  · exact h.after.update hypost _

theorem set_prev (h : Gap c pre x (y :: post) n p) (p' : Ptr) :
    Gap (Function.update c y.1 (some ⟨firstAddr post none, p', y.2⟩)) pre x (y :: post) n p' := by
  have hnodup := h.nodup
  simp only [List.map_append, List.map_cons, List.nodup_append, List.nodup_cons, List.mem_cons,
    ne_eq, forall_eq_or_imp, not_or] at hnodup
  -- `y` is neither the removed element nor one before it
  obtain ⟨-, ⟨⟨hxy, -⟩, hypost, -⟩, hsep⟩ := hnodup
  refine ⟨?_, ?_, ?_, h.nodup⟩
  · rw [Function.update_of_ne hxy, h.cell]
  · exact h.before.update (fun hy => (hsep _ hy).2.1 rfl) _
  · exact h.after.set_prev hypost p'

theorem unlink_prev_spec (list : DList α) (h : Gap list.cells pre x post n p) :
    ∃ c, unlink_prev list (some x.1) = .ok { list with cells := c }
      ∧ Gap c pre x post (firstAddr post none) p := by
  simp only [unlink_prev, DList.read_ok h.cell, ok_bind]
  -- without an element before, there is nothing to write
  rcases List.eq_nil_or_concat' pre with rfl | ⟨pre, y, rfl⟩
  · exact ⟨list.cells, by simp [pure, Except.pure], h.cell, by simp, h.after, h.nodup⟩
  · refine ⟨_, ?_, h.set_next (firstAddr post none)⟩
    simp [lastAddr_append, DList.modify_ok h.cell_before, DList.put]

theorem unlink_next_spec (list : DList α) (h : Gap list.cells pre x post n p) :
    ∃ c, unlink_next list (some x.1) = .ok { list with cells := c }
      ∧ Gap c pre x post n (lastAddr none pre) := by
  simp only [unlink_next, DList.read_ok h.cell, ok_bind]
  cases post with
  | nil => exact ⟨list.cells, by simp [pure, Except.pure], h.cell, h.before, by simp, h.nodup⟩
  | cons y post =>
      refine ⟨_, ?_, h.set_prev (lastAddr none pre)⟩
      simp [DList.modify_ok h.cell_after, DList.put]

theorem unlink_head_spec (list : DList α)
    (h : Gap list.cells pre x post n (lastAddr none pre))
    (hhead : some x.1 = list.head ↔ pre = []) :
    ∃ c, unlink_head list (some x.1) = .ok { list with
        cells := c
        head := if pre = [] then firstAddr post none else list.head }
      ∧ Gap c pre x post n (lastAddr none pre) := by
  by_cases hnil : pre = []
  · -- the element is the head: the next one becomes it, if there is one
    subst hnil
    have heq : some x.1 = list.head := hhead.mpr rfl
    simp only [unlink_head, ← heq, DList.read_ok h.cell, ok_bind, if_true]
    cases post with
    | nil => exact ⟨list.cells, by simp [pure, Except.pure], h⟩
    | cons y post =>
        refine ⟨_, ?_, h.set_prev none⟩
        simp [DList.modify, h.cell_after, DList.put]
  · have hne : some x.1 ≠ list.head := fun heq => hnil (hhead.mp heq)
    exact ⟨list.cells, by simp [unlink_head, hne, hnil, pure, Except.pure], h⟩

theorem unlink_tail_spec (list : DList α)
    (h : Gap list.cells pre x post (firstAddr post none) p)
    (htail : some x.1 = list.tail ↔ post = []) :
    ∃ c, unlink_tail list (some x.1) = .ok { list with
        cells := c
        tail := if post = [] then lastAddr none pre else list.tail }
      ∧ Gap c pre x post (firstAddr post none) p := by
  by_cases hnil : post = []
  · -- the element is the tail: the one before becomes it, if there is one
    subst hnil
    have heq : some x.1 = list.tail := htail.mpr rfl
    simp only [unlink_tail, ← heq, DList.read_ok h.cell, ok_bind, if_true]
    rcases List.eq_nil_or_concat' pre with rfl | ⟨pre, y, rfl⟩
    · exact ⟨list.cells, by simp [pure, Except.pure], h⟩
    · refine ⟨_, ?_, h.set_next none⟩
      simp [lastAddr_append, DList.modify, h.cell_before, DList.put]
  · have hne : some x.1 ≠ list.tail := fun heq => hnil (htail.mp heq)
    exact ⟨list.cells, by simp [unlink_tail, hne, hnil, pure, Except.pure], h⟩

end Gap

/-- **`dlist_remove_link`** on an element of a list unlinks and frees it, reads
live elements only, and leaves the others where they were. -/
theorem dlist_remove_link_spec {list : DList α} {pre post : List (ℕ × α)} {x : ℕ × α}
    (h : Represents list (pre ++ x :: post)) :
    ∃ list', dlist_remove_link list (some x.1) = .ok list' ∧ list'.brk = list.brk
      ∧ list'.cells x.1 = none ∧ Represents list' (pre ++ post) := by
  have h0 : Gap list.cells pre x post (some x.1) (some x.1) :=
    ⟨h.cell, h.split.1, h.split.2.1, h.nodup⟩
  -- the four steps one after the other; `Gap` says what each leaves of the cells
  obtain ⟨c1, hrun1, h1⟩ := h0.unlink_prev_spec list
  obtain ⟨c2, hrun2, h2⟩ := h1.unlink_next_spec { list with cells := c1 }
  obtain ⟨c3, hrun3, h3⟩ := h2.unlink_head_spec { list with cells := c2 } h.head_eq_iff
  obtain ⟨c4, hrun4, h4⟩ := h3.unlink_tail_spec
    { list with cells := c3, head := if pre = [] then firstAddr post none else list.head }
    h.tail_eq_iff
  refine ⟨⟨list.length - 1, if pre = [] then firstAddr post none else list.head,
    if post = [] then lastAddr none pre else list.tail, Function.update c4 x.1 none, list.brk⟩,
    ?_, rfl, by simp, ?_⟩
  · simp only [dlist_remove_link, hrun1, hrun2, hrun3, hrun4, ok_bind]
    rfl
  · refine h.unlinked ?_ ?_ ?_ ?_ rfl rfl
    · cases pre with
      | nil => simp
      | cons y pre => simp [h.head]
    · rcases List.eq_nil_or_concat' post with rfl | ⟨post, y, rfl⟩
      · simp
      · simp [h.tail, lastAddr_append]
    · exact h4.before.update h.split.2.2.1.1 none
    · exact h4.after.update h.split.2.2.1.2 none

/-! ## Sorting -/

/-- The test of `dlist_sort`. -/
def exchanges (cmp : α → α → ℤ) (a b : α) : Bool := decide (0 < cmp a b)

/-- Within a list, an address occurs once. -/
theorem Represents.addr_ne {list : DList α} {pre mid post : List (ℕ × α)} {x : ℕ × α}
    (h : Represents list (pre ++ x :: (mid ++ post))) : some x.1 ≠ firstAddr post none := by
  cases post with
  | nil => simp
  | cons z post =>
      have hx := h.split.2.2.1.2
      simp only [List.map_append, List.map_cons, List.mem_append, List.mem_cons, not_or] at hx
      simpa using hx.2.1

/-- The inner loop is a pass of the sort over the elements up to `post`. -/
theorem dlist_sort_pass_spec (cmp : α → α → ℤ) (post rest : List (ℕ × α)) :
    ∀ (fuel : ℕ) (list : DList α) (pre : List (ℕ × α)) (x : ℕ × α) (swapped : Bool),
      Represents list (pre ++ x :: (rest ++ post)) → rest.length < fuel →
      ∃ list' mid last,
        dlist_sort_pass cmp (firstAddr post none) fuel list (some x.1) swapped
            = .ok (list', some last.1,
                swapped || (BubbleSort.pass (exchanges cmp) x.2 (rest.map Prod.snd)).swapped)
          ∧ list'.brk = list.brk
          ∧ (mid ++ [last]).map Prod.fst = (x :: rest).map Prod.fst
          ∧ mid.map Prod.snd = (BubbleSort.pass (exchanges cmp) x.2 (rest.map Prod.snd)).front
          ∧ last.2 = (BubbleSort.pass (exchanges cmp) x.2 (rest.map Prod.snd)).last
          ∧ Represents list' (pre ++ (mid ++ last :: post)) := by
  -- the induction is on the part of the list that the pass has still to see
  induction rest with
  | nil =>
      intro fuel list pre x swapped h hfuel
      obtain ⟨fuel, rfl⟩ := Nat.exists_eq_succ_of_ne_zero (Nat.ne_of_gt hfuel)
      rw [List.nil_append] at h
      refine ⟨list, [], x, ?_, rfl, rfl, rfl, rfl, by simpa using h⟩
      simp [dlist_sort_pass, h.read, BubbleSort.pass, pure, Except.pure]
  | cons y ys ih =>
      intro fuel list pre x swapped h hfuel
      obtain ⟨fuel, rfl⟩ := Nat.exists_eq_succ_of_ne_zero (Nat.ne_of_gt (Nat.zero_lt_of_lt hfuel))
      have hfuel' : ys.length < fuel := by
        rw [List.length_cons] at hfuel
        omega
      have hy : Represents list ((pre ++ [x]) ++ y :: (ys ++ post)) := by simpa using h
      have hne : some y.1 ≠ firstAddr post none := hy.addr_ne
      simp only [dlist_sort_pass, List.map_cons]
      rw [h.read]
      simp only [ok_bind, List.cons_append, firstAddr_cons, ne_eq, hne, not_false_eq_true, if_true]
      rw [hy.read]
      simp only [ok_bind]
      by_cases hgt : 0 < cmp x.2 y.2
      · -- the two data are exchanged: `x`'s goes on in the element of `y`
        obtain ⟨list1, hset1, hbrk1, h1⟩ := h.set_data y.2
        have hy1 : Represents list1 ((pre ++ [(x.1, y.2)]) ++ y :: (ys ++ post)) := by
          simpa using h1
        obtain ⟨list2, hset2, hbrk2, h2⟩ := hy1.set_data x.2
        obtain ⟨list', mid, last, hrun, hbrk, hmap, hfront, hlast, hrep⟩ :=
          ih fuel list2 _ (y.1, x.2) true h2 hfuel'
        have hexchange : exchanges cmp x.2 y.2 = true := by simpa [exchanges] using hgt
        rw [BubbleSort.pass_cons_of_gt hexchange]
        refine ⟨list', (x.1, y.2) :: mid, last, ?_, hbrk.trans (hbrk2.trans hbrk1),
          by simpa using hmap, by simpa using hfront, hlast, by simpa using hrep⟩
        rw [if_pos hgt, hset1, ok_bind, hset2, ok_bind, hrun]
        simp
      · obtain ⟨list', mid, last, hrun, hbrk, hmap, hfront, hlast, hrep⟩ :=
          ih fuel list (pre ++ [x]) y swapped hy hfuel'
        have hleave : ¬ exchanges cmp x.2 y.2 = true := by simpa [exchanges] using hgt
        rw [BubbleSort.pass_cons_of_not_gt hleave]
        refine ⟨list', x :: mid, last, ?_, hbrk, by simpa using hmap, by simpa using hfront,
          hlast, by simpa using hrep⟩
        rw [if_neg hgt]
        exact hrun

/-- The passes over a front followed by `post`, from its head. -/
theorem dlist_sort_loop_spec (cmp : α → α → ℤ) (n : ℕ) :
    ∀ (fuel : ℕ) (list : DList α) (ns post : List (ℕ × α)),
      Represents list (ns ++ post) → ns ≠ [] → ns.length = n → n < fuel →
      ∃ list' ns', dlist_sort_loop cmp fuel list (firstAddr post none) = .ok list'
        ∧ list'.brk = list.brk ∧ ns'.map Prod.fst = ns.map Prod.fst
        ∧ ns'.map Prod.snd = BubbleSort.sortLoop (exchanges cmp) n (ns.map Prod.snd)
        ∧ Represents list' (ns' ++ post) := by
  induction n with
  | zero =>
      intro fuel list ns post _ hne hlen
      exact absurd (List.length_eq_zero_iff.mp hlen) hne
  | succ n ih =>
      intro fuel list ns post h hne hlen hfuel
      obtain ⟨fuel, rfl⟩ := Nat.exists_eq_succ_of_ne_zero (Nat.ne_of_gt (Nat.zero_lt_of_lt hfuel))
      obtain ⟨x, rest, rfl⟩ := List.exists_cons_of_ne_nil hne
      have hlen_le : (x :: rest).length ≤ list.brk := by
        have := h.length_le
        rw [List.length_append] at this
        omega
      obtain ⟨list', mid, last, hrun, hbrk, hmap, hfront, hlast, hrep⟩ :=
        dlist_sort_pass_spec cmp post rest (list.brk + 1) list [] x false h
          (by rw [List.length_cons] at hlen_le; omega)
      rw [List.nil_append] at hrep
      rw [Bool.false_or] at hrun
      have hhead : list.head = some x.1 := h.head
      simp only [dlist_sort_loop, hhead, hrun, ok_bind]
      -- without an exchange the loop ends; with one, the last element is in place
      by_cases hsw : (BubbleSort.pass (exchanges cmp) x.2 (rest.map Prod.snd)).swapped = true
      · have hmid : mid.length = n := by
          have := congrArg List.length hmap
          simp only [List.map_append, List.map_cons, List.length_append, List.length_map,
            List.length_cons] at this hlen
          simpa [hlen] using this
        have hmid_ne : mid ≠ [] := by
          rintro rfl
          exact BubbleSort.pass_front_ne_nil hsw hfront.symm
        obtain ⟨list'', ns', hrun', hbrk', hmap', hsort', hrep'⟩ :=
          ih fuel list' mid (last :: post) hrep hmid_ne hmid (by omega)
        rw [firstAddr_cons] at hrun'
        refine ⟨list'', ns' ++ [last], ?_, hbrk'.trans hbrk, ?_, ?_, by simpa using hrep'⟩
        · rw [if_pos hsw, hrun']
        · rw [← hmap, List.map_append, List.map_append, hmap']
        · simp [BubbleSort.sortLoop, hsw, hsort', hfront, hlast]
      · refine ⟨list', mid ++ [last], by rw [if_neg hsw]; rfl, hbrk, hmap, ?_, by simpa using hrep⟩
        simp [BubbleSort.sortLoop, hsw, hfront, hlast]

/-- **`dlist_sort`** terminates, keeps every element where it is, and leaves in
them the data as the bubble sort orders it. -/
theorem dlist_sort_spec {list : DList α} {ns : List (ℕ × α)} (h : Represents list ns)
    (cmp : α → α → ℤ) :
    ∃ list' ns', dlist_sort list cmp = .ok list' ∧ list'.brk = list.brk
      ∧ ns'.map Prod.fst = ns.map Prod.fst
      ∧ ns'.map Prod.snd = BubbleSort.sort (exchanges cmp) (ns.map Prod.snd)
      ∧ Represents list' ns' := by
  cases ns with
  | nil =>
      have hhead : list.head = none := h.head
      exact ⟨list, [], by simp [dlist_sort, hhead, pure, Except.pure], rfl, rfl, rfl, h⟩
  | cons x rest =>
      have hhead : list.head = some x.1 := h.head
      obtain ⟨list', ns', hrun, hbrk, hmap, hsort, hrep⟩ :=
        dlist_sort_loop_spec cmp (x :: rest).length (list.brk + 1) list (x :: rest) []
          (by simpa using h) (by simp) rfl (Nat.lt_succ_of_le h.length_le)
      refine ⟨list', ns', ?_, hbrk, hmap, ?_, by simpa using hrep⟩
      · simpa [dlist_sort, hhead] using hrun
      · rw [hsort, BubbleSort.sort, List.length_map]

/-! ## Positions -/

theorem resolve_position_loop_spec {list : DList α} {n : ℤ} (hn : ¬ n < 0) (post : List (ℕ × α)) :
    ∀ (c : ℕ) (pre : List (ℕ × α)), Represents list (pre ++ post) →
      resolve_position_loop list n c (firstAddr post none)
        = .ok (firstAddr (post.drop c) none) := by
  induction post with
  | nil => intro c pre _; cases c <;> rfl
  | cons x post ih =>
      intro c pre h
      cases c with
      | zero => rfl
      | succ c =>
          rw [firstAddr_cons, resolve_position_loop, h.read, ok_bind, if_neg hn,
            List.drop_succ_cons]
          exact ih c (pre ++ [x]) (by simpa using h)

/-- **`dlist_at`** counts from the head, starting with 0. -/
theorem dlist_at_spec {list : DList α} {ns : List (ℕ × α)} (h : Represents list ns) (n : ℕ) :
    dlist_at list n = .ok ((ns.map Prod.snd)[n]?) := by
  have hpos : ¬ (n : ℤ) < 0 := by omega
  have hloop := resolve_position_loop_spec hpos ns n [] (by simpa using h)
  rw [dlist_at, resolve_position, Int.natAbs_natCast, if_neg hpos, h.head, hloop, ok_bind]
  -- the elements before the position, and from it on
  have hsplit : Represents list (ns.take n ++ ns.drop n) := by rwa [List.take_append_drop]
  rw [← List.head?_drop, ← List.map_drop]
  cases hdrop : ns.drop n with
  | nil => rfl
  | cons x post =>
      rw [hdrop] at hsplit
      simp only [firstAddr_cons, hsplit.read, ok_bind, List.map_cons, List.head?_cons]
      rfl

/-! ## Iterating -/

/-- What `iterator_reject` is meant to leave, and the last state of the callback. -/
def rejectList (callback : α → σ → Bool × σ) : List α → σ → List α × σ
  | [], data => ([], data)
  | x :: xs, data =>
      let (reject, data) := callback x data
      let (kept, data) := rejectList callback xs data
      (if reject then kept else x :: kept, data)

/-- A callback that leaves its data alone is a predicate. -/
theorem rejectList_const {callback : α → σ → Bool × σ} {data : σ} {f : α → Bool}
    (h : ∀ x, callback x data = (f x, data)) (xs : List α) :
    rejectList callback xs data = (xs.filter (fun x => !f x), data) := by
  induction xs with
  | nil => simp [rejectList]
  | cons x xs ih => cases hf : f x <;> simp [rejectList, h, ih, hf]

/-- `dlist_iterator_delete` away from the head leaves the iterator on the
element before, whose `next` is the rest of the list. -/
theorem dlist_iterator_delete_spec {list : DList α} {pre post : List (ℕ × α)} {p x : ℕ × α}
    (h : Represents list (pre ++ p :: x :: post)) :
    ∃ list', dlist_iterator_delete list (some x.1) = .ok (list', some p.1)
      ∧ list'.brk = list.brk ∧ Represents list' (pre ++ p :: post) := by
  have hx : Represents list ((pre ++ [p]) ++ x :: post) := by simpa using h
  obtain ⟨list', hrun, hbrk, -, hrep⟩ := dlist_remove_link_spec hx
  refine ⟨list', ?_, hbrk, by simpa using hrep⟩
  simp [dlist_iterator_delete, hx.read, hrun, lastAddr_append, pure, Except.pure]

/-- Once an element was kept, the loop goes through the rest of the list. -/
theorem iterator_reject_loop_spec (callback : α → σ → Bool × σ) (rest : List (ℕ × α)) :
    ∀ (fuel : ℕ) (list : DList α) (pre : List (ℕ × α)) (p : ℕ × α) (data : σ),
      Represents list (pre ++ p :: rest) → rest.length < fuel →
      ∃ list' ns',
        iterator_reject_loop callback fuel list (firstAddr rest none) data
            = .ok (list', (rejectList callback (rest.map Prod.snd) data).2)
          ∧ ns'.map Prod.snd = (rejectList callback (rest.map Prod.snd) data).1
          ∧ Represents list' (pre ++ p :: ns') := by
  induction rest with
  | nil =>
      intro fuel list pre p data h hfuel
      obtain ⟨fuel, rfl⟩ := Nat.exists_eq_succ_of_ne_zero (Nat.ne_of_gt hfuel)
      exact ⟨list, [], rfl, rfl, h⟩
  | cons x xs ih =>
      intro fuel list pre p data h hfuel
      obtain ⟨fuel, rfl⟩ := Nat.exists_eq_succ_of_ne_zero (Nat.ne_of_gt (Nat.zero_lt_of_lt hfuel))
      have hfuel' : xs.length < fuel := by
        rw [List.length_cons] at hfuel
        omega
      have hx : Represents list ((pre ++ [p]) ++ x :: xs) := by simpa using h
      simp only [iterator_reject_loop, firstAddr_cons, dlist_iterator_is_valid, Option.isSome_some,
        if_true, dlist_iterator_current, hx.read, ok_bind, pure, Except.pure, List.map_cons,
        rejectList]
      cases hc : callback x.2 data with
      | mk reject data' =>
          cases reject with
          | true =>
              -- the iterator stays on the element before the one that is deleted
              obtain ⟨list1, hrun1, -, h1⟩ := dlist_iterator_delete_spec h
              obtain ⟨list', ns', hrun, hmap, hrep⟩ := ih fuel list1 pre p data' h1 hfuel'
              refine ⟨list', ns', ?_, by simpa using hmap, hrep⟩
              simp only [if_true, hrun1, ok_bind, dlist_iterator_next, h1.read, pure, Except.pure]
              exact hrun
          | false =>
              obtain ⟨list', ns', hrun, hmap, hrep⟩ := ih fuel list (pre ++ [p]) x data' hx hfuel'
              refine ⟨list', x :: ns', ?_, by simpa using hmap, by simpa using hrep⟩
              simp only [Bool.false_eq_true, if_false, ok_bind, dlist_iterator_next, hx.read, pure,
                Except.pure]
              exact hrun

/-- **`iterator_reject` when the head stays**: what the callback rejects is
removed, the rest keeps its order. -/
theorem iterator_reject_keeps_head {list : DList α} {x : ℕ × α} {xs : List (ℕ × α)}
    (h : Represents list (x :: xs)) (callback : α → σ → Bool × σ) (data : σ)
    (hkeep : (callback x.2 data).1 = false) :
    ∃ list' ns', iterator_reject list callback data
        = .ok (list', (rejectList callback ((x :: xs).map Prod.snd) data).2)
      ∧ ns'.map Prod.snd = (rejectList callback ((x :: xs).map Prod.snd) data).1
      ∧ Represents list' ns' := by
  -- the first round moves on, the others have an element before theirs
  have hlen : xs.length < list.brk := by
    have := h.length_le
    rw [List.length_cons] at this
    omega
  obtain ⟨list', ns', hrun, hmap, hrep⟩ :=
    iterator_reject_loop_spec callback xs list.brk list [] x (callback x.2 data).2 h hlen
  have hread : list.read (some x.1) = .ok ⟨firstAddr xs none, none, x.2⟩ :=
    Represents.read (show Represents list ([] ++ x :: xs) from h)
  refine ⟨list', x :: ns', ?_, ?_, hrep⟩
  · simp only [iterator_reject, iterator_reject_loop, dlist_iterator_first, h.head, firstAddr_cons,
      dlist_iterator_is_valid, Option.isSome_some, if_true, dlist_iterator_current, hread, ok_bind,
      pure, Except.pure, hkeep, Bool.false_eq_true, if_false, dlist_iterator_next, hrun,
      List.map_cons, rejectList]
  · simp only [List.map_cons, rejectList, hkeep, Bool.false_eq_true, if_false, hmap]

/-- **`iterator_reject` when the head goes**: `dlist_iterator_delete` leaves the
iterator on the head it has just freed, and the next step reads it. -/
theorem iterator_reject_head {list : DList α} {x : ℕ × α} {xs : List (ℕ × α)}
    (h : Represents list (x :: xs)) (callback : α → σ → Bool × σ) (data : σ)
    (hreject : (callback x.2 data).1 = true) :
    iterator_reject list callback data = .error (.freed x.1) := by
  have hread : list.read (some x.1) = .ok ⟨firstAddr xs none, none, x.2⟩ :=
    Represents.read (show Represents list ([] ++ x :: xs) from h)
  obtain ⟨list', hrun, -, hfree, -⟩ :=
    dlist_remove_link_spec (show Represents list ([] ++ x :: xs) from h)
  have hread' : list'.read (some x.1) = .error (.freed x.1) := by simp [DList.read, hfree]
  simp only [iterator_reject, iterator_reject_loop, dlist_iterator_first, h.head, firstAddr_cons,
    dlist_iterator_is_valid, Option.isSome_some, if_true, dlist_iterator_current, hread, ok_bind,
    pure, Except.pure, hreject, dlist_iterator_delete, hrun, dlist_iterator_next, hread']
  rfl

theorem iterator_reject_nil {list : DList α} (h : Represents list [])
    (callback : α → σ → Bool × σ) (data : σ) :
    iterator_reject list callback data = .ok (list, data) := by
  have hhead : list.head = none := h.head
  simp [iterator_reject, iterator_reject_loop, dlist_iterator_first, hhead,
    dlist_iterator_is_valid, pure, Except.pure]

end PkgPlugins.Dlist
