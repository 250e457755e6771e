/-
The functions of the doubly linked list that take a position: `dlist_at`, and
`dlist_link_at` with the insertion and the removal that rest on it (`kissc/dlist.c`).

`dlist_link_at` doesn't follow a link at each step. It adds the offset of the link to the
pointer itself, so that its pointers have to be modelled with an offset into an element.
From the head on the offset is that of `next`, which is 0: the pointer stays at the head.

The walk of `dlist_at` is in Dlist. An `int` has a least value, which can't be negated.
-/
import PkgPlugins.DlistRuns
import Mathlib.Algebra.Group.Int.Defs
import Mathlib.Algebra.Group.Nat.Defs

set_option autoImplicit false

namespace PkgPlugins.Dlist

open PkgPlugins.Fallible

variable {α : Type}

/-! ## Pointers into elements -/

/-- A pointer into an element: the address of the element and a number of bytes. -/
abbrev BytePtr := Option (ℕ × ℕ)

/-- `offsetof(DListElement, next)`. -/
def next_offset : ℕ := 0

/-- `offsetof(DListElement, prev)`. -/
def prev_offset : ℕ := 8

inductive PositionFault
  | memory (f : Fault)
  | outside (p : ℕ) (offset : ℕ)
  | overflow
deriving DecidableEq

def memory {β : Type} : Except Fault β → Except PositionFault β
  | .ok b => .ok b
  | .error f => .error (.memory f)

abbrev INT_MIN : ℤ := -2 ^ 31

/-- `-n` in `int`. -/
def neg_int (n : ℤ) : Except PositionFault ℤ := if n ≤ INT_MIN then .error .overflow else .ok (-n)

/-- What a pointer is as a pointer to an element, through which `prev` is read: not one, if
it is beyond the start of the element. -/
def element_at : ℕ × ℕ → Except PositionFault Ptr
  | (p, 0) => .ok (some p)
  | (p, offset) => .error (.outside p offset)

/-! ## The functions -/

/-- `for (; NULL != el && n >= 0; n--)`, where `steps` is `n + 1`. -/
def dlist_link_at_loop (offset : ℕ) : ℕ → BytePtr → BytePtr
  | 0, el => el
  | _ + 1, none => none
  | steps + 1, some (p, bytes) => dlist_link_at_loop offset steps (some (p, bytes + offset))

/-- `(int) (list->length - (el == list->head))`. -/
def link_bound (list : DList α) (el : Ptr) : ℤ :=
  Int.bmod (list.length - if el = list.head then 1 else 0).toNat (2 ^ 32)

/-- The steps, the end of the list to start from, and the offset of the link. -/
def link_start (list : DList α) (n : ℤ) : Except PositionFault (ℤ × Ptr × ℕ) :=
  if n < 0 then (neg_int n).map fun n => (n, list.tail, prev_offset)
  else .ok (n, list.head, next_offset)

def dlist_link_at (list : DList α) (n : ℤ) : Except PositionFault BytePtr := do
  let (n, el, offset) ← link_start list n
  let start := el.map fun p => (p, 0)
  if n ≤ link_bound list el then return dlist_link_at_loop offset (n + 1).toNat start
  else return start

def dlist_insert_at (list : DList α) (n : ℤ) (data : α) :
    Except PositionFault (DList α × Bool) := do
  match ← dlist_link_at list n with
  | none => return (list, false)
  | some el =>
      let sibling ← element_at el
      let list ← memory (dlist_insert_before list sibling data)
      return (list, true)

def dlist_remove_at (list : DList α) (n : ℤ) : Except PositionFault (DList α × Bool) := do
  match ← dlist_link_at list n with
  | none => return (list, false)
  | some el =>
      let element ← element_at el
      let list ← memory (dlist_remove_link list element)
      return (list, true)

/-- `resolve_position`, which `dlist_at` reads, on an `int`. -/
def resolve_int (list : DList α) (n : ℤ) : Except PositionFault Ptr := do
  if n < 0 then
    let _ ← neg_int n
  memory (resolve_position list n)

/-! ## What is promised -/

/-- **The promise**: `p` is the element that `dlist_at` finds at `n`, counted from the head
if `n` is not negative. `dlist_link_at` returns it, `dlist_insert_at` adds an element in
front of it and `dlist_remove_at` takes it off; where there is none, all three fail and the
list stays as it is. -/
def Designates (list : DList α) (ns : List (ℕ × α)) (n : ℤ) (data : α) (p : Ptr) : Prop :=
  resolve_int list n = .ok p
    ∧ (0 ≤ n → p = (ns[n.toNat]?).map Prod.fst)
    ∧ dlist_link_at list n = .ok (p.map fun a => (a, 0))
    ∧ match p with
      | none => dlist_insert_at list n data = .ok (list, false)
          ∧ dlist_remove_at list n = .ok (list, false)
      | some a =>
          (∃ list', dlist_insert_at list n data = .ok (list', true)
            ∧ Walk DListElement.next list'.cells list'.head (insertBefore a (list.brk, data) ns))
          ∧ ∃ list', dlist_remove_at list n = .ok (list', true)
            ∧ Represents list' (ns.eraseP fun x => x.1 == a)

/-- The positional functions agree at `n`. -/
def Agree (list : DList α) (ns : List (ℕ × α)) (n : ℤ) (data : α) : Prop :=
  ∃ p, Designates list ns n data p

/-! ## Where `dlist_at` is -/

section Positions

variable {list : DList α} {ns : List (ℕ × α)}

/-- Steps from the end of a part of the list towards the head. -/
theorem resolve_position_loop_back {n : ℤ} (hn : n < 0) (pre : List (ℕ × α)) :
    ∀ (c : ℕ) (post : List (ℕ × α)), Represents list (pre ++ post) →
      resolve_position_loop list n c (lastAddr none pre)
        = .ok (lastAddr none (pre.reverse.drop c).reverse) := by
  induction pre using List.reverseRecOn with
  | nil => intro c post _; cases c <;> rfl
  | append_singleton pre x ih =>
      intro c post h
      cases c with
      | zero => rw [List.drop_zero, List.reverse_reverse]; rfl
      | succ c =>
          have hx : Represents list (pre ++ x :: post) := by simpa using h
          rw [lastAddr_append, lastAddr_cons, lastAddr_nil, resolve_position_loop, hx.read, ok_bind,
            if_pos hn, List.reverse_append, List.reverse_singleton, List.singleton_append,
            List.drop_succ_cons]
          exact ih c (x :: post) hx

/-- The last address of a part of the list is that of its last element. -/
theorem lastAddr_reverse_drop (m : ℕ) :
    lastAddr none (ns.reverse.drop m).reverse = (ns.reverse[m]?).map Prod.fst := by
  rw [← List.head?_drop]
  cases ns.reverse.drop m with
  | nil => rfl
  | cons x xs => rw [List.reverse_cons, lastAddr_append]; rfl

theorem firstAddr_drop (m : ℕ) :
    firstAddr (ns.drop m) none = (ns[m]?).map Prod.fst := by
  rw [← List.head?_drop]
  cases ns.drop m <;> rfl

/-- `dlist_at` counts from the head, or back from the tail. -/
theorem resolve_position_spec (h : Represents list ns) (n : ℤ) :
    resolve_position list n
      = .ok (if n < 0 then (ns.reverse[n.natAbs]?).map Prod.fst
          else (ns[n.natAbs]?).map Prod.fst) := by
  unfold resolve_position
  by_cases hn : n < 0
  · have h' : Represents list (ns ++ []) := by rwa [List.append_nil]
    rw [if_pos hn, if_pos hn, h.tail, resolve_position_loop_back hn ns n.natAbs [] h',
      lastAddr_reverse_drop]
  · rw [if_neg hn, if_neg hn, h.head, resolve_position_loop_spec hn ns n.natAbs [] h,
      firstAddr_drop]

/-- Within a list two positions have two addresses. -/
theorem getElem?_map_fst_ne {xs : List (ℕ × α)} (hnodup : (xs.map Prod.fst).Nodup) {x : ℕ × α}
    {m : ℕ} (hm : m ≠ 0) (hx : xs[0]? = some x) : (xs[m]?).map Prod.fst ≠ some x.1 := by
  obtain ⟨y, rest, rfl⟩ := List.exists_cons_of_ne_nil (l := xs) (by rintro rfl; cases hx)
  obtain rfl : y = x := Option.some.inj hx
  obtain ⟨m, rfl⟩ := Nat.exists_eq_succ_of_ne_zero hm
  rw [List.getElem?_cons_succ]
  intro heq
  obtain ⟨z, hz, hzy⟩ := Option.map_eq_some_iff.mp heq
  rw [List.map_cons, List.nodup_cons] at hnodup
  exact hnodup.1 (hzy ▸ List.mem_map_of_mem (List.mem_of_getElem? hz))

/-! ## Where `dlist_link_at` is -/

/-- The pointer moves within one element. -/
theorem dlist_link_at_loop_some (offset steps p bytes : ℕ) :
    dlist_link_at_loop offset steps (some (p, bytes)) = some (p, bytes + steps * offset) := by
  induction steps generalizing bytes with
  | zero => rw [Nat.zero_mul]; rfl
  | succ steps ih =>
      rw [dlist_link_at_loop, ih, Nat.succ_mul, Nat.add_assoc, Nat.add_comm offset]

theorem dlist_link_at_loop_none (offset steps : ℕ) :
    dlist_link_at_loop offset steps none = none := by
  cases steps <;> rfl

/-- A position that is not negative: the head, whatever it is. -/
theorem dlist_link_at_nonneg (list : DList α) {n : ℤ} (hn : ¬ n < 0) :
    dlist_link_at list n = .ok (list.head.map fun p => (p, 0)) := by
  have hstay : ∀ steps, dlist_link_at_loop next_offset steps (list.head.map fun p => (p, 0))
      = list.head.map fun p => (p, 0) := by
    intro steps
    cases list.head with
    | none => exact dlist_link_at_loop_none _ _
    | some p => exact (dlist_link_at_loop_some _ _ _ _).trans (by rw [next_offset]; rfl)
  unfold dlist_link_at link_start
  rw [if_neg hn, ok_bind]
  simp only [hstay, ite_self]
  rfl

/-- A negative one: a pointer beyond the start of the tail, or the tail. -/
theorem dlist_link_at_neg {list : DList α} {p : ℕ} (htail : list.tail = some p) {n : ℤ}
    (hn : n < 0) {el : BytePtr} (h : dlist_link_at list n = .ok el) :
    ∃ bytes, el = some (p, bytes) := by
  unfold dlist_link_at link_start at h
  rw [if_pos hn] at h
  obtain ⟨start, hstart, h⟩ := bind_eq_ok h
  cases hneg : neg_int n with
  | error e =>
      rw [hneg] at hstart
      exact absurd hstart nofun
  | ok m =>
      rw [hneg] at hstart
      cases hstart
      simp only [htail, Option.map_some, dlist_link_at_loop_some] at h
      split_ifs at h
      · cases h
        exact ⟨_, rfl⟩
      · cases h
        exact ⟨_, rfl⟩

/-! ## Agreement -/

/-- On a list with elements a negative position of `dlist_link_at` is in the tail, where
`dlist_at` is not. -/
theorem not_agree_neg (h : Represents list ns) (hne : ns ≠ []) {n : ℤ} (hn : n < 0) {data : α} :
    ¬ Agree list ns n data := by
  rintro ⟨p, hat, -, hlink, -⟩
  obtain ⟨pre, x, rfl⟩ := (List.eq_nil_or_concat' ns).resolve_left hne
  have htail : list.tail = some x.1 := by rw [h.tail, lastAddr_append]; rfl
  obtain ⟨bytes, hbytes⟩ := dlist_link_at_neg htail hn hlink
  obtain ⟨a, ha, hpair⟩ := Option.map_eq_some_iff.mp hbytes
  have hax : a = x.1 := congrArg Prod.fst hpair
  -- `dlist_at` has gone at least one step back
  unfold resolve_int at hat
  rw [if_pos hn] at hat
  obtain ⟨m, -, hat⟩ := bind_eq_ok hat
  rw [resolve_position_spec h n, if_pos hn] at hat
  have hp : ((pre ++ [x]).reverse[n.natAbs]?).map Prod.fst = some x.1 := by
    rw [← hax, ← ha]
    exact Except.ok.inj hat
  have hnodup : ((pre ++ [x]).reverse.map Prod.fst).Nodup := by
    rw [List.map_reverse]
    exact List.nodup_reverse.mpr h.nodup
  exact getElem?_map_fst_ne hnodup (Int.natAbs_ne_zero.mpr (Int.ne_of_lt hn)) (by simp) hp

/-- Nor is the head anywhere but at 0. -/
theorem not_agree_pos (h : Represents list ns) (hne : ns ≠ []) {n : ℤ} (hn : 0 < n) {data : α} :
    ¬ Agree list ns n data := by
  rintro ⟨p, -, hp, hlink, -⟩
  obtain ⟨x, rest, rfl⟩ := List.exists_cons_of_ne_nil hne
  have hhead : list.head = some x.1 := h.head
  rw [dlist_link_at_nonneg list (Int.not_lt.mpr (Int.le_of_lt hn)), hhead] at hlink
  obtain ⟨a, ha, hpair⟩ := Option.map_eq_some_iff.mp (Except.ok.inj hlink).symm
  have hax : a = x.1 := congrArg Prod.fst hpair
  have hzero : n.toNat ≠ 0 := by omega
  refine getElem?_map_fst_ne h.nodup hzero rfl ?_
  rw [← hp (Int.le_of_lt hn), ha, hax]

/-- On an empty list all fail, but for an `int` that can't be negated. -/
theorem agree_nil (h : Represents list []) {n : ℤ} (hn : INT_MIN < n) (data : α) :
    Agree list [] n data := by
  have hhead : list.head = none := h.head
  have htail : list.tail = none := h.tail
  have hneg : neg_int n = .ok (-n) := if_neg (Int.not_le.mpr hn)
  have hlink : dlist_link_at list n = .ok none := by
    by_cases hlt : n < 0
    · unfold dlist_link_at link_start
      rw [if_pos hlt, hneg, htail]
      simp only [Except.map, ok_bind, Option.map_none, dlist_link_at_loop_none, ite_self]
      rfl
    · rw [dlist_link_at_nonneg list hlt, hhead]
      rfl
  have hat : resolve_int list n = .ok none := by
    unfold resolve_int
    rw [resolve_position_spec h n]
    by_cases hlt : n < 0
    · rw [if_pos hlt, if_pos hlt, hneg]
      rfl
    · rw [if_neg hlt, if_neg hlt]
      rfl
  refine ⟨none, hat, fun _ => rfl, hlink, ?_, ?_⟩
  · unfold dlist_insert_at
    rw [hlink]
    rfl
  · unfold dlist_remove_at
    rw [hlink]
    rfl

/-- At 0 they are at the head. -/
theorem agree_zero {x : ℕ × α} (h : Represents list (x :: ns)) (data : α) :
    Agree list (x :: ns) 0 data := by
  have hhead : list.head = some x.1 := h.head
  have hlink : dlist_link_at list 0 = .ok (some (x.1, 0)) := by
    rw [dlist_link_at_nonneg list (Int.lt_irrefl 0), hhead]
    rfl
  have hat : resolve_int list 0 = .ok (some x.1) := by
    unfold resolve_int
    rw [resolve_position_spec h 0]
    rfl
  refine ⟨some x.1, hat, fun _ => rfl, hlink, ?_, ?_⟩
  · -- the new element is in front of the head, which it points to
    have hrun : dlist_insert_before list (some x.1) data = .ok
        { list.put list.brk (some ⟨some x.1, none, data⟩) with
          head := some list.brk, brk := list.brk + 1, length := list.length + 1 } := by
      unfold dlist_insert_before dlist_prepend
      rw [if_pos hhead.symm, hhead]
      rfl
    refine ⟨{ list.put list.brk (some ⟨some x.1, none, data⟩) with
      head := some list.brk, brk := list.brk + 1, length := list.length + 1 }, ?_, ?_⟩
    · unfold dlist_insert_at
      rw [hlink, ok_bind]
      simp only [element_at, ok_bind]
      rw [hrun]
      rfl
    · have hfresh : list.brk ∉ (x :: ns).map Prod.fst := by
        intro hmem
        obtain ⟨y, hy, heq⟩ := List.mem_map.mp hmem
        exact absurd (h.allocated y hy) (by omega)
      rw [insertBefore, if_pos rfl]
      refine @Walk.element α _ _ _ ⟨some x.1, none, data⟩ _ (Function.update_self _ _ _) ?_
      have hwalk := h.reflects.forward.update hfresh (some ⟨some x.1, none, data⟩)
      rwa [hhead] at hwalk
  · have hx : Represents list ([] ++ x :: ns) := h
    obtain ⟨list', hrun, -, -, hrep⟩ := dlist_remove_link_spec hx
    refine ⟨list', ?_, ?_⟩
    · unfold dlist_remove_at
      rw [hlink, ok_bind]
      simp only [element_at, ok_bind]
      rw [hrun]
      rfl
    · have herase : (x :: ns).eraseP (fun y => y.1 == x.1) = ns :=
        List.eraseP_cons_of_pos (by simp)
      rwa [herase]

/-- **When the positional functions agree**: at position 0, and on an empty list. -/
theorem positions_agree_iff (h : Represents list ns) (n : ℤ) (data : α) :
    Agree list ns n data ↔ ns = [] ∧ INT_MIN < n ∨ ns ≠ [] ∧ n = 0 := by
  constructor
  · intro hagree
    by_cases hne : ns = []
    · refine Or.inl ⟨hne, Int.not_le.mp fun hle => ?_⟩
      obtain ⟨p, hat, -⟩ := hagree
      have hlt : n < 0 := by
        have hmin : INT_MIN < 0 := by decide
        omega
      have hneg : neg_int n = .error .overflow := if_pos hle
      unfold resolve_int at hat
      rw [if_pos hlt, hneg] at hat
      exact absurd hat nofun
    · refine Or.inr ⟨hne, ?_⟩
      rcases Int.lt_trichotomy n 0 with hlt | hzero | hgt
      · exact absurd hagree (not_agree_neg h hne hlt)
      · exact hzero
      · exact absurd hagree (not_agree_pos h hne hgt)
  · rintro (⟨rfl, hn⟩ | ⟨hne, rfl⟩)
    · exact agree_nil h hn data
    · obtain ⟨x, rest, rfl⟩ := List.exists_cons_of_ne_nil hne
      exact agree_zero h data

end Positions

/-! ## A list of two elements -/

/-- The lists of `7` and `8`. -/
theorem exists_seven_eight : ∃ list : DList ℕ,
    run none [.append 7, .append 8] = .ok list ∧ Represents list [(0, 7), (1, 8)] := by
  obtain ⟨list, hrun, -, hrep⟩ := ((stands_nil none).concat none
    (show (Op.append 7).Valid [] from trivial) (fun h => h)).concat none
    (show (Op.append 8).Valid [(0, 7)] from trivial) (fun h => h)
  exact ⟨list, hrun, hrep⟩

/-- At 0 they agree. -/
theorem positions_agree_first : ∃ list : DList ℕ, run none [.append 7, .append 8] = .ok list
    ∧ Agree list [(0, 7), (1, 8)] 0 9 := by
  obtain ⟨list, hrun, hrep⟩ := exists_seven_eight
  exact ⟨list, hrun, (positions_agree_iff hrep 0 9).mpr (Or.inr ⟨List.cons_ne_nil _ _, rfl⟩)⟩

/-- **The promise is broken** at 1, where `dlist_at` finds `8` and the first element is
removed; at 2, where `dlist_at` finds nothing and the first element is removed all the same; and
at -1, where `dlist_at` finds `7` and the removal leaves the memory of the list. -/
theorem positions_differ : ∃ list : DList ℕ, run none [.append 7, .append 8] = .ok list
    ∧ (dlist_at list 1 = .ok (some 8) ∧ dlist_link_at list 1 = .ok (some (0, 0))
        ∧ ¬ Agree list [(0, 7), (1, 8)] 1 9)
    ∧ (dlist_at list 2 = .ok none ∧ dlist_link_at list 2 = .ok (some (0, 0))
        ∧ ¬ Agree list [(0, 7), (1, 8)] 2 9)
    ∧ dlist_at list (-1) = .ok (some 7) ∧ dlist_remove_at list (-1) = .error (.outside 1 16)
      ∧ ¬ Agree list [(0, 7), (1, 8)] (-1) 9 := by
  obtain ⟨list, hrun, hrep⟩ := exists_seven_eight
  refine ⟨list, hrun, ⟨?_, ?_, ?_⟩, ⟨?_, ?_, ?_⟩, ?_, ?_, ?_⟩
  · exact dlist_at_spec hrep 1
  · rw [dlist_link_at_nonneg list (by decide), hrep.head]
    rfl
  · exact not_agree_pos hrep (List.cons_ne_nil _ _) (by decide)
  · exact dlist_at_spec hrep 2
  · rw [dlist_link_at_nonneg list (by decide), hrep.head]
    rfl
  · exact not_agree_pos hrep (List.cons_ne_nil _ _) (by decide)
  · -- the first element, from the end; `prev` is at offset 16 of the last
    have hread := (show Represents list ([] ++ (0, 7) :: [(1, 8)]) from hrep).read
    unfold dlist_at
    rw [resolve_position_spec hrep, if_pos (by decide)]
    show (do let e ← list.read (some 0); pure (some e.data)) = _
    rw [hread]
    rfl
  · have hlink : dlist_link_at list (-1) = .ok (some (1, 16)) := by
      have hbound : link_bound list list.tail = 2 := by
        unfold link_bound
        rw [hrep.head, hrep.tail, hrep.length]
        decide
      unfold dlist_link_at link_start
      rw [if_pos (by decide), show neg_int (-1) = .ok 1 by decide]
      simp only [Except.map, ok_bind, hbound]
      rw [if_pos (by decide), hrep.tail]
      rfl
    unfold dlist_remove_at
    rw [hlink]
    rfl
  · exact not_agree_neg hrep (List.cons_ne_nil _ _) (by decide)

end PkgPlugins.Dlist
