/-
The other operations of the doubly linked list (`kissc/dlist.c`): elements added in front
of the list and next to an element, elements taken off its ends, and the list emptied.

Taking off and emptying have a specification each, like the operations of Dlist. Adding
has one where the work is done by `dlist_append`, or the list is empty: `dlist_prepend`
doesn't set `prev` in the old head, and `dlist_insert_before` and `dlist_insert_after`
don't count the element they add.
-/
import PkgPlugins.Dlist

set_option autoImplicit false

namespace PkgPlugins.Dlist

open PkgPlugins.Fallible

variable {α : Type}

/-! ## The operations -/

/-- The data that `alloc_element` stores. -/
def alloc_data (dup : Option (α → α)) (data : α) : α :=
  match dup with
  | none => data
  | some dup => dup data

def dlist_prepend (list : DList α) (data : α) : Except Fault (DList α) :=
  let tmp := list.brk
  if list.head ≠ none then
    return { list.put tmp (some ⟨list.head, none, data⟩) with
      head := some tmp, brk := tmp + 1, length := list.length + 1 }
  else
    return { list.put tmp (some ⟨none, none, data⟩) with
      head := some tmp, tail := some tmp, brk := tmp + 1, length := list.length + 1 }

def dlist_insert_before (list : DList α) (sibling : Ptr) (data : α) : Except Fault (DList α) :=
  if sibling = list.head then dlist_prepend list data
  else do
    let tmp := list.brk
    let s ← list.read sibling
    let list := { list.put tmp (some ⟨sibling, s.prev, data⟩) with brk := tmp + 1 }
    let list ← list.modify s.prev (fun e => { e with next := some tmp })
    list.modify sibling (fun e => { e with prev := some tmp })

def dlist_insert_after (list : DList α) (sibling : Ptr) (data : α) : Except Fault (DList α) :=
  if sibling = list.tail then dlist_append list data
  else do
    let tmp := list.brk
    let s ← list.read sibling
    let list ← list.modify s.next (fun e => { e with prev := some tmp })
    let s ← list.read sibling
    let list := { list.put tmp (some ⟨s.next, sibling, data⟩) with brk := tmp + 1 }
    list.modify sibling (fun e => { e with next := some tmp })

def dlist_remove_head (list : DList α) : Except Fault (DList α) :=
  if list.head ≠ none then do
    let tmp := list.head
    let h ← list.read list.head
    let list := { list with head := h.next }
    let list ←
      if list.head ≠ none then list.modify list.head (fun e => { e with prev := none })
      else pure { list with head := none, tail := none }
    let list := list.free tmp
    return { list with length := list.length - 1 }
  else return list

def dlist_remove_tail (list : DList α) : Except Fault (DList α) :=
  if list.tail ≠ none then do
    let tmp := list.tail
    let t ← list.read list.tail
    let list := { list with tail := t.prev }
    let list ←
      if list.tail ≠ none then list.modify list.tail (fun e => { e with next := none })
      else pure { list with head := none, tail := none }
    let list := list.free tmp
    return { list with length := list.length - 1 }
  else return list

/-- The loop of `dlist_clear`, from `tmp` on. -/
def dlist_clear_loop : ℕ → DList α → Ptr → Except Fault (DList α)
  | 0, _, _ => .error .diverges
  | fuel + 1, list, tmp =>
      if tmp ≠ none then do
        let last := tmp
        let e ← list.read tmp
        dlist_clear_loop fuel (list.free last) e.next
      else return list

def dlist_clear (list : DList α) : Except Fault (DList α) := do
  let list ← dlist_clear_loop (list.brk + 1) list list.head
  return { list with length := 0, head := none, tail := none }

/-! ## Adding -/

theorem modify_brk {list list' : DList α} {p : Ptr} {f : DListElement α → DListElement α}
    (h : list.modify p f = .ok list') : list'.brk = list.brk ∧ list'.length = list.length := by
  unfold DList.modify at h
  cases p with
  | none => exact absurd h nofun
  | some a =>
      simp only at h
      cases hcell : list.cells a with
      | none =>
          rw [hcell] at h
          exact absurd h nofun
      | some e =>
          rw [hcell] at h
          cases h
          exact ⟨rfl, rfl⟩

/-- An append takes one address. -/
theorem dlist_append_brk {list list' : DList α} {data : α}
    (h : dlist_append list data = .ok list') : list'.brk = list.brk + 1 := by
  unfold dlist_append at h
  by_cases htail : list.tail ≠ none
  · rw [if_pos htail] at h
    obtain ⟨list1, -, h⟩ := bind_eq_ok h
    cases h
    rfl
  · rw [if_neg htail] at h
    cases h
    rfl

/-- On an empty list `dlist_prepend` does what `dlist_append` does. -/
theorem dlist_prepend_nil {list : DList α} (h : Represents list []) (data : α) :
    dlist_prepend list data = dlist_append list data := by
  have hhead : list.head = none := h.head
  have htail : list.tail = none := h.tail
  unfold dlist_prepend dlist_append
  rw [if_neg (not_not_intro hhead), if_neg (not_not_intro htail)]

/-- After the last element `dlist_insert_after` does what `dlist_append` does. -/
theorem dlist_insert_after_tail {list : DList α} {sibling : Ptr} (h : sibling = list.tail)
    (data : α) : dlist_insert_after list sibling data = dlist_append list data := by
  unfold dlist_insert_after
  rw [if_pos h]

/-- Elsewhere it doesn't count. -/
theorem dlist_insert_after_length {list list' : DList α} {sibling : Ptr} {data : α}
    (hne : sibling ≠ list.tail) (h : dlist_insert_after list sibling data = .ok list') :
    list'.length = list.length := by
  unfold dlist_insert_after at h
  rw [if_neg hne] at h
  obtain ⟨s, -, h⟩ := bind_eq_ok h
  obtain ⟨list1, hset1, h⟩ := bind_eq_ok h
  obtain ⟨s', -, h⟩ := bind_eq_ok h
  exact (modify_brk h).2.trans (modify_brk hset1).2

/-- Nor does `dlist_insert_before`, unless it prepends. -/
theorem dlist_insert_before_length {list list' : DList α} {sibling : Ptr} {data : α}
    (hne : sibling ≠ list.head) (h : dlist_insert_before list sibling data = .ok list') :
    list'.length = list.length := by
  unfold dlist_insert_before at h
  rw [if_neg hne] at h
  obtain ⟨s, -, h⟩ := bind_eq_ok h
  obtain ⟨list1, hset1, h⟩ := bind_eq_ok h
  exact (modify_brk h).2.trans (modify_brk hset1).2

/-! ## Taking off -/

theorem dlist_remove_head_nil {list : DList α} (h : Represents list []) :
    dlist_remove_head list = .ok list := by
  have hhead : list.head = none := h.head
  unfold dlist_remove_head
  rw [if_neg (not_not_intro hhead)]
  rfl

/-- **`dlist_remove_head`** takes the first element off. -/
theorem dlist_remove_head_spec {list : DList α} {x : ℕ × α} {post : List (ℕ × α)}
    (h : Represents list (x :: post)) :
    ∃ list', dlist_remove_head list = .ok list' ∧ list'.brk = list.brk
      ∧ Represents list' post := by
  have hx : Represents list ([] ++ x :: post) := h
  have hhead : list.head = some x.1 := h.head
  have hread : list.read (some x.1) = .ok ⟨firstAddr post none, none, x.2⟩ := hx.read
  have hseg : Seg list.cells (some x.1) post none := hx.split.2.1
  have hout : x.1 ∉ post.map Prod.fst := hx.split.2.2.1.2
  unfold dlist_remove_head
  rw [if_pos (by rw [hhead]; exact Option.some_ne_none _), hhead, hread]
  cases post with
  | nil =>
      refine ⟨_, rfl, rfl, ?_⟩
      exact hx.unlinked rfl rfl trivial trivial rfl rfl
  | cons y post =>
      have hy : list.cells y.1 = some ⟨firstAddr post none, some x.1, y.2⟩ :=
        ((seg_cons _ _ _ _ _).mp hseg).1
      have hset := DList.modify_ok (l := { list with head := some y.1 }) hy
        (fun e => { e with prev := none })
      have hyout : y.1 ∉ post.map Prod.fst := by
        have hnodup := h.nodup
        rw [List.map_cons, List.map_cons, List.nodup_cons, List.nodup_cons] at hnodup
        exact hnodup.2.1
      simp only [ok_bind, firstAddr_cons, ne_eq, reduceCtorEq, not_false_eq_true, if_true, hset]
      refine ⟨_, rfl, rfl, ?_⟩
      refine hx.unlinked rfl ?_ trivial ?_ rfl rfl
      · show list.tail = _
        rw [h.tail]
        rfl
      · exact (hseg.set_prev hyout none).update hout none

theorem dlist_remove_tail_nil {list : DList α} (h : Represents list []) :
    dlist_remove_tail list = .ok list := by
  have htail : list.tail = none := h.tail
  unfold dlist_remove_tail
  rw [if_neg (not_not_intro htail)]
  rfl

/-- **`dlist_remove_tail`** takes the last element off. -/
theorem dlist_remove_tail_spec {list : DList α} {x : ℕ × α} {pre : List (ℕ × α)}
    (h : Represents list (pre ++ [x])) :
    ∃ list', dlist_remove_tail list = .ok list' ∧ list'.brk = list.brk
      ∧ Represents list' pre := by
  have htail : list.tail = some x.1 := by rw [h.tail, lastAddr_append]; rfl
  have hread : list.read (some x.1) = .ok ⟨none, lastAddr none pre, x.2⟩ := h.read
  have hseg : Seg list.cells none pre (some x.1) := h.split.1
  have hout : x.1 ∉ pre.map Prod.fst := h.split.2.2.1.1
  unfold dlist_remove_tail
  rw [if_pos (by rw [htail]; exact Option.some_ne_none _), htail, hread]
  rcases List.eq_nil_or_concat' pre with rfl | ⟨pre, y, rfl⟩
  · refine ⟨_, rfl, rfl, ?_⟩
    exact h.unlinked rfl rfl trivial trivial rfl rfl
  · have hlast : lastAddr none (pre ++ [y]) = some y.1 := by rw [lastAddr_append]; rfl
    have hy : list.cells y.1 = some ⟨some x.1, lastAddr none pre, y.2⟩ :=
      ((seg_cons _ _ _ _ _).mp ((seg_append _ _ _ _ _).mp hseg).2).1
    have hset := DList.modify_ok (l := { list with tail := some y.1 }) hy
      (fun e => { e with next := none })
    have hyout : y.1 ∉ pre.map Prod.fst := by
      have hrep : Represents list (pre ++ y :: [x]) := by simpa using h
      exact hrep.split.2.2.1.1
    simp only [ok_bind, hlast, ne_eq, reduceCtorEq, not_false_eq_true, if_true, hset]
    refine ⟨_, rfl, rfl, ?_⟩
    rw [← List.append_nil (pre ++ [y])]
    refine h.unlinked ?_ ?_ ?_ trivial rfl rfl
    · show list.head = _
      simp only [h.head, List.append_nil, firstAddr_append, firstAddr_cons]
    · show some y.1 = _
      rw [List.append_nil, hlast]
    · exact (hseg.set_next hyout none).update hout none

/-- The loop of `dlist_clear` frees what is left of the list. -/
theorem dlist_clear_loop_spec (ns : List (ℕ × α)) :
    ∀ {fuel : ℕ} {list : DList α} {p : Ptr}, ns.length < fuel → Seg list.cells p ns none →
      (ns.map Prod.fst).Nodup →
      ∃ list', dlist_clear_loop fuel list (firstAddr ns none) = .ok list'
        ∧ list'.brk = list.brk := by
  induction ns with
  | nil =>
      intro fuel list p hfuel _ _
      obtain ⟨fuel, rfl⟩ := Nat.exists_eq_add_one.mpr hfuel
      exact ⟨list, rfl, rfl⟩
  | cons x ns ih =>
      intro fuel list p hfuel hseg hnodup
      obtain ⟨fuel, rfl⟩ := Nat.exists_eq_add_one.mpr (Nat.zero_lt_of_lt hfuel)
      rw [seg_cons] at hseg
      rw [List.map_cons, List.nodup_cons] at hnodup
      have hseg' : Seg (list.free (some x.1)).cells (some x.1) ns none :=
        hseg.2.update hnodup.1 none
      obtain ⟨list', hrun, hbrk⟩ := ih (Nat.lt_of_succ_lt_succ hfuel) hseg' hnodup.2
      refine ⟨list', ?_, hbrk⟩
      rw [firstAddr_cons, dlist_clear_loop, if_pos (Option.some_ne_none _),
        DList.read_ok hseg.1]
      exact hrun

/-- **`dlist_clear`** leaves an empty list. -/
theorem dlist_clear_spec {list : DList α} {ns : List (ℕ × α)} (h : Represents list ns) :
    ∃ list', dlist_clear list = .ok list' ∧ list'.brk = list.brk ∧ Represents list' [] := by
  obtain ⟨list', hrun, hbrk⟩ :=
    dlist_clear_loop_spec ns (Nat.lt_succ_of_le h.length_le) h.seg h.nodup
  rw [← h.head] at hrun
  refine ⟨{ list' with length := 0, head := none, tail := none }, ?_, hbrk, ?_⟩
  · unfold dlist_clear
    rw [hrun]
    rfl
  · exact ⟨rfl, rfl, trivial, List.nodup_nil, by simp, rfl⟩

end PkgPlugins.Dlist
