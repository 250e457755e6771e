/-
What `dlist_sort` (`kissc/dlist.c`) changes, and what it achieves.

`dlist_sort_spec` (in Dlist) already says that the sort returns, for any comparison, with
the data as the bubble sort orders it. Here the memory is compared cell by cell: the sort
writes data and nothing else (`SameShape`), whatever the comparison answers. With a
comparison that is a total preorder the result is in order, and elements that compare as
equal keep theirs.
-/
import PkgPlugins.Dlist

set_option autoImplicit false

namespace PkgPlugins.Dlist

open PkgPlugins.Fallible

variable {α : Type}

/-! ## Total preorders -/

/-- `cmp` orders any two elements, and consistently. -/
structure TotalPreorder (cmp : α → α → ℤ) : Prop where
  total : ∀ a b, cmp a b ≤ 0 ∨ cmp b a ≤ 0
  trans : ∀ a b c, cmp a b ≤ 0 → cmp b c ≤ 0 → cmp a c ≤ 0

/-- `a` and `b` compare as equal. -/
def Ties (cmp : α → α → ℤ) (a b : α) : Bool := decide (cmp a b ≤ 0 ∧ cmp b a ≤ 0)

section Preorder

variable {cmp : α → α → ℤ}

/-- The sort leaves the data in order. -/
theorem TotalPreorder.sorted (h : TotalPreorder cmp) (data : List α) :
    (BubbleSort.sort (exchanges cmp) data).Pairwise (fun a b => cmp a b ≤ 0) := by
  have hsound : ∀ a b, exchanges cmp a b = true → ¬ 0 < cmp b a := by
    intro a b hgt hlt
    have hab : 0 < cmp a b := of_decide_eq_true hgt
    rcases h.total a b with hle | hle <;> omega
  have hirrefl : ∀ a, ¬ 0 < cmp a a := by
    intro a hlt
    rcases h.total a a with hle | hle <;> omega
  have htrans : ∀ a b c, ¬ 0 < cmp a b → ¬ 0 < cmp b c → ¬ 0 < cmp a c := fun a b c hab hbc =>
    Int.not_lt.mpr (h.trans a b c (Int.not_lt.mp hab) (Int.not_lt.mp hbc))
  -- the comparison sees every inversion, as it is the comparison that defines them
  have hseen : BubbleSort.Seen (exchanges cmp) (fun a b => 0 < cmp b a) data :=
    List.pairwise_iff_getElem.mpr fun i j _ _ _ hinv => decide_eq_true hinv
  have hsorted := (BubbleSort.sort_pairwise_iff hsound hirrefl htrans data).mpr hseen
  exact hsorted.imp Int.not_lt.mp

/-- The sort keeps the order of what compares as equal. -/
theorem TotalPreorder.stable (h : TotalPreorder cmp) (data : List α) (x : α) :
    (BubbleSort.sort (exchanges cmp) data).filter (Ties cmp x) = data.filter (Ties cmp x) := by
  refine ((BubbleSort.sort_swaps data).filter_eq ?_).symm
  intro a b ha hb hgt
  have hax : cmp a x ≤ 0 := (of_decide_eq_true ha).2
  have hxb : cmp x b ≤ 0 := (of_decide_eq_true hb).1
  have hab : 0 < cmp a b := of_decide_eq_true hgt
  exact absurd (h.trans a x b hax hxb) (Int.not_le.mpr hab)

end Preorder

/-! ## What a write of data leaves -/

/-- The links of an element. -/
def DListElement.links (e : DListElement α) : Ptr × Ptr := (e.next, e.prev)

/-- `list'` is `list` but for the data of elements at addresses of `S`. -/
structure SameShape (S : List ℕ) (list list' : DList α) : Prop where
  length : list'.length = list.length
  head : list'.head = list.head
  tail : list'.tail = list.tail
  links : ∀ a, (list'.cells a).map DListElement.links = (list.cells a).map DListElement.links
  others : ∀ a, a ∉ S → list'.cells a = list.cells a

/-- Nothing points out of `S`. -/
def Closed (S : List ℕ) (list : DList α) : Prop :=
  ∀ a ∈ S, ∀ e, list.cells a = some e → ∀ n, e.next = some n → n ∈ S

section Shape

variable {S : List ℕ} {list list' list'' : DList α}

theorem SameShape.refl (S : List ℕ) (list : DList α) : SameShape S list list :=
  ⟨rfl, rfl, rfl, fun _ => rfl, fun _ _ => rfl⟩

theorem SameShape.trans (h : SameShape S list list') (h' : SameShape S list' list'') :
    SameShape S list list'' :=
  ⟨h'.length.trans h.length, h'.head.trans h.head, h'.tail.trans h.tail,
    fun a => (h'.links a).trans (h.links a), fun a ha => (h'.others a ha).trans (h.others a ha)⟩

theorem SameShape.closed (h : SameShape S list list') (hclosed : Closed S list) :
    Closed S list' := by
  intro a ha e' he' n hn
  have hlinks := h.links a
  rw [he', Option.map_some] at hlinks
  obtain ⟨e, he, hee⟩ := Option.map_eq_some_iff.mp hlinks.symm
  have hnext : e.next = e'.next := congrArg Prod.fst hee
  exact hclosed a ha e he n (hnext.trans hn)

/-- A write of the data of one element. -/
theorem SameShape.modify {p : Ptr} {d : α} (hp : ∀ a, p = some a → a ∈ S)
    (hrun : list.modify p (fun e => { e with data := d }) = .ok list') :
    SameShape S list list' := by
  unfold DList.modify at hrun
  cases p with
  | none => exact absurd hrun nofun
  | some a =>
      simp only at hrun
      cases hcell : list.cells a with
      | none =>
          rw [hcell] at hrun
          exact absurd hrun nofun
      | some e =>
          rw [hcell] at hrun
          cases hrun
          refine ⟨rfl, rfl, rfl, fun b => ?_, fun b hb => ?_⟩
          · rw [DList.put_cells]
            by_cases hba : b = a
            · rw [hba, Function.update_self, hcell]
              rfl
            · rw [Function.update_of_ne hba]
          · rw [DList.put_cells, Function.update_of_ne]
            rintro rfl
            exact hb (hp b rfl)

/-! ## What the sort leaves -/

/-- A pass within `S` writes data of `S` only. -/
theorem dlist_sort_pass_shape (cmp : α → α → ℤ) (tmp : Ptr) (fuel : ℕ) :
    ∀ {list : DList α} {cur : Ptr} {swapped : Bool} {r : DList α × Ptr × Bool},
      Closed S list → (∀ a, cur = some a → a ∈ S) →
      dlist_sort_pass cmp tmp fuel list cur swapped = .ok r → SameShape S list r.1 := by
  induction fuel with
  | zero => exact fun _ _ hrun => absurd hrun nofun
  | succ fuel ih =>
      intro list cur swapped r hclosed hcur hrun
      obtain ⟨c, hc, hrun⟩ := bind_eq_ok hrun
      obtain ⟨a, rfl, hcell⟩ := read_eq_ok hc
      have ha : a ∈ S := hcur a rfl
      have hnext : ∀ n, c.next = some n → n ∈ S := hclosed a ha c hcell
      by_cases hne : c.next ≠ tmp
      · rw [if_pos hne] at hrun
        obtain ⟨n, -, hrun⟩ := bind_eq_ok hrun
        by_cases hgt : 0 < cmp c.data n.data
        · rw [if_pos hgt] at hrun
          obtain ⟨list1, hset1, hrun⟩ := bind_eq_ok hrun
          obtain ⟨list2, hset2, hrun⟩ := bind_eq_ok hrun
          have h1 : SameShape S list list1 := SameShape.modify hcur hset1
          have h2 : SameShape S list1 list2 := SameShape.modify hnext hset2
          have h12 := h1.trans h2
          exact h12.trans (ih (h12.closed hclosed) hnext hrun)
        · rw [if_neg hgt] at hrun
          exact ih hclosed hnext hrun
      · rw [if_neg hne] at hrun
        cases hrun
        exact SameShape.refl S list

theorem dlist_sort_loop_shape (cmp : α → α → ℤ) (fuel : ℕ) :
    ∀ {list list' : DList α} {tmp : Ptr}, Closed S list → (∀ a, list.head = some a → a ∈ S) →
      dlist_sort_loop cmp fuel list tmp = .ok list' → SameShape S list list' := by
  induction fuel with
  | zero => exact fun _ _ hrun => absurd hrun nofun
  | succ fuel ih =>
      intro list list' tmp hclosed hhead hrun
      obtain ⟨⟨list1, cur, swapped⟩, hpass, hrun⟩ := bind_eq_ok hrun
      have h1 : SameShape S list list1 := dlist_sort_pass_shape cmp tmp _ hclosed hhead hpass
      cases swapped with
      | true =>
          have hhead1 : ∀ a, list1.head = some a → a ∈ S := fun a ha => hhead a (h1.head ▸ ha)
          exact h1.trans (ih (h1.closed hclosed) hhead1 hrun)
      | false =>
          cases hrun
          exact h1

end Shape

/-- The elements of a list point to one another. -/
theorem Represents.closed {list : DList α} {ns : List (ℕ × α)} (h : Represents list ns) :
    Closed (ns.map Prod.fst) list := by
  intro a ha e he n hn
  obtain ⟨x, hx, rfl⟩ := List.mem_map.mp ha
  obtain ⟨pre, post, rfl⟩ := List.append_of_mem hx
  have hcell := h.cell
  rw [he, Option.some.injEq] at hcell
  rw [hcell] at hn
  cases post with
  | nil => exact absurd hn nofun
  | cons y post =>
      rw [firstAddr_cons, Option.some.injEq] at hn
      rw [← hn]
      simp

theorem Represents.head_mem {list : DList α} {ns : List (ℕ × α)} (h : Represents list ns) :
    ∀ a, list.head = some a → a ∈ ns.map Prod.fst := by
  intro a ha
  rw [h.head] at ha
  cases ns with
  | nil => exact absurd ha nofun
  | cons x ns =>
      rw [firstAddr_cons, Option.some.injEq] at ha
      rw [← ha]
      exact List.mem_cons_self

/-- **`dlist_sort`**, with any comparison: it returns, and of the whole memory only the data
of the elements have changed, which are permuted. With a total preorder they are in order,
and those that compare as equal are in the order they were in. -/
theorem dlist_sort_sorts {list : DList α} {ns : List (ℕ × α)} (h : Represents list ns)
    (cmp : α → α → ℤ) :
    ∃ list' ns', dlist_sort list cmp = .ok list' ∧ Represents list' ns'
      ∧ SameShape (ns.map Prod.fst) list list'
      ∧ ns'.map Prod.fst = ns.map Prod.fst
      ∧ (ns'.map Prod.snd).Perm (ns.map Prod.snd)
      ∧ (TotalPreorder cmp →
          (ns'.map Prod.snd).Pairwise (fun a b => cmp a b ≤ 0)
            ∧ ∀ x, (ns'.map Prod.snd).filter (Ties cmp x)
              = (ns.map Prod.snd).filter (Ties cmp x)) := by
  obtain ⟨list', ns', hrun, -, hmap, hsort, hrep⟩ := dlist_sort_spec h cmp
  have hshape : SameShape (ns.map Prod.fst) list list' := by
    unfold dlist_sort at hrun
    by_cases hhead : list.head ≠ none
    · rw [if_pos hhead] at hrun
      exact dlist_sort_loop_shape cmp _ h.closed h.head_mem hrun
    · rw [if_neg hhead] at hrun
      cases hrun
      exact SameShape.refl _ list
  refine ⟨list', ns', hrun, hrep, hshape, hmap, ?_, fun hcmp => ⟨?_, fun x => ?_⟩⟩
  · rw [hsort]
    exact BubbleSort.sort_perm _
  · rw [hsort]
    exact hcmp.sorted _
  · rw [hsort]
    exact hcmp.stable _ x

theorem totalPreorder_sub : TotalPreorder fun a b : ℤ => a - b :=
  ⟨fun a b => by omega, fun a b c => by omega⟩

/-- The list `8, 7` is sorted. -/
theorem dlist_sort_sorts_two :
    ∃ list, (dlist_append dlist_init 8 >>= fun l => dlist_append l 7) = .ok list
      ∧ ∃ list' ns', dlist_sort list (fun a b : ℤ => a - b) = .ok list'
        ∧ Represents list' ns' ∧ SameShape [0, 1] list list' ∧ (ns'.map Prod.snd).Perm [8, 7]
        ∧ (ns'.map Prod.snd).Pairwise (fun a b => a - b ≤ 0) := by
  obtain ⟨list, hrun, hrep⟩ := dlist_append_spec dlist_init_spec (8 : ℤ)
  obtain ⟨list', hrun', hrep'⟩ := dlist_append_spec hrep 7
  have hbrk : list.brk = 1 := by
    cases hrun
    rfl
  refine ⟨list', by rw [hrun, ok_bind, hrun'], ?_⟩
  obtain ⟨sorted, ns', hsort, hns', hshape, -, hperm, horder⟩ :=
    dlist_sort_sorts hrep' fun a b : ℤ => a - b
  rw [hbrk] at hshape
  exact ⟨sorted, ns', hsort, hns', hshape, hperm, (horder totalPreorder_sub).1⟩

end PkgPlugins.Dlist
