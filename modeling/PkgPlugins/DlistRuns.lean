/-
Runs of the operations of the doubly linked list, and whether the list is what they
describe.

A run starts from `dlist_init`. What it describes is a sequence of elements, each at the
address that its allocation returned (`contents`), to which an operation that takes a
pointer to an element refers. `Reflects` says in terms of memory alone that a list is that
sequence: both traversals, both ends and the counter.

`runs_reflect_iff` says which steps of a run break it. The invariant of the others is
`Represents`, from which `Reflects` follows.
-/
import PkgPlugins.DlistOps

set_option autoImplicit false

namespace PkgPlugins.Dlist

open PkgPlugins.Fallible

variable {α : Type}

/-! ## Operations and runs -/

/-- An operation with its arguments; an element is given by its address. -/
inductive Op (α : Type)
  | append (data : α)
  | prepend (data : α)
  | insert_before (sibling : ℕ) (data : α)
  | insert_after (sibling : ℕ) (data : α)
  | remove_head
  | remove_tail
  | remove_link (element : ℕ)
  | sort (cmp : α → α → ℤ)
  | clear

section Runs

variable (dup : Option (α → α))

def exec (list : DList α) : Op α → Except Fault (DList α)
  | .append data => dlist_append list (alloc_data dup data)
  | .prepend data => dlist_prepend list (alloc_data dup data)
  | .insert_before sibling data => dlist_insert_before list (some sibling) (alloc_data dup data)
  | .insert_after sibling data => dlist_insert_after list (some sibling) (alloc_data dup data)
  | .remove_head => dlist_remove_head list
  | .remove_tail => dlist_remove_tail list
  | .remove_link element => dlist_remove_link list (some element)
  | .sort cmp => dlist_sort list cmp
  | .clear => dlist_clear list

/-- The operations one after the other, from `dlist_init`. -/
def run (ops : List (Op α)) : Except Fault (DList α) := ops.foldlM (exec dup) dlist_init

/-! ## What the operations describe -/

/-- `x` in front of the element at `a`. -/
def insertBefore (a : ℕ) (x : ℕ × α) : List (ℕ × α) → List (ℕ × α)
  | [] => []
  | y :: ys => if y.1 = a then x :: y :: ys else y :: insertBefore a x ys

/-- `x` behind the element at `a`. -/
def insertAfter (a : ℕ) (x : ℕ × α) : List (ℕ × α) → List (ℕ × α)
  | [] => []
  | y :: ys => if y.1 = a then y :: x :: ys else y :: insertAfter a x ys

/-- The sequence after an operation, where an allocation returns `fresh`. -/
def Op.apply (fresh : ℕ) (ns : List (ℕ × α)) : Op α → List (ℕ × α)
  | .append data => ns ++ [(fresh, alloc_data dup data)]
  | .prepend data => (fresh, alloc_data dup data) :: ns
  | .insert_before sibling data => insertBefore sibling (fresh, alloc_data dup data) ns
  | .insert_after sibling data => insertAfter sibling (fresh, alloc_data dup data) ns
  | .remove_head => ns.tail
  | .remove_tail => ns.dropLast
  | .remove_link element => ns.eraseP fun x => x.1 == element
  | .sort cmp => (ns.map Prod.fst).zip (BubbleSort.sort (exchanges cmp) (ns.map Prod.snd))
  | .clear => []

/-- The allocations of an operation. -/
def Op.allocations : Op α → ℕ
  | .append _ | .prepend _ | .insert_before _ _ | .insert_after _ _ => 1
  | _ => 0

/-- The sequence, and the next address that `malloc` returns. -/
structure Contents (α : Type) where
  elements : List (ℕ × α)
  fresh : ℕ

def Contents.step (c : Contents α) (op : Op α) : Contents α :=
  ⟨op.apply dup c.fresh c.elements, c.fresh + op.allocations⟩

def contents (ops : List (Op α)) : Contents α := ops.foldl (Contents.step dup) ⟨[], 0⟩

/-- The element that the operation is called with is one of the sequence. -/
def Op.Valid (ns : List (ℕ × α)) : Op α → Prop
  | .insert_before sibling _ | .insert_after sibling _ => sibling ∈ ns.map Prod.fst
  | .remove_link element => element ∈ ns.map Prod.fst
  | _ => True

/-- Each operation is called with an element of the list. -/
def ValidRun (ops : List (Op α)) : Prop :=
  ∀ done op rest, ops = done ++ op :: rest → op.Valid (contents dup done).elements

/-! ## What a list has to be -/

/-- What is found by following `dir` from `p` to the null pointer. -/
inductive Walk (dir : DListElement α → Ptr) (cells : ℕ → Option (DListElement α)) :
    Ptr → List (ℕ × α) → Prop
  | done : Walk dir cells none []
  | element {a : ℕ} {e : DListElement α} {xs : List (ℕ × α)} (hcell : cells a = some e)
      (hnext : Walk dir cells (dir e) xs) : Walk dir cells (some a) ((a, e.data) :: xs)

/-- **The promise**: the list is the sequence, either way, and its length is counted. -/
structure Reflects (list : DList α) (ns : List (ℕ × α)) : Prop where
  forward : Walk DListElement.next list.cells list.head ns
  backward : Walk DListElement.prev list.cells list.tail ns.reverse
  head_prev : ∀ a e, list.head = some a → list.cells a = some e → e.prev = none
  tail_next : ∀ a e, list.tail = some a → list.cells a = some e → e.next = none
  length : list.length = UInt64.ofNat ns.length

/-- The steps that forget a link or the count: a `dlist_prepend` to elements, every
`dlist_insert_before`, and a `dlist_insert_after` that doesn't append. -/
def Op.Forgets (ns : List (ℕ × α)) : Op α → Prop
  | .prepend _ => ns ≠ []
  | .insert_before _ _ => True
  | .insert_after sibling _ => lastAddr none ns ≠ some sibling
  | _ => False

end Runs

/-! ## Walks -/

section Walks

variable {dir : DListElement α → Ptr} {cells : ℕ → Option (DListElement α)}

/-- From a pointer one sequence is found. -/
theorem Walk.unique {p : Ptr} {xs ys : List (ℕ × α)} (h : Walk dir cells p xs)
    (h' : Walk dir cells p ys) : xs = ys := by
  induction h generalizing ys with
  | done => cases h' with
    | done => rfl
  | element hcell _ ih =>
      cases h' with
      | element hcell' hnext' =>
          obtain rfl := Option.some.inj (hcell.symm.trans hcell')
          exact congrArg (_ :: ·) (ih hnext')

/-- A write elsewhere doesn't show. -/
theorem Walk.update {p : Ptr} {xs : List (ℕ × α)} (h : Walk dir cells p xs) {a : ℕ}
    (ha : a ∉ xs.map Prod.fst) (e : Option (DListElement α)) :
    Walk dir (Function.update cells a e) p xs := by
  induction h with
  | done => exact .done
  | @element b _ _ hcell _ ih =>
      rw [List.map_cons, List.mem_cons, not_or] at ha
      refine .element ?_ (ih ha.2)
      rw [Function.update_of_ne (Ne.symm ha.1), hcell]

theorem Seg.walk_next {p : Ptr} {ns : List (ℕ × α)} (h : Seg cells p ns none) :
    Walk DListElement.next cells (firstAddr ns none) ns := by
  induction ns generalizing p with
  | nil => exact .done
  | cons x ns ih =>
      rw [seg_cons] at h
      exact .element h.1 (ih h.2)

theorem Seg.walk_prev {n : Ptr} {ns : List (ℕ × α)} (h : Seg cells none ns n) :
    Walk DListElement.prev cells (lastAddr none ns) ns.reverse := by
  induction ns using List.reverseRecOn generalizing n with
  | nil => exact .done
  | append_singleton ns x ih =>
      rw [seg_append, seg_cons] at h
      rw [lastAddr_append, lastAddr_cons, lastAddr_nil, List.reverse_append, List.reverse_singleton,
        List.singleton_append]
      exact .element h.2.1 (ih h.1)

end Walks

/-- A list that represents a sequence is that sequence. -/
theorem Represents.reflects {list : DList α} {ns : List (ℕ × α)} (h : Represents list ns) :
    Reflects list ns := by
  refine ⟨?_, ?_, ?_, ?_, h.length⟩
  · rw [h.head]
    exact h.seg.walk_next
  · rw [h.tail]
    exact h.seg.walk_prev
  · intro a e ha he
    cases ns with
    | nil => exact absurd (ha.symm.trans h.head) nofun
    | cons x ns =>
        obtain rfl := Option.some.inj (ha.symm.trans h.head)
        have hx : Represents list ([] ++ x :: ns) := h
        obtain rfl := Option.some.inj (he.symm.trans hx.cell)
        rfl
  · intro a e ha he
    rcases List.eq_nil_or_concat' ns with rfl | ⟨ns, x, rfl⟩
    · exact absurd (ha.symm.trans h.tail) nofun
    · have hlast : lastAddr none (ns ++ [x]) = some x.1 := by rw [lastAddr_append]; rfl
      obtain rfl := Option.some.inj (ha.symm.trans (h.tail.trans hlast))
      obtain rfl := Option.some.inj (he.symm.trans h.cell)
      rfl

/-! ## One step -/

section Steps

variable {list : DList α} {ns : List (ℕ × α)} (dup : Option (α → α))

theorem length_insertBefore {a : ℕ} (ha : a ∈ ns.map Prod.fst) (x : ℕ × α) :
    (insertBefore a x ns).length = ns.length + 1 := by
  induction ns with
  | nil => exact absurd ha List.not_mem_nil
  | cons y ns ih =>
      unfold insertBefore
      by_cases hy : y.1 = a
      · rw [if_pos hy]
        rfl
      · rw [List.map_cons, List.mem_cons] at ha
        rw [if_neg hy, List.length_cons, ih (ha.resolve_left (Ne.symm hy)), List.length_cons]

theorem length_insertAfter {a : ℕ} (ha : a ∈ ns.map Prod.fst) (x : ℕ × α) :
    (insertAfter a x ns).length = ns.length + 1 := by
  induction ns with
  | nil => exact absurd ha List.not_mem_nil
  | cons y ns ih =>
      unfold insertAfter
      by_cases hy : y.1 = a
      · rw [if_pos hy]
        rfl
      · rw [List.map_cons, List.mem_cons] at ha
        rw [if_neg hy, List.length_cons, ih (ha.resolve_left (Ne.symm hy)), List.length_cons]

/-- Behind the last element is the end. -/
theorem insertAfter_last {ns : List (ℕ × α)} {y : ℕ × α} (hy : y.1 ∉ ns.map Prod.fst)
    (x : ℕ × α) : insertAfter y.1 x (ns ++ [y]) = (ns ++ [y]) ++ [x] := by
  induction ns with
  | nil => simp [insertAfter]
  | cons z ns ih =>
      rw [List.map_cons, List.mem_cons, not_or] at hy
      rw [List.cons_append, insertAfter, if_neg (Ne.symm hy.1), ih hy.2]
      rfl

theorem eraseP_addr {pre post : List (ℕ × α)} {x : ℕ × α} (hx : x.1 ∉ pre.map Prod.fst) :
    (pre ++ x :: post).eraseP (fun y => y.1 == x.1) = pre ++ post := by
  rw [List.eraseP_append_right _ fun y hy => ?_, List.eraseP_cons_of_pos (by simp)]
  rw [beq_iff_eq]
  exact fun heq => hx (heq ▸ List.mem_map_of_mem hy)

theorem zip_fst_snd {ns ns' : List (ℕ × α)} (h : ns'.map Prod.fst = ns.map Prod.fst) :
    (ns.map Prod.fst).zip (ns'.map Prod.snd) = ns' := by
  rw [← h]
  exact (List.zip_of_prod rfl rfl).symm

/-- **A step that forgets nothing** leaves a list that represents what is described. -/
theorem exec_represents (h : Represents list ns) {op : Op α} (hvalid : op.Valid ns)
    (hforgets : ¬ op.Forgets ns) :
    ∃ list', exec dup list op = .ok list' ∧ list'.brk = list.brk + op.allocations
      ∧ Represents list' (op.apply dup list.brk ns) := by
  have happend : ∀ data : α, ∃ list', dlist_append list data = .ok list'
      ∧ list'.brk = list.brk + 1 ∧ Represents list' (ns ++ [(list.brk, data)]) := by
    intro data
    obtain ⟨list', hrun, hrep⟩ := dlist_append_spec h data
    exact ⟨list', hrun, dlist_append_brk hrun, hrep⟩
  cases op with
  | append data => exact happend _
  | prepend data =>
      -- only in front of nothing is the new element an appended one
      obtain rfl : ns = [] := not_not.mp hforgets
      obtain ⟨list', hrun, hbrk, hrep⟩ := happend (alloc_data dup data)
      exact ⟨list', (dlist_prepend_nil h _).trans hrun, hbrk, hrep⟩
  | insert_before sibling data => exact absurd trivial hforgets
  | insert_after sibling data =>
      -- behind the last element nothing is linked to the new one
      have hlast : lastAddr none ns = some sibling := not_not.mp hforgets
      obtain ⟨list', hrun, hbrk, hrep⟩ := happend (alloc_data dup data)
      refine ⟨list', ?_, hbrk, ?_⟩
      · exact (dlist_insert_after_tail (hlast.symm.trans h.tail.symm) _).trans hrun
      · rcases List.eq_nil_or_concat' ns with rfl | ⟨ns, y, rfl⟩
        · exact absurd hvalid List.not_mem_nil
        · rw [lastAddr_append, lastAddr_cons, lastAddr_nil, Option.some.injEq] at hlast
          have hy : y.1 ∉ ns.map Prod.fst := h.split.2.2.1.1
          have heq := insertAfter_last hy (list.brk, alloc_data dup data)
          rw [← hlast]
          show Represents list' (insertAfter y.1 (list.brk, alloc_data dup data) (ns ++ [y]))
          rwa [heq]
  | remove_head =>
      cases ns with
      | nil => exact ⟨list, dlist_remove_head_nil h, rfl, h⟩
      | cons x ns => exact dlist_remove_head_spec h
  | remove_tail =>
      rcases List.eq_nil_or_concat' ns with rfl | ⟨ns, x, rfl⟩
      · exact ⟨list, dlist_remove_tail_nil h, rfl, h⟩
      · obtain ⟨list', hrun, hbrk, hrep⟩ := dlist_remove_tail_spec h
        refine ⟨list', hrun, hbrk, ?_⟩
        show Represents list' (ns ++ [x]).dropLast
        rwa [List.dropLast_concat]
  | remove_link element =>
      -- the element is the only one at its address
      obtain ⟨x, hx, rfl⟩ := List.mem_map.mp hvalid
      obtain ⟨pre, post, rfl⟩ := List.append_of_mem hx
      obtain ⟨list', hrun, hbrk, -, hrep⟩ := dlist_remove_link_spec h
      refine ⟨list', hrun, hbrk, ?_⟩
      show Represents list' ((pre ++ x :: post).eraseP fun y => y.1 == x.1)
      rwa [eraseP_addr h.split.2.2.1.1]
  | sort cmp =>
      obtain ⟨list', ns', hrun, hbrk, hmap, hsort, hrep⟩ := dlist_sort_spec h cmp
      refine ⟨list', hrun, hbrk, ?_⟩
      show Represents list'
        ((ns.map Prod.fst).zip (BubbleSort.sort (exchanges cmp) (ns.map Prod.snd)))
      rwa [← hsort, zip_fst_snd hmap]
  | clear => exact dlist_clear_spec h

/-- A sequence with one more element has another length. -/
theorem ofNat_succ_ne (n : ℕ) : UInt64.ofNat n ≠ UInt64.ofNat (n + 1) := by
  intro h
  rw [UInt64.ofNat_add] at h
  have hzero : (1 : UInt64) = 0 := by
    have := congrArg (· - UInt64.ofNat n) h
    simpa [UInt64.add_comm] using this.symm
  exact absurd hzero (by decide)

/-- **A step that forgets something** leaves no such list. -/
theorem exec_forgets (h : Represents list ns) {op : Op α} (hvalid : op.Valid ns)
    (hforgets : op.Forgets ns) {list' : DList α} (hrun : exec dup list op = .ok list') :
    ¬ Reflects list' (op.apply dup list.brk ns) := by
  intro hreflects
  -- an element that isn't counted
  have hcount : list'.length = list.length → (op.apply dup list.brk ns).length ≠ ns.length + 1 := by
    intro hlength hsucc
    have hcounted := hreflects.length
    rw [hlength, h.length, hsucc] at hcounted
    exact ofNat_succ_ne ns.length hcounted
  -- an element that is not found from the tail
  have hprepend : ∀ data : α, dlist_prepend list data = .ok list' → ns ≠ [] →
      op.apply dup list.brk ns = (list.brk, data) :: ns → False := by
    intro data hprepend hne happly
    have hhead : list.head ≠ none := by
      obtain ⟨x, ns, rfl⟩ := List.exists_cons_of_ne_nil hne
      rw [h.head]
      exact Option.some_ne_none _
    unfold dlist_prepend at hprepend
    rw [if_pos hhead] at hprepend
    cases hprepend
    have hfresh : list.brk ∉ ns.reverse.map Prod.fst := by
      intro hmem
      rw [List.map_reverse, List.mem_reverse] at hmem
      obtain ⟨x, hx, heq⟩ := List.mem_map.mp hmem
      exact absurd (h.allocated x hx) (by omega)
    have hback := h.reflects.backward.update hfresh (some ⟨list.head, none, data⟩)
    have heq := hreflects.backward.unique hback
    have hlength := congrArg List.length heq
    rw [happly, List.length_reverse, List.length_reverse, List.length_cons] at hlength
    omega
  cases op with
  | prepend data => exact hprepend _ hrun hforgets rfl
  | insert_before sibling data =>
      by_cases hhead : some sibling = list.head
      · have hne : ns ≠ [] := by
          rintro rfl
          exact absurd hvalid List.not_mem_nil
        obtain ⟨x, ns, rfl⟩ := List.exists_cons_of_ne_nil hne
        have hx : sibling = x.1 := Option.some.inj (hhead.trans h.head)
        refine hprepend (alloc_data dup data) ?_ hne ?_
        · exact (if_pos hhead).symm.trans hrun
        · show insertBefore sibling _ (x :: ns) = _
          rw [insertBefore, if_pos hx.symm]
      · exact hcount (dlist_insert_before_length hhead hrun) (length_insertBefore hvalid _)
  | insert_after sibling data =>
      have hne : some sibling ≠ list.tail := fun heq => hforgets (h.tail.symm.trans heq.symm)
      exact hcount (dlist_insert_after_length hne hrun) (length_insertAfter hvalid _)
  | append | remove_head | remove_tail | remove_link | sort | clear => exact hforgets

end Steps

/-! ## Whole runs -/

section WholeRuns

variable (dup : Option (α → α))

theorem contents_concat (done : List (Op α)) (op : Op α) :
    contents dup (done ++ [op]) = (contents dup done).step dup op := by
  unfold contents
  rw [List.foldl_append]
  rfl

theorem run_concat (done : List (Op α)) (op : Op α) :
    run dup (done ++ [op]) = run dup done >>= fun list => exec dup list op := by
  unfold run
  rw [List.foldlM_append]
  cases List.foldlM (exec dup) dlist_init done with
  | error e => rfl
  | ok list =>
      simp only [ok_bind, List.foldlM_cons, List.foldlM_nil]
      cases exec dup list op <;> rfl

/-- What holds of the memory after a run. -/
def Stands (done : List (Op α)) : Prop :=
  ∃ list, run dup done = .ok list ∧ list.brk = (contents dup done).fresh
    ∧ Represents list (contents dup done).elements

theorem stands_nil : Stands dup ([] : List (Op α)) := ⟨dlist_init, rfl, rfl, dlist_init_spec⟩

/-- One more step. -/
theorem Stands.concat {done : List (Op α)} {op : Op α} (h : Stands dup done)
    (hvalid : op.Valid (contents dup done).elements)
    (hforgets : ¬ op.Forgets (contents dup done).elements) : Stands dup (done ++ [op]) := by
  obtain ⟨list, hrun, hbrk, hrep⟩ := h
  obtain ⟨list', hexec, hbrk', hrep'⟩ := exec_represents dup hrep hvalid hforgets
  refine ⟨list', ?_, ?_, ?_⟩
  · rw [run_concat, hrun, ok_bind, hexec]
  · rw [contents_concat, hbrk', hbrk]
    rfl
  · rw [contents_concat]
    rw [hbrk] at hrep'
    exact hrep'

/-- A step that forgets something leaves no list that is the sequence. -/
theorem Stands.not_reflects {done : List (Op α)} {op : Op α} (h : Stands dup done)
    (hvalid : op.Valid (contents dup done).elements)
    (hforgets : op.Forgets (contents dup done).elements) :
    ¬ ∃ list, run dup (done ++ [op]) = .ok list
      ∧ Reflects list (contents dup (done ++ [op])).elements := by
  obtain ⟨list, hrun, hbrk, hrep⟩ := h
  rintro ⟨list', hrun', hreflects⟩
  rw [run_concat, hrun, ok_bind] at hrun'
  rw [contents_concat] at hreflects
  have hnot := exec_forgets dup hrep hvalid hforgets hrun'
  rw [hbrk] at hnot
  exact hnot hreflects

/-- **When the promise is kept**: after every part of a run the list is the sequence that
the operations describe, if and only if no step of the run forgets a link or the count. -/
theorem runs_reflect_iff {ops : List (Op α)} (hvalid : ValidRun dup ops) :
    (∀ done, done <+: ops → ∃ list, run dup done = .ok list
        ∧ Reflects list (contents dup done).elements)
      ↔ ∀ done op rest, ops = done ++ op :: rest → ¬ op.Forgets (contents dup done).elements := by
  have hstart : ∀ {done op}, done ++ [op] <+: ops → ∃ rest, ops = done ++ op :: rest := by
    rintro done op ⟨rest, rfl⟩
    exact ⟨rest, by rw [List.append_assoc, List.singleton_append]⟩
  constructor
  · intro hreflects
    -- up to each step nothing is forgotten, as the first such step would show
    have hstands : ∀ done, done <+: ops → Stands dup done := by
      intro done
      induction done using List.reverseRecOn with
      | nil => exact fun _ => stands_nil dup
      | append_singleton done op ih =>
          intro hdone
          obtain ⟨rest, hops⟩ := hstart hdone
          have hstand := ih ((List.prefix_append done [op]).trans hdone)
          have hval := hvalid done op rest hops
          refine hstand.concat dup hval fun hforgets => ?_
          exact hstand.not_reflects dup hval hforgets (hreflects _ hdone)
    intro done op rest hops hforgets
    have hdone : done ++ [op] <+: ops :=
      ⟨rest, by rw [hops, List.append_assoc, List.singleton_append]⟩
    have hstand := hstands done ((List.prefix_append done [op]).trans hdone)
    exact hstand.not_reflects dup (hvalid done op rest hops) hforgets (hreflects _ hdone)
  · intro hnone done
    have hstand : done <+: ops → Stands dup done := by
      induction done using List.reverseRecOn with
      | nil => exact fun _ => stands_nil dup
      | append_singleton done op ih =>
          intro hdone
          obtain ⟨rest, hops⟩ := hstart hdone
          have hstand := ih ((List.prefix_append done [op]).trans hdone)
          exact hstand.concat dup (hvalid done op rest hops) (hnone done op rest hops)
    intro hdone
    obtain ⟨list, hrun, -, hrep⟩ := hstand hdone
    exact ⟨list, hrun, hrep.reflects⟩

/-! ## Three runs -/

/-- The steps of a run of two operations. -/
theorem steps_two {a b op : Op α} {done rest : List (Op α)} (h : [a, b] = done ++ op :: rest) :
    done = [] ∧ op = a ∨ done = [a] ∧ op = b := by
  rcases done with - | ⟨c, - | ⟨d, done⟩⟩
  · exact Or.inl ⟨rfl, (List.cons.inj h).1.symm⟩
  · obtain ⟨rfl, htail⟩ := List.cons.inj h
    exact Or.inr ⟨rfl, (List.cons.inj htail).1.symm⟩
  · exact absurd (congrArg List.length h) (by simp)

end WholeRuns

/-- An element after the only one. -/
def appends : List (Op ℕ) := [.append 1, .insert_after 0 2]

theorem runs_reflect_appends :
    ∃ list, run none appends = .ok list ∧ Reflects list (contents none appends).elements := by
  refine (runs_reflect_iff none ?_).mpr ?_ appends (List.prefix_refl appends)
  · intro done op rest h
    obtain ⟨rfl, rfl⟩ | ⟨rfl, rfl⟩ := steps_two h
    · exact trivial
    · exact List.mem_cons_self
  · intro done op rest h hforgets
    obtain ⟨rfl, rfl⟩ | ⟨rfl, rfl⟩ := steps_two h
    · exact hforgets
    · exact hforgets rfl

/-- **The promise is broken** by one element after another, added at the head, in front of
the first, or behind it once there is a second. -/
theorem runs_forget :
    (ValidRun none [.append 1, .prepend 2]
        ∧ ¬ ∃ list : DList ℕ, run none [.append 1, .prepend 2] = .ok list
          ∧ Reflects list (contents none [.append 1, .prepend 2]).elements)
      ∧ (ValidRun none [.append 1, .insert_before 0 2]
        ∧ ¬ ∃ list : DList ℕ, run none [.append 1, .insert_before 0 2] = .ok list
          ∧ Reflects list (contents none [.append 1, .insert_before 0 2]).elements)
      ∧ ¬ ∃ list : DList ℕ, run none (appends ++ [.insert_after 0 3]) = .ok list
          ∧ Reflects list (contents none (appends ++ [.insert_after 0 3])).elements := by
  have hone : Stands none [Op.append 1] :=
    (stands_nil none).concat none (show (Op.append 1).Valid [] from trivial) (fun h => h)
  have htwo : Stands none appends :=
    hone.concat none (show (Op.insert_after 0 2).Valid [(0, 1)] from List.mem_cons_self)
      (fun h => h rfl)
  refine ⟨⟨?_, ?_⟩, ⟨?_, ?_⟩, ?_⟩
  · intro done op rest h
    obtain ⟨rfl, rfl⟩ | ⟨rfl, rfl⟩ := steps_two h <;> exact trivial
  · exact hone.not_reflects none (show (Op.prepend 2).Valid [(0, 1)] from trivial)
      (List.cons_ne_nil _ _)
  · intro done op rest h
    obtain ⟨rfl, rfl⟩ | ⟨rfl, rfl⟩ := steps_two h
    · exact trivial
    · exact List.mem_cons_self
  · exact hone.not_reflects none
      (show (Op.insert_before 0 2).Valid [(0, 1)] from List.mem_cons_self) trivial
  · refine htwo.not_reflects none
      (show (Op.insert_after 0 3).Valid [(0, 1), (1, 2)] from List.mem_cons_self) ?_
    exact fun h => absurd (Option.some.inj h) (by decide)

end PkgPlugins.Dlist
