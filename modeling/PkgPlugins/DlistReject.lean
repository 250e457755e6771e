/-
What `iterator_reject` does with the elements of a list: which of them it hands
to the predicate, and which of them it leaves.

The predicate may keep state, so its calls are observed through that state:
`traced callback` answers as `callback` does and notes every call and its answer.
A run whose predicate is traced is the run of the predicate itself once the note
is forgotten (`iterator_reject_map`), and the note is what the statements are
about.
-/
import PkgPlugins.Dlist

set_option autoImplicit false

namespace PkgPlugins.Dlist

open PkgPlugins.Fallible

variable {α σ τ : Type}

/-! ## Observing the predicate -/

/-- The predicate, with a note of its calls and their answers. -/
def traced (callback : α → σ → Bool × σ) (value : α) :
    σ × List (α × Bool) → Bool × (σ × List (α × Bool))
  | (data, calls) =>
      let (answer, data) := callback value data
      (answer, (data, calls ++ [(value, answer)]))

/-- Two predicates that answer alike, the state of one being a view of the
other's: the loop does the same with both. -/
theorem iterator_reject_loop_map {callback : α → σ → Bool × σ} {callback' : α → τ → Bool × τ}
    {view : τ → σ}
    (h : ∀ x data, callback x (view data) = ((callback' x data).1, view (callback' x data).2))
    (fuel : ℕ) (list : DList α) (state : Ptr) (data : τ) :
    iterator_reject_loop callback fuel list state (view data)
      = (iterator_reject_loop callback' fuel list state data).map (Prod.map id view) := by
  induction fuel generalizing list state data with
  | zero => rfl
  | succ fuel ih =>
      -- the end of a round, after the answer
      have hnext : ∀ (list : DList α) (state : Ptr) (data : τ),
          (do let state ← dlist_iterator_next list state
              iterator_reject_loop callback fuel list state (view data))
            = (do let state ← dlist_iterator_next list state
                  iterator_reject_loop callback' fuel list state data).map (Prod.map id view) := by
        intro list state data
        cases dlist_iterator_next list state with
        | error e => rfl
        | ok state => exact ih list state data
      simp only [iterator_reject_loop]
      split_ifs with hvalid
      · cases dlist_iterator_current list state with
        | error e => rfl
        | ok value =>
            simp only [ok_bind, h]
            split_ifs with hanswer
            · cases dlist_iterator_delete list state with
              | error e => rfl
              | ok next => exact hnext next.1 next.2 _
            · exact hnext list state _
      · rfl

theorem iterator_reject_map {callback : α → σ → Bool × σ} {callback' : α → τ → Bool × τ}
    {view : τ → σ}
    (h : ∀ x data, callback x (view data) = ((callback' x data).1, view (callback' x data).2))
    (list : DList α) (data : τ) :
    iterator_reject list callback (view data)
      = (iterator_reject list callback' data).map (Prod.map id view) :=
  iterator_reject_loop_map h _ _ _ _

/-- Forgetting the note gives the run of the predicate. -/
theorem iterator_reject_traced (list : DList α) (callback : α → σ → Bool × σ) (data : σ)
    (calls : List (α × Bool)) :
    iterator_reject list callback data
      = (iterator_reject list (traced callback) (data, calls)).map (Prod.map id Prod.fst) :=
  @iterator_reject_map _ _ _ callback _ Prod.fst (fun _ _ => rfl) list (data, calls)

/-- A filtering notes each element once, in order, and keeps those whose answer
was false. -/
theorem rejectList_traced (callback : α → σ → Bool × σ) (l : List α) (data : σ)
    (calls : List (α × Bool)) :
    ∃ noted, (rejectList (traced callback) l (data, calls)).2.2 = calls ++ noted
      ∧ noted.map Prod.fst = l
      ∧ (rejectList (traced callback) l (data, calls)).1
          = (noted.filter (fun call => !call.2)).map Prod.fst := by
  induction l generalizing data calls with
  | nil => exact ⟨[], by simp [rejectList], rfl, rfl⟩
  | cons x xs ih =>
      obtain ⟨noted, hcalls, hfst, hkept⟩ :=
        ih (callback x data).2 (calls ++ [(x, (callback x data).1)])
      refine ⟨(x, (callback x data).1) :: noted, ?_, by simp [hfst], ?_⟩
      · simpa [rejectList, traced] using hcalls
      · cases hanswer : (callback x data).1 with
        | true => simpa [rejectList, traced, hanswer] using hkept
        | false => simpa [rejectList, traced, hanswer] using hkept

/-! ## What the traversal is meant to do -/

/-- `iterator_reject` went through the list `l` as it should: the predicate was
called once on each element, from head to tail, and the list, well formed, holds
the elements it answered false on, in their order. A run that reads a freed
element has no result. -/
structure Traversed (list : DList α) (l : List α) (callback : α → σ → Bool × σ) (data : σ)
    (list' : DList α) (data' : σ) (calls : List (α × Bool)) : Prop where
  run : iterator_reject list callback data = .ok (list', data')
  noted : iterator_reject list (traced callback) (data, []) = .ok (list', (data', calls))
  once : calls.map Prod.fst = l
  left : WellFormed list' ((calls.filter (fun call => !call.2)).map Prod.fst)

/-- The head of a list that is not empty is kept. -/
def KeepsHead (l : List α) (callback : α → σ → Bool × σ) (data : σ) : Prop :=
  ∀ x ∈ l.head?, (callback x data).1 = false

/-- **`iterator_reject` filters a list if and only if its head stays.** When the
predicate answers true on the head, `dlist_iterator_delete` puts the iterator on
`list->head`, which is the element about to be freed, and the next step of the
loop reads it. -/
theorem iterator_reject_traverses_iff {list : DList α} {l : List α} (h : WellFormed list l)
    (callback : α → σ → Bool × σ) (data : σ) :
    (∃ list' data' calls, Traversed list l callback data list' data' calls)
      ↔ KeepsHead l callback data := by
  obtain ⟨ns, hns, rfl⟩ := h
  constructor
  · rintro ⟨list', data', calls, htraversed⟩ value hvalue
    cases ns with
    | nil => simp at hvalue
    | cons x xs =>
        have hx : x.2 = value := by simpa using hvalue
        rw [← Bool.not_eq_true]
        intro hreject
        have hfreed := iterator_reject_head hns callback data (hx ▸ hreject)
        rw [htraversed.run] at hfreed
        cases hfreed
  · intro hkeeps
    obtain ⟨noted, hcalls, hfst, hkept⟩ :=
      rejectList_traced callback (ns.map Prod.snd) data []
    rw [List.nil_append] at hcalls
    obtain ⟨list', ns', hrun, hmap, hrep⟩ : ∃ list' ns',
        iterator_reject list (traced callback) (data, [])
            = .ok (list', (rejectList (traced callback) (ns.map Prod.snd) (data, [])).2)
          ∧ ns'.map Prod.snd = (rejectList (traced callback) (ns.map Prod.snd) (data, [])).1
          ∧ Represents list' ns' := by
      cases ns with
      | nil => exact ⟨list, [], iterator_reject_nil hns _ _, rfl, hns⟩
      | cons x xs => exact iterator_reject_keeps_head hns _ _ (hkeeps x.2 (by simp))
    have hnoted : (rejectList (traced callback) (ns.map Prod.snd) (data, [])).2
        = ((rejectList (traced callback) (ns.map Prod.snd) (data, [])).2.1, noted) :=
      Prod.ext rfl hcalls
    refine ⟨list', _, noted, ?_, hrun.trans (by rw [← hnoted]), hfst, ns', hrep, ?_⟩
    · rw [iterator_reject_traced list callback data [], hrun]
      rfl
    · rw [hmap, hkept]

/-- Of the list `7, 8` with a predicate that answers true on its second call,
the head stays. -/
theorem iterator_reject_traverses_second :
    ∃ list, (dlist_append dlist_init 7 >>= fun l => dlist_append l 8) = .ok list
      ∧ ∃ list' data' calls, Traversed list [7, 8] (fun (_ : ℕ) n => (n == 1, n + 1)) 0
          list' data' calls := by
  obtain ⟨list, hrun, hrep⟩ := dlist_append_spec dlist_init_spec 7
  obtain ⟨list', hrun', hrep'⟩ := dlist_append_spec hrep 8
  refine ⟨list', by rw [hrun, ok_bind, hrun'], ?_⟩
  have hwf : WellFormed list' [7, 8] := ⟨_, hrep', rfl⟩
  exact (iterator_reject_traverses_iff hwf (fun _ n => (n == 1, n + 1)) 0).mpr
    (fun x _ => rfl)

/-- A list of one element that the predicate rejects: the loop reads the element
it has freed. -/
theorem iterator_reject_misses_head :
    ∃ list, dlist_append dlist_init 7 = .ok list ∧ WellFormed list [7]
      ∧ iterator_reject list (fun (_ : ℕ) (_ : Unit) => (true, ())) () = .error (.freed 0)
      ∧ ¬ ∃ list' data' calls, Traversed list [7] (fun (_ : ℕ) (_ : Unit) => (true, ())) ()
          list' data' calls := by
  obtain ⟨list, hrun, hrep⟩ := dlist_append_spec dlist_init_spec 7
  have hfreed : iterator_reject list (fun (_ : ℕ) (_ : Unit) => (true, ())) ()
      = .error (.freed 0) := iterator_reject_head hrep _ () rfl
  refine ⟨list, hrun, ⟨_, hrep, rfl⟩, hfreed, ?_⟩
  rintro ⟨list', data', calls, htraversed⟩
  have := htraversed.run
  rw [hfreed] at this
  cases this

end PkgPlugins.Dlist
