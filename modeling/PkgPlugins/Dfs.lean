/-
Depth-first traversal of a graph given by successor lists.

The traversal carries the list of the visited nodes and a trace: it enters a
node, goes through the successors that are not visited yet, and leaves the node.
Nothing is asked of the graph but that the nodes met lie in a finite list.

What is proved here is what every use of such a traversal needs: it terminates
(`visit_total`), it leaves each node it visits once, those nodes are the newly
visited ones, every one of them is reachable and none of their successors is
forgotten (`Spec`), and a node is left after its successors unless the two lie on
a cycle (`Spec.order`).
-/
import PkgPlugins.Fallible
import Mathlib.Data.List.Nodup
import Mathlib.Data.List.Basic
import Mathlib.Logic.Relation
import Mathlib.Tactic.Common

set_option autoImplicit false

namespace PkgPlugins.Dfs

open PkgPlugins.Fallible

variable {α : Type} [DecidableEq α]

/-! ## Order in a list -/

/-- `a` occurs before `b`. -/
def Before (l : List α) (a b : α) : Prop := ∃ l₁ l₂, l = l₁ ++ l₂ ∧ a ∈ l₁ ∧ b ∈ l₂

omit [DecidableEq α] in
theorem Before.append_right {l : List α} {a b : α} (h : Before l a b) (t : List α) :
    Before (l ++ t) a b := by
  obtain ⟨l₁, l₂, rfl, ha, hb⟩ := h
  exact ⟨l₁, l₂ ++ t, by simp, ha, by simp [hb]⟩

omit [DecidableEq α] in
theorem Before.append_left {l : List α} {a b : α} (h : Before l a b) (t : List α) :
    Before (t ++ l) a b := by
  obtain ⟨l₁, l₂, rfl, ha, hb⟩ := h
  exact ⟨t ++ l₁, l₂, by simp, by simp [ha], hb⟩

omit [DecidableEq α] in
theorem Before.filter {l : List α} {a b : α} (h : Before l a b) {p : α → Bool}
    (ha : p a = true) (hb : p b = true) : Before (l.filter p) a b := by
  obtain ⟨l₁, l₂, rfl, ha', hb'⟩ := h
  exact ⟨l₁.filter p, l₂.filter p, by simp, List.mem_filter.mpr ⟨ha', ha⟩,
    List.mem_filter.mpr ⟨hb', hb⟩⟩

omit [DecidableEq α] in
/-- In a list without repetition two elements are in one order only. -/
theorem Before.asymm {l : List α} {a b : α} (hnodup : l.Nodup) (h : Before l a b) :
    ¬ Before l b a := by
  rintro ⟨l₃, l₄, heq, hb', ha'⟩
  obtain ⟨l₁, l₂, rfl, ha, hb⟩ := h
  rw [List.nodup_append] at hnodup
  obtain ⟨-, -, hsep⟩ := hnodup
  rcases List.append_eq_append_iff.mp heq with ⟨m, rfl, rfl⟩ | ⟨m, rfl, rfl⟩
  · exact hsep a ha a (by simp [ha']) rfl
  · exact hsep b (by simp [hb']) b hb rfl

/-! ## The traversal -/

/-- A step of the traversal. -/
inductive Event (α : Type)
  | enter (a : α)
  | leave (a : α)
deriving DecidableEq

/-- Go through a list of nodes with `f`, leaving out those already visited. -/
def each {β : Type} (f : List α → α → Option (List α × List β)) :
    List α → List α → Option (List α × List β)
  | vis, [] => some (vis, [])
  | vis, y :: ys =>
      if y ∈ vis then each f vis ys
      else do
        let (vis, tr) ← f vis y
        let (vis, tr') ← each f vis ys
        return (vis, tr ++ tr')

/-- Visit a node that is not visited yet; `none` when the steps run out. -/
def visit (succ : α → List α) : ℕ → List α → α → Option (List α × List (Event α))
  | 0, _, _ => none
  | n + 1, vis, x => do
      let (vis, tr) ← each (visit succ n) (x :: vis) (succ x)
      return (vis, .enter x :: tr ++ [.leave x])

/-- The nodes in the order they are left. -/
def left : List (Event α) → List α
  | [] => []
  | .enter _ :: tr => left tr
  | .leave a :: tr => a :: left tr

omit [DecidableEq α] in
theorem left_append (tr tr' : List (Event α)) : left (tr ++ tr') = left tr ++ left tr' := by
  induction tr with
  | nil => simp [left]
  | cons e tr ih => cases e <;> simp [left, ih]

omit [DecidableEq α] in
theorem mem_left (tr : List (Event α)) (a : α) : a ∈ left tr ↔ Event.leave a ∈ tr := by
  induction tr with
  | nil => simp [left]
  | cons e tr ih => cases e <;> simp [left, ih]

/-- The nodes in the order they are entered. -/
def entered : List (Event α) → List α
  | [] => []
  | .enter a :: tr => a :: entered tr
  | .leave _ :: tr => entered tr

omit [DecidableEq α] in
theorem entered_append (tr tr' : List (Event α)) :
    entered (tr ++ tr') = entered tr ++ entered tr' := by
  induction tr with
  | nil => simp [entered]
  | cons e tr ih => cases e <;> simp [entered, ih]

omit [DecidableEq α] in
theorem entered_node (a : α) (tr : List (Event α)) :
    entered (.enter a :: tr ++ [.leave a]) = a :: entered tr := by
  simp [entered, entered_append]

omit [DecidableEq α] in
theorem left_node (a : α) (tr : List (Event α)) :
    left (.enter a :: tr ++ [.leave a]) = left tr ++ [a] := by
  simp [left, left_append]

/-- The nodes that were entered are those that were left. -/
def Balanced (tr : List (Event α)) : Prop := ∀ a, Event.enter a ∈ tr ↔ Event.leave a ∈ tr

omit [DecidableEq α] in
theorem Balanced.append {tr tr' : List (Event α)} (h : Balanced tr) (h' : Balanced tr') :
    Balanced (tr ++ tr') := by
  intro a
  rw [List.mem_append, List.mem_append, h a, h' a]

/-! ## What a traversal does -/

variable (succ : α → List α)

/-- `b` is a successor of `a`. -/
def Edge (a b : α) : Prop := b ∈ succ a

/-- There is a path from `a` to `b`. -/
def Reach : α → α → Prop := Relation.ReflTransGen (Edge succ)

/-- What a traversal started with the visited nodes `vis` from the nodes `start`
leaves: the visited nodes `vis'` and the nodes `post` it left, in order. -/
structure Spec (vis start vis' post : List α) : Prop where
  visited : ∀ a, a ∈ vis' ↔ a ∈ vis ∨ a ∈ post
  fresh : ∀ a ∈ post, a ∉ vis
  nodup : post.Nodup
  start_visited : ∀ a ∈ start, a ∈ vis'
  closed : ∀ a ∈ post, ∀ b ∈ succ a, b ∈ vis'
  reach : ∀ a ∈ post, ∃ s ∈ start, Reach succ s a
  order : ∀ a ∈ post, ∀ b ∈ succ a, b ∈ vis ∨ Before post b a ∨ Reach succ b a

namespace Spec

variable {succ} {vis vis₁ vis' start ys post post₁ post₂ : List α} {x y : α}

omit [DecidableEq α] in
theorem nil (vis : List α) : Spec succ vis [] vis [] :=
  ⟨by simp, by simp, List.nodup_nil, by simp, by simp, by simp, by simp⟩

omit [DecidableEq α] in
theorem skip (h : Spec succ vis ys vis' post) (hy : y ∈ vis) :
    Spec succ vis (y :: ys) vis' post := by
  refine ⟨h.visited, h.fresh, h.nodup, ?_, h.closed, ?_, h.order⟩
  · intro a ha
    rcases List.mem_cons.mp ha with rfl | ha
    · exact (h.visited a).mpr (Or.inl hy)
    · exact h.start_visited a ha
  · intro a ha
    obtain ⟨s, hs, hsa⟩ := h.reach a ha
    exact ⟨s, List.mem_cons_of_mem y hs, hsa⟩

omit [DecidableEq α] in
/-- One start node, then the others. -/
theorem seq (h₁ : Spec succ vis [y] vis₁ post₁) (h₂ : Spec succ vis₁ ys vis' post₂) :
    Spec succ vis (y :: ys) vis' (post₁ ++ post₂) := by
  have hmono : ∀ a, a ∈ vis₁ → a ∈ vis' := fun a ha => (h₂.visited a).mpr (Or.inl ha)
  refine ⟨?_, ?_, ?_, ?_, ?_, ?_, ?_⟩
  · intro a
    rw [h₂.visited, h₁.visited, List.mem_append, or_assoc]
  · intro a ha
    rcases List.mem_append.mp ha with ha | ha
    · exact h₁.fresh a ha
    · exact fun hv => h₂.fresh a ha ((h₁.visited a).mpr (Or.inl hv))
  · rw [List.nodup_append]
    refine ⟨h₁.nodup, h₂.nodup, fun a ha b hb heq => ?_⟩
    exact h₂.fresh b hb (heq ▸ (h₁.visited a).mpr (Or.inr ha))
  · intro a ha
    rcases List.mem_cons.mp ha with rfl | ha
    · exact hmono _ (h₁.start_visited _ (by simp))
    · exact h₂.start_visited a ha
  · intro a ha b hb
    rcases List.mem_append.mp ha with ha | ha
    · exact hmono b (h₁.closed a ha b hb)
    · exact h₂.closed a ha b hb
  · intro a ha
    rcases List.mem_append.mp ha with ha | ha
    · obtain ⟨s, hs, hsa⟩ := h₁.reach a ha
      exact ⟨s, by simp [List.mem_singleton.mp hs], hsa⟩
    · obtain ⟨s, hs, hsa⟩ := h₂.reach a ha
      exact ⟨s, List.mem_cons_of_mem y hs, hsa⟩
  · intro a ha b hb
    rcases List.mem_append.mp ha with ha | ha
    · rcases h₁.order a ha b hb with hv | hbef | hr
      · exact Or.inl hv
      · exact Or.inr (Or.inl (hbef.append_right post₂))
      · exact Or.inr (Or.inr hr)
    · rcases h₂.order a ha b hb with hv | hbef | hr
      · -- `b` was visited before the second part: in `vis`, or left by the first part
        rcases (h₁.visited b).mp hv with hv | hpost
        · exact Or.inl hv
        · exact Or.inr (Or.inl ⟨post₁, post₂, rfl, hpost, ha⟩)
      · exact Or.inr (Or.inl (hbef.append_left post₁))
      · exact Or.inr (Or.inr hr)

omit [DecidableEq α] in
/-- A node and, below it, its successors. -/
theorem node (h : Spec succ (x :: vis) (succ x) vis' post) (hx : x ∉ vis) :
    Spec succ vis [x] vis' (post ++ [x]) := by
  have hreach : ∀ a ∈ post, Reach succ x a := by
    intro a ha
    obtain ⟨s, hs, hsa⟩ := h.reach a ha
    exact Relation.ReflTransGen.head hs hsa
  refine ⟨?_, ?_, ?_, ?_, ?_, ?_, ?_⟩
  · intro a
    rw [h.visited, List.mem_append, List.mem_singleton, List.mem_cons]
    tauto
  · intro a ha
    rcases List.mem_append.mp ha with ha | ha
    · exact fun hv => h.fresh a ha (List.mem_cons_of_mem x hv)
    · rwa [List.mem_singleton.mp ha]
  · rw [List.nodup_append]
    refine ⟨h.nodup, by simp, fun a ha b hb heq => h.fresh a ha ?_⟩
    rw [heq, List.mem_singleton.mp hb]
    exact List.mem_cons_self
  · intro a ha
    rw [List.mem_singleton.mp ha]
    exact (h.visited x).mpr (Or.inl List.mem_cons_self)
  · intro a ha b hb
    rcases List.mem_append.mp ha with ha | ha
    · exact h.closed a ha b hb
    · rw [List.mem_singleton.mp ha] at hb
      exact h.start_visited b hb
  · intro a ha
    rcases List.mem_append.mp ha with ha | ha
    · exact ⟨x, by simp, hreach a ha⟩
    · rw [List.mem_singleton.mp ha]
      exact ⟨x, by simp, Relation.ReflTransGen.refl⟩
  · -- `x` comes after all that it leads to, and whoever leads back to it is reached from it
    intro a ha b hb
    rcases List.mem_append.mp ha with ha | ha
    · rcases h.order a ha b hb with hv | hbef | hr
      · rcases List.mem_cons.mp hv with heq | hv
        · exact Or.inr (Or.inr (heq ▸ hreach a ha))
        · exact Or.inl hv
      · exact Or.inr (Or.inl (hbef.append_right [x]))
      · exact Or.inr (Or.inr hr)
    · rw [List.mem_singleton.mp ha] at hb ⊢
      rcases (h.visited b).mp (h.start_visited b hb) with hv | hpost
      · rcases List.mem_cons.mp hv with heq | hv
        · exact Or.inr (Or.inr (heq ▸ Relation.ReflTransGen.refl))
        · exact Or.inl hv
      · exact Or.inr (Or.inl ⟨post, [x], rfl, hpost, by simp⟩)

end Spec

variable {succ}

/-- **What the loop did** that came to its end on a node and some more. -/
theorem each_cons_cases {β : Type} {f : List α → α → Option (List α × List β)} {vis vis' : List α}
    {y : α} {ys : List α} {tr : List β} (h : each f vis (y :: ys) = some (vis', tr)) :
    (y ∈ vis ∧ each f vis ys = some (vis', tr))
      ∨ y ∉ vis ∧ ∃ vis₁ tr₁ tr₂, f vis y = some (vis₁, tr₁)
        ∧ each f vis₁ ys = some (vis', tr₂) ∧ tr = tr₁ ++ tr₂ := by
  rw [each] at h
  by_cases hy : y ∈ vis
  · rw [if_pos hy] at h
    exact Or.inl ⟨hy, h⟩
  · rw [if_neg hy] at h
    simp only [Option.bind_eq_bind, Option.bind_eq_some_iff, Option.pure_def,
      Option.some.injEq, Prod.mk.injEq, Prod.exists] at h
    obtain ⟨vis₁, tr₁, hrun₁, vis₂, tr₂, hrun₂, rfl, rfl⟩ := h
    exact Or.inr ⟨hy, vis₁, tr₁, tr₂, hrun₁, hrun₂, rfl⟩

theorem each_spec {β : Type} {f : List α → α → Option (List α × List β)}
    (nodes : List β → List α) (hnil : nodes [] = [])
    (happend : ∀ tr tr', nodes (tr ++ tr') = nodes tr ++ nodes tr')
    (hf : ∀ vis y vis' tr, y ∉ vis → f vis y = some (vis', tr) →
      Spec succ vis [y] vis' (nodes tr))
    (ys : List α) : ∀ vis vis' tr, each f vis ys = some (vis', tr) →
      Spec succ vis ys vis' (nodes tr) := by
  induction ys with
  | nil =>
      intro vis vis' tr h
      simp only [each, Option.some.injEq, Prod.mk.injEq] at h
      obtain ⟨rfl, rfl⟩ := h
      rw [hnil]
      exact Spec.nil vis
  | cons y ys ih =>
      intro vis vis' tr h
      -- a successor that was visited is passed over
      rcases each_cons_cases h with ⟨hy, hrun⟩ | ⟨hy, vis₁, tr₁, tr₂, hrun₁, hrun₂, rfl⟩
      · exact (ih vis vis' tr hrun).skip hy
      · rw [happend]
        exact (hf vis y vis₁ tr₁ hy hrun₁).seq (ih vis₁ vis' tr₂ hrun₂)

/-- The same loop with the trace read through `φ`. -/
theorem each_map {β γ : Type} {f : List α → α → Option (List α × List γ)}
    {g : List α → α → Option (List α × List β)} (φ : List β → List γ) (hnil : φ [] = [])
    (happend : ∀ tr tr', φ (tr ++ tr') = φ tr ++ φ tr')
    (hf : ∀ vis y, f vis y = (g vis y).map (fun r => (r.1, φ r.2))) (ys : List α) :
    ∀ vis, each f vis ys = (each g vis ys).map (fun r => (r.1, φ r.2)) := by
  induction ys with
  | nil => intro vis; simp [each, hnil]
  | cons y ys ih =>
      intro vis
      rw [each, each]
      by_cases hy : y ∈ vis
      · rw [if_pos hy, if_pos hy, ih]
      · rw [if_neg hy, if_neg hy, hf]
        cases hg : g vis y with
        | none => simp
        | some r =>
            simp only [Option.map_some, Option.bind_eq_bind, Option.bind_some, ih]
            cases each g r.1 ys <;> simp [happend]

/-- A visit that came to its end: the loop over the successors, between entering the
node and leaving it. -/
theorem visit_succ_cases {n : ℕ} {vis vis' : List α} {x : α} {tr : List (Event α)}
    (h : visit succ (n + 1) vis x = some (vis', tr)) :
    ∃ tr₁, each (visit succ n) (x :: vis) (succ x) = some (vis', tr₁)
      ∧ tr = .enter x :: tr₁ ++ [.leave x] := by
  simp only [visit, Option.bind_eq_bind, Option.bind_eq_some_iff, Option.pure_def,
    Option.some.injEq, Prod.mk.injEq, Prod.exists] at h
  obtain ⟨vis₁, tr₁, hrun, rfl, rfl⟩ := h
  exact ⟨tr₁, hrun, rfl⟩

/-- **What a visit does**, whatever the graph. -/
theorem visit_spec (n : ℕ) : ∀ vis x vis' tr, x ∉ vis → visit succ n vis x = some (vis', tr) →
    Spec succ vis [x] vis' (left tr) := by
  induction n with
  | zero =>
      intro vis x vis' tr _ h
      exact absurd h (by simp [visit])
  | succ n ih =>
      intro vis x vis' tr hx h
      obtain ⟨tr₁, hrun, rfl⟩ := visit_succ_cases h
      -- the loop over the successors has the node itself among the visited ones
      have hspec := each_spec left rfl left_append ih (succ x) _ _ _ hrun
      rw [left_node]
      exact hspec.node hx

theorem each_balanced {f : List α → α → Option (List α × List (Event α))}
    (hf : ∀ vis y vis' tr, f vis y = some (vis', tr) → Balanced tr) (ys : List α) :
    ∀ vis vis' tr, each f vis ys = some (vis', tr) → Balanced tr := by
  induction ys with
  | nil =>
      intro vis vis' tr h
      simp only [each, Option.some.injEq, Prod.mk.injEq] at h
      obtain ⟨rfl, rfl⟩ := h
      simp [Balanced]
  | cons y ys ih =>
      intro vis vis' tr h
      rcases each_cons_cases h with ⟨-, hrun⟩ | ⟨-, vis₁, tr₁, tr₂, hrun₁, hrun₂, rfl⟩
      · exact ih vis vis' tr hrun
      · exact (hf vis y vis₁ tr₁ hrun₁).append (ih vis₁ vis' tr₂ hrun₂)

/-- A visit leaves what it enters. -/
theorem visit_balanced (n : ℕ) : ∀ vis x vis' tr, visit succ n vis x = some (vis', tr) →
    Balanced tr := by
  induction n with
  | zero =>
      intro vis x vis' tr h
      exact absurd h (by simp [visit])
  | succ n ih =>
      intro vis x vis' tr h a
      obtain ⟨tr₁, hrun, rfl⟩ := visit_succ_cases h
      have hinner := each_balanced ih (succ x) _ _ _ hrun a
      simp only [List.cons_append, List.mem_cons, List.mem_append, Event.enter.injEq,
        Event.leave.injEq, reduceCtorEq, List.not_mem_nil, or_false, false_or, hinner]
      exact or_comm

theorem each_entered_perm {f : List α → α → Option (List α × List (Event α))}
    (hf : ∀ vis y vis' tr, f vis y = some (vis', tr) → (entered tr).Perm (left tr))
    (ys : List α) : ∀ vis vis' tr, each f vis ys = some (vis', tr) →
      (entered tr).Perm (left tr) := by
  induction ys with
  | nil =>
      intro vis vis' tr h
      simp only [each, Option.some.injEq, Prod.mk.injEq] at h
      obtain ⟨rfl, rfl⟩ := h
      exact List.Perm.refl _
  | cons y ys ih =>
      intro vis vis' tr h
      rcases each_cons_cases h with ⟨-, hrun⟩ | ⟨-, vis₁, tr₁, tr₂, hrun₁, hrun₂, rfl⟩
      · exact ih vis vis' tr hrun
      · rw [entered_append, left_append]
        exact (hf vis y vis₁ tr₁ hrun₁).append (ih vis₁ vis' tr₂ hrun₂)

/-- **A visit leaves each node as often as it enters it.** -/
theorem visit_entered_perm (n : ℕ) : ∀ vis x vis' tr, visit succ n vis x = some (vis', tr) →
    (entered tr).Perm (left tr) := by
  induction n with
  | zero =>
      intro vis x vis' tr h
      exact absurd h (by simp [visit])
  | succ n ih =>
      intro vis x vis' tr h
      obtain ⟨tr₁, hrun, rfl⟩ := visit_succ_cases h
      have hinner := each_entered_perm ih (succ x) _ _ _ hrun
      rw [entered_node, left_node]
      exact (hinner.cons x).trans (List.perm_append_singleton x (left tr₁)).symm

/-! ## Termination -/

/-- The nodes of a list that are not visited. -/
def unvisited (nodes vis : List α) : List α := nodes.filter (fun a => decide (a ∉ vis))

theorem unvisited_cons_lt {nodes vis : List α} {x : α} (hx : x ∈ nodes) (hv : x ∉ vis) :
    (unvisited nodes (x :: vis)).length < (unvisited nodes vis).length := by
  have hfilter : unvisited nodes (x :: vis)
      = (unvisited nodes vis).filter (fun a => decide (a ≠ x)) := by
    rw [unvisited, unvisited, List.filter_filter]
    refine List.filter_congr (fun a _ => ?_)
    simp [List.mem_cons, not_or]
  rw [hfilter, List.length_filter_lt_length_iff_exists]
  exact ⟨x, by simp [unvisited, hx, hv], by simp⟩

theorem unvisited_mono {nodes vis vis' : List α} (h : ∀ a ∈ vis, a ∈ vis') :
    (unvisited nodes vis').length ≤ (unvisited nodes vis).length := by
  refine List.Sublist.length_le (List.monotone_filter_right nodes (fun a ha => ?_))
  simp only [decide_eq_true_eq] at ha ⊢
  exact fun hv => ha (h a hv)

/-- The loop over the successors gets through when each visit does. -/
theorem each_total {β : Type} {f : List α → α → Option (List α × List β)}
    {nodes : List α} {n : ℕ}
    (hf : ∀ vis y, y ∈ nodes → y ∉ vis → (unvisited nodes vis).length ≤ n →
      ∃ vis' tr, f vis y = some (vis', tr) ∧ ∀ a ∈ vis, a ∈ vis')
    (ys : List α) : ∀ vis, (∀ y ∈ ys, y ∈ nodes) → (unvisited nodes vis).length ≤ n →
      ∃ vis' tr, each f vis ys = some (vis', tr) ∧ ∀ a ∈ vis, a ∈ vis' := by
  induction ys with
  | nil =>
      intro vis _ _
      exact ⟨vis, [], rfl, fun _ ha => ha⟩
  | cons y ys ih =>
      intro vis hys hn
      have hys' : ∀ z ∈ ys, z ∈ nodes := fun z hz => hys z (List.mem_cons_of_mem y hz)
      by_cases hy : y ∈ vis
      · obtain ⟨vis', tr, hrun, hmono⟩ := ih vis hys' hn
        exact ⟨vis', tr, by rw [each, if_pos hy, hrun], hmono⟩
      · obtain ⟨vis₁, tr₁, hrun₁, hmono₁⟩ := hf vis y (hys y List.mem_cons_self) hy hn
        obtain ⟨vis', tr₂, hrun₂, hmono₂⟩ := ih vis₁ hys'
          (Nat.le_trans (unvisited_mono hmono₁) hn)
        refine ⟨vis', tr₁ ++ tr₂, ?_, fun a ha => hmono₂ a (hmono₁ a ha)⟩
        simp [each, hy, hrun₁, hrun₂]

/-- **A visit terminates** within as many nested calls as there are unvisited
nodes, when the nodes met stay in a finite list. -/
theorem visit_total {nodes : List α} (hclosed : ∀ a ∈ nodes, ∀ b ∈ succ a, b ∈ nodes) (n : ℕ) :
    ∀ vis x, x ∈ nodes → x ∉ vis → (unvisited nodes vis).length ≤ n →
      ∃ vis' tr, visit succ n vis x = some (vis', tr) ∧ ∀ a ∈ vis, a ∈ vis' := by
  induction n with
  | zero =>
      intro vis x hx hv hn
      have := unvisited_cons_lt hx hv
      omega
  | succ n ih =>
      intro vis x hx hv hn
      -- a nested call has one unvisited node less, hence the fuel
      have hlt := unvisited_cons_lt hx hv
      obtain ⟨vis', tr, hrun, hmono⟩ :=
        each_total ih (succ x) (x :: vis) (hclosed x hx) (by omega)
      refine ⟨vis', .enter x :: tr ++ [.leave x], ?_, fun a ha => hmono a (by simp [ha])⟩
      simp [visit, hrun]

/-! ## Graphs without cycles -/

variable (succ) in
/-- No edge goes back to where a path came from. -/
def Acyclic : Prop := ∀ a b, Edge succ a b → ¬ Reach succ b a

omit [DecidableEq α] in
/-- Everything reachable from the start nodes of a full traversal is left. -/
theorem Spec.complete {start vis' post : List α} (h : Spec succ [] start vis' post) {s a : α}
    (hs : s ∈ start) (hreach : Reach succ s a) : a ∈ post := by
  have hvis : ∀ b, b ∈ vis' → b ∈ post :=
    fun b hb => ((h.visited b).mp hb).resolve_left (by simp)
  -- along a path: the nodes left are closed under successors
  induction hreach with
  | refl => exact hvis s (h.start_visited s hs)
  | tail _ hedge ih => exact hvis _ (h.closed _ ih _ hedge)

omit [DecidableEq α] in
/-- A full traversal leaves what is reachable from its start nodes, and nothing else. -/
theorem Spec.mem_iff {start vis' post : List α} (h : Spec succ [] start vis' post) (a : α) :
    a ∈ post ↔ ∃ s ∈ start, Reach succ s a :=
  ⟨h.reach a, fun ⟨_, hs, hreach⟩ => h.complete hs hreach⟩

omit [DecidableEq α] in
/-- **Post-order.** In a full traversal of a graph without cycles every node is
left after its successors. -/
theorem Spec.before {start vis' post : List α} (h : Spec succ [] start vis' post)
    (hacyclic : Acyclic succ) {a b : α} (ha : a ∈ post) (hb : b ∈ succ a) : Before post b a := by
  rcases h.order a ha b hb with hv | hbef | hr
  · exact absurd hv (by simp)
  · exact hbef
  · exact absurd hr (hacyclic a b hb)

omit [DecidableEq α] in
/-- Going up from a node of a finite graph without cycles ends at a node without
predecessors. -/
theorem exists_root {nodes : List α} (hacyclic : Acyclic succ) (a : α) (ha : a ∈ nodes) :
    ∃ r ∈ nodes, (∀ p ∈ nodes, ¬ Edge succ p r) ∧ Reach succ r a := by
  classical
  -- the number of the nodes above decreases along the way up
  induction hn : (nodes.filter (fun b => decide (Reach succ b a))).length
    using Nat.strongRecOn generalizing a with
  | _ n ih =>
      by_cases hroot : ∀ p ∈ nodes, ¬ Edge succ p a
      · exact ⟨a, ha, hroot, Relation.ReflTransGen.refl⟩
      · push Not at hroot
        obtain ⟨p, hp, hedge⟩ := hroot
        have hsub : nodes.filter (fun b => decide (Reach succ b p))
            = (nodes.filter (fun b => decide (Reach succ b a))).filter
                (fun b => decide (Reach succ b p)) := by
          rw [List.filter_filter]
          refine List.filter_congr (fun b _ => ?_)
          by_cases hbp : Reach succ b p
          · simp [hbp, show Reach succ b a from hbp.tail hedge]
          · simp [hbp]
        have hlt : (nodes.filter (fun b => decide (Reach succ b p))).length < n := by
          rw [hsub, ← hn, List.length_filter_lt_length_iff_exists]
          refine ⟨a, ?_, by simpa using hacyclic p a hedge⟩
          simp only [List.mem_filter, decide_eq_true_eq]
          exact ⟨ha, Relation.ReflTransGen.refl⟩
        obtain ⟨r, hr, hnone, hreach⟩ := ih _ hlt p hp rfl
        exact ⟨r, hr, hnone, hreach.tail hedge⟩

/-! ## Other sets of visited nodes -/

section Sets

variable {ε S β : Type}

/-- `each`, with visited nodes in a set that is asked and may fail. -/
def eachIn (contains : S → α → Except ε Bool) (f : S → α → Except ε (S × List β)) :
    S → List α → Except ε (S × List β)
  | s, [] => .ok (s, [])
  | s, y :: ys => do
      if ← contains s y then eachIn contains f s ys
      else do
        let (s, tr) ← f s y
        let (s, tr') ← eachIn contains f s ys
        .ok (s, tr ++ tr')

/-- The visit `f` with sets does what `g` does with lists, where `Rep` says which nodes a
set holds. -/
def Follows (Rep : S → List α → Prop) (nodes : List α) (f : S → α → Except ε (S × List β))
    (g : List α → α → Option (List α × List β)) : Prop :=
  ∀ s vis a vis' tr, Rep s vis → a ∈ nodes → g vis a = some (vis', tr) →
    ∃ s', f s a = .ok (s', tr) ∧ Rep s' vis'

/-- **Any set will do** that answers for the nodes of the graph as the list does. -/
theorem eachIn_follows {Rep : S → List α → Prop} {nodes : List α}
    {contains : S → α → Except ε Bool} {f : S → α → Except ε (S × List β)}
    {g : List α → α → Option (List α × List β)}
    (hcontains : ∀ s vis a, Rep s vis → a ∈ nodes → contains s a = .ok (decide (a ∈ vis)))
    (hf : Follows Rep nodes f g) (ys : List α) :
    ∀ s vis vis' tr, Rep s vis → ys ⊆ nodes → each g vis ys = some (vis', tr) →
      ∃ s', eachIn contains f s ys = .ok (s', tr) ∧ Rep s' vis' := by
  induction ys with
  | nil =>
      intro s vis vis' tr hrep _ hrun
      rw [each, Option.some.injEq, Prod.mk.injEq] at hrun
      obtain ⟨rfl, rfl⟩ := hrun
      exact ⟨s, rfl, hrep⟩
  | cons y ys ih =>
      intro s vis vis' tr hrep hsub hrun
      rw [List.cons_subset] at hsub
      rw [each] at hrun
      have hasked := hcontains s vis y hrep hsub.1
      by_cases hy : y ∈ vis
      · rw [if_pos hy] at hrun
        obtain ⟨s', hrest, hrep'⟩ := ih s vis vis' tr hrep hsub.2 hrun
        refine ⟨s', ?_, hrep'⟩
        rw [eachIn, hasked, decide_eq_true hy, ok_bind]
        exact hrest
      · rw [if_neg hy] at hrun
        simp only [Option.bind_eq_bind, Option.bind_eq_some_iff, Option.pure_def,
          Option.some.injEq, Prod.mk.injEq] at hrun
        obtain ⟨⟨vis₁, tr₁⟩, hvisit, ⟨vis₂, tr₂⟩, hrest, rfl, rfl⟩ := hrun
        obtain ⟨s₁, hfirst, hrep₁⟩ := hf s vis y vis₁ tr₁ hrep hsub.1 hvisit
        obtain ⟨s₂, hothers, hrep₂⟩ := ih s₁ vis₁ vis₂ tr₂ hrep₁ hsub.2 hrest
        refine ⟨s₂, ?_, hrep₂⟩
        simp only [eachIn, hasked, decide_eq_false hy, hfirst, hothers, ok_bind]
        rfl

end Sets

end PkgPlugins.Dfs
