/-
The orders in which a depth-first traversal enters and leaves the nodes.

A node is entered before another and left after it just if the visit of the other
takes place within its own: `Encloses`. Seen from the graph, these are the nodes on the
first path to the other (`FirstPath`): the path that takes at every node the first
successor from which the target can still be reached without coming back to the path.
A successor that is passed over leads to the target only through nodes that were left
already, and what those lead to was visited with them (`Finished`).

So the nodes are entered in the reverse of the order in which they are left if and only
if no two of them are on different branches (`entered_eq_reverse_iff`).
-/
import PkgPlugins.Dfs

set_option autoImplicit false

namespace PkgPlugins.Dfs

variable {α : Type}

/-! ## Order in a list -/

theorem Before.mem {l : List α} {a b : α} (h : Before l a b) : a ∈ l ∧ b ∈ l := by
  obtain ⟨l₁, l₂, rfl, ha, hb⟩ := h
  exact ⟨List.mem_append_left l₂ ha, List.mem_append_right l₁ hb⟩

theorem before_append {l₁ l₂ : List α} {a b : α} :
    Before (l₁ ++ l₂) a b ↔ Before l₁ a b ∨ Before l₂ a b ∨ (a ∈ l₁ ∧ b ∈ l₂) := by
  constructor
  · rintro ⟨l₃, l₄, heq, ha, hb⟩
    rcases List.append_eq_append_iff.mp heq with ⟨m, rfl, rfl⟩ | ⟨m, rfl, rfl⟩
    · -- cut in the second list
      rcases List.mem_append.mp ha with ha | ha
      · exact Or.inr (Or.inr ⟨ha, List.mem_append_right m hb⟩)
      · exact Or.inr (Or.inl ⟨m, l₄, rfl, ha, hb⟩)
    · rcases List.mem_append.mp hb with hb | hb
      · exact Or.inl ⟨l₃, m, rfl, ha, hb⟩
      · exact Or.inr (Or.inr ⟨List.mem_append_left m ha, hb⟩)
  · rintro (h | h | ⟨ha, hb⟩)
    · exact h.append_right l₂
    · exact h.append_left l₁
    · exact ⟨l₁, l₂, rfl, ha, hb⟩

theorem not_before_singleton (x a b : α) : ¬ Before [x] a b := by
  rintro ⟨l₁, l₂, heq, ha, hb⟩
  have hlen := congrArg List.length heq
  have h₁ := List.length_pos_of_mem ha
  have h₂ := List.length_pos_of_mem hb
  rw [List.length_append, List.length_singleton] at hlen
  omega

theorem before_cons {l : List α} {x a b : α} :
    Before (x :: l) a b ↔ (a = x ∧ b ∈ l) ∨ Before l a b := by
  have happend : Before ([x] ++ l) a b ↔ _ := before_append
  simp only [List.singleton_append, not_before_singleton, List.mem_singleton, false_or] at happend
  rw [happend, or_comm]

theorem before_concat {l : List α} {x a b : α} :
    Before (l ++ [x]) a b ↔ Before l a b ∨ (a ∈ l ∧ b = x) := by
  simp only [before_append, not_before_singleton, List.mem_singleton, false_or]

theorem before_filter {l : List α} {p : α → Bool} {a b : α} :
    Before (l.filter p) a b ↔ Before l a b ∧ p a = true ∧ p b = true := by
  constructor
  · intro h
    have hp := h.mem
    rw [List.mem_filter, List.mem_filter] at hp
    refine ⟨?_, hp.1.2, hp.2.2⟩
    obtain ⟨m₁, m₂, heq, ha, hb⟩ := h
    obtain ⟨l₁, l₂, rfl, rfl, rfl⟩ := List.filter_eq_append_iff.mp heq
    exact ⟨l₁, l₂, rfl, (List.mem_filter.mp ha).1, (List.mem_filter.mp hb).1⟩
  · exact fun ⟨h, ha, hb⟩ => h.filter ha hb

theorem before_reverse {l : List α} {a b : α} : Before l.reverse a b ↔ Before l b a := by
  have himp : ∀ (l : List α) (a b : α), Before l a b → Before l.reverse b a := by
    rintro l a b ⟨l₁, l₂, rfl, ha, hb⟩
    exact ⟨l₂.reverse, l₁.reverse, List.reverse_append, by simpa using hb, by simpa using ha⟩
  refine ⟨fun h => ?_, himp l b a⟩
  simpa using himp l.reverse a b h

theorem before_total {l : List α} {a b : α} (ha : a ∈ l) (hb : b ∈ l) (hne : a ≠ b) :
    Before l a b ∨ Before l b a := by
  induction l with
  | nil => simp at ha
  | cons x l ih =>
      simp only [before_cons]
      rcases List.mem_cons.mp ha with rfl | hal <;> rcases List.mem_cons.mp hb with rfl | hbl
      · exact absurd rfl hne
      · exact Or.inl (Or.inl ⟨rfl, hbl⟩)
      · exact Or.inr (Or.inl ⟨rfl, hal⟩)
      · rcases ih hal hbl with h | h
        · exact Or.inl (Or.inr h)
        · exact Or.inr (Or.inr h)

/-- A list is sorted by the order of its elements. -/
theorem pairwise_before (l : List α) : l.Pairwise (Before l) := by
  induction l with
  | nil => exact List.Pairwise.nil
  | cons x l ih =>
      refine List.Pairwise.cons (fun b hb => before_cons.mpr (Or.inl ⟨rfl, hb⟩)) ?_
      exact ih.imp (fun h => before_cons.mpr (Or.inr h))

/-- **When one list is the other reversed**: if and only if any two of the elements are
in opposite orders. -/
theorem eq_reverse_iff {l l' : List α} (hperm : l.Perm l') (hnodup : l'.Nodup) :
    l = l'.reverse ↔ ∀ a ∈ l', ∀ b ∈ l', a ≠ b →
      (Before l a b ∧ Before l' b a) ∨ (Before l b a ∧ Before l' a b) := by
  constructor
  · rintro rfl a ha b hb hne
    simp only [before_reverse, and_self]
    exact before_total hb ha (Ne.symm hne)
  · intro hopposite
    have hnodup' := hperm.nodup_iff.mpr hnodup
    -- both lists are sorted by the order of the first
    have hsorted : l'.reverse.Pairwise (Before l) := by
      refine (pairwise_before l'.reverse).imp (fun {a b} h => ?_)
      rw [before_reverse] at h
      have hne : a ≠ b := fun heq => (h.asymm hnodup) (heq ▸ h)
      rcases hopposite a h.mem.2 b h.mem.1 hne with ⟨hl, -⟩ | ⟨-, hl'⟩
      · exact hl
      · exact absurd hl' (h.asymm hnodup)
    refine List.Perm.eq_of_pairwise ?_ (pairwise_before l) hsorted
      (hperm.trans l'.reverse_perm.symm)
    intro a b _ _ h h'
    exact absurd h' (h.asymm hnodup')

/-! ## The first path -/

section Paths

variable (succ : α → List α)

/-- There is a path from `a` to `b` that does not go through `used`. -/
def ReachOff (used : List α) (a b : α) : Prop :=
  a ∉ used ∧ Relation.ReflTransGen (fun c d => Edge succ c d ∧ d ∉ used) a b

/-- **The first path** to a node from one of the candidates: it starts at the first of
them from which the node can be reached off the nodes `used`, and goes on from its
successors, the candidate being used. -/
inductive FirstPath : List α → List α → α → List α → Prop
  | skip {used cs path : List α} {c y : α} : ¬ ReachOff succ used c y →
      FirstPath used cs y path → FirstPath used (c :: cs) y path
  | here {used cs : List α} {y : α} : y ∉ used → FirstPath used (y :: cs) y [y]
  | step {used cs path : List α} {c y : α} : ReachOff succ used c y → c ≠ y →
      FirstPath (c :: used) (succ c) y path → FirstPath used (c :: cs) y (c :: path)

/-- What was visited off the nodes `used` was visited with its successors. -/
def Finished (used vis : List α) : Prop := ∀ a ∈ vis, a ∉ used → ∀ b ∈ succ a, b ∈ vis

end Paths

variable {succ : α → List α} {used vis vis' ys : List α} {x y : α}

theorem ReachOff.refl (h : x ∉ used) : ReachOff succ used x x := ⟨h, Relation.ReflTransGen.refl⟩

/-- A first path is the only one. -/
theorem FirstPath.unique {path path' : List α} (h : FirstPath succ used ys y path) :
    FirstPath succ used ys y path' → path = path' := by
  induction h generalizing path' with
  | skip hnot _ ih =>
      intro h'
      cases h' with
      | skip _ hpath => exact ih hpath
      | here hused => exact absurd (ReachOff.refl hused) hnot
      | step hreach _ _ => exact absurd hreach hnot
  | here hused =>
      intro h'
      cases h' with
      | skip hnot _ => exact absurd (ReachOff.refl hused) hnot
      | here _ => rfl
      | step _ hne _ => exact absurd rfl hne
  | step hreach hne _ ih =>
      intro h'
      cases h' with
      | skip hnot _ => exact absurd hreach hnot
      | here _ => exact absurd rfl hne
      | step _ _ hpath => rw [ih hpath]

theorem FirstPath.append {path : List α} (h : FirstPath succ used ys y path) (cs : List α) :
    FirstPath succ used (ys ++ cs) y path := by
  induction h with
  | skip hnot _ ih => exact .skip hnot ih
  | here hused => exact .here hused
  | step hreach hne hpath _ => exact .step hreach hne hpath

theorem FirstPath.reachOff {path : List α} (h : FirstPath succ used ys y path) :
    ∃ c ∈ ys, ReachOff succ used c y := by
  induction h with
  | skip _ _ ih =>
      obtain ⟨c, hc, hreach⟩ := ih
      exact ⟨c, List.mem_cons_of_mem _ hc, hreach⟩
  | here hused => exact ⟨_, List.mem_cons_self, ReachOff.refl hused⟩
  | step hreach _ _ _ => exact ⟨_, List.mem_cons_self, hreach⟩

theorem FirstPath.mem_last {path : List α} (h : FirstPath succ used ys y path) : y ∈ path := by
  induction h with
  | skip _ _ ih => exact ih
  | here _ => exact List.mem_singleton_self _
  | step _ _ _ ih => exact List.mem_cons_of_mem _ ih

/-- A path off the path of a node, from one of its successors, is one from the node. -/
theorem ReachOff.cons {c : α} (hx : x ∉ used) (hc : c ∈ succ x)
    (h : ReachOff succ (x :: used) c y) : ReachOff succ used x y := by
  obtain ⟨hfresh, hpath⟩ := h
  refine ⟨hx, Relation.ReflTransGen.head ⟨hc, fun hmem => hfresh (List.mem_cons_of_mem x hmem)⟩ ?_⟩
  exact hpath.lift id
    (fun a b hab => ⟨hab.1, fun hmem => hab.2 (List.mem_cons_of_mem x hmem)⟩)

/-- What was visited leads only to what was visited. -/
theorem Finished.not_reachOff (h : Finished succ used vis) (hx : x ∈ vis) (hy : y ∉ vis) :
    ¬ ReachOff succ used x y := by
  rintro ⟨hfresh, hpath⟩
  have hvis : ∀ b, Relation.ReflTransGen (fun c d => Edge succ c d ∧ d ∉ used) x b →
      b ∈ vis ∧ b ∉ used := by
    intro b hb
    induction hb with
    | refl => exact ⟨hx, hfresh⟩
    | tail _ hedge ih => exact ⟨h _ ih.1 ih.2 _ hedge.1, hedge.2⟩
  exact hy (hvis y hpath).1

theorem Finished.spec {start post : List α} (h : Finished succ used vis)
    (hspec : Spec succ vis start vis' post) : Finished succ used vis' := by
  intro a ha hused b hb
  rcases (hspec.visited a).mp ha with hvis | hpost
  · exact (hspec.visited b).mpr (Or.inl (h a hvis hused b hb))
  · exact hspec.closed a hpost b hb

/-! ## Visits within visits -/

/-- The visit of `y` takes place within that of `x`. -/
def Encloses (tr : List (Event α)) (x y : α) : Prop :=
  Before (entered tr) x y ∧ Before (left tr) y x

/-- What a trace of visits is: its nodes are left once, and entered once. -/
structure Once (tr : List (Event α)) : Prop where
  perm : (entered tr).Perm (left tr)
  nodup : (left tr).Nodup

section Once

variable {tr tr₁ tr₂ : List (Event α)} {a : α}

theorem encloses_append_left (h₁ : Once tr₁) (h₂ : Once tr₂)
    (hdisjoint : ∀ b ∈ left tr₁, b ∉ left tr₂) (hy : y ∈ left tr₁) :
    Encloses (tr₁ ++ tr₂) x y ↔ Encloses tr₁ x y := by
  have hentered : y ∉ entered tr₂ := by
    rw [h₂.perm.mem_iff]
    exact hdisjoint y hy
  simp only [Encloses, entered_append, left_append, before_append]
  constructor
  · rintro ⟨hpre | hpre | ⟨-, hy'⟩, hpost⟩
    · refine ⟨hpre, ?_⟩
      have hx : x ∉ left tr₂ := hdisjoint x (h₁.perm.mem_iff.mp hpre.mem.1)
      rcases hpost with hpost | hpost | ⟨-, hx'⟩
      · exact hpost
      · exact absurd hpost.mem.2 hx
      · exact absurd hx' hx
    · exact absurd hpre.mem.2 hentered
    · exact absurd hy' hentered
  · rintro ⟨hpre, hpost⟩
    exact ⟨Or.inl hpre, Or.inl hpost⟩

theorem encloses_append_right (h₁ : Once tr₁)
    (hdisjoint : ∀ b ∈ left tr₁, b ∉ left tr₂) (hy : y ∈ left tr₂) :
    Encloses (tr₁ ++ tr₂) x y ↔ Encloses tr₂ x y := by
  have hleft : y ∉ left tr₁ := fun hmem => hdisjoint y hmem hy
  simp only [Encloses, entered_append, left_append, before_append]
  constructor
  · rintro ⟨hpre, hpost | hpost | ⟨hy', -⟩⟩
    · exact absurd hpost.mem.1 hleft
    · refine ⟨?_, hpost⟩
      -- `x` is left in the second trace, so it is entered there
      have hx : x ∉ entered tr₁ := by
        rw [h₁.perm.mem_iff]
        exact fun hmem => hdisjoint x hmem hpost.mem.2
      rcases hpre with hpre | hpre | ⟨hx', -⟩
      · exact absurd hpre.mem.1 hx
      · exact hpre
      · exact absurd hx' hx
    · exact absurd hy' hleft
  · rintro ⟨hpre, hpost⟩
    exact ⟨Or.inr (Or.inl hpre), Or.inr (Or.inl hpost)⟩

/-- The visit of a node encloses all it comes to. -/
theorem encloses_node (h : Once tr) (hy : y ∈ left tr) :
    Encloses (.enter a :: tr ++ [.leave a]) x y ↔ x = a ∨ Encloses tr x y := by
  have hentered : y ∈ entered tr := h.perm.mem_iff.mpr hy
  rw [Encloses, entered_node, left_node, before_cons, before_concat]
  constructor
  · rintro ⟨⟨hxa, -⟩ | hpre, hpost⟩
    · exact Or.inl hxa
    · rcases hpost with hpost | ⟨-, hxa⟩
      · exact Or.inr ⟨hpre, hpost⟩
      · exact Or.inl hxa
  · rintro (rfl | ⟨hpre, hpost⟩)
    · exact ⟨Or.inl ⟨rfl, hentered⟩, Or.inr ⟨hy, rfl⟩⟩
    · exact ⟨Or.inr hpre, Or.inl hpost⟩

/-- A node is left last of its visit. -/
theorem not_encloses_self (ha : a ∉ left tr) (hx : x ≠ a) :
    ¬ Encloses (.enter a :: tr ++ [.leave a]) x a := by
  rw [Encloses, left_node, before_concat]
  rintro ⟨-, hpost | ⟨-, hxa⟩⟩
  · exact ha hpost.mem.1
  · exact hx hxa

end Once

/-! ## The first path in a traversal -/

/-- The traversal from the candidates `start`, within the visits of the nodes `used`,
comes to each node along the first path to it. -/
def Traced (succ : α → List α) (used start : List α) (tr : List (Event α)) : Prop :=
  ∀ y ∈ left tr, ∃ path, FirstPath succ used start y path
    ∧ ∀ x, x ≠ y → (x ∈ path ↔ Encloses tr x y)

section Traversal

variable [DecidableEq α]

theorem each_once {n : ℕ} {tr : List (Event α)}
    (h : each (visit succ n) vis ys = some (vis', tr)) : Once tr :=
  ⟨each_entered_perm (visit_entered_perm n) ys vis vis' tr h,
    (each_spec left rfl left_append (visit_spec n) ys vis vis' tr h).nodup⟩

theorem visit_once {n : ℕ} {tr : List (Event α)} (hx : x ∉ vis)
    (h : visit succ n vis x = some (vis', tr)) : Once tr :=
  ⟨visit_entered_perm n vis x vis' tr h, (visit_spec n vis x vis' tr hx h).nodup⟩

/-- The loop over the candidates, when a visit comes to its nodes along the first
paths. -/
theorem each_traced {n : ℕ}
    (hvisit : ∀ used vis x vis' tr, x ∉ vis → (∀ a ∈ used, a ∈ vis) → Finished succ used vis →
      visit succ n vis x = some (vis', tr) → Traced succ used [x] tr) (ys : List α) :
    ∀ used vis vis' tr, (∀ a ∈ used, a ∈ vis) → Finished succ used vis →
      each (visit succ n) vis ys = some (vis', tr) → Traced succ used ys tr := by
  induction ys with
  | nil =>
      intro used vis vis' tr _ _ h
      simp only [each, Option.some.injEq, Prod.mk.injEq] at h
      obtain ⟨rfl, rfl⟩ := h
      exact fun y hy => absurd hy (by simp [left])
  | cons c ys ih =>
      intro used vis vis' tr hused hfinished h
      have hfresh := (each_spec left rfl left_append (visit_spec n) (c :: ys) vis vis' tr h).fresh
      rcases each_cons_cases h with ⟨hc, hrun⟩ | ⟨hc, vis₁, tr₁, tr₂, hrun₁, hrun₂, rfl⟩
      · -- what the visited candidate leads to was visited
        intro y hy
        obtain ⟨path, hpath, hmem⟩ := ih used vis vis' tr hused hfinished hrun y hy
        exact ⟨path, .skip (hfinished.not_reachOff hc (hfresh y hy)) hpath, hmem⟩
      · have hspec₁ := visit_spec n vis c vis₁ tr₁ hc hrun₁
        have hspec₂ := each_spec left rfl left_append (visit_spec n) ys vis₁ vis' tr₂ hrun₂
        have honce₁ := visit_once hc hrun₁
        have honce₂ := each_once hrun₂
        have hdisjoint : ∀ b ∈ left tr₁, b ∉ left tr₂ :=
          fun b hb hb' => hspec₂.fresh b hb' ((hspec₁.visited b).mpr (Or.inr hb))
        intro y hy
        rw [left_append, List.mem_append] at hy
        rcases hy with hy | hy
        · obtain ⟨path, hpath, hmem⟩ := hvisit used vis c vis₁ tr₁ hc hused hfinished hrun₁ y hy
          refine ⟨path, hpath.append ys, fun x hx => ?_⟩
          rw [hmem x hx, encloses_append_left honce₁ honce₂ hdisjoint hy]
        · -- the visit of the candidate did not come to `y`, so it does not lead there
          have hfinished₁ := hfinished.spec hspec₁
          have hused₁ : ∀ a ∈ used, a ∈ vis₁ :=
            fun a ha => (hspec₁.visited a).mpr (Or.inl (hused a ha))
          obtain ⟨path, hpath, hmem⟩ := ih used vis₁ vis' tr₂ hused₁ hfinished₁ hrun₂ y hy
          have hnot := hfinished₁.not_reachOff (hspec₁.start_visited c List.mem_cons_self)
            (hspec₂.fresh y hy)
          refine ⟨path, .skip hnot hpath, fun x hx => ?_⟩
          rw [hmem x hx, encloses_append_right honce₁ hdisjoint hy]

/-- **A visit comes to its nodes along the first paths.** -/
theorem visit_traced (n : ℕ) : ∀ used vis x vis' tr, x ∉ vis → (∀ a ∈ used, a ∈ vis) →
    Finished succ used vis → visit succ n vis x = some (vis', tr) → Traced succ used [x] tr := by
  induction n with
  | zero =>
      intro used vis x vis' tr _ _ _ h
      exact absurd h (by simp [visit])
  | succ n ih =>
      intro used vis x vis' tr hx hused hfinished h
      obtain ⟨tr₁, hrun, rfl⟩ := visit_succ_cases h
      have hspec := each_spec left rfl left_append (visit_spec n) (succ x) _ _ _ hrun
      have hxused : x ∉ used := fun hmem => hx (hused x hmem)
      have hxleft : x ∉ left tr₁ := fun hmem => hspec.fresh x hmem List.mem_cons_self
      -- the node itself is used while its successors are visited
      have hused' : ∀ a ∈ x :: used, a ∈ x :: vis := by
        intro a ha
        rcases List.mem_cons.mp ha with rfl | ha
        · exact List.mem_cons_self
        · exact List.mem_cons_of_mem x (hused a ha)
      have hfinished' : Finished succ (x :: used) (x :: vis) := by
        intro a ha hnot b hb
        rw [List.mem_cons, not_or] at hnot
        have ha' := (List.mem_cons.mp ha).resolve_left hnot.1
        exact List.mem_cons_of_mem x (hfinished a ha' hnot.2 b hb)
      have hinner := each_traced ih (succ x) (x :: used) (x :: vis) vis' tr₁ hused' hfinished' hrun
      intro y hy
      by_cases hyx : y = x
      · rw [hyx]
        refine ⟨[x], .here hxused, fun z hz => ?_⟩
        simp only [List.mem_singleton, hz, false_iff]
        exact not_encloses_self hxleft hz
      · have hy' : y ∈ left tr₁ := by
          rw [left_node, List.mem_append, List.mem_singleton] at hy
          exact hy.resolve_right hyx
        obtain ⟨path, hpath, hmem⟩ := hinner y hy'
        obtain ⟨c, hc, hreach⟩ := hpath.reachOff
        refine ⟨x :: path, .step (hreach.cons hxused hc) (Ne.symm hyx) hpath, fun z hz => ?_⟩
        rw [List.mem_cons, hmem z hz, encloses_node (each_once hrun) hy']

/-- **When the order of entering is the order of leaving reversed**, among the nodes that
a filter keeps: if and only if of any two of them that are reached one is on the first
path to the other. -/
theorem entered_eq_reverse_iff {n : ℕ} {start : List α} {tr : List (Event α)}
    (h : each (visit succ n) [] start = some (vis', tr)) (keep : α → Bool) :
    (entered tr).filter keep = ((left tr).filter keep).reverse
      ↔ ∀ x ∈ left tr, ∀ y ∈ left tr, keep x = true → keep y = true →
        (∃ path, FirstPath succ [] start y path ∧ x ∈ path)
          ∨ ∃ path, FirstPath succ [] start x path ∧ y ∈ path := by
  have honce := each_once h
  have htraced := each_traced (visit_traced n) start [] [] vis' tr (by simp)
    (fun a ha => absurd ha (by simp)) h
  have hon : ∀ x y, x ≠ y → y ∈ left tr →
      ((∃ path, FirstPath succ [] start y path ∧ x ∈ path) ↔ Encloses tr x y) := by
    intro x y hne hy
    obtain ⟨path, hpath, hmem⟩ := htraced y hy
    rw [← hmem x hne]
    refine ⟨fun ⟨path', hpath', hx⟩ => ?_, fun hx => ⟨path, hpath, hx⟩⟩
    rwa [hpath.unique hpath']
  rw [eq_reverse_iff (honce.perm.filter keep) (honce.nodup.filter keep)]
  simp only [List.mem_filter, before_filter]
  constructor
  · intro hopposite x hx y hy hkx hky
    by_cases hne : x = y
    · obtain ⟨path, hpath, -⟩ := htraced y hy
      exact Or.inl ⟨path, hpath, hne ▸ hpath.mem_last⟩
    · rw [hon x y hne hy, hon y x (Ne.symm hne) hx]
      rcases hopposite x ⟨hx, hkx⟩ y ⟨hy, hky⟩ hne with ⟨hpre, hpost⟩ | ⟨hpre, hpost⟩
      · exact Or.inl ⟨hpre.1, hpost.1⟩
      · exact Or.inr ⟨hpre.1, hpost.1⟩
  · rintro hcomparable x ⟨hx, hkx⟩ y ⟨hy, hky⟩ hne
    have hpair := hcomparable x hx y hy hkx hky
    rw [hon x y hne hy, hon y x (Ne.symm hne) hx] at hpair
    rcases hpair with ⟨hpre, hpost⟩ | ⟨hpre, hpost⟩
    · exact Or.inl ⟨⟨hpre, hkx, hky⟩, hpost, hky, hkx⟩
    · exact Or.inr ⟨⟨hpre, hky, hkx⟩, hpost, hkx, hky⟩

end Traversal

end PkgPlugins.Dfs
