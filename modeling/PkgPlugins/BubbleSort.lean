/-
Bubble sort with an arbitrary comparison.

`gt a b` is what the comparison answers on two neighbours: exchange them or
leave them. Nothing is asked of `gt`; it may fail to be an order, and it may
miss pairs. The order the result is meant to be in is a separate relation `R`
(`R a b`: `a` has to stand before `b`; two elements may be unrelated), and the
only link between the two is that an exchange makes no inversion of `R`. What
the sort then does is decided by one predicate, `Seen`: every inversion of the
list is one the comparison sees. Exchanging two neighbours neither creates nor
destroys an unseen inversion (`Swaps.seen_iff`), so the result is in order
exactly when the input has none (`sort_pairwise_iff`). What comes first can be told
without the rest being in order (`sort_head`).
-/
import Mathlib.Data.List.Basic
import Mathlib.Tactic.Common

set_option autoImplicit false

namespace PkgPlugins.BubbleSort

variable {α : Type} (gt : α → α → Bool)

/-! ## The algorithm -/

/-- What a pass leaves: the elements before the last one, the last one, and
whether anything was exchanged. -/
structure Pass (α : Type) where
  front : List α
  last : α
  swapped : Bool

/-- One pass over `x :: xs`, where `x` is the element being carried upwards. -/
def pass : α → List α → Pass α
  | x, [] => ⟨[], x, false⟩
  | x, y :: ys =>
      if gt x y then
        let r := pass x ys
        ⟨y :: r.front, r.last, true⟩
      else
        let r := pass y ys
        ⟨x :: r.front, r.last, r.swapped⟩

/-- Passes over a shrinking front until one exchanges nothing. -/
def sortLoop : ℕ → List α → List α
  | 0, l => l
  | _ + 1, [] => []
  | n + 1, x :: xs =>
      let r := pass gt x xs
      (if r.swapped then sortLoop n r.front else r.front) ++ [r.last]

/-- A list of `n` elements takes at most `n` passes. -/
def sort (l : List α) : List α := sortLoop gt l.length l

/-! ## A sort is a series of exchanges -/

/-- The second list is the first after some exchanges of neighbours that the
comparison asked for. -/
inductive Swaps : List α → List α → Prop
  | refl (l : List α) : Swaps l l
  | swap (a b : α) (l : List α) (h : gt a b = true) : Swaps (a :: b :: l) (b :: a :: l)
  | cons (a : α) {l l' : List α} (h : Swaps l l') : Swaps (a :: l) (a :: l')
  | trans {l l' l'' : List α} (h : Swaps l l') (h' : Swaps l' l'') : Swaps l l''

variable {gt}

theorem Swaps.perm {l l' : List α} (h : Swaps gt l l') : l.Perm l' := by
  induction h with
  | refl l => exact List.Perm.refl l
  | swap a b l _ => exact List.Perm.swap b a l
  | cons a _ ih => exact List.Perm.cons a ih
  | trans _ _ ih ih' => exact ih.trans ih'

theorem Swaps.append_right {l l' : List α} (h : Swaps gt l l') (t : List α) :
    Swaps gt (l ++ t) (l' ++ t) := by
  induction h with
  | refl l => exact Swaps.refl _
  | swap a b l hgt => exact Swaps.swap a b (l ++ t) hgt
  | cons a _ ih => exact Swaps.cons a ih
  | trans _ _ ih ih' => exact ih.trans ih'

theorem pass_cons_of_gt {x y : α} (hgt : gt x y = true) (ys : List α) :
    pass gt x (y :: ys) = ⟨y :: (pass gt x ys).front, (pass gt x ys).last, true⟩ := by
  rw [pass, if_pos hgt]

theorem pass_cons_of_not_gt {x y : α} (hgt : ¬ gt x y = true) (ys : List α) :
    pass gt x (y :: ys)
      = ⟨x :: (pass gt y ys).front, (pass gt y ys).last, (pass gt y ys).swapped⟩ := by
  rw [pass, if_neg hgt]

theorem pass_swaps (x : α) (xs : List α) :
    Swaps gt (x :: xs) ((pass gt x xs).front ++ [(pass gt x xs).last]) := by
  induction xs generalizing x with
  | nil => exact Swaps.refl _
  | cons y ys ih =>
      by_cases hgt : gt x y = true
      · rw [pass_cons_of_gt hgt, List.cons_append]
        exact (Swaps.swap x y ys hgt).trans (Swaps.cons y (ih x))
      · rw [pass_cons_of_not_gt hgt, List.cons_append]
        exact Swaps.cons x (ih y)

theorem sortLoop_swaps (n : ℕ) (l : List α) : Swaps gt l (sortLoop gt n l) := by
  induction n generalizing l with
  | zero => exact Swaps.refl l
  | succ n ih =>
      cases l with
      | nil => exact Swaps.refl []
      | cons x xs =>
          refine (pass_swaps x xs).trans ?_
          simp only [sortLoop]
          split_ifs
          · exact (ih _).append_right _
          · exact Swaps.refl _

theorem sort_swaps (l : List α) : Swaps gt l (sort gt l) := sortLoop_swaps _ l

/-- The sort permutes its input, whatever the comparison answers. -/
theorem sort_perm (l : List α) : (sort gt l).Perm l := (sort_swaps l).perm.symm

theorem length_pass_front (x : α) (xs : List α) : (pass gt x xs).front.length = xs.length := by
  have hswaps : Swaps gt (x :: xs) _ := pass_swaps x xs
  simpa using hswaps.perm.length_eq.symm

/-- A pass that exchanged something had at least two elements. -/
theorem pass_front_ne_nil {x : α} {xs : List α} (h : (pass gt x xs).swapped = true) :
    (pass gt x xs).front ≠ [] := by
  cases xs with
  | nil => exact absurd h (by simp [pass])
  | cons y ys =>
      intro hnil
      have hlen : (pass gt x (y :: ys)).front.length = (y :: ys).length :=
        length_pass_front x (y :: ys)
      simp [hnil] at hlen

/-- Elements that are never exchanged with each other keep their order. -/
theorem Swaps.filter_eq {l l' : List α} (h : Swaps gt l l') {p : α → Bool}
    (hp : ∀ a b, p a = true → p b = true → ¬ gt a b = true) : l.filter p = l'.filter p := by
  induction h with
  | refl l => rfl
  | swap a b l hgt =>
      cases ha : p a with
      | false => simp [List.filter_cons, ha]
      | true =>
          cases hb : p b with
          | false => simp [ha, hb]
          | true => exact absurd hgt (hp a b ha hb)
  | cons a _ ih => rw [List.filter_cons, List.filter_cons, ih]
  | trans _ _ ih ih' => exact ih.trans ih'

/-! ## Seen inversions -/

/-- Every pair of the list that is in the wrong order for `R` is one the
comparison would exchange. -/
def Seen (gt : α → α → Bool) (R : α → α → Prop) (l : List α) : Prop :=
  l.Pairwise (fun a b => R b a → gt a b = true)

instance (R : α → α → Prop) [DecidableRel R] (l : List α) : Decidable (Seen gt R l) :=
  inferInstanceAs (Decidable (l.Pairwise (fun a b => R b a → gt a b = true)))

section Order

variable {R : α → α → Prop} (hsound : ∀ a b, gt a b = true → ¬ R a b)
  (hirrefl : ∀ a, ¬ R a a) (htrans : ∀ a b c, ¬ R b a → ¬ R c b → ¬ R c a)

include hsound in
/-- **Exchanges keep the unseen inversions**: there is one before if and only
if there is one after. -/
theorem Swaps.seen_iff {l l' : List α} (h : Swaps gt l l') : Seen gt R l ↔ Seen gt R l' := by
  induction h with
  | refl l => exact Iff.rfl
  | swap a b l hgt =>
      have hab := hsound a b hgt
      simp only [Seen, List.pairwise_cons, List.mem_cons, forall_eq_or_imp]
      constructor
      · rintro ⟨⟨-, ha⟩, hb, hl⟩
        exact ⟨⟨fun hR => absurd hR hab, hb⟩, ha, hl⟩
      · rintro ⟨⟨-, hb⟩, ha, hl⟩
        exact ⟨⟨fun _ => hgt, ha⟩, hb, hl⟩
  | cons a hswaps ih =>
      simp only [Seen, List.pairwise_cons] at ih ⊢
      rw [ih]
      refine and_congr_left (fun _ => forall_congr' (fun b => ?_))
      rw [hswaps.perm.mem_iff]
  | trans _ _ ih ih' => exact ih.trans ih'

/-- A list in order has no inversion at all. -/
theorem seen_of_pairwise {l : List α} (h : l.Pairwise (fun a b => ¬ R b a)) : Seen gt R l :=
  h.imp (fun hab hba => absurd hba hab)

include hsound hirrefl htrans in
/-- A pass over a list without unseen inversions carries an element that none has
to follow to the end. -/
theorem pass_last (x : α) (xs : List α) (hseen : Seen gt R (x :: xs)) :
    (∀ y ∈ (pass gt x xs).front, ¬ R (pass gt x xs).last y) ∧ ¬ R (pass gt x xs).last x := by
  induction xs generalizing x with
  | nil => simpa [pass] using hirrefl x
  | cons y ys ih =>
      have hsub_x : (x :: ys).Sublist (x :: y :: ys) := (List.sublist_cons_self y ys).cons_cons x
      have hsub_y : (y :: ys).Sublist (x :: y :: ys) := List.sublist_cons_self x (y :: ys)
      by_cases hgt : gt x y = true
      · simp only [pass_cons_of_gt hgt, List.mem_cons, forall_eq_or_imp]
        obtain ⟨hfront, hx⟩ := ih x (hseen.sublist hsub_x)
        exact ⟨⟨htrans _ _ _ (hsound x y hgt) hx, hfront⟩, hx⟩
      · simp only [pass_cons_of_not_gt hgt, List.mem_cons, forall_eq_or_imp]
        obtain ⟨hfront, hy⟩ := ih y (hseen.sublist hsub_y)
        have hxy : ¬ R y x := fun h => hgt (List.rel_of_pairwise_cons hseen (by simp) h)
        have hxlast := htrans _ _ _ hxy hy
        exact ⟨⟨hxlast, hfront⟩, hxlast⟩

include htrans in
/-- A pass that exchanges nothing has found the list in order. -/
theorem pass_not_swapped (x : α) (xs : List α) (hseen : Seen gt R (x :: xs))
    (h : (pass gt x xs).swapped = false) :
    (pass gt x xs).front ++ [(pass gt x xs).last] = x :: xs
      ∧ (x :: xs).Pairwise (fun a b => ¬ R b a) := by
  induction xs generalizing x with
  | nil => simp [pass]
  | cons y ys ih =>
      have hsub_y : (y :: ys).Sublist (x :: y :: ys) := List.sublist_cons_self x (y :: ys)
      by_cases hgt : gt x y = true
      · simp [pass_cons_of_gt hgt] at h
      · rw [pass_cons_of_not_gt hgt] at h ⊢
        obtain ⟨heq, hsorted⟩ := ih y (hseen.sublist hsub_y) h
        have hxy : ¬ R y x := fun h => hgt (List.rel_of_pairwise_cons hseen (by simp) h)
        refine ⟨by rw [List.cons_append, heq], List.pairwise_cons.mpr ⟨fun z hz => ?_, hsorted⟩⟩
        rcases List.mem_cons.mp hz with rfl | hz
        · exact hxy
        · exact htrans _ _ _ hxy (List.rel_of_pairwise_cons hsorted hz)

include hsound hirrefl htrans in
theorem sortLoop_pairwise (n : ℕ) (l : List α) (hn : l.length ≤ n) (hseen : Seen gt R l) :
    (sortLoop gt n l).Pairwise (fun a b => ¬ R b a) := by
  induction n generalizing l with
  | zero => simp [sortLoop, List.length_eq_zero_iff.mp (Nat.le_zero.mp hn)]
  | succ n ih =>
      cases l with
      | nil => simp [sortLoop]
      | cons x xs =>
          have hswaps : Swaps gt (x :: xs) _ := pass_swaps x xs
          have hsub : (pass gt x xs).front.Sublist
              ((pass gt x xs).front ++ [(pass gt x xs).last]) := List.sublist_append_left _ _
          simp only [sortLoop]
          split_ifs with hsw
          · rw [List.pairwise_append]
            have hseen' := (hswaps.seen_iff hsound).mp hseen
            refine ⟨ih _ ?_ (hseen'.sublist hsub), by simp, ?_⟩
            · rw [length_pass_front]
              simpa using hn
            · intro a ha b hb
              rw [List.mem_singleton.mp hb]
              exact (pass_last hsound hirrefl htrans x xs hseen).1 a
                ((sortLoop_swaps n _).perm.mem_iff.mpr ha)
          · obtain ⟨heq, hsorted⟩ := pass_not_swapped htrans x xs hseen (by simpa using hsw)
            rwa [heq]

include hsound hirrefl htrans in
/-- **What the sort achieves.** No inversion is left if and only if the comparison
sees every inversion of the input. -/
theorem sort_pairwise_iff (l : List α) :
    (sort gt l).Pairwise (fun a b => ¬ R b a) ↔ Seen gt R l := by
  constructor
  · intro h
    exact ((sort_swaps l).seen_iff hsound).mpr (seen_of_pairwise h)
  · intro h
    exact sortLoop_pairwise hsound hirrefl htrans _ l (Nat.le_refl _) h

end Order

/-! ## What comes first

`m` is an element that is never carried: the comparison asks for no exchange with it
on the left. -/

/-- A pass that meets `m` after elements that all go past it. -/
theorem pass_past {m : α} (post xs : List α) (x : α) (hgt : ∀ y ∈ x :: xs, gt y m = true) :
    ∃ front y, y ∈ x :: xs ∧ (∀ z ∈ front, z ∈ x :: xs)
      ∧ pass gt x (xs ++ m :: post)
        = ⟨front ++ m :: (pass gt y post).front, (pass gt y post).last, true⟩ := by
  induction xs generalizing x with
  | nil =>
      refine ⟨[], x, by simp, by simp, ?_⟩
      rw [List.nil_append, pass_cons_of_gt (hgt x (by simp)), List.nil_append]
  | cons z zs ih =>
      rw [List.forall_mem_cons, List.forall_mem_cons] at hgt
      by_cases hxz : gt x z = true
      · obtain ⟨front, y, hy, hfront, hpass⟩ := ih x (by simpa using ⟨hgt.1, hgt.2.2⟩)
        refine ⟨z :: front, y, by grind, by grind, ?_⟩
        rw [List.cons_append, pass_cons_of_gt hxz, hpass, List.cons_append]
      · obtain ⟨front, y, hy, hfront, hpass⟩ := ih z (by simpa using hgt.2)
        refine ⟨x :: front, y, by grind, by grind, ?_⟩
        rw [List.cons_append, pass_cons_of_not_gt hxz, hpass, List.cons_append]

/-- An element that nothing stops comes first: each pass carries one of those in front
of it past it. -/
theorem sortLoop_head {m : α} (n : ℕ) :
    ∀ pre post : List α, (pre ++ m :: post).length ≤ n → (∀ x ∈ pre, gt x m = true) →
      (∀ y ∈ pre ++ post, ¬ gt m y = true) →
      (sortLoop gt n (pre ++ m :: post)).head? = some m := by
  induction n with
  | zero => intro pre post hn; simp at hn
  | succ n ih =>
      intro pre post hn hpre hm
      cases pre with
      | nil =>
          cases post with
          | nil => simp [sortLoop, pass]
          | cons y ys =>
              -- at the head a pass leaves it where it is
              have hmem : ∀ z ∈ (pass gt y ys).front, z ∈ y :: ys := fun z hz =>
                (pass_swaps y ys).perm.symm.subset (List.mem_append_left _ hz)
              rw [List.nil_append, sortLoop, pass_cons_of_not_gt (hm y (by simp))]
              simp only
              split_ifs
              · have hhead := ih [] (pass gt y ys).front (by simpa [length_pass_front] using hn)
                  (by simp) (fun z hz => hm z (hmem z hz))
                rw [List.nil_append] at hhead
                rw [List.head?_append, hhead]
                rfl
              · simp
      | cons x xs =>
          -- one of those in front goes behind it
          obtain ⟨front, y, hy, hfront, hpass⟩ := pass_past post xs x hpre
          have hmem : ∀ z ∈ (pass gt y post).front, z ∈ y :: post := fun z hz =>
            (pass_swaps y post).perm.symm.subset (List.mem_append_left _ hz)
          have hlen : (pass gt x (xs ++ m :: post)).front.length = (xs ++ m :: post).length :=
            length_pass_front x _
          rw [hpass] at hlen
          rw [List.cons_append, sortLoop, hpass]
          simp only [if_true]
          rw [List.head?_append, ih front (pass gt y post).front ?_
            (fun z hz => hpre z (hfront z hz)) (fun z hz => hm z ?_)]
          · rfl
          · rw [hlen]
            simpa using hn
          · rcases List.mem_append.mp hz with hz | hz
            · exact List.mem_append_left _ (hfront z hz)
            · rcases List.mem_cons.mp (hmem z hz) with rfl | hz
              · exact List.mem_append_left _ hy
              · exact List.mem_append_right _ hz

/-- Exchanges bring nothing in front of `m`, and leave there what they never exchange
with it. -/
theorem Swaps.before {m : α} {l l' : List α} (h : Swaps gt l l') :
    ∀ pre post, l = pre ++ m :: post → (∀ y ∈ pre ++ post, ¬ gt m y = true) →
      ∃ pre' post', l' = pre' ++ m :: post' ∧ (∀ x ∈ pre, ¬ gt x m = true → x ∈ pre')
        ∧ (∀ x ∈ pre', x ∈ pre) ∧ ∀ y ∈ pre' ++ post', ¬ gt m y = true := by
  induction h with
  | refl l => exact fun pre post heq hm => ⟨pre, post, heq, fun x hx _ => hx, fun x hx => hx, hm⟩
  | swap a b l hgt =>
      intro pre post heq hm
      -- `m` is one of the two that change places, or comes after them
      rcases pre with - | ⟨x, - | ⟨y, pre⟩⟩
      · obtain ⟨rfl, rfl⟩ := List.cons.inj heq
        exact absurd hgt (hm b (by simp))
      · obtain ⟨rfl, rfl, rfl⟩ : a = x ∧ b = m ∧ l = post := by simpa using heq
        refine ⟨[], a :: l, rfl, ?_, by simp, by simpa using hm⟩
        intro z hz hblocked
        rw [List.mem_singleton.mp hz] at hblocked
        exact absurd hgt hblocked
      · obtain ⟨rfl, rfl, rfl⟩ : a = x ∧ b = y ∧ l = pre ++ m :: post := by simpa using heq
        exact ⟨b :: a :: pre, post, rfl, by grind, by grind, by grind⟩
  | cons a hswaps ih =>
      intro pre post heq hm
      cases pre with
      | nil =>
          obtain ⟨rfl, rfl⟩ := List.cons.inj heq
          refine ⟨[], _, rfl, by simp, by simp, fun y hy => hm y ?_⟩
          rw [List.nil_append] at hy ⊢
          exact hswaps.perm.symm.subset hy
      | cons x pre =>
          obtain ⟨rfl, rfl⟩ := List.cons.inj heq
          obtain ⟨pre', post', rfl, hkeeps, hsub, hm'⟩ := ih pre post rfl (by grind)
          exact ⟨a :: pre', post', rfl, by grind, by grind, by grind⟩
  | trans _ _ ih ih' =>
      intro pre post heq hm
      obtain ⟨pre₁, post₁, heq₁, hkeeps₁, hsub₁, hm₁⟩ := ih pre post heq hm
      obtain ⟨pre₂, post₂, heq₂, hkeeps₂, hsub₂, hm₂⟩ := ih' pre₁ post₁ heq₁ hm₁
      exact ⟨pre₂, post₂, heq₂, fun x hx hblocked => hkeeps₂ x (hkeeps₁ x hx hblocked) hblocked,
        fun x hx => hsub₁ x (hsub₂ x hx), hm₂⟩

/-- **What the sort puts first.** An element that is never carried comes first if every
element in front of it goes past it; otherwise one of those comes first. -/
theorem sort_head {m : α} {pre post : List α} (hm : ∀ y ∈ pre ++ post, ¬ gt m y = true) :
    (∀ x ∈ pre, gt x m = true) ∧ (sort gt (pre ++ m :: post)).head? = some m
      ∨ (∃ x ∈ pre, ¬ gt x m = true) ∧ ∃ x ∈ pre, (sort gt (pre ++ m :: post)).head? = some x := by
  by_cases hpre : ∀ x ∈ pre, gt x m = true
  · exact Or.inl ⟨hpre, sortLoop_head _ pre post (Nat.le_refl _) hpre hm⟩
  · push Not at hpre
    obtain ⟨x, hx, hblocked⟩ := hpre
    have hswaps : Swaps gt (pre ++ m :: post) (sort gt (pre ++ m :: post)) := sort_swaps _
    obtain ⟨pre', post', hsort, hkeeps, hsub, -⟩ := hswaps.before pre post rfl hm
    have hx' : x ∈ pre' := hkeeps x hx hblocked
    obtain ⟨y, ys, rfl⟩ := List.exists_cons_of_ne_nil (List.ne_nil_of_mem hx')
    exact Or.inr ⟨⟨x, hx, hblocked⟩, y, hsub y (by simp), by rw [hsort]; rfl⟩

end PkgPlugins.BubbleSort
