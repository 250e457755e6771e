/-
Doubly linked chains.

The links of a chain are kept by field: a map from the address of a node to what
its `next` holds, and one for its `prev`. A node may then be in several chains at
once, one for each pair of fields, and a write to a field of one pair has nothing
to do with the chains of another.

A chain is described by the list of its addresses. The three writes that keep one
are `prepend`, `append` and `remove`.
-/
import Mathlib.Data.List.Induction
import Mathlib.Data.List.Nodup
import Mathlib.Logic.Function.Basic
import Mathlib.Tactic.Common

set_option autoImplicit false

namespace PkgPlugins.Links

/-- A pointer to a node; `none` is `NULL`. -/
abbrev Ptr := Option ℕ

/-! ## The ends of a chain -/

/-- The first address of a chain that goes on with `n`. -/
def first : List ℕ → Ptr → Ptr
  | [], n => n
  | a :: _, _ => some a

/-- The last address of a chain that starts after `p`. -/
def last : Ptr → List ℕ → Ptr
  | p, [] => p
  | _, a :: as => last (some a) as

@[simp] theorem first_nil (n : Ptr) : first [] n = n := rfl

@[simp] theorem first_cons (a : ℕ) (as : List ℕ) (n : Ptr) : first (a :: as) n = some a := rfl

@[simp] theorem last_nil (p : Ptr) : last p [] = p := rfl

@[simp] theorem last_cons (p : Ptr) (a : ℕ) (as : List ℕ) :
    last p (a :: as) = last (some a) as := rfl

theorem first_append (as bs : List ℕ) (n : Ptr) : first (as ++ bs) n = first as (first bs n) := by
  cases as <;> simp

theorem last_append (as bs : List ℕ) : ∀ p : Ptr, last p (as ++ bs) = last (last p as) bs := by
  induction as with
  | nil => simp
  | cons a as ih => intro p; simp [ih]

theorem first_mem {as : List ℕ} {a : ℕ} (h : first as none = some a) : a ∈ as := by
  cases as with
  | nil => exact absurd h (by simp)
  | cons b bs =>
      rw [first_cons, Option.some.injEq] at h
      exact h ▸ List.mem_cons_self

theorem last_mem {as : List ℕ} {a : ℕ} (h : last none as = some a) : a ∈ as := by
  rcases List.eq_nil_or_concat' as with rfl | ⟨bs, b, rfl⟩
  · exact absurd h (by simp)
  · rw [last_append, last_cons, last_nil, Option.some.injEq] at h
    simp [h]

theorem last_eq_none_iff {as : List ℕ} : last none as = none ↔ as = [] := by
  rcases List.eq_nil_or_concat' as with rfl | ⟨bs, b, rfl⟩
  · simp
  · simp [last_append]

theorem first_eq_none_iff {as : List ℕ} : first as none = none ↔ as = [] := by
  cases as <;> simp

/-! ## Chains -/

/-- The nodes are chained both ways, the first one after `p` and the last one
before `n`. -/
def Chain (next prev : ℕ → Ptr) : Ptr → List ℕ → Ptr → Prop
  | _, [], _ => True
  | p, a :: as, n => next a = first as n ∧ prev a = p ∧ Chain next prev (some a) as n

variable {next prev : ℕ → Ptr}

@[simp] theorem chain_nil (p n : Ptr) : Chain next prev p [] n := trivial

@[simp] theorem chain_cons (p n : Ptr) (a : ℕ) (as : List ℕ) :
    Chain next prev p (a :: as) n
      ↔ next a = first as n ∧ prev a = p ∧ Chain next prev (some a) as n := Iff.rfl

theorem chain_append (n : Ptr) (as bs : List ℕ) : ∀ p : Ptr,
    Chain next prev p (as ++ bs) n
      ↔ Chain next prev p as (first bs n) ∧ Chain next prev (last p as) bs n := by
  induction as with
  | nil => simp
  | cons a as ih => intro p; simp [ih, first_append, and_assoc]

/-- A chain is what the fields of its nodes are. -/
theorem Chain.congr {next' prev' : ℕ → Ptr} {n : Ptr} {as : List ℕ} : ∀ {p : Ptr},
    Chain next prev p as n → (∀ a ∈ as, next' a = next a) → (∀ a ∈ as, prev' a = prev a) →
      Chain next' prev' p as n := by
  induction as with
  | nil => intro p _ _ _; exact trivial
  | cons a as ih =>
      intro p h hnext hprev
      rw [List.forall_mem_cons] at hnext hprev
      exact ⟨hnext.1.trans h.1, hprev.1.trans h.2.1, ih h.2.2 hnext.2 hprev.2⟩

/-- The fields of a node of a chain. -/
theorem Chain.fields {p n : Ptr} {pre post : List ℕ} {a : ℕ}
    (h : Chain next prev p (pre ++ a :: post) n) :
    next a = first post n ∧ prev a = last p pre := by
  rw [chain_append, chain_cons] at h
  exact ⟨h.2.1, h.2.2.1⟩

/-- The first address once one is taken out. -/
theorem first_remove (pre post : List ℕ) (a : ℕ) :
    (if last none pre = none then first post none else first (pre ++ a :: post) none)
      = first (pre ++ post) none := by
  by_cases hpre : pre = []
  · rw [hpre, if_pos (last_nil none), List.nil_append]
  · rw [if_neg fun h => hpre (last_eq_none_iff.mp h)]
    obtain ⟨b, pre, rfl⟩ := List.exists_cons_of_ne_nil hpre
    rfl

theorem last_remove (pre post : List ℕ) (a : ℕ) :
    (if first post none = none then last none pre else last none (pre ++ a :: post))
      = last none (pre ++ post) := by
  by_cases hpost : post = []
  · rw [hpost, if_pos (first_nil none), List.append_nil]
  · rw [if_neg fun h => hpost (first_eq_none_iff.mp h), last_append, last_append]
    obtain ⟨b, post, rfl⟩ := List.exists_cons_of_ne_nil hpost
    rfl

/-- What a loop along `next` passes through. -/
def Path (next : ℕ → Ptr) : List ℕ → Prop
  | [] => True
  | a :: as => next a = first as none ∧ Path next as

theorem Chain.path {as : List ℕ} : ∀ {p : Ptr}, Chain next prev p as none → Path next as := by
  induction as with
  | nil => intro p _; exact trivial
  | cons a as ih => intro p h; exact ⟨h.1, ih h.2.2⟩

/-- A loop has one path. -/
theorem Path.unique {as : List ℕ} : ∀ {bs : List ℕ}, Path next as → Path next bs →
    first as none = first bs none → as = bs := by
  induction as with
  | nil =>
      intro bs _ _ h
      rw [first_nil, eq_comm, first_eq_none_iff] at h
      exact h.symm
  | cons a as ih =>
      intro bs has hbs h
      cases bs with
      | nil => exact absurd h (by simp)
      | cons b bs =>
          rw [first_cons, first_cons, Option.some.injEq] at h
          subst h
          rw [ih has.2 hbs.2 (has.1.symm.trans hbs.1)]

theorem last_eq_first_reverse (as : List ℕ) : last none as = first as.reverse none := by
  rcases List.eq_nil_or_concat' as with rfl | ⟨bs, b, rfl⟩
  · rfl
  · rw [last_append, List.reverse_append]
    rfl

/-- A chain is passed through backwards along `prev`. -/
theorem Chain.path_reverse (as : List ℕ) : ∀ {n : Ptr}, Chain next prev none as n →
    Path prev as.reverse := by
  induction as using List.reverseRecOn with
  | nil => intro n _; exact trivial
  | append_singleton as a ih =>
      intro n h
      rw [chain_append] at h
      rw [List.reverse_append]
      refine ⟨?_, ih h.1⟩
      rw [h.2.2.1, last_eq_first_reverse]
      rfl

/-- `if (NULL != p) p->f = v;` -/
def write (field : ℕ → Ptr) (p v : Ptr) : ℕ → Ptr :=
  match p with
  | none => field
  | some a => Function.update field a v

@[simp] theorem write_none (field : ℕ → Ptr) (v : Ptr) : write field none v = field := rfl

@[simp] theorem write_some (field : ℕ → Ptr) (a : ℕ) (v : Ptr) :
    write field (some a) v = Function.update field a v := rfl

/-- A node that gets what it holds. -/
theorem write_same (field : ℕ → Ptr) (p : Ptr) (a : ℕ) : write field p (field a) a = field a := by
  cases p with
  | none => rfl
  | some b =>
      rw [write_some]
      by_cases h : a = b
      · rw [h, Function.update_self]
      · rw [Function.update_of_ne h]

/-- A write to another node. -/
theorem write_of_ne {field : ℕ → Ptr} {p v : Ptr} {a : ℕ} (h : p ≠ some a) :
    write field p v a = field a := by
  cases p with
  | none => rfl
  | some b =>
      rw [write_some, Function.update_of_ne]
      rintro rfl
      exact h rfl

/-- A write to a field of the first node that is not read along the chain. -/
theorem Chain.write_prev {n : Ptr} {as : List ℕ} (hnodup : as.Nodup) {p : Ptr} (p' : Ptr)
    (h : Chain next prev p as n) : Chain next (write prev (first as none) p') p' as n := by
  cases as with
  | nil => exact trivial
  | cons a as =>
      rw [List.nodup_cons] at hnodup
      refine ⟨h.1, by simp, h.2.2.congr (fun _ _ => rfl) fun b hb => ?_⟩
      rw [first_cons, write_of_ne]
      rintro ⟨⟩
      exact hnodup.1 hb

theorem Chain.write_next {n : Ptr} {as : List ℕ} (hnodup : as.Nodup) (n' : Ptr)
    (h : Chain next prev none as n) : Chain (write next (last none as) n') prev none as n' := by
  rcases List.eq_nil_or_concat' as with rfl | ⟨bs, b, rfl⟩
  · exact trivial
  · rw [List.nodup_append] at hnodup
    rw [chain_append] at h ⊢
    rw [last_append, last_cons, last_nil]
    refine ⟨h.1.congr (fun a ha => ?_) fun _ _ => rfl, by simp, h.2.2.1, trivial⟩
    rw [write_of_ne]
    exact fun heq => hnodup.2.2 a ha b List.mem_cons_self (Option.some.inj heq).symm

/-- A new node in front of a chain. -/
theorem Chain.prepend {as : List ℕ} (h : Chain next prev none as none) {a : ℕ}
    (hnodup : (a :: as).Nodup) :
    Chain (Function.update next a (first as none))
      (write (Function.update prev a none) (first as none) (some a)) none (a :: as) none := by
  rw [List.nodup_cons] at hnodup
  have hframe : Chain (Function.update next a (first as none)) (Function.update prev a none) none
      as none := by
    refine h.congr (fun b hb => ?_) fun b hb => ?_
    all_goals
      rw [Function.update_of_ne]
      rintro rfl
      exact hnodup.1 hb
  refine ⟨by simp, ?_, hframe.write_prev hnodup.2 (some a)⟩
  rw [write_of_ne, Function.update_self]
  exact fun heq => hnodup.1 (first_mem heq)

/-- A new node at the end of a chain. -/
theorem Chain.append {as : List ℕ} (h : Chain next prev none as none) {a : ℕ}
    (hnodup : (as ++ [a]).Nodup) :
    Chain (write (Function.update next a none) (last none as) (some a))
      (Function.update prev a (last none as)) none (as ++ [a]) none := by
  rw [List.nodup_append] at hnodup
  have hnotMem : a ∉ as := fun hmem => hnodup.2.2 a hmem a List.mem_cons_self rfl
  have hframe : Chain (Function.update next a none) (Function.update prev a (last none as)) none
      as none := by
    refine h.congr (fun b hb => ?_) fun b hb => ?_
    all_goals
      rw [Function.update_of_ne]
      rintro rfl
      exact hnotMem hb
  rw [chain_append]
  refine ⟨hframe.write_next hnodup.1 (some a), ?_, by simp, trivial⟩
  rw [write_of_ne]
  · simp
  · exact fun heq => hnotMem (last_mem heq)

/-- A node is taken out of a chain. -/
theorem Chain.remove {pre post : List ℕ} {a : ℕ}
    (h : Chain next prev none (pre ++ a :: post) none) (hnodup : (pre ++ a :: post).Nodup) :
    Chain (write next (last none pre) (first post none))
      (write prev (first post none) (last none pre)) none (pre ++ post) none := by
  rw [List.nodup_append, List.nodup_cons] at hnodup
  obtain ⟨hpre, ⟨-, hpost⟩, hsep⟩ := hnodup
  rw [chain_append, chain_cons] at h
  rw [chain_append]
  constructor
  · -- the part before: only the `next` of its last node changes
    refine (h.1.write_next hpre (first post none)).congr (fun _ _ => rfl) fun b hb => ?_
    rw [write_of_ne]
    exact fun heq => hsep b hb b (List.mem_cons_of_mem a (first_mem heq)) rfl
  · refine (h.2.2.2.write_prev hpost (last none pre)).congr (fun b hb => ?_) fun _ _ => rfl
    rw [write_of_ne]
    exact fun heq => hsep b (last_mem heq) b (List.mem_cons_of_mem a hb) rfl

end PkgPlugins.Links
