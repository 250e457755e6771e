/-
Handles that are opened and closed.

A ledger gives out the numbers of handles and knows which are open. To use one that isn't
open, or to close it, is a fault, so that a run without a fault uses none that was closed and
closes none twice; what is open after a run is what it leaks. `Open` says which handles are
open, as a multiset: what the parts of a program own is put together and taken apart with `+`.

`Runs` is about a run that may stop: what holds if it ends, and why it may stop; `Follows` about
two that end alike. The steps of `until_fails` lose handles if one of those that are reached
does.
-/
import Mathlib.Algebra.Order.Group.Multiset
import PkgPlugins.WriteOnce

set_option autoImplicit false

namespace PkgPlugins.Handles

open PkgPlugins.WriteOnce (until_fails until_fails_cons)

/-! ## The ledger -/

structure Ledger where
  next : ℕ
  opened : List ℕ
deriving DecidableEq

def Ledger.empty : Ledger := ⟨0, []⟩

/-- The number of a new handle is `next`. -/
def Ledger.acquire (hs : Ledger) : Ledger := ⟨hs.next + 1, hs.next :: hs.opened⟩

def Ledger.release (hs : Ledger) (h : ℕ) : Option Ledger :=
  if h ∈ hs.opened then some ⟨hs.next, hs.opened.erase h⟩ else none

/-- The handles that are open. Those to come are new ones. -/
structure Open (hs : Ledger) (ms : Multiset ℕ) : Prop where
  opened : (hs.opened : Multiset ℕ) = ms
  once : hs.opened.Nodup
  old : ∀ h ∈ hs.opened, h < hs.next

variable {hs : Ledger} {ms ms' : Multiset ℕ} {h : ℕ}

theorem Open.empty : Open Ledger.empty 0 :=
  ⟨rfl, List.nodup_nil, fun _ hmem => absurd hmem List.not_mem_nil⟩

theorem Open.congr (ho : Open hs ms) (heq : ms = ms') : Open hs ms' := heq ▸ ho

theorem Open.mem_iff (ho : Open hs ms) : h ∈ hs.opened ↔ h ∈ ms := by
  rw [← ho.opened, Multiset.mem_coe]

theorem Open.acquire (ho : Open hs ms) : Open hs.acquire (hs.next ::ₘ ms) := by
  refine ⟨?_, ?_, fun h hmem => ?_⟩
  · rw [← ho.opened]
    exact (Multiset.cons_coe _ _).symm
  · apply List.nodup_cons.mpr
    exact ⟨fun hmem => Nat.lt_irrefl _ (ho.old _ hmem), ho.once⟩
  · show h < hs.next + 1
    rcases List.mem_cons.mp hmem with rfl | hmem
    · omega
    · have hlt := ho.old h hmem
      omega

theorem Open.release (ho : Open hs (h ::ₘ ms)) :
    ∃ hs', hs.release h = some hs' ∧ Open hs' ms := by
  have hmem : h ∈ hs.opened := ho.mem_iff.mpr (Multiset.mem_cons_self h ms)
  refine ⟨⟨hs.next, hs.opened.erase h⟩, if_pos hmem, ?_, ho.once.erase h, fun x hx => ?_⟩
  · rw [← Multiset.coe_erase, ho.opened, Multiset.erase_cons_head]
  · exact ho.old x (List.mem_of_mem_erase hx)

theorem nothing_lost_iff (lost lost' : Multiset ℕ) : lost + lost' = 0 ↔ lost = 0 ∧ lost' = 0 := by
  rw [← Multiset.card_eq_zero, Multiset.card_add, Nat.add_eq_zero_iff, Multiset.card_eq_zero,
    Multiset.card_eq_zero]

/-! ## Runs that may stop -/

variable {ε α β : Type}

/-- The run ends in `Q`, or stops for a reason that is allowed. -/
def Runs (allowed : ε → Prop) (x : Except ε α) (Q : α → Prop) : Prop :=
  match x with
  | .ok a => Q a
  | .error e => allowed e

variable {allowed : ε → Prop} {x : Except ε α} {Q Q' : α → Prop}

theorem Runs.bind {f : α → Except ε β} {R : β → Prop} (hx : Runs allowed x Q)
    (hf : ∀ a, Q a → Runs allowed (f a) R) : Runs allowed (x >>= f) R := by
  cases x with
  | error e => exact hx
  | ok a => exact hf a hx

theorem Runs.map {f : α → β} {R : β → Prop} (hx : Runs allowed x fun a => R (f a)) :
    Runs allowed (x.map f) R := by
  cases x with
  | error e => exact hx
  | ok a => exact hx

theorem Runs.imp (hx : Runs allowed x Q) (h : ∀ a, Q a → Q' a) : Runs allowed x Q' := by
  cases x with
  | error e => exact hx
  | ok a => exact h a hx

/-! ## A run that another one follows -/

section Follows

variable {φ S T A B : Type}

/-- If the run ends, so does the other one, with a result that goes with its own. -/
def Follows (R : α → β → Prop) (x : Except ε α) (y : Except φ β) : Prop :=
  ∀ a, x = .ok a → ∃ b, y = .ok b ∧ R a b

theorem Follows.error (R : α → β → Prop) (e : ε) (y : Except φ β) : Follows R (.error e) y :=
  fun _ h => absurd h (by simp)

theorem Follows.ok {R : α → β → Prop} {a : α} {b : β} (h : R a b) :
    Follows R (.ok a : Except ε α) (.ok b : Except φ β) := by
  intro a' heq
  cases heq
  exact ⟨b, rfl, h⟩

theorem Follows.bind {α' β' : Type} {R : α → β → Prop} {R' : α' → β' → Prop} {x : Except ε α}
    {y : Except φ β} {f : α → Except ε α'} {g : β → Except φ β'} (hxy : Follows R x y)
    (hfg : ∀ a b, R a b → Follows R' (f a) (g b)) : Follows R' (x >>= f) (y >>= g) := by
  intro a' h
  cases x with
  | error e => cases h
  | ok a =>
      obtain ⟨b, rfl, hab⟩ := hxy a rfl
      exact hfg a b hab a' h

/-- States that go together, and the same status. -/
def Alongside (R : S → T → Prop) (r : S × Bool) (q : T × Bool) : Prop := R r.1 q.1 ∧ r.2 = q.2

/-- **The rule for a loop** that another one follows step by step. -/
theorem until_fails_follows {R : S → T → Prop} {P : A → B → Prop}
    {step : S → A → Except ε (S × Bool)} {step' : T → B → Except φ (T × Bool)} {as : List A}
    {bs : List B} (has : List.Forall₂ P as bs)
    (hstep : ∀ a b s t, P a b → R s t → Follows (Alongside R) (step s a) (step' t b)) :
    ∀ s t, R s t → Follows (Alongside R) (until_fails step s as) (until_fails step' t bs) := by
  induction has with
  | nil => exact fun s t h => Follows.ok ⟨h, rfl⟩
  | cons hab _ ih =>
      intro s t h
      rw [until_fails_cons, until_fails_cons]
      refine (hstep _ _ s t hab h).bind fun r q hrq => ?_
      rw [← hrq.2]
      split_ifs
      · exact ih r.1 q.1 hrq.1
      · exact Follows.ok ⟨hrq.1, rfl⟩

end Follows

/-! ## Steps that lose handles -/

section Steps

variable {S A : Type} (step : S → A → Except ε (S × Bool)) (bad : S → A → Prop)

/-- One of the steps that are reached is bad. -/
def Along (s : S) (as : List A) : Prop :=
  ∃ pre a post s', as = pre ++ a :: post ∧ until_fails step s pre = .ok (s', true) ∧ bad s' a

variable {step bad}

theorem not_along_nil (s : S) : ¬ Along step bad s [] := by
  rintro ⟨pre, a, post, -, heq, -⟩
  exact absurd heq.symm (by simp)

theorem along_cons {s : S} {a : A} {as : List A} :
    Along step bad s (a :: as)
      ↔ bad s a ∨ ∃ s', step s a = .ok (s', true) ∧ Along step bad s' as := by
  constructor
  · rintro ⟨pre, b, post, s', heq, hpre, hbad⟩
    cases pre with
    | nil =>
        obtain ⟨rfl, rfl⟩ := List.cons.inj heq
        cases hpre
        exact Or.inl hbad
    | cons a' pre =>
        obtain ⟨rfl, rfl⟩ := List.cons.inj heq
        rw [until_fails_cons] at hpre
        cases hstep : step s a with
        | error e =>
            rw [hstep] at hpre
            cases hpre
        | ok r =>
            obtain ⟨s₁, ok⟩ := r
            rw [hstep] at hpre
            cases ok with
            | false => cases hpre
            | true => exact Or.inr ⟨s₁, rfl, pre, b, post, s', rfl, hpre, hbad⟩
  · rintro (hbad | ⟨s₁, hstep, pre, b, post, s', rfl, hpre, hbad⟩)
    · exact ⟨[], a, as, s, rfl, rfl, hbad⟩
    · refine ⟨a :: pre, b, post, s', rfl, ?_, hbad⟩
      rw [until_fails_cons, hstep]
      exact hpre

variable (ledger : S → Ledger) (owned : S → Multiset ℕ)

/-- After the steps, what they lost is open besides what is owned: nothing, if none of those
that are reached is bad. -/
def Loses (ms : Multiset ℕ) (bad : Prop) (s : S) : Prop :=
  ∃ lost, Open (ledger s) (lost + owned s + ms) ∧ (lost = 0 ↔ ¬ bad)

variable {ledger owned}

theorem Loses.congr {bad bad' : Prop} {s : S} (h : Loses ledger owned ms bad s)
    (hiff : bad ↔ bad') : Loses ledger owned ms bad' s := by
  rwa [← propext hiff]

/-- **The rule for a loop**: what one step loses is what all of them lose. -/
theorem until_fails_loses (as : List A)
    (hstep : ∀ a ∈ as, ∀ s ms, Open (ledger s) (owned s + ms) →
      Runs allowed (step s a) fun r => Loses ledger owned ms (bad s a) r.1) :
    ∀ (s : S) (ms : Multiset ℕ), Open (ledger s) (owned s + ms) →
      Runs allowed (until_fails step s as) fun r =>
        Loses ledger owned ms (Along step bad s as) r.1 := by
  induction as with
  | nil =>
      intro s ms ho
      refine ⟨0, ho.congr (by rw [zero_add]), ?_⟩
      exact iff_of_true rfl (not_along_nil s)
  | cons a as ih =>
      intro s ms ho
      rw [List.forall_mem_cons] at hstep
      rw [until_fails_cons]
      have hone := hstep.1 s ms ho
      cases hrun : step s a with
      | error e =>
          rw [hrun] at hone
          exact hone
      | ok r =>
          obtain ⟨s', ok⟩ := r
          rw [hrun] at hone
          obtain ⟨lost, ho', hlost⟩ := hone
          cases ok with
          | false =>
              refine ⟨lost, ho', ?_⟩
              rw [hlost, along_cons, hrun]
              simp
          | true =>
              have heq : lost + owned s' + ms = owned s' + (lost + ms) := by
                rw [add_comm lost, add_assoc]
              refine (ih hstep.2 s' (lost + ms) (ho'.congr heq)).imp fun r hr => ?_
              obtain ⟨lost', ho'', hlost'⟩ := hr
              refine ⟨lost' + lost, ho''.congr ?_, ?_⟩
              · simp only [add_assoc, add_left_comm]
              · rw [nothing_lost_iff, hlost, hlost', along_cons, hrun]
                simp [and_comm]

end Steps

end PkgPlugins.Handles
