/-
Computations that report through a variable that is to be written once.

A computation is given a place to write to: nowhere, or a variable, empty or written
to before. `put` writes to it; a second write stops the run (`Fault.overwritten`).
`Overwrites` says that a run stops so. `Reports` is a computation that writes once if
it fails and never else, `Once` one that from an empty variable writes once at most,
and only if it fails. `Erases` says that the writes are no matter of the rest.
-/
import Mathlib.Data.Option.Basic

set_option autoImplicit false

namespace PkgPlugins.WriteOnce

variable {μ φ α β σ ι : Type}

/-- What stops a run: a second write, or something else. -/
inductive Fault (μ φ : Type)
  | overwritten (previous : μ)
  | other (fault : φ)
deriving DecidableEq

/-- Where to write to: nowhere, or a variable. -/
abbrev Cell (μ : Type) := Option (Option μ)

abbrev Writing (μ φ α : Type) := StateT (Cell μ) (Except (Fault μ φ)) α

def put (message : μ) : Writing μ φ Unit
  | none => .ok ((), none)
  | some none => .ok ((), some (some message))
  | some (some previous) => .error (.overwritten previous)

/-- A computation that doesn't write. -/
def lift (x : Except φ α) : Writing μ φ α := fun c =>
  match x with
  | .ok a => .ok (a, c)
  | .error fault => .error (.other fault)

/-- A computation that is given nowhere to write. -/
def detached (x : Writing μ φ α) : Writing μ φ α := fun c =>
  match x none with
  | .ok (a, _) => .ok (a, c)
  | .error fault => .error fault

/-- Steps one after the other, until one fails. -/
def until_fails {m : Type → Type} [Monad m] (step : σ → ι → m (σ × Bool)) :
    σ → List ι → m (σ × Bool)
  | st, [] => pure (st, true)
  | st, i :: is => do
      let (st, ok) ← step st i
      if ok then until_fails step st is else pure (st, false)

theorem until_fails_cons {m : Type → Type} [Monad m] (step : σ → ι → m (σ × Bool)) (st : σ) (i : ι)
    (is : List ι) : until_fails step st (i :: is)
      = step st i >>= fun r => if r.2 then until_fails step r.1 is else pure (r.1, false) := rfl

theorem until_fails_singleton {m : Type → Type} [Monad m] [LawfulMonad m]
    (step : σ → ι → m (σ × Bool)) (st : σ) (i : ι) : until_fails step st [i] = step st i := by
  rw [until_fails_cons]
  have hpair : (fun r : σ × Bool => if r.2 then until_fails step r.1 [] else pure (r.1, false))
      = (pure : σ × Bool → m (σ × Bool)) := by
    funext r
    obtain ⟨st', ok⟩ := r
    cases ok <;> rfl
  rw [hpair, bind_pure]

theorem until_fails_append {m : Type → Type} [Monad m] [LawfulMonad m]
    (step : σ → ι → m (σ × Bool)) (is js : List ι) : ∀ st : σ,
    until_fails step st (is ++ js)
      = until_fails step st is >>= fun r =>
        if r.2 then until_fails step r.1 js else pure (r.1, false) := by
  induction is with
  | nil => intro st; rw [List.nil_append, until_fails, pure_bind, if_pos rfl]
  | cons i is ih =>
      intro st
      rw [List.cons_append, until_fails_cons, until_fails_cons, bind_assoc]
      refine bind_congr fun r => ?_
      obtain ⟨st', ok⟩ := r
      cases ok with
      | false => simp
      | true => simpa using ih st'

/-! ## Runs -/

theorem run_pure (a : α) (c : Cell μ) : (pure a : Writing μ φ α) c = .ok (a, c) := rfl

theorem run_bind_ok {x : Writing μ φ α} {f : α → Writing μ φ β} {c c' : Cell μ} {a : α}
    (h : x c = .ok (a, c')) : (x >>= f) c = f a c' := by
  change (x c >>= fun r => f r.1 r.2) = f a c'
  rw [h]
  rfl

theorem run_bind_error {x : Writing μ φ α} {f : α → Writing μ φ β} {c : Cell μ}
    {fault : Fault μ φ} (h : x c = .error fault) : (x >>= f) c = .error fault := by
  change (x c >>= fun r => f r.1 r.2) = .error fault
  rw [h]
  rfl

@[simp] theorem lift_ok (a : α) : (lift (.ok a) : Writing μ φ α) = pure a := rfl

theorem lift_bind (x : Except φ α) (f : α → Except φ β) :
    (lift (x >>= f) : Writing μ φ β) = lift x >>= fun a => lift (f a) := by
  cases x <;> rfl

/-- The run stops at a second write. -/
def Overwrites (x : Writing μ φ α) (c : Cell μ) : Prop :=
  ∃ previous, x c = .error (.overwritten previous)

instance (x : Writing μ φ α) (c : Cell μ) : Decidable (Overwrites x c) :=
  match h : x c with
  | .ok _ => isFalse fun hx => by
      obtain ⟨_, hx⟩ := hx
      rw [h] at hx
      exact absurd hx (by simp)
  | .error (.overwritten previous) => isTrue ⟨previous, h⟩
  | .error (.other _) => isFalse fun hx => by
      obtain ⟨_, hx⟩ := hx
      rw [h] at hx
      exact absurd hx (by simp)

theorem not_overwrites_of_ok {x : Writing μ φ α} {c c' : Cell μ} {a : α} (h : x c = .ok (a, c')) :
    ¬ Overwrites x c := by
  rintro ⟨previous, hx⟩
  rw [h] at hx
  exact absurd hx (by simp)

theorem not_overwrites_of_other {x : Writing μ φ α} {c : Cell μ} {fault : φ}
    (h : x c = .error (.other fault)) : ¬ Overwrites x c := by
  rintro ⟨previous, hx⟩
  rw [h] at hx
  exact absurd hx (by simp)

theorem not_overwrites_pure (a : α) (c : Cell μ) : ¬ Overwrites (pure a : Writing μ φ α) c :=
  not_overwrites_of_ok rfl

/-- A second write is in the first part of a run, or in the rest. -/
theorem overwrites_bind {x : Writing μ φ α} {f : α → Writing μ φ β} {c : Cell μ} :
    Overwrites (x >>= f) c
      ↔ Overwrites x c ∨ ∃ a c', x c = .ok (a, c') ∧ Overwrites (f a) c' := by
  cases h : x c with
  | error fault =>
      simp only [Overwrites, run_bind_error h, h, Except.error.injEq, reduceCtorEq, false_and,
        exists_false, or_false]
  | ok r =>
      obtain ⟨a, c'⟩ := r
      have hnot : ¬ Overwrites x c := not_overwrites_of_ok h
      rw [or_iff_right hnot]
      constructor
      · rintro ⟨previous, hrun⟩
        rw [run_bind_ok h] at hrun
        exact ⟨a, c', rfl, previous, hrun⟩
      · rintro ⟨b, c'', heq, previous, hrun⟩
        rw [Except.ok.injEq, Prod.mk.injEq] at heq
        obtain ⟨rfl, rfl⟩ := heq
        exact ⟨previous, by rw [run_bind_ok h, hrun]⟩

theorem overwrites_bind_of_ok {x : Writing μ φ α} {f : α → Writing μ φ β} {c c' : Cell μ} {a : α}
    (h : x c = .ok (a, c')) : Overwrites (x >>= f) c ↔ Overwrites (f a) c' := by
  unfold Overwrites
  rw [run_bind_ok h]

/-! ## Reporting a failure -/

/-- The computation gives a result, and writes once if it fails and never else. -/
def Reports (x : Writing μ φ α) (a : α) (failed : Bool) : Prop :=
  if failed then ∃ message, x = (do put message; pure a) else x = pure a

theorem Reports.pure (a : α) : Reports (pure a : Writing μ φ α) a false := rfl

theorem Reports.put (message : μ) (a : α) :
    Reports (do put message; Pure.pure a : Writing μ φ α) a true := ⟨message, rfl⟩

theorem Reports.eq {x : Writing μ φ α} {a : α} (h : Reports x a false) : x = Pure.pure a := h

/-- What succeeds is no matter of what comes after it. -/
theorem Reports.bind_eq {x : Writing μ φ α} {a : α} (h : Reports x a false)
    (f : α → Writing μ φ β) : (x >>= f) = f a := by
  rw [h.eq, pure_bind]

/-- After a failure nothing more is written. -/
theorem Reports.bind_fails {x : Writing μ φ α} {a : α} (h : Reports x a true)
    {f : α → Writing μ φ β} {b : β} (hf : f a = Pure.pure b) : Reports (x >>= f) b true := by
  obtain ⟨message, rfl⟩ := h
  refine ⟨message, ?_⟩
  rw [bind_assoc]
  simp only [pure_bind, hf]

theorem Reports.map {x : Writing μ φ α} {a : α} {failed : Bool} (h : Reports x a failed)
    {f : α → Writing μ φ β} {b : β} (hf : f a = Pure.pure b) : Reports (x >>= f) b failed := by
  cases failed with
  | false => rw [h.bind_eq, hf]; exact Reports.pure b
  | true => exact h.bind_fails hf

/-- A failure that is reported to a variable that was written to. -/
theorem Reports.overwrites {x : Writing μ φ α} {a : α} (h : Reports x a true) (previous : μ) :
    Overwrites x (some (some previous)) := by
  obtain ⟨message, rfl⟩ := h
  exact ⟨previous, rfl⟩

/-- A failure that is reported to an empty variable. -/
theorem Reports.writes {x : Writing μ φ α} {a : α} (h : Reports x a true) :
    ∃ message, x (some none) = .ok (a, some (some message)) := by
  obtain ⟨message, rfl⟩ := h
  exact ⟨message, rfl⟩

/-- One message is never too many. -/
theorem Reports.not_overwrites {x : Writing μ φ α} {a : α} {failed : Bool}
    (h : Reports x a failed) : ¬ Overwrites x (some none) := by
  cases failed with
  | false => rw [h.eq]; exact not_overwrites_pure a _
  | true =>
      obtain ⟨message, hrun⟩ := h.writes
      exact not_overwrites_of_ok hrun

/-- Steps each of which reports its failure: the run reports that of the last one. -/
theorem Reports.until_fails {step : σ → ι → Writing μ φ (σ × Bool)} {result : σ → ι → σ × Bool}
    (h : ∀ st i, Reports (step st i) (result st i) (!(result st i).2)) (is : List ι) : ∀ st : σ,
    Reports (until_fails step st is) (WriteOnce.until_fails (m := Id) result st is)
      (!(WriteOnce.until_fails (m := Id) result st is).2) := by
  induction is with
  | nil => intro st; exact Reports.pure (st, true)
  | cons i is ih =>
      intro st
      have hstep := h st i
      rw [until_fails_cons, until_fails_cons]
      change Reports _ (if (result st i).2 then
          WriteOnce.until_fails (m := Id) result (result st i).1 is else ((result st i).1, false))
        (!(if (result st i).2 then WriteOnce.until_fails (m := Id) result (result st i).1 is
          else ((result st i).1, false)).2)
      generalize result st i = r at hstep
      obtain ⟨st₁, ok⟩ := r
      cases ok with
      | false => exact hstep.bind_fails rfl
      | true =>
          rw [hstep.bind_eq]
          exact ih st₁

/-! ## Writing once at most -/

/-- From an empty variable the computation writes once at most, and only if it
fails. -/
structure Once (ok : α → Bool) (x : Writing μ φ α) : Prop where
  not_overwrites : ¬ Overwrites x (some none)
  empty : ∀ a c, x (some none) = .ok (a, c) → ok a = true → c = some none

theorem Once.of_reports {ok : α → Bool} {x : Writing μ φ α} {a : α} (h : Reports x a (!ok a)) :
    Once ok x := by
  refine ⟨h.not_overwrites, fun b c hrun hok' => ?_⟩
  cases hok : ok a with
  | true =>
      rw [hok] at h
      rw [h.eq, run_pure, Except.ok.injEq, Prod.mk.injEq] at hrun
      exact hrun.2.symm
  | false =>
      rw [hok] at h
      obtain ⟨message, hwrites⟩ := h.writes
      rw [hwrites, Except.ok.injEq, Prod.mk.injEq] at hrun
      rw [← hrun.1, hok] at hok'
      exact absurd hok' (by simp)

theorem Once.pure (ok : α → Bool) (a : α) : Once ok (pure a : Writing μ φ α) := by
  refine ⟨not_overwrites_pure a _, fun b c hrun _ => ?_⟩
  rw [run_pure, Except.ok.injEq, Prod.mk.injEq] at hrun
  exact hrun.2.symm

theorem Once.lift (ok : α → Bool) (x : Except φ α) : Once ok (lift x : Writing μ φ α) := by
  cases x with
  | ok a => exact Once.pure ok a
  | error fault => exact ⟨not_overwrites_of_other rfl, fun a c hrun _ => absurd hrun (by
      simp [WriteOnce.lift])⟩

/-- One part after the other, if the first one succeeds; if it fails, nothing is left
to do. -/
theorem Once.bind {ok : α → Bool} {ok' : β → Bool} {x : Writing μ φ α} {f : α → Writing μ φ β}
    (hx : Once ok x) (hf : ∀ a, ok a = true → Once ok' (f a))
    (hfails : ∀ a, ok a = false → ∃ b, f a = Pure.pure b ∧ ok' b = false) :
    Once ok' (x >>= f) := by
  constructor
  · rw [overwrites_bind, not_or]
    refine ⟨hx.not_overwrites, ?_⟩
    rintro ⟨a, c, hrun, hover⟩
    cases hok : ok a with
    | true =>
        rw [hx.empty a c hrun hok] at hover
        exact (hf a hok).not_overwrites hover
    | false =>
        obtain ⟨b, hb, -⟩ := hfails a hok
        rw [hb] at hover
        exact not_overwrites_pure b c hover
  · intro b c hrun hok'
    cases h : x (some none) with
    | error fault =>
        rw [run_bind_error h] at hrun
        exact absurd hrun (by simp)
    | ok r =>
        obtain ⟨a, c'⟩ := r
        rw [run_bind_ok h] at hrun
        cases hok : ok a with
        | true =>
            rw [hx.empty a c' h hok] at hrun
            exact (hf a hok).empty b c hrun hok'
        | false =>
            obtain ⟨b', hb, hnot⟩ := hfails a hok
            rw [hb, run_pure, Except.ok.injEq, Prod.mk.injEq] at hrun
            rw [← hrun.1, hnot] at hok'
            exact absurd hok' (by simp)

/-- Nothing is written to an empty variable. -/
def Silent (x : Writing μ φ α) : Prop := Once (fun _ => true) x

theorem Silent.pure (a : α) : Silent (pure a : Writing μ φ α) := Once.pure _ a

theorem Silent.lift (x : Except φ α) : Silent (lift x : Writing μ φ α) := Once.lift _ x

theorem Silent.bind_once {ok : β → Bool} {x : Writing μ φ α} {f : α → Writing μ φ β}
    (hx : Silent x) (hf : ∀ a, Once ok (f a)) : Once ok (x >>= f) :=
  Once.bind hx (fun a _ => hf a) fun _ h => absurd h (by simp)

theorem Silent.bind {x : Writing μ φ α} {f : α → Writing μ φ β} (hx : Silent x)
    (hf : ∀ a, Silent (f a)) : Silent (x >>= f) :=
  hx.bind_once hf

theorem Silent.once {ok : α → Bool} {x : Writing μ φ α} (hx : Silent x) : Once ok x :=
  ⟨hx.not_overwrites, fun a c hrun _ => hx.empty a c hrun rfl⟩

/-! ## Results -/

/-- What a run that returns gives. -/
def Ensures (P : α → Prop) (x : Writing μ φ α) : Prop := ∀ c a c', x c = .ok (a, c') → P a

theorem Ensures.pure {P : α → Prop} {a : α} (h : P a) : Ensures P (pure a : Writing μ φ α) := by
  intro c b c' hrun
  rw [run_pure, Except.ok.injEq, Prod.mk.injEq] at hrun
  exact hrun.1 ▸ h

theorem Ensures.bind {P : α → Prop} {Q : β → Prop} {x : Writing μ φ α} {f : α → Writing μ φ β}
    (hx : Ensures P x) (hf : ∀ a, P a → Ensures Q (f a)) : Ensures Q (x >>= f) := by
  intro c b c' hrun
  cases h : x c with
  | error fault =>
      rw [run_bind_error h] at hrun
      exact absurd hrun (by simp)
  | ok r =>
      rw [run_bind_ok h] at hrun
      exact hf r.1 (hx c r.1 r.2 h) r.2 b c' hrun

theorem Ensures.trivial (x : Writing μ φ α) : Ensures (fun _ => True) x := fun _ _ _ _ => True.intro

theorem Ensures.lift {P : α → Prop} {x : Except φ α} (h : ∀ a, x = .ok a → P a) :
    Ensures P (lift x : Writing μ φ α) := by
  cases x with
  | ok a => exact Ensures.pure (h a rfl)
  | error fault =>
      intro c a c' hrun
      cases hrun

theorem Reports.ensures {x : Writing μ φ α} {a : α} {failed : Bool} (h : Reports x a failed) :
    Ensures (fun r => r = a) x := by
  cases failed with
  | false => rw [h.eq]; exact Ensures.pure rfl
  | true =>
      obtain ⟨message, rfl⟩ := h
      exact (Ensures.trivial _).bind fun _ _ => Ensures.pure rfl

/-! ## The rest of a computation -/

/-- But for what it writes, the computation is one that doesn't; only a second write
stops it before. -/
def Erases (x : Writing μ φ α) (y : Except φ α) : Prop :=
  ∀ c, (c ≠ none ∧ Overwrites x c) ∨
    match y with
    | .ok a => ∃ c', x c = .ok (a, c') ∧ (c = none → c' = none)
    | .error fault => x c = .error (.other fault)

theorem Erases.lift (x : Except φ α) : Erases (lift x : Writing μ φ α) x := by
  intro c
  cases x with
  | ok a => exact Or.inr ⟨c, rfl, id⟩
  | error fault => exact Or.inr rfl

theorem Erases.pure (a : α) : Erases (pure a : Writing μ φ α) (.ok a) := Erases.lift (.ok a)

theorem Erases.put (message : μ) : Erases (put message : Writing μ φ Unit) (.ok ()) := by
  intro c
  rcases c with - | - | previous
  · exact Or.inr ⟨none, rfl, id⟩
  · exact Or.inr ⟨_, rfl, fun h => absurd h (by simp)⟩
  · exact Or.inl ⟨by simp, previous, rfl⟩

theorem Erases.bind_ok {x : Writing μ φ α} {a : α} {f : α → Writing μ φ β} {y : Except φ β}
    (hx : Erases x (.ok a)) (hf : Erases (f a) y) : Erases (x >>= f) y := by
  intro c
  rcases hx c with ⟨hc, hover⟩ | ⟨c', hrun, hnone⟩
  · exact Or.inl ⟨hc, overwrites_bind.mpr (Or.inl hover)⟩
  · rw [overwrites_bind_of_ok hrun]
    rcases hf c' with ⟨hc', hover⟩ | hrest
    · exact Or.inl ⟨fun hc => hc' (hnone hc), hover⟩
    · refine Or.inr ?_
      rw [run_bind_ok hrun]
      cases y with
      | error fault => exact hrest
      | ok b =>
          obtain ⟨c'', hrest, hnone'⟩ := hrest
          exact ⟨c'', hrest, fun hc => hnone' (hnone hc)⟩

theorem Erases.bind_error {x : Writing μ φ α} {fault : φ} (hx : Erases x (.error fault))
    (f : α → Writing μ φ β) : Erases (x >>= f) (.error fault) := by
  intro c
  rcases hx c with ⟨hc, hover⟩ | hrun
  · exact Or.inl ⟨hc, overwrites_bind.mpr (Or.inl hover)⟩
  · exact Or.inr (run_bind_error hrun)

theorem Erases.bind {x : Writing μ φ α} {y : Except φ α} {f : α → Writing μ φ β}
    {g : α → Except φ β} (hx : Erases x y) (hf : ∀ a, Erases (f a) (g a)) :
    Erases (x >>= f) (y >>= g) := by
  cases y with
  | ok a => exact hx.bind_ok (hf a)
  | error fault => exact hx.bind_error f

/-- With nowhere to write, there is nothing but the rest. -/
theorem Erases.detached {x : Writing μ φ α} {y : Except φ α} (h : Erases x y) :
    WriteOnce.detached x = WriteOnce.lift y := by
  funext c
  rcases h none with ⟨hne, -⟩ | hrun
  · exact absurd rfl hne
  · unfold WriteOnce.detached WriteOnce.lift
    cases y with
    | ok a =>
        obtain ⟨c', hrun, -⟩ := hrun
        simp only [hrun]
    | error fault => simp only [show x none = _ from hrun]

theorem Erases.of_reports {x : Writing μ φ α} {a : α} {failed : Bool} (h : Reports x a failed) :
    Erases x (.ok a) := by
  cases failed with
  | false => rw [h.eq]; exact Erases.pure a
  | true =>
      obtain ⟨message, rfl⟩ := h
      exact (Erases.put message).bind_ok (Erases.pure a)

end PkgPlugins.WriteOnce
