/-
Patterns with tags, and the lexers they make.

A pattern is a regular expression over any alphabet, with tags that record where a
match passes. `parses` lists the matches of a pattern at the start of a text, each
with what the tags recorded and the rest of the text, in the order of preference:
the left alternative before the right one, the longer run before the shorter one.
`lang` is the language, without the tags.

A lexer takes the longest match over all its rules, among matches of one length
that of the first rule, and among those of one rule the preferred one.
-/
import Mathlib.Data.List.Basic
import Mathlib.Data.Set.Basic

set_option autoImplicit false

namespace PkgPlugins.Lexer

/-! ## Patterns -/

inductive Pattern (α τ : Type)
  | empty
  | char (p : α → Bool)
  | run (p : α → Bool)
  | seq (a b : Pattern α τ)
  | alt (a b : Pattern α τ)
  | tag (t : τ)

section Patterns

variable {α τ β : Type}

/-- One pattern after another. -/
def inSequence : List (Pattern α τ) → Pattern α τ
  | [] => .empty
  | a :: as => .seq a (inSequence as)

/-- One of the patterns, the first that comes preferred. -/
def oneOf : List (Pattern α τ) → Pattern α τ
  | [] => .char (fun _ => false)
  | [a] => a
  | a :: as => .alt a (oneOf as)

/-- The pattern, or nothing. -/
def maybe (a : Pattern α τ) : Pattern α τ := .alt a .empty

/-- What is left of a text after a run, from the longest run to none. -/
def splits (p : α → Bool) : List α → List (List α)
  | [] => [[]]
  | a :: s => if p a then splits p s ++ [a :: s] else [a :: s]

/-- The matches at the start of a text: what the tags recorded, each where it was
passed, and the rest of the text. -/
def Pattern.parses : Pattern α τ → List α → List (List (τ × List α) × List α)
  | .empty, s => [([], s)]
  | .char _, [] => []
  | .char p, a :: s => if p a then [([], s)] else []
  | .run p, s => (splits p s).map fun r => ([], r)
  | .seq a b, s => (a.parses s).flatMap fun (c, r) => (b.parses r).map fun (c', r') => (c ++ c', r')
  | .alt a b, s => a.parses s ++ b.parses s
  | .tag t, s => [([(t, s)], s)]

/-- The words of a pattern. -/
def Pattern.lang : Pattern α τ → Set (List α)
  | .empty => {[]}
  | .char p => {w | ∃ a, p a = true ∧ w = [a]}
  | .run p => {w | ∀ a ∈ w, p a = true}
  | .seq a b => {w | ∃ u ∈ a.lang, ∃ v ∈ b.lang, w = u ++ v}
  | .alt a b => a.lang ∪ b.lang
  | .tag _ => {[]}

/-- A pattern without tags. -/
def Pattern.tagless : Pattern α τ → Bool
  | .empty => true
  | .char _ => true
  | .run _ => true
  | .seq a b => a.tagless && b.tagless
  | .alt a b => a.tagless && b.tagless
  | .tag _ => false

/-- The tags of a pattern. -/
def Pattern.tags : Pattern α τ → List τ
  | .empty => []
  | .char _ => []
  | .run _ => []
  | .seq a b => a.tags ++ b.tags
  | .alt a b => a.tags ++ b.tags
  | .tag t => [t]

/-! ## The language -/

@[simp] theorem mem_lang_empty (w : List α) : w ∈ (Pattern.empty : Pattern α τ).lang ↔ w = [] :=
  Iff.rfl

@[simp] theorem mem_lang_char (p : α → Bool) (w : List α) :
    w ∈ (Pattern.char p : Pattern α τ).lang ↔ ∃ a, p a = true ∧ w = [a] :=
  Iff.rfl

@[simp] theorem mem_lang_run (p : α → Bool) (w : List α) :
    w ∈ (Pattern.run p : Pattern α τ).lang ↔ ∀ a ∈ w, p a = true :=
  Iff.rfl

@[simp] theorem mem_lang_seq (a b : Pattern α τ) (w : List α) :
    w ∈ (Pattern.seq a b).lang ↔ ∃ u ∈ a.lang, ∃ v ∈ b.lang, w = u ++ v :=
  Iff.rfl

@[simp] theorem mem_lang_alt (a b : Pattern α τ) (w : List α) :
    w ∈ (Pattern.alt a b).lang ↔ w ∈ a.lang ∨ w ∈ b.lang :=
  Iff.rfl

@[simp] theorem mem_lang_maybe (a : Pattern α τ) (w : List α) :
    w ∈ (maybe a).lang ↔ w ∈ a.lang ∨ w = [] :=
  Iff.rfl

@[simp] theorem mem_lang_sequence_nil (w : List α) :
    w ∈ (inSequence [] : Pattern α τ).lang ↔ w = [] :=
  Iff.rfl

@[simp] theorem mem_lang_sequence_cons (a : Pattern α τ) (as : List (Pattern α τ)) (w : List α) :
    w ∈ (inSequence (a :: as)).lang ↔ ∃ u ∈ a.lang, ∃ v ∈ (inSequence as).lang, w = u ++ v :=
  Iff.rfl

/-- A sequence in two parts. -/
theorem mem_lang_sequence_append (as bs : List (Pattern α τ)) (w : List α) :
    w ∈ (inSequence (as ++ bs)).lang
      ↔ ∃ u ∈ (inSequence as).lang, ∃ v ∈ (inSequence bs).lang, w = u ++ v := by
  induction as generalizing w with
  | nil => simp
  | cons a as ih =>
      rw [List.cons_append, mem_lang_sequence_cons]
      constructor
      · rintro ⟨u, hu, m, hm, rfl⟩
        obtain ⟨v, hv, z, hz, rfl⟩ := (ih m).mp hm
        exact ⟨u ++ v, ⟨u, hu, v, hv, rfl⟩, z, hz, (List.append_assoc u v z).symm⟩
      · rintro ⟨m, ⟨u, hu, v, hv, rfl⟩, z, hz, rfl⟩
        exact ⟨u, hu, v ++ z, (ih _).mpr ⟨v, hv, z, hz, rfl⟩, List.append_assoc u v z⟩

/-- A word before a word of the rest. -/
theorem append_mem_lang_sequence {a : Pattern α τ} {as : List (Pattern α τ)} {u v : List α}
    (hu : u ∈ a.lang) (hv : v ∈ (inSequence as).lang) : u ++ v ∈ (inSequence (a :: as)).lang :=
  ⟨u, hu, v, hv, rfl⟩

/-- A tag takes nothing. -/
theorem tag_mem_lang_sequence (t : τ) {as : List (Pattern α τ)} {w : List α}
    (hw : w ∈ (inSequence as).lang) : w ∈ (inSequence (Pattern.tag t :: as)).lang :=
  ⟨[], rfl, w, hw, rfl⟩

/-- The last pattern of a sequence. -/
theorem mem_lang_sequence_singleton {a : Pattern α τ} {w : List α} (hw : w ∈ a.lang) :
    w ∈ (inSequence [a]).lang :=
  ⟨w, hw, [], rfl, (List.append_nil w).symm⟩

/-- A character before a word of the rest. -/
theorem cons_mem_lang_sequence {p : α → Bool} {as : List (Pattern α τ)} {a : α} {w : List α}
    (ha : p a = true) (hw : w ∈ (inSequence as).lang) :
    a :: w ∈ (inSequence (Pattern.char p :: as)).lang :=
  ⟨[a], ⟨a, ha, rfl⟩, w, hw, rfl⟩

/-- A word of one of the patterns. -/
theorem mem_lang_oneOf (as : List (Pattern α τ)) (w : List α) :
    w ∈ (oneOf as).lang ↔ ∃ a ∈ as, w ∈ a.lang := by
  induction as with
  | nil => simp [oneOf]
  | cons a as ih =>
      cases as with
      | nil => simp [oneOf]
      | cons b as =>
          show w ∈ (Pattern.alt a (oneOf (b :: as))).lang ↔ _
          rw [mem_lang_alt, ih]
          exact (List.exists_mem_cons_iff (fun a => w ∈ a.lang) a (b :: as)).symm

/-! ## What is seen without the words -/

/-- Whether the empty word is one. -/
def Pattern.nullable : Pattern α τ → Bool
  | .empty => true
  | .char _ => false
  | .run _ => true
  | .seq a b => a.nullable && b.nullable
  | .alt a b => a.nullable || b.nullable
  | .tag _ => true

/-- Every character of a word has a property. -/
def Pattern.Within (q : α → Prop) : Pattern α τ → Prop
  | .empty => True
  | .char p => ∀ a, p a = true → q a
  | .run p => ∀ a, p a = true → q a
  | .seq a b => a.Within q ∧ b.Within q
  | .alt a b => a.Within q ∧ b.Within q
  | .tag _ => True

/-- The first character of a word, if there is one, has a property. -/
def Pattern.Starts (q : α → Prop) : Pattern α τ → Prop
  | .empty => True
  | .char p => ∀ a, p a = true → q a
  | .run p => ∀ a, p a = true → q a
  | .seq a b => a.Starts q ∧ (a.nullable = true → b.Starts q)
  | .alt a b => a.Starts q ∧ b.Starts q
  | .tag _ => True

theorem Pattern.nil_mem_lang_iff (a : Pattern α τ) : [] ∈ a.lang ↔ a.nullable = true := by
  induction a with
  | empty => exact iff_of_true rfl rfl
  | char p => exact iff_of_false (by simp) (by simp [Pattern.nullable])
  | run p => exact iff_of_true (by simp) rfl
  | seq a b iha ihb =>
      rw [Pattern.nullable, Bool.and_eq_true, ← iha, ← ihb, mem_lang_seq]
      constructor
      · rintro ⟨u, hu, v, hv, h⟩
        obtain ⟨rfl, rfl⟩ := List.append_eq_nil_iff.mp h.symm
        exact ⟨hu, hv⟩
      · rintro ⟨hu, hv⟩
        exact ⟨[], hu, [], hv, rfl⟩
  | alt a b iha ihb => rw [Pattern.nullable, Bool.or_eq_true, ← iha, ← ihb, mem_lang_alt]
  | tag t => exact iff_of_true rfl rfl

theorem Pattern.Within.forall_mem {q : α → Prop} {a : Pattern α τ} (ha : a.Within q) {w : List α}
    (hw : w ∈ a.lang) : ∀ x ∈ w, q x := by
  induction a generalizing w with
  | empty => simp [(mem_lang_empty w).mp hw]
  | char p =>
      obtain ⟨x, hx, rfl⟩ := hw
      simpa using ha x hx
  | run p => exact fun x hx => ha x (hw x hx)
  | seq a b iha ihb =>
      obtain ⟨u, hu, v, hv, rfl⟩ := hw
      exact List.forall_mem_append.mpr ⟨iha ha.1 hu, ihb ha.2 hv⟩
  | alt a b iha ihb =>
      obtain hw | hw := hw
      · exact iha ha.1 hw
      · exact ihb ha.2 hw
  | tag t => simp [show w = [] from hw]

theorem Pattern.Starts.head {q : α → Prop} {a : Pattern α τ} (ha : a.Starts q) {w : List α}
    (hw : w ∈ a.lang) : ∀ x ∈ w.head?, q x := by
  induction a generalizing w with
  | empty => simp [(mem_lang_empty w).mp hw]
  | char p =>
      obtain ⟨x, hx, rfl⟩ := hw
      simpa using ha x hx
  | run p => exact fun x hx => ha x (hw x (List.mem_of_mem_head? hx))
  | seq a b iha ihb =>
      obtain ⟨u, hu, v, hv, rfl⟩ := hw
      cases u with
      -- the first word is empty: the character is that of the second
      | nil => exact ihb (ha.2 (a.nil_mem_lang_iff.mp hu)) hv
      | cons x u =>
          intro y hy
          obtain rfl : x = y := by simpa using hy
          exact iha ha.1 hu x rfl
  | alt a b iha ihb =>
      obtain hw | hw := hw
      · exact iha ha.1 hw
      · exact ihb ha.2 hw
  | tag t => simp [show w = [] from hw]

/-- A word of a pattern that is not nullable starts with a character of the class. -/
theorem Pattern.Starts.cons {q : α → Prop} {a : Pattern α τ} (ha : a.Starts q)
    (hnull : a.nullable = false) {w : List α} (hw : w ∈ a.lang) : ∃ x v, w = x :: v ∧ q x := by
  cases w with
  | nil =>
      rw [a.nil_mem_lang_iff, hnull] at hw
      exact absurd hw (by simp)
  | cons x v => exact ⟨x, v, rfl, ha.head hw x rfl⟩

theorem Pattern.Within.mono {q q' : α → Prop} {a : Pattern α τ} (ha : a.Within q)
    (h : ∀ x, q x → q' x) : a.Within q' := by
  induction a with
  | empty => trivial
  | char p => exact fun x hx => h x (ha x hx)
  | run p => exact fun x hx => h x (ha x hx)
  | seq a b iha ihb => exact ⟨iha ha.1, ihb ha.2⟩
  | alt a b iha ihb => exact ⟨iha ha.1, ihb ha.2⟩
  | tag t => trivial

/-- Where every character has the property, so has the first. -/
theorem Pattern.Within.starts {q : α → Prop} {a : Pattern α τ} (ha : a.Within q) : a.Starts q := by
  induction a with
  | empty => trivial
  | char p => exact ha
  | run p => exact ha
  | seq a b iha ihb => exact ⟨iha ha.1, fun _ => ihb ha.2⟩
  | alt a b iha ihb => exact ⟨iha ha.1, ihb ha.2⟩
  | tag t => trivial

theorem Pattern.Starts.mono {q q' : α → Prop} {a : Pattern α τ} (ha : a.Starts q)
    (h : ∀ x, q x → q' x) : a.Starts q' := by
  induction a with
  | empty => trivial
  | char p => exact fun x hx => h x (ha x hx)
  | run p => exact fun x hx => h x (ha x hx)
  | seq a b iha ihb => exact ⟨iha ha.1, fun hnull => ihb (ha.2 hnull)⟩
  | alt a b iha ihb => exact ⟨iha ha.1, ihb ha.2⟩
  | tag t => trivial

theorem oneOf_starts {q : α → Prop} {as : List (Pattern α τ)} (h : ∀ a ∈ as, a.Starts q) :
    (oneOf as).Starts q := by
  induction as with
  | nil => exact fun a ha => absurd ha (by simp)
  | cons a as ih =>
      rw [List.forall_mem_cons] at h
      cases as with
      | nil => exact h.1
      | cons b as => exact ⟨h.1, ih h.2⟩

theorem oneOf_within {q : α → Prop} {as : List (Pattern α τ)} (h : ∀ a ∈ as, a.Within q) :
    (oneOf as).Within q := by
  induction as with
  | nil => exact fun a ha => absurd ha (by simp)
  | cons a as ih =>
      rw [List.forall_mem_cons] at h
      cases as with
      | nil => exact h.1
      | cons b as => exact ⟨h.1, ih h.2⟩

theorem oneOf_nullable {as : List (Pattern α τ)} (h : ∀ a ∈ as, a.nullable = false) :
    (oneOf as).nullable = false := by
  induction as with
  | nil => rfl
  | cons a as ih =>
      rw [List.forall_mem_cons] at h
      cases as with
      | nil => exact h.1
      | cons b as => exact Bool.or_eq_false_iff.mpr ⟨h.1, ih h.2⟩

/-! ## The matches -/

/-- The rests after a run. -/
theorem mem_splits (p : α → Bool) (s r : List α) :
    r ∈ splits p s ↔ ∃ w, (∀ a ∈ w, p a = true) ∧ s = w ++ r := by
  induction s with
  | nil =>
      rw [splits, List.mem_singleton]
      constructor
      · rintro rfl
        exact ⟨[], by simp, rfl⟩
      · rintro ⟨w, -, h⟩
        exact (List.append_eq_nil_iff.mp h.symm).2
  | cons a s ih =>
      -- a run is empty, or it starts with `a`
      have hcons : (∃ w, (∀ b ∈ w, p b = true) ∧ a :: s = w ++ r)
          ↔ (p a = true ∧ r ∈ splits p s) ∨ r = a :: s := by
        rw [ih]
        constructor
        · rintro ⟨w, hw, h⟩
          cases w with
          | nil => exact Or.inr h.symm
          | cons b w =>
              obtain ⟨rfl, rfl⟩ := List.cons_eq_cons.mp h
              rw [List.forall_mem_cons] at hw
              exact Or.inl ⟨hw.1, w, hw.2, rfl⟩
        · rintro (⟨ha, w, hw, rfl⟩ | rfl)
          · exact ⟨a :: w, List.forall_mem_cons.mpr ⟨ha, hw⟩, rfl⟩
          · exact ⟨[], by simp, rfl⟩
      rw [hcons, splits]
      by_cases ha : p a = true
      · rw [if_pos ha, List.mem_append, List.mem_singleton, and_iff_right ha]
      · rw [if_neg ha, List.mem_singleton, or_iff_right (fun h => ha h.1)]

theorem mem_parses_char (p : α → Bool) (s : List α) (c : List (τ × List α)) (r : List α) :
    (c, r) ∈ (Pattern.char p : Pattern α τ).parses s ↔ c = [] ∧ ∃ a, p a = true ∧ s = a :: r := by
  cases s with
  | nil => simp [Pattern.parses]
  | cons a s =>
      unfold Pattern.parses
      by_cases ha : p a = true
      · rw [if_pos ha, List.mem_singleton, Prod.mk.injEq]
        refine and_congr_right fun _ => ⟨?_, ?_⟩
        · rintro rfl
          exact ⟨a, ha, rfl⟩
        · rintro ⟨b, -, h⟩
          exact (List.cons_eq_cons.mp h).2.symm
      · rw [if_neg ha]
        refine iff_of_false List.not_mem_nil ?_
        rintro ⟨-, b, hb, h⟩
        exact ha ((List.cons_eq_cons.mp h).1 ▸ hb)

theorem mem_parses_run (p : α → Bool) (s : List α) (c : List (τ × List α)) (r : List α) :
    (c, r) ∈ (Pattern.run p : Pattern α τ).parses s
      ↔ c = [] ∧ ∃ w, (∀ a ∈ w, p a = true) ∧ s = w ++ r := by
  rw [Pattern.parses, List.mem_map, ← mem_splits]
  constructor
  · rintro ⟨r', hr', h⟩
    obtain ⟨rfl, rfl⟩ := Prod.mk.inj h
    exact ⟨rfl, hr'⟩
  · rintro ⟨rfl, hr⟩
    exact ⟨r, hr, rfl⟩

theorem mem_parses_seq (a b : Pattern α τ) (s : List α) (c : List (τ × List α)) (r : List α) :
    (c, r) ∈ (Pattern.seq a b).parses s
      ↔ ∃ c₁ m c₂, (c₁, m) ∈ a.parses s ∧ (c₂, r) ∈ b.parses m ∧ c = c₁ ++ c₂ := by
  rw [Pattern.parses, List.mem_flatMap]
  constructor
  · rintro ⟨⟨c₁, m⟩, hfirst, hrest⟩
    obtain ⟨⟨c₂, r'⟩, hsecond, h⟩ := List.mem_map.mp hrest
    obtain ⟨rfl, rfl⟩ := Prod.mk.inj h
    exact ⟨c₁, m, c₂, hfirst, hsecond, rfl⟩
  · rintro ⟨c₁, m, c₂, hfirst, hsecond, rfl⟩
    exact ⟨(c₁, m), hfirst, List.mem_map.mpr ⟨(c₂, r), hsecond, rfl⟩⟩

theorem mem_parses_alt (a b : Pattern α τ) (s : List α) (x : List (τ × List α) × List α) :
    x ∈ (Pattern.alt a b).parses s ↔ x ∈ a.parses s ∨ x ∈ b.parses s := by
  rw [Pattern.parses, List.mem_append]

theorem mem_parses_maybe (a : Pattern α τ) (s : List α) (c : List (τ × List α)) (r : List α) :
    (c, r) ∈ (maybe a).parses s ↔ (c, r) ∈ a.parses s ∨ (c = [] ∧ r = s) := by
  rw [maybe, mem_parses_alt, Pattern.parses, List.mem_singleton, Prod.mk.injEq]

/-- **What is matched** is a word of the language. -/
theorem Pattern.parses_sound (a : Pattern α τ) {s : List α} {c : List (τ × List α)} {r : List α}
    (h : (c, r) ∈ a.parses s) : ∃ w ∈ a.lang, s = w ++ r := by
  induction a generalizing s c r with
  | empty =>
      obtain ⟨-, rfl⟩ := Prod.mk.inj (List.mem_singleton.mp h)
      exact ⟨[], rfl, rfl⟩
  | char p =>
      obtain ⟨-, a, ha, rfl⟩ := (mem_parses_char p s c r).mp h
      exact ⟨[a], ⟨a, ha, rfl⟩, rfl⟩
  | run p =>
      obtain ⟨-, w, hw, rfl⟩ := (mem_parses_run p s c r).mp h
      exact ⟨w, hw, rfl⟩
  | seq a b iha ihb =>
      obtain ⟨c₁, m, c₂, hfirst, hsecond, -⟩ := (mem_parses_seq a b s c r).mp h
      obtain ⟨u, hu, rfl⟩ := iha hfirst
      obtain ⟨v, hv, rfl⟩ := ihb hsecond
      exact ⟨u ++ v, ⟨u, hu, v, hv, rfl⟩, (List.append_assoc u v r).symm⟩
  | alt a b iha ihb =>
      obtain h | h := (mem_parses_alt a b s (c, r)).mp h
      · obtain ⟨w, hw, rfl⟩ := iha h
        exact ⟨w, Or.inl hw, rfl⟩
      · obtain ⟨w, hw, rfl⟩ := ihb h
        exact ⟨w, Or.inr hw, rfl⟩
  | tag t =>
      obtain ⟨-, rfl⟩ := Prod.mk.inj (List.mem_singleton.mp h)
      exact ⟨[], rfl, rfl⟩

/-- **A word of the language** is matched. -/
theorem Pattern.parses_complete (a : Pattern α τ) {w : List α} (hw : w ∈ a.lang) (r : List α) :
    ∃ c, (c, r) ∈ a.parses (w ++ r) := by
  induction a generalizing w r with
  | empty =>
      obtain rfl := hw
      exact ⟨[], List.mem_singleton.mpr rfl⟩
  | char p =>
      obtain ⟨a, ha, rfl⟩ := hw
      exact ⟨[], (mem_parses_char p _ _ _).mpr ⟨rfl, a, ha, rfl⟩⟩
  | run p => exact ⟨[], (mem_parses_run p _ _ _).mpr ⟨rfl, w, hw, rfl⟩⟩
  | seq a b iha ihb =>
      obtain ⟨u, hu, v, hv, rfl⟩ := hw
      obtain ⟨c₁, hfirst⟩ := iha hu (v ++ r)
      obtain ⟨c₂, hsecond⟩ := ihb hv r
      rw [List.append_assoc]
      exact ⟨c₁ ++ c₂, (mem_parses_seq a b _ _ _).mpr ⟨c₁, v ++ r, c₂, hfirst, hsecond, rfl⟩⟩
  | alt a b iha ihb =>
      obtain hw | hw := hw
      · obtain ⟨c, hc⟩ := iha hw r
        exact ⟨c, (mem_parses_alt a b _ _).mpr (Or.inl hc)⟩
      · obtain ⟨c, hc⟩ := ihb hw r
        exact ⟨c, (mem_parses_alt a b _ _).mpr (Or.inr hc)⟩
  | tag t =>
      obtain rfl := hw
      exact ⟨[(t, r)], List.mem_singleton.mpr rfl⟩

/-- A word of which all matches are one, of the whole word, has that match. -/
theorem Pattern.mem_parses_of_unique (a : Pattern α τ) {w : List α} (hw : w ∈ a.lang)
    {c : List (τ × List α)} (hunique : ∀ c' r, (c', r) ∈ a.parses w → c' = c ∧ r = []) :
    (c, []) ∈ a.parses w := by
  obtain ⟨c', hc'⟩ := a.parses_complete hw []
  rw [List.append_nil] at hc'
  obtain ⟨rfl, -⟩ := hunique c' [] hc'
  exact hc'

/-- What is recorded is recorded by one of the tags. -/
theorem Pattern.captures_tags (a : Pattern α τ) {s : List α} {c : List (τ × List α)} {r : List α}
    (h : (c, r) ∈ a.parses s) : ∀ x ∈ c, x.1 ∈ a.tags := by
  induction a generalizing s c r with
  | empty =>
      rw [(Prod.mk.inj (List.mem_singleton.mp h)).1]
      exact fun x hx => absurd hx List.not_mem_nil
  | char p =>
      rw [((mem_parses_char p s c r).mp h).1]
      exact fun x hx => absurd hx List.not_mem_nil
  | run p =>
      rw [((mem_parses_run p s c r).mp h).1]
      exact fun x hx => absurd hx List.not_mem_nil
  | seq a b iha ihb =>
      obtain ⟨c₁, m, c₂, hfirst, hsecond, rfl⟩ := (mem_parses_seq a b s c r).mp h
      refine List.forall_mem_append.mpr ⟨fun x hx => ?_, fun x hx => ?_⟩
      · exact List.mem_append_left _ (iha hfirst x hx)
      · exact List.mem_append_right _ (ihb hsecond x hx)
  | alt a b iha ihb =>
      intro x hx
      obtain h | h := (mem_parses_alt a b s (c, r)).mp h
      · exact List.mem_append_left _ (iha h x hx)
      · exact List.mem_append_right _ (ihb h x hx)
  | tag t =>
      rw [(Prod.mk.inj (List.mem_singleton.mp h)).1]
      exact fun x hx => List.mem_singleton.mpr (by rw [List.mem_singleton.mp hx])

/-- A tag that a pattern doesn't have is not set. -/
theorem Pattern.lookup_captures [DecidableEq τ] (a : Pattern α τ) {s : List α}
    {c : List (τ × List α)} {r : List α} (h : (c, r) ∈ a.parses s) {t : τ} (ht : t ∉ a.tags) :
    c.lookup t = none := by
  rw [List.lookup_eq_none_iff]
  intro x hx
  rw [bne_iff_ne]
  rintro rfl
  exact ht (a.captures_tags h x hx)

/-- A pattern without tags records nothing. -/
theorem Pattern.tagless_captures (a : Pattern α τ) (ha : a.tagless = true) {s : List α}
    {c : List (τ × List α)} {r : List α} (h : (c, r) ∈ a.parses s) : c = [] := by
  induction a generalizing s c r with
  | empty => exact (Prod.mk.inj (List.mem_singleton.mp h)).1
  | char p => exact ((mem_parses_char p s c r).mp h).1
  | run p => exact ((mem_parses_run p s c r).mp h).1
  | seq a b iha ihb =>
      rw [Pattern.tagless, Bool.and_eq_true] at ha
      obtain ⟨c₁, m, c₂, hfirst, hsecond, rfl⟩ := (mem_parses_seq a b s c r).mp h
      rw [iha ha.1 hfirst, ihb ha.2 hsecond, List.append_nil]
  | alt a b iha ihb =>
      rw [Pattern.tagless, Bool.and_eq_true] at ha
      obtain h | h := (mem_parses_alt a b s (c, r)).mp h
      · exact iha ha.1 h
      · exact ihb ha.2 h
  | tag t => exact absurd ha (by simp [Pattern.tagless])

/-- **The matches of a pattern without tags.** -/
theorem mem_parses_of_tagless {a : Pattern α τ} (ha : a.tagless = true) (s : List α)
    (c : List (τ × List α)) (r : List α) :
    (c, r) ∈ a.parses s ↔ c = [] ∧ ∃ w ∈ a.lang, s = w ++ r := by
  constructor
  · intro h
    exact ⟨a.tagless_captures ha h, a.parses_sound h⟩
  · rintro ⟨rfl, w, hw, rfl⟩
    obtain ⟨c, hc⟩ := a.parses_complete hw r
    obtain rfl := a.tagless_captures ha hc
    exact hc

/-- A tag at the front of a sequence records the text. -/
theorem mem_parses_tag_cons (t : τ) (as : List (Pattern α τ)) (s : List α)
    (c : List (τ × List α)) (r : List α) :
    (c, r) ∈ (inSequence (.tag t :: as)).parses s
      ↔ ∃ c', c = (t, s) :: c' ∧ (c', r) ∈ (inSequence as).parses s := by
  rw [inSequence, mem_parses_seq]
  constructor
  · rintro ⟨c₁, m, c₂, hfirst, hsecond, rfl⟩
    obtain ⟨rfl, rfl⟩ := Prod.mk.inj (List.mem_singleton.mp hfirst)
    exact ⟨c₂, rfl, hsecond⟩
  · rintro ⟨c', rfl, hrest⟩
    exact ⟨[(t, s)], s, c', List.mem_singleton.mpr rfl, hrest, rfl⟩

/-- A pattern without tags at the front takes one of its words. -/
theorem mem_parses_tagless_cons {a : Pattern α τ} (ha : a.tagless = true)
    (as : List (Pattern α τ)) (s : List α) (c : List (τ × List α)) (r : List α) :
    (c, r) ∈ (inSequence (a :: as)).parses s
      ↔ ∃ w ∈ a.lang, ∃ m, s = w ++ m ∧ (c, r) ∈ (inSequence as).parses m := by
  rw [inSequence, mem_parses_seq]
  constructor
  · rintro ⟨c₁, m, c₂, hfirst, hsecond, rfl⟩
    obtain ⟨rfl, w, hw, rfl⟩ := (mem_parses_of_tagless ha s c₁ m).mp hfirst
    exact ⟨w, hw, m, rfl, hsecond⟩
  · rintro ⟨w, hw, m, rfl, hrest⟩
    exact ⟨[], m, c, (mem_parses_of_tagless ha _ _ _).mpr ⟨rfl, w, hw, rfl⟩, hrest, rfl⟩

theorem mem_parses_sequence_nil (s : List α) (c : List (τ × List α)) (r : List α) :
    (c, r) ∈ (inSequence [] : Pattern α τ).parses s ↔ c = [] ∧ r = s := by
  rw [inSequence, Pattern.parses, List.mem_singleton, Prod.mk.injEq]

/-! ## Runs of a class -/

/-- A text falls apart in one way into characters of a class and a rest that
doesn't go on with one. -/
theorem append_inj_of_class {p : α → Bool} {w w' r r' : List α} (h : w ++ r = w' ++ r')
    (hw : ∀ a ∈ w, p a = true) (hw' : ∀ a ∈ w', p a = true)
    (hr : ∀ a ∈ r.head?, p a = false) (hr' : ∀ a ∈ r'.head?, p a = false) :
    w = w' ∧ r = r' := by
  -- the longest prefix in the class is the same on both sides
  have htake : ∀ u v : List α, (∀ a ∈ u, p a = true) → (∀ a ∈ v.head?, p a = false) →
      (u ++ v).takeWhile p = u := by
    intro u v hu hv
    rw [List.takeWhile_append_of_pos hu]
    cases v with
    | nil => rw [List.takeWhile_nil, List.append_nil]
    | cons a v =>
        rw [List.takeWhile_cons_of_neg (by simp [hv a rfl]), List.append_nil]
  have hsame : w = w' := by
    rw [← htake w r hw hr, h, htake w' r' hw' hr']
  subst hsame
  exact ⟨rfl, List.append_cancel_left h⟩

/-! ## Fields -/

/-- A matched text starts with a character of the class, if the pattern takes something. -/
theorem Pattern.Starts.head_of_parses {q : α → Prop} {a : Pattern α τ} (ha : a.Starts q)
    (hnull : a.nullable = false) {s : List α} {c : List (τ × List α)} {r : List α}
    (h : (c, r) ∈ a.parses s) : ∀ x ∈ s.head?, q x := by
  obtain ⟨w, hw, rfl⟩ := a.parses_sound h
  obtain ⟨x, v, rfl, hx⟩ := ha.cons hnull hw
  intro y hy
  obtain rfl : x = y := by simpa using hy
  exact hx

theorem starts_tag_cons {q : α → Prop} (t : τ) {as : List (Pattern α τ)}
    (h : (inSequence as).Starts q) : (inSequence (.tag t :: as)).Starts q :=
  ⟨trivial, fun _ => h⟩

/-- A sequence starts like its first pattern, if that takes something. -/
theorem starts_cons {q : α → Prop} {a : Pattern α τ} (ha : a.Starts q) (hnull : a.nullable = false)
    (as : List (Pattern α τ)) : (inSequence (a :: as)).Starts q := by
  refine ⟨ha, fun h => ?_⟩
  rw [hnull] at h
  exact absurd h (by simp)

/-- A sequence whose first pattern may take nothing. -/
theorem starts_cons_of_starts {q : α → Prop} {a : Pattern α τ} (ha : a.Starts q)
    {as : List (Pattern α τ)} (h : (inSequence as).Starts q) : (inSequence (a :: as)).Starts q :=
  ⟨ha, fun _ => h⟩

/-- **A word of a class** at the front of a text, where neither the text nor the patterns
go on with the class: the first pattern takes just the word. -/
theorem mem_parses_cons_of_class {p : α → Bool} {a : Pattern α τ} (htagless : a.tagless = true)
    (hin : a.Within (fun x => p x = true)) {as : List (Pattern α τ)}
    (hstarts : (inSequence as).Starts (fun x => p x = false))
    (hnull : (inSequence as).nullable = false) {w : List α} (hw : w ∈ a.lang) {s : List α}
    (hs : ∀ x ∈ s.head?, p x = false) (c : List (τ × List α)) (r : List α) :
    (c, r) ∈ (inSequence (a :: as)).parses (w ++ s) ↔ (c, r) ∈ (inSequence as).parses s := by
  rw [mem_parses_tagless_cons htagless]
  constructor
  · rintro ⟨w', hw', m, hsplit, h⟩
    obtain ⟨-, rfl⟩ := append_inj_of_class hsplit (hin.forall_mem hw) (hin.forall_mem hw') hs
      (hstarts.head_of_parses hnull h)
    exact h
  · intro h
    exact ⟨w, hw, s, rfl, h⟩

/-- **A field**: such a word between two tags. -/
theorem mem_parses_field {p : α → Bool} {a : Pattern α τ} (htagless : a.tagless = true)
    (hin : a.Within (fun x => p x = true)) {as : List (Pattern α τ)}
    (hstarts : (inSequence as).Starts (fun x => p x = false))
    (hnull : (inSequence as).nullable = false) {w : List α} (hw : w ∈ a.lang) {s : List α}
    (hs : ∀ x ∈ s.head?, p x = false) (t t' : τ) (c : List (τ × List α)) (r : List α) :
    (c, r) ∈ (inSequence (.tag t :: a :: .tag t' :: as)).parses (w ++ s)
      ↔ ∃ c', c = (t, w ++ s) :: (t', s) :: c' ∧ (c', r) ∈ (inSequence as).parses s := by
  rw [mem_parses_tag_cons]
  constructor
  · rintro ⟨c₁, rfl, h₁⟩
    rw [mem_parses_cons_of_class htagless hin (starts_tag_cons t' hstarts) hnull hw hs,
      mem_parses_tag_cons] at h₁
    obtain ⟨c₂, rfl, h₂⟩ := h₁
    exact ⟨c₂, rfl, h₂⟩
  · rintro ⟨c', rfl, h⟩
    refine ⟨(t', s) :: c', rfl, ?_⟩
    rw [mem_parses_cons_of_class htagless hin (starts_tag_cons t' hstarts) hnull hw hs,
      mem_parses_tag_cons]
    exact ⟨c', rfl, h⟩

/-- What a match of a field takes and records. -/
theorem parses_field {a : Pattern α τ} (htagless : a.tagless = true) {as : List (Pattern α τ)}
    {t t' : τ} {s r : List α} {c : List (τ × List α)}
    (h : (c, r) ∈ (inSequence (.tag t :: a :: .tag t' :: as)).parses s) :
    ∃ w ∈ a.lang, ∃ m c', s = w ++ m ∧ c = (t, w ++ m) :: (t', m) :: c'
      ∧ (c', r) ∈ (inSequence as).parses m := by
  obtain ⟨c₁, rfl, h₁⟩ := (mem_parses_tag_cons _ _ _ _ _).mp h
  obtain ⟨w, hw, m, rfl, h₂⟩ := (mem_parses_tagless_cons htagless _ _ _ _).mp h₁
  obtain ⟨c₂, rfl, h₃⟩ := (mem_parses_tag_cons _ _ _ _ _).mp h₂
  exact ⟨w, hw, m, c₂, rfl, rfl, h₃⟩

theorem mem_parses_sequence_append (as bs : List (Pattern α τ)) (s : List α)
    (c : List (τ × List α)) (r : List α) :
    (c, r) ∈ (inSequence (as ++ bs)).parses s
      ↔ ∃ c₁ m c₂, (c₁, m) ∈ (inSequence as).parses s ∧ (c₂, r) ∈ (inSequence bs).parses m
          ∧ c = c₁ ++ c₂ := by
  induction as generalizing s c with
  | nil =>
      constructor
      · intro h
        exact ⟨[], s, c, (mem_parses_sequence_nil _ _ _).mpr ⟨rfl, rfl⟩, h, rfl⟩
      · rintro ⟨c₁, m, c₂, hfirst, hsecond, rfl⟩
        obtain ⟨rfl, rfl⟩ := (mem_parses_sequence_nil _ _ _).mp hfirst
        exact hsecond
  | cons a as ih =>
      rw [List.cons_append, inSequence, mem_parses_seq]
      constructor
      · rintro ⟨c₁, m, c₂, hfirst, hrest, rfl⟩
        obtain ⟨c₃, m', c₄, hsecond, hthird, rfl⟩ := (ih m c₂).mp hrest
        refine ⟨c₁ ++ c₃, m', c₄, ?_, hthird, (List.append_assoc _ _ _).symm⟩
        exact (mem_parses_seq _ _ _ _ _).mpr ⟨c₁, m, c₃, hfirst, hsecond, rfl⟩
      · rintro ⟨c₁, m, c₂, hboth, hthird, rfl⟩
        obtain ⟨c₃, m', c₄, hfirst, hsecond, rfl⟩ := (mem_parses_seq _ _ _ _ _).mp hboth
        refine ⟨c₃, m', c₄ ++ c₂, hfirst, ?_, List.append_assoc _ _ _⟩
        exact (ih m' _).mpr ⟨c₄, m, c₂, hsecond, hthird, rfl⟩

/-- **What is between two tags** of a sequence is matched by what the sequence has between
them. -/
theorem between_tags [DecidableEq τ] {as bs cs : List (Pattern α τ)} {t t' : τ} (hne : t ≠ t')
    (ht : t ∉ (inSequence as).tags) (ht' : t' ∉ (inSequence as).tags)
    (hbs : (inSequence bs).tagless = true) {s r : List α} {c : List (τ × List α)}
    (h : (c, r) ∈ (inSequence (as ++ .tag t :: (bs ++ .tag t' :: cs))).parses s) :
    ∃ w ∈ (inSequence bs).lang, ∃ m, c.lookup t = some (w ++ m) ∧ c.lookup t' = some m := by
  obtain ⟨c₁, m, c₂, hfirst, hrest, rfl⟩ := (mem_parses_sequence_append _ _ _ _ _).mp h
  obtain ⟨c₃, rfl, hfield⟩ := (mem_parses_tag_cons _ _ _ _ _).mp hrest
  obtain ⟨c₄, m', c₅, hbetween, hlast, rfl⟩ := (mem_parses_sequence_append _ _ _ _ _).mp hfield
  obtain ⟨rfl, w, hw, rfl⟩ := (mem_parses_of_tagless hbs _ _ _).mp hbetween
  obtain ⟨c₆, rfl, -⟩ := (mem_parses_tag_cons _ _ _ _ _).mp hlast
  refine ⟨w, hw, m', ?_, ?_⟩
  · rw [List.lookup_append, (inSequence as).lookup_captures hfirst ht, Option.none_or,
      List.lookup_cons_self]
  · rw [List.lookup_append, (inSequence as).lookup_captures hfirst ht', Option.none_or,
      List.lookup_cons, beq_false_of_ne hne.symm, List.nil_append, List.lookup_cons_self]

/-- A part that may be missing. -/
theorem mem_parses_maybe_cons (as bs : List (Pattern α τ)) (s : List α) (c : List (τ × List α))
    (r : List α) :
    (c, r) ∈ (inSequence (maybe (inSequence as) :: bs)).parses s
      ↔ (c, r) ∈ (inSequence (as ++ bs)).parses s ∨ (c, r) ∈ (inSequence bs).parses s := by
  rw [mem_parses_sequence_append, inSequence, mem_parses_seq]
  constructor
  · rintro ⟨c₁, m, c₂, hfirst, hrest, rfl⟩
    obtain hthere | ⟨rfl, rfl⟩ := (mem_parses_maybe _ _ _ _).mp hfirst
    · exact Or.inl ⟨c₁, m, c₂, hthere, hrest, rfl⟩
    · exact Or.inr hrest
  · rintro (⟨c₁, m, c₂, hthere, hrest, rfl⟩ | hrest)
    · exact ⟨c₁, m, c₂, (mem_parses_maybe _ _ _ _).mpr (Or.inl hthere), hrest, rfl⟩
    · exact ⟨[], s, c, (mem_parses_maybe _ _ _ _).mpr (Or.inr ⟨rfl, rfl⟩), hrest, rfl⟩

/-! ## Lexers -/

/-- The first of the matches that leave the shortest rest. -/
def longest {κ : Type} : List (κ × List α) → Option (κ × List α)
  | [] => none
  | x :: xs =>
      match longest xs with
      | none => some x
      | some y => if y.2.length < x.2.length then some y else some x

/-- The match of a lexer: the value of the rule, what the tags recorded, the rest. -/
def lex (rules : List (Pattern α τ × β)) (s : List α) :
    Option ((β × List (τ × List α)) × List α) :=
  longest (rules.flatMap fun rule =>
    (rule.1.parses s).map fun x => ((rule.2, x.1), x.2))

theorem longest_eq_none {κ : Type} {xs : List (κ × List α)} (h : longest xs = none) : xs = [] := by
  cases xs with
  | nil => rfl
  | cons x xs =>
      unfold longest at h
      cases hrest : longest xs with
      | none => rw [hrest] at h; exact absurd h (by simp)
      | some y =>
          rw [hrest] at h
          dsimp only at h
          split_ifs at h

/-- A match of everything is taken if it comes first. -/
theorem longest_cons_nil {κ : Type} (k : κ) (xs : List (κ × List α)) :
    longest ((k, []) :: xs) = some (k, []) := by
  unfold longest
  cases longest xs with
  | none => rfl
  | some y =>
      show (if y.2.length < 0 then _ else _) = _
      rw [if_neg (Nat.not_lt_zero _)]

/-- The match that is taken is one of them, and no other leaves a shorter rest. -/
theorem longest_spec {κ : Type} {xs : List (κ × List α)} {x : κ × List α}
    (h : longest xs = some x) : x ∈ xs ∧ ∀ y ∈ xs, x.2.length ≤ y.2.length := by
  induction xs generalizing x with
  | nil => exact absurd h (by simp [longest])
  | cons z xs ih =>
      unfold longest at h
      cases hrest : longest xs with
      | none =>
          rw [hrest, Option.some.injEq] at h
          have hnil : xs = [] := longest_eq_none hrest
          rw [← h, hnil]
          exact ⟨List.mem_singleton_self z, fun y hy => by rw [List.mem_singleton.mp hy]⟩
      | some y =>
          obtain ⟨hmem, hle⟩ := ih hrest
          rw [hrest] at h
          dsimp only at h
          by_cases hlt : y.2.length < z.2.length
          · rw [if_pos hlt, Option.some.injEq] at h
            subst h
            refine ⟨List.mem_cons_of_mem z hmem, List.forall_mem_cons.mpr ⟨by omega, hle⟩⟩
          · rw [if_neg hlt, Option.some.injEq] at h
            subst h
            refine ⟨List.mem_cons_self, List.forall_mem_cons.mpr ⟨le_refl _, fun w hw => ?_⟩⟩
            have := hle w hw
            omega

/-- **What a lexer takes** is a match of one of its rules, and no match of its rules is
longer. -/
theorem lex_sound {rules : List (Pattern α τ × β)} {s r : List α} {v : β}
    {c : List (τ × List α)} (h : lex rules s = some ((v, c), r)) :
    (∃ rule ∈ rules, rule.2 = v ∧ (c, r) ∈ rule.1.parses s)
      ∧ ∀ rule ∈ rules, ∀ x ∈ rule.1.parses s, r.length ≤ x.2.length := by
  obtain ⟨hmem, hle⟩ := longest_spec h
  obtain ⟨rule, hrule, hx⟩ := List.mem_flatMap.mp hmem
  obtain ⟨⟨c', r'⟩, hparse, heq⟩ := List.mem_map.mp hx
  obtain ⟨hvalue, rfl⟩ := Prod.mk.inj heq
  obtain ⟨hv, rfl⟩ := Prod.mk.inj hvalue
  refine ⟨⟨rule, hrule, hv, hparse⟩, fun rule hrule x hx => ?_⟩
  exact hle ((rule.2, x.1), x.2) (List.mem_flatMap.mpr ⟨rule, hrule, List.mem_map_of_mem hx⟩)

/-- A lexer takes something where one of its rules matches. -/
theorem lex_ne_none {rules : List (Pattern α τ × β)} {s : List α} {rule : Pattern α τ × β}
    (hrule : rule ∈ rules) {x : List (τ × List α) × List α} (hx : x ∈ rule.1.parses s) :
    lex rules s ≠ none := by
  intro hnone
  have hnil := longest_eq_none hnone
  rw [List.flatMap_eq_nil_iff] at hnil
  have hmap := hnil rule hrule
  rw [List.map_eq_nil_iff] at hmap
  rw [hmap] at hx
  exact absurd hx List.not_mem_nil

/-- **The rule of a text**: the rules before it don't match, and every match of its
own is this one, of the whole text. -/
theorem lex_eq_of_full {before after : List (Pattern α τ × β)} {a : Pattern α τ} {v : β}
    {s : List α} {c : List (τ × List α)} (hbefore : ∀ rule ∈ before, rule.1.parses s = [])
    (hmatch : (c, []) ∈ a.parses s) (hunique : ∀ x ∈ a.parses s, x = (c, [])) :
    lex (before ++ (a, v) :: after) s = some ((v, c), []) := by
  have hnone : (before.flatMap fun rule =>
      (rule.1.parses s).map fun x => ((rule.2, x.1), x.2)) = [] := by
    rw [List.flatMap_eq_nil_iff]
    intro rule hrule
    rw [hbefore rule hrule, List.map_nil]
  -- the first match of the rule is the only one, and the rules after don't beat it
  obtain ⟨x, xs, hxs⟩ := List.exists_cons_of_ne_nil (List.ne_nil_of_mem hmatch)
  obtain rfl : x = (c, []) := hunique x (by rw [hxs]; exact List.mem_cons_self)
  rw [lex, List.flatMap_append, hnone, List.nil_append, List.flatMap_cons, hxs, List.map_cons,
    List.cons_append]
  exact longest_cons_nil (v, c) _

/-- The rule of a text, which it matches in one way. -/
theorem lex_eq_of_iff {before after : List (Pattern α τ × β)} {a : Pattern α τ} {v : β}
    {s : List α} {c : List (τ × List α)} (hbefore : ∀ rule ∈ before, rule.1.parses s = [])
    (hmatch : ∀ c' r, (c', r) ∈ a.parses s ↔ c' = c ∧ r = []) :
    lex (before ++ (a, v) :: after) s = some ((v, c), []) := by
  apply lex_eq_of_full hbefore ((hmatch c []).mpr ⟨rfl, rfl⟩)
  rintro ⟨c', r⟩ h
  obtain ⟨rfl, rfl⟩ := (hmatch c' r).mp h
  rfl

end Patterns

end PkgPlugins.Lexer
