/-
Strings joined in a buffer, byte by byte: `stpcpy_sp` (`kissc/stpcpy_sp.c`) with
`argv_join` (`shared/argv.c`) and `path_join` (`shared/path_join.c`).

Buffers has the text that `stpcpy_sp` leaves. Here a buffer is its bytes, whatever they
were before: a write is a fault if it is not in the buffer, and what a function that fails
leaves behind can be read. `stpcpy_sp_spec` says what the bytes have to do with the text.

Both joins are one loop. It takes the pointer for the index: a separator is written if the
pointer has moved, which empty strings don't do. The errors they set are those of Buffers.
-/
import Mathlib.Data.List.Basic
import PkgPlugins.Buffers

set_option autoImplicit false

namespace PkgPlugins.BufferJoin

open PkgPlugins.Libc

/-! ## The functions -/

/-- An access that is not in the buffer. -/
inductive Fault
  | outside (offset : ℕ)
deriving DecidableEq

/-- `*to = c`. -/
def write (buffer : List Char) (to_ : ℕ) (c : Char) : Except Fault (List Char) :=
  if to_ < buffer.length then .ok (buffer.set to_ c) else .error (.outside to_)

/-- `*p`. -/
def read (buffer : List Char) (p : ℕ) : Except Fault Char :=
  match buffer[p]? with
  | some c => .ok c
  | none => .error (.outside p)

/-- `while (to < to_limit && '\0' != (*to++ = *from++));`, which ends with the string if not
with the buffer. -/
def copy_loop (buffer : List Char) (to_ : ℕ) : List Char → Except Fault (List Char × ℕ)
  | [] =>
      if to_ < buffer.length then do
        let buffer ← write buffer to_ NUL
        return (buffer, to_ + 1)
      else return (buffer, to_)
  | c :: from_ =>
      if to_ < buffer.length then do
        let buffer ← write buffer to_ c
        if c ≠ NUL then copy_loop buffer (to_ + 1) from_ else return (buffer, to_ + 1)
      else return (buffer, to_)

/-- `stpcpy_sp(to, from, to_limit)`, where the limit is the end of the buffer, pointers are
offsets and `from` is a string. -/
def stpcpy_sp (buffer : List Char) (to_ : ℕ) (from_ : List Char) :
    Except Fault (List Char × Option ℕ) :=
  let zero_ := buffer.length - 1
  if to_ ≥ zero_ then return (buffer, none)
  else do
    let (buffer, to_) ← copy_loop buffer to_ from_
    if to_ = buffer.length then
      if NUL ≠ (← read buffer zero_) then do
        let buffer ← write buffer (to_ - 1) NUL
        return (buffer, none)
      else return (buffer, some (to_ - 1))
    else return (buffer, some (to_ - 1))

/-- The separator, where `w != buffer`. -/
def separate (sep : Char) (buffer : List Char) (w : ℕ) : Except Fault (List Char × Option ℕ) :=
  if w ≠ 0 then stpcpy_sp buffer w [sep] else return (buffer, some w)

/-- The loop of `argv_join` and `path_join`, from `w` on. -/
def join_loop (sep : Char) (buffer : List Char) (w : ℕ) :
    List (List Char) → Except Fault (List Char × Option ℕ)
  | [] => return (buffer, some w)
  | arg :: args => do
      let (buffer, w) ← separate sep buffer w
      match w with
      | none => return (buffer, none)
      | some w =>
          let (buffer, w) ← stpcpy_sp buffer w arg
          match w with
          | none => return (buffer, none)
          | some w => join_loop sep buffer w args

/-- The bytes of the buffer and the result. -/
def argv_join (buffer : List Char) (args : List (List Char)) : Except Fault (List Char × Bool) :=
  (join_loop ' ' buffer 0 args).map fun r => (r.1, r.2.isSome)

def path_join (buffer : List Char) (args : List (List Char)) : Except Fault (List Char × Bool) :=
  (join_loop '/' buffer 0 args).map fun r => (r.1, r.2.isSome)

/-! ## What is promised -/

/-- The string in a buffer. -/
def Holds (buffer text : List Char) : Prop := NUL ∉ text ∧ ∃ rest, buffer = text ++ NUL :: rest

/-- The strings with one separator between each two. -/
def joined (sep : Char) (args : List (List Char)) : List Char := [sep].intercalate args

/-- **The promise**: the function writes in the buffer only; it returns `true` if and only
if the joined string fits, which the buffer then holds; with `false` the buffer holds the
start of it. -/
def Joins (join : List Char → List (List Char) → Except Fault (List Char × Bool)) (sep : Char)
    (buffer : List Char) (args : List (List Char)) : Prop :=
  ∃ buffer' ok, join buffer args = .ok (buffer', ok) ∧ buffer'.length = buffer.length
    ∧ (ok = true ↔ (joined sep args).length + 1 ≤ buffer.length)
    ∧ (ok = true → Holds buffer' (joined sep args))
    ∧ (ok = false → ∃ text, text <+: joined sep args ∧ Holds buffer' text)

/-- No empty string comes before another string. -/
def Plain (args : List (List Char)) : Prop := args.head? ≠ some [] ∨ args.length = 1

/-- The strings after the empty ones at the start. -/
def after_empty (args : List (List Char)) : List (List Char) :=
  args.dropWhile fun arg => arg.isEmpty

/-- Where the promise is kept: in a buffer of one byte if it already ends a string there and
that is too short; in a larger one, for strings that don't start with an empty one, unless
the last of them is empty and there is just room for all; else if there is no room, for
separators only. -/
def Kept (sep : Char) (buffer : List Char) (args : List (List Char)) : Prop :=
  buffer = [NUL] ∧ args ≠ [[]]
    ∨ 2 ≤ buffer.length ∧ Plain args
      ∧ ¬ (args.getLast? = some [] ∧ (joined sep args).length + 1 = buffer.length)
    ∨ 2 ≤ buffer.length ∧ ¬ Plain args
      ∧ (buffer.length ≤ (joined sep (after_empty args)).length
        ∨ args.getLast? = some [] ∧ buffer.length = (joined sep (after_empty args)).length + 1)
      ∧ ∀ c ∈ (joined sep (after_empty args)).take (buffer.length - 1), c = sep

/-! ## `stpcpy_sp` -/

theorem write_append (w junk : List Char) (x c : Char) :
    write (w ++ x :: junk) w.length c = .ok (w ++ c :: junk) := by
  have hlt : w.length < (w ++ x :: junk).length := by
    rw [List.length_append, List.length_cons]
    omega
  unfold write
  rw [if_pos hlt, List.set_append_right _ _ (Nat.le_refl _), Nat.sub_self, List.set_cons_zero]

theorem read_append (w junk : List Char) (c : Char) : read (w ++ c :: junk) w.length = .ok c := by
  unfold read
  rw [List.getElem?_append_right (Nat.le_refl _), Nat.sub_self]
  rfl

/-- The loop writes the string and its NUL, or as much of it as there is room for. -/
theorem copy_loop_spec {s : List Char} (hs : NUL ∉ s) (w junk : List Char) :
    copy_loop (w ++ junk) w.length s
      = .ok (if s.length < junk.length
          then (w ++ s ++ NUL :: junk.drop (s.length + 1), w.length + s.length + 1)
          else (w ++ s.take junk.length, w.length + junk.length)) := by
  induction s generalizing w junk with
  | nil =>
      cases junk with
      | nil => simp [copy_loop, pure, Except.pure]
      | cons x junk =>
          have hlt : w.length < (w ++ x :: junk).length := by simp
          rw [copy_loop, if_pos hlt, write_append]
          simp [bind, Except.bind, pure, Except.pure]
  | cons c s ih =>
      rw [List.mem_cons, not_or] at hs
      cases junk with
      | nil => simp [copy_loop, pure, Except.pure]
      | cons x junk =>
          have hlt : w.length < (w ++ x :: junk).length := by simp
          have hnext := ih hs.2 (w ++ [c]) junk
          rw [List.length_append, List.length_singleton, List.append_assoc,
            List.singleton_append] at hnext
          rw [copy_loop, if_pos hlt, write_append]
          simp only [bind, Except.bind, if_pos (Ne.symm hs.1)]
          rw [hnext]
          simp only [List.length_cons, Nat.add_lt_add_iff_right]
          split_ifs
          · simp [Nat.add_assoc, Nat.add_comm 1]
          · simp [Nat.add_assoc, Nat.add_comm 1]

/-- **`stpcpy_sp`** on a text `w` in a buffer: with room it appends the string and a NUL; with
only the last byte left it does nothing; else it fills the buffer up to that byte, which
becomes a NUL. -/
theorem stpcpy_sp_spec {s : List Char} (hs : NUL ∉ s) (w junk : List Char) :
    stpcpy_sp (w ++ junk) w.length s
      = .ok (match Buffers.stpcpy_sp (w ++ junk).length w s with
        | some text => (text ++ NUL :: junk.drop (s.length + 1), some text.length)
        | none =>
            (if junk.length ≤ 1 then w ++ junk
              else (w ++ s).take (w.length + junk.length - 1) ++ [NUL], none)) := by
  have hlen : (w ++ junk).length = w.length + junk.length := List.length_append
  unfold stpcpy_sp Buffers.stpcpy_sp
  rw [hlen]
  by_cases hone : junk.length ≤ 1
  · rw [if_pos (by omega), if_pos (by omega)]
    simp only [if_pos hone]
    rfl
  · rw [if_neg (by omega), if_neg (by omega), copy_loop_spec hs]
    by_cases hroom : s.length < junk.length
    · -- the NUL of the string is the last byte at most
      have hfit : ¬ w.length + junk.length < w.length + s.length + 1 := by omega
      have hlast : (w ++ s ++ NUL :: junk.drop (s.length + 1)).length = w.length + junk.length := by
        simp only [List.length_append, List.length_cons, List.length_drop]
        omega
      rw [if_pos hroom, if_neg hfit]
      simp only [bind, Except.bind, hlast]
      by_cases hend : w.length + s.length + 1 = w.length + junk.length
      · have hread : read (w ++ s ++ NUL :: junk.drop (s.length + 1)) (w.length + junk.length - 1)
            = .ok NUL := by
          have hidx : w.length + junk.length - 1 = (w ++ s).length := by
            rw [List.length_append]
            omega
          rw [hidx, read_append]
        rw [if_pos hend, hread]
        simp [pure, Except.pure]
      · rw [if_neg hend]
        simp [pure, Except.pure]
    · have hfull : w.length + junk.length < w.length + s.length + 1 := by omega
      have hlast : (w ++ s.take junk.length).length = w.length + junk.length := by
        rw [List.length_append, List.length_take]
        omega
      -- what is before the last byte, and what is there
      obtain ⟨m, hm⟩ : ∃ m, junk.length = m + 1 := ⟨junk.length - 1, by omega⟩
      have hlt : m < s.length := by omega
      have hsplit : w ++ s.take junk.length = (w ++ s.take m) ++ [s[m]] := by
        rw [hm, List.take_succ_eq_append_getElem hlt, List.append_assoc]
      have hidx : w.length + junk.length - 1 = (w ++ s.take m).length := by
        rw [List.length_append, List.length_take]
        omega
      have hread : read (w ++ s.take junk.length) (w.length + junk.length - 1) = .ok s[m] := by
        rw [hidx, hsplit, read_append]
      have hne : NUL ≠ s[m] := fun heq => hs (heq ▸ List.getElem_mem hlt)
      have htake : (w ++ s).take (w.length + junk.length - 1) = w ++ s.take m := by
        rw [List.take_append, List.take_of_length_le (by omega)]
        congr 2
        omega
      rw [if_neg hroom, if_pos hfull, htake, if_neg hone]
      simp only [bind, Except.bind, hlast, if_true]
      rw [hread]
      simp only [if_pos hne]
      rw [hidx, hsplit, write_append]
      rfl

/-! ## The loop -/

/-- The text after the separator, if there is one. -/
def separated (sep : Char) (w : List Char) : List Char := if w ≠ [] then w ++ [sep] else w

/-- The text that the loop aims at. -/
def text (sep : Char) : List Char → List (List Char) → List Char
  | w, [] => w
  | w, arg :: args => text sep (separated sep w ++ arg) args

/-- There is room for a copy. -/
def Fits (n : ℕ) (w s : List Char) : Prop := w.length + 1 < n ∧ w.length + s.length + 1 ≤ n

/-- There is room for all: one byte more if the last string is empty. -/
def Room (sep : Char) (n : ℕ) (w : List Char) (args : List (List Char)) : Prop :=
  args = [] ∨ (text sep w args).length + 1 ≤ n
    ∧ (args.getLast? = some [] → (text sep w args).length + 2 ≤ n)

/-- The text so far is in the buffer, and a NUL ends it once there is any. -/
structure At (buffer w junk : List Char) : Prop where
  split : buffer = w ++ junk
  room : junk ≠ []
  ended : w ≠ [] → junk.head? = some NUL
  two : 2 ≤ buffer.length

theorem separated_start (sep : Char) (w : List Char) : w <+: separated sep w := by
  unfold separated
  split_ifs
  · exact List.prefix_append w [sep]
  · exact List.prefix_refl w

theorem text_start (sep : Char) (args : List (List Char)) (w : List Char) :
    w <+: text sep w args := by
  induction args generalizing w with
  | nil => exact List.prefix_refl w
  | cons arg args ih =>
      exact (separated_start sep w).trans ((List.prefix_append _ arg).trans (ih _))

/-- Another string comes with a separator. -/
theorem length_text_cons (sep : Char) {w : List Char} (hw : w ≠ []) (arg : List Char)
    (args : List (List Char)) : w.length + 1 ≤ (text sep w (arg :: args)).length := by
  have hle := (text_start sep args (separated sep w ++ arg)).length_le
  rw [separated, if_pos hw, List.length_append, List.length_append, List.length_singleton] at hle
  rw [text, separated, if_pos hw]
  omega

theorem take_of_start {p t : List Char} (h : p <+: t) {k : ℕ} (hk : k ≤ p.length) :
    p.take k = t.take k := by
  obtain ⟨u, rfl⟩ := h
  rw [List.take_append_of_le_length hk]

/-- A copy where there is room, and where there is none. -/
theorem copy_spec {buffer w junk s : List Char} (h : At buffer w junk) (hs : NUL ∉ s) :
    (Fits buffer.length w s ∧ ∃ buffer' junk',
        stpcpy_sp buffer w.length s = .ok (buffer', some (w ++ s).length)
          ∧ At buffer' (w ++ s) junk' ∧ junk'.head? = some NUL ∧ buffer'.length = buffer.length)
      ∨ ¬ Fits buffer.length w s
        ∧ stpcpy_sp buffer w.length s
          = .ok ((w ++ s).take (buffer.length - 1) ++ [NUL], none) := by
  have hspec := stpcpy_sp_spec hs w junk
  rw [← h.split] at hspec
  have hlen : buffer.length = w.length + junk.length := by rw [h.split, List.length_append]
  by_cases hfits : Fits buffer.length w s
  · have hsome : Buffers.stpcpy_sp buffer.length w s = some (w ++ s) :=
      (Buffers.stpcpy_sp_eq_some_iff _ _ _ _).mpr ⟨rfl, hfits⟩
    rw [hsome] at hspec
    have hlength : (w ++ s ++ NUL :: junk.drop (s.length + 1)).length = buffer.length := by
      have hroom := hfits.2
      simp only [List.length_append, List.length_cons, List.length_drop]
      omega
    refine Or.inl ⟨hfits, _, _, hspec, ⟨rfl, List.cons_ne_nil _ _, fun _ => rfl, ?_⟩, rfl, hlength⟩
    exact hlength ▸ h.two
  · have hnone : Buffers.stpcpy_sp buffer.length w s = none := by
      rw [Option.eq_none_iff_forall_ne_some]
      exact fun t ht => hfits ((Buffers.stpcpy_sp_eq_some_iff _ _ _ _).mp ht).2
    rw [hnone] at hspec
    refine Or.inr ⟨hfits, hspec.trans ?_⟩
    by_cases hone : junk.length ≤ 1
    · -- only the NUL of the text is left
      obtain ⟨x, rest, rfl⟩ := List.exists_cons_of_ne_nil h.room
      have hrest : rest = [] := by
        rw [List.length_cons] at hone
        exact List.length_eq_zero_iff.mp (by omega)
      subst hrest
      have htwo := h.two
      rw [hlen, List.length_singleton] at htwo
      have hw : w ≠ [] := List.length_pos_iff.mp (by omega)
      have hx : x = NUL := Option.some.inj (h.ended hw)
      have htake : (w ++ s).take (buffer.length - 1) = w := by
        rw [hlen, List.length_singleton, Nat.add_sub_cancel, List.take_left' rfl]
      simp only [if_pos hone]
      rw [htake, h.split, hx]
    · rw [if_neg hone, hlen]

section Turns

variable {sep : Char} {buffer w junk arg : List Char} {args : List (List Char)}

/-- The separator is written where one is due, unless there is no room for it. -/
theorem separate_spec (hsep : sep ≠ NUL) (h : At buffer w junk) :
    (∃ buffer' junk', separate sep buffer w.length = .ok (buffer', some (separated sep w).length)
        ∧ At buffer' (separated sep w) junk' ∧ buffer'.length = buffer.length)
      ∨ (w ≠ [] ∧ buffer.length ≤ w.length + 1
        ∧ separate sep buffer w.length
          = .ok ((w ++ [sep]).take (buffer.length - 1) ++ [NUL], none)) := by
  have hnil : w.length ≠ 0 ↔ w ≠ [] := List.length_eq_zero_iff.not
  unfold separate
  by_cases hw : w ≠ []
  · have hnosep : NUL ∉ [sep] := fun hmem => hsep (List.mem_singleton.mp hmem).symm
    rw [if_pos (hnil.mpr hw), separated, if_pos hw]
    obtain ⟨-, buffer', junk', hrun, hat, -, hlen⟩ | ⟨hfits, hrun⟩ := copy_spec h hnosep
    · exact Or.inl ⟨buffer', junk', hrun, hat, hlen⟩
    · refine Or.inr ⟨hw, ?_, hrun⟩
      by_contra hlt
      refine hfits ⟨by omega, ?_⟩
      rw [List.length_singleton]
      omega
  · rw [if_neg (mt hnil.mp hw), separated, if_neg hw]
    exact Or.inl ⟨buffer, junk, rfl, h, rfl⟩

/-- Once a string is copied, there is room for all if there is for the rest. -/
theorem room_cons_iff {n : ℕ} (h : Fits n (separated sep w) arg) :
    Room sep n w (arg :: args) ↔ Room sep n (separated sep w ++ arg) args := by
  cases args with
  | nil =>
      refine iff_of_true (Or.inr ⟨?_, fun hlast => ?_⟩) (Or.inl rfl)
      · show (separated sep w ++ arg).length + 1 ≤ _
        rw [List.length_append]
        exact h.2
      · show (separated sep w ++ arg).length + 2 ≤ _
        rw [show arg = [] from Option.some.inj hlast, List.append_nil]
        exact h.1
  | cons b args =>
      unfold Room
      rw [List.getLast?_cons_cons]
      exact or_congr (iff_of_false (List.cons_ne_nil _ _) (List.cons_ne_nil _ _)) Iff.rfl

/-- Where there is no room for a string, there is none for all. -/
theorem not_room_of_not_fits {n : ℕ} (htwo : 2 ≤ n) (h : ¬ Fits n (separated sep w) arg) :
    ¬ Room sep n w (arg :: args) := by
  have hle := (text_start sep args (separated sep w ++ arg)).length_le
  rw [List.length_append] at hle
  rintro (hnil | ⟨hfit, hlast⟩)
  · exact absurd hnil (List.cons_ne_nil _ _)
  · have hfit' : (text sep (separated sep w ++ arg) args).length + 1 ≤ n := hfit
    refine h ⟨?_, by omega⟩
    -- only an empty string could fit the text and not the limit
    by_contra hlt
    have harg : arg = [] := List.length_eq_zero_iff.mp (by omega)
    cases args with
    | nil =>
        have hmore : (separated sep w ++ arg).length + 2 ≤ n := hlast (by rw [harg]; rfl)
        rw [List.length_append] at hmore
        omega
    | cons b args =>
        have hne : separated sep w ++ arg ≠ [] := by
          rw [← List.length_pos_iff, List.length_append]
          omega
        have hmore := length_text_cons sep hne b args
        rw [List.length_append] at hmore
        omega

/-- Where there is no room for a separator, there is none for all. -/
theorem not_room_of_full {n : ℕ} (hw : w ≠ []) (hfull : n ≤ w.length + 1) :
    ¬ Room sep n w (arg :: args) := by
  rintro (hnil | ⟨hfit, -⟩)
  · exact absurd hnil (List.cons_ne_nil _ _)
  · have hmore := length_text_cons sep hw arg args
    omega

/-- A turn after the separator. -/
theorem join_loop_cons {buffer' : List Char}
    (hrun : separate sep buffer w.length = .ok (buffer', some (separated sep w).length)) :
    join_loop sep buffer w.length (arg :: args)
      = stpcpy_sp buffer' (separated sep w).length arg >>= fun r =>
        match r.2 with
        | none => .ok (r.1, none)
        | some w => join_loop sep r.1 w args := by
  rw [join_loop, hrun]
  rfl

theorem separated_text_start : separated sep w <+: text sep w (arg :: args) :=
  (List.prefix_append _ arg).trans (text_start sep args _)

end Turns

/-- **The loop**: with room for all it leaves the text it aims at; else the start of it fills
the buffer. -/
theorem join_loop_spec {sep : Char} (hsep : sep ≠ NUL) (args : List (List Char)) :
    ∀ {buffer w junk : List Char}, (∀ arg ∈ args, NUL ∉ arg) → At buffer w junk →
      (Room sep buffer.length w args ∧ ∃ buffer' junk',
          join_loop sep buffer w.length args = .ok (buffer', some (text sep w args).length)
            ∧ At buffer' (text sep w args) junk' ∧ buffer'.length = buffer.length
            ∧ (args ≠ [] → junk'.head? = some NUL))
        ∨ ¬ Room sep buffer.length w args
          ∧ join_loop sep buffer w.length args
            = .ok ((text sep w args).take (buffer.length - 1) ++ [NUL], none) := by
  induction args with
  | nil =>
      intro buffer w junk _ h
      exact Or.inl ⟨Or.inl rfl, buffer, junk, rfl, h, rfl, fun hne => absurd rfl hne⟩
  | cons arg args ih =>
      intro buffer w junk hnul h
      rw [List.forall_mem_cons] at hnul
      obtain ⟨buffer1, junk1, hrun1, h1, hlen1⟩ | ⟨hw, hfull, hrun1⟩ := separate_spec hsep h
      · rw [join_loop_cons hrun1, ← hlen1]
        obtain ⟨hfits, buffer2, junk2, hrun2, h2, hhead2, hlen2⟩ | ⟨hfits, hrun2⟩ :=
          copy_spec h1 hnul.1
        · -- the string is copied, and the rest is up to the next turns
          rw [hrun2, room_cons_iff hfits, ← hlen2]
          simp only [bind, Except.bind]
          obtain ⟨hr, buffer3, junk3, hrun3, h3, hlen3, hhead3⟩ | ⟨hr, hrun3⟩ := ih hnul.2 h2
          · refine Or.inl ⟨hr, buffer3, junk3, hrun3, h3, hlen3, fun _ => ?_⟩
            cases args with
            | nil =>
                cases hrun3
                exact List.append_cancel_left (h3.split.symm.trans h2.split) ▸ hhead2
            | cons b args => exact hhead3 (List.cons_ne_nil _ _)
          · exact Or.inr ⟨hr, hrun3⟩
        · -- there is no room for the string, nor then for the text
          have hshort : buffer1.length - 1 ≤ (separated sep w ++ arg).length := by
            rw [List.length_append]
            by_contra hlt
            exact hfits ⟨by omega, by omega⟩
          refine Or.inr ⟨not_room_of_not_fits h1.two hfits, ?_⟩
          rw [hrun2]
          show Except.ok (_, none) = _
          rw [take_of_start (text_start sep args (separated sep w ++ arg)) hshort]
          rfl
      · -- there is no room for the separator
        have hstart := @separated_text_start sep w arg args
        rw [separated, if_pos hw] at hstart
        refine Or.inr ⟨not_room_of_full hw hfull, ?_⟩
        rw [join_loop, hrun1]
        show Except.ok (_, none) = _
        rw [take_of_start hstart]
        rw [List.length_append, List.length_singleton]
        omega

/-! ## The text and the joined string -/

theorem joined_append (sep : Char) (u arg : List Char) (args : List (List Char)) :
    joined sep ((u ++ arg) :: args) = u ++ joined sep (arg :: args) := by
  unfold joined
  cases args with
  | nil => rw [List.intercalate_singleton, List.intercalate_singleton]
  | cons b args =>
      rw [List.intercalate_cons_cons, List.intercalate_cons_cons]
      simp only [List.append_assoc]

/-- Once there is some text, every string comes after a separator. -/
theorem text_eq_joined (sep : Char) (args : List (List Char)) {w : List Char} (hw : w ≠ []) :
    text sep w args = joined sep (w :: args) := by
  induction args generalizing w with
  | nil => exact (List.intercalate_singleton).symm
  | cons arg args ih =>
      have hne : (w ++ [sep]) ++ arg ≠ [] := by simp
      rw [text, separated, if_pos hw, ih hne, joined_append, joined, joined,
        List.intercalate_cons_cons]

/-- The loop leaves the empty strings at the start out. -/
theorem text_nil (sep : Char) (args : List (List Char)) :
    text sep [] args = joined sep (after_empty args) := by
  induction args with
  | nil => rfl
  | cons arg args ih =>
      have hstep : text sep [] (arg :: args) = text sep arg args := rfl
      rw [hstep]
      cases arg with
      | nil => exact ih
      | cons c arg => exact text_eq_joined sep args (List.cons_ne_nil c arg)

theorem Plain.joined_eq {args : List (List Char)} (h : Plain args) (sep : Char) :
    joined sep (after_empty args) = joined sep args := by
  obtain hhead | hone := h
  · cases args with
    | nil => rfl
    | cons arg args =>
        cases arg with
        | nil => exact absurd rfl hhead
        | cons c arg => rfl
  · obtain ⟨arg, rfl⟩ := List.length_eq_one_iff.mp hone
    cases arg <;> rfl

/-- Each of the empty strings at the start takes a separator. -/
theorem joined_of_not_plain (sep : Char) {args : List (List Char)} (h : ¬ Plain args) :
    ∃ e, 1 ≤ e
      ∧ joined sep args = List.replicate e sep ++ joined sep (after_empty args) := by
  -- each empty string at the start is a separator of the joined string
  have hstart : ∀ args : List (List Char), args ≠ [] → ∃ e, 1 ≤ e
      ∧ joined sep ([] :: args) = List.replicate e sep ++ text sep [] args := by
    intro args
    induction args with
    | nil => exact fun hne => absurd rfl hne
    | cons arg args ih =>
        intro _
        have hcons : joined sep ([] :: arg :: args) = sep :: joined sep (arg :: args) := by
          rw [joined, List.intercalate_cons_cons]
          rfl
        cases arg with
        | nil =>
            cases args with
            | nil => exact ⟨1, Nat.le_refl 1, hcons⟩
            | cons b args =>
                obtain ⟨e, -, he⟩ := ih (List.cons_ne_nil b args)
                exact ⟨e + 1, Nat.le_add_left 1 e, by rw [hcons, he]; rfl⟩
        | cons c arg =>
            have htext : text sep [] ((c :: arg) :: args) = joined sep ((c :: arg) :: args) :=
              text_eq_joined sep args (List.cons_ne_nil c arg)
            exact ⟨1, Nat.le_refl 1, by rw [hcons, htext]; rfl⟩
  unfold Plain at h
  rw [not_or, not_not] at h
  cases args with
  | nil => cases h.1
  | cons arg args =>
      obtain rfl : arg = [] := Option.some.inj h.1
      have hne : args ≠ [] := by
        rintro rfl
        exact h.2 rfl
      obtain ⟨e, he, heq⟩ := hstart args hne
      exact ⟨e, he, by rw [heq, text_nil]; rfl⟩

theorem joined_eq_nil_iff (sep : Char) {args : List (List Char)} (hne : args ≠ []) :
    joined sep args = [] ↔ args = [[]] := by
  obtain ⟨arg, args, rfl⟩ := List.exists_cons_of_ne_nil hne
  cases args with
  | nil => simp [joined]
  | cons b args => simp [joined]

theorem nul_notMem_joined {sep : Char} (hsep : sep ≠ NUL) {args : List (List Char)}
    (h : ∀ arg ∈ args, NUL ∉ arg) : NUL ∉ joined sep args := by
  induction args with
  | nil => exact List.not_mem_nil
  | cons arg args ih =>
      rw [List.forall_mem_cons] at h
      cases args with
      | nil =>
          rw [joined, List.intercalate_singleton]
          exact h.1
      | cons b args =>
          have hrest := ih h.2
          rw [joined] at hrest ⊢
          rw [List.intercalate_cons_cons, List.mem_append, List.mem_append, List.mem_singleton]
          rintro ((hmem | heq) | hmem)
          · exact h.1 hmem
          · exact hsep heq.symm
          · exact hrest hmem

/-- A buffer holds one string. -/
theorem Holds.unique {buffer s t : List Char} (hs : Holds buffer s) (ht : Holds buffer t) :
    s = t := by
  obtain ⟨hsn, r, rfl⟩ := hs
  obtain ⟨htn, r', heq⟩ := ht
  induction s generalizing t with
  | nil =>
      cases t with
      | nil => rfl
      | cons d t => exact absurd ((List.cons.inj heq).1 ▸ List.mem_cons_self) htn
  | cons c s ih =>
      rw [List.mem_cons, not_or] at hsn
      cases t with
      | nil => exact absurd (List.cons.inj heq).1.symm hsn.1
      | cons d t =>
          rw [List.mem_cons, not_or] at htn
          obtain ⟨rfl, htail⟩ := List.cons.inj heq
          rw [ih hsn.2 htn.2 htail]

/-- The start of a text is that of the text after some separators if it is separators. -/
theorem take_prefix_iff (sep : Char) {e : ℕ} (he : 1 ≤ e) (t : List Char) (m : ℕ) :
    t.take m <+: List.replicate e sep ++ t ↔ ∀ c ∈ t.take m, c = sep := by
  constructor
  · intro h
    -- each character is a separator, or the one `e` places before
    have hat : ∀ i, i < (t.take m).length → (t.take m)[i]? = some sep := by
      intro i
      induction i using Nat.strong_induction_on with
      | _ i ih =>
        intro hi
        have hsame : (t.take m)[i]? = (List.replicate e sep ++ t)[i]? := by
          obtain ⟨u, hu⟩ := h
          rw [← hu, List.getElem?_append_left hi]
        rw [hsame]
        by_cases hie : i < e
        · rw [List.getElem?_append_left (by rwa [List.length_replicate]),
            List.getElem?_replicate_of_lt hie]
        · rw [List.getElem?_append_right (by rw [List.length_replicate]; omega),
            List.length_replicate, ← ih (i - e) (by omega) (by omega),
            List.getElem?_take_of_lt]
          rw [List.length_take] at hi
          omega
    intro c hc
    obtain ⟨i, hi, rfl⟩ := List.mem_iff_getElem.mp hc
    have hsome := hat i hi
    rw [List.getElem?_eq_getElem hi] at hsome
    exact Option.some.inj hsome
  · intro h
    have hrep : t.take m = List.replicate (t.take m).length sep :=
      List.eq_replicate_iff.mpr ⟨rfl, h⟩
    have hcomm : t.take m ++ List.replicate e sep = List.replicate e sep ++ t.take m := by
      rw [hrep, List.replicate_append_replicate, List.replicate_append_replicate, Nat.add_comm]
    have hleft : t.take m <+: List.replicate e sep ++ t.take m :=
      hcomm ▸ List.prefix_append (t.take m) (List.replicate e sep)
    exact hleft.trans ((List.prefix_append_right_inj _).mpr (List.take_prefix m t))

/-! ## When the promise is kept -/

/-- In a buffer of one byte nothing is written. -/
theorem join_loop_one (sep x : Char) {args : List (List Char)} (hne : args ≠ []) :
    join_loop sep [x] 0 args = .ok ([x], none) := by
  obtain ⟨arg, args, rfl⟩ := List.exists_cons_of_ne_nil hne
  rfl

theorem holds_one {x : Char} {s : List Char} (h : Holds [x] s) : x = NUL ∧ s = [] := by
  obtain ⟨-, rest, heq⟩ := h
  cases s with
  | nil => exact ⟨(List.cons.inj heq).1, rfl⟩
  | cons c s => exact absurd (congrArg List.length heq) (by simp)

section Promise

variable {join : List Char → List (List Char) → Except Fault (List Char × Bool)} {sep : Char}
  {buffer buffer' : List Char} {args : List (List Char)}

/-- What is promised of a call that returns `true`. -/
theorem joins_true_iff (hrun : join buffer args = .ok (buffer', true))
    (hlen : buffer'.length = buffer.length) :
    Joins join sep buffer args
      ↔ (joined sep args).length + 1 ≤ buffer.length ∧ Holds buffer' (joined sep args) := by
  constructor
  · rintro ⟨buffer2, ok, hjoin, -, hok, htrue, -⟩
    rw [hrun] at hjoin
    cases hjoin
    exact ⟨hok.mp rfl, htrue rfl⟩
  · rintro ⟨hfit, hholds⟩
    refine ⟨buffer', true, hrun, hlen, iff_of_true rfl hfit, fun _ => hholds, fun h => ?_⟩
    exact absurd h.symm Bool.false_ne_true

/-- And of one that returns `false`. -/
theorem joins_false_iff (hrun : join buffer args = .ok (buffer', false))
    (hlen : buffer'.length = buffer.length) :
    Joins join sep buffer args
      ↔ ¬ (joined sep args).length + 1 ≤ buffer.length
        ∧ ∃ text, text <+: joined sep args ∧ Holds buffer' text := by
  constructor
  · rintro ⟨buffer2, ok, hjoin, -, hok, -, hfalse⟩
    rw [hrun] at hjoin
    cases hjoin
    exact ⟨fun hfit => absurd (hok.mpr hfit) Bool.false_ne_true, hfalse rfl⟩
  · rintro ⟨hfit, hstart⟩
    refine ⟨buffer', false, hrun, hlen, iff_of_false Bool.false_ne_true hfit, fun h => ?_,
      fun _ => hstart⟩
    exact absurd h Bool.false_ne_true

theorem kept_one_iff (x : Char) : Kept sep [x] args ↔ x = NUL ∧ args ≠ [[]] := by
  have htwo : ¬ 2 ≤ [x].length := by simp
  unfold Kept
  rw [List.cons_eq_cons, and_iff_left rfl]
  constructor
  · rintro (hkept | ⟨hlong, -⟩ | ⟨hlong, -⟩)
    · exact hkept
    · exact absurd hlong htwo
    · exact absurd hlong htwo
  · exact Or.inl

theorem ne_one_of_two (htwo : 2 ≤ buffer.length) : buffer ≠ [NUL] := by
  rintro rfl
  exact absurd htwo (by simp)

theorem kept_plain_iff (htwo : 2 ≤ buffer.length) (hplain : Plain args) :
    Kept sep buffer args
      ↔ ¬ (args.getLast? = some [] ∧ (joined sep args).length + 1 = buffer.length) := by
  constructor
  · rintro (⟨hone, -⟩ | ⟨-, -, hroom⟩ | ⟨-, hnot, -⟩)
    · exact absurd hone (ne_one_of_two htwo)
    · exact hroom
    · exact absurd hplain hnot
  · intro hroom
    exact Or.inr (Or.inl ⟨htwo, hplain, hroom⟩)

theorem kept_not_plain_iff (htwo : 2 ≤ buffer.length) (hplain : ¬ Plain args) :
    Kept sep buffer args
      ↔ (buffer.length ≤ (joined sep (after_empty args)).length
          ∨ args.getLast? = some []
            ∧ buffer.length = (joined sep (after_empty args)).length + 1)
        ∧ ∀ c ∈ (joined sep (after_empty args)).take (buffer.length - 1), c = sep := by
  constructor
  · rintro (⟨hone, -⟩ | ⟨-, hyes, -⟩ | ⟨-, -, hkept⟩)
    · exact absurd hone (ne_one_of_two htwo)
    · exact absurd hyes hplain
    · exact hkept
  · intro hkept
    exact Or.inr (Or.inr ⟨htwo, hplain, hkept⟩)

/-- The separators that are lost make the joined string longer than the text in the buffer. -/
theorem length_joined_of_not_plain (hplain : ¬ Plain args) :
    (joined sep (after_empty args)).length < (joined sep args).length := by
  obtain ⟨e, he, hsplit⟩ := joined_of_not_plain sep hplain
  rw [hsplit, List.length_append, List.length_replicate]
  omega

/-- A call with room for all. -/
theorem joins_room (hrun : join buffer args = .ok (buffer', true))
    (hlen : buffer'.length = buffer.length) (htwo : 2 ≤ buffer.length)
    (hholds : Holds buffer' (joined sep (after_empty args)))
    (hfit : (joined sep (after_empty args)).length + 1 ≤ buffer.length)
    (hlast : args.getLast? = some [] →
      (joined sep (after_empty args)).length + 2 ≤ buffer.length) :
    Joins join sep buffer args ↔ Kept sep buffer args := by
  rw [joins_true_iff hrun hlen]
  by_cases hplain : Plain args
  · rw [hplain.joined_eq sep] at hholds hfit hlast
    rw [kept_plain_iff htwo hplain]
    refine iff_of_true ⟨hfit, hholds⟩ ?_
    rintro ⟨hempty, hfull⟩
    have hmore := hlast hempty
    omega
  · have hlonger := @length_joined_of_not_plain sep args hplain
    rw [kept_not_plain_iff htwo hplain]
    refine iff_of_false ?_ ?_
    · rintro ⟨-, hheld⟩
      rw [hheld.unique hholds] at hlonger
      exact absurd hlonger (Nat.lt_irrefl _)
    · rintro ⟨hfull | ⟨hempty, hfull⟩, -⟩
      · omega
      · have hmore := hlast hempty
        omega

/-- A call without, where the text is cut. -/
theorem joins_full
    (hrun : join buffer args
      = .ok ((joined sep (after_empty args)).take (buffer.length - 1) ++ [NUL], false))
    (htwo : 2 ≤ buffer.length) (hnul : NUL ∉ joined sep (after_empty args))
    (hlong : buffer.length ≤ (joined sep (after_empty args)).length
      ∨ args.getLast? = some []
        ∧ buffer.length = (joined sep (after_empty args)).length + 1) :
    Joins join sep buffer args ↔ Kept sep buffer args := by
  have hcut : ((joined sep (after_empty args)).take (buffer.length - 1)).length
      = buffer.length - 1 := by
    rw [List.length_take]
    omega
  have hholds : Holds ((joined sep (after_empty args)).take (buffer.length - 1) ++ [NUL])
      ((joined sep (after_empty args)).take (buffer.length - 1)) :=
    ⟨fun hmem => hnul (List.mem_of_mem_take hmem), [], rfl⟩
  have hlen : ((joined sep (after_empty args)).take (buffer.length - 1) ++ [NUL]).length
      = buffer.length := by
    rw [List.length_append, hcut, List.length_singleton]
    omega
  -- what the buffer holds is the whole cut text
  have hstart : (∃ text, text <+: joined sep args
        ∧ Holds ((joined sep (after_empty args)).take (buffer.length - 1) ++ [NUL]) text)
      ↔ (joined sep (after_empty args)).take (buffer.length - 1) <+: joined sep args := by
    constructor
    · rintro ⟨text, htext, hheld⟩
      rwa [hheld.unique hholds] at htext
    · intro hcutstart
      exact ⟨_, hcutstart, hholds⟩
  rw [joins_false_iff hrun hlen, hstart]
  by_cases hplain : Plain args
  · rw [kept_plain_iff htwo hplain]
    rw [hplain.joined_eq sep] at hlong ⊢
    rw [and_iff_left (List.take_prefix _ _), not_iff_not]
    constructor
    · intro hfit
      rcases hlong with hfull | ⟨hempty, hfull⟩
      · omega
      · exact ⟨hempty, hfull.symm⟩
    · rintro ⟨-, hfull⟩
      exact Nat.le_of_eq hfull
  · have hlonger := @length_joined_of_not_plain sep args hplain
    obtain ⟨e, he, hsplit⟩ := joined_of_not_plain sep hplain
    have hshort : ¬ (joined sep args).length + 1 ≤ buffer.length := by omega
    rw [kept_not_plain_iff htwo hplain, and_iff_right hshort, and_iff_right hlong, hsplit]
    exact take_prefix_iff sep he (joined sep (after_empty args)) (buffer.length - 1)

end Promise

/-- The result of either join. -/
theorem loop_result {sep : Char} {buffer buffer' : List Char} {args : List (List Char)}
    {w : Option ℕ} (hrun : join_loop sep buffer 0 args = .ok (buffer', w)) :
    (join_loop sep buffer 0 args).map (fun r => (r.1, r.2.isSome)) = .ok (buffer', w.isSome) := by
  rw [hrun]
  rfl

/-- The loop of either join keeps the promise exactly there. -/
theorem joins_iff {sep : Char} (hsep : sep ≠ NUL) {buffer : List Char} (hbuffer : buffer ≠ [])
    {args : List (List Char)} (hne : args ≠ []) (hnul : ∀ arg ∈ args, NUL ∉ arg) :
    Joins (fun buffer args => (join_loop sep buffer 0 args).map fun r => (r.1, r.2.isSome)) sep
        buffer args
      ↔ Kept sep buffer args := by
  by_cases htwo : 2 ≤ buffer.length
  · have hat : At buffer [] buffer := ⟨rfl, hbuffer, fun h => absurd rfl h, htwo⟩
    have hafter : NUL ∉ joined sep (after_empty args) :=
      nul_notMem_joined hsep fun arg harg => hnul arg ((List.dropWhile_sublist _).subset harg)
    have hspec := join_loop_spec hsep args hnul hat
    unfold Room at hspec
    rw [text_nil, or_iff_right hne] at hspec
    obtain ⟨⟨hfit, hlast⟩, buffer', junk', hrun, hat', hlen, hhead⟩ | ⟨hroom, hrun⟩ := hspec
    · have hholds : Holds buffer' (joined sep (after_empty args)) := by
        obtain ⟨rest, hrest⟩ := List.head?_eq_some_iff.mp (hhead hne)
        exact ⟨hafter, rest, by rw [hat'.split, hrest]⟩
      exact joins_room (loop_result hrun) hlen htwo hholds hfit hlast
    · refine joins_full (loop_result hrun) htwo hafter ?_
      by_cases hempty : args.getLast? = some []
      · by_contra hno
        rw [not_or, not_and] at hno
        have hmore := hno.2 hempty
        exact hroom ⟨by omega, fun _ => by omega⟩
      · refine Or.inl ?_
        by_contra hno
        exact hroom ⟨by omega, fun h => absurd h hempty⟩
  · -- a single byte, which is left as it was
    obtain ⟨x, junk, rfl⟩ := List.exists_cons_of_ne_nil hbuffer
    obtain rfl : junk = [] := by
      rw [List.length_cons] at htwo
      exact List.eq_nil_of_length_eq_zero (by omega)
    rw [joins_false_iff (loop_result (join_loop_one sep x hne)) rfl, kept_one_iff, and_comm]
    refine and_congr ?_ ?_
    · constructor
      · rintro ⟨text, -, hholds⟩
        exact (holds_one hholds).1
      · rintro rfl
        exact ⟨[], List.nil_prefix, List.not_mem_nil, [], rfl⟩
    · rw [Ne, ← joined_eq_nil_iff sep hne, List.length_singleton, ← List.length_eq_zero_iff]
      omega

/-- **When the joins keep their promise**, on a buffer and strings of any kind. -/
theorem join_kept_iff {buffer : List Char} (hbuffer : buffer ≠ []) {args : List CString}
    (hne : args ≠ []) :
    (Joins argv_join ' ' buffer (args.map CString.chars)
        ↔ Kept ' ' buffer (args.map CString.chars))
      ∧ (Joins path_join '/' buffer (args.map CString.chars)
        ↔ Kept '/' buffer (args.map CString.chars)) := by
  have hne' : args.map CString.chars ≠ [] := List.map_eq_nil_iff.not.mpr hne
  have hnul : ∀ arg ∈ args.map CString.chars, NUL ∉ arg := by
    intro arg harg
    obtain ⟨s, -, rfl⟩ := List.mem_map.mp harg
    exact s.noNul
  exact ⟨joins_iff (by decide) hbuffer hne' hnul, joins_iff (by decide) hbuffer hne' hnul⟩

/-- Two strings in a buffer of eight bytes. -/
theorem join_kept_two :
    Joins argv_join ' ' (List.replicate 8 'x') [['a'], ['b']]
      ∧ Joins path_join '/' (List.replicate 8 'x') [['a'], ['b']] := by
  have hkept : ∀ sep, Kept sep (List.replicate 8 'x') [['a'], ['b']] := by
    refine fun sep => Or.inr (Or.inl ⟨by decide, Or.inl (by decide), fun hbad => ?_⟩)
    exact absurd hbad.1 (by decide)
  have hboth := @join_kept_iff (List.replicate 8 'x') (by decide)
    [⟨['a'], by decide⟩, ⟨['b'], by decide⟩] (List.cons_ne_nil _ _)
  exact ⟨hboth.1.mpr (hkept ' '), hboth.2.mpr (hkept '/')⟩

/-- An empty string at the start loses its separator, one at the end needs a byte more than it
takes, and a single byte isn't even made a NUL. -/
theorem joins_break :
    (path_join ['x', 'x', 'x', 'x'] [[], ['a']] = .ok (['a', NUL, 'x', 'x'], true)
        ∧ ¬ Joins path_join '/' ['x', 'x', 'x', 'x'] [[], ['a']])
      ∧ (path_join ['x', 'x', 'x'] [['a'], []] = .ok (['a', '/', NUL], false)
        ∧ ¬ Joins path_join '/' ['x', 'x', 'x'] [['a'], []])
      ∧ path_join ['x'] [['a']] = .ok (['x'], false)
        ∧ ¬ Joins path_join '/' ['x'] [['a']] := by
  have hrun1 : path_join ['x', 'x', 'x', 'x'] [[], ['a']] = .ok (['a', NUL, 'x', 'x'], true) := by
    decide
  have hrun2 : path_join ['x', 'x', 'x'] [['a'], []] = .ok (['a', '/', NUL], false) := by decide
  have hrun3 : path_join ['x'] [['a']] = .ok (['x'], false) := by decide
  refine ⟨⟨hrun1, ?_⟩, ⟨hrun2, ?_⟩, hrun3, ?_⟩
  · rintro ⟨buffer, ok, hjoin, -, -, htrue, -⟩
    rw [hrun1] at hjoin
    cases hjoin
    obtain ⟨-, rest, heq⟩ := htrue rfl
    exact absurd (List.cons.inj heq).1 (by decide)
  · rintro ⟨buffer, ok, hjoin, -, hok, -, -⟩
    rw [hrun2] at hjoin
    cases hjoin
    exact absurd (hok.mpr (by decide)) Bool.false_ne_true
  · rintro ⟨buffer, ok, hjoin, -, -, -, hfalse⟩
    rw [hrun3] at hjoin
    cases hjoin
    obtain ⟨t, -, hholds⟩ := hfalse rfl
    exact absurd (holds_one hholds).1 (by decide)

end PkgPlugins.BufferJoin
