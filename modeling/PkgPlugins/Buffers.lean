/-
Text built in buffers of a fixed size: `stpcpy_sp` (`kissc/stpcpy_sp.c`) and
`path_join` (`shared/path_join.c`).

A buffer of `size` bytes is modelled by what was written to it so far; the
terminating NUL takes one more byte. `stpcpy_sp` refuses to write where only the
last byte is left, even if there is nothing to copy.
-/
import PkgPlugins.Libc

set_option autoImplicit false

namespace PkgPlugins.Buffers

/-- `stpcpy_sp(to, from, to_limit)`, with `to` at the end of `written` in a
buffer of `size` bytes; `none` is `NULL`. -/
def stpcpy_sp (size : ℕ) (written from_ : List Char) : Option (List Char) :=
  if size ≤ written.length + 1 then none
  else if size < written.length + from_.length + 1 then none
  else some (written ++ from_)

/-- What `set_buffer_overflow_error` reports: the expression that was copied, its
value, and the room there was. -/
structure buffer_overflow where
  expr : String
  src : List Char
  dst_cap : ℕ
deriving DecidableEq

/-- The message; `dst` is the expression copied to. -/
def buffer_overflow.text (dst : String) (e : buffer_overflow) : String :=
  "buffer overflow: " ++ e.expr ++ " (\"" ++ String.ofList e.src ++ "\") doesn't fit into " ++ dst
    ++ " (" ++ toString (e.src.length + 1) ++ " > " ++ toString e.dst_cap ++ ")"

/-- A copy of `path_join`, with its error. -/
def path_join_copy (size : ℕ) (w : List Char) (expr : String) (src : List Char) :
    Except buffer_overflow (List Char) :=
  match stpcpy_sp size w src with
  | some w => .ok w
  | none => .error ⟨expr, src, size - w.length⟩

/-- The loop of `path_join` over its arguments. -/
def path_join_loop (size : ℕ) : List Char → List (List Char) → Except buffer_overflow (List Char)
  | w, [] => .ok w
  | w, arg :: args => do
      let w ← if w ≠ [] then path_join_copy size w "\"/\"" ['/'] else .ok w
      let w ← path_join_copy size w "arg" arg
      path_join_loop size w args

/-- `path_join(buffer, buffer_end, error, ...)`: the text in the buffer. -/
def path_join (size : ℕ) (args : List (List Char)) : Except buffer_overflow (List Char) :=
  path_join_loop size [] args

/-- A copy succeeds when the text and its NUL fit and more than the last byte
was free. -/
theorem stpcpy_sp_eq_some_iff (size : ℕ) (written from_ : List Char) (w : List Char) :
    stpcpy_sp size written from_ = some w
      ↔ w = written ++ from_ ∧ written.length + 1 < size
        ∧ written.length + from_.length + 1 ≤ size := by
  unfold stpcpy_sp
  split_ifs with h1 h2
  · simp only [false_iff, not_and, not_le]
    omega
  · simp only [false_iff, not_and, not_le]
    omega
  · simp only [Option.some.injEq, not_le, not_lt] at h1 h2 ⊢
    exact ⟨fun h => ⟨h.symm, h1, h2⟩, fun h => h.1.symm⟩

end PkgPlugins.Buffers
