/-
The magic comments of a script (`parse_rc_d_script`, `plugins/services/services_db.c`).

The loop over the logical lines of a script has three states: before the block of
magic comments, in it, and behind it. What it hands over is told here by that block:
the lines are cut into those before the first magic comment, the magic comments that
follow one another from there, and the rest. No magic prefix begins with another, so a
line has at most one of them, although singular and plural forms share most of theirs.
What follows the prefix is cut at blanks: `cut_iff` says which tokens come of that.
-/
import PkgPlugins.ServicesDb
import Mathlib.Data.List.Infix
import Mathlib.Data.List.Forall2

set_option autoImplicit false

namespace PkgPlugins.MagicComments

open PkgPlugins.ServicesDb

/-! ## Tokens -/

/-- What separates two tokens. -/
def Blank (c : Char) : Prop := c = ' ' ∨ c = '\t' ∨ c = '\n'

/-- The tokens of a text: none is empty or has a blank in it, they are in order, and blanks
alone are before, after and, at least one, between them. -/
inductive Cut : Text → List Text → Prop
  | nil {p : Text} : (∀ c ∈ p, Blank c) → Cut p []
  | cons {before token rest : Text} {tokens : List Text} :
      (∀ c ∈ before, Blank c) → token ≠ [] → (∀ c ∈ token, ¬ Blank c) →
      (∀ c ∈ rest.head?, Blank c) → Cut rest tokens →
      Cut (before ++ (token ++ rest)) (token :: tokens)

/-- A delimiter of `strsep` is a blank. -/
theorem delimiter_iff (c : Char) : (c == ' ' || c == '\t' || c == '\n') = true ↔ Blank c := by
  simp [Blank, or_assoc]

theorem delimiter_eq_false {c : Char} (h : ¬ Blank c) :
    (c == ' ' || c == '\t' || c == '\n') = false := by
  rw [← Bool.not_eq_true, delimiter_iff]
  exact h

theorem strsep_tokens_blank {c : Char} (h : Blank c) (p : Text) :
    strsep_tokens (c :: p) = strsep_tokens p := by
  unfold strsep_tokens
  rw [List.splitOnP_cons_eq_if_modifyHead, if_pos ((delimiter_iff c).mpr h),
    List.filter_cons_of_neg (by simp)]

theorem strsep_tokens_blanks {before : Text} (h : ∀ c ∈ before, Blank c) (p : Text) :
    strsep_tokens (before ++ p) = strsep_tokens p := by
  induction before with
  | nil => rfl
  | cons c before ih =>
      obtain ⟨hc, hbefore⟩ := List.forall_mem_cons.mp h
      rw [List.cons_append, strsep_tokens_blank hc, ih hbefore]

/-- A token goes up to the next blank or to the end. -/
theorem strsep_tokens_token {token rest : Text} (hne : token ≠ [])
    (htoken : ∀ c ∈ token, ¬ Blank c) (hrest : ∀ c ∈ rest.head?, Blank c) :
    strsep_tokens (token ++ rest) = token :: strsep_tokens rest := by
  have hfree : ∀ c ∈ token, (c == ' ' || c == '\t' || c == '\n') = false :=
    fun c hc => delimiter_eq_false (htoken c hc)
  have hkept (tokens : List Text) : (token :: tokens).filter (· ≠ [])
      = token :: tokens.filter (· ≠ []) :=
    List.filter_cons_of_pos (decide_eq_true hne)
  cases rest with
  | nil =>
      rw [List.append_nil, strsep_tokens, List.splitOnP_eq_singleton hfree, hkept]
      rfl
  | cons c rest =>
      have hc : Blank c := hrest c rfl
      rw [strsep_tokens_blank hc, strsep_tokens,
        List.splitOnP_append_cons_of_forall_mem hfree c ((delimiter_iff c).mpr hc), hkept]
      rfl

theorem Cut.strsep_tokens_eq {p : Text} {tokens : List Text} (h : Cut p tokens) :
    strsep_tokens p = tokens := by
  induction h with
  | @nil p hp =>
      rw [← List.append_nil p, strsep_tokens_blanks hp]
      rfl
  | cons hbefore hne htoken hrest _ ih =>
      rw [strsep_tokens_blanks hbefore, strsep_tokens_token hne htoken hrest, ih]

/-- A token at the start. -/
theorem Cut.first {token rest : Text} {tokens : List Text} (hne : token ≠ [])
    (htoken : ∀ c ∈ token, ¬ Blank c) (hrest : ∀ c ∈ rest.head?, Blank c) (h : Cut rest tokens) :
    Cut (token ++ rest) (token :: tokens) :=
  .cons (List.forall_mem_nil _) hne htoken hrest h

/-- A blank in front changes nothing. -/
theorem Cut.blank {c : Char} {p : Text} {tokens : List Text} (h : Cut p tokens) (hc : Blank c) :
    Cut (c :: p) tokens := by
  cases h with
  | nil hp => exact .nil (List.forall_mem_cons.mpr ⟨hc, hp⟩)
  | cons hbefore hne htoken hrest hcut =>
      exact .cons (List.forall_mem_cons.mpr ⟨hc, hbefore⟩) hne htoken hrest hcut

/-- Another character begins a token, or is put before the first one. -/
theorem Cut.char {c : Char} {p : Text} {tokens : List Text} (h : Cut p tokens) (hc : ¬ Blank c) :
    ∃ tokens', Cut (c :: p) tokens' := by
  have hsingle : ∀ d ∈ [c], ¬ Blank d := by simpa using hc
  cases h with
  | nil hp =>
      have hfirst : ∀ d ∈ p.head?, Blank d := fun d hd => hp d (List.mem_of_mem_head? hd)
      exact ⟨[[c]], .first (List.cons_ne_nil c []) hsingle hfirst (.nil hp)⟩
  | @cons before token rest tokens hbefore hne htoken hrest hcut =>
      cases before with
      | nil =>
          have hlonger : ∀ d ∈ c :: token, ¬ Blank d := List.forall_mem_cons.mpr ⟨hc, htoken⟩
          exact ⟨(c :: token) :: tokens, .first (List.cons_ne_nil c token) hlonger hrest hcut⟩
      | cons b before =>
          have hb : ∀ d ∈ (b :: before ++ (token ++ rest)).head?, Blank d := by
            intro d hd
            obtain rfl : b = d := Option.some.inj hd
            exact hbefore b List.mem_cons_self
          exact ⟨[c] :: token :: tokens, .first (List.cons_ne_nil c []) hsingle hb
            (.cons hbefore hne htoken hrest hcut)⟩

/-- Every text is cut. -/
theorem exists_cut (p : Text) : ∃ tokens, Cut p tokens := by
  induction p with
  | nil => exact ⟨[], .nil (by simp)⟩
  | cons c p ih =>
      obtain ⟨tokens, hcut⟩ := ih
      by_cases hc : Blank c
      · exact ⟨tokens, hcut.blank hc⟩
      · exact hcut.char hc

/-- **The tokens** the loop over `strsep` hands over are those of the text. -/
theorem cut_iff (p : Text) (tokens : List Text) : Cut p tokens ↔ strsep_tokens p = tokens := by
  constructor
  · exact Cut.strsep_tokens_eq
  · rintro rfl
    obtain ⟨tokens, hcut⟩ := exists_cut p
    rw [hcut.strsep_tokens_eq]
    exact hcut

/-! ## Prefixes -/

/-- The line begins with one of the magic prefixes. -/
def Magic (line : Text) : Prop := ∃ m ∈ rc_d_magic_comments, m.1 <+: line

/-- What a line hands over: the tokens of what follows its prefix, each for the handler of
the prefix. -/
def Handed (line : Text) (tokens : List (handle_token × Text)) : Prop :=
  ∃ bol handler rest texts, (bol, handler) ∈ rc_d_magic_comments ∧ line = bol ++ rest
    ∧ Cut rest texts ∧ tokens = texts.map (fun t => (handler, t))

theorem rc_d_magic_comments_apart : ∀ m ∈ rc_d_magic_comments, ∀ m' ∈ rc_d_magic_comments,
    m.1 <+: m'.1 → m = m' := by
  decide

/-- A line has at most one magic prefix. -/
theorem magic_unique {line : Text} {m m' : Text × handle_token} (hm : m ∈ rc_d_magic_comments)
    (hm' : m' ∈ rc_d_magic_comments) (h : m.1 <+: line) (h' : m'.1 <+: line) : m = m' := by
  rcases List.prefix_or_prefix_of_prefix h h' with hle | hle
  · exact rc_d_magic_comments_apart m hm m' hm' hle
  · exact (rc_d_magic_comments_apart m' hm' m hm hle).symm

/-- The loop over the prefixes finds the one of the line. -/
theorem find_magic_cases (line : Text) :
    (rc_d_magic_comments.find? (fun m => m.1.isPrefixOf line) = none ∧ ¬ Magic line)
      ∨ ∃ m, rc_d_magic_comments.find? (fun m => m.1.isPrefixOf line) = some m ∧ Magic line
        ∧ Handed line ((strsep_tokens (line.drop m.1.length)).map (fun t => (m.2, t))) := by
  cases hfind : rc_d_magic_comments.find? (fun m => m.1.isPrefixOf line) with
  | none =>
      refine Or.inl ⟨rfl, ?_⟩
      rintro ⟨m, hm, hstart⟩
      rw [List.find?_eq_none] at hfind
      exact hfind m hm (List.isPrefixOf_iff_prefix.mpr hstart)
  | some m =>
      have hm := List.mem_of_find?_eq_some hfind
      have hstart : m.1 <+: line := by simpa using List.find?_some hfind
      have hcut := (cut_iff (line.drop m.1.length) _).mpr rfl
      refine Or.inr ⟨m, rfl, ⟨m, hm, hstart⟩, m.1, m.2, line.drop m.1.length, _, hm, ?_, hcut, rfl⟩
      exact List.prefix_append_drop hstart

/-! ## The block -/

/-- In the block: the magic comments up to the first line that is none. -/
theorem rc_d_tokens_pending (lines : List Text) :
    ∃ block after handed, lines = block ++ after ∧ (∀ line ∈ block, Magic line)
      ∧ (∀ line ∈ after.head?, ¬ Magic line) ∧ List.Forall₂ Handed block handed
      ∧ rc_d_tokens .PARSING_PENDING lines = handed.flatten := by
  induction lines with
  | nil => exact ⟨[], [], [], rfl, by simp, by simp, .nil, rfl⟩
  | cons line lines ih =>
      rcases find_magic_cases line with ⟨hfind, hnot⟩ | ⟨m, hfind, hmagic, hhanded⟩
      · -- the first line that is no magic comment ends the parsing
        refine ⟨[], line :: lines, [], rfl, by simp, by simpa using hnot, .nil, ?_⟩
        rw [rc_d_tokens, if_neg (by simp)]
        simp only [hfind]
        cases lines <;> simp [rc_d_tokens]
      · obtain ⟨block, after, handed, rfl, hblock, hafter, hall, htokens⟩ := ih
        refine ⟨line :: block, after, _ :: handed, rfl, ?_, hafter, .cons hhanded hall, ?_⟩
        · intro l hl
          rcases List.mem_cons.mp hl with rfl | hl
          · exact hmagic
          · exact hblock l hl
        · rw [rc_d_tokens, if_neg (by simp)]
          simp only [hfind, htokens, List.flatten_cons]

/-- Before the block nothing is handed over. -/
theorem rc_d_tokens_before (lines : List Text) :
    ∃ before block after handed, lines = before ++ block ++ after
      ∧ (∀ line ∈ before, ¬ Magic line) ∧ (∀ line ∈ block, Magic line)
      ∧ (∀ line ∈ after.head?, ¬ Magic line) ∧ (block = [] → after = [])
      ∧ List.Forall₂ Handed block handed
      ∧ rc_d_tokens .PARSING_BEFORE lines = handed.flatten := by
  induction lines with
  | nil => exact ⟨[], [], [], [], rfl, by simp, by simp, by simp, by simp, .nil, rfl⟩
  | cons line lines ih =>
      rcases find_magic_cases line with ⟨hfind, hnot⟩ | ⟨m, hfind, hmagic, hhanded⟩
      · obtain ⟨before, block, after, handed, rfl, hbefore, hblock, hafter, hfirst, hall,
          htokens⟩ := ih
        refine ⟨line :: before, block, after, handed, rfl, ?_, hblock, hafter, hfirst, hall, ?_⟩
        · intro l hl
          rcases List.mem_cons.mp hl with rfl | hl
          · exact hnot
          · exact hbefore l hl
        · rw [rc_d_tokens, if_neg (by simp)]
          simpa only [hfind, ne_eq, not_true_eq_false, if_false] using htokens
      · -- the block begins with the first magic comment
        obtain ⟨block, after, handed, rfl, hblock, hafter, hall, htokens⟩ :=
          rc_d_tokens_pending lines
        refine ⟨[], line :: block, after, _ :: handed, rfl, by simp, ?_, hafter, by simp,
          .cons hhanded hall, ?_⟩
        · intro l hl
          rcases List.mem_cons.mp hl with rfl | hl
          · exact hmagic
          · exact hblock l hl
        · rw [rc_d_tokens, if_neg (by simp)]
          simp only [hfind, htokens, List.flatten_cons]

/-- **The parsing of a script.** The lines are those before the first magic comment, the
magic comments that follow one another from there, and the rest, which is empty or
begins with a line that is none. The handlers are called on the tokens of the magic
comments in between, in order, each handler on those of the lines with its prefix, and on
nothing else. -/
theorem parse_rc_d_script_block (lines : List Text) :
    ∃ before block after handed, lines = before ++ block ++ after
      ∧ (∀ line ∈ before, ¬ Magic line) ∧ (∀ line ∈ block, Magic line)
      ∧ (∀ line ∈ after.head?, ¬ Magic line) ∧ (block = [] → after = [])
      ∧ List.Forall₂ Handed block handed
      ∧ (∀ line ∈ block, ∃! m, m ∈ rc_d_magic_comments ∧ m.1 <+: line)
      ∧ rc_d_tokens .PARSING_BEFORE lines = handed.flatten
      ∧ ∀ db script, parse_rc_d_script db script lines
          = handed.flatten.foldl (fun db t => handle_token.run db script t) db := by
  obtain ⟨before, block, after, handed, hlines, hbefore, hblock, hafter, hfirst, hall, htokens⟩ :=
    rc_d_tokens_before lines
  refine ⟨before, block, after, handed, hlines, hbefore, hblock, hafter, hfirst, hall, ?_, htokens,
    fun db script => ?_⟩
  · intro line hline
    obtain ⟨m, hm, hstart⟩ := hblock line hline
    exact ⟨m, ⟨hm, hstart⟩, fun m' hm' => magic_unique hm'.1 hm hm'.2 hstart⟩
  · rw [parse_rc_d_script, htokens]

/-- Only the first of two blocks counts, and `# REQUIRES:` is not `# REQUIRE:`. -/
example : rc_d_tokens .PARSING_BEFORE ["#!/bin/sh".toList, "# PROVIDE: a  b".toList,
    "# REQUIRES:\tc".toList, "".toList, "# KEYWORD: d".toList]
    = [(.provide, ['a']), (.provide, ['b']), (.require, ['c'])] := by
  decide

end PkgPlugins.MagicComments
