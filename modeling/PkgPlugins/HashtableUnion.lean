/-
`hashtable_copy` and `hashtable_union` (`kissc/hashtable.c`).

Both work on tables that may be one another, so that here a table has an address, and a
pointer to one may be `NULL`. A table comes with its functions, which are addresses too: what
is at them is a parameter. The nodes of a table are in a memory of its own, as in Hashtable.

A loop over a table reads the next node after it has put something into the destination,
which may be the same table.
-/
import PkgPlugins.HashtableRuns

set_option autoImplicit false

namespace PkgPlugins.HashtableUnion

open PkgPlugins.Fallible PkgPlugins.Links PkgPlugins.Hashtable PkgPlugins.HashtableChains
open PkgPlugins.HashtableOps PkgPlugins.HashtableRuns

variable {K V : Type}

/-! ## Tables in memory -/

/-- `HashTable` with its functions; all but `ef` may be `NULL`. -/
structure Table (K V : Type) where
  ht : HashTable K V
  hf : Ptr
  ef : ℕ
  key_duper : Ptr
  key_dtor : Ptr
  value_dtor : Ptr

/-- The tables by their addresses; `brk` is the next one that `malloc` returns. -/
structure Store (K V : Type) where
  tables : ℕ → Option (Table K V)
  brk : ℕ

namespace Store

variable (m : Store K V)

/-- The table at an address. -/
def load (p : ℕ) : Except Fault (Table K V) :=
  match m.tables p with
  | some t => .ok t
  | none => .error (.freed p)

def save (p : ℕ) (t : Table K V) : Store K V :=
  { m with tables := Function.update m.tables p (some t) }

/-- `malloc` of a table. -/
def alloc (t : Table K V) : Store K V :=
  { tables := Function.update m.tables m.brk (some t), brk := m.brk + 1 }

/-- `n->gNext` -/
def next (p n : ℕ) : Except Fault Ptr := do
  let t ← m.load p
  let _ ← t.ht.node n
  .ok (t.ht.gNext n)

end Store

/-- `*p` -/
def deref : Ptr → Except Fault ℕ
  | none => .error .null
  | some p => .ok p

/-- `((void *) 1) == key_duper ? own : key_duper` -/
def keep (key_duper own : Ptr) : Ptr := if key_duper = some 1 then own else key_duper

/-- `p->key_duper = key_duper;` -/
def set_key_duper (m : Store K V) (p : ℕ) (key_duper : Ptr) : Except Fault (Store K V) := do
  let t ← m.load p
  .ok (m.save p { t with key_duper := key_duper })

/-! ## The functions -/

section Functions

variable (equal : ℕ → K → K → Bool) (key_dup : ℕ → K → K) (value_dup : ℕ → V → V)

/-- A callback, or the value as it is for `NULL`. -/
def called {A : Type} (dup : ℕ → A → A) : Ptr → A → A
  | none => id
  | some f => dup f

/-- `hashtable_quick_put(p, flags, h, key, value, NULL)` -/
def hashtable_quick_put (m : Store K V) (p : ℕ) (preserve : Bool) (h : ℕ) (key : K) (value : V) :
    Except Fault (Store K V × Bool) := do
  let t ← m.load p
  let r ← hashtable_put_real (equal t.ef) (called key_dup t.key_duper) t.ht preserve h key value
  .ok (m.save p { t with ht := r.1 }, r.2)

/-- What `hashtable_copy` copies to: a new table for `NULL`, else `dst` without its entries
and with the functions of `src`. -/
def destination (m : Store K V) (dst : Ptr) (src : Table K V) (key_duper : Ptr) :
    Except Fault (Store K V × ℕ) :=
  match dst with
  | none => .ok (m.alloc
      { src with
        ht := hashtable_init src.ht.count fun _ => none
        key_duper := keep key_duper src.key_duper }, m.brk)
  | some p => do
      let t ← m.load p
      let ht ← hashtable_clear t.ht
      .ok (m.save p { src with ht := ht, key_duper := keep key_duper src.key_duper }, p)

/-- The loop of `hashtable_copy`. -/
def copy_loop (ret src : ℕ) (value_duper : Ptr) :
    ℕ → Store K V → Ptr → Except Fault (Store K V)
  | 0, _, _ => .error .diverges
  | _ + 1, m, none => .ok m
  | fuel + 1, m, some n => do
      let s ← m.load src
      let c ← s.ht.node n
      let r ← hashtable_quick_put equal key_dup m ret false c.hash c.key
        (called value_dup value_duper c.data)
      let n ← r.1.next src n
      copy_loop ret src value_duper fuel r.1 n

/-- `hashtable_copy`: the last assignment is to `dst`, not to `ret`. -/
def hashtable_copy (m : Store K V) (dst : Ptr) (src : ℕ) (key_duper value_duper : Ptr) :
    Except Fault (Store K V × ℕ) := do
  let s ← m.load src
  let orig_key_duper := s.key_duper
  let r ← destination m dst s key_duper
  let s ← r.1.load src
  let m ← copy_loop equal key_dup value_dup r.2 src value_duper (s.ht.brk + 1) r.1 s.ht.gHead
  let p ← deref dst
  let m ← set_key_duper m p orig_key_duper
  .ok (m, r.2)

/-- The second attempt at a put, `value_duper(n->data)` being a call. -/
def put_again (m : Store K V) (dst : ℕ) (c : HashNode K V) (put : Bool)
    (key_duper value_duper : Ptr) : Except Fault (Store K V) :=
  if put = false ∧ key_duper ≠ none then do
    let f ← deref value_duper
    let r ← hashtable_quick_put equal key_dup m dst true c.hash c.key (value_dup f c.data)
    .ok r.1
  else .ok m

/-- The loop of `hashtable_union`. -/
def union_loop (dst set2 : ℕ) (key_duper value_duper : Ptr) :
    ℕ → Store K V → Ptr → Except Fault (Store K V)
  | 0, _, _ => .error .diverges
  | _ + 1, m, none => .ok m
  | fuel + 1, m, some n => do
      let s ← m.load set2
      let c ← s.ht.node n
      let r ← hashtable_quick_put equal key_dup m dst true c.hash c.key c.data
      let m ← put_again equal key_dup value_dup r.1 dst c r.2 key_duper value_duper
      let n ← m.next set2 n
      union_loop dst set2 key_duper value_duper fuel m n

/-- What `hashtable_union` merges `set2` into. -/
def union_destination (m : Store K V) (dst : Ptr) (set1 set2 : ℕ) (key_duper value_duper : Ptr) :
    Except Fault (Store K V × ℕ) :=
  if dst = none ∨ dst ≠ some set1 ∧ dst ≠ some set2 then
    hashtable_copy equal key_dup value_dup m dst set1 key_duper value_duper
  else .ok (m, if dst = some set1 then set1 else set2)

/-- The merge of `set2` into `p`, with the `key_duper` of the operation meanwhile. -/
def merge_into (m : Store K V) (p set2 : ℕ) (key_duper value_duper : Ptr) :
    Except Fault (Store K V) := do
  let t ← m.load p
  let orig_key_duper := t.key_duper
  let m ← set_key_duper m p (keep key_duper t.key_duper)
  let s ← m.load set2
  let m ← union_loop equal key_dup value_dup p set2 key_duper value_duper (s.ht.brk + 1) m
    s.ht.gHead
  set_key_duper m p orig_key_duper

/-- `hashtable_union`; it returns `NULL` for tables of different functions. -/
def hashtable_union (m : Store K V) (dst : Ptr) (set1 set2 : ℕ) (key_duper value_duper : Ptr) :
    Except Fault (Store K V × Ptr) := do
  let t1 ← m.load set1
  let t2 ← m.load set2
  if t1.hf = t2.hf ∧ t1.ef = t2.ef then do
    let r ← union_destination equal key_dup value_dup m dst set1 set2 key_duper value_duper
    let p ← deref dst
    let m ← merge_into equal key_dup value_dup r.1 p set2 key_duper value_duper
    .ok (m, some r.2)
  else .ok (m, none)

end Functions

/-! ## What is promised -/

/-- A well-formed table that can hold its buckets, with these entries in this order. -/
def Represents (hash : K → ℕ) (ef : K → K → Bool) (ht : HashTable K V) (es : List (K × V)) :
    Prop :=
  ∃ s, Simulates hash ef ht s ∧ s.entries = es ∧ s.capacity < 2 ^ 61

/-- The value of a key. -/
def lookup (ef : K → K → Bool) (es : List (K × V)) (key : K) : Option V :=
  (es.find? fun e => ef key e.1).map Prod.snd

section Promise

variable (hash : Ptr → K → ℕ) (equal : ℕ → K → K → Bool) (key_dup : ℕ → K → K)
  (value_dup : ℕ → V → V)

/-- **The promise of `hashtable_union`** without duplication: the result is `dst` if there is
one, a well-formed table with the functions of `set1`; a key has its value of `set1`, if it
has one there, and else that of `set2`; and no other table is changed. -/
def Unites (m : Store K V) (dst : Ptr) (set1 set2 : ℕ) (t1 : Table K V)
    (es1 es2 : List (K × V)) : Prop :=
  ∃ m' p t, hashtable_union equal key_dup value_dup m dst set1 set2 none none = .ok (m', some p)
    ∧ (∀ d, dst = some d → p = d) ∧ m'.tables p = some t ∧ t.hf = t1.hf ∧ t.ef = t1.ef
    ∧ (∃ es, Represents (hash t.hf) (equal t.ef) t.ht es)
    ∧ (∀ key, hashtable_get (hash t.hf) (equal t.ef) t.ht key
      = .ok ((lookup (equal t.ef) es1 key).or (lookup (equal t.ef) es2 key)))
    ∧ (∀ key, hashtable_contains (hash t.hf) (equal t.ef) t.ht key
      = .ok ((es1.any fun e => equal t.ef key e.1) || es2.any fun e => equal t.ef key e.1))
    ∧ ∀ q, q ≠ p → (m.tables q).isSome → m'.tables q = m.tables q

/-- **The promise of `hashtable_copy`**: a well-formed table of the same entries in the same
order, and no other table is changed. -/
def Copies (m : Store K V) (dst : Ptr) (src : ℕ) (s : Table K V) (es : List (K × V)) : Prop :=
  ∃ m' p t, hashtable_copy equal key_dup value_dup m dst src none none = .ok (m', p)
    ∧ (∀ d, dst = some d → p = d) ∧ m'.tables p = some t ∧ t.hf = s.hf ∧ t.ef = s.ef
    ∧ Represents (hash t.hf) (equal t.ef) t.ht es ∧ forward t.ht = .ok es
    ∧ ∀ q, q ≠ p → (m.tables q).isSome → m'.tables q = m.tables q

end Promise

/-- How many keys are in one of two tables. -/
def union_size (ef : K → K → Bool) (es1 es2 : List (K × V)) : ℕ :=
  es1.length + (es2.filter fun e => !es1.any fun e1 => ef e.1 e1.1).length

/-- Where `hashtable_union` keeps its promise: there is a destination; if it is `set2`, the
entries of `set1` are there already, and else there is room for the buckets. -/
def Kept (ef : K → K → Bool) (dst : Ptr) (set2 : ℕ) (es1 es2 : List (K × V)) : Prop :=
  dst ≠ none
    ∧ (dst = some set2 → ∀ e ∈ es1, lookup ef es2 e.1 = some e.2)
    ∧ (dst ≠ some set2 → union_size ef es1 es2 < 2 ^ 60)

/-! ## Lists of entries -/

section Entries

variable {hash : K → ℕ} {ef : K → K → Bool}

/-- The entries put one after another. -/
def put_all (ef : K → K → Bool) (preserve : Bool) (es es2 : List (K × V)) : List (K × V) :=
  es2.foldl (fun es e => list_step ef id es (.put preserve e.1 e.2)) es

theorem put_all_cons (preserve : Bool) (es : List (K × V)) (e : K × V) (es2 : List (K × V)) :
    put_all ef preserve es (e :: es2)
      = put_all ef preserve (list_step ef id es (.put preserve e.1 e.2)) es2 := rfl

/-- A put under a new key adds an entry. -/
theorem list_step_new {es : List (K × V)} {key : K} (h : (es.any fun e => ef key e.1) = false)
    (preserve : Bool) (value : V) :
    list_step ef id es (.put preserve key value) = es ++ [(key, value)] := by
  rw [list_step, h, if_neg Bool.false_ne_true, id]

theorem length_list_step_put (es : List (K × V)) (preserve : Bool) (key : K) (value : V) :
    es.length ≤ (list_step ef id es (.put preserve key value)).length := by
  unfold list_step
  simp only
  split_ifs
  · exact le_refl _
  · rw [List.length_map]
  · rw [List.length_append]
    exact Nat.le_add_right _ _

theorem length_put_all (preserve : Bool) (es2 : List (K × V)) (es : List (K × V)) :
    es.length ≤ (put_all ef preserve es es2).length := by
  induction es2 generalizing es with
  | nil => exact Nat.le_refl _
  | cons e es2 ih => exact (length_list_step_put es preserve e.1 e.2).trans (ih _)

theorem lookup_isSome (es : List (K × V)) (key : K) :
    (lookup ef es key).isSome = es.any fun e => ef key e.1 := by
  rw [lookup, Option.isSome_map, List.isSome_find?]

theorem lookup_cons (e : K × V) (es : List (K × V)) (key : K) :
    lookup ef (e :: es) key = (if ef key e.1 then some e.2 else none).or (lookup ef es key) := by
  unfold lookup
  rw [List.find?_cons]
  cases ef key e.1 <;> rfl

/-- Equal keys have the same value. -/
theorem lookup_congr (heq : KeyEquality hash ef id) {a b : K} (hab : ef a b = true)
    (es : List (K × V)) : lookup ef es a = lookup ef es b := by
  have hsame : ∀ e : K × V, ef a e.1 = ef b e.1 := by
    intro e
    rw [Bool.eq_iff_iff]
    exact ⟨fun h => heq.equivalence.trans (heq.equivalence.symm hab) h,
      fun h => heq.equivalence.trans hab h⟩
  unfold lookup
  simp only [hsame]

/-- An entry is found under its key. -/
theorem lookup_of_mem (heq : KeyEquality hash ef id) {es : List (K × V)}
    (honce : es.Pairwise fun e f => ef e.1 f.1 = false) {e : K × V} (he : e ∈ es) :
    lookup ef es e.1 = some e.2 := by
  induction es with
  | nil => exact absurd he List.not_mem_nil
  | cons d es ih =>
      rw [List.pairwise_cons] at honce
      rw [lookup_cons]
      rcases List.mem_cons.mp he with rfl | he
      · rw [if_pos (heq.equivalence.refl e.1)]
        rfl
      · have hne : ¬ ef e.1 d.1 = true := by
          intro hed
          have hde : ef d.1 e.1 = true := heq.equivalence.symm hed
          exact absurd (hde.symm.trans (honce.1 e he)) (by simp)
        rw [if_neg hne, ih honce.2 he]
        rfl

/-- A put that preserves gives a key a value if it has none. -/
theorem lookup_put (heq : KeyEquality hash ef id) (es : List (K × V)) (e : K × V) (key : K) :
    lookup ef (list_step ef id es (.put true e.1 e.2)) key
      = (lookup ef es key).or (if ef key e.1 then some e.2 else none) := by
  by_cases hany : (es.any fun d => ef e.1 d.1) = true
  · have hsame : list_step ef id es (.put true e.1 e.2) = es := by
      rw [list_step, if_pos hany, if_pos rfl]
    rw [hsame]
    by_cases hkey : ef key e.1 = true
    · rw [lookup_congr heq hkey]
      rw [← lookup_isSome] at hany
      rw [Option.or_of_isSome hany]
    · rw [if_neg hkey, Option.or_none]
  · rw [list_step_new (by simpa using hany)]
    unfold lookup
    rw [List.find?_append, List.find?_singleton, Option.map_or]
    congr 1
    split_ifs <;> rfl

/-- **Precedence**: the entries that were there win. -/
theorem lookup_put_all (heq : KeyEquality hash ef id) (es2 es : List (K × V)) (key : K) :
    lookup ef (put_all ef true es es2) key = (lookup ef es key).or (lookup ef es2 key) := by
  induction es2 generalizing es with
  | nil => exact (Option.or_none).symm
  | cons e es2 ih => rw [put_all_cons, ih, lookup_put heq, lookup_cons, Option.or_assoc]

/-- New keys are added in their order. -/
theorem put_all_new (preserve : Bool) (es2 es : List (K × V))
    (honce : es2.Pairwise fun e f => ef e.1 f.1 = false) (heq : KeyEquality hash ef id)
    (hnew : ∀ e ∈ es2, (es.any fun d => ef e.1 d.1) = false) :
    put_all ef preserve es es2 = es ++ es2 := by
  induction es2 generalizing es with
  | nil => exact (List.append_nil es).symm
  | cons e es2 ih =>
      rw [List.pairwise_cons] at honce
      rw [List.forall_mem_cons] at hnew
      rw [put_all_cons, list_step_new hnew.1, ih _ honce.2, List.append_assoc]
      · rfl
      · intro f hf
        rw [List.any_append, hnew.2 f hf, List.any_cons, List.any_nil]
        by_contra hne
        have hfe : ef f.1 e.1 = true := by simpa using hne
        have hef : ef e.1 f.1 = true := heq.equivalence.symm hfe
        exact absurd (hef.symm.trans (honce.1 f hf)) (by simp)

theorem length_put_all_true (heq : KeyEquality hash ef id) (es2 es : List (K × V))
    (honce : es2.Pairwise fun e f => ef e.1 f.1 = false) :
    (put_all ef true es es2).length = union_size ef es es2 := by
  unfold union_size
  induction es2 generalizing es with
  | nil => rfl
  | cons e es2 ih =>
      rw [List.pairwise_cons] at honce
      rw [put_all_cons, ih _ honce.2]
      by_cases hany : (es.any fun d => ef e.1 d.1) = true
      · have hsame : list_step ef id es (.put true e.1 e.2) = es := by
          rw [list_step, if_pos hany, if_pos rfl]
        rw [hsame, List.filter_cons_of_neg (by simp [hany])]
      · rw [Bool.not_eq_true] at hany
        -- no later key equals that of the new entry
        have hlater : (es2.filter fun f => !(es ++ [e]).any fun d => ef f.1 d.1)
            = es2.filter fun f => !es.any fun d => ef f.1 d.1 := by
          refine List.filter_congr fun f hf => ?_
          have hne : ef f.1 e.1 = false := by
            by_contra hfe
            rw [Bool.not_eq_false] at hfe
            have hef : ef e.1 f.1 = true := heq.equivalence.symm hfe
            exact absurd (hef.symm.trans (honce.1 f hf)) (by simp)
          rw [List.any_append, List.any_cons, List.any_nil, hne, Bool.or_false, Bool.or_false]
        rw [list_step_new hany, hlater, List.filter_cons_of_pos (by simp [hany]),
          List.length_append, List.length_singleton, List.length_cons]
        omega

end Entries

/-! ## Well-formed tables -/

section Represents

variable {hash : K → ℕ} {ef : K → K → Bool} {ht : HashTable K V} {es : List (K × V)}

theorem Represents.length_lt (h : Represents hash ef ht es) : es.length < 2 ^ 60 := by
  obtain ⟨s, hsim, rfl, hcap⟩ := h
  exact hsim.length_lt hcap

/-- The nodes of a well-formed table. -/
theorem Represents.nodes (h : Represents hash ef ht es) :
    ∃ ns, Valid hash ef ht ns ∧ Roomy ht ∧ entries ns = es := by
  obtain ⟨s, ⟨ns, hvalid, hentries, hcapacity, hlt, -⟩, rfl, hcap⟩ := h
  exact ⟨ns, hvalid, ⟨by omega, by omega⟩, hentries⟩

theorem Represents.once (h : Represents hash ef ht es) :
    es.Pairwise fun e f => ef e.1 f.1 = false := by
  obtain ⟨ns, hvalid, -, rfl⟩ := h.nodes
  rw [entries, List.pairwise_map]
  exact hvalid.keys

theorem Represents.answers (h : Represents hash ef ht es) (heq : KeyEquality hash ef id)
    (key : K) : hashtable_get hash ef ht key = .ok (lookup ef es key)
      ∧ hashtable_contains hash ef ht key = .ok (es.any fun e => ef key e.1) := by
  obtain ⟨ns, hvalid, hroom, rfl⟩ := h.nodes
  have hanswers := hashtable_get_contains_spec hvalid heq hroom key
  exact ⟨by rw [hanswers.1, lookup, find_entries], by rw [hanswers.2, any_entries]⟩

theorem Represents.forward (h : Represents hash ef ht es) : Hashtable.forward ht = .ok es := by
  obtain ⟨ns, hvalid, -, rfl⟩ := h.nodes
  exact (forward_backward_spec hvalid).1

/-- A put succeeds if and only if there are buckets for the entries then. -/
theorem Represents.put (h : Represents hash ef ht es) (heq : KeyEquality hash ef id)
    (preserve : Bool) (key : K) (value : V) :
    ((list_step ef id es (.put preserve key value)).length < 2 ^ 60
        ∧ ∃ ht' b, hashtable_put hash ef id ht preserve key value = .ok (ht', b)
          ∧ Represents hash ef ht' (list_step ef id es (.put preserve key value)))
      ∨ (2 ^ 60 ≤ (list_step ef id es (.put preserve key value)).length
        ∧ ∃ f, hashtable_put hash ef id ht preserve key value = .error f) := by
  obtain ⟨s, hsim, rfl, hcap⟩ := h
  have hgrown := @Simulates.capacity_lt_iff K V hash ef id ht s hsim hcap (.put preserve key value)
  rcases step_simulates hsim heq hcap (.put preserve key value) with
    ⟨hroom, ht', hrun, hnext⟩ | ⟨hle, f, herror⟩
  · left
    rw [step] at hrun
    cases hput : hashtable_put hash ef id ht preserve key value with
    | error f =>
        rw [hput, error_bind] at hrun
        cases hrun
    | ok r =>
        rw [hput, ok_bind, Except.ok.injEq] at hrun
        subst hrun
        exact ⟨hgrown.mp hroom, r.1, r.2, rfl, _, hnext, rfl, hroom⟩
  · right
    rw [step] at herror
    cases hput : hashtable_put hash ef id ht preserve key value with
    | error f => exact ⟨Nat.not_lt.mp (mt hgrown.mpr (Nat.not_lt.mpr hle)), f, rfl⟩
    | ok r =>
        rw [hput, ok_bind] at herror
        cases herror

end Represents

/-! ## The loops -/

section Loops

variable {equal : ℕ → K → K → Bool} {key_dup : ℕ → K → K} {value_dup : ℕ → V → V}
  {m : Store K V} {p q : ℕ} {t u : Table K V}

theorem load_ok (h : m.tables p = some t) : m.load p = .ok t := by
  rw [Store.load, h]

theorem save_self (h : m.tables p = some t) : m.save p t = m := by
  unfold Store.save
  rw [← h, Function.update_eq_self]

theorem save_save : (m.save p t).save p u = m.save p u := by
  unfold Store.save
  rw [Function.update_idem]

@[simp] theorem tables_save_self : (m.save p t).tables p = some t := Function.update_self ..

theorem tables_save_of_ne (h : q ≠ p) : (m.save p t).tables q = m.tables q :=
  Function.update_of_ne h ..

theorem set_key_duper_ok (h : m.tables p = some t) (key_duper : Ptr) :
    set_key_duper m p key_duper = .ok (m.save p { t with key_duper := key_duper }) := by
  rw [set_key_duper, load_ok h, ok_bind]

/-- Either loop without duplication. -/
def put_loop (equal : ℕ → K → K → Bool) (key_dup : ℕ → K → K) (preserve : Bool) (dst src : ℕ) :
    ℕ → Store K V → Ptr → Except Fault (Store K V)
  | 0, _, _ => .error .diverges
  | _ + 1, m, none => .ok m
  | fuel + 1, m, some n => do
      let s ← m.load src
      let c ← s.ht.node n
      let r ← hashtable_quick_put equal key_dup m dst preserve c.hash c.key c.data
      let n ← r.1.next src n
      put_loop equal key_dup preserve dst src fuel r.1 n

theorem copy_loop_eq (ret src fuel : ℕ) : ∀ (m : Store K V) (n : Ptr),
    copy_loop equal key_dup value_dup ret src none fuel m n
      = put_loop equal key_dup false ret src fuel m n := by
  induction fuel with
  | zero => exact fun _ _ => rfl
  | succ fuel ih =>
      intro m n
      cases n with
      | none => rfl
      | some n =>
          rw [copy_loop, put_loop]
          simp only [ih]
          rfl

theorem union_loop_eq (dst set2 fuel : ℕ) : ∀ (m : Store K V) (n : Ptr),
    union_loop equal key_dup value_dup dst set2 none none fuel m n
      = put_loop equal key_dup true dst set2 fuel m n := by
  induction fuel with
  | zero => exact fun _ _ => rfl
  | succ fuel ih =>
      intro m n
      cases n with
      | none => rfl
      | some n =>
          have hagain : ∀ (m : Store K V) (c : HashNode K V) (put : Bool),
              put_again equal key_dup value_dup m dst c put none none = .ok m :=
            fun m c put => if_neg fun hboth => hboth.2 rfl
          rw [union_loop, put_loop]
          simp only [ih, hagain, ok_bind]

/-- **The loop from one table to another** puts the nodes in their order, or faults if there
are too many in the end. -/
theorem put_loop_spec (hash : K → ℕ) (preserve : Bool) {dst src : ℕ} (hne : dst ≠ src)
    {s : Table K V} (rest : List (ℕ × HashNode K V)) :
    ∀ {fuel : ℕ} {m : Store K V} {d : Table K V} {es : List (K × V)},
      KeyEquality hash (equal d.ef) id → m.tables src = some s → m.tables dst = some d →
      d.key_duper = none → Represents hash (equal d.ef) d.ht es →
      Path s.ht.gNext (rest.map Prod.fst) → (∀ x ∈ rest, s.ht.cells x.1 = some x.2) →
      (∀ x ∈ rest, x.2.hash = hash x.2.key) → rest.length < fuel →
      ((put_all (equal d.ef) preserve es (entries rest)).length < 2 ^ 60 ∧ ∃ ht',
          put_loop equal key_dup preserve dst src fuel m (first (rest.map Prod.fst) none)
            = .ok (m.save dst { d with ht := ht' })
          ∧ Represents hash (equal d.ef) ht' (put_all (equal d.ef) preserve es (entries rest)))
        ∨ (2 ^ 60 ≤ (put_all (equal d.ef) preserve es (entries rest)).length ∧ ∃ f,
          put_loop equal key_dup preserve dst src fuel m (first (rest.map Prod.fst) none)
            = .error f) := by
  induction rest with
  | nil =>
      intro fuel m d es heq hsrc hdst hkd hrep hpath hcells hhash hfuel
      obtain ⟨fuel, rfl⟩ := Nat.exists_eq_succ_of_ne_zero (Nat.ne_of_gt hfuel)
      refine Or.inl ⟨hrep.length_lt, d.ht, ?_, hrep⟩
      rw [save_self hdst]
      rfl
  | cons x rest ih =>
      intro fuel m d es heq hsrc hdst hkd hrep hpath hcells hhash hfuel
      obtain ⟨fuel, rfl⟩ := Nat.exists_eq_succ_of_ne_zero (Nat.ne_of_gt (Nat.zero_lt_of_lt hfuel))
      rw [List.length_cons] at hfuel
      rw [List.forall_mem_cons] at hcells hhash
      rw [List.map_cons] at hpath ⊢
      have hall : put_all (equal d.ef) preserve es (entries (x :: rest))
          = put_all (equal d.ef) preserve
            (list_step (equal d.ef) id es (.put preserve x.2.key x.2.data)) (entries rest) := rfl
      rw [hall, first_cons, put_loop, load_ok hsrc, ok_bind, node_ok hcells.1, ok_bind]
      -- the hash in the node is that of the key, as `hashtable_put` computes it
      have hquick : hashtable_quick_put equal key_dup m dst preserve x.2.hash x.2.key x.2.data
          = hashtable_put hash (equal d.ef) id d.ht preserve x.2.key x.2.data >>= fun r =>
            .ok (m.save dst { d with ht := r.1 }, r.2) := by
        rw [hashtable_quick_put, load_ok hdst, ok_bind, hkd, hashtable_put, hhash.1]
        rfl
      rcases hrep.put heq preserve x.2.key x.2.data with ⟨-, ht', b, hput, hrep'⟩ | ⟨hle, f, herror⟩
      · -- the source is as it was, and so is the way to its next node
        have hsrc' : (m.save dst { d with ht := ht' }).tables src = some s := by
          rw [tables_save_of_ne (Ne.symm hne), hsrc]
        have hnext : (m.save dst { d with ht := ht' }).next src x.1
            = .ok (first (rest.map Prod.fst) none) := by
          rw [Store.next, load_ok hsrc', ok_bind, node_ok hcells.1, ok_bind, hpath.1]
        have hrest := @ih fuel (m.save dst { d with ht := ht' }) { d with ht := ht' } _ heq hsrc'
          tables_save_self hkd hrep' hpath.2 hcells.2 hhash.2 (by omega)
        rw [hquick, hput, ok_bind, ok_bind]
        simp only
        rw [hnext, ok_bind]
        simpa only [save_save] using hrest
      · right
        rw [hquick, herror, error_bind, error_bind]
        exact ⟨hle.trans (length_put_all preserve _ _), f, rfl⟩

/-- **The loop from a table to itself** finds every key there. -/
theorem put_loop_self (hash : K → ℕ) {dst : ℕ} {d : Table K V} {ns : List (ℕ × HashNode K V)}
    (heq : KeyEquality hash (equal d.ef) id) (hdst : m.tables dst = some d)
    (hkd : d.key_duper = none) (hvalid : Valid hash (equal d.ef) d.ht ns) (hroom : Roomy d.ht)
    (rest : List (ℕ × HashNode K V)) : ∀ {fuel : ℕ}, (∀ x ∈ rest, x ∈ ns) →
      Path d.ht.gNext (rest.map Prod.fst) → rest.length < fuel →
      put_loop equal key_dup true dst dst fuel m (first (rest.map Prod.fst) none) = .ok m := by
  induction rest with
  | nil =>
      intro fuel _ _ hfuel
      obtain ⟨fuel, rfl⟩ := Nat.exists_eq_succ_of_ne_zero (Nat.ne_of_gt hfuel)
      rfl
  | cons x rest ih =>
      intro fuel hmem hpath hfuel
      obtain ⟨fuel, rfl⟩ := Nat.exists_eq_succ_of_ne_zero (Nat.ne_of_gt (Nat.zero_lt_of_lt hfuel))
      rw [List.length_cons] at hfuel
      rw [List.forall_mem_cons] at hmem
      rw [List.map_cons] at hpath ⊢
      have hcell := hvalid.cells x hmem.1
      obtain ⟨y, hfind⟩ : ∃ y, ns.find? (fun y => equal d.ef x.2.key y.2.key) = some y := by
        rw [← Option.isSome_iff_exists, List.isSome_find?, List.any_eq_true]
        exact ⟨x, hmem.1, heq.equivalence.refl x.2.key⟩
      -- a put under a key that is there keeps the value
      have hput := hashtable_put_present hvalid heq hroom hfind true x.2.data
      rw [hashtable_put, ← hvalid.hashes x hmem.1, if_pos rfl] at hput
      have hquick : hashtable_quick_put equal key_dup m dst true x.2.hash x.2.key x.2.data
          = .ok (m, false) := by
        have hid : called key_dup d.key_duper = id := by
          rw [hkd]
          rfl
        rw [hashtable_quick_put, load_ok hdst, ok_bind, hid, hput, ok_bind]
        exact congrArg (fun m' => Except.ok (m', false)) (save_self hdst)
      rw [first_cons, put_loop, load_ok hdst, ok_bind, node_ok hcell, ok_bind, hquick, ok_bind]
      simp only
      rw [Store.next, load_ok hdst, ok_bind, node_ok hcell, ok_bind, ok_bind, hpath.1,
        ih hmem.2 hpath.2 (by omega)]

end Loops

/-! ## `hashtable_copy` -/

section Copy

variable {hash : Ptr → K → ℕ} {equal : ℕ → K → K → Bool} {key_dup : ℕ → K → K}
  {value_dup : ℕ → V → V} {m : Store K V} {t : Table K V} {es : List (K × V)}

/-- A table at an address is well formed with its own functions. -/
def WellFormed (hash : Ptr → K → ℕ) (equal : ℕ → K → K → Bool) (m : Store K V) (p : ℕ) : Prop :=
  ∃ t es, m.tables p = some t ∧ Represents (hash t.hf) (equal t.ef) t.ht es

/-- A cleared table is well formed with any functions. -/
theorem Represents.clear {hash' hash : K → ℕ} {ef' ef : K → K → Bool} {ht : HashTable K V}
    (h : Represents hash' ef' ht es) :
    ∃ ht', hashtable_clear ht = .ok ht' ∧ Represents hash ef ht' [] := by
  obtain ⟨s, ⟨ns, hvalid, -, hcapacity, hlt, hpow⟩, -, hcap⟩ := h
  obtain ⟨ht', hclear, hvalid', hcapacity'⟩ := hashtable_clear_spec hvalid
  refine ⟨ht', hclear, ⟨[], s.capacity⟩, ⟨[], ?_, rfl, hcapacity'.trans hcapacity, ?_, hpow⟩, rfl,
    hcap⟩
  · exact ⟨hvalid'.head, hvalid'.tail, hvalid'.global, hvalid'.nodup, hvalid'.cells,
      hvalid'.allocated, hvalid'.buckets, hvalid'.count, fun x hx => absurd hx List.not_mem_nil,
      List.Pairwise.nil, hvalid'.mask, hvalid'.size⟩
  · exact Nat.zero_lt_of_lt hlt

/-- What a loop over a well-formed table goes along. -/
theorem Represents.walk {hash : K → ℕ} {ef : K → K → Bool} {ht : HashTable K V}
    (h : Represents hash ef ht es) : ∃ ns, entries ns = es ∧ Valid hash ef ht ns ∧ Roomy ht
      ∧ ht.gHead = first (ns.map Prod.fst) none ∧ Path ht.gNext (ns.map Prod.fst)
      ∧ ns.length < ht.brk + 1 := by
  obtain ⟨ns, hvalid, hroom, hentries⟩ := h.nodes
  have hlen := hvalid.length_le hvalid.nodup (List.Subset.refl _)
  rw [List.length_map] at hlen
  exact ⟨ns, hentries, hvalid, hroom, hvalid.head, hvalid.global.path, by omega⟩

/-- **A copy to another table** has the entries of the source in their order. -/
theorem hashtable_copy_spec {src dst : ℕ} (hne : dst ≠ src) (hsrc : m.tables src = some t)
    (heq : KeyEquality (hash t.hf) (equal t.ef) id)
    (hrep : Represents (hash t.hf) (equal t.ef) t.ht es) (hdst : WellFormed hash equal m dst) :
    ∃ t', hashtable_copy equal key_dup value_dup m (some dst) src none none
        = .ok (m.save dst t', dst)
      ∧ t'.hf = t.hf ∧ t'.ef = t.ef ∧ Represents (hash t.hf) (equal t.ef) t'.ht es := by
  obtain ⟨d, es', hd, hrepd⟩ := hdst
  obtain ⟨ht', hclear, hempty⟩ : ∃ ht', hashtable_clear d.ht = .ok ht'
    ∧ Represents (hash t.hf) (equal t.ef) ht' [] := hrepd.clear
  obtain ⟨ns, hentries, hvalid, -, hhead, hpath, hlen⟩ := hrep.walk
  let cleared : Table K V := { t with ht := ht', key_duper := none }
  have hdest : destination m (some dst) t none = .ok (m.save dst cleared, dst) := by
    rw [destination, load_ok hd, ok_bind, hclear, ok_bind]
    rfl
  have hsrc' : (m.save dst cleared).tables src = some t := by
    rw [tables_save_of_ne (Ne.symm hne), hsrc]
  have hall : put_all (equal t.ef) false [] (entries ns) = es := by
    rw [hentries]
    exact put_all_new false es [] hrep.once heq fun e _ => rfl
  have hloop := @put_loop_spec K V equal key_dup (hash t.hf) false dst src hne t ns
    (t.ht.brk + 1) (m.save dst cleared) cleared [] heq hsrc' tables_save_self rfl hempty hpath
    hvalid.cells hvalid.hashes hlen
  rw [hall] at hloop
  obtain ⟨-, ht'', hrun, hrep'⟩ | ⟨hle, -⟩ := hloop
  · refine ⟨{ t with ht := ht'' }, ?_, rfl, rfl, hrep'⟩
    rw [hashtable_copy, load_ok hsrc, ok_bind, hdest, ok_bind]
    simp only
    rw [load_ok hsrc', ok_bind, hhead, copy_loop_eq, hrun, ok_bind, deref, ok_bind,
      set_key_duper_ok tables_save_self, ok_bind, save_save, save_save]
  · exact absurd hrep.length_lt (Nat.not_lt.mpr hle)

/-- A copy to `NULL` ends at `dst->key_duper = orig_key_duper`, at the latest. -/
theorem hashtable_copy_null (m : Store K V) (src : ℕ) (key_duper value_duper : Ptr) :
    ∃ f, hashtable_copy equal key_dup value_dup m none src key_duper value_duper = .error f := by
  rw [hashtable_copy]
  cases m.load src with
  | error f => exact ⟨f, error_bind f _⟩
  | ok s =>
      rw [ok_bind, destination, ok_bind]
      simp only
      cases Store.load _ src with
      | error f => exact ⟨f, error_bind f _⟩
      | ok s =>
          rw [ok_bind]
          cases copy_loop equal key_dup value_dup _ src value_duper (s.ht.brk + 1) _ s.ht.gHead with
          | error f => exact ⟨f, error_bind f _⟩
          | ok m => exact ⟨.null, rfl⟩

theorem copies_iff {src : ℕ} {dst : Ptr} (hne : dst ≠ some src) (hsrc : m.tables src = some t)
    (heq : KeyEquality (hash t.hf) (equal t.ef) id)
    (hrep : Represents (hash t.hf) (equal t.ef) t.ht es)
    (hdst : ∀ d, dst = some d → WellFormed hash equal m d) :
    Copies hash equal key_dup value_dup m dst src t es ↔ dst ≠ none := by
  constructor
  · rintro ⟨m', p, u, hrun, -⟩ rfl
    obtain ⟨f, herror⟩ := @hashtable_copy_null K V equal key_dup value_dup m src none none
    exact absurd (herror.symm.trans hrun) nofun
  · intro hsome
    obtain ⟨d, rfl⟩ := Option.ne_none_iff_exists'.mp hsome
    obtain ⟨u, hrun, hhf, hef, hrep'⟩ :=
      hashtable_copy_spec (fun h => hne (congrArg some h)) hsrc heq hrep (hdst d rfl)
    refine ⟨m.save d u, d, u, hrun, fun d' h => Option.some.inj h, tables_save_self, hhf, hef, ?_,
      hrep'.forward, fun q hq _ => tables_save_of_ne hq⟩
    rw [hhf, hef]
    exact hrep'

end Copy

/-! ## `hashtable_union` -/

section Union

variable {hash : Ptr → K → ℕ} {equal : ℕ → K → K → Bool} {key_dup : ℕ → K → K}
  {value_dup : ℕ → V → V} {m : Store K V} {set1 set2 : ℕ} {t1 t2 : Table K V}
  {es1 es2 : List (K × V)}

/-- **The merge into a table other than `set2`** succeeds if and only if there are buckets for
the entries of both. -/
theorem merge_into_spec {hash : K → ℕ} {dst : ℕ} (hne : dst ≠ set2) {d : Table K V}
    (hd : m.tables dst = some d) (h2 : m.tables set2 = some t2)
    (heq : KeyEquality hash (equal d.ef) id) (hrep : Represents hash (equal d.ef) d.ht es1)
    (hrep2 : Represents hash (equal d.ef) t2.ht es2) :
    (union_size (equal d.ef) es1 es2 < 2 ^ 60 ∧ ∃ ht',
        merge_into equal key_dup value_dup m dst set2 none none
          = .ok (m.save dst { d with ht := ht' })
        ∧ Represents hash (equal d.ef) ht' (put_all (equal d.ef) true es1 es2))
      ∨ (2 ^ 60 ≤ union_size (equal d.ef) es1 es2 ∧ ∃ f,
        merge_into equal key_dup value_dup m dst set2 none none = .error f) := by
  let plain : Table K V := { d with key_duper := none }
  have h2' : (m.save dst plain).tables set2 = some t2 := by
    rw [tables_save_of_ne (Ne.symm hne), h2]
  obtain ⟨ns, hentries, hvalid, -, hhead, hpath, hlen⟩ := hrep2.walk
  have hloop := @put_loop_spec K V equal key_dup hash true dst set2 hne t2 ns (t2.ht.brk + 1)
    (m.save dst plain) plain es1 heq h2' tables_save_self rfl hrep hpath hvalid.cells
    hvalid.hashes hlen
  have hrun : merge_into equal key_dup value_dup m dst set2 none none
      = put_loop equal key_dup true dst set2 (t2.ht.brk + 1) (m.save dst plain)
          (first (ns.map Prod.fst) none) >>= fun m => set_key_duper m dst d.key_duper := by
    rw [merge_into, load_ok hd, ok_bind]
    simp only
    rw [set_key_duper_ok hd, ok_bind, keep, if_neg (by simp)]
    show (Store.load (m.save dst plain) set2 >>= _) = _
    rw [load_ok h2', ok_bind, union_loop_eq, hhead]
  rw [hentries, length_put_all_true heq es2 es1 hrep2.once] at hloop
  refine hloop.imp (And.imp_right ?_) (And.imp_right ?_)
  · rintro ⟨ht', hput, hrep'⟩
    refine ⟨ht', ?_, hrep'⟩
    rw [hrun, hput, ok_bind, set_key_duper_ok tables_save_self, save_save, save_save]
  · rintro ⟨f, herror⟩
    exact ⟨f, by rw [hrun, herror, error_bind]⟩

/-- **The merge of a table into itself** changes nothing. -/
theorem merge_into_self {hash : K → ℕ} {d : Table K V} (h2 : m.tables set2 = some d)
    (heq : KeyEquality hash (equal d.ef) id) (hrep : Represents hash (equal d.ef) d.ht es2) :
    merge_into equal key_dup value_dup m set2 set2 none none = .ok m := by
  let plain : Table K V := { d with key_duper := none }
  have h2' : (m.save set2 plain).tables set2 = some plain := tables_save_self
  obtain ⟨ns, hentries, hvalid, hroom, hhead, hpath, hlen⟩ := hrep.walk
  have hloop := @put_loop_self K V equal key_dup (m.save set2 plain) hash set2 plain ns heq h2' rfl
    hvalid hroom ns (plain.ht.brk + 1) (fun x hx => hx) hpath hlen
  have hhead' : plain.ht.gHead = first (ns.map Prod.fst) none := hhead
  rw [merge_into, load_ok h2, ok_bind]
  simp only
  rw [set_key_duper_ok h2, ok_bind, keep, if_neg (by simp)]
  show (Store.load (m.save set2 plain) set2 >>= _) = _
  rw [load_ok h2', ok_bind, union_loop_eq, hhead', hloop, ok_bind, set_key_duper_ok h2', save_save]
  exact congrArg Except.ok (save_self h2)

/-- What is merged into, if not `set2`: a table with the entries of `set1`. -/
theorem union_destination_spec {d : ℕ} (hne : d ≠ set2) (h1 : m.tables set1 = some t1)
    (heq : KeyEquality (hash t1.hf) (equal t1.ef) id)
    (hrep : Represents (hash t1.hf) (equal t1.ef) t1.ht es1) (hd : WellFormed hash equal m d) :
    ∃ u, union_destination equal key_dup value_dup m (some d) set1 set2 none none
        = .ok (m.save d u, d)
      ∧ u.hf = t1.hf ∧ u.ef = t1.ef ∧ Represents (hash t1.hf) (equal t1.ef) u.ht es1 := by
  unfold union_destination
  by_cases hd1 : d = set1
  · subst hd1
    refine ⟨t1, ?_, rfl, rfl, hrep⟩
    rw [if_neg (by simp), if_pos rfl, save_self h1]
  · have hthird : (some d : Ptr) = none ∨ some d ≠ some set1 ∧ some d ≠ some set2 :=
      Or.inr ⟨fun h => hd1 (Option.some.inj h), fun h => hne (Option.some.inj h)⟩
    rw [if_pos hthird]
    exact hashtable_copy_spec hd1 h1 heq hrep hd

/-- A union into `NULL` ends at `dst->key_duper`, at the latest. -/
theorem hashtable_union_null (h1 : m.tables set1 = some t1) (h2 : m.tables set2 = some t2)
    (hhf : t1.hf = t2.hf) (hef : t1.ef = t2.ef) :
    ∃ f, hashtable_union equal key_dup value_dup m none set1 set2 none none = .error f := by
  obtain ⟨f, herror⟩ := @hashtable_copy_null K V equal key_dup value_dup m set1 none none
  refine ⟨f, ?_⟩
  rw [hashtable_union, load_ok h1, ok_bind, load_ok h2, ok_bind, if_pos ⟨hhf, hef⟩,
    union_destination, if_pos (Or.inl rfl), herror, error_bind]

/-- **A union into `set2`** is `set2` as it was. -/
theorem hashtable_union_set2 (h1 : m.tables set1 = some t1) (h2 : m.tables set2 = some t2)
    (hhf : t1.hf = t2.hf) (hef : t1.ef = t2.ef) (heq : KeyEquality (hash t2.hf) (equal t2.ef) id)
    (hrep2 : Represents (hash t2.hf) (equal t2.ef) t2.ht es2) :
    hashtable_union equal key_dup value_dup m (some set2) set1 set2 none none
      = .ok (m, some set2) := by
  have hdest : union_destination equal key_dup value_dup m (some set2) set1 set2 none none
      = .ok (m, set2) := by
    rw [union_destination, if_neg (by simp)]
    split_ifs with h
    · rw [Option.some.inj h]
    · rfl
  rw [hashtable_union, load_ok h1, ok_bind, load_ok h2, ok_bind, if_pos ⟨hhf, hef⟩, hdest, ok_bind,
    deref, ok_bind, merge_into_self h2 heq hrep2, ok_bind]

/-- **A union into another table** gives a key of `set1` precedence. -/
theorem hashtable_union_spec {d : ℕ} (hne : d ≠ set2) (h1 : m.tables set1 = some t1)
    (h2 : m.tables set2 = some t2) (hhf : t1.hf = t2.hf) (hef : t1.ef = t2.ef)
    (heq : KeyEquality (hash t1.hf) (equal t1.ef) id)
    (hrep1 : Represents (hash t1.hf) (equal t1.ef) t1.ht es1)
    (hrep2 : Represents (hash t1.hf) (equal t1.ef) t2.ht es2) (hd : WellFormed hash equal m d) :
    (union_size (equal t1.ef) es1 es2 < 2 ^ 60 ∧ ∃ u,
        hashtable_union equal key_dup value_dup m (some d) set1 set2 none none
          = .ok (m.save d u, some d)
        ∧ u.hf = t1.hf ∧ u.ef = t1.ef
        ∧ Represents (hash t1.hf) (equal t1.ef) u.ht (put_all (equal t1.ef) true es1 es2))
      ∨ (2 ^ 60 ≤ union_size (equal t1.ef) es1 es2 ∧ ∃ f,
        hashtable_union equal key_dup value_dup m (some d) set1 set2 none none = .error f) := by
  obtain ⟨u, hdest, huf, hue, hrep⟩ := @union_destination_spec K V hash equal key_dup value_dup m
    set1 set2 t1 es1 d hne h1 heq hrep1 hd
  have hrun : hashtable_union equal key_dup value_dup m (some d) set1 set2 none none
      = merge_into equal key_dup value_dup (m.save d u) d set2 none none >>= fun m =>
        .ok (m, some d) := by
    rw [hashtable_union, load_ok h1, ok_bind, load_ok h2, ok_bind, if_pos ⟨hhf, hef⟩, hdest,
      ok_bind, deref, ok_bind]
  have h2' : (m.save d u).tables set2 = some t2 := by rw [tables_save_of_ne (Ne.symm hne), h2]
  rw [← hue] at heq hrep hrep2
  have hmerge := @merge_into_spec K V equal key_dup value_dup (m.save d u) set2 t2 es1 es2
    (hash t1.hf) d hne u tables_save_self h2' heq hrep hrep2
  rw [hue] at hmerge
  refine hmerge.imp (And.imp_right ?_) (And.imp_right ?_)
  · rintro ⟨ht', hok, hrep'⟩
    refine ⟨{ u with ht := ht', ef := t1.ef }, ?_, huf, rfl, hrep'⟩
    rw [hrun, hok, ok_bind, save_save]
  · rintro ⟨f, herror⟩
    exact ⟨f, by rw [hrun, herror, error_bind]⟩

/-- Entries are there already if and only if they make no difference. -/
theorem lookup_or_iff {hash : K → ℕ} {ef : K → K → Bool} (heq : KeyEquality hash ef id)
    (honce : es1.Pairwise fun e f => ef e.1 f.1 = false) :
    (∀ key, lookup ef es2 key = (lookup ef es1 key).or (lookup ef es2 key))
      ↔ ∀ e ∈ es1, lookup ef es2 e.1 = some e.2 := by
  constructor
  · intro hsame e he
    rw [hsame e.1, lookup_of_mem heq honce he]
    rfl
  · intro hthere key
    cases hlook : es1.find? fun e => ef key e.1 with
    | none =>
        have hnone : lookup ef es1 key = none := by rw [lookup, hlook, Option.map_none]
        rw [hnone, Option.none_or]
    | some e =>
        have hkey : ef key e.1 = true := by simpa using List.find?_some hlook
        have hfirst : lookup ef es1 key = some e.2 := by rw [lookup, hlook, Option.map_some]
        rw [hfirst, lookup_congr heq hkey, hthere e (List.mem_of_find?_eq_some hlook),
          Option.some_or]

/-- Into `set2`, where nothing is changed. -/
theorem unites_set2_iff (h1 : m.tables set1 = some t1) (h2 : m.tables set2 = some t2)
    (hhf : t1.hf = t2.hf) (hef : t1.ef = t2.ef) (heq : KeyEquality (hash t1.hf) (equal t1.ef) id)
    (hrep1 : Represents (hash t1.hf) (equal t1.ef) t1.ht es1)
    (hrep2 : Represents (hash t1.hf) (equal t1.ef) t2.ht es2) :
    Unites hash equal key_dup value_dup m (some set2) set1 set2 t1 es1 es2
      ↔ ∀ e ∈ es1, lookup (equal t1.ef) es2 e.1 = some e.2 := by
  have hrun := @hashtable_union_set2 K V hash equal key_dup value_dup m set1 set2 t1 t2 es2 h1 h2
    hhf hef (hhf ▸ hef ▸ heq) (hhf ▸ hef ▸ hrep2)
  rw [← lookup_or_iff heq hrep1.once]
  constructor
  · rintro ⟨m', p, u, hrun', -, hu, -, -, -, hget, -⟩ key
    rw [hrun, Except.ok.injEq, Prod.mk.injEq, Option.some.injEq] at hrun'
    obtain ⟨rfl, rfl⟩ := hrun'
    obtain rfl : t2 = u := Option.some.inj (h2.symm.trans hu)
    have hanswer := hget key
    rw [← hhf, ← hef, (hrep2.answers heq key).1, Except.ok.injEq] at hanswer
    exact hanswer
  · intro hsame
    refine ⟨m, set2, t2, hrun, fun d h => Option.some.inj h, h2, hhf.symm, hef.symm, ?_⟩
    rw [← hhf, ← hef]
    refine ⟨⟨es2, hrep2⟩, fun key => ?_, fun key => ?_, fun q _ _ => rfl⟩
    · rw [(hrep2.answers heq key).1, ← hsame key]
    · rw [(hrep2.answers heq key).2, ← lookup_isSome, ← lookup_isSome, ← Option.isSome_or,
        ← hsame key]

/-- Into another table, which needs buckets. -/
theorem unites_other_iff {d : ℕ} (hne : d ≠ set2) (h1 : m.tables set1 = some t1)
    (h2 : m.tables set2 = some t2) (hhf : t1.hf = t2.hf) (hef : t1.ef = t2.ef)
    (heq : KeyEquality (hash t1.hf) (equal t1.ef) id)
    (hrep1 : Represents (hash t1.hf) (equal t1.ef) t1.ht es1)
    (hrep2 : Represents (hash t1.hf) (equal t1.ef) t2.ht es2) (hd : WellFormed hash equal m d) :
    Unites hash equal key_dup value_dup m (some d) set1 set2 t1 es1 es2
      ↔ union_size (equal t1.ef) es1 es2 < 2 ^ 60 := by
  obtain ⟨hroom, u, hrun, huf, hue, hrep⟩ | ⟨hfull, f, herror⟩ :=
    @hashtable_union_spec K V hash equal key_dup value_dup m set1 set2 t1 t2 es1 es2 d hne h1 h2
      hhf hef heq hrep1 hrep2 hd
  · refine iff_of_true ?_ hroom
    refine ⟨m.save d u, d, u, hrun, fun d' h => Option.some.inj h, tables_save_self, huf, hue, ?_⟩
    rw [huf, hue]
    refine ⟨⟨_, hrep⟩, fun key => ?_, fun key => ?_, fun q hq _ => tables_save_of_ne hq⟩
    · rw [(hrep.answers heq key).1, lookup_put_all heq]
    · rw [(hrep.answers heq key).2, ← lookup_isSome, lookup_put_all heq, Option.isSome_or,
        lookup_isSome, lookup_isSome]
  · refine iff_of_false ?_ (Nat.not_lt.mpr hfull)
    rintro ⟨m', p, u, hrun, -⟩
    exact absurd (herror.symm.trans hrun) nofun

/-- The promise of `hashtable_union`, and where it is kept. -/
theorem unites_iff (h1 : m.tables set1 = some t1) (h2 : m.tables set2 = some t2)
    (hhf : t1.hf = t2.hf) (hef : t1.ef = t2.ef) (heq : KeyEquality (hash t1.hf) (equal t1.ef) id)
    (hrep1 : Represents (hash t1.hf) (equal t1.ef) t1.ht es1)
    (hrep2 : Represents (hash t1.hf) (equal t1.ef) t2.ht es2) {dst : Ptr}
    (hdst : ∀ d, dst = some d → WellFormed hash equal m d) :
    Unites hash equal key_dup value_dup m dst set1 set2 t1 es1 es2
      ↔ Kept (equal t1.ef) dst set2 es1 es2 := by
  unfold Kept
  cases dst with
  | none =>
      obtain ⟨f, herror⟩ := @hashtable_union_null K V equal key_dup value_dup m set1 set2 t1 t2 h1
        h2 hhf hef
      refine iff_of_false ?_ fun hkept => hkept.1 rfl
      rintro ⟨m', p, u, hrun, -⟩
      exact absurd (herror.symm.trans hrun) nofun
  | some d =>
      by_cases hd : d = set2
      · subst hd
        rw [unites_set2_iff h1 h2 hhf hef heq hrep1 hrep2]
        exact ⟨fun hthere => ⟨Option.some_ne_none d, fun _ => hthere, fun hne => absurd rfl hne⟩,
          fun hkept => hkept.2.1 rfl⟩
      · have hne : (some d : Ptr) ≠ some set2 := fun h => hd (Option.some.inj h)
        rw [unites_other_iff hd h1 h2 hhf hef heq hrep1 hrep2 (hdst d rfl)]
        exact ⟨fun hroom => ⟨Option.some_ne_none d, fun h => absurd h hne, fun _ => hroom⟩,
          fun hkept => hkept.2.2 hne⟩

end Union

/-! ## When the promises are kept -/

/-- **When `hashtable_union` and `hashtable_copy` keep their promises**, for any two well-formed
tables, or one, and any destination. -/
theorem union_copy_iff (hash : Ptr → K → ℕ) (equal : ℕ → K → K → Bool) (key_dup : ℕ → K → K)
    (value_dup : ℕ → V → V) (m : Store K V) (set1 set2 : ℕ) (t1 t2 : Table K V)
    (es1 es2 : List (K × V)) (h1 : m.tables set1 = some t1) (h2 : m.tables set2 = some t2)
    (hhf : t1.hf = t2.hf) (hef : t1.ef = t2.ef) (heq : KeyEquality (hash t1.hf) (equal t1.ef) id)
    (hrep1 : Represents (hash t1.hf) (equal t1.ef) t1.ht es1)
    (hrep2 : Represents (hash t2.hf) (equal t2.ef) t2.ht es2) (dst : Ptr)
    (hdst : ∀ d, dst = some d → WellFormed hash equal m d) :
    (Unites hash equal key_dup value_dup m dst set1 set2 t1 es1 es2
        ↔ Kept (equal t1.ef) dst set2 es1 es2)
      ∧ (dst ≠ some set1 →
        (Copies hash equal key_dup value_dup m dst set1 t1 es1 ↔ dst ≠ none)) :=
  ⟨unites_iff h1 h2 hhf hef heq hrep1 (by rw [hhf, hef]; exact hrep2) hdst,
    fun hne => copies_iff hne h1 heq hrep1 hdst⟩

/-- Puts from a well-formed table on. -/
theorem exists_put_all {hash : K → ℕ} {ef : K → K → Bool} (heq : KeyEquality hash ef id)
    (es2 : List (K × V)) : ∀ {ht : HashTable K V} {es : List (K × V)}, Represents hash ef ht es →
      (put_all ef false es es2).length < 2 ^ 60 →
      ∃ ht', Represents hash ef ht' (put_all ef false es es2) := by
  induction es2 with
  | nil => exact fun {ht es} h _ => ⟨ht, h⟩
  | cons e es2 ih =>
      intro ht es h hlen
      rw [put_all_cons] at hlen ⊢
      obtain ⟨-, ht', -, -, h'⟩ | ⟨hle, -⟩ := h.put heq false e.1 e.2
      · exact ih h' hlen
      · exact absurd ((length_put_all false es2 _).trans_lt hlen) (Nat.not_lt.mpr hle)

/-- A table of numbers, with `value_hash` and `value_equal`. -/
def numbers (ht : HashTable ℕ ℕ) : Table ℕ ℕ := ⟨ht, some 0, 0, none, none, none⟩

def two_tables (ht1 ht2 : HashTable ℕ ℕ) : Store ℕ ℕ where
  tables
    | 0 => some (numbers ht1)
    | 1 => some (numbers ht2)
    | _ => none
  brk := 2

theorem exists_numbers (es : List (ℕ × ℕ)) (h : (put_all (· == ·) false [] es).length < 2 ^ 60) :
    ∃ ht, Represents id (fun a b => a == b) ht (put_all (· == ·) false [] es) :=
  exists_put_all value_equal_keys es
    ⟨_, init_simulates 0 fun _ => none, rfl, by decide⟩ h

/-- A table with one key of the other is united with it where it is, and copied over it. -/
theorem union_copy_two : ∃ ht1 ht2 : HashTable ℕ ℕ,
    Represents id (fun a b => a == b) ht1 [(1, 10)]
      ∧ Represents id (fun a b => a == b) ht2 [(1, 20), (2, 30)]
      ∧ Unites (fun _ => id) (fun _ a b => a == b) (fun _ => id) (fun _ => id)
        (two_tables ht1 ht2) (some 0) 0 1 (numbers ht1) [(1, 10)] [(1, 20), (2, 30)]
      ∧ Copies (fun _ => id) (fun _ a b => a == b) (fun _ => id) (fun _ => id)
        (two_tables ht1 ht2) (some 1) 0 (numbers ht1) [(1, 10)] := by
  obtain ⟨ht1, hrep1⟩ := exists_numbers [(1, 10)] (by decide)
  obtain ⟨ht2, hrep2⟩ := exists_numbers [(1, 20), (2, 30)] (by decide)
  refine ⟨ht1, ht2, hrep1, hrep2, ?_, ?_⟩
  · refine (union_copy_iff (fun _ => id) (fun _ a b => a == b) (fun _ => id) (fun _ => id)
      (two_tables ht1 ht2) 0 1 _ _ _ _ rfl rfl rfl rfl value_equal_keys hrep1 hrep2 (some 0)
      fun d hd => ?_).1.mpr ⟨by decide, by decide, fun _ => by decide⟩
    cases hd
    exact ⟨_, _, rfl, hrep1⟩
  · refine ((union_copy_iff (fun _ => id) (fun _ a b => a == b) (fun _ => id) (fun _ => id)
      (two_tables ht1 ht2) 0 1 _ _ _ _ rfl rfl rfl rfl value_equal_keys hrep1 hrep2 (some 1)
      fun d hd => ?_).2 (by decide)).mpr (by decide)
    cases hd
    exact ⟨_, _, rfl, hrep2⟩

/-- With `NULL` both functions end at `dst->key_duper`, and a union into `set2` leaves out what
only `set1` has. -/
theorem union_copy_break : ∃ ht1 ht2 : HashTable ℕ ℕ,
    Represents id (fun a b => a == b) ht1 [(1, 10)]
      ∧ Represents id (fun a b => a == b) ht2 []
      ∧ ¬ Unites (fun _ => id) (fun _ a b => a == b) (fun _ => id) (fun _ => id)
        (two_tables ht1 ht2) (some 1) 0 1 (numbers ht1) [(1, 10)] []
      ∧ ¬ Unites (fun _ => id) (fun _ a b => a == b) (fun _ => id) (fun _ => id)
        (two_tables ht1 ht2) none 0 1 (numbers ht1) [(1, 10)] []
      ∧ ¬ Copies (fun _ => id) (fun _ a b => a == b) (fun _ => id) (fun _ => id)
        (two_tables ht1 ht2) none 0 (numbers ht1) [(1, 10)] := by
  obtain ⟨ht1, hrep1⟩ := exists_numbers [(1, 10)] (by decide)
  obtain ⟨ht2, hrep2⟩ := exists_numbers [] (by decide)
  have hboth : ∀ dst : Ptr, (∀ d, dst = some d → d = 1) →
      (Unites (fun _ => id) (fun _ a b => a == b) (fun _ => id) (fun _ => id)
          (two_tables ht1 ht2) dst 0 1 (numbers ht1) [(1, 10)] []
        ↔ Kept (· == ·) dst 1 [(1, 10)] []) := by
    have h1 : (two_tables ht1 ht2).tables 0 = some (numbers ht1) := rfl
    have h2 : (two_tables ht1 ht2).tables 1 = some (numbers ht2) := rfl
    refine fun dst hdst => unites_iff h1 h2 rfl rfl value_equal_keys hrep1 hrep2 fun d hd => ?_
    obtain rfl := hdst d hd
    exact ⟨_, _, rfl, hrep2⟩
  refine ⟨ht1, ht2, hrep1, hrep2, ?_, ?_, ?_⟩
  · rw [hboth (some 1) fun d hd => (Option.some.inj hd).symm]
    exact fun hkept => absurd (hkept.2.1 rfl (1, 10) List.mem_cons_self) (by decide)
  · rw [hboth none nofun]
    exact fun hkept => hkept.1 rfl
  · intro hcopies
    exact (copies_iff (by decide) rfl value_equal_keys hrep1 (by nofun)).mp hcopies rfl

end PkgPlugins.HashtableUnion
