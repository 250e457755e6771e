/-
Who is heard of again: the children that were started on a fresh process monitor,
and the callbacks of the `process_monitor_await` that follows.

The callbacks are those of `record`, which notes every call. A child that was
entered into the table of the monitor is either delivered to the await, or left
in the table for the traversal after `end:` to reach (`registered_answered_iff`).
What the table does not hold nobody is called for, and the traversal gives up at
the first child that can't be killed.
-/
import PkgPlugins.MonitorRuns

set_option autoImplicit false

namespace PkgPlugins.MonitorComplete

open PkgPlugins.AssocTable PkgPlugins.EventLoop PkgPlugins.ProcessMonitor PkgPlugins.MonitorRuns

variable {D σ : Type}

/-! ## The children that were started -/

/-- A child that was forked, and what became of its registration. -/
structure started_t (D : Type) where
  pid : ℕ
  argv : argv_t
  data : D
  register : register_t

/-- The child of a call that forks one. -/
def forked (c : call_t D) : List (started_t D) :=
  match c.env.fork with
  | .forked pid register => [⟨pid, c.argv, c.data, register⟩]
  | _ => []

/-- The children of the calls of `process_monitor_exec` that return `true`. -/
def started : List (call_t D) → kernel_t → process_monitor_t D → List (started_t D)
  | [], _, _ => []
  | c :: cs, k, pm =>
      let (k, pm, ok) := process_monitor_exec k pm c.argv c.data c.env
      (if ok then forked c else []) ++ started cs k pm

/-- The entry of a child, if it has one. -/
def started_t.entry (s : started_t D) : Option (ℕ × child_t D) :=
  if s.register = .registered then some (s.pid, child_create s.argv s.data) else none

/-- What a call adds: at most one child, of a new pid, with an entry just if its
registration went well. -/
structure Adds (k : kernel_t) (pm : process_monitor_t D) (new : List (started_t D))
    (k' : kernel_t) (pm' : process_monitor_t D) : Prop where
  entries : pm'.children.entries = pm.children.entries ++ new.filterMap started_t.entry
  fresh : ∀ s ∈ new, k.image s.pid = none
  kept : ∀ pid, k.image pid ≠ none → k'.image pid ≠ none
  running : ∀ s ∈ new, k'.image s.pid ≠ none
  nodup : (new.map started_t.pid).Nodup

theorem Adds.nothing (k : kernel_t) (pm : process_monitor_t D) : Adds k pm [] k pm :=
  ⟨by simp, by simp, fun _ h => h, by simp, by simp⟩

theorem Adds.trans {k k₁ k₂ : kernel_t} {pm pm₁ pm₂ : process_monitor_t D}
    {l r : List (started_t D)} (hl : Adds k pm l k₁ pm₁) (hr : Adds k₁ pm₁ r k₂ pm₂) :
    Adds k pm (l ++ r) k₂ pm₂ := by
  refine ⟨?_, fun s hs => ?_, fun pid h => hr.kept pid (hl.kept pid h), fun s hs => ?_, ?_⟩
  · rw [hr.entries, hl.entries, List.filterMap_append, List.append_assoc]
  · rcases List.mem_append.mp hs with hs | hs
    · exact hl.fresh s hs
    · by_contra hne
      exact hl.kept s.pid hne (hr.fresh s hs)
  · rcases List.mem_append.mp hs with hs | hs
    · exact hr.kept s.pid (hl.running s hs)
    · exact hr.running s hs
  · rw [List.map_append, List.nodup_append]
    refine ⟨hl.nodup, hr.nodup, fun a ha b hb heq => ?_⟩
    obtain ⟨s, hs, rfl⟩ := List.mem_map.mp ha
    obtain ⟨s', hs', rfl⟩ := List.mem_map.mp hb
    -- the pid of a later child was free after the first one was forked
    exact hl.running s hs (heq ▸ hr.fresh s' hs')

theorem process_monitor_exec_adds {k : kernel_t} {pm : process_monitor_t D} (h : Filling k pm)
    (c : call_t D) {k' : kernel_t} {pm' : process_monitor_t D} {ok : Bool}
    (hexec : process_monitor_exec k pm c.argv c.data c.env = (k', pm', ok)) :
    Adds k pm (if ok then forked c else []) k' pm' := by
  have himage := (kernel_t.elapse_spec c.env.exits k).1
  have hfill : Filling (k.elapse c.env.exits) pm :=
    ⟨h.agree.elapse c.env.exits, h.count, h.unexited⟩
  rcases process_monitor_exec_cases k pm c.argv c.data c.env with
    hnone | ⟨pid, register, hfork, hpid, hcases⟩
  · rw [hnone] at hexec
    obtain ⟨rfl, rfl, rfl⟩ := Prod.mk.injEq .. ▸ hexec
    exact ⟨by simp, by simp, fun q hq => by rwa [himage], by simp, by simp⟩
  · have hnew : forked c = [⟨pid, c.argv, c.data, register⟩] := by rw [forked, hfork]
    have hfree : k.image pid = none := by
      rw [← himage]
      exact (kernel_t.image_eq_none _).mpr hpid
    have hforked : ((k.elapse c.env.exits).fork pid c.argv.image).image
        = Function.update k.image pid (some c.argv.image) := by
      rw [kernel_t.fork_image, himage]
    -- whatever the registration does, the child is there and the others stay
    have hadds : ∀ (k₁ : kernel_t) (pm₁ : process_monitor_t D),
        k₁.image = Function.update k.image pid (some c.argv.image) →
        pm₁.children.entries = pm.children.entries ++ (forked c).filterMap started_t.entry →
        Adds k pm (forked c) k₁ pm₁ := by
      intro k₁ pm₁ hk₁ hentries
      refine ⟨hentries, ?_, fun q hq => ?_, ?_, ?_⟩
      · simpa [hnew] using hfree
      · rw [hk₁]
        by_cases heq : q = pid
        · simp [heq]
        · rwa [Function.update_of_ne heq]
      · simp [hnew, hk₁]
      · simp [hnew]
    rcases hcases with ⟨rfl, heq⟩ | ⟨rfl, heq⟩ | ⟨rfl, heq⟩
    · rw [heq] at hexec
      obtain ⟨rfl, rfl, rfl⟩ := Prod.mk.injEq .. ▸ hexec
      rw [if_pos rfl]
      exact hadds _ _ hforked (by simp [hnew, started_t.entry])
    · rw [heq] at hexec
      obtain ⟨rfl, rfl, rfl⟩ := Prod.mk.injEq .. ▸ hexec
      rw [if_pos rfl]
      exact hadds _ _ hforked (by simp [hnew, started_t.entry])
    · rw [heq] at hexec
      obtain ⟨rfl, rfl, rfl⟩ := Prod.mk.injEq .. ▸ hexec
      have hkey := hfill.notMem hpid
      rw [if_pos rfl]
      refine hadds _ ⟨pm.children.putNew pid (child_create c.argv c.data), _⟩ hforked ?_
      rw [Table.putNew_of_notMem _ hkey, Table.entries_put_of_notMem _ hkey]
      simp [hnew, started_t.entry]

/-- **The children of any calls** have pids of their own, and those that were
registered are the new entries, in order. -/
theorem exec_all_adds (cs : List (call_t D)) : ∀ (k : kernel_t) (pm : process_monitor_t D),
    Filling k pm → Adds k pm (started cs k pm) (exec_all cs k pm).1 (exec_all cs k pm).2 := by
  induction cs with
  | nil => exact fun k pm _ => Adds.nothing k pm
  | cons c cs ih =>
      intro k pm h
      have hadds := process_monitor_exec_adds h c rfl
      have hfill := (process_monitor_exec_spec h c.argv c.data c.env rfl).1
      exact hadds.trans (ih _ _ hfill)

/-! ## The table through an await -/

section Await

variable (cb : callbacks σ D)

/-- No item adds or removes an entry. -/
theorem await_step_keys {w : world_t σ D} {i : item_t} {w' : world_t σ D}
    (hstep : await_step cb w i = .inl w') : w'.pm.children.keys = w.pm.children.keys := by
  obtain ⟨pid, ret, t, -, -, rfl⟩ | ⟨-, exits, rfl⟩ := await_step_cases cb hstep
  · cases hget : w.pm.children.get pid with
    | none => rw [unregister_pid_none cb w hget]
    | some c =>
        rw [unregister_pid_some cb w hget]
        exact Table.keys_put_of_get _ hget _
  · rfl

theorem await_loop_keys (w : world_t σ D) (items : List item_t) :
    (last cb w items).pm.children.keys = w.pm.children.keys
      ∧ ∀ turn ∈ (await_loop cb).turns w items, turn.1.pm.children.keys = w.pm.children.keys := by
  have hinv : ∀ (s : world_t σ D) i s', s.pm.children.keys = w.pm.children.keys →
      (await_loop cb).test s = true → (await_loop cb).step s i = .inl s' →
      s'.pm.children.keys = w.pm.children.keys :=
    fun s i s' hs _ hstep => (await_step_keys cb hstep).trans hs
  exact Loop.run_turns_inv hinv items w rfl

/-- The exit of a process was observed: `kevent(2)` returned it to the await. -/
def Observed (w : world_t σ D) (items : List item_t) (pid : ℕ) : Prop :=
  ∃ turn ∈ (await_loop cb).turns w items, ∃ ret,
    turn.2 = .kevent_exit pid ret ∧ (turn.1.kernel.event pid).isSome

theorem delivery_eq_some {w : world_t σ D} {i : item_t} {d : delivery_t D}
    (h : delivery w i = some d) :
    ∃ ret, i = .kevent_exit d.pid ret ∧ (w.kernel.event d.pid).isSome := by
  cases i with
  | kevent_exit pid ret =>
      rw [delivery] at h
      split at h
      case h_1 t c hevent hget =>
          rw [Option.some.injEq] at h
          exact ⟨ret, by rw [← h], by rw [← h, hevent, Option.isSome_some]⟩
      case h_2 => exact absurd h (by simp)
  | _ => exact absurd h (by simp [delivery])

/-- Of a child that has an entry, an exit that is observed is delivered. -/
theorem observed_iff {w : world_t σ D} (items : List item_t) {pid : ℕ}
    (hpid : pid ∈ w.pm.children.keys) :
    Observed cb w items pid ↔ ∃ d ∈ deliveries cb w items, d.pid = pid := by
  constructor
  · rintro ⟨⟨w', i⟩, hturn, ret, rfl, hevent⟩
    obtain ⟨t, ht⟩ := Option.isSome_iff_exists.mp hevent
    have hkeys := (await_loop_keys cb w items).2 _ hturn
    rw [← hkeys, ← Table.contains_iff, Table.contains, Option.isSome_iff_exists] at hpid
    obtain ⟨c, hc⟩ := hpid
    refine ⟨⟨pid, c, t, ret⟩, List.mem_filterMap.mpr ⟨_, hturn, ?_⟩, rfl⟩
    show delivery w' (.kevent_exit pid ret) = _
    simp only at ht hc
    rw [delivery, ht, hc]
  · rintro ⟨d, hd, rfl⟩
    obtain ⟨⟨w', i⟩, hturn, hdelivery⟩ := List.mem_filterMap.mp hd
    obtain ⟨ret, rfl, hevent⟩ := delivery_eq_some hdelivery
    exact ⟨_, hturn, ret, rfl, hevent⟩

end Await

/-! ## The calls of the callbacks -/

/-- A callback that was called. -/
inductive callback_t (D : Type)
  | exited (pid : ℕ) (status : ℤ) (data : D)
  | hanging (pid : ℕ) (data : D)

def callback_t.pid : callback_t D → ℕ
  | .exited pid _ _ => pid
  | .hanging pid _ => pid

/-- The callbacks that note that they were called. -/
def record : callbacks (List (callback_t D)) D where
  exited pid status acc data := acc ++ [.exited pid status data]
  hanging pid acc data := acc ++ [.hanging pid data]

/-- The call made for a delivery. -/
def delivery_t.call (d : delivery_t D) : callback_t D := .exited d.pid d.status d.child.data

/-- The call made for a child that is left hanging. -/
def hanging_call (e : ℕ × child_t D) : callback_t D := .hanging e.1 e.2.data

/-- A fresh monitor on which some calls of `process_monitor_exec` were made. -/
def filled (calls : List (call_t D)) : world_t (List (callback_t D)) D :=
  ⟨(exec_all calls kernel_t.boot process_monitor_create).1,
    (exec_all calls kernel_t.boot process_monitor_create).2, []⟩

/-- The children that were started on it. -/
def children (calls : List (call_t D)) : List (started_t D) :=
  started calls kernel_t.boot process_monitor_create

/-- The calls of the callbacks in the `process_monitor_await` that follows. -/
def callbacks_called (calls : List (call_t D)) (items : List item_t) (kill : ℕ → kill_t) :
    List (callback_t D) :=
  (process_monitor_await record items kill (filled calls)).acc

theorem foldl_record {α : Type} (f : α → callback_t D) (xs : List α) :
    ∀ acc : List (callback_t D), xs.foldl (fun acc x => acc ++ [f x]) acc = acc ++ xs.map f := by
  induction xs with
  | nil => simp
  | cons x xs ih =>
      intro acc
      rw [List.foldl_cons, ih, List.map_cons, List.append_assoc, List.singleton_append]

section Fresh

variable (calls : List (call_t D)) (items : List item_t) (kill : ℕ → kill_t)

theorem filled_filling : Filling (filled calls).kernel (filled calls).pm :=
  exec_all_filling calls _ _ created_filling

theorem children_adds : Adds kernel_t.boot process_monitor_create (children calls)
    (filled calls).kernel (filled calls).pm :=
  exec_all_adds calls _ _ created_filling

/-- The entries of the monitor are those of the children, in the order in which
they were started. -/
theorem filled_entries :
    (filled calls).pm.children.entries = (children calls).filterMap started_t.entry := by
  have hentries := (children_adds calls).entries
  rwa [process_monitor_create, Table.empty, List.nil_append] at hentries

/-- First the exits that are delivered, then the children that are left hanging. -/
theorem callbacks_called_eq : callbacks_called calls items kill
    = (deliveries record (filled calls) items).map delivery_t.call
      ++ (hangings record (filled calls) items kill).map hanging_call := by
  have hawait := process_monitor_await_eq record items kill (filled calls)
    (filled_filling calls).agree
  rw [callbacks_called, hawait.1]
  show List.foldl (fun acc e => acc ++ [hanging_call e])
    (List.foldl (fun acc d => acc ++ [delivery_t.call d]) [] _) _ = _
  rw [foldl_record, foldl_record, List.nil_append]

/-- **A child is answered for**: of the callbacks exactly one is called for it,
`exited` if its exit was observed, `hanging` if it was not. -/
def Answered (s : started_t D) : Prop :=
  (Observed record (filled calls) items s.pid →
      ∃ status, (callbacks_called calls items kill).filter (fun call => call.pid = s.pid)
        = [.exited s.pid status s.data])
    ∧ (¬ Observed record (filled calls) items s.pid →
      (callbacks_called calls items kill).filter (fun call => call.pid = s.pid)
        = [.hanging s.pid s.data])

/-- The calls for one process. -/
theorem filter_called (pid : ℕ) :
    (callbacks_called calls items kill).filter (fun call => call.pid = pid)
      = ((deliveries record (filled calls) items).filter (fun d => d.pid = pid)).map delivery_t.call
        ++ ((hangings record (filled calls) items kill).filter (fun e => e.1 = pid)).map
          hanging_call := by
  rw [callbacks_called_eq, List.filter_append, List.filter_map, List.filter_map]
  rfl

/-- What is picked out of a list by a key that occurs once. -/
theorem filter_eq_singleton {α : Type} {f : α → ℕ} {xs : List α} (h : (xs.map f).Nodup) {x : α}
    (hx : x ∈ xs) : xs.filter (fun y => f y = f x) = [x] := by
  have hnodup : (xs.filter (fun y => f y = f x)).Nodup := (List.Nodup.of_map f h).filter _
  refine List.perm_singleton.mp ((List.perm_ext_iff_of_nodup hnodup (by simp)).mpr fun y => ?_)
  rw [List.mem_filter, List.mem_singleton, decide_eq_true_eq]
  constructor
  · rintro ⟨hy, heq⟩
    exact List.inj_on_of_nodup_map h hy hx heq
  · rintro rfl
    exact ⟨hx, rfl⟩

theorem filter_eq_nil {α : Type} {f : α → ℕ} {xs : List α} {k : ℕ} (h : ∀ x ∈ xs, f x ≠ k) :
    xs.filter (fun y => f y = k) = [] := by
  rw [List.filter_eq_nil_iff]
  simpa using h

theorem hangings_fst_nodup :
    ((hangings record (filled calls) items kill).map Prod.fst).Nodup := by
  have hsub := (hung_prefix_unexited kill (last record (filled calls) items).pm.children.entries)
  exact (last record (filled calls) items).pm.children.nodup.sublist
    ((hsub.sublist.trans List.filter_sublist).map Prod.fst)

/-- Whoever a callback is called for has an entry. -/
theorem mem_keys_of_called {call : callback_t D} (h : call ∈ callbacks_called calls items kill) :
    call.pid ∈ (filled calls).pm.children.keys := by
  have hmem := (called_spec record (filled calls) items kill (filled_filling calls).agree).2
  rw [callbacks_called_eq, List.mem_append, List.mem_map, List.mem_map] at h
  rcases h with ⟨d, hd, rfl⟩ | ⟨e, he, rfl⟩
  · have hd' := hmem (d.pid, d.child) (List.mem_append_left _ (List.mem_map_of_mem hd))
    exact List.mem_map_of_mem (List.mem_of_mem_filter hd')
  · have he' := hmem e (List.mem_append_right _ he)
    exact List.mem_map_of_mem (List.mem_of_mem_filter he')

/-- A child that was not registered is not heard of again. -/
theorem not_answered {s : started_t D} (hs : s ∈ children calls) (h : s.register ≠ .registered) :
    ¬ Answered calls items kill s := by
  have hkey : s.pid ∉ (filled calls).pm.children.keys := by
    rw [Table.keys, filled_entries, List.mem_map]
    rintro ⟨e, he, heq⟩
    obtain ⟨s', hs', hentry⟩ := List.mem_filterMap.mp he
    rw [started_t.entry] at hentry
    split_ifs at hentry with hregistered
    -- the pid says which child it is
    rw [Option.some.injEq] at hentry
    have hsame := List.inj_on_of_nodup_map (children_adds calls).nodup hs' hs
      (by rw [← heq, ← hentry])
    exact h (hsame ▸ hregistered)
  have hnil : (callbacks_called calls items kill).filter (fun call => call.pid = s.pid) = [] := by
    apply filter_eq_nil
    intro call hcall heq
    exact hkey (heq ▸ mem_keys_of_called calls items kill hcall)
  rintro ⟨hexited, hhanging⟩
  rw [hnil] at hexited hhanging
  by_cases hobserved : Observed record (filled calls) items s.pid
  · obtain ⟨status, heq⟩ := hexited hobserved
    exact absurd heq (by simp)
  · exact absurd (hhanging hobserved) (by simp)

/-- The entry of a child that was registered. -/
theorem mem_entries {s : started_t D} (hs : s ∈ children calls) (h : s.register = .registered) :
    (s.pid, child_create s.argv s.data) ∈ (filled calls).pm.children.entries := by
  rw [filled_entries, List.mem_filterMap]
  exact ⟨s, hs, by rw [started_t.entry, if_pos h]⟩

/-- **A child that was registered is answered for** unless the traversal should
reach it and does not. -/
theorem registered_answered_iff {s : started_t D} (hs : s ∈ children calls)
    (h : s.register = .registered) : Answered calls items kill s
      ↔ (¬ Observed record (filled calls) items s.pid →
        (s.pid, child_create s.argv s.data) ∈ hangings record (filled calls) items kill) := by
  have hfill := filled_filling calls
  have hspec := await_loop_spec record (filled calls) items hfill.agree
  have hentry := mem_entries calls hs h
  have hkey : s.pid ∈ (filled calls).pm.children.keys := List.mem_map_of_mem hentry
  have hobserved := observed_iff record items hkey
  -- the entry under its pid is its own
  have hown : ∀ c, (s.pid, c) ∈ (filled calls).pm.unexited → c = child_create s.argv s.data := by
    intro c hc
    have heq := List.inj_on_of_nodup_map (filled calls).pm.children.nodup
      (List.mem_of_mem_filter hc) hentry rfl
    exact (Prod.mk.inj heq).2
  rw [Answered, filter_called]
  by_cases hobs : Observed record (filled calls) items s.pid
  · -- delivered once, and in no list of those left hanging
    obtain ⟨d, hd, hpid⟩ := hobserved.mp hobs
    have hdata := hown d.child (hpid ▸ hspec.awaited d hd)
    have hhung : (hangings record (filled calls) items kill).filter (fun e => e.1 = s.pid) = [] :=
      filter_eq_nil fun e he heq =>
        ((hspec.unexited e).mp (mem_hangings record he)).2 d hd (by rw [heq, hpid])
    rw [← hpid, filter_eq_singleton hspec.nodup hd, hpid, hhung]
    simp [hobs, delivery_t.call, hdata, hpid, child_create]
  · have hnone : (deliveries record (filled calls) items).filter (fun d => d.pid = s.pid) = [] :=
      filter_eq_nil fun d hd heq => hobs (hobserved.mpr ⟨d, hd, heq⟩)
    simp only [hobs, hnone, false_implies, not_false_eq_true, true_implies, true_and, List.map_nil,
      List.nil_append]
    constructor
    · intro hcall
      have hmem : callback_t.hanging s.pid s.data
          ∈ ((hangings record (filled calls) items kill).filter (fun e => e.1 = s.pid)).map
            hanging_call := by
        rw [hcall]
        exact List.mem_singleton_self _
      obtain ⟨e, he, heq⟩ := List.mem_map.mp hmem
      obtain ⟨he, hpid⟩ := List.mem_filter.mp he
      have hunexited := ((hspec.unexited e).mp (mem_hangings record he)).1
      obtain ⟨q, c⟩ := e
      have hq : q = s.pid := by simpa using hpid
      rw [hq] at hunexited he
      rwa [← hown c hunexited]
    · intro hmem
      have hone := filter_eq_singleton (hangings_fst_nodup calls items kill) hmem
      rw [hone]
      simp [hanging_call, child_create]

/-! ## The traversal -/

/-- **The traversal reaches every child that has not exited** just if it can kill
each of them that is followed by another one. -/
theorem hung_all_iff {es : List (ℕ × child_t D)} (hnodup : (es.map Prod.fst).Nodup) :
    (∀ e ∈ es, e.2.exited = false → e ∈ hung kill es)
      ↔ es.Pairwise fun a b => a.2.exited = false → b.2.exited = false → kill a.1 ≠ .failed := by
  induction es with
  | nil => simp
  | cons e es ih =>
      obtain ⟨pid, c⟩ := e
      rw [List.map_cons, List.nodup_cons] at hnodup
      have hrest := ih hnodup.2
      -- no later entry is this one
      have hne : ∀ e ∈ es, e ≠ (pid, c) := by
        rintro e he rfl
        exact hnodup.1 (List.mem_map_of_mem he)
      rw [List.forall_mem_cons, List.pairwise_cons, hung]
      by_cases hex : c.exited = true
      · rw [if_pos hex, hrest]
        simp [hex]
      · rw [if_neg hex]
        by_cases hkill : kill pid = .failed
        · rw [if_pos hkill]
          simp only [Bool.not_eq_true] at hex
          simp only [List.mem_singleton, hex, hkill, ne_eq, not_true, true_implies, true_and]
          constructor
          · intro hall
            have hexited : ∀ b ∈ es, ¬ b.2.exited = false := fun b hb hb' => hne b hb (hall b hb hb')
            refine ⟨hexited, hrest.mp fun b hb hb' => absurd hb' (hexited b hb)⟩
          · rintro ⟨hexited, -⟩ b hb hb'
            exact absurd hb' (hexited b hb)
        · rw [if_neg hkill]
          constructor
          · rintro ⟨-, hall⟩
            refine ⟨fun b hb _ _ => hkill, hrest.mp fun b hb hb' => ?_⟩
            exact (List.mem_cons.mp (hall b hb hb')).resolve_left (hne b hb)
          · rintro ⟨-, hall⟩
            refine ⟨fun _ => List.mem_cons_self, fun b hb hb' => ?_⟩
            exact List.mem_cons_of_mem _ (hrest.mpr hall b hb hb')

/-- When the loop has ended, a child has not exited just if its exit was not
observed. -/
theorem unexited_iff {e : ℕ × child_t D}
    (he : e ∈ (last record (filled calls) items).pm.children.entries) :
    e.2.exited = false ↔ ¬ Observed record (filled calls) items e.1 := by
  have hfill := filled_filling calls
  have hspec := await_loop_spec record (filled calls) items hfill.agree
  have hkeys := (await_loop_keys record (filled calls) items).1
  have hkey : e.1 ∈ (filled calls).pm.children.keys := hkeys ▸ List.mem_map_of_mem he
  rw [observed_iff record items hkey]
  constructor
  · rintro hex ⟨d, hd, hpid⟩
    have hmem : e ∈ (last record (filled calls) items).pm.unexited :=
      List.mem_filter.mpr ⟨he, by simp [hex]⟩
    exact ((hspec.unexited e).mp hmem).2 d hd hpid.symm
  · intro hnone
    obtain ⟨⟨q, c⟩, hc, hq⟩ := List.mem_map.mp hkey
    simp only at hq
    subst hq
    -- the child was there at the start, and nothing was delivered for it since
    have hstart : (e.1, c) ∈ (filled calls).pm.unexited := by
      rw [hfill.unexited_eq]
      exact hc
    have hend := (hspec.unexited (e.1, c)).mpr
      ⟨hstart, fun d hd heq => hnone ⟨d, hd, heq.symm⟩⟩
    have hsame := List.inj_on_of_nodup_map
      (last record (filled calls) items).pm.children.nodup (List.mem_of_mem_filter hend) he rfl
    have hex := (List.mem_filter.mp hend).2
    rw [hsame] at hex
    simpa using hex

/-- When every child was registered, their pids are the keys of the table. -/
theorem children_pids (h : ∀ s ∈ children calls, s.register = .registered) :
    (children calls).map started_t.pid
      = (last record (filled calls) items).pm.children.entries.map Prod.fst := by
  have hkeys := (await_loop_keys record (filled calls) items).1
  rw [Table.keys, Table.keys, filled_entries] at hkeys
  rw [hkeys, List.map_filterMap]
  have hentry : ∀ s ∈ children calls, (s.entry).map Prod.fst = some s.pid := by
    intro s hs
    rw [started_t.entry, if_pos (h s hs), Option.map_some]
  rw [List.filterMap_congr hentry]
  simp

/-- The traversal of the children that are still there is over the table, whose keys
are the pids. -/
theorem pairwise_unobserved_iff (h : ∀ s ∈ children calls, s.register = .registered) :
    ((children calls).Pairwise fun a b => ¬ Observed record (filled calls) items a.pid →
        ¬ Observed record (filled calls) items b.pid → kill a.pid ≠ .failed)
      ↔ (last record (filled calls) items).pm.children.entries.Pairwise fun a b =>
        a.2.exited = false → b.2.exited = false → kill a.1 ≠ .failed := by
  rw [← List.pairwise_map (f := started_t.pid)
    (R := fun a b => ¬ Observed record (filled calls) items a →
      ¬ Observed record (filled calls) items b → kill a ≠ .failed), children_pids calls items h,
    List.pairwise_map]
  apply List.Pairwise.iff_of_mem
  intro a b ha hb
  rw [unexited_iff calls items ha, unexited_iff calls items hb]

/-- A registered child whose exit is not observed is still there. -/
theorem child_unexited {s : started_t D} (hs : s ∈ children calls) (hreg : s.register = .registered)
    (hobs : ¬ Observed record (filled calls) items s.pid) :
    (s.pid, child_create s.argv s.data) ∈ (last record (filled calls) items).pm.unexited := by
  have hfill := filled_filling calls
  have hspec := await_loop_spec record (filled calls) items hfill.agree
  have hkey : s.pid ∈ (filled calls).pm.children.keys :=
    List.mem_map_of_mem (mem_entries calls hs hreg)
  refine (hspec.unexited _).mpr ⟨?_, fun d hd heq => ?_⟩
  · rw [hfill.unexited_eq]
    exact mem_entries calls hs hreg
  · exact hobs ((observed_iff record items hkey).mpr ⟨d, hd, heq.symm⟩)

/-- **Every child is answered for** if and only if every one was registered, and
none that can't be killed, its exit not having been observed, was started before
another whose exit was not observed either. -/
theorem process_monitor_await_complete_iff :
    (∀ s ∈ children calls, Answered calls items kill s)
      ↔ (∀ s ∈ children calls, s.register = .registered)
        ∧ (children calls).Pairwise fun a b => ¬ Observed record (filled calls) items a.pid →
          ¬ Observed record (filled calls) items b.pid → kill a.pid ≠ .failed := by
  by_cases hreg : ∀ s ∈ children calls, s.register = .registered
  · have hpids := children_pids calls items hreg
    have hnodup := (last record (filled calls) items).pm.children.nodup
    rw [pairwise_unobserved_iff calls items kill hreg, ← hung_all_iff kill hnodup,
      and_iff_right hreg]
    constructor
    · intro hall e he hex
      have hmem : e.1 ∈ (children calls).map started_t.pid := hpids ▸ List.mem_map_of_mem he
      obtain ⟨s, hs, hpid⟩ := List.mem_map.mp hmem
      have hobs := (unexited_iff calls items he).mp hex
      rw [← hpid] at hobs
      have hhung := (registered_answered_iff calls items kill hs (hreg s hs)).mp (hall s hs) hobs
      have hin := List.mem_of_mem_filter (mem_hangings record hhung)
      rwa [← List.inj_on_of_nodup_map hnodup hin he hpid]
    · intro hall s hs
      rw [registered_answered_iff calls items kill hs (hreg s hs)]
      intro hobs
      have hlast := child_unexited calls items hs (hreg s hs) hobs
      exact hall _ (List.mem_of_mem_filter hlast) rfl
  · refine iff_of_false (fun hall => hreg fun s hs => ?_) (fun h => hreg h.1)
    by_contra hne
    exact not_answered calls items kill hs hne (hall s hs)

end Fresh

/-- The first of two children that hang can't be killed. -/
def firstStays : ℕ → kill_t := fun pid => if pid = 1 then .failed else .sent

/-- Nothing is called for the second child. -/
theorem firstStays_skips :
    ¬ ∀ s ∈ children [spawn 1, spawn 2], Answered [spawn 1, spawn 2] [.deadline] firstStays s := by
  have hcalled : callbacks_called [spawn 1, spawn 2] [.deadline] firstStays = [.hanging 1 ()] := by
    rfl
  have hpids : (children [spawn 1, spawn 2]).map started_t.pid = [1, 2] := by decide
  have hmem : 2 ∈ (children [spawn 1, spawn 2]).map started_t.pid := by simp [hpids]
  intro hall
  obtain ⟨s, hs, hpid⟩ := List.mem_map.mp hmem
  obtain ⟨hexited, hhanging⟩ := hall s hs
  rw [hcalled, hpid] at hexited hhanging
  by_cases hobserved : Observed record (filled [spawn 1, spawn 2]) [.deadline] 2
  · obtain ⟨status, heq⟩ := hexited hobserved
    exact absurd heq (by simp [callback_t.pid])
  · exact absurd (hhanging hobserved) (by simp [callback_t.pid])

end PkgPlugins.MonitorComplete
