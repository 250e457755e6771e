/-
Runs of a process monitor: phases of `process_monitor_exec`,
`process_monitor_await` and `process_monitor_clear` on one monitor, whatever the
processes do meanwhile.

Between two calls the monitor and the kernel agree (`Agree`). While a phase is
filled, no child has been seen to exit, so the counter is the number of children
(`Filling`). An exit that is delivered to an await then takes one from the
counter, and one from the children that are awaited if it is one of theirs: the
counter stays right exactly as long as no other exit is delivered.
-/
import PkgPlugins.ProcessMonitor

set_option autoImplicit false

namespace PkgPlugins.MonitorRuns

open PkgPlugins.AssocTable PkgPlugins.EventLoop PkgPlugins.ProcessMonitor

variable {D σ : Type}

/-! ## Filling a monitor -/

/-- A monitor that is being filled. -/
structure Filling (k : kernel_t) (pm : process_monitor_t D) : Prop where
  agree : Agree k pm
  count : pm.active_children_count = pm.children.values.length
  unexited : ∀ c ∈ pm.children.values, c.exited = false

theorem Filling.clear {k : kernel_t} {pm : process_monitor_t D} (h : Agree k pm) :
    Filling k (process_monitor_clear pm) :=
  ⟨h.clear, by simp [process_monitor_clear, Table.values, Table.empty],
    by simp [process_monitor_clear, Table.values, Table.empty]⟩

theorem Filling.unexited_eq {k : kernel_t} {pm : process_monitor_t D} (h : Filling k pm) :
    pm.unexited = pm.children.entries := by
  rw [process_monitor_t.unexited, List.filter_eq_self]
  intro e he
  simp [h.unexited e.2 (List.mem_map_of_mem he)]

/-- The counter of a monitor that is filled is right. -/
theorem Filling.synced {k : kernel_t} {pm : process_monitor_t D} (h : Filling k pm) :
    Synced pm := by
  rw [Synced, h.unexited_eq, h.count, Table.values, List.length_map]

/-- A monitor that is filled has an entry only for what is registered. -/
theorem Filling.notMem {k : kernel_t} {pm : process_monitor_t D} (h : Filling k pm) {pid : ℕ}
    (hpid : k.procs pid = none) : pid ∉ pm.children.keys := by
  intro hmem
  rw [← Table.contains_iff, Table.contains, Option.isSome_iff_exists] at hmem
  obtain ⟨c, hc⟩ := hmem
  have hval : c ∈ pm.children.values :=
    List.mem_map_of_mem ((pm.children.get_eq_some_iff pid c).mp hc)
  have hknote := (h.agree.registered pid c hc).mp (h.unexited c hval)
  exact h.agree.process pid hknote (k.image_eq_none.mpr hpid)

/-- A registered process becomes a child. -/
theorem Filling.enter {k : kernel_t} {pm : process_monitor_t D} (h : Filling k pm) {pid : ℕ}
    (hkey : pid ∉ pm.children.keys) {argv : argv_t} (himage : k.image pid = some argv.image)
    (data : D) :
    Filling (k.ev_add pid)
      ⟨pm.children.putNew pid (child_create argv data), pm.active_children_count + 1⟩ := by
  have hadd := h.agree.ev_add (by simp [himage]) hkey
  have hget : ∀ q c, (pm.children.putNew pid (child_create argv data)).get q = some c →
      (q = pid ∧ c = child_create argv data) ∨ pm.children.get q = some c := by
    intro q c hq
    rw [Table.putNew_of_notMem _ hkey, Table.get_put] at hq
    by_cases heq : q = pid
    · rw [if_pos heq, Option.some.injEq] at hq
      exact Or.inl ⟨heq, hq.symm⟩
    · rw [if_neg heq] at hq
      exact Or.inr hq
  refine ⟨⟨hadd.process, fun q c hq => ?_, fun q c hq hex => ?_⟩, ?_, fun c hc => ?_⟩
  · rcases hget q c hq with ⟨rfl, rfl⟩ | hold
    · simp [child_create, kernel_t.ev_add]
    · exact hadd.registered q c hold
  · rcases hget q c hq with ⟨rfl, rfl⟩ | hold
    · exact himage
    · exact hadd.image q c hold hex
  · rw [Table.putNew_of_notMem _ hkey, Table.values_put_of_notMem _ hkey, List.length_append,
      h.count]
    simp
  · rw [Table.mem_values_iff] at hc
    obtain ⟨q, hq⟩ := hc
    rcases hget q c hq with ⟨-, rfl⟩ | hold
    · rfl
    · exact h.unexited c ((Table.mem_values_iff _ c).mpr ⟨q, hold⟩)

/-- **What a call of `process_monitor_exec` leaves of a monitor that is filled.**
What it returns says whether a child was forked, and a child that was forked may
have an entry or not. -/
theorem process_monitor_exec_spec {k : kernel_t} {pm : process_monitor_t D} (h : Filling k pm)
    (argv : argv_t) (data : D) (env : exec_env) {k' : kernel_t} {pm' : process_monitor_t D}
    {forked : Bool} (hexec : process_monitor_exec k pm argv data env = (k', pm', forked)) :
    Filling k' pm' ∧ k'.executed = k.executed ++ (if forked then [argv.image] else [])
      ∧ ∃ entered : Bool, (entered = true → forked = true)
        ∧ pm'.children.values
          = pm.children.values ++ (if entered then [child_create argv data] else []) := by
  have hexecuted := (kernel_t.elapse_spec env.exits k).2.2
  have hfill : Filling (k.elapse env.exits) pm := ⟨h.agree.elapse env.exits, h.count, h.unexited⟩
  rcases process_monitor_exec_cases k pm argv data env with
    hnone | ⟨pid, register, -, hpid, hcases⟩
  · rw [hnone] at hexec
    obtain ⟨rfl, rfl, rfl⟩ := Prod.mk.injEq .. ▸ hexec
    exact ⟨hfill, by simp [hexecuted], false, by simp, by simp⟩
  · have hkey := hfill.notMem hpid
    have hfork : Filling ((k.elapse env.exits).fork pid argv.image) pm :=
      ⟨hfill.agree.fork hpid argv.image, h.count, h.unexited⟩
    have himage : ((k.elapse env.exits).fork pid argv.image).image pid = some argv.image := by
      rw [kernel_t.fork_image, Function.update_self]
    have hran : ((k.elapse env.exits).fork pid argv.image).executed
        = k.executed ++ [argv.image] := by
      rw [kernel_t.fork, hexecuted]
    -- the registration fails, or the allocation of the child, or neither
    rcases hcases with ⟨-, heq⟩ | ⟨-, heq⟩ | ⟨-, heq⟩
    · rw [heq] at hexec
      obtain ⟨rfl, rfl, rfl⟩ := Prod.mk.injEq .. ▸ hexec
      exact ⟨hfork, by simpa using hran, false, by simp, by simp⟩
    · rw [heq] at hexec
      obtain ⟨rfl, rfl, rfl⟩ := Prod.mk.injEq .. ▸ hexec
      exact ⟨⟨hfork.agree.ev_add (by simp [himage]) hkey, h.count, h.unexited⟩,
        by simpa using hran, false, by simp, by simp⟩
    · rw [heq] at hexec
      obtain ⟨rfl, rfl, rfl⟩ := Prod.mk.injEq .. ▸ hexec
      refine ⟨hfork.enter hkey himage data, by simpa using hran, true, by simp, ?_⟩
      rw [Table.putNew_of_notMem _ hkey, Table.values_put_of_notMem _ hkey]
      simp

/-- A call of `process_monitor_exec` with what happens at it. -/
structure call_t (D : Type) where
  argv : argv_t
  data : D
  env : exec_env

/-- Calls of `process_monitor_exec` one after the other, whatever they return. -/
def exec_all : List (call_t D) → kernel_t → process_monitor_t D → kernel_t × process_monitor_t D
  | [], k, pm => (k, pm)
  | c :: cs, k, pm =>
      let (k, pm, _) := process_monitor_exec k pm c.argv c.data c.env
      exec_all cs k pm

theorem exec_all_filling (cs : List (call_t D)) : ∀ (k : kernel_t) (pm : process_monitor_t D),
    Filling k pm → Filling (exec_all cs k pm).1 (exec_all cs k pm).2 := by
  induction cs with
  | nil => exact fun k pm h => h
  | cons c cs ih =>
      intro k pm h
      exact ih _ _ (process_monitor_exec_spec h c.argv c.data c.env rfl).1

/-! ## One delivery -/

section Await

variable (cb : callbacks σ D)

/-- `unregister_pid` keeps the monitor and the kernel in agreement. -/
theorem unregister_pid_agree {w : world_t σ D} (h : Agree w.kernel w.pm) (pid : ℕ)
    (t : termination_t) (ret : wait_t) :
    Agree (unregister_pid cb w pid t ret).kernel (unregister_pid cb w pid t ret).pm := by
  have hknotes : ∀ q, q ∈ (((w.kernel.ev_delete pid).waitpid pid t ret).1).knotes
      ↔ q ≠ pid ∧ q ∈ w.kernel.knotes := by
    intro q
    rw [kernel_t.waitpid_knotes]
    exact Finset.mem_erase
  have himage : ∀ q, q ≠ pid → (((w.kernel.ev_delete pid).waitpid pid t ret).1).image q
      = w.kernel.image q := by
    intro q hq
    rw [kernel_t.waitpid_image _ _ _ _ hq, kernel_t.ev_delete_image]
  have hprocess : ∀ q ∈ (((w.kernel.ev_delete pid).waitpid pid t ret).1).knotes,
      (((w.kernel.ev_delete pid).waitpid pid t ret).1).image q ≠ none := by
    intro q hq
    obtain ⟨hne, hq⟩ := (hknotes q).mp hq
    rw [himage q hne]
    exact h.process q hq
  cases hget : w.pm.children.get pid with
  | none =>
      -- the process is no child: the table stays as it was
      rw [unregister_pid_none cb w hget]
      have hne : ∀ q c, w.pm.children.get q = some c → q ≠ pid := by
        rintro q c hc rfl
        rw [hget] at hc
        exact absurd hc (by simp)
      refine ⟨hprocess, fun q c hc => ?_, fun q c hc hex => ?_⟩
      · rw [hknotes, h.registered q c hc]
        exact (and_iff_right (hne q c hc)).symm
      · rw [himage q (hne q c hc)]
        exact h.image q c hc hex
  | some c₀ =>
      -- a child: its entry is marked, and its registration gone
      rw [unregister_pid_some cb w hget]
      refine ⟨hprocess, fun q c hc => ?_, fun q c hc hex => ?_⟩
      · rw [hknotes]
        rw [Table.get_put] at hc
        by_cases hq : q = pid
        · rw [if_pos hq, Option.some.injEq] at hc
          simp [hq, ← hc]
        · rw [if_neg hq] at hc
          rw [h.registered q c hc]
          exact (and_iff_right hq).symm
      · rw [Table.get_put] at hc
        by_cases hq : q = pid
        · rw [if_pos hq, Option.some.injEq] at hc
          rw [← hc] at hex
          exact absurd hex (by simp)
        · rw [if_neg hq] at hc
          rw [himage q hq]
          exact h.image q c hc hex

/-- A delivery concerns one process, which is awaited no longer. -/
theorem unregister_pid_unexited (w : world_t σ D) (pid : ℕ) (t : termination_t) (ret : wait_t)
    (e : ℕ × child_t D) :
    e ∈ (unregister_pid cb w pid t ret).pm.unexited ↔ e ∈ w.pm.unexited ∧ e.1 ≠ pid := by
  obtain ⟨q, c⟩ := e
  rw [process_monitor_t.mem_unexited, process_monitor_t.mem_unexited]
  cases hget : w.pm.children.get pid with
  | none =>
      rw [unregister_pid_none cb w hget]
      refine ⟨fun hc => ⟨hc, ?_⟩, And.left⟩
      rintro rfl
      rw [hget] at hc
      exact absurd hc.1 (by simp)
  | some c₀ =>
      rw [unregister_pid_some cb w hget, Table.get_put]
      by_cases hq : q = pid
      · simp only [hq, if_true, Option.some.injEq, ne_eq, not_true, and_false, iff_false, not_and]
        rintro rfl
        simp
      · simp [hq]

/-- **A delivery takes one from the counter**, and one from the children that are
awaited just if it is one of theirs. -/
theorem unregister_pid_synced {w : world_t σ D} (h : Agree w.kernel w.pm) (hsync : Synced w.pm)
    {pid : ℕ} {t : termination_t} (hevent : w.kernel.event pid = some t) (ret : wait_t) :
    Synced (unregister_pid cb w pid t ret).pm ↔ (w.pm.children.get pid).isSome = true := by
  unfold Synced at hsync ⊢
  cases hget : w.pm.children.get pid with
  | none =>
      rw [unregister_pid_none cb w hget]
      show w.pm.active_children_count - 1 = w.pm.unexited.length ↔ _
      rw [hsync, Option.isSome_none]
      simp only [Bool.false_eq_true, iff_false]
      omega
  | some c =>
      have hex := h.unexited_of_event hevent hget
      rw [unregister_pid_some cb w hget]
      -- its entry is one of those counted before, and not counted any more
      obtain ⟨l, r, hes, hput⟩ := w.pm.children.entries_put_of_get hget { c with
        exited := true
        status := WEXITSTATUS ((w.kernel.ev_delete pid).waitpid pid t ret).2 }
      have hlen : w.pm.unexited.length = (l.filter (fun e => !e.2.exited)).length + 1
          + (r.filter (fun e => !e.2.exited)).length := by
        rw [process_monitor_t.unexited, hes, List.filter_append, List.length_append,
          List.filter_cons_of_pos (by simp [hex]), List.length_cons]
        omega
      show w.pm.active_children_count - 1
        = (((w.pm.children.put pid _).entries.filter (fun e => !e.2.exited)).length : ℤ) ↔ _
      rw [hput, List.filter_append, List.length_append, List.filter_cons_of_neg (by simp), hsync,
        hlen, Option.isSome_some, iff_true_right rfl]
      omega

/-- **What an item does** when the loop goes on: it hands an exit to `unregister_pid`,
or at most a process ends. -/
theorem await_step_cases {w : world_t σ D} {i : item_t} {w' : world_t σ D}
    (hstep : await_step cb w i = .inl w') :
    (∃ pid ret t, i = .kevent_exit pid ret ∧ w.kernel.event pid = some t
        ∧ w' = unregister_pid cb w pid t ret)
      ∨ (∀ pid ret, i = .kevent_exit pid ret → w.kernel.event pid = none)
        ∧ ∃ exits, w' = { w with kernel := w.kernel.elapse exits } := by
  cases i with
  | exits pid t =>
      rw [await_step, Sum.inl.injEq] at hstep
      exact Or.inr ⟨by simp, [(pid, t)], hstep.symm⟩
  | kevent_eintr =>
      rw [await_step, Sum.inl.injEq] at hstep
      exact Or.inr ⟨by simp, [], hstep.symm⟩
  | kevent_timeout =>
      rw [await_step] at hstep
      by_cases hpending : w.kernel.pending
      · rw [if_pos hpending, Sum.inl.injEq] at hstep
        exact Or.inr ⟨by simp, [], hstep.symm⟩
      · rw [if_neg hpending] at hstep
        exact absurd hstep (by simp)
  | deadline => exact absurd hstep (by simp [await_step])
  | kevent_failed => exact absurd hstep (by simp [await_step])
  | kevent_exit pid ret =>
      rw [await_step] at hstep
      cases hevent : w.kernel.event pid with
      | some t =>
          rw [hevent, Sum.inl.injEq] at hstep
          exact Or.inl ⟨pid, ret, t, rfl, hevent, hstep.symm⟩
      | none =>
          rw [hevent, Sum.inl.injEq] at hstep
          refine Or.inr ⟨?_, [], hstep.symm⟩
          intro pid' ret' heq
          rw [← (item_t.kevent_exit.inj heq).1]
          exact hevent

/-- An item keeps the monitor and the kernel in agreement. -/
theorem await_step_agree (w : world_t σ D) (i : item_t) (w' : world_t σ D)
    (h : Agree w.kernel w.pm) (hstep : await_step cb w i = .inl w') : Agree w'.kernel w'.pm := by
  obtain ⟨pid, ret, t, -, -, rfl⟩ | ⟨-, exits, rfl⟩ := await_step_cases cb hstep
  · exact unregister_pid_agree cb h pid t ret
  · exact h.elapse exits

/-! ## What an await delivers -/

/-- An exit that was delivered: the child, how it ended, and what `waitpid` made
of it. -/
structure delivery_t (D : Type) where
  pid : ℕ
  child : child_t D
  t : termination_t
  ret : wait_t

/-- The status the callback is given. -/
def delivery_t.status (d : delivery_t D) : ℤ := WEXITSTATUS (d.ret.pstat d.t)

/-- The delivery of an item: none if no event is delivered, or that of a process
that is no child. -/
def delivery (w : world_t σ D) : item_t → Option (delivery_t D)
  | .kevent_exit pid ret =>
      match w.kernel.event pid, w.pm.children.get pid with
      | some t, some c => some ⟨pid, c, t, ret⟩
      | _, _ => none
  | _ => none

/-- The deliveries of an await, in order. -/
def deliveries (cb : callbacks σ D) (w : world_t σ D) (items : List item_t) :
    List (delivery_t D) :=
  ((await_loop cb).turns w items).filterMap (Function.uncurry delivery)

/-- What the exited callback makes of a delivery. -/
def delivery_t.callback (cb : callbacks σ D) (acc : σ) (d : delivery_t D) : σ :=
  cb.exited d.pid d.status acc d.child.data

/-- **An item calls the callback on its delivery**, after which that child is
awaited no longer; without a delivery, neither changes. -/
theorem await_step_delivery (w : world_t σ D) (i : item_t) (w' : world_t σ D)
    (h : Agree w.kernel w.pm) (hstep : await_step cb w i = .inl w') :
    w'.kernel.executed = w.kernel.executed
      ∧ w'.acc = (delivery w i).toList.foldl (delivery_t.callback cb) w.acc
      ∧ (∀ d ∈ delivery w i, (d.pid, d.child) ∈ w.pm.unexited)
      ∧ ∀ e, e ∈ w'.pm.unexited ↔ e ∈ w.pm.unexited ∧ ∀ d ∈ delivery w i, e.1 ≠ d.pid := by
  obtain ⟨pid, ret, t, rfl, hevent, rfl⟩ | ⟨hquiet, exits, rfl⟩ := await_step_cases cb hstep
  · have hunexited := unregister_pid_unexited cb w pid t ret
    cases hget : w.pm.children.get pid with
    | none =>
        -- the exit of a process that is no child: the callback is not called
        have hne : ∀ e ∈ w.pm.unexited, e.1 ≠ pid := by
          rintro ⟨q, c⟩ he rfl
          rw [process_monitor_t.mem_unexited, hget] at he
          exact absurd he.1 (by simp)
        refine ⟨?_, ?_, by simp [delivery, hevent, hget], fun e => ?_⟩
        · simp [unregister_pid_none cb w hget, kernel_t.ev_delete]
        · simp [unregister_pid_none cb w hget, delivery, hevent, hget]
        · rw [hunexited e]
          simpa [delivery, hevent, hget] using hne e
    | some c =>
        have hex := h.unexited_of_event hevent hget
        refine ⟨?_, ?_, ?_, fun e => ?_⟩
        · simp [unregister_pid_some cb w hget, kernel_t.ev_delete]
        · simp [unregister_pid_some cb w hget, delivery, hevent, hget, delivery_t.callback,
            delivery_t.status, kernel_t.waitpid_pstat]
        · simpa [delivery, hevent, hget, process_monitor_t.mem_unexited] using hex
        · rw [hunexited e]
          simp [delivery, hevent, hget]
  · have hnone : delivery w i = none := by
      cases i with
      | kevent_exit pid ret => simp [delivery, hquiet pid ret rfl]
      | _ => rfl
    rw [hnone]
    exact ⟨(kernel_t.elapse_spec exits w.kernel).2.2, rfl, by simp, by simp⟩

/-- What a run of the loop does: it calls the callback on its deliveries, each of
another child that was awaited, and awaits the others still. -/
structure Awaited (cb : callbacks σ D) (w : world_t σ D) (ds : List (delivery_t D))
    (w' : world_t σ D) : Prop where
  agree : Agree w'.kernel w'.pm
  executed : w'.kernel.executed = w.kernel.executed
  acc : w'.acc = ds.foldl (delivery_t.callback cb) w.acc
  nodup : (ds.map delivery_t.pid).Nodup
  awaited : ∀ d ∈ ds, (d.pid, d.child) ∈ w.pm.unexited
  unexited : ∀ e, e ∈ w'.pm.unexited ↔ e ∈ w.pm.unexited ∧ ∀ d ∈ ds, e.1 ≠ d.pid

theorem Awaited.none {w : world_t σ D} (h : Agree w.kernel w.pm) : Awaited cb w [] w :=
  ⟨h, rfl, rfl, by simp, by simp, by simp⟩

/-- **The loop of an await**, whatever happens while it runs. -/
theorem await_loop_spec (w : world_t σ D) (items : List item_t) : Agree w.kernel w.pm →
    Awaited cb w (deliveries cb w items) ((await_loop cb).run w items).1 := by
  unfold deliveries
  induction w, items using (await_loop cb).induct with
  | idle w ht => exact Awaited.none cb
  | done w items ht => rw [Loop.run_stop ht, Loop.turns_stop ht]; exact Awaited.none cb
  | stop w i items r ht hs => rw [Loop.run_inr ht hs, Loop.turns_inr ht hs]; exact Awaited.none cb
  | turn w i items w' ht hs ih =>
      intro h
      have hrest := ih (await_step_agree cb w i w' h hs)
      obtain ⟨hexecuted, hacc, hawaited, hunexited⟩ := await_step_delivery cb w i w' h hs
      rw [Loop.run_inl ht hs, Loop.turns_inl ht hs]
      have hexec := hrest.executed.trans hexecuted
      -- an item without a delivery changes nothing that is described
      cases hd : delivery w i with
      | none =>
          simp only [hd, Option.toList_none, List.foldl_nil, Option.mem_def, reduceCtorEq,
            false_implies, implies_true, and_true] at hacc hunexited
          have hnone : Function.uncurry delivery (w, i) = none := hd
          rw [List.filterMap_cons_none hnone]
          exact ⟨hrest.agree, hexec, by rw [hrest.acc, hacc], hrest.nodup,
            fun d hmem => (hunexited _).mp (hrest.awaited d hmem),
            fun e => by rw [hrest.unexited, hunexited]⟩
      | some d₀ =>
          simp only [hd, Option.toList_some, List.foldl_cons, List.foldl_nil, Option.mem_def,
            Option.some.injEq, forall_eq'] at hacc hawaited hunexited
          have hsome : Function.uncurry delivery (w, i) = some d₀ := hd
          rw [List.filterMap_cons_some hsome]
          -- what is delivered later is still awaited after this delivery
          have hother : ∀ d ∈ ((await_loop cb).turns w' items).filterMap
              (Function.uncurry delivery),
              (d.pid, d.child) ∈ w.pm.unexited ∧ d.pid ≠ d₀.pid := fun d hmem =>
            (hunexited (d.pid, d.child)).mp (hrest.awaited d hmem)
          refine ⟨hrest.agree, hexec, ?_, ?_, ?_, fun e => ?_⟩
          · rw [List.foldl_cons, hrest.acc, hacc]
          · rw [List.map_cons, List.nodup_cons, List.mem_map]
            refine ⟨?_, hrest.nodup⟩
            rintro ⟨d, hmem, heq⟩
            exact (hother d hmem).2 heq
          · intro d hmem
            rcases List.mem_cons.mp hmem with rfl | hmem
            · exact hawaited
            · exact (hother d hmem).1
          · rw [hrest.unexited, hunexited, List.forall_mem_cons, and_assoc]

/-! ## Who is left hanging -/

/-- The children that the traversal after the loop reaches: those that have not
exited, up to the first that can't be killed. -/
def hung (kill : ℕ → kill_t) : List (ℕ × child_t D) → List (ℕ × child_t D)
  | [] => []
  | (pid, c) :: es =>
      if c.exited then hung kill es
      else (pid, c) :: if kill pid = .failed then [] else hung kill es

/-- The callback is called on these, and these are sent a `SIGTERM`. -/
theorem hanging_loop_eq (cb : callbacks σ D) (kill : ℕ → kill_t) (es : List (ℕ × child_t D)) :
    ∀ (k : kernel_t) (acc : σ), hanging_loop cb kill es k acc
      = ({ k with sigterms := k.sigterms ++ (hung kill es).map Prod.fst },
        (hung kill es).foldl (fun acc e => cb.hanging e.1 acc e.2.data) acc) := by
  induction es with
  | nil => intro k acc; simp [hanging_loop, hung]
  | cons e es ih =>
      intro k acc
      obtain ⟨pid, c⟩ := e
      rw [hanging_loop, hung]
      by_cases hex : c.exited = true
      · rw [if_pos hex, if_pos hex, ih]
      · rw [if_neg hex, if_neg hex]
        by_cases hkill : kill pid = .failed
        · simp [hkill]
        · simp [hkill, ih]

theorem hung_prefix_unexited (kill : ℕ → kill_t) (es : List (ℕ × child_t D)) :
    hung kill es <+: es.filter (fun e => !e.2.exited) := by
  induction es with
  | nil => simp [hung]
  | cons e es ih =>
      obtain ⟨pid, c⟩ := e
      rw [hung]
      by_cases hex : c.exited = true
      · rw [if_pos hex, List.filter_cons_of_neg (by simp [hex])]
        exact ih
      · rw [if_neg hex, List.filter_cons_of_pos (by simp [hex]), List.prefix_cons_inj]
        split
        · exact List.nil_prefix
        · exact ih

/-- Where the loop of an await ends. -/
def last (cb : callbacks σ D) (w : world_t σ D) (items : List item_t) : world_t σ D :=
  ((await_loop cb).run w items).1

/-- The children left hanging by an await. -/
def hangings (cb : callbacks σ D) (w : world_t σ D) (items : List item_t) (kill : ℕ → kill_t) :
    List (ℕ × child_t D) :=
  hung kill (last cb w items).pm.children.entries

theorem mem_hangings {w : world_t σ D} {items : List item_t} {kill : ℕ → kill_t}
    {e : ℕ × child_t D} (he : e ∈ hangings cb w items kill) :
    e ∈ (last cb w items).pm.unexited :=
  (hung_prefix_unexited kill _).subset he

/-- The children that a callback is called on. -/
def called (w : world_t σ D) (items : List item_t) (kill : ℕ → kill_t) : List (ℕ × child_t D) :=
  (deliveries cb w items).map (fun d => (d.pid, d.child)) ++ hangings cb w items kill

/-- **Every callback is called for another child**, and for one that was awaited. -/
theorem called_spec (w : world_t σ D) (items : List item_t) (kill : ℕ → kill_t)
    (h : Agree w.kernel w.pm) :
    (called cb w items kill).Nodup ∧ ∀ e ∈ called cb w items kill, e ∈ w.pm.unexited := by
  have hspec := await_loop_spec cb w items h
  have hleft : ∀ e ∈ hangings cb w items kill,
      e ∈ w.pm.unexited ∧ ∀ d ∈ deliveries cb w items, e.1 ≠ d.pid :=
    fun e he => (hspec.unexited e).mp (mem_hangings cb he)
  have hnodup : (hangings cb w items kill).Nodup :=
    ((List.Nodup.of_map _ (last cb w items).pm.children.nodup).filter _).sublist
      (hung_prefix_unexited kill _).sublist
  constructor
  · rw [called, List.nodup_append]
    refine ⟨List.Nodup.of_map Prod.fst ?_, hnodup, ?_⟩
    · rw [List.map_map]
      exact hspec.nodup
    · intro e he e' he' heq
      obtain ⟨d, hd, rfl⟩ := List.mem_map.mp he
      exact (hleft e' he').2 d hd (by rw [← heq])
  · intro e he
    rcases List.mem_append.mp he with he | he
    · obtain ⟨d, hd, rfl⟩ := List.mem_map.mp he
      exact hspec.awaited d hd
    · exact (hleft e he).1

/-- If the children differ in their data, so do the callbacks. -/
theorem called_data_nodup (w : world_t σ D) (items : List item_t) (kill : ℕ → kill_t)
    (h : Agree w.kernel w.pm) (hdata : (w.pm.children.values.map child_t.data).Nodup) :
    ((called cb w items kill).map (fun e => e.2.data)).Nodup := by
  obtain ⟨hnodup, hmem⟩ := called_spec cb w items kill h
  rw [Table.values, List.map_map] at hdata
  have hinj := List.inj_on_of_nodup_map hdata
  refine hnodup.map_on (fun e he e' he' heq => ?_)
  exact hinj (List.mem_of_mem_filter (hmem e he)) (List.mem_of_mem_filter (hmem e' he')) heq

/-- **An await as a whole**: the exited callback on the deliveries, then the
hanging callback and a `SIGTERM` for those left hanging. -/
theorem process_monitor_await_eq (cb : callbacks σ D) (items : List item_t) (kill : ℕ → kill_t)
    (w : world_t σ D) (h : Agree w.kernel w.pm) :
    (process_monitor_await cb items kill w).acc
        = (hangings cb w items kill).foldl (fun acc e => cb.hanging e.1 acc e.2.data)
          ((deliveries cb w items).foldl (delivery_t.callback cb) w.acc)
      ∧ (process_monitor_await cb items kill w).kernel
        = { (last cb w items).kernel with
            sigterms := (last cb w items).kernel.sigterms
              ++ (hangings cb w items kill).map Prod.fst }
      ∧ (process_monitor_await cb items kill w).pm = (last cb w items).pm := by
  have hspec := await_loop_spec cb w items h
  unfold process_monitor_await hangings last
  simp [hanging_loop_eq, hspec.acc]

theorem process_monitor_await_agree (cb : callbacks σ D) (items : List item_t)
    (kill : ℕ → kill_t) (w : world_t σ D) (h : Agree w.kernel w.pm) :
    Agree (process_monitor_await cb items kill w).kernel
      (process_monitor_await cb items kill w).pm := by
  have hlast := (await_loop_spec cb w items h).agree
  obtain ⟨-, hkernel, hpm⟩ := process_monitor_await_eq cb items kill w h
  rw [hkernel, hpm]
  exact ⟨hlast.process, hlast.registered, hlast.image⟩

/-! ## When the counter is right -/

/-- An exit that is delivered is that of a child of the monitor. -/
def Own (w : world_t σ D) : item_t → Prop
  | .kevent_exit pid _ => (w.kernel.event pid).isSome → (w.pm.children.get pid).isSome
  | _ => True

/-- **What keeps the counter right**: every item but the exit of a process that is
no child of the monitor. -/
theorem await_step_synced (w : world_t σ D) (i : item_t) (w' : world_t σ D)
    (h : Agree w.kernel w.pm) (hsync : Synced w.pm) (hstep : await_step cb w i = .inl w') :
    Synced w'.pm ↔ Own w i := by
  obtain ⟨pid, ret, t, rfl, hevent, rfl⟩ | ⟨hquiet, exits, rfl⟩ := await_step_cases cb hstep
  · rw [unregister_pid_synced cb h hsync hevent]
    simp [Own, hevent]
  · have hown : Own w i := by
      cases i with
      | kevent_exit pid ret => simp [Own, hquiet pid ret rfl]
      | _ => exact trivial
    exact iff_of_true hsync hown

/-- In an await that starts with the right counter, the counter is right in every
head of the loop if and only if every exit that is delivered is that of a child
of the monitor. -/
theorem await_loop_synced (w : world_t σ D) (items : List item_t) (h : Agree w.kernel w.pm)
    (hsync : Synced w.pm) : (∀ w' ∈ (await_loop cb).heads w items, Synced w'.pm)
      ↔ ∀ turn ∈ (await_loop cb).turns w items, Own turn.1 turn.2 := by
  have hinv : ∀ (s : world_t σ D) i s', Agree s.kernel s.pm → (await_loop cb).test s = true →
      (await_loop cb).step s i = .inl s' → Agree s'.kernel s'.pm :=
    fun s i s' hs _ hstep => await_step_agree cb s i s' hs hstep
  have hgood : ∀ (s : world_t σ D) i s', Agree s.kernel s.pm → Synced s.pm →
      (await_loop cb).test s = true → (await_loop cb).step s i = .inl s' →
      (Synced s'.pm ↔ Own s i) :=
    fun s i s' hs hP _ hstep => await_step_synced cb s i s' hs hP hstep
  exact Loop.heads_iff hinv hgood items w h hsync

/-- A loop that is finished has come to a counter of 0. -/
theorem count_of_finished (w : world_t σ D) (items : List item_t)
    (h : ((await_loop cb).run w items).2 = .finished) :
    (last cb w items).pm.active_children_count = 0 := by
  have hstop : ∀ (s : world_t σ D) i, (await_loop cb).step s i ≠ .inr (await_loop cb).done := by
    intro s i
    show await_step cb s i ≠ .inr .finished
    cases i with
    | exits pid t => simp [await_step]
    | deadline => simp [await_step]
    | kevent_eintr => simp [await_step]
    | kevent_failed => simp [await_step]
    | kevent_timeout =>
        rw [await_step]
        split <;> simp
    | kevent_exit pid ret =>
        rw [await_step]
        split <;> simp
  have htest := Loop.test_of_done (by simp [await_loop]) hstop items w h
  simpa [await_loop, last] using htest

end Await

/-! ## Runs -/

/-- A phase: calls of `process_monitor_exec`, what happens during the
`process_monitor_await`, and a `process_monitor_clear`. -/
structure phase_t (D : Type) where
  calls : List (call_t D)
  items : List item_t
  kill : ℕ → kill_t

/-- Where the await of a phase starts. -/
def phase_t.fill (p : phase_t D) (w : world_t σ D) : world_t σ D :=
  ⟨(exec_all p.calls w.kernel w.pm).1, (exec_all p.calls w.kernel w.pm).2, w.acc⟩

def phase_t.run (cb : callbacks σ D) (p : phase_t D) (w : world_t σ D) : world_t σ D :=
  let w := process_monitor_await cb p.items p.kill (p.fill w)
  { w with pm := process_monitor_clear w.pm }

/-- The awaits of a run: each phase with the state its await starts in. -/
def awaits (cb : callbacks σ D) : List (phase_t D) → world_t σ D → List (phase_t D × world_t σ D)
  | [], _ => []
  | p :: ps, w => (p, p.fill w) :: awaits cb ps (p.run cb w)

/-- A monitor that was just created. -/
def created (acc : σ) : world_t σ D := ⟨kernel_t.boot, process_monitor_create, acc⟩

/-- A phase leaves a monitor that can be filled again, whatever of it is left in
the kernel. -/
theorem phase_t.run_filling (cb : callbacks σ D) (p : phase_t D) {w : world_t σ D}
    (h : Filling w.kernel w.pm) : Filling (p.run cb w).kernel (p.run cb w).pm := by
  have hfill := exec_all_filling p.calls w.kernel w.pm h
  exact Filling.clear (process_monitor_await_agree cb p.items p.kill (p.fill w) hfill.agree)

theorem awaits_filling (cb : callbacks σ D) (ps : List (phase_t D)) : ∀ w : world_t σ D,
    Filling w.kernel w.pm → ∀ a ∈ awaits cb ps w, Filling a.2.kernel a.2.pm := by
  induction ps with
  | nil => intro w _ a ha; exact absurd ha (by simp [awaits])
  | cons p ps ih =>
      intro w h a ha
      rw [awaits, List.mem_cons] at ha
      rcases ha with rfl | ha
      · exact exec_all_filling p.calls w.kernel w.pm h
      · exact ih (p.run cb w) (p.run_filling cb h) a ha

theorem created_filling :
    Filling kernel_t.boot (process_monitor_create : process_monitor_t D) :=
  ⟨agree_create, by simp [process_monitor_create, Table.values, Table.empty],
    by simp [process_monitor_create, Table.values, Table.empty]⟩

/-- An await that goes as it should: whenever the counter is read it is the number
of children that have not exited, and a child is only left hanging if the loop
gave up and the child was running then. -/
structure Faithful (cb : callbacks σ D) (p : phase_t D) (w : world_t σ D) : Prop where
  count : ∀ w' ∈ (await_loop cb).heads w p.items, Synced w'.pm
  hanging : ∀ e ∈ hangings cb w p.items p.kill, ((await_loop cb).run w p.items).2 ≠ .finished
    ∧ (last cb w p.items).kernel.procs e.1 = some ⟨e.2.argv.image, .running⟩

/-- An await that nothing disturbs: every exit that is delivered is that of a
child of its phase, and when the loop is left, no exit of a child that it leaves
hanging is pending. -/
structure Undisturbed (cb : callbacks σ D) (p : phase_t D) (w : world_t σ D) : Prop where
  own : ∀ turn ∈ (await_loop cb).turns w p.items, Own turn.1 turn.2
  nothing_pending : ∀ e ∈ hangings cb w p.items p.kill,
    (last cb w p.items).kernel.event e.1 = none

/-- A child that is awaited runs just if its exit is not pending. -/
theorem running_iff {k : kernel_t} {pm : process_monitor_t D} (h : Agree k pm)
    {e : ℕ × child_t D} (he : e ∈ pm.unexited) :
    k.procs e.1 = some ⟨e.2.argv.image, .running⟩ ↔ k.event e.1 = none := by
  obtain ⟨hget, hex⟩ := (pm.mem_unexited e.1 e.2).mp he
  have himage := h.image e.1 e.2 hget hex
  rw [kernel_t.image, Option.map_eq_some_iff] at himage
  obtain ⟨⟨image, state⟩, hproc, rfl⟩ := himage
  rw [kernel_t.event, if_pos ((h.registered e.1 e.2 hget).mp hex), hproc]
  cases state <;> simp

theorem faithful_iff (cb : callbacks σ D) (p : phase_t D) {w : world_t σ D}
    (h : Filling w.kernel w.pm) : Faithful cb p w ↔ Undisturbed cb p w := by
  have hlast := (await_loop_spec cb w p.items h.agree).agree
  have hloop := await_loop_synced cb w p.items h.agree h.synced
  constructor
  · intro hf
    exact ⟨hloop.mp hf.count,
      fun e he => (running_iff hlast (mem_hangings cb he)).mp (hf.hanging e he).2⟩
  · intro hu
    have hcount := hloop.mpr hu.own
    refine ⟨hcount, fun e he => ⟨fun hfinished => ?_, ?_⟩⟩
    · -- the counter is right in the last head too, so nobody is left when it is 0
      have hzero := count_of_finished cb w p.items hfinished
      have hsync : Synced (last cb w p.items).pm :=
        hcount _ (Loop.run_mem_heads (await_loop cb) p.items w)
      rw [hsync] at hzero
      have hnil := List.length_eq_zero_iff.mp (Int.natCast_eq_zero.mp hzero)
      exact absurd (mem_hangings cb he) (by rw [hnil]; simp)
    · exact (running_iff hlast (mem_hangings cb he)).mpr (hu.nothing_pending e he)

/-- **Runs of a process monitor.** In a run of any number of phases every await
counts right and leaves only running children hanging, if and only if no exit of
another process is delivered to an await, and none of a child is pending when an
await gives up. -/
theorem monitor_run_faithful_iff (cb : callbacks σ D) (ps : List (phase_t D)) (acc : σ) :
    (∀ a ∈ awaits cb ps (created acc), Faithful cb a.1 a.2)
      ↔ ∀ a ∈ awaits cb ps (created acc), Undisturbed cb a.1 a.2 := by
  have hfilling := awaits_filling cb ps (created acc) created_filling
  exact forall₂_congr (fun a ha => faithful_iff cb a.1 (hfilling a ha))

/-- Callbacks that do nothing. -/
def ignore : callbacks Unit Unit := ⟨fun _ _ acc _ => acc, fun _ acc _ => acc⟩

/-- A call that forks and registers a child. -/
def spawn (pid : ℕ) : call_t Unit :=
  ⟨⟨"/usr/sbin/service".toList, []⟩, (), ⟨[], .forked pid .registered⟩⟩

/-- A child hangs and is killed in the first phase; its exit comes in the second,
in which another child runs. -/
def lateExit : List (phase_t Unit) :=
  [ ⟨[spawn 1], [.deadline], fun _ => .sent⟩,
    ⟨[spawn 2], [.exits 1 (.signaled 14 false), .kevent_exit 1 .reaped], fun _ => .sent⟩ ]

/-- The exit of the first child ends the await of the second, which is killed
though the loop did not give up. -/
theorem lateExit_kills :
    ∃ a ∈ awaits ignore lateExit (created ()),
      ((await_loop ignore).run a.2 a.1.items).2 = .finished
      ∧ (hangings ignore a.2 a.1.items a.1.kill).map Prod.fst = [2]
      ∧ ¬ Faithful ignore a.1 a.2 := by
  have hsecond : ∃ a ∈ awaits ignore lateExit (created ()),
      ((await_loop ignore).run a.2 a.1.items).2 = .finished
      ∧ (hangings ignore a.2 a.1.items a.1.kill).map Prod.fst = [2] := by decide
  obtain ⟨a, ha, hfinished, hhung⟩ := hsecond
  refine ⟨a, ha, hfinished, hhung, fun hf => ?_⟩
  obtain ⟨e, he, -⟩ := List.mem_map.mp (hhung ▸ List.mem_singleton_self 2)
  exact (hf.hanging e he).1 hfinished

end PkgPlugins.MonitorRuns
