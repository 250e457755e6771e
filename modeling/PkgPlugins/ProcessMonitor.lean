/-
The process monitor of the services plugin (`plugins/services/process_monitor.c`):
children are forked, registered in a kqueue for their exit, and awaited under a
timeout.

What the monitor does not decide is given by its environment: what `fork(2)`,
`kevent(2)`, `waitpid(2)` and `kill(2)` return, and when which process ends. An
await is driven by a list of items, and the kernel delivers an event only for a
process that is registered and has ended. The registrations belong to the kernel
and not to the monitor: `process_monitor_clear` does not touch them.

The errors the functions report besides are left out: no decision reads them.
-/
import PkgPlugins.AssocTable
import PkgPlugins.EventLoop
import Mathlib.Data.Finset.Basic

set_option autoImplicit false

namespace PkgPlugins.ProcessMonitor

open PkgPlugins.AssocTable PkgPlugins.EventLoop

/-! ## Commands -/

/-- The arguments of a command: the first and the others. -/
structure argv_t where
  path : List Char
  args : List (List Char)
deriving DecidableEq

/-- `execcalls[]`. -/
inductive execcall_t
  | execvp
  | execv
deriving DecidableEq

/-- What a child hands to `execcalls[NULL != slash](path, argv)`. -/
structure image_t where
  call : execcall_t
  path : List Char
  argv : List (List Char)
deriving DecidableEq

/-- What follows the last `/`. -/
def basename (path : List Char) : List Char := (path.reverse.takeWhile (· ≠ '/')).reverse

/-- The image of a command: with a `/` in its path, `argv[0]` is what follows the
last one and `execv` is called. -/
def argv_t.image (argv : argv_t) : image_t :=
  if '/' ∈ argv.path then ⟨.execv, argv.path, basename argv.path :: argv.args⟩
  else ⟨.execvp, argv.path, argv.path :: argv.args⟩

theorem argv_t.image_args (argv : argv_t) : argv.image.argv.tail = argv.args := by
  unfold image
  split <;> simp

theorem argv_t.image_path (argv : argv_t) : argv.image.path = argv.path := by
  unfold image
  split <;> simp

/-- Different commands have different images. -/
theorem argv_t.image_injective : Function.Injective argv_t.image := by
  intro a b h
  have hpath : a.path = b.path := by rw [← image_path a, h, image_path]
  have hargs : a.args = b.args := by rw [← image_args a, h, image_args]
  cases a
  cases b
  simp_all

/-! ## How a process ends -/

/-- By `exit(3)` with a code, of which eight bits count, or by a signal (1 to
126), with or without a core dump. -/
inductive termination_t
  | exited (code : UInt8)
  | signaled (sig : Fin 126) (core : Bool)
deriving DecidableEq

/-- The status `waitpid(2)` stores. -/
def termination_t.status : termination_t → ℤ
  | .exited code => code.toNat * 256
  | .signaled sig core => (sig.val + 1) + if core then 128 else 0

/-- `WEXITSTATUS`: the status shifted right by eight bits. -/
def WEXITSTATUS (x : ℤ) : ℤ := x / 256

def EXIT_SUCCESS : ℤ := 0

def EXIT_FAILURE : ℤ := 1

@[simp] theorem WEXITSTATUS_exited (code : UInt8) :
    WEXITSTATUS (termination_t.exited code).status = code.toNat := by
  show (code.toNat : ℤ) * 256 / 256 = code.toNat
  omega

/-- **The exit status of a process killed by a signal is that of a success.** -/
@[simp] theorem WEXITSTATUS_signaled (sig : Fin 126) (core : Bool) :
    WEXITSTATUS (termination_t.signaled sig core).status = EXIT_SUCCESS := by
  have hsig := sig.isLt
  unfold WEXITSTATUS termination_t.status EXIT_SUCCESS
  cases core <;> simp <;> omega

/-! ## The kernel -/

inductive proc_state
  | running
  | zombie (t : termination_t)
deriving DecidableEq

structure proc_t where
  image : image_t
  state : proc_state
deriving DecidableEq

/-- The processes, the registrations for `NOTE_EXIT` in the queue, and, for the
statements to speak of, every image that a child was forked for, in order, and
every process that was sent a `SIGTERM`. -/
structure kernel_t where
  procs : ℕ → Option proc_t
  knotes : Finset ℕ
  executed : List image_t
  sigterms : List ℕ

/-- Before anything was forked. -/
def kernel_t.boot : kernel_t := ⟨fun _ => none, ∅, [], []⟩

/-- A running process ends. -/
def kernel_t.exit (k : kernel_t) (pid : ℕ) (t : termination_t) : kernel_t :=
  match k.procs pid with
  | some ⟨image, .running⟩ =>
      { k with procs := Function.update k.procs pid (some ⟨image, .zombie t⟩) }
  | _ => k

/-- Several processes end. -/
def kernel_t.elapse (k : kernel_t) (exits : List (ℕ × termination_t)) : kernel_t :=
  exits.foldl (fun k e => k.exit e.1 e.2) k

def kernel_t.fork (k : kernel_t) (pid : ℕ) (image : image_t) : kernel_t :=
  { k with
    procs := Function.update k.procs pid (some ⟨image, .running⟩)
    executed := k.executed ++ [image] }

/-- `EV_ADD` of `NOTE_EXIT`. -/
def kernel_t.ev_add (k : kernel_t) (pid : ℕ) : kernel_t := { k with knotes := insert pid k.knotes }

/-- `EV_DELETE`, which fails where nothing is registered. -/
def kernel_t.ev_delete (k : kernel_t) (pid : ℕ) : kernel_t :=
  { k with knotes := k.knotes.erase pid }

/-- The pending event of a process: it is registered and has ended. -/
def kernel_t.event (k : kernel_t) (pid : ℕ) : Option termination_t :=
  if pid ∈ k.knotes then
    match k.procs pid with
    | some ⟨_, .zombie t⟩ => some t
    | _ => none
  else none

/-- Whether any event is pending. -/
def kernel_t.pending (k : kernel_t) : Prop := ∃ pid ∈ k.knotes, (k.event pid).isSome

instance (k : kernel_t) : Decidable k.pending := by
  unfold kernel_t.pending
  infer_instance

/-- What `waitpid(pid, &pstat, WNOHANG)` returns on a process that has ended: its
pid; 0 or -1, and then `pstat` keeps what was in it before. The assertion that it
is not -1 is not compiled in. -/
inductive wait_t
  | reaped
  | nothing (pstat : ℤ)
  | failed (pstat : ℤ)
deriving DecidableEq

/-- `pstat` after `waitpid`. -/
def wait_t.pstat (t : termination_t) : wait_t → ℤ
  | .reaped => t.status
  | .nothing pstat => pstat
  | .failed pstat => pstat

/-- `waitpid`, for a process that ended with `t`: the kernel after it and
`pstat`. -/
def kernel_t.waitpid (k : kernel_t) (pid : ℕ) (t : termination_t) : wait_t → kernel_t × ℤ
  | .reaped => ({ k with procs := Function.update k.procs pid none }, t.status)
  | .nothing pstat => (k, pstat)
  | .failed pstat => (k, pstat)

/-! ### What the kernel keeps -/

section Kernel

variable (k : kernel_t)

/-- What a process runs. -/
def kernel_t.image (pid : ℕ) : Option image_t := (k.procs pid).map proc_t.image

theorem kernel_t.image_eq_none {pid : ℕ} : k.image pid = none ↔ k.procs pid = none := by
  simp [image]

theorem kernel_t.exit_image (pid : ℕ) (t : termination_t) : (k.exit pid t).image = k.image := by
  funext q
  unfold exit image
  split
  case h_1 image hproc =>
      by_cases hq : q = pid
      · simp [hq, hproc]
      · simp [hq]
  case h_2 => rfl

@[simp] theorem kernel_t.exit_knotes (pid : ℕ) (t : termination_t) :
    (k.exit pid t).knotes = k.knotes := by
  unfold exit
  split <;> simp

@[simp] theorem kernel_t.exit_executed (pid : ℕ) (t : termination_t) :
    (k.exit pid t).executed = k.executed := by
  unfold exit
  split <;> simp

/-- Processes that end stay what they are, and nothing else changes. -/
theorem kernel_t.elapse_spec (exits : List (ℕ × termination_t)) :
    ∀ k : kernel_t, (k.elapse exits).image = k.image ∧ (k.elapse exits).knotes = k.knotes
      ∧ (k.elapse exits).executed = k.executed := by
  unfold elapse
  induction exits with
  | nil => exact fun k => ⟨rfl, rfl, rfl⟩
  | cons e exits ih =>
      intro k
      obtain ⟨himage, hknotes, hexecuted⟩ := ih (k.exit e.1 e.2)
      rw [List.foldl_cons]
      exact ⟨himage.trans (k.exit_image e.1 e.2), by rw [hknotes, exit_knotes],
        by rw [hexecuted, exit_executed]⟩

theorem kernel_t.fork_image (pid : ℕ) (image : image_t) :
    (k.fork pid image).image = Function.update k.image pid (some image) := by
  funext q
  by_cases hq : q = pid
  · simp [fork, kernel_t.image, hq]
  · simp [fork, kernel_t.image, hq]

@[simp] theorem kernel_t.ev_add_image (pid : ℕ) : (k.ev_add pid).image = k.image := rfl

@[simp] theorem kernel_t.ev_add_executed (pid : ℕ) : (k.ev_add pid).executed = k.executed := rfl

@[simp] theorem kernel_t.ev_delete_image (pid : ℕ) : (k.ev_delete pid).image = k.image := rfl

@[simp] theorem kernel_t.waitpid_knotes (pid : ℕ) (t : termination_t) (ret : wait_t) :
    (k.waitpid pid t ret).1.knotes = k.knotes := by
  cases ret <;> rfl

@[simp] theorem kernel_t.waitpid_executed (pid : ℕ) (t : termination_t) (ret : wait_t) :
    (k.waitpid pid t ret).1.executed = k.executed := by
  cases ret <;> rfl

theorem kernel_t.waitpid_image (pid : ℕ) (t : termination_t) (ret : wait_t) {q : ℕ}
    (hq : q ≠ pid) : (k.waitpid pid t ret).1.image q = k.image q := by
  cases ret <;> simp [waitpid, image, hq]

theorem kernel_t.waitpid_pstat (pid : ℕ) (t : termination_t) (ret : wait_t) :
    (k.waitpid pid t ret).2 = ret.pstat t := by
  cases ret <;> rfl

theorem kernel_t.event_eq_some_iff (pid : ℕ) (t : termination_t) :
    k.event pid = some t ↔ pid ∈ k.knotes ∧ ∃ image, k.procs pid = some ⟨image, .zombie t⟩ := by
  unfold event
  by_cases hmem : pid ∈ k.knotes
  · rw [if_pos hmem]
    split
    case h_1 image t' hproc => simp [hmem, hproc]
    case h_2 hnot => simpa [hmem] using fun image heq => absurd heq (hnot image t)
  · simp [hmem]

end Kernel

/-- What `kill(pid, SIGTERM)` returns. -/
inductive kill_t
  | sent
  | esrch
  | failed
deriving DecidableEq

/-! ## The monitor -/

section Monitor

variable {D : Type}

structure child_t (D : Type) where
  data : D
  exited : Bool
  status : ℤ
  argv : argv_t

def child_create (argv : argv_t) (data : D) : child_t D := ⟨data, false, EXIT_FAILURE, argv⟩

structure process_monitor_t (D : Type) where
  children : Table ℕ (child_t D)
  active_children_count : ℤ

def process_monitor_create : process_monitor_t D := ⟨Table.empty, 0⟩

def process_monitor_clear (_pm : process_monitor_t D) : process_monitor_t D := ⟨Table.empty, 0⟩

/-- How far `register_pid` gets: `kevent(2)` fails, `child_create` fails, or
neither does. -/
inductive register_t
  | kevent_failed
  | malloc_failed
  | registered
deriving DecidableEq

def register_pid (k : kernel_t) (pm : process_monitor_t D) (argv : argv_t) (pid : ℕ) (data : D) :
    register_t → kernel_t × process_monitor_t D × Bool
  | .kevent_failed => (k, pm, false)
  -- the registration stays behind in the kernel, without a child
  | .malloc_failed => (k.ev_add pid, pm, false)
  | .registered =>
      (k.ev_add pid,
        { active_children_count := pm.active_children_count + 1
          children := pm.children.putNew pid (child_create argv data) }, true)

/-- How far `process_monitor_exec` gets: `argv_copy` fails, `fork(2)` fails, or
there is a child. -/
inductive fork_t
  | copy_failed
  | failed
  | forked (pid : ℕ) (register : register_t)
deriving DecidableEq

/-- What happens at a call of `process_monitor_exec`: the processes that end
before it, and how far it gets. -/
structure exec_env where
  exits : List (ℕ × termination_t)
  fork : fork_t

/-- `process_monitor_exec`. No pid in use is given to a child. That the
registration failed is not returned. -/
def process_monitor_exec (k : kernel_t) (pm : process_monitor_t D) (argv : argv_t) (data : D)
    (env : exec_env) : kernel_t × process_monitor_t D × Bool :=
  let k := k.elapse env.exits
  match env.fork with
  | .copy_failed => (k, pm, false)
  | .failed => (k, pm, false)
  | .forked pid register =>
      match k.procs pid with
      | some _ => (k, pm, false)
      | none =>
          -- the result of `register_pid` is dropped
          let (k, pm, _) := register_pid (k.fork pid argv.image) pm argv pid data register
          (k, pm, true)

/-! ## Awaiting -/

/-- The callbacks of `process_monitor_await` over what they accumulate in. -/
structure callbacks (σ D : Type) where
  exited : ℕ → ℤ → σ → D → σ
  hanging : ℕ → σ → D → σ

/-- What the functions act on: the kernel, the monitor, and what the callbacks
accumulate in. -/
structure world_t (σ D : Type) where
  kernel : kernel_t
  pm : process_monitor_t D
  acc : σ

variable {σ : Type}

/-- `unregister_pid`, for a process that ended with `t`. -/
def unregister_pid (cb : callbacks σ D) (w : world_t σ D) (pid : ℕ) (t : termination_t)
    (ret : wait_t) : world_t σ D :=
  -- before the table is looked at: the counter goes down for any process
  let count := w.pm.active_children_count - 1
  let (kernel, pstat) := (w.kernel.ev_delete pid).waitpid pid t ret
  match w.pm.children.get pid with
  | some c =>
      -- `WIFEXITED` is not tested, and neither is the result of `waitpid`
      let status := WEXITSTATUS pstat
      { kernel := kernel
        pm := ⟨w.pm.children.put pid { c with exited := true, status := status }, count⟩
        acc := cb.exited pid status w.acc c.data }
  | none => { kernel := kernel, pm := ⟨w.pm.children, count⟩, acc := w.acc }

/-- The exit of a process that is no child of the monitor. -/
theorem unregister_pid_none (cb : callbacks σ D) (w : world_t σ D) {pid : ℕ}
    (h : w.pm.children.get pid = none) (t : termination_t) (ret : wait_t) :
    unregister_pid cb w pid t ret
      = ⟨((w.kernel.ev_delete pid).waitpid pid t ret).1,
        ⟨w.pm.children, w.pm.active_children_count - 1⟩, w.acc⟩ := by
  simp [unregister_pid, h]

/-- The exit of a child. -/
theorem unregister_pid_some (cb : callbacks σ D) (w : world_t σ D) {pid : ℕ} {c : child_t D}
    (h : w.pm.children.get pid = some c) (t : termination_t) (ret : wait_t) :
    unregister_pid cb w pid t ret
      = ⟨((w.kernel.ev_delete pid).waitpid pid t ret).1,
        ⟨w.pm.children.put pid { c with
            exited := true
            status := WEXITSTATUS ((w.kernel.ev_delete pid).waitpid pid t ret).2 },
          w.pm.active_children_count - 1⟩,
        cb.exited pid (WEXITSTATUS ((w.kernel.ev_delete pid).waitpid pid t ret).2) w.acc
          c.data⟩ := by
  simp [unregister_pid, h]

/-- What can happen while `process_monitor_await` runs: a process ends, the time
is up when the clock is read, or `kevent(2)` returns: interrupted, with an error,
without an event, or with the event of a process, for which `waitpid` gives
`ret`. -/
inductive item_t
  | exits (pid : ℕ) (t : termination_t)
  | deadline
  | kevent_eintr
  | kevent_failed
  | kevent_timeout
  | kevent_exit (pid : ℕ) (ret : wait_t)

/-- Why the loop of `process_monitor_await` ended. -/
inductive end_t
  | finished
  | deadline
  | failed
  | timed_out
deriving DecidableEq

/-- One item. Only a pending event is returned by `kevent(2)`, and it does not
time out while one is pending; where the kernel can't do what an item says,
nothing happens. -/
def await_step (cb : callbacks σ D) (w : world_t σ D) : item_t → world_t σ D ⊕ end_t
  | .exits pid t => .inl { w with kernel := w.kernel.exit pid t }
  | .deadline => .inr .deadline
  | .kevent_eintr => .inl w
  | .kevent_failed => .inr .failed
  | .kevent_timeout => if w.kernel.pending then .inl w else .inr .timed_out
  | .kevent_exit pid ret =>
      match w.kernel.event pid with
      | some t => .inl (unregister_pid cb w pid t ret)
      | none => .inl w

/-- The `while` of `process_monitor_await`, for a timeout other than 0. When
nothing happens any more the time is up. -/
def await_loop (cb : callbacks σ D) : Loop (world_t σ D) item_t end_t where
  test w := w.pm.active_children_count ≠ 0
  step := await_step cb
  done := .finished
  idle := .deadline

/-- The traversal of the children after `end:`. It goes no further than the first
child that can't be killed. -/
def hanging_loop (cb : callbacks σ D) (kill : ℕ → kill_t) :
    List (ℕ × child_t D) → kernel_t → σ → kernel_t × σ
  | [], k, acc => (k, acc)
  | (pid, c) :: es, k, acc =>
      if c.exited then hanging_loop cb kill es k acc
      else
        let acc := cb.hanging pid acc c.data
        let k := { k with sigterms := k.sigterms ++ [pid] }
        if kill pid = .failed then (k, acc) else hanging_loop cb kill es k acc

def process_monitor_await (cb : callbacks σ D) (items : List item_t) (kill : ℕ → kill_t)
    (w : world_t σ D) : world_t σ D :=
  let w := ((await_loop cb).run w items).1
  let (kernel, acc) := hanging_loop cb kill w.pm.children.entries w.kernel w.acc
  { w with kernel := kernel, acc := acc }


/-! ## What an `exec` does -/

/-- **What a call of `process_monitor_exec` can do**: nothing; leave a child that
is not registered with the monitor, and perhaps with the kernel; or leave a child
that is registered with both. -/
theorem process_monitor_exec_cases (k : kernel_t) (pm : process_monitor_t D) (argv : argv_t)
    (data : D) (env : exec_env) :
    process_monitor_exec k pm argv data env = (k.elapse env.exits, pm, false)
    ∨ ∃ pid register, env.fork = .forked pid register ∧ (k.elapse env.exits).procs pid = none
      ∧ ((register = .kevent_failed ∧ process_monitor_exec k pm argv data env
            = ((k.elapse env.exits).fork pid argv.image, pm, true))
        ∨ (register = .malloc_failed ∧ process_monitor_exec k pm argv data env
            = (((k.elapse env.exits).fork pid argv.image).ev_add pid, pm, true))
        ∨ (register = .registered ∧ process_monitor_exec k pm argv data env
            = (((k.elapse env.exits).fork pid argv.image).ev_add pid,
              ⟨pm.children.putNew pid (child_create argv data), pm.active_children_count + 1⟩,
              true))) := by
  unfold process_monitor_exec
  cases hfork : env.fork with
  | copy_failed => exact Or.inl rfl
  | failed => exact Or.inl rfl
  | forked pid register =>
      cases hproc : (k.elapse env.exits).procs pid with
      | some p => exact Or.inl (by simp [hproc])
      | none =>
          refine Or.inr ⟨pid, register, rfl, hproc, ?_⟩
          cases register with
          | kevent_failed => exact Or.inl ⟨rfl, by simp [hproc, register_pid]⟩
          | malloc_failed => exact Or.inr (Or.inl ⟨rfl, by simp [hproc, register_pid]⟩)
          | registered => exact Or.inr (Or.inr ⟨rfl, by simp [hproc, register_pid]⟩)

/-! ## The children that are awaited -/

/-- The children that the monitor has not seen exit. -/
def process_monitor_t.unexited (pm : process_monitor_t D) : List (ℕ × child_t D) :=
  pm.children.entries.filter (fun e => !e.2.exited)

theorem process_monitor_t.mem_unexited (pm : process_monitor_t D) (pid : ℕ) (c : child_t D) :
    (pid, c) ∈ pm.unexited ↔ pm.children.get pid = some c ∧ c.exited = false := by
  rw [unexited, List.mem_filter, Table.get_eq_some_iff]
  simp

/-- The counter of the monitor is the number of children it waits for. -/
def Synced (pm : process_monitor_t D) : Prop :=
  pm.active_children_count = pm.unexited.length

/-- **The monitor and the kernel agree**: whoever is registered is a process, and
a child has not been seen to exit just as long as it is registered, and till then
runs its command. -/
structure Agree (k : kernel_t) (pm : process_monitor_t D) : Prop where
  process : ∀ pid ∈ k.knotes, k.image pid ≠ none
  registered : ∀ pid c, pm.children.get pid = some c → (c.exited = false ↔ pid ∈ k.knotes)
  image : ∀ pid c, pm.children.get pid = some c → c.exited = false →
    k.image pid = some c.argv.image

theorem agree_create : Agree kernel_t.boot (process_monitor_create : process_monitor_t D) where
  process := by simp [kernel_t.boot]
  registered := by simp [process_monitor_create]
  image := by simp [process_monitor_create]

/-- Processes may end at any time. -/
theorem Agree.elapse {k : kernel_t} {pm : process_monitor_t D} (h : Agree k pm)
    (exits : List (ℕ × termination_t)) : Agree (k.elapse exits) pm := by
  obtain ⟨himage, hknotes, -⟩ := kernel_t.elapse_spec exits k
  constructor
  · rw [himage, hknotes]
    exact h.process
  · rw [hknotes]
    exact h.registered
  · rw [himage]
    exact h.image

/-- Emptying the monitor breaks nothing: it is the kernel that remembers more. -/
theorem Agree.clear {k : kernel_t} {pm : process_monitor_t D} (h : Agree k pm) :
    Agree k (process_monitor_clear pm) where
  process := h.process
  registered := by simp [process_monitor_clear]
  image := by simp [process_monitor_clear]

/-- A new process concerns nobody who is registered. -/
theorem Agree.fork {k : kernel_t} {pm : process_monitor_t D} (h : Agree k pm) {pid : ℕ}
    (hpid : k.procs pid = none) (image : image_t) : Agree (k.fork pid image) pm := by
  have hne : ∀ q ∈ k.knotes, q ≠ pid := by
    rintro q hq rfl
    exact h.process q hq (k.image_eq_none.mpr hpid)
  refine ⟨fun q hq => ?_, h.registered, fun q c hc hex => ?_⟩
  · rw [k.fork_image, Function.update_of_ne (hne q hq)]
    exact h.process q hq
  · rw [k.fork_image, Function.update_of_ne (hne q ((h.registered q c hc).mp hex))]
    exact h.image q c hc hex

/-- A process that is registered without an entry is no child of the monitor. -/
theorem Agree.ev_add {k : kernel_t} {pm : process_monitor_t D} (h : Agree k pm) {pid : ℕ}
    (himage : k.image pid ≠ none) (hpid : pid ∉ pm.children.keys) : Agree (k.ev_add pid) pm := by
  refine ⟨fun q hq => ?_, fun q c hc => ?_, h.image⟩
  · rcases Finset.mem_insert.mp hq with rfl | hq
    · exact himage
    · exact h.process q hq
  · have hne : q ≠ pid := by
      rintro rfl
      rw [(pm.children.get_eq_none_iff q).mpr hpid] at hc
      exact absurd hc (by simp)
    rw [h.registered q c hc]
    show q ∈ k.knotes ↔ q ∈ insert pid k.knotes
    rw [Finset.mem_insert, or_iff_right hne]

/-- A pending event is that of a process that is registered. -/
theorem mem_knotes_of_event {k : kernel_t} {pid : ℕ} {t : termination_t}
    (h : k.event pid = some t) : pid ∈ k.knotes :=
  ((k.event_eq_some_iff pid t).mp h).1

/-- Of a child of the monitor, an exit is delivered only once. -/
theorem Agree.unexited_of_event {k : kernel_t} {pm : process_monitor_t D} (h : Agree k pm)
    {pid : ℕ} {t : termination_t} (hevent : k.event pid = some t) {c : child_t D}
    (hc : pm.children.get pid = some c) : c.exited = false :=
  (h.registered pid c hc).mpr (mem_knotes_of_event hevent)

end Monitor

end PkgPlugins.ProcessMonitor
