/-
Stopping and restarting services: `services_selection_handle` and its callbacks
(`plugins/services/services_selection.c`).

A first phase on a process monitor probes the services that are not blocked with
`service NAME enabled`; a second phase on the same monitor stops or restarts
those whose probe exited with 0. What the callbacks of both phases write to is
one state: the list of the services to handle and the result.
-/
import PkgPlugins.MonitorRuns
import PkgPlugins.ServicesSelection

set_option autoImplicit false

namespace PkgPlugins.ServicesHandle

open PkgPlugins.AssocTable PkgPlugins.EventLoop PkgPlugins.ProcessMonitor PkgPlugins.MonitorRuns
  PkgPlugins.ServicesSelection

/-! ## The callbacks -/

/-- What the callbacks accumulate in. -/
structure handle_acc where
  enabled : List service_data_t
  sr : services_result_t

def handle_enabled_exited (_pid : ℕ) (status : ℤ) (acc : handle_acc) (sd : service_data_t) :
    handle_acc :=
  if EXIT_SUCCESS = status then { acc with enabled := acc.enabled ++ [sd] } else acc

def handle_enabled_hanging (_pid : ℕ) (acc : handle_acc) (sd : service_data_t) : handle_acc :=
  { acc with sr := services_result_add acc.sr sd.name sd.action .SERVICES_RESULT_PROBING_FAILED }

def handle_restart_stop_exited (_pid : ℕ) (status : ℤ) (acc : handle_acc) (sd : service_data_t) :
    handle_acc :=
  { acc with
    sr := services_result_add acc.sr sd.name sd.action
      (if EXIT_SUCCESS = status then .SERVICES_RESULT_SUCCESS else .SERVICES_RESULT_FAILED) }

def handle_restart_stop_hanging (_pid : ℕ) (acc : handle_acc) (sd : service_data_t) : handle_acc :=
  { acc with sr := services_result_add acc.sr sd.name sd.action .SERVICES_RESULT_FAILED }

/-- The callbacks of the first phase. -/
def probing : callbacks handle_acc service_data_t := ⟨handle_enabled_exited, handle_enabled_hanging⟩

/-- The callbacks of the second phase. -/
def handling : callbacks handle_acc service_data_t :=
  ⟨handle_restart_stop_exited, handle_restart_stop_hanging⟩

/-! ## The two phases -/

/-- `argv[]`: the command `service NAME COMMAND`. -/
def service_argv (name command : List Char) : argv_t :=
  ⟨"/usr/sbin/service".toList, [name, command]⟩

/-- What happens during a call of `services_selection_handle`: whether the result
and the monitor are created, and, for both phases, what happens at the
`process_monitor_exec` for a service, during the await, and at its `kill(2)`s. -/
structure handle_env where
  result_created : Bool
  monitor_created : Bool
  probe_exec : List Char → exec_env
  probe_items : List item_t
  probe_kill : ℕ → kill_t
  action_exec : List Char → exec_env
  action_items : List item_t
  action_kill : ℕ → kill_t

/-- Why `services_selection_handle` does not get to its end: it returns `NULL`
before there is anything to handle, or the assertion on the action fails. -/
inductive handle_stop
  | no_result
  | no_monitor
  | assertion
deriving DecidableEq

/-- The loop of the first step over the selection. It ends at the first command
that can't be executed. -/
def probe_loop (exec : List Char → exec_env) : List (List Char × service_data_t) → kernel_t →
    process_monitor_t service_data_t → services_result_t →
    kernel_t × process_monitor_t service_data_t × services_result_t
  | [], k, pm, sr => (k, pm, sr)
  | (name, sd) :: es, k, pm, sr =>
      if HAS_FLAG sd.flags SERVICE_FLAG_BLOCKED then
        probe_loop exec es k pm
          (services_result_add sr name sd.action .SERVICES_RESULT_BLOCKED)
      else
        let (k, pm, ok) :=
          process_monitor_exec k pm (service_argv name "enabled".toList) sd (exec name)
        if ok then probe_loop exec es k pm sr else (k, pm, sr)

/-- The command that carries an action out. -/
def action_command (action : service_action_t) : List Char :=
  if .SERVICE_ACTION_STOP = action then "stop".toList else "restart".toList

/-- The loop of the second step over the enabled services. -/
def action_loop (exec : List Char → exec_env) : List service_data_t → kernel_t →
    process_monitor_t service_data_t →
    Except handle_stop (kernel_t × process_monitor_t service_data_t)
  | [], k, pm => .ok (k, pm)
  | sd :: sds, k, pm =>
      if .SERVICE_ACTION_RESTART = sd.action ∨ .SERVICE_ACTION_STOP = sd.action then
        let (k, pm, ok) := process_monitor_exec k pm
          (service_argv sd.name (action_command sd.action)) sd (exec sd.name)
        if ok then action_loop exec sds k pm else .ok (k, pm)
      else .error .assertion

/-- The state in which the await of the first phase starts. -/
def probe_start (ss : services_selection_t) (env : handle_env) :
    world_t handle_acc service_data_t :=
  let (kernel, pm, sr) := probe_loop env.probe_exec ss.entries kernel_t.boot process_monitor_create
    services_result_create
  ⟨kernel, pm, ⟨[], sr⟩⟩

/-- The state after the first phase. -/
def probe_end (ss : services_selection_t) (env : handle_env) : world_t handle_acc service_data_t :=
  let w := process_monitor_await probing env.probe_items env.probe_kill (probe_start ss env)
  { w with pm := process_monitor_clear w.pm }

/-- The state in which the await of the second phase starts. -/
def action_start (ss : services_selection_t) (env : handle_env) :
    Except handle_stop (world_t handle_acc service_data_t) :=
  let w := probe_end ss env
  match action_loop env.action_exec w.acc.enabled w.kernel w.pm with
  | .error e => .error e
  | .ok (kernel, pm) => .ok ⟨kernel, pm, w.acc⟩

/-- `services_selection_handle`: the kernel and the result. -/
def services_selection_handle (ss : services_selection_t) (env : handle_env) :
    Except handle_stop (kernel_t × services_result_t) :=
  if env.result_created = false then .error .no_result
  else if env.monitor_created = false then .error .no_monitor
  else
    match action_start ss env with
    | .error e => .error e
    | .ok w =>
        let w := process_monitor_await handling env.action_items env.action_kill w
        .ok (w.kernel, w.acc.sr)

/-! ## The commands of the first phase -/

/-- The probe of a service. -/
def probe_argv (sd : service_data_t) : argv_t := service_argv sd.name "enabled".toList

/-- The command that stops or restarts a service. -/
def action_argv (sd : service_data_t) : argv_t := service_argv sd.name (action_command sd.action)

/-- A monitor that is being filled with children for services, each with the
command `argv` gives: for the services `forked` a child was forked since the
kernel was `k₀`, and for the services `entered` the monitor has an entry. -/
structure Filled (argv : service_data_t → argv_t) (k₀ k : kernel_t)
    (pm : process_monitor_t service_data_t) (forked entered : List service_data_t) : Prop where
  filling : Filling k pm
  executed : k.executed = k₀.executed ++ forked.map (fun sd => (argv sd).image)
  children : pm.children.values = entered.map (fun sd => child_create (argv sd) sd)
  entered : entered.Sublist forked

theorem Filled.none {argv : service_data_t → argv_t} {k : kernel_t}
    {pm : process_monitor_t service_data_t} (h : Filling k pm) (hpm : pm.children.values = []) :
    Filled argv k k pm [] [] :=
  ⟨h, by simp, by simp [hpm], List.Sublist.refl []⟩

/-- A call of `process_monitor_exec` for one more service. -/
theorem Filled.exec {argv : service_data_t → argv_t} {k₀ k : kernel_t}
    {pm : process_monitor_t service_data_t} {forked entered : List service_data_t}
    (h : Filled argv k₀ k pm forked entered) (sd : service_data_t) (env : exec_env)
    {k' : kernel_t} {pm' : process_monitor_t service_data_t} {ok : Bool}
    (hexec : process_monitor_exec k pm (argv sd) sd env = (k', pm', ok)) :
    ∃ entered', Filled argv k₀ k' pm' (forked ++ if ok then [sd] else []) entered' := by
  obtain ⟨hfilling, hexecuted, entry, hentry, hvalues⟩ :=
    process_monitor_exec_spec h.filling (argv sd) sd env hexec
  have hforked : k'.executed
      = k₀.executed ++ (forked ++ if ok then [sd] else []).map (fun sd => (argv sd).image) := by
    rw [hexecuted, h.executed, List.map_append, List.append_assoc]
    cases ok <;> simp
  cases entry with
  | false =>
      refine ⟨entered, hfilling, hforked, ?_, h.entered.trans (List.sublist_append_left _ _)⟩
      rw [hvalues, h.children]
      simp
  | true =>
      rw [hentry rfl] at hforked ⊢
      refine ⟨entered ++ [sd], hfilling, hforked, ?_, h.entered.append (List.Sublist.refl _)⟩
      rw [hvalues, h.children, List.map_append]
      simp

/-- A blocked service is reported. -/
theorem probe_loop_blocked (exec : List Char → exec_env) (name : List Char) {sd : service_data_t}
    (h : sd.blocked = true) (es : List (List Char × service_data_t)) (k : kernel_t)
    (pm : process_monitor_t service_data_t) (sr : services_result_t) :
    probe_loop exec ((name, sd) :: es) k pm sr = probe_loop exec es k pm
      (services_result_add sr name sd.action .SERVICES_RESULT_BLOCKED) := by
  rw [probe_loop]
  exact if_pos h

/-- Another service is probed. -/
theorem probe_loop_probe (exec : List Char → exec_env) {name : List Char} {sd : service_data_t}
    (h : sd.blocked = false) (es : List (List Char × service_data_t)) {k k' : kernel_t}
    {pm pm' : process_monitor_t service_data_t} (sr : services_result_t) {ok : Bool}
    (hexec : process_monitor_exec k pm (service_argv name "enabled".toList) sd (exec name)
      = (k', pm', ok)) :
    probe_loop exec ((name, sd) :: es) k pm sr
      = if ok then probe_loop exec es k' pm' sr else (k', pm', sr) := by
  have hflag : ¬ HAS_FLAG sd.flags SERVICE_FLAG_BLOCKED = true := by
    rw [service_data_t.blocked] at h
    simp [h]
  rw [probe_loop, if_neg hflag, hexec]

/-- **The loop of the first step** executes probes for some of the services that
are not blocked, and reports some of those that are. -/
theorem probe_loop_spec (exec : List Char → exec_env) (k₀ : kernel_t)
    (es : List (List Char × service_data_t)) (hnames : ∀ e ∈ es, e.2.name = e.1) :
    ∀ (k : kernel_t) (pm : process_monitor_t service_data_t) (sr : services_result_t)
      (forked entered : List service_data_t), Filled probe_argv k₀ k pm forked entered →
      ∃ k' pm' forked' entered' blocked, probe_loop exec es k pm sr
          = (k', pm', (reports .SERVICES_RESULT_BLOCKED blocked).foldl report_t.add sr)
        ∧ Filled probe_argv k₀ k' pm' (forked ++ forked') entered'
        ∧ forked'.Sublist ((es.map Prod.snd).filter (fun sd => !sd.blocked))
        ∧ blocked.Sublist ((es.map Prod.snd).filter service_data_t.blocked) := by
  induction es with
  | nil =>
      intro k pm sr forked entered h
      exact ⟨k, pm, [], entered, [], rfl, by simpa using h, by simp, by simp⟩
  | cons e es ih =>
      intro k pm sr forked entered h
      obtain ⟨name, sd⟩ := e
      have hname : sd.name = name := hnames (name, sd) List.mem_cons_self
      have hrest := ih (fun e he => hnames e (List.mem_cons_of_mem _ he))
      subst hname
      rw [List.map_cons]
      -- a blocked service is reported, another is probed
      cases hblocked : sd.blocked with
      | true =>
          rw [probe_loop_blocked exec sd.name hblocked,
            List.filter_cons_of_neg (by simp [hblocked]), List.filter_cons_of_pos hblocked]
          obtain ⟨k', pm', forked', entered', blocked, heq, hfilled, hforked, hblk⟩ :=
            hrest k pm (services_result_add sr sd.name sd.action .SERVICES_RESULT_BLOCKED)
              forked entered h
          exact ⟨k', pm', forked', entered', sd :: blocked, heq, hfilled, hforked,
            hblk.cons_cons sd⟩
      | false =>
          rw [List.filter_cons_of_pos (by simp [hblocked]),
            List.filter_cons_of_neg (by simp [hblocked])]
          obtain ⟨k₁, pm₁, ok, hexec⟩ : ∃ k₁ pm₁ ok,
              process_monitor_exec k pm (probe_argv sd) sd (exec sd.name) = (k₁, pm₁, ok) :=
            ⟨_, _, _, rfl⟩
          obtain ⟨entered₁, hfilled₁⟩ := h.exec sd (exec sd.name) hexec
          rw [probe_loop_probe exec hblocked es sr hexec]
          cases ok with
          | false =>
              exact ⟨k₁, pm₁, [], entered₁, [], rfl, by simpa using hfilled₁, by simp, by simp⟩
          | true =>
              obtain ⟨k', pm', forked', entered', blocked, heq, hfilled, hforked, hblk⟩ :=
                hrest k₁ pm₁ sr _ entered₁ hfilled₁
              exact ⟨k', pm', sd :: forked', entered', blocked, heq, by simpa using hfilled,
                hforked.cons_cons sd, hblk⟩

/-- A service that has an action is stopped or restarted. -/
theorem action_loop_exec (exec : List Char → exec_env) {sd : service_data_t}
    (h : sd.action ≠ .SERVICE_ACTION_NONE) (sds : List service_data_t) {k k' : kernel_t}
    {pm pm' : process_monitor_t service_data_t} {ok : Bool}
    (hexec : process_monitor_exec k pm (action_argv sd) sd (exec sd.name) = (k', pm', ok)) :
    action_loop exec (sd :: sds) k pm
      = if ok then action_loop exec sds k' pm' else .ok (k', pm') := by
  have haction : .SERVICE_ACTION_RESTART = sd.action ∨ .SERVICE_ACTION_STOP = sd.action := by
    cases hsd : sd.action with
    | SERVICE_ACTION_NONE => exact absurd hsd h
    | SERVICE_ACTION_STOP => exact Or.inr rfl
    | SERVICE_ACTION_RESTART => exact Or.inl rfl
  rw [action_argv] at hexec
  rw [action_loop, if_pos haction, hexec]

/-- **The loop of the second step** executes the commands of the first so many
services, and if every service has an action the assertion holds. -/
theorem action_loop_spec (exec : List Char → exec_env) (k₀ : kernel_t)
    (sds : List service_data_t) (hactions : ∀ sd ∈ sds, sd.action ≠ .SERVICE_ACTION_NONE) :
    ∀ (k : kernel_t) (pm : process_monitor_t service_data_t)
      (forked entered : List service_data_t), Filled action_argv k₀ k pm forked entered →
      ∃ k' pm' forked' entered', action_loop exec sds k pm = .ok (k', pm')
        ∧ Filled action_argv k₀ k' pm' (forked ++ forked') entered' ∧ forked' <+: sds := by
  induction sds with
  | nil =>
      intro k pm forked entered h
      exact ⟨k, pm, [], entered, rfl, by simpa using h, by simp⟩
  | cons sd sds ih =>
      intro k pm forked entered h
      have hrest := ih (fun sd hsd => hactions sd (List.mem_cons_of_mem _ hsd))
      obtain ⟨k₁, pm₁, ok, hexec⟩ : ∃ k₁ pm₁ ok,
          process_monitor_exec k pm (action_argv sd) sd (exec sd.name) = (k₁, pm₁, ok) :=
        ⟨_, _, _, rfl⟩
      obtain ⟨entered₁, hfilled₁⟩ := h.exec sd (exec sd.name) hexec
      rw [action_loop_exec exec (hactions sd List.mem_cons_self) sds hexec]
      cases ok with
      | false => exact ⟨k₁, pm₁, [], entered₁, rfl, by simpa using hfilled₁, by simp⟩
      | true =>
          obtain ⟨k', pm', forked', entered', heq, hfilled, hbefore⟩ :=
            hrest k₁ pm₁ _ entered₁ hfilled₁
          exact ⟨k', pm', sd :: forked', entered', heq, by simpa using hfilled,
            (List.prefix_cons_inj sd).mpr hbefore⟩

/-! ## What the callbacks leave -/

/-- The report on a service whose command exited. -/
def verdict (d : delivery_t service_data_t) : report_t :=
  ⟨d.child.data,
    if EXIT_SUCCESS = d.status then .SERVICES_RESULT_SUCCESS else .SERVICES_RESULT_FAILED⟩

theorem foldl_probing_exited (ds : List (delivery_t service_data_t)) : ∀ acc : handle_acc,
    ds.foldl (delivery_t.callback probing) acc
      = { acc with enabled := acc.enabled
            ++ (ds.filter (fun d => EXIT_SUCCESS = d.status)).map (fun d => d.child.data) } := by
  induction ds with
  | nil => intro acc; simp
  | cons d ds ih =>
      intro acc
      rw [List.foldl_cons, ih]
      by_cases h : EXIT_SUCCESS = d.status
      · simp [delivery_t.callback, probing, handle_enabled_exited, h]
      · simp [delivery_t.callback, probing, handle_enabled_exited, h]

theorem foldl_probing_hanging (es : List (ℕ × child_t service_data_t)) : ∀ acc : handle_acc,
    es.foldl (fun acc e => probing.hanging e.1 acc e.2.data) acc
      = { acc with sr := (reports .SERVICES_RESULT_PROBING_FAILED
            (es.map (fun e => e.2.data))).foldl report_t.add acc.sr } := by
  induction es with
  | nil => intro acc; simp [reports]
  | cons e es ih =>
      intro acc
      rw [List.foldl_cons, ih]
      simp [probing, handle_enabled_hanging, reports, report_t.add]

theorem foldl_handling_exited (ds : List (delivery_t service_data_t)) : ∀ acc : handle_acc,
    ds.foldl (delivery_t.callback handling) acc
      = { acc with sr := (ds.map verdict).foldl report_t.add acc.sr } := by
  induction ds with
  | nil => intro acc; simp
  | cons d ds ih =>
      intro acc
      rw [List.foldl_cons, ih]
      simp [delivery_t.callback, handling, handle_restart_stop_exited, verdict, report_t.add]

theorem foldl_handling_hanging (es : List (ℕ × child_t service_data_t)) : ∀ acc : handle_acc,
    es.foldl (fun acc e => handling.hanging e.1 acc e.2.data) acc
      = { acc with sr := (reports .SERVICES_RESULT_FAILED
            (es.map (fun e => e.2.data))).foldl report_t.add acc.sr } := by
  induction es with
  | nil => intro acc; simp [reports]
  | cons e es ih =>
      intro acc
      rw [List.foldl_cons, ih]
      simp [handling, handle_restart_stop_hanging, reports, report_t.add]

/-! ## The phases -/

/-- A selection in which every entry has the name it is under, and an action
unless it is blocked. -/
structure Selection (ss : services_selection_t) : Prop where
  name : ∀ e ∈ ss.entries, e.2.name = e.1
  action : ∀ sd ∈ ss.values, sd.blocked = false → sd.action ≠ .SERVICE_ACTION_NONE

theorem Selection.build (cs : List selection_call) : Selection (build cs) := by
  refine ⟨fun e he => ?_, fun sd hsd hblocked hnone => ?_⟩
  · have hget := ((ServicesSelection.build cs).get_eq_some_iff e.1 e.2).mpr he
    exact ((build_get cs e.1).1 e.2 hget).name
  · obtain ⟨name, hget⟩ := (Table.mem_values_iff _ sd).mp hsd
    have hflag : sd.blocked = true := ((build_get cs name).1 sd hget).blocked_of_none hnone
    rw [hblocked] at hflag
    exact absurd hflag (by simp)

/-- Different entries have different names. -/
theorem Selection.names_nodup {ss : services_selection_t} (h : Selection ss) :
    (ss.values.map service_data_t.name).Nodup := by
  have hkeys : ss.values.map service_data_t.name = ss.keys := by
    rw [Table.values, List.map_map, Table.keys]
    exact List.map_congr_left h.name
  rw [hkeys]
  exact ss.keys_nodup

section Filled

variable {argv : service_data_t → argv_t} {k₀ k : kernel_t}
  {pm : process_monitor_t service_data_t} {forked entered : List service_data_t}

theorem Filled.data (h : Filled argv k₀ k pm forked entered) :
    pm.children.values.map child_t.data = entered := by
  rw [h.children, List.map_map]
  exact List.map_id entered

/-- The children are those of the services that were entered. -/
theorem Filled.child (h : Filled argv k₀ k pm forked entered) {e : ℕ × child_t service_data_t}
    (he : e ∈ pm.unexited) : e.2.data ∈ forked ∧ e.2 = child_create (argv e.2.data) e.2.data := by
  have hvalue : e.2 ∈ pm.children.values := List.mem_map_of_mem (List.mem_of_mem_filter he)
  rw [h.children, List.mem_map] at hvalue
  obtain ⟨sd, hsd, heq⟩ := hvalue
  rw [← heq]
  exact ⟨h.entered.subset hsd, rfl⟩

end Filled

/-- The deliveries of the first phase. -/
def probes (ss : services_selection_t) (env : handle_env) : List (delivery_t service_data_t) :=
  deliveries probing (probe_start ss env) env.probe_items

/-- The services whose probe is left hanging. -/
def probe_hanging (ss : services_selection_t) (env : handle_env) : List service_data_t :=
  (hangings probing (probe_start ss env) env.probe_items env.probe_kill).map (fun e => e.2.data)

/-- The services whose probe reports a status of 0. -/
def enabled (ss : services_selection_t) (env : handle_env) : List service_data_t :=
  ((probes ss env).filter (fun d => EXIT_SUCCESS = d.status)).map (fun d => d.child.data)

/-- The first phase: the services it probes, those it enters in the monitor, and
those it reports as blocked. -/
structure Probed (ss : services_selection_t) (env : handle_env)
    (forked entered blocked : List service_data_t) : Prop where
  filled : Filled probe_argv kernel_t.boot (probe_start ss env).kernel (probe_start ss env).pm
    forked entered
  acc : (probe_start ss env).acc
    = ⟨[], (reports .SERVICES_RESULT_BLOCKED blocked).foldl report_t.add services_result_create⟩
  forked : forked.Sublist (ss.values.filter (fun sd => !sd.blocked))
  blocked : blocked.Sublist (ss.values.filter service_data_t.blocked)

theorem probe_start_spec {ss : services_selection_t} (h : Selection ss) (env : handle_env) :
    ∃ forked entered blocked, Probed ss env forked entered blocked := by
  have hnone : Filled probe_argv kernel_t.boot kernel_t.boot process_monitor_create [] [] :=
    Filled.none created_filling (by simp [process_monitor_create, Table.values, Table.empty])
  obtain ⟨k, pm, forked, entered, blocked, heq, hfilled, hforked, hblocked⟩ :=
    probe_loop_spec env.probe_exec kernel_t.boot ss.entries h.name kernel_t.boot
      process_monitor_create services_result_create [] [] hnone
  have hstart : probe_start ss env = ⟨k, pm, ⟨[],
      (reports .SERVICES_RESULT_BLOCKED blocked).foldl report_t.add services_result_create⟩⟩ := by
    rw [probe_start, heq]
  exact ⟨forked, entered, blocked, by rw [hstart]; exact hfilled, by rw [hstart], hforked, hblocked⟩

section Probed

variable {ss : services_selection_t} {env : handle_env}
  {forked entered blocked : List service_data_t}

/-- What the first phase leaves to the second. -/
theorem Probed.acc_end (h : Probed ss env forked entered blocked) :
    (probe_end ss env).acc = ⟨enabled ss env, (reports .SERVICES_RESULT_BLOCKED blocked
      ++ reports .SERVICES_RESULT_PROBING_FAILED (probe_hanging ss env)).foldl report_t.add
        services_result_create⟩ := by
  obtain ⟨hacc, -, -⟩ := process_monitor_await_eq probing env.probe_items env.probe_kill
    (probe_start ss env) h.filled.filling.agree
  unfold probe_end
  show (process_monitor_await probing env.probe_items env.probe_kill (probe_start ss env)).acc = _
  rw [hacc, foldl_probing_hanging, foldl_probing_exited, h.acc, List.foldl_append]
  rfl

theorem Probed.executed_end (h : Probed ss env forked entered blocked) :
    (probe_end ss env).kernel.executed = forked.map (fun sd => (probe_argv sd).image) := by
  obtain ⟨-, hkernel, -⟩ := process_monitor_await_eq probing env.probe_items env.probe_kill
    (probe_start ss env) h.filled.filling.agree
  have hloop := await_loop_spec probing (probe_start ss env) env.probe_items h.filled.filling.agree
  unfold probe_end
  rw [hkernel]
  show (last probing (probe_start ss env) env.probe_items).kernel.executed = _
  rw [last, hloop.executed, h.filled.executed]
  rfl

theorem Probed.filled_end (h : Probed ss env forked entered blocked) :
    Filled action_argv (probe_end ss env).kernel (probe_end ss env).kernel (probe_end ss env).pm
      [] [] :=
  Filled.none (Filling.clear (process_monitor_await_agree probing env.probe_items env.probe_kill
    (probe_start ss env) h.filled.filling.agree))
    (by simp [probe_end, process_monitor_clear, Table.values, Table.empty])

/-- A probe that is delivered is that of a service which is not blocked. -/
theorem Probed.probe (h : Probed ss env forked entered blocked) {d : delivery_t service_data_t}
    (hd : d ∈ probes ss env) : d.child = child_create (probe_argv d.child.data) d.child.data
      ∧ d.child.data ∈ ss.values ∧ d.child.data.blocked = false := by
  have hloop := await_loop_spec probing (probe_start ss env) env.probe_items h.filled.filling.agree
  obtain ⟨hmem, hchild⟩ := h.filled.child (hloop.awaited d hd)
  have hvalue := List.mem_filter.mp (h.forked.subset hmem)
  exact ⟨hchild, hvalue.1, by simpa using hvalue.2⟩

theorem Probed.mem_enabled (h : Probed ss env forked entered blocked) {sd : service_data_t}
    (hsd : sd ∈ enabled ss env) : sd ∈ ss.values ∧ sd.blocked = false
      ∧ ∃ d ∈ probes ss env, d.child = child_create (probe_argv sd) sd
        ∧ d.status = EXIT_SUCCESS := by
  obtain ⟨d, hd, rfl⟩ := List.mem_map.mp hsd
  obtain ⟨hd, hstatus⟩ := List.mem_filter.mp hd
  obtain ⟨hchild, hvalue, hblocked⟩ := h.probe hd
  exact ⟨hvalue, hblocked, d, hd, hchild, (of_decide_eq_true hstatus).symm⟩

/-- The first phase calls back for each service at most once. -/
theorem Probed.callbacks_nodup (hss : Selection ss) (h : Probed ss env forked entered blocked) :
    ((probes ss env).map (fun d => d.child.data) ++ probe_hanging ss env).Nodup := by
  have hvalues : ss.values.Nodup := List.Nodup.of_map _ hss.names_nodup
  have hentered : entered.Nodup :=
    hvalues.sublist ((h.filled.entered.trans h.forked).trans List.filter_sublist)
  have hcalled := called_data_nodup probing (probe_start ss env) env.probe_items env.probe_kill
    h.filled.filling.agree (by rw [h.filled.data]; exact hentered)
  rw [called, List.map_append, List.map_map] at hcalled
  exact hcalled

theorem enabled_sublist (ss : services_selection_t) (env : handle_env) :
    (enabled ss env).Sublist ((probes ss env).map (fun d => d.child.data)) :=
  List.filter_sublist.map _

/-- The services that are left hanging are probed but not blocked. -/
theorem Probed.mem_hanging (h : Probed ss env forked entered blocked) {sd : service_data_t}
    (hsd : sd ∈ probe_hanging ss env) : sd ∈ ss.values ∧ sd.blocked = false := by
  obtain ⟨e, he, rfl⟩ := List.mem_map.mp hsd
  have hloop := await_loop_spec probing (probe_start ss env) env.probe_items h.filled.filling.agree
  have hmem := (h.filled.child ((hloop.unexited e).mp (mem_hangings probing he)).1).1
  have hvalue := List.mem_filter.mp (h.forked.subset hmem)
  exact ⟨hvalue.1, by simpa using hvalue.2⟩

end Probed

/-- The deliveries of the second phase. -/
def verdicts (w : world_t handle_acc service_data_t) (env : handle_env) :
    List (delivery_t service_data_t) :=
  deliveries handling w env.action_items

/-- The services whose command is left hanging. -/
def action_hanging (w : world_t handle_acc service_data_t) (env : handle_env) :
    List service_data_t :=
  (hangings handling w env.action_items env.action_kill).map (fun e => e.2.data)

/-- The second phase: the state in which it awaits, the services it forks a child
for, and those it enters in the monitor. -/
structure Acted (ss : services_selection_t) (env : handle_env)
    (w : world_t handle_acc service_data_t) (acted entered : List service_data_t) : Prop where
  start : action_start ss env = .ok w
  filled : Filled action_argv (probe_end ss env).kernel w.kernel w.pm acted entered
  acc : w.acc = (probe_end ss env).acc
  acted : acted <+: enabled ss env

/-- **The assertion holds**: every service that is enabled has an action. -/
theorem action_start_spec {ss : services_selection_t} (hss : Selection ss) (env : handle_env) :
    ∃ w acted entered, Acted ss env w acted entered := by
  obtain ⟨forked, entered, blocked, hprobed⟩ := probe_start_spec hss env
  have hacc := hprobed.acc_end
  -- a service without an action is blocked, so it was not probed
  have hactions : ∀ sd ∈ (probe_end ss env).acc.enabled, sd.action ≠ .SERVICE_ACTION_NONE := by
    intro sd hsd
    rw [hacc] at hsd
    obtain ⟨hvalue, hblocked, -⟩ := hprobed.mem_enabled hsd
    exact hss.action sd hvalue hblocked
  obtain ⟨k, pm, acted, entered', heq, hfilled, hacted⟩ :=
    action_loop_spec env.action_exec (probe_end ss env).kernel (probe_end ss env).acc.enabled
      hactions (probe_end ss env).kernel (probe_end ss env).pm [] [] hprobed.filled_end
  rw [hacc] at hacted
  exact ⟨⟨k, pm, (probe_end ss env).acc⟩, acted, entered', by simp [action_start, heq], hfilled,
    rfl, hacted⟩

/-- All that is reported, in the order of the reports. -/
def all_reports (ss : services_selection_t) (env : handle_env) (blocked : List service_data_t)
    (w : world_t handle_acc service_data_t) : List report_t :=
  reports .SERVICES_RESULT_BLOCKED blocked
    ++ reports .SERVICES_RESULT_PROBING_FAILED (probe_hanging ss env)
    ++ (verdicts w env).map verdict
    ++ reports .SERVICES_RESULT_FAILED (action_hanging w env)

section Acted

variable {ss : services_selection_t} {env : handle_env}
  {forked entered blocked : List service_data_t} {w : world_t handle_acc service_data_t}
  {acted entered' : List service_data_t}

/-- A verdict is that on the command of a service that was enabled. -/
theorem Acted.verdict (h : Acted ss env w acted entered') {d : delivery_t service_data_t}
    (hd : d ∈ verdicts w env) :
    d.child.data ∈ acted ∧ d.child = child_create (action_argv d.child.data) d.child.data := by
  have hloop := await_loop_spec handling w env.action_items h.filled.filling.agree
  exact h.filled.child (hloop.awaited d hd)

theorem Acted.mem_hanging (h : Acted ss env w acted entered') {sd : service_data_t}
    (hsd : sd ∈ action_hanging w env) : sd ∈ acted := by
  obtain ⟨e, he, rfl⟩ := List.mem_map.mp hsd
  have hloop := await_loop_spec handling w env.action_items h.filled.filling.agree
  exact (h.filled.child ((hloop.unexited e).mp (mem_hangings handling he)).1).1

theorem Acted.enabled_nodup (hss : Selection ss) (hp : Probed ss env forked entered blocked) :
    (enabled ss env).Nodup :=
  (List.nodup_append.mp (hp.callbacks_nodup hss)).1.sublist (enabled_sublist ss env)

/-- The second phase calls back for each service at most once. -/
theorem Acted.callbacks_nodup (hss : Selection ss) (hp : Probed ss env forked entered blocked)
    (h : Acted ss env w acted entered') :
    ((verdicts w env).map (fun d => d.child.data) ++ action_hanging w env).Nodup := by
  have hentered : entered'.Nodup :=
    (Acted.enabled_nodup hss hp).sublist (h.filled.entered.trans h.acted.sublist)
  have hcalled := called_data_nodup handling w env.action_items env.action_kill
    h.filled.filling.agree (by rw [h.filled.data]; exact hentered)
  rw [called, List.map_append, List.map_map] at hcalled
  exact hcalled

/-- **No service is reported twice.** -/
theorem Acted.reports_nodup (hss : Selection ss) (hp : Probed ss env forked entered blocked)
    (h : Acted ss env w acted entered') :
    ((all_reports ss env blocked w).map (fun r => r.sd.name)).Nodup := by
  have hdata : (all_reports ss env blocked w).map report_t.sd
      = blocked ++ (probe_hanging ss env
        ++ ((verdicts w env).map (fun d => d.child.data) ++ action_hanging w env)) := by
    simp [all_reports, reports, Function.comp_def, ServicesHandle.verdict]
  have hacted : ∀ sd ∈ (verdicts w env).map (fun d => d.child.data) ++ action_hanging w env,
      sd ∈ enabled ss env := by
    intro sd hsd
    rcases List.mem_append.mp hsd with hsd | hsd
    · obtain ⟨d, hd, rfl⟩ := List.mem_map.mp hsd
      exact h.acted.subset (h.verdict hd).1
    · exact h.acted.subset (h.mem_hanging hsd)
  -- blocked services on one side, services that were probed on the other
  have hrest : ∀ sd ∈ probe_hanging ss env
      ++ ((verdicts w env).map (fun d => d.child.data) ++ action_hanging w env),
      sd ∈ ss.values ∧ sd.blocked = false := by
    intro sd hsd
    rcases List.mem_append.mp hsd with hsd | hsd
    · exact hp.mem_hanging hsd
    · obtain ⟨hvalue, hblocked, -⟩ := hp.mem_enabled (hacted sd hsd)
      exact ⟨hvalue, hblocked⟩
  have hblocked : ∀ sd ∈ blocked, sd ∈ ss.values ∧ sd.blocked = true := fun sd hsd =>
    List.mem_filter.mp (hp.blocked.subset hsd)
  obtain ⟨-, hhanging, hdisjoint⟩ := List.nodup_append.mp (hp.callbacks_nodup hss)
  have hnodup : ((all_reports ss env blocked w).map report_t.sd).Nodup := by
    rw [hdata, List.nodup_append, List.nodup_append]
    refine ⟨?_, ⟨hhanging, h.callbacks_nodup hss hp, ?_⟩, ?_⟩
    · exact (List.Nodup.of_map _ hss.names_nodup).sublist (hp.blocked.trans List.filter_sublist)
    · intro sd hsd sd' hsd' heq
      exact hdisjoint sd' ((enabled_sublist ss env).subset (hacted sd' hsd')) sd hsd heq.symm
    · intro sd hsd sd' hsd' heq
      have hfalse := (hrest sd' hsd').2
      rw [← heq, (hblocked sd hsd).2] at hfalse
      exact absurd hfalse (by simp)
  -- from the services to their names
  have hmem : ∀ sd ∈ (all_reports ss env blocked w).map report_t.sd, sd ∈ ss.values := by
    intro sd hsd
    rw [hdata] at hsd
    rcases List.mem_append.mp hsd with hsd | hsd
    · exact (hblocked sd hsd).1
    · exact (hrest sd hsd).1
  have hinj := List.inj_on_of_nodup_map hss.names_nodup
  have hnames := hnodup.map_on (fun sd hsd sd' hsd' heq => hinj (hmem sd hsd) (hmem sd' hsd') heq)
  rw [List.map_map] at hnames
  exact hnames

/-- **What a call of `services_selection_handle` leaves**: the commands it forked
children for, and all its reports. -/
theorem Acted.handle (hp : Probed ss env forked entered blocked)
    (h : Acted ss env w acted entered') {k : kernel_t} {sr : services_result_t}
    (hok : services_selection_handle ss env = .ok (k, sr)) :
    k.executed = forked.map (fun sd => (probe_argv sd).image)
        ++ acted.map (fun sd => (action_argv sd).image)
      ∧ sr = (all_reports ss env blocked w).foldl report_t.add services_result_create := by
  unfold services_selection_handle at hok
  split at hok
  · exact absurd hok (by simp)
  · split at hok
    · exact absurd hok (by simp)
    · obtain ⟨hacc, hkernel, -⟩ := process_monitor_await_eq handling env.action_items
        env.action_kill w h.filled.filling.agree
      have hloop := await_loop_spec handling w env.action_items h.filled.filling.agree
      rw [h.start] at hok
      simp only [Except.ok.injEq, Prod.mk.injEq, hacc, hkernel] at hok
      obtain ⟨rfl, rfl⟩ := hok
      constructor
      · show (last handling w env.action_items).kernel.executed = _
        rw [last, hloop.executed, h.filled.executed, hp.executed_end]
      · rw [foldl_handling_hanging, foldl_handling_exited, h.acc, hp.acc_end, all_reports]
        simp only [List.foldl_append]
        rfl

/-- The await of the second phase executes nothing. -/
theorem Acted.executed_eq (hp : Probed ss env forked entered blocked)
    (h : Acted ss env w acted entered') {k : kernel_t} {sr : services_result_t}
    (hok : services_selection_handle ss env = .ok (k, sr)) :
    w.kernel.executed = k.executed := by
  rw [h.filled.executed, hp.executed_end, (h.handle hp hok).1]

end Acted

/-! ## Once per service -/

/-- The commands that stop or restart. -/
def StopRestart (command : List Char) : Prop := command = "stop".toList ∨ command = "restart".toList

theorem StopRestart.ne_enabled {command : List Char} (h : StopRestart command) :
    command ≠ "enabled".toList := by
  have hstop : "stop".toList ≠ "enabled".toList := by decide
  have hrestart : "restart".toList ≠ "enabled".toList := by decide
  rcases h with h | h
  · rwa [h]
  · rwa [h]

theorem action_command_stop_restart (action : service_action_t) :
    StopRestart (action_command action) := by
  unfold action_command
  split
  · exact Or.inl rfl
  · exact Or.inr rfl

/-- A command of `service` tells its service and what it is. -/
theorem service_argv_image_inj {name command name' command' : List Char}
    (h : (service_argv name command).image = (service_argv name' command').image) :
    name = name' ∧ command = command' := by
  have hargs : [name, command] = [name', command'] :=
    congrArg argv_t.args (argv_t.image_injective h)
  simpa only [List.cons.injEq, and_true] using hargs

/-- Whether an image stops or restarts a service. -/
def stops_or_restarts (name : List Char) (image : image_t) : Bool :=
  image = (service_argv name "stop".toList).image
    ∨ image = (service_argv name "restart".toList).image

/-- A probe neither stops nor restarts. -/
theorem stops_or_restarts_probe (name : List Char) (sd : service_data_t) :
    ¬ stops_or_restarts name (probe_argv sd).image = true := by
  rw [stops_or_restarts, decide_eq_true_eq]
  rintro (h | h)
  · exact StopRestart.ne_enabled (Or.inl rfl) (service_argv_image_inj h).2.symm
  · exact StopRestart.ne_enabled (Or.inr rfl) (service_argv_image_inj h).2.symm

/-- What is done to a service concerns no other. -/
theorem name_of_stops_or_restarts {name : List Char} {sd : service_data_t}
    (h : stops_or_restarts name (action_argv sd).image = true) : sd.name = name := by
  rw [stops_or_restarts, decide_eq_true_eq] at h
  rcases h with h | h
  · exact (service_argv_image_inj h).1
  · exact (service_argv_image_inj h).1

/-- For services with different names there is one command a name. -/
theorem count_stops_or_restarts {sds : List service_data_t}
    (h : (sds.map service_data_t.name).Nodup) (name : List Char) :
    ((sds.map (fun sd => (action_argv sd).image)).filter (stops_or_restarts name)).length ≤ 1 := by
  rw [List.filter_map, List.length_map]
  generalize hp : stops_or_restarts name ∘ (fun sd => (action_argv sd).image) = p
  have hname : ∀ sd ∈ sds.filter p, sd.name = name := by
    intro sd hsd
    rw [← hp] at hsd
    exact name_of_stops_or_restarts (List.mem_filter.mp hsd).2
  have hnodup : ((sds.filter p).map service_data_t.name).Nodup :=
    h.sublist (List.filter_sublist.map _)
  rw [List.map_congr_left hname, List.map_const', List.nodup_replicate] at hnodup
  exact hnodup

/-- What is stopped or restarted was never blocked, its probe reported a status of
0, and the action is that of the last call for it. -/
theorem stop_restart_executed (cs : List selection_call) (env : handle_env) {k : kernel_t}
    {sr : services_result_t} (hok : services_selection_handle (build cs) env = .ok (k, sr))
    {name command : List Char} (hcommand : StopRestart command)
    (hmem : (service_argv name command).image ∈ k.executed) :
    selection_call.block name ∉ cs
      ∧ (∃ action, last_action cs name = some action ∧ action ≠ .SERVICE_ACTION_NONE
        ∧ command = action_command action)
      ∧ ∃ d ∈ probes (build cs) env, d.child.argv = service_argv name "enabled".toList
        ∧ d.status = EXIT_SUCCESS := by
  have hss := Selection.build cs
  obtain ⟨forked, entered, blocked, hp⟩ := probe_start_spec hss env
  obtain ⟨w, acted, entered', ha⟩ := action_start_spec hss env
  rw [(ha.handle hp hok).1, List.mem_append, List.mem_map, List.mem_map] at hmem
  rcases hmem with ⟨sd, -, heq⟩ | ⟨sd, hsd, heq⟩
  · exact absurd (service_argv_image_inj heq).2.symm hcommand.ne_enabled
  · obtain ⟨rfl, rfl⟩ := service_argv_image_inj heq
    obtain ⟨hvalue, hblocked, d, hd, hchild, hstatus⟩ := hp.mem_enabled (ha.acted.subset hsd)
    obtain ⟨name, hget⟩ := (Table.mem_values_iff _ sd).mp hvalue
    have hrecorded := (build_get cs name).1 sd hget
    have hname := hrecorded.name
    subst hname
    refine ⟨?_, ⟨sd.action, hrecorded.action, hss.action sd hvalue hblocked, rfl⟩, d, hd, ?_,
      hstatus⟩
    · rw [← hrecorded.blocked]
      show ¬ sd.blocked = true
      rw [hblocked]
      simp
    · rw [hchild]
      rfl

/-- **A service is stopped or restarted at most once**, only if it was never
blocked and its probe reported a status of 0, and with the action of the last
call for it; no service is reported twice; the assertion holds. -/
theorem services_selection_handle_once (cs : List selection_call) (env : handle_env) :
    services_selection_handle (build cs) env ≠ .error .assertion
    ∧ ∀ k sr, services_selection_handle (build cs) env = .ok (k, sr) →
      (∀ name, (k.executed.filter (stops_or_restarts name)).length ≤ 1)
      ∧ (∀ name command, StopRestart command → (service_argv name command).image ∈ k.executed →
          selection_call.block name ∉ cs
          ∧ (∃ action, last_action cs name = some action ∧ action ≠ .SERVICE_ACTION_NONE
            ∧ command = action_command action)
          ∧ ∃ d ∈ probes (build cs) env, d.child.argv = service_argv name "enabled".toList
            ∧ d.status = EXIT_SUCCESS)
      ∧ Unrepeated sr := by
  have hss := Selection.build cs
  obtain ⟨forked, entered, blocked, hp⟩ := probe_start_spec hss env
  obtain ⟨w, acted, entered', ha⟩ := action_start_spec hss env
  constructor
  · unfold services_selection_handle
    rw [ha.start]
    split
    · simp
    · split <;> simp
  · intro k sr hok
    obtain ⟨hexecuted, hsr⟩ := ha.handle hp hok
    refine ⟨fun name => ?_, fun name command hcommand hmem =>
      stop_restart_executed cs env hok hcommand hmem, ?_⟩
    · -- each service has one job at most, and no probe stops or restarts it
      have hnames : (acted.map service_data_t.name).Nodup := by
        have hmem : ∀ sd ∈ acted, sd ∈ (build cs).values := fun sd hsd =>
          (hp.mem_enabled (ha.acted.subset hsd)).1
        refine ((Acted.enabled_nodup hss hp).sublist ha.acted.sublist).map_on ?_
        exact fun sd hsd sd' hsd' =>
          List.inj_on_of_nodup_map hss.names_nodup (hmem sd hsd) (hmem sd' hsd')
      have hprobes : (forked.map (fun sd => (probe_argv sd).image)).filter (stops_or_restarts name)
          = [] := by
        rw [List.filter_eq_nil_iff]
        intro image himage
        obtain ⟨sd, -, rfl⟩ := List.mem_map.mp himage
        exact stops_or_restarts_probe name sd
      rw [hexecuted, List.filter_append, hprobes, List.nil_append]
      exact count_stops_or_restarts hnames name
    · rw [hsr]
      exact unrepeated_of_nodup (ha.reports_nodup hss hp)

/-! ## What is asked for can happen -/

/-- A fork that works, without a registration. -/
theorem process_monitor_exec_unregistered {k : kernel_t} (pm : process_monitor_t service_data_t)
    (argv : argv_t) (sd : service_data_t) {pid : ℕ} (h : k.procs pid = none) :
    process_monitor_exec k pm argv sd ⟨[], .forked pid .kevent_failed⟩
      = (k.fork pid argv.image, pm, true) := by
  simp [process_monitor_exec, kernel_t.elapse, h, register_pid]

/-- A fork that works, with a registration. -/
theorem process_monitor_exec_registered {k : kernel_t} (pm : process_monitor_t service_data_t)
    (argv : argv_t) (sd : service_data_t) {pid : ℕ} (h : k.procs pid = none) :
    process_monitor_exec k pm argv sd ⟨[], .forked pid .registered⟩
      = ((k.fork pid argv.image).ev_add pid, ⟨pm.children.putNew pid (child_create argv sd),
          pm.active_children_count + 1⟩, true) := by
  simp [process_monitor_exec, kernel_t.elapse, h, register_pid]

/-- If all the forks work the loop of the first step gets through, and without
registrations the monitor stays as it is. -/
theorem probe_loop_unregistered (exec : List Char → exec_env) (pid : List Char → ℕ)
    (rest es : List (List Char × service_data_t)) : ∀ (k : kernel_t)
      (pm : process_monitor_t service_data_t) (sr : services_result_t),
      (es.map (fun e => pid e.1)).Nodup → (∀ e ∈ es, k.procs (pid e.1) = none) →
      (∀ e ∈ es, exec e.1 = ⟨[], .forked (pid e.1) .kevent_failed⟩) →
      ∃ k' sr', probe_loop exec (es ++ rest) k pm sr = probe_loop exec rest k' pm sr'
        ∧ k'.knotes = k.knotes ∧ ∀ q, q ∉ es.map (fun e => pid e.1) → k'.procs q = k.procs q := by
  induction es with
  | nil => exact fun k pm sr _ _ _ => ⟨k, sr, rfl, rfl, fun q _ => rfl⟩
  | cons e es ih =>
      intro k pm sr hnodup hfree hexec
      obtain ⟨name, sd⟩ := e
      rw [List.map_cons, List.nodup_cons] at hnodup
      rw [List.forall_mem_cons] at hfree hexec
      rw [List.cons_append]
      cases hblocked : sd.blocked with
      | true =>
          rw [probe_loop_blocked exec name hblocked]
          obtain ⟨k', sr', heq, hknotes, hprocs⟩ := ih k pm _ hnodup.2 hfree.2 hexec.2
          refine ⟨k', sr', heq, hknotes, fun q hq => hprocs q ?_⟩
          rw [List.map_cons, List.mem_cons, not_or] at hq
          exact hq.2
      | false =>
          have hrun : process_monitor_exec k pm (service_argv name "enabled".toList) sd (exec name)
              = (k.fork (pid name) (service_argv name "enabled".toList).image, pm, true) := by
            rw [hexec.1]
            exact process_monitor_exec_unregistered pm _ sd hfree.1
          rw [probe_loop_probe exec hblocked (es ++ rest) sr hrun, if_pos rfl]
          have hother : ∀ q, q ≠ pid name → (k.fork (pid name)
              (service_argv name "enabled".toList).image).procs q = k.procs q := fun q hq =>
            Function.update_of_ne hq _ _
          obtain ⟨k', sr', heq, hknotes, hprocs⟩ := ih _ pm sr hnodup.2 (fun e he => by
            rw [hother _ (fun heq => hnodup.1 (heq ▸ List.mem_map_of_mem he))]
            exact hfree.2 e he) hexec.2
          refine ⟨k', sr', heq, hknotes, fun q hq => ?_⟩
          rw [List.map_cons, List.mem_cons, not_or] at hq
          rw [hprocs q hq.2, hother q hq.1]

/-- The items of an await in which one child exits with 0 and is reaped. -/
def one_exit (pid : ℕ) : List item_t := [.exits pid (.exited 0), .kevent_exit pid .reaped]

/-- The exit of a child that is pending is delivered, and reaps the process. -/
theorem kevent_exit_spec (cb : callbacks handle_acc service_data_t)
    {w : world_t handle_acc service_data_t} {pid : ℕ} {c : child_t service_data_t}
    {t : termination_t} (hcount : w.pm.active_children_count ≠ 0)
    (hget : w.pm.children.get pid = some c) (hevent : w.kernel.event pid = some t) :
    deliveries cb w [.kevent_exit pid .reaped] = [⟨pid, c, t, .reaped⟩]
      ∧ (last cb w [.kevent_exit pid .reaped]).kernel.procs pid = none := by
  have htest : (await_loop cb).test w = true := by simpa [await_loop] using hcount
  have hstep : (await_loop cb).step w (.kevent_exit pid .reaped)
      = .inl (unregister_pid cb w pid t .reaped) := by
    simp [await_loop, await_step, hevent]
  constructor
  · rw [deliveries, Loop.turns_inl htest hstep, Loop.turns]
    have hdelivery : Function.uncurry delivery (w, item_t.kevent_exit pid .reaped)
        = some ⟨pid, c, t, .reaped⟩ := by
      simp [delivery, hevent, hget]
    rw [List.filterMap_cons_some hdelivery, List.filterMap_nil]
  · rw [last, Loop.run_inl htest hstep, Loop.run, unregister_pid_some cb w hget]
    simp [kernel_t.waitpid]

/-- Such an await delivers that exit, and the process is gone. -/
theorem one_exit_spec (cb : callbacks handle_acc service_data_t)
    {w : world_t handle_acc service_data_t} {pid : ℕ} {c : child_t service_data_t} {image : image_t}
    (hcount : w.pm.active_children_count ≠ 0) (hget : w.pm.children.get pid = some c)
    (hknote : pid ∈ w.kernel.knotes) (hproc : w.kernel.procs pid = some ⟨image, .running⟩) :
    deliveries cb w (one_exit pid) = [⟨pid, c, .exited 0, .reaped⟩]
      ∧ (last cb w (one_exit pid)).kernel.procs pid = none := by
  have htest : (await_loop cb).test w = true := by simpa [await_loop] using hcount
  have hstep : (await_loop cb).step w (.exits pid (.exited 0))
      = .inl { w with kernel := w.kernel.exit pid (.exited 0) } := rfl
  have hevent : (w.kernel.exit pid (.exited 0)).event pid = some (.exited 0) := by
    rw [kernel_t.event_eq_some_iff, kernel_t.exit_knotes]
    exact ⟨hknote, image, by simp [kernel_t.exit, hproc]⟩
  have hnone : delivery w (.exits pid (.exited 0)) = none := rfl
  obtain ⟨hdeliveries, hlast⟩ := kevent_exit_spec cb
    (show ({ w with kernel := w.kernel.exit pid (.exited 0) } :
      world_t handle_acc service_data_t).pm.active_children_count ≠ 0 from hcount) hget hevent
  constructor
  · rw [deliveries, one_exit, Loop.turns_inl htest hstep,
      List.filterMap_cons_none (show Function.uncurry delivery (w, item_t.exits pid (.exited 0))
        = none from hnone)]
    exact hdeliveries
  · rw [last, one_exit, Loop.run_inl htest hstep]
    exact hlast

/-- The world in which every fork works, but only the probe of one service is
registered; it exits with 0. -/
def acting_env (ss : services_selection_t) (name : List Char) : handle_env where
  result_created := true
  monitor_created := true
  probe_exec n := ⟨[], .forked (ss.keys.idxOf n) (if n = name then .registered else .kevent_failed)⟩
  probe_items := one_exit (ss.keys.idxOf name)
  probe_kill _ := .sent
  action_exec _ := ⟨[], .forked (ss.keys.idxOf name) .kevent_failed⟩
  action_items := []
  action_kill _ := .sent

/-- An entry of a table, between those before and those after; the places of the keys
are distinct. -/
theorem entries_split {ss : services_selection_t} {name : List Char} {sd : service_data_t}
    (hget : ss.get name = some sd) :
    ∃ l r, ss.entries = l ++ (name, sd) :: r
      ∧ (l.map (fun e => ss.keys.idxOf e.1)
        ++ ss.keys.idxOf name :: r.map (fun e => ss.keys.idxOf e.1)).Nodup := by
  obtain ⟨l, r, hentries⟩ := List.append_of_mem ((ss.get_eq_some_iff name sd).mp hget)
  refine ⟨l, r, hentries, ?_⟩
  have hplaces : (ss.keys.map (fun n => ss.keys.idxOf n)).Nodup :=
    ss.keys_nodup.map_on (fun x hx y _ heq => (List.idxOf_inj hx).mp heq)
  have hsplit : ss.keys.map (fun n => ss.keys.idxOf n)
      = ss.entries.map (fun e => ss.keys.idxOf e.1) := by
    conv_lhs => rw [Table.keys]
    rw [List.map_map]
    rfl
  rwa [hsplit, hentries, List.map_append, List.map_cons] at hplaces

/-- The state in which that probe is awaited. -/
theorem acting_probe_start {ss : services_selection_t} {name : List Char} {sd : service_data_t}
    (hget : ss.get name = some sd) (hblocked : sd.blocked = false) :
    ∃ w, probe_start ss (acting_env ss name) = w ∧ w.acc.enabled = []
      ∧ w.pm.active_children_count ≠ 0
      ∧ w.pm.children.get (ss.keys.idxOf name)
        = some (child_create (service_argv name "enabled".toList) sd)
      ∧ ss.keys.idxOf name ∈ w.kernel.knotes
      ∧ ∃ image, w.kernel.procs (ss.keys.idxOf name) = some ⟨image, .running⟩ := by
  obtain ⟨l, r, hentries, hplaces⟩ := entries_split hget
  rw [List.nodup_append, List.nodup_cons] at hplaces
  obtain ⟨hl, ⟨hnotr, hr⟩, hdisjoint⟩ := hplaces
  have hother : ∀ e : List Char × service_data_t, e.1 ≠ name →
      (acting_env ss name).probe_exec e.1
        = ⟨[], .forked (ss.keys.idxOf e.1) .kevent_failed⟩ := by
    intro e he
    simp [acting_env, he]
  have hlne : ∀ e ∈ l, e.1 ≠ name := fun e he heq =>
    hdisjoint _ (List.mem_map_of_mem he) _ List.mem_cons_self (congrArg ss.keys.idxOf heq)
  have hrne : ∀ e ∈ r, e.1 ≠ name := fun e he heq =>
    hnotr (congrArg ss.keys.idxOf heq ▸ List.mem_map_of_mem he)
  -- the services before the one that is registered
  obtain ⟨k₁, sr₁, heq₁, -, hprocs₁⟩ := probe_loop_unregistered (acting_env ss name).probe_exec
    (fun n => ss.keys.idxOf n) ((name, sd) :: r) l kernel_t.boot process_monitor_create
    services_result_create hl (fun e _ => rfl) (fun e he => hother e (hlne e he))
  have hfree : ∀ q, q ∉ l.map (fun e => ss.keys.idxOf e.1) → k₁.procs q = none := fun q hq =>
    hprocs₁ q hq
  -- the one that is registered
  have hfree_name : k₁.procs (ss.keys.idxOf name) = none :=
    hfree _ (fun hmem => hdisjoint _ hmem _ List.mem_cons_self rfl)
  have hname : (acting_env ss name).probe_exec name
      = ⟨[], .forked (ss.keys.idxOf name) .registered⟩ := by
    simp [acting_env]
  have hexec := process_monitor_exec_registered process_monitor_create
    (service_argv name "enabled".toList) sd hfree_name
  rw [← hname] at hexec
  -- the services after it
  obtain ⟨k₂, sr₂, heq₂, hknotes₂, hprocs₂⟩ := probe_loop_unregistered
    (acting_env ss name).probe_exec (fun n => ss.keys.idxOf n) [] r
    ((k₁.fork (ss.keys.idxOf name) (service_argv name "enabled".toList).image).ev_add
      (ss.keys.idxOf name)) _ sr₁ hr
    (fun e he => by
      have hne : ss.keys.idxOf e.1 ≠ ss.keys.idxOf name := fun heq =>
        hnotr (heq ▸ List.mem_map_of_mem he)
      have hnot : ss.keys.idxOf e.1 ∉ l.map (fun e => ss.keys.idxOf e.1) := fun hmem =>
        hdisjoint _ hmem _ (List.mem_cons_of_mem _ (List.mem_map_of_mem he)) rfl
      exact (Function.update_of_ne hne _ _).trans (hfree _ hnot))
    (fun e he => hother e (hrne e he))
  have hstart : probe_start ss (acting_env ss name) = ⟨k₂, ⟨Table.empty.putNew
      (ss.keys.idxOf name) (child_create (service_argv name "enabled".toList) sd), 1⟩,
      ⟨[], sr₂⟩⟩ := by
    rw [List.append_nil] at heq₂
    rw [probe_start, hentries, heq₁, probe_loop_probe _ hblocked r sr₁ hexec, if_pos rfl]
    exact congrArg (fun x => (⟨x.1, x.2.1, ⟨[], x.2.2⟩⟩ : world_t handle_acc service_data_t)) heq₂
  refine ⟨_, hstart, rfl, by simp, ?_, ?_, (service_argv name "enabled".toList).image, ?_⟩
  · rw [Table.putNew_of_notMem _ (by simp), Table.get_put_self]
  · rw [hknotes₂]
    exact Finset.mem_insert_self _ _
  · rw [hprocs₂ _ hnotr]
    exact Function.update_self _ _ _

/-- **What is asked for can happen**: there is a run in which a service that was
not blocked is stopped or restarted. -/
theorem exists_acting (cs : List selection_call) {name : List Char} {sd : service_data_t}
    (hget : (build cs).get name = some sd) (hblocked : sd.blocked = false) :
    ∃ env k sr, services_selection_handle (build cs) env = .ok (k, sr)
      ∧ (action_argv sd).image ∈ k.executed := by
  have hss := Selection.build cs
  have haction := hss.action sd ((Table.mem_values_iff _ sd).mpr ⟨name, hget⟩) hblocked
  refine ⟨acting_env (build cs) name, ?_⟩
  obtain ⟨forked, entered, blocked, hp⟩ := probe_start_spec hss (acting_env (build cs) name)
  obtain ⟨w₁, acted, entered', ha⟩ := action_start_spec hss (acting_env (build cs) name)
  obtain ⟨w₀, hw₀, -, hcount, hchild, hknote, image, hproc⟩ := acting_probe_start hget hblocked
  subst hw₀
  obtain ⟨hdeliveries, hgone⟩ := one_exit_spec probing hcount hchild hknote hproc
  -- its probe is the only one that is delivered
  have henabled : enabled (build cs) (acting_env (build cs) name) = [sd] := by
    have hprobes : probes (build cs) (acting_env (build cs) name) = _ := hdeliveries
    have hstatus : WEXITSTATUS (wait_t.reaped.pstat (.exited 0)) = EXIT_SUCCESS :=
      WEXITSTATUS_exited 0
    rw [enabled, hprobes]
    simp [delivery_t.status, hstatus, child_create]
  -- the pid of the probe is free again, so the command can have it
  have hfree : (probe_end (build cs) (acting_env (build cs) name)).kernel.procs
      ((build cs).keys.idxOf name) = none := by
    obtain ⟨-, hkernel, -⟩ := process_monitor_await_eq probing
      (acting_env (build cs) name).probe_items (acting_env (build cs) name).probe_kill
      (probe_start (build cs) (acting_env (build cs) name)) hp.filled.filling.agree
    show (process_monitor_await _ _ _ _).kernel.procs _ = none
    rw [hkernel]
    exact hgone
  have hexec : process_monitor_exec (probe_end (build cs) (acting_env (build cs) name)).kernel
      (probe_end (build cs) (acting_env (build cs) name)).pm (action_argv sd) sd
      ((acting_env (build cs) name).action_exec sd.name) = _ :=
    process_monitor_exec_unregistered _ (action_argv sd) sd hfree
  have hstart := ha.start
  rw [action_start, hp.acc_end] at hstart
  simp only [henabled] at hstart
  rw [action_loop_exec _ haction [] hexec, if_pos rfl, action_loop] at hstart
  have hw : w₁.kernel.executed
      = (probe_end (build cs) (acting_env (build cs) name)).kernel.executed
        ++ [(action_argv sd).image] := by
    rw [← Except.ok.inj hstart]
    rfl
  obtain ⟨k, sr, hok⟩ : ∃ k sr, services_selection_handle (build cs) (acting_env (build cs) name)
      = .ok (k, sr) := by
    unfold services_selection_handle
    rw [ha.start]
    exact ⟨_, _, rfl⟩
  refine ⟨k, sr, hok, ?_⟩
  rw [← ha.executed_eq hp hok, hw]
  simp

/-! ## Statuses that lie -/

/-- A status that reads like a success though the child did not exit with 0: the
child was killed by a signal, or was not reaped and `pstat` happened to hold less
than 256. -/
def Misread (d : delivery_t service_data_t) : Prop :=
  (d.ret = .reaped ∧ ∃ sig core, d.t = .signaled sig core)
    ∨ ∃ pstat, (d.ret = .nothing pstat ∨ d.ret = .failed pstat) ∧ 0 ≤ pstat ∧ pstat < 256
        ∧ d.t ≠ .exited 0

theorem WEXITSTATUS_eq_success_iff (x : ℤ) : WEXITSTATUS x = EXIT_SUCCESS ↔ 0 ≤ x ∧ x < 256 := by
  unfold WEXITSTATUS EXIT_SUCCESS
  omega

theorem misread_iff (d : delivery_t service_data_t) :
    Misread d ↔ d.status = EXIT_SUCCESS ∧ d.t ≠ .exited 0 := by
  unfold Misread delivery_t.status
  cases hret : d.ret with
  | reaped =>
      cases ht : d.t with
      | signaled sig core =>
          have hzero : WEXITSTATUS (wait_t.reaped.pstat (.signaled sig core)) = EXIT_SUCCESS :=
            WEXITSTATUS_signaled sig core
          simp [hzero]
      | exited code =>
          have hcode : WEXITSTATUS (wait_t.reaped.pstat (.exited code)) = code.toNat :=
            WEXITSTATUS_exited code
          simp only [hcode, EXIT_SUCCESS, termination_t.exited.injEq, ne_eq, reduceCtorEq,
            exists_const, and_false, false_and, or_false, false_iff, not_and, not_not]
          intro hz
          rw [← UInt8.toNat_inj]
          exact Int.ofNat_eq_zero.mp hz
  | nothing pstat =>
      rw [wait_t.pstat, WEXITSTATUS_eq_success_iff]
      simp [and_assoc]
  | failed pstat =>
      rw [wait_t.pstat, WEXITSTATUS_eq_success_iff]
      simp [and_assoc]

/-- What a result should mean: a service is reported with success only if its
command was seen to exit with 0, and stopped or restarted only if its probe was. -/
structure Honest (ss : services_selection_t) (env : handle_env)
    (w : world_t handle_acc service_data_t) (k : kernel_t) (sr : services_result_t) : Prop where
  success : ∀ i name, name ∈ sr.lists i .SERVICES_RESULT_SUCCESS →
    ∃ d ∈ verdicts w env,
      (∃ command, StopRestart command ∧ d.child.argv = service_argv name command)
      ∧ d.t = .exited 0
  probed : ∀ name command, StopRestart command → (service_argv name command).image ∈ k.executed →
    ∃ d ∈ probes ss env, d.child.argv = service_argv name "enabled".toList ∧ d.t = .exited 0

section Honest

variable {ss : services_selection_t} {env : handle_env}
  {forked entered blocked : List service_data_t} {w : world_t handle_acc service_data_t}
  {acted entered' : List service_data_t}

/-- A name tells the delivery of its probe. -/
theorem Probed.probe_unique (hss : Selection ss) (hp : Probed ss env forked entered blocked)
    {d d' : delivery_t service_data_t} (hd : d ∈ probes ss env) (hd' : d' ∈ probes ss env)
    (hname : d.child.data.name = d'.child.data.name) : d = d' := by
  have hdata := List.inj_on_of_nodup_map hss.names_nodup (hp.probe hd).2.1 (hp.probe hd').2.1 hname
  exact List.inj_on_of_nodup_map (List.nodup_append.mp (hp.callbacks_nodup hss)).1 hd hd' hdata

/-- A name tells the delivery of its command. -/
theorem Acted.verdict_unique (hss : Selection ss) (hp : Probed ss env forked entered blocked)
    (h : Acted ss env w acted entered') {d d' : delivery_t service_data_t}
    (hd : d ∈ verdicts w env) (hd' : d' ∈ verdicts w env)
    (hname : d.child.data.name = d'.child.data.name) : d = d' := by
  have hmem : ∀ d ∈ verdicts w env, d.child.data ∈ ss.values := fun d hd =>
    (hp.mem_enabled (h.acted.subset (h.verdict hd).1)).1
  have hdata := List.inj_on_of_nodup_map hss.names_nodup (hmem d hd) (hmem d' hd') hname
  exact List.inj_on_of_nodup_map (List.nodup_append.mp (h.callbacks_nodup hss hp)).1 hd hd' hdata

/-- A success is the report on a verdict whose status is 0. -/
theorem Acted.mem_success (h : Acted ss env w acted entered') {k : kernel_t}
    {sr : services_result_t} (hp : Probed ss env forked entered blocked)
    (hok : services_selection_handle ss env = .ok (k, sr)) (i : Fin 2) (name : List Char) :
    name ∈ sr.lists i .SERVICES_RESULT_SUCCESS ↔ ∃ d ∈ verdicts w env,
      d.child.data.action.index = some i ∧ d.status = EXIT_SUCCESS ∧ d.child.data.name = name := by
  rw [(h.handle hp hok).2, mem_lists_foldl_add]
  constructor
  · rintro ⟨r, hr, hindex, hstatus, hname⟩
    simp only [all_reports, reports, List.mem_append, List.mem_map] at hr
    rcases hr with ((⟨sd, -, rfl⟩ | ⟨sd, -, rfl⟩) | ⟨d, hd, rfl⟩) | ⟨sd, -, rfl⟩
    · exact absurd hstatus (by simp)
    · exact absurd hstatus (by simp)
    · refine ⟨d, hd, hindex, ?_, hname⟩
      by_contra hne
      have hne' : ¬ EXIT_SUCCESS = d.status := fun heq => hne heq.symm
      simp [ServicesHandle.verdict, hne'] at hstatus
    · exact absurd hstatus (by simp)
  · rintro ⟨d, hd, hindex, hstatus, hname⟩
    refine ⟨ServicesHandle.verdict d, ?_, hindex, ?_, hname⟩
    · simp only [all_reports, List.mem_append]
      exact Or.inl (Or.inr (List.mem_map_of_mem hd))
    · simp [ServicesHandle.verdict, hstatus]

end Honest

/-- **When a result means what it says.** Whatever the children do, the result is
honest if and only if no exit of a stop or restart is misread, and none of a
probe of a service that is then stopped or restarted. -/
theorem services_selection_handle_honest_iff (cs : List selection_call) (env : handle_env)
    {w : world_t handle_acc service_data_t} {k : kernel_t} {sr : services_result_t}
    (hstart : action_start (build cs) env = .ok w)
    (hok : services_selection_handle (build cs) env = .ok (k, sr)) :
    Honest (build cs) env w k sr
      ↔ (∀ d ∈ verdicts w env, ¬ Misread d)
        ∧ ∀ d ∈ probes (build cs) env,
            (action_argv d.child.data).image ∈ w.kernel.executed → ¬ Misread d := by
  have hss := Selection.build cs
  obtain ⟨forked, entered, blocked, hp⟩ := probe_start_spec hss env
  obtain ⟨w', acted, entered', ha⟩ := action_start_spec hss env
  obtain rfl : w = w' := Except.ok.inj (hstart.symm.trans ha.start)
  have hexecuted := (ha.handle hp hok).1
  have hsuccess := ha.mem_success hp hok
  rw [ha.executed_eq hp hok]
  constructor
  · -- a misread status makes the result lie, since a name has one delivery only
    intro hh
    refine ⟨fun d hd hmis => ?_, fun d hd hmem hmis => ?_⟩
    · obtain ⟨hstatus, ht⟩ := (misread_iff d).mp hmis
      obtain ⟨hvalue, hblocked, -⟩ := hp.mem_enabled (ha.acted.subset (ha.verdict hd).1)
      obtain ⟨i, hi⟩ : ∃ i, d.child.data.action.index = some i := by
        cases haction : d.child.data.action with
        | SERVICE_ACTION_NONE => exact absurd haction (hss.action _ hvalue hblocked)
        | SERVICE_ACTION_STOP => exact ⟨0, rfl⟩
        | SERVICE_ACTION_RESTART => exact ⟨1, rfl⟩
      obtain ⟨d', hd', ⟨command, -, hargv⟩, ht'⟩ :=
        hh.success i d.child.data.name ((hsuccess i _).mpr ⟨d, hd, hi, hstatus, rfl⟩)
      rw [(ha.verdict hd').2] at hargv
      have hname : d'.child.data.name = d.child.data.name :=
        (service_argv_image_inj (congrArg argv_t.image hargv)).1
      rw [ha.verdict_unique hss hp hd' hd hname] at ht'
      exact ht ht'
    · obtain ⟨-, ht⟩ := (misread_iff d).mp hmis
      obtain ⟨d', hd', hargv, ht'⟩ := hh.probed d.child.data.name _
        (action_command_stop_restart d.child.data.action) hmem
      rw [(hp.probe hd').1] at hargv
      have hname : d'.child.data.name = d.child.data.name :=
        (service_argv_image_inj (congrArg argv_t.image hargv)).1
      rw [hp.probe_unique hss hd' hd hname] at ht'
      exact ht ht'
  · -- a status of 0 that is not misread is that of an exit with 0
    rintro ⟨hverdicts, hprobes⟩
    refine ⟨fun i name hname => ?_, fun name command hcommand hmem => ?_⟩
    · obtain ⟨d, hd, -, hstatus, rfl⟩ := (hsuccess i name).mp hname
      refine ⟨d, hd, ⟨_, action_command_stop_restart d.child.data.action, ?_⟩, ?_⟩
      · rw [(ha.verdict hd).2]
        rfl
      · by_contra ht
        exact hverdicts d hd ((misread_iff d).mpr ⟨hstatus, ht⟩)
    · have hmem' := hmem
      rw [hexecuted, List.mem_append, List.mem_map, List.mem_map] at hmem'
      rcases hmem' with ⟨sd, -, heq⟩ | ⟨sd, hsd, heq⟩
      · exact absurd (service_argv_image_inj heq).2.symm hcommand.ne_enabled
      · obtain ⟨rfl, rfl⟩ := service_argv_image_inj heq
        obtain ⟨-, -, d, hd, hchild, hstatus⟩ := hp.mem_enabled (ha.acted.subset hsd)
        refine ⟨d, hd, by rw [hchild]; rfl, ?_⟩
        have hdata : d.child.data = sd := by rw [hchild]; rfl
        by_contra ht
        refine hprobes d hd ?_ ((misread_iff d).mpr ⟨hstatus, ht⟩)
        rw [hdata]
        exact hmem

/-- A selection of one service to restart. -/
def nginx : List selection_call :=
  [.add_direct "nginx".toList .restart]

/-- The probe and the command end as given, and are reaped. -/
def ending (probe action : termination_t) : handle_env where
  result_created := true
  monitor_created := true
  probe_exec _ := ⟨[], .forked 1 .registered⟩
  probe_items := [.exits 1 probe, .kevent_exit 1 .reaped]
  probe_kill _ := .sent
  action_exec _ := ⟨[], .forked 2 .registered⟩
  action_items := [.exits 2 action, .kevent_exit 2 .reaped]
  action_kill _ := .sent

/-- What the children of a run did, and what was made of it: how the probes and
the commands ended, what was executed, and the restarts reported with success. -/
structure summary_t where
  probes : List termination_t
  verdicts : List termination_t
  executed : List (List (List Char))
  restarted : List (List Char)
deriving DecidableEq

def summary (ss : services_selection_t) (env : handle_env) : Option summary_t :=
  match action_start ss env, services_selection_handle ss env with
  | .ok w, .ok (k, sr) =>
      some ⟨(probes ss env).map delivery_t.t, (verdicts w env).map delivery_t.t,
        k.executed.map image_t.argv,
        (service_action_t.index .SERVICE_ACTION_RESTART).elim []
          (fun i => sr.lists i .SERVICES_RESULT_SUCCESS)⟩
  | _, _ => none

theorem summary_eq_some {ss : services_selection_t} {env : handle_env} {s : summary_t}
    (h : summary ss env = some s) :
    ∃ w k sr, action_start ss env = .ok w ∧ services_selection_handle ss env = .ok (k, sr)
      ∧ (probes ss env).map delivery_t.t = s.probes ∧ (verdicts w env).map delivery_t.t = s.verdicts
      ∧ k.executed.map image_t.argv = s.executed
      ∧ sr.lists 1 .SERVICES_RESULT_SUCCESS = s.restarted := by
  unfold summary at h
  split at h
  · rename_i w k sr hstart hok
    rw [Option.some.injEq] at h
    subst h
    exact ⟨w, k, sr, hstart, hok, rfl, rfl, rfl, rfl⟩
  · exact absurd h (by simp)

/-- A service that is enabled, and restarted with success. -/
theorem nginx_honest : ∃ w k sr, action_start (build nginx) (ending (.exited 0) (.exited 0)) = .ok w
    ∧ services_selection_handle (build nginx) (ending (.exited 0) (.exited 0)) = .ok (k, sr)
    ∧ sr.lists 1 .SERVICES_RESULT_SUCCESS = ["nginx".toList]
    ∧ Honest (build nginx) (ending (.exited 0) (.exited 0)) w k sr := by
  have hsummary : summary (build nginx) (ending (.exited 0) (.exited 0))
      = some ⟨[.exited 0], [.exited 0],
        [["service".toList, "nginx".toList, "enabled".toList],
          ["service".toList, "nginx".toList, "restart".toList]], ["nginx".toList]⟩ := by
    decide +kernel
  obtain ⟨w, k, sr, hstart, hok, hprobes, hverdicts, -, hnames⟩ := summary_eq_some hsummary
  refine ⟨w, k, sr, hstart, hok, hnames,
    (services_selection_handle_honest_iff nginx _ hstart hok).mpr
      ⟨fun d hd => ?_, fun d hd _ => ?_⟩⟩
  · have ht : d.t ∈ (verdicts w _).map delivery_t.t := List.mem_map_of_mem hd
    rw [hverdicts, List.mem_singleton] at ht
    rw [misread_iff]
    exact fun hmis => hmis.2 ht
  · have ht : d.t ∈ (probes (build nginx) _).map delivery_t.t := List.mem_map_of_mem hd
    rw [hprobes, List.mem_singleton] at ht
    rw [misread_iff]
    exact fun hmis => hmis.2 ht

/-- The probe and the restart are both killed by a SIGKILL: the service is
restarted, and reported with success. -/
theorem nginx_killed : ∃ w k sr,
    action_start (build nginx) (ending (.signaled 8 false) (.signaled 8 false)) = .ok w
    ∧ services_selection_handle (build nginx) (ending (.signaled 8 false) (.signaled 8 false))
      = .ok (k, sr)
    ∧ k.executed.map image_t.argv = [["service".toList, "nginx".toList, "enabled".toList],
        ["service".toList, "nginx".toList, "restart".toList]]
    ∧ sr.lists 1 .SERVICES_RESULT_SUCCESS = ["nginx".toList]
    ∧ ¬ Honest (build nginx) (ending (.signaled 8 false) (.signaled 8 false)) w k sr := by
  have hsummary : summary (build nginx) (ending (.signaled 8 false) (.signaled 8 false))
      = some ⟨[.signaled 8 false], [.signaled 8 false],
        [["service".toList, "nginx".toList, "enabled".toList],
          ["service".toList, "nginx".toList, "restart".toList]], ["nginx".toList]⟩ := by decide
  obtain ⟨w, k, sr, hstart, hok, -, hverdicts, hexecuted, hnames⟩ := summary_eq_some hsummary
  refine ⟨w, k, sr, hstart, hok, hexecuted, hnames, fun hh => ?_⟩
  obtain ⟨d, hd, -, ht⟩ := hh.success 1 "nginx".toList (by rw [hnames, List.mem_singleton])
  have hmem : d.t ∈ (verdicts w _).map delivery_t.t := List.mem_map_of_mem hd
  rw [hverdicts, List.mem_singleton, ht] at hmem
  exact absurd hmem (by simp)

end PkgPlugins.ServicesHandle
