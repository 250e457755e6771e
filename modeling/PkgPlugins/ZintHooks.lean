/-
The hooks of zint: how `pkg_plugin_init` reads the key ON of the configuration, and
what the handlers hand to `take_snapshot`
(`plugins/zfs_integration/plugin_zfs_integration.c` and `hooks.h`).

The events are expanded from `hooks.h` four times: into the names of the hooks, the
handlers, the table `schemes` and the loop over the items of ON. The loop enters
the configured patterns into `schemes`, and `init_schemes` says that it enters the
right ones; but the handlers carry the default pattern in their text.
-/
import PkgPlugins.Pkg
import Mathlib.Data.List.Basic
import Mathlib.Logic.Function.Basic
import Mathlib.Tactic.Common

set_option autoImplicit false

namespace PkgPlugins.ZintHooks

open PkgPlugins.Pkg

/-! ## Events -/

/-- `HOOK(value, event, name)`. -/
structure HOOK where
  value : pkg_plugin_hook_t
  event : List Char
  name : List Char
deriving DecidableEq

/-- `hooks.h`. -/
def hooks_h : List HOOK :=
  [ ⟨.PKG_PLUGIN_HOOK_PRE_INSTALL, "pre_install".toList, "PRE:INSTALL".toList⟩,
    ⟨.PKG_PLUGIN_HOOK_POST_INSTALL, "post_install".toList, "POST:INSTALL".toList⟩,
    ⟨.PKG_PLUGIN_HOOK_PRE_DEINSTALL, "pre_deinstall".toList, "PRE:DEINSTALL".toList⟩,
    ⟨.PKG_PLUGIN_HOOK_POST_DEINSTALL, "post_deinstall".toList, "POST:DEINSTALL".toList⟩,
    ⟨.PKG_PLUGIN_HOOK_PRE_UPGRADE, "pre_upgrade".toList, "PRE:UPGRADE".toList⟩,
    ⟨.PKG_PLUGIN_HOOK_POST_UPGRADE, "post_upgrade".toList, "POST:UPGRADE".toList⟩,
    ⟨.PKG_PLUGIN_HOOK_PRE_AUTOREMOVE, "pre_autoremove".toList, "PRE:AUTOREMOVE".toList⟩,
    ⟨.PKG_PLUGIN_HOOK_POST_AUTOREMOVE, "post_autoremove".toList, "POST:AUTOREMOVE".toList⟩ ]

/-- `"pkg_" #event "_%F_%T"`. -/
def default_scheme (event : List Char) : List Char :=
  "pkg_".toList ++ event ++ "_%F_%T".toList

/-- No two events share their hook. -/
theorem hooks_h_value_inj : ∀ h ∈ hooks_h, ∀ h' ∈ hooks_h, h.value = h'.value → h = h' := by
  decide

theorem hooks_h_event_inj : ∀ h ∈ hooks_h, ∀ h' ∈ hooks_h, h.event = h'.event → h = h' := by
  decide

/-! ## The handlers -/

/-- `hooks[hook]`. -/
def hooks (hook : pkg_plugin_hook_t) : List Char :=
  match hooks_h.find? (fun h => h.value = hook) with
  | none => []
  | some h => h.name

/-- `real_handle_hooks`: the call of `take_snapshot`, its scheme and its hook, if it
is made. -/
def real_handle_hooks (force : Bool) (hook : pkg_plugin_hook_t) (scheme : List Char)
    (jobs_count : ℕ) : Option (List Char × List Char) :=
  if jobs_count = 0 ∧ force = false then none else some (scheme, hooks hook)

/-- `handle_ ## event ## _hook`. -/
def handle_hook (h : HOOK) (force : Bool) (jobs_count : ℕ) : Option (List Char × List Char) :=
  real_handle_hooks force h.value (default_scheme h.event) jobs_count

/-! ## The configuration -/

/-- The key ON: an array, whose items have no key, or an object. -/
inductive on_config
  | array (events : List (List Char))
  | object (entries : List (List Char × List Char))
  | other

/-- What `pkg_object_iterate` yields, by key and string. -/
def on_config.items : on_config → List (Option (List Char) × List Char)
  | .array events => events.map (fun v => (none, v))
  | .object entries => entries.map (fun e => (some e.1, e.2))
  | .other => []

/-- What the plugin keeps: `force`, `schemes`, and the handlers it registered. -/
structure zint_state where
  force : Bool
  schemes : pkg_plugin_hook_t → List Char
  registered : List HOOK

/-- What else decides about the initialization: whether the retention is parsed and
the prober created, what `find_backup_method` returns, and what a registration
returns given those that were made. -/
structure init_env where
  retention_parsed : Bool
  force : Bool
  prober_created : Bool
  find_backup_method : pkg_error_t
  hook_register : List HOOK → HOOK → pkg_error_t

/-- `static const char *schemes[]` as it is initialized. -/
def schemes_init (hook : pkg_plugin_hook_t) : List Char :=
  match hooks_h.find? (fun h => h.value = hook) with
  | none => []
  | some h => default_scheme h.event

/-- The event an item names: by its key if it has one, else by its string. -/
def named (item : Option (List Char) × List Char) : Option HOOK :=
  hooks_h.find? (fun h => h.event = item.1.getD item.2)

/-- `schemes[value] = v`, for an item with a key. -/
def set_scheme (st : zint_state) (h : HOOK) (item : Option (List Char) × List Char) : zint_state :=
  if item.1.isSome then { st with schemes := Function.update st.schemes h.value item.2 } else st

/-- The loop over the items: an item that names no event is passed over, and a
registration that fails ends the loop. -/
def on_loop (env : init_env) : List (Option (List Char) × List Char) → zint_state → pkg_error_t →
    zint_state × pkg_error_t
  | [], st, status => (st, status)
  | item :: items, st, status =>
      match named item with
      | none => on_loop env items st status
      | some h =>
          let st := set_scheme st h item
          match env.hook_register st.registered h with
          | .EPKG_OK => on_loop env items { st with registered := st.registered ++ [h] } .EPKG_OK
          | status => (st, status)

/-- `pkg_plugin_init`. -/
def pkg_plugin_init (env : init_env) (on : on_config) : zint_state × pkg_error_t :=
  let st : zint_state := ⟨env.force, schemes_init, []⟩
  if env.retention_parsed = false then (st, .EPKG_FATAL)
  else
    match on with
    | .other => (st, .EPKG_FATAL)
    | on =>
        match on_loop env on.items st .EPKG_FATAL with
        | (st, .EPKG_OK) =>
            if env.prober_created = false then (st, .EPKG_OK) else (st, env.find_backup_method)
        | (st, status) => (st, status)

/-- The calls of `take_snapshot` when a hook is run. -/
def fire (st : zint_state) (hook : pkg_plugin_hook_t) (jobs_count : ℕ) :
    List (List Char × List Char) :=
  (st.registered.filter (fun h => h.value = hook)).filterMap
    (fun h => handle_hook h st.force jobs_count)

/-! ## What is configured -/

/-- The last pattern for an event. -/
def last_pattern (items : List (Option (List Char) × List Char)) (event : List Char) :
    Option (List Char) :=
  ((items.filter (fun item => item.1 = some event)).getLast?).map Prod.snd

/-- The pattern of an event: the last one configured, or the default. -/
def configured (on : on_config) (event : List Char) : List Char :=
  (last_pattern on.items event).getD (default_scheme event)

theorem last_pattern_cons (item : Option (List Char) × List Char)
    (items : List (Option (List Char) × List Char)) (event : List Char) :
    last_pattern (item :: items) event
      = (last_pattern items event).or (if item.1 = some event then some item.2 else none) := by
  unfold last_pattern
  by_cases hkey : item.1 = some event
  · rw [List.filter_cons_of_pos (by simpa using hkey), if_pos hkey, List.getLast?_cons]
    cases (items.filter (fun item => item.1 = some event)).getLast? <;> simp
  · rw [List.filter_cons_of_neg (by simpa using hkey), if_neg hkey, Option.or_none]

theorem exists_of_last_pattern {items : List (Option (List Char) × List Char)}
    {event pattern : List Char} (h : last_pattern items event = some pattern) :
    (some event, pattern) ∈ items := by
  rw [last_pattern, Option.map_eq_some_iff] at h
  obtain ⟨⟨k, v⟩, hlast, rfl⟩ := h
  obtain ⟨hmem, hkey⟩ := List.mem_filter.mp (List.mem_of_getLast? hlast)
  obtain rfl : k = some event := by simpa using hkey
  exact hmem

/-! ## What the loop does -/

theorem named_eq_some {item : Option (List Char) × List Char} {h : HOOK}
    (hnamed : named item = some h) : h ∈ hooks_h ∧ h.event = item.1.getD item.2 :=
  ⟨List.mem_of_find?_eq_some hnamed, by simpa using List.find?_some hnamed⟩

/-- An event of `hooks.h` is found by its name. -/
theorem named_of_mem {h : HOOK} (hmem : h ∈ hooks_h) {item : Option (List Char) × List Char}
    (hevent : h.event = item.1.getD item.2) : named item = some h := by
  cases hnamed : named item with
  | none =>
      rw [named, List.find?_eq_none] at hnamed
      exact absurd hevent (by simpa using hnamed h hmem)
  | some h' =>
      obtain ⟨hmem', hevent'⟩ := named_eq_some hnamed
      rw [hooks_h_event_inj h' hmem' h hmem (hevent'.trans hevent.symm)]

/-- What a loop leaves that ends well: in `schemes` the last pattern of each event,
and a registration for every item that names an event. -/
structure OnLoop (items : List (Option (List Char) × List Char)) (st st' : zint_state) : Prop where
  force : st'.force = st.force
  schemes : ∀ h ∈ hooks_h, st'.schemes h.value
    = (last_pattern items h.event).getD (st.schemes h.value)
  registered : ∀ h, h ∈ st'.registered ↔ h ∈ st.registered ∨ ∃ item ∈ items, named item = some h

/-- One item and the others. -/
theorem OnLoop.cons {item : Option (List Char) × List Char}
    {items : List (Option (List Char) × List Char)} {st st₁ st' : zint_state}
    (h₁ : OnLoop [item] st st₁) (h₂ : OnLoop items st₁ st') : OnLoop (item :: items) st st' := by
  refine ⟨h₂.force.trans h₁.force, fun h hmem => ?_, fun h => ?_⟩
  · rw [h₂.schemes h hmem, h₁.schemes h hmem, last_pattern_cons item items,
      last_pattern_cons item []]
    cases last_pattern items h.event <;> simp [last_pattern]
  · rw [h₂.registered, h₁.registered]
    simp [or_assoc]

/-- An item that names no event changes nothing. -/
theorem OnLoop.skip {item : Option (List Char) × List Char} (hnamed : named item = none)
    (st : zint_state) : OnLoop [item] st st := by
  refine ⟨rfl, fun h hmem => ?_, fun h => by simp [hnamed]⟩
  have hkey : item.1 ≠ some h.event := by
    intro hkey
    have hfound := named_of_mem hmem (show h.event = item.1.getD item.2 by simp [hkey])
    rw [hnamed] at hfound
    exact absurd hfound (by simp)
  simp [last_pattern, hkey]

/-- An item that names an event sets its pattern, if it has a key, and registers it. -/
theorem OnLoop.register {item : Option (List Char) × List Char} {h : HOOK}
    (hnamed : named item = some h) (st : zint_state) :
    OnLoop [item] st
      { set_scheme st h item with registered := (set_scheme st h item).registered ++ [h] } := by
  obtain ⟨hmem, hevent⟩ := named_eq_some hnamed
  have hregistered : (set_scheme st h item).registered = st.registered := by
    unfold set_scheme
    split <;> rfl
  refine ⟨?_, fun h' hmem' => ?_, fun h' => ?_⟩
  · unfold set_scheme
    split <;> rfl
  · rw [last_pattern_cons]
    cases hkey : item.1 with
    | none => simp [set_scheme, hkey, last_pattern]
    | some k =>
        have hk : k = h.event := by rw [hevent, hkey, Option.getD_some]
        by_cases heq : h' = h
        · simp [set_scheme, hkey, last_pattern, heq, hk]
        · -- another event has another hook and another name
          have hvalue : h'.value ≠ h.value := fun hv => heq (hooks_h_value_inj h' hmem' h hmem hv)
          have hname : h.event ≠ h'.event :=
            fun he => heq (hooks_h_event_inj h hmem h' hmem' he).symm
          simp [set_scheme, hkey, last_pattern, hk, hname, Function.update_of_ne hvalue]
  · simp [hregistered, hnamed, eq_comm]

/-- **The loop over the items**, when it ends well. -/
theorem on_loop_spec (env : init_env) (items : List (Option (List Char) × List Char)) :
    ∀ st status st', on_loop env items st status = (st', .EPKG_OK) → OnLoop items st st' := by
  induction items with
  | nil =>
      intro st status st' hrun
      obtain ⟨rfl, -⟩ := Prod.mk.injEq .. ▸ hrun
      exact ⟨rfl, fun h _ => by simp [last_pattern], fun h => by simp⟩
  | cons item items ih =>
      intro st status st' hrun
      rw [on_loop] at hrun
      cases hnamed : named item with
      | none =>
          rw [hnamed] at hrun
          exact (OnLoop.skip hnamed st).cons (ih st status st' hrun)
      | some h =>
          simp only [hnamed] at hrun
          cases hreg : env.hook_register (set_scheme st h item).registered h with
          | EPKG_OK =>
              simp only [hreg] at hrun
              exact (OnLoop.register hnamed st).cons (ih _ _ st' hrun)
          | EPKG_ENODB =>
              simp only [hreg] at hrun
              exact absurd (congrArg Prod.snd hrun) (by simp)
          | EPKG_FATAL =>
              simp only [hreg] at hrun
              exact absurd (congrArg Prod.snd hrun) (by simp)

/-- A configuration that is accepted was gone through to its end. -/
theorem init_on_loop {env : init_env} {on : on_config} {st : zint_state}
    (hinit : pkg_plugin_init env on = (st, .EPKG_OK)) :
    OnLoop on.items ⟨env.force, schemes_init, []⟩ st := by
  have hloop : ∀ items, (match on_loop env items ⟨env.force, schemes_init, []⟩ .EPKG_FATAL with
      | (st, .EPKG_OK) =>
          if env.prober_created = false then (st, .EPKG_OK) else (st, env.find_backup_method)
      | (st, status) => (st, status)) = (st, pkg_error_t.EPKG_OK) →
      OnLoop items ⟨env.force, schemes_init, []⟩ st := by
    intro items hrun
    cases hloop : on_loop env items ⟨env.force, schemes_init, []⟩ .EPKG_FATAL with
    | mk st₁ status =>
        rw [hloop] at hrun
        cases status with
        | EPKG_OK =>
            have hst : st₁ = st := by
              by_cases hprober : env.prober_created = false
              · simpa [hprober] using congrArg Prod.fst hrun
              · simpa [hprober] using congrArg Prod.fst hrun
            exact on_loop_spec env items _ _ st (hst ▸ hloop)
        | EPKG_ENODB => exact absurd (congrArg Prod.snd hrun) (by simp)
        | EPKG_FATAL => exact absurd (congrArg Prod.snd hrun) (by simp)
  unfold pkg_plugin_init at hinit
  by_cases hretention : env.retention_parsed = false
  · rw [if_pos hretention] at hinit
    exact absurd (congrArg Prod.snd hinit) (by simp)
  · rw [if_neg hretention] at hinit
    cases on with
    | other => exact absurd (congrArg Prod.snd hinit) (by simp)
    | array events => exact hloop _ hinit
    | object entries => exact hloop _ hinit

/-- **The table `schemes`** holds the pattern of every event of a configuration that
is accepted. -/
theorem init_schemes {env : init_env} {on : on_config} {st : zint_state}
    (hinit : pkg_plugin_init env on = (st, .EPKG_OK)) :
    ∀ h ∈ hooks_h, st.schemes h.value = configured on h.event := by
  have hdefault : ∀ h ∈ hooks_h, schemes_init h.value = default_scheme h.event := by decide
  intro h hmem
  rw [(init_on_loop hinit).schemes h hmem, configured]
  simp only [hdefault h hmem]

/-! ## What the handlers hand on -/

/-- A hook that is run hands on the default pattern of its event, at least once if
there are jobs. -/
theorem mem_fire {st : zint_state} {h : HOOK} (hreg : ∀ h ∈ st.registered, h ∈ hooks_h)
    (hmem : h ∈ st.registered) (jobs_count : ℕ) (call : List Char × List Char) :
    call ∈ fire st h.value jobs_count
      ↔ ¬ (jobs_count = 0 ∧ st.force = false)
        ∧ call = (default_scheme h.event, hooks h.value) := by
  unfold fire
  simp only [List.mem_filterMap, List.mem_filter, decide_eq_true_eq, handle_hook,
    real_handle_hooks, Option.ite_none_left_eq_some, Option.some.injEq]
  constructor
  · rintro ⟨h', ⟨hmem', hvalue⟩, hjobs, rfl⟩
    obtain rfl := hooks_h_value_inj h' (hreg h' hmem') h (hreg h hmem) hvalue
    exact ⟨hjobs, rfl⟩
  · rintro ⟨hjobs, rfl⟩
    exact ⟨h, ⟨hmem, rfl⟩, hjobs, rfl⟩

/-- **When the configured patterns are those used**: for a configuration that is
accepted, if and only if no event has a last pattern that differs from its default. -/
theorem zint_patterns_iff {env : init_env} {on : on_config} {st : zint_state}
    (hinit : pkg_plugin_init env on = (st, .EPKG_OK)) :
    (∀ h ∈ st.registered, ∀ jobs_count, ∀ call ∈ fire st h.value jobs_count,
        call.1 = configured on h.event)
      ↔ ∀ h ∈ hooks_h, ∀ pattern, last_pattern on.items h.event = some pattern →
        pattern = default_scheme h.event := by
  have hloop := init_on_loop hinit
  have hreg : ∀ h ∈ st.registered, h ∈ hooks_h := by
    intro h hmem
    rcases (hloop.registered h).mp hmem with hnil | ⟨item, -, hnamed⟩
    · exact absurd hnil (by simp)
    · exact (named_eq_some hnamed).1
  constructor
  · -- an event with a pattern is registered, and fires when there is a job
    intro hall h hmem pattern hpattern
    have hnamed : named (some h.event, pattern) = some h := named_of_mem hmem rfl
    have hin : h ∈ st.registered := (hloop.registered h).mpr
      (Or.inr ⟨_, exists_of_last_pattern hpattern, hnamed⟩)
    have hcall := (mem_fire hreg hin 1 (default_scheme h.event, hooks h.value)).mpr
      ⟨by simp, rfl⟩
    have hscheme := hall h hin 1 _ hcall
    rw [configured, hpattern, Option.getD_some] at hscheme
    exact hscheme.symm
  · intro hcond h hin jobs_count call hcall
    obtain ⟨-, rfl⟩ := (mem_fire hreg hin jobs_count call).mp hcall
    rw [configured]
    cases hlast : last_pattern on.items h.event with
    | none => rfl
    | some pattern => exact (hcond h (hreg h hin) pattern hlast).symm

/-- An initialization in which everything else succeeds. -/
def init_succeeds : init_env := ⟨true, false, true, .EPKG_OK, fun _ _ => .EPKG_OK⟩

/-- The default value of ON. -/
def default_on : on_config :=
  .array ["pre_upgrade".toList, "pre_deinstall".toList, "pre_autoremove".toList]

/-- It hands on the default patterns. -/
theorem default_on_patterns :
    ∃ st, pkg_plugin_init init_succeeds default_on = (st, .EPKG_OK)
      ∧ ∀ h ∈ st.registered, ∀ jobs_count, ∀ call ∈ fire st h.value jobs_count,
        call.1 = configured default_on h.event := by
  have hstatus : (pkg_plugin_init init_succeeds default_on).2 = .EPKG_OK := by decide
  have hinit : pkg_plugin_init init_succeeds default_on
      = ((pkg_plugin_init init_succeeds default_on).1, .EPKG_OK) := Prod.ext rfl hstatus
  refine ⟨_, hinit, (zint_patterns_iff hinit).mpr (fun h _ pattern hpattern => ?_)⟩
  exact absurd (exists_of_last_pattern hpattern) (by simp [default_on, on_config.items])

/-- A pattern for `pre_upgrade`. -/
def upgrade_on : on_config :=
  .object [("pre_upgrade".toList, "zint_upgrade_%Y-%m-%d-%H:%i:%s".toList)]

/-- It is in the table, but the handler hands on the default. -/
theorem upgrade_on_ignored :
    ∃ st, pkg_plugin_init init_succeeds upgrade_on = (st, .EPKG_OK)
      ∧ st.registered.map HOOK.event = ["pre_upgrade".toList]
      ∧ configured upgrade_on "pre_upgrade".toList = "zint_upgrade_%Y-%m-%d-%H:%i:%s".toList
      ∧ (fire st .PKG_PLUGIN_HOOK_PRE_UPGRADE 1).map Prod.fst = ["pkg_pre_upgrade_%F_%T".toList] :=
  ⟨_, rfl, by decide, by decide, by decide⟩

end PkgPlugins.ZintHooks
