/-
Which services are to be stopped or restarted, and what became of them: the
selection (`plugins/services/services_selection.c`, up to
`services_selection_destroy`) and the result (`plugins/services/services_result.c`).

A selection maps the name of a service to its flags and to what to do with it.
The flags only grow; the action is that of the last addition, whichever function
made it.
-/
import PkgPlugins.AssocTable
import Mathlib.Data.List.Induction
import Mathlib.Logic.Function.Basic

set_option autoImplicit false

namespace PkgPlugins.ServicesSelection

open PkgPlugins.AssocTable

/-! ## The selection -/

inductive service_action_t
  | SERVICE_ACTION_NONE
  | SERVICE_ACTION_STOP
  | SERVICE_ACTION_RESTART
deriving DecidableEq, Repr

def SERVICE_FLAG_DIRECT : UInt32 := (1 : UInt32) <<< 0

def SERVICE_FLAG_BLOCKED : UInt32 := (1 : UInt32) <<< 1

def HAS_FLAG (value flag : UInt32) : Bool := value &&& flag != 0

theorem HAS_FLAG_or (a b flag : UInt32) :
    HAS_FLAG (a ||| b) flag = (HAS_FLAG a flag || HAS_FLAG b flag) := by
  have hdist : (a ||| b) &&& flag = (a &&& flag) ||| (b &&& flag) := by
    rw [← UInt32.toBitVec_inj]
    exact BitVec.and_or_distrib_right
  unfold HAS_FLAG
  rw [hdist, Bool.eq_iff_iff, Bool.or_eq_true, bne_iff_ne, bne_iff_ne, bne_iff_ne, Ne,
    UInt32.or_eq_zero_iff, not_and_or]

structure service_data_t where
  flags : UInt32
  name : List Char
  action : service_action_t
deriving DecidableEq

/-- Whether a service was blocked. -/
def service_data_t.blocked (sd : service_data_t) : Bool := HAS_FLAG sd.flags SERVICE_FLAG_BLOCKED

def value_create (name : List Char) (action : service_action_t) (flags : UInt32) :
    service_data_t :=
  ⟨flags, name, action⟩

abbrev services_selection_t := Table (List Char) service_data_t

def services_selection_create : services_selection_t := Table.empty

def services_selection_add (ss : services_selection_t) (name : List Char)
    (action : service_action_t) (flags : UInt32) : services_selection_t :=
  match ss.get name with
  | none => ss.putNew name (value_create name action flags)
  | some sd => ss.put name { sd with flags := sd.flags ||| flags, action := action }

def services_selection_block (ss : services_selection_t) (name : List Char) :
    services_selection_t :=
  services_selection_add ss name .SERVICE_ACTION_NONE SERVICE_FLAG_BLOCKED

def services_selection_add_direct (ss : services_selection_t) (name : List Char)
    (action : service_action_t) : services_selection_t :=
  services_selection_add ss name action SERVICE_FLAG_DIRECT

def services_selection_add_rdep (ss : services_selection_t) (name : List Char)
    (action : service_action_t) : services_selection_t :=
  services_selection_add ss name action 0

def services_selection_contains (ss : services_selection_t) (name : List Char) : Bool :=
  ss.contains name

/-- An addition puts the new value under its name, whether it is there or not. -/
theorem services_selection_add_eq (ss : services_selection_t) (name : List Char)
    (action : service_action_t) (flags : UInt32) :
    services_selection_add ss name action flags
      = ss.put name (match ss.get name with
          | none => ⟨flags, name, action⟩
          | some sd => ⟨sd.flags ||| flags, sd.name, action⟩) := by
  unfold services_selection_add
  cases hget : ss.get name with
  | none =>
      rw [Table.putNew_of_notMem _ ((ss.get_eq_none_iff name).mp hget)]
      rfl
  | some sd => rfl

/-! ## Selections that were built -/

/-- The actions that are asked for. -/
abbrev requested_action_t := { a : service_action_t // a ≠ .SERVICE_ACTION_NONE }

def requested_action_t.stop : requested_action_t := ⟨.SERVICE_ACTION_STOP, by simp⟩

def requested_action_t.restart : requested_action_t := ⟨.SERVICE_ACTION_RESTART, by simp⟩

/-- A call on a selection. -/
inductive selection_call
  | block (name : List Char)
  | add_direct (name : List Char) (action : requested_action_t)
  | add_rdep (name : List Char) (action : requested_action_t)
deriving DecidableEq

def selection_call.name : selection_call → List Char
  | .block name => name
  | .add_direct name _ => name
  | .add_rdep name _ => name

def selection_call.action : selection_call → service_action_t
  | .block _ => .SERVICE_ACTION_NONE
  | .add_direct _ action => action
  | .add_rdep _ action => action

def selection_call.flags : selection_call → UInt32
  | .block _ => SERVICE_FLAG_BLOCKED
  | .add_direct _ _ => SERVICE_FLAG_DIRECT
  | .add_rdep _ _ => 0

def selection_call.run (ss : services_selection_t) : selection_call → services_selection_t
  | .block name => services_selection_block ss name
  | .add_direct name action => services_selection_add_direct ss name action
  | .add_rdep name action => services_selection_add_rdep ss name action

theorem selection_call.run_eq (ss : services_selection_t) (c : selection_call) :
    c.run ss = services_selection_add ss c.name c.action c.flags := by
  cases c <;> rfl

/-- The selection a sequence of calls builds. -/
def build (cs : List selection_call) : services_selection_t :=
  cs.foldl selection_call.run services_selection_create

/-- The action of the last call for a name. -/
def last_action (cs : List selection_call) (name : List Char) : Option service_action_t :=
  ((cs.filter (fun c => c.name = name)).getLast?).map selection_call.action

theorem build_concat (cs : List selection_call) (c : selection_call) :
    build (cs ++ [c]) = services_selection_add (build cs) c.name c.action c.flags := by
  rw [build, List.foldl_append, List.foldl_cons, List.foldl_nil, selection_call.run_eq, build]

theorem last_action_concat (cs : List selection_call) (c : selection_call) (name : List Char) :
    last_action (cs ++ [c]) name
      = if c.name = name then some c.action else last_action cs name := by
  unfold last_action
  rw [List.filter_append]
  by_cases h : c.name = name
  · simp [h]
  · simp [h]

/-- What is recorded of a name: the name itself, the action of the last call, and
whether it was ever blocked. -/
structure Recorded (cs : List selection_call) (n : List Char) (sd : service_data_t) : Prop where
  name : sd.name = n
  action : last_action cs n = some sd.action
  blocked : HAS_FLAG sd.flags SERVICE_FLAG_BLOCKED = true ↔ selection_call.block n ∈ cs

/-- A call blocks the name it is for just if it is a `services_selection_block`. -/
theorem selection_call.flags_blocked (c : selection_call) :
    HAS_FLAG c.flags SERVICE_FLAG_BLOCKED = true ↔ c = .block c.name := by
  cases c with
  | block name =>
      have hflag : HAS_FLAG SERVICE_FLAG_BLOCKED SERVICE_FLAG_BLOCKED = true := by decide
      exact iff_of_true hflag rfl
  | add_direct name action =>
      have hflag : ¬ HAS_FLAG SERVICE_FLAG_DIRECT SERVICE_FLAG_BLOCKED = true := by decide
      exact iff_of_false hflag (by simp)
  | add_rdep name action =>
      have hflag : ¬ HAS_FLAG 0 SERVICE_FLAG_BLOCKED = true := by decide
      exact iff_of_false hflag (by simp)

theorem block_mem_concat (cs : List selection_call) (c : selection_call) :
    selection_call.block c.name ∈ cs ++ [c]
      ↔ selection_call.block c.name ∈ cs ∨ HAS_FLAG c.flags SERVICE_FLAG_BLOCKED = true := by
  rw [List.mem_append, List.mem_singleton, c.flags_blocked]
  exact or_congr_right eq_comm

/-- **A selection records the calls that built it.** -/
theorem build_get (cs : List selection_call) (name : List Char) :
    (∀ sd, (build cs).get name = some sd → Recorded cs name sd)
      ∧ ((build cs).get name = none → ∀ c ∈ cs, c.name ≠ name) := by
  induction cs using List.reverseRecOn with
  | nil => simp [build, services_selection_create]
  | append_singleton cs c ih =>
      rw [build_concat, services_selection_add_eq, Table.get_put]
      by_cases hname : name = c.name
      · subst hname
        rw [if_pos rfl]
        refine ⟨fun sd hsd => ?_, fun hnone => absurd hnone (by simp)⟩
        rw [Option.some.injEq] at hsd
        -- the last action counts, and a block is never taken back
        cases hget : (build cs).get c.name with
        | none =>
            rw [hget] at hsd
            refine ⟨by rw [← hsd], by rw [last_action_concat, if_pos rfl, ← hsd], ?_⟩
            have hnew : selection_call.block c.name ∉ cs := fun hmem => ih.2 hget _ hmem rfl
            rw [block_mem_concat, ← hsd, or_iff_right hnew]
        | some old =>
            rw [hget] at hsd
            have hold := ih.1 old hget
            refine ⟨by rw [← hsd, ← hold.name], by rw [last_action_concat, if_pos rfl, ← hsd], ?_⟩
            rw [block_mem_concat, ← hold.blocked, ← hsd, HAS_FLAG_or, Bool.or_eq_true]
      · rw [if_neg hname]
        have hne : c.name ≠ name := fun h => hname h.symm
        refine ⟨fun sd hsd => ?_, fun hnone c' hc' => ?_⟩
        · have hold := ih.1 sd hsd
          refine ⟨hold.name, by rw [last_action_concat, if_neg hne]; exact hold.action, ?_⟩
          rw [hold.blocked, List.mem_append, List.mem_singleton, or_iff_left]
          rintro rfl
          exact hne rfl
        · rcases List.mem_append.mp hc' with hc' | hc'
          · exact ih.2 hnone c' hc'
          · rw [List.mem_singleton.mp hc']
            exact hne

/-- The last call for a name is one of the calls. -/
theorem exists_of_last_action {cs : List selection_call} {name : List Char}
    {a : service_action_t} (h : last_action cs name = some a) :
    ∃ c, (c ∈ cs ∧ c.name = name) ∧ c.action = a := by
  rw [last_action, Option.map_eq_some_iff] at h
  obtain ⟨c, hc, haction⟩ := h
  have hmem := List.mem_filter.mp (List.mem_of_getLast? hc)
  exact ⟨c, ⟨hmem.1, of_decide_eq_true hmem.2⟩, haction⟩

/-- An entry without an action was blocked. -/
theorem Recorded.blocked_of_none {cs : List selection_call} {name : List Char}
    {sd : service_data_t} (h : Recorded cs name sd) (hnone : sd.action = .SERVICE_ACTION_NONE) :
    HAS_FLAG sd.flags SERVICE_FLAG_BLOCKED = true := by
  obtain ⟨c, ⟨hmem, hname⟩, haction⟩ := exists_of_last_action (hnone ▸ h.action)
  rw [h.blocked]
  cases c with
  | block name' => exact hname ▸ hmem
  | add_direct name' action => exact absurd haction action.property
  | add_rdep name' action => exact absurd haction action.property

/-! ## The result -/

inductive service_status_t
  | SERVICES_RESULT_FAILED
  | SERVICES_RESULT_BLOCKED
  | SERVICES_RESULT_SUCCESS
  | SERVICES_RESULT_PROBING_FAILED
deriving DecidableEq, Repr

/-- `lists[2][SERVICES_RESULT_COUNT]`. -/
structure services_result_t where
  lists : Fin 2 → service_status_t → List (List Char)

def services_result_create : services_result_t := ⟨fun _ _ => []⟩

/-- `action - 1`, for an action that has lists. -/
def service_action_t.index : service_action_t → Option (Fin 2)
  | .SERVICE_ACTION_NONE => none
  | .SERVICE_ACTION_STOP => some 0
  | .SERVICE_ACTION_RESTART => some 1

def services_result_add (sr : services_result_t) (name : List Char) (action : service_action_t)
    (status : service_status_t) : services_result_t :=
  match action.index with
  | none => sr
  | some i => ⟨Function.update sr.lists i
      (Function.update (sr.lists i) status (sr.lists i status ++ [name]))⟩

/-- What is added to a result. -/
structure report_t where
  sd : service_data_t
  status : service_status_t
deriving DecidableEq

def report_t.add (sr : services_result_t) (r : report_t) : services_result_t :=
  services_result_add sr r.sd.name r.sd.action r.status

/-- The reports of one status on several services. -/
def reports (status : service_status_t) (sds : List service_data_t) : List report_t :=
  sds.map (fun sd => ⟨sd, status⟩)

/-- Whether a report goes to a list. -/
def report_t.goes (r : report_t) (i : Fin 2) (status : service_status_t) : Bool :=
  r.sd.action.index = some i ∧ r.status = status

/-- **Each list has the reports that go to it, in order.** -/
theorem lists_foldl_add (rs : List report_t) (i : Fin 2) (status : service_status_t) :
    ∀ sr : services_result_t, (rs.foldl report_t.add sr).lists i status
      = sr.lists i status ++ (rs.filter (fun r => r.goes i status)).map (fun r => r.sd.name) := by
  induction rs with
  | nil => intro sr; simp
  | cons r rs ih =>
      intro sr
      rw [List.foldl_cons, ih, report_t.add, services_result_add]
      cases hindex : r.sd.action.index with
      | none => simp [report_t.goes, hindex]
      | some j =>
          by_cases hj : i = j
          · subst hj
            by_cases hs : status = r.status
            · subst hs
              simp [report_t.goes, hindex]
            · have hs' : ¬ r.status = status := fun h => hs h.symm
              simp [report_t.goes, hindex, hs, hs']
          · have hj' : ¬ j = i := fun h => hj h.symm
            simp [report_t.goes, hindex, hj, hj']

theorem mem_lists_foldl_add (rs : List report_t) (i : Fin 2) (status : service_status_t)
    (name : List Char) : name ∈ (rs.foldl report_t.add services_result_create).lists i status
      ↔ ∃ r ∈ rs, r.sd.action.index = some i ∧ r.status = status ∧ r.sd.name = name := by
  have hlists : (rs.foldl report_t.add services_result_create).lists i status
      = (rs.filter (fun r => r.goes i status)).map (fun r => r.sd.name) := by
    rw [lists_foldl_add]
    rfl
  rw [hlists, List.mem_map]
  simp only [List.mem_filter, report_t.goes, decide_eq_true_eq, and_assoc]

/-- A result in which no name occurs twice, neither in one of the eight lists nor
in two. -/
structure Unrepeated (sr : services_result_t) : Prop where
  nodup : ∀ i status, (sr.lists i status).Nodup
  once : ∀ i status i' status' name, name ∈ sr.lists i status → name ∈ sr.lists i' status' →
    i = i' ∧ status = status'

/-- Reports on different names make a result without repetitions. -/
theorem unrepeated_of_nodup {rs : List report_t} (h : (rs.map (fun r => r.sd.name)).Nodup) :
    Unrepeated (rs.foldl report_t.add services_result_create) := by
  have hinj := List.inj_on_of_nodup_map h
  refine ⟨fun i status => ?_, fun i status i' status' name hmem hmem' => ?_⟩
  · rw [lists_foldl_add]
    exact h.sublist (List.filter_sublist.map _)
  · rw [mem_lists_foldl_add] at hmem hmem'
    obtain ⟨r, hr, hindex, hstatus, hname⟩ := hmem
    obtain ⟨r', hr', hindex', hstatus', hname'⟩ := hmem'
    have heq : r = r' := hinj hr hr' (hname.trans hname'.symm)
    subst heq
    exact ⟨Option.some.inj (hindex.symm.trans hindex'), hstatus.symm.trans hstatus'⟩

end PkgPlugins.ServicesSelection
