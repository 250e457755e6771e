/-
The summary that the services plugin prints (`print_services_result_summary`,
`plugins/services/plugin_services.c`).

The names of a list are joined in a buffer on the stack, byte by byte as in BufferJoin, but
with a separator of two bytes and with an end of the string there from the start. So the
buffer holds a string whatever happens, and the start of the joined names if they are too
long.
-/
import PkgPlugins.BufferJoin
import PkgPlugins.Fallible
import PkgPlugins.ServicesHandle

set_option autoImplicit false

namespace PkgPlugins.ServicesSummary

open PkgPlugins.Libc PkgPlugins.AssocTable PkgPlugins.EventLoop PkgPlugins.ProcessMonitor
  PkgPlugins.BufferJoin PkgPlugins.ServicesSelection PkgPlugins.ServicesHandle

/-! ## The functions -/

/-- `results_description[i][status]` -/
def results_description : Fin 2 → service_status_t → List Char
  | 0, .SERVICES_RESULT_FAILED => "services failing to stop".toList
  | 0, .SERVICES_RESULT_BLOCKED => "services not stopped due to blocklist".toList
  | 0, .SERVICES_RESULT_SUCCESS => "services successfully stopped".toList
  | 0, .SERVICES_RESULT_PROBING_FAILED => "services failing to probe".toList
  | 1, .SERVICES_RESULT_FAILED => "services failing to restart".toList
  | 1, .SERVICES_RESULT_BLOCKED => "services not restarted due to blocklist".toList
  | 1, .SERVICES_RESULT_SUCCESS => "services successfully restarted".toList
  | 1, .SERVICES_RESULT_PROBING_FAILED => "services failing to probe".toList

/-- `", "` -/
def separator : List Char := [',', ' ']

/-- The separator, where `w != buffer`. -/
def separate (buffer : List Char) (w : ℕ) : Except Fault (List Char × Option ℕ) :=
  if w ≠ 0 then stpcpy_sp buffer w separator else return (buffer, some w)

/-- The loop of `print_services_result_details`: the bytes of the buffer. -/
def details_loop (buffer : List Char) (w : ℕ) : List (List Char) → Except Fault (List Char)
  | [] => return buffer
  | name :: names => do
      let (buffer, w) ← separate buffer w
      match w with
      | none => return buffer
      | some w =>
          let (buffer, w) ← stpcpy_sp buffer w name
          match w with
          | none => return buffer
          | some w => details_loop buffer w names

/-- The string that starts at the first byte of a buffer. -/
def string_at (buffer : List Char) : List Char := buffer.takeWhile (· ≠ NUL)

/-- `print_services_result_details`: what goes to `pkg_plugin_info`. `i` is `action - 1`, and
`buffer` has the bytes that are on the stack. -/
def print_services_result_details (names : List (List Char)) (i : Fin 2)
    (status : service_status_t) (buffer : List Char) : Except Fault (List (List Char)) := do
  let buffer ← write buffer 0 NUL
  let buffer ← details_loop buffer 0 names
  let c ← read buffer 0
  if NUL ≠ c then return [results_description i status ++ ": ".toList ++ string_at buffer]
  else return []

/-- `SERVICES_RESULT_FAILED` and so on, in the order of the enumeration. -/
def statuses : List service_status_t :=
  [.SERVICES_RESULT_FAILED, .SERVICES_RESULT_BLOCKED, .SERVICES_RESULT_SUCCESS,
    .SERVICES_RESULT_PROBING_FAILED]

/-- The loop of `print_services_result_helper`; `stack` has the bytes at each call. -/
def helper_loop (sr : services_result_t) (i : Fin 2) (stack : service_status_t → List Char) :
    List service_status_t → Except Fault (List (List Char))
  | [] => return []
  | status :: rest => do
      let line ← print_services_result_details (sr.lists i status) i status (stack status)
      let lines ← helper_loop sr i stack rest
      return line ++ lines

def print_services_result_helper (sr : services_result_t) (i : Fin 2)
    (stack : service_status_t → List Char) : Except Fault (List (List Char)) :=
  helper_loop sr i stack statuses

/-- `SERVICE_ACTION_STOP - 1` -/
def stop_index : Fin 2 := ⟨0, Nat.zero_lt_two⟩

/-- `SERVICE_ACTION_RESTART - 1` -/
def restart_index : Fin 2 := ⟨1, Nat.one_lt_two⟩

/-- `print_services_result_summary`: first what was stopped, then what was restarted. -/
def print_services_result_summary (sr : services_result_t)
    (stack : Fin 2 → service_status_t → List Char) : Except Fault (List (List Char)) := do
  let stopped ← print_services_result_helper sr stop_index (stack stop_index)
  let restarted ← print_services_result_helper sr restart_index (stack restart_index)
  return stopped ++ restarted

/-- `char buffer[8192]` -/
def BUFFER_SIZE : ℕ := 8192

/-! ## What the loop aims at -/

def separated (w : List Char) : List Char := if w ≠ [] then w ++ separator else w

/-- The text with all the names. -/
def aim : List Char → List (List Char) → List Char
  | w, [] => w
  | w, name :: names => aim (separated w ++ name) names

theorem aim_start (names : List (List Char)) : ∀ w : List Char, w <+: aim w names := by
  induction names with
  | nil => exact fun w => List.prefix_refl w
  | cons name names ih =>
      intro w
      have hsep : w <+: separated w := by
        unfold separated
        split_ifs
        · exact List.prefix_append w separator
        · exact List.prefix_refl w
      exact hsep.trans ((List.prefix_append _ name).trans (ih _))

theorem intercalate_append (u name : List Char) (names : List (List Char)) :
    separator.intercalate ((u ++ name) :: names)
      = u ++ separator.intercalate (name :: names) := by
  cases names with
  | nil => rw [List.intercalate_singleton, List.intercalate_singleton]
  | cons next names =>
      rw [List.intercalate_cons_cons, List.intercalate_cons_cons]
      simp only [List.append_assoc]

/-- Once there is some text, every name comes after a separator. -/
theorem aim_eq (names : List (List Char)) : ∀ {w : List Char}, w ≠ [] →
    aim w names = separator.intercalate (w :: names) := by
  induction names with
  | nil => exact fun _ => List.intercalate_singleton.symm
  | cons name names ih =>
      intro w hw
      have hne : w ++ separator ++ name ≠ [] := by simp [hw]
      rw [aim, separated, if_pos hw, ih hne, intercalate_append, List.intercalate_cons_cons]

theorem aim_nil {names : List (List Char)} (hne : ∀ name ∈ names, name ≠ []) :
    aim [] names = separator.intercalate names := by
  cases names with
  | nil => rfl
  | cons name names =>
      rw [aim, separated, if_neg (by simp), List.nil_append]
      exact aim_eq names (hne name List.mem_cons_self)

/-! ## The loop -/

/-- A copy that is done, or that fills the buffer with the start of the text. -/
theorem copy_or_fill {buffer w junk s : List Char} (h : At buffer w junk) (hs : NUL ∉ s) :
    (∃ buffer' junk', stpcpy_sp buffer w.length s = .ok (buffer', some (w ++ s).length)
        ∧ At buffer' (w ++ s) junk' ∧ junk'.head? = some NUL ∧ buffer'.length = buffer.length)
      ∨ buffer.length - 1 ≤ (w ++ s).length
        ∧ stpcpy_sp buffer w.length s
          = .ok ((w ++ s).take (buffer.length - 1) ++ [NUL], none) := by
  rcases copy_spec h hs with ⟨-, hdone⟩ | ⟨hfits, hfull⟩
  · exact Or.inl hdone
  · refine Or.inr ⟨?_, hfull⟩
    rw [List.length_append]
    by_contra hlt
    exact hfits ⟨by omega, by omega⟩

/-- What is left in a buffer that was filled. -/
theorem holds_full {t text : List Char} {n : ℕ} (hstart : t <+: text) (hlen : n ≤ t.length)
    (hnul : NUL ∉ text) : Holds (t.take n ++ [NUL]) (text.take n) := by
  rw [take_of_start hstart hlen]
  exact ⟨fun hmem => hnul (List.mem_of_mem_take hmem), [], rfl⟩

/-- The separator is written where one is due, or what there is room for. -/
theorem separate_spec {buffer w junk : List Char} (h : At buffer w junk) :
    (∃ buffer' junk', separate buffer w.length = .ok (buffer', some (separated w).length)
        ∧ At buffer' (separated w) junk' ∧ buffer'.length = buffer.length)
      ∨ buffer.length - 1 ≤ (separated w).length
        ∧ separate buffer w.length
          = .ok ((separated w).take (buffer.length - 1) ++ [NUL], none) := by
  have hnil : w.length ≠ 0 ↔ w ≠ [] := List.length_eq_zero_iff.not
  unfold separate separated
  by_cases hw : w ≠ []
  · have hsep : NUL ∉ separator := by decide
    rw [if_pos (hnil.mpr hw), if_pos hw]
    obtain ⟨buffer', junk', hrun, hat, -, hlen⟩ | hfull := copy_or_fill h hsep
    · exact Or.inl ⟨buffer', junk', hrun, hat, hlen⟩
    · exact Or.inr hfull
  · rw [if_neg (mt hnil.mp hw), if_neg hw]
    exact Or.inl ⟨buffer, junk, rfl, h, rfl⟩

/-- **The loop** leaves the start of the text in the buffer, all of it if there is room. -/
theorem details_loop_spec (names : List (List Char)) :
    ∀ {buffer w junk : List Char}, NUL ∉ aim w names → (∀ name ∈ names, NUL ∉ name) →
      At buffer w junk → junk.head? = some NUL →
      ∃ buffer', details_loop buffer w.length names = .ok buffer'
        ∧ Holds buffer' ((aim w names).take (buffer.length - 1)) := by
  induction names with
  | nil =>
      intro buffer w junk hw _ h hhead
      obtain ⟨rest, rfl⟩ : ∃ rest, junk = NUL :: rest := List.head?_eq_some_iff.mp hhead
      refine ⟨buffer, rfl, ?_⟩
      have hlen : w.length ≤ buffer.length - 1 := by
        rw [h.split, List.length_append, List.length_cons]
        omega
      rw [aim, List.take_of_length_le hlen]
      exact ⟨hw, rest, h.split⟩
  | cons name names ih =>
      intro buffer w junk hnul hnames h hhead
      rw [List.forall_mem_cons] at hnames
      have hstart : separated w ++ name <+: aim w (name :: names) := aim_start names _
      rw [details_loop]
      obtain ⟨buffer1, junk1, hrun1, h1, hlen1⟩ | ⟨hlong, hrun1⟩ := separate_spec h
      · rw [hrun1, ← hlen1]
        simp only [bind, Except.bind]
        obtain ⟨buffer2, junk2, hrun2, h2, hhead2, hlen2⟩ | ⟨hlong, hrun2⟩ :=
          copy_or_fill h1 hnames.1
        · -- the name is copied, and the rest is up to the next turns
          rw [hrun2, ← hlen2]
          exact ih hnul hnames.2 h2 hhead2
        · rw [hrun2]
          exact ⟨_, rfl, holds_full hstart hlong hnul⟩
      · rw [hrun1]
        exact ⟨_, rfl, holds_full ((List.prefix_append _ name).trans hstart) hlong hnul⟩

/-! ## What is printed -/

/-- The list `status` of `action`, as far as there is room for it. -/
def line (sr : services_result_t) (i : Fin 2) (status : service_status_t) : List Char :=
  results_description i status ++ ": ".toList
    ++ (separator.intercalate (sr.lists i status)).take (BUFFER_SIZE - 1)

/-- A line for each list that isn't empty, in the order of the enumeration. -/
def lines (sr : services_result_t) (i : Fin 2) : List (List Char) :=
  (statuses.filter fun status => sr.lists i status ≠ []).map (line sr i)

/-- The names are strings, and none of them is empty. -/
def Named (sr : services_result_t) : Prop :=
  ∀ i status, ∀ name ∈ sr.lists i status, name ≠ [] ∧ NUL ∉ name

theorem string_at_of_holds {buffer text : List Char} (h : Holds buffer text) :
    string_at buffer = text := by
  obtain ⟨hnul, rest, rfl⟩ := h
  unfold string_at
  rw [List.takeWhile_append_of_pos]
  · simp
  · intro c hc
    rw [decide_eq_true_eq]
    rintro rfl
    exact hnul hc

/-- The first byte tells if there is any text. -/
theorem read_first {buffer text : List Char} (h : Holds buffer text) :
    ∃ c, read buffer 0 = .ok c ∧ (NUL ≠ c ↔ text ≠ []) := by
  obtain ⟨hnul, rest, rfl⟩ := h
  cases text with
  | nil => exact ⟨NUL, read_append [] rest NUL, by simp⟩
  | cons c text =>
      rw [List.mem_cons, not_or] at hnul
      exact ⟨c, read_append [] (text ++ NUL :: rest) c, by simp [hnul.1]⟩

/-- Names that aren't empty leave some text. -/
theorem take_intercalate_ne_nil {names : List (List Char)} (hne : ∀ name ∈ names, name ≠ []) :
    (separator.intercalate names).take (BUFFER_SIZE - 1) ≠ [] ↔ names ≠ [] := by
  cases names with
  | nil => simp
  | cons name names =>
      have hname : name ≠ [] := hne name List.mem_cons_self
      have hstart : name <+: separator.intercalate (name :: names) := by
        rw [← aim_eq names hname]
        exact aim_start names name
      have hpos := List.length_pos_iff.mpr hname
      have hle := hstart.length_le
      have htext : (separator.intercalate (name :: names)).take (BUFFER_SIZE - 1) ≠ [] := by
        rw [← List.length_pos_iff, List.length_take, BUFFER_SIZE]
        omega
      exact iff_of_true htext (List.cons_ne_nil name names)

theorem notMem_intercalate {names : List (List Char)} (h : ∀ name ∈ names, NUL ∉ name) :
    NUL ∉ separator.intercalate names := by
  induction names with
  | nil => simp
  | cons name names ih =>
      rw [List.forall_mem_cons] at h
      cases names with
      | nil =>
          rw [List.intercalate_singleton]
          exact h.1
      | cons next names =>
          have hsep : NUL ∉ separator := by decide
          rw [List.intercalate_cons_cons, List.mem_append, List.mem_append]
          rintro ((hmem | hmem) | hmem)
          · exact h.1 hmem
          · exact hsep hmem
          · exact ih h.2 hmem

/-- **One list** is a line, unless it is empty. -/
theorem print_services_result_details_spec {names : List (List Char)} (i : Fin 2)
    (status : service_status_t) {buffer : List Char}
    (hnames : ∀ name ∈ names, name ≠ [] ∧ NUL ∉ name) (hlen : buffer.length = BUFFER_SIZE) :
    print_services_result_details names i status buffer
      = .ok (if names ≠ [] then
          [results_description i status ++ ": ".toList
            ++ (separator.intercalate names).take (BUFFER_SIZE - 1)]
        else []) := by
  have hnul : ∀ name ∈ names, NUL ∉ name := fun name hmem => (hnames name hmem).2
  have haim : aim [] names = separator.intercalate names :=
    aim_nil fun name hmem => (hnames name hmem).1
  -- the empty string is in the buffer, whatever was there
  obtain ⟨c, junk, rfl⟩ : ∃ c junk, buffer = c :: junk := by
    apply List.exists_cons_of_length_pos
    rw [hlen]
    decide
  have hat : At (NUL :: junk) [] (NUL :: junk) := by
    refine ⟨rfl, List.cons_ne_nil _ _, fun hne => absurd rfl hne, ?_⟩
    rw [List.length_cons] at hlen ⊢
    rw [hlen]
    decide
  obtain ⟨buffer, hloop, hholds⟩ :=
    details_loop_spec names (haim ▸ notMem_intercalate hnul) hnul hat rfl
  have hsize : (NUL :: junk).length = BUFFER_SIZE := by simpa using hlen
  rw [haim, hsize] at hholds
  have hwrite : write (c :: junk) 0 NUL = .ok (NUL :: junk) := write_append [] junk c NUL
  unfold print_services_result_details
  rw [hwrite]
  simp only [bind, Except.bind]
  rw [show details_loop (NUL :: junk) 0 names = .ok buffer from hloop]
  obtain ⟨c', hread, hfirst⟩ := read_first hholds
  rw [take_intercalate_ne_nil fun name hmem => (hnames name hmem).1] at hfirst
  simp only [hread, string_at_of_holds hholds]
  by_cases hempty : names ≠ []
  · rw [if_pos (hfirst.mpr hempty), if_pos hempty]
    rfl
  · rw [if_neg (mt hfirst.mp hempty), if_neg hempty]
    rfl

theorem helper_loop_spec {sr : services_result_t} (hsr : Named sr) (i : Fin 2)
    {stack : service_status_t → List Char} (hstack : ∀ status, (stack status).length = BUFFER_SIZE)
    (rest : List service_status_t) :
    helper_loop sr i stack rest
      = .ok ((rest.filter fun status => sr.lists i status ≠ []).map (line sr i)) := by
  induction rest with
  | nil => rfl
  | cons status rest ih =>
      rw [helper_loop,
        print_services_result_details_spec i status (hsr i status) (hstack status), ih]
      simp only [bind, Except.bind, List.filter_cons]
      by_cases hempty : sr.lists i status ≠ []
      · simp [hempty, line, pure, Except.pure]
      · simp [hempty, pure, Except.pure]

/-- **The summary**: whatever is on the stack, no byte is written out of the buffer, and there
is one line for each list with a name in it, first of what was stopped and then of what was
restarted. It has all the names of the list, or as many bytes of them as the buffer. -/
theorem print_services_result_summary_lines {sr : services_result_t} (hsr : Named sr)
    {stack : Fin 2 → service_status_t → List Char}
    (hstack : ∀ i status, (stack i status).length = BUFFER_SIZE) :
    print_services_result_summary sr stack
      = .ok (lines sr stop_index ++ lines sr restart_index) := by
  unfold print_services_result_summary print_services_result_helper
  rw [helper_loop_spec hsr _ (hstack _), helper_loop_spec hsr _ (hstack _)]
  rfl

/-! ## What is printed of a run -/

section Handled

variable {cs : List selection_call} {env : handle_env}
  {forked entered blocked : List service_data_t}
  {w : world_t handle_acc service_data_t} {acted entered' : List service_data_t}

/-- A report is on a service of the selection, with the status `BLOCKED` just if the service
is blocked. -/
theorem report_of_selection {ss : services_selection_t}
    (hp : Probed ss env forked entered blocked) (ha : Acted ss env w acted entered')
    {r : report_t} (hr : r ∈ all_reports ss env blocked w) :
    r.sd ∈ ss.values ∧ (r.status = .SERVICES_RESULT_BLOCKED ↔ r.sd.blocked = true) := by
  have hacted : ∀ sd ∈ acted, sd ∈ ss.values ∧ sd.blocked = false := by
    intro sd hsd
    obtain ⟨hvalue, hblocked, -⟩ := hp.mem_enabled (ha.acted.subset hsd)
    exact ⟨hvalue, hblocked⟩
  unfold all_reports reports at hr
  rw [List.mem_append, List.mem_append, List.mem_append] at hr
  rcases hr with ((hr | hr) | hr) | hr
  · obtain ⟨sd, hsd, rfl⟩ := List.mem_map.mp hr
    have hvalue := List.mem_filter.mp (hp.blocked.subset hsd)
    exact ⟨hvalue.1, iff_of_true rfl hvalue.2⟩
  · obtain ⟨sd, hsd, rfl⟩ := List.mem_map.mp hr
    obtain ⟨hvalue, hblocked⟩ := hp.mem_hanging hsd
    exact ⟨hvalue, iff_of_false (by simp) (by simp [hblocked])⟩
  · obtain ⟨d, hd, rfl⟩ := List.mem_map.mp hr
    obtain ⟨hvalue, hblocked⟩ := hacted _ (ha.verdict hd).1
    refine ⟨hvalue, iff_of_false ?_ (by simp [ServicesHandle.verdict, hblocked])⟩
    unfold ServicesHandle.verdict
    split_ifs <;> simp
  · obtain ⟨sd, hsd, rfl⟩ := List.mem_map.mp hr
    obtain ⟨hvalue, hblocked⟩ := hacted _ (ha.mem_hanging hsd)
    exact ⟨hvalue, iff_of_false (by simp) (by simp [hblocked])⟩

end Handled

end PkgPlugins.ServicesSummary
