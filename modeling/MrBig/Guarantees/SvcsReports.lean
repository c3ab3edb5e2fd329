import MrBig.Guarantees.SvcsConfig

/-!
# The services status of every configured machine

Reports for other machines come about while the configured services are compared with the
list of Windows. Where there is no list, only the report of the agent's own machine is sent.
-/

set_option autoImplicit false

namespace MrBig.Guarantees.SvcsReports
open Library Library.KeyedList Source Source.Svcs SvcsConfig

/-- The machine as the scan of a line has left it. -/
def lineMachine [CLibrary] (b : Text) : Text :=
  if Quoted b then ((strtok b.tail ['"']).elim [] fun token => (scanStatus token.2).2.2)
  else (scanService b).2.2.2

/-- The machine that a line names, under the name that reports go by. -/
def namedMachine [CLibrary] (b : Text) : Option Text :=
  if Comment b ∨ lineMachine b = [] then none else some (reportMachine [] (lineMachine b))

/-- The state of the last service of the name, 0 where none is listed. -/
def stateOf (services : List ServiceStatus) (mode : CfgMode) (name : Text) : Int :=
  (latest (fun service => folded (service.name mode)) (folded name) services).elim 0
    fun service => service.dwCurrentState

/-- One services status for the agent's machine and one for each other machine named, and
green means that the services configured for the machine were listed as expected. -/
structure Reported [CLibrary] (mrmachine : Text) (lines : List Text) (manager : ServiceManager)
    (sent : List Report) : Prop where
  once : (sent.map Report.machine).Nodup
  machines : ∀ machine, machine ∈ sent.map Report.machine ↔
    machine = mrmachine ∨ ∃ line ∈ lines, namedMachine line = some machine
  test : ∀ r ∈ sent, r.test = "svcs".toList
  green : ∀ r ∈ sent, r.color = green →
    ∃ more services, manager = .opened more (some services) ∧
      ∀ cfg, readSvccfg mrmachine lines = some cfg → ∀ svc ∈ cfg.scfg, svc.machine = r.machine →
        stateOf services cfg.mode svc.name = svc.status

/-- The service manager gives a list with a service on it. -/
def Lists (manager : ServiceManager) : Prop :=
  ∃ more service rest, manager = .opened more (some (service :: rest))

/-! ### The machines of the section -/

theorem reportMachine_of_ne_nil {mrmachine machine : Text} (named : machine ≠ []) :
    reportMachine mrmachine machine = reportMachine [] machine := by
  have size := List.length_pos_of_ne_nil named
  unfold reportMachine
  rw [if_pos size, if_pos size]

/-- The entry of a line is for the machine that the line names, or for the agent's. -/
theorem entry_machine [CLibrary] {mrmachine b : Text} {n : Int} {r : LineResult}
    (result : svccfgLine mrmachine n b = some r) {machine : Text} (other : machine ≠ mrmachine) :
    (∃ svc ∈ r.entry, svc.machine = machine) ↔ namedMachine b = some machine := by
  have entered : ∀ svc, ¬ Comment b → r.entry = some svc →
      svc.machine = reportMachine mrmachine (lineMachine b) →
      ((∃ svc ∈ r.entry, svc.machine = machine) ↔ namedMachine b = some machine) := by
    intro svc line same concerns
    rw [same]
    unfold namedMachine
    by_cases named : lineMachine b = []
    · rw [if_pos (Or.inr named)]
      rw [named] at concerns
      simpa [concerns, reportMachine] using other.symm
    · rw [if_neg (not_or.mpr ⟨line, named⟩), ← reportMachine_of_ne_nil named, ← concerns]
      simp
  by_cases comment : Comment b
  · rw [svccfgLine_comment mrmachine comment] at result
    obtain rfl := Option.some.inj result
    simp [namedMachine, comment]
  by_cases quoted : Quoted b
  · rw [svccfgLine_quoted mrmachine quoted] at result
    obtain ⟨⟨token, rest⟩, found, rfl⟩ := Option.map_eq_some_iff.mp result
    refine entered _ comment rfl ?_
    have assigned : lineMachine b = (scanStatus rest).2.2 := by
      rw [lineMachine, if_pos quoted, found]
      rfl
    have scanned : (if rest = [] then (n, 0, []) else scanStatus rest).2.2 =
        (scanStatus rest).2.2 := by
      by_cases nothing : rest = []
      · subst nothing
        rfl
      · rw [if_neg nothing]
    rw [assigned, ← scanned]
  · have assigned : lineMachine b = (scanService b).2.2.2 := if_neg quoted
    rw [svccfgLine_unquoted mrmachine comment quoted] at result
    dsimp only at result
    by_cases read : (scanService b).1 < 1
    · rw [if_pos read] at result
      obtain rfl := Option.some.inj result
      have blank : Blank b := by
        by_contra word
        have counts := (scanService_counts b).mpr word
        omega
      have nothing : lineMachine b = [] := by
        rw [assigned, scanService, scanWord_eq_none_iff.mpr blank]
      simp [namedMachine, nothing]
    · rw [if_neg read] at result
      obtain rfl := Option.some.inj result
      refine entered _ comment rfl ?_
      rw [assigned]

theorem scfg_machines [CLibrary] {mrmachine : Text} {lines : List Text} {cfg : SvccfgState}
    (read : readSvccfg mrmachine lines = some cfg) {machine : Text}
    (other : machine ≠ mrmachine) :
    (∃ svc ∈ cfg.scfg, svc.machine = machine) ↔
      ∃ line ∈ lines, namedMachine line = some machine := by
  induction lines using List.reverseRecOn generalizing cfg with
  | nil =>
    obtain rfl := Option.some.inj read
    simp
  | append_singleton lines line ih =>
    rw [readSvccfg_concat] at read
    obtain ⟨s, earlier, step⟩ := Option.bind_eq_some_iff.mp read
    obtain ⟨r, result, same⟩ := Option.bind_eq_some_iff.mp step
    obtain rfl := Option.some.inj same
    have here := entry_machine result other
    have before := ih earlier
    simp only [List.mem_append, List.mem_singleton, or_and_right, exists_or, exists_eq_left,
      ← before, ← here]
    rw [or_comm]
    simp

/-! ### The list of services -/

/-- The status under a name, up to case; 0 for a name that is not there. -/
def statusOf (slist : List Listed) (name : Text) : Int :=
  (find Listed.key (folded name) slist).elim 0 Listed.status

theorem lookupSvcname_status (slist : List Listed) (p : Text) :
    (lookupSvcname slist p).2.status = statusOf slist p := by
  unfold lookupSvcname statusOf
  cases find Listed.key (folded p) slist <;> rfl

/-- A name that is looked up is entered with what it counted for before. -/
theorem statusOf_lookupSvcname (slist : List Listed) (p name : Text) :
    statusOf (lookupSvcname slist p).1 name = statusOf slist name := by
  unfold lookupSvcname statusOf
  cases found : find Listed.key (folded p) slist with
  | some sl => rfl
  | none =>
    by_cases same : folded p = folded name
    · rw [← same, found]
      simp [find, Listed.key]
    · rw [find_cons_of_ne slist same]

theorem listService_enter (mode : CfgMode) (slist : List Listed) (service : ServiceStatus) :
    listService mode slist service =
      enter Listed.key (folded (service.name mode)) ⟨service.name mode, 0⟩
        (fun sl => { sl with status := service.dwCurrentState }) slist := by
  unfold listService lookupSvcname enter
  dsimp only
  cases find Listed.key (folded (service.name mode)) slist <;> rfl

theorem statusOf_listService (mode : CfgMode) (slist : List Listed) (service : ServiceStatus)
    (name : Text) :
    statusOf (listService mode slist service) name =
      if folded (service.name mode) = folded name then (service.dwCurrentState : Int)
      else statusOf slist name := by
  have keeps : ∀ sl : Listed, sl.key = folded (service.name mode) →
      Listed.key { sl with status := service.dwCurrentState } = folded (service.name mode) :=
    fun _ same => same
  unfold statusOf
  rw [listService_enter]
  by_cases same : folded (service.name mode) = folded name
  · rw [if_pos same, ← same, find_enter_self keeps (by rfl)]
    rfl
  · rw [if_neg same, find_enter_of_ne keeps (by rfl) (Ne.symm same)]

theorem statusOf_services (services : List ServiceStatus) (mode : CfgMode) (name : Text) :
    statusOf (services.foldl (listService mode) []) name = stateOf services mode name := by
  induction services using List.reverseRecOn with
  | nil => rfl
  | append_singleton services service ih =>
    rw [List.foldl_append, List.foldl_cons, List.foldl_nil, statusOf_listService, ih, stateOf,
      stateOf, latest_concat]
    split <;> rfl

/-! ### The reports -/

/-- What the loop over the configured services keeps. -/
structure Compared (mrmachine : Text) (state : Text → Int) (compared : List Svc)
    (s : List Listed × List SvcsReport) : Prop where
  listed : ∀ name, statusOf s.1 name = state name
  unique : KeysUnique SvcsReport.machine s.2
  machines : ∀ machine, machine ∈ s.2.map SvcsReport.machine ↔
    machine = mrmachine ∨ ∃ svc ∈ compared, svc.machine = machine
  green : ∀ machine rep, find SvcsReport.machine machine s.2 = some rep → rep.color = .green →
    ∀ svc ∈ compared, svc.machine = machine → state svc.name = svc.status

theorem compareService_eq (s : List Listed × List SvcsReport) (pc : Svc) :
    ∃ printed, compareService s pc = ((lookupSvcname s.1 pc.name).1,
      enter SvcsReport.machine pc.machine ⟨[], pc.machine, .green⟩
        (SvcsReport.append printed
          (if statusOf s.1 pc.name ≠ pc.status then .red else .green)) s.2) := by
  rw [← lookupSvcname_status]
  unfold compareService enter
  cases find SvcsReport.machine pc.machine s.2 <;> exact ⟨_, rfl⟩

theorem append_color_green {printed : Text} {mycolor : Color} {rep : SvcsReport}
    (green : (rep.append printed mycolor).color = .green) :
    mycolor = .green ∧ rep.color = .green := by
  unfold SvcsReport.append at green
  dsimp only at green
  split at green
  next => cases green
  next good => exact ⟨not_not.mp good, green⟩

theorem Compared.step {mrmachine : Text} {state : Text → Int} {compared : List Svc}
    {s : List Listed × List SvcsReport} (inv : Compared mrmachine state compared s) (pc : Svc) :
    Compared mrmachine state (compared ++ [pc]) (compareService s pc) := by
  obtain ⟨printed, same⟩ := compareService_eq s pc
  have keeps : ∀ mycolor (rep : SvcsReport), rep.machine = pc.machine →
      (rep.append printed mycolor).machine = pc.machine := fun _ _ same => same
  rw [same]
  constructor
  · intro name
    rw [statusOf_lookupSvcname]
    exact inv.listed name
  · exact inv.unique.enter (keeps _) (by rfl)
  · intro machine
    rw [mem_keys_enter (keeps _) (by rfl), inv.machines]
    simp only [List.mem_append, List.mem_singleton, or_and_right, exists_or, exists_eq_left]
    rw [eq_comm (a := machine) (b := pc.machine), or_left_comm]
    exact or_congr_right (or_comm)
  · intro machine rep found green svc member concerns
    by_cases here : machine = pc.machine
    · subst here
      dsimp only at found
      rw [find_enter_self (keeps _) (by rfl)] at found
      obtain rfl := Option.some.inj found
      obtain ⟨expected, before⟩ := append_color_green green
      rcases List.mem_append.mp member with old | new
      · cases earlier : find SvcsReport.machine pc.machine s.2 with
        | none =>
          have known := (inv.machines pc.machine).mpr (Or.inr ⟨svc, old, concerns⟩)
          exact absurd known (find_eq_none_iff.mp earlier)
        | some rep =>
          rw [earlier] at before
          exact inv.green _ rep earlier before svc old concerns
      · obtain rfl := List.mem_singleton.mp new
        rw [← inv.listed]
        by_contra different
        rw [if_pos different] at expected
        cases expected
    · dsimp only at found
      rw [find_enter_of_ne (keeps _) (by rfl) here] at found
      rcases List.mem_append.mp member with old | new
      · exact inv.green machine rep found green svc old concerns
      · obtain rfl := List.mem_singleton.mp new
        exact absurd concerns.symm here

theorem compared_run {mrmachine : Text} {state : Text → Int} {s : List Listed × List SvcsReport}
    (inv : Compared mrmachine state [] s) (scfg : List Svc) :
    Compared mrmachine state scfg (scfg.foldl compareService s) := by
  induction scfg using List.reverseRecOn with
  | nil => exact inv
  | append_singleton scfg pc ih =>
    rw [List.foldl_append]
    exact ih.step pc

theorem firstReport_machine (mrmachine : Text) (mode : CfgMode) :
    (firstReport mrmachine mode).machine = mrmachine := by
  unfold firstReport
  split <;> rfl

/-- With a list, the reports are those of the comparison. -/
theorem serviceReports_of_services (mrmachine : Text) (cfg : SvccfgState) (more : List Nat)
    (service : ServiceStatus) (rest : List ServiceStatus) :
    ∃ slist, Compared mrmachine (stateOf (service :: rest) cfg.mode) cfg.scfg
      (slist, (serviceReports mrmachine cfg (.opened more (some (service :: rest)))).1) := by
  have start : Compared mrmachine (stateOf (service :: rest) cfg.mode) []
      ((service :: rest).foldl (listService cfg.mode) [], [firstReport mrmachine cfg.mode]) := by
    constructor
    · exact statusOf_services (service :: rest) cfg.mode
    · exact List.nodup_singleton _
    · intro machine
      simp [firstReport_machine]
    · intro machine rep found green svc member
      cases member
  exact ⟨_, compared_run start cfg.scfg⟩

/-- Without one, the agent's machine is red. -/
theorem serviceReports_of_not_lists (mrmachine : Text) (cfg : SvccfgState)
    {manager : ServiceManager} (silent : ¬ Lists manager) :
    ∃ text, (serviceReports mrmachine cfg manager).1 =
      [(firstReport mrmachine cfg.mode).append text .red] := by
  cases manager with
  | closed => exact ⟨_, rfl⟩
  | opened more last =>
    cases last with
    | none => exact ⟨_, rfl⟩
    | some services =>
      cases services with
      | nil => exact ⟨_, rfl⟩
      | cons service rest => exact absurd ⟨more, service, rest, rfl⟩ silent

/-- The call of `mrsend` for a report of a test. -/
def sentAs (test : Text) (message : SvcsReport → Text) (rep : SvcsReport) : Report :=
  ⟨rep.machine, test, rep.color.text, message rep⟩

theorem svcs_eq [CLibrary] {options : List Text} (mrmachine : Text) (conf : List Config)
    (now : Text)
    (manager : ServiceManager) (noOption : getOption options "no_svcs".toList false = none) :
    ∃ message : SvccfgState → SvcsReport → Text, svcs options mrmachine conf now manager =
      (readSvccfg mrmachine (svcsLines conf)).map fun cfg =>
        (serviceReports mrmachine cfg manager).1.map (sentAs "svcs".toList (message cfg)) := by
  refine ⟨fun cfg rep =>
    let listed := (serviceReports mrmachine cfg manager).2
    let running := listed.1.countP fun service => service.dwCurrentState = serviceRunning
    snprcat [] 5000 (now ++ "\n\n".toList ++ rep.str ++
      legend listed.1.length running listed.2), ?_⟩
  unfold svcs
  rw [if_neg (not_not.mpr noOption)]
  cases readSvccfg mrmachine (svcsLines conf) <;> rfl

theorem color_text_green {color : Color} : color.text = green ↔ color = .green := by
  cases color <;> decide

section Sent

variable {mrmachine : Text} {lines : List Text} {cfg : SvccfgState}

theorem sent_machines (message : SvcsReport → Text) (preports : List SvcsReport) :
    (preports.map (sentAs "svcs".toList message)).map Report.machine =
      preports.map SvcsReport.machine := by
  rw [List.map_map]
  rfl

theorem reported_of_compared [CLibrary] (read : readSvccfg mrmachine lines = some cfg)
    (more : List Nat) {services : List ServiceStatus} {slist : List Listed}
    {preports : List SvcsReport}
    (compared : Compared mrmachine (stateOf services cfg.mode) cfg.scfg (slist, preports))
    (message : SvcsReport → Text) :
    Reported mrmachine lines (.opened more (some services))
      (preports.map (sentAs "svcs".toList message)) := by
  constructor
  · rw [sent_machines]
    exact compared.unique
  · intro machine
    rw [sent_machines, compared.machines]
    by_cases own : machine = mrmachine
    · simp [own]
    · rw [scfg_machines read own]
  · intro r member
    obtain ⟨rep, -, rfl⟩ := List.mem_map.mp member
    rfl
  · intro r member green
    obtain ⟨rep, inside, rfl⟩ := List.mem_map.mp member
    refine ⟨more, services, rfl, fun cfg' read' svc configured concerns => ?_⟩
    obtain rfl := Option.some.inj (read.symm.trans read')
    exact compared.green rep.machine rep (compared.unique.find_of_mem inside)
      (color_text_green.mp green) svc configured concerns

/-- The one report that is sent without a list is red. -/
theorem reported_red_iff [CLibrary] (manager : ServiceManager) {rep : SvcsReport}
    (own : rep.machine = mrmachine) (red : rep.color = .red) (message : SvcsReport → Text) :
    Reported mrmachine lines manager ([rep].map (sentAs "svcs".toList message)) ↔
      ∀ line ∈ lines, ∀ machine, namedMachine line = some machine → machine = mrmachine := by
  have machines : ([rep].map (sentAs "svcs".toList message)).map Report.machine = [mrmachine] := by
    rw [sent_machines, List.map_singleton, own]
  constructor
  · intro reported line member machine named
    have known := (reported.machines machine).mpr (Or.inr ⟨line, member, named⟩)
    rw [machines] at known
    exact List.mem_singleton.mp known
  · intro alone
    constructor
    · rw [machines]
      exact List.nodup_singleton _
    · intro machine
      rw [machines, List.mem_singleton]
      constructor
      · exact Or.inl
      · rintro (same | ⟨line, member, named⟩)
        · exact same
        · exact alone line member machine named
    · intro r member
      obtain rfl := List.mem_singleton.mp member
      rfl
    · intro r member good
      obtain rfl := List.mem_singleton.mp member
      have contra := red.symm.trans (color_text_green.mp good)
      cases contra

end Sent

end MrBig.Guarantees.SvcsReports
