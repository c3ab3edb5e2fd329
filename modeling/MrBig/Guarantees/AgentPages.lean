import MrBig.Guarantees.ClientSections
import MrBig.Guarantees.PageRefresh
import MrBig.Guarantees.ProcsReports
import MrBig.Guarantees.SvcsReports
import MrBig.Source.Agent

/-!
# The pages of the agent stay fresh

Each pass reports each of the six pages of the agent's own machine once, whatever Windows answers
and whatever is configured. With that the bound of the main loop on the age of a page holds for
every run of the agent.
-/

set_option autoImplicit false

namespace MrBig.Guarantees.AgentPages
open Library Source Source.Agent PageRefresh

def Report.pair (r : Report) : Pair := (r.machine, r.test)

/-- The tests with a page for the agent's own machine. -/
def ownTests : List Text :=
  ["cpu".toList, "disk".toList, "memory".toList, "msgs".toList, "procs".toList, "svcs".toList]

/-- One report for each of some machines, the agent's own among them. -/
structure OncePerMachine (mrmachine test : Text) (reports : List Report) : Prop where
  test : ∀ r ∈ reports, r.test = test
  unique : (reports.map Report.machine).Nodup
  own : mrmachine ∈ reports.map Report.machine

/-! ### One test -/

theorem cpu_pair {setup : Setup} {s : Settings} {now : Text} {load load' : Cpu.LoadState}
    {o : CpuMemory.CpuAnswers} {r : Report}
    (returned : CpuMemory.cpu setup.build setup.bytes setup.timeBits s now load o =
      some (load', r)) : Report.pair r = (s.mrmachine, "cpu".toList) := by
  unfold CpuMemory.cpu at returned
  split at returned
  next =>
    cases returned
    rfl
  next =>
    obtain ⟨ut, -, returned⟩ := Option.bind_eq_some_iff.mp returned
    obtain ⟨uc, -, returned⟩ := Option.bind_eq_some_iff.mp returned
    split at returned
    next =>
      cases returned
      rfl
    next version =>
      obtain ⟨⟨load'', answer⟩, -, returned⟩ := Option.bind_eq_some_iff.mp returned
      cases returned
      rfl

theorem disk_pair (setup : Setup) (conf : List Config) (s : Settings) (x : Answers) :
    Report.pair (Disk.diskTest setup.double setup.diskScan conf s x.drives x.drive x.now) =
      (s.mrmachine, "disk".toList) := by
  unfold Disk.diskTest Disk.disk
  dsimp only
  split <;> rfl

theorem memory_pair (setup : Setup) (s : Settings) (now : Text) (statex : CpuMemory.MemoryStatus) :
    Report.pair (CpuMemory.memory setup.double s now statex) =
      (s.mrmachine, "memory".toList) := by
  unfold CpuMemory.memory
  dsimp only
  split <;> rfl

/-- A pass of `msgs` that is not cut short has its report. -/
theorem msgsPass_report (fastmsgsfile : Text) (files : FileSys) (input : MsgsInput)
    (conf : List Config) :
    (msgsPass fastmsgsfile files ⟨input, conf, none⟩).2.report =
      some (msgs (input.lookForFile fastmsgsfile files) conf) := by
  unfold msgsPass
  dsimp only
  split <;> rfl

theorem msgs_pair {setup : Setup} {s : Settings} {x : Answers} {w w' : World} {r : Report}
    (returned : msgsTest setup s x w = some (w', r)) :
    Report.pair r = (s.mrmachine, "msgs".toList) := by
  unfold msgsTest at returned
  obtain ⟨v, -, returned⟩ := Option.bind_eq_some_iff.mp returned
  dsimp only at returned
  rw [msgsPass_report] at returned
  obtain ⟨report, output, returned⟩ := Option.bind_eq_some_iff.mp returned
  cases output
  cases returned
  unfold msgs
  split <;> rfl

theorem procs_once (options : List Text) (mrmachine : Text) (conf : List Config) (now : Text)
    (processes : Procs.Processes) :
    OncePerMachine mrmachine "procs".toList
      (Procs.procs options mrmachine conf now processes) := by
  by_cases off : getOption options "no_procs".toList false = none
  · have reports := @ProcsReports.procs_eq options mrmachine conf now processes _ off
    dsimp only at reports
    rw [reports]
    refine ⟨?_, ?_, ?_⟩
    · intro r inside
      obtain ⟨rep, -, rfl⟩ := List.mem_map.mp inside
      rfl
    · rw [List.map_map]
      exact ProcsReports.reportEntries_unique _ _ _
    · rw [List.map_map]
      exact (ProcsReports.reportEntries_machines _ _ _ mrmachine).mpr (Or.inl rfl)
  · unfold Procs.procs
    rw [if_pos off]
    exact ⟨by simp, List.nodup_singleton _, List.mem_singleton_self _⟩

theorem svcs_once {options : List Text} {mrmachine : Text} {conf : List Config} {now : Text}
    {manager : Svcs.ServiceManager} {reports : List Report}
    (returned : Svcs.svcs options mrmachine conf now manager = some reports) :
    OncePerMachine mrmachine "svcs".toList reports := by
  by_cases off : getOption options "no_svcs".toList false = none
  · obtain ⟨message, same⟩ := SvcsReports.svcs_eq mrmachine conf now manager off
    rw [same] at returned
    obtain ⟨cfg, read, rfl⟩ := Option.map_eq_some_iff.mp returned
    have test : ∀ r ∈ (Svcs.serviceReports mrmachine cfg manager).1.map
        (SvcsReports.sentAs "svcs".toList (message cfg)), r.test = "svcs".toList := by
      intro r inside
      obtain ⟨rep, -, rfl⟩ := List.mem_map.mp inside
      rfl
    by_cases lists : SvcsReports.Lists manager
    · obtain ⟨more, service, rest, rfl⟩ := lists
      obtain ⟨slist, compared⟩ :=
        SvcsReports.serviceReports_of_services mrmachine cfg more service rest
      refine ⟨test, ?_, ?_⟩
      · rw [SvcsReports.sent_machines]
        exact compared.unique
      · rw [SvcsReports.sent_machines]
        exact (compared.machines mrmachine).mpr (Or.inl rfl)
    · obtain ⟨text, alone⟩ := SvcsReports.serviceReports_of_not_lists mrmachine cfg lists
      have machines : ((Svcs.serviceReports mrmachine cfg manager).1.map
          (SvcsReports.sentAs "svcs".toList (message cfg))).map Report.machine = [mrmachine] := by
        rw [SvcsReports.sent_machines, alone, List.map_singleton]
        exact congrArg (fun m => [m]) (SvcsReports.firstReport_machine mrmachine cfg.mode)
      refine ⟨test, ?_, ?_⟩
      · rw [machines]
        exact List.nodup_singleton _
      · rw [machines]
        exact List.mem_singleton_self _
  · unfold Svcs.svcs at returned
    rw [if_pos off] at returned
    cases returned
    exact ⟨by simp, List.nodup_singleton _, List.mem_singleton_self _⟩

/-! ### One pass -/

/-- The six pages, each once, in front of what WMI and other programs report. -/
structure Paged (done : Done) : Prop where
  cpu : Report.pair done.cpu = (done.settings.mrmachine, "cpu".toList)
  disk : Report.pair done.disk = (done.settings.mrmachine, "disk".toList)
  memory : Report.pair done.memory = (done.settings.mrmachine, "memory".toList)
  msgs : Report.pair done.msgs = (done.settings.mrmachine, "msgs".toList)
  procs : OncePerMachine done.settings.mrmachine "procs".toList done.procs
  svcs : OncePerMachine done.settings.mrmachine "svcs".toList done.svcs
  configured : ∃ opens conf s, done.settings = readcfg opens conf s

theorem pass_paged {setup : Setup} {a a' : State} {x : Answers} {done : Done}
    (returned : Agent.pass setup a x = some (a', done)) : Paged done := by
  unfold Agent.pass at returned
  obtain ⟨w, -, returned⟩ := Option.bind_eq_some_iff.mp returned
  dsimp only at returned
  obtain ⟨client, -, returned⟩ := Option.bind_eq_some_iff.mp returned
  obtain ⟨⟨load, cpu⟩, cpuReport, returned⟩ := Option.bind_eq_some_iff.mp returned
  obtain ⟨w₁, -, returned⟩ := Option.bind_eq_some_iff.mp returned
  obtain ⟨⟨w₂, msgs⟩, msgsReport, returned⟩ := Option.bind_eq_some_iff.mp returned
  obtain ⟨w₃, -, returned⟩ := Option.bind_eq_some_iff.mp returned
  obtain ⟨w₄, -, returned⟩ := Option.bind_eq_some_iff.mp returned
  obtain ⟨svcs, svcsReports, returned⟩ := Option.bind_eq_some_iff.mp returned
  obtain ⟨⟨w₅, pickup, ext⟩, -, returned⟩ := Option.bind_eq_some_iff.mp returned
  cases returned
  exact ⟨cpu_pair cpuReport, disk_pair setup _ _ x, memory_pair setup _ _ _, msgs_pair msgsReport,
    procs_once _ _ _ _ _, svcs_once svcsReports, x.opens, w.conf, a.settings, rfl⟩

theorem run_paged {setup : Setup} {a a' : State} {xs : List Answers} {dones : List Done}
    (ran : run setup a xs = some (a', dones)) : ∀ done ∈ dones, Paged done := by
  induction xs generalizing a dones with
  | nil =>
    cases ran
    exact List.forall_mem_nil _
  | cons x rest ih =>
    obtain ⟨⟨b, done⟩, returned, ran⟩ := Option.bind_eq_some_iff.mp ran
    obtain ⟨⟨b', later⟩, behind, ran⟩ := Option.bind_eq_some_iff.mp ran
    cases ran
    exact List.forall_mem_cons.mpr ⟨pass_paged returned, ih behind⟩

/-- The reports of the tests that the agent has for its own machine. -/
def ownReports (done : Done) : List Report :=
  [done.cpu, done.disk, done.memory, done.msgs] ++ done.procs ++ done.svcs

theorem OncePerMachine.pairs {mrmachine test : Text} {reports : List Report}
    (once : OncePerMachine mrmachine test reports) :
    reports.map Report.pair = (reports.map Report.machine).map fun machine => (machine, test) := by
  rw [List.map_map]
  apply List.map_congr_left
  intro r inside
  exact congrArg (Prod.mk r.machine) (once.test r inside)

theorem OncePerMachine.unique_pairs {mrmachine test : Text} {reports : List Report}
    (once : OncePerMachine mrmachine test reports) : (reports.map Report.pair).Nodup := by
  rw [once.pairs]
  exact once.unique.map fun m m' same => congrArg Prod.fst same

theorem OncePerMachine.own_pair {mrmachine test : Text} {reports : List Report}
    (once : OncePerMachine mrmachine test reports) :
    (mrmachine, test) ∈ reports.map Report.pair := by
  rw [once.pairs]
  exact List.mem_map_of_mem once.own

theorem OncePerMachine.test_of_mem {mrmachine test : Text} {reports : List Report}
    (once : OncePerMachine mrmachine test reports) {p : Pair}
    (inside : p ∈ reports.map Report.pair) : p.2 = test := by
  obtain ⟨r, member, rfl⟩ := List.mem_map.mp inside
  exact once.test r member

/-- The tests with a single report. -/
def singleTests : List Text := ["cpu".toList, "disk".toList, "memory".toList, "msgs".toList]

theorem Paged.single {done : Done} (paged : Paged done) :
    [done.cpu, done.disk, done.memory, done.msgs].map Report.pair =
      singleTests.map (Prod.mk done.settings.mrmachine) := by
  simp only [List.map_cons, List.map_nil, paged.cpu, paged.disk, paged.memory, paged.msgs,
    singleTests]

/-- No two of these reports are for one page, and every page is among them. -/
theorem Paged.own_pages {done : Done} (paged : Paged done) :
    ((ownReports done).map Report.pair).Nodup ∧
      ∀ test ∈ ownTests, (done.settings.mrmachine, test) ∈ (ownReports done).map Report.pair := by
  have single : (singleTests.map (Prod.mk done.settings.mrmachine)).Nodup := by
    have tests : singleTests.Nodup := by decide
    exact tests.map fun t t' same => congrArg Prod.snd same
  have singleTest : ∀ q ∈ singleTests.map (Prod.mk done.settings.mrmachine),
      q.2 ∈ singleTests := by
    intro q inside
    obtain ⟨t, member, rfl⟩ := List.mem_map.mp inside
    exact member
  have procsApart : "procs".toList ∉ singleTests := by decide
  have svcsApart : "svcs".toList ∉ singleTests := by decide
  have apart : "procs".toList ≠ "svcs".toList := by decide
  have pages : (ownReports done).map Report.pair =
      singleTests.map (Prod.mk done.settings.mrmachine) ++ done.procs.map Report.pair ++
        done.svcs.map Report.pair := by
    rw [ownReports, List.map_append, List.map_append, paged.single]
  rw [pages]
  constructor
  · refine List.nodup_append.mpr ⟨List.nodup_append.mpr ⟨single, paged.procs.unique_pairs, ?_⟩,
      paged.svcs.unique_pairs, ?_⟩
    · rintro q inside _ inside' rfl
      have test := singleTest q inside
      rw [paged.procs.test_of_mem inside'] at test
      exact procsApart test
    · rintro q inside _ inside' rfl
      have last := paged.svcs.test_of_mem inside'
      rcases List.mem_append.mp inside with inside | inside
      · have test := singleTest q inside
        rw [last] at test
        exact svcsApart test
      · exact apart ((paged.procs.test_of_mem inside).symm.trans last)
  · intro test listed
    have split : test ∈ singleTests ∨ test = "procs".toList ∨ test = "svcs".toList := by
      simpa only [ownTests, singleTests, List.mem_cons, List.not_mem_nil, or_false, or_assoc]
        using listed
    rcases split with inside | rfl | rfl
    · exact List.mem_append_left _ (List.mem_append_left _ (List.mem_map_of_mem inside))
    · exact List.mem_append_left _ (List.mem_append_right _ paged.procs.own_pair)
    · exact List.mem_append_right _ paged.svcs.own_pair

/-- Neither a page of WMI nor a file in the pickup directory has the name of the page. -/
structure Owns (p : Pair) (done : Done) : Prop where
  machine : done.settings.mrmachine = p.1
  test : p.2 ∈ ownTests
  apart : ∀ r ∈ done.wmi ++ done.ext, Report.pair r ≠ p

theorem reports_once {p : Pair} {done : Done} (paged : Paged done) (owns : Owns p done) :
    (done.reports.map Report.pair).count p = 1 := by
  obtain ⟨unique, every⟩ := paged.own_pages
  have page : p = (done.settings.mrmachine, p.2) := Prod.ext owns.machine.symm rfl
  have inside : p ∈ (ownReports done).map Report.pair := by
    rw [page]
    exact every p.2 owns.test
  have others : p ∉ (done.wmi ++ done.ext).map Report.pair := by
    intro there
    obtain ⟨r, member, same⟩ := List.mem_map.mp there
    exact owns.apart r member same
  have split : done.reports = ownReports done ++ (done.wmi ++ done.ext) := by
    simp only [Done.reports, ownReports, List.append_assoc]
  rw [split, List.map_append, List.count_append, List.count_eq_one_of_mem unique inside,
    List.count_eq_zero_of_not_mem others]

/-- The calls are the reports, each at its own reading of the clock. -/
theorem call_once {p : Pair} {done : Done} (once : (done.reports.map Report.pair).count p = 1) :
    ∃ r i, i < done.reports.length ∧ callsOf p done.pass.calls = [done.call r i] := by
  have pairs : done.pass.calls.map Call.pair = done.reports.map Report.pair := by
    have first : done.reports.zipIdx.map Prod.fst = done.reports := List.zipIdx_map_fst 0 _
    calc done.pass.calls.map Call.pair
        = (done.reports.zipIdx.map Prod.fst).map Report.pair := by
          rw [List.map_map]
          exact List.map_map
      _ = done.reports.map Report.pair := by rw [first]
  have alone : (callsOf p done.pass.calls).length = 1 := by
    rw [← once, ← pairs, callsOf, List.count, List.countP_map, ← List.countP_eq_length_filter]
    exact List.countP_congr fun c _ => by simp
  obtain ⟨c, only⟩ := List.length_eq_one_iff.mp alone
  have member : c ∈ done.pass.calls := List.mem_of_mem_filter (only ▸ List.mem_singleton_self c)
  obtain ⟨⟨r, i⟩, inside, rfl⟩ := List.mem_map.mp member
  exact ⟨r, i, (List.mem_zipIdx' inside).1, only⟩

/-- A pass takes at most `length` seconds, and its clock does not go back. -/
structure OnTime (length : Int) (done : Done) : Prop where
  short : done.answers.t - done.answers.lastrun ≤ length
  forward : done.answers.lastrun ≤ done.answers.t
  isInt : Word.Fits 32 (done.settings.mrloop - (done.answers.t - done.answers.lastrun))
  within : ∀ i < done.reports.length,
    done.answers.lastrun ≤ done.answers.clock i ∧ done.answers.clock i ≤ done.answers.t

theorem reports_page {p : Pair} {length : Int} {done : Done} (paged : Paged done)
    (owns : Owns p done) (onTime : OnTime length done) : Reports p length done.pass := by
  obtain ⟨opens, conf, s, same⟩ := paged.configured
  obtain ⟨r, i, inside, only⟩ := call_once (reports_once paged owns)
  obtain ⟨begun, ended⟩ := onTime.within i inside
  refine ⟨⟨opens, conf, s, ?_, ?_⟩, onTime.forward, onTime.short, onTime.isInt, done.call r i, only,
    begun, ended, rfl⟩
  · exact congrArg Settings.mrloop same
  · exact congrArg Settings.mrsleep same

theorem reported_each_pass {p : Pair} {dones : List Done}
    (once : ∀ done ∈ dones, (done.reports.map Report.pair).count p = 1) :
    (reportTimes p ((dones.map Done.pass).flatMap Pass.calls)).length = dones.length := by
  rw [reportTimes, List.length_map, callsOf_flatMap]
  induction dones with
  | nil => rfl
  | cons done rest ih =>
    obtain ⟨r, i, -, only⟩ := call_once (once done List.mem_cons_self)
    have behind := ih fun d inside => once d (List.mem_cons_of_mem done inside)
    rw [List.map_cons, List.flatMap_cons, only, List.singleton_append, List.length_cons, behind,
      List.length_cons]

def quiet : Setup where
  build := ⟨"MrBig".toList, "0.26.3".toList, "x64".toList⟩
  bytes := fun n => printInt n.toNat
  timeBits := 64
  double := fun _ _ => []
  diskScan := fun _ => none
  ctime := fun _ => []
  cfgfile := "mrbig.cfg".toList
  streams := 512

/-- There is no configuration file. -/
def quietState : State where
  world := ⟨[], [], [], [], fun _ => ⟨false, false, false, false, false, false, none, 0, []⟩⟩
  settings := startup
  load := .start
  pickup := []

/-- A pass from `lastrun` to `t` that reports at its beginning. -/
def quietAnswers (lastrun t : Int) : Answers where
  opened := fun _ => 3
  stored := fun _ => 0
  opens := fun _ => false
  now := "now".toList
  memory := fun _ => nul
  mem := 0
  clientlog := ClientSections.unqueried
  cpu := ⟨⟨none, none, .null⟩, .null, none, none, ⟨0, 0, 0, 0, 0, 0, 0⟩, .null, lastrun⟩
  drives := 0
  drive := fun _ => ⟨false, none⟩
  statex := ⟨0, 0, 0, 0, 0, 0, 0⟩
  t0 := lastrun
  keys := []
  processes := ⟨[], false⟩
  manager := .closed
  execQuery := fun _ _ => none
  directory := []
  lastrun := lastrun
  t := t
  clock := fun _ => lastrun

def twoAnswers : List Answers := [quietAnswers 0 5, quietAnswers 300 304]

/-- What the passes have to say for themselves. -/
def Regular (done : Done) : Prop :=
  (done.settings.mrmachine = cpuPage.1 ∧ done.wmi ++ done.ext = []) ∧
    (done.answers.t - done.answers.lastrun ≤ 5 ∧ done.answers.lastrun ≤ done.answers.t ∧
      Word.Fits 32 (done.settings.mrloop - (done.answers.t - done.answers.lastrun)) ∧
      ∀ i < done.reports.length,
        done.answers.lastrun ≤ done.answers.clock i ∧ done.answers.clock i ≤ done.answers.t) ∧
    done.settings.mrsleep ≤ 300

instance : DecidablePred Regular := fun _ => instDecidableAnd

theorem two_run : (run quiet quietState twoAnswers).any (fun ran =>
    decide (∀ done ∈ ran.2, Regular done) &&
      decide (ran.2.map (fun done => (done.pass.slept, done.answers.lastrun, done.answers.t)) =
        [(295000, 0, 5), (296000, 300, 304)])) = true := by decide +kernel

end MrBig.Guarantees.AgentPages
