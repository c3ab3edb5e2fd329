import MrBig.Source.Clientlog
import MrBig.Source.CpuMemory
import MrBig.Source.Disk
import MrBig.Source.ExtTests
import MrBig.Source.FastMessages
import MrBig.Source.MainLoop
import MrBig.Source.Procs
import MrBig.Source.ReadCfg
import MrBig.Source.Wmi

/-!
# The agent

mrbig.c:1002-1066: a pass of the main loop with all its tests, from the configuration to the last
call of `mrsend`. A pass in which the agent ends or hangs has no result.
-/

set_option autoImplicit false

namespace MrBig.Source.Agent
open Library Cpu CpuMemory Disk Procs Svcs Wmi

variable [CLibrary]

def dirsep : Char := '\\'

/-- What does not change while the agent runs: the build, the formats for floating point, the file
that the loop reads, and how many streams the C runtime has. -/
structure Setup where
  build : Build
  bytes : UInt64 → Text
  timeBits : Nat
  double : PrintDouble
  diskScan : Text → Option DiskLimit
  ctime : Int → Text
  cfgfile : Text
  streams : Nat

/-- In the pickup directory: a program leaves a file, or `pickup` comes to one. -/
inductive DirAct where
  | drop (f : File)
  | pick (fn : Text) (fopen removes : Bool) (meanwhile : List File)

def DirAct.event (g : PickupGlobals) : DirAct → DirEvent
  | .drop f => .drop f
  | .pick fn fopen removes meanwhile => .pick g fn fopen removes meanwhile

/-- What a pass meets; `clock` is read by the calls of `mrsend` in their order, `malloc` answers
`mem` to clientlog, and when a file of configuration is read `opened` streams are taken and the
table of open files has `stored` entries. -/
structure Answers where
  opened : Text → Nat
  stored : Text → Nat
  opens : Text → Bool
  now : Text
  memory : Nat → Char
  mem : Nat
  clientlog : ClientlogOutcome
  cpu : CpuAnswers
  drives : Nat
  drive : Nat → DiskDrive
  statex : MemoryStatus
  t0 : Int
  keys : List (Option LogKey)
  processes : Processes
  manager : ServiceManager
  execQuery : Nat → Text → Option (List WmiObject)
  directory : List DirAct
  lastrun : Int
  t : Int
  clock : Nat → Int

/-- What outlives a pass, `teststatus` apart. -/
structure State where
  world : World
  settings : Settings
  load : LoadState
  pickup : FileSys

/-- A pass that has come to its end, with the reports of its tests. -/
structure Done where
  settings : Settings
  answers : Answers
  client : ClientlogEnd
  cpu : Report
  disk : Report
  memory : Report
  msgs : Report
  procs : List Report
  svcs : List Report
  wmi : List Report
  ext : List Report

/-! ### The tests -/

def cfgfileIn (s : Settings) (name : String) : Text :=
  snprcat [] 1024 (s.cfgdir ++ dirsep :: name.toList)

/-- `read_cfg` with the streams that are left: one call for each and one more. -/
def readFile (setup : Setup) (s : Settings) (x : Answers) (w : World) (cat filename : Text) :
    Option World :=
  (readCfgIn (setup.streams + 1) ⟨setup.streams, x.opened filename, s.debug, x.stored filename⟩ w
    cat filename).toOption

/-- A test that is switched off returns before it reads its file. -/
def readTestCfg (setup : Setup) (s : Settings) (x : Answers) (off cat name : String) (w : World) :
    Option World :=
  if getOption s.options off.toList false ≠ none then some w
  else readFile setup s x w cat.toList (cfgfileIn s name)

def msgsTest (setup : Setup) (s : Settings) (x : Answers) (w : World) :
    Option (World × Report) := do
  let w ← readTestCfg setup s x "no_msgs" "msgs" "msgs.cfg" w
  let input : MsgsInput :=
    ⟨s.options, s.mrmachine, s.msgage, x.now, x.t0, false, setup.ctime, x.keys⟩
  let (files, outcome) := msgsPass (cfgfileIn s "fastmsgs.cfg") w.files ⟨input, w.conf, none⟩
  let report ← outcome.report
  some ({ w with files := files }, report)

/-- `ext_tests` is called where there is a pickup directory. The commands that it runs are among
the programs that leave files. -/
def extTests (setup : Setup) (s : Settings) (x : Answers) (w : World) (pickup : FileSys) :
    Option (World × FileSys × List Report) :=
  if s.pickupdir = [] then some (w, pickup, [])
  else do
    let w ← readFile setup s x w "ext".toList (cfgfileIn s "ext.cfg")
    let g : PickupGlobals := ⟨s.options, s.mrmachine, x.now, s.reportSize.toNat⟩
    let events := x.directory.map (DirAct.event g)
    let picked := Run.outputs dirStep pickup events
    some (w, Run.final dirStep pickup events, picked.filterMap fun p => p.bind PickedUp.report)

/-! ### The main loop -/

/-- The body of the loop; `clear_cfg` at its end leaves no configuration. -/
def pass (setup : Setup) (a : State) (x : Answers) : Option (State × Done) := do
  let w ← readFile setup a.settings x a.world "mrbig".toList setup.cfgfile
  let s := readcfg x.opens w.conf a.settings
  let client ← clientlog x.memory x.mem s.mrmachine x.clientlog
  let (load, cpu) ← cpu setup.build setup.bytes setup.timeBits s x.now a.load x.cpu
  let w ← readTestCfg setup s x "no_disk" "disk" "disk.cfg" w
  let disk := diskTest setup.double setup.diskScan w.conf s x.drives x.drive x.now
  let memory := memory setup.double s x.now x.statex
  let (w, msgs) ← msgsTest setup s x w
  let w ← readTestCfg setup s x "no_procs" "procs" "procs.cfg" w
  let procs := procs s.options s.mrmachine w.conf x.now x.processes
  let w ← readTestCfg setup s x "no_svcs" "svcs" "services.cfg" w
  let svcs ← svcs s.options s.mrmachine w.conf x.now x.manager
  let wmi := (wmi s.options s.mrmachine w.conf x.execQuery).filterMap WmiOutput.sent
  let (w, pickup, ext) ← extTests setup s x w a.pickup
  some (⟨{ w with conf := [] }, s, load, pickup⟩,
    ⟨s, x, client, cpu, disk, memory, msgs, procs, svcs, wmi, ext⟩)

/-- One pass after the other. -/
def run (setup : Setup) : State → List Answers → Option (State × List Done)
  | a, [] => some (a, [])
  | a, x :: rest => do
    let (a, done) ← pass setup a x
    let (a, dones) ← run setup a rest
    some (a, done :: dones)

namespace Done

variable (done : Done)

/-- The reports in the order of the calls of `mrsend`. -/
def reports : List Report :=
  [done.cpu, done.disk, done.memory, done.msgs] ++ done.procs ++ done.svcs ++ done.wmi ++ done.ext

/-- The call of `mrsend` for a report. -/
def call (r : Report) (i : Nat) : Call :=
  ⟨r.machine, r.test, r.color, r.message, done.answers.clock i, done.settings.mrsleep,
    done.settings.gracetime, done.settings.reportSize.toNat⟩

/-- The pass as the main loop has it. -/
def pass : Pass :=
  ⟨done.settings.mrloop, done.settings.mrsleep, done.answers.lastrun, done.answers.t,
    done.reports.zipIdx.map fun r => done.call r.1 r.2⟩

end Done

end MrBig.Source.Agent
