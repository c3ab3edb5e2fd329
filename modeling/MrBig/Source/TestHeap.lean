import MrBig.Library.Blocks
import MrBig.Source.Procs
import MrBig.Source.Status

/-!
# The blocks of the processes and services tests

procs.c:98-193 and svcs.c:150-292 once more, with the blocks that they and what they call get from
`big_malloc` and `big_strdup`: cfg.c:13-44 and mrbig.c:599-722, 867-892. `address` is where each
block is; the program ends where there is none to be had. A call that frees a block which is not
live has no result. Texts and colours are those of the tests without blocks.
-/

set_option autoImplicit false

namespace MrBig.Source.TestHeap
open Library Library.Blocks Svcs Procs

variable [CLibrary]

variable (address : Nat → Nat)

/-! ### cfg.c -/

/-- `add_cfg`: a new section is a node, its name and the text. -/
def addCfg (s : Heap × List (Held Config)) (a : Add) : Heap × List (Held Config) :=
  enter address Config.name a.1 2 ⟨a.1, []⟩ (Config.append a.2) s

/-- `read_cfg`, by its calls of `add_cfg`. -/
def readCfg (s : Heap × List (Held Config)) (adds : List Add) : Heap × List (Held Config) :=
  adds.foldl (addCfg address) s

/-! ### insert_status and mrsend -/

/-- struct teststatus: the node with the machine and the test, and the colour. -/
structure StatusRecord where
  held : Held TestStatus
  color : Nat

def StatusRecord.pair (r : StatusRecord) : Pair := r.held.value.pair

def StatusRecord.blocks (r : StatusRecord) : Multiset Nat := r.color ::ₘ r.held.blocks

def statusBlocks (teststatus : List StatusRecord) : Multiset Nat :=
  (teststatus.map StatusRecord.blocks).sum

/-- The text of the colour is replaced where another colour is stored. -/
def insertStatus (s : Heap × List StatusRecord) (c : Call) :
    Option ((Heap × List StatusRecord) × Nat) :=
  match KeyedList.find StatusRecord.pair c.pair s.2 with
  | none =>
    let (h, held) := hold address s.1 2 (newStatus c)
    let (h, color) := h.malloc address
    some ((h, ⟨held, color⟩ :: s.2), 2)
  | some r =>
    let (status, is) := updateStatus r.held.value c
    if status.color = r.held.value.color then
      some ((s.1, KeyedList.modify StatusRecord.pair c.pair
        (fun r => { r with held := r.held.map fun _ => status }) s.2), is)
    else do
      let h ← s.1.free r.color
      let (h, color) := h.malloc address
      some ((h, KeyedList.modify StatusRecord.pair c.pair
        (fun r => ⟨r.held.map fun _ => status, color⟩) s.2), is)

/-- `mrsend`; `send_update` gets no blocks. -/
def mrsend (s : Heap × List StatusRecord) (c : Call) : Option (Heap × List StatusRecord) := do
  let ((h, teststatus), is) ← insertStatus address s c
  if is = 0 then some (h, teststatus)
  else do
    let (h, p) := h.malloc address
    let h ← h.free p
    some (h, teststatus)

/-- What `mrsend` reads besides its arguments. -/
structure Moment where
  now : Int
  mrsleep : Int
  gracetime : List GraceTime
  reportSize : Nat

def Moment.call (m : Moment) (r : Report) : Call :=
  ⟨r.machine, r.test, r.color, r.message, m.now, m.mrsleep, m.gracetime, m.reportSize⟩

/-- The loop at the end of both tests; `moment` goes by the number of reports that are left. -/
def sendReports (moment : Nat → Moment) (report : SvcsReport → Report) :
    List (Held SvcsReport) → Heap × List StatusRecord → Option (Heap × List StatusRecord)
  | [], s => some s
  | rep :: rest, s => do
    let (h, teststatus) ← mrsend address s ((moment rest.length).call (report rep.value))
    let h ← rep.release h
    sendReports moment report rest (h, teststatus)

/-! ### The tests -/

/-- What outlives a test: the heap, `conf` and `teststatus`. -/
structure World where
  heap : Heap
  conf : List (Held Config)
  teststatus : List StatusRecord

/-- What a call of either test meets; `adds` are the lines of its file. -/
structure TestCall where
  options : List Text
  mrmachine : Text
  adds : List Add
  now : Text
  moment : Nat → Moment

/-- A new report of a machine. -/
def emptyReport (machine : Text) : SvcsReport := ⟨[], machine, .green⟩

/-- Both tests return right away where their option is set, and leave their first report. -/
def disabled (w : World) (c : TestCall) (test message : Text) : Option (World × List Report) := do
  let (h, _) := hold address w.heap 1 (emptyReport c.mrmachine)
  let report : Report := ⟨c.mrmachine, test, "clear".toList, message⟩
  let (h, teststatus) ← mrsend address (h, w.teststatus) ((c.moment 0).call report)
  some ({ w with heap := h, teststatus := teststatus }, [report])

/-! ### procs.c -/

/-- The body of the loop of `read_proccfg`. -/
def proccfgStep (mrmachine : Text) (s : Heap × List (Held Cfg)) (b : Text) :
    Heap × List (Held Cfg) :=
  match proccfgLine mrmachine b with
  | none => s
  | some pc => push address 2 pc s

def readProccfg (mrmachine : Text) (lines : List Text) (h : Heap) : Heap × List (Held Cfg) :=
  lines.foldl (proccfgStep address mrmachine) (h, [])

def lookupProcname (s : Heap × List (Held Proc)) (p : Text) : Heap × List (Held Proc) :=
  ensure address Proc.key (folded p) 1 ⟨p, 0⟩ s

def storeProcname (s : Heap × List (Held Proc)) (p : Text) : Heap × List (Held Proc) :=
  enter address Proc.key (folded p) 1 ⟨p, 0⟩ (fun pl => { pl with count := pl.count + 1 }) s

def getProcessList (s : Heap × List (Held Proc)) (processes : Processes) :
    Heap × List (Held Proc) :=
  ((enumProcesses processes).map szProcessName).foldl (storeProcname address) s

/-- The report of a machine with a further line. -/
def enterReport (machine printed : Text) (mycolor : Color) (s : Heap × List (Held SvcsReport)) :
    Heap × List (Held SvcsReport) :=
  enter address SvcsReport.machine machine 1 (emptyReport machine)
    (SvcsReport.append printed mycolor) s

/-- The heap and the lists that the loop over `pcfg` works on. -/
structure Compared (α : Type) where
  heap : Heap
  list : List (Held α)
  preports : List (Held SvcsReport)

/-- The body of the loop over `pcfg`, which frees its node. -/
def compareProcess (s : Compared Proc) (pc : Held Cfg) : Option (Compared Proc) := do
  let (h, plist) := lookupProcname address (s.heap, s.list) pc.value.name
  let m := (Procs.lookupProcname (s.list.map Held.value) pc.value.name).2.count
  let mycolor := limitColor pc.value m
  let (h, preports) := enterReport address pc.value.machine (procLine mycolor pc.value m) mycolor
    (h, s.preports)
  let h ← pc.release h
  some ⟨h, plist, preports⟩

/-- The text of a report. -/
def procsReport (now : Text) (running unique : Nat) (rep : SvcsReport) : Report where
  machine := rep.machine
  test := "procs".toList
  color := rep.color.text
  message := snprcat [] 5000 (now ++ "\n\n".toList ++ rep.str ++ '\n' :: totalLine running unique)

/-- The test, and the reports that it hands to `mrsend`. -/
def procs (w : World) (c : TestCall) (processes : Processes) : Option (World × List Report) :=
  if getOption c.options "no_procs".toList false ≠ none then
    disabled address w c "procs".toList "option no_procs\n".toList
  else do
    let (h, rep) := hold address w.heap 1 (emptyReport c.mrmachine)
    let (h, conf) := readCfg address (h, w.conf) c.adds
    let (h, pcfg) := readProccfg address c.mrmachine (procsLines (conf.map Held.value)) h
    let (h, plist) := getProcessList address (h, []) processes
    let s ← pcfg.foldlM (compareProcess address) ⟨h, plist, [rep]⟩
    let running := (s.list.map fun pl => pl.value.count).sum
    let unique := s.list.length
    let h ← releaseAll s.heap s.list
    let report := procsReport c.now running unique
    let (h, teststatus) ← sendReports address c.moment report s.preports (h, w.teststatus)
    some (⟨h, conf, teststatus⟩, s.preports.map fun rep => report rep.value)

/-! ### svcs.c -/

/-- `big_free` of a buffer, which may be NULL. -/
def freeBuffer (h : Heap) : Option Nat → Option Heap
  | none => some h
  | some buf => h.free buf

/-- The loop of EnumerateAllServices: a buffer for each call that needs more bytes, and the last
one is the caller's if the last call succeeds. -/
def enumerateLoop (succeeds : Bool) : List Nat → Heap × Option Nat → Option (Heap × Option Nat)
  | [], s =>
    if succeeds then some s
    else do
      let h ← freeBuffer s.1 s.2
      some (h, none)
  | _ :: rest, s => do
    let h ← freeBuffer s.1 s.2
    let (h, buf) := h.malloc address
    enumerateLoop succeeds rest (h, some buf)

/-- The variables of `read_svccfg`. -/
structure SvccfgRun where
  n : Int
  mode : CfgMode
  scfg : Heap × List (Held Svc)

def svccfgStep (mrmachine : Text) (s : SvccfgRun) (b : Text) : Option SvccfgRun := do
  let r ← svccfgLine mrmachine s.n b
  some ⟨r.n, s.mode.or r.mode, r.entry.elim s.scfg fun pc => push address 2 pc s.scfg⟩

def readSvccfg (mrmachine : Text) (lines : List Text) (h : Heap) : Option SvccfgRun :=
  lines.foldlM (svccfgStep address mrmachine) ⟨0, ⟨false, false⟩, (h, [])⟩

def lookupSvcname (s : Heap × List (Held Listed)) (p : Text) : Heap × List (Held Listed) :=
  ensure address Listed.key (folded p) 1 ⟨p, 0⟩ s

def listService (mode : CfgMode) (s : Heap × List (Held Listed)) (service : ServiceStatus) :
    Heap × List (Held Listed) :=
  enter address Listed.key (folded (service.name mode)) 1 ⟨service.name mode, 0⟩
    (fun sl => { sl with status := service.dwCurrentState }) s

/-- The body of the loop over `scfg`, which frees its node. -/
def compareService (s : Compared Listed) (pc : Held Svc) : Option (Compared Listed) := do
  let (h, slist) := lookupSvcname address (s.heap, s.list) pc.value.name
  let pl := (Svcs.lookupSvcname (s.list.map Held.value) pc.value.name).2
  let mycolor : Color := if pl.status ≠ pc.value.status then .red else .green
  let printed := "&".toList ++ mycolor.text ++ ' ' :: pl.name ++ " - status ".toList ++
    printInt pl.status ++ " (expected ".toList ++ printInt pc.value.status ++ ")\n".toList
  let (h, preports) := enterReport address pc.value.machine printed mycolor (h, s.preports)
  let h ← pc.release h
  some ⟨h, slist, preports⟩

/-- What is left when the service manager has answered: the heap, the reports, and the services
with the size of the buffer. -/
def serviceReports (cfg : SvccfgRun) (rep : Held SvcsReport) :
    ServiceManager → Option ((Heap × List (Held SvcsReport)) × List ServiceStatus × Nat)
  | .closed =>
    some ((cfg.scfg.1, [rep.map (SvcsReport.append "null sc handle\n".toList .red)]), [], 0)
  | .opened moreBytesNeeded last => do
    let (services, bufSize) := enumerateAllServices moreBytesNeeded last
    let (h, buf) ← enumerateLoop address last.isSome moreBytesNeeded (cfg.scfg.1, none)
    if services.length > 0 then do
      let (h, slist) := services.foldl (listService address cfg.mode) (h, [])
      let h ← freeBuffer h buf
      let s ← cfg.scfg.2.foldlM (compareService address) ⟨h, slist, [rep]⟩
      let h ← releaseAll s.heap s.list
      some ((h, s.preports), services, bufSize)
    else
      some ((h, [rep.map (SvcsReport.append "Can't get service list".toList .red)]),
        services, bufSize)

/-- The text of a report. -/
def svcsReport (now : Text) (services : List ServiceStatus) (bufSize : Nat) (rep : SvcsReport) :
    Report where
  machine := rep.machine
  test := "svcs".toList
  color := rep.color.text
  message := snprcat [] 5000 (now ++ "\n\n".toList ++ rep.str ++ legend services.length
    (services.countP fun service => service.dwCurrentState = serviceRunning) bufSize)

/-- The test, and the reports that it hands to `mrsend`. -/
def svcs (w : World) (c : TestCall) (manager : ServiceManager) : Option (World × List Report) :=
  if getOption c.options "no_svcs".toList false ≠ none then
    disabled address w c "svcs".toList "option no_svcs\n".toList
  else do
    let (h, rep) := hold address w.heap 1 (emptyReport c.mrmachine)
    let (h, conf) := readCfg address (h, w.conf) c.adds
    let cfg ← readSvccfg address c.mrmachine (svcsLines (conf.map Held.value)) h
    let ((h, preports), services, bufSize) ← serviceReports address cfg
      (rep.map fun _ => Svcs.firstReport c.mrmachine cfg.mode) manager
    let report := svcsReport c.now services bufSize
    let (h, teststatus) ← sendReports address c.moment report preports (h, w.teststatus)
    some (⟨h, conf, teststatus⟩, preports.map fun rep => report rep.value)

/-! ### The main loop -/

/-- The two tests with what Windows answers. -/
inductive Test where
  | procs (processes : Processes)
  | svcs (manager : ServiceManager)

def runTest (w : World) (c : TestCall) : Test → Option (World × List Report)
  | .procs processes => procs address w c processes
  | .svcs manager => svcs address w c manager

/-- What the main loop does about these blocks: it reads a configuration file, runs one of the
tests or reports for another one, and clears the configuration. -/
inductive LoopStep where
  | readCfg (adds : List Add)
  | mrsend (c : Call)
  | test (c : TestCall) (test : Test)
  | clearCfg

def loopStep (w : World) : LoopStep → Option World
  | .readCfg adds =>
    let (h, conf) := readCfg address (w.heap, w.conf) adds
    some { w with heap := h, conf := conf }
  | .mrsend c => do
    let (h, teststatus) ← mrsend address (w.heap, w.teststatus) c
    some { w with heap := h, teststatus := teststatus }
  | .test c test => (runTest address w c test).map Prod.fst
  | .clearCfg => do
    let h ← releaseAll w.heap w.conf
    some { w with heap := h, conf := [] }

def mainLoop (w : World) (steps : List LoopStep) : Option World := steps.foldlM (loopStep address) w

end MrBig.Source.TestHeap
