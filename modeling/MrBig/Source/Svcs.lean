import MrBig.Source.Msgs

/-!
# The services test

svcs.c. A null pointer given to `strlcpy` is no result. `ServiceManager` is what Windows
answers to `svcs`.
-/

set_option autoImplicit false

namespace MrBig.Source.Svcs
open Library

variable [CLibrary]

def serviceRunning : Int := 4

/-- A node of `scfg`. -/
structure Svc where
  name : Text
  machine : Text
  status : Int
  deriving DecidableEq, Repr

/-- The bits of `cfg_mode`. -/
structure CfgMode where
  displayName : Bool
  serviceName : Bool
  deriving DecidableEq, Repr

def CfgMode.or (m m' : CfgMode) : CfgMode :=
  ⟨m.displayName || m'.displayName, m.serviceName || m'.serviceName⟩

/-- `sscanf(p, "%d %s", &status, machine)`, with what stood there where nothing is read. -/
def scanStatus (p : Text) : Int × Int × Text :=
  match scanInt p with
  | none => (if p.all isspace then -1 else 0, 0, [])
  | some status =>
    match scanWord (afterInt p) with
    | none => (1, status, [])
    | some (machine, _) => (2, status, machine)

/-- `sscanf(b, "%s %d %s", name, &status, machine)`. -/
def scanService (b : Text) : Int × Text × Int × Text :=
  match scanWord b with
  | none => (-1, [], 0, [])
  | some (name, rest) =>
    let (n, status, machine) := scanStatus rest
    (if n < 1 then 1 else n + 1, name, status, machine)

/-- The name that reports go by: dots make way for commas. -/
def reportMachine (mrmachine machine : Text) : Text :=
  if machine.length > 0 then machine.map fun c => if c = '.' then ',' else c else mrmachine

/-- What a line does: the value of `n` behind it, its bit of `cfg_mode` and its node. -/
structure LineResult where
  n : Int
  mode : CfgMode
  entry : Option Svc
  deriving DecidableEq, Repr

/-- The body of the loop of `read_svccfg`. -/
def svccfgLine (mrmachine : Text) (n : Int) (b : Text) : Option LineResult :=
  if b.head? = some '#' then some ⟨n, ⟨false, false⟩, none⟩
  else if b.head? = some '"' then
    match strtok b.tail ['"'] with
    | none => none
    | some (token, rest) =>
      let (n, status, machine) :=
        match strtok rest [] with
        | none => (n, 0, [])
        | some (p, _) => scanStatus p
      let status := if n < 1 then serviceRunning else status
      some ⟨n, ⟨true, false⟩, some ⟨strlcpy token 256, reportMachine mrmachine machine, status⟩⟩
  else
    let (n, name, status, machine) := scanService b
    if n < 1 then some ⟨n, ⟨false, false⟩, none⟩
    else
      let status := if n < 2 then serviceRunning else status
      some ⟨n, ⟨false, true⟩, some ⟨name, reportMachine mrmachine machine, status⟩⟩

/-- The variables of `read_svccfg`. -/
structure SvccfgState where
  n : Int
  mode : CfgMode
  scfg : List Svc
  deriving DecidableEq, Repr

def svccfgStep (mrmachine : Text) (s : SvccfgState) (b : Text) : Option SvccfgState := do
  let r ← svccfgLine mrmachine s.n b
  pure ⟨r.n, s.mode.or r.mode, r.entry.toList ++ s.scfg⟩

def readSvccfg (mrmachine : Text) (lines : List Text) : Option SvccfgState :=
  lines.foldlM (svccfgStep mrmachine) ⟨0, ⟨false, false⟩, []⟩

def svcsLines (conf : List Config) : List Text := sectionLines conf "svcs".toList 256

/-! ### The service manager -/

/-- The members of ENUM_SERVICE_STATUS_PROCESS that are read. -/
structure ServiceStatus where
  lpServiceName : Text
  lpDisplayName : Text
  dwCurrentState : Nat
  deriving DecidableEq, Repr

/-- The answers of Windows: `opened` has the bytes that each call of EnumServicesStatusEx
still needed, and what the last call lists if it succeeds. -/
inductive ServiceManager where
  | closed
  | opened (moreBytesNeeded : List Nat) (last : Option (List ServiceStatus))

/-- The services and the size of the buffer. -/
def enumerateAllServices (moreBytesNeeded : List Nat) (last : Option (List ServiceStatus)) :
    List ServiceStatus × Nat :=
  match last with
  | none => ([], 0)
  | some services => (services, Word.wrap 32 moreBytesNeeded.sum)

/-- A node of `slist`. -/
structure Listed where
  name : Text
  status : Int
  deriving DecidableEq, Repr

/-- Names that `strcasecmp` finds equal. -/
def folded (name : Text) : Text := name.map Char.toLower

def Listed.key (sl : Listed) : Text := folded sl.name

/-- The list and the node found, which is a new one if need be. -/
def lookupSvcname (slist : List Listed) (p : Text) : List Listed × Listed :=
  match KeyedList.find Listed.key (folded p) slist with
  | some sl => (slist, sl)
  | none => (⟨p, 0⟩ :: slist, ⟨p, 0⟩)

/-- The name that a service is looked up by. -/
def ServiceStatus.name (mode : CfgMode) (service : ServiceStatus) : Text :=
  if mode.serviceName then service.lpServiceName else service.lpDisplayName

def listService (mode : CfgMode) (slist : List Listed) (service : ServiceStatus) : List Listed :=
  let p := service.name mode
  KeyedList.modify Listed.key (folded p) (fun sl => { sl with status := service.dwCurrentState })
    (lookupSvcname slist p).1

/-! ### The reports -/

/-- struct report without its link. -/
structure SvcsReport where
  str : Text
  machine : Text
  color : Color
  deriving DecidableEq, Repr

def SvcsReport.append (printed : Text) (mycolor : Color) (rep : SvcsReport) : SvcsReport :=
  { rep with
    str := snprcat rep.str 5000 printed
    color := if mycolor ≠ .green then .red else rep.color }

/-- The body of the loop over `scfg`. -/
def compareService (s : List Listed × List SvcsReport) (pc : Svc) :
    List Listed × List SvcsReport :=
  let (slist, pl) := lookupSvcname s.1 pc.name
  let mycolor : Color := if pl.status ≠ pc.status then .red else .green
  let preports :=
    match KeyedList.find SvcsReport.machine pc.machine s.2 with
    | some _ => s.2
    | none => ⟨[], pc.machine, .green⟩ :: s.2
  let printed := "&".toList ++ mycolor.text ++ ' ' :: pl.name ++ " - status ".toList ++
    printInt pl.status ++ " (expected ".toList ++ printInt pc.status ++ ")\n".toList
  (slist, KeyedList.modify SvcsReport.machine pc.machine (SvcsReport.append printed mycolor)
    preports)

/-- The report of the agent's own machine in front of the loops. -/
def firstReport (mrmachine : Text) (mode : CfgMode) : SvcsReport :=
  if mode.displayName && mode.serviceName then
    ⟨snprcat [] 5000 "Config using mix of service and display names\n\n".toList, mrmachine, .red⟩
  else ⟨[], mrmachine, .green⟩

/-- The reports when the service manager has answered, with the services it lists and the
size of the buffer. -/
def serviceReports (mrmachine : Text) (cfg : SvccfgState) :
    ServiceManager → List SvcsReport × List ServiceStatus × Nat
  | .closed =>
    ([(firstReport mrmachine cfg.mode).append "null sc handle\n".toList .red], [], 0)
  | .opened moreBytesNeeded last =>
    let (services, bufSize) := enumerateAllServices moreBytesNeeded last
    let first := firstReport mrmachine cfg.mode
    if services.length > 0 then
      let slist := services.foldl (listService cfg.mode) []
      ((cfg.scfg.foldl compareService (slist, [first])).2, services, bufSize)
    else ([first.append "Can't get service list".toList .red], services, bufSize)

/-- The text behind the report of a machine. -/
def legend (nsvcs running bufSize : Nat) : Text :=
  "\nTotal ".toList ++ printInt nsvcs ++ " registered services, ".toList ++ printInt running ++
    (" running\n\n0 = Not installed\n1 = Stopped\n2 = Start pending\n3 = Stop pending\n" ++
      "4 = Running\n5 = Continue pending\n6 = Pause pending\n7 = Paused\n\n(").toList ++
    printInt bufSize ++ " bytes svcslist)\n".toList

/-- The calls of `mrsend`, `conf` being the configuration when services.cfg has been read. -/
def svcs (options : List Text) (mrmachine : Text) (conf : List Config) (now : Text)
    (manager : ServiceManager) : Option (List Report) :=
  if getOption options "no_svcs".toList false ≠ none then
    some [⟨mrmachine, "svcs".toList, "clear".toList, "option no_svcs\n".toList⟩]
  else do
    let cfg ← readSvccfg mrmachine (svcsLines conf)
    let (preports, services, bufSize) := serviceReports mrmachine cfg manager
    let running := services.countP fun service => service.dwCurrentState = serviceRunning
    pure (preports.map fun rep =>
      { machine := rep.machine, test := "svcs".toList, color := rep.color.text
        message := snprcat [] 5000 (now ++ "\n\n".toList ++ rep.str ++
          legend services.length running bufSize) })

end MrBig.Source.Svcs
