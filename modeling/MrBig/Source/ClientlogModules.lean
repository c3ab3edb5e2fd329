import MrBig.Source.HandleStack

/-!
# The modules of clientlog

Each function under clientlog/ as the calls it makes, in order, for every outcome of the
Windows functions it calls. Texts with conversions are given as `vsnprintf` expands them.
Sizes and alignments are those of the 64-bit build.
-/

set_option autoImplicit false

namespace MrBig.Source

/-! ### date.c, osversion.c, winuptime.c, clientversion.c, clock.c -/

def clogDate (line : Text) : List ClogCall :=
  [append "[date]\n".toList, append line]

structure OsVersion where
  opened : Bool
  line : Text

def clogOsversion (o : OsVersion) : List ClogCall :=
  [.opens (if o.opened then [.hKey] else []),
    .closes .regCloseKey (if o.opened then some .hKey else none),
    append "[osversion]".toList, append ('\n' :: o.line)]

def clogWinuptime (line : Text) : List ClogCall :=
  [append "[winuptime]\n".toList, append line]

def clogClientversion (line : Text) : List ClogCall :=
  [append "[clientversion]".toList, append ('\n' :: line)]

def clogClock (localLine utcLine : Text) : List ClogCall :=
  [append "[clock]".toList, append ('\n' :: localLine), append ('\n' :: utcLine)]

/-! ### bios.c -/

structure Bios where
  opened : Bool
  value : Text → Option Text

/-- clog_APPEND_BIOS(key). -/
def appendBios (value : Text → Option Text) (key : Text) : List ClogCall :=
  [append (List.leftpad 21 ' ' key ++ ":\t".toList),
    append (match value key with
      | none => "(Unable to read)\n".toList
      | some regSz => regSz ++ ['\n'])]

def biosKeys : List Text :=
  ["SystemProductName".toList, "SystemManufacturer".toList, "BaseBoardManufacturer".toList,
    "BIOSVendor".toList, "BIOSVersion".toList, "BIOSReleaseDate".toList]

/-- The handle is deferred before the status is looked at, and stays on the stack where
the key could not be opened. -/
def clogBios (o : Bios) : List ClogCall :=
  [append "[bios]\n".toList, .opens (if o.opened then [.hKey] else []),
    .defer (if o.opened then some .hKey else none) .regCloseKey] ++
  if o.opened then biosKeys.flatMap (appendBios o.value) ++ [.popDeferAll]
  else
    [append ("(Unable to open registry key ".toList ++
      "'HKEY_LOCAL_MACHINE\\HARDWARE\\DESCRIPTION\\System\\BIOS')".toList)]

/-! ### who.c -/

/-- The rows of who_PrettySession, and how many sessions there are. -/
structure Who where
  sessions : List Text
  numUnfilteredSessions : Nat

def clogWho (maxNumSessions : Nat) (o : Who) : List ClogCall :=
  let sessions := o.sessions.take maxNumSessions
  append "[who]".toList ::
  if o.numUnfilteredSessions = 0 then [append "\nN/A".toList]
  else
    append ("\nUSERNAME       \tSESSIONNAME    \t  ID\tSTATE  \t".toList ++
      "   IDLE TIME\tLOGON TIME          ".toList) ::
    sessions.map (fun row => append ('\n' :: row)) ++
    if sessions.length ≥ maxNumSessions then
      [append ("\n(...with up to ".toList ++
        (toString (o.numUnfilteredSessions - sessions.length)).toList ++
        " more sessions truncated for brevity.)".toList)]
    else []

/-! ### diskinfo.c -/

/-- What Windows says of a logical drive. -/
structure DriveOutcome where
  fixed : Bool
  opened : Bool
  writable : Bool

/-- The drives that the loop over the drive letters examines: `i` counts the letters,
`curr` is a WORD. A `continue` in the body skips the doubling of `curr`. -/
def examinedDrives (drive : Nat → DriveOutcome) : Nat → Nat → Nat → Nat → List Nat
  | 0, _, _, _ => []
  | letters + 1, i, curr, drivebits =>
    if drivebits = 0 then []
    else if curr &&& drivebits ≠ 0 then
      i :: examinedDrives drive letters (i + 1)
        (if (drive i).fixed ∧ (drive i).writable then curr * 2 % 65536 else curr)
        (drivebits - curr)
    else examinedDrives drive letters (i + 1) (curr * 2 % 65536) drivebits

def sizeofDrive : Nat := 568

def examineDrive (o : DriveOutcome) : List ClogCall :=
  allocate sizeofDrive 8 1 ::
  if o.fixed then
    [.opens (if o.opened then [.hPhys] else []),
      .closes .closeHandle (if o.opened then some .hPhys else none)]
  else []

structure PhysicalDisk where
  opened : Bool
  /-- The indented lines, if the partition layout can be read. -/
  lines : Option (List (Nat × Text))

/-- ArenaIndentAppend. -/
def indentAppend (line : Nat × Text) : List ClogCall :=
  [append ('\n' :: List.replicate (line.1 * 4) ' '), append line.2]

/-- sizeof(DRIVE_LAYOUT_INFORMATION_EX) + 16 * sizeof(PARTITION_INFORMATION_EX). -/
def layoutBufsize : Nat := 192 + 16 * 144

def physicalDisk (o : PhysicalDisk) : List ClogCall :=
  if o.opened then
    [.opens [.hPhys], .defer (some .hPhys) .closeHandle, allocate layoutBufsize 1 1] ++
      (o.lines.getD []).flatMap indentAppend ++ [.popDefer]
  else []

structure DiskInfo where
  opened : Bool
  drivebits : Nat
  drive : Nat → DriveOutcome
  disks : List PhysicalDisk

def clogDiskinfo (o : DiskInfo) : List ClogCall :=
  [.opens (if o.opened then [.hKey] else []),
    .closes .regCloseKey (if o.opened then some .hKey else none)] ++
  (examinedDrives o.drive 26 0 1 o.drivebits).flatMap (fun i => examineDrive (o.drive i)) ++
  append "[diskinfo]".toList :: o.disks.flatMap physicalDisk

/-! ### winmemory.c -/

structure WinMemory where
  openedQuery : Bool
  physical : Text
  pagefile : Text
  virtual : Text

def clogWinmemory (o : WinMemory) : List ClogCall :=
  .opens (if o.openedQuery then [.pagefileQuery] else []) ::
  (if o.openedQuery then [.closes .pdhCloseQuery (some .pagefileQuery)] else []) ++
  [append "[winmemory]".toList,
    append "\n          TOTAL        \tUSED           \tFREE           \tMEMORY USAGE   ".toList,
    append ('\n' :: o.physical), append ('\n' :: o.pagefile), append ('\n' :: o.virtual)]

/-! ### utils.c, ipconfig.c, winroute.c -/

def waitObject0 : Nat := 0

/-- The outcome of a command; `reads` are the pieces that ReadFile returns. -/
structure Command where
  createPipe : Bool
  setHandleInformation : Bool
  createProcess : Bool
  waitStatus : Nat
  message : Text
  reads : List Text

def runCmdSynchronously (o : Command) : List ClogCall :=
  if ¬ o.createPipe then
    [append o.message, .closes .closeHandle none, .closes .closeHandle none]
  else
    .opens [.hPipeOutputRead, .hPipeOutputWrite] ::
    if ¬ o.setHandleInformation then
      [append o.message, .closes .closeHandle (some .hPipeOutputRead),
        .closes .closeHandle (some .hPipeOutputWrite)]
    else if ¬ o.createProcess then
      [.closes .closeHandle (some .hPipeOutputWrite), append o.message,
        .closes .closeHandle (some .hPipeOutputRead), .closes .closeHandle none,
        .closes .closeHandle none]
    else
      [.opens [.hProcess, .hThread], .closes .closeHandle (some .hPipeOutputWrite)] ++
      (if o.waitStatus ≠ waitObject0 then [append o.message] else o.reads.map append) ++
      [.closes .closeHandle (some .hProcess), .closes .closeHandle (some .hThread),
        .closes .closeHandle (some .hPipeOutputRead)] ++
      if o.waitStatus = waitObject0 ∧ o.reads = [] then [append "(No output)".toList] else []

def clogIpconfig (o : Command) : List ClogCall :=
  append "[ipconfig]\n".toList :: withScratch (runCmdSynchronously o)

def clogWinroute (o : Command) : List ClogCall :=
  append "[winroute]\n".toList :: withScratch (runCmdSynchronously o)

/-! ### winports.c -/

/-- The outcome of winports_GetConnectionTable. -/
inductive TableOutcome where
  /-- The size is not to be had. -/
  | noSize
  /-- `malloc` answers NULL. -/
  | noMemory
  /-- The table itself is not to be had. -/
  | failed
  | table (statistics : Text) (lines : List Text)

def getConnectionTable (group : Nat) : TableOutcome → List ClogCall
  | .noSize => []
  | .noMemory => [.defer none .free]
  | .failed | .table _ _ => [.opens [.table group], .defer (some (.table group)) .free]

/-- The loop over the port groups, from group `i` on. -/
def getConnectionTables : Nat → List TableOutcome → List ClogCall
  | _, [] => []
  | i, t :: rest => getConnectionTable i t ++ getConnectionTables (i + 1) rest

def appendPortStatistics : TableOutcome → List ClogCall
  | .table statistics _ => [append ('\n' :: statistics)]
  | _ => []

def appendConnections : TableOutcome → List ClogCall
  | .table _ lines => lines.map fun line => append ('\n' :: line)
  | _ => []

def errored (tables : List TableOutcome) : Nat :=
  tables.countP fun
    | .table _ _ => false
    | _ => true

def appendErrored (tables : List TableOutcome) : List ClogCall :=
  if errored tables = tables.length then
    [append "\n(Unable to get networking statistics)".toList]
  else if errored tables > 0 then
    [append "\n(Unable to get some of the networking statistics)".toList]
  else []

/-- TCP over IPv4, TCP over IPv6, UDP over IPv4, UDP over IPv6. -/
structure WinPorts where
  tcp4 : TableOutcome
  tcp6 : TableOutcome
  udp4 : TableOutcome
  udp6 : TableOutcome

def WinPorts.tables (o : WinPorts) : List TableOutcome := [o.tcp4, o.tcp6, o.udp4, o.udp6]

def clogWinports (o : WinPorts) : List ClogCall :=
  getConnectionTables 0 o.tables ++
  [append "[winportsused]".toList,
    append "\nIP version     \tProtocol       \t   Ports Used #\t Ports Used %".toList] ++
  o.tables.flatMap appendPortStatistics ++ appendErrored o.tables ++
  [append "\n[winports]".toList,
    append ("\nProto  \tLocal Address                          \t".toList ++
      "Foreign Address                        \tState          \t    PID".toList)] ++
  o.tables.flatMap appendConnections ++ .popDeferAll :: appendErrored o.tables

/-! ### processes.c -/

def errorSuccess : Nat := 0

/-- What the calls of StartQuery return. -/
structure StartQuery where
  openQuery : Nat
  idProcess : Nat
  workingSet : Nat
  processorTime : Nat
  createEvent : Bool
  collectQueryDataEx : Nat

/-- processes_State without the counters. -/
structure ProcessesState where
  query : Option Handle
  event : Option Handle
  errorCode : Nat
  deriving DecidableEq

def sizeofProcessesState : Nat := 48

/-- The calls, and what stands in `*state` behind them. Where the event cannot be created
the error code is still that of the call before. -/
def processesStartQuery (o : StartQuery) : List ClogCall × ProcessesState :=
  let cleanup (rest : List ClogCall) (errorCode : Nat) : List ClogCall × ProcessesState :=
    (allocate sizeofProcessesState 8 1 :: rest, ⟨none, none, errorCode⟩)
  let closeQuery := [.opens [.query], .closes .pdhCloseQuery (some .query)]
  if o.openQuery ≠ errorSuccess then cleanup [] o.openQuery
  else if o.idProcess ≠ errorSuccess then cleanup closeQuery o.idProcess
  else if o.workingSet ≠ errorSuccess then cleanup closeQuery o.workingSet
  else if o.processorTime ≠ errorSuccess then cleanup closeQuery o.processorTime
  else if ¬ o.createEvent then cleanup closeQuery o.processorTime
  else if o.collectQueryDataEx ≠ errorSuccess then
    cleanup [.opens [.query], .opens [.event], .closes .pdhCloseQuery (some .query),
      .closes .closeHandle (some .event)] o.collectQueryDataEx
  else
    ([allocate sizeofProcessesState 8 1, .opens [.query], .opens [.event]],
      ⟨some .query, some .event, errorSuccess⟩)

/-- A process of the counter array. -/
structure ProcessItem where
  name : Text
  opened : Bool
  openedToken : Bool
  hasUser : Bool
  /-- userBufsize + domainBufsize -/
  userSize : Nat

def getProcessUser (p : ProcessItem) : List ClogCall :=
  [.opens (if p.opened then [.process] else []),
    .defer (if p.opened then some .process else none) .closeHandle] ++
  if p.openedToken then
    [.opens [.processToken], .defer (some .processToken) .closeHandle] ++
    if p.hasUser then [allocate 1 1 (p.userSize + 2)] else []
  else []

def pdhMoreData : Nat := 0x800007D2

def sizeofTableRow : Nat := 40

/-- What the calls of EndAppendQuery return, and the rows that are printed. -/
structure EndQuery where
  wait : Nat
  sizeStatus : Nat
  dataStatus : Nat
  items : List ProcessItem
  errorLine : Text
  byName : List Text
  byCPU : List Text
  byMemory : List Text

/-- The row of a process. -/
def addRow (p : ProcessItem) : List ClogCall :=
  allocate 1 1 (p.name.length + 10) :: getProcessUser p ++ [.popDeferAll]

/-- processes_Table without its rows. -/
structure ProcessesTable where
  numRows : Nat
  errorCode : Nat

def awaitSummarizeQuery (state : ProcessesState) (o : EndQuery) :
    List ClogCall × ProcessesTable :=
  let closeEvent := ClogCall.closes .closeHandle state.event
  let closeQuery := ClogCall.closes .pdhCloseQuery state.query
  if o.wait ≠ waitObject0 then ([closeEvent, closeQuery], ⟨0, o.wait⟩)
  else if o.sizeStatus ≠ pdhMoreData then ([closeEvent, closeQuery], ⟨0, o.sizeStatus⟩)
  else if o.dataStatus ≠ errorSuccess then ([closeEvent, closeQuery], ⟨0, o.dataStatus⟩)
  else
    (closeEvent :: allocate sizeofTableRow 8 o.items.length ::
      o.items.flatMap addRow ++ [closeQuery], ⟨o.items.length, errorSuccess⟩)

/-- A heading, then the table, sorted into a block of its own, or the error. -/
def appendProcesses (heading : String) (t : ProcessesTable) (errorLine : Text)
    (rows : List Text) : List ClogCall :=
  append heading.toList ::
  if t.errorCode = errorSuccess then
    allocate sizeofTableRow 8 t.numRows ::
    append ("\nPROCESS                        \t   PID\t".toList ++
      "USER                           \t    CPU\t      MEMORY\n".toList) ::
    (rows.take t.numRows).map append
  else [append errorLine]

def processesEndAppendQuery (state : ProcessesState) (o : EndQuery) : List ClogCall :=
  let (calls, table) :=
    if state.errorCode = errorSuccess then awaitSummarizeQuery state o
    else ([], ⟨0, state.errorCode⟩)
  calls ++ appendProcesses "[processes]" table o.errorLine o.byName ++
    appendProcesses "[topprocessescpu]" table o.errorLine o.byCPU ++
    appendProcesses "[topprocessesmemory]" table o.errorLine o.byMemory

/-! ### runningservices.c -/

structure Service where
  stopped : Bool
  opened : Bool
  queryConfOK : Bool
  autoStart : Bool
  line : Text

/-- A stopped service is printed if it should be running or is not known not to. -/
def Service.printed (s : Service) : Bool := !s.stopped || !s.queryConfOK || s.autoStart

def appendService (s : Service) : List ClogCall :=
  [.opens (if s.opened then [.hService] else []),
    .defer (if s.opened then some .hService else none) .closeServiceHandle] ++
  (if s.printed then [append ('\n' :: s.line)] else []) ++ [.popDefer]

structure RunningServices where
  opened : Bool
  servicesBytesNeeded : Nat
  /-- Nothing where the services cannot be listed. -/
  services : Option (List Service)
  errorLine : Text

/-- The handle of the service manager stays on the stack. -/
def clogRunningservices (o : RunningServices) : List ClogCall :=
  [.opens (if o.opened then [.hServiceManager] else []),
    .defer (if o.opened then some .hServiceManager else none) .closeServiceHandle,
    allocate 1 1 o.servicesBytesNeeded, append "[runningservices]".toList,
    append ("\n   PID \tSERVICE                \tDISPLAY NAME".toList ++
      List.replicate 51 ' ' ++ "\tSTARTUP\tSTATUS".toList)] ++
  match o.services with
  | none => [append o.errorLine]
  | some services =>
    (services.filter (!·.stopped)).flatMap appendService ++
      (services.filter (·.stopped)).flatMap appendService

/-! ### eventlog.c -/

structure EventData where
  context : Bool
  rendered : Bool
  provider : Bool
  publisher : Bool
  row : Text

/-- eventlog_GetEventData closes what it opens on each of its exits. -/
def getEventData (e : EventData) : List ClogCall :=
  let close : ClogCall := .closes .evtClose (if e.context then some .contextHandle else none)
  .opens (if e.context then [.contextHandle] else []) ::
  if e.rendered ∧ e.provider then
    [.opens (if e.publisher then [.pmHandle] else []),
      .closes .evtClose (if e.publisher then some .pmHandle else none), close]
  else [close]

/-- The loop over the fetched events, from index `i` on. -/
def appendEvents : Nat → List EventData → List ClogCall
  | _, [] => []
  | i, e :: rest =>
    getEventData e ++
    [.defer (some (.eventOf i)) .evtClose, append ('\n' :: e.row), .popDefer] ++
    appendEvents (i + 1) rest

structure Channel where
  opened : Bool
  events : List EventData

def appendChannel (maxNumEvents : Nat) (name : String) (o : Channel) : List ClogCall :=
  let events := o.events.take maxNumEvents
  [append ("\n[eventlog_".toList ++ name.toList ++ [']']),
    .opens (if o.opened then [.hLog] else []),
    .defer (if o.opened then some .hLog else none) .evtClose,
    .opens ((List.range events.length).map .eventOf)] ++
  (if events.length > 0 then
    append ("\nTimestamp              \t    Id \t".toList ++
      "Level  \t Source                        \tMessage".toList) ::
      appendEvents 0 events
  else [append "\n(No warnings or errors found within the last 1.000000h.)".toList]) ++
  [.popDefer]

structure EventLog where
  application : Channel
  setup : Channel
  system : Channel

def clogEventlog (maxNumEvents : Nat) (o : EventLog) : List ClogCall :=
  appendChannel maxNumEvents "application" o.application ++
    appendChannel maxNumEvents "setup" o.setup ++ appendChannel maxNumEvents "system" o.system

/-! ### applications.c -/

def sizeofApplicationTree : Nat := 216

/-- The keys under one root, each with whether it has a version or a publisher; nothing
where the root cannot be opened. -/
abbrev UninstallKeys := Option (List Bool)

def insertApplications : UninstallKeys → List ClogCall
  | none => []
  | some entries =>
    [.opens [.hKey], .defer (some .hKey) .regCloseKey] ++
      (entries.filter id).map fun _ => allocate sizeofApplicationTree 8 1

structure Applications where
  x86_32 : UninstallKeys
  x86_64 : UninstallKeys
  /-- The rows in the order of the tree. -/
  rows : List Text

def clogApplications (o : Applications) : List ClogCall :=
  insertApplications o.x86_32 ++ .popDeferAll :: insertApplications o.x86_64 ++
  [.popDeferAll, append "[applications]".toList] ++
  if (o.x86_32.getD []).any id ∨ (o.x86_64.getD []).any id then
    o.rows.map fun row => append ('\n' :: row)
  else [append "\n(No applications found)".toList]

/-! ### certificates.c -/

/-- The extended key usage of a certificate: absent, not decodable, or the lengths of the
names of its purposes. -/
inductive EKU where
  | absent
  | undecodable
  | purposes (lengths : List Nat)

def getEKUPurposes : EKU → List ClogCall
  | .absent => []
  | .undecodable => [allocate 8 8 2, allocate 1 1 32]
  | .purposes lengths =>
    allocate 8 8 (lengths.length + 1) :: lengths.map fun n => allocate 1 1 (n + 1)

structure CertificateData where
  friendlySize : Nat
  subjectSize : Nat
  issuerSize : Nat
  eku : EKU
  algoLen : Nat
  row : Text

def appendCertificate (c : CertificateData) : List ClogCall :=
  [.defer (some .ctx) .certFreeCertificateContext, allocate 1 1 c.friendlySize,
    allocate 1 1 c.subjectSize, allocate 1 1 c.issuerSize] ++
  getEKUPurposes c.eku ++
  (if c.algoLen = 0 then [] else [allocate 1 1 (c.algoLen + 1)]) ++
  [append (c.row ++ ['\n']), .ignorePopDefer]

/-- CertEnumCertificatesInStore frees the context it is given and opens the next. -/
def enumCertificate (c : CertificateData) : List ClogCall :=
  .opens [.ctx] :: appendCertificate c ++ [.closes .certFreeCertificateContext (some .ctx)]

structure Certificates where
  opened : Bool
  certificates : List CertificateData

/-- The handle of the store stays on the stack. -/
def clogCertificates (o : Certificates) : List ClogCall :=
  [append "[certificates]".toList, .opens (if o.opened then [.hStore] else []),
    .defer (if o.opened then some .hStore else none) .certCloseStore] ++
  o.certificates.flatMap enumCertificate ++
  if o.certificates = [] then [append "\n(No certificates found in store 'MY')".toList] else []

/-! ### reboots.c -/

def maxRecordSize : Nat := 0x10000

/-- A call of ReadEventLog that needs `gap` bytes more asks for them once. -/
structure LoadOutcome where
  gap : Option Nat

def loadEvents (o : LoadOutcome) : List ClogCall :=
  allocate maxRecordSize 1 1 ::
    match o.gap with
    | none => []
    | some gap => [allocate gap 4 1]

structure Reboots where
  opened : Bool
  batches : List LoadOutcome
  lastBatch : LoadOutcome
  rows : List Text

/-- `rewind = scratch` gives the blocks of a batch back. -/
def recentReboots (o : Reboots) : List ClogCall :=
  (if o.opened then [.opens [.systemLog], .defer (some .systemLog) .closeEventLog] else []) ++
  .arena .enter ::
  o.batches.flatMap (fun b => loadEvents b ++ [.arena .leave, .arena .enter]) ++
  loadEvents o.lastBatch ++ [.arena .leave]

def clogReboots (maxNumReboots : Nat) (o : Reboots) : List ClogCall :=
  let rows := o.rows.take maxNumReboots
  withScratch (recentReboots o) ++ [.popDeferAll, append "[reboots]".toList] ++
  if rows = [] then [append "\n(No reboots found within the last 30 days)".toList]
  else
    append ("\nDate                   \tUser                           \t".toList ++
      "Reason                                         ".toList) ::
    rows.map fun row => append ('\n' :: row)

end MrBig.Source
