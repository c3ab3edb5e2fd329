import MrBig.Source.ClientlogModules

/-!
# clientlog

clientlog/clientlog.c:10-103: the order of the modules, and the error handler that a throw
comes back to.
-/

set_option autoImplicit false

namespace MrBig.Source
open Library.Memory Library.Word

/-- What Windows answers to the modules of one run. -/
structure ClientlogOutcome where
  startQuery : StartQuery
  date : Text
  osversion : OsVersion
  winuptime : Text
  bios : Bios
  who : Who
  diskinfo : DiskInfo
  winmemory : WinMemory
  ipconfig : Command
  winroute : Command
  winports : WinPorts
  endQuery : EndQuery
  runningservices : RunningServices
  eventlog : EventLog
  applications : Applications
  certificates : Certificates
  reboots : Reboots
  clientversion : Text
  localLine : Text
  utcLine : Text

/-- A module and the newline behind it. -/
def withNewline (body : List ClogCall) : List ClogCall := withScratch body ++ [append ['\n']]

/-- The modules between the start of the PDH query and its end. -/
def clientlogFirst (mrmachine : Text) (o : ClientlogOutcome) : List ClogCall :=
  List.flatten [
    [append ("client ".toList ++ mrmachine ++ ".windows windows\n".toList)],
    withNewline (clogDate o.date),
    withNewline (clogOsversion o.osversion),
    withNewline (clogWinuptime o.winuptime),
    withScratch (clogBios o.bios),
    withNewline (clogWho 10 o.who),
    withNewline (clogDiskinfo o.diskinfo),
    withNewline (clogWinmemory o.winmemory),
    withNewline (clogIpconfig o.ipconfig),
    withNewline (clogWinroute o.winroute),
    withNewline (clogWinports o.winports)]

/-- The modules behind it. -/
def clientlogLast (o : ClientlogOutcome) : List ClogCall :=
  List.flatten [
    withScratch (clogRunningservices o.runningservices),
    withNewline (clogEventlog 5 o.eventlog),
    withNewline (clogApplications o.applications),
    withScratch (clogCertificates o.certificates),
    withNewline (clogReboots 5 o.reboots),
    withNewline (clogClientversion o.clientversion),
    withScratch (clogClock o.localLine o.utcLine)]

/-- The calls of a run that nothing cuts short. -/
def clientlogCalls (mrmachine : Text) (o : ClientlogOutcome) : List ClogCall :=
  let (startQuery, state) := processesStartQuery o.startQuery
  startQuery ++ clientlogFirst mrmachine o ++ processesEndAppendQuery state o.endQuery ++
    clientlogLast o

/-- 512 KB. -/
def clientlogCapacity : Nat := 0x80000

/-- Behind clog_ArenaMake, where malloc answers `mem`. -/
def clientlogStart (memory : Nat → Char) (mem : Nat) : ClogState where
  arena := arenaStart (arenaMake memory mem clientlogCapacity)
  handles := ⟨[], []⟩
  fault := false

def errormessage : Text := "\n(Clientlog ran into a problem, error code %d)".toList

/-- `sprintf` right in front of CurrentStart. -/
def reportError (state : ArenaState) (errorcode : Nat) : ArenaState :=
  let address := wrap 64 (state.currentStart - 1 - errormessage.length)
  let printed := "\n(Clientlog ran into a problem, error code ".toList ++
    (toString errorcode).toList ++ [')', nul]
  { state with memory := store state.memory address printed }

/-- The state that mrsend is called in, and the handles when clientlog() returns. -/
structure ClientlogEnd where
  sent : ArenaState
  handles : HandleState

/-- Nothing where clog_PopDefer read below the handle stack. -/
def clientlog (memory : Nat → Char) (mem : Nat) (mrmachine : Text) (o : ClientlogOutcome) :
    Option ClientlogEnd :=
  let s := clogRun (clientlogStart memory mem) (clientlogCalls mrmachine o)
  if s.fault then none
  else
    let sent := match s.arena.thrown with
      | some errorcode => reportError s.arena.state errorcode
      | none => s.arena.state
    some ⟨sent, s.handles.act .popDeferAll⟩

end MrBig.Source
