import MrBig.Source.Applications
import MrBig.Source.Cpu
import MrBig.Source.Winports

/-!
# Idle times and uptimes

clientlog/who.c and clientlog/winuptime.c, and the uptime of cpu.c. A FILETIME is its count of
100 ns; what FileTimeToSystemTime leaves in the structure it is given is a parameter.
-/

set_option autoImplicit false

namespace MrBig.Source.Durations
open Library.Word ReadPerf Cpu Applications Winports

def minute : Nat := 60 * 1000
def hour : Nat := 60 * minute
def day : Nat := 24 * hour

/-- SYSTEMTIME, as far as it is printed. -/
structure SystemTime where
  wYear : Nat
  wMonth : Nat
  wDay : Nat
  wHour : Nat
  wMinute : Nat
  wSecond : Nat
  deriving DecidableEq, Repr

/-- `%02u`. -/
def twoDigits (n : Nat) : Text := List.leftpad 2 '0' (printUnsigned n)

/-- clog_utils_PrettySystemtime for a date and a time of day. -/
def prettySystemtime (t : SystemTime) (outSize : Nat) : Text :=
  (printUnsigned t.wYear ++ '-' :: twoDigits t.wMonth ++ '-' :: twoDigits t.wDay ++
    ' ' :: twoDigits t.wHour ++ ':' :: twoDigits t.wMinute ++ ':' :: twoDigits t.wSecond).take
    (outSize - 1)

/-! ### who.c -/

/-- WTSINFO, with the texts as the arrays of the structure hold them. -/
structure WtsInfo where
  sessionId : Nat
  winStationName : Text
  userName : Text
  currentTime : Int
  lastInputTime : Int

structure Idle where
  days : Nat
  hours : Nat
  minutes : Nat
  deriving DecidableEq, Repr

/-- who_Session without its link. -/
structure Session where
  userName : Text
  sessionName : Text
  id : Nat
  state : Nat
  idle : Idle
  logonDate : SystemTime
  deriving DecidableEq, Repr

def prettyConnectStateClass : Nat → Text
  | 0 => "Active".toList
  | 1 => "Up".toList
  | 2 => "Query".toList
  | 3 => "Shadow".toList
  | 4 => "DC".toList
  | 5 => "Idle".toList
  | 6 => "Listen".toList
  | 7 => "Reset".toList
  | 8 => "Down".toList
  | 9 => "Init".toList
  | _ => "Unknown".toList

/-- `%2lu`. -/
def twoWide (n : Nat) : Text := List.leftpad 2 ' ' (printUnsigned n)

/-- The buffer `idle` of who_PrettySession. -/
def prettyIdle (idle : Idle) : Text :=
  if idle.days ≥ 99 then "99+ days".toList
  else if idle.minutes ≥ 5 ∨ idle.hours ≠ 0 ∨ idle.days ≠ 0 then
    (twoWide idle.days ++ 'd' :: ' ' :: twoWide idle.hours ++ 'h' :: ' ' ::
      twoWide idle.minutes ++ ['m']).take 11
  else "(Active)".toList

def whoRowSize : Nat := 80

def prettySession (session : Session) : Text :=
  let logonTime :=
    if session.logonDate.wYear > 0 then prettySystemtime session.logonDate 20 else ['-']
  (List.rightpad 15 ' ' session.userName ++ '\t' ::
    List.rightpad 15 ' ' session.sessionName ++ '\t' ::
    List.leftpad 4 ' ' (printUnsigned session.id) ++ '\t' ::
    List.rightpad 7 ' ' (prettyConnectStateClass session.state) ++ '\t' ::
    List.leftpad 12 ' ' (prettyIdle session.idle) ++ '\t' ::
    List.rightpad 20 ' ' logonTime).take (whoRowSize - 1)

/-- The three divisions of `idle_ms`. -/
def Idle.ofMs (idleMs : Nat) : Idle where
  days := idleMs / day
  hours := idleMs % day / hour
  minutes := idleMs % hour / minute

/-- `idle_ms`: a difference of two LONGLONG, as a DWORD. -/
def WtsInfo.idleMs (info : WtsInfo) : Nat :=
  wrap 32 ((signed 64 (info.currentTime - info.lastInputTime)).tdiv 10000)

/-- What the body of the loop makes of an element of `output`; it does not store the state. -/
def Session.store (fileTimeToSystemTime : Nat → SystemTime → SystemTime) (session : Session)
    (info : WtsInfo) : Session :=
  { session with
    id := info.sessionId
    idle := Idle.ofMs info.idleMs
    logonDate :=
      if info.lastInputTime ≠ 0 then
        fileTimeToSystemTime (wrap 64 info.lastInputTime) session.logonDate
      else ⟨0, 0, 0, 0, 0, 0⟩
    userName := clampString info.userName 16
    sessionName := clampString info.winStationName 16 }

/-- The loop of who_GetSessions with `numProcessedSessions`; `output` is what the array holds
before. Where a query fails, the block that is read is freed, or none at all. -/
def sessionsLoop (fileTimeToSystemTime : Nat → SystemTime → SystemTime) (output : Nat → Session)
    (maxNumSessions : Nat) : Nat → List (Option WtsInfo) → Option (List Session)
  | _, [] => some []
  | processed, query :: rest =>
    if processed < maxNumSessions then do
      let info ← query
      if info.sessionId = 0 then
        sessionsLoop fileTimeToSystemTime output maxNumSessions processed rest
      else do
        let sessions ← sessionsLoop fileTimeToSystemTime output maxNumSessions (processed + 1) rest
        some ((output processed).store fileTimeToSystemTime info :: sessions)
    else some []

/-- who_GetSessions: the sessions it stores. `retrieved` is what the query of each session that
WTSEnumerateSessions lists answers, and nothing where there is no list. -/
def getSessions (fileTimeToSystemTime : Nat → SystemTime → SystemTime) (output : Nat → Session)
    (maxNumSessions : Nat) : Option (List (Option WtsInfo)) → Option (List Session)
  | none => some []
  | some retrieved => sessionsLoop fileTimeToSystemTime output maxNumSessions 0 retrieved

/-! ### winuptime.c -/

/-- GetTickCount, `uptime` milliseconds after the boot. -/
def getTickCount (uptime : Nat) : Nat := uptime % 2 ^ 32

def uptimeDays (msSinceBoot : Nat) : Nat := msSinceBoot / day

/-- The line of clog_winuptime; `boottime` is uninitialised before. -/
def winuptimeLine (fileTimeToSystemTime : Nat → SystemTime → SystemTime) (boottime : SystemTime)
    (systime msSinceBoot : Nat) : Text :=
  let boottime := fileTimeToSystemTime (wrap 64 (systime - msSinceBoot * 10000)) boottime
  "up ".toList ++ printUnsigned (uptimeDays msSinceBoot) ++ " days, ".toList ++
    twoDigits (msSinceBoot % day / hour) ++ ':' :: twoDigits (msSinceBoot % hour / minute) ++
    ", since ".toList ++ printUnsigned boottime.wYear ++ '-' :: twoDigits boottime.wMonth ++
    '-' :: twoDigits boottime.wDay ++ ' ' :: twoDigits boottime.wHour ++
    ':' :: twoDigits boottime.wMinute ++ ':' :: twoDigits boottime.wSecond

/-! ### cpu.c -/

/-- get_uptime. `long long` minus `uint64_t` is unsigned, and so is the division; LONG has 32
bits. Nothing where there is no row or value to read, or the frequency is zero. -/
def getUptime (pc : PerfAnswer) : Option Int :=
  match pc.table with
  | .null => some 0
  | .rows rows => do
    let row ← rows.head?
    let value ← firstValue row
    let time ← pc.perfTime
    let freq ← pc.perfFreq
    if freq = 0 then none else some (signed 32 ((time - value) / freq).toNat)

/-- `um`. -/
def uptimeMinutes (ut : Int) : Int := ut.tdiv 60

def daysUp (um : Int) : Int := um.tdiv (24 * 60)

/-- The buffer `up` of `cpu`. -/
def upText (um : Int) : Text :=
  if um < 24 * 60 then
    List.leftpad 2 '0' (printInt (um.tdiv 60)) ++ ':' ::
      List.leftpad 2 '0' (printInt (um.tmod 60))
  else printInt (daysUp um) ++ " days".toList

end MrBig.Source.Durations
