import MrBig.Source.Durations
import MrBig.Source.Msgs
import MrBig.Source.Settings

/-!
# The cpu and memory tests

cpu.c:58-90, 144-239 and memory.c:24-95. What the formats for doubles print is a parameter; the
names come from the build.
-/

set_option autoImplicit false

namespace MrBig.Source.CpuMemory
open Library.Word ReadPerf Cpu Durations

/-- PACKAGE, VERSION and CPU. -/
structure Build where
  package : Text
  version : Text
  cpu : Text

/-- MEMORYSTATUSEX, as far as it is read. -/
structure MemoryStatus where
  dwMemoryLoad : UInt32
  ullTotalPhys : UInt64
  ullAvailPhys : UInt64
  ullTotalPageFile : UInt64
  ullAvailPageFile : UInt64
  ullTotalVirtual : UInt64
  ullAvailVirtual : UInt64

/-- One call of snprcat after the other. -/
def snprcats (a : Text) (n : Nat) (texts : List Text) : Text :=
  texts.foldl (fun a printed => snprcat a n printed) a

/-! ### cpu.c -/

/-- pscount: `cbNeeded` if EnumProcesses succeeds. -/
def pscount (cbNeeded : Option UInt32) : Int := (cbNeeded.map fun n => (n.toNat : Int) / 4).getD 0

/-- users. Nothing where there is no row or value to read. -/
def users (pc : PerfCounters) : Option Int :=
  match pc with
  | .null => some 0
  | .rows rows => do
    let row ← rows.head?
    let value ← firstValue row
    some (signed 32 value.toNat)

/-- What Windows answers to cpu(); `osvi` is the version if GetVersionEx says that it is NT. -/
structure CpuAnswers where
  uptime : PerfAnswer
  users : PerfCounters
  cbNeeded : Option UInt32
  osvi : Option (Int × Int)
  statex : MemoryStatus
  perfc : PerfCounters
  time : Int

def cpuLimits (s : Settings) : List Text :=
  ["\nLimits:\n".toList,
    "Yellow uptime: ".toList ++ printInt s.bootyellow ++ " minutes\n".toList,
    "Red uptime: ".toList ++ printInt s.bootred ++ " minutes\n".toList,
    "Yellow CPU: ".toList ++ printInt s.cpuyellow ++ "%\n".toList,
    "Red CPU: ".toList ++ printInt s.cpured ++ "%\n".toList]

/-- The colour and the buffer `r` that the uptime leads to. -/
def uptimeRemark (s : Settings) (um : Int) : Color × Text :=
  if um < s.bootred then (.red, snprcat [] 1000 "&red Machine recently rebooted\n".toList)
  else if um < s.bootyellow then
    (.yellow, snprcat [] 1000 "&yellow Machine recently rebooted\n".toList)
  else (.green, [])

/-- The colour with the load. -/
def loadColor (s : Settings) (color : Color) (load : Int) : Color :=
  if load ≥ s.cpured then .red
  else if load ≥ s.cpuyellow ∧ color = .green then .yellow
  else color

/-- The text in front of the limits; `bytes` prints `"%*.0f"` for a width of 15. -/
def cpuText (build : Build) (bytes : UInt64 → Text) (now up r : Text) (uc pc load : Int)
    (version : Int × Int) (statex : MemoryStatus) : Text :=
  now ++ " up: ".toList ++ up ++ ", ".toList ++ printInt uc ++ " users, ".toList ++ printInt pc ++
    " procs, load=".toList ++ printInt load ++ "%, PhysicalMem: ".toList ++
    printInt (signed 32 (statex.ullTotalPhys.toNat / (1024 * 1024) : Nat)) ++ "MB (".toList ++
    printInt (signed 32 statex.dwMemoryLoad.toNat) ++ "%)\n".toList ++ r ++
    "\nMemory Statistics\n".toList ++
    "Total physical memory:         ".toList ++ bytes statex.ullTotalPhys ++ " bytes\n".toList ++
    "Available physical memory:     ".toList ++ bytes statex.ullAvailPhys ++ " bytes\n".toList ++
    "Total pagefile size:           ".toList ++ bytes statex.ullTotalPageFile ++
    " bytes\n".toList ++
    "Available pagefile size:       ".toList ++ bytes statex.ullAvailPageFile ++
    " bytes\n".toList ++
    "Total virtual memory:          ".toList ++ bytes statex.ullTotalVirtual ++
    " bytes\n".toList ++
    "Available virtual memory size: ".toList ++ bytes statex.ullAvailVirtual ++
    " bytes\n\nWindows version ".toList ++ printInt version.1 ++ '.' :: printInt version.2 ++
    '\n' :: build.package ++ ' ' :: build.version ++ " (".toList ++ build.cpu ++ ")\n".toList

/-- The test: the samples of `get_load` and the call of `mrsend`. -/
def cpu (build : Build) (bytes : UInt64 → Text) (timeBits : Nat) (s : Settings) (now : Text)
    (state : LoadState) (o : CpuAnswers) : Option (LoadState × Report) :=
  if getOption s.options "no_cpu".toList false ≠ none then
    some (state, ⟨s.mrmachine, "cpu".toList, "clear".toList, "option no_cpu\n".toList⟩)
  else do
    let um := uptimeMinutes (← getUptime o.uptime)
    let uc ← users o.users
    match o.osvi with
    | none =>
      some (state, ⟨s.mrmachine, "cpu".toList, "red".toList, snprcat [] 5000
        ("No version info\n".toList ++ build.package ++ ' ' :: build.version ++ " (".toList ++
          build.cpu ++ ")\n".toList)⟩)
    | some version => do
      let (color, r) := uptimeRemark s um
      let up := snprcat [] 100 (upText um)
      let (state, answer) ← getLoad timeBits state ⟨version.1, o.perfc, o.time⟩
      let b := snprcat [] 5000
        (cpuText build bytes now up r uc (pscount o.cbNeeded) answer.load version o.statex)
      some (state, ⟨s.mrmachine, "cpu".toList, (loadColor s color answer.load).text,
        snprcats b 5000 (cpuLimits s)⟩)

/-! ### memory.c -/

def memoryLimits (s : Settings) : List Text :=
  ["\nLimits:\n".toList, "Yellow RAM: ".toList ++ printInt s.memyellow ++ ['\n'],
    "Red RAM: ".toList ++ printInt s.memred ++ ['\n']]

/-- A DWORD is compared with an int: both are unsigned. -/
def memoryColor (s : Settings) (memusage : UInt32) : Color :=
  if memusage.toNat > wrap 32 s.memred then .red
  else if memusage.toNat > wrap 32 s.memyellow then .yellow
  else .green

/-- A line of the table: used and total in megabytes, and the percentage. -/
def memoryRow (double : PrintDouble) (color : Color) (name : Text) (used total : Float)
    (pct : Int) : Text :=
  '&' :: color.text ++ name ++ double "%.0f" used ++ "M       ".toList ++ double "%.0f" total ++
    "M         ".toList ++ printInt pct ++ "%\n".toList

/-- Used and total bytes as doubles, and the percentage. -/
def usage (total avail : UInt64) : Float × Float × Int :=
  let used := total.toFloat - avail.toFloat
  (used, total.toFloat, (100 * used / total.toFloat).toInt32.toInt)

def memory (double : PrintDouble) (s : Settings) (now : Text) (statex : MemoryStatus) :
    Report :=
  if getOption s.options "no_memory".toList false ≠ none then
    ⟨s.mrmachine, "memory".toList, "clear".toList, "option no_memory\n".toList⟩
  else
    let color := memoryColor s statex.dwMemoryLoad
    let (pused, ptotal, ppct) := usage statex.ullTotalPhys statex.ullAvailPhys
    let (sused, stotal, spct) := usage statex.ullTotalPageFile statex.ullAvailPageFile
    let b := snprcat [] 5000 (now ++
      "\n\n   Memory              Used       Total  Percentage\n".toList ++
      memoryRow double color " Physical           ".toList (pused / 1024 / 1024)
        (ptotal / 1024 / 1024) ppct ++
      memoryRow double .green " Swap               ".toList (sused / 1024 / 1024)
        (stotal / 1024 / 1024) spct)
    ⟨s.mrmachine, "memory".toList, color.text, snprcats b 5000 (memoryLimits s)⟩

end MrBig.Source.CpuMemory
