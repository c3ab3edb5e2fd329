import MrBig.Source.Arena

/-!
# The recent reboots

clientlog/reboots.c:36-147. A record of the event log is its members, and a batch the records that
one call of ReadEventLog stores one behind the other, with the number of bytes. `time_t` has
`timeBits` bits, 64 of them in the x64 build.
-/

set_option autoImplicit false

namespace MrBig.Source.RecentReboots
open Library Library.Word

def maxRecordSize : Nat := 0x10000
def maxEventAge : Int := 30 * (60 * 60 * 24)
def eventlogStoppedEventId : Nat := 6006
def systemRestartInitatedEventId : Nat := 1074

/-- EVENTLOGRECORD, with its strings. -/
structure EventRecord where
  length : Nat
  timeGenerated : Nat
  eventId : Nat
  strings : List Text
  deriving DecidableEq, Repr

/-- reboots_Event; the timestamp is the FILETIME that FileTimeToSystemTime is given. -/
structure Reboot where
  fileTime : Int
  reason : Text
  user : Text
  deriving DecidableEq, Repr

/-- What a successful call of ReadEventLog stores. -/
structure Batch where
  records : List EventRecord
  readBytes : Nat

inductive ReadOutcome where
  | read (batch : Batch)
  | insufficientBuffer (minNumberOfBytesNeeded : Nat)
  | failed

/-- What ReadEventLog does in a call of reboots_LoadEvents, and again after a second allocation. -/
structure LoadOutcome where
  first : ReadOutcome
  second : ReadOutcome

/-- What reboots_LoadEvents returns: a pointer to the records of a batch, or NULL. -/
structure Loaded where
  lpBuffer : Nat
  batch : Batch

def ReadOutcome.loaded (lpBuffer : Nat) : ReadOutcome → Option Loaded
  | .read batch => some ⟨lpBuffer, batch⟩
  | .insufficientBuffer _ | .failed => none

/-- reboots_LoadEvents: the state, the `End` of the arena and what is returned; nothing where an
allocation throws. -/
def loadEvents (bits : Nat) (state : ArenaState) (aEnd : Nat) (o : LoadOutcome) :
    Option (ArenaState × Nat × Option Loaded) := do
  let (state, lpBuffer) ← arenaAllocate bits state aEnd 1 1 maxRecordSize
  match o.first with
  | .insufficientBuffer minNumberOfBytesNeeded =>
    let more := wrap 32 (minNumberOfBytesNeeded - maxRecordSize)
    let (state, lpBuffer) ← arenaAllocate bits state lpBuffer more 4 1
    some (state, lpBuffer, o.second.loaded lpBuffer)
  | outcome => some (state, lpBuffer, outcome.loaded lpBuffer)

/-- The first allocation, which is not aligned. -/
theorem allocate_maxRecordSize {bits : Nat} {state : ArenaState} {aEnd : Nat} (words : 31 ≤ bits)
    (ordered : state.currentStart ≤ aEnd) (small : aEnd < 2 ^ (bits + 1))
    (room : aEnd - state.currentStart < 2 ^ bits) :
    arenaAllocate (bits + 1) state aEnd 1 1 maxRecordSize =
      if state.currentStart + maxRecordSize ≤ aEnd then
        let lpBuffer := aEnd - maxRecordSize
        let zeros := List.replicate maxRecordSize nul
        some ({ state with memory := Memory.store state.memory lpBuffer zeros }, lpBuffer)
      else none := by
  have power : 2 ^ 31 ≤ 2 ^ bits := Nat.pow_le_pow_right (by omega) words
  have amount : maxRecordSize * 1 < 2 ^ bits := Nat.lt_of_lt_of_le (by decide) power
  have granted := arenaAllocate_eq (k := 0) ordered small room amount (Nat.zero_le _)
  have unaligned (n : Nat) : n % 2 ^ 0 = 0 := Nat.mod_one n
  simp only [unaligned, Nat.sub_zero, Nat.mul_one] at granted
  rw [← Nat.pow_zero 2, granted]
  split <;> split
  next => rfl
  next => omega
  next => omega
  next => rfl

/-- `numRebootsFound` and the array that `output` points to. -/
structure Found where
  numRebootsFound : Nat
  output : Nat → Option Reboot

/-- What is stored of a record. -/
def reboot (r : EventRecord) : Reboot where
  fileTime := signed 32 r.timeGenerated * 10000000 + 116444736000000000
  reason := (r.strings[2]?.map (·.take 47)).getD "Unknown".toList
  user := (r.strings[6]?.map (·.take 31)).getD "Unknown".toList

/-- The body of the inner loop. A "Stopped" event is remembered, but the time stored is that of the
record either way. -/
def examine (found : Found) (r : EventRecord) : Found :=
  let eventId := r.eventId % 0x10000
  if eventId = eventlogStoppedEventId then found
  else if eventId = systemRestartInitatedEventId then
    ⟨found.numRebootsFound + 1,
      Function.update found.output found.numRebootsFound (some (reboot r))⟩
  else found

/-- `currentTime - currEventRecord->TimeGenerated`. A DWORD is subtracted, and the difference is
unsigned unless `time_t` is wider. -/
def age (timeBits : Nat) (currentTime : Int) (r : EventRecord) : Int :=
  if timeBits ≤ 32 then wrap 32 (currentTime - r.timeGenerated) else currentTime - r.timeGenerated

/-- The inner loop; nothing where a record behind the last one is read. -/
def innerLoop (timeBits maxNumReboots : Nat) (currentTime : Int) :
    List EventRecord → Nat → Found → Option Found
  | [], readBytes, found =>
    if readBytes > 0 ∧ found.numRebootsFound < maxNumReboots then none else some found
  | r :: rest, readBytes, found =>
    if readBytes > 0 ∧ found.numRebootsFound < maxNumReboots ∧
        age timeBits currentTime r < maxEventAge then
      innerLoop timeBits maxNumReboots currentTime rest (wrap 32 (readBytes - r.length))
        (examine found r)
    else some found

/-- The outer loop, over what the calls of reboots_LoadEvents find; behind them the log ends. Every
one is given the `End` of `scratch`. -/
def outerLoop (timeBits bits scratchEnd maxNumReboots : Nat) (currentTime : Int) :
    List LoadOutcome → ArenaState → Found → Option Found
  | [], state, found =>
    (loadEvents bits state scratchEnd ⟨.failed, .failed⟩).map fun _ => found
  | load :: rest, state, found =>
    match loadEvents bits state scratchEnd load with
    | none => none
    | some (_, _, none) => some found
    | some (state, _, some logEventRecords) => do
      let found ← innerLoop timeBits maxNumReboots currentTime logEventRecords.batch.records
        logEventRecords.batch.readBytes found
      outerLoop timeBits bits scratchEnd maxNumReboots currentTime rest state found

/-- reboots_RecentReboots at a time: the number it returns and what it leaves in `output`; nothing
where the arena throws or a record is read that is not there. -/
def recentReboots (timeBits bits : Nat) (state : ArenaState) (scratchEnd maxNumReboots : Nat)
    (currentTime : Int) (output : Nat → Option Reboot) (loads : List LoadOutcome) : Option Found :=
  outerLoop timeBits bits scratchEnd maxNumReboots currentTime loads state ⟨0, output⟩

end MrBig.Source.RecentReboots
