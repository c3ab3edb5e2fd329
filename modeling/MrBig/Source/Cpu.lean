import MrBig.Source.ReadPerf

/-!
# The load of the processor

`get_load` of cpu.c. The two static samples are the state. `time_t` has `timeBits` bits; a
result that its type does not have is a fault, and so is a division by zero.
-/

set_option autoImplicit false

namespace MrBig.Source.Cpu
open Library.Word ReadPerf

/-! ### The sample -/

def total : Text := "_Total".toList

/-- The loop that looks for _Total, which tests `perfc[0].instance` in front of every row.
Nothing where NULL is compared or a row behind the table is read. -/
def totalLoop (first : Option Text) : List PerfCounter → Option PerfCounter
  | [] => none
  | row :: rest =>
    match first with
    | none => some row
    | some _ =>
      match row.inst with
      | none => none
      | some inst => if strcmp inst total = .eq then some row else totalLoop first rest

def totalRow : List PerfCounter → Option PerfCounter
  | [] => none
  | row :: rest => totalLoop row.inst (row :: rest)

def firstValue (row : PerfCounter) : Option UInt64 :=
  match row.value with
  | some (value :: _) => some value
  | _ => none

/-- `proc1` before the conversion to `long long`. -/
def idleSample (version : Int) (rows : List PerfCounter) : Option UInt64 :=
  if 5 ≤ version then do
    let row ← totalRow rows
    if row.inst = none then some 0 else firstValue row
  else do
    let row ← rows.head?
    firstValue row

/-! ### The load -/

structure LoadState where
  time0 : Int
  proc0 : Int
  deriving DecidableEq, Repr

def LoadState.start : LoadState := ⟨0, 0⟩

structure LoadAnswer where
  load : Int
  fault : Bool
  deriving DecidableEq, Repr

/-- `100-(proc1-proc0)/100000/(time1-time0)`. -/
def periodLoad (timeBits : Nat) (proc time : Int) : LoadAnswer :=
  let rest := 100 - ((signed 64 proc).tdiv 100000).tdiv (signed timeBits time)
  ⟨signed 32 rest,
    !(Fits 64 proc && Fits timeBits time && signed timeBits time != 0 && Fits 64 rest &&
      Fits 32 rest)⟩

/-- The sanity check. -/
def clamp (answer : LoadAnswer) : LoadAnswer :=
  ⟨if answer.load < 0 then 0 else answer.load, answer.fault⟩

/-- A call after the sample is taken. -/
def takeSample (timeBits : Nat) (state : LoadState) (proc1 time1 : Int) : LoadState × LoadAnswer :=
  let answer : LoadAnswer :=
    if state.proc0 ≠ 0 ∧ state.time0 < time1 then
      periodLoad timeBits (proc1 - state.proc0) (time1 - state.time0)
    else ⟨0, false⟩
  (⟨time1, proc1⟩, clamp answer)

/-- What a call has to go by: the clock, and the sample if there is a table. -/
structure Reading where
  sample : Option UInt64
  now : Int
  deriving DecidableEq, Repr

def loadStep (timeBits : Nat) (state : LoadState) (reading : Reading) : LoadState × LoadAnswer :=
  match reading.sample with
  | none => (state, ⟨0, false⟩)
  | some sample => takeSample timeBits state (signed 64 sample.toNat) reading.now

/-- A call: the version of Windows, what read_perfcounters returns and what `time` does. -/
structure LoadCall where
  version : Int
  perfc : PerfCounters
  now : Int

def LoadCall.reading (call : LoadCall) : Option Reading :=
  match call.perfc with
  | .null => some ⟨none, call.now⟩
  | .rows rows => (idleSample call.version rows).map fun sample => ⟨some sample, call.now⟩

def getLoad (timeBits : Nat) (state : LoadState) (call : LoadCall) :
    Option (LoadState × LoadAnswer) :=
  call.reading.map (loadStep timeBits state)

/-- One call after the other. -/
def getLoads (timeBits : Nat) : LoadState → List LoadCall → Option (List LoadAnswer)
  | _, [] => some []
  | state, call :: rest => do
    let (next, answer) ← getLoad timeBits state call
    let answers ← getLoads timeBits next rest
    some (answer :: answers)

end MrBig.Source.Cpu
