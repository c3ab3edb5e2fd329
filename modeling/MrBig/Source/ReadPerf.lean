import Mathlib.Data.Nat.Digits.Defs
import MrBig.Library.Chain
import MrBig.Library.Memory
import MrBig.Library.Word
import MrBig.Source.CString

/-!
# The performance counters

readperf.c. The bytes that RegQueryValueEx stores are addressed from the start of the block on;
the members of the structures of winperf.h stand where that header puts them. What
WideCharToMultiByte makes of a name is given.
-/

set_option autoImplicit false

namespace MrBig.Source.ReadPerf
open Library Library.Memory Library.Word

abbrev Bytes := Nat → UInt8

/-- The number in some bytes, the lowest first. -/
def littleEndian (bytes : List UInt8) : Nat := Nat.ofDigits 256 (bytes.map UInt8.toNat)

def dword (data : Bytes) (address : Nat) : Nat := littleEndian (load data address 4)

def quadPart (data : Bytes) (address : Nat) : UInt64 :=
  UInt64.ofNat (littleEndian (load data address 8))

/-! ### The structures -/

/-- PERF_DATA_BLOCK. -/
def dataHeaderLength (data : Bytes) : Nat := dword data 24
def numObjectTypes (data : Bytes) : Nat := dword data 28

/-- PERF_OBJECT_TYPE. -/
def totalByteLength (data : Bytes) (op : Nat) : Nat := dword data op
def definitionLength (data : Bytes) (op : Nat) : Nat := dword data (op + 4)
def objectHeaderLength (data : Bytes) (op : Nat) : Nat := dword data (op + 8)
def objectNameTitleIndex (data : Bytes) (op : Nat) : Nat := dword data (op + 12)
def numCounters (data : Bytes) (op : Nat) : Nat := dword data (op + 32)
def numInstances (data : Bytes) (op : Nat) : Int := signed 32 (dword data (op + 40))
def perfTime (data : Bytes) (op : Nat) : UInt64 := quadPart data (op + 48)
def perfFreq (data : Bytes) (op : Nat) : UInt64 := quadPart data (op + 56)

def perfNoInstances : Int := -1

/-- PERF_COUNTER_DEFINITION. -/
def counterByteLength (data : Bytes) (cd : Nat) : Nat := dword data cd
def counterNameTitleIndex (data : Bytes) (cd : Nat) : Nat := dword data (cd + 4)
def counterSize (data : Bytes) (cd : Nat) : Nat := dword data (cd + 32)
def counterOffset (data : Bytes) (cd : Nat) : Nat := dword data (cd + 36)

/-- PERF_INSTANCE_DEFINITION. -/
def instanceByteLength (data : Bytes) (p : Nat) : Nat := dword data p
def nameOffset (data : Bytes) (p : Nat) : Nat := dword data (p + 16)

/-- PERF_COUNTER_BLOCK. -/
def blockByteLength (data : Bytes) (block : Nat) : Nat := dword data block

def firstObject (data : Bytes) : Nat := dataHeaderLength data
def nextObject (data : Bytes) (act : Nat) : Nat := act + totalByteLength data act
def firstCounter (data : Bytes) (op : Nat) : Nat := op + objectHeaderLength data op
def nextCounter (data : Bytes) (cd : Nat) : Nat := cd + counterByteLength data cd
def getCounterBlock (data : Bytes) (p : Nat) : Nat := p + instanceByteLength data p
def firstInstance (data : Bytes) (op : Nat) : Nat := op + definitionLength data op
def nextInstance (data : Bytes) (p : Nat) : Nat :=
  p + instanceByteLength data p + blockByteLength data (getCounterBlock data p)

/-! ### The lookups -/

/-- struct counter_info. -/
structure CounterInfo where
  size : Nat
  offset : Nat
  deriving DecidableEq, Repr

/-- The loop of get_counter_offset; with `base` the counter behind the next match is meant. -/
def counterLoop (data : Bytes) (counter : Nat) : Nat → Bool → Nat → Option CounterInfo
  | 0, _, _ => none
  | n + 1, base, cd =>
    if counterNameTitleIndex data cd = counter then
      if base then counterLoop data counter n false (nextCounter data cd)
      else some ⟨counterSize data cd, counterOffset data cd⟩
    else counterLoop data counter n base (nextCounter data cd)

/-- What get_counter_offset stores, if it returns 1. -/
def getCounterOffset (data : Bytes) (op counter : Nat) : Option CounterInfo :=
  counterLoop data (counter / 2 * 2) (numCounters data op) (counter % 2 = 1)
    (firstCounter data op)

def getObject (data : Bytes) (object : Nat) : Option Nat :=
  Chain.find (nextObject data) (fun op => objectNameTitleIndex data op = object)
    (numObjectTypes data) (firstObject data)

/-! ### read_perfcounters -/

/-- struct perfcounter; memory that nothing was stored to is no value. -/
structure PerfCounter where
  inst : Option Text
  value : Option (List UInt64)
  deriving DecidableEq

/-- What the function returns: NULL, or rows. -/
inductive PerfCounters where
  | null
  | rows (rows : List PerfCounter)
  deriving DecidableEq

/-- `memset` and `memcpy` of one value; more than eight bytes go behind it. -/
def copyValue (data : Bytes) (block : Nat) (ci : CounterInfo) : Option UInt64 :=
  if ci.size ≤ 8 then some (UInt64.ofNat (littleEndian (load data (block + ci.offset) ci.size)))
  else none

def copyValues (data : Bytes) (block : Nat) (ci : List CounterInfo) : Option (List UInt64) :=
  ci.mapM (copyValue data block)

/-- What surrounds a call. -/
structure PerfEnv where
  /-- What RegQueryValueEx stores once the buffer is large enough; nothing where it fails. -/
  query : Nat → Option Bytes
  /-- `ci` before anything is stored to it. -/
  fresh : Nat → CounterInfo
  /-- dup_wide_to_multi. -/
  dupWideToMulti : Bytes → Nat → Text

/-- The row of an instance. -/
def instanceRow (env : PerfEnv) (data : Bytes) (ci : List CounterInfo) (p : Nat) :
    Option PerfCounter := do
  let value ← copyValues data (getCounterBlock data p) ci
  some ⟨some (env.dupWideToMulti data (p + nameOffset data p)), some value⟩

/-- The rows of an object: one without instances, or one each and the terminator. -/
def objectRows (env : PerfEnv) (data : Bytes) (op : Nat) (ci : List CounterInfo) :
    Option (List PerfCounter) :=
  if numInstances data op = perfNoInstances then do
    let value ← copyValues data (op + definitionLength data op) ci
    some [⟨none, some value⟩]
  else do
    let rows ← (Chain.addresses (nextInstance data) (numInstances data op).toNat
      (firstInstance data op)).mapM (instanceRow env data ci)
    some (rows ++ [⟨none, none⟩])

/-- What the caller gets: the table, and the times where the object is there. -/
structure PerfAnswer where
  perfTime : Option UInt64
  perfFreq : Option UInt64
  table : PerfCounters

/-- read_perfcounters, with the counters in front of the zero. Nothing where a value is stored
behind its array. -/
def readPerfcounters (env : PerfEnv) (object : Nat) (counters : List Nat) : Option PerfAnswer :=
  match env.query object with
  | none => some ⟨none, none, .null⟩
  | some data =>
    match getObject data object with
    | none => some ⟨none, none, .null⟩
    | some op => do
      let ci := counters.zipIdx.map fun counter =>
        (getCounterOffset data op counter.1).getD (env.fresh counter.2)
      let rows ← objectRows env data op ci
      some ⟨some (perfTime data op), some (perfFreq data op), .rows rows⟩

/-- The value arrays that free_perfcounters hands to `big_free`. -/
def freedValues : PerfCounters → List (Option (List UInt64))
  | .null => []
  | .rows [] => []
  | .rows (first :: rest) =>
    if first.inst = none then [first.value]
    else ((first :: rest).takeWhile (·.inst.isSome)).map (·.value)

end MrBig.Source.ReadPerf
