import MrBig.Library.Word
import MrBig.Source.Settings
import MrBig.Source.Status

/-!
# The main loop

mrbig.c:1002-1066. A pass is the two readings of the clock, the settings of the pass and the
calls of `mrsend` that its tests make in between. `sleeptime` is an `int`, and `Sleep` takes
milliseconds as a DWORD.
-/

set_option autoImplicit false

namespace MrBig.Source
open Library

def SLEEP_MIN : Int := 10

/-- `sleeptime` for a pass that began at `lastrun` and ended at `t`. -/
def sleepTime (mrloop lastrun t : Int) : Int :=
  let sleeptime := if t < lastrun then mrloop else Word.signed 32 (mrloop - (t - lastrun))
  if sleeptime < SLEEP_MIN then SLEEP_MIN else sleeptime

/-- The argument of `Sleep(sleeptime*1000)`. -/
def sleepMillis (sleeptime : Int) : Nat := Word.wrap 32 (sleeptime * 1000)

structure Pass where
  mrloop : Int
  mrsleep : Int
  lastrun : Int
  t : Int
  calls : List Call

/-- How long the loop sleeps after the pass, in milliseconds. -/
def Pass.slept (p : Pass) : Nat := sleepMillis (sleepTime p.mrloop p.lastrun p.t)

/-- The statuses that a run of the loop hands over. -/
def mainLoop (teststatus : List TestStatus) (passes : List Pass) : List (Option Handover) :=
  Run.outputs mrsend teststatus (passes.flatMap Pass.calls)

end MrBig.Source
