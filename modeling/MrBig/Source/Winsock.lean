import MrBig.Source.CString

/-!
# What the two network loops have in common

Both `recv_cfg` and `send_update` give a loop on a non-blocking socket ten seconds,
and read the clock twice to see whether they are over.
-/

set_option autoImplicit false

namespace MrBig.Source

def WSAEWOULDBLOCK : Nat := 10035
def WSAENOTCONN : Nat := 10057

/-- `time(NULL) > start_time + 10 || time(NULL) < start_time`. -/
def timedOut (startTime now now' : Int) : Prop := now > startTime + 10 ∨ now' < startTime

instance (startTime now now' : Int) : Decidable (timedOut startTime now now') :=
  inferInstanceAs (Decidable (_ ∨ _))

/-- A `connect` that did not fail for good; `failure` is the error code, if there is one. -/
def connecting (failure : Option Nat) : Bool :=
  failure = none || failure = some WSAEWOULDBLOCK

end MrBig.Source
