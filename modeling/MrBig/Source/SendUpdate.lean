import Mathlib.Algebra.Ring.Int.Defs
import MrBig.Source.Status
import MrBig.Source.Winsock

/-!
# Sending to the displays: `send_update`

mrbig.c:10-16 and 725-862. The sockets do not block, so the displays progress on their
own: every pass of the loop offers each of them what it has not taken yet. `select`
only waits and its result is not used. `calls` is a ghost: the socket calls this
`send_update` has made for the display.
-/

set_option autoImplicit false

namespace MrBig.Source

def intMax : Nat := 2147483647

/-- Conversion to a 32-bit `int`. -/
def toInt (n : Nat) : Int := (n : Int).bmod 4294967296

/-- A text whose length is an `int`: the buffers of both callers are not larger. -/
structure Message where
  text : Text
  short : text.length ≤ intMax

theorem Handover.text_length (o : Handover) : o.text.length ≤ o.reportSize - 1 := by
  rw [Handover.text, snprcat_nil, List.length_take]
  exact Nat.min_le_left _ _

/-- What `mrsend` hands over; `report_size` is an `int`. -/
def Handover.report (o : Handover) (isInt : o.reportSize ≤ intMax) : Message :=
  ⟨o.text, Nat.le_trans o.text_length (Nat.le_trans (Nat.sub_le o.reportSize 1) isInt)⟩

/-- `send` fails, or the socket takes `len` bytes, or all there are if that is less. -/
inductive SendResult where
  | error
  | taken (len : Nat)
  deriving DecidableEq, Repr

inductive SocketCall where
  | socket | bind | ioctlsocket | setsockopt | connect | shutdown
  | send (data : Text) (result : SendResult)
  | closesocket (closed : Bool)
  deriving DecidableEq, Repr

/-- struct display without its address and link. `s` is none for -1, and `pdata` the
distance from the start of the message. -/
structure Display where
  s : Option Nat
  pdata : Nat
  remaining : Int
  calls : List SocketCall
  deriving DecidableEq, Repr

/-- What the calls that set a display up return. -/
structure SetupScript where
  socket : Option Nat
  bind : Bool
  ioctlsocket : Bool
  setsockopt : Bool
  /-- the error code, if `connect` fails -/
  connect : Option Nat
  closesocket : Bool
  deriving DecidableEq, Repr

/-- The body of the first loop. A display whose setup fails keeps what an earlier
message left in its other fields. -/
def Display.setup (p : Message) (o : SetupScript) (d : Display) : Display :=
  match o.socket with
  | none => { d with s := none, calls := [.socket] }
  | some s =>
    if o.bind = false then
      { d with s := none, calls := [.socket, .bind, .closesocket o.closesocket] }
    else if o.ioctlsocket = false then
      { d with s := none, calls := [.socket, .bind, .ioctlsocket, .closesocket o.closesocket] }
    else if o.setsockopt = false then
      { d with
        s := none
        calls := [.socket, .bind, .ioctlsocket, .setsockopt, .closesocket o.closesocket] }
    else if connecting o.connect = false then
      { d with
        s := none
        calls := [.socket, .bind, .ioctlsocket, .setsockopt, .connect, .setsockopt,
          .closesocket o.closesocket] }
    else
      { s := some s
        pdata := 0
        remaining := toInt p.text.length
        calls := [.socket, .bind, .ioctlsocket, .setsockopt, .connect] }

/-- Every call of a setup went well. -/
def SetupScript.succeeds (o : SetupScript) : Bool :=
  o.socket.isSome && o.bind && o.ioctlsocket && o.setsockopt && connecting o.connect

/-- The loops go over the displays whose socket is open and that have not taken all. -/
def Display.Pending (d : Display) : Prop := d.s ≠ none ∧ d.remaining > 0

instance (d : Display) : Decidable d.Pending := inferInstanceAs (Decidable (_ ∧ _))

/-- The body of the second loop over the displays. -/
def Display.send (p : Message) (r : SendResult) (d : Display) : Display :=
  if d.Pending then
    let data := (p.text.drop d.pdata).take d.remaining.toNat
    match r with
    | .error => { d with calls := d.calls ++ [.send data r] }
    | .taken len =>
      let len := min len data.length
      let d := { d with
        pdata := d.pdata + len
        remaining := d.remaining - len
        calls := d.calls ++ [.send data r] }
      if d.remaining = 0 then { d with calls := d.calls ++ [.shutdown] } else d
  else d

/-- How the loop is left. `overflow` is the undefined behaviour of adding up more than
an `int` holds. -/
inductive LoopExit where
  | nothingRemains | timedOut | overflow
  deriving DecidableEq, Repr

/-- Where `send_update` is: at the head of its loop, between two displays of a pass, or
behind the loop. -/
inductive SendState where
  | top (displays : List Display)
  | sending (before after : List Display)
  | left (why : LoopExit) (displays : List Display)
  deriving DecidableEq, Repr

def SendState.displays : SendState → List Display
  | .top displays => displays
  | .sending before after => before ++ after
  | .left _ displays => displays

/-- What one step of the loop may read: the clock, twice, or the result of a `send`. -/
structure SendEvent where
  now : Int
  now' : Int
  send : SendResult
  deriving DecidableEq, Repr

def totRemaining (displays : List Display) : Int :=
  ((displays.filter fun d => d.Pending).map Display.remaining).sum

def sendStep (p : Message) (startTime : Int) (state : SendState) (e : SendEvent) : SendState :=
  match state with
  | .top displays =>
    if totRemaining displays > intMax then .left .overflow displays
    else if totRemaining displays = 0 then .left .nothingRemains displays
    else if timedOut startTime e.now e.now' then .left .timedOut displays
    else .sending [] displays
  | .sending before [] => .top before
  | .sending before (d :: after) => .sending (before ++ [d.send p e.send]) after
  | .left why displays => .left why displays

/-- The displays of a message with what becomes of their setup. -/
abbrev Targets := List (Display × SetupScript)

def setupAll (p : Message) (targets : Targets) : List Display :=
  targets.map fun t => t.1.setup p t.2

def sendLoop (p : Message) (startTime : Int) (targets : Targets) (events : List SendEvent) :
    SendState :=
  events.foldl (sendStep p startTime) (.top (setupAll p targets))

/-- The cleanup of one display. Whatever `closesocket` returns, it is not
`WSAEWOULDBLOCK`, and the loop around it has no other end than its count. -/
def Display.cleanup (closed : Nat → Bool) (d : Display) : Display :=
  if d.s = none then d
  else
    { d with
      s := none
      calls := d.calls ++ [.shutdown] ++ (List.range 10).map (fun i => .closesocket (closed i)) ++
        [.setsockopt, .closesocket (closed 10)] }

/-- `send_update`, as far as the events reach; none before its end. -/
def sendUpdate (p : Message) (startWinsock : Bool) (startTime : Int) (targets : Targets)
    (events : List SendEvent) (closed : Nat → Nat → Bool) : Option (List Display) :=
  if startWinsock = false then some (targets.map fun t => { t.1 with calls := [] })
  else
    match sendLoop p startTime targets events with
    | .left .overflow _ => none
    | .left _ displays => some (displays.mapIdx fun i d => d.cleanup (closed i))
    | _ => none

end MrBig.Source
