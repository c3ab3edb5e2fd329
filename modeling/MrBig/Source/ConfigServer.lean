import MrBig.Library.Channel
import MrBig.Library.Run
import MrBig.Source.Minicfg
import MrBig.Source.SendUpdate

/-!
# The configuration server and its connections

minicfg.c:73-110: the accept loop, which opens bb-hosts for every client and closes it for
none, and the loop that sends the reply. A connection is the server's loop, the stream to the
client, and the passes of the client's receive loop; the two sides take their turns in any
order.
-/

set_option autoImplicit false

namespace MrBig.Source
open Library Library.Channel

/-- What `inet_ntoa` makes of the client's address. -/
structure Address where
  text : Text
  word : IsWord text
  noNul : '\x00' ∉ text
  fits : text.length ≤ 15

/-- The name that is looked up for a client. -/
def Address.machine (cli : Address) (bbHosts : Option Text) : MachineName :=
  have isName : ∃ machine : MachineName, machine.text = machineName cli.text bbHosts :=
    machineName_isName cli.word cli.noNul (Nat.lt_of_le_of_lt cli.fits (by decide)) bbHosts
  { text := machineName cli.text bbHosts
    word := by
      obtain ⟨machine, text⟩ := isName
      exact text ▸ machine.word
    noNul := by
      obtain ⟨machine, text⟩ := isName
      exact text ▸ machine.noNul
    fits := by
      obtain ⟨machine, text⟩ := isName
      exact text ▸ machine.fits }

/-- A client that connects, and bb-hosts as it is then, if it is there. -/
structure Accepted where
  cli : Address
  bbHosts : Option Text

section Accept

variable (display : DisplayName) (port : Int) (limit : Nat)

/-- `fopen(BB_HOSTS, "r")`. -/
def openHosts (opened : Nat) (a : Accepted) : Option Text := fopenRead limit opened a.bbHosts

/-- One turn of the accept loop up to the reply. There is no `fclose`. -/
def accept (opened : Nat) (a : Accepted) : Nat × Text :=
  let fp := openHosts limit opened a
  (if fp.isSome then opened + 1 else opened, reply (a.cli.machine fp) display port)

end Accept

/-! ### The loop that sends the reply -/

/-- Where minicfg is with a connection. `gaveUp` is a `send` that took nothing or failed. -/
structure Serving where
  m : Nat
  gaveUp : Bool
  closed : Bool
  deriving DecidableEq, Repr

def Serving.start : Serving := ⟨0, false, false⟩

/-- What a `send` of `n - m` bytes puts out. -/
def SendResult.amount (offered : Nat) : SendResult → Nat
  | .error => 0
  | .taken len => min len offered

/-- One turn of the loop with what its `send` returns, or the `closesocket` behind it. -/
def Serving.turn (n : Nat) (r : SendResult) (s : Serving) : Serving :=
  if s.closed then s
  else if s.m < n ∧ s.gaveUp = false then
    let x := r.amount (n - s.m)
    if x > 0 then { s with m := s.m + x } else { s with gaveUp := true }
  else { s with closed := true }

/-! ### A connection -/

def RecvResult.bytes : RecvResult → Text
  | .data chunk => chunk.bytes
  | _ => []

/-- The server's loop, the stream, and the passes the client's loop has made. -/
structure Connection where
  server : Serving
  pipe : Pipe Char
  passes : List RecvPass

def Connection.start : Connection := ⟨.start, .empty, []⟩

/-- A turn of the server. -/
def Connection.serve (sendbuf : Text) (r : SendResult) (c : Connection) : Connection :=
  let server := c.server.turn sendbuf.length r
  { c with
    server := server
    pipe :=
      if server.closed then c.pipe.close
      else c.pipe.write ((sendbuf.drop c.server.m).take (server.m - c.server.m)) }

/-- What `recv` may return: the next bytes of the stream, its end, or an error at any time. -/
def Offers (pipe : Pipe Char) : RecvResult → Prop
  | .data chunk => chunk.bytes <+: pipe.inFlight
  | .closed => pipe.AtEnd
  | .error _ => True

/-- A pass of the client's loop. -/
def Connection.receive (pass : RecvPass) (c : Connection) : Connection :=
  { c with pipe := c.pipe.read pass.recv.bytes.length, passes := c.passes ++ [pass] }

/-- How the two sides take turns; the client makes a pass while it is in its loop. -/
inductive Connection.Step (sendbuf : Text) (startTime : Int) (files : FileSys) :
    Connection → Connection → Prop
  | serve (c : Connection) (r : SendResult) : Step sendbuf startTime files c (c.serve sendbuf r)
  | receive (c : Connection) (pass : RecvPass) (offers : Offers c.pipe pass.recv)
      (inLoop : (recvLoop startTime c.passes (files.create tempName)).1 = .running) :
      Step sendbuf startTime files c (c.receive pass)

abbrev Connection.Reaches (sendbuf : Text) (startTime : Int) (files : FileSys) :
    Connection → Connection → Prop :=
  Relation.ReflTransGen (Connection.Step sendbuf startTime files)

end MrBig.Source
