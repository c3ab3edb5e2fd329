import MrBig.Source.Files
import MrBig.Source.Winsock

/-!
# Downloading the configuration: `recv_cfg`

cfg.c:95-229. A script holds the outcomes of the calls `recv_cfg` makes: opening the
temporary file, the winsock calls up to `connect`, and for each pass of the receive
loop the clock, `recv` and the exception set of `select`.
-/

set_option autoImplicit false

namespace MrBig.Source

def cacheName : Text := "cfg.cache".toList
def tempName : Text := "cfg.cache-".toList

/-- What `recv` may deliver into `b`. -/
structure Chunk where
  bytes : Text
  nonempty : bytes ≠ []
  fits : bytes.length ≤ 32000
  deriving DecidableEq, Repr

inductive RecvResult where
  | data (chunk : Chunk)
  | closed
  | error (code : Nat)
  deriving DecidableEq, Repr

/-- One pass of the receive loop: the two readings of the clock, then `recv`, then
whether the socket is in the exception set. -/
structure RecvPass where
  now : Int
  now' : Int
  recv : RecvResult
  exception : Bool
  deriving DecidableEq, Repr

structure RecvScript where
  fopen : Bool
  startWinsock : Bool
  socket : Bool
  bind : Bool
  ioctlsocket : Bool
  setsockopt : Bool
  /-- the error code, if `connect` fails -/
  connect : Option Nat
  startTime : Int
  passes : List RecvPass
  deriving DecidableEq, Repr

/-- How `recv_cfg` ends; `running` is a script that leaves it inside its loop. -/
inductive RecvExit where
  | success | failure | running
  deriving DecidableEq, Repr

def recvLoop (startTime : Int) : List RecvPass → FileSys → RecvExit × FileSys
  | [], files => (.running, files)
  | pass :: rest, files =>
    if timedOut startTime pass.now pass.now' then (.failure, files)
    else
      match pass.recv with
      | .error code =>
        if code ≠ WSAEWOULDBLOCK ∧ code ≠ WSAENOTCONN then (.failure, files)
        else if pass.exception then (.failure, files)
        else recvLoop startTime rest files
      | .data chunk =>
        let files := files.append tempName chunk.bytes
        if pass.exception then (.failure, files)
        else recvLoop startTime rest files
      | .closed => (.success, files)

/-- The calls between `start_winsock` and the loop all went well. -/
def connects (s : RecvScript) : Bool :=
  s.socket && s.bind && s.ioctlsocket && s.setsockopt && connecting s.connect

def recvCfg (s : RecvScript) (files : FileSys) : RecvExit × FileSys :=
  if s.fopen = false then (.failure, files)
  else
    let files := files.create tempName
    if s.startWinsock = false then (.failure, files)
    else
      let (exit, files) :=
        if connects s = false then (.failure, files) else recvLoop s.startTime s.passes files
      match exit with
      | .success =>
        -- on windows, renaming to a name that exists is an error
        (.success, (files.remove cacheName).rename tempName cacheName)
      | .failure => (.failure, files)
      | .running => (.running, files)

end MrBig.Source
