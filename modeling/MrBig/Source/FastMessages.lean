import MrBig.Library.Run
import MrBig.Source.Files
import MrBig.Source.Msgs

/-!
# fastmsgs.cfg

msgs.c:150-268. In the automatic mode `msgs` writes a file before it reads the logs and removes
it behind them; a pass that finds the file reads no more than the latest events of each log.
The agent can end between any two calls on the file.
-/

set_option autoImplicit false

namespace MrBig.Source
open Library

/-- A call of `msgs` on the file; what `fprintf` prints is in the file with the `big_fclose`
behind it. -/
inductive FileCall where
  | create
  | print (text : Text)
  | remove
  deriving DecidableEq, Repr

def FileCall.run (name : Text) (files : FileSys) : FileCall → FileSys
  | .create => files.create name
  | .print text => files.append name text
  | .remove => files.remove name

namespace MsgsInput

variable (input : MsgsInput)

def isAuto : Bool := input.fastmsgsMode == "auto".toList

def noMsgs : Bool := (getOption input.options "no_msgs".toList false).isSome

/-- The calls before the logs are read. -/
def marks : List FileCall :=
  if input.isAuto then
    [.create, .print ("processing messages; fastfile = ".toList ++
      (if input.fastfile then "1" else "0").toList ++ "\n".toList)]
  else []

/-- The calls behind the last log. -/
def unmarks : List FileCall :=
  if input.fastfile then [.create, .print "done processing messages\n".toList]
  else if input.isAuto then [.remove]
  else []

/-- `fastfile` as `msgs` sets it. -/
def lookForFile (fastmsgsfile : Text) (files : FileSys) : MsgsInput :=
  { input with fastfile := input.isAuto && (files.read fastmsgsfile).isSome }

end MsgsInput

/-- A pass of `msgs`. If the agent ends in its course, `ends` is the number of calls on the file
it has made by then. -/
structure MsgsPass where
  input : MsgsInput
  conf : List Config
  ends : Option Nat

/-- What a pass does: the last argument of `read_log`, if it comes to the logs, and the report,
if it comes to its end. -/
structure MsgsOutcome where
  fast : Option Bool
  report : Option Report
  deriving DecidableEq

def msgsPass (fastmsgsfile : Text) (files : FileSys) (pass : MsgsPass) : FileSys × MsgsOutcome :=
  let input := pass.input.lookForFile fastmsgsfile files
  if input.noMsgs then (files, ⟨none, some (msgs input pass.conf)⟩)
  else
    let calls := input.marks ++ input.unmarks
    match pass.ends with
    | none =>
      (calls.foldl (FileCall.run fastmsgsfile) files,
        ⟨some input.fast, some (msgs input pass.conf)⟩)
    | some made =>
      ((calls.take made).foldl (FileCall.run fastmsgsfile) files,
        ⟨if input.marks.length ≤ made then some input.fast else none, none⟩)

/-- What happens to the file: passes of `msgs`, and whoever looks after the machine. -/
inductive MsgsEvent where
  | pass (pass : MsgsPass)
  | place (content : Text)
  | delete

def msgsStep (fastmsgsfile : Text) (files : FileSys) : MsgsEvent → FileSys × Option MsgsOutcome
  | .pass pass =>
    let (files, outcome) := msgsPass fastmsgsfile files pass
    (files, some outcome)
  | .place content => ((files.create fastmsgsfile).append fastmsgsfile content, none)
  | .delete => (files.remove fastmsgsfile, none)

end MrBig.Source
