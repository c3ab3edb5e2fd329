import MrBig.Source.ClientlogModules

/-!
# Parent and child of `clog_utils_RunCmdSynchronously`

clientlog/utils.c:118-165. The child writes its output into a pipe and exits; a write blocks
while the pipe is full. The parent waits for the process, and reads the pipe once the wait
has returned. The wait times out only on a child that is blocked, since one that can go on is
done within the time limit.
-/

set_option autoImplicit false

namespace MrBig.Source.RunCmd

def waitTimeout : Nat := 258
def bufread : Nat := 513

/-- Where the parent is; `closed` with the status that the wait has returned. -/
inductive Parent where
  | waiting
  | reading
  | closed (status : Nat)
  deriving DecidableEq, Repr

structure PipeState where
  /-- What the child has still to write. -/
  output : Text
  pipe : Text
  exited : Bool
  parent : Parent
  /-- What the calls of ReadFile have returned. -/
  reads : List Text
  deriving DecidableEq, Repr

/-- The child sits in a write to a full pipe. -/
def Blocked (capacity : Nat) (s : PipeState) : Prop :=
  s.exited = false ∧ s.output ≠ [] ∧ s.pipe.length = capacity

instance (capacity : Nat) (s : PipeState) : Decidable (Blocked capacity s) := instDecidableAnd

/-- A step of the child or of the parent. -/
inductive PipeStep (capacity : Nat) : PipeState → PipeState → Prop
  | write (s : PipeState) (n : Nat) (running : s.exited = false) (nonempty : 0 < n)
      (left : n ≤ s.output.length) (room : s.pipe.length + n ≤ capacity) :
      PipeStep capacity s
        { s with output := s.output.drop n, pipe := s.pipe ++ s.output.take n }
  | exit (s : PipeState) (running : s.exited = false) (written : s.output = []) :
      PipeStep capacity s { s with exited := true }
  | waitReturns (s : PipeState) (waits : s.parent = .waiting) (ended : s.exited = true) :
      PipeStep capacity s { s with parent := .reading }
  | waitTimesOut (s : PipeState) (waits : s.parent = .waiting) (blocked : Blocked capacity s) :
      PipeStep capacity s { s with parent := .closed waitTimeout }
  /-- ReadFile returns what is there, up to the size of the buffer. -/
  | read (s : PipeState) (n : Nat) (reads : s.parent = .reading) (nonempty : 0 < n)
      (buffer : n ≤ bufread - 1) (there : n ≤ s.pipe.length) :
      PipeStep capacity s
        { s with pipe := s.pipe.drop n, reads := s.reads ++ [s.pipe.take n] }
  /-- Behind the last byte the other end is closed, and ReadFile returns none. -/
  | readEnd (s : PipeState) (reads : s.parent = .reading) (empty : s.pipe = [])
      (ended : s.exited = true) :
      PipeStep capacity s { s with parent := .closed waitObject0 }

def pipeStart (output : Text) : PipeState := ⟨output, [], false, .waiting, []⟩

def timeoutMessage : Text :=
  "(Failed to run command, process took more than 1000ms to run. Error code 5.258.)".toList

/-- The outcome of the command; each piece is printed with `%s`. -/
def outcome (s : PipeState) : Command where
  createPipe := true
  setHandleInformation := true
  createProcess := true
  waitStatus :=
    match s.parent with
    | .closed status => status
    | .waiting | .reading => waitObject0
  message := timeoutMessage
  reads := s.reads.map fun piece => piece.takeWhile (· ≠ '\x00')

end MrBig.Source.RunCmd
