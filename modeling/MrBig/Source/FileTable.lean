import MrBig.Library.Run
import MrBig.Library.Slots
import MrBig.Source.Settings

/-!
# The table of open files: `big_fopen` and `big_fclose`

mrbig.c:275-360. A call comes with what `fopen` or `fclose` answers, a file pointer being a
number and NULL zero. Below debug level 2 nothing is stored or removed. `readcfg` changes the
level between the calls.
-/

set_option autoImplicit false

namespace MrBig.Source.FileTable
open Library

def filesMax : Nat := 100

/-- struct filechunk -/
structure FileChunk where
  p : Nat
  cl : Text
  deriving DecidableEq, Repr

structure FileState where
  files : List (Option FileChunk)
  debug : Int
  /-- `mrexit` was called. -/
  exited : Bool
  /-- `files[100]` was read and written. -/
  beyondTable : Bool
  deriving DecidableEq, Repr

def storeFile (s : FileState) (p : Nat) (cl : Text) : FileState :=
  if s.debug < 2 then s
  else
    match Slots.fill ⟨p, strlcpy cl 20⟩ s.files with
    | none => { s with exited := true }
    | some files => { s with files := files }

def removeFile (s : FileState) (p : Nat) : FileState :=
  if s.debug < 2 then s
  else
    match Slots.vacate (fun f => f.p == p) s.files with
    -- It says that it continues, with the index that the search has ended with.
    | none => { s with beyondTable := true }
    | some (_, files) => { s with files := files }

def bigFopen (s : FileState) (fp : Nat) (p : Text) : FileState :=
  if fp = 0 then s else storeFile s fp p

def bigFclose (s : FileState) (fp : Nat) (n : Int) : FileState :=
  if n ≠ 0 then s else removeFile s fp

inductive FileCall where
  | fopen (fp : Nat) (p : Text)
  | fclose (fp : Nat) (n : Int)
  | setDebug (level : Int)
  deriving DecidableEq, Repr

/-- A call, and what it returns. -/
def fileStep (s : FileState) (call : FileCall) : FileState × Option Int :=
  if s.exited then (s, none)
  else
    match call with
    | .fopen fp p => (bigFopen s fp p, some fp)
    | .fclose fp n => (bigFclose s fp n, some n)
    | .setDebug level => ({ s with debug := level }, none)

/-- The state before the first call. -/
def fileStart (debug : Int) : FileState := ⟨List.replicate filesMax none, debug, false, false⟩

/-- What a directive does to files and level; `fopen` says which pointer a name is opened
with. -/
def directiveCall (fopen : Text → Nat) : Directive → Option FileCall
  | .debug n => some (.setDebug n)
  | .logfile name => some (.fopen (fopen name) "readcfg:logfile".toList)
  | _ => none

/-- The calls of a run of `readcfg`: the log file is closed before the lines are read. -/
def readcfgCalls (fopen : Text → Nat) (logfp : Nat) (ds : List Directive) : List FileCall :=
  (if logfp ≠ 0 then [.fclose logfp 0] else []) ++ ds.filterMap (directiveCall fopen)

/-! ### What one call does -/

theorem fileStep_running {s : FileState} (running : s.exited = false) (call : FileCall) :
    (fileStep s call).1 =
      match call with
      | .fopen fp p => bigFopen s fp p
      | .fclose fp n => bigFclose s fp n
      | .setDebug level => { s with debug := level } := by
  unfold fileStep
  rw [running, if_neg (by simp)]
  cases call <;> rfl

@[simp] theorem storeFile_debug (s : FileState) (p : Nat) (cl : Text) :
    (storeFile s p cl).debug = s.debug := by
  unfold storeFile
  split
  · rfl
  · split <;> rfl

@[simp] theorem removeFile_debug (s : FileState) (p : Nat) : (removeFile s p).debug = s.debug := by
  unfold removeFile
  split
  · rfl
  · split <;> rfl

/-- Opening and closing leave the level alone. -/
@[simp] theorem bigFopen_debug (s : FileState) (fp : Nat) (p : Text) :
    (bigFopen s fp p).debug = s.debug := by
  unfold bigFopen
  split <;> simp

@[simp] theorem bigFclose_debug (s : FileState) (fp : Nat) (n : Int) :
    (bigFclose s fp n).debug = s.debug := by
  unfold bigFclose
  split <;> simp

end MrBig.Source.FileTable
