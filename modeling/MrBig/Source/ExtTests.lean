import MrBig.Library.Delimited
import MrBig.Library.Mailbox
import MrBig.Library.Run
import MrBig.Source.Files
import MrBig.Source.Status

/-!
# External tests and the pickup directory

ext_test.c:15-110. Other programs leave files in `pickupdir`; the file name says which machine
and test the report is for, its first line is the colour. Files are named as they are in the
directory.
-/

set_option autoImplicit false

namespace MrBig.Source
open Library

/-- mrbig.c `no_return`. -/
def noReturn (p : Text) : Text := p.filter (· ≠ '\r')

/-- The globals `pickup_file` reads. -/
structure PickupGlobals where
  options : List Text
  mrmachine : Text
  now : Text
  reportSize : Nat

def PickupGlobals.noExt (g : PickupGlobals) : Bool :=
  (getOption g.options "no_ext".toList false).isSome

section Pickup

variable (g : PickupGlobals)

/-- machname and testname; both buffers hold any file name. -/
def pickupNames (fn : Text) : Text × Text :=
  match Delimited.cut '.' fn with
  | some (machname, testname) => (machname, testname)
  | none => (g.mrmachine, fn)

/-- What `b` holds behind `fread`, `b[n] = 0` and `no_return`. -/
def pickupBuffer (content : Text) : Text :=
  noReturn ((content.take (g.reportSize - 1)).takeWhile (· ≠ '\x00'))

/-- The call of `mrsend` for a file that was read; nothing if there is no line for a colour. -/
def pickupReport (fn content : Text) : Option Report :=
  match Delimited.cut '\n' (pickupBuffer g content) with
  | none => none
  | some (color, p) =>
    some
      { machine := (pickupNames g fn).1
        test := (pickupNames g fn).2
        color := color
        message := (g.now ++ "\n\n".toList ++ p ++ "\n".toList).take (g.reportSize - 1) }

end Pickup

/-- A file that was picked up, and the report made of it. -/
structure PickedUp where
  fn : Text
  content : Text
  report : Option Report
  deriving DecidableEq, Repr

/-- A file moved into the directory replaces one of its name. -/
def FileSys.drop (files : FileSys) (f : File) : FileSys :=
  (files.create f.name).append f.name f.content

/-- `pickup_file`. The directory is as `files` when the file is opened and read, and as `later` when
it is removed. Another program may have the file open, so `fopen` may fail, and so may `remove`,
whose result is not looked at. -/
def pickupFile (g : PickupGlobals) (fn : Text) (fopen removes : Bool) (files later : FileSys) :
    FileSys × Option PickedUp :=
  if g.noExt then (later, none)
  else if fopen = false then (later, none)
  else
    match files.read fn with
    | none => (later, none)
    | some content =>
      (if removes then later.remove fn else later,
        some { fn := fn, content := content, report := pickupReport g fn content })

/-- What happens in the directory: a program leaves a file, or `pickup` comes to an entry of its
enumeration that is no directory. Programs leave files also while `pickup_file` is at work, between
`big_fclose` and `remove`. -/
inductive DirEvent where
  | drop (f : File)
  | pick (g : PickupGlobals) (fn : Text) (fopen removes : Bool) (meanwhile : List File)

def dirStep (files : FileSys) : DirEvent → FileSys × Option PickedUp
  | .drop f => (files.drop f, none)
  | .pick g fn fopen removes meanwhile =>
    pickupFile g fn fopen removes files (meanwhile.foldl FileSys.drop files)

end MrBig.Source
