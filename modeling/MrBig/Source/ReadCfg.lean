import MrBig.Source.FileTable
import MrBig.Source.RecvCfg

/-!
# Reading configuration files: `read_cfg`

cfg.c:87-93 and 231-268. `read_cfg` calls itself for every `.include` and `.config`
line; the model gives it the number of nested calls it may make and answers `none` where
they do not suffice. Every call keeps its file open. The C runtime has so many streams and no
more, and from debug level 2 on the table of open files so many entries: `readCfgIn` counts them.
`readCfg` is the reading where there are enough.
-/

set_option autoImplicit false

namespace MrBig.Source
open Library

/-- What `read_cfg` works on. `added` is the journal of its `add_cfg` calls, `net` the
outcomes of the `recv_cfg` calls to come. -/
structure World where
  files : FileSys
  conf : List Config
  added : List Add
  bindAddr : Text
  net : Nat → RecvScript

def World.add (w : World) (category b : Text) : World :=
  { w with conf := addCfg w.conf category b, added := w.added ++ [(category, b)] }

/-- `fgets` with room for `room` characters: the line and what is left of the stream. -/
def fgets : Nat → Text → Text × Text
  | 0, stream => ([], stream)
  | _ + 1, [] => ([], [])
  | room + 1, c :: stream =>
    if c = '\n' then ([c], stream)
    else
      let (b, left) := fgets room stream
      (c :: b, left)

/-- The buffers `while (fgets(b, sizeof b, fp))` sees; a NUL ends the string in `b`. -/
def fgetsAll (size : Nat) : Nat → Text → List Text
  | 0, _ => []
  | _, [] => []
  | fuel + 1, stream =>
    (fgets (size - 1) stream).1.takeWhile (· ≠ '\x00') ::
      fgetsAll size fuel (fgets (size - 1) stream).2

/-- Each `fgets` takes at least one character, so the stream's length is fuel enough. -/
def fileLines (size : Nat) (stream : Text) : List Text := fgetsAll size stream.length stream

def chomp (p : Text) : Text := (p.takeWhile (· ≠ '\n')).takeWhile (· ≠ '\r')

/-- `recv_cfg` on the next outcome of the network; `none` if it never returns. -/
def World.recvCfg (w : World) : Option World :=
  match Source.recvCfg (w.net 0) w.files with
  | (.running, _) => none
  | (_, files) => some { w with files := files, net := fun n => w.net (n + 1) }

/-- What there is to open a file with: `limit` streams of the C runtime, of which `opened` are
taken, and from debug level 2 on the table of open files, with `stored` entries. -/
structure Streams where
  limit : Nat
  opened : Nat
  debug : Int
  stored : Nat

namespace Streams

/-- `store_file` calls `mrexit`: it finds no entry for a file. -/
def Full (s : Streams) : Prop := 2 ≤ s.debug ∧ FileTable.filesMax ≤ s.stored

instance (s : Streams) : Decidable s.Full := instDecidableAnd

/-- One more file is open. -/
def take (s : Streams) : Streams :=
  { s with opened := s.opened + 1, stored := if s.debug < 2 then s.stored else s.stored + 1 }

@[simp] theorem take_limit (s : Streams) : s.take.limit = s.limit := rfl

@[simp] theorem take_opened (s : Streams) : s.take.opened = s.opened + 1 := rfl

@[simp] theorem take_debug (s : Streams) : s.take.debug = s.debug := rfl

theorem take_stored {s : Streams} (level : 2 ≤ s.debug) : s.take.stored = s.stored + 1 :=
  if_neg (Int.not_lt.mpr level)

end Streams

/-- What a program does that does not return: it calls `mrexit`, or it never ends. -/
inductive Halt where
  | exits
  | hangs
  deriving DecidableEq, Repr

/-- `recv_cfg` with the streams there are; without one it returns at cfg.c:108. -/
def World.recvCfgIn (s : Streams) (w : World) : Except Halt World :=
  if s.opened < s.limit ∧ (w.net 0).fopen = true then
    if s.Full then .error .exits
    else w.recvCfg.elim (.error .hangs) .ok
  else .ok { w with net := fun n => w.net (n + 1) }

variable [CLibrary]

section Lines

variable {m : Type → Type} [Monad m] (recvCfg : World → m World)
  (readCfg : World → Text → Text → m World)

/-- The body of the loop: a line, the section it stands in, and the section after it. The calls of
`recv_cfg` and `read_cfg` return, or end in the other ways that `m` has. -/
def readLine (w : World) (category b : Text) : m (World × Text) :=
  let b := chomp b
  if b.head? = some '[' then
    pure (w, (strlcpy b.tail 100).takeWhile (· ≠ ']'))
  else if ".bind ".toList <+: b then
    match scanWord (b.drop 5) with
    | some (addr, _) => pure ({ w with bindAddr := addr }, category)
    | none => pure (w, category)
  else if ".config ".toList <+: b then
    match scanWord (b.drop 7) with
    | none => pure (w, category)
    | some (_, rest) =>
      match scanInt rest with
      | none => pure (w, category)
      | some port =>
        if port ≠ 0 then do
          let w ← recvCfg w
          let w ← readCfg w category cacheName
          pure (w, category)
        else pure (w, category)
  else if ".include ".toList <+: b then do
    let w ← readCfg w category (b.drop 9)
    pure (w, category)
  else if b ≠ [] ∧ b.head? ≠ some '#' then
    pure (w.add category b, category)
  else pure (w, category)

def readLines : World → Text → List Text → m World
  | w, _, [] => pure w
  | w, category, b :: rest => do
    let (w, category) ← readLine recvCfg readCfg w category b
    readLines w category rest

end Lines

/-- `read_cfg(cat, filename)` with at most `depth` calls nested in each other, and a stream for
each of them. -/
def readCfg : Nat → World → Text → Text → Option World
  | 0, _, _, _ => none
  | depth + 1, w, cat, filename =>
    match w.files.read filename with
    | none => some w
    | some stream =>
      readLines World.recvCfg (readCfg depth) w (strlcpy cat 100) (fileLines 1000 stream)

/-- `read_cfg(cat, filename)` with the streams there are, of which every call keeps one while it
reads. -/
def readCfgIn : Nat → Streams → World → Text → Text → Except Halt World
  | 0, _, _, _, _ => .error .hangs
  | depth + 1, s, w, cat, filename =>
    match fopenRead s.limit s.opened (w.files.read filename) with
    | none => .ok w
    | some stream =>
      if s.Full then .error .exits
      else
        readLines (World.recvCfgIn s.take) (readCfgIn depth s.take) w (strlcpy cat 100)
          (fileLines 1000 stream)

end MrBig.Source
