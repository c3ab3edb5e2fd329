import MrBig.Library.Memory
import MrBig.Library.Run
import MrBig.Library.Slots
import MrBig.Library.Word

/-!
# The memory debugger: `big_malloc`, `big_realloc` and `big_free`

mrbig.c:34-60, 105-140 and 158-267, with `debug_memory` set and `memsize` at its default.
A call comes with what `malloc` or `realloc` answers, zero for NULL; `realloc` copies what
fits of the old block. `mrexit` ends the program.
-/

set_option autoImplicit false

namespace MrBig.Source.Chunks
open Library Library.Memory

def memsize : Nat := 4
def chunksMax : Nat := 10000

def bigPattern : List UInt8 :=
  [1, 2, 3, 4, 5, 6, 7, 8, 9, 0, 1, 2, 3, 4, 5, 6, 7, 8, 9, 0] ++
    [0x31, 0x32, 0x33, 0x34, 0x35, 0x36, 0x37, 0x38, 0x39, 0x30] ++
    [0x71, 0x77, 0x65, 0x72, 0x74, 0x79]

def patternSize : Nat := bigPattern.length

/-- struct memchunk without the name of the caller. -/
structure Chunk where
  p : Nat
  n : Nat
  deriving DecidableEq, Repr

/-- `chunks[i].p+chunks[i].n-PATTERN_SIZE` -/
def Chunk.guardAddr (c : Chunk) : Nat := c.p + c.n - patternSize

/-- Why the program ended. -/
inductive MemExit where
  | outOfMemory
  | outOfSlots
  /-- `check_chunks` found memory corruption. -/
  | corruption
  /-- `remove_chunk` did. -/
  | checkNotOk
  /-- `remove_chunk` did not find the pointer, and goes on behind the end of the table. -/
  | beyondTable
  deriving DecidableEq, Repr

structure MemState where
  chunks : List (Option Chunk)
  memory : Nat → UInt8
  exited : Option MemExit

/-- The guard bytes differ from the pattern. -/
def checkChunk (memory : Nat → UInt8) (c : Chunk) : Bool :=
  load memory c.guardAddr patternSize != bigPattern

def checkChunks (s : MemState) : MemState :=
  if (Slots.entries s.chunks).any (checkChunk s.memory) then
    { s with exited := some .corruption }
  else s

def storeChunk (s : MemState) (p n : Nat) : MemState :=
  match Slots.fill ⟨p, n⟩ s.chunks with
  | none => { s with exited := some .outOfSlots }
  | some chunks =>
    { s with
      chunks := chunks
      memory := store s.memory (Chunk.guardAddr ⟨p, n⟩) bigPattern }

/-- The slot that is emptied, and the state. -/
def removeChunk (s : MemState) (p : Nat) : Option Chunk × MemState :=
  match Slots.vacate (fun c => c.p == p) s.chunks with
  | none => (none, { s with exited := some .beyondTable })
  | some (c, chunks) =>
    if checkChunk s.memory c then (none, { s with exited := some .checkNotOk })
    else (some c, { s with chunks := chunks })

/-- `memsize*(n+PATTERN_SIZE)`, a size_t of the given width. -/
def scaledSize (bits n : Nat) : Nat := Word.wrap bits (memsize * (n + patternSize) : Nat)

def bigMalloc (bits : Nat) (s : MemState) (n a : Nat) : MemState :=
  if a = 0 then { s with exited := some .outOfMemory }
  else storeChunk s a (scaledSize bits n)

def bigRealloc (bits : Nat) (s : MemState) (q n a : Nat) : MemState :=
  match removeChunk s q with
  | (none, s) => s
  | (some old, s) =>
    if a = 0 then { s with exited := some .outOfMemory }
    else
      let m := scaledSize bits n
      storeChunk { s with memory := store s.memory a (load s.memory q (min old.n m)) } a m

def bigFree (s : MemState) (q : Nat) : MemState :=
  if q = 0 then s else (removeChunk s q).2

/-- The calls of the program, and its stores through pointers of its own. -/
inductive MemCall where
  | malloc (n a : Nat)
  | realloc (q n a : Nat)
  | free (q : Nat)
  | check
  | write (address : Nat) (byte : UInt8)
  deriving DecidableEq, Repr

/-- A call, and the pointer it returns. -/
def memStep (bits : Nat) (s : MemState) (call : MemCall) : MemState × Option Nat :=
  if s.exited.isSome then (s, none)
  else
    match call with
    | .malloc n a => (bigMalloc bits s n a, some a)
    | .realloc q n a => (bigRealloc bits s q n a, some a)
    | .free q => (bigFree s q, none)
    | .check => (checkChunks s, none)
    | .write address byte => ({ s with memory := store s.memory address [byte] }, none)

/-- The state before the first call. -/
def memStart (memory : Nat → UInt8) : MemState := ⟨List.replicate chunksMax none, memory, none⟩

/-! ### What one call does -/

theorem memStep_running {bits : Nat} {s : MemState} (running : s.exited = none) (call : MemCall) :
    (memStep bits s call).1 =
      match call with
      | .malloc n a => bigMalloc bits s n a
      | .realloc q n a => bigRealloc bits s q n a
      | .free q => bigFree s q
      | .check => checkChunks s
      | .write address byte => { s with memory := store s.memory address [byte] } := by
  unfold memStep
  rw [running, if_neg (by simp)]
  cases call <;> rfl

/-- With a free slot the chunk is stored and its guard written. -/
theorem storeChunk_spec {s : MemState} (room : (Slots.entries s.chunks).length < s.chunks.length)
    (p n : Nat) :
    ∃ chunks, chunks.length = s.chunks.length ∧
      (Slots.entries chunks).Perm (⟨p, n⟩ :: Slots.entries s.chunks) ∧
      storeChunk s p n =
        { s with
          chunks := chunks
          memory := store s.memory (Chunk.guardAddr ⟨p, n⟩) bigPattern } := by
  obtain ⟨chunks, filled, length, permuted⟩ := Slots.fill_spec room ⟨p, n⟩
  refine ⟨chunks, length, permuted, ?_⟩
  rw [storeChunk, filled]

end MrBig.Source.Chunks
