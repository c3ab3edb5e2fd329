import MrBig.Library.Memory
import MrBig.Library.Run
import MrBig.Library.Word
import MrBig.Source.CString

/-!
# The clientlog arena

clientlog/arena.c:12-62 on a machine whose addresses have `bits` bits. The report grows
from the start, blocks are handed out from the end. `End` is copied by value into every
callee, `CurrentStart` stands in the state they all share.
-/

set_option autoImplicit false

namespace MrBig.Source
open Library Library.Memory Library.Word

abbrev nul : Char := '\x00'

/-- clog_ArenaState without its handle stack, and the memory it points into. -/
structure ArenaState where
  memory : Nat → Char
  startAddr : Nat
  endAddr : Nat
  currentStart : Nat

/-- clog__ArenaAllocate(a, size, align, count) where `a->End` is `aEnd`: the state and
the new `a->End`, which is the block; nothing where the call throws. -/
def arenaAllocate (bits : Nat) (state : ArenaState) (aEnd size align count : Nat) :
    Option (ArenaState × Nat) :=
  let aStart := state.currentStart
  let freeBytes := signed bits (aEnd - aStart)
  let amountToAllocate := signed bits (count * size)
  if amountToAllocate > freeBytes then none
  else
    let naiveEnd := wrap bits (aEnd - amountToAllocate)
    let actualEnd := naiveEnd &&& wrap bits (-align)
    let remaining := signed bits (actualEnd - aStart)
    if remaining < 0 then none
    else
      let zeros := List.replicate (wrap bits (count * size)) nul
      some ({ state with memory := store state.memory actualEnd zeros }, actualEnd)

/-- C99 vsnprintf: nothing where there is no room at all, else what fits in front of
the NUL. -/
def vsnprintf (memory : Nat → Char) (address n : Nat) (printed : Text) : Nat → Char :=
  if n = 0 then memory else store memory address (printed.take (n - 1) ++ [nul])

/-- clog_ArenaAppend: the state, and the error code if the call throws. -/
def arenaAppend (bits : Nat) (state : ArenaState) (aEnd : Nat) (printed : Text) :
    ArenaState × Option Nat :=
  let aStart := state.currentStart
  let freeBytes := signed bits (aEnd - aStart)
  let memory := vsnprintf state.memory aStart (wrap bits freeBytes) printed
  if printed.length > freeBytes then ({ state with memory := memory }, some 1)
  else ({ state with memory := memory, currentStart := aStart + printed.length }, none)

/-- clog_ArenaMake(capacity) where malloc answers `mem`. -/
def arenaMake (memory : Nat → Char) (mem capacity : Nat) : ArenaState where
  memory := memory
  startAddr := mem
  endAddr := if mem = 0 then 0 else mem + capacity
  currentStart := mem

/-- A function's copy of clog_Arena, and the blocks it was given, the newest first. -/
structure Frame where
  endAddr : Nat
  blocks : List Span
  deriving DecidableEq, Repr

/-- A program in the middle of its arena calls, the active frame first. -/
structure ArenaRun where
  state : ArenaState
  frames : List Frame
  thrown : Option Nat

inductive ArenaCall where
  /-- Call a function with a copy of the active clog_Arena. -/
  | enter
  /-- Return from it. -/
  | leave
  | append (printed : Text)
  | allocate (size align count : Nat)
  deriving DecidableEq, Repr

/-- One call, and the block it returns. A throw ends the run. -/
def arenaStep (bits : Nat) (run : ArenaRun) (call : ArenaCall) : ArenaRun × Option Nat :=
  match run.thrown, run.frames with
  | some _, _ | none, [] => (run, none)
  | none, f :: callers =>
    match call with
    | .enter => ({ run with frames := ⟨f.endAddr, []⟩ :: f :: callers }, none)
    | .leave => ({ run with frames := callers }, none)
    | .append printed =>
      let (state, thrown) := arenaAppend bits run.state f.endAddr printed
      ({ run with state := state, thrown := thrown }, none)
    | .allocate size align count =>
      match arenaAllocate bits run.state f.endAddr size align count with
      | none => ({ run with thrown := some 1 }, none)
      | some (state, block) =>
        let f := ⟨block, ⟨block, count * size⟩ :: f.blocks⟩
        ({ run with state := state, frames := f :: callers }, some block)

/-- The run before its first call. -/
def arenaStart (state : ArenaState) : ArenaRun := ⟨state, [⟨state.endAddr, []⟩], none⟩

theorem arenaStep_append (bits : Nat) {run : ArenaRun} (running : run.thrown = none) {f : Frame}
    {callers : List Frame} (frames : run.frames = f :: callers) (printed : Text) :
    (arenaStep bits run (.append printed)).1 =
      { run with
        state := (arenaAppend bits run.state f.endAddr printed).1
        thrown := (arenaAppend bits run.state f.endAddr printed).2 } := by
  obtain ⟨state, _, _⟩ := run
  obtain rfl := running
  obtain rfl := frames
  rfl

section Bounds

variable {bits : Nat} {state : ArenaState} {aEnd : Nat}

theorem freeBytes_eq (ordered : state.currentStart ≤ aEnd)
    (room : aEnd - state.currentStart < 2 ^ bits) :
    signed (bits + 1) (aEnd - state.currentStart) = (aEnd - state.currentStart : Nat) := by
  rw [signed_of_abs_le (by omega) (by omega)]
  omega

/-- What a call of clog__ArenaAllocate comes to where nothing overflows. -/
theorem arenaAllocate_eq {size count k : Nat} (ordered : state.currentStart ≤ aEnd)
    (small : aEnd < 2 ^ (bits + 1)) (room : aEnd - state.currentStart < 2 ^ bits)
    (amount : count * size < 2 ^ bits) (aligned : k ≤ bits) :
    arenaAllocate (bits + 1) state aEnd size (2 ^ k) count =
      if count * size ≤ aEnd - state.currentStart ∧
          state.currentStart ≤ aEnd - count * size - (aEnd - count * size) % 2 ^ k then
        let block := aEnd - count * size - (aEnd - count * size) % 2 ^ k
        let zeros := List.replicate (count * size) nul
        some ({ state with memory := store state.memory block zeros }, block)
      else none := by
  have doubled : 2 ^ (bits + 1) = 2 ^ bits * 2 := Nat.pow_succ 2 bits
  have amountToAllocate : signed (bits + 1) (count * size) = (count * size : Nat) := by
    rw [← Int.natCast_mul, signed_of_abs_le (by omega) (by omega)]
  have zeros : wrap (bits + 1) (count * size) = count * size := by
    rw [← Int.natCast_mul, wrap_of_lt (by omega)]
  unfold arenaAllocate
  simp only [freeBytes_eq ordered room, amountToAllocate, zeros]
  generalize count * size = amount' at *
  rcases Nat.lt_or_ge (aEnd - state.currentStart) amount' with tooMuch | fits
  · rw [if_pos (by omega), if_neg (by omega)]
  · have naiveEnd : wrap (bits + 1) (aEnd - amount') = aEnd - amount' := by
      rw [← Int.ofNat_sub (by omega), wrap_of_lt (by omega)]
    have low : (aEnd - amount') % 2 ^ k < 2 ^ k := Nat.mod_lt _ (Nat.two_pow_pos k)
    have power : 2 ^ k ≤ 2 ^ bits := Nat.pow_le_pow_right (by omega) aligned
    have part : (aEnd - amount') % 2 ^ k ≤ aEnd - amount' := Nat.mod_le _ _
    rw [if_neg (by omega), naiveEnd, and_wrap_neg_two_pow (by omega) (by omega),
      signed_of_abs_le (by omega) (by omega)]
    rcases Nat.lt_or_ge (aEnd - amount' - (aEnd - amount') % 2 ^ k) state.currentStart with
      below | above
    · rw [if_pos (by omega), if_neg (by omega)]
    · rw [if_neg (by omega), if_pos ⟨by omega, above⟩]

/-- What a call of clog_ArenaAppend comes to where nothing overflows. -/
theorem arenaAppend_eq {printed : Text} (ordered : state.currentStart ≤ aEnd)
    (room : aEnd - state.currentStart < 2 ^ bits) :
    arenaAppend (bits + 1) state aEnd printed =
      let memory := vsnprintf state.memory state.currentStart (aEnd - state.currentStart) printed
      if aEnd - state.currentStart < printed.length then
        ({ state with memory := memory }, some 1)
      else
        ({ state with memory := memory, currentStart := state.currentStart + printed.length },
          none) := by
  unfold arenaAppend
  have doubled : 2 ^ (bits + 1) = 2 ^ bits * 2 := Nat.pow_succ 2 bits
  simp only [freeBytes_eq ordered room]
  rw [wrap_of_lt (by omega)]
  rcases Nat.lt_or_ge (aEnd - state.currentStart) printed.length with long | fits
  · rw [if_pos (by omega), if_pos long]
  · rw [if_neg (by omega), if_neg (by omega)]

end Bounds

end MrBig.Source
