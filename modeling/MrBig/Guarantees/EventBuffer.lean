import MrBig.Guarantees.AllocationSizes
import MrBig.Guarantees.ArenaDisjoint
import MrBig.Source.Reboots

/-!
# The event buffer that is grown in place

A buffer that is too small is kept, and what is missing is allocated in front of it: the records go
into both. `rewind` is a frame of its own over that of `scratch`, so the blocks of the report's
other parts are out of reach. With words of 32 bits, a size can be asked for that turns negative.
-/

set_option autoImplicit false

namespace MrBig.Guarantees.EventBuffer
open Library Library.Memory Library.Word Source.RecentReboots AllocationSizes ArenaDisjoint
open Source (ArenaState ArenaRun Frame arenaAllocate arenaAllocate_eq arenaStep nul)

/-- What the first buffer lacks. -/
def missing (needed : Nat) : Nat := needed - maxRecordSize

/-- The copy `rewind`, once reboots_LoadEvents has allocated twice. -/
def grownCopy (bits : Nat) (run : ArenaRun) (needed : Nat) : ArenaRun :=
  Run.final (arenaStep bits) run
    [.enter, .allocate 1 1 maxRecordSize, .allocate (missing needed) 4 1]

/-- What reboots_LoadEvents returns in the active frame `f`, and what `rewind = scratch` does. -/
structure GrownInPlace (bits : Nat) (run : ArenaRun) (f : Frame) (needed : Nat)
    (answer : ArenaState × Nat × Option Loaded) : Prop where
  returned : ∀ loaded ∈ answer.2.2, loaded.lpBuffer = answer.2.1
  aligned : 4 ∣ answer.2.1
  /-- The two allocations meet, up to the alignment. -/
  adjacent : answer.2.1 + missing needed ≤ f.endAddr - maxRecordSize ∧
    f.endAddr - maxRecordSize < answer.2.1 + missing needed + 4
  /-- All bytes that are read lie in the room that the two have taken. -/
  owned : run.state.currentStart ≤ answer.2.1 ∧ answer.2.1 + needed ≤ f.endAddr
  apart : ∀ b ∈ output run :: liveBlocks run, b.Disjoint ⟨answer.2.1, needed⟩
  allocated : liveBlocks (grownCopy bits run needed) =
    ⟨answer.2.1, missing needed⟩ :: ⟨f.endAddr - maxRecordSize, maxRecordSize⟩ :: liveBlocks run
  rewound : ∃ memory, (arenaStep bits (grownCopy bits run needed) .leave).1 =
    { run with state := { run.state with memory := memory } }

section Growth

variable {bits : Nat} {run : ArenaRun} {f : Frame} {callers : List Frame} {needed : Nat}

/-- A copy that allocates twice holds both blocks, over the frames there were. -/
theorem final_allocate_twice (running : run.thrown = none) (frames : run.frames = f :: callers)
    {size more : Nat} {first second : ArenaState} {block block' : Nat}
    (granted : arenaAllocate bits run.state f.endAddr 1 1 size = some (first, block))
    (again : arenaAllocate bits first block more 4 1 = some (second, block')) :
    Run.final (arenaStep bits) run [.enter, .allocate 1 1 size, .allocate more 4 1] =
      ⟨second, ⟨block', [⟨block', more⟩, ⟨block, size⟩]⟩ :: run.frames, none⟩ := by
  obtain ⟨state, _, _⟩ := run
  obtain rfl := running
  obtain rfl := frames
  simp only [Run.final_cons, Run.final_nil, arenaStep, granted, again, Nat.one_mul, Nat.mul_one]

/-- Live blocks lie behind the active `End`. -/
theorem endAddr_le_of_live {mem capacity : Nat} (ordered : Ordered mem capacity run)
    (frames : run.frames = f :: callers) {b : Span} (live : b ∈ liveBlocks run) :
    f.endAddr ≤ b.start := by
  have within := (nested_stacked ordered.nested).within b live
  rw [frames] at within
  exact within.1

theorem output_stop {mem capacity : Nat} (ordered : Ordered mem capacity run) :
    (output run).stop = run.state.currentStart := by
  have low := ordered.low
  have start := ordered.startAddr
  unfold output Span.stop
  dsimp only
  omega

/-- The room between two addresses in front of everything that is live. -/
theorem apart_of_owned {mem capacity : Nat} (ordered : Ordered mem capacity run)
    (frames : run.frames = f :: callers) {block : Nat} (low : run.state.currentStart ≤ block)
    (high : block + needed ≤ f.endAddr) :
    ∀ b ∈ output run :: liveBlocks run, b.Disjoint ⟨block, needed⟩ := by
  intro b member
  rcases List.mem_cons.mp member with rfl | live
  · exact Span.disjoint_of_stop_le (Nat.le_trans (output_stop ordered).le low)
  · refine (Span.disjoint_of_stop_le ?_).symm
    exact Nat.le_trans high (endAddr_le_of_live ordered frames live)

/-- The second allocation where its size does not turn negative: in front of the first one, behind
at most three bytes. -/
theorem allocate_missing {state : ArenaState} {aEnd amount : Nat}
    (ordered : state.currentStart ≤ aEnd) (small : aEnd < 2 ^ (bits + 1))
    (room : aEnd - state.currentStart < 2 ^ bits) (words : 31 ≤ bits) (bounded : amount < 2 ^ bits)
    {granted : ArenaState × Nat}
    (allocated : arenaAllocate (bits + 1) state aEnd amount 4 1 = some granted) :
    granted.1 = { state with memory := granted.1.memory } ∧ 4 ∣ granted.2 ∧
      state.currentStart ≤ granted.2 ∧ granted.2 + amount ≤ aEnd ∧
      aEnd < granted.2 + amount + 4 := by
  have once : 1 * amount < 2 ^ bits := by rwa [Nat.one_mul]
  have exactly := arenaAllocate_eq (k := 2) ordered small room once (by omega)
  simp only [Nat.one_mul] at exactly
  rw [show (4 : Nat) = 2 ^ 2 from rfl, exactly] at allocated
  split at allocated
  next fits =>
    cases allocated
    have gap := Nat.mod_lt (aEnd - amount) (show 2 ^ 2 > 0 by decide)
    exact ⟨rfl, Nat.dvd_sub_mod _, fits.2, by dsimp only; omega, by dsimp only; omega⟩
  next => cases allocated

theorem grownInPlace_of_lt {mem capacity : Nat} (ordered : Ordered mem capacity run)
    (running : run.thrown = none) (frames : run.frames = f :: callers)
    (small : f.endAddr < 2 ^ (bits + 1)) (room : f.endAddr - run.state.currentStart < 2 ^ bits)
    (words : 31 ≤ bits) (enough : run.state.currentStart + maxRecordSize ≤ f.endAddr)
    (above : maxRecordSize < needed) (amount : missing needed < 2 ^ bits) (second : ReadOutcome)
    {memory : Nat → Char} {grown : ArenaState × Nat}
    (granted : arenaAllocate (bits + 1) run.state f.endAddr 1 1 maxRecordSize =
      some ({ run.state with memory := memory }, f.endAddr - maxRecordSize))
    (again : arenaAllocate (bits + 1) { run.state with memory := memory }
      (f.endAddr - maxRecordSize) (missing needed) 4 1 = some grown) :
    GrownInPlace (bits + 1) run f needed (grown.1, grown.2, second.loaded grown.2) := by
  obtain ⟨state, aligned, low, high, gap⟩ := allocate_missing (by dsimp only; omega) (by omega)
    (by dsimp only; omega) words amount again
  dsimp only at low
  have owned : grown.2 + needed ≤ f.endAddr := by
    unfold missing at high
    omega
  have copy := final_allocate_twice running frames granted again
  refine ⟨?_, aligned, ⟨high, gap⟩, ⟨low, owned⟩, apart_of_owned ordered frames low owned, ?_, ?_⟩
  · intro loaded there
    cases second with
    | read batch =>
      cases there
      rfl
    | insufficientBuffer n => cases there
    | failed => cases there
  · rw [grownCopy, copy]
    rfl
  · refine ⟨grown.1.memory, ?_⟩
    rw [grownCopy, copy]
    change (⟨grown.1, run.frames, none⟩ : ArenaRun) = _
    rw [← running]
    exact congrArg (fun state => { run with state := state }) state

end Growth

/-- For every state of the arena and every required size: where reboots_LoadEvents returns, the
buffer has grown in place, if and only if what is missing is less than half of the address space,
or the first allocation throws, or the second one does. -/
theorem event_buffer_grows_iff (bits mem capacity : Nat) (run : ArenaRun) (f : Frame)
    (callers : List Frame) (needed : Nat) (second : ReadOutcome) (words : 31 ≤ bits)
    (addresses : mem + capacity < 2 ^ (bits + 1)) (bounded : capacity < 2 ^ bits)
    (ordered : Ordered mem capacity run) (running : run.thrown = none)
    (frames : run.frames = f :: callers) (above : maxRecordSize < needed)
    (dword : needed < 2 ^ 32) :
    (∀ answer ∈ loadEvents (bits + 1) run.state f.endAddr ⟨.insufficientBuffer needed, second⟩,
        GrownInPlace (bits + 1) run f needed answer) ↔
      missing needed < 2 ^ bits ∨ f.endAddr < run.state.currentStart + maxRecordSize ∨
        Refused bits 2 (f.endAddr - maxRecordSize - run.state.currentStart)
          (f.endAddr - maxRecordSize) (missing needed) := by
  obtain ⟨high, small, room⟩ := ceiling_lt addresses bounded ordered frames
  have more : wrap 32 (needed - maxRecordSize) = missing needed :=
    wrap_of_eq (Int.ofNat_sub (Nat.le_of_lt above)).symm (Nat.lt_of_le_of_lt (Nat.sub_le _ _) dword)
  have granted := allocate_maxRecordSize words high small room
  rcases Nat.lt_or_ge f.endAddr (run.state.currentStart + maxRecordSize) with full | enough
  · have thrown : loadEvents (bits + 1) run.state f.endAddr
        ⟨.insufficientBuffer needed, second⟩ = none := by
      rw [loadEvents, granted, if_neg (Nat.not_le_of_lt full)]
      rfl
    rw [thrown]
    exact iff_of_true nofun (.inr (.inl full))
  rw [if_pos enough] at granted
  dsimp only at granted
  generalize Memory.store run.state.memory (f.endAddr - maxRecordSize)
    (List.replicate maxRecordSize nul) = memory at granted
  let first : ArenaState := { run.state with memory := memory }
  have behind : first.currentStart ≤ f.endAddr - maxRecordSize := Nat.le_sub_of_add_le enough
  have left : f.endAddr - maxRecordSize - first.currentStart < 2 ^ bits := by
    change f.endAddr - maxRecordSize - run.state.currentStart < 2 ^ bits
    omega
  have refused : arenaAllocate (bits + 1) first (f.endAddr - maxRecordSize) (missing needed)
      (2 ^ 2) 1 = none ↔ _ := refused_iff behind left (by omega)
  rw [Nat.one_mul] at refused
  have answers : loadEvents (bits + 1) run.state f.endAddr ⟨.insufficientBuffer needed, second⟩ =
      (arenaAllocate (bits + 1) first (f.endAddr - maxRecordSize) (missing needed) (2 ^ 2) 1).map
        fun more => (more.1, more.2, second.loaded more.2) := by
    rw [loadEvents, granted]
    dsimp only [Option.bind_eq_bind, Option.bind_some]
    rw [more, Option.map_eq_bind]
    rfl
  rw [answers, or_iff_right_of_imp (a := f.endAddr < _) fun full => absurd enough (by omega)]
  cases again : arenaAllocate (bits + 1) first (f.endAddr - maxRecordSize) (missing needed)
      (2 ^ 2) 1 with
  | none => exact iff_of_true nofun (.inr (refused.mp again))
  | some grown =>
    have accepted : ¬ Refused bits 2 (f.endAddr - maxRecordSize - run.state.currentStart)
        (f.endAddr - maxRecordSize) (missing needed) := by
      intro isRefused
      rw [refused.mpr isRefused] at again
      cases again
    rw [or_iff_left accepted]
    constructor
    · intro sound
      have owned := (sound _ rfl).owned
      dsimp only at owned
      unfold missing
      omega
    · intro amount answer there
      cases there
      exact grownInPlace_of_lt ordered running frames small room words enough above amount second
        granted again

/-- An arena that has just been made, with its one frame. -/
def freshArena (capacity : Nat) : ArenaRun := madeArena (fun _ => nul) 0x10000 capacity
def freshFrame (capacity : Nat) : Frame := ⟨0x10000 + capacity, []⟩

theorem event_buffer_grows_half :
    ∃ answer ∈ loadEvents (63 + 1) (freshArena 0x40000).state (freshFrame 0x40000).endAddr
        ⟨.insufficientBuffer 0x18002, .read ⟨[], 0⟩⟩,
      GrownInPlace (63 + 1) (freshArena 0x40000) (freshFrame 0x40000) 0x18002 answer := by
  have returns : (loadEvents (63 + 1) (freshArena 0x40000).state (freshFrame 0x40000).endAddr
      ⟨.insufficientBuffer 0x18002, .read ⟨[], 0⟩⟩).isSome := by decide
  obtain ⟨answer, there⟩ := Option.isSome_iff_exists.mp returns
  exact ⟨answer, there, (event_buffer_grows_iff 63 0x10000 0x40000 (freshArena 0x40000)
    (freshFrame 0x40000) [] 0x18002 (.read ⟨[], 0⟩) (by decide) (by decide) (by decide)
    (madeArena_ordered _ (by decide)) rfl rfl (by decide) (by decide)).mpr (.inl (by decide))
    answer there⟩

/-- With words of 32 bits, almost 4 GiB are a negative amount, and the buffer starts behind the
arena. -/
theorem event_buffer_behind_arena :
    (loadEvents (31 + 1) (freshArena 0x20000).state (freshFrame 0x20000).endAddr
        ⟨.insufficientBuffer 0xFFFFF000, .read ⟨[], 0⟩⟩).map (fun answer => answer.2.1) =
      some 0x31000 ∧
    ¬ ∀ answer ∈ loadEvents (31 + 1) (freshArena 0x20000).state (freshFrame 0x20000).endAddr
        ⟨.insufficientBuffer 0xFFFFF000, .read ⟨[], 0⟩⟩,
      GrownInPlace (31 + 1) (freshArena 0x20000) (freshFrame 0x20000) 0xFFFFF000 answer := by
  have address : (loadEvents (31 + 1) (freshArena 0x20000).state (freshFrame 0x20000).endAddr
      ⟨.insufficientBuffer 0xFFFFF000, .read ⟨[], 0⟩⟩).map (fun answer => answer.2.1) =
        some 0x31000 := by decide
  refine ⟨address, fun sound => ?_⟩
  obtain ⟨answer, there, block⟩ := Option.map_eq_some_iff.mp address
  have owned := (sound answer there).owned.2
  rw [block] at owned
  exact absurd owned (by decide)

end MrBig.Guarantees.EventBuffer
