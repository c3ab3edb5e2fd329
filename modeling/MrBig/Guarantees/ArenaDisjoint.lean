import MrBig.Source.Arena

/-!
# Report text and scratch memory never overlap

The append pointer is shared and every frame has an `End` of its own. What keeps them
apart is one order over the whole stack of frames: the report ends at or below the
active `End`, the blocks of a frame lie between its `End` and its caller's, and the
outermost frame's below the end of the arena.
-/

set_option autoImplicit false

namespace MrBig.Guarantees.ArenaDisjoint
open Library Library.Memory Source

/-- The blocks that some open frame may still use. -/
def liveBlocks (run : ArenaRun) : List Span := run.frames.flatMap Frame.blocks

/-- The report written so far. -/
def output (run : ArenaRun) : Span :=
  ⟨run.state.startAddr, run.state.currentStart - run.state.startAddr⟩

/-- Power-of-two alignment and an amount that a signed word of `bits + 1` bits holds. -/
def WellFormed (bits : Nat) : ArenaCall → Prop
  | .allocate size align count => (∃ k ≤ bits, align = 2 ^ k) ∧ count * size < 2 ^ bits
  | _ => True

/-- Nothing overlaps. -/
structure Separate (mem capacity : Nat) (run : ArenaRun) : Prop where
  appendPointer : ∀ f ∈ run.frames.head?, run.state.currentStart ≤ f.endAddr
  inside : ∀ b ∈ liveBlocks run, mem ≤ b.start ∧ b.stop ≤ mem + capacity
  blocks : (liveBlocks run).Pairwise Span.Disjoint
  report : ∀ b ∈ liveBlocks run, (output run).Disjoint b

/-- A block that a call returns is aligned, zeroed, inside the arena, and live. -/
def Granted (bits mem capacity : Nat) (run : ArenaRun) : ArenaCall → Prop
  | .allocate size align count =>
    ∀ block ∈ (arenaStep bits run (.allocate size align count)).2,
      align ∣ block ∧ mem ≤ block ∧ block + count * size ≤ mem + capacity ∧
        load (arenaStep bits run (.allocate size align count)).1.state.memory block
          (count * size) = List.replicate (count * size) nul ∧
        ⟨block, count * size⟩ ∈ liveBlocks (arenaStep bits run (.allocate size align count)).1
  | _ => True

/-! ### The order over the stack of frames -/

/-- The `End` of the first frame, or of the arena if there is no frame. -/
def ceiling (frames : List Frame) (hi : Nat) : Nat := (frames.head?.map Frame.endAddr).getD hi

/-- Every frame's blocks lie between its own `End` and its caller's. -/
def Nested : List Frame → Nat → Prop
  | [], _ => True
  | f :: callers, hi => Stacked f.endAddr f.blocks (ceiling callers hi) ∧ Nested callers hi

theorem nested_stacked {frames : List Frame} {hi : Nat} (nested : Nested frames hi) :
    Stacked (ceiling frames hi) (frames.flatMap Frame.blocks) hi := by
  induction frames with
  | nil => exact Nat.le_refl hi
  | cons f callers ih =>
    obtain ⟨own, rest⟩ := nested
    exact own.append (ih rest)

/-- The invariant of every run. -/
structure Ordered (mem capacity : Nat) (run : ArenaRun) : Prop where
  startAddr : run.state.startAddr = mem
  low : mem ≤ run.state.currentStart
  high : run.state.currentStart ≤ ceiling run.frames (mem + capacity)
  nested : Nested run.frames (mem + capacity)

theorem Ordered.separate {mem capacity : Nat} {run : ArenaRun}
    (ordered : Ordered mem capacity run) : Separate mem capacity run := by
  have stacked := nested_stacked ordered.nested
  have within := stacked.within
  refine ⟨?_, ?_, stacked.pairwise, ?_⟩
  · intro f active
    have high := ordered.high
    rw [ceiling, active] at high
    exact high
  · intro b live
    obtain ⟨low, high⟩ := within b live
    have order := ordered.low
    have top := ordered.high
    exact ⟨by omega, high⟩
  · intro b live
    apply Span.disjoint_of_stop_le
    obtain ⟨low, _⟩ := within b live
    have start := ordered.startAddr
    have order := ordered.low
    have top := ordered.high
    unfold output Span.stop
    dsimp only
    omega

/-! ### One allocation -/

section Step

variable {bits mem capacity : Nat} {run : ArenaRun}

/-- A block comes out of the room between the report and the active `End`. -/
theorem allocate_granted {state state' : ArenaState} {aEnd size align count block : Nat}
    (ordered : state.currentStart ≤ aEnd) (small : aEnd < 2 ^ (bits + 1))
    (room : aEnd - state.currentStart < 2 ^ bits)
    (wellFormed : WellFormed bits (.allocate size align count))
    (granted : arenaAllocate (bits + 1) state aEnd size align count = some (state', block)) :
    state.currentStart ≤ block ∧ block + count * size ≤ aEnd ∧ align ∣ block ∧
      state' = { state with
        memory := store state.memory block (List.replicate (count * size) nul) } := by
  obtain ⟨⟨k, aligned, rfl⟩, amount⟩ := wellFormed
  rw [arenaAllocate_eq ordered small room amount aligned] at granted
  split at granted
  next fits =>
    obtain ⟨rfl, rfl⟩ := Prod.mk.inj (Option.some.inj granted)
    have part := Nat.mod_le (aEnd - count * size) (2 ^ k)
    exact ⟨fits.2, by omega, Nat.dvd_sub_mod _, rfl⟩
  next => cases granted

theorem ceiling_lt (addresses : mem + capacity < 2 ^ (bits + 1)) (bounded : capacity < 2 ^ bits)
    (ordered : Ordered mem capacity run) {f : Frame} {callers : List Frame}
    (frames : run.frames = f :: callers) :
    run.state.currentStart ≤ f.endAddr ∧ f.endAddr < 2 ^ (bits + 1) ∧
      f.endAddr - run.state.currentStart < 2 ^ bits := by
  have low := ordered.low
  have high := ordered.high
  have below := (nested_stacked ordered.nested).le
  rw [frames] at high below
  change run.state.currentStart ≤ f.endAddr at high
  change f.endAddr ≤ mem + capacity at below
  exact ⟨high, by omega, by omega⟩

theorem arenaStep_ordered (addresses : mem + capacity < 2 ^ (bits + 1))
    (bounded : capacity < 2 ^ bits) (ordered : Ordered mem capacity run) {call : ArenaCall}
    (wellFormed : WellFormed bits call) :
    Ordered mem capacity (arenaStep (bits + 1) run call).1 := by
  unfold arenaStep
  split
  next => exact ordered
  next => exact ordered
  next f callers running frames =>
    obtain ⟨high, small, room⟩ := ceiling_lt addresses bounded ordered frames
    have nested := ordered.nested
    rw [frames] at nested
    obtain ⟨own, outer⟩ := nested
    cases call with
    | enter => exact ⟨ordered.startAddr, ordered.low, high, Nat.le_refl _, own, outer⟩
    | leave =>
      have below := own.le
      exact ⟨ordered.startAddr, ordered.low, Nat.le_trans high below, outer⟩
    | append printed =>
      have low := ordered.low
      dsimp only
      rw [arenaAppend_eq high room]
      dsimp only
      split
      next long =>
        refine ⟨ordered.startAddr, ordered.low, ?_, ?_⟩
        · exact ordered.high
        · exact ordered.nested
      next fits =>
        refine ⟨ordered.startAddr, ?_, ?_, ordered.nested⟩
        · dsimp only
          omega
        · dsimp only
          rw [frames]
          change run.state.currentStart + printed.length ≤ f.endAddr
          omega
    | allocate size align count =>
      dsimp only
      cases granted : arenaAllocate (bits + 1) run.state f.endAddr size align count with
      | none => exact ⟨ordered.startAddr, ordered.low, ordered.high, ordered.nested⟩
      | some answer =>
        obtain ⟨state', block⟩ := answer
        obtain ⟨above, fits, _, rfl⟩ := allocate_granted high small room wellFormed granted
        refine ⟨ordered.startAddr, ordered.low, above, ⟨Nat.le_refl _, ?_⟩, outer⟩
        cases blocks : f.blocks with
        | nil =>
          rw [blocks] at own
          exact Nat.le_trans fits own
        | cons b rest =>
          rw [blocks] at own
          exact ⟨Nat.le_trans fits own.1, own.2⟩

theorem arenaStep_granted (addresses : mem + capacity < 2 ^ (bits + 1))
    (bounded : capacity < 2 ^ bits) (ordered : Ordered mem capacity run) {call : ArenaCall}
    (wellFormed : WellFormed bits call) :
    Granted (bits + 1) mem capacity run call := by
  have kept := arenaStep_ordered addresses bounded ordered wellFormed
  cases call with
  | enter | leave | append printed => trivial
  | allocate size align count =>
    intro block returned
    have inside := (Ordered.separate kept).inside
    unfold arenaStep at returned inside ⊢
    split at returned
    next => cases returned
    next => cases returned
    next f callers running frames =>
      obtain ⟨high, small, room⟩ := ceiling_lt addresses bounded ordered frames
      rw [running, frames] at inside ⊢
      dsimp only at returned inside ⊢
      cases granted : arenaAllocate (bits + 1) run.state f.endAddr size align count with
      | none =>
        rw [granted] at returned
        cases returned
      | some answer =>
        obtain ⟨state', address⟩ := answer
        rw [granted] at returned inside
        obtain rfl : address = block := Option.some.inj returned
        obtain ⟨_, _, aligned, rfl⟩ := allocate_granted high small room wellFormed granted
        have live : (⟨address, count * size⟩ : Span) ∈
            ((⟨address, ⟨address, count * size⟩ :: f.blocks⟩ : Frame) :: callers).flatMap
              Frame.blocks := by
          simp
        obtain ⟨above, below⟩ := inside _ live
        have zeroed := load_store_self run.state.memory address
          (List.replicate (count * size) nul)
        rw [List.length_replicate] at zeroed
        exact ⟨aligned, above, below, zeroed, live⟩

end Step

/-- The run right after clog_ArenaMake. -/
def madeArena (memory : Nat → Char) (mem capacity : Nat) : ArenaRun :=
  arenaStart (arenaMake memory mem capacity)

theorem madeArena_ordered (memory : Nat → Char) {mem capacity : Nat} (allocated : mem ≠ 0) :
    Ordered mem capacity (madeArena memory mem capacity) := by
  have ends : (arenaMake memory mem capacity).endAddr = mem + capacity := if_neg allocated
  refine ⟨rfl, Nat.le_refl mem, ?_, ?_, trivial⟩
  · change mem ≤ (arenaMake memory mem capacity).endAddr
    omega
  · change (arenaMake memory mem capacity).endAddr ≤ mem + capacity
    omega

/-- In every program over nested frames, at every point: the report and all live blocks
are apart, and every block returned is what was asked for. -/
theorem frames_separate (memory : Nat → Char) (mem capacity : Nat) (allocated : mem ≠ 0)
    (bounded : capacity < 2 ^ 63) (addresses : mem + capacity < 2 ^ 64)
    (calls : List ArenaCall) (wellFormed : ∀ call ∈ calls, WellFormed 63 call) :
    Separate mem capacity
        (Run.final (arenaStep 64) (madeArena memory mem capacity) calls) ∧
      Run.Throughout (arenaStep 64) (fun _ run call => Granted 64 mem capacity run call)
        (madeArena memory mem capacity) calls := by
  have kept : ∀ run call, Ordered mem capacity run → WellFormed 63 call →
      Ordered mem capacity (arenaStep 64 run call).1 :=
    fun _ _ ordered right => arenaStep_ordered addresses bounded ordered right
  have meets : Run.Throughout (arenaStep 64) (fun _ _ call => WellFormed 63 call)
      (madeArena memory mem capacity) calls :=
    Run.throughout_of_forall (WellFormed 63) wellFormed
  constructor
  · apply Ordered.separate
    apply Run.history_invariant_throughout (arenaStep 64) (fun _ run => Ordered mem capacity run)
      (madeArena_ordered memory allocated) (fun _ call => kept _ call) calls meets
  · refine meets.of_invariant (fun _ run => Ordered mem capacity run)
      (madeArena_ordered memory allocated) (fun _ call => kept _ call) ?_
    intro before call ordered right
    exact arenaStep_granted addresses bounded ordered right

/-- A frame that allocates, calls a function that allocates and appends, and gets its own
`End` back. -/
theorem frames_separate_nested :
    Separate 4096 64 (Run.final (arenaStep 64) (madeArena (fun _ => 'x') 4096 64)
      [.allocate 5 4 1, .enter, .allocate 8 8 2, .append "out".toList, .leave]) :=
  (frames_separate (fun _ => 'x') 4096 64 (by decide) (by decide) (by decide)
    [.allocate 5 4 1, .enter, .allocate 8 8 2, .append "out".toList, .leave] (by
      intro call member
      simp only [List.mem_cons, List.not_mem_nil, or_false] at member
      rcases member with rfl | rfl | rfl | rfl | rfl
      · exact ⟨⟨2, by decide, rfl⟩, by decide⟩
      · trivial
      · exact ⟨⟨3, by decide, rfl⟩, by decide⟩
      · trivial
      · trivial)).1

end MrBig.Guarantees.ArenaDisjoint
