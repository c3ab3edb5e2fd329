import MrBig.Guarantees.ClientFrames
import MrBig.Guarantees.ClientSections
import MrBig.Guarantees.ErrorReport

/-!
# The client report

A run of clientlog that nothing cuts short hands over a head line and then the sections of its
modules, each behind its own heading and in one fixed order, whatever Windows answers. The C
string at Start is all of that exactly if no text has filled its frame to the last byte.
-/

set_option autoImplicit false

namespace MrBig.Guarantees.ClientReport
open Library Library.Memory Source Abstract.ClientMessage ArenaDisjoint AppendWhole HandleStack
  ErrorReport ClientFrames ClientSections

/-! ### The string at Start -/

theorem madeCapacity_bounds {mem : Nat} (addresses : mem + clientlogCapacity < 2 ^ 64) :
    mem + madeCapacity mem < 2 ^ 64 ∧ madeCapacity mem < 2 ^ 63 := by
  unfold madeCapacity clientlogCapacity at *
  split <;> omega

theorem arenaStep_leave (bits : Nat) (run : ArenaRun) :
    (arenaStep bits run .leave).1.state = run.state := by
  unfold arenaStep
  split <;> rfl

/-- The last line of the clock is the last text of a run. -/
theorem clientlogCalls_last (mrmachine : Text) (o : ClientlogOutcome) :
    ∃ front, clientlogCalls mrmachine o =
      front ++ [append ('\n' :: o.utcLine)] ++ [.arena .leave] := by
  have clock : withScratch (clogClock o.localLine o.utcLine) =
      [.arena .enter, append "[clock]".toList, append ('\n' :: o.localLine)] ++
        [append ('\n' :: o.utcLine)] ++ [.arena .leave] := rfl
  refine ⟨(processesStartQuery o.startQuery).1 ++ clientlogFirst mrmachine o ++
    processesEndAppendQuery (processesStartQuery o.startQuery).2 o.endQuery ++
    (List.flatten [
      withScratch (clogRunningservices o.runningservices),
      withNewline (clogEventlog 5 o.eventlog),
      withNewline (clogApplications o.applications),
      withScratch (clogCertificates o.certificates),
      withNewline (clogReboots 5 o.reboots),
      withNewline (clogClientversion o.clientversion)] ++
    [.arena .enter, append "[clock]".toList, append ('\n' :: o.localLine)]), ?_⟩
  simp only [clientlogCalls, clientlogLast, clock, List.flatten_cons, List.flatten_nil,
    List.append_assoc, List.append_nil]

section Whole

variable {memory : Nat → Char} {mem : Nat} {mrmachine : Text} {o : ClientlogOutcome}

theorem live_of_running
    (running : (clogRun (clientlogStart memory mem) (clientlogCalls mrmachine o)).Running) :
    Live (clogRun (clientlogStart memory mem) (clientlogCalls mrmachine o)) := by
  have frames := clientlogCalls_level mrmachine o (clientlogStart memory mem)
    (Nat.le_refl 1) running
  refine ⟨running, fun isEmpty => ?_⟩
  rw [isEmpty] at frames
  cases frames

/-- Behind a text that does not fill its frame stands its NUL. -/
theorem terminator_of_append {s : ClogState} {capacity : Nat} {printed : Text}
    (addresses : mem + capacity < 2 ^ 64) (bounded : capacity < 2 ^ 63)
    (ordered : Ordered mem capacity s.arena) (live : Live (clogStep s (append printed)))
    (short : ¬ ExactFit s.arena printed) (nonempty : printed ≠ []) :
    (clogStep s (append printed)).arena.state.memory
      (clogStep s (append printed)).arena.state.currentStart = nul := by
  obtain ⟨f, callers, frames, fits, arena⟩ := append_arena addresses bounded ordered live
  have room : printed.length < f.endAddr - s.arena.state.currentStart := by
    refine Nat.lt_of_le_of_ne fits fun full => short ⟨nonempty, f, ?_, full⟩
    rw [frames]
    rfl
  rw [arena]
  dsimp only
  rw [vsnprintf_short room]
  exact load_printed _ _ |>.2

/-- Where no text fills its frame, the NUL stands behind the output. -/
theorem terminated (addresses : mem + clientlogCapacity < 2 ^ 64)
    (described : ∀ call ∈ clientlogCalls mrmachine o, Described call)
    (live : Live (clogRun (clientlogStart memory mem) (clientlogCalls mrmachine o)))
    (short : ∀ earlier printed later,
      clientlogCalls mrmachine o = earlier ++ append printed :: later →
      ¬ ExactFit (clogRun (clientlogStart memory mem) earlier).arena printed) :
    (clogRun (clientlogStart memory mem) (clientlogCalls mrmachine o)).arena.state.memory
      (clogRun (clientlogStart memory mem)
        (clientlogCalls mrmachine o)).arena.state.currentStart = nul := by
  obtain ⟨room, bounded⟩ := madeCapacity_bounds addresses
  obtain ⟨front, split⟩ := clientlogCalls_last mrmachine o
  have last := short front ('\n' :: o.utcLine) [.arena .leave] (by rw [split]; simp)
  rw [split] at live described ⊢
  have step : clogRun (clientlogStart memory mem)
      (front ++ [append ('\n' :: o.utcLine)] ++ [.arena .leave]) =
      clogStep (clogStep (clogRun (clientlogStart memory mem) front)
        (append ('\n' :: o.utcLine))) (.arena .leave) := by
    rw [clogRun_append, clogRun_append]
    rfl
  rw [step] at live ⊢
  have left := clogStep_arena live
  have there := live_of_step live
  have written := written_of_live room bounded (clientlogStart_written memory mem)
    (fun call inside => described call (by simp [inside])) (live_of_step there)
  dsimp only at left
  rw [left, arenaStep_leave]
  exact terminator_of_append room bounded written.ordered there last (List.cons_ne_nil _ _)

theorem clientlog_of_running
    (running : (clogRun (clientlogStart memory mem) (clientlogCalls mrmachine o)).Running) :
    ∃ returned, clientlog memory mem mrmachine o = some returned ∧
      returned.sent =
        (clogRun (clientlogStart memory mem) (clientlogCalls mrmachine o)).arena.state := by
  unfold clientlog
  dsimp only
  rw [if_neg (by simp [running.2]), running.1]
  exact ⟨_, rfl, rfl⟩

theorem whole_of_running (addresses : mem + clientlogCapacity < 2 ^ 64)
    (described : ∀ call ∈ clientlogCalls mrmachine o, Described call)
    (running : (clogRun (clientlogStart memory mem) (clientlogCalls mrmachine o)).Running) :
    ∃ returned, clientlog memory mem mrmachine o = some returned ∧
      (IsCString returned.sent.memory returned.sent.startAddr (message mrmachine o) ↔
        ∀ earlier printed later,
          clientlogCalls mrmachine o = earlier ++ append printed :: later →
          ¬ ExactFit (clogRun (clientlogStart memory mem) earlier).arena printed) := by
  obtain ⟨room, bounded⟩ := madeCapacity_bounds addresses
  have live := live_of_running running
  have written := written_of_live room bounded (clientlogStart_written memory mem) described live
  have start := written.ordered.startAddr
  have output := appended_clientlogCalls mrmachine o
  obtain ⟨returned, same, sent⟩ := clientlog_of_running running
  refine ⟨returned, same, ?_⟩
  rw [sent, start, ← output]
  constructor
  · intro string earlier printed later split fits
    -- The byte that the exact fit has lost ends the string.
    have positive := List.length_pos_of_ne_nil fits.1
    have hole : Hole (clientlogStart memory mem) (clientlogCalls mrmachine o)
        ((appended earlier).length + printed.length - 1) :=
      ⟨earlier, printed, later, split, fits, by omega⟩
    exact ne_nul_of_isCString string hole.inside (written.lost _ hole)
  · intro short
    have whole : ∀ i, ¬ Hole (clientlogStart memory mem) (clientlogCalls mrmachine o) i := by
      rintro i ⟨earlier, printed, later, split, fits, -⟩
      exact short earlier printed later split fits
    have loaded := load_eq_take (Nat.le_refl (appended (clientlogCalls mrmachine o)).length)
      fun i c placed _ => written.kept i c placed (whole i)
    rw [List.take_length] at loaded
    refine ⟨loaded, ?_, appended_clean described⟩
    rw [← written.currentStart]
    exact terminated addresses described live short

/-- Of a run that nothing cuts short, the server gets the whole message if and only if no text
has filled its frame to the last byte. -/
theorem whole_report_iff (memory : Nat → Char) (mem : Nat) (mrmachine : Text)
    (o : ClientlogOutcome) (addresses : mem + clientlogCapacity < 2 ^ 64)
    (described : ∀ call ∈ clientlogCalls mrmachine o, Described call)
    (unthrown : (clogRun (clientlogStart memory mem)
      (clientlogCalls mrmachine o)).arena.thrown = none) :
    ∃ returned, clientlog memory mem mrmachine o = some returned ∧
      (IsCString returned.sent.memory returned.sent.startAddr (message mrmachine o) ↔
        ∀ earlier printed later,
          clientlogCalls mrmachine o = earlier ++ append printed :: later →
          ¬ ExactFit (clogRun (clientlogStart memory mem) earlier).arena printed) := by
  cases clientlog_followed memory mem mrmachine o (List.append_nil _).symm with
  | whole running _ => exact whole_of_running addresses described running
  | cut _ _ _ _ _ _ thrown _ _ =>
    rw [unthrown] at thrown
    cases thrown

theorem nothingAnswers_described :
    ∀ call ∈ clientlogCalls "host".toList nothingAnswers, Described call := by decide +kernel

/-- A machine on which nothing answers but the PDH query. -/
theorem whole_report_iff_silent :
    ∃ returned, clientlog (fun _ => nul) 64 "host".toList nothingAnswers = some returned ∧
      (IsCString returned.sent.memory returned.sent.startAddr
          (message "host".toList nothingAnswers) ↔
        ∀ earlier printed later,
          clientlogCalls "host".toList nothingAnswers = earlier ++ append printed :: later →
          ¬ ExactFit (clogRun (clientlogStart (fun _ => nul) 64) earlier).arena printed) :=
  whole_report_iff (fun _ => nul) 64 "host".toList nothingAnswers (by decide)
    nothingAnswers_described (by decide +kernel)

end Whole

/-! ### The room that a report takes -/

/-- The most bytes that a block takes, with the gap that its alignment can leave. -/
def blockBytes (size align count : Nat) : Nat := count * size + (align - 1)

/-- What a call does to the block bytes that each frame of the stack sees as taken. -/
def heldStep : List Nat → ClogCall → List Nat
  | held :: callers, .arena .enter => held :: held :: callers
  | _ :: callers, .arena .leave => callers
  | held :: callers, .arena (.allocate size align count) =>
    (held + blockBytes size align count) :: callers
  | frames, _ => frames

/-- The bytes of output, those that each frame sees as taken by blocks, and the most that both
have come to so far. -/
structure Usage where
  output : Nat
  held : List Nat
  most : Nat

def Usage.step (u : Usage) (call : ClogCall) : Usage :=
  let output := u.output + (appended [call]).length
  let held := heldStep u.held call
  ⟨output, held, max u.most (output + held.headD 0)⟩

def usage (calls : List ClogCall) : Usage := calls.foldl Usage.step ⟨0, [0], 0⟩

theorem usage_concat (calls : List ClogCall) (call : ClogCall) :
    usage (calls ++ [call]) = (usage calls).step call := List.foldl_append

theorem usage_output (calls : List ClogCall) : (usage calls).output = (appended calls).length := by
  induction calls using List.reverseRecOn with
  | nil => rfl
  | append_singleton calls call ih =>
    rw [usage_concat, appended_append, List.length_append, ← ih]
    rfl

theorem most_le_foldl (calls : List ClogCall) (u : Usage) :
    u.most ≤ (calls.foldl Usage.step u).most := by
  induction calls generalizing u with
  | nil => exact Nat.le_refl _
  | cons call rest ih => exact Nat.le_trans (Nat.le_max_left _ _) (ih (u.step call))

/-- What is in use behind a call is no more than the most there ever is. -/
theorem inUse_le_most {calls before after : List ClogCall} {call : ClogCall}
    (split : calls = before ++ call :: after) :
    (appended before).length + (appended [call]).length +
      (heldStep (usage before).held call).headD 0 ≤ (usage calls).most := by
  have shape : calls = before ++ [call] ++ after := by simp [split]
  have whole : usage calls = after.foldl Usage.step (usage (before ++ [call])) := by
    rw [shape]
    exact List.foldl_append
  have here := most_le_foldl after (usage (before ++ [call]))
  rw [← whole, usage_concat] at here
  rw [← usage_output]
  exact Nat.le_trans (Nat.le_max_right _ _) here

/-- No frame has lost more than the bytes that it sees as taken. -/
def Roomy (top : Nat) (held : List Nat) (run : ArenaRun) : Prop :=
  List.Forall₂ (fun f bytes => top ≤ f.endAddr + bytes) run.frames held

section Room

variable {bits mem capacity top : Nat} {held : List Nat} {run : ArenaRun} {call : ArenaCall}

theorem block_within {f : Frame} {callers : List Frame} {size align count : Nat}
    (addresses : mem + capacity < 2 ^ (bits + 1)) (bounded : capacity < 2 ^ bits)
    (ordered : Ordered mem capacity run) (frames : run.frames = f :: callers)
    (wellFormed : WellFormed bits (.allocate size align count)) :
    match arenaAllocate (bits + 1) run.state f.endAddr size align count with
    | none => f.endAddr < run.state.currentStart + blockBytes size align count
    | some (_, block) => f.endAddr ≤ block + blockBytes size align count := by
  obtain ⟨high, small, room⟩ := ceiling_lt addresses bounded ordered frames
  obtain ⟨⟨k, aligned, rfl⟩, amount⟩ := wellFormed
  have gap := Nat.mod_lt (f.endAddr - count * size) (Nat.two_pow_pos k)
  rw [arenaAllocate_eq high small room amount aligned]
  unfold blockBytes
  by_cases fits : count * size ≤ f.endAddr - run.state.currentStart ∧
      run.state.currentStart ≤ f.endAddr - count * size - (f.endAddr - count * size) % 2 ^ k
  · rw [if_pos fits]
    dsimp only
    omega
  · rw [if_neg fits]
    dsimp only
    omega

theorem arenaStep_roomy (addresses : mem + capacity < 2 ^ (bits + 1))
    (bounded : capacity < 2 ^ bits) (ordered : Ordered mem capacity run)
    (wellFormed : WellFormed bits call) (running : run.thrown = none)
    (goesOn : (arenaStep (bits + 1) run call).1.thrown = none) (roomy : Roomy top held run) :
    Roomy top (heldStep held (.arena call)) (arenaStep (bits + 1) run call).1 := by
  unfold Roomy at roomy ⊢
  cases frames : run.frames with
  | nil =>
    rw [frames] at roomy
    cases roomy
    unfold arenaStep
    rw [running, frames]
    dsimp only
    rw [frames]
    exact .nil
  | cons f callers =>
    rw [frames] at roomy
    obtain ⟨bytes, rest, first, outer, rfl⟩ := List.forall₂_cons_left_iff.mp roomy
    cases call with
    | enter =>
      unfold arenaStep
      rw [running, frames]
      exact .cons first (.cons first outer)
    | leave =>
      unfold arenaStep
      rw [running, frames]
      exact outer
    | append printed =>
      rw [arenaStep_append (bits + 1) running frames]
      dsimp only
      rw [frames]
      exact .cons first outer
    | allocate size align count =>
      have block := block_within addresses bounded ordered frames wellFormed
      unfold arenaStep at goesOn ⊢
      rw [running, frames] at goesOn ⊢
      dsimp only at goesOn ⊢
      cases granted : arenaAllocate (bits + 1) run.state f.endAddr size align count with
      | none =>
        rw [granted] at goesOn
        cases goesOn
      | some answer =>
        obtain ⟨state', address⟩ := answer
        rw [granted] at block
        dsimp only at block
        refine .cons ?_ outer
        dsimp only
        omega

/-- A call that throws asks for more than there is. -/
theorem inUse_of_thrown (addresses : mem + capacity < 2 ^ (bits + 1))
    (bounded : capacity < 2 ^ bits) (ordered : Ordered mem capacity run)
    (wellFormed : WellFormed bits call) (running : run.thrown = none) (going : run.frames ≠ [])
    (threw : (arenaStep (bits + 1) run call).1.thrown ≠ none) (roomy : Roomy top held run) :
    top < run.state.currentStart + (appended [.arena call]).length +
      (heldStep held (.arena call)).headD 0 := by
  unfold Roomy at roomy
  obtain ⟨f, callers, frames⟩ := List.exists_cons_of_ne_nil going
  obtain ⟨high, -, room⟩ := ceiling_lt addresses bounded ordered frames
  rw [frames] at roomy
  obtain ⟨bytes, rest, first, outer, rfl⟩ := List.forall₂_cons_left_iff.mp roomy
  cases call with
  | enter | leave =>
    unfold arenaStep at threw
    rw [running, frames] at threw
    exact absurd rfl threw
  | append printed =>
    rw [arenaStep_append (bits + 1) running frames, arenaAppend_eq high room] at threw
    dsimp only at threw
    rw [appended_cons_append, appended_nil, List.append_nil]
    dsimp only [heldStep, List.headD_cons]
    split at threw
    next long => omega
    next => exact absurd rfl threw
  | allocate size align count =>
    have block := block_within addresses bounded ordered frames wellFormed
    unfold arenaStep at threw
    rw [running, frames] at threw
    dsimp only at threw
    dsimp only [heldStep, List.headD_cons]
    cases granted : arenaAllocate (bits + 1) run.state f.endAddr size align count with
    | none =>
      rw [granted] at block
      dsimp only at block
      omega
    | some answer =>
      rw [granted] at threw
      exact absurd rfl threw

/-- A text that fills its frame leaves nothing of the arena. -/
theorem inUse_of_exactFit {printed : Text} (fits : ExactFit run printed)
    (roomy : Roomy top held run) (ordered : Ordered mem capacity run) :
    top ≤ run.state.currentStart + printed.length + held.headD 0 := by
  obtain ⟨-, f, head, size⟩ := fits
  obtain ⟨callers, frames⟩ := List.head?_eq_some_iff.mp head
  unfold Roomy at roomy
  have high := ordered.high
  rw [frames] at roomy high
  change run.state.currentStart ≤ f.endAddr at high
  obtain ⟨bytes, rest, first, -, rfl⟩ := List.forall₂_cons_left_iff.mp roomy
  dsimp only [List.headD_cons]
  omega

end Room

section Whole

variable {memory : Nat → Char} {mem : Nat} {calls : List ClogCall}

theorem live_of_append {s : ClogState} {first second : List ClogCall}
    (live : Live (clogRun s (first ++ second))) : Live (clogRun s first) := by
  induction second using List.reverseRecOn with
  | nil => rwa [List.append_nil] at live
  | append_singleton second call ih =>
    rw [← List.append_assoc, clogRun_append] at live
    exact ih (live_of_step live)

/-- Every run that is not over: an induction on its calls. -/
theorem roomy_of_live (addresses : mem + clientlogCapacity < 2 ^ 64)
    (described : ∀ call ∈ calls, Described call)
    (live : Live (clogRun (clientlogStart memory mem) calls)) :
    Roomy (mem + madeCapacity mem) (usage calls).held
      (clogRun (clientlogStart memory mem) calls).arena := by
  obtain ⟨room, bounded⟩ := madeCapacity_bounds addresses
  have start := clientlogStart_written memory mem
  induction calls using List.reverseRecOn with
  | nil => exact .cons (Nat.le_of_eq start.endAddr.symm) .nil
  | append_singleton calls call ih =>
    have before := live_of_append live
    have step : clogRun (clientlogStart memory mem) (calls ++ [call]) =
        clogStep (clogRun (clientlogStart memory mem) calls) call := clogRun_append _ calls [call]
    rw [step] at live ⊢
    have kept := ih (fun c inside => described c (by simp [inside])) before
    have written := written_of_live room bounded start
      (fun c inside => described c (by simp [inside])) before
    have here := described call (by simp)
    have arena := clogStep_arena live
    rw [usage_concat]
    cases call with
    | arena call =>
      dsimp only at arena
      have wellFormed : WellFormed 63 call := by
        cases call with
        | append printed => trivial
        | enter | leave | allocate => exact here
      have goesOn := live.1.1
      rw [arena] at goesOn ⊢
      exact arenaStep_roomy room bounded written.ordered wellFormed before.1.1 goesOn kept
    | opens | closes | defer | ignorePopDefer | popDefer | popDeferAll =>
      rw [arena]
      dsimp only [Usage.step]
      cases found : (usage calls).held with
      | nil =>
        rw [found] at kept
        exact kept
      | cons held callers =>
        rw [found] at kept
        exact kept

end Whole

/-- If never as much is in use as the arena has, the server gets the whole message,
whatever Windows answers. -/
theorem roomy_report_whole (memory : Nat → Char) (mem : Nat) (mrmachine : Text)
    (o : ClientlogOutcome) (allocated : mem ≠ 0) (addresses : mem + clientlogCapacity < 2 ^ 64)
    (described : ∀ call ∈ clientlogCalls mrmachine o, Described call)
    (enough : (usage (clientlogCalls mrmachine o)).most < clientlogCapacity) :
    ∃ returned, clientlog memory mem mrmachine o = some returned ∧
      IsCString returned.sent.memory returned.sent.startAddr (message mrmachine o) := by
  obtain ⟨room, bounded⟩ := madeCapacity_bounds addresses
  have capacity : madeCapacity mem = clientlogCapacity := if_neg allocated
  have placed : ∀ {before call after}, clientlogCalls mrmachine o = before ++ call :: after →
      (∀ c ∈ before, Described c) ∧ Described call := by
    intro before call after split
    exact ⟨fun c inside => described c (by simp [split, inside]), described call (by simp [split])⟩
  have running : (clogRun (clientlogStart memory mem) (clientlogCalls mrmachine o)).Running := by
    cases clientlog_followed memory mem mrmachine o (List.append_nil _).symm with
    | whole running _ => exact running
    | cut before call after split throws =>
      obtain ⟨inside, here⟩ := placed split
      have used := inUse_le_most split
      have live := live_of_throws throws
      have written := written_of_live room bounded (clientlogStart_written memory mem) inside live
      have wellFormed : WellFormed 63 call := by
        cases call with
        | append printed => trivial
        | enter | leave | allocate => exact here
      have short := inUse_of_thrown room bounded written.ordered wellFormed live.1.1 live.2 throws.2
        (roomy_of_live addresses inside live)
      rw [written.currentStart] at short
      omega
  obtain ⟨returned, same, whole⟩ := whole_of_running addresses described running
  refine ⟨returned, same, whole.mpr fun earlier printed later split fits => ?_⟩
  obtain ⟨inside, -⟩ := placed split
  have used := inUse_le_most split
  have live := live_of_running running
  rw [split] at live
  have before := live_of_append live
  have written := written_of_live room bounded (clientlogStart_written memory mem) inside before
  have full := inUse_of_exactFit fits (roomy_of_live addresses inside before) written.ordered
  rw [written.currentStart] at full
  rw [appended_cons_append, appended_nil, List.append_nil] at used
  have held : heldStep (usage earlier).held (append printed) = (usage earlier).held := by
    cases (usage earlier).held <;> rfl
  rw [held] at used
  omega

/-- The same machine. -/
theorem roomy_report_whole_silent :
    ∃ returned, clientlog (fun _ => nul) 64 "host".toList nothingAnswers = some returned ∧
      IsCString returned.sent.memory returned.sent.startAddr
        (message "host".toList nothingAnswers) :=
  roomy_report_whole (fun _ => nul) 64 "host".toList nothingAnswers (by decide) (by decide)
    nothingAnswers_described (by decide +kernel)

end MrBig.Guarantees.ClientReport
