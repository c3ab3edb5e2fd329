import Mathlib.Data.List.TakeWhile
import MrBig.Library.Completion
import MrBig.Source.RunCmd

/-!
# When the output of a command is reported

The parent does not read before the child has exited, and the child cannot exit before its
output is in the pipe. Every run ends; it ends with the whole output if the pipe holds the
output, and else with a time-out.
-/

set_option autoImplicit false

namespace MrBig.Guarantees.WholeOutput
open Library Library.Completion Source Source.RunCmd

/-- What the function appends and whether it reports a time-out. -/
structure Reported (text : Text) (s : PipeState) : Prop where
  closed : s.parent = .closed waitObject0
  whole : appended (runCmdSynchronously (outcome s)) =
    if text = [] then "(No output)".toList else text

/-- No byte is lost, and none is read before the child has exited. -/
structure PipeInv (capacity : Nat) (text : Text) (s : PipeState) : Prop where
  bytes : s.reads.flatten ++ (s.pipe ++ s.output) = text
  pieces : ∀ piece ∈ s.reads, piece ≠ []
  bounded : s.pipe.length ≤ capacity
  written : s.exited = true → s.output = [] ∧ text.length ≤ capacity
  waiting : s.parent = .waiting → s.reads = []
  parent : s.parent = .reading → s.exited = true
  ended : ∀ status, s.parent = .closed status →
    status = waitObject0 ∧ s.pipe = [] ∧ s.exited = true ∨
      status = waitTimeout ∧ Blocked capacity s ∧ s.reads = []

/-- What is still to be done. -/
def toDo (s : PipeState) : Nat :=
  2 * s.output.length + s.pipe.length + (if s.exited then 0 else 1) +
    match s.parent with
    | .waiting => 2
    | .reading => 1
    | .closed _ => 0

section

variable {capacity : Nat} {text : Text}

theorem step_lowers (s s' : PipeState) (step : PipeStep capacity s s') : toDo s' < toDo s := by
  unfold toDo
  cases step with
  | write n running nonempty left room =>
    simp only [List.length_drop, List.length_append, List.length_take, Nat.min_eq_left left]
    omega
  | exit running written => simp [running]
  | waitReturns waits ended => simp [waits]
  | waitTimesOut waits blocked => simp [waits]
  | read n reads nonempty buffer there =>
    simp only [List.length_drop]
    omega
  | readEnd reads empty ended => simp [reads]

theorem pipeStart_inv (text : Text) : PipeInv capacity text (pipeStart text) where
  bytes := rfl
  pieces := by simp [pipeStart]
  bounded := Nat.zero_le _
  written := by simp [pipeStart]
  waiting := fun _ => rfl
  parent := by simp [pipeStart]
  ended := by simp [pipeStart]

/-- A child that still runs has only ever been given up on. -/
theorem blocked_of_running {s : PipeState} (inv : PipeInv capacity text s)
    (running : s.exited = false) {status : Nat} (closed : s.parent = .closed status) :
    Blocked capacity s ∧ s.reads = [] := by
  rcases inv.ended status closed with ⟨-, -, exited⟩ | ⟨-, blocked, unread⟩
  · rw [running] at exited
    cases exited
  · exact ⟨blocked, unread⟩

theorem step_inv {s s' : PipeState} (inv : PipeInv capacity text s)
    (step : PipeStep capacity s s') : PipeInv capacity text s' := by
  cases step with
  | write n running nonempty left room =>
    have bytes : s.reads.flatten ++ ((s.pipe ++ s.output.take n) ++ s.output.drop n) = text := by
      rw [List.append_assoc, List.take_append_drop]
      exact inv.bytes
    have unclosed : ∀ status, s.parent ≠ .closed status := by
      intro status closed
      have full := (blocked_of_running inv running closed).1.2.2
      omega
    refine ⟨bytes, inv.pieces, ?_, ?_, inv.waiting, inv.parent, ?_⟩
    · rw [List.length_append, List.length_take, Nat.min_eq_left left]
      exact room
    · intro exited
      rw [running] at exited
      cases exited
    · intro status closed
      exact absurd closed (unclosed status)
  | exit running written =>
    have waits : s.reads = [] := by
      cases parent : s.parent with
      | waiting => exact inv.waiting parent
      | reading =>
        rw [inv.parent parent] at running
        cases running
      | closed status => exact (blocked_of_running inv running parent).2
    -- Nothing was read, so all of the output is in the pipe.
    have whole : s.pipe = text := by
      simpa [waits, written] using inv.bytes
    refine ⟨inv.bytes, inv.pieces, inv.bounded, fun _ => ⟨written, whole ▸ inv.bounded⟩,
      inv.waiting, fun _ => rfl, ?_⟩
    intro status closed
    rcases inv.ended status closed with ⟨returned, empty, -⟩ | ⟨-, blocked, -⟩
    · exact Or.inl ⟨returned, empty, rfl⟩
    · exact absurd written blocked.2.1
  | waitReturns waits ended =>
    exact ⟨inv.bytes, inv.pieces, inv.bounded, inv.written, by simp, fun _ => ended, by simp⟩
  | waitTimesOut waits blocked =>
    refine ⟨inv.bytes, inv.pieces, inv.bounded, inv.written, by simp, by simp, ?_⟩
    intro status closed
    cases closed
    exact Or.inr ⟨rfl, blocked, inv.waiting waits⟩
  | read n reads nonempty buffer there =>
    have bytes : (s.reads ++ [s.pipe.take n]).flatten ++ (s.pipe.drop n ++ s.output) = text := by
      rw [← inv.bytes, List.flatten_append, List.flatten_singleton, List.append_assoc,
        ← List.append_assoc (s.pipe.take n), List.take_append_drop]
    have piece : s.pipe.take n ≠ [] := by
      intro isEmpty
      have size := congrArg List.length isEmpty
      rw [List.length_take, Nat.min_eq_left there, List.length_nil] at size
      omega
    refine ⟨bytes, ?_, ?_, inv.written, ?_, inv.parent, ?_⟩
    · intro other member
      rcases List.mem_append.mp member with old | new
      · exact inv.pieces other old
      · rw [List.mem_singleton.mp new]
        exact piece
    · have bounded := inv.bounded
      rw [List.length_drop]
      omega
    · simp [reads]
    · simp [reads]
  | readEnd reads empty ended =>
    refine ⟨inv.bytes, inv.pieces, inv.bounded, inv.written, by simp, by simp, ?_⟩
    intro status closed
    cases closed
    exact Or.inl ⟨rfl, empty, ended⟩

/-- A run is stuck only behind the parent's last step. -/
theorem closed_of_stuck {s : PipeState} (inv : PipeInv capacity text s)
    (stuck : Stuck (PipeStep capacity) s) : ∃ status, s.parent = .closed status := by
  cases parent : s.parent with
  | closed status => exact ⟨status, rfl⟩
  | waiting =>
    exfalso
    cases exited : s.exited with
    | true => exact stuck _ (.waitReturns s parent exited)
    | false =>
      by_cases written : s.output = []
      · exact stuck _ (.exit s exited written)
      · by_cases room : s.pipe.length < capacity
        · have left : 1 ≤ s.output.length := List.length_pos_of_ne_nil written
          exact stuck _ (.write s 1 exited Nat.one_pos left room)
        · have full : s.pipe.length = capacity := Nat.le_antisymm inv.bounded (by omega)
          exact stuck _ (.waitTimesOut s parent ⟨exited, written, full⟩)
  | reading =>
    exfalso
    have ended := inv.parent parent
    by_cases empty : s.pipe = []
    · exact stuck _ (.readEnd s parent empty ended)
    · have there : 1 ≤ s.pipe.length := List.length_pos_of_ne_nil empty
      exact stuck _ (.read s 1 parent Nat.one_pos (by decide) there)

end

/-! ### What is appended -/

@[simp] theorem appended_map_append (pieces : List Text) :
    appended (pieces.map append) = pieces.flatten := by
  simp [appended, List.flatMap_map, List.flatMap_id']

/-- A command that was started. -/
theorem appended_runCmd {o : Command} (pipe : o.createPipe = true)
    (handles : o.setHandleInformation = true) (process : o.createProcess = true) :
    appended (runCmdSynchronously o) =
      if o.waitStatus = waitObject0 then
        if o.reads = [] then "(No output)".toList else o.reads.flatten
      else o.message := by
  unfold runCmdSynchronously
  rw [pipe, handles, process]
  by_cases returned : o.waitStatus = waitObject0
  · by_cases nothing : o.reads = []
    · simp [returned, nothing]
    · simp [returned, nothing]
  · simp [returned]

theorem reported_of_closed {capacity : Nat} {text : Text} (noNul : '\x00' ∉ text) {s : PipeState}
    (inv : PipeInv capacity text s) (closed : s.parent = .closed waitObject0) :
    Reported text s := by
  rcases inv.ended waitObject0 closed with ⟨-, empty, exited⟩ | ⟨timeout, -⟩
  · have whole : s.reads.flatten = text := by
      simpa [empty, (inv.written exited).1] using inv.bytes
    have printed : (outcome s).reads = s.reads := by
      calc s.reads.map (fun piece => piece.takeWhile (· ≠ '\x00'))
          = s.reads.map id := by
            apply List.map_congr_left
            intro piece member
            rw [id, List.takeWhile_eq_self_iff]
            intro c inside
            have inText : c ∈ text := whole ▸ List.mem_flatten.mpr ⟨piece, member, inside⟩
            simpa using fun same : c = '\x00' => noNul (same ▸ inText)
        _ = s.reads := List.map_id _
    have nothing : s.reads = [] ↔ text = [] := by
      rw [← whole, List.flatten_eq_nil_iff]
      constructor
      · intro isEmpty
        simp [isEmpty]
      · intro all
        rw [List.eq_nil_iff_forall_not_mem]
        exact fun piece member => inv.pieces piece member (all piece member)
    have status : (outcome s).waitStatus = waitObject0 := by simp [outcome, closed]
    constructor
    · exact closed
    · rw [appended_runCmd rfl rfl rfl, if_pos status, printed, whole]
      simp only [nothing]
  · cases timeout

/-- The parent gives up on the child and reports nothing of its output. -/
structure TimedOut (s : PipeState) : Prop where
  closed : s.parent = .closed waitTimeout
  message : appended (runCmdSynchronously (outcome s)) = timeoutMessage

theorem timedOut_of_closed {s : PipeState} (closed : s.parent = .closed waitTimeout) :
    TimedOut s := by
  have status : (outcome s).waitStatus = waitTimeout := by simp [outcome, closed]
  have other : waitTimeout ≠ waitObject0 := by decide
  constructor
  · exact closed
  · rw [appended_runCmd rfl rfl rfl, status, if_neg other]
    rfl

/-! ### Runs -/

theorem short_completes {capacity : Nat} {text : Text} (noNul : '\x00' ∉ text)
    (fits : text.length ≤ capacity) :
    Completes (PipeStep capacity) (pipeStart text) (Reported text) := by
  apply completes_of_measure step_lowers (pipeStart_inv text) fun _ _ => step_inv
  intro s inv stuck
  obtain ⟨status, closed⟩ := closed_of_stuck inv stuck
  rcases inv.ended status closed with ⟨rfl, -⟩ | ⟨rfl, blocked, unread⟩
  · exact reported_of_closed noNul inv closed
  · exfalso
    -- The full pipe and what is left to write make up the text.
    obtain ⟨-, left, full⟩ := blocked
    have size := congrArg List.length inv.bytes
    have more := List.length_pos_of_ne_nil left
    rw [unread, List.length_append, List.length_append, List.flatten_nil, List.length_nil] at size
    omega

theorem long_completes {capacity : Nat} {text : Text} (long : capacity < text.length) :
    Completes (PipeStep capacity) (pipeStart text) TimedOut := by
  apply completes_of_measure step_lowers (pipeStart_inv text) fun _ _ => step_inv
  intro s inv stuck
  obtain ⟨status, closed⟩ := closed_of_stuck inv stuck
  rcases inv.ended status closed with ⟨-, -, exited⟩ | ⟨rfl, -⟩
  · exact absurd (inv.written exited).2 (Nat.not_le_of_lt long)
  · exact timedOut_of_closed closed

/-- Every run of parent and child ends, and ends with the whole output appended, exactly if the
pipe holds the output; with a longer output every run ends with a time-out. -/
theorem output_whole_iff {capacity : Nat} {text : Text} (noNul : '\x00' ∉ text) :
    (Completes (PipeStep capacity) (pipeStart text) (Reported text) ↔ text.length ≤ capacity) ∧
      (capacity < text.length → Completes (PipeStep capacity) (pipeStart text) TimedOut) := by
  refine ⟨⟨fun completes => ?_, short_completes noNul⟩, long_completes⟩
  by_contra long
  have both := completes.and (long_completes (Nat.lt_of_not_le long))
  obtain ⟨s, -, whole, timedOut⟩ := both.exists_end step_lowers
  have closed := whole.closed
  rw [timedOut.closed] at closed
  cases closed

theorem output_whole_iff_route :
    (Completes (PipeStep 4096) (pipeStart "Active Routes:".toList)
        (Reported "Active Routes:".toList) ↔ "Active Routes:".toList.length ≤ 4096) ∧
      (4096 < "Active Routes:".toList.length →
        Completes (PipeStep 4096) (pipeStart "Active Routes:".toList) TimedOut) :=
  output_whole_iff (by decide)

/-- Three bytes through a pipe of two: the child waits for the parent and the parent for the
child. -/
theorem full_pipe_times_out :
    ¬ Completes (PipeStep 2) (pipeStart "abc".toList) (Reported "abc".toList) ∧
      ∃ s, Reaches (PipeStep 2) (pipeStart "abc".toList) s ∧
        appended (runCmdSynchronously (outcome s)) = timeoutMessage := by
  have late := long_completes (show 2 < "abc".toList.length by decide)
  obtain ⟨s, reached, timedOut⟩ := late.exists_end step_lowers
  refine ⟨fun completes => ?_, s, reached, timedOut.message⟩
  obtain ⟨s', -, whole, timedOut'⟩ := (completes.and late).exists_end step_lowers
  have closed := whole.closed
  rw [timedOut'.closed] at closed
  cases closed

end MrBig.Guarantees.WholeOutput
