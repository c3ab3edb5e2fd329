import MrBig.Guarantees.HandleStack

/-!
# When clientlog closes what it opened

The error handler closes what is on the handle stack. Some objects never get there: the
PDH query and its event, the pipe, process and thread of a command, and the fetched events
that are not yet printed. A throw while one of them is open leaves it open; every other
throw, and every run without one, closes everything.
-/

set_option autoImplicit false

namespace MrBig.Guarantees.HandlesClosed
open Library Source HandleDiscipline ClientlogHandles HandleStack

/-- The PDH query or its event, a pipe, process or thread of a command, or an event that
EvtNext fetched is open and was not passed to clog_Defer. -/
def Exposed (s : HandleState) : Prop :=
  ∃ h ∈ s.openHandles, undeferred h = true ∧ ¬ Deferred s h

/-! ### What popping everything closes -/

theorem closeWith_nodup {openHandles : List Handle} (nodup : openHandles.Nodup)
    (w : HandleWrapper) : (closeWith openHandles w).Nodup := by
  obtain ⟨handle, fn⟩ := w
  cases handle with
  | none => exact nodup
  | some h =>
    unfold closeWith
    dsimp only
    split
    next => exact nodup.erase h
    next => exact nodup

theorem mem_closeWith {openHandles : List Handle} (nodup : openHandles.Nodup)
    (w : HandleWrapper) (h : Handle) :
    h ∈ closeWith openHandles w ↔ h ∈ openHandles ∧ w ≠ ⟨some h, h.closeFn⟩ := by
  obtain ⟨handle, fn⟩ := w
  cases handle with
  | none => simp [closeWith]
  | some other =>
    unfold closeWith
    dsimp only
    split
    next right =>
      rw [nodup.mem_erase_iff]
      constructor
      · rintro ⟨different, member⟩
        refine ⟨member, fun same => different ?_⟩
        simpa using (congrArg HandleWrapper.handle same).symm
      · rintro ⟨member, different⟩
        refine ⟨fun same => different ?_, member⟩
        subst same
        rw [right]
    next wrong =>
      constructor
      · intro member
        refine ⟨member, fun same => wrong ?_⟩
        obtain ⟨rfl, rfl⟩ : other = h ∧ fn = h.closeFn := by simpa using same
        rfl
      · exact And.left

theorem mem_foldl_closeWith {openHandles : List Handle} (nodup : openHandles.Nodup)
    (stack : List HandleWrapper) (h : Handle) :
    h ∈ stack.foldl closeWith openHandles ↔ h ∈ openHandles ∧ ⟨some h, h.closeFn⟩ ∉ stack := by
  induction stack generalizing openHandles with
  | nil => simp
  | cons w rest ih =>
    rw [List.foldl_cons, ih (closeWith_nodup nodup w), mem_closeWith nodup, List.mem_cons, not_or,
      and_assoc]
    exact and_congr_right fun _ => and_congr_left fun _ => ne_comm

/-- What the handler closes where every open object is on the stack or exposed. -/
theorem popAll_closes_iff {s : HandleState} (guarded : Guarded s) :
    (popAll s).openHandles = [] ↔ ¬ Exposed s := by
  have left : ∀ h, h ∈ (popAll s).openHandles ↔ h ∈ s.openHandles ∧ ¬ Deferred s h :=
    mem_foldl_closeWith guarded.nodup s.handleStack
  rw [List.eq_nil_iff_forall_not_mem]
  constructor
  · rintro closed ⟨h, member, _, exposed⟩
    exact closed h ((left h).mpr ⟨member, exposed⟩)
  · intro covered h member
    obtain ⟨stillOpen, exposed⟩ := (left h).mp member
    rcases guarded.covered h stillOpen with loose | deferred
    · exact covered ⟨h, stillOpen, loose, exposed⟩
    · exact exposed deferred

/-! ### The throw of a run -/

theorem not_running_of_throws {s : ClogState} {before rest : List ClogCall} {call : ArenaCall}
    (throws : Throws (clogRun s before) call) :
    ¬ (clogRun s (before ++ .arena call :: rest)).Running := by
  have step : clogStep (clogRun s before) (.arena call) =
      { clogRun s before with arena := (arenaStep 64 (clogRun s before).arena call).1 } :=
    if_pos throws.1
  have halted : ¬ (clogStep (clogRun s before) (.arena call)).Running := by
    rw [step]
    exact fun going => throws.2 going.1
  rw [clogRun_append]
  change ¬ (clogRun (clogStep (clogRun s before) (.arena call)) rest).Running
  rw [clogRun_of_not_running halted]
  exact halted

/-- A run throws at one call only. -/
theorem throws_once {s : ClogState} {calls before before' after after' : List ClogCall}
    {call call' : ArenaCall} (split : calls = before ++ .arena call :: after)
    (split' : calls = before' ++ .arena call' :: after')
    (throws : Throws (clogRun s before) call) (throws' : Throws (clogRun s before') call') :
    before = before' := by
  rw [split] at split'
  rcases List.append_eq_append_iff.mp split' with ⟨between, longer, rest⟩ | ⟨between, longer, rest⟩
  · cases between with
    | nil => rw [longer, List.append_nil]
    | cons head between =>
      obtain ⟨rfl, _⟩ := List.cons.inj rest
      exact absurd throws'.1 (longer ▸ not_running_of_throws throws)
  · cases between with
    | nil => rw [longer, List.append_nil]
    | cons head between =>
      obtain ⟨rfl, _⟩ := List.cons.inj rest
      exact absurd throws.1 (longer ▸ not_running_of_throws throws')

/-- What a throw comes to: everything closed, or what is exposed where it happens. -/
theorem clientlog_of_throws (memory : Nat → Char) (mem : Nat) (mrmachine : Text)
    (o : ClientlogOutcome) {before after : List ClogCall} {call : ArenaCall}
    (split : clientlogCalls mrmachine o = before ++ .arena call :: after)
    (throws : Throws (clogRun (clientlogStart memory mem) before) call) :
    (∃ returned, clientlog memory mem mrmachine o = some returned ∧
        returned.handles.openHandles = []) ↔
      ¬ Exposed (clogRun (clientlogStart memory mem) before).handles := by
  obtain ⟨returned, same, handles⟩ := clientlog_returns memory mem mrmachine o
  have leads := clientlogCalls_leads mrmachine o
  have guarded : Guarded (clogRun (clientlogStart memory mem) before).handles := by
    cases clientlog_followed memory mem mrmachine o split with
    | whole _ reached =>
      rw [split] at leads
      rw [reached]
      exact leads.condition
    | cut earlier other rest split' throws' _ _ _ _ =>
      rw [split'] at throws
      exact absurd throws.1 (not_running_of_throws throws')
  have reached : (clogRun (clientlogStart memory mem) (clientlogCalls mrmachine o)).handles =
      (clogRun (clientlogStart memory mem) before).handles := by
    cases clientlog_followed memory mem mrmachine o (List.append_nil _).symm with
    | whole running _ =>
      rw [split] at running
      exact absurd running (not_running_of_throws throws)
    | cut earlier other rest split' throws' _ _ _ cutHandles =>
      rw [cutHandles, throws_once split' split throws' throws]
  rw [← popAll_closes_iff guarded, ← reached, ← handles, same]
  simp

/-- clientlog() returns with everything closed if and only if no append and no allocation
fails while an exposed object is open. -/
theorem clientlog_closes_iff (memory : Nat → Char) (mem : Nat) (mrmachine : Text)
    (o : ClientlogOutcome) :
    (∃ returned, clientlog memory mem mrmachine o = some returned ∧
        returned.handles.openHandles = []) ↔
      ∀ before call after, clientlogCalls mrmachine o = before ++ .arena call :: after →
        Throws (clogRun (clientlogStart memory mem) before) call →
          ¬ Exposed (clogRun (clientlogStart memory mem) before).handles := by
  cases clientlog_followed memory mem mrmachine o (List.append_nil _).symm with
  | whole running reached =>
    obtain ⟨returned, same, handles⟩ := clientlog_returns memory mem mrmachine o
    have final := reached.trans (clientlogCalls_leads mrmachine o).foldl_eq
    refine iff_of_true ⟨returned, same, ?_⟩ fun before call after split throws => ?_
    · rw [handles, final]
      rfl
    · rw [split] at running
      exact absurd running (not_running_of_throws throws)
  | cut before call after split throws _ _ _ _ =>
    constructor
    · intro closed before' call' after' split' throws'
      exact (clientlog_of_throws memory mem mrmachine o split' throws').mp closed
    · intro each
      exact (clientlog_of_throws memory mem mrmachine o split throws).mpr
        (each before call after split throws)

/-! ### A machine with many connections -/

/-- Texts of one length that do not all fit: the run throws at one of them. -/
theorem appends_throw {s : ClogState} (running : s.Running) {f : Frame} {callers : List Frame}
    (frames : s.arena.frames = f :: callers)
    (ordered : s.arena.state.currentStart ≤ f.endAddr)
    (room : f.endAddr - s.arena.state.currentStart < 2 ^ 63) {length : Nat} {texts : List Text}
    (equal : ∀ t ∈ texts, t.length = length)
    (long : f.endAddr - s.arena.state.currentStart < texts.length * length) :
    ∃ before t after, texts = before ++ t :: after ∧
      Throws (clogRun s (before.map append)) (.append t) ∧
      (clogRun s (before.map append)).handles = s.handles := by
  induction texts generalizing s with
  | nil => simp at long
  | cons t rest ih =>
    have size := equal t List.mem_cons_self
    have step := arenaStep_append 64 running.1 frames t
    have appended := @arenaAppend_eq 63 s.arena.state f.endAddr t ordered room
    rcases Nat.lt_or_ge (f.endAddr - s.arena.state.currentStart) t.length with tooLong | fits
    · refine ⟨[], t, rest, rfl, ⟨running, ?_⟩, rfl⟩
      change (arenaStep 64 s.arena (.append t)).1.thrown ≠ none
      rw [step, appended, if_pos tooLong]
      simp
    · rw [if_neg (by omega)] at appended
      rw [appended] at step
      have next : clogStep s (append t) =
          { s with arena := (arenaStep 64 s.arena (.append t)).1 } := if_pos running
      rw [step] at next
      rw [List.length_cons, Nat.succ_mul] at long
      obtain ⟨before, text, after, split, throws, handles⟩ := ih (s := clogStep s (append t))
        (by rw [next]; exact ⟨rfl, running.2⟩) (by rw [next]; exact frames)
        (by rw [next]; dsimp only; omega) (by rw [next]; dsimp only; omega)
        (fun other member => equal other (List.mem_cons_of_mem t member))
        (by rw [next]; dsimp only; omega)
      refine ⟨t :: before, text, after, by rw [split]; rfl, throws, handles.trans ?_⟩
      rw [next]

/-- A row of winports for a process. -/
def connectionLine (pid : String) : Text :=
  "TCP    \t".toList ++ List.rightpad 39 ' ' "10.0.0.5:443".toList ++ ['\t'] ++
    List.rightpad 39 ' ' "10.0.7.9:50123".toList ++ ['\t'] ++
    List.rightpad 15 ' ' "ESTABLISHED".toList ++ ['\t'] ++ List.leftpad 7 ' ' pid.toList

def connectionLines : List Text :=
  (List.replicate 2500 [connectionLine "4711", connectionLine "4712"]).flatten

/-- A machine whose PDH query starts, with 5000 TCP connections that belong to two
processes in turn; nothing else answers. -/
def manyConnections : ClientlogOutcome where
  startQuery := ⟨0, 0, 0, 0, true, 0⟩
  date := "2024-05-01 12:00:00".toList
  osversion := ⟨false, "Not supported".toList⟩
  winuptime := "up 1 days".toList
  bios := ⟨false, fun _ => none⟩
  who := ⟨[], 0⟩
  diskinfo := ⟨false, 0, fun _ => ⟨false, false, false⟩, []⟩
  winmemory := ⟨false, [], [], []⟩
  ipconfig := ⟨false, false, false, 0, [], []⟩
  winroute := ⟨false, false, false, 0, [], []⟩
  winports := ⟨.table [] connectionLines, .noSize, .noSize, .noSize⟩
  endQuery := ⟨0, 0, 0, [], [], [], [], []⟩
  runningservices := ⟨false, 0, none, []⟩
  eventlog := ⟨⟨false, []⟩, ⟨false, []⟩, ⟨false, []⟩⟩
  applications := ⟨none, none, []⟩
  certificates := ⟨false, []⟩
  reboots := ⟨false, [], ⟨none⟩, []⟩
  clientversion := []
  localLine := []
  utcLine := []

/-- The calls up to the rows of the connections. -/
def beforeRows : List ClogCall :=
  (processesStartQuery manyConnections.startQuery).1 ++
  List.flatten [
    [append ("client ".toList ++ "host".toList ++ ".windows windows\n".toList)],
    withNewline (clogDate manyConnections.date),
    withNewline (clogOsversion manyConnections.osversion),
    withNewline (clogWinuptime manyConnections.winuptime),
    withScratch (clogBios manyConnections.bios),
    withNewline (clogWho 10 manyConnections.who),
    withNewline (clogDiskinfo manyConnections.diskinfo),
    withNewline (clogWinmemory manyConnections.winmemory),
    withNewline (clogIpconfig manyConnections.ipconfig),
    withNewline (clogWinroute manyConnections.winroute),
    .arena .enter ::
      (clogWinports { manyConnections.winports with tcp4 := .table [] [] }).take 8]

theorem manyConnections_calls :
    ∃ after, clientlogCalls "host".toList manyConnections =
      beforeRows ++ (connectionLines.map ('\n' :: ·)).map append ++ after := by
  have rows : clogWinports manyConnections.winports =
      (clogWinports { manyConnections.winports with tcp4 := .table [] [] }).take 8 ++
        ((connectionLines.map ('\n' :: ·)).map append ++
          .popDeferAll :: appendErrored manyConnections.winports.tables) := by
    simp [clogWinports, manyConnections, WinPorts.tables, appendConnections,
      getConnectionTables, getConnectionTable, appendPortStatistics, appendErrored, errored]
  refine ⟨.popDeferAll :: (appendErrored manyConnections.winports.tables ++
    (.arena .leave :: append ['\n'] :: (processesEndAppendQuery
      (processesStartQuery manyConnections.startQuery).2 manyConnections.endQuery ++
        clientlogLast manyConnections))), ?_⟩
  unfold clientlogCalls clientlogFirst beforeRows
  simp only [withNewline, withScratch, rows, List.flatten_cons, List.flatten_nil,
    List.append_assoc, List.cons_append, List.nil_append, List.append_nil]

/-- In front of the rows: the room left, and what is open. -/
theorem beforeRows_state :
    let s := clogRun (clientlogStart (fun _ => nul) 65536) beforeRows
    s.Running ∧ s.arena.frames = [⟨589776, []⟩, ⟨589776, [⟨589776, 48⟩]⟩] ∧
      s.arena.state.currentStart = 66111 ∧
      s.handles = ⟨[.table 0, .event, .query],
        [⟨some (.table 0), .free⟩, ⟨none, .regCloseKey⟩]⟩ := by
  decide +kernel

/-- The rows of 5000 connections do not fit into the arena. The run throws at one of them,
and the PDH query and its event are still open when clientlog() returns. -/
theorem clientlog_manyConnections_leaks :
    ¬ ∃ returned, clientlog (fun _ => nul) 65536 "host".toList manyConnections = some returned ∧
      returned.handles.openHandles = [] := by
  obtain ⟨after, calls⟩ := manyConnections_calls
  obtain ⟨running, frames, currentStart, handles⟩ := beforeRows_state
  have rows : ∀ t ∈ connectionLines.map ('\n' :: ·), t.length = 112 := by
    intro t member
    obtain ⟨line, isLine, rfl⟩ := List.mem_map.mp member
    obtain ⟨pair, isPair, inPair⟩ := List.mem_flatten.mp isLine
    obtain rfl := (List.mem_replicate.mp isPair).2
    simp only [List.mem_cons, List.not_mem_nil, or_false] at inPair
    rcases inPair with rfl | rfl <;> decide +kernel
  have count : (connectionLines.map ('\n' :: ·)).length = 5000 := by
    simp only [connectionLines, List.length_map, List.length_flatten, List.map_replicate,
      List.sum_replicate_nat, List.length_cons, List.length_nil]
  obtain ⟨before, t, rest, split, throws, same⟩ := appends_throw running frames
    (by rw [currentStart]; decide) (by rw [currentStart]; decide) rows
    (by rw [currentStart, count]; decide)
  rw [← clogRun_append] at throws same
  have whole : clientlogCalls "host".toList manyConnections =
      (beforeRows ++ before.map append) ++ append t :: (rest.map append ++ after) := by
    rw [calls, split]
    simp
  rw [clientlog_of_throws _ _ _ _ whole throws, same, handles, not_not]
  exact ⟨.query, by decide, rfl, by unfold Deferred; decide⟩

end MrBig.Guarantees.HandlesClosed
