import Mathlib.Data.List.Nodup
import MrBig.Guarantees.HandleDiscipline

/-!
# The handles of clientlog, module by module

Most modules leave the handles as they found them. The others: the PDH query and its event
stay open from their start to their end; bios leaves a null handle on the stack where the
registry key is missing, winports and applications pop everything, runningservices and
certificates leave the handle they opened first, and reboots pops everything again.
-/

set_option autoImplicit false

namespace MrBig.Guarantees.ClientlogHandles
open Library Source HandleDiscipline

/-- The objects that may be open between two modules. -/
def standing : List Handle := [.query, .event, .hServiceManager, .hStore]

/-- The handles between two modules. -/
structure Settled (s : HandleState) : Prop where
  guarded : Guarded s
  standing : ∀ h ∈ s.openHandles, h ∈ standing
  depth : s.handleStack.length ≤ 1

theorem Settled.fresh {s : HandleState} (settled : Settled s) {h : Handle}
    (other : h ∉ ClientlogHandles.standing) : h ∉ s.openHandles :=
  fun member => other (settled.standing h member)

theorem Settled.room {s : HandleState} (settled : Settled s) :
    s.handleStack.length < arenaMaxnumHandles := by
  have depth := settled.depth
  unfold arenaMaxnumHandles
  omega

/-- No handle at all. -/
def noHandles : HandleState := ⟨[], []⟩

theorem settled_noHandles : Settled noHandles :=
  ⟨⟨List.nodup_nil, by simp [noHandles]⟩, by simp [noHandles], by simp [noHandles]⟩

section Neutral

variable {s : HandleState}

theorem date_leads (settled : Settled s) (line : Text) : Leads s (clogDate line) s :=
  leads_arena settled.guarded [.append "[date]\n".toList, .append line]

theorem osversion_leads (settled : Settled s) (o : OsVersion) : Leads s (clogOsversion o) s :=
  (leads_openClose o.opened .hKey).append
    (leads_arena settled.guarded [.append "[osversion]".toList, .append ('\n' :: o.line)])

theorem winuptime_leads (settled : Settled s) (line : Text) : Leads s (clogWinuptime line) s :=
  leads_arena settled.guarded [.append "[winuptime]\n".toList, .append line]

theorem clientversion_leads (settled : Settled s) (line : Text) :
    Leads s (clogClientversion line) s :=
  leads_arena settled.guarded [.append "[clientversion]".toList, .append ('\n' :: line)]

theorem clock_leads (settled : Settled s) (localLine utcLine : Text) :
    Leads s (clogClock localLine utcLine) s :=
  leads_arena settled.guarded [.append "[clock]".toList, .append ('\n' :: localLine),
    .append ('\n' :: utcLine)]

theorem who_leads (settled : Settled s) (maxNumSessions : Nat) (o : Who) :
    Leads s (clogWho maxNumSessions o) s := by
  have guarded := settled.guarded
  unfold clogWho
  refine ⟨guarded, ?_⟩
  split
  next => exact ⟨guarded, rfl⟩
  next =>
    refine ⟨guarded, Segment.append (leads_appends guarded _ _) ?_⟩
    split
    next => exact ⟨guarded, rfl⟩
    next => rfl

theorem winmemory_leads (settled : Settled s) (o : WinMemory) :
    Leads s (clogWinmemory o) s := by
  have guarded := settled.guarded
  unfold clogWinmemory
  cases o.openedQuery with
  | false => exact ⟨trivial, guarded, guarded, guarded, guarded, guarded, rfl⟩
  | true =>
    have opened : Leads s [.opens [.pagefileQuery], .closes .pdhCloseQuery (some .pagefileQuery)]
      s := leads_openClose true .pagefileQuery
    exact opened.append ⟨guarded, guarded, guarded, guarded, guarded, rfl⟩

/-! ### diskinfo -/

theorem examineDrive_leads (settled : Settled s) (o : DriveOutcome) :
    Leads s (examineDrive o) s := by
  unfold examineDrive
  refine ⟨settled.guarded, ?_⟩
  split
  next => exact leads_openClose o.opened .hPhys
  next => rfl

theorem indentAppend_leads (guarded : Guarded s) (line : Nat × Text) :
    Leads s (indentAppend line) s := ⟨guarded, guarded, rfl⟩

theorem physicalDisk_leads (settled : Settled s) (o : PhysicalDisk) :
    Leads s (physicalDisk o) s := by
  unfold physicalDisk
  split
  next =>
    have guarded := settled.guarded.push (settled.fresh (h := .hPhys) (by decide))
    have opened : Leads s
        [.opens [.hPhys], .defer (some .hPhys) .closeHandle, allocate layoutBufsize 1 1]
        (push s .hPhys) := ⟨trivial, settled.room, guarded, rfl⟩
    have printed : Leads (push s .hPhys) ((o.lines.getD []).flatMap indentAppend)
        (push s .hPhys) := Segment.flatMap fun line _ => indentAppend_leads guarded line
    apply (opened.append printed).append
    exact ⟨by simp [Ready, push], act_popDefer_pushIf true .hPhys⟩
  next => rfl

theorem diskinfo_leads (settled : Settled s) (o : DiskInfo) : Leads s (clogDiskinfo o) s := by
  unfold clogDiskinfo
  have drives : Leads s ((examinedDrives o.drive 26 0 1 o.drivebits).flatMap
      fun i => examineDrive (o.drive i)) s :=
    Segment.flatMap fun i _ => examineDrive_leads settled (o.drive i)
  have disks : Leads s (o.disks.flatMap physicalDisk) s :=
    Segment.flatMap fun disk _ => physicalDisk_leads settled disk
  exact ((leads_openClose o.opened .hKey).append drives).append ⟨settled.guarded, disks⟩

/-! ### ipconfig and winroute -/

theorem runCmdSynchronously_leads (settled : Settled s) (o : Command) :
    Leads s (runCmdSynchronously o) s := by
  have guarded := settled.guarded
  have freshRead := settled.fresh (h := .hPipeOutputRead) (by decide)
  have freshWrite := settled.fresh (h := .hPipeOutputWrite) (by decide)
  have freshProcess := settled.fresh (h := .hProcess) (by decide)
  have freshThread := settled.fresh (h := .hThread) (by decide)
  have pipe : Guarded ⟨[.hPipeOutputRead, .hPipeOutputWrite] ++ s.openHandles, s.handleStack⟩ :=
    guarded.open (by decide) (by simp [freshRead, freshWrite]) (by simp [undeferred])
  have reading : Guarded ⟨[.hPipeOutputRead] ++ s.openHandles, s.handleStack⟩ :=
    guarded.open (by decide) (by simp [freshRead]) (by simp [undeferred])
  have running : Guarded
      ⟨[.hProcess, .hThread, .hPipeOutputRead] ++ s.openHandles, s.handleStack⟩ :=
    guarded.open (by decide) (by simp [freshRead, freshProcess, freshThread])
      (by simp [undeferred])
  unfold runCmdSynchronously
  split
  next => exact ⟨guarded, trivial, trivial, rfl⟩
  next =>
    refine ⟨trivial, ?_⟩
    split
    next => exact ⟨pipe, trivial, trivial, rfl⟩
    next =>
      split
      next => exact ⟨trivial, reading, trivial, trivial, trivial, rfl⟩
      next =>
        have started : Leads ⟨[.hPipeOutputRead, .hPipeOutputWrite] ++ s.openHandles, s.handleStack⟩
            [.opens [.hProcess, .hThread], .closes .closeHandle (some .hPipeOutputWrite)]
            ⟨[.hProcess, .hThread, .hPipeOutputRead] ++ s.openHandles, s.handleStack⟩ :=
          ⟨trivial, trivial, rfl⟩
        have closed : Leads
            ⟨[.hProcess, .hThread, .hPipeOutputRead] ++ s.openHandles, s.handleStack⟩
            [.closes .closeHandle (some .hProcess), .closes .closeHandle (some .hThread),
              .closes .closeHandle (some .hPipeOutputRead)] s := ⟨trivial, trivial, trivial, rfl⟩
        apply ((started.append _).append closed).append
        · split
          next => exact ⟨guarded, rfl⟩
          next => rfl
        · split
          next => exact ⟨running, rfl⟩
          next => exact leads_appends running o.reads id

theorem ipconfig_leads (settled : Settled s) (o : Command) : Leads s (clogIpconfig o) s :=
  ⟨settled.guarded, leads_withScratch settled.guarded (runCmdSynchronously_leads settled o)
    settled.guarded⟩

theorem winroute_leads (settled : Settled s) (o : Command) : Leads s (clogWinroute o) s :=
  ⟨settled.guarded, leads_withScratch settled.guarded (runCmdSynchronously_leads settled o)
    settled.guarded⟩

/-! ### eventlog -/

theorem getEventData_leads (s : HandleState) (e : EventData) : Leads s (getEventData e) s := by
  obtain ⟨context, rendered, provider, publisher, row⟩ := e
  unfold getEventData
  cases context <;> cases rendered <;> cases provider <;> cases publisher <;>
    simp [Ready, HandleState.act, closeWith, Handle.closeFn]

/-- The handles while the events from index `i` on, `n` of them, are still open. -/
def fetched (s : HandleState) (i n : Nat) : HandleState :=
  ⟨(List.range' i n).map .eventOf ++ s.openHandles, s.handleStack⟩

theorem fetched_guarded (guarded : Guarded s) (fresh : ∀ i, Handle.eventOf i ∉ s.openHandles)
    (i n : Nat) : Guarded (fetched s i n) := by
  apply guarded.open
  · refine List.Nodup.map ?_ List.nodup_range'
    intro first second same
    exact Handle.eventOf.inj same
  · intro h member
    obtain ⟨index, _, rfl⟩ := List.mem_map.mp member
    exact fresh index
  · intro h member
    obtain ⟨index, _, rfl⟩ := List.mem_map.mp member
    rfl

/-- The loop over the events closes each event that was fetched. -/
theorem appendEvents_leads (guarded : Guarded s)
    (fresh : ∀ i, Handle.eventOf i ∉ s.openHandles)
    (room : s.handleStack.length < arenaMaxnumHandles) (i : Nat) (events : List EventData) :
    Leads (fetched s i events.length) (appendEvents i events) s := by
  induction events generalizing i with
  | nil => rfl
  | cons e rest ih =>
    have now := fetched_guarded guarded fresh i (e :: rest).length
    apply ((getEventData_leads _ e).append _).append (ih (i + 1))
    refine ⟨room, now.defer _, List.cons_ne_nil _ _, ?_⟩
    simp [fetched, HandleState.act, closeWith, Handle.closeFn, List.range'_succ]

theorem appendChannel_leads (settled : Settled s) (maxNumEvents : Nat) (name : String)
    (o : Channel) : Leads s (appendChannel maxNumEvents name o) s := by
  have guarded := settled.guarded.pushIf o.opened (settled.fresh (h := .hLog) (by decide))
  have fresh : ∀ i, Handle.eventOf i ∉ (pushIf s o.opened .hLog).openHandles := by
    intro i
    have older := settled.fresh (h := .eventOf i) (by simp [standing])
    cases o.opened <;> simp [pushIf, push, pushNull, older]
  have room : (pushIf s o.opened .hLog).handleStack.length < arenaMaxnumHandles := by
    have depth := settled.depth
    rw [stack_length_pushIf]
    unfold arenaMaxnumHandles
    omega
  unfold appendChannel
  generalize o.events.take maxNumEvents = events
  have opened : Leads s [append ("\n[eventlog_".toList ++ name.toList ++ [']']),
      .opens (if o.opened then [.hLog] else []),
      .defer (if o.opened then some .hLog else none) .evtClose,
      .opens ((List.range events.length).map .eventOf)]
      (fetched (pushIf s o.opened .hLog) 0 events.length) := by
    refine ⟨settled.guarded, ?_⟩
    have deferred := leads_openDefer settled.room o.opened .hLog
    rw [List.range_eq_range']
    exact deferred.append ⟨trivial, rfl⟩
  have closed : Leads (pushIf s o.opened .hLog) [.popDefer] s := by
    refine ⟨?_, act_popDefer_pushIf o.opened .hLog⟩
    intro empty
    have length := stack_length_pushIf (s := s) o.opened .hLog
    rw [empty, List.length_nil] at length
    omega
  apply (opened.append _).append closed
  split
  next =>
    refine ⟨fetched_guarded guarded fresh 0 events.length, ?_⟩
    exact appendEvents_leads guarded fresh room 0 events
  next settled =>
    obtain rfl : events = [] := List.eq_nil_of_length_eq_zero (by omega)
    exact ⟨guarded, rfl⟩

theorem eventlog_leads (settled : Settled s) (maxNumEvents : Nat) (o : EventLog) :
    Leads s (clogEventlog maxNumEvents o) s :=
  ((appendChannel_leads settled maxNumEvents _ o.application).append
    (appendChannel_leads settled maxNumEvents _ o.setup)).append
    (appendChannel_leads settled maxNumEvents _ o.system)

end Neutral

/-! ### bios and winports -/

/-- Nothing on the stack can be closed. -/
def NullStack (s : HandleState) : Prop := ∀ w ∈ s.handleStack, w.handle = none

theorem popAll_of_nullStack {s : HandleState} (null : NullStack s) :
    popAll s = ⟨s.openHandles, []⟩ := by
  obtain ⟨openHandles, handleStack⟩ := s
  induction handleStack with
  | nil => rfl
  | cons w rest ih =>
    have first : w.handle = none := null w List.mem_cons_self
    have rest := ih fun other member => null other (List.mem_cons_of_mem w member)
    simpa [popAll, HandleState.act, closeWith, first] using rest

/-- The handles behind bios. -/
def afterBios (s : HandleState) (o : Bios) : HandleState :=
  if o.opened then s else pushNull s .regCloseKey

theorem afterBios_settled {s : HandleState} (settled : Settled s) (empty : s.handleStack = [])
    (o : Bios) : Settled (afterBios s o) ∧ NullStack (afterBios s o) := by
  unfold afterBios
  split
  next =>
    refine ⟨settled, fun w member => ?_⟩
    rw [empty] at member
    cases member
  next =>
    refine ⟨⟨settled.guarded.pushNull _, settled.standing, ?_⟩, fun w member => ?_⟩
    · simp [pushNull, empty]
    · rw [pushNull, empty, List.mem_singleton] at member
      rw [member]

theorem bios_leads {s : HandleState} (settled : Settled s) (empty : s.handleStack = [])
    (o : Bios) : Leads s (clogBios o) (afterBios s o) := by
  obtain ⟨opened, value⟩ := o
  unfold clogBios afterBios
  have start : Leads s [append "[bios]\n".toList, .opens (if opened then [.hKey] else []),
      .defer (if opened then some .hKey else none) .regCloseKey] (pushIf s opened .hKey) :=
    ⟨settled.guarded, leads_openDefer settled.room opened .hKey⟩
  have guarded := settled.guarded.pushIf opened (settled.fresh (h := .hKey) (by decide))
  apply start.append
  cases opened with
  | false => exact ⟨guarded, rfl⟩
  | true =>
    have keys : Leads (pushIf s true .hKey) (biosKeys.flatMap (appendBios value))
        (pushIf s true .hKey) := Segment.flatMap fun key _ => ⟨guarded, guarded, rfl⟩
    refine keys.append ⟨trivial, ?_⟩
    change popAll (pushIf s true .hKey) = s
    rw [popAll_pushIf, popAll_of_stack_nil empty]

/-- The open objects are all such as the code closes itself. -/
theorem settled_of_nullStack {s : HandleState} (settled : Settled s) (null : NullStack s) :
    Settled ⟨s.openHandles, []⟩ := by
  refine ⟨⟨settled.guarded.nodup, fun h member => ?_⟩, settled.standing, Nat.zero_le 1⟩
  rcases settled.guarded.covered h member with loose | deferred
  · exact Or.inl loose
  · cases null _ deferred

/-- The handles behind winports_GetConnectionTable. -/
def tabled (s : HandleState) (group : Nat) : TableOutcome → HandleState
  | .noSize => s
  | .noMemory => pushNull s .free
  | .failed | .table _ _ => push s (.table group)

section Tabled

variable {s : HandleState}

theorem tabled_guarded (guarded : Guarded s) {group : Nat}
    (fresh : Handle.table group ∉ s.openHandles) (o : TableOutcome) :
    Guarded (tabled s group o) := by
  cases o with
  | noSize => exact guarded
  | noMemory => exact guarded.pushNull .free
  | failed | table => exact guarded.push fresh

theorem tabled_fresh {h : Handle} (fresh : h ∉ s.openHandles) {group : Nat}
    (other : h ≠ .table group) (o : TableOutcome) : h ∉ (tabled s group o).openHandles := by
  cases o <;> simp [tabled, push, pushNull, fresh, other]

theorem tabled_depth (group : Nat) (o : TableOutcome) :
    (tabled s group o).handleStack.length ≤ s.handleStack.length + 1 := by
  cases o <;> simp [tabled, push, pushNull]

theorem popAll_tabled (group : Nat) (o : TableOutcome) :
    popAll (tabled s group o) = popAll s := by
  cases o with
  | noSize => rfl
  | noMemory => exact popAll_pushNull .free
  | failed | table => exact popAll_push _

theorem getConnectionTable_leads (room : s.handleStack.length < arenaMaxnumHandles)
    (group : Nat) (o : TableOutcome) :
    Leads s (getConnectionTable group o) (tabled s group o) := by
  cases o with
  | noSize => rfl
  | noMemory => exact ⟨room, rfl⟩
  | failed | table => exact ⟨trivial, room, rfl⟩

/-- The tables are put one on the other; popping everything takes them all off. -/
theorem getConnectionTables_leads (guarded : Guarded s) (i : Nat) (tables : List TableOutcome)
    (room : s.handleStack.length + tables.length ≤ arenaMaxnumHandles)
    (fresh : ∀ group, i ≤ group → Handle.table group ∉ s.openHandles) :
    ∃ s', Leads s (getConnectionTables i tables) s' ∧ Guarded s' ∧ popAll s' = popAll s := by
  induction tables generalizing s i with
  | nil => exact ⟨s, rfl, guarded, rfl⟩
  | cons t rest ih =>
    rw [List.length_cons] at room
    have depth := tabled_depth (s := s) i t
    obtain ⟨s', leads, guarded', popped⟩ := ih (tabled_guarded guarded (fresh i (Nat.le_refl i)) t)
      (i + 1) (by omega) (by
        intro group above
        apply tabled_fresh (fresh group (by omega))
        intro same
        have index := Handle.table.inj same
        omega)
    refine ⟨s', ?_, guarded', popped.trans (popAll_tabled i t)⟩
    exact (getConnectionTable_leads (by omega) i t).append leads

theorem appendErrored_leads (guarded : Guarded s) (tables : List TableOutcome) :
    Leads s (appendErrored tables) s := by
  unfold appendErrored
  split
  next => exact ⟨guarded, rfl⟩
  next =>
    split
    next => exact ⟨guarded, rfl⟩
    next => rfl

theorem appendPortStatistics_leads (guarded : Guarded s) (o : TableOutcome) :
    Leads s (appendPortStatistics o) s := by
  cases o with
  | noSize | noMemory | failed => rfl
  | table => exact ⟨guarded, rfl⟩

theorem appendConnections_leads (guarded : Guarded s) (o : TableOutcome) :
    Leads s (appendConnections o) s := by
  cases o with
  | noSize | noMemory | failed => rfl
  | table statistics lines => exact leads_appends guarded lines _

end Tabled

/-- winports pops what it pushed and what an earlier module left. -/
theorem winports_leads {s : HandleState} (settled : Settled s) (null : NullStack s)
    (o : WinPorts) : Leads s (clogWinports o) ⟨s.openHandles, []⟩ := by
  have depth := settled.depth
  obtain ⟨s', tables, guarded, popped⟩ := getConnectionTables_leads settled.guarded 0 o.tables
    (by simp [WinPorts.tables, arenaMaxnumHandles]; omega)
    (fun group _ => settled.fresh (by simp [standing]))
  rw [popAll_of_nullStack null] at popped
  have statistics : Leads s' (o.tables.flatMap appendPortStatistics) s' :=
    Segment.flatMap fun table _ => appendPortStatistics_leads guarded table
  have connections : Leads s' (o.tables.flatMap appendConnections) s' :=
    Segment.flatMap fun table _ => appendConnections_leads guarded table
  have errored := appendErrored_leads guarded o.tables
  have headings : ∀ first second, Leads s' [append first, append second] s' :=
    fun _ _ => ⟨guarded, guarded, rfl⟩
  unfold clogWinports
  refine @Segment.append _ _ _ _ _ s' _ _ _ ?_ ?_
  · exact ((((tables.append (headings _ _)).append statistics).append errored).append
      (headings _ _)).append connections
  · refine ⟨trivial, ?_⟩
    change Leads (popAll s') _ _
    rw [popped]
    exact appendErrored_leads (settled_of_nullStack settled null).guarded o.tables

/-! ### The processes -/

/-- What stands in `*state` behind StartQuery: a query and its event, or neither. -/
inductive Started : ProcessesState → Prop
  | both : Started ⟨some .query, some .event, errorSuccess⟩
  | neither (errorCode : Nat) : Started ⟨none, none, errorCode⟩

/-- The handles behind StartQuery. -/
def startedHandles (state : ProcessesState) : HandleState :=
  ⟨state.event.toList ++ state.query.toList, []⟩

theorem started_settled {state : ProcessesState} (started : Started state) :
    Settled (startedHandles state) := by
  cases started with
  | both =>
    refine ⟨⟨by decide, fun h member => Or.inl ?_⟩, by decide, by decide⟩
    rcases List.mem_cons.mp member with rfl | rest
    · rfl
    · rw [List.mem_singleton.mp rest]
      rfl
  | neither errorCode => exact settled_noHandles

theorem processesStartQuery_leads (o : StartQuery) :
    Leads noHandles (processesStartQuery o).1 (startedHandles (processesStartQuery o).2) ∧
      Started (processesStartQuery o).2 := by
  have allocated : Guarded noHandles := settled_noHandles.guarded
  unfold processesStartQuery
  dsimp only
  split
  next => exact ⟨⟨allocated, rfl⟩, .neither _⟩
  next =>
    split
    next => exact ⟨⟨allocated, trivial, trivial, rfl⟩, .neither _⟩
    next =>
      split
      next => exact ⟨⟨allocated, trivial, trivial, rfl⟩, .neither _⟩
      next =>
        split
        next => exact ⟨⟨allocated, trivial, trivial, rfl⟩, .neither _⟩
        next =>
          split
          next => exact ⟨⟨allocated, trivial, trivial, rfl⟩, .neither _⟩
          next =>
            split
            next => exact ⟨⟨allocated, trivial, trivial, trivial, trivial, rfl⟩, .neither _⟩
            next => exact ⟨⟨allocated, trivial, trivial, rfl⟩, .both⟩

section Processes

variable {s : HandleState}

/-- The process and its token go on the stack, in this order. -/
theorem getProcessUser_leads (settled : Settled s) (p : ProcessItem) :
    ∃ s', Leads s (getProcessUser p) s' ∧ popAll s' = popAll s := by
  obtain ⟨name, opened, openedToken, hasUser, userSize⟩ := p
  have guarded := settled.guarded.pushIf opened (settled.fresh (h := .process) (by decide))
  have process := leads_openDefer settled.room opened .process
  cases openedToken with
  | false => exact ⟨_, process.append rfl, popAll_pushIf opened .process⟩
  | true =>
    have fresh : Handle.processToken ∉ (pushIf s opened .process).openHandles := by
      have older := settled.fresh (h := .processToken) (by decide)
      cases opened <;> simp [pushIf, push, pushNull, older]
    have room : (pushIf s opened .process).handleStack.length < arenaMaxnumHandles := by
      have depth := settled.depth
      rw [stack_length_pushIf]
      unfold arenaMaxnumHandles
      omega
    have token : Leads (pushIf s opened .process)
        [.opens [.processToken], .defer (some .processToken) .closeHandle]
        (push (pushIf s opened .process) .processToken) := ⟨trivial, room, rfl⟩
    refine ⟨push (pushIf s opened .process) .processToken,
      process.append (token.append ?_), by simp⟩
    cases hasUser with
    | false => rfl
    | true => exact ⟨guarded.push fresh, rfl⟩

theorem addRow_leads (settled : Settled s) (empty : s.handleStack = []) (p : ProcessItem) :
    Leads s (addRow p) s := by
  obtain ⟨s', user, popped⟩ := getProcessUser_leads settled p
  refine ⟨settled.guarded, user.append ⟨trivial, ?_⟩⟩
  change popAll s' = s
  rw [popped, popAll_of_stack_nil empty]

theorem appendProcesses_leads (guarded : Guarded s) (heading : String) (t : ProcessesTable)
    (errorLine : Text) (rows : List Text) :
    Leads s (appendProcesses heading t errorLine rows) s := by
  unfold appendProcesses
  refine ⟨guarded, ?_⟩
  split
  next => exact ⟨guarded, guarded, leads_appends guarded (rows.take t.numRows) id⟩
  next => exact ⟨guarded, rfl⟩

end Processes

/-- While the process names are looked up, the query is still open. -/
theorem awaitSummarizeQuery_leads {state : ProcessesState} (started : Started state)
    (o : EndQuery) :
    Leads (startedHandles state) (awaitSummarizeQuery state o).1 noHandles := by
  have waiting : Settled ⟨state.query.toList, []⟩ := by
    cases started with
    | both =>
      refine ⟨⟨by decide, fun h member => Or.inl ?_⟩, by decide, by decide⟩
      rw [List.mem_singleton.mp member]
      rfl
    | neither errorCode => exact settled_noHandles
  have closeEvent : (startedHandles state).act (.closes .closeHandle state.event) =
      ⟨state.query.toList, []⟩ := by cases started <;> rfl
  have closeQuery : HandleState.act ⟨state.query.toList, []⟩ (.closes .pdhCloseQuery state.query) =
      noHandles := by cases started <;> rfl
  have both : Leads (startedHandles state)
      [.closes .closeHandle state.event, .closes .pdhCloseQuery state.query] noHandles := by
    refine ⟨trivial, trivial, ?_⟩
    rw [closeEvent, closeQuery]
    rfl
  unfold awaitSummarizeQuery
  dsimp only
  split
  next => exact both
  next =>
    split
    next => exact both
    next =>
      split
      next => exact both
      next =>
        have rows : Leads ⟨state.query.toList, []⟩ (o.items.flatMap addRow)
            ⟨state.query.toList, []⟩ := Segment.flatMap fun p _ => addRow_leads waiting rfl p
        refine ⟨trivial, ?_⟩
        rw [closeEvent]
        exact ⟨waiting.guarded, rows.append ⟨trivial, closeQuery⟩⟩

theorem processesEndAppendQuery_leads {state : ProcessesState} (started : Started state)
    (o : EndQuery) :
    Leads (startedHandles state) (processesEndAppendQuery state o) noHandles := by
  have guarded := settled_noHandles.guarded
  unfold processesEndAppendQuery
  generalize table : (if state.errorCode = errorSuccess then awaitSummarizeQuery state o
    else ([], ⟨0, state.errorCode⟩)) = answer
  obtain ⟨calls, t⟩ := answer
  have awaited : Leads (startedHandles state) calls noHandles := by
    split at table
    next =>
      have leads := awaitSummarizeQuery_leads started o
      rw [table] at leads
      exact leads
    next failed =>
      obtain ⟨rfl, -⟩ := Prod.mk.inj table
      cases started with
      | both => exact absurd rfl failed
      | neither errorCode => rfl
  exact ((awaited.append (appendProcesses_leads guarded _ t _ _)).append
    (appendProcesses_leads guarded _ t _ _)).append (appendProcesses_leads guarded _ t _ _)

/-! ### The modules behind the query -/

theorem pushIf_settled {h : Handle} (opened : Bool) (isStanding : h ∈ standing) :
    Settled (pushIf noHandles opened h) := by
  refine ⟨settled_noHandles.guarded.pushIf opened (by simp [noHandles]), ?_, ?_⟩
  · cases opened <;> simp [pushIf, push, pushNull, noHandles, isStanding]
  · rw [stack_length_pushIf]
    decide

/-- What one module leaves on the stack until the next pops everything. -/
def Leftover (s : HandleState) : Prop := Settled s ∧ popAll s = noHandles

theorem leftover_pushIf {h : Handle} (opened : Bool) (isStanding : h ∈ standing) :
    Leftover (pushIf noHandles opened h) :=
  ⟨pushIf_settled opened isStanding, popAll_pushIf opened h⟩

theorem appendService_leads {s : HandleState} (settled : Settled s) (service : Service) :
    Leads s (appendService service) s := by
  have guarded := settled.guarded.pushIf service.opened
    (settled.fresh (h := .hService) (by decide))
  have opened := leads_openDefer settled.room service.opened .hService
  unfold appendService
  apply (opened.append _).append
  · refine ⟨?_, act_popDefer_pushIf service.opened .hService⟩
    intro empty
    have length := stack_length_pushIf (s := s) service.opened .hService
    rw [empty, List.length_nil] at length
    omega
  · cases service.printed with
    | false => rfl
    | true => exact ⟨guarded, rfl⟩

theorem runningservices_leads (o : RunningServices) :
    Leads noHandles (clogRunningservices o) (pushIf noHandles o.opened .hServiceManager) := by
  have settled := pushIf_settled (h := .hServiceManager) o.opened (by decide)
  have guarded := settled.guarded
  have opened := leads_openDefer settled_noHandles.room o.opened .hServiceManager
  have listed : ∀ a b c : ArenaCall, Leads (pushIf noHandles o.opened .hServiceManager)
      [.arena a, .arena b, .arena c] (pushIf noHandles o.opened .hServiceManager) :=
    fun _ _ _ => ⟨guarded, guarded, guarded, rfl⟩
  unfold clogRunningservices
  apply (opened.append (listed _ _ _)).append
  cases o.services with
  | none => exact ⟨guarded, rfl⟩
  | some services =>
    have each : ∀ list : List Service, Leads (pushIf noHandles o.opened .hServiceManager)
        (list.flatMap appendService) (pushIf noHandles o.opened .hServiceManager) :=
      fun list => Segment.flatMap fun service _ => appendService_leads settled service
    exact (each _).append (each _)

theorem insertApplications_leads {s : HandleState} (settled : Settled s) (keys : UninstallKeys) :
    ∃ s', Leads s (insertApplications keys) s' ∧ popAll s' = popAll s := by
  cases keys with
  | none => exact ⟨s, rfl, rfl⟩
  | some entries =>
    have guarded := settled.guarded.push (settled.fresh (h := .hKey) (by decide))
    have opened : Leads s [.opens [.hKey], .defer (some .hKey) .regCloseKey] (push s .hKey) :=
      ⟨trivial, settled.room, rfl⟩
    refine ⟨push s .hKey, opened.append ?_, popAll_push .hKey⟩
    apply Segment.of_still
    intro call member
    obtain ⟨_, _, rfl⟩ := List.mem_map.mp member
    exact ⟨guarded, rfl⟩

theorem applications_leads {s : HandleState} (leftover : Leftover s) (o : Applications) :
    Leads s (clogApplications o) noHandles := by
  have guarded := settled_noHandles.guarded
  obtain ⟨settled, popped⟩ := leftover
  obtain ⟨s1, first, popped1⟩ := insertApplications_leads settled o.x86_32
  obtain ⟨s2, second, popped2⟩ := insertApplications_leads settled_noHandles o.x86_64
  have closed1 : s1.act .popDeferAll = noHandles := popped1.trans popped
  have closed2 : s2.act .popDeferAll = noHandles := popped2
  have both : Leads s (insertApplications o.x86_32 ++ .popDeferAll :: insertApplications o.x86_64)
      s2 := by
    refine first.append ⟨trivial, ?_⟩
    rw [closed1]
    exact second
  have heading : Leads s2 [.popDeferAll, append "[applications]".toList] noHandles := by
    refine ⟨trivial, ?_⟩
    rw [closed2]
    exact ⟨guarded, rfl⟩
  unfold clogApplications
  refine Segment.append (both.append heading) ?_
  split
  next => exact leads_appends guarded o.rows _
  next => exact ⟨guarded, rfl⟩

theorem getEKUPurposes_leads {s : HandleState} (guarded : Guarded s) (eku : EKU) :
    Leads s (getEKUPurposes eku) s := by
  cases eku with
  | absent => rfl
  | undecodable => exact ⟨guarded, guarded, rfl⟩
  | purposes lengths =>
    refine ⟨guarded, Segment.of_still ?_⟩
    intro call member
    obtain ⟨_, _, rfl⟩ := List.mem_map.mp member
    exact ⟨guarded, rfl⟩

/-- The enumeration closes the context of the certificate before. -/
theorem enumCertificate_leads {s : HandleState} (settled : Settled s) (c : CertificateData) :
    Leads s (enumCertificate c) s := by
  have guarded := settled.guarded.push (settled.fresh (h := .ctx) (by decide))
  have sized : Leads ⟨.ctx :: s.openHandles, s.handleStack⟩
      [.defer (some .ctx) .certFreeCertificateContext, allocate 1 1 c.friendlySize,
        allocate 1 1 c.subjectSize, allocate 1 1 c.issuerSize] (push s .ctx) :=
    ⟨settled.room, guarded, guarded, guarded, rfl⟩
  have algorithm : Leads (push s .ctx)
      (if c.algoLen = 0 then [] else [allocate 1 1 (c.algoLen + 1)]) (push s .ctx) := by
    split
    next => rfl
    next => exact ⟨guarded, rfl⟩
  have printed : Leads (push s .ctx) [append (c.row ++ ['\n']), .ignorePopDefer]
      ⟨.ctx :: s.openHandles, s.handleStack⟩ := ⟨guarded, trivial, rfl⟩
  have freed : Leads ⟨.ctx :: s.openHandles, s.handleStack⟩
      [.closes .certFreeCertificateContext (some .ctx)] s := by
    simp [Ready, HandleState.act, closeWith, Handle.closeFn]
  exact ⟨trivial, (((sized.append (getEKUPurposes_leads guarded c.eku)).append algorithm).append
    printed).append freed⟩

theorem certificates_leads (o : Certificates) :
    Leads noHandles (clogCertificates o) (pushIf noHandles o.opened .hStore) := by
  have settled := pushIf_settled (h := .hStore) o.opened (by decide)
  have opened := leads_openDefer settled_noHandles.room o.opened .hStore
  have each : Leads (pushIf noHandles o.opened .hStore) (o.certificates.flatMap enumCertificate)
      (pushIf noHandles o.opened .hStore) :=
    Segment.flatMap fun c _ => enumCertificate_leads settled c
  have start : Leads noHandles [append "[certificates]".toList,
      .opens (if o.opened then [.hStore] else []),
      .defer (if o.opened then some .hStore else none) .certCloseStore]
      (pushIf noHandles o.opened .hStore) := ⟨settled_noHandles.guarded, opened⟩
  unfold clogCertificates
  apply (start.append each).append
  split
  next => exact ⟨settled.guarded, rfl⟩
  next => rfl

theorem loadEvents_leads {s : HandleState} (guarded : Guarded s) (o : LoadOutcome) :
    Leads s (loadEvents o) s := by
  unfold loadEvents
  refine ⟨guarded, ?_⟩
  cases o.gap with
  | none => rfl
  | some gap => exact ⟨guarded, rfl⟩

theorem recentReboots_leads {s : HandleState} (settled : Settled s) (o : Reboots) :
    ∃ s', Leads s (recentReboots o) s' ∧ Guarded s' ∧ popAll s' = popAll s := by
  obtain ⟨opened, batches, lastBatch, rows⟩ := o
  have loads : ∀ s', Guarded s' → Leads s' (batches.flatMap (fun b =>
      loadEvents b ++ [.arena .leave, .arena .enter])) s' := by
    intro s' guarded
    apply Segment.flatMap
    intro b _
    exact (loadEvents_leads guarded b).append ⟨guarded, guarded, rfl⟩
  have rest : ∀ s', Guarded s' → Leads s' (.arena .enter ::
      batches.flatMap (fun b => loadEvents b ++ [.arena .leave, .arena .enter]) ++
      loadEvents lastBatch ++ [.arena .leave]) s' := by
    intro s' guarded
    have entered : Leads s' (.arena .enter :: batches.flatMap (fun b =>
        loadEvents b ++ [.arena .leave, .arena .enter])) s' := ⟨guarded, loads s' guarded⟩
    exact (entered.append (loadEvents_leads guarded lastBatch)).append ⟨guarded, rfl⟩
  cases opened with
  | false => exact ⟨s, rest s settled.guarded, settled.guarded, rfl⟩
  | true =>
    have guarded := settled.guarded.push (settled.fresh (h := .systemLog) (by decide))
    have log : Leads s [.opens [.systemLog], .defer (some .systemLog) .closeEventLog]
        (push s .systemLog) := ⟨trivial, settled.room, rfl⟩
    refine ⟨push s .systemLog, ?_, guarded, popAll_push .systemLog⟩
    unfold recentReboots
    simpa using log.append (rest _ guarded)

theorem reboots_leads {s : HandleState} (leftover : Leftover s) (maxNumReboots : Nat)
    (o : Reboots) : Leads s (clogReboots maxNumReboots o) noHandles := by
  have guarded := settled_noHandles.guarded
  obtain ⟨settled, popped⟩ := leftover
  obtain ⟨s', found, guarded', popped'⟩ := recentReboots_leads settled o
  have heading : Leads s' [.popDeferAll, append "[reboots]".toList] noHandles := by
    refine ⟨trivial, ?_⟩
    rw [show s'.act .popDeferAll = noHandles from popped'.trans popped]
    exact ⟨guarded, rfl⟩
  unfold clogReboots
  apply ((leads_withScratch settled.guarded found guarded').append heading).append
  split
  next => exact ⟨guarded, rfl⟩
  next => exact ⟨guarded, leads_appends guarded _ _⟩

/-! ### The whole run -/

section Whole

variable {s : HandleState}

theorem newline_leads (settled : Settled s) : Leads s [append ['\n']] s :=
  ⟨settled.guarded, rfl⟩

theorem leads_withNewline {s' : HandleState} (settled : Settled s) {calls : List ClogCall}
    (body : Leads s calls s') (settled' : Settled s') : Leads s (withNewline calls) s' :=
  (leads_withScratch settled.guarded body settled'.guarded).append (newline_leads settled')

/-- A module that leaves the handles alone. -/
theorem leads_neutral (settled : Settled s) {calls : List ClogCall} (body : Leads s calls s) :
    Leads s (withNewline calls) s := leads_withNewline settled body settled

theorem clientlogFirst_leads (settled : Settled s) (empty : s.handleStack = [])
    (mrmachine : Text) (o : ClientlogOutcome) :
    Leads s (clientlogFirst mrmachine o) ⟨s.openHandles, []⟩ := by
  obtain ⟨settled', null⟩ := afterBios_settled settled empty o.bios
  have same : (afterBios s o.bios).openHandles = s.openHandles := by
    unfold afterBios
    split <;> rfl
  have last := settled_of_nullStack settled' null
  have ports := winports_leads settled' null o.winports
  rw [same] at last ports
  have heading : Leads s [append ("client ".toList ++ mrmachine ++ ".windows windows\n".toList)]
    s := ⟨settled.guarded, rfl⟩
  unfold clientlogFirst
  apply heading.flatten_cons
  apply (leads_neutral settled (date_leads settled _)).flatten_cons
  apply (leads_neutral settled (osversion_leads settled _)).flatten_cons
  apply (leads_neutral settled (winuptime_leads settled _)).flatten_cons
  apply (leads_withScratch settled.guarded (bios_leads settled empty _)
    settled'.guarded).flatten_cons
  apply (leads_neutral settled' (who_leads settled' 10 _)).flatten_cons
  apply (leads_neutral settled' (diskinfo_leads settled' _)).flatten_cons
  apply (leads_neutral settled' (winmemory_leads settled' _)).flatten_cons
  apply (leads_neutral settled' (ipconfig_leads settled' _)).flatten_cons
  apply (leads_neutral settled' (winroute_leads settled' _)).flatten_cons
  exact (leads_withNewline settled' ports last).flatten_cons rfl

theorem clientlogLast_leads (o : ClientlogOutcome) :
    Leads noHandles (clientlogLast o) noHandles := by
  have settled := settled_noHandles
  have services := leftover_pushIf (h := .hServiceManager) o.runningservices.opened (by decide)
  have store := leftover_pushIf (h := .hStore) o.certificates.opened (by decide)
  unfold clientlogLast
  apply (leads_withScratch settled.guarded (runningservices_leads _)
    services.1.guarded).flatten_cons
  apply (leads_neutral services.1 (eventlog_leads services.1 5 _)).flatten_cons
  apply (leads_withNewline services.1 (applications_leads services _) settled).flatten_cons
  apply (leads_withScratch settled.guarded (certificates_leads _) store.1.guarded).flatten_cons
  apply (leads_withNewline store.1 (reboots_leads store 5 _) settled).flatten_cons
  apply (leads_neutral settled (clientversion_leads settled _)).flatten_cons
  exact (leads_withScratch settled.guarded (clock_leads settled _ _)
    settled.guarded).flatten_cons rfl

/-- A run that nothing cuts short closes everything and leaves the stack empty. -/
theorem clientlogCalls_leads (mrmachine : Text) (o : ClientlogOutcome) :
    Leads noHandles (clientlogCalls mrmachine o) noHandles := by
  obtain ⟨start, started⟩ := processesStartQuery_leads o.startQuery
  have settled := started_settled started
  unfold clientlogCalls
  exact ((start.append (clientlogFirst_leads settled rfl mrmachine o)).append
    (processesEndAppendQuery_leads started o.endQuery)).append (clientlogLast_leads o)

end Whole

end MrBig.Guarantees.ClientlogHandles
