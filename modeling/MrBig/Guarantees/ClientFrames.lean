import MrBig.Guarantees.HandleStack

/-!
# The frames of clientlog

A function of clientlog that gets the arena by value works on a frame of its own. A run that
nothing cuts short gives back every frame that it takes.
-/

set_option autoImplicit false

namespace MrBig.Guarantees.ClientFrames
open Source HandleStack

/-! ### The frames of the arena -/

/-- Where the calls run to their end, as many frames are left as there were, if there were at
least so many. -/
def Level (least : Nat) (calls : List ClogCall) : Prop :=
  ∀ s : ClogState, least ≤ s.arena.frames.length → (clogRun s calls).Running →
    (clogRun s calls).arena.frames.length = s.arena.frames.length

/-- Calls of functions that pass the arena on by reference only. -/
def Flat (calls : List ClogCall) : Prop :=
  ∀ call ∈ calls, call ≠ .arena .enter ∧ call ≠ .arena .leave

theorem running_of_append {s : ClogState} {first second : List ClogCall}
    (running : (clogRun s (first ++ second)).Running) : (clogRun s first).Running := by
  by_contra halted
  rw [clogRun_append, clogRun_of_not_running halted] at running
  exact halted running

namespace Level

variable {least : Nat} {first second : List ClogCall}

theorem nil : Level least [] := fun _ _ _ => rfl

theorem append (level : Level least first) (level' : Level least second) :
    Level least (first ++ second) := by
  intro s deep running
  have same := level s deep (running_of_append running)
  rw [clogRun_append] at running ⊢
  exact (level' (clogRun s first) (by omega) running).trans same

theorem flatMap {α : Type*} {f : α → List ClogCall} {as : List α}
    (level : ∀ a ∈ as, Level least (f a)) : Level least (as.flatMap f) := by
  induction as with
  | nil => exact .nil
  | cons a as ih =>
    rw [List.flatMap_cons]
    exact (level a List.mem_cons_self).append
      (ih fun b inside => level b (List.mem_cons_of_mem a inside))

theorem flatten {parts : List (List ClogCall)} (level : ∀ part ∈ parts, Level least part) :
    Level least parts.flatten := by
  rw [← List.flatMap_id]
  exact .flatMap level

theorem mono {least' : Nat} (level : Level least first) (more : least ≤ least') :
    Level least' first := fun s deep running => level s (Nat.le_trans more deep) running

end Level

theorem arenaStep_frames {bits : Nat} {run : ArenaRun} {call : ArenaCall} (enter : call ≠ .enter)
    (leave : call ≠ .leave) :
    (arenaStep bits run call).1.frames.length = run.frames.length := by
  cases thrown : run.thrown with
  | some code =>
    unfold arenaStep
    rw [thrown]
  | none =>
    cases frames : run.frames with
    | nil =>
      unfold arenaStep
      rw [thrown, frames]
      exact congrArg List.length frames
    | cons f callers =>
      cases call with
      | enter => exact absurd rfl enter
      | leave => exact absurd rfl leave
      | append printed =>
        rw [arenaStep_append bits thrown frames]
        exact congrArg List.length frames
      | allocate size align count =>
        unfold arenaStep
        rw [thrown, frames]
        dsimp only
        split <;> rfl

theorem frames_of_flat {s : ClogState} {call : ClogCall}
    (flat : call ≠ .arena .enter ∧ call ≠ .arena .leave) :
    (clogStep s call).arena.frames.length = s.arena.frames.length := by
  unfold clogStep
  split
  · cases call with
    | arena call =>
      exact arenaStep_frames (fun same => flat.1 (congrArg _ same))
        fun same => flat.2 (congrArg _ same)
    | defer handle fn =>
      dsimp only
      split <;> rfl
    | popDefer =>
      dsimp only
      split <;> rfl
    | opens | closes | ignorePopDefer | popDeferAll => rfl
  · rfl

theorem Flat.level {least : Nat} {calls : List ClogCall} (flat : Flat calls) :
    Level least calls := by
  induction calls with
  | nil => exact .nil
  | cons call rest ih =>
    intro s deep running
    have here := frames_of_flat (s := s) (flat call List.mem_cons_self)
    have behind := ih (fun c inside => flat c (List.mem_cons_of_mem call inside)) (clogStep s call)
      (by omega) running
    exact behind.trans here

section Scratch

variable {s : ClogState}

theorem frames_of_enter (running : s.Running) (deep : 1 ≤ s.arena.frames.length) :
    (clogStep s (.arena .enter)).arena.frames.length = s.arena.frames.length + 1 := by
  obtain ⟨f, callers, frames⟩ := List.exists_cons_of_length_pos deep
  rw [clogStep, if_pos running]
  dsimp only
  unfold arenaStep
  rw [running.1, frames]
  rfl

theorem frames_of_leave (running : s.Running) (deep : 1 ≤ s.arena.frames.length) :
    (clogStep s (.arena .leave)).arena.frames.length = s.arena.frames.length - 1 := by
  obtain ⟨f, callers, frames⟩ := List.exists_cons_of_length_pos deep
  rw [clogStep, if_pos running]
  dsimp only
  unfold arenaStep
  rw [running.1, frames]
  rfl

end Scratch

/-- A function that gets the arena by value. -/
theorem level_withScratch {body : List ClogCall} (level : Level 2 body) :
    Level 1 (withScratch body) := by
  intro s deep running
  have calls : withScratch body = [] ++ ([.arena .enter] ++ (body ++ [.arena .leave])) := by
    simp [withScratch]
  rw [calls] at running ⊢
  have here : s.Running := running_of_append running
  have entered := frames_of_enter here deep
  have single : ∀ (t : ClogState) (call : ClogCall), clogRun t [call] = clogStep t call :=
    fun _ _ => rfl
  rw [List.nil_append, clogRun_append, single, clogRun_append, single] at running
  rw [List.nil_append, clogRun_append, single, clogRun_append, single]
  have inner : (clogRun (clogStep s (.arena .enter)) body).Running := by
    by_contra halted
    rw [clogStep_of_not_running halted] at running
    exact halted running
  have same := level _ (by omega) inner
  have left := frames_of_leave inner (by omega)
  omega

/-! ### The modules -/

section Flat

variable {rest first second : List ClogCall} {α : Type*} {as : List α}

@[simp] theorem flat_nil : Flat [] := List.forall_mem_nil _

@[simp] theorem flat_text (printed : Text) :
    Flat (ClogCall.arena (.append printed) :: rest) ↔ Flat rest := by simp [Flat]

@[simp] theorem flat_allocate (size align count : Nat) :
    Flat (ClogCall.arena (.allocate size align count) :: rest) ↔ Flat rest := by simp [Flat]

@[simp] theorem flat_opens (handles : List Handle) : Flat (.opens handles :: rest) ↔ Flat rest := by
  simp [Flat]

@[simp] theorem flat_closes (fn : CloseFn) (handle : Option Handle) :
    Flat (.closes fn handle :: rest) ↔ Flat rest := by simp [Flat]

@[simp] theorem flat_defer (handle : Option Handle) (fn : CloseFn) :
    Flat (.defer handle fn :: rest) ↔ Flat rest := by simp [Flat]

@[simp] theorem flat_ignorePopDefer : Flat (.ignorePopDefer :: rest) ↔ Flat rest := by simp [Flat]

@[simp] theorem flat_popDefer : Flat (.popDefer :: rest) ↔ Flat rest := by simp [Flat]

@[simp] theorem flat_popDeferAll : Flat (.popDeferAll :: rest) ↔ Flat rest := by simp [Flat]

@[simp] theorem flat_append : Flat (first ++ second) ↔ Flat first ∧ Flat second :=
  List.forall_mem_append

@[simp] theorem flat_flatMap {f : α → List ClogCall} :
    Flat (as.flatMap f) ↔ ∀ a ∈ as, Flat (f a) := List.forall_mem_flatMap

@[simp] theorem flat_texts (f : α → Text) :
    Flat (as.map fun a => ClogCall.arena (.append (f a))) := by simp [Flat]

@[simp] theorem flat_blocks (f : α → Nat × Nat × Nat) :
    Flat (as.map fun a => ClogCall.arena (.allocate (f a).1 (f a).2.1 (f a).2.2)) := by
  simp [Flat]

@[simp] theorem flat_ite {c : Prop} [Decidable c] :
    Flat (if c then first else second) ↔ (c → Flat first) ∧ (¬ c → Flat second) := by
  split <;> simp [*]

end Flat

theorem osversion_flat (o : OsVersion) : Flat (clogOsversion o) := by
  simp only [clogOsversion, flat_opens, flat_closes, flat_text, flat_nil]

theorem bios_flat (o : Bios) : Flat (clogBios o) := by
  simp only [clogBios, appendBios, flat_append, flat_text, flat_opens, flat_defer, flat_ite,
    flat_flatMap, flat_popDeferAll, flat_nil, implies_true, and_self]

theorem who_flat (n : Nat) (o : Who) : Flat (clogWho n o) := by
  simp only [clogWho, flat_text, flat_append, flat_ite, flat_texts, flat_nil, implies_true,
    and_self]

theorem diskinfo_flat (o : DiskInfo) : Flat (clogDiskinfo o) := by
  simp only [clogDiskinfo, examineDrive, physicalDisk, indentAppend, flat_append, flat_flatMap,
    flat_allocate, flat_opens, flat_closes, flat_defer, flat_text, flat_popDefer, flat_ite,
    flat_nil, implies_true, and_self]

theorem winmemory_flat (o : WinMemory) : Flat (clogWinmemory o) := by
  simp only [clogWinmemory, flat_append, flat_opens, flat_closes, flat_text, flat_ite, flat_nil,
    implies_true, and_self]

theorem runCmd_flat (o : Command) : Flat (runCmdSynchronously o) := by
  simp only [runCmdSynchronously, flat_append, flat_opens, flat_closes, flat_text, flat_texts,
    flat_ite, flat_nil, implies_true, and_self]

theorem getConnectionTables_flat (i : Nat) (tables : List TableOutcome) :
    Flat (getConnectionTables i tables) := by
  induction tables generalizing i with
  | nil => exact flat_nil
  | cons t rest ih =>
    rw [getConnectionTables, flat_append]
    refine ⟨?_, ih (i + 1)⟩
    cases t <;> simp only [getConnectionTable, flat_opens, flat_defer, flat_nil]

theorem winports_flat (o : WinPorts) : Flat (clogWinports o) := by
  have statistics : ∀ t, Flat (appendPortStatistics t) := by
    intro t
    cases t <;> simp only [appendPortStatistics, flat_text, flat_nil]
  have connections : ∀ t, Flat (appendConnections t) := by
    intro t
    cases t <;> simp only [appendConnections, flat_texts, flat_nil]
  simp only [clogWinports, appendErrored, getConnectionTables_flat, statistics, connections,
    flat_append, flat_flatMap, flat_text, flat_popDeferAll, flat_ite, flat_nil, implies_true,
    and_self]

theorem startQuery_flat (o : StartQuery) : Flat (processesStartQuery o).1 := by
  unfold processesStartQuery
  split_ifs <;> simp only [flat_allocate, flat_opens, flat_closes, flat_nil]

theorem endQuery_flat (state : ProcessesState) (o : EndQuery) :
    Flat (processesEndAppendQuery state o) := by
  have row : ∀ p, Flat (addRow p) := by
    intro p
    simp only [addRow, getProcessUser, flat_append, flat_allocate, flat_opens, flat_defer, flat_ite,
      flat_popDeferAll, flat_nil, implies_true, and_self]
  have await : Flat (awaitSummarizeQuery state o).1 := by
    unfold awaitSummarizeQuery
    split_ifs <;> simp only [row, flat_append, flat_flatMap, flat_closes, flat_allocate, flat_nil,
      implies_true, and_self]
  have table : ∀ heading t rows, Flat (appendProcesses heading t o.errorLine rows) := by
    intro heading t rows
    simp only [appendProcesses, flat_text, flat_ite, flat_allocate, flat_texts, flat_nil,
      implies_true, and_self]
  unfold processesEndAppendQuery
  split_ifs <;> simp only [await, table, flat_append, flat_nil, and_self]

theorem runningservices_flat (o : RunningServices) : Flat (clogRunningservices o) := by
  have service : ∀ s, Flat (appendService s) := by
    intro s
    simp only [appendService, flat_append, flat_opens, flat_defer, flat_ite, flat_text,
      flat_popDefer, flat_nil, implies_true, and_self]
  unfold clogRunningservices
  cases o.services <;> simp only [service, flat_append, flat_flatMap, flat_opens, flat_defer,
    flat_allocate, flat_text, flat_nil, implies_true, and_self]

theorem appendEvents_flat (i : Nat) (events : List EventData) : Flat (appendEvents i events) := by
  induction events generalizing i with
  | nil => exact flat_nil
  | cons e rest ih =>
    simp only [appendEvents, getEventData, ih, flat_append, flat_opens, flat_closes, flat_defer,
      flat_text, flat_popDefer, flat_ite, flat_nil, implies_true, and_self]

theorem eventlog_flat (n : Nat) (o : EventLog) : Flat (clogEventlog n o) := by
  have channel : ∀ name c, Flat (appendChannel n name c) := by
    intro name c
    simp only [appendChannel, appendEvents_flat, flat_append, flat_text, flat_opens, flat_defer,
      flat_ite, flat_popDefer, flat_nil, implies_true, and_self]
  simp only [clogEventlog, channel, flat_append, and_self]

theorem applications_flat (o : Applications) : Flat (clogApplications o) := by
  have keys : ∀ k, Flat (insertApplications k) := by
    intro k
    cases k with
    | none => exact flat_nil
    | some entries =>
      simp only [insertApplications, flat_append, flat_opens, flat_defer, flat_nil, true_and]
      exact flat_blocks fun _ => (sizeofApplicationTree, 8, 1)
  simp only [clogApplications, keys, flat_append, flat_popDeferAll, flat_text, flat_ite, flat_texts,
    flat_nil, implies_true, and_self]

theorem certificates_flat (o : Certificates) : Flat (clogCertificates o) := by
  have purposes : ∀ e, Flat (getEKUPurposes e) := by
    intro e
    cases e with
    | absent => exact flat_nil
    | undecodable => simp only [getEKUPurposes, flat_allocate, flat_nil]
    | purposes lengths =>
      rw [getEKUPurposes, flat_allocate]
      exact flat_blocks fun n => (1, 1, n + 1)
  simp only [clogCertificates, enumCertificate, appendCertificate, purposes, flat_append, flat_text,
    flat_opens, flat_closes, flat_defer, flat_flatMap, flat_allocate, flat_ite, flat_ignorePopDefer,
    flat_nil, implies_true, and_self]

theorem loadEvents_flat (o : LoadOutcome) : Flat (loadEvents o) := by
  unfold loadEvents
  cases o.gap <;> simp only [flat_allocate, flat_nil]

/-- A batch of reboots: `rewind = scratch`. -/
theorem level_rewind : Level 2 [.arena .leave, .arena .enter] := by
  intro s deep running
  have here : s.Running := @running_of_append s [] _ running
  have left := frames_of_leave here (by omega)
  have between : (clogStep s (.arena .leave)).Running :=
    @running_of_append s [.arena .leave] [.arena .enter] running
  have entered := frames_of_enter between (by omega)
  change (clogStep (clogStep s (.arena .leave)) (.arena .enter)).arena.frames.length = _
  omega

theorem reboots_level (n : Nat) (o : Reboots) : Level 2 (clogReboots n o) := by
  have batches : Level 2 (o.batches.flatMap fun b =>
      loadEvents b ++ [.arena .leave, .arena .enter]) :=
    .flatMap fun b _ => (loadEvents_flat b).level.append level_rewind
  have opened : Flat (if o.opened then
      [.opens [.systemLog], .defer (some .systemLog) .closeEventLog] else []) := by
    simp only [flat_ite, flat_opens, flat_defer, flat_nil, implies_true, and_self]
  have recent : recentReboots o = (if o.opened then
      [.opens [.systemLog], .defer (some .systemLog) .closeEventLog] else []) ++
      withScratch (o.batches.flatMap (fun b => loadEvents b ++ [.arena .leave, .arena .enter]) ++
        loadEvents o.lastBatch) := by
    simp only [recentReboots, withScratch, List.append_assoc, List.cons_append]
  have report : Flat ([.popDeferAll, append "[reboots]".toList] ++
      if o.rows.take n = [] then [append "\n(No reboots found within the last 30 days)".toList]
      else
        append ("\nDate                   \tUser                           \t".toList ++
          "Reason                                         ".toList) ::
        (o.rows.take n).map fun row => append ('\n' :: row)) := by
    simp only [flat_append, flat_popDeferAll, flat_text, flat_ite, flat_texts, flat_nil,
      implies_true, and_self]
  have inner := level_withScratch (batches.append (loadEvents_flat o.lastBatch).level)
  have outer := level_withScratch ((opened.level.append (inner.mono (by decide))))
  rw [← recent] at outer
  unfold clogReboots
  dsimp only
  rw [List.append_assoc]
  exact (outer.mono (by decide)).append report.level

theorem level_withNewline {body : List ClogCall} (level : Level 2 body) :
    Level 1 (withNewline body) := by
  have newline : Flat [append ['\n']] := by simp only [flat_text, flat_nil]
  exact (level_withScratch level).append newline.level

theorem command_level {heading : String} (o : Command) :
    Level 2 (append heading.toList :: withScratch (runCmdSynchronously o)) := by
  have first : Flat [append heading.toList] := by simp only [flat_text, flat_nil]
  exact first.level.append ((level_withScratch (runCmd_flat o).level).mono (by decide))

theorem first_level (mrmachine : Text) (o : ClientlogOutcome) :
    Level 1 (clientlogFirst mrmachine o) := by
  have head : Flat [append ("client ".toList ++ mrmachine ++ ".windows windows\n".toList)] := by
    simp only [flat_text, flat_nil]
  have date : Flat (clogDate o.date) := by simp only [clogDate, flat_text, flat_nil]
  have winuptime : Flat (clogWinuptime o.winuptime) := by
    simp only [clogWinuptime, flat_text, flat_nil]
  apply Level.flatten
  simp only [List.forall_mem_cons]
  exact ⟨head.level, level_withNewline date.level, level_withNewline (osversion_flat _).level,
    level_withNewline winuptime.level, level_withScratch (bios_flat _).level,
    level_withNewline (who_flat _ _).level, level_withNewline (diskinfo_flat _).level,
    level_withNewline (winmemory_flat _).level, level_withNewline (command_level _),
    level_withNewline (command_level _), level_withNewline (winports_flat _).level,
    List.forall_mem_nil _⟩

theorem last_level (o : ClientlogOutcome) : Level 1 (clientlogLast o) := by
  have version : Flat (clogClientversion o.clientversion) := by
    simp only [clogClientversion, flat_text, flat_nil]
  have clock : Flat (clogClock o.localLine o.utcLine) := by
    simp only [clogClock, flat_text, flat_nil]
  apply Level.flatten
  simp only [List.forall_mem_cons]
  exact ⟨level_withScratch (runningservices_flat _).level,
    level_withNewline (eventlog_flat _ _).level, level_withNewline (applications_flat _).level,
    level_withScratch (certificates_flat _).level, level_withNewline (reboots_level _ _),
    level_withNewline version.level, level_withScratch clock.level,
    List.forall_mem_nil _⟩

/-- A whole run gives every frame back that it takes. -/
theorem clientlogCalls_level (mrmachine : Text) (o : ClientlogOutcome) :
    Level 1 (clientlogCalls mrmachine o) :=
  (((startQuery_flat o.startQuery).level.append (first_level mrmachine o)).append
    (endQuery_flat _ o.endQuery).level).append (last_level o)

end MrBig.Guarantees.ClientFrames
