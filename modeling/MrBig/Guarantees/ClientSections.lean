import MrBig.Abstract.ClientMessage
import MrBig.Source.Processes

/-!
# The sections of the client message

What the modules of clientlog append, whatever Windows answers, is the head line and the
sections in one fixed order. Not all headings begin a line: the modules whose error texts end
without a line end leave the next heading in the middle of one.
-/

set_option autoImplicit false

namespace MrBig.Guarantees.ClientSections
open Source Abstract Abstract.ClientMessage

/-! ### Headings -/

/-- The first text that the calls append begins with the heading. -/
def Begins (heading : Text) (calls : List ClogCall) : Prop := heading <+: appended calls

section Begins

variable {heading printed : Text} {front rest : List ClogCall}

theorem begins_text (first : heading <+: printed) : Begins heading (append printed :: rest) := by
  rw [Begins, appended_cons_append]
  exact first.trans (List.prefix_append printed _)

theorem begins_behind (nothing : appended front = []) (begins : Begins heading rest) :
    Begins heading (front ++ rest) := by
  rw [Begins, appended_append, nothing]
  exact begins

theorem begins_skip {call : ClogCall} (nothing : appended [call] = [])
    (begins : Begins heading rest) : Begins heading (call :: rest) := begins_behind nothing begins

theorem begins_left (begins : Begins heading front) : Begins heading (front ++ rest) := by
  rw [Begins, appended_append]
  exact begins.trans (List.prefix_append _ _)

end Begins

theorem text_sectionOf {heading : String} {calls : List ClogCall}
    (begins : Begins heading.toList calls) (lineEnd : Text) :
    (sectionOf heading calls lineEnd).text = appended calls ++ lineEnd := by
  obtain ⟨rest, whole⟩ := begins
  rw [Section.text, sectionOf, ← whole, List.drop_left, List.append_assoc]

/-- Calls of which none appends anything. -/
theorem appended_eq_nil {calls : List ClogCall}
    (silent : ∀ call ∈ calls, ∀ printed, call ≠ append printed) : appended calls = [] := by
  apply List.flatMap_eq_nil_iff.mpr
  intro call inside
  cases call with
  | arena call =>
    cases call with
    | append printed => exact absurd rfl (silent _ inside printed)
    | enter | leave | allocate => rfl
  | opens | closes | defer | ignorePopDefer | popDefer | popDeferAll => rfl

theorem appended_flatMap_nil {α : Type*} {f : α → List ClogCall} {as : List α}
    (silent : ∀ a ∈ as, appended (f a) = []) : appended (as.flatMap f) = [] := by
  induction as with
  | nil => rfl
  | cons a as ih =>
    rw [List.flatMap_cons, appended_append, silent a List.mem_cons_self,
      ih fun b inside => silent b (List.mem_cons_of_mem a inside)]
    rfl

theorem appended_withScratch (body : List ClogCall) :
    appended (withScratch body) = appended body := by
  have enter : appended [.arena .enter] = [] := rfl
  have leave : appended [.arena .leave] = [] := rfl
  have shape : withScratch body = [.arena .enter] ++ body ++ [.arena .leave] := rfl
  rw [shape, appended_append, appended_append, enter, leave, List.nil_append, List.append_nil]

theorem appended_withNewline (body : List ClogCall) :
    appended (withNewline body) = appended body ++ ['\n'] := by
  rw [withNewline, appended_append, appended_withScratch]
  rfl

/-! ### The heading of each module -/

theorem date_begins (line : Text) : Begins "[date]".toList (clogDate line) :=
  begins_text (by decide)

theorem osversion_begins (o : OsVersion) : Begins "[osversion]".toList (clogOsversion o) :=
  begins_skip rfl (begins_skip rfl (begins_text (List.prefix_refl _)))

theorem winuptime_begins (line : Text) : Begins "[winuptime]".toList (clogWinuptime line) :=
  begins_text (by decide)

theorem bios_begins (o : Bios) : Begins "[bios]".toList (clogBios o) :=
  begins_left (begins_text (by decide))

theorem who_begins (n : Nat) (o : Who) : Begins "[who]".toList (clogWho n o) :=
  begins_text (List.prefix_refl _)

theorem diskinfo_begins (o : DiskInfo) : Begins "[diskinfo]".toList (clogDiskinfo o) := by
  have drive : ∀ i ∈ examinedDrives o.drive 26 0 1 o.drivebits,
      appended (examineDrive (o.drive i)) = [] := by
    intro i _
    unfold examineDrive
    split <;> rfl
  apply begins_behind _ (begins_text (List.prefix_refl _))
  rw [appended_append, appended_flatMap_nil drive]
  rfl

theorem winmemory_begins (o : WinMemory) : Begins "[winmemory]".toList (clogWinmemory o) := by
  apply begins_behind _ (begins_text (List.prefix_refl _))
  split <;> rfl

theorem ipconfig_begins (o : Command) : Begins "[ipconfig]".toList (clogIpconfig o) :=
  begins_text (by decide)

theorem winroute_begins (o : Command) : Begins "[winroute]".toList (clogWinroute o) :=
  begins_text (by decide)

theorem tables_silent (i : Nat) (tables : List TableOutcome) :
    appended (getConnectionTables i tables) = [] := by
  induction tables generalizing i with
  | nil => rfl
  | cons t rest ih =>
    rw [getConnectionTables, appended_append, ih]
    cases t <;> rfl

theorem winportsused_begins (o : WinPorts) : Begins "[winportsused]".toList (winportsused o) :=
  begins_left (begins_left (begins_behind (tables_silent 0 o.tables)
    (begins_text (List.prefix_refl _))))

theorem winports_begins (o : WinPorts) : Begins "[winports]".toList (winports o) :=
  begins_left (begins_left (begins_text (List.prefix_refl _)))

theorem processes_begins (heading : String) (t : ProcessesTable) (errorLine : Text)
    (rows : List Text) : Begins heading.toList (appendProcesses heading t errorLine rows) :=
  begins_text (List.prefix_refl _)

theorem runningservices_begins (o : RunningServices) :
    Begins "[runningservices]".toList (clogRunningservices o) :=
  begins_left (begins_skip rfl (begins_skip rfl (begins_skip rfl
    (begins_text (List.prefix_refl _)))))

theorem application_begins (o : Channel) :
    Begins "[eventlog_application]".toList (channel "application" o) :=
  begins_text (by decide)

theorem setup_begins (o : Channel) : Begins "[eventlog_setup]".toList (channel "setup" o) :=
  begins_text (by decide)

theorem system_begins (o : Channel) : Begins "[eventlog_system]".toList (channel "system" o) :=
  begins_text (by decide)

theorem insertApplications_silent (keys : UninstallKeys) :
    appended (insertApplications keys) = [] := by
  cases keys with
  | none => rfl
  | some entries =>
    apply appended_eq_nil
    rintro call inside printed rfl
    simp [insertApplications] at inside

theorem applications_begins (o : Applications) :
    Begins "[applications]".toList (clogApplications o) := by
  have keys := insertApplications_silent o.x86_32
  have keys' := insertApplications_silent o.x86_64
  have all : Begins "[applications]".toList
      [.popDeferAll, append "[applications]".toList] :=
    begins_skip rfl (begins_text (List.prefix_refl _))
  refine begins_left (begins_behind ?_ all)
  rw [appended_append, keys]
  exact keys'

theorem certificates_begins (o : Certificates) :
    Begins "[certificates]".toList (clogCertificates o) :=
  begins_left (begins_left (begins_text (List.prefix_refl _)))

theorem reboots_silent (o : Reboots) : appended (recentReboots o) = [] := by
  have load : ∀ b, appended (loadEvents b) = [] := by
    intro b
    unfold loadEvents
    cases b.gap <;> rfl
  have batches : appended (o.batches.flatMap fun b =>
      loadEvents b ++ [.arena .leave, .arena .enter]) = [] := by
    apply appended_flatMap_nil
    intro b _
    rw [appended_append, load]
    rfl
  have opened : appended (if o.opened then
      [.opens [.systemLog], .defer (some .systemLog) .closeEventLog] else []) = [] := by
    split <;> rfl
  have first : appended (.arena .enter :: o.batches.flatMap fun b =>
      loadEvents b ++ [.arena .leave, .arena .enter]) = [] := batches
  unfold recentReboots
  rw [appended_append, appended_append, appended_append, opened, first, load]
  rfl

theorem reboots_begins (n : Nat) (o : Reboots) : Begins "[reboots]".toList (clogReboots n o) := by
  have silent : appended (withScratch (recentReboots o)) = [] := by
    rw [appended_withScratch, reboots_silent]
  exact begins_left (begins_behind silent (begins_skip rfl (begins_text (List.prefix_refl _))))

theorem clientversion_begins (line : Text) :
    Begins "[clientversion]".toList (clogClientversion line) := begins_text (List.prefix_refl _)

theorem clock_begins (localLine utcLine : Text) :
    Begins "[clock]".toList (clogClock localLine utcLine) := begins_text (List.prefix_refl _)

/-! ### The whole message -/

theorem winports_appended (o : WinPorts) :
    appended (clogWinports o) = appended (winportsused o) ++ '\n' :: appended (winports o) := by
  have calls : clogWinports o = winportsused o ++ (append "\n[winports]".toList ::
      (winports o).tail) := by
    simp only [clogWinports, winportsused, winports, List.append_assoc, List.cons_append,
      List.nil_append, List.tail_cons]
  have heading : "\n[winports]".toList = '\n' :: "[winports]".toList := by decide
  have shape : winports o = append "[winports]".toList :: (winports o).tail := rfl
  rw [calls, appended_append, appended_cons_append, heading, shape, appended_cons_append]
  rfl

theorem channel_appended (name : String) (o : Channel) :
    appended (appendChannel 5 name o) = '\n' :: appended (channel name o) := by
  have heading : "\n[eventlog_".toList = '\n' :: "[eventlog_".toList := by decide
  have shape : appendChannel 5 name o =
      append ("\n[eventlog_".toList ++ name.toList ++ [']']) :: (appendChannel 5 name o).tail := rfl
  rw [shape, appended_cons_append, heading, channel, appended_cons_append]
  rfl

theorem startQuery_appended (o : StartQuery) : appended (processesStartQuery o).1 = [] := by
  unfold processesStartQuery
  split_ifs <;> rfl

theorem endQuery_appended (o : ClientlogOutcome) :
    appended (processesEndAppendQuery (processesStartQuery o.startQuery).2 o.endQuery) =
      appended (appendProcesses "[processes]" (processes o) o.endQuery.errorLine
        o.endQuery.byName) ++
      (appended (appendProcesses "[topprocessescpu]" (processes o) o.endQuery.errorLine
        o.endQuery.byCPU) ++
      appended (appendProcesses "[topprocessesmemory]" (processes o) o.endQuery.errorLine
        o.endQuery.byMemory)) := by
  have rows : ∀ state, appended (awaitSummarizeQuery state o.endQuery).1 = [] := by
    intro state
    have row : ∀ p, appended (addRow p) = [] := by
      intro p
      unfold addRow getProcessUser
      split_ifs <;> rfl
    have all : appended (o.endQuery.items.flatMap addRow) = [] :=
      appended_flatMap_nil fun p _ => row p
    unfold awaitSummarizeQuery
    split_ifs
    · rfl
    · rfl
    · rfl
    · exact (appended_append _ _).trans (congrArg (· ++ ([] : Text)) all)
  unfold processesEndAppendQuery
  by_cases started : (processesStartQuery o.startQuery).2.errorCode = errorSuccess
  · have table : processes o = (awaitSummarizeQuery (processesStartQuery o.startQuery).2
        o.endQuery).2 := if_pos started
    rw [if_pos started, table]
    simp only [appended_append, rows, List.nil_append, List.append_assoc]
  · have table : processes o = ⟨0, (processesStartQuery o.startQuery).2.errorCode⟩ :=
      if_neg started
    rw [if_neg started, table]
    simp only [appended_append, List.nil_append, List.append_assoc]

theorem appended_flatten (parts : List (List ClogCall)) :
    appended parts.flatten = parts.flatMap appended := by
  induction parts with
  | nil => rfl
  | cons part parts ih => rw [List.flatten_cons, appended_append, ih, List.flatMap_cons]

/-- What the calls of a run append is the message, whatever Windows answers. -/
theorem appended_clientlogCalls (mrmachine : Text) (o : ClientlogOutcome) :
    appended (clientlogCalls mrmachine o) = message mrmachine o := by
  have split : clientlogCalls mrmachine o = (processesStartQuery o.startQuery).1 ++
      clientlogFirst mrmachine o ++
      processesEndAppendQuery (processesStartQuery o.startQuery).2 o.endQuery ++
      clientlogLast o := rfl
  have line : appended [append ("client ".toList ++ (mrmachine ++
      ".windows windows\n".toList))] = headLine mrmachine := by
    rw [appended_cons_append, ← List.append_assoc]
    exact List.append_nil _
  rw [split, appended_append, appended_append, appended_append, startQuery_appended,
    endQuery_appended, List.nil_append]
  unfold clientlogFirst clientlogLast message sections
  simp only [appended_flatten, List.flatMap_cons, List.flatMap_nil, appended_withNewline,
    appended_withScratch, line, winports_appended, clogEventlog, appended_append, channel_appended,
    text_sectionOf (date_begins _), text_sectionOf (osversion_begins _),
    text_sectionOf (winuptime_begins _), text_sectionOf (bios_begins _),
    text_sectionOf (who_begins _ _), text_sectionOf (diskinfo_begins _),
    text_sectionOf (winmemory_begins _), text_sectionOf (ipconfig_begins _),
    text_sectionOf (winroute_begins _), text_sectionOf (winportsused_begins _),
    text_sectionOf (winports_begins _), text_sectionOf (processes_begins _ _ _ _),
    text_sectionOf (runningservices_begins _), text_sectionOf (application_begins _),
    text_sectionOf (setup_begins _), text_sectionOf (system_begins _),
    text_sectionOf (applications_begins _), text_sectionOf (certificates_begins _),
    text_sectionOf (reboots_begins _ _), text_sectionOf (clientversion_begins _),
    text_sectionOf (clock_begins _ _),
    List.append_assoc, List.append_nil, List.cons_append, List.nil_append]

/-! ### Headings that begin a line -/

theorem endsLine_rowText (printer : Processes.Printer) (row : Processes.TableRow) :
    EndsLine (Processes.rowText printer row) := by
  have last : EndsLine ['\n'] := rfl
  exact last.behind _

/-- The texts of EndAppendQuery: rows of processes_AppendTable and the error of the query. -/
structure Printed (q : EndQuery) : Prop where
  rows : ∀ row ∈ q.byName ++ q.byCPU ++ q.byMemory,
    ∃ printer tableRow, row = Processes.rowText printer tableRow
  errorLine : ∃ digits, q.errorLine =
    "\n(Unable to query processes, error code ".toList ++ digits ++ ")\n".toList

/-- Lines behind a line end. -/
theorem endsLine_lines {front : Text} {lines : List Text} (start : EndsLine front)
    (each : ∀ line ∈ lines, EndsLine line) : EndsLine (front ++ appended (lines.map append)) := by
  rcases List.eq_nil_or_concat lines with rfl | ⟨earlier, last, rfl⟩
  · rw [List.map_nil, appended_nil, List.append_nil]
    exact start
  · have ends := each last (by simp)
    rw [List.map_concat, List.concat_eq_append, appended_append, appended_cons_append, appended_nil,
      List.append_nil]
    exact (ends.behind _).behind _

theorem endsLine_processes {heading : String} {t : ProcessesTable} {errorLine : Text}
    {rows : List Text} (error : EndsLine errorLine) (each : ∀ row ∈ rows, EndsLine row) :
    EndsLine (appended (appendProcesses heading t errorLine rows)) := by
  have columns : EndsLine ("\nPROCESS                        \t   PID\t".toList ++
      "USER                           \t    CPU\t      MEMORY\n".toList) := by decide
  unfold appendProcesses
  rw [appended_cons_append]
  apply EndsLine.behind
  split
  · exact endsLine_lines columns fun row inside => each row (List.mem_of_mem_take inside)
  · rw [appended_cons_append, appended_nil, List.append_nil]
    exact error

theorem endsLine_appendBios (value : Text → Option Text) (key : Text) :
    EndsLine (appended (appendBios value key)) := by
  have last : EndsLine ['\n'] := rfl
  have unread : EndsLine "(Unable to read)\n".toList := by decide
  rw [appendBios, appended_cons_append, appended_cons_append, appended_nil, List.append_nil]
  apply EndsLine.behind
  split
  · exact unread
  · exact last.behind _

theorem endsLine_bios_iff (o : Bios) : EndsLine (appended (clogBios o)) ↔ o.opened = true := by
  obtain ⟨opened, value⟩ := o
  cases opened with
  | false =>
    have text : appended (clogBios ⟨false, value⟩) = "[bios]\n".toList ++
        ("(Unable to open registry key ".toList ++
          "'HKEY_LOCAL_MACHINE\\HARDWARE\\DESCRIPTION\\System\\BIOS')".toList) := rfl
    rw [text]
    exact iff_of_false (by decide) Bool.false_ne_true
  | true =>
    have keys : biosKeys = biosKeys.take 5 ++ ["BIOSReleaseDate".toList] := by decide
    have text : appended (clogBios ⟨true, value⟩) =
        "[bios]\n".toList ++ appended (biosKeys.flatMap (appendBios value)) := by
      have calls : clogBios ⟨true, value⟩ = [append "[bios]\n".toList, .opens [.hKey],
          .defer (some .hKey) .regCloseKey] ++
          (biosKeys.flatMap (appendBios value) ++ [.popDeferAll]) := rfl
      have nothing : appended [.popDeferAll] = [] := rfl
      have front : appended [append "[bios]\n".toList, .opens [.hKey],
          .defer (some .hKey) .regCloseKey] = "[bios]\n".toList := rfl
      rw [calls, appended_append, appended_append, nothing, front, List.append_nil]
    rw [text, keys, List.flatMap_append, appended_append, List.flatMap_singleton]
    exact iff_of_true (((endsLine_appendBios value _).behind _).behind _) rfl

theorem endsLine_certificates_iff (o : Certificates) :
    EndsLine (appended (clogCertificates o)) ↔ o.certificates ≠ [] := by
  have last : EndsLine ['\n'] := rfl
  have row : ∀ c, EndsLine (appended (enumCertificate c)) := by
    intro c
    have rest : appended [append (c.row ++ ['\n']), .ignorePopDefer,
        .closes .certFreeCertificateContext (some .ctx)] = c.row ++ ['\n'] := List.append_nil _
    have begun : ∀ front : List ClogCall, EndsLine (appended (front ++ [append (c.row ++ ['\n']),
        .ignorePopDefer, .closes .certFreeCertificateContext (some .ctx)])) := by
      intro front
      rw [appended_append, rest]
      exact (last.behind _).behind _
    have calls : enumCertificate c = .opens [.ctx] ::
        ([.defer (some .ctx) .certFreeCertificateContext, allocate 1 1 c.friendlySize,
          allocate 1 1 c.subjectSize, allocate 1 1 c.issuerSize] ++ getEKUPurposes c.eku ++
          if c.algoLen = 0 then [] else [allocate 1 1 (c.algoLen + 1)]) ++
        [append (c.row ++ ['\n']), .ignorePopDefer,
          .closes .certFreeCertificateContext (some .ctx)] := by
      simp only [enumCertificate, appendCertificate, List.append_assoc, List.cons_append,
        List.nil_append]
    rw [calls]
    exact begun _
  have absent : ¬ EndsLine "\n(No certificates found in store 'MY')".toList := by decide
  unfold clogCertificates
  rw [appended_append]
  by_cases isEmpty : o.certificates = []
  · rw [if_pos isEmpty, appended_cons_append, appended_nil, List.append_nil,
      endsLine_append (by decide)]
    exact iff_of_false absent (fun notEmpty => notEmpty isEmpty)
  · obtain ⟨earlier, c, split⟩ := (List.eq_nil_or_concat o.certificates).resolve_left isEmpty
    rw [if_neg isEmpty, appended_nil, List.append_nil, appended_append, split,
      List.concat_eq_append, List.flatMap_append, appended_append, List.flatMap_singleton]
    exact iff_of_true (((row c).behind _).behind _) (by simp)

theorem endsLine_sectionOf (heading : String) (calls : List ClogCall) :
    EndsLine (sectionOf heading calls ['\n']).text := by
  have last : EndsLine ['\n'] := rfl
  exact (last.behind _).behind _

/-- In a message every heading begins a line if and only if the key of the BIOS can be opened
and the store holds a certificate. -/
theorem headings_begin_lines_iff (mrmachine : Text) (o : ClientlogOutcome)
    (printed : Printed o.endQuery) :
    (∀ before s after, sections o = before ++ s :: after →
        EndsLine (headLine mrmachine ++ before.flatMap Section.text)) ↔
      o.bios.opened = true ∧ o.certificates.certificates ≠ [] := by
  have head : EndsLine (headLine mrmachine) := by
    have last : EndsLine ".windows windows\n".toList := by decide
    exact last.behind _
  have nonempty : ∀ s ∈ sections o, s.text ≠ [] := by
    have headings : ∀ heading ∈ (sections o).map Section.heading, heading ≠ [] := by
      have all : (sections o).map Section.heading = ["[date]", "[osversion]", "[winuptime]",
          "[bios]", "[who]", "[diskinfo]", "[winmemory]", "[ipconfig]", "[winroute]",
          "[winportsused]", "[winports]", "[processes]", "[topprocessescpu]",
          "[topprocessesmemory]", "[runningservices]", "[eventlog_application]",
          "[eventlog_setup]", "[eventlog_system]", "[applications]", "[certificates]",
          "[reboots]", "[clientversion]", "[clock]"].map String.toList := rfl
      rw [all]
      decide
    intro s inside empty
    exact headings _ (List.mem_map_of_mem inside) (List.append_eq_nil_iff.mp empty).1
  have query : EndsLine o.endQuery.errorLine := by
    obtain ⟨digits, same⟩ := printed.errorLine
    have last : EndsLine ")\n".toList := by decide
    rw [same]
    exact last.behind _
  have rows : ∀ row ∈ o.endQuery.byName ++ o.endQuery.byCPU ++ o.endQuery.byMemory,
      EndsLine row := by
    intro row inside
    obtain ⟨printer, tableRow, rfl⟩ := printed.rows row inside
    exact endsLine_rowText printer tableRow
  obtain ⟨names, byMemory⟩ := List.forall_mem_append.mp rows
  obtain ⟨byName, byCPU⟩ := List.forall_mem_append.mp names
  rw [begin_lines_iff nonempty, and_iff_right fun _ => head]
  unfold sections
  simp only [List.dropLast, List.forall_mem_cons, endsLine_sectionOf,
    text_sectionOf (bios_begins _), text_sectionOf (processes_begins _ _ _ _),
    text_sectionOf (certificates_begins _), List.append_nil, endsLine_bios_iff,
    endsLine_certificates_iff, endsLine_processes query byName, endsLine_processes query byCPU,
    endsLine_processes query byMemory, true_and, List.not_mem_nil, false_imp_iff, implies_true,
    and_true]

/-- A machine whose process list cannot be queried. -/
def unqueried : ClientlogOutcome where
  startQuery := ⟨0xC0000BB8, 0, 0, 0, true, 0⟩
  date := "2024-05-01 12:00:00".toList
  osversion := ⟨false, "Not supported".toList⟩
  winuptime := "up 1 days".toList
  bios := ⟨true, fun _ => none⟩
  who := ⟨[], 0⟩
  diskinfo := ⟨false, 0, fun _ => ⟨false, false, false⟩, []⟩
  winmemory := ⟨false, [], [], []⟩
  ipconfig := ⟨false, false, false, 0, [], []⟩
  winroute := ⟨false, false, false, 0, [], []⟩
  winports := ⟨.noSize, .noSize, .noSize, .noSize⟩
  endQuery := ⟨0, 0, 0, [],
    "\n(Unable to query processes, error code 0xc0000bb8)\n".toList, [], [], []⟩
  runningservices := ⟨false, 0, none, []⟩
  eventlog := ⟨⟨false, []⟩, ⟨false, []⟩, ⟨false, []⟩⟩
  applications := ⟨none, none, []⟩
  certificates := ⟨false, []⟩
  reboots := ⟨false, [], ⟨none⟩, []⟩
  clientversion := []
  localLine := []
  utcLine := []

/-- It has no certificate either, and [reboots] does not begin a line. -/
theorem headings_begin_lines_iff_unqueried :
    ¬ ∀ before s after, sections unqueried = before ++ s :: after →
        EndsLine (headLine "host".toList ++ before.flatMap Section.text) :=
  fun each => ((headings_begin_lines_iff "host".toList unqueried
    ⟨List.forall_mem_nil _, "0xc0000bb8".toList, by decide⟩).mp each).2 rfl

end MrBig.Guarantees.ClientSections
