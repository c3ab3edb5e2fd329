import MrBig.Source.Clientlog

/-!
# The client message

What the server is to find in a report of clientlog: a head line and the sections, each a
heading in brackets and what stands behind it up to the next heading. The line end in front of a
heading belongs to the section before it.
-/

set_option autoImplicit false

namespace MrBig.Abstract
open Source

structure Section where
  heading : Text
  body : Text
  deriving DecidableEq, Repr

def Section.text (s : Section) : Text := s.heading ++ s.body

/-- A line of its own follows. -/
def EndsLine (text : Text) : Prop := text.getLast? = some '\n'

instance (text : Text) : Decidable (EndsLine text) :=
  inferInstanceAs (Decidable (_ = _))

theorem endsLine_append {front back : Text} (nonempty : back ≠ []) :
    EndsLine (front ++ back) ↔ EndsLine back := by
  rw [EndsLine, EndsLine, List.getLast?_append_of_ne_nil _ nonempty]

theorem EndsLine.behind {back : Text} (ends : EndsLine back) (front : Text) :
    EndsLine (front ++ back) := by
  refine (endsLine_append ?_).mpr ends
  rintro rfl
  cases ends

/-- Every heading behind `head` begins a line: every section but the last ends its own. -/
theorem begin_lines_iff {head : Text} {all : List Section} (nonempty : ∀ s ∈ all, s.text ≠ []) :
    (∀ before s after, all = before ++ s :: after →
        EndsLine (head ++ before.flatMap Section.text)) ↔
      (all ≠ [] → EndsLine head) ∧ ∀ s ∈ all.dropLast, EndsLine s.text := by
  induction all generalizing head with
  | nil =>
    refine iff_of_true ?_ ⟨fun absent => absurd rfl absent, List.forall_mem_nil _⟩
    intro before s after split
    cases before <;> cases split
  | cons first rest ih =>
    have here : first.text ≠ [] := nonempty first List.mem_cons_self
    have behind := @ih (head ++ first.text)
      fun s inside => nonempty s (List.mem_cons_of_mem first inside)
    have shift : ∀ before : List Section, head ++ (first :: before).flatMap Section.text =
        head ++ first.text ++ before.flatMap Section.text := by simp
    have step : (∀ before s after, first :: rest = before ++ s :: after →
          EndsLine (head ++ before.flatMap Section.text)) ↔
        EndsLine head ∧ ∀ before s after, rest = before ++ s :: after →
          EndsLine (head ++ first.text ++ before.flatMap Section.text) := by
      constructor
      · intro each
        refine ⟨?_, fun before s after split => ?_⟩
        · have start := each [] first rest rfl
          rwa [List.flatMap_nil, List.append_nil] at start
        · rw [← shift]
          exact each (first :: before) s after (by rw [split]; rfl)
      · rintro ⟨start, each⟩ before s after split
        cases before with
        | nil => rwa [List.flatMap_nil, List.append_nil]
        | cons other before =>
          obtain ⟨rfl, tail⟩ := List.cons.inj split
          rw [shift]
          exact each before s after tail
    rw [step, behind, endsLine_append here]
    cases rest with
    | nil => simp
    | cons second rest => simp

namespace ClientMessage

def headLine (mrmachine : Text) : Text :=
  "client ".toList ++ mrmachine ++ ".windows windows\n".toList

/-- What calls append behind their heading, and a line end if the next call appends one. -/
def sectionOf (heading : String) (calls : List ClogCall) (lineEnd : Text) : Section :=
  ⟨heading.toList, (appended calls).drop heading.toList.length ++ lineEnd⟩

/-- The first part of clog_winports. -/
def winportsused (o : WinPorts) : List ClogCall :=
  getConnectionTables 0 o.tables ++
  [append "[winportsused]".toList,
    append "\nIP version     \tProtocol       \t   Ports Used #\t Ports Used %".toList] ++
  o.tables.flatMap appendPortStatistics ++ appendErrored o.tables

/-- The second part, without the line end in front. -/
def winports (o : WinPorts) : List ClogCall :=
  [append "[winports]".toList,
    append ("\nProto  \tLocal Address                          \t".toList ++
      "Foreign Address                        \tState          \t    PID".toList)] ++
  o.tables.flatMap appendConnections ++ .popDeferAll :: appendErrored o.tables

/-- A channel of the event log, without the line end in front. -/
def channel (name : String) (o : Channel) : List ClogCall :=
  append ("[eventlog_".toList ++ name.toList ++ [']']) :: (appendChannel 5 name o).tail

def processes (o : ClientlogOutcome) : ProcessesTable :=
  let state := (processesStartQuery o.startQuery).2
  if state.errorCode = errorSuccess then (awaitSummarizeQuery state o.endQuery).2
  else ⟨0, state.errorCode⟩

def sections (o : ClientlogOutcome) : List Section :=
  let lineEnd := ['\n']
  let table := processes o
  let q := o.endQuery
  [sectionOf "[date]" (clogDate o.date) lineEnd,
    sectionOf "[osversion]" (clogOsversion o.osversion) lineEnd,
    sectionOf "[winuptime]" (clogWinuptime o.winuptime) lineEnd,
    sectionOf "[bios]" (clogBios o.bios) [],
    sectionOf "[who]" (clogWho 10 o.who) lineEnd,
    sectionOf "[diskinfo]" (clogDiskinfo o.diskinfo) lineEnd,
    sectionOf "[winmemory]" (clogWinmemory o.winmemory) lineEnd,
    sectionOf "[ipconfig]" (clogIpconfig o.ipconfig) lineEnd,
    sectionOf "[winroute]" (clogWinroute o.winroute) lineEnd,
    sectionOf "[winportsused]" (winportsused o.winports) lineEnd,
    sectionOf "[winports]" (winports o.winports) lineEnd,
    sectionOf "[processes]" (appendProcesses "[processes]" table q.errorLine q.byName) [],
    sectionOf "[topprocessescpu]"
      (appendProcesses "[topprocessescpu]" table q.errorLine q.byCPU) [],
    sectionOf "[topprocessesmemory]"
      (appendProcesses "[topprocessesmemory]" table q.errorLine q.byMemory) [],
    sectionOf "[runningservices]" (clogRunningservices o.runningservices) lineEnd,
    sectionOf "[eventlog_application]" (channel "application" o.eventlog.application) lineEnd,
    sectionOf "[eventlog_setup]" (channel "setup" o.eventlog.setup) lineEnd,
    sectionOf "[eventlog_system]" (channel "system" o.eventlog.system) lineEnd,
    sectionOf "[applications]" (clogApplications o.applications) lineEnd,
    sectionOf "[certificates]" (clogCertificates o.certificates) [],
    sectionOf "[reboots]" (clogReboots 5 o.reboots) lineEnd,
    sectionOf "[clientversion]" (clogClientversion o.clientversion) lineEnd,
    sectionOf "[clock]" (clogClock o.localLine o.utcLine) []]

/-- The whole message. -/
def message (mrmachine : Text) (o : ClientlogOutcome) : Text :=
  headLine mrmachine ++ (sections o).flatMap Section.text

end ClientMessage

end MrBig.Abstract
