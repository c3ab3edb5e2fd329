import MrBig.Guarantees.EventsOwned
import MrBig.Guarantees.MessageColor

/-!
# Type rules and the severity that Windows logged

`get_event_data` stores the level of an event where `match_rules` compares with the
EVENTLOG codes. The two numberings agree on information; an error is taken for a
warning, a warning for nothing, and a critical event for an error.
-/

set_option autoImplicit false

namespace MrBig.Guarantees.EventSeverity
open Library Source Source.ReadLog EventsOwned MessageColor

/-- The severities that Windows levels and type rules both have. -/
inductive Severity where
  | error
  | warning
  | information
  deriving DecidableEq, Repr

def Severity.text : Severity → Text
  | .error => "error".toList
  | .warning => "warning".toList
  | .information => "information".toList

/-- The Windows event level. -/
def Severity.level : Severity → Nat
  | .error => 2
  | .warning => 3
  | .information => 4

/-- The EVENTLOG code. -/
def Severity.code : Severity → Nat
  | .error => 1
  | .warning => 2
  | .information => 4

/-- The type rules that the search reaches match exactly the events of their severity. -/
def SeesSeverity (rules : List Rule) (log : Text) (e : Event) (level : Nat) : Prop :=
  ∀ r, Verdict.Reached (fun q : Rule => q.Matches e log) rules r → r.test = .type →
    ∀ severity : Severity, r.value = severity.text → (r.Matches e log ↔ level = severity.level)

/-- An event of the page has the level. -/
def Logged (input : MsgsInput) (level : Nat) : Prop :=
  ∃ entry ∈ input.entries, ∃ o, Reads o entry.2 ∧ o.level = some level

theorem level_of_reads {o : EventOutcome} {e : Event} (reads : Reads o e) :
    ∃ level : Nat, o.level = some level ∧ e.type = level := by
  obtain ⟨next, block, read, event⟩ := reads
  have stored : block.type = o.level.map Int.ofNat := by
    unfold ReadLog.getEventData at read
    split at read
    next => cases read
    next => rw [← Option.some.inj read]
  unfold EventBlock.event at event
  obtain ⟨_, _, event⟩ := Option.bind_eq_some_iff.mp event
  obtain ⟨_, _, event⟩ := Option.bind_eq_some_iff.mp event
  obtain ⟨type, assigned, event⟩ := Option.bind_eq_some_iff.mp event
  obtain ⟨_, _, event⟩ := Option.bind_eq_some_iff.mp event
  obtain ⟨_, _, event⟩ := Option.bind_eq_some_iff.mp event
  cases event
  rw [stored] at assigned
  obtain ⟨level, logged, same⟩ := Option.map_eq_some_iff.mp assigned
  exact ⟨level, logged, same.symm⟩

theorem type_of_reads {o : EventOutcome} {e : Event} (reads : Reads o e) {level : Nat}
    (logged : o.level = some level) : e.type = level := by
  obtain ⟨level', logged', type⟩ := level_of_reads reads
  rw [logged] at logged'
  rw [type, Option.some.inj logged']

/-- A type rule compares the stored type with the code of its severity. -/
theorem matches_type_iff {r : Rule} {e : Event} {log : Text} (type : r.test = .type)
    {severity : Severity} (value : r.value = severity.text) :
    r.Matches e log ↔ e.type = severity.code := by
  unfold Rule.Matches
  rw [type, value]
  dsimp only
  constructor
  · rintro (⟨code, same⟩ | ⟨code, same⟩ | ⟨code, same⟩ | ⟨_, same⟩ | ⟨_, same⟩)
    all_goals cases severity
    all_goals first
      | exact code
      | exact absurd same (by decide)
  · intro code
    cases severity with
    | error => exact Or.inl ⟨code, rfl⟩
    | warning => exact Or.inr (Or.inl ⟨code, rfl⟩)
    | information => exact Or.inr (Or.inr (Or.inl ⟨code, rfl⟩))

/-- The code and the level of a severity agree on an event. -/
theorem code_agrees_iff (level : Nat) (severity : Severity) :
    (level = severity.code ↔ level = severity.level) ↔
      (severity = .error → level ≠ 1 ∧ level ≠ 2) ∧
        (severity = .warning → level ≠ 2 ∧ level ≠ 3) := by
  cases severity <;> simp [Severity.code, Severity.level] <;> omega

theorem seesSeverity_iff {rules : List Rule} {log : Text} {e : Event} {level : Nat}
    (type : e.type = level) :
    SeesSeverity rules log e level ↔
      ∀ r, Verdict.Reached (fun q : Rule => q.Matches e log) rules r → r.test = .type →
        (r.value = Severity.error.text → level ≠ 1 ∧ level ≠ 2) ∧
          (r.value = Severity.warning.text → level ≠ 2 ∧ level ≠ 3) := by
  have rule : ∀ r : Rule, r.test = .type → ∀ severity : Severity, r.value = severity.text →
      ((r.Matches e log ↔ level = severity.level) ↔
        (severity = .error → level ≠ 1 ∧ level ≠ 2) ∧
          (severity = .warning → level ≠ 2 ∧ level ≠ 3)) := by
    intro r isType severity value
    rw [matches_type_iff isType value, type, ← code_agrees_iff]
    norm_cast
  constructor
  · intro sees r reached isType
    constructor
    · intro value
      exact ((rule r isType .error value).mp (sees r reached isType .error value)).1 rfl
    · intro value
      exact ((rule r isType .warning value).mp (sees r reached isType .warning value)).2 rfl
  · intro apart r reached isType severity value
    obtain ⟨error, warning⟩ := apart r reached isType
    refine (rule r isType severity value).mpr ⟨?_, ?_⟩
    · rintro rfl
      exact error value
    · rintro rfl
      exact warning value

/-! ### The page -/

def redOnError : Rule := ⟨some .red, .type, "error".toList⟩
def yellowOnWarning : Rule := ⟨some .yellow, .type, "warning".toList⟩

theorem matchRules_red_iff (e : Event) (log : Text) :
    matchRules [redOnError, yellowOnWarning] e log = some .red ↔ e.type = 1 := by
  have value : redOnError.value = Severity.error.text := rfl
  have error : redOnError.Matches e log ↔ e.type = 1 := matches_type_iff rfl value
  unfold matchRules
  split
  next hit => simpa [redOnError] using error.mp hit
  next passed =>
    unfold matchRules
    split
    next => simpa [yellowOnWarning] using fun type => passed (error.mpr type)
    next => simpa [matchRules] using fun type => passed (error.mpr type)

/-- Red is the worst color, so the page is red exactly if some event counts with red. -/
theorem showsWorst_red_iff {rules : List Rule} {input : MsgsInput} {page : Report}
    (shows : ShowsWorst rules input page) :
    page.color = Color.red.text ↔ .red ∈ countedColors rules input := by
  obtain ⟨color, shown, attained, bound⟩ := shows
  rw [shown]
  constructor
  · intro red
    have worst : color = .red := by
      cases color with
      | green | yellow => exact absurd red (by decide)
      | red => rfl
    rw [worst] at attained
    simpa using attained
  · intro counts
    have above : Color.red ≤ color := bound (Or.inr counts)
    cases color with
    | green | yellow => exact absurd above (by decide)
    | red => rfl

/-- With the two rules the page is red exactly if some event was logged as critical. -/
theorem page_red_iff {input : MsgsInput} {conf : List Config}
    (enabled : getOption input.options "no_msgs".toList false = none)
    (lines : msgsLines conf = ["red type error".toList, "yellow type warning".toList])
    (read : ∀ entry ∈ input.entries, ∃ o, Reads o entry.2) :
    (msgs input conf).color = "red".toList ↔ Logged input 1 := by
  have rules : readMsgcfg conf = [redOnError, yellowOnWarning] := by
    rw [readMsgcfg, lines]
    decide
  refine (showsWorst_red_iff (msgs_showsWorst conf enabled)).trans ?_
  rw [rules]
  unfold countedColors CountsWith Logged
  constructor
  · rintro ⟨entry, member, counts⟩
    obtain ⟨o, reads⟩ := read entry member
    obtain ⟨level, logged, type⟩ := level_of_reads reads
    have one := (matchRules_red_iff entry.2 entry.1).mp (matchRules_eq_some_iff.mpr counts)
    refine ⟨entry, member, o, reads, ?_⟩
    rw [logged]
    congr 1
    omega
  · rintro ⟨entry, member, o, reads, logged⟩
    refine ⟨entry, member, matchRules_eq_some_iff.mp ?_⟩
    exact (matchRules_red_iff entry.2 entry.1).mpr (type_of_reads reads logged)

/-- The page of the two rules is red for every list of events with an error, exactly if there is a
critical event whenever there is an error. -/
theorem errors_page_red_iff {input : MsgsInput} {conf : List Config}
    (enabled : getOption input.options "no_msgs".toList false = none)
    (lines : msgsLines conf = ["red type error".toList, "yellow type warning".toList])
    (read : ∀ entry ∈ input.entries, ∃ o, Reads o entry.2) :
    (Logged input Severity.error.level → (msgs input conf).color = "red".toList) ↔
      (Logged input Severity.error.level → Logged input 1) := by
  rw [page_red_iff enabled lines read]

/-- Type rules see the severity of an event except where an error rule meets a critical
event or an error, or a warning rule an error or a warning; and a page of errors is red
only if there is a critical event too. -/
theorem type_rules_see_severity_iff (rules : List Rule) (log : Text) (o : EventOutcome)
    (e : Event) (level : Nat) (input : MsgsInput) (conf : List Config) :
    (Reads o e → o.level = some level →
      (SeesSeverity rules log e level ↔
        ∀ r, Verdict.Reached (fun q : Rule => q.Matches e log) rules r → r.test = .type →
          (r.value = "error".toList → level ≠ 1 ∧ level ≠ 2) ∧
            (r.value = "warning".toList → level ≠ 2 ∧ level ≠ 3))) ∧
    (getOption input.options "no_msgs".toList false = none →
      msgsLines conf = ["red type error".toList, "yellow type warning".toList] →
      (∀ entry ∈ input.entries, ∃ o, Reads o entry.2) →
      ((Logged input Severity.error.level → (msgs input conf).color = "red".toList) ↔
        (Logged input Severity.error.level → Logged input 1))) := by
  constructor
  · intro reads logged
    exact seesSeverity_iff (type_of_reads reads logged)
  · intro enabled lines read
    exact errors_page_red_iff enabled lines read

/-- What `msgs` reads of `plainEvent`, a disk error. -/
def plainError : Event :=
  ⟨1700000000, 7, 2, "disk".toList, "bad block".toList⟩

theorem reads_plainError : Reads plainEvent plainError :=
  ⟨0, _, rfl, by decide⟩

theorem type_rules_see_severity_iff_diskError :
    (SeesSeverity [yellowOnWarning] "System".toList plainError 2 ↔
      ∀ r, Verdict.Reached (fun q : Rule => q.Matches plainError "System".toList)
          [yellowOnWarning] r → r.test = .type →
        (r.value = "error".toList → 2 ≠ 1 ∧ 2 ≠ 2) ∧
          (r.value = "warning".toList → 2 ≠ 2 ∧ 2 ≠ 3)) ∧
    ((Logged (oneLog fun _ _ => [plainError]) Severity.error.level →
        (msgs (oneLog fun _ _ => [plainError]) errorsAndWarnings).color = "red".toList) ↔
      (Logged (oneLog fun _ _ => [plainError]) Severity.error.level →
        Logged (oneLog fun _ _ => [plainError]) 1)) := by
  have both := type_rules_see_severity_iff [yellowOnWarning] "System".toList plainEvent plainError 2
    (oneLog fun _ _ => [plainError]) errorsAndWarnings
  refine ⟨both.1 reads_plainError rfl, both.2 (by decide) (by decide) ?_⟩
  intro entry member
  obtain rfl : entry = ("System".toList, plainError) := by
    simpa [MsgsInput.entries, MsgsInput.logEntries, oneLog] using member
  exact ⟨plainEvent, reads_plainError⟩

/-- An error of the event log matches the warning rule, and the page is yellow. -/
theorem errors_yellow :
    plainEvent.level = some Severity.error.level ∧ Reads plainEvent plainError ∧
      ¬ redOnError.Matches plainError "System".toList ∧
      yellowOnWarning.Matches plainError "System".toList ∧
      (msgs { oneLog (fun _ _ => []) with
        keys := [some (logKey "System".toList (fun _ => some [[plainEvent]]) id 0)] }
        errorsAndWarnings).color = "yellow".toList :=
  ⟨rfl, reads_plainError, by decide, by decide, by decide⟩

end MrBig.Guarantees.EventSeverity
