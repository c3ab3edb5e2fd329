import MrBig.Library.Latch
import MrBig.Source.FastMessages

/-!
# After a pass that did not finish, the logs are read in the fast way

fastmsgs.cfg lies there exactly when somebody has put it there or the agent has ended while
it was reading the logs, and nobody has deleted it since: passes that finish leave it as
they find it.
-/

set_option autoImplicit false

namespace MrBig.Guarantees.InterruptedPasses
open Library Source

variable {fastmsgsfile : Text} {files : FileSys}

/-! ### Calls on the file -/

def Present (fastmsgsfile : Text) (files : FileSys) : Prop := (files.read fastmsgsfile).isSome

theorem present_create : Present fastmsgsfile (files.create fastmsgsfile) := by
  rw [Present, FileSys.read_create_self]
  rfl

theorem present_append {text : Text} :
    Present fastmsgsfile (files.append fastmsgsfile text) ↔ Present fastmsgsfile files := by
  rw [Present, FileSys.read_append_self, Option.isSome_map]
  rfl

theorem not_present_remove : ¬ Present fastmsgsfile (files.remove fastmsgsfile) := by
  rw [Present, FileSys.read_remove_self]
  simp

/-- Only `remove` takes the file away. -/
theorem present_calls {calls : List FileCall} (keeps : .remove ∉ calls)
    (there : Present fastmsgsfile files) :
    Present fastmsgsfile (calls.foldl (FileCall.run fastmsgsfile) files) := by
  induction calls generalizing files with
  | nil => exact there
  | cons call rest ih =>
    obtain ⟨other, later⟩ := not_or.mp fun either => keeps (List.mem_cons.mpr either)
    apply ih later
    cases call with
    | create => exact present_create
    | print text => exact present_append.mpr there
    | remove => exact absurd rfl other

/-- With the automatic mode and no file, the calls in front of the last one leave a file. -/
theorem present_marked (fastmsgsfile : Text) (files : FileSys) (text : Text) (made : Nat) :
    Present fastmsgsfile (([.create, .print text, .remove].take made).foldl
      (FileCall.run fastmsgsfile) files) ↔
        (made = 1 ∨ made = 2) ∨ made = 0 ∧ Present fastmsgsfile files := by
  match made with
  | 0 => simp
  | 1 =>
    have left : Present fastmsgsfile (files.create fastmsgsfile) := present_create
    simpa [FileCall.run] using left
  | 2 =>
    have left : Present fastmsgsfile ((files.create fastmsgsfile).append fastmsgsfile text) :=
      present_append.mpr present_create
    simpa [FileCall.run] using left
  | rest + 3 =>
    have gone : ¬ Present fastmsgsfile
        (((files.create fastmsgsfile).append fastmsgsfile text).remove fastmsgsfile) :=
      not_present_remove
    simpa [FileCall.run] using gone

/-! ### Passes -/

/-- The agent ends while the logs are read, or right before. -/
def Interrupted (pass : MsgsPass) : Prop :=
  pass.input.noMsgs = false ∧ pass.input.isAuto = true ∧
    (pass.ends = some 1 ∨ pass.ends = some 2)

instance (pass : MsgsPass) : Decidable (Interrupted pass) :=
  inferInstanceAs (Decidable (_ ∧ _))

/-- What leaves the file there. -/
def Sets : MsgsEvent → Prop
  | .pass pass => Interrupted pass
  | .place _ => True
  | .delete => False

def Clears : MsgsEvent → Prop
  | .delete => True
  | _ => False

theorem lookForFile_not_auto (fastmsgsfile : Text) (files : FileSys) {input : MsgsInput}
    (auto : input.isAuto = false) :
    (input.lookForFile fastmsgsfile files).marks = [] ∧
      (input.lookForFile fastmsgsfile files).unmarks = [] := by
  have same : (input.lookForFile fastmsgsfile files).isAuto = false := auto
  have slow : (input.lookForFile fastmsgsfile files).fastfile = false := by
    change (input.isAuto && _) = false
    rw [auto, Bool.false_and]
  constructor
  · rw [MsgsInput.marks, same, if_neg Bool.false_ne_true]
  · rw [MsgsInput.unmarks, slow, same, if_neg Bool.false_ne_true, if_neg Bool.false_ne_true]

/-- The calls of a pass in the automatic mode that finds the file. -/
theorem calls_of_present {input : MsgsInput} (auto : input.isAuto = true)
    (there : Present fastmsgsfile files) :
    .remove ∉ (input.lookForFile fastmsgsfile files).marks ++
      (input.lookForFile fastmsgsfile files).unmarks := by
  have same : (input.lookForFile fastmsgsfile files).isAuto = true := auto
  have fast : (input.lookForFile fastmsgsfile files).fastfile = true := by
    change (input.isAuto && _) = true
    rw [auto, Bool.true_and]
    exact there
  rw [MsgsInput.marks, MsgsInput.unmarks, fast, same, if_pos rfl, if_pos rfl]
  simp

/-- The calls of a pass in the automatic mode that does not. -/
theorem calls_of_absent {input : MsgsInput} (auto : input.isAuto = true)
    (absent : ¬ Present fastmsgsfile files) :
    ∃ text, (input.lookForFile fastmsgsfile files).marks ++
      (input.lookForFile fastmsgsfile files).unmarks = [.create, .print text, .remove] := by
  have same : (input.lookForFile fastmsgsfile files).isAuto = true := auto
  have slow : (input.lookForFile fastmsgsfile files).fastfile = false := by
    change (input.isAuto && _) = false
    rw [auto, Bool.true_and]
    exact Bool.eq_false_iff.mpr absent
  rw [MsgsInput.marks, MsgsInput.unmarks, slow, same, if_pos rfl, if_neg Bool.false_ne_true,
    if_pos rfl]
  exact ⟨_, rfl⟩

/-- A pass leaves the file where it finds it, or where it is interrupted. -/
theorem msgsPass_present (pass : MsgsPass) :
    Present fastmsgsfile (msgsPass fastmsgsfile files pass).1 ↔
      Interrupted pass ∨ Present fastmsgsfile files := by
  obtain ⟨input, conf, ends⟩ := pass
  unfold msgsPass Interrupted
  dsimp only
  by_cases noMsgs : input.noMsgs = true
  · have stops : (input.lookForFile fastmsgsfile files).noMsgs = true := noMsgs
    rw [if_pos stops]
    simp [noMsgs]
  have goesOn : ¬ (input.lookForFile fastmsgsfile files).noMsgs = true := noMsgs
  rw [if_neg goesOn]
  by_cases auto : input.isAuto = true
  swap
  · have manual : input.isAuto = false := Bool.eq_false_iff.mpr auto
    obtain ⟨noMarks, noUnmarks⟩ := lookForFile_not_auto fastmsgsfile files manual
    rw [noMarks, noUnmarks]
    cases ends <;> simp [manual]
  have enabled : input.noMsgs = false := Bool.eq_false_iff.mpr noMsgs
  by_cases there : Present fastmsgsfile files
  · have keeps := calls_of_present auto there
    cases ends with
    | none => simpa [there] using present_calls keeps there
    | some made =>
      have still : .remove ∉ ((input.lookForFile fastmsgsfile files).marks ++
          (input.lookForFile fastmsgsfile files).unmarks).take made :=
        fun taken => keeps (List.mem_of_mem_take taken)
      simpa [there] using present_calls still there
  · obtain ⟨text, calls⟩ := calls_of_absent auto there
    rw [calls]
    cases ends with
    | none =>
      simpa [there] using present_marked fastmsgsfile files text 3
    | some made =>
      simpa [there, enabled, auto] using present_marked fastmsgsfile files text made

theorem msgsStep_latched (files : FileSys) (e : MsgsEvent) :
    Present fastmsgsfile (msgsStep fastmsgsfile files e).1 ↔
      Sets e ∨ Present fastmsgsfile files ∧ ¬ Clears e := by
  cases e with
  | pass pass => simpa [Sets, Clears, msgsStep] using msgsPass_present pass
  | place content =>
    have left : Present fastmsgsfile
        ((files.create fastmsgsfile).append fastmsgsfile content) :=
      present_append.mpr present_create
    simpa [Sets, msgsStep] using left
  | delete => simpa [Sets, Clears, msgsStep] using not_present_remove

/-- The file lies there because it did at the start, because of an interrupted pass or because
somebody put it there, and nobody has deleted it since. -/
def LeftBehind (fastmsgsfile : Text) (files : FileSys) (history : List MsgsEvent) : Prop :=
  Latch.Stands Sets Clears (Present fastmsgsfile files) history

theorem present_iff_leftBehind (fastmsgsfile : Text) (files : FileSys) (history : List MsgsEvent) :
    Present fastmsgsfile (Run.final (msgsStep fastmsgsfile) files history) ↔
      LeftBehind fastmsgsfile files history :=
  Latch.final_iff_stands msgsStep_latched files history

theorem msgsPass_fast {pass : MsgsPass} {fast : Bool}
    (reads : (msgsPass fastmsgsfile files pass).2.fast = some fast) :
    fast = (pass.input.lookForFile fastmsgsfile files).fast := by
  unfold msgsPass at reads
  dsimp only at reads
  split at reads
  · cases reads
  · cases ends : pass.ends with
    | none =>
      rw [ends] at reads
      exact (Option.some.inj reads).symm
    | some made =>
      rw [ends] at reads
      dsimp only at reads
      split at reads
      · exact (Option.some.inj reads).symm
      · cases reads

theorem lookForFile_fast (input : MsgsInput) :
    (input.lookForFile fastmsgsfile files).fast = true ↔
      input.fastmsgsMode = "on".toList ∨ input.isAuto = true ∧ Present fastmsgsfile files := by
  change (input.fastmsgsMode == "on".toList ||
    (input.isAuto && (input.isAuto && (files.read fastmsgsfile).isSome))) = true ↔ _
  rw [← Bool.and_assoc, Bool.and_self, Bool.or_eq_true, Bool.and_eq_true, beq_iff_eq]
  rfl

/-- In every run, a pass that comes to the logs reads them in the fast way if its options say so,
or, in the automatic mode, if the file is left behind; passes that finish count for nothing. -/
theorem fast_iff_leftBehind (fastmsgsfile : Text) (files : FileSys) (before : List MsgsEvent)
    (pass : MsgsPass) (after : List MsgsEvent) {outcome : MsgsOutcome} {fast : Bool}
    (given : (Run.outputs (msgsStep fastmsgsfile) files
      (before ++ .pass pass :: after))[before.length]? = some (some outcome))
    (reads : outcome.fast = some fast) :
    fast = true ↔ pass.input.fastmsgsMode = "on".toList ∨
      pass.input.isAuto = true ∧ LeftBehind fastmsgsfile files before := by
  rw [Run.outputs_getElem?] at given
  have same := Option.some.inj (Option.some.inj given)
  change (msgsPass fastmsgsfile _ pass).2 = outcome at same
  rw [← same] at reads
  rw [msgsPass_fast reads, lookForFile_fast, present_iff_leftBehind]

/-- A machine without logs, in the automatic mode. -/
def noLogs : MsgsInput where
  options := []
  mrmachine := "localhost".toList
  msgage := 3600
  now := "now".toList
  t0 := 1700000000
  fastfile := false
  ctime := fun _ => []
  keys := []

def finished : MsgsPass := ⟨noLogs, [], none⟩

/-- The agent ends behind the second call, while it reads the logs. -/
def cutShort : MsgsPass := ⟨noLogs, [], some 2⟩

/-- The second of three passes has been cut short; the fourth reads in the fast way. -/
def threePasses : List MsgsEvent := [.pass finished, .pass cutShort, .pass finished]

theorem fast_iff_leftBehind_cutShort :
    (true = true ↔ noLogs.fastmsgsMode = "on".toList ∨
      noLogs.isAuto = true ∧ LeftBehind "fastmsgs.cfg".toList [] threePasses) := by
  have given : (Run.outputs (msgsStep "fastmsgs.cfg".toList) []
      (threePasses ++ .pass finished :: []))[threePasses.length]? =
        some (some ⟨some true, some (msgs { noLogs with fastfile := true } [])⟩) := by
    decide +kernel
  exact fast_iff_leftBehind "fastmsgs.cfg".toList [] threePasses finished [] given rfl

end MrBig.Guarantees.InterruptedPasses
