import MrBig.Abstract.StatusBoard
import MrBig.Abstract.StatusLine
import MrBig.Guarantees.Pickup
import MrBig.Guarantees.ReplyPort
import MrBig.Source.SendUpdate

/-!
# What the display reads is what the test reported

The status texts of every run of `mrsend`, read by the rule that displays take them apart by.
The machine name that `readcfg` leaves has no dot in it; the names of a pickup file come from
outside.
-/

set_option autoImplicit false

namespace MrBig.Guarantees.ReportsReadBack
open Library Source Abstract

/-- The line that a handover means. -/
def lineOf (o : Handover) : StatusLine := ⟨o.machine, o.test, o.color, o.message⟩

/-- The line with as much of the message as the report has room for. -/
def cutLine (o : Handover) : StatusLine :=
  { lineOf o with message := o.message.take (o.reportSize - 1 - (lineOf o).header.length) }

theorem text_eq (o : Handover) : o.text = (lineOf o).print.take (o.reportSize - 1) := by
  rw [Handover.text, snprcat_nil, StatusLine.print_eq]
  congr 1
  simp [lineOf]

/-- A text that has its header is the line with the message cut. -/
theorem text_of_fits {o : Handover} (fits : (lineOf o).header.length ≤ o.reportSize - 1) :
    o.text = (cutLine o).print := by
  rw [text_eq, StatusLine.print, List.take_append, List.take_of_length_le fits]
  rfl

/-- A text is read back as its line, with as much of the message as there is room for, exactly
if nothing in the line ends a part too early and the report holds what stands before the
message. -/
theorem text_reads_back_iff (o : Handover) :
    (∃ message, StatusLine.parse o.text = some { lineOf o with message := message }) ↔
      (lineOf o).Plain ∧ (lineOf o).header.length ≤ o.reportSize - 1 := by
  constructor
  · intro reads
    obtain ⟨message, read⟩ := reads
    obtain ⟨printed, plain⟩ := StatusLine.of_parse read
    refine ⟨⟨plain.machine, plain.test, plain.color⟩, ?_⟩
    have size := congrArg List.length printed
    have cut := o.text_length
    rw [StatusLine.print, List.length_append] at size
    change o.text.length = (lineOf o).header.length + message.length at size
    omega
  · intro holds
    obtain ⟨plain, fits⟩ := holds
    refine ⟨_, StatusLine.parse_eq_some_iff.mpr ⟨text_of_fits fits, ?_⟩⟩
    exact ⟨plain.machine, plain.test, plain.color⟩

/-! ### Runs of `mrsend` -/

/-- A handover has its pair and its message from the call, and the colour of the call or green. -/
theorem handover_of_call {teststatus : List TestStatus} {c : Call} {o : Handover}
    (output : (mrsend teststatus c).2 = some o) :
    ∃ color, (color = c.color ∨ color = green) ∧ o = c.handover color := by
  rw [mrsend_output] at output
  split at output
  · cases output
  · refine ⟨_, ?_, (Option.some.inj output).symm⟩
    unfold sentColor
    split
    · exact Or.inr rfl
    · exact Or.inl rfl

/-- How much stands before the message when a call is sent with a colour. -/
def headerLength (c : Call) (color : Text) : Nat :=
  10 + c.machine.length + c.test.length + color.length

/-- Every handover of a run is of one of its calls. -/
theorem handed_from {teststatus : List TestStatus} {calls : List Call} {o : Handover}
    (handed : some o ∈ Run.outputs mrsend teststatus calls) :
    ∃ c ∈ calls, ∃ color, (color = c.color ∨ color = green) ∧ o = c.handover color := by
  obtain ⟨before, c, after, split, output⟩ := (Run.mem_outputs_iff mrsend).mp handed
  obtain ⟨color, either, same⟩ := handover_of_call output.symm
  exact ⟨c, by simp [split], color, either, same⟩

theorem handover_reads_back_iff (c : Call) (color : Text) :
    (∃ message, StatusLine.parse (c.handover color).text =
        some ⟨c.machine, c.test, color, message⟩) ↔
      '.' ∉ c.machine ∧ ' ' ∉ c.test ∧ ' ' ∉ color ∧ headerLength c color < c.reportSize := by
  refine (text_reads_back_iff (c.handover color)).trans ?_
  rw [StatusLine.length_header]
  change _ ∧ headerLength c color ≤ c.reportSize - 1 ↔ _
  have room : headerLength c color ≤ c.reportSize - 1 ↔ headerLength c color < c.reportSize := by
    unfold headerLength
    omega
  rw [room]
  constructor
  · intro holds
    exact ⟨holds.1.machine, holds.1.test, holds.1.color, holds.2⟩
  · intro holds
    exact ⟨⟨holds.1, holds.2.1, holds.2.2.1⟩, holds.2.2.2⟩

/-- In every run of `mrsend`: every text handed over is of one of the calls, and the display
reads from it the machine and the test of that call and the colour that was sent, exactly if
there is no dot in the machine, no blank in the test and the colour, and `report_size` leaves
room for what stands before the message. -/
theorem runs_read_back {teststatus : List TestStatus} {calls : List Call} {o : Handover}
    (handed : some o ∈ Run.outputs mrsend teststatus calls) :
    ∃ c ∈ calls, ∃ color, (color = c.color ∨ color = green) ∧ o = c.handover color ∧
      ((∃ message, StatusLine.parse o.text = some ⟨c.machine, c.test, color, message⟩) ↔
        '.' ∉ c.machine ∧ ' ' ∉ c.test ∧ ' ' ∉ color ∧
          headerLength c color < c.reportSize) := by
  obtain ⟨c, inside, color, either, rfl⟩ := handed_from handed
  exact ⟨c, inside, color, either, rfl, handover_reads_back_iff c color⟩

/-! ### The name that `readcfg` leaves -/

theorem directive_machine {key value name : Text}
    (found : directive key value = some (.machine name)) : name = strlcpy value 256 := by
  unfold directive at found
  rcases ReplyPort.of_ite_some found with ⟨-, machine⟩ | found
  · exact (Directive.machine.inj machine).symm
  exfalso
  repeat
    rcases ReplyPort.of_ite_some found with ⟨-, no⟩ | found
    · first
      | cases no
      | (unfold graceDirective at no
         split at no <;> cases no)
  cases found

theorem machine_short {conf : List Config} {name : Text}
    (asked : .machine name ∈ directives conf) : name.length ≤ 255 := by
  unfold directives at asked
  obtain ⟨b, -, found⟩ := List.mem_filterMap.mp asked
  obtain ⟨⟨key, value⟩, -, found⟩ := Option.bind_eq_some_iff.mp found
  rw [directive_machine found, strlcpy]
  exact List.length_take_le _ _

theorem foldl_mrmachine (opens : Text → Bool) (ds : List Directive) {s : Settings}
    (start : s.mrmachine.length ≤ 255) (short : ∀ name, .machine name ∈ ds → name.length ≤ 255) :
    (ds.foldl (applyDirective opens) s).mrmachine.length ≤ 255 := by
  induction ds generalizing s with
  | nil => exact start
  | cons d ds ih =>
    have later : ∀ name, .machine name ∈ ds → name.length ≤ 255 :=
      fun name inside => short name (List.mem_cons_of_mem d inside)
    rw [List.foldl_cons]
    cases d with
    | machine name => exact ih (short name List.mem_cons_self) later
    | _ => exact ih start later

/-- A machine name that a configuration can leave. -/
def Configured (machine : Text) : Prop :=
  ∃ opens conf s, machine = (readcfg opens conf s).mrmachine

theorem Configured.plain {machine : Text} (configured : Configured machine) :
    '.' ∉ machine ∧ machine.length ≤ 255 := by
  obtain ⟨opens, conf, s, rfl⟩ := configured
  constructor
  · intro inside
    obtain ⟨c, -, same⟩ := List.mem_map.mp inside
    split at same
    · revert same
      decide
    next other => exact other same
  · have start : (setDefaults s).mrmachine.length ≤ 255 := by
      change "localhost".toList.length ≤ 255
      decide
    have folded := foldl_mrmachine opens (directives conf) start fun name asked =>
      machine_short asked
    rw [readcfg]
    unfold finishCfg
    rwa [List.length_map]

/-- The tests that report for the machine itself, and the colours they know. -/
def ownTests : List Text := ["cpu", "disk", "memory", "msgs", "procs", "svcs"].map String.toList

def colors : List Text := ["green", "yellow", "red", "clear"].map String.toList

structure OwnReport (c : Call) : Prop where
  machine : Configured c.machine
  test : c.test ∈ ownTests
  color : c.color ∈ colors
  room : 278 ≤ c.reportSize

/-- No part of the text of the call ends too early, whichever colour is sent. -/
structure Legible (c : Call) : Prop where
  machine : '.' ∉ c.machine
  test : ' ' ∉ c.test
  color : ' ' ∉ c.color
  room : headerLength c c.color < c.reportSize
  greenRoom : headerLength c green < c.reportSize

theorem OwnReport.legible {c : Call} (own : OwnReport c) : Legible c := by
  obtain ⟨machine, test, listed, room⟩ := own
  obtain ⟨dotless, short⟩ := machine.plain
  have tests : ∀ t ∈ ownTests, ' ' ∉ t ∧ t.length ≤ 6 := by decide
  have known : ∀ t ∈ colors, ' ' ∉ t ∧ t.length ≤ 6 := by decide
  obtain ⟨testPlain, testShort⟩ := tests _ test
  obtain ⟨colorPlain, colorShort⟩ := known _ listed
  have greenShort : green.length ≤ 6 := by decide
  refine ⟨dotless, testPlain, colorPlain, ?_, ?_⟩ <;> unfold headerLength <;> omega

theorem Legible.handover {c : Call} (legible : Legible c) {color : Text}
    (either : color = c.color ∨ color = green) :
    (lineOf (c.handover color)).Plain ∧
      (lineOf (c.handover color)).header.length ≤ (c.handover color).reportSize - 1 := by
  have noBlank : ' ' ∉ green := by decide
  rw [StatusLine.length_header]
  change _ ∧ headerLength c color ≤ c.reportSize - 1
  rcases either with rfl | rfl
  · exact ⟨⟨legible.machine, legible.test, legible.color⟩, Nat.le_sub_one_of_lt legible.room⟩
  · exact ⟨⟨legible.machine, legible.test, noBlank⟩, Nat.le_sub_one_of_lt legible.greenRoom⟩

/-- The texts of legible calls are plain, and have room for what stands before the message. -/
theorem plain_of_handed {teststatus : List TestStatus} {calls : List Call}
    (legible : ∀ c ∈ calls, Legible c) {o : Handover}
    (handed : some o ∈ Run.outputs mrsend teststatus calls) :
    (lineOf o).Plain ∧ (lineOf o).header.length ≤ o.reportSize - 1 := by
  obtain ⟨c, inside, color, either, rfl⟩ := handed_from handed
  exact (legible c inside).handover either

/-- What the agent's own tests report has no part that ends too early, and there is room for
what stands before the message. -/
theorem own_plain {teststatus : List TestStatus} {calls : List Call}
    (own : ∀ c ∈ calls, OwnReport c) {o : Handover}
    (handed : some o ∈ Run.outputs mrsend teststatus calls) :
    (lineOf o).Plain ∧ (lineOf o).header.length ≤ o.reportSize - 1 :=
  plain_of_handed (fun c inside => (own c inside).legible) handed

/-- In every run in which the agent's own tests report, under whatever configurations: every
text handed over is read back as the machine, the test and the colour that were sent. -/
theorem own_reports_read_back {teststatus : List TestStatus} {calls : List Call}
    (own : ∀ c ∈ calls, OwnReport c) {o : Handover}
    (handed : some o ∈ Run.outputs mrsend teststatus calls) :
    ∃ message, StatusLine.parse o.text = some ⟨o.machine, o.test, o.color, message⟩ :=
  (text_reads_back_iff o).mpr (own_plain own handed)

/-! ### Reports from the pickup directory -/

/-- What `pickup_file` passes to `mrsend`. -/
def callReport (c : Call) : Report := ⟨c.machine, c.test, c.color, c.message⟩

/-- The reports made of the files that were picked up, in order. -/
def reportsOf (outputs : List (Option PickedUp)) : List Report :=
  outputs.filterMap fun output => output.bind PickedUp.report

/-- What a file that is picked up says: its name is the machine, a dot and the test, or just the
test, and then the machine is the agent's own; its first line is the colour. -/
structure Tells (g : PickupGlobals) (fn content : Text) (r : Report) : Prop where
  name : (fn = r.machine ++ '.' :: r.test ∧ '.' ∉ r.machine) ∨
    ('.' ∉ fn ∧ r.machine = g.mrmachine ∧ r.test = fn)
  color : ∃ rest, pickupBuffer g content = r.color ++ '\n' :: rest ∧ '\n' ∉ r.color

theorem tells_of_report {g : PickupGlobals} {fn content : Text} {r : Report}
    (made : pickupReport g fn content = some r) : Tells g fn content r := by
  unfold pickupReport at made
  cases line : Delimited.cut '\n' (pickupBuffer g content) with
  | none =>
    rw [line] at made
    cases made
  | some pair =>
    rw [line] at made
    obtain rfl := Option.some.inj made
    refine ⟨?_, pair.2, Delimited.eq_of_cut line⟩
    unfold pickupNames
    cases dot : Delimited.cut '.' fn with
    | none => exact Or.inr ⟨Delimited.cut_eq_none_iff.mp dot, rfl, rfl⟩
    | some names => exact Or.inl (Delimited.eq_of_cut dot)

theorem Tells.dotless {g : PickupGlobals} {fn content : Text} {r : Report}
    (tells : Tells g fn content r) (own : '.' ∉ g.mrmachine) : '.' ∉ r.machine := by
  rcases tells.name with ⟨-, dotless⟩ | ⟨-, same, -⟩
  · exact dotless
  · rw [same]
    exact own

/-- The report of a file that was picked up somewhere in a run. -/
theorem mem_reportsOf {files : FileSys} {events : List DirEvent} {r : Report}
    (reported : r ∈ reportsOf (Run.outputs dirStep files events)) :
    ∃ g fn fopen removes meanwhile content,
      DirEvent.pick g fn fopen removes meanwhile ∈ events ∧
      some ⟨fn, content, some r⟩ ∈ Run.outputs dirStep files events ∧
      pickupReport g fn content = some r := by
  obtain ⟨output, given, made⟩ := List.mem_filterMap.mp reported
  obtain ⟨⟨fn', content, made'⟩, rfl, report⟩ := Option.bind_eq_some_iff.mp made
  obtain rfl : made' = some r := report
  obtain ⟨before, e, after, split, output⟩ := (Run.mem_outputs_iff dirStep).mp given
  cases e with
  | drop f => cases output
  | pick g fn fopen removes meanwhile =>
    obtain ⟨rfl, -, -, same⟩ := Pickup.picked_content output.symm
    exact ⟨g, fn', fopen, removes, meanwhile, content, by simp [split], given, same.symm⟩

/-- In every run of the pickup directory whose reports `mrsend` is called with, by agents whose
configurations leave their names: a text handed over is of a file that was picked up, with the
machine and the test that the file's name says and the colour of its first line or green; and they
are read back from it exactly if there is no blank in the test and the colour and `report_size`
leaves room for them. -/
theorem pickups_read_back {files : FileSys} {events : List DirEvent}
    (configured : ∀ g fn fopen removes meanwhile,
      DirEvent.pick g fn fopen removes meanwhile ∈ events → Configured g.mrmachine)
    {teststatus : List TestStatus} {calls : List Call}
    (reports : calls.map callReport = reportsOf (Run.outputs dirStep files events))
    {o : Handover} (handed : some o ∈ Run.outputs mrsend teststatus calls) :
    ∃ g fn fopen removes meanwhile content r,
      DirEvent.pick g fn fopen removes meanwhile ∈ events ∧
      some ⟨fn, content, some r⟩ ∈ Run.outputs dirStep files events ∧ Tells g fn content r ∧
      o.machine = r.machine ∧ o.test = r.test ∧ (o.color = r.color ∨ o.color = green) ∧
      ((∃ message, StatusLine.parse o.text = some ⟨r.machine, r.test, o.color, message⟩) ↔
        ' ' ∉ r.test ∧ ' ' ∉ o.color ∧
          10 + r.machine.length + r.test.length + o.color.length < o.reportSize) := by
  obtain ⟨c, inside, color, either, rfl⟩ := handed_from handed
  have reported : callReport c ∈ reportsOf (Run.outputs dirStep files events) := by
    rw [← reports]
    exact List.mem_map_of_mem inside
  obtain ⟨g, fn, fopen, removes, meanwhile, content, picked, output, made⟩ :=
    mem_reportsOf reported
  have tells := tells_of_report made
  have dotless := tells.dotless (configured g fn fopen removes meanwhile picked).plain.1
  exact ⟨g, fn, fopen, removes, meanwhile, content, callReport c, picked, output, tells, rfl, rfl,
    either, (handover_reads_back_iff c color).trans
      ⟨fun holds => holds.2, fun holds => ⟨dotless, holds⟩⟩⟩

/-! ### Two reports -/

def ownCall : Call := cpuReport 0 0 "red"

def ownHandover : Handover := ownCall.handover "red".toList

theorem ownHandover_handed : some ownHandover ∈ Run.outputs mrsend [] [ownCall] := by decide

theorem runs_read_back_ownCall :
    ∃ c ∈ [ownCall], ∃ color, (color = c.color ∨ color = green) ∧
      ownHandover = c.handover color ∧
      ((∃ message, StatusLine.parse ownHandover.text =
          some ⟨c.machine, c.test, color, message⟩) ↔
        '.' ∉ c.machine ∧ ' ' ∉ c.test ∧ ' ' ∉ color ∧
          headerLength c color < c.reportSize) :=
  runs_read_back ownHandover_handed

theorem localhost_configured : Configured "localhost".toList :=
  ⟨fun _ => false, [], startup, by decide⟩

theorem own_reports_read_back_cpu :
    ∃ message, StatusLine.parse ownHandover.text =
      some ⟨ownHandover.machine, ownHandover.test, ownHandover.color, message⟩ := by
  refine own_reports_read_back ?_ ownHandover_handed
  intro c inside
  obtain rfl := List.mem_singleton.mp inside
  exact ⟨localhost_configured, by decide, by decide, by decide⟩

/-- The first file of the pass. -/
def pickedCall : Call where
  machine := "db1".toList
  test := "backup".toList
  color := "green".toList
  message := "now\n\nall fine\n\n".toList
  now := 0
  mrsleep := 300
  gracetime := []
  reportSize := 16384

theorem pickups_read_back_backup :
    ∃ g fn fopen removes meanwhile content r,
      DirEvent.pick g fn fopen removes meanwhile ∈ Pickup.onePass.take 1 ∧
      some ⟨fn, content, some r⟩ ∈
        Run.outputs dirStep Pickup.twoFiles (Pickup.onePass.take 1) ∧
      Tells g fn content r ∧ "db1".toList = r.machine ∧ "backup".toList = r.test ∧
      (green = r.color ∨ green = green) ∧
      ((∃ message, StatusLine.parse (pickedCall.handover green).text =
          some ⟨r.machine, r.test, green, message⟩) ↔
        ' ' ∉ r.test ∧ ' ' ∉ green ∧
          10 + r.machine.length + r.test.length + green.length < 16384) := by
  have reports : [pickedCall].map callReport =
      reportsOf (Run.outputs dirStep Pickup.twoFiles (Pickup.onePass.take 1)) := by decide
  have handed : some (pickedCall.handover green) ∈ Run.outputs mrsend [] [pickedCall] := by decide
  refine pickups_read_back ?_ reports handed
  intro g fn fopen removes meanwhile inside
  obtain same := List.mem_singleton.mp inside
  cases same
  exact localhost_configured

end MrBig.Guarantees.ReportsReadBack
