import MrBig.Guarantees.Delivery
import MrBig.Guarantees.PageRefresh

/-!
# The display and the status list

`mrsend` keeps a board of what was sent last; a display keeps one of what it has read. The
texts may be lost on their way, or cut off: what the display shows of a page is then old, but
never wrong, and it agrees with the status list as soon as the last text of the page has
arrived. After an outage that takes `mrsleep` seconds at most, since the loop repeats its texts.
-/

set_option autoImplicit false

namespace MrBig.Guarantees.DisplayBoard
open Library Library.Channel Source Abstract ReportsReadBack Delivery PageRefresh

/-! ### What a display shows -/

/-- A text on its way to a display: how far the loop has come, and the display's stream. -/
structure Stream (o : Handover) where
  isInt : o.reportSize ≤ intMax
  startTime : Int
  targets : Targets
  x : Sending
  reached : Sending.Reaches (o.report isInt) startTime (.start (o.report isInt) targets) x
  pipe : Pipe Char
  ofDisplay : pipe ∈ x.pipes

/-- A text that was handed over. There is no stream to the display if it could not be set up. -/
structure Sent where
  o : Handover
  stream : Option (Stream o)

namespace Sent

/-- What the display has read of the text. -/
def received (s : Sent) : Text := s.stream.elim [] fun stream => stream.pipe.delivered

/-- The display has come to the end of the stream, and the loop has not timed out. -/
def Arrived (s : Sent) : Prop :=
  ∃ stream, s.stream = some stream ∧ stream.pipe.AtEnd ∧
    ∀ displays, stream.x.agent ≠ .left .timedOut displays

/-- The page and the colour that the display takes the text for. -/
def heard (s : Sent) : Option (Pair × Text) :=
  (StatusLine.parse s.received).map fun l => ((l.machine, l.test), l.color)

end Sent

/-- The colours that a display shows behind the texts it was sent. -/
def shown (sent : List Sent) : Pair → Option Text := KeyedList.replica Sent.heard sent

def sentPair (s : Sent) : Pair := s.o.pair

def sentColor (s : Sent) : Text := s.o.color

theorem heard_faithful {s : Sent} (plain : (lineOf s.o).Plain)
    (fits : (lineOf s.o).header.length ≤ s.o.reportSize - 1) {p : Pair} {color : Text}
    (heard : s.heard = some (p, color)) : p = sentPair s ∧ color = sentColor s := by
  obtain ⟨l, read, same⟩ := Option.map_eq_some_iff.mp heard
  obtain ⟨rfl, rfl⟩ := Prod.mk.inj same
  obtain ⟨o, stream⟩ := s
  cases stream with
  | none =>
    change StatusLine.parse [] = some l at read
    cases read
  | some stream =>
    obtain ⟨machine, test, color, -⟩ := (read_as_sent plain fits stream.isInt stream.startTime
      stream.targets stream.reached stream.pipe stream.ofDisplay).1 l read
    exact ⟨Prod.ext machine test, color⟩

theorem heard_of_arrived {s : Sent} (plain : (lineOf s.o).Plain)
    (fits : (lineOf s.o).header.length ≤ s.o.reportSize - 1) (arrived : s.Arrived) :
    s.heard = some (sentPair s, sentColor s) := by
  obtain ⟨stream, there, atEnd, inTime⟩ := arrived
  have received : s.received = stream.pipe.delivered := by rw [Sent.received, there]; rfl
  rcases (read_as_sent plain fits stream.isInt stream.startTime stream.targets stream.reached
    stream.pipe stream.ofDisplay).2 atEnd with read | ⟨displays, late⟩
  · rw [Sent.heard, received, read]
    rfl
  · exact absurd late (inTime displays)

section Run

variable {calls : List Call} {sent : List Sent}

theorem plain_of_mem (legible : ∀ c ∈ calls, Legible c)
    (history : sent.map Sent.o = sentTexts calls) {s : Sent} (inside : s ∈ sent) :
    (lineOf s.o).Plain ∧ (lineOf s.o).header.length ≤ s.o.reportSize - 1 := by
  have member : s.o ∈ sentTexts calls := history ▸ List.mem_map_of_mem inside
  exact plain_of_handed legible (List.reduceOption_mem_iff.mp member)

/-- The record of a page is the last text sent for it. -/
theorem board_eq (history : sent.map Sent.o = sentTexts calls) (p : Pair) :
    boardOf (Run.final mrsend [] calls) p =
      (KeyedList.latest sentPair p sent).map fun s => ⟨s.o.color, s.o.time⟩ := by
  have entries := (congrFun (boardOf_run calls) p).trans
    (KeyedList.foldl_update_apply (fun o : Handover => (⟨o.color, o.time⟩ : Entry)) _ p)
  rw [entries, ← history, KeyedList.latest_map, Option.map_map]
  rfl

theorem faithful_of_legible (legible : ∀ c ∈ calls, Legible c)
    (history : sent.map Sent.o = sentTexts calls) :
    ∀ s ∈ sent, ∀ p color, s.heard = some (p, color) → p = sentPair s ∧ color = sentColor s := by
  intro s inside p color heard
  obtain ⟨plain, fits⟩ := plain_of_mem legible history inside
  exact heard_faithful plain fits heard

/-- A display that the last text of a page has reached shows what the status list holds. -/
theorem shown_eq_board (legible : ∀ c ∈ calls, Legible c)
    (history : sent.map Sent.o = sentTexts calls) {p : Pair}
    (arrived : ∀ s ∈ KeyedList.latest sentPair p sent, s.Arrived) :
    shown sent p = (boardOf (Run.final mrsend [] calls) p).map Entry.color := by
  rw [board_eq history, Option.map_map]
  refine KeyedList.replica_of_latest (faithful_of_legible legible history) fun s last => ?_
  obtain ⟨before, after, split, -⟩ := KeyedList.latest_eq_some_iff.mp last
  obtain ⟨plain, fits⟩ := plain_of_mem legible history (s := s) (by simp [split])
  exact heard_of_arrived plain fits (arrived s last)

/-- Whatever texts get lost or are cut off on their way: the colour that a display shows of a
page is that of a text that was sent for it, and none that was sent later has arrived. If the
last one has, the display shows what the status list holds. -/
theorem display_agrees (legible : ∀ c ∈ calls, Legible c)
    (history : sent.map Sent.o = sentTexts calls) (p : Pair) :
    (∀ color, shown sent p = some color →
      ∃ before s after, sent = before ++ s :: after ∧ s.o.pair = p ∧ s.o.color = color ∧
        ∀ later ∈ after, later.o.pair = p → ¬ later.Arrived) ∧
    ((∀ s ∈ KeyedList.latest sentPair p sent, s.Arrived) →
      shown sent p = (boardOf (Run.final mrsend [] calls) p).map Entry.color) := by
  refine ⟨fun color shows => ?_, shown_eq_board legible history⟩
  obtain ⟨before, s, after, split, pair, same, silent⟩ :=
    KeyedList.exists_of_replica (faithful_of_legible legible history) shows
  refine ⟨before, s, after, split, pair, same, fun later inside mine arrived => ?_⟩
  obtain ⟨plain, fits⟩ := plain_of_mem legible history (s := later) (by simp [split, inside])
  have heard := heard_of_arrived plain fits arrived
  rw [silent later inside mine] at heard
  cases heard

end Run

/-! ### After an outage -/

theorem getLast?_handedTimes (p : Pair) (calls : List Call) :
    (handedTimes p (Run.outputs mrsend [] calls)).getLast? =
      (KeyedList.latest Handover.pair p (sentTexts calls)).map Handover.time := by
  induction calls using List.reverseRecOn with
  | nil => rfl
  | append_singleton calls c ih =>
    rw [handedTimes] at ih
    rw [handedTimes, Run.outputs_concat, List.filterMap_append, sentTexts_concat]
    cases (mrsend (Run.final mrsend [] calls) c).2 with
    | none => simpa using ih
    | some o =>
      rw [Option.toList_some, KeyedList.latest_concat]
      by_cases mine : o.pair = p
      · simp [mine]
      · simpa [mine] using ih

/-- The record of a page behind its last report: the colour of the report, or green while the
grace period of the test is running. -/
theorem record_of_last {p : Pair} {calls : List Call} {c : Call}
    (last : c ∈ (callsOf p calls).getLast?) :
    ∃ s, KeyedList.find TestStatus.pair p (Run.final mrsend [] calls) = some s ∧
      (s.color = c.color ∨ s.color = green ∧ c.now < s.grace) := by
  induction calls using List.reverseRecOn with
  | nil => cases last
  | append_singleton calls newest ih =>
    rw [callsOf_concat] at last
    rw [Run.final_concat, mrsend_teststatus]
    by_cases mine : newest.pair = p
    · obtain rfl : newest = c := by simpa [mine] using last
      subst mine
      refine ⟨_, find_insertStatus_self _ newest, ?_⟩
      generalize KeyedList.find TestStatus.pair newest.pair (Run.final mrsend [] calls) = r
      cases r with
      | none => exact Or.inl rfl
      | some s =>
        have exit := updateStatus_exit s newest
        change (updateStatus s newest).1.color = _ ∨ _
        rw [show (trackStatus newest (some s)).1 = (updateStatus s newest).1 from rfl]
        generalize updateStatus s newest = result at exit ⊢
        cases exit with
        | unchanged repeats => exact Or.inl repeats.1.symm
        | reset => exact Or.inl rfl
        | expired => exact Or.inl rfl
        | held alarm running => exact Or.inr ⟨alarm.1, running⟩
    · rw [find_insertStatus_other _ newest (Ne.symm mine)]
      exact ih (by simpa [mine] using last)

/-- In every run of the main loop in which a page is reported in each pass, with whatever losses
before some time: at every report that is `mrsleep` seconds after it, the display shows the
colour of the report, or green while the grace period of the test is running. -/
theorem display_recovers {p : Pair} {length late mrsleep : Int} (positive : 0 < mrsleep)
    {passes : List Pass} (reports : ∀ pass ∈ passes, Reports p length pass)
    (sleeps : ∀ pass ∈ passes, pass.mrsleep ≤ mrsleep)
    (follow : passes.IsChain (Follows late))
    (legible : ∀ c ∈ passes.flatMap Pass.calls, Legible c) {sent : List Sent}
    (history : sent.map Sent.o = sentTexts (passes.flatMap Pass.calls)) {back : Int}
    (up : ∀ s ∈ sent, s.o.pair = p → back ≤ s.o.time → s.Arrived) {c : Call}
    (last : c ∈ (callsOf p (passes.flatMap Pass.calls)).getLast?)
    (settled : back + mrsleep ≤ c.now) :
    ∃ s, KeyedList.find TestStatus.pair p (Run.final mrsend [] (passes.flatMap Pass.calls)) =
        some s ∧
      shown sent p = some s.color ∧ (s.color = c.color ∨ s.color = green ∧ c.now < s.grace) := by
  obtain ⟨s, record, color⟩ := record_of_last last
  refine ⟨s, record, ?_, color⟩
  have board : boardOf (Run.final mrsend [] (passes.flatMap Pass.calls)) p =
      some (statusEntry s) := by rw [boardOf, record]; rfl
  have unseen : KeyedList.find TestStatus.pair p [] = none := rfl
  have refreshes := (refreshed positive (sleeps_of_passes reports sleeps)
    (steady_passes reports sleeps follow) unseen).2.2
  have arrived : ∀ entry ∈ KeyedList.latest sentPair p sent, entry.Arrived := by
    intro entry newest
    obtain ⟨before, after, split, mine, -⟩ := KeyedList.latest_eq_some_iff.mp newest
    have handed : entry.o.time ∈
        (handedTimes p (Run.outputs mrsend [] (passes.flatMap Pass.calls))).getLast? := by
      rw [getLast?_handedTimes, ← history, KeyedList.latest_map]
      change ((KeyedList.latest sentPair p sent).map Sent.o).map Handover.time = _
      rw [newest]
      rfl
    have reported : c.now ∈ (reportTimes p (passes.flatMap Pass.calls)).getLast? := by
      rw [reportTimes, List.getLast?_map, last]
      rfl
    have recent := refreshes c.now reported entry.o.time handed
    exact up entry (by simp [split]) mine (by omega)
  rw [shown_eq_board legible history arrived, board]
  rfl

/-! ### A text that is lost, and the next one -/

def firstReport : Handover := (cpuReport 0 1 "green").handover green

def nextReport : Handover := (cpuReport 0 302 "green").handover green

def nextMessage : Message := nextReport.report (by decide)

/-- The loop has sent all of the text and is left. -/
def sentOff : Sending :=
  (List.replicate 4 ⟨0, 0, .taken 1000⟩).foldl (sendOn nextMessage) (.start nextMessage oneDisplay)

/-- The agent has closed the stream, and the display has read it. -/
def wholeWay : Sending where
  agent := .left .nothingRemains (cleanupAll (fun _ _ => true) sentOff.agent.displays)
  pipes := (carryAll sentOff.agent.displays
    (cleanupAll (fun _ _ => true) sentOff.agent.displays) sentOff.pipes).modify 0 (·.read 1000)

theorem wholeWay_reached :
    Sending.Reaches nextMessage 0 (.start nextMessage oneDisplay) wholeWay := by
  have sends : Sending.Reaches nextMessage 0 (.start nextMessage oneDisplay) sentOff :=
    .tail (.tail (.tail (.single (.send _ _)) (.send _ _)) (.send _ _)) (.send _ _)
  have left : sentOff.agent = .left .nothingRemains sentOff.agent.displays := by decide +kernel
  exact (sends.tail (.cleanup _ _ _ (fun _ _ => true) left nofun)).tail (.read _ 0 1000)

def wholeStream : Stream nextReport where
  isInt := by decide
  startTime := 0
  targets := oneDisplay
  x := wholeWay
  reached := wholeWay_reached
  pipe := ⟨nextReport.text, [], true⟩
  ofDisplay := by decide +kernel

/-- The display was down for the first text. -/
def outage : List Sent := [⟨firstReport, none⟩, ⟨nextReport, some wholeStream⟩]

theorem nextReport_arrived : (⟨nextReport, some wholeStream⟩ : Sent).Arrived :=
  ⟨wholeStream, rfl, ⟨rfl, rfl⟩, nofun⟩

theorem cpuReport_legible : ∀ c ∈ [firstPass, secondPass].flatMap Pass.calls, Legible c := by
  intro c inside
  refine OwnReport.legible ?_
  rcases List.mem_cons.mp inside with rfl | inside
  · exact ⟨localhost_configured, by decide, by decide, by decide⟩
  · obtain rfl := List.mem_singleton.mp inside
    exact ⟨localhost_configured, by decide, by decide, by decide⟩

theorem outage_history :
    outage.map Sent.o = sentTexts ([firstPass, secondPass].flatMap Pass.calls) := by decide

theorem display_agrees_outage :
    shown outage cpuPage =
      (boardOf (Run.final mrsend [] ([firstPass, secondPass].flatMap Pass.calls)) cpuPage).map
        Entry.color := by
  refine (display_agrees cpuReport_legible outage_history cpuPage).2 fun s last => ?_
  obtain rfl : ⟨nextReport, some wholeStream⟩ = s := Option.some.inj last
  exact nextReport_arrived

theorem display_recovers_outage :
    ∃ s, KeyedList.find TestStatus.pair cpuPage
        (Run.final mrsend [] ([firstPass, secondPass].flatMap Pass.calls)) = some s ∧
      shown outage cpuPage = some s.color ∧
      (s.color = green ∨ s.color = green ∧ 302 < s.grace) := by
  have positive : (0 : Int) < 300 := by decide
  have last : cpuReport 0 302 "green" ∈
      (callsOf cpuPage ([firstPass, secondPass].flatMap Pass.calls)).getLast? := by decide
  have up : ∀ s ∈ outage, s.o.pair = cpuPage → 2 ≤ s.o.time → s.Arrived := by
    intro s inside mine late
    rcases List.mem_cons.mp inside with rfl | inside
    · exact absurd late (by decide)
    · obtain rfl := List.mem_singleton.mp inside
      exact nextReport_arrived
  exact display_recovers positive two_reported (by decide) secondPass_follows cpuReport_legible
    outage_history up last (by decide)

end MrBig.Guarantees.DisplayBoard
