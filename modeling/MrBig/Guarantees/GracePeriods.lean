import MrBig.Source.Status

/-!
# Grace periods over whole runs

A non-green report of a green record sets a deadline, `lookup_grace` seconds ahead,
and is held until the deadline is over. Two exits of `insert_status` spoil this.

* A green report within `mrsleep` seconds is silent and leaves a running deadline in
  the record, so the next alarm is measured from the report that set it. Without such
  a report every alarm that fires had its grace period (`alarm_had_grace_period`).
* The deadline is an absolute time and no alarm path looks for a clock that went
  back. A hold exceeds the grace time exactly when the clock reads less than it did at
  the call that set the running deadline (`hold_bounded_iff`).
-/

set_option autoImplicit false

namespace MrBig.Guarantees.GracePeriods
open Library Source

/-- The calls of a run share one gracetime table. -/
def OneGraceTable (gracetime : List GraceTime) (calls : List Call) : Prop :=
  ∀ c ∈ calls, c.gracetime = gracetime

instance (gracetime : List GraceTime) (calls : List Call) :
    Decidable (OneGraceTable gracetime calls) :=
  inferInstanceAs (Decidable (∀ c ∈ calls, _))

/-! ### Alarms that fire -/

/-- The reports of a pair end in an unbroken run of non-green ones that starts with
`first`. -/
def NonGreenSince (first : Call) (reports : List Call) : Prop :=
  ∃ earlier later, reports = earlier ++ first :: later ∧ ∀ r ∈ first :: later, r.color ≠ green

theorem NonGreenSince.concat {first c : Call} {reports : List Call}
    (since : NonGreenSince first reports) (bad : c.color ≠ green) :
    NonGreenSince first (reports ++ [c]) := by
  obtain ⟨earlier, later, rfl, all⟩ := since
  refine ⟨earlier, later ++ [c], by simp, fun r member => ?_⟩
  rcases List.mem_append.mp (by simpa using member : r ∈ (first :: later) ++ [c]) with old | new
  · exact all r old
  · rw [List.mem_singleton.mp new]
    exact bad

theorem NonGreenSince.single {c : Call} (reports : List Call) (bad : c.color ≠ green) :
    NonGreenSince c (reports ++ [c]) :=
  ⟨reports, [], rfl, by simpa using bad⟩

/-- Right after a green report the run starts afresh. -/
theorem NonGreenSince.after_green {first c : Call} (reports : List Call) (g : Call)
    (since : NonGreenSince first (reports ++ [g] ++ [c])) (isGreen : g.color = green) :
    first = c := by
  obtain ⟨earlier, later, split, bad⟩ := since
  rcases List.eq_nil_or_concat later with rfl | ⟨middle, last, rfl⟩
  · exact (List.cons.inj (List.append_inj' split rfl).2).1.symm
  · have shape : reports ++ [g] ++ [c] = (earlier ++ first :: middle) ++ [last] := by
      simpa using split
    have upTo : reports ++ [g] = earlier ++ first :: middle := (List.append_inj' shape rfl).1
    have gLast : (first :: middle).getLast? = some g := by
      have ends := congrArg List.getLast? upTo
      rw [List.getLast?_append, List.getLast?_append_of_ne_nil _ (by simp)] at ends
      simpa using ends.symm
    have member : g ∈ first :: (middle ++ [last]) := by
      have inMiddle := List.mem_of_getLast? gLast
      rw [← List.cons_append]
      exact List.mem_append_left _ inMiddle
    exact absurd isGreen (bad g (by simpa using member))

/-- If the call makes `insert_status` return 2 with an alarm, the pair has not been
reported green for its grace time. -/
def HadGracePeriod (calls : List Call) (teststatus : List TestStatus) (c : Call) : Prop :=
  ∀ s ∈ KeyedList.find TestStatus.pair c.pair teststatus,
    s.color = green → (insertStatus teststatus c).2 = 2 → c.color ≠ green →
    ∃ first, NonGreenSince first (callsOf c.pair (calls ++ [c])) ∧ c.grace ≤ c.now - first.now

/-- The call is not a silent green report that leaves a running deadline behind. -/
def StopsGraceClock (teststatus : List TestStatus) (c : Call) : Prop :=
  ∀ s ∈ KeyedList.find TestStatus.pair c.pair teststatus,
    ¬ (s.grace ≠ 0 ∧ c.color = green ∧ Unchanged s c)

instance (teststatus : List TestStatus) (c : Call) : Decidable (StopsGraceClock teststatus c) :=
  inferInstanceAs (Decidable (∀ s ∈ KeyedList.find TestStatus.pair c.pair teststatus, _))

/-- A deadline in a green record was set by a non-green report, and the pair has been
reported non-green ever since. -/
def DeadlineMatchesReports (gracetime : List GraceTime) (calls : List Call)
    (teststatus : List TestStatus) : Prop :=
  ∀ p, ∀ s ∈ KeyedList.find TestStatus.pair p teststatus, s.color = green → s.grace ≠ 0 →
    ∃ first, NonGreenSince first (callsOf p calls) ∧
      s.grace = first.now + lookupGrace gracetime p.2

/-- The start of the grace period an alarm is measured by. -/
theorem alarm_start {gracetime : List GraceTime} {calls : List Call}
    {teststatus : List TestStatus} {c : Call} {s : TestStatus}
    (matching : DeadlineMatchesReports gracetime calls teststatus)
    (table : c.gracetime = gracetime)
    (found : KeyedList.find TestStatus.pair c.pair teststatus = some s) (alarm : Alarms s c) :
    ∃ first, NonGreenSince first (callsOf c.pair (calls ++ [c])) ∧
      graceDeadline s c = first.now + c.grace := by
  rw [callsOf_concat, if_pos rfl]
  unfold graceDeadline
  by_cases unset : s.grace = 0
  · rw [if_pos unset]
    exact ⟨c, .single _ alarm.2, rfl⟩
  · obtain ⟨first, since, deadline⟩ := matching c.pair s found alarm.1 unset
    rw [if_neg unset]
    refine ⟨first, since.concat alarm.2, ?_⟩
    rw [deadline, ← table]
    rfl

theorem deadlineMatchesReports_step {gracetime : List GraceTime} {calls : List Call}
    {teststatus : List TestStatus} {c : Call}
    (matching : DeadlineMatchesReports gracetime calls teststatus)
    (table : c.gracetime = gracetime) (stops : StopsGraceClock teststatus c) :
    DeadlineMatchesReports gracetime (calls ++ [c]) (insertStatus teststatus c).1 := by
  intro p s found wasGreen set
  by_cases own : p = c.pair
  · subst own
    rw [find_insertStatus_self] at found
    obtain rfl : _ = s := Option.some.inj found
    cases before : KeyedList.find TestStatus.pair c.pair teststatus with
    | none => simp [before, trackStatus, newStatus] at set
    | some r =>
      simp only [before, trackStatus] at wasGreen set ⊢
      have exit := updateStatus_exit r c
      generalize updateStatus r c = result at exit wasGreen set ⊢
      cases exit with
      | unchanged repeats =>
        have green : c.color = green := repeats.1.trans wasGreen
        exact absurd ⟨set, green, repeats⟩ (stops r before)
      | reset due calm => exact absurd rfl set
      | expired alarm past => exact absurd wasGreen alarm.2
      | held alarm running =>
        obtain ⟨first, since, deadline⟩ := alarm_start matching table before alarm
        exact ⟨first, since, by rw [deadline, ← table]; rfl⟩
  · rw [find_insertStatus_other teststatus c own] at found
    obtain ⟨first, since, deadline⟩ := matching p s found wasGreen set
    exact ⟨first, by rw [callsOf_concat, if_neg (Ne.symm own), List.append_nil]; exact since,
      deadline⟩

theorem hadGracePeriod_of_match {gracetime : List GraceTime} {calls : List Call}
    {teststatus : List TestStatus} {c : Call}
    (matching : DeadlineMatchesReports gracetime calls teststatus)
    (table : c.gracetime = gracetime) : HadGracePeriod calls teststatus c := by
  intro s found wasGreen fires bad
  have alarm : Alarms s c := ⟨wasGreen, bad⟩
  rw [insertStatus_verdict, found, trackStatus] at fires
  obtain ⟨first, since, deadline⟩ := alarm_start matching table found alarm
  refine ⟨first, since, ?_⟩
  have exit := updateStatus_exit s c
  generalize updateStatus s c = result at exit fires
  cases exit with
  | unchanged repeats => exact absurd repeats alarm.not_unchanged
  | reset due calm => exact absurd alarm calm
  | expired alarm past => omega
  | held alarm running => simp at fires

/-- A silent green report leaves the deadline of the first red one in force: the red
report at 120 fires at once, although the pair was green at 20. -/
theorem silent_green_keeps_deadline :
    ¬ ∀ (gracetime : List GraceTime) (calls : List Call), OneGraceTable gracetime calls →
      calls.Pairwise (fun earlier later => earlier.now ≤ later.now) →
      Run.Throughout mrsend HadGracePeriod [] calls := by
  intro always
  have had := always [⟨"cpu".toList, 100⟩]
    [cpuReport 100 0 "green", cpuReport 100 10 "red", cpuReport 100 20 "green",
      cpuReport 100 120 "red"]
    (by decide) (by decide)
    [cpuReport 100 0 "green", cpuReport 100 10 "red", cpuReport 100 20 "green"]
    (cpuReport 100 120 "red") [] rfl
  obtain ⟨first, since, aged⟩ := had
    { newStatus (cpuReport 100 20 "green") with last := 10, grace := 110 }
    (by decide) rfl (by decide) (by decide)
  have first_is_last : first = cpuReport 100 120 "red" :=
    NonGreenSince.after_green [cpuReport 100 0 "green", cpuReport 100 10 "red"]
      (cpuReport 100 20 "green") since rfl
  subst first_is_last
  exact absurd aged (by decide)

/-- In a run of `mrsend` calls over one gracetime table, if no silent green report
leaves a running deadline behind, then every alarm that fires had its grace period. -/
theorem alarm_had_grace_period (gracetime : List GraceTime) (calls : List Call)
    (table : OneGraceTable gracetime calls)
    (stops : Run.Throughout mrsend (fun _ teststatus c => StopsGraceClock teststatus c) [] calls) :
    Run.Throughout mrsend HadGracePeriod [] calls := by
  have meets := stops.and
    (Run.throughout_of_forall (fun c : Call => c.gracetime = gracetime) table)
  refine meets.of_invariant (DeadlineMatchesReports gracetime) ?_ ?_ ?_
  · intro p s found
    simp at found
  · intro before c matching meets
    obtain ⟨stop, same⟩ := meets
    rw [mrsend_teststatus]
    exact deadlineMatchesReports_step matching same stop
  · intro before c matching meets
    exact hadGracePeriod_of_match matching meets.2

theorem alarm_had_grace_period_cpu :
    Run.Throughout mrsend HadGracePeriod []
      [cpuReport 100 0 "green", cpuReport 100 10 "red", cpuReport 100 110 "red"] :=
  alarm_had_grace_period [⟨"cpu".toList, 100⟩] _ (by decide) (by decide)

/-! ### Alarms that are held -/

/-- If the call returns 1, what is left of the hold is at most the grace time. -/
def HoldBounded (teststatus : List TestStatus) (c : Call) : Prop :=
  (insertStatus teststatus c).2 = 1 →
    ∃ s, s ∈ KeyedList.find TestStatus.pair c.pair (insertStatus teststatus c).1 ∧
      s.grace - c.now ≤ c.grace

instance (teststatus : List TestStatus) (c : Call) : Decidable (HoldBounded teststatus c) :=
  inferInstanceAs (Decidable (_ → ∃ s, s ∈ KeyedList.find TestStatus.pair c.pair
    (insertStatus teststatus c).1 ∧ _))

/-- Observer: the clock reading of the pair's last call that found no deadline in its
record. A deadline that is in the record later was set by that call. -/
def watchGraceStart (p : Pair) (teststatus : List TestStatus) (start : Option Int) (c : Call) :
    Option Int :=
  if c.pair = p then
    match KeyedList.find TestStatus.pair p teststatus with
    | none => start
    | some s => if s.grace = 0 then some c.now else start
  else start

def graceStart (p : Pair) (calls : List Call) : Option Int :=
  (Run.final (Run.observe insertStatus (watchGraceStart p)) ([], none) calls).2

theorem graceStart_concat (p : Pair) (calls : List Call) (c : Call) :
    graceStart p (calls ++ [c]) =
      watchGraceStart p (Run.final insertStatus [] calls) (graceStart p calls) c := by
  simp only [graceStart, Run.final_concat, Run.observe, Run.final_observe_fst]

/-- An alarm meets a running deadline, and the clock reads less than it did when that
deadline was set. -/
def ClockBehindStart (calls : List Call) (teststatus : List TestStatus) (c : Call) : Prop :=
  ∃ s, s ∈ KeyedList.find TestStatus.pair c.pair teststatus ∧ Alarms s c ∧ s.grace ≠ 0 ∧
    ∃ start, start ∈ graceStart c.pair calls ∧ c.now < start

instance (calls : List Call) (teststatus : List TestStatus) (c : Call) :
    Decidable (ClockBehindStart calls teststatus c) :=
  inferInstanceAs (Decidable (∃ s, s ∈ KeyedList.find TestStatus.pair c.pair teststatus ∧ _))

/-- A deadline in a green record lies a positive grace time behind its start. -/
def DeadlineMatchesStart (gracetime : List GraceTime) (calls : List Call)
    (teststatus : List TestStatus) : Prop :=
  ∀ p, ∀ s ∈ KeyedList.find TestStatus.pair p teststatus, s.color = green → s.grace ≠ 0 →
    ∃ start, graceStart p calls = some start ∧ 0 < lookupGrace gracetime p.2 ∧
      s.grace = start + lookupGrace gracetime p.2

theorem deadlineMatchesStart_step {gracetime : List GraceTime} {calls : List Call} {c : Call}
    (matching : DeadlineMatchesStart gracetime calls (Run.final insertStatus [] calls))
    (table : c.gracetime = gracetime) :
    DeadlineMatchesStart gracetime (calls ++ [c])
      (insertStatus (Run.final insertStatus [] calls) c).1 := by
  intro p s found wasGreen set
  rw [graceStart_concat, watchGraceStart]
  by_cases own : p = c.pair
  · subst own
    rw [find_insertStatus_self] at found
    obtain rfl : _ = s := Option.some.inj found
    cases before : KeyedList.find TestStatus.pair c.pair (Run.final insertStatus [] calls) with
    | none => simp [before, trackStatus, newStatus] at set
    | some r =>
      simp only [before, trackStatus] at wasGreen set ⊢
      have exit := updateStatus_exit r c
      generalize updateStatus r c = result at exit wasGreen set ⊢
      cases exit with
      | unchanged repeats =>
        simp only [if_true, if_neg set]
        exact matching c.pair r before wasGreen set
      | reset due calm => exact absurd rfl set
      | expired alarm past => exact absurd wasGreen alarm.2
      | held alarm running =>
        by_cases unset : r.grace = 0
        · simp only [graceDeadline, if_pos unset, if_true] at running ⊢
          subst table
          refine ⟨c.now, rfl, ?_, rfl⟩
          have ahead : 0 < c.grace := by omega
          exact ahead
        · simp only [graceDeadline, if_neg unset, if_true]
          exact matching c.pair r before alarm.1 unset
  · rw [find_insertStatus_other _ c own] at found
    rw [if_neg (Ne.symm own)]
    exact matching p s found wasGreen set

/-- At one call: the hold is bounded unless the clock is behind the start. -/
theorem holdBounded_iff_of_match {gracetime : List GraceTime} {calls : List Call}
    {teststatus : List TestStatus} {c : Call}
    (matching : DeadlineMatchesStart gracetime calls teststatus)
    (table : c.gracetime = gracetime) :
    HoldBounded teststatus c ↔ ¬ ClockBehindStart calls teststatus c := by
  unfold HoldBounded ClockBehindStart
  rw [insertStatus_verdict, find_insertStatus_self]
  cases found : KeyedList.find TestStatus.pair c.pair teststatus with
  | none => simp [trackStatus]
  | some s =>
    simp only [trackStatus, Option.mem_some, exists_eq_left', not_and, not_exists, Int.not_lt]
    -- a running deadline, seen from the clock reading at which it was set
    have running_start : Alarms s c → s.grace ≠ 0 → ∀ start ∈ graceStart c.pair calls,
        s.grace = start + c.grace ∧ 0 < c.grace := by
      intro alarm set start started
      obtain ⟨begun, same, ahead, deadline⟩ := matching c.pair s found alarm.1 set
      obtain rfl : begun = start := Option.some.inj (same.symm.trans started)
      rw [← table] at ahead deadline
      exact ⟨deadline, ahead⟩
    have exit := updateStatus_exit s c
    generalize updateStatus s c = result at exit ⊢
    cases exit with
    | unchanged repeats =>
      exact ⟨fun _ alarm => absurd repeats alarm.not_unchanged, fun _ is => by simp at is⟩
    | reset due calm => exact ⟨fun _ alarm => absurd alarm calm, fun _ is => by simp at is⟩
    | expired alarm past =>
      refine ⟨fun _ _ set start started => ?_, fun _ is => by simp at is⟩
      obtain ⟨deadline, ahead⟩ := running_start alarm set start started
      rw [graceDeadline, if_neg set] at past
      omega
    | held alarm running =>
      constructor
      · intro bounded _ set start started
        obtain ⟨deadline, ahead⟩ := running_start alarm set start started
        have left : graceDeadline s c - c.now ≤ c.grace := bounded rfl
        rw [graceDeadline, if_neg set] at left
        omega
      · intro inTime _
        by_cases unset : s.grace = 0
        · simp only [graceDeadline, if_pos unset]
          omega
        · obtain ⟨start, started, -, -⟩ := matching c.pair s found alarm.1 unset
          obtain ⟨deadline, ahead⟩ := running_start alarm unset start started
          have reached := inTime alarm unset start started
          simp only [graceDeadline, if_neg unset]
          omega

/-- The clock goes back by 1000 seconds during a hold of 100 seconds: the next red
report is held for another 1100. -/
theorem clock_set_back_prolongs_hold :
    ¬ ∀ (gracetime : List GraceTime) (calls : List Call), OneGraceTable gracetime calls →
      Run.Throughout insertStatus (fun _ teststatus c => HoldBounded teststatus c) [] calls := by
  intro always
  have bounded := always [⟨"cpu".toList, 100⟩]
    [cpuReport 100 0 "green", cpuReport 100 1000 "red", cpuReport 100 0 "red"] (by decide)
  revert bounded
  decide

/-- In every run over one gracetime table all holds are bounded by the grace time if
and only if no alarm that meets a running deadline reads the clock behind the reading
at which the deadline was set. -/
theorem hold_bounded_iff (gracetime : List GraceTime) (calls : List Call)
    (table : OneGraceTable gracetime calls) :
    Run.Throughout insertStatus (fun _ teststatus c => HoldBounded teststatus c) [] calls ↔
      Run.Throughout insertStatus (fun before teststatus c =>
        ¬ ClockBehindStart before teststatus c) [] calls := by
  have tables : Run.Throughout insertStatus (fun _ _ c => c.gracetime = gracetime) [] calls :=
    Run.throughout_of_forall _ table
  have initial : DeadlineMatchesStart gracetime [] [] := by
    intro p s found
    simp at found
  constructor
  · intro bounded
    refine (bounded.and tables).of_invariant (DeadlineMatchesStart gracetime)
      initial (fun before c matching step => deadlineMatchesStart_step matching step.2) ?_
    exact fun before c matching step => (holdBounded_iff_of_match matching step.2).mp step.1
  · intro inTime
    refine (inTime.and tables).of_invariant (DeadlineMatchesStart gracetime)
      initial (fun before c matching step => deadlineMatchesStart_step matching step.2) ?_
    exact fun before c matching step => (holdBounded_iff_of_match matching step.2).mpr step.1

theorem hold_bounded_iff_cpu :
    Run.Throughout insertStatus (fun _ teststatus c => HoldBounded teststatus c) []
        [cpuReport 100 0 "green", cpuReport 100 1000 "red", cpuReport 100 1001 "red"] ↔
      Run.Throughout insertStatus (fun before teststatus c =>
        ¬ ClockBehindStart before teststatus c) []
        [cpuReport 100 0 "green", cpuReport 100 1000 "red", cpuReport 100 1001 "red"] :=
  hold_bounded_iff [⟨"cpu".toList, 100⟩] _ (by decide)

end MrBig.Guarantees.GracePeriods
