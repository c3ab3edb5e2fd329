import Mathlib.Data.List.Chain
import Mathlib.Tactic.Ring
import MrBig.Abstract.StatusBoard
import MrBig.Source.MainLoop

/-!
# No page turns purple

A display turns a page purple that it has not heard of for some time. The loop runs at least
every `mrsleep` seconds, and `mrsend` stays silent only within `mrsleep` seconds of what it
handed over last: both together bound the time between two texts of a page.
-/

set_option autoImplicit false

namespace MrBig.Guarantees.PageRefresh
open Library Source Abstract

/-! ### The texts of one page -/

/-- The times at which a page was handed over. -/
def handedTimes (p : Pair) (outputs : List (Option Handover)) : List Int :=
  outputs.filterMap fun output =>
    output.bind fun o => if o.pair = p then some o.time else none

/-- The times at which a page was reported. -/
def reportTimes (p : Pair) (calls : List Call) : List Int := (callsOf p calls).map Call.now

/-- The clock does not go back, and two readings are at most `gap` apart. -/
def Steady (gap : Int) (times : List Int) : Prop :=
  times.IsChain fun first second => first ≤ second ∧ second - first ≤ gap

/-- Two neighbours are less than `bound` apart. -/
def Within (bound : Int) (times : List Int) : Prop :=
  times.IsChain fun first second => second - first < bound

theorem callsOf_cons_self {c : Call} {p : Pair} (mine : c.pair = p) (rest : List Call) :
    callsOf p (c :: rest) = c :: callsOf p rest := by
  simp [callsOf, mine]

theorem callsOf_cons_other {c : Call} {p : Pair} (other : c.pair ≠ p) (rest : List Call) :
    callsOf p (c :: rest) = callsOf p rest := by
  simp [callsOf, other]

/-- A call of another page changes nothing of this one. -/
theorem other_page (teststatus : List TestStatus) {c : Call} {p : Pair} (other : c.pair ≠ p) :
    KeyedList.find TestStatus.pair p (mrsend teststatus c).1 =
        KeyedList.find TestStatus.pair p teststatus ∧
      ∀ o, (mrsend teststatus c).2 = some o → o.pair ≠ p := by
  refine ⟨?_, fun o output => ?_⟩
  · rw [mrsend_teststatus]
    exact find_insertStatus_other teststatus c (Ne.symm other)
  · rw [mrsend_output] at output
    split at output
    · cases output
    · rw [← Option.some.inj output]
      exact other

/-- A call of the page is silent within `mrsleep` of the last text, or hands one over. -/
theorem own_page {teststatus : List TestStatus} {c : Call} {p : Pair} (mine : c.pair = p) :
    (∃ s, KeyedList.find TestStatus.pair p teststatus = some s ∧ Unchanged s c ∧
      (mrsend teststatus c).2 = none ∧
      KeyedList.find TestStatus.pair p (mrsend teststatus c).1 = some s) ∨
    ((∃ o, (mrsend teststatus c).2 = some o ∧ o.pair = p ∧ o.time = c.now) ∧
      ∃ s, KeyedList.find TestStatus.pair p (mrsend teststatus c).1 = some s ∧
        s.last = c.now) := by
  subst mine
  have verdict := insertStatus_verdict teststatus c
  have record := find_insertStatus_self teststatus c
  rw [← mrsend_teststatus] at record
  have output := mrsend_output teststatus c
  rcases trackStatus_entry c (KeyedList.find TestStatus.pair c.pair teststatus) with
    ⟨s, found, repeats, tracked⟩ | ⟨-, due, entry⟩
  · left
    rw [tracked] at verdict record
    rw [if_pos verdict] at output
    exact ⟨s, found, repeats, output, record⟩
  · right
    rw [if_neg (by rwa [verdict])] at output
    refine ⟨⟨_, output, rfl, rfl⟩, _, record, ?_⟩
    exact congrArg Entry.time entry

/-- From a text at `last` on, with a report at `seen` less than `bound` behind it. -/
theorem refreshed_from {gap bound : Int} {p : Pair} {calls : List Call}
    (sleeps : ∀ c ∈ callsOf p calls, c.mrsleep ≤ bound) {teststatus : List TestStatus}
    {s : TestStatus} (found : KeyedList.find TestStatus.pair p teststatus = some s) {seen : Int}
    (recent : seen - s.last < bound) (positive : 0 < bound)
    (steady : Steady gap (seen :: reportTimes p calls)) :
    Within (bound + gap) (s.last :: handedTimes p (Run.outputs mrsend teststatus calls)) ∧
      ∀ x ∈ (seen :: reportTimes p calls).getLast?,
        ∀ h ∈ (s.last :: handedTimes p (Run.outputs mrsend teststatus calls)).getLast?,
          x - h < bound := by
  induction calls generalizing teststatus s seen with
  | nil =>
    refine ⟨.singleton _, ?_⟩
    simpa [reportTimes, callsOf, handedTimes, Run.outputs] using recent
  | cons c rest ih =>
    by_cases mine : c.pair = p
    · have here : c.mrsleep ≤ bound := sleeps c (by simp [callsOf_cons_self mine])
      have later : ∀ c ∈ callsOf p rest, c.mrsleep ≤ bound := fun c' inside =>
        sleeps c' (by simp [callsOf_cons_self mine, inside])
      have times : reportTimes p (c :: rest) = c.now :: reportTimes p rest := by
        rw [reportTimes, callsOf_cons_self mine]
        rfl
      rw [times] at steady ⊢
      obtain ⟨⟨forward, close⟩, steadyRest⟩ := List.isChain_cons_cons.mp steady
      rw [List.getLast?_cons_cons, Run.outputs_cons]
      rcases own_page mine with ⟨s', found', repeats, silent, kept⟩ | ⟨⟨o, output, pair, time⟩, s',
        record, last⟩
      · obtain rfl : s = s' := Option.some.inj (found.symm.trans found')
        have still : c.now - s.last < bound := Int.lt_of_lt_of_le repeats.2.2 here
        rw [silent]
        exact ih later kept still steadyRest
      · have first : handedTimes p (some o :: Run.outputs mrsend (mrsend teststatus c).1 rest) =
            c.now :: handedTimes p (Run.outputs mrsend (mrsend teststatus c).1 rest) := by
          simp [handedTimes, pair, time]
        have now : c.now - s'.last < bound := by omega
        obtain ⟨within, final⟩ := ih later record now steadyRest
        rw [output, first, ← last]
        refine ⟨List.isChain_cons_cons.mpr ⟨by omega, within⟩, ?_⟩
        rw [List.getLast?_cons_cons, last]
        rw [last] at final
        exact final
    · obtain ⟨kept, silent⟩ := other_page teststatus mine
      have times : reportTimes p (c :: rest) = reportTimes p rest := by
        rw [reportTimes, callsOf_cons_other mine]
        rfl
      have nothing : handedTimes p (Run.outputs mrsend teststatus (c :: rest)) =
          handedTimes p (Run.outputs mrsend (mrsend teststatus c).1 rest) := by
        rw [Run.outputs_cons]
        cases output : (mrsend teststatus c).2 with
        | none => rfl
        | some o => simp [handedTimes, silent o output]
      rw [times] at steady ⊢
      rw [nothing]
      rw [callsOf_cons_other mine] at sleeps
      exact ih sleeps (kept.trans found) recent steady

/-- A page that is reported at times that are steady: the first report is handed over, two texts
are less than `bound + gap` apart, and no report finds the last text `bound` old. -/
theorem refreshed {gap bound : Int} {p : Pair} {calls : List Call} (positive : 0 < bound)
    (sleeps : ∀ c ∈ callsOf p calls, c.mrsleep ≤ bound)
    (steady : Steady gap (reportTimes p calls)) {teststatus : List TestStatus}
    (unseen : KeyedList.find TestStatus.pair p teststatus = none) :
    (handedTimes p (Run.outputs mrsend teststatus calls)).head? = (reportTimes p calls).head? ∧
      Within (bound + gap) (handedTimes p (Run.outputs mrsend teststatus calls)) ∧
      ∀ x ∈ (reportTimes p calls).getLast?,
        ∀ h ∈ (handedTimes p (Run.outputs mrsend teststatus calls)).getLast?, x - h < bound := by
  induction calls generalizing teststatus with
  | nil => exact ⟨rfl, .nil, by simp [reportTimes, callsOf]⟩
  | cons c rest ih =>
    rw [Run.outputs_cons]
    by_cases mine : c.pair = p
    · rcases own_page mine with ⟨s, found, -⟩ | ⟨⟨o, output, pair, time⟩, s, record, last⟩
      · rw [unseen] at found
        cases found
      · have later : ∀ c ∈ callsOf p rest, c.mrsleep ≤ bound := fun c' inside =>
          sleeps c' (by simp [callsOf_cons_self mine, inside])
        have times : reportTimes p (c :: rest) = c.now :: reportTimes p rest := by
          rw [reportTimes, callsOf_cons_self mine]
          rfl
        have first : handedTimes p (some o :: Run.outputs mrsend (mrsend teststatus c).1 rest) =
            c.now :: handedTimes p (Run.outputs mrsend (mrsend teststatus c).1 rest) := by
          simp [handedTimes, pair, time]
        rw [times] at steady ⊢
        rw [output, first]
        have now : c.now - s.last < bound := by omega
        have onward := refreshed_from later record now positive steady
        rw [last] at onward
        exact ⟨rfl, onward⟩
    · obtain ⟨kept, silent⟩ := other_page teststatus mine
      have times : reportTimes p (c :: rest) = reportTimes p rest := by
        rw [reportTimes, callsOf_cons_other mine]
        rfl
      have nothing : handedTimes p
          ((mrsend teststatus c).2 :: Run.outputs mrsend (mrsend teststatus c).1 rest) =
          handedTimes p (Run.outputs mrsend (mrsend teststatus c).1 rest) := by
        cases output : (mrsend teststatus c).2 with
        | none => rfl
        | some o => simp [handedTimes, silent o output]
      rw [times] at steady ⊢
      rw [nothing]
      rw [callsOf_cons_other mine] at sleeps
      exact ih sleeps steady (kept.trans unseen)

/-! ### The passes of the loop -/

theorem sleepMillis_eq (sleeptime : Int) :
    sleepMillis sleeptime = (sleeptime * 1000 % 4294967296).toNat := rfl

theorem sleepMillis_le {sleeptime : Int} (notBefore : 0 ≤ sleeptime) :
    (sleepMillis sleeptime : Int) ≤ 1000 * sleeptime := by
  rw [sleepMillis_eq]
  omega

/-- Up to that many seconds the milliseconds fit a DWORD. -/
theorem sleepMillis_whole {sleeptime : Int} (notBefore : 0 ≤ sleeptime)
    (fits : sleeptime ≤ 4294967) : (sleepMillis sleeptime : Int) = 1000 * sleeptime := by
  rw [sleepMillis_eq]
  omega

theorem sleepTime_ge (mrloop lastrun t : Int) : SLEEP_MIN ≤ sleepTime mrloop lastrun t := by
  unfold sleepTime
  dsimp only
  split <;> omega

/-- The sleep makes up for the length of the pass, but is at least `SLEEP_MIN`. -/
theorem sleepTime_eq {mrloop lastrun t : Int} (forward : lastrun ≤ t)
    (isInt : Word.Fits 32 (mrloop - (t - lastrun))) :
    sleepTime mrloop lastrun t = max SLEEP_MIN (mrloop - (t - lastrun)) := by
  have same : Word.signed 32 (mrloop - (t - lastrun)) = mrloop - (t - lastrun) := isInt
  unfold sleepTime
  rw [if_neg (Int.not_lt.mpr forward), same]
  dsimp only
  split <;> omega

/-- What `readcfg` leaves never makes the loop wait longer than `mrsleep`. -/
theorem readcfg_mrloop (opens : Text → Bool) (conf : List Config) (s : Settings) :
    (readcfg opens conf s).mrloop ≤ (readcfg opens conf s).mrsleep := by
  unfold readcfg finishCfg
  dsimp only
  split <;> omega

/-- A pass under settings that `readcfg` made. -/
def UnderSettings (pass : Pass) : Prop :=
  ∃ opens conf s, pass.mrloop = (readcfg opens conf s).mrloop ∧
    pass.mrsleep = (readcfg opens conf s).mrsleep

/-- A pass of at most `length` seconds in which a page is reported once. -/
structure Reports (p : Pair) (length : Int) (pass : Pass) : Prop where
  settings : UnderSettings pass
  forward : pass.lastrun ≤ pass.t
  short : pass.t - pass.lastrun ≤ length
  isInt : Word.Fits 32 (pass.mrloop - (pass.t - pass.lastrun))
  once : ∃ c, callsOf p pass.calls = [c] ∧ pass.lastrun ≤ c.now ∧ c.now ≤ pass.t ∧
    c.mrsleep = pass.mrsleep

/-- The next pass begins when the sleep is over, and at most `late` seconds after that. -/
structure Follows (late : Int) (pass next : Pass) : Prop where
  after : (pass.slept : Int) ≤ 1000 * (next.lastrun - pass.t)
  soon : 1000 * (next.lastrun - pass.t) ≤ pass.slept + 1000 * late

/-- The longest time between two reports of a page. -/
def reportGap (length late mrsleep : Int) : Int := max (SLEEP_MIN + length) mrsleep + late + length

theorem callsOf_flatMap (p : Pair) (passes : List Pass) :
    callsOf p (passes.flatMap Pass.calls) = passes.flatMap fun pass => callsOf p pass.calls := by
  unfold callsOf
  rw [List.filter_flatMap]

/-- Two reports in passes that follow each other. -/
theorem reports_close {p : Pair} {length late mrsleep : Int} {pass next : Pass}
    (reports : Reports p length pass) (reports' : Reports p length next)
    (follows : Follows late pass next) (sleeps : pass.mrsleep ≤ mrsleep) {c c' : Call}
    (mine : callsOf p pass.calls = [c]) (mine' : callsOf p next.calls = [c']) :
    c.now ≤ c'.now ∧ c'.now - c.now ≤ reportGap length late mrsleep := by
  obtain ⟨c₁, only, begun, ended, -⟩ := reports.once
  obtain ⟨c₂, only', begun', ended', -⟩ := reports'.once
  obtain rfl : c₁ = c := by simpa using only.symm.trans mine
  obtain rfl : c₂ = c' := by simpa using only'.symm.trans mine'
  obtain ⟨opens, conf, s, loop, sleep⟩ := reports.settings
  have bound := readcfg_mrloop opens conf s
  have notBefore := sleepTime_ge pass.mrloop pass.lastrun pass.t
  have time := sleepTime_eq reports.forward reports.isInt
  have slept : (pass.slept : Int) ≤ 1000 * sleepTime pass.mrloop pass.lastrun pass.t :=
    sleepMillis_le (Int.le_trans (by decide) notBefore)
  have after := follows.after
  have soon := follows.soon
  have short := reports.short
  have short' := reports'.short
  have minimum : SLEEP_MIN = 10 := rfl
  unfold reportGap
  omega

theorem steady_passes {p : Pair} {length late mrsleep : Int} {passes : List Pass}
    (reports : ∀ pass ∈ passes, Reports p length pass)
    (sleeps : ∀ pass ∈ passes, pass.mrsleep ≤ mrsleep)
    (follow : passes.IsChain (Follows late)) :
    Steady (reportGap length late mrsleep)
      (reportTimes p (passes.flatMap Pass.calls)) := by
  unfold reportTimes
  rw [callsOf_flatMap]
  induction passes with
  | nil => exact .nil
  | cons pass rest ih =>
    obtain ⟨c, mine, -⟩ := (reports pass List.mem_cons_self).once
    have later := ih (fun q inside => reports q (List.mem_cons_of_mem pass inside))
      (fun q inside => sleeps q (List.mem_cons_of_mem pass inside))
      (List.isChain_of_isChain_cons follow)
    rw [List.flatMap_cons, mine, List.singleton_append, List.map_cons]
    cases rest with
    | nil => exact .singleton _
    | cons next rest =>
      obtain ⟨c', mine', -⟩ := (reports next (by simp)).once
      rw [List.flatMap_cons, mine', List.singleton_append, List.map_cons] at later ⊢
      refine List.isChain_cons_cons.mpr ⟨?_, later⟩
      exact reports_close (reports pass (by simp)) (reports next (by simp))
        (List.isChain_cons_cons.mp follow).1 (sleeps pass (by simp)) mine mine'

theorem sleeps_of_passes {p : Pair} {length mrsleep : Int} {passes : List Pass}
    (reports : ∀ pass ∈ passes, Reports p length pass)
    (sleeps : ∀ pass ∈ passes, pass.mrsleep ≤ mrsleep) :
    ∀ c ∈ callsOf p (passes.flatMap Pass.calls), c.mrsleep ≤ mrsleep := by
  intro c inside
  rw [callsOf_flatMap] at inside
  obtain ⟨pass, member, mine⟩ := List.mem_flatMap.mp inside
  obtain ⟨c', only, -, -, sleep⟩ := (reports pass member).once
  obtain rfl : c = c' := by simpa [only] using mine
  rw [sleep]
  exact sleeps pass member

/-- The sleep behind a pass in which the clock was set back. -/
theorem sleepTime_timewarp {mrloop lastrun t : Int} (back : t < lastrun) :
    sleepTime mrloop lastrun t = max SLEEP_MIN mrloop := by
  unfold sleepTime
  rw [if_pos back]
  dsimp only
  split <;> omega

/-- A pass whose settings make `Sleep` wait no longer than a DWORD of milliseconds says. -/
structure Timed (pass : Pass) : Prop where
  isInt : pass.lastrun ≤ pass.t → Word.Fits 32 (pass.mrloop - (pass.t - pass.lastrun))
  fits : pass.mrloop ≤ 4294967

/-- When the pass behind this one is due: `mrloop` after this one began, or after it ended if the
clock was set back in it, but not before `SLEEP_MIN` after it ended. -/
def Pass.due (pass : Pass) : Int :=
  if pass.t < pass.lastrun then max (pass.t + pass.mrloop) (pass.t + SLEEP_MIN)
  else max (pass.lastrun + pass.mrloop) (pass.t + SLEEP_MIN)

theorem sleepTime_due {pass : Pass} (timed : Timed pass) :
    pass.t + sleepTime pass.mrloop pass.lastrun pass.t = Pass.due pass := by
  unfold Pass.due
  by_cases back : pass.t < pass.lastrun
  · rw [if_pos back, sleepTime_timewarp back]
    omega
  · have forward : pass.lastrun ≤ pass.t := Int.not_lt.mp back
    rw [if_neg back, sleepTime_eq forward (timed.isInt forward)]
    omega

theorem sleepTime_le {pass : Pass} (timed : Timed pass) :
    sleepTime pass.mrloop pass.lastrun pass.t ≤ 4294967 := by
  have due := sleepTime_due timed
  have fits := timed.fits
  have minimum : SLEEP_MIN = 10 := rfl
  unfold Pass.due at due
  split at due <;> omega

theorem due_of_follows {late : Int} {pass next : Pass} (timed : Timed pass)
    (follows : Follows late pass next) :
    Pass.due pass ≤ next.lastrun ∧ next.lastrun ≤ Pass.due pass + late := by
  have notBefore := sleepTime_ge pass.mrloop pass.lastrun pass.t
  have minimum : SLEEP_MIN = 10 := rfl
  have slept : (pass.slept : Int) = 1000 * sleepTime pass.mrloop pass.lastrun pass.t :=
    sleepMillis_whole (by omega) (sleepTime_le timed)
  have due := sleepTime_due timed
  have after := follows.after
  have soon := follows.soon
  omega

/-- The time that the settings plan from the first of the passes to the last. -/
def planned : List Pass → Int
  | [] => 0
  | [_] => 0
  | pass :: rest => pass.mrloop + planned rest

/-- In every run of the main loop: each pass begins when it is due, at most `late` seconds
behind; and if the clock is not set back in a pass and no pass takes longer than its `mrloop` less
`SLEEP_MIN`, the time that the tests take does not add up: the last pass begins when the settings
planned it, and at most `late` seconds later for every pass in between. -/
theorem schedule_kept {late : Int} {first : Pass} {rest : List Pass}
    (timed : ∀ pass ∈ first :: rest, Timed pass)
    (follow : (first :: rest).IsChain (Follows late)) :
    (first :: rest).IsChain (fun pass next =>
        Pass.due pass ≤ next.lastrun ∧ next.lastrun ≤ Pass.due pass + late) ∧
      ((∀ pass ∈ first :: rest,
          pass.lastrun ≤ pass.t ∧ pass.t - pass.lastrun ≤ pass.mrloop - SLEEP_MIN) →
        planned (first :: rest) ≤
            ((first :: rest).getLast (List.cons_ne_nil first rest)).lastrun - first.lastrun ∧
          ((first :: rest).getLast (List.cons_ne_nil first rest)).lastrun - first.lastrun ≤
            planned (first :: rest) + rest.length * late) := by
  induction rest generalizing first with
  | nil => exact ⟨.singleton _, fun _ => by simp [planned]⟩
  | cons next rest ih =>
    obtain ⟨follows, later⟩ := List.isChain_cons_cons.mp follow
    obtain ⟨chain, total⟩ := ih (fun q inside => timed q (List.mem_cons_of_mem first inside)) later
    obtain ⟨early, tardy⟩ := due_of_follows (timed first List.mem_cons_self) follows
    refine ⟨List.isChain_cons_cons.mpr ⟨⟨early, tardy⟩, chain⟩, fun quick => ?_⟩
    obtain ⟨low, high⟩ := total fun q inside => quick q (List.mem_cons_of_mem first inside)
    obtain ⟨forward, short⟩ := quick first List.mem_cons_self
    have due : Pass.due first = first.lastrun + first.mrloop := by
      rw [Pass.due, if_neg (Int.not_lt.mpr forward)]
      omega
    have plan : planned (first :: next :: rest) = first.mrloop + planned (next :: rest) := rfl
    have more : ((next :: rest).length : Int) * late = rest.length * late + late := by
      rw [List.length_cons]
      push_cast
      ring
    rw [List.getLast_cons (List.cons_ne_nil next rest), plan, more]
    constructor <;> omega

/-! ### Two passes -/

def cpuPage : Pair := ("localhost".toList, "cpu".toList)

def firstPass : Pass := ⟨300, 300, 0, 5, [cpuReport 0 1 "green"]⟩

def secondPass : Pass := ⟨300, 300, 300, 304, [cpuReport 0 302 "green"]⟩

theorem default_settings : ∀ pass ∈ [firstPass, secondPass], UnderSettings pass := by
  intro pass inside
  refine ⟨fun _ => false, [], startup, ?_⟩
  rcases List.mem_cons.mp inside with rfl | inside
  · decide
  · obtain rfl := List.mem_singleton.mp inside
    decide

theorem secondPass_follows : [firstPass, secondPass].IsChain (Follows 1) :=
  List.isChain_pair.mpr ⟨by decide, by decide⟩

theorem two_reported : ∀ pass ∈ [firstPass, secondPass], Reports cpuPage 5 pass := by
  intro pass inside
  have settings := default_settings pass inside
  rcases List.mem_cons.mp inside with rfl | inside
  · exact ⟨settings, by decide, by decide, by decide, _, rfl, by decide, by decide, by decide⟩
  · obtain rfl := List.mem_singleton.mp inside
    exact ⟨settings, by decide, by decide, by decide, _, rfl, by decide, by decide, by decide⟩

theorem schedule_kept_twice :
    planned [firstPass, secondPass] ≤ secondPass.lastrun - firstPass.lastrun ∧
      secondPass.lastrun - firstPass.lastrun ≤
        planned [firstPass, secondPass] + ([secondPass].length : Nat) * 1 := by
  refine (schedule_kept ?_ secondPass_follows).2 (by decide)
  intro pass inside
  rcases List.mem_cons.mp inside with rfl | inside
  · exact ⟨fun _ => by decide, by decide⟩
  · obtain rfl := List.mem_singleton.mp inside
    exact ⟨fun _ => by decide, by decide⟩

end MrBig.Guarantees.PageRefresh
