import MrBig.Library.KeyedList
import MrBig.Library.Run
import MrBig.Source.Tables

/-!
# Status tracking: `insert_status` and `mrsend`

mrbig.c:599-722 and 867-892. `time_t` readings are integers. What a call reads from
outside the list (the clock, `mrsleep`, the gracetime table, `report_size`) comes
with the call, so that nothing about it is fixed between two calls.
-/

set_option autoImplicit false

namespace MrBig.Source
open Library

/-- struct teststatus without its link. -/
structure TestStatus where
  machine : Text
  test : Text
  color : Text
  last : Int
  grace : Int
  deriving DecidableEq, Repr

abbrev Pair := Text × Text

def TestStatus.pair (s : TestStatus) : Pair := (s.machine, s.test)

/-- The arguments of a call of `mrsend`. -/
structure Report where
  machine : Text
  test : Text
  color : Text
  message : Text
  deriving DecidableEq, Repr

/-- One call of `mrsend` with the globals and the clock it meets. -/
structure Call where
  machine : Text
  test : Text
  color : Text
  message : Text
  now : Int
  mrsleep : Int
  gracetime : List GraceTime
  reportSize : Nat
  deriving DecidableEq, Repr

def Call.pair (c : Call) : Pair := (c.machine, c.test)

def Call.grace (c : Call) : Int := lookupGrace c.gracetime c.test

def green : Text := "green".toList

/-- The initial values of a record for a test that was never seen. -/
def newStatus (c : Call) : TestStatus :=
  { machine := c.machine, test := c.test, color := c.color, last := c.now, grace := 0 }

/-- The deadline `insert_status` works with: one set by an earlier call stays, and
zero means that none is set. -/
def graceDeadline (s : TestStatus) (c : Call) : Int :=
  if s.grace = 0 then c.now + c.grace else s.grace

/-- The body of `insert_status` once the search has stopped at a record. -/
def updateStatus (s : TestStatus) (c : Call) : TestStatus × Nat :=
  if c.color = s.color then
    if c.now < s.last then
      -- someone adjusted the time
      ({ s with last := c.now, grace := 0 }, 2)
    else if c.now - s.last ≥ c.mrsleep then
      ({ s with last := c.now, grace := 0 }, 2)
    else
      (s, 0)
  else if c.color = green then
    ({ s with color := c.color, last := c.now, grace := 0 }, 2)
  else if s.color ≠ green then
    ({ s with color := c.color, last := c.now, grace := 0 }, 2)
  else if c.now ≥ graceDeadline s c then
    ({ s with color := c.color, last := c.now, grace := graceDeadline s c }, 2)
  else
    ({ s with last := c.now, grace := graceDeadline s c }, 1)

def insertStatus (teststatus : List TestStatus) (c : Call) : List TestStatus × Nat :=
  match KeyedList.find TestStatus.pair c.pair teststatus with
  | none => (newStatus c :: teststatus, 2)
  | some s =>
    (KeyedList.modify TestStatus.pair c.pair (fun s => (updateStatus s c).1) teststatus,
      (updateStatus s c).2)

/-- A status text with the arguments it is printed from and the time of the call. -/
structure Handover where
  machine : Text
  test : Text
  color : Text
  message : Text
  time : Int
  reportSize : Nat
  deriving DecidableEq, Repr

def Handover.pair (o : Handover) : Pair := (o.machine, o.test)

/-- The report `mrsend` prepares and hands to `send_update`. -/
def Handover.text (o : Handover) : Text :=
  snprcat [] o.reportSize ("status ".toList ++ o.machine ++ ".".toList ++ o.test ++ " ".toList ++
    o.color ++ " ".toList ++ o.message)

def Call.handover (c : Call) (color : Text) : Handover :=
  { machine := c.machine, test := c.test, color := color, message := c.message, time := c.now,
    reportSize := c.reportSize }

/-- `mrsend`; the output is what it hands to `send_update`, if it does. -/
def mrsend (teststatus : List TestStatus) (c : Call) : List TestStatus × Option Handover :=
  let (teststatus, is) := insertStatus teststatus c
  if is = 0 then (teststatus, none)
  else if is = 1 then (teststatus, some (c.handover green))
  else (teststatus, some (c.handover c.color))

def callsOf (p : Pair) (calls : List Call) : List Call := calls.filter fun c => c.pair = p

theorem callsOf_concat (p : Pair) (calls : List Call) (c : Call) :
    callsOf p (calls ++ [c]) = callsOf p calls ++ if c.pair = p then [c] else [] := by
  unfold callsOf
  rw [List.filter_append]
  by_cases same : c.pair = p <;> simp [same]

/-- A report of the cpu test under `sleep 300` and one gracetime line. -/
def cpuReport (grace now : Int) (color : String) : Call :=
  { machine := "localhost".toList, test := "cpu".toList, color := color.toList, message := [],
    now := now, mrsleep := 300, gracetime := insertGrace [] "cpu".toList grace,
    reportSize := 16384 }

/-! ### What one call does -/

/-- Nothing is due: the report repeats the record within `mrsleep` seconds. -/
def Unchanged (s : TestStatus) (c : Call) : Prop :=
  c.color = s.color ∧ s.last ≤ c.now ∧ c.now - s.last < c.mrsleep

instance (s : TestStatus) (c : Call) : Decidable (Unchanged s c) :=
  inferInstanceAs (Decidable (_ ∧ _))

/-- A non-green report meets a green record. -/
def Alarms (s : TestStatus) (c : Call) : Prop := s.color = green ∧ c.color ≠ green

instance (s : TestStatus) (c : Call) : Decidable (Alarms s c) :=
  inferInstanceAs (Decidable (_ ∧ _))

/-- The exits of `insert_status` behind the search, with what each leaves in the
record. The four exits that clear the deadline are one. -/
inductive StatusExit (s : TestStatus) (c : Call) : TestStatus × Nat → Prop
  | unchanged (repeats : Unchanged s c) : StatusExit s c (s, 0)
  | reset (due : ¬ Unchanged s c) (calm : ¬ Alarms s c) :
      StatusExit s c ({ s with color := c.color, last := c.now, grace := 0 }, 2)
  | expired (alarm : Alarms s c) (past : graceDeadline s c ≤ c.now) :
      StatusExit s c ({ s with color := c.color, last := c.now, grace := graceDeadline s c }, 2)
  | held (alarm : Alarms s c) (running : c.now < graceDeadline s c) :
      StatusExit s c ({ s with last := c.now, grace := graceDeadline s c }, 1)

theorem Alarms.not_unchanged {s : TestStatus} {c : Call} (alarm : Alarms s c) :
    ¬ Unchanged s c := fun repeats => alarm.2 (repeats.1.trans alarm.1)

theorem updateStatus_exit (s : TestStatus) (c : Call) : StatusExit s c (updateStatus s c) := by
  unfold updateStatus
  by_cases same : c.color = s.color
  · have calm : ¬ Alarms s c := fun alarm => alarm.2 (same.trans alarm.1)
    have reset : ¬ Unchanged s c →
        StatusExit s c ({ s with last := c.now, grace := 0 }, 2) := by
      intro due
      simpa [same] using StatusExit.reset due calm
    rw [if_pos same]
    split
    next back => exact reset fun repeats => by have := repeats.2.1; omega
    next forward =>
      split
      next old => exact reset fun repeats => by have := repeats.2.2; omega
      next recent => exact .unchanged ⟨same, by omega, by omega⟩
  · have due : ¬ Unchanged s c := fun repeats => same repeats.1
    rw [if_neg same]
    split
    next isGreen => exact .reset due fun alarm => alarm.2 isGreen
    next notGreen =>
      split
      next wasBad => exact .reset due fun alarm => wasBad alarm.1
      next wasGreen =>
        have alarm : Alarms s c := ⟨by simpa using wasGreen, notGreen⟩
        split
        next past => exact .expired alarm past
        next running => exact .held alarm (by omega)

theorem updateStatus_pair (s : TestStatus) (c : Call) : (updateStatus s c).1.pair = s.pair := by
  have exit := updateStatus_exit s c
  generalize updateStatus s c = result at exit ⊢
  cases exit <;> rfl

/-- What a call makes of the record of its own pair, and its return value. -/
def trackStatus (c : Call) : Option TestStatus → TestStatus × Nat
  | none => (newStatus c, 2)
  | some s => updateStatus s c

variable (teststatus : List TestStatus) (c : Call)

theorem insertStatus_verdict :
    (insertStatus teststatus c).2 =
      (trackStatus c (KeyedList.find TestStatus.pair c.pair teststatus)).2 := by
  unfold insertStatus trackStatus
  split <;> rfl

theorem find_insertStatus_self :
    KeyedList.find TestStatus.pair c.pair (insertStatus teststatus c).1 =
      some (trackStatus c (KeyedList.find TestStatus.pair c.pair teststatus)).1 := by
  unfold insertStatus trackStatus
  split
  next absent => exact KeyedList.find_cons_self (newStatus c) teststatus
  next s found =>
    rw [KeyedList.find_modify_self fun r same => (updateStatus_pair r c).trans same, found]
    rfl

theorem find_insertStatus_other {p : Pair} (different : p ≠ c.pair) :
    KeyedList.find TestStatus.pair p (insertStatus teststatus c).1 =
      KeyedList.find TestStatus.pair p teststatus := by
  unfold insertStatus
  split
  next absent => exact KeyedList.find_cons_of_ne teststatus (Ne.symm different)
  next s found =>
    exact KeyedList.find_modify_of_ne (fun r same => (updateStatus_pair r c).trans same)
      different teststatus

theorem insertStatus_unique (unique : KeyedList.KeysUnique TestStatus.pair teststatus) :
    KeyedList.KeysUnique TestStatus.pair (insertStatus teststatus c).1 := by
  unfold insertStatus
  split
  next absent => exact unique.cons absent
  next s found => exact unique.modify fun r same => (updateStatus_pair r c).trans same

theorem mrsend_teststatus : (mrsend teststatus c).1 = (insertStatus teststatus c).1 := by
  unfold mrsend
  dsimp only
  split
  · rfl
  · split <;> rfl

end MrBig.Source
