import MrBig.Library.Run
import MrBig.Source.Cpu

/-!
# The load of the processor, as a percentage

A table of instances is searched for _Total by a loop whose test does not go along. The load is
the difference of two samples over that of two readings of the clock: it is a percentage if the
counter does not fall between them by a hundredth of what it can rise.
-/

set_option autoImplicit false

namespace MrBig.Guarantees.CpuLoad
open Library Library.Word Source Source.ReadPerf Source.Cpu

/-! ### The search for _Total -/

structure NamedRow where
  inst : Text
  sample : UInt64

/-- A table of instances as read_perfcounters returns it for one counter. -/
def instanceTable (rows : List NamedRow) (unused : Option (List UInt64)) : List PerfCounter :=
  rows.map (fun row => ⟨some row.inst, some [row.sample]⟩) ++ [⟨none, unused⟩]

/-- The sample of the first row named _Total, or none. -/
def totalSample (rows : List NamedRow) : UInt64 :=
  match rows.find? (·.inst = total) with
  | some row => row.sample
  | none => 0

/-- Where the first row has a name, the loop finds the first _Total or leaves the table. -/
theorem totalLoop_eq (first : Text) (rows : List NamedRow) (unused : Option (List UInt64)) :
    totalLoop (some first) (instanceTable rows unused) =
      (rows.find? (·.inst = total)).map fun row => ⟨some row.inst, some [row.sample]⟩ := by
  induction rows with
  | nil => rfl
  | cons row rest ih =>
    change totalLoop (some first) (⟨some row.inst, some [row.sample]⟩ :: instanceTable rest unused)
      = _
    rw [totalLoop]
    dsimp only
    by_cases found : row.inst = total
    · rw [if_pos ((strcmp_eq_iff _ _).mpr found), List.find?_cons_of_pos (by simpa using found)]
      rfl
    · rw [if_neg fun same => found ((strcmp_eq_iff _ _).mp same), ih,
        List.find?_cons_of_neg (by simpa using found)]

theorem idleSample_nil (unused : Option (List UInt64)) {version : Int} (w2k : 5 ≤ version) :
    idleSample version (instanceTable [] unused) = some 0 := by
  rw [idleSample, if_pos w2k]
  rfl

theorem idleSample_cons (row : NamedRow) (rest : List NamedRow) (unused : Option (List UInt64))
    {version : Int} (w2k : 5 ≤ version) :
    idleSample version (instanceTable (row :: rest) unused) =
      ((row :: rest).find? (·.inst = total)).map NamedRow.sample := by
  have loop := totalLoop_eq row.inst (row :: rest) unused
  rw [idleSample, if_pos w2k]
  change (totalLoop (some row.inst) (instanceTable (row :: rest) unused)).bind _ = _
  rw [loop]
  cases (row :: rest).find? (·.inst = total) <;> rfl

/-- The search ends in the table, with the sample of the first _Total or with none, if and only if
there is a row with that name or no named row at all. -/
theorem search_in_table_iff (version : Int) (w2k : 5 ≤ version) (rows : List NamedRow)
    (unused : Option (List UInt64)) :
    idleSample version (instanceTable rows unused) = some (totalSample rows) ↔
      (∃ row ∈ rows, row.inst = total) ∨ rows = [] := by
  cases rows with
  | nil => exact iff_of_true (idleSample_nil unused w2k) (Or.inr rfl)
  | cons row rest =>
    rw [idleSample_cons row rest unused w2k, totalSample]
    cases found : (row :: rest).find? (·.inst = total) with
    | none =>
      refine iff_of_false (Option.some_ne_none _).symm ?_
      rintro (⟨other, member, named⟩ | empty)
      · exact List.find?_eq_none.mp found other member (by simpa using named)
      · cases empty
    | some other =>
      refine iff_of_true rfl (Or.inl ⟨other, List.mem_of_find?_eq_some found, ?_⟩)
      simpa using List.find?_some found

theorem search_finds_total :
    idleSample 6 (instanceTable [⟨"0".toList, 7⟩, ⟨total, 9⟩] none) =
      some (totalSample [⟨"0".toList, 7⟩, ⟨total, 9⟩]) :=
  (search_in_table_iff 6 (by decide) [⟨"0".toList, 7⟩, ⟨total, 9⟩] none).mpr
    (Or.inl ⟨⟨total, 9⟩, by simp, rfl⟩)

/-- With a row "0" alone, the name of the terminator is compared. -/
theorem search_leaves_table :
    idleSample 6 (instanceTable [⟨"0".toList, 7⟩] none) = none ∧
      ¬idleSample 6 (instanceTable [⟨"0".toList, 7⟩] none) =
        some (totalSample [⟨"0".toList, 7⟩]) := by
  decide

/-! ### The load between two samples -/

/-- A percentage, computed without a fault. -/
def Percentage (answer : LoadAnswer) : Prop :=
  0 ≤ answer.load ∧ answer.load ≤ 100 ∧ answer.fault = false

theorem percentage_zero : Percentage ⟨0, false⟩ := by
  unfold Percentage
  decide

/-- Between the last sample, if there is one, and the next on a later clock, neither difference
leaves its type; the counter falls by less than 100000 a second and rises by less than
100000 * (2^31 + 101). -/
def Steady (timeBits : Nat) (state : LoadState) (reading : Reading) : Prop :=
  ∀ sample ∈ reading.sample, state.proc0 ≠ 0 → state.time0 < reading.now →
    let proc := signed 64 sample.toNat - state.proc0
    let time := reading.now - state.time0
    Fits 64 proc ∧ Fits timeBits time ∧
      -(100000 * time) < proc ∧ proc < 100000 * 2147483749 * time

/-- The quotient is from 0 on, and not too large for the difference from 100 to be an `int`. -/
theorem tdiv_bounds_iff {proc time : Int} (later : 0 < time) :
    (-1 < (proc.tdiv 100000).tdiv time ∧ (proc.tdiv 100000).tdiv time < 2147483749) ↔
      -(100000 * time) < proc ∧ proc < 100000 * 2147483749 * time := by
  have product : 0 < 2147483749 * time := by omega
  rw [neg_lt_tdiv_iff later (by decide), tdiv_lt_iff later (by decide), Int.one_mul,
    neg_lt_tdiv_iff (by decide) later, tdiv_lt_iff (by decide) product]
  omega

theorem periodLoad_fault {timeBits : Nat} {proc time : Int} (later : 0 < time) :
    (periodLoad timeBits proc time).fault = false ↔
      Fits 64 proc ∧ Fits timeBits time ∧ Fits 32 (100 - (proc.tdiv 100000).tdiv time) := by
  rw [periodLoad]
  simp only [Bool.not_eq_false', Bool.and_eq_true, decide_eq_true_eq, bne_iff_ne, ne_eq]
  constructor
  · rintro ⟨⟨⟨⟨procFits, timeFits⟩, -⟩, -⟩, restFits⟩
    rw [procFits, timeFits] at restFits
    exact ⟨procFits, timeFits, restFits⟩
  · rintro ⟨procFits, timeFits, restFits⟩
    obtain ⟨low, high⟩ := fits_iff.mp restFits
    rw [procFits, timeFits]
    exact ⟨⟨⟨⟨procFits, timeFits⟩, by omega⟩, fits_iff.mpr (by omega)⟩, restFits⟩

theorem clamp_load (answer : LoadAnswer) :
    (clamp answer).load = if answer.load < 0 then 0 else answer.load := rfl

/-- What is left of 100, cut off below, is a percentage if the quotient is in its bounds. -/
theorem periodLoad_percentage_iff (timeBits : Nat) {proc time : Int} (later : 0 < time) :
    Percentage (clamp (periodLoad timeBits proc time)) ↔
      Fits 64 proc ∧ Fits timeBits time ∧
        -(100000 * time) < proc ∧ proc < 100000 * 2147483749 * time := by
  rw [← tdiv_bounds_iff later]
  constructor
  · rintro ⟨-, most, faultless⟩
    obtain ⟨procFits, timeFits, restFits⟩ := (periodLoad_fault later).mp faultless
    have bounds := fits_iff.mp restFits
    have load : (periodLoad timeBits proc time).load = 100 - (proc.tdiv 100000).tdiv time := by
      rw [periodLoad, procFits, timeFits]
      exact restFits
    rw [clamp_load, load] at most
    refine ⟨procFits, timeFits, ?_, by omega⟩
    split at most <;> omega
  · rintro ⟨procFits, timeFits, low, high⟩
    have restFits : Fits 32 (100 - (proc.tdiv 100000).tdiv time) := fits_iff.mpr (by omega)
    have load : (periodLoad timeBits proc time).load = 100 - (proc.tdiv 100000).tdiv time := by
      rw [periodLoad, procFits, timeFits]
      exact restFits
    refine ⟨?_, ?_, (periodLoad_fault later).mpr ⟨procFits, timeFits, restFits⟩⟩
    · rw [clamp_load, load]
      split <;> omega
    · rw [clamp_load, load]
      split <;> omega

/-- One call: its answer is a percentage if the sample is steady. -/
theorem loadStep_percentage_iff (timeBits : Nat) (state : LoadState) (reading : Reading) :
    Percentage (loadStep timeBits state reading).2 ↔ Steady timeBits state reading := by
  unfold loadStep Steady
  cases reading.sample with
  | none =>
    refine iff_of_true percentage_zero ?_
    intro sample there
    cases there
  | some sample =>
    simp only [takeSample, Option.mem_def, Option.some.injEq, forall_eq']
    by_cases two : state.proc0 ≠ 0 ∧ state.time0 < reading.now
    · have later : 0 < reading.now - state.time0 := by omega
      rw [if_pos two, periodLoad_percentage_iff timeBits later]
      exact ⟨fun bounds _ _ => bounds, fun steady => steady two.1 two.2⟩
    · rw [if_neg two]
      refine iff_of_true percentage_zero ?_
      intro nonempty later
      exact absurd ⟨nonempty, later⟩ two

/-- The answers of a sequence of calls, each with the sample that is in its table. -/
theorem getLoads_eq (timeBits : Nat) {calls : List LoadCall} {readings : List Reading}
    (read : calls.map LoadCall.reading = readings.map some) (state : LoadState) :
    getLoads timeBits state calls = some (Run.outputs (loadStep timeBits) state readings) := by
  induction calls generalizing readings state with
  | nil =>
    cases readings with
    | nil => rfl
    | cons reading rest => cases read
  | cons call calls ih =>
    cases readings with
    | nil => cases read
    | cons reading rest =>
      rw [List.map_cons, List.map_cons, List.cons.injEq] at read
      rw [getLoads, getLoad, read.1, Option.map_some, Run.outputs_cons]
      change (getLoads timeBits (loadStep timeBits state reading).1 calls).bind _ = _
      rw [ih read.2]
      rfl

/-- In a sequence of calls every load is a percentage, and computed without a fault, if and only if
every sample is steady after the one before it. -/
theorem loads_percentages_iff (timeBits : Nat) (calls : List LoadCall) (readings : List Reading)
    (read : calls.map LoadCall.reading = readings.map some) :
    (∃ answers, getLoads timeBits .start calls = some answers ∧
        ∀ answer ∈ answers, Percentage answer) ↔
      Run.Throughout (loadStep timeBits) (fun _ state reading => Steady timeBits state reading)
        .start readings := by
  rw [getLoads_eq timeBits read]
  simp only [Option.some.injEq, exists_eq_left']
  constructor
  · intro every before reading after split
    rw [← loadStep_percentage_iff]
    exact every _ ((Run.mem_outputs_iff _).mpr ⟨before, reading, after, split, rfl⟩)
  · intro steady answer given
    obtain ⟨before, reading, after, split, rfl⟩ := (Run.mem_outputs_iff _).mp given
    rw [loadStep_percentage_iff]
    exact steady before reading after split

/-- Two samples, one second apart. -/
def twoCalls (first second : UInt64) : List LoadCall :=
  [⟨5, .rows [⟨some total, some [first]⟩, ⟨none, none⟩], 1000⟩,
    ⟨5, .rows [⟨some total, some [second]⟩, ⟨none, none⟩], 1001⟩]

theorem half_load :
    ∃ answers, getLoads 64 .start (twoCalls 20000000 25000000) = some answers ∧
      ∀ answer ∈ answers, Percentage answer := by
  refine (loads_percentages_iff 64 (twoCalls 20000000 25000000)
    [⟨some 20000000, 1000⟩, ⟨some 25000000, 1001⟩] (by decide)).mpr ?_
  refine (Run.throughout_cons ..).mpr ⟨?_, (Run.throughout_cons ..).mpr ⟨?_, ?_⟩⟩
  · intro sample _ two
    exact absurd rfl two
  · intro sample there _ _
    cases there
    decide
  · exact Run.throughout_nil _ _ _

/-- The counter falls by a second's worth: a load of 200. -/
theorem load_of_two_hundred :
    getLoads 64 .start (twoCalls 20000000 10000000) = some [⟨0, false⟩, ⟨200, false⟩] ∧
      ¬∃ answers, getLoads 64 .start (twoCalls 20000000 10000000) = some answers ∧
        ∀ answer ∈ answers, Percentage answer := by
  have loads : getLoads 64 .start (twoCalls 20000000 10000000) =
      some [⟨0, false⟩, ⟨200, false⟩] := by decide
  refine ⟨loads, ?_⟩
  rintro ⟨answers, given, every⟩
  obtain rfl := Option.some.inj (loads.symm.trans given)
  have percentage := every ⟨200, false⟩ (by simp)
  exact absurd percentage.2.1 (by decide)

end MrBig.Guarantees.CpuLoad
