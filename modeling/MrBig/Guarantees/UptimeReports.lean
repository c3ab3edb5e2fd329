import MrBig.Source.Durations

/-!
# The two uptime reports

clog_winuptime counts the milliseconds since the boot in 32 bits, get_uptime the seconds. The
first wraps after 49 days and 17 hours, the second turns negative after 68 years.
-/

set_option autoImplicit false

namespace MrBig.Guarantees.UptimeReports
open Library.Word Source Source.ReadPerf Source.Cpu Source.Durations

/-- The counters of a sample give that many whole milliseconds since the boot. -/
def Measures (pc : PerfAnswer) (uptime : Nat) : Prop :=
  ∃ row rest value time freq, pc.table = .rows (row :: rest) ∧ firstValue row = some value ∧
    pc.perfTime = some time ∧ pc.perfFreq = some freq ∧ freq ≠ 0 ∧
    (time - value).toNat * 1000 / freq.toNat = uptime

/-- The days that the page of the processor is derived from. -/
def daysFromCounters (pc : PerfAnswer) : Option Int :=
  (getUptime pc).map fun ut => daysUp (uptimeMinutes ut)

/-- What becomes of the whole seconds in a LONG. -/
theorem getUptime_eq {pc : PerfAnswer} {uptime : Nat} (measures : Measures pc uptime) :
    getUptime pc = some (signed 32 (uptime / 1000 : Nat)) := by
  obtain ⟨row, rest, value, time, freq, table, first, perfTime, perfFreq, nonzero, rfl⟩ := measures
  have seconds : (time - value).toNat * 1000 / freq.toNat / 1000 =
      ((time - value) / freq).toNat := by
    rw [Nat.div_div_eq_div_mul, Nat.mul_div_mul_right _ _ (by omega), UInt64.toNat_div]
  rw [getUptime, table, seconds]
  simp [first, perfTime, perfFreq, nonzero]

/-- The seconds as a LONG, and both counts on the same day. -/
def WrapsAlike (uptime : Nat) : Prop :=
  2 ^ 31 * 1000 ≤ uptime ∧
    let seconds := uptime / 1000 % 2 ^ 32
    let today := uptime % 2 ^ 32 / day
    (seconds < 2 ^ 31 ∧ seconds / (24 * 60 * 60) = today) ∨
      (2 ^ 32 - 24 * 60 * 60 < seconds ∧ today = 0)

instance (uptime : Nat) : Decidable (WrapsAlike uptime) :=
  inferInstanceAs (Decidable (_ ∧ (_ ∨ _)))

theorem daysUp_natCast (seconds : Nat) :
    daysUp (uptimeMinutes seconds) = (seconds / (24 * 60 * 60) : Nat) := by
  unfold daysUp uptimeMinutes
  rw [Int.natCast_tdiv_eq_ediv, Int.tdiv_eq_ediv_of_nonneg (by omega)]
  omega

theorem daysUp_neg (seconds : Nat) :
    daysUp (uptimeMinutes (-seconds)) = -(seconds / (24 * 60 * 60) : Nat) := by
  have opposite : daysUp (uptimeMinutes (-seconds)) = -daysUp (uptimeMinutes seconds) := by
    unfold daysUp uptimeMinutes
    rw [Int.neg_tdiv, Int.neg_tdiv]
  rw [opposite, daysUp_natCast]

/-- A LONG holds the lower half of the words as they are and the upper half as negative. -/
theorem signed_natCast (n : Nat) :
    (n % 2 ^ 32 < 2 ^ 31 ∧ signed 32 n = (n % 2 ^ 32 : Nat)) ∨
      (2 ^ 31 ≤ n % 2 ^ 32 ∧ signed 32 n = -(2 ^ 32 - n % 2 ^ 32 : Nat)) := by
  unfold signed
  rw [Int.bmod_def]
  split <;> omega

/-- For every uptime, both pages tell the same number of days if and only if the milliseconds
still fit into 32 bits, or both counts have wrapped onto the same day. -/
theorem uptime_reports_agree_iff (uptime : Nat) (pc : PerfAnswer) (measures : Measures pc uptime) :
    daysFromCounters pc = some (uptimeDays (getTickCount uptime) : Int) ↔
      uptime < 2 ^ 32 ∨ WrapsAlike uptime := by
  rw [daysFromCounters, getUptime_eq measures, Option.map_some, Option.some.injEq]
  unfold uptimeDays getTickCount WrapsAlike
  simp only [day, hour, minute]
  rcases Nat.lt_or_ge uptime (2 ^ 31 * 1000) with short | wraps
  · have fits : signed 32 (uptime / 1000 : Nat) = (uptime / 1000 : Nat) :=
      @signed_of_abs_le 31 _ (by omega) (by omega)
    rw [fits, daysUp_natCast]
    rcases Nat.lt_or_ge uptime (2 ^ 32) with word | wrapped
    · exact iff_of_true (by omega) (.inl word)
    · have lost : uptime % 2 ^ 32 + 2 ^ 32 ≤ uptime := by omega
      exact iff_of_false (by omega) (by omega)
  · rcases signed_natCast (uptime / 1000) with ⟨low, long⟩ | ⟨high, long⟩
    · rw [long, daysUp_natCast]
      omega
    · rw [long, daysUp_neg]
      omega

/-- A sample of counters that tick once a millisecond. -/
def milliseconds (uptime : UInt64) : PerfAnswer :=
  ⟨some uptime, some 1000, .rows [⟨none, some [0]⟩]⟩

theorem milliseconds_measures (uptime : UInt64) : Measures (milliseconds uptime) uptime.toNat := by
  refine ⟨_, _, 0, uptime, 1000, rfl, rfl, rfl, rfl, by decide, ?_⟩
  rw [UInt64.sub_zero]
  exact Nat.mul_div_cancel _ (by decide)

theorem uptime_reports_agree_fiveDays :
    daysFromCounters (milliseconds 432000000) = some (uptimeDays (getTickCount 432000000) : Int) :=
  (uptime_reports_agree_iff 432000000 _ (milliseconds_measures 432000000)).mpr
    (.inl (by decide))

/-- After fifty days, one page says 0 days and the other 50. -/
theorem fifty_days_disagree :
    Measures (milliseconds 4320000000) 4320000000 ∧
      uptimeDays (getTickCount 4320000000) = 0 ∧
      daysFromCounters (milliseconds 4320000000) = some 50 :=
  ⟨milliseconds_measures 4320000000, by decide, by decide⟩

end MrBig.Guarantees.UptimeReports
