import Mathlib.Data.Nat.Basic

/-!
# The first longest run

Of the places below `size`, those with a property form runs. A scan that compares the length of
each run with that of the longest one before it, and goes on behind the run, ends with the first
of the longest ones.
-/

set_option autoImplicit false

namespace Library.LongestRun

/-- The places from `start` on, `len` of them, have the property. -/
structure IsRun (p : Nat → Prop) (size start len : Nat) : Prop where
  inside : start + len ≤ size
  all : ∀ i, start ≤ i → i < start + len → p i

/-- The first of the longest runs that start below `bound`. -/
structure FirstLongest (p : Nat → Prop) (size bound start len : Nat) : Prop where
  run : IsRun p size start len
  below : start ≤ bound
  longest : ∀ {other n}, other < bound → IsRun p size other n → n ≤ len
  first : ∀ {other}, other < bound → IsRun p size other len → start ≤ other

variable {p : Nat → Prop} {size bound start len : Nat}

theorem firstLongest_zero : FirstLongest p size 0 0 0 where
  run := ⟨Nat.zero_le size, fun i low high => by omega⟩
  below := Nat.le_refl 0
  longest := fun below => absurd below (Nat.not_lt_zero _)
  first := fun below => absurd below (Nat.not_lt_zero _)

/-- No run starts at a place without the property. -/
theorem FirstLongest.skip (found : FirstLongest p size bound start len) (without : ¬ p bound) :
    FirstLongest p size (bound + 1) start len := by
  have isEmpty : ∀ {n}, IsRun p size bound n → n = 0 := by
    intro n run
    by_contra nonempty
    exact without (run.all bound (Nat.le_refl _) (by omega))
  refine ⟨found.run, Nat.le_succ_of_le found.below, ?_, ?_⟩
  · intro other n below run
    rcases Nat.lt_or_eq_of_le (Nat.le_of_lt_succ below) with before | rfl
    · exact found.longest before run
    · rw [isEmpty run]
      exact Nat.zero_le _
  · intro other below run
    rcases Nat.lt_or_eq_of_le (Nat.le_of_lt_succ below) with before | rfl
    · exact found.first before run
    · exact found.below

/-- A run is compared with the longest one when nothing is left that it could go on with. -/
theorem FirstLongest.extend {n : Nat} (found : FirstLongest p size bound start len)
    (run : IsRun p size bound n) (ends : bound + n = size ∨ ¬ p (bound + n)) :
    FirstLongest p size (bound + n) (if n > len then bound else start)
      (if n > len then n else len) := by
  have inner : ∀ {other m}, bound ≤ other → other < bound + n → IsRun p size other m → m ≤ n := by
    intro other m low high run'
    have inside := run'.inside
    rcases ends with last | without
    · omega
    · by_contra more
      exact without (run'.all (bound + n) (by omega) (by omega))
  split
  · next more =>
    refine ⟨run, Nat.le_add_right _ _, ?_, ?_⟩
    · intro other m below run'
      rcases Nat.lt_or_ge other bound with before | behind
      · have least := found.longest before run'
        omega
      · exact inner behind below run'
    · intro other below run'
      by_contra before
      have least := found.longest (Nat.lt_of_not_le before) run'
      omega
  · next notMore =>
    refine ⟨found.run, Nat.le_trans found.below (Nat.le_add_right _ _), ?_, ?_⟩
    · intro other m below run'
      rcases Nat.lt_or_ge other bound with before | behind
      · exact found.longest before run'
      · have most := inner behind below run'
        omega
    · intro other below run'
      rcases Nat.lt_or_ge other bound with before | behind
      · exact found.first before run'
      · exact Nat.le_trans found.below behind

/-- A scan may end behind the last place. -/
theorem FirstLongest.whole (found : FirstLongest p size bound start len) (ending : size ≤ bound) :
    FirstLongest p size size start len where
  run := found.run
  below := Nat.le_trans (Nat.le_add_right start len) found.run.inside
  longest := fun below => found.longest (Nat.lt_of_lt_of_le below ending)
  first := fun below => found.first (Nat.lt_of_lt_of_le below ending)

end Library.LongestRun
