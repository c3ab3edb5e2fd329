import Mathlib.Data.Nat.Basic
import Mathlib.Tactic.ByContra

/-!
# A search that leaves the middle out

`halve` compares with the middle of an interval and goes on below it or above it, until at most
one place is left; the middle of what is left is the result. Going up, it leaves the middle out
for good, so a place that it compares with (`Picked`) is found only if the comparison says so.
-/

set_option autoImplicit false

namespace Library.Halving

/-- The search in `[low, high)`. -/
def halve (cmp : Nat → Ordering) (low high : Nat) : Nat :=
  if low + 1 < high then
    match cmp ((low + high) / 2) with
    | .lt => halve cmp low ((low + high) / 2)
    | .gt => halve cmp ((low + high) / 2 + 1) high
    | .eq => (low + high) / 2
  else (low + high) / 2
termination_by high - low

/-- The offsets in an interval of a size that some search compares with. -/
def Picked (size offset : Nat) : Prop :=
  if 1 < size then
    offset = size / 2 ∨ offset < size / 2 ∧ Picked (size / 2) offset ∨
      size / 2 < offset ∧ Picked (size - size / 2 - 1) (offset - size / 2 - 1)
  else False
termination_by size

theorem not_picked {size offset : Nat} (small : size ≤ 1) : ¬ Picked size offset := by
  rw [Picked, if_neg (Nat.not_lt.mpr small)]
  exact id

theorem picked_middle {size : Nat} (large : 1 < size) : Picked size (size / 2) := by
  rw [Picked, if_pos large]
  exact Or.inl rfl

theorem picked_below {size offset : Nat} (large : 1 < size) (below : offset < size / 2) :
    Picked size offset ↔ Picked (size / 2) offset := by
  rw [Picked, if_pos large]
  constructor
  · rintro (middle | ⟨-, lower⟩ | ⟨above, -⟩)
    · omega
    · exact lower
    · omega
  · intro lower
    exact Or.inr (Or.inl ⟨below, lower⟩)

theorem picked_above {size offset : Nat} (large : 1 < size) (above : size / 2 < offset) :
    Picked size offset ↔ Picked (size - size / 2 - 1) (offset - size / 2 - 1) := by
  rw [Picked, if_pos large]
  constructor
  · rintro (middle | ⟨below, -⟩ | ⟨-, upper⟩)
    · omega
    · omega
    · exact upper
  · intro upper
    exact Or.inr (Or.inr ⟨above, upper⟩)

variable {cmp : Nat → Ordering}

section

variable {low high : Nat}

theorem halve_below (large : low + 1 < high) (smaller : cmp ((low + high) / 2) = .lt) :
    halve cmp low high = halve cmp low ((low + high) / 2) := by
  rw [halve.eq_1 cmp low high, if_pos large, smaller]

theorem halve_above (large : low + 1 < high) (greater : cmp ((low + high) / 2) = .gt) :
    halve cmp low high = halve cmp ((low + high) / 2 + 1) high := by
  rw [halve.eq_1 cmp low high, if_pos large, greater]

theorem halve_here (large : low + 1 < high) (same : cmp ((low + high) / 2) = .eq) :
    halve cmp low high = (low + high) / 2 := by
  rw [halve, if_pos large, same]

theorem halve_small (small : ¬ low + 1 < high) : halve cmp low high = (low + high) / 2 := by
  rw [halve, if_neg small]

end

/-- A place that is the only one to compare equal is found. -/
theorem halve_of_eq {low high k : Nat} (inside : low ≤ k ∧ k < high) (here : cmp k = .eq)
    (below : ∀ i < k, cmp i = .gt) (above : ∀ i, k < i → i < high → cmp i = .lt) :
    halve cmp low high = k := by
  fun_induction halve cmp low high with
  | case1 low high large smaller ih =>
    have side : k < (low + high) / 2 := by
      by_contra other
      rcases Nat.lt_or_eq_of_le (Nat.le_of_not_lt other) with less | same
      · rw [below _ less] at smaller
        cases smaller
      · rw [same, here] at smaller
        cases smaller
    exact ih ⟨inside.1, side⟩ fun i behind inside' => above i behind (by omega)
  | case2 low high large greater ih =>
    have side : (low + high) / 2 < k := by
      by_contra other
      rcases Nat.lt_or_eq_of_le (Nat.le_of_not_lt other) with less | same
      · rw [above _ less (by omega)] at greater
        cases greater
      · rw [← same, here] at greater
        cases greater
    exact ih ⟨side, inside.2⟩ above
  | case3 low high large same =>
    by_contra other
    rcases Nat.lt_or_gt_of_ne other with less | more
    · rw [below _ less] at same
      cases same
    · rw [above _ more (by omega)] at same
      cases same
  | case4 low high small => omega

/-- Where no place compares equal, the last one below is found if it is not picked. -/
theorem halve_between {low high k : Nat} (inside : low ≤ k ∧ k ≤ high)
    (below : ∀ i < k, cmp i = .gt) (above : ∀ i, k ≤ i → i < high → cmp i = .lt) :
    halve cmp low high + 1 = k ↔ low < k ∧ ¬ Picked (high - low) (k - 1 - low) := by
  fun_induction halve cmp low high with
  | case1 low high large smaller ih =>
    have side : k ≤ (low + high) / 2 := by
      by_contra other
      rw [below _ (Nat.lt_of_not_le other)] at smaller
      cases smaller
    have half : (low + high) / 2 - low = (high - low) / 2 := by omega
    rw [ih ⟨inside.1, side⟩ fun i behind inside' => above i behind (by omega), half]
    refine and_congr_right fun nonempty => not_congr ?_
    exact (picked_below (by omega) (by omega)).symm
  | case2 low high large greater ih =>
    have side : (low + high) / 2 < k := by
      by_contra other
      rw [above _ (Nat.le_of_not_lt other) (by omega)] at greater
      cases greater
    rw [ih ⟨side, inside.2⟩ above]
    rcases Nat.lt_or_eq_of_le (Nat.succ_le_of_lt side) with more | same
    · have upper : high - ((low + high) / 2 + 1) = high - low - (high - low) / 2 - 1 := by omega
      have offset : k - 1 - ((low + high) / 2 + 1) = k - 1 - low - (high - low) / 2 - 1 := by omega
      rw [upper, offset, ← picked_above (by omega) (by omega)]
      exact and_congr_left fun _ => iff_of_true more (by omega)
    · have middle : k - 1 - low = (high - low) / 2 := by omega
      rw [middle]
      exact iff_of_false (fun parts => by omega)
        fun parts => parts.2 (picked_middle (by omega))
  | case3 low high large same =>
    exfalso
    rcases Nat.lt_or_ge ((low + high) / 2) k with less | more
    · rw [below _ less] at same
      cases same
    · rw [above _ more (by omega)] at same
      cases same
  | case4 low high small =>
    have nothing : ¬ Picked (high - low) (k - 1 - low) := not_picked (by omega)
    constructor
    · intro last
      exact ⟨by omega, nothing⟩
    · intro parts
      have nonempty := parts.1
      omega

/-- Where every place compares less, the first one is the result. -/
theorem halve_of_lt {low high : Nat} (inside : low ≤ high)
    (above : ∀ i, low ≤ i → i < high → cmp i = .lt) : halve cmp low high = low := by
  fun_induction halve cmp low high with
  | case1 low high large smaller ih =>
    exact ih (by omega) fun i behind inside' => above i behind (by omega)
  | case2 low high large greater ih =>
    rw [above _ (by omega) (by omega)] at greater
    cases greater
  | case3 low high large same =>
    rw [above _ (by omega) (by omega)] at same
    cases same
  | case4 low high small => omega

end Library.Halving
