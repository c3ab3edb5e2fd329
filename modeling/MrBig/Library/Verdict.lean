import Mathlib.Order.Bounds.Basic
import Mathlib.Order.MinMax

/-!
# First matches and worst verdicts

* `Reached`, `FirstMatch`: a search down a list of rules reaches a rule when none before
  it matches, and stops at it when it matches itself;
* `isGreatest_foldl_max`: the running maximum of a list.
-/

set_option autoImplicit false

namespace Library.Verdict

variable {ρ α : Type*}

section FirstMatch

variable {Matches : ρ → Prop} {q r : ρ} {rules : List ρ}

/-- No rule before this one matches. -/
def Reached (Matches : ρ → Prop) (rules : List ρ) (r : ρ) : Prop :=
  ∃ before after, rules = before ++ r :: after ∧ ∀ q ∈ before, ¬ Matches q

/-- The first rule that matches. -/
def FirstMatch (Matches : ρ → Prop) (rules : List ρ) (r : ρ) : Prop :=
  Reached Matches rules r ∧ Matches r

theorem Reached.head : Reached Matches (r :: rules) r := ⟨[], rules, rfl, by simp⟩

theorem Reached.cons (passed : ¬ Matches q) (reached : Reached Matches rules r) :
    Reached Matches (q :: rules) r := by
  obtain ⟨before, after, rfl, unmatched⟩ := reached
  exact ⟨q :: before, after, rfl, by simpa using ⟨passed, unmatched⟩⟩

@[simp] theorem not_firstMatch_nil : ¬ FirstMatch Matches [] r := by
  rintro ⟨⟨before, after, split, _⟩, _⟩
  simp at split

theorem firstMatch_cons_of_match (hit : Matches q) :
    FirstMatch Matches (q :: rules) r ↔ r = q := by
  constructor
  · rintro ⟨⟨before, after, split, unmatched⟩, _⟩
    cases before with
    | nil => exact (List.cons.inj split).1.symm
    | cons head before =>
      obtain ⟨rfl, _⟩ := List.cons.inj split
      exact absurd hit (unmatched q List.mem_cons_self)
  · rintro rfl
    exact ⟨Reached.head, hit⟩

theorem firstMatch_cons_of_pass (passed : ¬ Matches q) :
    FirstMatch Matches (q :: rules) r ↔ FirstMatch Matches rules r := by
  constructor
  · rintro ⟨⟨before, after, split, unmatched⟩, hit⟩
    cases before with
    | nil =>
      obtain ⟨rfl, _⟩ := List.cons.inj split
      exact absurd hit passed
    | cons head before =>
      obtain ⟨rfl, rest⟩ := List.cons.inj split
      have later : ∀ p ∈ before, ¬ Matches p :=
        fun p member => unmatched p (List.mem_cons_of_mem q member)
      exact ⟨⟨before, after, rest, later⟩, hit⟩
  · rintro ⟨reached, hit⟩
    exact ⟨reached.cons passed, hit⟩

end FirstMatch

theorem isGreatest_foldl_max [LinearOrder α] (start : α) (verdicts : List α) :
    IsGreatest (insert start {a | a ∈ verdicts}) (verdicts.foldl max start) := by
  induction verdicts generalizing start with
  | nil => simp
  | cons a rest ih =>
    obtain ⟨attained, bound⟩ := ih (max start a)
    constructor
    · rcases attained with same | later
      · rw [List.foldl_cons, same]
        rcases max_choice start a with left | right
        · exact Or.inl left
        · exact Or.inr (by simp [right])
      · exact Or.inr (List.mem_cons_of_mem a later)
    · have top := bound (Set.mem_insert _ _)
      rintro b (rfl | member)
      · exact (le_max_left b a).trans top
      · rcases List.mem_cons.mp member with rfl | later
        · exact (le_max_right start b).trans top
        · exact bound (Or.inr later)

end Library.Verdict
