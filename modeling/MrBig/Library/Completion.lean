import Mathlib.Logic.Relation
import Mathlib.Tactic.ByContra

/-!
# Completion of nondeterministic systems

Several parties take steps in any order. A run is finite if every step lowers a measure, and
it is maximal where it is stuck, that is, where no party can take a step. A system completes
with a property if no run goes on for ever and every maximal run ends with the property
(`completes_of_measure`).

* `invariant_of_reaches`: what every step keeps holds wherever a run gets;
* `exists_last`: a run has a last step of a kind, or none;
* `Completes.exists_end`: a system that completes has a run that ends with the property.
-/

set_option autoImplicit false

namespace Library.Completion

variable {σ : Type*} (step : σ → σ → Prop)

/-- The states that runs from a start get to. -/
abbrev Reaches : σ → σ → Prop := Relation.ReflTransGen step

/-- No party can take a step. -/
def Stuck (s : σ) : Prop := ∀ s', ¬ step s s'

structure Completes (start : σ) (Good : σ → Prop) : Prop where
  finite : ∀ run : Nat → σ, run 0 = start → ∃ n, ¬ step (run n) (run (n + 1))
  ends : ∀ s, Reaches step start s → Stuck step s → Good s

variable {step}

theorem invariant_of_reaches {Invariant : σ → Prop} {start : σ} (initial : Invariant start)
    (preserved : ∀ s s', Invariant s → step s s' → Invariant s') {s : σ}
    (reached : Reaches step start s) : Invariant s := by
  induction reached with
  | refl => exact initial
  | tail _ next ih => exact preserved _ _ ih next

/-- A run takes no step of a kind, or it has a last one. -/
theorem exists_last {kind other : σ → σ → Prop}
    (either : ∀ s s', step s s' → kind s s' ∨ other s s') {start s : σ}
    (reached : Reaches step start s) :
    Reaches other start s ∨
      ∃ a b, Reaches step start a ∧ kind a b ∧ Reaches other b s := by
  induction reached with
  | refl => exact Or.inl .refl
  | @tail s s' reached next ih =>
    rcases either s s' next with last | quiet
    · exact Or.inr ⟨s, s', reached, last, .refl⟩
    · rcases ih with never | ⟨a, b, before, last, behind⟩
      · exact Or.inl (never.tail quiet)
      · exact Or.inr ⟨a, b, before, last, behind.tail quiet⟩

/-- Every step lowers a measure, so no run goes on for ever. -/
theorem finite_of_measure {measure : σ → Nat} (lowers : ∀ s s', step s s' → measure s' < measure s)
    (run : Nat → σ) : ∃ n, ¬ step (run n) (run (n + 1)) := by
  by_contra forever
  have steps : ∀ n, step (run n) (run (n + 1)) := fun n => by
    by_contra stops
    exact forever ⟨n, stops⟩
  have bound : ∀ n, measure (run n) + n ≤ measure (run 0) := by
    intro n
    induction n with
    | zero => exact Nat.le_refl _
    | succ n ih =>
      have lower := lowers _ _ (steps n)
      omega
  have := bound (measure (run 0) + 1)
  omega

theorem exists_stuck_of_measure {measure : σ → Nat}
    (lowers : ∀ s s', step s s' → measure s' < measure s) (s : σ) :
    ∃ s', Reaches step s s' ∧ Stuck step s' := by
  induction bound : measure s using Nat.strongRecOn generalizing s with
  | _ n ih =>
    subst bound
    by_cases stuck : Stuck step s
    · exact ⟨s, .refl, stuck⟩
    · obtain ⟨s', next⟩ := not_forall_not.mp stuck
      obtain ⟨last, reached, final⟩ := ih _ (lowers s s' next) s' rfl
      exact ⟨last, .head next reached, final⟩

/-- Every step lowers a measure and keeps an invariant that makes stuck states good. -/
theorem completes_of_measure {measure : σ → Nat}
    (lowers : ∀ s s', step s s' → measure s' < measure s) {Invariant Good : σ → Prop} {start : σ}
    (initial : Invariant start) (preserved : ∀ s s', Invariant s → step s s' → Invariant s')
    (good : ∀ s, Invariant s → Stuck step s → Good s) : Completes step start Good where
  finite := fun run _ => finite_of_measure lowers run
  ends := fun s reached stuck => good s (invariant_of_reaches initial preserved reached) stuck

theorem Completes.and {Good Good' : σ → Prop} {start : σ} (first : Completes step start Good)
    (second : Completes step start Good') :
    Completes step start fun s => Good s ∧ Good' s where
  finite := first.finite
  ends := fun s reached stuck => ⟨first.ends s reached stuck, second.ends s reached stuck⟩

/-- A system that completes with a property has a run that ends with it. -/
theorem Completes.exists_end {measure : σ → Nat}
    (lowers : ∀ s s', step s s' → measure s' < measure s) {Good : σ → Prop} {start : σ}
    (completes : Completes step start Good) : ∃ s, Reaches step start s ∧ Good s := by
  obtain ⟨s, reached, stuck⟩ := exists_stuck_of_measure lowers start
  exact ⟨s, reached, completes.ends s reached stuck⟩

end Library.Completion
