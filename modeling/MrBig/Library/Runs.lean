import Mathlib.Data.List.Induction
import Mathlib.Data.List.SplitBy

/-!
# Folds over runs

`List.splitBy` cuts a list into its maximal runs of neighbours that are the same. A fold that
treats a list run by run is described by what one more element does: it goes on with the last run
or opens a new one (`RunFold`).
-/

set_option autoImplicit false

namespace Library.Runs

variable {α σ : Type*} {same : α → α → Bool}

section

variable {list : List α} {done : List (List α)} {run : List α} {a : α}

theorem run_ne_nil (split : list.splitBy same = done ++ [run]) : run ≠ [] := by
  apply List.ne_nil_of_mem_splitBy (r := same) (l := list)
  rw [split]
  exact List.mem_append_right done List.mem_cons_self

theorem eq_flatten (split : list.splitBy same = done ++ [run]) : list = done.flatten ++ run := by
  rw [← List.flatten_splitBy same list, split, List.flatten_append, List.flatten_singleton]

/-- An element that is the same as the last one goes on with its run. -/
theorem splitBy_concat_of_same (split : list.splitBy same = done ++ [run])
    (goesOn : ∀ l ∈ run.getLast?, same l a = true) :
    (list ++ [a]).splitBy same = done ++ [run ++ [a]] := by
  obtain ⟨-, nonempty, chains, apart⟩ := List.splitBy_eq_iff.mp split
  have notEmpty := run_ne_nil split
  rw [List.splitBy_eq_iff]
  refine ⟨?_, ?_, ?_, ?_⟩
  · rw [eq_flatten split, List.flatten_append, List.flatten_singleton, List.append_assoc]
  · intro member
    rcases List.mem_append.mp member with before | last
    · exact nonempty (List.mem_append_left _ before)
    · exact absurd (List.mem_singleton.mp last).symm (by simp)
  · intro other member
    rcases List.mem_append.mp member with before | last
    · exact chains other (List.mem_append_left _ before)
    · rw [List.mem_singleton.mp last, List.isChain_append]
      refine ⟨chains run (List.mem_append_right _ List.mem_cons_self), List.isChain_singleton _, ?_⟩
      intro l last y head
      rw [← Option.some.inj head]
      exact goesOn l last
  · rw [List.isChain_append] at apart ⊢
    refine ⟨apart.1, List.isChain_singleton _, ?_⟩
    intro before last other head
    obtain ⟨some', _, differ⟩ := apart.2.2 before last run rfl
    rw [← Option.some.inj head]
    refine ⟨some', by simp, ?_⟩
    rwa [List.head_append_of_ne_nil notEmpty]

/-- One that is not opens a run. -/
theorem splitBy_concat_of_other (split : list.splitBy same = done ++ [run])
    (opens : ∀ l ∈ run.getLast?, same l a = false) :
    (list ++ [a]).splitBy same = done ++ [run] ++ [[a]] := by
  have last : list.getLast? = run.getLast? := by
    rw [eq_flatten split, List.getLast?_append_of_ne_nil _ (run_ne_nil split)]
  rw [List.splitBy_append_cons [] (last ▸ opens), split]
  rfl

end

/-- What a fold step does to a state that is in the midst of a run. -/
structure RunFold (same : α → α → Bool) (step : σ → α → σ) (start : σ)
    (InRun : List (List α) → List α → σ → Prop) : Prop where
  first : ∀ a, InRun [] [a] (step start a)
  goesOn : ∀ {done run s a}, InRun done run s → (∀ l ∈ run.getLast?, same l a = true) →
    InRun done (run ++ [a]) (step s a)
  opens : ∀ {done run s a}, InRun done run s → (∀ l ∈ run.getLast?, same l a = false) →
    InRun (done ++ [run]) [a] (step s a)

/-- Behind a list the fold is in the midst of the last of its runs. -/
theorem RunFold.foldl {step : σ → α → σ} {start : σ}
    {InRun : List (List α) → List α → σ → Prop} (fold : RunFold same step start InRun)
    {list : List α} (notEmpty : list ≠ []) :
    ∃ done run, list.splitBy same = done ++ [run] ∧ InRun done run (list.foldl step start) := by
  induction list using List.reverseRecOn with
  | nil => exact absurd rfl notEmpty
  | append_singleton front a ih =>
    rw [List.foldl_append]
    by_cases nothing : front = []
    · rw [nothing]
      exact ⟨[], [a], rfl, fold.first a⟩
    · obtain ⟨done, run, split, inRun⟩ := ih nothing
      obtain ⟨l, last⟩ : ∃ l, run.getLast? = some l :=
        ⟨_, List.getLast?_eq_some_getLast (run_ne_nil split)⟩
      have only : ∀ {b : Bool}, same l a = b → ∀ l' ∈ run.getLast?, same l' a = b := by
        intro b is l' last'
        rw [last] at last'
        rwa [← Option.some.inj last']
      cases is : same l a with
      | true =>
        exact ⟨done, run ++ [a], splitBy_concat_of_same split (only is),
          fold.goesOn inRun (only is)⟩
      | false =>
        exact ⟨done ++ [run], [a], splitBy_concat_of_other split (only is),
          fold.opens inRun (only is)⟩

end Library.Runs
