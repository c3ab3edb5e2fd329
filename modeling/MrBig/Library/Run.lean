import Mathlib.Data.List.Induction

/-!
# Runs of a deterministic machine

A machine takes inputs one at a time; each input changes the state and gives an
output. A run is the list of inputs taken so far, so a statement about every run
and every point of it is a statement about every list and the state it leads to.

* `history_invariant`: what relates the empty history to the start and is kept by
  one step relates every history to the state it leads to;
* `Throughout`, `Throughout.of_invariant`: the same for the runs whose every step
  meets a condition on the history, the state and the input, and what follows at
  each of their steps;
* `observe`: a machine with a ghost observer beside it;
* `final_filter`, `ownOutputs_filter`: the unwinding rule for two runs. If foreign
  inputs leave a view of the state alone, and own inputs act on that view and answer
  from it, then the view and the own answers are those of the run without the
  foreign inputs.
-/

set_option autoImplicit false

namespace Library.Run

variable {σ ι ο ν : Type*}

/-- The state after a history. -/
def final (step : σ → ι → σ × ο) (start : σ) (history : List ι) : σ :=
  history.foldl (fun state input => (step state input).1) start

/-- The outputs given along a history, in order. -/
def outputs (step : σ → ι → σ × ο) : σ → List ι → List ο
  | _, [] => []
  | state, input :: rest => (step state input).2 :: outputs step (step state input).1 rest

variable (step : σ → ι → σ × ο)

@[simp] theorem final_nil (start : σ) : final step start [] = start := rfl

@[simp] theorem final_cons (start : σ) (input : ι) (rest : List ι) :
    final step start (input :: rest) = final step (step start input).1 rest := rfl

theorem final_append (start : σ) (first second : List ι) :
    final step start (first ++ second) = final step (final step start first) second := by
  simp only [final, List.foldl_append]

@[simp] theorem final_concat (start : σ) (history : List ι) (input : ι) :
    final step start (history ++ [input]) = (step (final step start history) input).1 := by
  rw [final_append, final_cons, final_nil]

@[simp] theorem outputs_cons (start : σ) (input : ι) (rest : List ι) :
    outputs step start (input :: rest) =
      (step start input).2 :: outputs step (step start input).1 rest := rfl

@[simp] theorem outputs_concat (start : σ) (history : List ι) (input : ι) :
    outputs step start (history ++ [input]) =
      outputs step start history ++ [(step (final step start history) input).2] := by
  induction history generalizing start with
  | nil => rfl
  | cons head tail ih => simp only [List.cons_append, outputs_cons, final_cons, ih]

/-- Every output is given at some input of the history. -/
theorem mem_outputs_iff {start : σ} {history : List ι} {output : ο} :
    output ∈ outputs step start history ↔
      ∃ before input after, history = before ++ input :: after ∧
        output = (step (final step start before) input).2 := by
  induction history generalizing start with
  | nil => simp [outputs]
  | cons head tail ih =>
    rw [outputs_cons, List.mem_cons, ih]
    constructor
    · rintro (rfl | ⟨before, input, after, rfl, given⟩)
      · exact ⟨[], head, tail, rfl, rfl⟩
      · exact ⟨head :: before, input, after, rfl, given⟩
    · rintro ⟨before, input, after, split, given⟩
      cases before with
      | nil =>
        obtain ⟨rfl, rfl⟩ := List.cons.inj split
        exact Or.inl given
      | cons first before =>
        obtain ⟨rfl, rest⟩ := List.cons.inj split
        exact Or.inr ⟨before, input, after, rest, given⟩

/-- The output given at an input. -/
theorem outputs_getElem? (start : σ) (before : List ι) (input : ι) (after : List ι) :
    (outputs step start (before ++ input :: after))[before.length]? =
      some (step (final step start before) input).2 := by
  induction before generalizing start with
  | nil => rfl
  | cons head before ih =>
    rw [List.cons_append, outputs_cons, List.length_cons, List.getElem?_cons_succ, final_cons]
    exact ih _

/-- Inductive rule for a relation between a history and the state it leads to. -/
theorem history_invariant (Invariant : List ι → σ → Prop) {start : σ}
    (initial : Invariant [] start)
    (preserved : ∀ history input, Invariant history (final step start history) →
      Invariant (history ++ [input]) (step (final step start history) input).1)
    (history : List ι) : Invariant history (final step start history) := by
  induction history using List.reverseRecOn with
  | nil => exact initial
  | append_singleton history input ih =>
    rw [final_concat]
    exact preserved history input ih

/-- Every step of the run meets a condition on the history before it, the state it
starts from and its input. -/
def Throughout (Condition : List ι → σ → ι → Prop) (start : σ) (history : List ι) : Prop :=
  ∀ before input after, history = before ++ input :: after →
    Condition before (final step start before) input

theorem throughout_nil (Condition : List ι → σ → ι → Prop) (start : σ) :
    Throughout step Condition start [] := by
  intro before input after split
  simp at split

theorem throughout_concat (Condition : List ι → σ → ι → Prop) (start : σ)
    (history : List ι) (last : ι) :
    Throughout step Condition start (history ++ [last]) ↔
      Throughout step Condition start history ∧
        Condition history (final step start history) last := by
  constructor
  · intro every
    refine ⟨fun before input after split => ?_, every history last [] rfl⟩
    exact every before input (after ++ [last]) (by simp [split])
  · intro parts before input after split
    obtain ⟨earlier, now⟩ := parts
    rcases List.eq_nil_or_concat after with rfl | ⟨rest, final, rfl⟩
    · obtain ⟨rfl, same⟩ := List.append_inj' split rfl
      obtain rfl : last = input := by simpa using same
      exact now
    · have prefixes : history = before ++ input :: rest := by
        have shape : history ++ [last] = (before ++ input :: rest) ++ [final] := by
          simpa using split
        exact (List.append_inj' shape rfl).1
      exact earlier before input rest prefixes

theorem throughout_cons (Condition : List ι → σ → ι → Prop) (start : σ)
    (input : ι) (rest : List ι) :
    Throughout step Condition start (input :: rest) ↔
      Condition [] start input ∧
        Throughout step (fun before => Condition (input :: before)) (step start input).1 rest := by
  constructor
  · intro every
    refine ⟨every [] input rest rfl, fun before later after split => ?_⟩
    exact every (input :: before) later after (by rw [split, List.cons_append])
  · intro parts before other after split
    obtain ⟨now, later⟩ := parts
    cases before with
    | nil =>
      obtain ⟨rfl, rfl⟩ := List.cons.inj split
      exact now
    | cons head before =>
      obtain ⟨rfl, tail⟩ := List.cons.inj split
      exact later before other after tail

/-- A condition that can be decided at one step can be decided along a run. -/
def decideThroughout (Condition : List ι → σ → ι → Prop)
    (decideStep : ∀ before state input, Decidable (Condition before state input)) :
    (start : σ) → (history : List ι) → Decidable (Throughout step Condition start history)
  | start, [] => isTrue (throughout_nil step Condition start)
  | start, input :: rest =>
    have := decideStep [] start input
    have := decideThroughout (fun before => Condition (input :: before))
      (fun before => decideStep (input :: before)) (step start input).1 rest
    decidable_of_iff _ (throughout_cons step Condition start input rest).symm

instance (Condition : List ι → σ → ι → Prop)
    [decideStep : ∀ before state input, Decidable (Condition before state input)]
    (start : σ) (history : List ι) : Decidable (Throughout step Condition start history) :=
  decideThroughout step Condition decideStep start history

/-- Inductive rule for the runs whose every step meets a condition. -/
theorem history_invariant_throughout {Condition : List ι → σ → ι → Prop}
    (Invariant : List ι → σ → Prop) {start : σ}
    (initial : Invariant [] start)
    (preserved : ∀ history input, Invariant history (final step start history) →
      Condition history (final step start history) input →
        Invariant (history ++ [input]) (step (final step start history) input).1)
    (history : List ι) (meets : Throughout step Condition start history) :
    Invariant history (final step start history) := by
  induction history using List.reverseRecOn with
  | nil => exact initial
  | append_singleton history input ih =>
    obtain ⟨earlier, now⟩ := (throughout_concat step Condition start history input).mp meets
    rw [final_concat]
    exact preserved history input (ih earlier) now

section Throughout

variable {step}
variable {Condition Property : List ι → σ → ι → Prop} {start : σ} {history : List ι}

theorem throughout_of_forall (holds : ι → Prop) (every : ∀ input ∈ history, holds input) :
    Throughout step (fun _ _ input => holds input) start history := by
  intro before input after split
  exact every input (by simp [split])

theorem Throughout.and (first : Throughout step Condition start history)
    (second : Throughout step Property start history) :
    Throughout step (fun before state input =>
      Condition before state input ∧ Property before state input) start history :=
  fun before input after split =>
    ⟨first before input after split, second before input after split⟩

theorem Throughout.left {before after : List ι}
    (every : Throughout step Condition start (before ++ after)) :
    Throughout step Condition start before := by
  intro first input rest split
  exact every first input (rest ++ after) (by simp [split])

/-- What follows at one step from the invariant and the condition follows at every
step of a run that meets the condition throughout. -/
theorem Throughout.of_invariant (Invariant : List ι → σ → Prop)
    (initial : Invariant [] start)
    (preserved : ∀ history input, Invariant history (final step start history) →
      Condition history (final step start history) input →
        Invariant (history ++ [input]) (step (final step start history) input).1)
    (sound : ∀ history input, Invariant history (final step start history) →
      Condition history (final step start history) input →
        Property history (final step start history) input)
    (meets : Throughout step Condition start history) :
    Throughout step Property start history := by
  intro before input after split
  subst split
  exact sound before input
    (history_invariant_throughout step Invariant initial preserved before meets.left)
    (meets before input after rfl)

end Throughout

section Observer

variable {γ : Type*}

/-- The machine with an observer beside it: the observer sees each step's state and
input and changes nothing of them. -/
def observe (watch : σ → γ → ι → γ) (observed : σ × γ) (input : ι) : (σ × γ) × ο :=
  (((step observed.1 input).1, watch observed.1 observed.2 input), (step observed.1 input).2)

@[simp] theorem final_observe_fst (watch : σ → γ → ι → γ) (start : σ × γ) (history : List ι) :
    (final (observe step watch) start history).1 = final step start.1 history := by
  induction history generalizing start with
  | nil => rfl
  | cons input rest ih =>
    simp only [final_cons]
    exact ih _

end Observer

section Unwinding

variable (own : ι → Prop) [DecidablePred own] (view : σ → ν)

/-- The outputs given at the own inputs of a history. -/
def ownOutputs : σ → List ι → List ο
  | _, [] => []
  | state, input :: rest =>
    if own input then (step state input).2 :: ownOutputs (step state input).1 rest
    else ownOutputs (step state input).1 rest

/-- Foreign inputs do not touch the view. -/
def Frames : Prop :=
  ∀ state input, ¬ own input → view (step state input).1 = view state

/-- Own inputs act on the view, and answer from it, alike in states with one view. -/
def ActsOnView : Prop :=
  ∀ first second input, own input → view first = view second →
    view (step first input).1 = view (step second input).1 ∧
      (step first input).2 = (step second input).2

variable {step own view}

theorem final_filter (frames : Frames step own view) (acts : ActsOnView step own view)
    {first second : σ} (same : view first = view second) (history : List ι) :
    view (final step first history) = view (final step second (history.filter own)) := by
  induction history generalizing first second with
  | nil => exact same
  | cons input rest ih =>
    by_cases mine : own input
    · rw [List.filter_cons_of_pos (by simpa using mine), final_cons, final_cons]
      exact ih (acts first second input mine same).1
    · rw [List.filter_cons_of_neg (by simpa using mine), final_cons]
      exact ih ((frames first input mine).trans same)

theorem ownOutputs_filter (frames : Frames step own view) (acts : ActsOnView step own view)
    {first second : σ} (same : view first = view second) (history : List ι) :
    ownOutputs step own first history = outputs step second (history.filter own) := by
  induction history generalizing first second with
  | nil => rfl
  | cons input rest ih =>
    by_cases mine : own input
    · obtain ⟨views, answers⟩ := acts first second input mine same
      rw [List.filter_cons_of_pos (by simpa using mine), outputs_cons, ownOutputs, if_pos mine,
        answers, ih views]
    · rw [List.filter_cons_of_neg (by simpa using mine), ownOutputs, if_neg mine]
      exact ih ((frames first input mine).trans same)

end Unwinding

end Library.Run
