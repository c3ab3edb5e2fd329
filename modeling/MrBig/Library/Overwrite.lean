import Mathlib.Data.List.Basic

/-!
# Views that inputs overwrite or leave alone

A view of the state is overwritten if what an input makes of it is either a value of the
input's own or the view as it was. Two runs of the same inputs then end with the same
view exactly if they began with it or some input overwrites it.
-/

set_option autoImplicit false

namespace Library.Overwrite

variable {σ ι β : Type*}

/-- What an input writes into the view, if it does. -/
def Overwrites (step : σ → ι → σ) (view : σ → β) (written : ι → Option β) : Prop :=
  ∀ state input, view (step state input) = (written input).getD (view state)

/-- The value of the last input that writes. -/
def lastWritten (written : ι → Option β) : List ι → Option β
  | [] => none
  | input :: rest => (lastWritten written rest).or (written input)

theorem lastWritten_eq_none_iff {written : ι → Option β} {inputs : List ι} :
    lastWritten written inputs = none ↔ ∀ input ∈ inputs, written input = none := by
  induction inputs with
  | nil => simp [lastWritten]
  | cons input rest ih => simp [lastWritten, ih, and_comm]

/-- A run leaves the last value written, or the view it began with. -/
theorem Overwrites.foldl {step : σ → ι → σ} {view : σ → β} {written : ι → Option β}
    (overwrites : Overwrites step view written) (start : σ) (inputs : List ι) :
    view (inputs.foldl step start) = (lastWritten written inputs).getD (view start) := by
  induction inputs generalizing start with
  | nil => rfl
  | cons input rest ih =>
    rw [List.foldl_cons, ih, overwrites, lastWritten]
    cases lastWritten written rest <;> rfl

theorem Overwrites.foldl_eq_iff {step : σ → ι → σ} {view : σ → β} {written : ι → Option β}
    (overwrites : Overwrites step view written) (start start' : σ) (inputs : List ι) :
    view (inputs.foldl step start) = view (inputs.foldl step start') ↔
      view start = view start' ∨ ∃ input ∈ inputs, written input ≠ none := by
  rw [overwrites.foldl, overwrites.foldl]
  cases last : lastWritten written inputs with
  | none =>
    have silent := lastWritten_eq_none_iff.mp last
    exact ⟨.inl, fun either => either.elim id fun ⟨input, inside, nonempty⟩ =>
      absurd (silent input inside) nonempty⟩
  | some value =>
    refine ⟨fun _ => .inr ?_, fun _ => rfl⟩
    by_contra silent
    have nothing : lastWritten written inputs = none :=
      lastWritten_eq_none_iff.mpr (by simpa using silent)
    rw [last] at nothing
    cases nothing

/-- A view that every step makes from the view alone is the same at the end of two runs
that began with the same. -/
theorem foldl_congr {step : σ → ι → σ} {view : σ → β}
    (closed : ∀ state state' input, view state = view state' →
      view (step state input) = view (step state' input))
    {start start' : σ} (same : view start = view start') (inputs : List ι) :
    view (inputs.foldl step start) = view (inputs.foldl step start') := by
  induction inputs generalizing start start' with
  | nil => exact same
  | cons input rest ih => exact ih (closed start start' input same)

end Library.Overwrite
