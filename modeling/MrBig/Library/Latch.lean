import MrBig.Library.Run

/-!
# Facts that events set and clear

A fact about a state that some events make true, some make false and all others leave as it is.
It holds after a run when it held before or an event set it, and none has cleared it since.
-/

set_option autoImplicit false

namespace Library.Latch

variable {σ ι ο : Type*} {Sets Clears : ι → Prop} {initially : Prop}

/-- Set by an event, or from the start, and not cleared since. -/
def Stands (Sets Clears : ι → Prop) (initially : Prop) (history : List ι) : Prop :=
  (initially ∧ ∀ e ∈ history, ¬ Clears e) ∨
    ∃ before e after, history = before ++ e :: after ∧ Sets e ∧ ∀ later ∈ after, ¬ Clears later

@[simp] theorem stands_nil : Stands Sets Clears initially [] ↔ initially := by
  simp [Stands]

theorem stands_concat {history : List ι} {e : ι} :
    Stands Sets Clears initially (history ++ [e]) ↔
      Sets e ∨ Stands Sets Clears initially history ∧ ¬ Clears e := by
  constructor
  · rintro (⟨first, kept⟩ | ⟨before, cause, after, split, sets, kept⟩)
    · refine .inr ⟨.inl ⟨first, fun later member => ?_⟩, kept e (by simp)⟩
      exact kept later (List.mem_append_left [e] member)
    · rcases List.eq_nil_or_concat after with rfl | ⟨init, last, rfl⟩
      · obtain ⟨-, same⟩ := List.append_inj' split rfl
        obtain rfl : e = cause := by simpa using same
        exact .inl sets
      · rw [List.concat_eq_append, ← List.cons_append, ← List.append_assoc] at split
        obtain ⟨rfl, same⟩ := List.append_inj' split rfl
        obtain rfl : e = last := by simpa using same
        refine .inr ⟨.inr ⟨before, cause, init, rfl, sets, fun later member => ?_⟩, ?_⟩
        · exact kept later (by simp [member])
        · exact kept e (by simp)
  · rintro (sets | ⟨⟨first, kept⟩ | ⟨before, cause, after, rfl, sets, kept⟩, not⟩)
    · exact .inr ⟨history, e, [], rfl, sets, by simp⟩
    · refine .inl ⟨first, fun later member => ?_⟩
      rcases List.mem_append.mp member with old | new
      · exact kept later old
      · rwa [List.mem_singleton.mp new]
    · refine .inr ⟨before, cause, after ++ [e], by simp, sets, fun later member => ?_⟩
      rcases List.mem_append.mp member with old | new
      · exact kept later old
      · rwa [List.mem_singleton.mp new]

/-- A fact that each step sets, clears or keeps holds after a run exactly when it stands. -/
theorem final_iff_stands {step : σ → ι → σ × ο} {Holds : σ → Prop}
    (latched : ∀ state e, Holds (step state e).1 ↔ Sets e ∨ Holds state ∧ ¬ Clears e)
    (start : σ) (history : List ι) :
    Holds (Run.final step start history) ↔ Stands Sets Clears (Holds start) history := by
  induction history using List.reverseRecOn with
  | nil => simp
  | append_singleton history e ih => rw [Run.final_concat, latched, ih, stands_concat]

end Library.Latch
