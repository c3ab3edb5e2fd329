import Mathlib.Data.List.Basic

/-!
# Segments of a run

A segment leads a machine from one state to another through a list of inputs, and every
input meets a condition in the state that it is taken in. Segments are put together one
behind the other (`Segment.append`) and in loops (`Segment.flatMap`).
-/

set_option autoImplicit false

namespace Library

variable {σ ι α : Type*}

def Segment (act : σ → ι → σ) (Condition : σ → ι → Prop) : σ → List ι → σ → Prop
  | s, [], s' => s = s'
  | s, i :: rest, s' => Condition s i ∧ Segment act Condition (act s i) rest s'

namespace Segment

variable {act : σ → ι → σ} {Condition : σ → ι → Prop} {s mid s' : σ} {inputs : List ι}

@[simp] theorem nil_iff : Segment act Condition s [] s' ↔ s = s' := Iff.rfl

@[simp] theorem cons_iff {i : ι} {rest : List ι} :
    Segment act Condition s (i :: rest) s' ↔
      Condition s i ∧ Segment act Condition (act s i) rest s' := Iff.rfl

theorem append {rest : List ι} (first : Segment act Condition s inputs mid)
    (second : Segment act Condition mid rest s') :
    Segment act Condition s (inputs ++ rest) s' := by
  induction inputs generalizing s with
  | nil =>
    obtain rfl := first
    exact second
  | cons i inputs ih => exact ⟨first.1, ih first.2⟩

theorem flatten_cons {rest : List (List ι)} (first : Segment act Condition s inputs mid)
    (second : Segment act Condition mid rest.flatten s') :
    Segment act Condition s (inputs :: rest).flatten s' := by
  rw [List.flatten_cons]
  exact append first second

/-- A loop whose body comes back to the state it started from. -/
theorem flatMap {body : α → List ι} {items : List α}
    (each : ∀ item ∈ items, Segment act Condition s (body item) s) :
    Segment act Condition s (items.flatMap body) s := by
  induction items with
  | nil => exact rfl
  | cons item items ih =>
    rw [List.flatMap_cons]
    apply append (each item List.mem_cons_self)
    exact ih fun other member => each other (List.mem_cons_of_mem item member)

/-- A loop over single inputs that leave the state alone. -/
theorem of_still (each : ∀ i ∈ inputs, Condition s i ∧ act s i = s) :
    Segment act Condition s inputs s := by
  induction inputs with
  | nil => exact rfl
  | cons i inputs ih =>
    obtain ⟨meets, still⟩ := each i List.mem_cons_self
    refine ⟨meets, ?_⟩
    rw [still]
    exact ih fun other member => each other (List.mem_cons_of_mem i member)

theorem foldl_eq (segment : Segment act Condition s inputs s') : inputs.foldl act s = s' := by
  induction inputs generalizing s with
  | nil => exact segment
  | cons i inputs ih => exact ih segment.2

/-- Every input of the segment meets the condition where it is taken. -/
theorem condition {before after : List ι} {i : ι}
    (segment : Segment act Condition s (before ++ i :: after) s') :
    Condition (before.foldl act s) i := by
  induction before generalizing s with
  | nil => exact segment.1
  | cons head before ih => exact ih segment.2

end Segment

end Library
