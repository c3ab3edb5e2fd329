import Mathlib.Data.List.Basic

/-!
# A cursor on a list that is handed over piece by piece

The receiver takes some of what it is offered, and is offered the rest the next time.
The position carries its bound, so what is done and what is left always make up the
whole list.
-/

set_option autoImplicit false

namespace Library

structure Cursor {α : Type*} (whole : List α) where
  pos : Nat
  inside : pos ≤ whole.length

namespace Cursor

variable {α : Type*} {whole : List α}

def start (whole : List α) : Cursor whole := ⟨0, Nat.zero_le whole.length⟩

def done (c : Cursor whole) : List α := whole.take c.pos

def rest (c : Cursor whole) : List α := whole.drop c.pos

theorem length_rest (c : Cursor whole) : c.rest.length = whole.length - c.pos :=
  List.length_drop

/-- The receiver takes `n` more, or all that is left if that is less. -/
def advance (c : Cursor whole) (n : Nat) : Cursor whole :=
  ⟨c.pos + min n c.rest.length, by
    have bound := c.inside
    rw [length_rest]
    omega⟩

theorem pos_advance (c : Cursor whole) (n : Nat) :
    (c.advance n).pos = c.pos + min n c.rest.length := rfl

@[simp] theorem rest_start : (start whole).rest = whole := rfl

theorem done_append_rest (c : Cursor whole) : c.done ++ c.rest = whole :=
  List.take_append_drop c.pos whole

/-- What is done is told from how much is left. -/
theorem done_eq_take (c : Cursor whole) : c.done = whole.take (whole.length - c.rest.length) := by
  have bound := c.inside
  rw [done, length_rest, Nat.sub_sub_self bound]

theorem done_of_rest_nil {c : Cursor whole} (nothing : c.rest = []) : c.done = whole := by
  rw [done_eq_take, nothing, List.length_nil, Nat.sub_zero, List.take_length]

/-- Nothing is lost and nothing is repeated by an advance. -/
theorem done_advance (c : Cursor whole) (n : Nat) :
    (c.advance n).done = c.done ++ c.rest.take n := by
  rw [done, pos_advance, List.take_add]
  exact congrArg (c.done ++ ·) List.take_eq_take_min.symm

theorem length_rest_advance (c : Cursor whole) (n : Nat) :
    (c.advance n).rest.length = c.rest.length - min n c.rest.length := by
  rw [length_rest, pos_advance, Nat.sub_add_eq, length_rest]

end Cursor

end Library
