import Mathlib.Data.List.ReduceOption
import Mathlib.Data.List.Perm.Basic

/-!
# Tables of slots

A table has a fixed number of slots, each empty or with an entry in it. An entry goes into
the first empty slot (`fill`) and is taken out of the first slot whose entry is the one
looked for (`vacate`). Up to the order, the entries of the table are then those before with
one more (`fill_spec`) or one less (`vacate_spec`).
-/

set_option autoImplicit false

namespace Library.Slots

variable {α : Type*}

def entries (slots : List (Option α)) : List α := slots.reduceOption

/-- The table with the entry in its first empty slot, if there is one. -/
def fill (a : α) : List (Option α) → Option (List (Option α))
  | [] => none
  | none :: rest => some (some a :: rest)
  | some b :: rest => (fill a rest).map (some b :: ·)

/-- The first entry that is looked for, and the table with its slot empty. -/
def vacate (wanted : α → Bool) : List (Option α) → Option (α × List (Option α))
  | [] => none
  | none :: rest => (vacate wanted rest).map fun found => (found.1, none :: found.2)
  | some b :: rest =>
    if wanted b then some (b, none :: rest)
    else (vacate wanted rest).map fun found => (found.1, some b :: found.2)

@[simp] theorem entries_nil : entries ([] : List (Option α)) = [] := rfl

@[simp] theorem entries_cons_none (slots : List (Option α)) :
    entries (none :: slots) = entries slots := rfl

@[simp] theorem entries_cons_some (a : α) (slots : List (Option α)) :
    entries (some a :: slots) = a :: entries slots := rfl

@[simp] theorem entries_replicate_none (n : Nat) :
    entries (List.replicate n (none : Option α)) = [] := by
  induction n with
  | zero => rfl
  | succ n ih => simp [List.replicate_succ, ih]

theorem entries_length_le (slots : List (Option α)) : (entries slots).length ≤ slots.length :=
  List.reduceOption_length_le slots

/-- With fewer entries than slots there is room for one more. -/
theorem fill_spec {slots : List (Option α)} (room : (entries slots).length < slots.length)
    (a : α) :
    ∃ slots', fill a slots = some slots' ∧ slots'.length = slots.length ∧
      (entries slots').Perm (a :: entries slots) := by
  induction slots with
  | nil => simp at room
  | cons slot rest ih =>
    cases slot with
    | none => exact ⟨some a :: rest, rfl, rfl, by simp⟩
    | some b =>
      obtain ⟨rest', filled, length, permuted⟩ := ih (by simpa using room)
      refine ⟨some b :: rest', by simp [fill, filled], by simp [length], ?_⟩
      exact (permuted.cons b).trans (List.Perm.swap a b _)

theorem fill_eq_none_iff {slots : List (Option α)} {a : α} :
    fill a slots = none ↔ slots.length ≤ (entries slots).length := by
  induction slots with
  | nil => simp [fill]
  | cons slot rest ih =>
    have fits := entries_length_le rest
    cases slot with
    | none =>
      simp [fill]
      omega
    | some b => simp [fill, ih]

theorem vacate_eq_none_iff {wanted : α → Bool} {slots : List (Option α)} :
    vacate wanted slots = none ↔ ∀ a ∈ entries slots, ¬ wanted a := by
  induction slots with
  | nil => simp [vacate]
  | cons slot rest ih =>
    cases slot with
    | none => simpa [vacate] using ih
    | some b => by_cases found : wanted b <;> simp [vacate, found, ih]

theorem vacate_spec {wanted : α → Bool} {slots slots' : List (Option α)} {a : α}
    (vacated : vacate wanted slots = some (a, slots')) :
    wanted a ∧ slots'.length = slots.length ∧ (entries slots).Perm (a :: entries slots') := by
  induction slots generalizing slots' with
  | nil => cases vacated
  | cons slot rest ih =>
    cases slot with
    | none =>
      obtain ⟨⟨a', rest'⟩, found, same⟩ := Option.map_eq_some_iff.mp vacated
      cases same
      obtain ⟨hit, length, permuted⟩ := ih found
      exact ⟨hit, by simp [length], by simpa using permuted⟩
    | some b =>
      unfold vacate at vacated
      split at vacated
      next hit =>
        cases vacated
        exact ⟨hit, rfl, by simp⟩
      next =>
        obtain ⟨⟨a', rest'⟩, found, same⟩ := Option.map_eq_some_iff.mp vacated
        cases same
        obtain ⟨hit, length, permuted⟩ := ih found
        refine ⟨hit, by simp [length], ?_⟩
        exact (permuted.cons b).trans (List.Perm.swap a' b _)

end Library.Slots
