import MrBig.Source.Arena

/-!
# Appending to the report is all or nothing, but for the exact fit

The capacity test lets a text through that fills the room to the last byte. Its last
character then makes way for the NUL and the append pointer comes to stand on `End`.
Every other length is appended whole or not at all.
-/

set_option autoImplicit false

namespace MrBig.Guarantees.AppendWhole
open Library Library.Memory Source

/-- The bytes from `Start` to `CurrentStart`. -/
def reportText (state : ArenaState) : Text :=
  load state.memory state.startAddr (state.currentStart - state.startAddr)

/-- The C string at an address. -/
def IsCString (memory : Nat → Char) (address : Nat) (text : Text) : Prop :=
  load memory address text.length = text ∧ memory (address + text.length) = nul ∧ nul ∉ text

/-- A call of clog_ArenaAppend with the active `End` at `aEnd` changes nothing of the
report, or appends the whole text and a NUL inside the arena. -/
def AllOrNothing (aEnd : Nat) (printed : Text) (before : ArenaState)
    (result : ArenaState × Option Nat) : Prop :=
  (result.2 ≠ none ∧ result.1.currentStart = before.currentStart) ∨
  (result.2 = none ∧ reportText result.1 = reportText before ++ printed ∧
    result.1.currentStart < aEnd ∧ result.1.memory result.1.currentStart = nul ∧
    (nul ∉ reportText before ++ printed →
      IsCString result.1.memory result.1.startAddr (reportText result.1)))

section

variable {bits aEnd : Nat} {state : ArenaState} {printed : Text}

/-- With a byte to spare, vsnprintf writes the text and its NUL. -/
theorem vsnprintf_short {memory : Nat → Char} {address n : Nat} (short : printed.length < n) :
    vsnprintf memory address n printed = store memory address (printed ++ [nul]) := by
  unfold vsnprintf
  rw [if_neg (by omega), List.take_of_length_le (by omega)]

theorem vsnprintf_below {memory : Nat → Char} {address room x : Nat} {printed : Text}
    (below : x < address) : vsnprintf memory address room printed x = memory x := by
  unfold vsnprintf
  split
  · rfl
  · exact store_outside memory (Or.inl below)

theorem vsnprintf_outside {memory : Nat → Char} {address n x : Nat}
    (outside : address + n ≤ x) : vsnprintf memory address n printed x = memory x := by
  unfold vsnprintf
  split
  · rfl
  · refine store_outside _ (Or.inr ?_)
    rw [List.length_append, List.length_take, List.length_singleton]
    omega

theorem load_printed (memory : Nat → Char) (address : Nat) :
    load (store memory address (printed ++ [nul])) address printed.length = printed ∧
      store memory address (printed ++ [nul]) (address + printed.length) = nul := by
  have whole := load_store_self memory address (printed ++ [nul])
  rw [List.length_append, List.length_singleton, load_add] at whole
  obtain ⟨text, terminator⟩ := List.append_inj whole (load_length _ _ _)
  rw [load, load] at terminator
  exact ⟨text, List.cons.inj terminator |>.1⟩

theorem reportText_append {memory : Nat → Char} (started : state.startAddr ≤ state.currentStart) :
    reportText { state with
        memory := store memory state.currentStart (printed ++ [nul])
        currentStart := state.currentStart + printed.length } =
      load memory state.startAddr (state.currentStart - state.startAddr) ++ printed := by
  have length : state.currentStart + printed.length - state.startAddr =
      state.currentStart - state.startAddr + printed.length := by omega
  have position : state.startAddr + (state.currentStart - state.startAddr) =
      state.currentStart := by omega
  unfold reportText
  dsimp only
  rw [length, load_add, position, (load_printed memory state.currentStart).1,
    load_store_outside _ (by omega)]

end

/-- Exactly the texts that do not fill the room to the last byte are appended whole or
not at all. -/
theorem arenaAppend_allOrNothing_iff (bits : Nat) (state : ArenaState) (aEnd : Nat)
    (printed : Text) (started : state.startAddr ≤ state.currentStart)
    (ordered : state.currentStart ≤ aEnd) (room : aEnd - state.currentStart < 2 ^ bits) :
    AllOrNothing aEnd printed state (arenaAppend (bits + 1) state aEnd printed) ↔
      printed.length ≠ aEnd - state.currentStart := by
  rw [arenaAppend_eq ordered room]
  dsimp only
  rcases Nat.lt_trichotomy printed.length (aEnd - state.currentStart) with short | precise | long
  · rw [if_neg (by omega), vsnprintf_short short]
    have text := @reportText_append state printed state.memory started
    have terminator := (@load_printed printed state.memory state.currentStart).2
    refine iff_of_true (Or.inr ⟨rfl, text, ?_, terminator, fun clean => ⟨?_, ?_, ?_⟩⟩) (by omega)
    · dsimp only
      omega
    · rw [reportText, load_length]
    · rw [reportText, load_length]
      dsimp only
      rw [show state.startAddr + (state.currentStart + printed.length - state.startAddr) =
        state.currentStart + printed.length by omega]
      exact terminator
    · rw [text]
      exact clean
  · rw [if_neg (by omega)]
    apply iff_of_false
    · rintro (⟨threw, _⟩ | ⟨_, _, inside, _⟩)
      · exact threw rfl
      · dsimp only at inside
        omega
    · omega
  · rw [if_pos long]
    refine iff_of_true (Or.inl ⟨?_, rfl⟩) (by omega)
    simp

/-- An arena of four bytes holds a text of three. -/
theorem arenaAppend_allOrNothing_iff_three :
    AllOrNothing 68 "abc".toList ⟨fun _ => 'x', 64, 68, 64⟩
      (arenaAppend 64 ⟨fun _ => 'x', 64, 68, 64⟩ 68 "abc".toList) :=
  (arenaAppend_allOrNothing_iff 63 ⟨fun _ => 'x', 64, 68, 64⟩ 68 "abc".toList
    (by decide) (by decide) (by decide)).mpr (by decide)

/-- A text of four fills it: its last character is lost, a NUL stands in the report in its
place, and no error is thrown. -/
theorem arenaAppend_exact_fit :
    reportText (arenaAppend 64 ⟨fun _ => 'x', 64, 68, 64⟩ 68 "abcd".toList).1 =
        ['a', 'b', 'c', nul] ∧
      ¬ AllOrNothing 68 "abcd".toList ⟨fun _ => 'x', 64, 68, 64⟩
        (arenaAppend 64 ⟨fun _ => 'x', 64, 68, 64⟩ 68 "abcd".toList) := by
  refine ⟨by decide, ?_⟩
  rintro (⟨threw, _⟩ | ⟨_, _, inside, _⟩)
  · exact threw (by decide)
  · exact absurd inside (by decide)

end MrBig.Guarantees.AppendWhole
