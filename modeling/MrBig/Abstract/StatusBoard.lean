import Mathlib.Data.List.ReduceOption
import MrBig.Source.Status

/-!
# What the status list is for

Seen from outside, `mrsend` keeps a board: for each machine and test the colour and
the time of the text sent last. `boardOf` reads the board off the list, and one call
changes it exactly by posting what the call hands over (`boardOf_mrsend`), whatever
exit the call takes.
-/

set_option autoImplicit false

namespace MrBig.Abstract
open Library Source

structure Entry where
  color : Text
  time : Int
  deriving DecidableEq, Repr

abbrev Board := Pair → Option Entry

def Board.empty : Board := fun _ => none

/-- Post what a call handed over; a silent call posts nothing. -/
def Board.post (board : Board) (o : Handover) : Board :=
  Function.update board o.pair (some ⟨o.color, o.time⟩)

def statusEntry (s : TestStatus) : Entry := ⟨s.color, s.last⟩

def boardOf (teststatus : List TestStatus) : Board :=
  fun p => (KeyedList.find TestStatus.pair p teststatus).map statusEntry

/-- The colour a return value of `insert_status` puts in the text. -/
def sentColor (c : Call) (is : Nat) : Text := if is = 1 then green else c.color

theorem mrsend_output (teststatus : List TestStatus) (c : Call) :
    (mrsend teststatus c).2 =
      if (insertStatus teststatus c).2 = 0 then none
      else some (c.handover (sentColor c (insertStatus teststatus c).2)) := by
  unfold mrsend sentColor
  dsimp only
  split
  · rfl
  · split <;> rfl

/-- The call's own record after the call: kept if nothing is due, otherwise with the
colour that goes into the text and the time of the call. -/
theorem trackStatus_entry (c : Call) (r : Option TestStatus) :
    (∃ s, r = some s ∧ Unchanged s c ∧ trackStatus c r = (s, 0)) ∨
    ((∀ s, r = some s → ¬ Unchanged s c) ∧ (trackStatus c r).2 ≠ 0 ∧
      statusEntry (trackStatus c r).1 = ⟨sentColor c (trackStatus c r).2, c.now⟩) := by
  cases r with
  | none => exact .inr ⟨by simp, by simp [trackStatus], by simp [trackStatus, newStatus,
      statusEntry, sentColor]⟩
  | some s =>
    have exit := updateStatus_exit s c
    simp only [trackStatus]
    generalize updateStatus s c = result at exit ⊢
    cases exit with
    | unchanged repeats => exact .inl ⟨s, rfl, repeats, rfl⟩
    | reset due calm => exact .inr ⟨by simpa using due, by simp, rfl⟩
    | expired alarm past => exact .inr ⟨by simpa using alarm.not_unchanged, by simp, rfl⟩
    | held alarm running =>
      refine .inr ⟨by simpa using alarm.not_unchanged, by simp, ?_⟩
      simp [statusEntry, sentColor, alarm.1]

/-- A call is silent exactly when its report repeats the record within `mrsleep`. -/
theorem mrsend_silent_iff (teststatus : List TestStatus) (c : Call) :
    (mrsend teststatus c).2 = none ↔
      ∃ s, KeyedList.find TestStatus.pair c.pair teststatus = some s ∧ Unchanged s c := by
  rw [mrsend_output, insertStatus_verdict]
  rcases trackStatus_entry c (KeyedList.find TestStatus.pair c.pair teststatus) with
    ⟨s, found, repeats, exit⟩ | ⟨due, sends, -⟩
  · simp only [exit, if_true, true_iff]
    exact ⟨s, found, repeats⟩
  · rw [if_neg sends]
    simp only [reduceCtorEq, false_iff, not_exists, not_and]
    exact due

/-- One call changes the board exactly by what it hands over. -/
theorem boardOf_mrsend (teststatus : List TestStatus) (c : Call) :
    boardOf (mrsend teststatus c).1 =
      (mrsend teststatus c).2.elim (boardOf teststatus) (boardOf teststatus).post := by
  have other : ∀ p, p ≠ c.pair →
      boardOf (mrsend teststatus c).1 p = boardOf teststatus p := by
    intro p different
    simp only [boardOf, mrsend_teststatus, find_insertStatus_other teststatus c different]
  have self : boardOf (mrsend teststatus c).1 c.pair = some (statusEntry
      (trackStatus c (KeyedList.find TestStatus.pair c.pair teststatus)).1) := by
    simp only [boardOf, mrsend_teststatus, find_insertStatus_self, Option.map_some]
  rw [mrsend_output, insertStatus_verdict]
  funext p
  rcases trackStatus_entry c (KeyedList.find TestStatus.pair c.pair teststatus) with
    ⟨s, found, -, exit⟩ | ⟨-, sends, entry⟩
  · rw [exit, if_pos rfl, Option.elim_none]
    by_cases same : p = c.pair
    · rw [same, self, exit, boardOf, found, Option.map_some]
    · exact other p same
  · rw [if_neg sends, Option.elim_some]
    by_cases same : p = c.pair
    · have pairs : (c.handover (sentColor c (trackStatus c
          (KeyedList.find TestStatus.pair c.pair teststatus)).2)).pair = c.pair := rfl
      rw [same, self, entry, Board.post, pairs, Function.update_self]
      rfl
    · rw [other p same, Board.post, Function.update_of_ne (by exact same)]

/-- The texts a run of `mrsend` calls hands to `send_update`, in order. -/
def sentTexts (calls : List Call) : List Handover :=
  (Run.outputs mrsend [] calls).reduceOption

theorem sentTexts_concat (calls : List Call) (c : Call) :
    sentTexts (calls ++ [c]) =
      sentTexts calls ++ (mrsend (Run.final mrsend [] calls) c).2.toList := by
  unfold sentTexts
  rw [Run.outputs_concat, List.reduceOption_append]
  cases (mrsend (Run.final mrsend [] calls) c).2 <;> rfl

/-- The board of the list after a run is the board of the texts sent. -/
theorem boardOf_run (calls : List Call) :
    boardOf (Run.final mrsend [] calls) = (sentTexts calls).foldl Board.post Board.empty := by
  induction calls using List.reverseRecOn with
  | nil => rfl
  | append_singleton calls c ih =>
    rw [Run.final_concat, boardOf_mrsend, sentTexts_concat, List.foldl_append, ih]
    cases (mrsend (Run.final mrsend [] calls) c).2 <;> rfl

end MrBig.Abstract
