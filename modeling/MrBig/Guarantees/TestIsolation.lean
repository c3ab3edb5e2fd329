import MrBig.Source.Status

/-!
# Tests do not interfere

All tests share one list, searched by machine and test and changed in place. The view
of one pair is the record the search finds; calls for other pairs leave it alone, and
a call for the pair acts on nothing else, so the unwinding rule removes the others.
-/

set_option autoImplicit false

namespace MrBig.Guarantees.TestIsolation
open Library Source

theorem insertStatus_frames (p : Pair) :
    Run.Frames insertStatus (fun c => c.pair = p) (KeyedList.find TestStatus.pair p) :=
  fun teststatus c foreign => find_insertStatus_other teststatus c (Ne.symm foreign)

theorem insertStatus_acts (p : Pair) :
    Run.ActsOnView insertStatus (fun c => c.pair = p) (KeyedList.find TestStatus.pair p) := by
  rintro first second c rfl same
  constructor
  · rw [find_insertStatus_self, find_insertStatus_self, same]
  · rw [insertStatus_verdict, insertStatus_verdict, same]

theorem teststatus_unique (calls : List Call) :
    KeyedList.KeysUnique TestStatus.pair (Run.final insertStatus [] calls) :=
  Run.history_invariant insertStatus
    (fun _ teststatus => KeyedList.KeysUnique TestStatus.pair teststatus)
    KeyedList.KeysUnique.nil (fun _ c unique => insertStatus_unique _ c unique) calls

/-- However the calls of all pairs interleave, no pair has two records, and the record
and the return values of one pair are those of the run of its own calls. -/
theorem tests_do_not_interfere (calls : List Call) (p : Pair) :
    KeyedList.KeysUnique TestStatus.pair (Run.final insertStatus [] calls) ∧
    KeyedList.find TestStatus.pair p (Run.final insertStatus [] calls) =
      KeyedList.find TestStatus.pair p (Run.final insertStatus [] (callsOf p calls)) ∧
    Run.ownOutputs insertStatus (fun c => c.pair = p) [] calls =
      Run.outputs insertStatus [] (callsOf p calls) :=
  ⟨teststatus_unique calls,
    Run.final_filter (insertStatus_frames p) (insertStatus_acts p) rfl calls,
    Run.ownOutputs_filter (insertStatus_frames p) (insertStatus_acts p) rfl calls⟩

end MrBig.Guarantees.TestIsolation
