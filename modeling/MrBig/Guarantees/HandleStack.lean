import MrBig.Guarantees.ClientlogHandles

/-!
# The handle stack of clientlog stays within its bounds

A run follows its list of calls until a call to the arena throws. Up to there clog_Defer
finds room and clog_PopDefer finds a handle.
-/

set_option autoImplicit false

namespace MrBig.Guarantees.HandleStack
open Library Source HandleDiscipline ClientlogHandles

/-- The run has come to a call of the arena that throws. -/
def Throws (s : ClogState) (call : ArenaCall) : Prop :=
  s.Running ∧ (arenaStep 64 s.arena call).1.thrown ≠ none

/-- What a list of calls has come to: it was followed to its end, or up to a throw. -/
inductive Followed (s : ClogState) (calls : List ClogCall) : Prop
  | whole (running : (clogRun s calls).Running)
      (handles : (clogRun s calls).handles = calls.foldl HandleState.act s.handles)
  | cut (before : List ClogCall) (call : ArenaCall) (after : List ClogCall)
      (split : calls = before ++ .arena call :: after)
      (throws : Throws (clogRun s before) call)
      (reached : (clogRun s before).handles = before.foldl HandleState.act s.handles)
      (thrown : (clogRun s calls).arena.thrown = some 1)
      (fault : (clogRun s calls).fault = false)
      (handles : (clogRun s calls).handles = (clogRun s before).handles)

theorem clogRun_append (s : ClogState) (first second : List ClogCall) :
    clogRun s (first ++ second) = clogRun (clogRun s first) second := List.foldl_append

theorem clogStep_of_not_running {s : ClogState} (halted : ¬ s.Running) (call : ClogCall) :
    clogStep s call = s := if_neg halted

theorem clogRun_of_not_running {s : ClogState} (halted : ¬ s.Running) (calls : List ClogCall) :
    clogRun s calls = s := by
  induction calls with
  | nil => rfl
  | cons call rest ih =>
    change clogRun (clogStep s call) rest = s
    rw [clogStep_of_not_running halted, ih]

/-- The arena throws nothing but code 1. -/
theorem arenaStep_thrown (bits : Nat) {run : ArenaRun} (running : run.thrown = none)
    (call : ArenaCall) :
    (arenaStep bits run call).1.thrown = none ∨ (arenaStep bits run call).1.thrown = some 1 := by
  unfold arenaStep
  split
  next same => exact Or.inl running
  next => exact Or.inl running
  next f callers _ frames =>
    cases call with
    | enter | leave => exact Or.inl running
    | append printed =>
      dsimp only [arenaAppend]
      split <;> simp
    | allocate size align count =>
      cases found : arenaAllocate bits run.state f.endAddr size align count with
      | none =>
        dsimp only
        rw [found]
        exact Or.inr rfl
      | some answer =>
        dsimp only
        rw [found]
        exact Or.inl running

/-- One call that is made when it may be made. -/
theorem clogStep_cases {s : ClogState} (running : s.Running) {call : ClogCall}
    (ready : Ready s.handles call) :
    ((clogStep s call).Running ∧ (clogStep s call).handles = s.handles.act call) ∨
      ∃ arenaCall, call = .arena arenaCall ∧ Throws s arenaCall ∧
        (clogStep s call).arena.thrown = some 1 ∧ (clogStep s call).fault = false ∧
        (clogStep s call).handles = s.handles := by
  unfold clogStep
  rw [if_pos running]
  cases call with
  | arena arenaCall =>
    rcases arenaStep_thrown 64 running.1 arenaCall with goesOn | throws
    · exact Or.inl ⟨⟨goesOn, running.2⟩, rfl⟩
    · refine Or.inr ⟨arenaCall, rfl, ⟨running, ?_⟩, throws, running.2, rfl⟩
      rw [throws]
      simp
  | defer handle fn =>
    dsimp only [Ready] at ready
    dsimp only
    rw [if_neg (by omega)]
    exact Or.inl ⟨running, rfl⟩
  | popDefer =>
    dsimp only
    rw [if_neg ready]
    exact Or.inl ⟨running, rfl⟩
  | opens | closes | ignorePopDefer | popDeferAll => exact Or.inl ⟨running, rfl⟩

/-- A list of calls that leads somewhere is followed, each part of it from its start. -/
theorem followed_of_leads {s : ClogState} (running : s.Running) {calls rest : List ClogCall}
    {s' : HandleState} (leads : Leads s.handles (calls ++ rest) s') : Followed s calls := by
  induction calls using List.reverseRecOn generalizing rest with
  | nil => exact .whole running rfl
  | append_singleton calls call ih =>
    rw [List.append_assoc] at leads
    have step : clogRun s (calls ++ [call]) = clogStep (clogRun s calls) call :=
      clogRun_append s calls [call]
    cases ih leads with
    | whole running' handles =>
      have ready := leads.condition
      rw [← handles] at ready
      rcases clogStep_cases running' ready with ⟨goesOn, acted⟩ | ⟨arenaCall, rfl, throws, thrown,
        fault, same⟩
      · refine .whole (by rw [step]; exact goesOn) ?_
        rw [step, acted, handles, List.foldl_append]
        rfl
      · exact .cut calls arenaCall [] rfl throws handles (by rw [step]; exact thrown)
          (by rw [step]; exact fault) (by rw [step]; exact same)
    | cut before arenaCall after split throws reached thrown fault handles =>
      have halted : ¬ (clogRun s calls).Running := by
        intro going
        rw [going.1] at thrown
        cases thrown
      have same := step.trans (clogStep_of_not_running halted call)
      refine .cut before arenaCall (after ++ [call]) (by simp [split]) throws reached ?_ ?_ ?_
      · rw [same, thrown]
      · rw [same, fault]
      · rw [same, handles]

theorem clientlog_followed (memory : Nat → Char) (mem : Nat) (mrmachine : Text)
    (o : ClientlogOutcome) {before after : List ClogCall}
    (split : clientlogCalls mrmachine o = before ++ after) :
    Followed (clientlogStart memory mem) before := by
  have leads := clientlogCalls_leads mrmachine o
  rw [split] at leads
  exact followed_of_leads ⟨rfl, rfl⟩ leads

theorem act_popDefer_depth (s : HandleState) :
    (s.act .popDefer).handleStack.length ≤ s.handleStack.length := by
  obtain ⟨openHandles, handleStack⟩ := s
  cases handleStack with
  | nil => exact Nat.le_refl _
  | cons w rest => exact Nat.le_succ _

/-- clog_Defer checks the depth before it stores a handle. -/
theorem clogStep_depth {s : ClogState} (depth : s.handles.handleStack.length ≤ arenaMaxnumHandles)
    (call : ClogCall) :
    (clogStep s call).handles.handleStack.length ≤ arenaMaxnumHandles := by
  unfold clogStep
  split
  next =>
    cases call with
    | arena | opens | closes => exact depth
    | defer handle fn =>
      dsimp only
      split
      next => exact depth
      next room =>
        simp only [HandleState.act, List.length_cons]
        omega
    | ignorePopDefer =>
      simp only [HandleState.act, List.length_tail]
      omega
    | popDefer =>
      dsimp only
      split
      next => exact depth
      next => exact Nat.le_trans (act_popDefer_depth s.handles) depth
    | popDeferAll => exact Nat.zero_le _
  next => exact depth

theorem clogRun_depth {s : ClogState} (depth : s.handles.handleStack.length ≤ arenaMaxnumHandles)
    (calls : List ClogCall) :
    (clogRun s calls).handles.handleStack.length ≤ arenaMaxnumHandles := by
  induction calls generalizing s with
  | nil => exact depth
  | cons call rest ih => exact ih (clogStep_depth depth call)

theorem clientlog_returns (memory : Nat → Char) (mem : Nat) (mrmachine : Text)
    (o : ClientlogOutcome) :
    ∃ returned, clientlog memory mem mrmachine o = some returned ∧
      returned.handles =
        popAll (clogRun (clientlogStart memory mem) (clientlogCalls mrmachine o)).handles := by
  have fault :
      (clogRun (clientlogStart memory mem) (clientlogCalls mrmachine o)).fault = false := by
    cases clientlog_followed memory mem mrmachine o (List.append_nil _).symm with
    | whole running _ => exact running.2
    | cut _ _ _ _ _ _ _ fault _ => exact fault
  unfold clientlog
  dsimp only
  rw [if_neg (by simp [fault])]
  exact ⟨_, rfl, rfl⟩

/-- NumHandles is at most ARENA_MAXNUM_HANDLES at every point of every run, no call of
clog_Defer throws code 2, none of clog_PopDefer finds the stack empty, and clientlog()
returns with no handle on the stack. -/
theorem clientlog_stack_in_bounds (memory : Nat → Char) (mem : Nat) (mrmachine : Text)
    (o : ClientlogOutcome) :
    (∀ before after, clientlogCalls mrmachine o = before ++ after →
      (clogRun (clientlogStart memory mem) before).handles.handleStack.length ≤
          arenaMaxnumHandles ∧
        (clogRun (clientlogStart memory mem) before).arena.thrown ≠ some 2 ∧
        (clogRun (clientlogStart memory mem) before).fault = false) ∧
      ∃ returned, clientlog memory mem mrmachine o = some returned ∧
        returned.handles.handleStack = [] := by
  constructor
  · intro before after split
    refine ⟨clogRun_depth (Nat.zero_le _) before, ?_⟩
    cases clientlog_followed memory mem mrmachine o split with
    | whole running handles => exact ⟨by rw [running.1]; simp, running.2⟩
    | cut _ _ _ _ _ _ thrown fault _ => exact ⟨by rw [thrown]; simp, fault⟩
  · obtain ⟨returned, same, handles⟩ := clientlog_returns memory mem mrmachine o
    refine ⟨returned, same, ?_⟩
    rw [handles]
    rfl

end MrBig.Guarantees.HandleStack
