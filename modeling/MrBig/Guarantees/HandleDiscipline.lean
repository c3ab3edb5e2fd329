import MrBig.Library.Segment
import MrBig.Source.Clientlog

/-!
# What the modules of clientlog do to the handle stack

Every module leads from handles in a known state to handles in a known state. Between the
two, clog_Defer finds room, clog_PopDefer finds a handle, and at each call that may throw
an open object is on the handle stack with the function that closes it, or is one of the
objects that the code closes itself (`undeferred`).
-/

set_option autoImplicit false

namespace MrBig.Guarantees.HandleDiscipline
open Library Source

/-- The objects that are open for a while without being on the handle stack. -/
def undeferred : Handle → Bool
  | .query | .event | .hPipeOutputRead | .hPipeOutputWrite | .hProcess | .hThread
  | .eventOf _ => true
  | _ => false

/-- The handle is on the stack with the function that closes it. -/
def Deferred (s : HandleState) (h : Handle) : Prop := ⟨some h, h.closeFn⟩ ∈ s.handleStack

structure Guarded (s : HandleState) : Prop where
  nodup : s.openHandles.Nodup
  covered : ∀ h ∈ s.openHandles, undeferred h = true ∨ Deferred s h

/-- When a call may be made. -/
def Ready (s : HandleState) : ClogCall → Prop
  | .arena _ => Guarded s
  | .defer _ _ => s.handleStack.length < arenaMaxnumHandles
  | .popDefer => s.handleStack ≠ []
  | _ => True

abbrev Leads (s : HandleState) (calls : List ClogCall) (s' : HandleState) : Prop :=
  Segment HandleState.act Ready s calls s'

/-! ### Opening, deferring and closing -/

/-- Open and deferred. -/
def push (s : HandleState) (h : Handle) : HandleState :=
  ⟨h :: s.openHandles, ⟨some h, h.closeFn⟩ :: s.handleStack⟩

/-- Deferred without being open. -/
def pushNull (s : HandleState) (fn : CloseFn) : HandleState :=
  ⟨s.openHandles, ⟨none, fn⟩ :: s.handleStack⟩

/-- A call that opens may fail; what it leaves in the variable is deferred in any case. -/
def pushIf (s : HandleState) (opened : Bool) (h : Handle) : HandleState :=
  if opened then push s h else pushNull s h.closeFn

def popAll (s : HandleState) : HandleState := s.act .popDeferAll

section Stack

variable {s : HandleState}

theorem Guarded.push (guarded : Guarded s) {h : Handle} (fresh : h ∉ s.openHandles) :
    Guarded (push s h) := by
  refine ⟨List.nodup_cons.mpr ⟨fresh, guarded.nodup⟩, fun other member => ?_⟩
  rcases List.mem_cons.mp member with rfl | older
  · exact Or.inr List.mem_cons_self
  · rcases guarded.covered other older with loose | deferred
    · exact Or.inl loose
    · exact Or.inr (List.mem_cons_of_mem _ deferred)

theorem Guarded.pushNull (guarded : Guarded s) (fn : CloseFn) : Guarded (pushNull s fn) := by
  refine ⟨guarded.nodup, fun other member => ?_⟩
  rcases guarded.covered other member with loose | deferred
  · exact Or.inl loose
  · exact Or.inr (List.mem_cons_of_mem _ deferred)

theorem Guarded.pushIf (guarded : Guarded s) (opened : Bool) {h : Handle}
    (fresh : h ∉ s.openHandles) : Guarded (pushIf s opened h) := by
  cases opened with
  | false => exact guarded.pushNull h.closeFn
  | true => exact guarded.push fresh

/-- Objects that are not deferred may be open. -/
theorem Guarded.open (guarded : Guarded s) {handles : List Handle} (distinct : handles.Nodup)
    (fresh : ∀ h ∈ handles, h ∉ s.openHandles) (loose : ∀ h ∈ handles, undeferred h = true) :
    Guarded ⟨handles ++ s.openHandles, s.handleStack⟩ := by
  refine ⟨List.nodup_append.mpr ⟨distinct, guarded.nodup, ?_⟩, fun h member => ?_⟩
  · intro h new other old same
    subst same
    exact fresh h new old
  · rcases List.mem_append.mp member with new | old
    · exact Or.inl (loose h new)
    · exact guarded.covered h old

theorem Guarded.defer (guarded : Guarded s) (w : HandleWrapper) :
    Guarded ⟨s.openHandles, w :: s.handleStack⟩ := by
  refine ⟨guarded.nodup, fun h member => ?_⟩
  rcases guarded.covered h member with loose | deferred
  · exact Or.inl loose
  · exact Or.inr (List.mem_cons_of_mem _ deferred)

@[simp] theorem popAll_push (h : Handle) : popAll (push s h) = popAll s := by
  simp [popAll, push, HandleState.act, closeWith]

@[simp] theorem popAll_pushNull (fn : CloseFn) : popAll (pushNull s fn) = popAll s := by
  simp [popAll, pushNull, HandleState.act, closeWith]

@[simp] theorem popAll_pushIf (opened : Bool) (h : Handle) :
    popAll (pushIf s opened h) = popAll s := by
  cases opened with
  | false => exact popAll_pushNull h.closeFn
  | true => exact popAll_push h

theorem popAll_of_stack_nil (empty : s.handleStack = []) : popAll s = s := by
  obtain ⟨openHandles, handleStack⟩ := s
  obtain rfl := empty
  rfl

@[simp] theorem stack_length_pushIf (opened : Bool) (h : Handle) :
    (pushIf s opened h).handleStack.length = s.handleStack.length + 1 := by
  cases opened <;> rfl

theorem act_popDefer_pushIf (opened : Bool) (h : Handle) :
    (pushIf s opened h).act .popDefer = s := by
  cases opened <;> simp [pushIf, push, pushNull, HandleState.act, closeWith]

end Stack

/-! ### Pieces of modules -/

section Pieces

variable {s s' : HandleState} {calls : List ClogCall}

/-- Appends and allocations leave the handles alone. -/
theorem leads_arena (guarded : Guarded s) (calls : List ArenaCall) :
    Leads s (calls.map .arena) s := by
  apply Segment.of_still
  intro call member
  obtain ⟨arenaCall, _, rfl⟩ := List.mem_map.mp member
  exact ⟨guarded, rfl⟩

/-- Texts printed one behind the other. -/
theorem leads_appends (guarded : Guarded s) {α : Type} (items : List α) (text : α → Text) :
    Leads s (items.map fun item => append (text item)) s := by
  apply Segment.of_still
  intro call member
  obtain ⟨item, _, rfl⟩ := List.mem_map.mp member
  exact ⟨guarded, rfl⟩

theorem leads_withScratch (before : Guarded s) (body : Leads s calls s') (after : Guarded s') :
    Leads s (withScratch calls) s' :=
  ⟨before, body.append ⟨after, rfl⟩⟩

/-- What is opened and closed at once leaves nothing behind. -/
theorem leads_openClose (opened : Bool) (h : Handle) :
    Leads s [.opens (if opened then [h] else []),
      .closes h.closeFn (if opened then some h else none)] s := by
  cases opened <;> simp [Ready, HandleState.act, closeWith]

/-- What is opened and deferred at once. -/
theorem leads_openDefer (room : s.handleStack.length < arenaMaxnumHandles) (opened : Bool)
    (h : Handle) :
    Leads s [.opens (if opened then [h] else []),
      .defer (if opened then some h else none) h.closeFn] (pushIf s opened h) := by
  cases opened <;> simp [Ready, HandleState.act, pushIf, push, pushNull, room]

end Pieces

end MrBig.Guarantees.HandleDiscipline
