import Mathlib.Data.List.Perm.Basic
import MrBig.Source.ReadLog

/-!
# The events that `read_log` hands over

An event is complete when everything that the rules, the page and `free_log` read was
assigned and its texts are blocks of their own. `read_log` hands over complete events,
and `free_log` then releases each block once, exactly when every event it reads is rendered
with its time, provider, number and level and with a formatted message.
-/

set_option autoImplicit false

namespace MrBig.Guarantees.EventsOwned
open Source Source.ReadLog

/-- Windows gives all of an event that is read later. -/
structure Whole (o : EventOutcome) : Prop where
  measured : o.measured = true
  rendered : o.rendered = true
  time : o.timeCreated.isSome
  provider : o.providerName.isSome
  number : o.eventId.isSome
  level : o.level.isSome
  sized : o.sizing.Sized
  formatted : o.formatting.Formatted

/-- Assigned, and from `big_strdup`. -/
def OnHeap (p : Option StrPtr) : Prop := ∃ block text, p = some (.heap block text)

/-- All fields that `match_rules`, `msgs` and `free_log` read are assigned. -/
structure Complete (e : EventBlock) : Prop where
  gtime : e.gtime.isSome
  id : e.id.isSome
  type : e.type.isSome
  source : OnHeap e.source
  message : OnHeap e.message

/-- The blocks that were taken from `start` on. -/
def taken (start next : Nat) : List Freed := (List.range' start (next - start)).map .heap

/-- `read_log` stored through no null pointer, its events are complete, and `free_log`
releases every block it took exactly once and nothing else. -/
structure Owned (start : Nat) (s : Reading) : Prop where
  noNullStore : s.nullStore = false
  complete : ∀ e ∈ s.events, Complete e
  released : (freeLog s.events).Perm (taken start s.next)

/-! ### One event -/

section

variable {o : EventOutcome} {next : Nat}

/-- The block of a whole event, whose provider has the given name. -/
def wholeBlock (next : Nat) (o : EventOutcome) (name : Text) : EventBlock where
  node := next
  gtime := o.timeCreated.map unixTime
  wtime := o.timeCreated.map unixTime
  record := o.recordId.map fun n : Nat => Library.Word.signed 64 n
  id := o.eventId.map Int.ofNat
  type := o.level.map Int.ofNat
  source := some (.heap (next + 1) (name.take (maxProviderNameLength - 1)))
  message := some (.heap (next + 2) (o.message.take (maxEventMessageSize - 1)))

theorem getEventData_of_whole (whole : Whole o) :
    ∃ name, o.providerName = some name ∧
      ReadLog.getEventData next o = (next + 3, some (wholeBlock next o name)) ∧
      Complete (wholeBlock next o name) := by
  obtain ⟨name, named⟩ := Option.isSome_iff_exists.mp whole.provider
  refine ⟨name, named, ?_, ⟨?_, ?_, ?_, ⟨_, _, rfl⟩, ⟨_, _, rfl⟩⟩⟩
  · simp [ReadLog.getEventData, whole.measured, whole.rendered, eventSource, eventMessage, named,
      whole.sized, whole.formatted, bigStrdup, lacksMessage, wholeBlock]
  · simpa [wholeBlock] using whole.time
  · exact Option.isSome_map.trans whole.number
  · exact Option.isSome_map.trans whole.level

/-- A message on the heap was formatted. -/
theorem eventMessage_onHeap {o : EventOutcome} {next : Nat} (source : Option StrPtr)
    (onHeap : OnHeap (if lacksMessage o source (eventMessage next o).2 then
      some (.literal "(No message)".toList) else (eventMessage next o).2)) :
    o.providerName.isSome ∧ o.sizing.Sized ∧ o.formatting.Formatted := by
  obtain ⟨block, text, pointer⟩ := onHeap
  split at pointer
  next => cases pointer
  next =>
    unfold eventMessage at pointer
    split at pointer
    next => cases pointer
    next fetched =>
      simp only [not_or, not_not] at fetched
      obtain ⟨provider, sized, formatted⟩ := fetched
      exact ⟨Option.isSome_iff_ne_none.mpr provider, sized, formatted⟩

theorem whole_of_complete {e : EventBlock} (read : (ReadLog.getEventData next o).2 = some e)
    (complete : Complete e) : Whole o := by
  unfold ReadLog.getEventData at read
  split at read
  next => cases read
  next answered =>
    obtain ⟨measured, rendered⟩ := not_or.mp answered
    obtain rfl := Option.some.inj read
    obtain ⟨provider, sized, formatted⟩ := eventMessage_onHeap _ complete.message
    exact ⟨by simpa using measured, by simpa using rendered,
      Option.isSome_map.symm.trans complete.gtime, provider,
      Option.isSome_map.symm.trans complete.id, Option.isSome_map.symm.trans complete.type,
      sized, formatted⟩

end

/-! ### All events -/

theorem taken_succ {start next : Nat} (later : start ≤ next) :
    taken start (next + 3) =
      taken start next ++ [.heap next, .heap (next + 1), .heap (next + 2)] := by
  have count : next + 3 - start = (next - start) + 3 := by omega
  have first : start + (next - start) = next := by omega
  unfold taken
  rw [count, List.range'_append_1.symm]
  simp [first, List.range'_succ]

/-- A step on a whole event keeps what is owned. -/
theorem readEvent_owned {start : Nat} {s : Reading} {o : EventOutcome} (later : start ≤ s.next)
    (owned : Owned start s) (whole : Whole o) :
    Owned start (readEvent s o) ∧ start ≤ (readEvent s o).next := by
  obtain ⟨name, _, read, complete⟩ := @getEventData_of_whole o s.next whole
  have step : readEvent s o =
      { s with next := s.next + 3, events := wholeBlock s.next o name :: s.events } := by
    simp [readEvent, owned.noNullStore, read]
  rw [step]
  refine ⟨⟨owned.noNullStore, ?_, ?_⟩, by dsimp only; omega⟩
  · simpa using ⟨complete, owned.complete⟩
  · have released : freeLog (wholeBlock s.next o name :: s.events) =
        ([.heap (s.next + 1), .heap (s.next + 2)] ++ [.heap s.next]) ++ freeLog s.events := rfl
    dsimp only
    rw [released, taken_succ later]
    exact List.perm_append_comm.trans (owned.released.append List.perm_append_comm)

/-- A store through NULL, or an event with a field missing. -/
def Spoilt (s : Reading) : Prop := s.nullStore = true ∨ ∃ e ∈ s.events, ¬ Complete e

theorem readEvent_spoilt {s : Reading} (spoilt : Spoilt s) (o : EventOutcome) :
    Spoilt (readEvent s o) := by
  unfold readEvent
  split
  next => exact spoilt
  next =>
    split
    next => exact Or.inl rfl
    next =>
      refine spoilt.imp_right ?_
      rintro ⟨e, member, incomplete⟩
      exact ⟨e, List.mem_cons_of_mem _ member, incomplete⟩

theorem readEvent_spoilt_of_not_whole (s : Reading) {o : EventOutcome} (broken : ¬ Whole o) :
    Spoilt (readEvent s o) := by
  unfold readEvent
  split
  next stored => exact Or.inl stored
  next =>
    split
    next => exact Or.inl rfl
    next next e read =>
      refine Or.inr ⟨e, List.mem_cons_self, fun complete => broken ?_⟩
      exact whole_of_complete (congrArg Prod.snd read) complete

theorem foldl_readEvent_owned_iff {start : Nat} {s : Reading} (later : start ≤ s.next)
    (owned : Owned start s) (outcomes : List EventOutcome) :
    Owned start (outcomes.foldl readEvent s) ↔ ∀ o ∈ outcomes, Whole o := by
  induction outcomes generalizing s with
  | nil => simpa using owned
  | cons o outcomes ih =>
    rw [List.foldl_cons, List.forall_mem_cons]
    by_cases whole : Whole o
    · obtain ⟨owned', later'⟩ := readEvent_owned later owned whole
      rw [ih later' owned']
      exact (and_iff_right whole).symm
    · refine iff_of_false ?_ (fun all => whole all.1)
      have spoilt : Spoilt (outcomes.foldl readEvent (readEvent s o)) :=
        List.foldlRecOn outcomes readEvent (readEvent_spoilt_of_not_whole s whole)
          fun _ spoilt o _ => readEvent_spoilt spoilt o
      rintro ⟨noNullStore, complete, _⟩
      rcases spoilt with stored | ⟨e, member, incomplete⟩
      · rw [stored] at noNullStore
        cases noNullStore
      · exact incomplete (complete e member)

theorem readLog_owned_iff {H : Type} (evtQuery : Int → Option (List (List H)))
    (outcome : H → EventOutcome) (next : Nat) (maxage : Int) (fast : Bool) :
    Owned next (readLog evtQuery outcome next maxage fast) ↔
      ∀ batches, evtQuery maxage = some batches →
        ∀ handle ∈ fetched fast batches, Whole (outcome handle) := by
  have start : Owned next ⟨next, [], false⟩ := ⟨rfl, by simp, by simp [freeLog, taken]⟩
  unfold readLog
  split
  next failed => simpa [failed] using start
  next batches answered =>
    rw [foldl_readEvent_owned_iff (Nat.le_refl next) start]
    simp [answered]

/-- An event that Windows gives whole. -/
def plainEvent : EventOutcome where
  measured := true
  rendered := true
  timeCreated := some 133444736000000000
  providerName := some "disk".toList
  eventId := some 7
  recordId := some 42
  level := some 2
  sizing := .insufficientBuffer
  formatting := .success
  message := "bad block".toList
  sourceHeldNull := false
  messageHeldNull := true

/-- Without a message `free_log` releases a string literal; an event that cannot be rendered
is stored through NULL. -/
theorem readLog_unformatted_not_owned :
    let unformatted := { plainEvent with formatting := .otherError }
    let unrendered := { plainEvent with rendered := false }
    let read (o : EventOutcome) := readLog (fun _ => some [[o]]) id 0 3600 false
    (freeLog (read unformatted).events = [.heap 1, .literal, .heap 0] ∧
        ¬ Owned 0 (read unformatted)) ∧
      (read unrendered).nullStore = true ∧ ¬ Owned 0 (read unrendered) :=
  ⟨⟨by decide, fun owned => absurd owned.released (by decide)⟩,
    by decide, fun owned => absurd owned.noNullStore (by decide)⟩

/-! ### What `msgs` is given -/

/-- The event that `msgs` reads in the block that `get_event_data` returns. -/
def Reads (o : EventOutcome) (e : Event) : Prop :=
  ∃ next block, (ReadLog.getEventData next o).2 = some block ∧ block.event = some e

theorem readEvent_reads {s : Reading} (running : s.nullStore = false) {o : EventOutcome}
    (whole : Whole o) :
    ∃ block e, readEvent s o = { s with next := s.next + 3, events := block :: s.events } ∧
      block.event = some e ∧ Reads o e := by
  obtain ⟨name, _, read, complete⟩ := @getEventData_of_whole o s.next whole
  obtain ⟨gtime, time⟩ := Option.isSome_iff_exists.mp complete.gtime
  obtain ⟨id, number⟩ := Option.isSome_iff_exists.mp complete.id
  obtain ⟨type, level⟩ := Option.isSome_iff_exists.mp complete.type
  have event : (wholeBlock s.next o name).event = some ⟨gtime, id, type,
      name.take (maxProviderNameLength - 1), o.message.take (maxEventMessageSize - 1)⟩ := by
    simp only [EventBlock.event, time, number, level]
    rfl
  refine ⟨wholeBlock s.next o name, _, ?_, event, s.next, _, congrArg Prod.snd read, event⟩
  simp [readEvent, running, read]

theorem foldl_readEvent_reads {s : Reading} (running : s.nullStore = false)
    {outcomes : List EventOutcome} (whole : ∀ o ∈ outcomes, Whole o) :
    ∃ events, List.Forall₂ Reads outcomes events ∧
      (outcomes.foldl readEvent s).events.filterMap EventBlock.event =
        events.reverse ++ s.events.filterMap EventBlock.event := by
  induction outcomes generalizing s with
  | nil => exact ⟨[], .nil, rfl⟩
  | cons o outcomes ih =>
    obtain ⟨block, e, step, event, reads⟩ := readEvent_reads running (whole o List.mem_cons_self)
    rw [List.foldl_cons, step]
    obtain ⟨events, each, listed⟩ :=
      ih (s := { s with next := s.next + 3, events := block :: s.events }) running
        fun other later => whole other (by simp [later])
    refine ⟨e :: events, .cons reads each, listed.trans ?_⟩
    simp [event]

/-- Where every event is whole, `msgs` gets one event for each handle fetched, the last
one first. -/
theorem logKey_reads {H : Type} (achKey : Text) {evtQuery : Int → Option (List (List H))}
    {outcome : H → EventOutcome} (next : Nat) {maxage : Int} {fast : Bool}
    {batches : List (List H)} (answered : evtQuery maxage = some batches)
    (whole : ∀ handle ∈ fetched fast batches, Whole (outcome handle)) :
    ∃ events, List.Forall₂ (fun handle => Reads (outcome handle)) (fetched fast batches) events ∧
      (logKey achKey evtQuery outcome next).readLog maxage fast = events.reverse := by
  have mapped : ∀ o ∈ (fetched fast batches).map outcome, Whole o := by simpa using whole
  obtain ⟨events, each, listed⟩ := foldl_readEvent_reads (s := ⟨next, [], false⟩) rfl mapped
  refine ⟨events, List.forall₂_map_left_iff.mp each, ?_⟩
  simpa [logKey, readLog, answered] using listed

end MrBig.Guarantees.EventsOwned
