import Mathlib.Data.List.Perm.Basic
import MrBig.Guarantees.EventsOwned
import MrBig.Guarantees.MessageColor

/-!
# The age of the messages considered

`msgs` hands `read_log` the time of the oldest message it wants, in seconds since 1970,
and `read_log` puts the number into a query that compares ages in milliseconds. The events
read are those younger than `msgage` exactly where no event that can be read has an age
between the two bounds.
-/

set_option autoImplicit false

namespace MrBig.Guarantees.MessageAge
open Library Source Source.ReadLog

/-- An event of a log: its age in milliseconds when the log is read, and what Windows
answers about it. -/
structure LoggedEvent where
  age : Int
  outcome : EventOutcome
  deriving DecidableEq, Repr

def youngerThan (bound : Int) (channel : List LoggedEvent) : List LoggedEvent :=
  channel.filter fun e => e.age ≤ bound

/-- `EvtQuery` selects by the age, and `EvtNext` gives as many handles as it is asked for
while there are so many. -/
structure SelectsByAge (channel : List LoggedEvent)
    (evtQuery : Int → Option (List (List LoggedEvent))) : Prop where
  answers : ∀ bound, ∃ batches, evtQuery bound = some batches ∧
    batches.flatten = youngerThan bound channel ∧
    batches.headD [] = (youngerThan bound channel).take eventBatchSize

/-- The events that `msgs` obtains from `read_log` (`EventsOwned.logKey_reads`). -/
def obtained (input : MsgsInput) (evtQuery : Int → Option (List (List LoggedEvent))) :
    List LoggedEvent :=
  match evtQuery input.maxage with
  | none => []
  | some batches => fetched input.fast batches

/-- Newest first, as the reverse direction of the query lists them. -/
def NewestFirst (channel : List LoggedEvent) : Prop :=
  channel.Pairwise fun e later => e.age ≤ later.age

variable {input : MsgsInput} {channel : List LoggedEvent}
  {evtQuery : Int → Option (List (List LoggedEvent))}

theorem obtained_eq (selects : SelectsByAge channel evtQuery) :
    obtained input evtQuery =
      if input.fast then (youngerThan input.maxage channel).take eventBatchSize
      else youngerThan input.maxage channel := by
  obtain ⟨batches, answered, all, first⟩ := selects.answers input.maxage
  unfold obtained
  rw [answered]
  dsimp only
  cases mode : input.fast with
  | true => rw [fetched_fast, first, if_pos rfl]
  | false => rw [fetched_all, all, if_neg Bool.false_ne_true]

/-- Two windows on a log agree when no event lies between them. -/
theorem youngerThan_perm_iff {bound bound' : Int} :
    (youngerThan bound channel).Perm (youngerThan bound' channel) ↔
      ∀ e ∈ channel, e.age ≤ bound ↔ e.age ≤ bound' := by
  constructor
  · intro same e member
    have either := same.mem_iff (a := e)
    simpa [youngerThan, member] using either
  · intro agree
    have equal : youngerThan bound channel = youngerThan bound' channel :=
      List.filter_congr fun e member => by simpa using agree e member
    rw [equal]

theorem youngerThan_eq_nil_iff {bound : Int} :
    youngerThan bound channel = [] ↔ ∀ e ∈ channel, bound < e.age := by
  unfold youngerThan
  simp [List.filter_eq_nil_iff]

/-- The newest events are selected first. -/
theorem take_youngerThan (newestFirst : NewestFirst channel) (bound : Int) (n : Nat) :
    (youngerThan bound channel).take n = youngerThan bound (channel.take n) := by
  induction channel generalizing n with
  | nil => simp [youngerThan]
  | cons e channel ih =>
    obtain ⟨newer, rest⟩ := List.pairwise_cons.mp newestFirst
    cases n with
    | zero => simp [youngerThan]
    | succ n =>
      by_cases young : e.age ≤ bound
      · simpa [youngerThan, young] using ih rest n
      · have older : ∀ other ∈ e :: channel, bound < other.age := by
          intro other member
          rcases List.mem_cons.mp member with rfl | later
          · omega
          · have above := newer other later
            omega
        have nothing : youngerThan bound ((e :: channel).take (n + 1)) = [] :=
          youngerThan_eq_nil_iff.mpr fun other member => older other (List.mem_of_mem_take member)
        rw [nothing, youngerThan_eq_nil_iff.mpr older, List.take_nil]

/-- The newest events within one bound are all events within another. -/
theorem take_youngerThan_perm_iff (newestFirst : NewestFirst channel) {bound bound' : Int}
    {n : Nat} :
    ((youngerThan bound channel).take n).Perm (youngerThan bound' channel) ↔
      (∀ e ∈ channel.take n, e.age ≤ bound ↔ e.age ≤ bound') ∧
        ∀ e ∈ channel.drop n, bound' < e.age := by
  have split : youngerThan bound' channel =
      youngerThan bound' (channel.take n) ++ youngerThan bound' (channel.drop n) := by
    rw [youngerThan, youngerThan, youngerThan, ← List.filter_append, List.take_append_drop]
  rw [take_youngerThan newestFirst, ← youngerThan_eq_nil_iff, ← youngerThan_perm_iff]
  constructor
  · intro same
    suffices beyond : youngerThan bound' (channel.drop n) = [] by
      rw [split, beyond, List.append_nil] at same
      exact ⟨same, beyond⟩
    -- Were an event beyond the first `n` young, all of these would be, and one too many.
    rw [youngerThan_eq_nil_iff]
    intro e member
    by_contra young
    have all : youngerThan bound' (channel.take n) = channel.take n := by
      refine List.filter_eq_self.mpr fun first earlier => ?_
      have sorted : (channel.take n ++ channel.drop n).Pairwise
          fun e later => e.age ≤ later.age := by
        rw [List.take_append_drop]
        exact newestFirst
      have newer := (List.pairwise_append.mp sorted).2.2 first earlier e member
      simp only [decide_eq_true_eq]
      omega
    have nonempty : 0 < (youngerThan bound' (channel.drop n)).length :=
      List.length_pos_of_mem (List.mem_filter.mpr ⟨member, by simpa using young⟩)
    have fewer : (youngerThan bound (channel.take n)).length ≤ (channel.take n).length :=
      List.length_filter_le _ _
    have lengths := same.length_eq
    rw [split, List.length_append, all] at lengths
    omega
  · rintro ⟨same, beyond⟩
    rw [split, beyond, List.append_nil]
    exact same

/-- The events that can be read: with fast reading only the newest. -/
def readable (input : MsgsInput) (channel : List LoggedEvent) : List LoggedEvent :=
  if input.fast then channel.take eventBatchSize else channel

/-- `msgs` obtains the events of the last `msgage` seconds exactly if no event that can be
read lies between the two bounds and, with fast reading, the events not read are older. -/
theorem obtained_youngerThan_msgage_iff (input : MsgsInput) (channel : List LoggedEvent)
    (evtQuery : Int → Option (List (List LoggedEvent))) (selects : SelectsByAge channel evtQuery)
    (newestFirst : input.fast = true → NewestFirst channel) :
    (obtained input evtQuery).Perm (youngerThan (1000 * input.msgage) channel) ↔
      (∀ e ∈ readable input channel,
        e.age ≤ Word.signed 32 (input.t0 - input.msgage) ↔ e.age ≤ 1000 * input.msgage) ∧
      (input.fast = true →
        ∀ e ∈ channel.drop eventBatchSize, 1000 * input.msgage < e.age) := by
  rw [obtained_eq selects, ← MsgsInput.maxage]
  unfold readable
  cases mode : input.fast with
  | true => simpa using take_youngerThan_perm_iff (newestFirst mode)
  | false => simpa using youngerThan_perm_iff

/-- A log with one event of five minutes and one of two hours. -/
def twoEvents : List LoggedEvent :=
  [⟨300000, EventsOwned.plainEvent⟩, ⟨7200000, EventsOwned.plainEvent⟩]

theorem selects_twoEvents :
    SelectsByAge twoEvents fun bound => some [youngerThan bound twoEvents] := by
  refine ⟨fun bound => ⟨_, rfl, by simp, ?_⟩⟩
  have few : (youngerThan bound twoEvents).length ≤ 2 := List.length_filter_le _ _
  exact (List.take_of_length_le (few.trans (by decide))).symm

/-- The configuration of `oneLog` on that log. -/
theorem obtained_youngerThan_msgage_iff_twoEvents :
    (obtained (MessageColor.oneLog fun _ _ => [])
        fun bound => some [youngerThan bound twoEvents]).Perm
      (youngerThan (1000 * 3600) twoEvents) ↔
      (∀ e ∈ twoEvents,
        e.age ≤ Word.signed 32 (1700000000 - 3600) ↔ e.age ≤ 1000 * 3600) ∧
      (false = true → ∀ e ∈ twoEvents.drop eventBatchSize, 1000 * 3600 < e.age) :=
  obtained_youngerThan_msgage_iff (MessageColor.oneLog fun _ _ => []) twoEvents
    (fun bound => some [youngerThan bound twoEvents]) selects_twoEvents
    (fun fast => absurd fast (by decide))

/-- With `msgage 3600` the event of two hours is obtained too. -/
theorem obtained_twoHours :
    SelectsByAge twoEvents (fun bound => some [youngerThan bound twoEvents]) ∧
      obtained (MessageColor.oneLog fun _ _ => [])
        (fun bound => some [youngerThan bound twoEvents]) = twoEvents ∧
      ¬ (obtained (MessageColor.oneLog fun _ _ => [])
        fun bound => some [youngerThan bound twoEvents]).Perm
          (youngerThan (1000 * 3600) twoEvents) :=
  ⟨selects_twoEvents, by decide, by decide⟩

end MrBig.Guarantees.MessageAge
