import Mathlib.Data.List.Pairwise
import MrBig.Source.Reboots

/-!
# Recent reboots, however the log is read

ReadEventLog gives the records of the log in batches. Within a batch the inner loop stops at the
first record that is too old, and so takes the ones that are not; it stops for good once enough
reboots are found. So what is stored depends on the records alone. A `time_t` of 32 bits makes the
age of a record unsigned, and then this needs a clock that is ahead of the log.
-/

set_option autoImplicit false

namespace MrBig.Guarantees.RecentReboots
open Library Library.Word Source.RecentReboots
open Source (ArenaState arenaAllocate_eq nul)

/-! ### The log -/

def bytes (records : List EventRecord) : Nat := (records.map EventRecord.length).sum

/-- A batch that fits the buffer. -/
structure FitsBuffer (batch : Batch) : Prop where
  nonempty : batch.records ≠ []
  positive : ∀ r ∈ batch.records, 0 < r.length
  readBytes : batch.readBytes = bytes batch.records
  buffer : bytes batch.records ≤ maxRecordSize

/-- A record of a reboot in the last 30 days. -/
def Recent (currentTime : Int) (r : EventRecord) : Prop :=
  r.eventId % 0x10000 = systemRestartInitatedEventId ∧ currentTime - r.timeGenerated < maxEventAge

instance (currentTime : Int) (r : EventRecord) : Decidable (Recent currentTime r) :=
  inferInstanceAs (Decidable (_ ∧ _))

/-- Newest first. -/
def Backwards (log : List EventRecord) : Prop :=
  log.Pairwise fun r later => later.timeGenerated ≤ r.timeGenerated

/-- The recent reboots of a log, in its order. -/
def recent (currentTime : Int) (log : List EventRecord) : List Reboot :=
  (log.filter fun r => Recent currentTime r).map reboot

/-- The ages that the loop computes are those of the records. -/
def Aged (timeBits : Nat) (currentTime : Int) (log : List EventRecord) : Prop :=
  ∀ r ∈ log, age timeBits currentTime r = currentTime - r.timeGenerated

theorem aged_wide {timeBits : Nat} (wide : 32 < timeBits) (currentTime : Int)
    (log : List EventRecord) : Aged timeBits currentTime log := fun _ _ =>
  if_neg (Nat.not_le.mpr wide)

theorem aged_narrow {currentTime : Int} {log : List EventRecord} (isDword : currentTime < 2 ^ 32)
    (past : ∀ r ∈ log, r.timeGenerated ≤ currentTime) (timeBits : Nat) :
    Aged timeBits currentTime log := by
  intro r inside
  have before := past r inside
  unfold age
  split
  · obtain ⟨n, same⟩ := Int.eq_ofNat_of_zero_le (show 0 ≤ currentTime - r.timeGenerated by omega)
    rw [wrap_of_eq same (by omega), same]
  · rfl

/-- `output` with reboots stored from its start on, and their number. -/
def storedIn (output : Nat → Option Reboot) (reboots : List Reboot) : Found where
  numRebootsFound := reboots.length
  output i := if i < reboots.length then reboots[i]? else output i

/-! ### One batch -/

variable {output : Nat → Option Reboot} {timeBits maxNumReboots : Nat} {currentTime : Int}

theorem storedIn_nil : storedIn output [] = ⟨0, output⟩ := by
  simp [storedIn]

theorem storedIn_concat (reboots : List Reboot) (r : Reboot) :
    storedIn output (reboots ++ [r]) =
      ⟨reboots.length + 1,
        Function.update (storedIn output reboots).output reboots.length (some r)⟩ := by
  rw [storedIn, List.length_append, List.length_singleton, Found.mk.injEq]
  refine ⟨rfl, funext fun i => ?_⟩
  rcases Nat.lt_trichotomy i reboots.length with before | rfl | behind
  · rw [Function.update_of_ne (Nat.ne_of_lt before), if_pos (by omega)]
    simp only [storedIn, if_pos before]
    exact List.getElem?_append_left before
  · rw [Function.update_self, if_pos (Nat.lt_succ_self _)]
    exact List.getElem?_concat_length
  · rw [Function.update_of_ne (Nat.ne_of_gt behind), if_neg (by omega)]
    simp only [storedIn, if_neg (Nat.not_lt.mpr (Nat.le_of_lt behind))]

/-- What one record adds, if it is not too old. -/
theorem examine_eq (reboots : List Reboot) {r : EventRecord}
    (young : currentTime - r.timeGenerated < maxEventAge) :
    examine (storedIn output reboots) r =
      storedIn output (reboots ++ recent currentTime [r]) := by
  have single : recent currentTime [r] =
      if r.eventId % 0x10000 = systemRestartInitatedEventId then [reboot r] else [] := by
    rw [recent, List.filter_singleton]
    by_cases restart : r.eventId % 0x10000 = systemRestartInitatedEventId
    · rw [if_pos restart]
      simp [Recent, restart, young]
    · rw [if_neg restart]
      simp [Recent, restart]
  rw [examine, single]
  by_cases stopped : r.eventId % 0x10000 = eventlogStoppedEventId
  · have other : r.eventId % 0x10000 ≠ systemRestartInitatedEventId := by
      rw [stopped]
      decide
    rw [if_pos stopped, if_neg other, List.append_nil]
  · rw [if_neg stopped]
    split
    · exact (storedIn_concat reboots (reboot r)).symm
    · rw [List.append_nil]

theorem recent_append (log behind : List EventRecord) :
    recent currentTime (log ++ behind) = recent currentTime log ++ recent currentTime behind := by
  rw [recent, List.filter_append, List.map_append]
  rfl

/-- Behind a record that is too old there is none that is not. -/
theorem recent_of_old {r : EventRecord} {rest : List EventRecord}
    (backwards : Backwards (r :: rest)) (old : ¬ currentTime - r.timeGenerated < maxEventAge) :
    recent currentTime (r :: rest) = [] := by
  rw [recent, List.map_eq_nil_iff, List.filter_eq_nil_iff]
  intro other inside
  have older : other.timeGenerated ≤ r.timeGenerated := by
    rcases List.mem_cons.mp inside with rfl | behind
    · exact Nat.le_refl _
    · exact List.rel_of_pairwise_cons backwards behind
  rw [decide_eq_true_eq]
  rintro ⟨-, young⟩
  omega

/-- The inner loop stores the recent reboots of a batch, as many as there is room for. -/
theorem innerLoop_eq {records : List EventRecord} (aged : Aged timeBits currentTime records)
    (positive : ∀ r ∈ records, 0 < r.length)
    (small : bytes records < 2 ^ 32) (backwards : Backwards records) (reboots : List Reboot)
    (room : reboots.length ≤ maxNumReboots) :
    innerLoop timeBits maxNumReboots currentTime records (bytes records) (storedIn output reboots) =
      some (storedIn output
        (reboots ++ (recent currentTime records).take (maxNumReboots - reboots.length))) := by
  induction records generalizing reboots with
  | nil =>
    have nothing : ¬ (bytes [] > 0 ∧ reboots.length < maxNumReboots) := fun both => by cases both.1
    rw [innerLoop, storedIn]
    exact (if_neg nothing).trans (by simp [recent, storedIn])
  | cons r rest ih =>
    have sum : bytes (r :: rest) = r.length + bytes rest := rfl
    obtain ⟨rPositive, positive⟩ := List.forall_mem_cons.mp positive
    obtain ⟨rAged, aged⟩ := List.forall_mem_cons.mp aged
    rw [innerLoop, rAged]
    by_cases full : reboots.length = maxNumReboots
    · rw [if_neg fun goesOn => by exact absurd goesOn.2.1 (by simp [storedIn, full]), full,
        Nat.sub_self, List.take_zero, List.append_nil]
    by_cases young : currentTime - r.timeGenerated < maxEventAge
    · have goesOn : bytes (r :: rest) > 0 ∧
          (storedIn output reboots).numRebootsFound < maxNumReboots ∧
          currentTime - r.timeGenerated < maxEventAge :=
        ⟨by omega, Nat.lt_of_le_of_ne room full, young⟩
      have left : wrap 32 ((bytes (r :: rest) : Nat) - (r.length : Nat)) = bytes rest :=
        wrap_of_eq (by omega) (by omega)
      have split : recent currentTime (r :: rest) =
          recent currentTime [r] ++ recent currentTime rest := recent_append [r] rest
      have few : (recent currentTime [r]).length ≤ 1 := by
        rw [recent, List.length_map]
        exact List.length_filter_le _ _
      have whole : (recent currentTime [r]).take (maxNumReboots - reboots.length) =
          recent currentTime [r] := List.take_of_length_le (by omega)
      rw [if_pos goesOn, left, examine_eq reboots young,
        ih aged positive (by omega) backwards.of_cons _ (by rw [List.length_append]; omega), split,
        List.append_assoc, List.take_append, List.length_append, Nat.sub_add_eq, whole]
    · rw [if_neg fun goesOn => young goesOn.2.2, recent_of_old backwards young, List.take_nil,
        List.append_nil]

/-! ### The whole log -/

/-- What the arena has to have: room for one buffer. -/
structure RoomForBuffer (bits : Nat) (state : ArenaState) (aEnd : Nat) : Prop where
  words : 31 ≤ bits
  small : aEnd < 2 ^ (bits + 1)
  room : aEnd - state.currentStart < 2 ^ bits
  enough : state.currentStart + maxRecordSize ≤ aEnd

variable {bits scratchEnd : Nat} {state : ArenaState}

/-- The buffer of a call that needs no more. -/
theorem loadEvents_eq (roomFor : RoomForBuffer bits state scratchEnd) {o : ReadOutcome}
    (enough : ∀ n, o ≠ .insufficientBuffer n) :
    ∃ state' lpBuffer, loadEvents (bits + 1) state scratchEnd ⟨o, .failed⟩ =
        some (state', lpBuffer, o.loaded lpBuffer) ∧ RoomForBuffer bits state' scratchEnd := by
  obtain ⟨words, small, room, ends⟩ := roomFor
  have granted := allocate_maxRecordSize words (Nat.le_trans (Nat.le_add_right _ _) ends) small room
  rw [if_pos ends] at granted
  let lpBuffer := scratchEnd - maxRecordSize
  let zeros := List.replicate maxRecordSize nul
  refine ⟨{ state with memory := Memory.store state.memory lpBuffer zeros }, lpBuffer, ?_,
    ⟨words, small, room, ends⟩⟩
  rw [loadEvents]
  refine Option.bind_eq_some_iff.mpr ⟨_, granted, ?_⟩
  cases o with
  | read batch => rfl
  | insufficientBuffer n => exact absurd rfl (enough n)
  | failed => rfl

/-- The outer loop stores the recent reboots of the batches that are still to come. -/
theorem outerLoop_eq {batches : List Batch}
    (aged : ∀ b ∈ batches, Aged timeBits currentTime b.records)
    (fits : ∀ b ∈ batches, FitsBuffer b)
    (backwards : ∀ b ∈ batches, Backwards b.records)
    (roomFor : RoomForBuffer bits state scratchEnd) (reboots : List Reboot)
    (room : reboots.length ≤ maxNumReboots) :
    outerLoop timeBits (bits + 1) scratchEnd maxNumReboots currentTime
        (batches.map fun b => ⟨.read b, .failed⟩) state (storedIn output reboots) =
      some (storedIn output (reboots ++
        (recent currentTime (batches.flatMap Batch.records)).take
          (maxNumReboots - reboots.length))) := by
  induction batches generalizing state reboots with
  | nil =>
    obtain ⟨state', lpBuffer, loaded, -⟩ := loadEvents_eq roomFor (o := .failed) nofun
    rw [List.map_nil, outerLoop, loaded]
    simp [recent]
  | cons b batches ih =>
    obtain ⟨bAged, aged⟩ := List.forall_mem_cons.mp aged
    obtain ⟨bFits, fits⟩ := List.forall_mem_cons.mp fits
    obtain ⟨bBackwards, backwards⟩ := List.forall_mem_cons.mp backwards
    obtain ⟨state', lpBuffer, loaded, roomFor'⟩ :=
      loadEvents_eq roomFor (o := .read b) nofun
    have small : bytes b.records < 2 ^ 32 := Nat.lt_of_le_of_lt bFits.buffer (by decide)
    let more := (recent currentTime b.records).take (maxNumReboots - reboots.length)
    have found : innerLoop timeBits maxNumReboots currentTime b.records b.readBytes
        (storedIn output reboots) = some (storedIn output (reboots ++ more)) := by
      rw [bFits.readBytes]
      exact innerLoop_eq bAged bFits.positive small bBackwards reboots room
    have still : (reboots ++ more).length ≤ maxNumReboots := by
      rw [List.length_append, List.length_take]
      omega
    have left : maxNumReboots - (reboots ++ more).length =
        maxNumReboots - reboots.length - (recent currentTime b.records).length := by
      rw [List.length_append, List.length_take]
      omega
    rw [List.map_cons, outerLoop, loaded]
    refine Option.bind_eq_some_iff.mpr ⟨_, found, ?_⟩
    rw [ih aged fits backwards roomFor' _ still, List.flatMap_cons, recent_append, left,
      List.append_assoc, List.take_append]

/-- What is left in `output` if the ages that the loop computes are those of the records. -/
theorem recentReboots_eq {batches : List Batch}
    (aged : Aged timeBits currentTime (batches.flatMap Batch.records))
    (fits : ∀ b ∈ batches, FitsBuffer b) (backwards : Backwards (batches.flatMap Batch.records))
    (roomFor : RoomForBuffer bits state scratchEnd) :
    recentReboots timeBits (bits + 1) state scratchEnd maxNumReboots currentTime output
        (batches.map fun b => ⟨.read b, .failed⟩) =
      some (storedIn output
        ((recent currentTime (batches.flatMap Batch.records)).take maxNumReboots)) := by
  have each : ∀ b ∈ batches, Backwards b.records := (List.pairwise_flatMap.mp backwards).1
  have agedEach : ∀ b ∈ batches, Aged timeBits currentTime b.records := fun b inside r member =>
    aged r (List.mem_flatMap.mpr ⟨b, inside, member⟩)
  rw [recentReboots, ← storedIn_nil, outerLoop_eq agedEach fits each roomFor [] (Nat.zero_le _)]
  rfl

/-- With any `time_t` the same is stored, if the clock is ahead of the log. -/
theorem recentReboots_narrow {batches : List Batch} (isDword : currentTime < 2 ^ 32)
    (past : ∀ r ∈ batches.flatMap Batch.records, r.timeGenerated ≤ currentTime)
    (fits : ∀ b ∈ batches, FitsBuffer b) (backwards : Backwards (batches.flatMap Batch.records))
    (roomFor : RoomForBuffer bits state scratchEnd) (timeBits : Nat) :
    recentReboots timeBits (bits + 1) state scratchEnd maxNumReboots currentTime output
        (batches.map fun b => ⟨.read b, .failed⟩) =
      recentReboots 64 (bits + 1) state scratchEnd maxNumReboots currentTime output
        (batches.map fun b => ⟨.read b, .failed⟩) := by
  rw [recentReboots_eq (aged_narrow isDword past timeBits) fits backwards roomFor,
    recentReboots_eq (aged_wide (by decide) currentTime _) fits backwards roomFor]

end MrBig.Guarantees.RecentReboots
