import MrBig.Abstract.StatusBoard

/-!
# The status list and the texts that were sent

The record of a pair is what the last text handed to `send_update` for that pair
said, after every run of calls (`mrsend_bookkeeping`).

Handing a text over is not delivering it. `send_update` reports nothing back, and a
report that repeats the text handed over last is silent until `mrsleep` seconds have
passed, whether or not that text arrived (`suppressed_report_was_handed_over`).
-/

set_option autoImplicit false

namespace MrBig.Guarantees.StatusBookkeeping
open Library Source Abstract

/-- Every record, read as a board entry, is the latest text of its pair. -/
theorem records_match_texts (calls : List Call) (p : Pair) :
    (KeyedList.find TestStatus.pair p (Run.final mrsend [] calls)).map statusEntry =
      (KeyedList.latest Handover.pair p (sentTexts calls)).map fun o => ⟨o.color, o.time⟩ :=
  (congrFun (boardOf_run calls) p).trans
    (KeyedList.foldl_update_apply (fun o : Handover => (⟨o.color, o.time⟩ : Entry)) _ p)

/-- A record has a text behind it with its colour and its time. -/
theorem text_of_record {calls : List Call} {p : Pair} {s : TestStatus}
    (found : KeyedList.find TestStatus.pair p (Run.final mrsend [] calls) = some s) :
    ∃ o, KeyedList.latest Handover.pair p (sentTexts calls) = some o ∧
      s.color = o.color ∧ s.last = o.time := by
  have entries := records_match_texts calls p
  rw [found, Option.map_some] at entries
  obtain ⟨o, last, entry⟩ := Option.map_eq_some_iff.mp entries.symm
  have same : o.color = s.color ∧ o.time = s.last := by simpa [statusEntry] using entry
  exact ⟨o, last, same.1.symm, same.2.symm⟩

/-- After each call the record of its pair holds the colour and the time of the last
text handed over for the pair, and the call is silent exactly when a record exists,
repeats the colour and is younger than `mrsleep`. -/
theorem mrsend_bookkeeping (calls : List Call) (c : Call) :
    (∃ s o,
      KeyedList.find TestStatus.pair c.pair (Run.final mrsend [] (calls ++ [c])) = some s ∧
      KeyedList.latest Handover.pair c.pair (sentTexts (calls ++ [c])) = some o ∧
      s.color = o.color ∧ s.last = o.time) ∧
    ((mrsend (Run.final mrsend [] calls) c).2 = none ↔
      ∃ s, KeyedList.find TestStatus.pair c.pair (Run.final mrsend [] calls) = some s ∧
        s.color = c.color ∧ 0 ≤ c.now - s.last ∧ c.now - s.last < c.mrsleep) := by
  constructor
  · have found : KeyedList.find TestStatus.pair c.pair (Run.final mrsend [] (calls ++ [c])) =
        some (trackStatus c
          (KeyedList.find TestStatus.pair c.pair (Run.final mrsend [] calls))).1 := by
      rw [Run.final_concat, mrsend_teststatus, find_insertStatus_self]
    obtain ⟨o, last, colors, times⟩ := text_of_record found
    exact ⟨_, o, found, last, colors, times⟩
  · rw [mrsend_silent_iff]
    refine exists_congr fun s => and_congr_right fun _ => ?_
    unfold Unchanged
    constructor
    · intro repeats
      obtain ⟨color, forward, recent⟩ := repeats
      exact ⟨color.symm, by omega, recent⟩
    · intro repeats
      obtain ⟨color, forward, recent⟩ := repeats
      exact ⟨color.symm, by omega, recent⟩

/-! ### Delivery -/

/-- A call and what becomes of its text, if it hands one over: it reaches the display
or `start_winsock`, `socket`, `connect` or `send` fails. -/
structure Attempt where
  call : Call
  delivered : Bool
  deriving DecidableEq, Repr

def attempt (teststatus : List TestStatus) (a : Attempt) :
    List TestStatus × Option (Handover × Bool) :=
  ((mrsend teststatus a.call).1, (mrsend teststatus a.call).2.map fun o => (o, a.delivered))

/-- The texts handed over in a run, each with whether the display got it. -/
def deliveries (attempts : List Attempt) : List (Handover × Bool) :=
  (Run.outputs attempt [] attempts).reduceOption

def deliveryPair (d : Handover × Bool) : Pair := d.1.pair

/-- The text the display got last for a pair. -/
def lastDelivered (p : Pair) (attempts : List Attempt) : Option (Handover × Bool) :=
  KeyedList.latest deliveryPair p ((deliveries attempts).filter fun d => d.2 = true)

theorem final_attempt (attempts : List Attempt) :
    Run.final attempt [] attempts = Run.final mrsend [] (attempts.map Attempt.call) := by
  simp only [Run.final, List.foldl_map]
  rfl

theorem deliveries_texts (attempts : List Attempt) :
    (deliveries attempts).map Prod.fst = sentTexts (attempts.map Attempt.call) := by
  induction attempts using List.reverseRecOn with
  | nil => rfl
  | append_singleton attempts a ih =>
    rw [List.map_append, List.map_singleton, sentTexts_concat, ← ih, ← final_attempt]
    simp only [deliveries, Run.outputs_concat, attempt]
    cases (mrsend (Run.final attempt [] attempts) a.call).2 <;> simp [List.reduceOption]

/-- A change to red that the network swallows: the next red report is silent although
the display still shows green. -/
theorem suppressed_report_never_delivered :
    ¬ ∀ (attempts : List Attempt) (a : Attempt),
      (attempt (Run.final attempt [] attempts) a).2 = none →
      ∃ d, lastDelivered a.call.pair attempts = some d ∧ d.1.color = a.call.color := by
  intro delivered
  obtain ⟨d, last, color⟩ := delivered
    [⟨cpuReport 0 0 "green", true⟩, ⟨cpuReport 0 10 "red", false⟩] ⟨cpuReport 0 20 "red", true⟩
    (by decide)
  have shown : lastDelivered (cpuReport 0 20 "red").pair
      [⟨cpuReport 0 0 "green", true⟩, ⟨cpuReport 0 10 "red", false⟩] =
        some ((cpuReport 0 0 "green").handover green, true) := by decide
  obtain rfl := Option.some.inj (shown.symm.trans last)
  exact absurd color (by decide)

/-- A silent report repeats the colour of the text handed over last for its pair, less
than `mrsleep` seconds ago; if that text arrived, the display shows the colour. -/
theorem suppressed_report_was_handed_over (attempts : List Attempt) (a : Attempt)
    (silent : (attempt (Run.final attempt [] attempts) a).2 = none) :
    ∃ d, KeyedList.latest deliveryPair a.call.pair (deliveries attempts) = some d ∧
      d.1.color = a.call.color ∧ 0 ≤ a.call.now - d.1.time ∧
      a.call.now - d.1.time < a.call.mrsleep ∧
      (d.2 = true → lastDelivered a.call.pair attempts = some d) := by
  have quiet : (mrsend (Run.final mrsend [] (attempts.map Attempt.call)) a.call).2 = none := by
    rw [final_attempt] at silent
    exact Option.map_eq_none_iff.mp silent
  obtain ⟨s, found, color, forward, recent⟩ := (mrsend_silent_iff _ _).mp quiet
  obtain ⟨o, last, colors, times⟩ := text_of_record found
  rw [← deliveries_texts, KeyedList.latest_map] at last
  obtain ⟨d, lastDelivery, rfl⟩ := Option.map_eq_some_iff.mp last
  refine ⟨d, lastDelivery, by rw [color, colors], by omega, by omega, fun arrived => ?_⟩
  exact KeyedList.latest_filter (fun d : Handover × Bool => d.2 = true) lastDelivery arrived

theorem suppressed_report_was_handed_over_red :
    ∃ d, KeyedList.latest deliveryPair (cpuReport 0 20 "red").pair
        (deliveries [⟨cpuReport 0 0 "green", true⟩, ⟨cpuReport 0 10 "red", false⟩]) = some d ∧
      d.1.color = (cpuReport 0 20 "red").color ∧ 0 ≤ (cpuReport 0 20 "red").now - d.1.time ∧
      (cpuReport 0 20 "red").now - d.1.time < (cpuReport 0 20 "red").mrsleep ∧
      (d.2 = true → lastDelivered (cpuReport 0 20 "red").pair
        [⟨cpuReport 0 0 "green", true⟩, ⟨cpuReport 0 10 "red", false⟩] = some d) :=
  suppressed_report_was_handed_over
    [⟨cpuReport 0 0 "green", true⟩, ⟨cpuReport 0 10 "red", false⟩] ⟨cpuReport 0 20 "red", true⟩
    (by decide)

end MrBig.Guarantees.StatusBookkeeping
