import MrBig.Guarantees.PartialSends
import MrBig.Guarantees.ReportsReadBack
import MrBig.Library.Channel

/-!
# What a display reads of a message

The agent's loop, the streams to the displays and the displays' own reading interleave in any
order. A display always has the beginning of the message, and when its stream ends it has all of
it, unless the agent has run out of time.
-/

set_option autoImplicit false

namespace MrBig.Guarantees.Delivery
open Library Library.Channel Source Abstract PartialSends ReportsReadBack

/-! ### Socket calls on a stream -/

/-- What a call does to the stream of its display. -/
def onStream (pipe : Pipe Char) : SocketCall → Pipe Char
  | .send data (.taken len) => pipe.write (data.take len)
  | .shutdown => pipe.close
  | _ => pipe

def carry (pipe : Pipe Char) (calls : List SocketCall) : Pipe Char := calls.foldl onStream pipe

theorem sent_onStream (pipe : Pipe Char) (call : SocketCall) :
    (onStream pipe call).sent = pipe.sent ++ taken call := by
  cases call with
  | send data r =>
    cases r with
    | error => exact (List.append_nil _).symm
    | taken len => exact Pipe.sent_write pipe _
  | _ => exact (List.append_nil _).symm

theorem shut_onStream (pipe : Pipe Char) (call : SocketCall) :
    (onStream pipe call).shut = true ↔ pipe.shut = true ∨ call = .shutdown := by
  cases call with
  | send data r => cases r <;> simp [onStream]
  | _ => simp [onStream]

theorem sent_carry (pipe : Pipe Char) (calls : List SocketCall) :
    (carry pipe calls).sent = pipe.sent ++ acceptedBytes calls := by
  induction calls generalizing pipe with
  | nil => exact (List.append_nil _).symm
  | cons call rest ih =>
    rw [carry, List.foldl_cons, ← carry, ih, sent_onStream, List.append_assoc]
    rfl

theorem shut_carry (pipe : Pipe Char) (calls : List SocketCall) :
    (carry pipe calls).shut = true ↔ pipe.shut = true ∨ .shutdown ∈ calls := by
  induction calls generalizing pipe with
  | nil => simp [carry]
  | cons call rest ih =>
    rw [carry, List.foldl_cons, ← carry, ih, shut_onStream, List.mem_cons, or_assoc]
    simp only [eq_comm]

/-- The stream holds what the calls of its display have put into it. -/
structure Carried (d : Display) (pipe : Pipe Char) : Prop where
  sent : pipe.sent = acceptedBytes d.calls
  shut : pipe.shut = true ↔ .shutdown ∈ d.calls

/-- A display has made further calls. -/
def Grown (d d' : Display) : Prop := d.calls <+: d'.calls

theorem Carried.carry {d d' : Display} {pipe : Pipe Char} (carried : Carried d pipe)
    (grown : Grown d d') : Carried d' (carry pipe (d'.calls.drop d.calls.length)) := by
  obtain ⟨new, same⟩ := grown
  have fresh : d'.calls.drop d.calls.length = new := by
    rw [← same]
    exact List.drop_left
  constructor
  · rw [sent_carry, fresh, carried.sent, ← same]
    exact List.flatMap_append.symm
  · rw [shut_carry, fresh, carried.shut, ← same, List.mem_append]

theorem Carried.read {d : Display} {pipe : Pipe Char} (carried : Carried d pipe) (n : Nat) :
    Carried d (pipe.read n) :=
  ⟨by rw [Pipe.sent_read, carried.sent], by rw [Pipe.shut_read, carried.shut]⟩

/-! ### The agent, the streams and the displays -/

/-- The agent's loop, and the stream to each display. -/
structure Sending where
  agent : SendState
  pipes : List (Pipe Char)

/-- The streams behind the calls that the displays have made since. -/
def carryAll (before after : List Display) (pipes : List (Pipe Char)) : List (Pipe Char) :=
  List.zipWith (fun (ds : Display × Display) pipe =>
    carry pipe (ds.2.calls.drop ds.1.calls.length)) (before.zip after) pipes

def cleanupAll (closed : Nat → Nat → Bool) (displays : List Display) : List Display :=
  displays.mapIdx fun i d => d.cleanup (closed i)

namespace Sending

variable (p : Message) (startTime : Int) (targets : Targets)

def start : Sending :=
  ⟨.top (setupAll p targets), (setupAll p targets).map fun d => carry .empty d.calls⟩

/-- One step of anybody: the agent goes on with its loop, cleans up behind it, or a display
reads. -/
inductive Step : Sending → Sending → Prop
  | send (x : Sending) (e : SendEvent) :
    Step x ⟨sendStep p startTime x.agent e,
      carryAll x.agent.displays (sendStep p startTime x.agent e).displays x.pipes⟩
  | cleanup (x : Sending) (why : LoopExit) (displays : List Display)
      (closed : Nat → Nat → Bool) (left : x.agent = .left why displays)
      (defined : why ≠ .overflow) :
    Step x ⟨.left why (cleanupAll closed displays),
      carryAll displays (cleanupAll closed displays) x.pipes⟩
  | read (x : Sending) (i n : Nat) : Step x { x with pipes := x.pipes.modify i (·.read n) }

abbrev Reaches : Sending → Sending → Prop := Relation.ReflTransGen (Step p startTime)

end Sending

/-! ### The streams keep up with the calls -/

theorem grown_send (p : Message) (r : SendResult) (d : Display) : Grown d (d.send p r) := by
  unfold Grown Display.send
  split
  · cases r with
    | error => exact List.prefix_append _ _
    | taken len =>
      dsimp only
      split
      · exact (List.prefix_append _ _).trans (List.prefix_append _ _)
      · exact List.prefix_append _ _
  · exact List.prefix_refl _

theorem grown_cleanup (closed : Nat → Bool) (d : Display) : Grown d (d.cleanup closed) := by
  unfold Grown Display.cleanup
  split
  · exact List.prefix_refl _
  · dsimp only
    rw [List.append_assoc, List.append_assoc]
    exact List.prefix_append _ _

theorem grown_refl (displays : List Display) : List.Forall₂ Grown displays displays :=
  List.forall₂_same.mpr fun d _ => List.prefix_refl d.calls

theorem grown_sendStep (p : Message) (startTime : Int) (state : SendState) (e : SendEvent) :
    List.Forall₂ Grown state.displays (sendStep p startTime state e).displays := by
  cases state with
  | top displays =>
    unfold sendStep
    dsimp only
    split
    · exact grown_refl displays
    · split
      · exact grown_refl displays
      · split <;> exact grown_refl displays
  | left why displays => exact grown_refl displays
  | sending before after =>
    cases after with
    | nil =>
      change List.Forall₂ Grown (before ++ []) before
      rw [List.append_nil]
      exact grown_refl before
    | cons d after =>
      change List.Forall₂ Grown (before ++ d :: after) ((before ++ [d.send p e.send]) ++ after)
      rw [List.append_assoc]
      exact List.rel_append (grown_refl before) (.cons (grown_send p e.send d) (grown_refl after))

theorem grown_cleanupAll (closed : Nat → Nat → Bool) (displays : List Display) :
    List.Forall₂ Grown displays (cleanupAll closed displays) := by
  refine List.forall₂_iff_get.mpr ⟨by simp [cleanupAll], fun i inside inside' => ?_⟩
  simpa [cleanupAll] using grown_cleanup (closed i) displays[i]

theorem carried_carryAll {before after : List Display} {pipes : List (Pipe Char)}
    (carried : List.Forall₂ Carried before pipes) (grown : List.Forall₂ Grown before after) :
    List.Forall₂ Carried after (carryAll before after pipes) := by
  induction grown generalizing pipes with
  | nil =>
    cases carried
    exact .nil
  | cons here rest ih =>
    cases carried with
    | cons first others => exact .cons (first.carry here) (ih others)

theorem carried_start (displays : List Display) :
    List.Forall₂ Carried displays (displays.map fun d => carry .empty d.calls) := by
  rw [List.forall₂_map_right_iff]
  refine List.forall₂_same.mpr fun d _ => ⟨?_, ?_⟩
  · rw [sent_carry]
    rfl
  · rw [shut_carry]
    simp [Pipe.empty]

theorem carried_modify {displays : List Display} {pipes : List (Pipe Char)}
    (carried : List.Forall₂ Carried displays pipes) (i n : Nat) :
    List.Forall₂ Carried displays (pipes.modify i (·.read n)) := by
  induction carried generalizing i with
  | nil => simp
  | cons here rest ih =>
    cases i with
    | zero => exact .cons (here.read n) rest
    | succ i => exact .cons here (ih i)

/-! ### Where the agent can be -/

theorem mem_forall₂ {α β : Type*} {R : α → β → Prop} {as : List α} {bs : List β}
    (related : List.Forall₂ R as bs) {b : β} (member : b ∈ bs) : ∃ a ∈ as, R a b := by
  induction related with
  | nil => cases member
  | cons here rest ih =>
    rcases List.mem_cons.mp member with rfl | later
    · exact ⟨_, List.mem_cons_self, here⟩
    · obtain ⟨a, inside, holds⟩ := ih later
      exact ⟨a, List.mem_cons_of_mem _ inside, holds⟩

/-- A display that has taken all there is has taken the message. -/
theorem whole_of_standsAt {p : Message} {d : Display} {c : Cursor p.text} (stands : StandsAt p d c)
    (nothing : ¬ d.remaining > 0) : acceptedBytes d.calls = p.text := by
  have length := stands.remaining
  have empty : c.rest = [] := List.eq_nil_of_length_eq_zero (by omega)
  rw [stands.accepted, Cursor.done_of_rest_nil empty]

/-- One that has not, has not. -/
theorem not_whole_of_standsAt {p : Message} {d : Display} {c : Cursor p.text}
    (stands : StandsAt p d c) (more : d.remaining > 0) : acceptedBytes d.calls ≠ p.text := by
  intro whole
  have length := stands.remaining
  have parts := congrArg List.length c.done_append_rest
  rw [← stands.accepted, whole, List.length_append] at parts
  omega

/-- The loop shuts a stream down only when the display has taken the message. -/
def ShutWhole (p : Message) (t : Display × SetupScript) (d : Display) : Prop :=
  Tracks p t d ∧ (.shutdown ∈ d.calls → acceptedBytes d.calls = p.text)

theorem setup_shutWhole (p : Message) (t : Display × SetupScript) :
    ShutWhole p t (t.1.setup p t.2) := by
  refine ⟨setup_tracks p t, fun shut => ?_⟩
  exfalso
  revert shut
  unfold Display.setup
  cases t.2.socket with
  | none => simp
  | some s =>
    dsimp only
    repeat' split
    all_goals simp

theorem send_shutWhole (p : Message) (r : SendResult) {t : Display × SetupScript} {d : Display}
    (holds : ShutWhole p t d) : ShutWhole p t (d.send p r) := by
  obtain ⟨tracks, whole⟩ := holds
  have tracks' := send_tracks p r tracks
  refine ⟨tracks', fun shut => ?_⟩
  by_cases pending : d.Pending
  · unfold Tracks at tracks tracks'
    split at tracks
    next ok =>
      rw [if_pos ok] at tracks'
      obtain ⟨-, c, stands⟩ := tracks
      obtain ⟨-, c', stands'⟩ := tracks'
      apply whole_of_standsAt stands'
      -- Nothing was shut down before, so the call that did it was made behind this `send`.
      have opened : .shutdown ∉ d.calls := fun before =>
        not_whole_of_standsAt stands pending.2 (whole before)
      revert shut
      unfold Display.send
      rw [if_pos pending]
      cases r with
      | error => simp [opened]
      | taken len =>
        dsimp only
        split
        next zero => exact fun _ => Int.not_lt.mpr (le_of_eq zero)
        next => simp [opened]
    next => exact absurd tracks.1 pending.1
  · have same : d.send p r = d := if_neg pending
    rw [same] at shut ⊢
    exact whole shut

theorem shutWhole_loop (p : Message) (startTime : Int) (targets : Targets)
    (events : List SendEvent) :
    List.Forall₂ (ShutWhole p) targets (sendLoop p startTime targets events).displays :=
  sendLoop_related p startTime targets events (setup_shutWhole p)
    fun _ _ r holds => send_shutWhole p r holds

/-- The agent is in its loop, or has cleaned up behind it. -/
def AgentAt (p : Message) (startTime : Int) (targets : Targets) (agent : SendState) : Prop :=
  ∃ events, agent = sendLoop p startTime targets events ∨
    ∃ why displays closed, sendLoop p startTime targets events = .left why displays ∧
      why ≠ .overflow ∧ agent = .left why (cleanupAll closed displays)

theorem cleanup_cleanup (closed closed' : Nat → Bool) (d : Display) :
    (d.cleanup closed).cleanup closed' = d.cleanup closed := by
  rw [Display.cleanup, if_pos (cleanup_s closed d)]

theorem cleanupAll_twice (closed closed' : Nat → Nat → Bool) (displays : List Display) :
    cleanupAll closed' (cleanupAll closed displays) = cleanupAll closed displays := by
  unfold cleanupAll
  rw [List.mapIdx_mapIdx]
  congr 1
  funext i d
  exact cleanup_cleanup (closed i) (closed' i) d

/-- What the calls of a display amount to, wherever the agent is. -/
structure Honest (p : Message) (agent : SendState) (d : Display) : Prop where
  accepted : acceptedBytes d.calls <+: p.text
  shut : .shutdown ∈ d.calls → acceptedBytes d.calls = p.text ∨
    ∃ displays, agent = .left .timedOut displays

theorem honest_loop {p : Message} {startTime : Int} {targets : Targets} (events : List SendEvent)
    {d : Display} (member : d ∈ (sendLoop p startTime targets events).displays) :
    Honest p (sendLoop p startTime targets events) d := by
  obtain ⟨t, -, tracks, whole⟩ := mem_forall₂ (shutWhole_loop p startTime targets events) member
  exact ⟨tracks.accepted, fun shut => Or.inl (whole shut)⟩

/-- A display whose socket is open when nothing remains has taken the message. -/
theorem whole_of_idle {p : Message} {t : Display × SetupScript} {d : Display}
    (tracks : Tracks p t d) (up : d.s ≠ none) (idle : ¬ d.Pending) :
    acceptedBytes d.calls = p.text := by
  unfold Tracks at tracks
  split at tracks
  next =>
    obtain ⟨-, c, stands⟩ := tracks
    exact whole_of_standsAt stands fun more => idle ⟨up, more⟩
  next => exact absurd tracks.1 up

theorem AgentAt.honest {p : Message} {startTime : Int} {targets : Targets} {agent : SendState}
    (placed : AgentAt p startTime targets agent) {d : Display} (member : d ∈ agent.displays) :
    Honest p agent d := by
  obtain ⟨events, rfl | ⟨why, displays, closed, left, defined, rfl⟩⟩ := placed
  · exact honest_loop events member
  · obtain ⟨i, inside, rfl⟩ := List.mem_mapIdx.mp member
    have before : displays[i] ∈ (sendLoop p startTime targets events).displays := by
      rw [left]
      exact List.getElem_mem inside
    obtain ⟨t, -, tracks, whole⟩ := mem_forall₂ (shutWhole_loop p startTime targets events) before
    refine ⟨?_, fun shut => ?_⟩
    · rw [cleanup_accepted]
      exact tracks.accepted
    · rw [cleanup_accepted]
      cases why with
      | overflow => exact absurd rfl defined
      | timedOut => exact Or.inr ⟨_, rfl⟩
      | nothingRemains =>
        left
        by_cases up : displays[i].s = none
        · rw [Display.cleanup, if_pos up] at shut
          exact whole shut
        · have idle := not_pending_of_totRemaining
            (sendLoop_settled p startTime targets events displays left)
          exact whole_of_idle tracks up (idle _ (List.getElem_mem inside))

/-! ### Any order of steps -/

structure Kept (p : Message) (startTime : Int) (targets : Targets) (x : Sending) : Prop where
  agentAt : AgentAt p startTime targets x.agent
  carried : List.Forall₂ Carried x.agent.displays x.pipes

theorem kept_start (p : Message) (startTime : Int) (targets : Targets) :
    Kept p startTime targets (.start p targets) where
  agentAt := ⟨[], Or.inl rfl⟩
  carried := carried_start _

theorem AgentAt.send {p : Message} {startTime : Int} {targets : Targets} {agent : SendState}
    (placed : AgentAt p startTime targets agent) (e : SendEvent) :
    AgentAt p startTime targets (sendStep p startTime agent e) := by
  obtain ⟨events, rfl | ⟨why, displays, closed, left, defined, rfl⟩⟩ := placed
  · refine ⟨events ++ [e], Or.inl ?_⟩
    rw [sendLoop, sendLoop, List.foldl_append]
    rfl
  · exact ⟨events, Or.inr ⟨why, displays, closed, left, defined, rfl⟩⟩

theorem AgentAt.cleanup {p : Message} {startTime : Int} {targets : Targets} {why : LoopExit}
    {displays : List Display} (placed : AgentAt p startTime targets (.left why displays))
    (closed : Nat → Nat → Bool) (defined : why ≠ .overflow) :
    AgentAt p startTime targets (.left why (cleanupAll closed displays)) := by
  obtain ⟨events, here | ⟨why', displays', closed', left, defined', same⟩⟩ := placed
  · exact ⟨events, Or.inr ⟨why, displays, closed, here.symm, defined, rfl⟩⟩
  · obtain ⟨rfl, rfl⟩ := SendState.left.inj same
    refine ⟨events, Or.inr ⟨why, displays', closed', left, defined', ?_⟩⟩
    rw [cleanupAll_twice]

theorem Kept.step {p : Message} {startTime : Int} {targets : Targets} {x y : Sending}
    (kept : Kept p startTime targets x) (step : Sending.Step p startTime x y) :
    Kept p startTime targets y := by
  obtain ⟨placed, carried⟩ := kept
  cases step with
  | send e => exact ⟨placed.send e, carried_carryAll carried (grown_sendStep p startTime _ e)⟩
  | cleanup why displays closed left defined =>
    rw [left] at placed carried
    exact ⟨placed.cleanup closed defined,
      carried_carryAll carried (grown_cleanupAll closed displays)⟩
  | read i n => exact ⟨placed, carried_modify carried i n⟩

theorem kept_of_reaches {p : Message} {startTime : Int} {targets : Targets} {x : Sending}
    (reached : Sending.Reaches p startTime (.start p targets) x) : Kept p startTime targets x := by
  induction reached with
  | refl => exact kept_start p startTime targets
  | tail _ step ih => exact ih.step step

/-- The stream has delivered the beginning of the message, and at its end all of it. -/
structure InOrder (p : Message) (agent : SendState) (pipe : Pipe Char) : Prop where
  delivered : pipe.delivered <+: p.text
  ended : pipe.AtEnd → pipe.delivered = p.text ∨ ∃ displays, agent = .left .timedOut displays

theorem Kept.inOrder {p : Message} {startTime : Int} {targets : Targets} {x : Sending}
    (kept : Kept p startTime targets x) : ∀ pipe ∈ x.pipes, InOrder p x.agent pipe := by
  intro pipe member
  obtain ⟨placed, carried⟩ := kept
  obtain ⟨d, inside, sent, shut⟩ := mem_forall₂ carried member
  obtain ⟨accepted, whole⟩ := placed.honest inside
  constructor
  · apply pipe.delivered_prefix_sent.trans
    rw [sent]
    exact accepted
  · intro ended
    rw [ended.delivered_eq_sent, sent]
    exact whole (shut.mp ended.1)

/-! ### The message can still arrive -/

theorem reaches_events (p : Message) (startTime : Int) (events : List SendEvent) (x : Sending) :
    ∃ pipes, Sending.Reaches p startTime x
      ⟨events.foldl (sendStep p startTime) x.agent, pipes⟩ := by
  induction events generalizing x with
  | nil => exact ⟨x.pipes, .refl⟩
  | cons e rest ih =>
    obtain ⟨pipes, later⟩ := ih ⟨sendStep p startTime x.agent e, _⟩
    exact ⟨pipes, .head (.send x e) later⟩

/-- In time, and the socket takes all it is offered. -/
def takesAll (startTime : Int) : SendEvent := ⟨startTime, startTime, .taken intMax⟩

theorem finish_pass (p : Message) (startTime : Int) (before after : List Display) :
    (List.replicate (after.length + 1) (takesAll startTime)).foldl (sendStep p startTime)
        (.sending before after) =
      .top (before ++ after.map (Display.send p (.taken intMax))) := by
  induction after generalizing before with
  | nil =>
    rw [List.map_nil, List.append_nil]
    rfl
  | cons d after ih =>
    rw [List.length_cons, List.replicate_succ, List.foldl_cons]
    change List.foldl _ (SendState.sending (before ++ [d.send p (.taken intMax)]) after) _ = _
    rw [ih, List.append_assoc]
    rfl

theorem not_pending_send {p : Message} {t : Display × SetupScript} {d : Display}
    (tracks : Tracks p t d) : ¬ (d.send p (.taken intMax)).Pending := by
  unfold Tracks at tracks
  split at tracks
  next =>
    obtain ⟨up, c, stands⟩ := tracks
    have left := (stands.send up (.taken intMax)).remaining
    have all : c.rest.length ≤ intMax := by
      rw [Cursor.length_rest]
      exact (Nat.sub_le _ _).trans p.short
    rw [moved, Cursor.length_rest_advance, Nat.min_eq_right all, Nat.sub_self] at left
    rintro ⟨-, more⟩
    omega
  next =>
    rintro ⟨unclosed, -⟩
    rw [send_s] at unclosed
    exact unclosed tracks.1

theorem totRemaining_of_idle {displays : List Display} (idle : ∀ d ∈ displays, ¬ d.Pending) :
    totRemaining displays = 0 := by
  have isEmpty : (displays.filter fun d => d.Pending) = [] :=
    List.filter_eq_nil_iff.mpr fun d member => by simpa using idle d member
  rw [totRemaining, isEmpty]
  rfl

theorem totRemaining_le {p : Message} {targets : Targets} {displays : List Display}
    (tracks : List.Forall₂ (Tracks p) targets displays) :
    totRemaining displays ≤ targets.length * p.text.length := by
  induction tracks with
  | nil => simp [totRemaining]
  | @cons t d targets displays here rest ih =>
    have step : totRemaining (d :: displays) ≤ p.text.length + totRemaining displays := by
      by_cases pending : d.Pending
      · have mine : d.remaining ≤ p.text.length := by
          unfold Tracks at here
          split at here
          next =>
            obtain ⟨-, c, stands⟩ := here
            rw [stands.remaining, Cursor.length_rest]
            omega
          next => exact absurd here.1 pending.1
        have sum : totRemaining (d :: displays) = d.remaining + totRemaining displays := by
          simp [totRemaining, pending]
        omega
      · have same : totRemaining (d :: displays) = totRemaining displays := by
          simp [totRemaining, pending]
        omega
    rw [List.length_cons, Nat.cast_add_one, Int.add_mul, Int.one_mul]
    omega

/-- From the head of the loop, a pass in which every socket takes all it is offered is the last
one. -/
theorem last_pass {p : Message} (startTime : Int) {targets : Targets}
    (few : targets.length * p.text.length ≤ intMax) {displays : List Display}
    (tracks : List.Forall₂ (Tracks p) targets displays) :
    ∃ (events : List SendEvent) (displays' : List Display),
      events.foldl (sendStep p startTime) (.top displays) =
        .left .nothingRemains displays' := by
  have fits : ¬ totRemaining displays > intMax := by
    have bound := totRemaining_le tracks
    omega
  have inTime : ¬ timedOut startTime startTime startTime := by
    unfold timedOut
    omega
  by_cases zero : totRemaining displays = 0
  · refine ⟨[takesAll startTime], displays, ?_⟩
    change sendStep p startTime (.top displays) (takesAll startTime) = _
    rw [sendStep, if_neg fits, if_pos zero]
  · have idle : ∀ d ∈ displays.map (Display.send p (.taken intMax)), ¬ d.Pending := by
      intro d member
      obtain ⟨d, inside, rfl⟩ := List.mem_map.mp member
      obtain ⟨t, -, tracked⟩ := mem_forall₂ tracks inside
      exact not_pending_send tracked
    have nothing := totRemaining_of_idle idle
    refine ⟨takesAll startTime :: (List.replicate (displays.length + 1) (takesAll startTime) ++
      [takesAll startTime]), displays.map (Display.send p (.taken intMax)), ?_⟩
    rw [List.foldl_cons, List.foldl_append]
    have enters : sendStep p startTime (.top displays) (takesAll startTime) =
        .sending [] displays := by
      rw [sendStep, if_neg fits, if_neg zero]
      exact if_neg inTime
    rw [enters, finish_pass, List.nil_append]
    change sendStep p startTime (.top _) (takesAll startTime) = _
    rw [sendStep, nothing, if_neg (by decide), if_pos rfl]

/-- The bytes that are left are never more than an int holds. -/
theorem not_overflow {p : Message} {startTime : Int} {targets : Targets}
    (few : targets.length * p.text.length ≤ intMax) (events : List SendEvent)
    (displays : List Display) :
    sendLoop p startTime targets events ≠ .left .overflow displays := by
  induction events using List.reverseRecOn with
  | nil =>
    intro left
    cases left
  | append_singleton events e ih =>
    have tracks := sendLoop_tracks p startTime targets events
    rw [sendLoop, List.foldl_append, ← sendLoop, List.foldl_cons, List.foldl_nil]
    cases placed : sendLoop p startTime targets events with
    | top now =>
      rw [placed] at tracks
      have fits : ¬ totRemaining now > intMax := by
        have bound : totRemaining now ≤ targets.length * p.text.length := totRemaining_le tracks
        omega
      rw [sendStep, if_neg fits]
      intro left
      split at left
      · cases left
      · split at left <;> cases left
    | sending before after =>
      intro left
      cases after <;> cases left
    | left why now =>
      rw [placed] at ih
      exact ih

/-- The loop can be left with nothing remaining from wherever it is, and only running out of time
leaves it otherwise. -/
theorem loop_finishes {p : Message} {startTime : Int} {targets : Targets}
    (few : targets.length * p.text.length ≤ intMax) (events : List SendEvent)
    (inTime : ∀ displays, sendLoop p startTime targets events ≠ .left .timedOut displays) :
    ∃ more displays, sendLoop p startTime targets (events ++ more) =
      .left .nothingRemains displays := by
  have tracks := sendLoop_tracks p startTime targets events
  have goesOn : ∀ more, sendLoop p startTime targets (events ++ more) =
      more.foldl (sendStep p startTime) (sendLoop p startTime targets events) :=
    fun more => List.foldl_append
  cases placed : sendLoop p startTime targets events with
  | top displays =>
    rw [placed] at tracks
    obtain ⟨more, displays', ends⟩ := last_pass startTime few tracks
    refine ⟨more, displays', ?_⟩
    rw [goesOn, placed]
    exact ends
  | sending before after =>
    let pass := List.replicate (after.length + 1) (takesAll startTime)
    have tracks' := sendLoop_tracks p startTime targets (events ++ pass)
    rw [goesOn, placed, finish_pass] at tracks'
    obtain ⟨more, displays', ends⟩ := last_pass startTime few tracks'
    refine ⟨pass ++ more, displays', ?_⟩
    rw [goesOn, List.foldl_append, placed, finish_pass]
    exact ends
  | left why displays =>
    cases why with
    | nothingRemains => exact ⟨[], displays, by rw [goesOn, placed]; rfl⟩
    | timedOut => exact absurd placed (inTime displays)
    | overflow => exact absurd placed (not_overflow few events displays)

/-! ### Everybody reads to the end -/

def readAll (pipe : Pipe Char) : Pipe Char := pipe.read pipe.inFlight.length

theorem atEnd_readAll {pipe : Pipe Char} (shut : pipe.shut = true) :
    (readAll pipe).AtEnd ∧ (readAll pipe).delivered = pipe.sent := by
  have ended : (readAll pipe).AtEnd := ⟨shut, List.drop_length⟩
  exact ⟨ended, ended.delivered_eq_sent.trans (Pipe.sent_read pipe _)⟩

theorem modify_middle {α : Type*} (f : α → α) (before : List α) (a : α) (after : List α) :
    (before ++ a :: after).modify before.length f = before ++ f a :: after := by
  induction before with
  | nil => rfl
  | cons b before ih => simp [ih]

theorem reaches_readAll (p : Message) (startTime : Int) (agent : SendState)
    (before after : List (Pipe Char)) :
    Sending.Reaches p startTime ⟨agent, before ++ after⟩ ⟨agent, before ++ after.map readAll⟩ := by
  induction after generalizing before with
  | nil => exact .refl
  | cons pipe after ih =>
    have step : Sending.Step p startTime ⟨agent, before ++ pipe :: after⟩
        ⟨agent, (before ++ pipe :: after).modify before.length (·.read pipe.inFlight.length)⟩ :=
      .read _ before.length pipe.inFlight.length
    rw [modify_middle] at step
    have rest := ih (before ++ [readAll pipe])
    rw [List.append_assoc, List.append_assoc] at rest
    exact .head step rest

/-- What the cleanup leaves of a display that was set up and has taken the message. -/
theorem cleaned_whole {p : Message} {t : Display × SetupScript} {d : Display}
    (tracks : Tracks p t d) (idle : ¬ d.Pending) (ok : t.2.succeeds = true) (closed : Nat → Bool) :
    .shutdown ∈ (d.cleanup closed).calls ∧ acceptedBytes (d.cleanup closed).calls = p.text := by
  have up : d.s ≠ none := by
    rw [Tracks, if_pos ok] at tracks
    exact tracks.1
  constructor
  · rw [Display.cleanup, if_neg up]
    simp
  · rw [cleanup_accepted]
    exact whole_of_idle tracks up idle

/-- Behind a loop that was left with nothing remaining. -/
def Finished (p : Message) (startTime : Int) (targets : Targets) (agent : SendState) : Prop :=
  ∃ events displays closed, sendLoop p startTime targets events = .left .nothingRemains displays ∧
    agent = .left .nothingRemains (cleanupAll closed displays)

theorem reaches_finished {p : Message} {startTime : Int} {targets : Targets} {x : Sending}
    (few : targets.length * p.text.length ≤ intMax) (placed : AgentAt p startTime targets x.agent)
    (inTime : ∀ displays, x.agent ≠ .left .timedOut displays) :
    ∃ y, Sending.Reaches p startTime x y ∧ Finished p startTime targets y.agent := by
  obtain ⟨events, inLoop | ⟨why, displays, closed, left, defined, cleaned⟩⟩ := placed
  · rw [inLoop] at inTime
    obtain ⟨more, displays, ends⟩ := loop_finishes few events inTime
    obtain ⟨pipes, sends⟩ := reaches_events p startTime more x
    have final : more.foldl (sendStep p startTime) x.agent = .left .nothingRemains displays := by
      rw [inLoop, sendLoop, ← List.foldl_append]
      exact ends
    rw [final] at sends
    refine ⟨_, sends.tail (.cleanup _ .nothingRemains displays (fun _ _ => true) rfl nofun), ?_⟩
    exact ⟨events ++ more, displays, fun _ _ => true, ends, rfl⟩
  · cases why with
    | nothingRemains => exact ⟨x, .refl, events, displays, closed, left, cleaned⟩
    | timedOut => exact absurd cleaned (inTime _)
    | overflow => exact absurd rfl defined

/-- The streams behind the cleanup are shut and hold the message. -/
theorem Finished.streams {p : Message} {startTime : Int} {targets : Targets} {x : Sending}
    (finished : Finished p startTime targets x.agent)
    (carried : List.Forall₂ Carried x.agent.displays x.pipes) :
    List.Forall₂ (fun t pipe => t.2.succeeds = true → pipe.shut = true ∧ pipe.sent = p.text)
      targets x.pipes := by
  obtain ⟨events, displays, closed, left, cleaned⟩ := finished
  have tracks := sendLoop_tracks p startTime targets events
  have idle := not_pending_of_totRemaining
    (sendLoop_settled p startTime targets events displays left)
  rw [left] at tracks
  rw [cleaned] at carried
  change List.Forall₂ (Tracks p) targets displays at tracks
  change List.Forall₂ Carried (cleanupAll closed displays) x.pipes at carried
  have sameLength : (cleanupAll closed displays).length = displays.length := List.length_mapIdx
  refine List.forall₂_iff_get.mpr ⟨?_, fun i inside inside' ok => ?_⟩
  · rw [tracks.length_eq, ← sameLength, carried.length_eq]
  · have here : i < displays.length := tracks.length_eq ▸ inside
    have there : i < (cleanupAll closed displays).length := sameLength ▸ here
    have tracked := tracks.get inside here
    obtain ⟨sent, shut⟩ := carried.get there inside'
    have same : (cleanupAll closed displays).get ⟨i, there⟩ = displays[i].cleanup (closed i) :=
      List.getElem_mapIdx
    obtain ⟨down, whole⟩ := cleaned_whole tracked (idle _ (List.get_mem displays ⟨i, here⟩)) ok
      (closed i)
    rw [same] at sent shut
    exact ⟨shut.mpr down, sent.trans whole⟩

/-- However the agent's loop, its cleanup and the displays' reading interleave, and whatever the
socket calls return: what a display has read is the beginning of the message, and if its stream
is at its end it is the whole message, unless the loop has timed out. Until it has, every display
that was set up can still get the whole message, whatever the sockets have refused so far. -/
theorem read_in_order (p : Message) (startTime : Int) (targets : Targets) {x : Sending}
    (reached : Sending.Reaches p startTime (.start p targets) x) :
    (∀ pipe ∈ x.pipes, pipe.delivered <+: p.text ∧
      (pipe.AtEnd → pipe.delivered = p.text ∨
        ∃ displays, x.agent = .left .timedOut displays)) ∧
    (targets.length * p.text.length ≤ intMax →
      (∀ displays, x.agent ≠ .left .timedOut displays) →
      ∃ y, Sending.Reaches p startTime x y ∧
        List.Forall₂ (fun t pipe => t.2.succeeds = true →
          pipe.AtEnd ∧ pipe.delivered = p.text) targets y.pipes) := by
  have kept := kept_of_reaches reached
  constructor
  · intro pipe member
    obtain ⟨delivered, ended⟩ := kept.inOrder pipe member
    exact ⟨delivered, ended⟩
  · intro few inTime
    obtain ⟨y, sends, finished⟩ := reaches_finished few kept.agentAt inTime
    have streams := finished.streams (kept_of_reaches (reached.trans sends)).carried
    refine ⟨⟨y.agent, y.pipes.map readAll⟩,
      sends.trans (reaches_readAll p startTime y.agent [] y.pipes), ?_⟩
    rw [List.forall₂_map_right_iff]
    refine streams.imp fun t pipe holds ok => ?_
    obtain ⟨shut, sent⟩ := holds ok
    obtain ⟨ended, delivered⟩ := atEnd_readAll shut
    exact ⟨ended, delivered.trans sent⟩

/-- What a display takes a legible text for, at any time and at the end of its stream. -/
theorem read_as_sent {o : Handover} (plain : (lineOf o).Plain)
    (fits : (lineOf o).header.length ≤ o.reportSize - 1) (isInt : o.reportSize ≤ intMax)
    (startTime : Int) (targets : Targets) {x : Sending}
    (reached : Sending.Reaches (o.report isInt) startTime (.start (o.report isInt) targets) x) :
    ∀ pipe ∈ x.pipes,
      (∀ l, StatusLine.parse pipe.delivered = some l →
        l.machine = o.machine ∧ l.test = o.test ∧ l.color = o.color ∧ l.message <+: o.message) ∧
      (pipe.AtEnd → StatusLine.parse pipe.delivered = some (cutLine o) ∨
        ∃ displays, x.agent = .left .timedOut displays) := by
  intro pipe member
  obtain ⟨delivered, ended⟩ := (kept_of_reaches reached).inOrder pipe member
  have printed : (o.report isInt).text = (cutLine o).print := text_of_fits fits
  have plain' : (cutLine o).Plain := ⟨plain.machine, plain.test, plain.color⟩
  rw [printed] at delivered ended
  constructor
  · intro l read
    obtain ⟨machine, test, color, message⟩ := StatusLine.parse_of_prefix plain' delivered read
    exact ⟨machine, test, color, message.trans (List.take_prefix _ o.message)⟩
  · intro placed
    rcases ended placed with whole | late
    · left
      rw [whole]
      exact StatusLine.parse_print plain'
    · exact Or.inr late

/-- In every run in which the agent's own tests report, whatever then becomes of the text on its
way: a display that takes what it has read for a status takes it for the one that was sent, with
the beginning of its message. At the end of its stream it does, with all of the message that the
report has room for, unless the loop has timed out. -/
theorem never_misread {teststatus : List TestStatus} {calls : List Call}
    (own : ∀ c ∈ calls, OwnReport c) {o : Handover}
    (handed : some o ∈ Run.outputs mrsend teststatus calls) (isInt : o.reportSize ≤ intMax)
    (startTime : Int) (targets : Targets) {x : Sending}
    (reached : Sending.Reaches (o.report isInt) startTime (.start (o.report isInt) targets) x) :
    ∀ pipe ∈ x.pipes,
      (∀ l, StatusLine.parse pipe.delivered = some l →
        l.machine = o.machine ∧ l.test = o.test ∧ l.color = o.color ∧ l.message <+: o.message) ∧
      (pipe.AtEnd → StatusLine.parse pipe.delivered = some (cutLine o) ∨
        ∃ displays, x.agent = .left .timedOut displays) := by
  obtain ⟨plain, fits⟩ := own_plain own handed
  exact read_as_sent plain fits isInt startTime targets reached

/-! ### A report on its way -/

def ownMessage : Message := ownHandover.report (by decide)

/-- One display, whose `connect` would block. -/
def oneDisplay : Targets :=
  [(⟨none, 0, 0, []⟩, ⟨some 1, true, true, true, some WSAEWOULDBLOCK, true⟩)]

def sendOn (p : Message) (x : Sending) (e : SendEvent) : Sending :=
  ⟨sendStep p 0 x.agent e, carryAll x.agent.displays (sendStep p 0 x.agent e).displays x.pipes⟩

/-- The socket has taken 20 bytes, of which the display has read 15. -/
def partWay : Sending :=
  let sent := [⟨0, 0, .error⟩, ⟨0, 0, .taken 20⟩].foldl (sendOn ownMessage)
    (.start ownMessage oneDisplay)
  { sent with pipes := sent.pipes.modify 0 (·.read 15) }

theorem partWay_reached :
    Sending.Reaches ownMessage 0 (.start ownMessage oneDisplay) partWay :=
  .tail (.tail (.single (.send _ ⟨0, 0, .error⟩)) (.send _ ⟨0, 0, .taken 20⟩)) (.read _ 0 15)

theorem read_in_order_partWay :
    (∀ pipe ∈ partWay.pipes, pipe.delivered <+: ownMessage.text ∧
      (pipe.AtEnd → pipe.delivered = ownMessage.text ∨
        ∃ displays, partWay.agent = .left .timedOut displays)) ∧
    ∃ y, Sending.Reaches ownMessage 0 partWay y ∧
      List.Forall₂ (fun t pipe => t.2.succeeds = true →
        pipe.AtEnd ∧ pipe.delivered = ownMessage.text) oneDisplay y.pipes := by
  obtain ⟨safe, arrives⟩ := read_in_order ownMessage 0 oneDisplay partWay_reached
  have sending : ∃ before after, partWay.agent = .sending before after := ⟨_, _, rfl⟩
  refine ⟨safe, arrives (by decide) fun displays left => ?_⟩
  obtain ⟨before, after, placed⟩ := sending
  rw [placed] at left
  cases left

/-- The stream then. -/
def partWayStream : Pipe Char :=
  ⟨ownMessage.text.take 15, (ownMessage.text.take 20).drop 15, false⟩

theorem never_misread_partWay :
    (∀ l, StatusLine.parse partWayStream.delivered = some l →
      l.machine = ownHandover.machine ∧ l.test = ownHandover.test ∧
        l.color = ownHandover.color ∧ l.message <+: ownHandover.message) ∧
    (partWayStream.AtEnd → StatusLine.parse partWayStream.delivered = some (cutLine ownHandover) ∨
      ∃ displays, partWay.agent = .left .timedOut displays) := by
  have own : ∀ c ∈ [ownCall], OwnReport c := by
    intro c inside
    obtain rfl := List.mem_singleton.mp inside
    exact ⟨localhost_configured, by decide, by decide, by decide⟩
  exact never_misread own ownHandover_handed (by decide) 0 oneDisplay partWay_reached
    partWayStream (by decide +kernel)

end MrBig.Guarantees.Delivery
