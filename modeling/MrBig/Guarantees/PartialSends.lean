import Mathlib.Algebra.Order.BigOperators.Group.List
import Mathlib.Algebra.Order.Group.Int
import MrBig.Library.Cursor
import MrBig.Source.SendUpdate

/-!
# Partial sends lose and repeat nothing

Each display that was set up is a cursor on the message: `pdata` is its position,
`remaining` the length of its rest, and the bytes its `send` calls got rid of are what
is done. A `send` moves the cursor of its own display and of no other.
-/

set_option autoImplicit false

namespace MrBig.Guarantees.PartialSends
open Library Source

/-- The bytes that a call makes the display accept. -/
def taken : SocketCall → Text
  | .send data (.taken len) => data.take len
  | _ => []

/-- All the bytes that calls make the display accept, in order. -/
def acceptedBytes (calls : List SocketCall) : Text := calls.flatMap taken

@[simp] theorem acceptedBytes_concat (calls : List SocketCall) (call : SocketCall) :
    acceptedBytes (calls ++ [call]) = acceptedBytes calls ++ taken call := by
  simp [acceptedBytes]

def NeverSent (d : Display) : Prop := ∀ data r, SocketCall.send data r ∉ d.calls

/-- The display stands at a cursor on the message. -/
structure StandsAt (p : Message) (d : Display) (c : Cursor p.text) : Prop where
  pdata : d.pdata = c.pos
  remaining : d.remaining = c.rest.length
  accepted : acceptedBytes d.calls = c.done

/-! ### One display -/

/-- What the result of a `send` does to the cursor of the display. -/
def moved {p : Message} (r : SendResult) (c : Cursor p.text) : Cursor p.text :=
  match r with
  | .error => c
  | .taken len => c.advance len

theorem moved_of_rest_nil {p : Message} (r : SendResult) {c : Cursor p.text}
    (nothing : c.rest = []) : moved r c = c := by
  cases r with
  | error => rfl
  | taken len =>
    rw [moved, Cursor.advance]
    simp [nothing]

/-- `send` is offered what is left and moves the cursor by what is taken. -/
theorem StandsAt.send {p : Message} {d : Display} {c : Cursor p.text} (stands : StandsAt p d c)
    (up : d.s ≠ none) (r : SendResult) : StandsAt p (d.send p r) (moved r c) := by
  have offered : (p.text.drop d.pdata).take d.remaining.toNat = c.rest := by
    rw [stands.pdata, stands.remaining, Int.toNat_natCast]
    exact List.take_length
  unfold Display.send
  rw [offered]
  by_cases pending : d.Pending
  · rw [if_pos pending]
    cases r with
    | error =>
      refine ⟨stands.pdata, stands.remaining, ?_⟩
      rw [acceptedBytes_concat, stands.accepted]
      exact List.append_nil c.done
    | taken len =>
      have pdata : d.pdata + min len c.rest.length = (c.advance len).pos := by
        rw [stands.pdata, Cursor.pos_advance]
      have remaining : d.remaining - (min len c.rest.length : Nat) =
          (c.advance len).rest.length := by
        rw [stands.remaining, Cursor.length_rest_advance]
        omega
      have accepted : acceptedBytes (d.calls ++ [.send c.rest (.taken len)]) =
          (c.advance len).done := by
        rw [acceptedBytes_concat, stands.accepted, Cursor.done_advance, taken]
      dsimp only [moved]
      split
      next => exact ⟨pdata, remaining, by rw [acceptedBytes_concat, accepted]; simp [taken]⟩
      next => exact ⟨pdata, remaining, accepted⟩
  · have nothing : c.rest = [] := by
      apply List.eq_nil_of_length_eq_zero
      have left := stands.remaining
      by_contra nonempty
      exact pending ⟨up, by omega⟩
    rw [if_neg pending, moved_of_rest_nil r nothing]
    exact stands

/-- A display that was set up stands at a cursor; one whose setup failed has no socket and
was sent nothing. -/
def Tracks (p : Message) (t : Display × SetupScript) (d : Display) : Prop :=
  if t.2.succeeds then d.s ≠ none ∧ ∃ c, StandsAt p d c else d.s = none ∧ NeverSent d

theorem toInt_message (p : Message) : toInt p.text.length = p.text.length := by
  have short : p.text.length ≤ 2147483647 := p.short
  unfold toInt
  generalize p.text.length = n at short ⊢
  apply Int.bmod_eq_of_le_mul_two
  · norm_cast
    omega
  · omega

theorem setup_tracks (p : Message) (t : Display × SetupScript) :
    Tracks p t (t.1.setup p t.2) := by
  obtain ⟨d, o⟩ := t
  unfold Tracks SetupScript.succeeds Display.setup
  cases o.socket with
  | none => exact ⟨rfl, by simp [NeverSent]⟩
  | some s =>
    by_cases bind : o.bind = false
    · simp [bind, NeverSent]
    by_cases ioctlsocket : o.ioctlsocket = false
    · simp [bind, ioctlsocket, NeverSent]
    by_cases setsockopt : o.setsockopt = false
    · simp [bind, ioctlsocket, setsockopt, NeverSent]
    by_cases connect : connecting o.connect = false
    · simp [bind, ioctlsocket, setsockopt, connect, NeverSent]
    have up : StandsAt p ⟨some s, 0, toInt p.text.length,
        [.socket, .bind, .ioctlsocket, .setsockopt, .connect]⟩ (Cursor.start p.text) := by
      refine ⟨rfl, ?_, rfl⟩
      rw [toInt_message, Cursor.rest_start]
    simp only [Bool.not_eq_false] at bind ioctlsocket setsockopt connect
    simp only [bind, ioctlsocket, setsockopt, connect]
    exact ⟨by simp, _, up⟩

theorem send_s (p : Message) (r : SendResult) (d : Display) : (d.send p r).s = d.s := by
  unfold Display.send
  split
  · cases r with
    | error => rfl
    | taken len =>
      dsimp only
      split <;> rfl
  · rfl

theorem send_of_down (p : Message) (r : SendResult) {d : Display} (down : d.s = none) :
    d.send p r = d := if_neg fun pending => pending.1 down

theorem send_tracks (p : Message) (r : SendResult) {t : Display × SetupScript} {d : Display}
    (tracks : Tracks p t d) : Tracks p t (d.send p r) := by
  unfold Tracks at tracks ⊢
  split
  next ok =>
    rw [if_pos ok] at tracks
    obtain ⟨up, c, stands⟩ := tracks
    exact ⟨by rwa [send_s], moved r c, stands.send up r⟩
  next failed =>
    rw [if_neg failed] at tracks
    rwa [send_of_down p r tracks.1]

/-! ### The loop -/

theorem forall₂_replace {α β : Type*} {R : α → β → Prop} {targets : List α} {before after : List β}
    {b b' : β} (related : List.Forall₂ R targets (before ++ b :: after))
    (replaces : ∀ a, R a b → R a b') : List.Forall₂ R targets (before ++ b' :: after) := by
  induction before generalizing targets with
  | nil =>
    cases related with
    | cons here rest => exact .cons (replaces _ here) rest
  | cons head before ih =>
    cases related with
    | cons here rest => exact .cons here (ih rest)

theorem sendStep_related (p : Message) (startTime : Int) {targets : Targets} {state : SendState}
    {R : Display × SetupScript → Display → Prop} (e : SendEvent)
    (kept : ∀ t d r, R t d → R t (d.send p r))
    (related : List.Forall₂ R targets state.displays) :
    List.Forall₂ R targets (sendStep p startTime state e).displays := by
  cases state with
  | top displays =>
    unfold sendStep
    dsimp only
    split
    · exact related
    · split
      · exact related
      · split <;> exact related
  | sending before after =>
    cases after with
    | nil => simpa [sendStep, SendState.displays] using related
    | cons d after =>
      have next := forall₂_replace related fun t => kept t d e.send
      simpa [sendStep, SendState.displays] using next
  | left why displays => exact related

/-- What the setup of a display establishes and a `send` keeps holds at every point of the
loop. -/
theorem sendLoop_related (p : Message) (startTime : Int) (targets : Targets)
    (events : List SendEvent) {R : Display × SetupScript → Display → Prop}
    (initially : ∀ t : Display × SetupScript, R t (t.1.setup p t.2))
    (kept : ∀ t d r, R t d → R t (d.send p r)) :
    List.Forall₂ R targets (sendLoop p startTime targets events).displays := by
  have initial : List.Forall₂ R targets (SendState.top (setupAll p targets)).displays := by
    rw [SendState.displays, setupAll, List.forall₂_map_right_iff]
    exact List.forall₂_same.mpr fun t _ => initially t
  exact List.foldlRecOn (motive := fun state => List.Forall₂ R targets state.displays)
    events (sendStep p startTime) initial
    fun state related e _ => sendStep_related p startTime e kept related

theorem sendLoop_tracks (p : Message) (startTime : Int) (targets : Targets)
    (events : List SendEvent) :
    List.Forall₂ (Tracks p) targets (sendLoop p startTime targets events).displays :=
  sendLoop_related p startTime targets events (setup_tracks p)
    fun _ _ r tracks => send_tracks p r tracks

theorem not_pending_of_totRemaining {displays : List Display} (zero : totRemaining displays = 0) :
    ∀ d ∈ displays, ¬ d.Pending := by
  by_contra nonempty
  obtain ⟨d, member, pending⟩ : ∃ d ∈ displays, d.Pending := by simpa using nonempty
  have positive : 0 < totRemaining displays := by
    apply List.sum_pos
    · intro left inside
      obtain ⟨d, kept, rfl⟩ := List.mem_map.mp inside
      exact (of_decide_eq_true (List.mem_filter.mp kept).2).2
    · intro empty
      have kept : d ∈ displays.filter fun d => d.Pending := by simp [member, pending]
      rw [List.map_eq_nil_iff.mp empty] at kept
      cases kept
  omega

/-- Where the loop was left because nothing remained, nothing remains. -/
def Settled (state : SendState) : Prop :=
  ∀ displays, state = .left .nothingRemains displays → totRemaining displays = 0

theorem sendStep_settled (p : Message) (startTime : Int) {state : SendState} (e : SendEvent)
    (settled : Settled state) : Settled (sendStep p startTime state e) := by
  intro displays left
  cases state with
  | top now =>
    unfold sendStep at left
    dsimp only at left
    split at left
    · cases left
    · split at left
      next zero =>
        obtain ⟨-, rfl⟩ := SendState.left.inj left
        exact zero
      next => split at left <;> cases left
  | sending before after => cases after <;> cases left
  | left why now => exact settled displays left

theorem sendLoop_settled (p : Message) (startTime : Int) (targets : Targets)
    (events : List SendEvent) : Settled (sendLoop p startTime targets events) := by
  have initial : Settled (.top (setupAll p targets)) := by
    intro displays left
    cases left
  exact List.foldlRecOn (motive := Settled) events (sendStep p startTime) initial
    fun state settled e _ => sendStep_settled p startTime e settled

/-- What a tracked display has accepted is a leading part of the message. -/
theorem Tracks.accepted {p : Message} {t : Display × SetupScript} {d : Display}
    (tracks : Tracks p t d) : acceptedBytes d.calls <+: p.text := by
  unfold Tracks at tracks
  split at tracks
  next =>
    obtain ⟨-, c, stands⟩ := tracks
    exact ⟨c.rest, by rw [stands.accepted, c.done_append_rest]⟩
  next =>
    have nothing : acceptedBytes d.calls = [] := by
      refine List.flatMap_eq_nil_iff.mpr fun call made => ?_
      cases call with
      | send data r => exact absurd made (tracks.2 data r)
      | _ => rfl
    exact ⟨p.text, by rw [nothing, List.nil_append]⟩

theorem cleanup_s (closed : Nat → Bool) (d : Display) : (d.cleanup closed).s = none := by
  unfold Display.cleanup
  split
  next down => exact down
  next => rfl

theorem cleanup_accepted (closed : Nat → Bool) (d : Display) :
    acceptedBytes (d.cleanup closed).calls = acceptedBytes d.calls := by
  unfold Display.cleanup
  split
  · rfl
  · simp [acceptedBytes, taken, List.flatMap_map]

/-- Where `send_update` comes to its end, it has cleaned every display up. -/
theorem sendUpdate_cleans (p : Message) (startTime : Int) (targets : Targets)
    (events : List SendEvent) (closed : Nat → Nat → Bool) {displays : List Display}
    (returns : sendUpdate p true startTime targets events closed = some displays) :
    displays = (sendLoop p startTime targets events).displays.mapIdx
      fun i d => d.cleanup (closed i) := by
  unfold sendUpdate at returns
  generalize sendLoop p startTime targets events = state at returns ⊢
  cases state with
  | left why now =>
    cases why with
    | overflow => cases returns
    | _ => exact (Option.some.inj returns).symm
  | _ => cases returns

/-- `send_update` leaves every display without a socket, having sent it a leading part of
the message. -/
theorem sendUpdate_accepted (p : Message) (startTime : Int) (targets : Targets)
    (events : List SendEvent) (closed : Nat → Nat → Bool) {displays : List Display}
    (returns : sendUpdate p true startTime targets events closed = some displays) :
    ∀ d ∈ displays, d.s = none ∧ acceptedBytes d.calls <+: p.text := by
  have tracks := sendLoop_tracks p startTime targets events
  have cleaned := sendUpdate_cleans p startTime targets events closed returns
  subst cleaned
  intro d member
  obtain ⟨i, inside, rfl⟩ := List.mem_mapIdx.mp member
  refine ⟨cleanup_s (closed i) _, ?_⟩
  rw [cleanup_accepted]
  exact (tracks.get (tracks.length_eq ▸ inside) inside).accepted

/-- At every point of the loop, a display that was set up has accepted all of the message
but its last `remaining` bytes, and one whose setup failed was sent nothing. Once
nothing remains, every display that was set up has accepted the message. -/
theorem partial_sends_exact (p : Message) (startTime : Int) (targets : Targets)
    (events : List SendEvent) :
    List.Forall₂ (fun t (d : Display) =>
        (t.2.succeeds = true → ∃ left : Nat, d.remaining = left ∧ left ≤ p.text.length ∧
          acceptedBytes d.calls = p.text.take (p.text.length - left)) ∧
        (t.2.succeeds = false → NeverSent d))
      targets (sendLoop p startTime targets events).displays ∧
    ∀ displays, sendLoop p startTime targets events = .left .nothingRemains displays →
      List.Forall₂ (fun t (d : Display) => t.2.succeeds = true → acceptedBytes d.calls = p.text)
        targets displays := by
  have tracks := sendLoop_tracks p startTime targets events
  constructor
  · refine tracks.imp fun t d tracks => ⟨fun ok => ?_, fun failed => ?_⟩
    · rw [Tracks, if_pos ok] at tracks
      obtain ⟨-, c, stands⟩ := tracks
      refine ⟨c.rest.length, stands.remaining, ?_, stands.accepted.trans c.done_eq_take⟩
      rw [c.length_rest]
      exact Nat.sub_le _ _
    · rw [Tracks, if_neg (by simp [failed])] at tracks
      exact tracks.2
  · intro displays left
    have idle := not_pending_of_totRemaining
      (sendLoop_settled p startTime targets events displays left)
    rw [left, SendState.displays] at tracks
    obtain ⟨sameLength, tracks⟩ := List.forall₂_iff_zip.mp tracks
    refine List.forall₂_iff_zip.mpr ⟨sameLength, fun {t d} together ok => ?_⟩
    have tracked := tracks together
    rw [Tracks, if_pos ok] at tracked
    obtain ⟨up, c, stands⟩ := tracked
    have nothing : c.rest = [] := by
      apply List.eq_nil_of_length_eq_zero
      have left := stands.remaining
      by_contra nonempty
      exact idle d (List.of_mem_zip together).2 ⟨up, by omega⟩
    rw [stands.accepted, Cursor.done_of_rest_nil nothing]

end MrBig.Guarantees.PartialSends
