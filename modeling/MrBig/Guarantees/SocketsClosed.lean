import MrBig.Guarantees.PartialSends

/-!
# When a socket is closed once and left alone

A display whose setup fails closes its socket once. One that was set up closes it in a
loop that waits for `WSAEWOULDBLOCK`: `closesocket` returns zero or SOCKET_ERROR, so
the loop makes ten calls whatever happens, and the forced close behind it two more.
-/

set_option autoImplicit false

namespace MrBig.Guarantees.SocketsClosed
open Source PartialSends

/-- The calls that need a socket that is still open. -/
def UsesSocket : SocketCall → Prop
  | .shutdown | .setsockopt | .send _ _ | .closesocket _ => True
  | _ => False

/-- No call uses a socket once `closesocket` has succeeded on it. -/
def UntouchedOnceClosed (calls : List SocketCall) : Prop :=
  calls.Pairwise fun earlier later => earlier = .closesocket true → ¬ UsesSocket later

instance : DecidablePred UsesSocket
  | .shutdown | .setsockopt | .send _ _ | .closesocket _ => isTrue trivial
  | .socket | .bind | .ioctlsocket | .connect => isFalse not_false

instance (calls : List SocketCall) : Decidable (UntouchedOnceClosed calls) :=
  inferInstanceAs (Decidable (List.Pairwise _ calls))

/-- What the calls of one display make of the socket it obtained, if it obtained one. -/
structure Disciplined (o : SetupScript) (calls : List SocketCall) : Prop where
  untouched : UntouchedOnceClosed calls
  closed : .socket ∈ calls → o.socket ≠ none → .closesocket true ∈ calls

/-- The socket takes exactly the last call that closes it. -/
def ClosesLast (o : SetupScript) (closed : Nat → Bool) : Prop :=
  if o.succeeds then (∀ i < 10, closed i = false) ∧ closed 10 = true
  else o.socket = none ∨ o.closesocket = true

instance (o : SetupScript) (closed : Nat → Bool) : Decidable (ClosesLast o closed) :=
  inferInstanceAs (Decidable (ite _ _ _))

/-! ### Lists of calls -/

theorem untouched_concat {calls : List SocketCall} (call : SocketCall)
    (unclosed : .closesocket true ∉ calls) : UntouchedOnceClosed (calls ++ [call]) := by
  refine List.pairwise_append.mpr ⟨?_, List.pairwise_singleton _ _, ?_⟩
  · refine List.Pairwise.imp_of_mem ?_ (List.pairwise_of_forall fun _ _ => trivial)
    intro earlier later made _ _ closed
    exact absurd (closed ▸ made) unclosed
  · intro earlier made later _ closed
    exact absurd (closed ▸ made) unclosed

theorem open_of_untouched {calls rest : List SocketCall} {call : SocketCall}
    (untouched : UntouchedOnceClosed (calls ++ call :: rest)) (uses : UsesSocket call) :
    .closesocket true ∉ calls := by
  intro closed
  obtain ⟨-, -, across⟩ := List.pairwise_append.mp untouched
  exact across _ closed call List.mem_cons_self rfl uses

theorem closed_concat {calls : List SocketCall} {closed : Bool}
    (unclosed : .closesocket true ∉ calls) :
    .closesocket true ∈ calls ++ [.closesocket closed] ↔ closed = true := by
  cases closed <;> simp [unclosed]

/-! ### One display -/

/-- A setup that fails makes its one `closesocket` last, if there is a socket at all. -/
theorem setup_failed (p : Message) (d : Display) {o : SetupScript} (failed : o.succeeds = false) :
    (d.setup p o).s = none ∧
      ((o.socket = none ∧ (d.setup p o).calls = [.socket]) ∨
        (o.socket ≠ none ∧ ∃ front, (∀ closed, .closesocket closed ∉ front) ∧ .socket ∈ front ∧
          (d.setup p o).calls = front ++ [.closesocket o.closesocket])) := by
  unfold SetupScript.succeeds at failed
  unfold Display.setup
  cases socket : o.socket with
  | none => exact ⟨rfl, .inl ⟨rfl, rfl⟩⟩
  | some s =>
    dsimp only
    by_cases bind : o.bind = false
    · rw [if_pos bind]
      exact ⟨rfl, .inr ⟨by simp, [.socket, .bind], by simp, by simp, rfl⟩⟩
    by_cases ioctlsocket : o.ioctlsocket = false
    · rw [if_neg bind, if_pos ioctlsocket]
      exact ⟨rfl, .inr ⟨by simp, [.socket, .bind, .ioctlsocket], by simp, by simp, rfl⟩⟩
    by_cases setsockopt : o.setsockopt = false
    · rw [if_neg bind, if_neg ioctlsocket, if_pos setsockopt]
      exact ⟨rfl, .inr ⟨by simp, [.socket, .bind, .ioctlsocket, .setsockopt],
        by simp, by simp, rfl⟩⟩
    by_cases connect : connecting o.connect = false
    · rw [if_neg bind, if_neg ioctlsocket, if_neg setsockopt, if_pos connect]
      exact ⟨rfl, .inr ⟨by simp,
        [.socket, .bind, .ioctlsocket, .setsockopt, .connect, .setsockopt],
        by simp, by simp, rfl⟩⟩
    simp [socket, bind, ioctlsocket, setsockopt, connect] at failed

theorem setup_succeeded (p : Message) (d : Display) {o : SetupScript} (ok : o.succeeds = true) :
    (d.setup p o).s ≠ none ∧
      (d.setup p o).calls = [.socket, .bind, .ioctlsocket, .setsockopt, .connect] := by
  unfold SetupScript.succeeds at ok
  unfold Display.setup
  cases socket : o.socket with
  | none => simp [socket] at ok
  | some s =>
    simp only [socket, Option.isSome_some, Bool.true_and, Bool.and_eq_true] at ok
    obtain ⟨⟨⟨bind, ioctlsocket⟩, setsockopt⟩, connect⟩ := ok
    simp [bind, ioctlsocket, setsockopt, connect]

/-- A display that was set up has a socket that nothing has closed yet; one whose setup
failed is not touched any more. -/
def InLoop (p : Message) (t : Display × SetupScript) (d : Display) : Prop :=
  if t.2.succeeds then
    d.s ≠ none ∧ .socket ∈ d.calls ∧ ∀ closed, .closesocket closed ∉ d.calls
  else d = t.1.setup p t.2

theorem setup_inLoop (p : Message) (t : Display × SetupScript) :
    InLoop p t (t.1.setup p t.2) := by
  unfold InLoop
  split
  next ok =>
    obtain ⟨up, calls⟩ := setup_succeeded p t.1 ok
    rw [calls]
    exact ⟨up, by simp, by simp⟩
  next => rfl

theorem mem_calls_send (p : Message) (r : SendResult) (d : Display) {call : SocketCall}
    (made : call ∈ d.calls) : call ∈ (d.send p r).calls := by
  unfold Display.send
  split
  · cases r with
    | error => exact List.mem_append_left _ made
    | taken len =>
      dsimp only
      split <;> simp [made]
  · exact made

theorem closesocket_notMem_send (p : Message) (r : SendResult) {d : Display} {closed : Bool}
    (never : .closesocket closed ∉ d.calls) : .closesocket closed ∉ (d.send p r).calls := by
  unfold Display.send
  split
  · cases r with
    | error => simp [never]
    | taken len =>
      dsimp only
      split <;> simp [never]
  · exact never

theorem send_inLoop (p : Message) (r : SendResult) {t : Display × SetupScript} {d : Display}
    (inLoop : InLoop p t d) : InLoop p t (d.send p r) := by
  unfold InLoop at inLoop ⊢
  split
  next ok =>
    rw [if_pos ok] at inLoop
    obtain ⟨up, obtained, never⟩ := inLoop
    refine ⟨by rwa [send_s], mem_calls_send p r d obtained, ?_⟩
    exact fun closed => closesocket_notMem_send p r (never closed)
  next failed =>
    rw [if_neg failed] at inLoop
    have down : d.s = none := by
      rw [inLoop]
      exact (setup_failed p t.1 (Bool.not_eq_true _ ▸ failed)).1
    rwa [send_of_down p r down]

/-! ### The cleanup -/

/-- The calls of the cleanup up to the forced close. -/
def gracefully (closed : Nat → Bool) (calls : List SocketCall) : List SocketCall :=
  calls ++ [.shutdown] ++ (List.range 10).map fun i => .closesocket (closed i)

theorem closed_gracefully {closed : Nat → Bool} {calls : List SocketCall}
    (never : ∀ closed, .closesocket closed ∉ calls) :
    .closesocket true ∈ gracefully closed calls ↔ ∃ i < 10, closed i = true := by
  unfold gracefully
  simp [never true]

theorem disciplined_of_failed (p : Message) {t : Display × SetupScript} (closed : Nat → Bool)
    (failed : t.2.succeeds = false) :
    Disciplined t.2 ((t.1.setup p t.2).cleanup closed).calls ↔ ClosesLast t.2 closed := by
  obtain ⟨down, calls⟩ := setup_failed p t.1 failed
  rw [Display.cleanup, if_pos down, ClosesLast, if_neg (by simp [failed])]
  rcases calls with ⟨without, calls⟩ | ⟨obtained, front, never, made, calls⟩
  · rw [calls]
    exact iff_of_true ⟨List.pairwise_singleton _ _, fun _ obtained => absurd without obtained⟩
      (.inl without)
  · rw [calls]
    constructor
    · intro disciplined
      have closes := disciplined.closed (List.mem_append_left _ made) obtained
      exact .inr ((closed_concat (never true)).mp closes)
    · intro closes
      refine ⟨untouched_concat _ (never true), fun _ _ => ?_⟩
      exact (closed_concat (never true)).mpr (closes.resolve_left obtained)

theorem disciplined_of_succeeded {t : Display × SetupScript} {d : Display} (closed : Nat → Bool)
    (ok : t.2.succeeds = true) (up : d.s ≠ none) (obtained : .socket ∈ d.calls)
    (never : ∀ closed, .closesocket closed ∉ d.calls) :
    Disciplined t.2 (d.cleanup closed).calls ↔ ClosesLast t.2 closed := by
  have calls : (d.cleanup closed).calls =
      gracefully closed d.calls ++ [.setsockopt] ++ [.closesocket (closed 10)] := by
    rw [Display.cleanup, if_neg up, gracefully]
    simp
  have socket : t.2.socket ≠ none := by
    intro without
    simp [SetupScript.succeeds, without] at ok
  have open_iff : .closesocket true ∉ gracefully closed d.calls ++ [.setsockopt] ↔
      ∀ i < 10, closed i = false := by
    simp [closed_gracefully never]
  rw [ClosesLast, if_pos ok, calls]
  constructor
  · rintro ⟨untouched, closes⟩
    have unclosed : .closesocket true ∉ gracefully closed d.calls ++ [.setsockopt] := by
      rw [List.append_assoc] at untouched
      simpa using open_of_untouched untouched trivial
    refine ⟨open_iff.mp unclosed, (closed_concat unclosed).mp (closes ?_ socket)⟩
    simp [gracefully, obtained]
  · rintro ⟨fails, closes⟩
    have unclosed := open_iff.mpr fails
    exact ⟨untouched_concat _ unclosed, fun _ _ => (closed_concat unclosed).mpr closes⟩

theorem InLoop.disciplined {p : Message} {t : Display × SetupScript} {d : Display}
    (inLoop : InLoop p t d) (closed : Nat → Bool) :
    Disciplined t.2 (d.cleanup closed).calls ↔ ClosesLast t.2 closed := by
  unfold InLoop at inLoop
  split at inLoop
  next ok =>
    obtain ⟨up, obtained, never⟩ := inLoop
    exact disciplined_of_succeeded closed ok up obtained never
  next failed =>
    rw [inLoop]
    exact disciplined_of_failed p closed (Bool.not_eq_true _ ▸ failed)

/-- The displays of a `send_update` leave their sockets closed and alone if and only if each
socket it opens takes the last call that closes it and no earlier one. -/
theorem sockets_closed_once (p : Message) (startWinsock : Bool) (startTime : Int)
    (targets : Targets) (events : List SendEvent) (closed : Nat → Nat → Bool)
    (displays : List Display)
    (returns : sendUpdate p startWinsock startTime targets events closed = some displays) :
    List.Forall₂ (fun t (d : Display) => Disciplined t.2 d.calls) targets displays ↔
      (startWinsock = true → ∀ (i : Nat) (inside : i < targets.length),
        ClosesLast targets[i].2 (closed i)) := by
  cases startWinsock with
  | false =>
    have quiet : displays = targets.map fun t => { t.1 with calls := [] } := by
      simpa [sendUpdate, eq_comm] using returns
    subst quiet
    refine iff_of_true ?_ (fun started => nomatch started)
    rw [List.forall₂_map_right_iff]
    exact List.forall₂_same.mpr fun t _ => ⟨List.Pairwise.nil, fun made => nomatch made⟩
  | true =>
    have related := sendLoop_related p startTime targets events (setup_inLoop p)
      fun _ _ r inLoop => send_inLoop p r inLoop
    rw [sendUpdate_cleans p startTime targets events closed returns]
    generalize (sendLoop p startTime targets events).displays = sent at related
    obtain ⟨sameLength, related⟩ := List.forall₂_iff_get.mp related
    have each (i : Nat) (inside : i < targets.length) := (related i inside
      (sameLength ▸ inside)).disciplined (closed i)
    rw [List.forall₂_iff_get]
    constructor
    · rintro ⟨-, disciplined⟩ _ i inside
      have here := disciplined i inside (by simpa [← sameLength] using inside)
      exact (each i inside).mp (by simpa using here)
    · intro closes
      refine ⟨by simpa using sameLength, fun i inside _ => ?_⟩
      have here := (each i inside).mpr (closes rfl i inside)
      simpa using here

/-- A message of one byte. -/
def oneByte : Message := ⟨['x'], by decide⟩

/-- A display all of whose setup goes well. -/
def reachable : Display × SetupScript :=
  (⟨none, 0, 0, []⟩, ⟨some 5, true, true, true, none, true⟩)

/-- Four steps in which the display takes the byte, and the loop sees that nothing is left. -/
def oneSend : List SendEvent := List.replicate 4 ⟨0, 0, .taken 1⟩

theorem sockets_closed_once_oneByte :
    ∃ displays, sendUpdate oneByte true 0 [reachable] oneSend (fun _ i => i = 10) = some displays ∧
      List.Forall₂ (fun t (d : Display) => Disciplined t.2 d.calls) [reachable] displays := by
  refine ⟨_, rfl, (sockets_closed_once oneByte true 0 _ oneSend (fun _ i => i = 10) _ rfl).mpr ?_⟩
  intro _ i inside
  have closes : ClosesLast reachable.2 fun i => i = 10 := by decide
  obtain rfl : i = 0 := Nat.lt_one_iff.mp inside
  exact closes

/-- The `closesocket` that succeeds is followed by eleven more calls on the socket. -/
theorem socket_closed_again :
    ∃ d, sendUpdate oneByte true 0 [reachable] oneSend (fun _ _ => true) = some [d] ∧
      ¬ Disciplined reachable.2 d.calls := by
  refine ⟨_, rfl, fun disciplined => ?_⟩
  exact absurd disciplined.untouched (by decide)

end MrBig.Guarantees.SocketsClosed
