import Mathlib.Data.List.Forall2
import MrBig.Source.Durations

/-!
# Idle times of the sessions

The idle time is kept as milliseconds in 32 bits, which last for 49 days and 17 hours. Up to then
the days, hours and minutes are right and the 99 days that who_PrettySession looks for are never
reached; from then on the idle time is too short.
-/

set_option autoImplicit false

namespace MrBig.Guarantees.IdleTimes
open Library.Word Source Source.Durations Source.Winports

def idleTime (info : WtsInfo) : Int := info.currentTime - info.lastInputTime

/-- The whole minutes of an idle time, in milliseconds. -/
def total (idle : Idle) : Nat := idle.days * day + idle.hours * hour + idle.minutes * minute

/-- The idle time of a session as it is stored and as it is shown; a millisecond is 10000 units of
the clock. -/
structure IdleRight (info : WtsInfo) (idle : Idle) : Prop where
  elapsed : (total idle : Int) * 10000 ≤ idleTime info
  withinMinute : idleTime info < (total idle + minute : Int) * 10000
  hours : idle.hours < 24
  minutes : idle.minutes < 60
  shown : prettyIdle idle = "99+ days".toList ↔ (99 * day * 10000 : Int) ≤ idleTime info

/-! ### The text -/

theorem plus_notMem_twoWide (n : Nat) : '+' ∉ twoWide n := by
  intro member
  rw [twoWide, List.leftpad, List.mem_append] at member
  rcases member with padding | digit
  · cases List.eq_of_mem_replicate padding
  · have isDigit := Nat.isDigit_of_mem_toDigits (by decide) (by decide) digit
    cases isDigit

theorem prettyIdle_eq_iff (idle : Idle) : prettyIdle idle = "99+ days".toList ↔ 99 ≤ idle.days := by
  unfold prettyIdle
  split
  next long => exact iff_of_true rfl long
  next short =>
    refine iff_of_false (fun same => ?_) short
    have plus : '+' ∈ "99+ days".toList := by simp
    rw [← same] at plus
    split at plus
    next => simpa [plus_notMem_twoWide] using List.mem_of_mem_take plus
    next => simp at plus

/-! ### The divisions -/

theorem ofMs_hours (ms : Nat) : (Idle.ofMs ms).hours < 24 := by
  simp only [Idle.ofMs, day, hour, minute]
  omega

theorem ofMs_minutes (ms : Nat) : (Idle.ofMs ms).minutes < 60 := by
  simp only [Idle.ofMs, hour, minute]
  omega

theorem total_ofMs_le (ms : Nat) : total (Idle.ofMs ms) ≤ ms := by
  simp only [total, Idle.ofMs, day, hour, minute]
  omega

theorem lt_total_ofMs (ms : Nat) : ms < total (Idle.ofMs ms) + minute := by
  simp only [total, Idle.ofMs, day, hour, minute]
  omega

theorem idleMs_lt (info : WtsInfo) : info.idleMs < 2 ^ 32 := by
  unfold WtsInfo.idleMs wrap
  omega

/-- Where the difference does not overflow, only the conversion to a DWORD wraps. -/
theorem idleMs_eq {info : WtsInfo} (order : info.lastInputTime ≤ info.currentTime)
    (fits : idleTime info < 2 ^ 63) :
    (info.idleMs : Int) = idleTime info / 10000 % 2 ^ 32 := by
  have nonneg : 0 ≤ idleTime info := Int.sub_nonneg.mpr order
  unfold WtsInfo.idleMs
  change (wrap 32 ((signed (63 + 1) (idleTime info)).tdiv 10000) : Int) = _
  rw [signed_of_abs_le (by omega) (by omega), Int.tdiv_eq_ediv_of_nonneg nonneg]
  unfold wrap
  omega

/-- One session: its idle time is right if and only if the milliseconds fit into 32 bits. -/
theorem idleRight_iff {info : WtsInfo} (order : info.lastInputTime ≤ info.currentTime) :
    IdleRight info (Idle.ofMs info.idleMs) ↔ idleTime info < 2 ^ 32 * 10000 := by
  have below := total_ofMs_le info.idleMs
  constructor
  · intro right
    have word := idleMs_lt info
    have upper := right.withinMinute
    simp only [minute] at upper
    by_contra long
    -- The milliseconds lack 2^32, or the idle time exceeds them by more than a minute anyway.
    by_cases fits : idleTime info < 2 ^ 63
    · have wrapped := idleMs_eq order fits
      omega
    · omega
  · intro short
    have nonneg : 0 ≤ idleTime info := Int.sub_nonneg.mpr order
    have exactly := idleMs_eq order (by omega)
    have above := lt_total_ofMs info.idleMs
    refine ⟨by omega, by omega, ofMs_hours _, ofMs_minutes _, ?_⟩
    rw [prettyIdle_eq_iff]
    simp only [Idle.ofMs, day, hour, minute]
    omega

/-! ### The loop over the sessions -/

/-- The sessions that a list of queries shows, without the services' session. -/
def userSessions (queries : List (Option WtsInfo)) : List WtsInfo :=
  (queries.filterMap id).filter (·.sessionId ≠ 0)

theorem sessionsLoop_forall₂ (fileTimeToSystemTime : Nat → SystemTime → SystemTime)
    (output : Nat → Session) (maxNumSessions : Nat) (queries : List (Option WtsInfo)) :
    ∀ (processed : Nat) (sessions : List Session),
      sessionsLoop fileTimeToSystemTime output maxNumSessions processed queries = some sessions →
      List.Forall₂ (fun info (session : Session) => session.idle = Idle.ofMs info.idleMs)
        ((userSessions queries).take (maxNumSessions - processed)) sessions := by
  induction queries with
  | nil =>
    intro processed sessions returns
    cases returns
    simp [userSessions]
  | cons query rest ih =>
    intro processed sessions returns
    rw [sessionsLoop] at returns
    split at returns
    next room =>
      cases query with
      | none => cases returns
      | some info =>
        dsimp only [Option.bind_eq_bind, Option.bind_some] at returns
        split at returns
        next service =>
          have skipped : userSessions (some info :: rest) = userSessions rest := by
            simp [userSessions, service]
          rw [skipped]
          exact ih processed sessions returns
        next user =>
          obtain ⟨others, loop, stored⟩ := Option.bind_eq_some_iff.mp returns
          cases stored
          have first : userSessions (some info :: rest) = info :: userSessions rest := by
            simp [userSessions, user]
          have left : maxNumSessions - processed = (maxNumSessions - (processed + 1)) + 1 := by
            omega
          rw [first, left, List.take_succ_cons]
          exact .cons rfl (ih (processed + 1) others loop)
    next full =>
      cases returns
      rw [Nat.sub_eq_zero_of_le (Nat.le_of_not_lt full), List.take_zero]
      exact .nil

/-- The sessions that who_GetSessions stores are the first ones of users in their order, and an
idle time is right if and only if it is shorter than 2^32 milliseconds. -/
theorem idle_times_right_iff (fileTimeToSystemTime : Nat → SystemTime → SystemTime)
    (output : Nat → Session) (maxNumSessions : Nat) (retrieved : List (Option WtsInfo))
    (sessions : List Session)
    (returns : getSessions fileTimeToSystemTime output maxNumSessions (some retrieved) =
      some sessions) :
    List.Forall₂ (fun info (session : Session) => info.lastInputTime ≤ info.currentTime →
        (IdleRight info session.idle ↔ idleTime info < 2 ^ 32 * 10000))
      ((userSessions retrieved).take maxNumSessions) sessions := by
  have stored := sessionsLoop_forall₂ fileTimeToSystemTime output maxNumSessions retrieved 0
    sessions returns
  refine List.Forall₂.imp ?_ stored
  intro info session stored order
  rw [stored]
  exact idleRight_iff order

def blankSession : Session := ⟨[], [], 0, 0, ⟨0, 0, 0⟩, ⟨0, 0, 0, 0, 0, 0⟩⟩

/-- A session that was left alone for so many days. -/
def leftAlone (days : Nat) : WtsInfo :=
  ⟨2, "Console".toList, "operator".toList, 132000000000000000 + days * day * 10000,
    132000000000000000⟩

theorem idle_times_right_iff_twoDays :
    ∃ session, getSessions (fun _ t => t) (fun _ => blankSession) 10 (some [some (leftAlone 2)]) =
      some [session] ∧ IdleRight (leftAlone 2) session.idle := by
  refine ⟨_, rfl, ?_⟩
  have all := idle_times_right_iff (fun _ t => t) (fun _ => blankSession) 10
    [some (leftAlone 2)] _ rfl
  cases all with
  | cons first _ => exact (first (by decide)).mpr (by decide)

/-- After a hundred days the session is shown as idle for less than fourteen hours. -/
theorem hundred_days_wrap :
    ∃ session, getSessions (fun _ t => t) (fun _ => blankSession) 10 (some [some (leftAlone 100)]) =
      some [session] ∧
    (leftAlone 100).lastInputTime ≤ (leftAlone 100).currentTime ∧
    session.idle = ⟨0, 13, 54⟩ ∧ ¬ IdleRight (leftAlone 100) session.idle := by
  refine ⟨_, rfl, by decide, by decide, fun right => ?_⟩
  exact absurd right.withinMinute (by decide)

end MrBig.Guarantees.IdleTimes
