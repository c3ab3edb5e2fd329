import MrBig.Guarantees.AppendWhole
import MrBig.Guarantees.ArenaDisjoint
import MrBig.Guarantees.HandlesClosed

/-!
# Where the error handler of clientlog writes

The handler writes its line in front of CurrentStart and has it end one byte below. That is
inside the arena if there are so many bytes of output, and the report in front of it is the
output unless a text that filled its frame to the last byte has left a NUL there.
-/

set_option autoImplicit false

namespace MrBig.Guarantees.ErrorReport
open Library Library.Memory Library.Word Source ArenaDisjoint AppendWhole HandleStack HandlesClosed

def errorLine : Text := "\n(Clientlog ran into a problem, error code 1)".toList

/-- The address that the handler hands to `sprintf`. -/
def reportAddr (state : ArenaState) : Nat :=
  wrap 64 (state.currentStart - 1 - errormessage.length)

/-- In the state that mrsend is called in: the handler has written inside the arena, and the C
string at Start is a prefix of the completed output and, behind it, the line. -/
structure ReportPlaced (completed : Text) (sent : ArenaState) : Prop where
  inside : sent.startAddr ≤ reportAddr sent ∧
    reportAddr sent + (errorLine.length + 1) ≤ sent.endAddr
  text : ∃ kept, kept <+: completed ∧ reportAddr sent = sent.startAddr + kept.length ∧
    IsCString sent.memory sent.startAddr (kept ++ errorLine)

/-- Texts are C strings, counts are DWORDs and alignments powers of two. -/
def Described : ClogCall → Prop
  | .arena (.append printed) => nul ∉ printed
  | .arena call => WellFormed 63 call
  | _ => True

instance : DecidablePred Described
  | .arena (.append printed) => inferInstanceAs (Decidable (nul ∉ printed))
  | .arena (.allocate size align count) =>
    inferInstanceAs (Decidable ((∃ k, k ≤ 63 ∧ align = 2 ^ k) ∧ count * size < 2 ^ 63))
  | .arena .enter | .arena .leave => isTrue trivial
  | .opens _ | .closes _ _ | .defer _ _ | .ignorePopDefer | .popDefer | .popDeferAll =>
    isTrue trivial

/-- The text fills the active frame to its last byte. -/
def ExactFit (run : ArenaRun) (printed : Text) : Prop :=
  printed ≠ [] ∧
    ∃ f ∈ run.frames.head?, printed.length = f.endAddr - run.state.currentStart

/-- A byte of the output that an exact fit has replaced by a NUL. -/
def Hole (start : ClogState) (calls : List ClogCall) (i : Nat) : Prop :=
  ∃ earlier printed later, calls = earlier ++ append printed :: later ∧
    ExactFit (clogRun start earlier).arena printed ∧
    i + 1 = (appended earlier).length + printed.length

/-! ### Runs that are not over -/

/-- A call can still throw. -/
def Live (s : ClogState) : Prop := s.Running ∧ s.arena.frames ≠ []

theorem live_of_step {s : ClogState} {call : ClogCall} (live : Live (clogStep s call)) :
    Live s := by
  have running : s.Running := by
    by_contra halted
    rw [clogStep_of_not_running halted] at live
    exact halted live.1
  refine ⟨running, fun isEmpty => live.2 ?_⟩
  unfold clogStep
  rw [if_pos running]
  cases call with
  | arena call =>
    dsimp only
    unfold arenaStep
    rw [running.1, isEmpty]
    exact isEmpty
  | defer handle fn =>
    dsimp only
    split <;> exact isEmpty
  | popDefer =>
    dsimp only
    split <;> exact isEmpty
  | opens | closes | ignorePopDefer | popDeferAll => exact isEmpty

/-- The arena of a run that goes on. -/
theorem clogStep_arena {s : ClogState} {call : ClogCall} (live : Live (clogStep s call)) :
    (clogStep s call).arena =
      match call with
      | .arena call => (arenaStep 64 s.arena call).1
      | _ => s.arena := by
  have running := (live_of_step live).1
  have going := live.1
  unfold clogStep at going ⊢
  rw [if_pos running] at going ⊢
  cases call with
  | defer handle fn =>
    dsimp only at going ⊢
    split
    next full =>
      rw [if_pos full] at going
      cases going.1
    next => rfl
  | popDefer =>
    dsimp only
    split <;> rfl
  | arena | opens | closes | ignorePopDefer | popDeferAll => rfl

/-! ### The output in memory -/

/-- What the memory holds of the output of some calls. -/
structure Written (start : ClogState) (mem capacity : Nat) (calls : List ClogCall)
    (s : ClogState) : Prop where
  ordered : Ordered mem capacity s.arena
  endAddr : s.arena.state.endAddr = mem + capacity
  currentStart : s.arena.state.currentStart = mem + (appended calls).length
  kept : ∀ i c, (appended calls)[i]? = some c → ¬ Hole start calls i →
    s.arena.state.memory (mem + i) = c
  lost : ∀ i, Hole start calls i → s.arena.state.memory (mem + i) = nul

theorem hole_concat {start : ClogState} {calls : List ClogCall} {call : ClogCall} {i : Nat} :
    Hole start (calls ++ [call]) i ↔
      Hole start calls i ∨
        ∃ printed, call = append printed ∧ ExactFit (clogRun start calls).arena printed ∧
          i + 1 = (appended calls).length + printed.length := by
  constructor
  · rintro ⟨earlier, printed, later, split, fits, place⟩
    rcases List.eq_nil_or_concat later with rfl | ⟨rest, last, rfl⟩
    · obtain ⟨rfl, same⟩ := List.append_inj' split rfl
      exact Or.inr ⟨printed, by simpa using same, fits, place⟩
    · have shape : calls ++ [call] = (earlier ++ append printed :: rest) ++ [last] := by
        simpa using split
      exact Or.inl ⟨earlier, printed, rest, (List.append_inj' shape rfl).1, fits, place⟩
  · rintro (⟨earlier, printed, later, rfl, fits, place⟩ | ⟨printed, rfl, fits, place⟩)
    · exact ⟨earlier, printed, later ++ [call], by simp, fits, place⟩
    · exact ⟨calls, printed, [], rfl, fits, place⟩

theorem Hole.inside {start : ClogState} {calls : List ClogCall} {i : Nat}
    (hole : Hole start calls i) : i < (appended calls).length := by
  obtain ⟨earlier, printed, later, rfl, -, place⟩ := hole
  simp only [appended_append, appended_cons_append, List.length_append]
  omega

section

variable {start : ClogState} {mem capacity : Nat} {calls : List ClogCall} {s : ClogState}

/-- A call that appends nothing and leaves the output alone. -/
theorem Written.silent (written : Written start mem capacity calls s) {call : ClogCall}
    (silent : ∀ printed, call ≠ append printed) {s' : ClogState}
    (ordered : Ordered mem capacity s'.arena)
    (endAddr : s'.arena.state.endAddr = s.arena.state.endAddr)
    (currentStart : s'.arena.state.currentStart = s.arena.state.currentStart)
    (memory : ∀ x < s.arena.state.currentStart,
      s'.arena.state.memory x = s.arena.state.memory x) :
    Written start mem capacity (calls ++ [call]) s' := by
  have same : appended (calls ++ [call]) = appended calls := by
    have nothing : appended [call] = [] := by
      cases call with
      | arena call =>
        cases call with
        | append printed => exact absurd rfl (silent printed)
        | enter | leave | allocate => rfl
      | opens | closes | defer | ignorePopDefer | popDefer | popDeferAll => rfl
    rw [appended_append, nothing, List.append_nil]
  have holes : ∀ i, Hole start (calls ++ [call]) i ↔ Hole start calls i := by
    intro i
    rw [hole_concat]
    constructor
    · rintro (hole | ⟨printed, here, -⟩)
      · exact hole
      · exact absurd here (silent printed)
    · exact Or.inl
  have below : ∀ i, i < (appended calls).length → mem + i < s.arena.state.currentStart := by
    intro i inside
    rw [written.currentStart]
    omega
  refine ⟨ordered, endAddr.trans written.endAddr, ?_, ?_, ?_⟩
  · rw [currentStart, same]
    exact written.currentStart
  · intro i c located noHole
    rw [same] at located
    rw [memory _ (below i (List.getElem?_eq_some_iff.mp located).1)]
    exact written.kept i c located fun hole => noHole ((holes i).mpr hole)
  · intro i hole
    have hole := (holes i).mp hole
    rw [memory _ (below i hole.inside)]
    exact written.lost i hole

/-- What vsnprintf leaves of a text that is no longer than the room. -/
theorem vsnprintf_at {memory : Nat → Char} {address room : Nat} {printed : Text}
    (fits : printed.length ≤ room) {j : Nat} {c : Char} (located : printed[j]? = some c) :
    vsnprintf memory address room printed (address + j) = if j + 1 = room then nul else c := by
  have inside := (List.getElem?_eq_some_iff.mp located).1
  have positive : room ≠ 0 := by omega
  have size : (printed.take (room - 1)).length = min (room - 1) printed.length :=
    List.length_take
  have stored : (printed.take (room - 1) ++ [nul])[j]? =
      some (if j + 1 = room then nul else c) := by
    by_cases last : j + 1 = room
    · have first : j - (printed.take (room - 1)).length = 0 := by omega
      rw [if_pos last, List.getElem?_append_right (by omega), first]
      rfl
    · rw [if_neg last, List.getElem?_append_left (by omega),
        List.getElem?_take_of_lt (by omega)]
      exact located
  obtain ⟨within, value⟩ := List.getElem?_eq_some_iff.mp stored
  unfold vsnprintf
  rw [if_neg positive, store_inside memory within, value]

/-- What a call of the arena leaves alone; only an append that succeeds moves CurrentStart. -/
theorem arenaStep_frame {bits : Nat} {run : ArenaRun}
    (addresses : mem + capacity < 2 ^ (bits + 1)) (bounded : capacity < 2 ^ bits)
    (ordered : Ordered mem capacity run) (running : run.thrown = none)
    {call : ArenaCall} (wellFormed : WellFormed bits call) :
    (arenaStep (bits + 1) run call).1.state.startAddr = run.state.startAddr ∧
      (arenaStep (bits + 1) run call).1.state.endAddr = run.state.endAddr ∧
      (∀ x < run.state.currentStart,
        (arenaStep (bits + 1) run call).1.state.memory x = run.state.memory x) ∧
      ((∀ printed, call ≠ .append printed) ∨ (arenaStep (bits + 1) run call).1.thrown ≠ none →
        (arenaStep (bits + 1) run call).1.state.currentStart = run.state.currentStart) := by
  cases frames : run.frames with
  | nil =>
    have stays : (arenaStep (bits + 1) run call).1 = run := by
      unfold arenaStep
      rw [running, frames]
    rw [stays]
    exact ⟨rfl, rfl, fun _ _ => rfl, fun _ => rfl⟩
  | cons f callers =>
    obtain ⟨high, small, room⟩ := ceiling_lt addresses bounded ordered frames
    cases call with
    | append printed =>
      rw [arenaStep_append (bits + 1) running frames, arenaAppend_eq high room]
      dsimp only
      split
      next long => exact ⟨rfl, rfl, fun x below => vsnprintf_below below, fun _ => rfl⟩
      next fits =>
        refine ⟨rfl, rfl, fun x below => vsnprintf_below below, ?_⟩
        rintro (other | threw)
        · exact absurd rfl (other printed)
        · exact absurd rfl threw
    | enter | leave =>
      unfold arenaStep
      rw [running, frames]
      exact ⟨rfl, rfl, fun _ _ => rfl, fun _ => rfl⟩
    | allocate size align count =>
      unfold arenaStep
      rw [running, frames]
      dsimp only
      cases granted : arenaAllocate (bits + 1) run.state f.endAddr size align count with
      | none => exact ⟨rfl, rfl, fun _ _ => rfl, fun _ => rfl⟩
      | some answer =>
        obtain ⟨state', block⟩ := answer
        obtain ⟨above, -, -, rfl⟩ := allocate_granted high small room wellFormed granted
        refine ⟨rfl, rfl, fun x below => ?_, fun _ => rfl⟩
        exact store_outside _ (Or.inl (by omega))

/-- The arena behind an append that the run survives. -/
theorem append_arena (addresses : mem + capacity < 2 ^ 64) (bounded : capacity < 2 ^ 63)
    (ordered : Ordered mem capacity s.arena) {printed : Text}
    (live : Live (clogStep s (append printed))) :
    ∃ f callers, s.arena.frames = f :: callers ∧
      printed.length ≤ f.endAddr - s.arena.state.currentStart ∧
      (clogStep s (append printed)).arena.state =
        { s.arena.state with
          currentStart := s.arena.state.currentStart + printed.length
          memory := vsnprintf s.arena.state.memory s.arena.state.currentStart
            (f.endAddr - s.arena.state.currentStart) printed } := by
  have before := live_of_step live
  have arena := clogStep_arena live
  have going := live.1.1
  dsimp only at arena
  cases frames : s.arena.frames with
  | nil => exact absurd frames before.2
  | cons f callers =>
    obtain ⟨high, -, room⟩ := ceiling_lt addresses bounded ordered frames
    rw [arenaStep_append 64 before.1.1 frames, arenaAppend_eq high room] at arena
    dsimp only at arena
    have fits : printed.length ≤ f.endAddr - s.arena.state.currentStart := by
      by_contra long
      rw [arena, if_pos (Nat.lt_of_not_le long)] at going
      cases going
    rw [if_neg (Nat.not_lt_of_le fits)] at arena
    refine ⟨f, callers, rfl, fits, ?_⟩
    rw [arena]

theorem Written.append (written : Written start mem capacity calls (clogRun start calls))
    (addresses : mem + capacity < 2 ^ 64) (bounded : capacity < 2 ^ 63) {printed : Text}
    (live : Live (clogStep (clogRun start calls) (append printed)))
    (ordered : Ordered mem capacity (clogStep (clogRun start calls) (append printed)).arena) :
    Written start mem capacity (calls ++ [append printed])
      (clogStep (clogRun start calls) (append printed)) := by
  obtain ⟨f, callers, frames, fits, arena⟩ :=
    append_arena addresses bounded written.ordered live
  have position := written.currentStart
  have texts : appended (calls ++ [ClogCall.arena (.append printed)]) =
      appended calls ++ printed := by simp
  -- The bytes of the new text lie behind CurrentStart.
  have shift : ∀ i, (appended calls).length ≤ i →
      mem + i = (clogRun start calls).arena.state.currentStart +
        (i - (appended calls).length) := by
    intro i behind
    omega
  refine ⟨ordered, ?_, ?_, ?_, ?_⟩
  · rw [arena]
    exact written.endAddr
  · rw [arena, texts, List.length_append]
    dsimp only
    omega
  · intro i c located noHole
    rw [arena]
    dsimp only
    rw [texts] at located
    by_cases old : i < (appended calls).length
    · rw [vsnprintf_below (by omega)]
      rw [List.getElem?_append_left old] at located
      exact written.kept i c located fun hole => noHole (hole_concat.mpr (Or.inl hole))
    · rw [List.getElem?_append_right (Nat.le_of_not_lt old)] at located
      have inside := (List.getElem?_eq_some_iff.mp located).1
      rw [shift i (Nat.le_of_not_lt old), vsnprintf_at fits located]
      refine if_neg fun last => noHole (hole_concat.mpr (Or.inr ⟨printed, rfl, ⟨?_, ?_⟩, ?_⟩))
      · exact List.ne_nil_of_length_pos (by omega)
      · rw [frames]
        exact ⟨f, rfl, by omega⟩
      · omega
  · intro i hole
    rw [arena]
    dsimp only
    rcases hole_concat.mp hole with old | ⟨other, same, fit, place⟩
    · rw [vsnprintf_below (by have := old.inside; omega)]
      exact written.lost i old
    · obtain rfl : other = printed := by simpa using same.symm
      obtain ⟨nonempty, g, head, precise⟩ := fit
      rw [frames] at head
      obtain rfl : f = g := by simpa using head
      have size := List.length_pos_of_ne_nil nonempty
      have last : i - (appended calls).length < other.length := by omega
      rw [shift i (by omega), vsnprintf_at fits (List.getElem?_eq_getElem last),
        if_pos (by omega)]

theorem written_of_live (addresses : mem + capacity < 2 ^ 64) (bounded : capacity < 2 ^ 63)
    (initial : Written start mem capacity [] start) (described : ∀ call ∈ calls, Described call)
    (live : Live (clogRun start calls)) :
    Written start mem capacity calls (clogRun start calls) := by
  induction calls using List.reverseRecOn with
  | nil => exact initial
  | append_singleton calls call ih =>
    have step : clogRun start (calls ++ [call]) = clogStep (clogRun start calls) call :=
      clogRun_append start calls [call]
    rw [step] at live ⊢
    have before := live_of_step live
    have written := ih (fun c member => described c (by simp [member])) before
    have arena := clogStep_arena live
    have here := described call (by simp)
    have still : ∀ (silent : ∀ printed, call ≠ ClogCall.arena (.append printed)),
        (clogStep (clogRun start calls) call).arena = (clogRun start calls).arena →
        Written start mem capacity (calls ++ [call]) (clogStep (clogRun start calls) call) := by
      intro silent same
      refine written.silent silent ?_ ?_ ?_ ?_
      · rw [same]
        exact written.ordered
      · rw [same]
      · rw [same]
      · rw [same]
        exact fun _ _ => rfl
    cases call with
    | arena call =>
      dsimp only at arena
      have wellFormed : WellFormed 63 call := by
        cases call with
        | append printed => trivial
        | enter | leave | allocate => exact here
      have ordered := arenaStep_ordered addresses bounded written.ordered wellFormed
      rw [← arena] at ordered
      by_cases appends : ∃ printed, call = .append printed
      · obtain ⟨printed, rfl⟩ := appends
        exact written.append addresses bounded live ordered
      · have silent : ∀ printed, call ≠ .append printed := fun printed same =>
          appends ⟨printed, same⟩
        obtain ⟨-, ends, below, position⟩ :=
          arenaStep_frame addresses bounded written.ordered before.1.1 wellFormed
        rw [← arena] at ends below position
        refine written.silent (fun printed same => silent printed (ClogCall.arena.inj same)) ordered
          ends (position (Or.inl silent)) below
    | opens | closes | defer | ignorePopDefer | popDefer | popDeferAll =>
      exact still (by simp) arena

end

/-! ### The handler -/

theorem errormessage_length : errormessage.length = 46 := by decide

theorem errorLine_length : errorLine.length = 45 := by decide

theorem errorLine_clean : nul ∉ errorLine := by decide

theorem reportAddr_of_le {state : ArenaState} (small : state.currentStart < 2 ^ 64)
    (enough : 47 ≤ state.currentStart) : reportAddr state = state.currentStart - 47 := by
  unfold reportAddr
  rw [errormessage_length, show (state.currentStart : Int) - 1 - (46 : Nat) =
    ((state.currentStart - 47 : Nat) : Int) by omega, wrap_of_lt (by omega)]

theorem reportAddr_of_lt {state : ArenaState} (few : state.currentStart < 47) :
    reportAddr state = 2 ^ 64 - (47 - state.currentStart) := by
  unfold reportAddr
  rw [errormessage_length, show (state.currentStart : Int) - 1 - (46 : Nat) =
    -((47 - state.currentStart : Nat) : Int) by omega, wrap_neg (by omega) (by omega)]

theorem reportError_eq (state : ArenaState) :
    reportError state 1 =
      { state with memory := store state.memory (reportAddr state) (errorLine ++ [nul]) } := by
  have printed : "\n(Clientlog ran into a problem, error code ".toList ++
      (toString 1).toList ++ [')', nul] = errorLine ++ [nul] := by decide
  unfold reportError reportAddr
  rw [printed]

/-- An output that fills an arena, with the bytes that exact fits have lost. -/
structure Output (text : Text) (holes : Nat → Prop) (state : ArenaState) : Prop where
  currentStart : state.currentStart = state.startAddr + text.length
  bounded : state.currentStart ≤ state.endAddr
  addresses : state.endAddr < 2 ^ 64
  /-- Without a block the arena is empty. -/
  null : state.startAddr = 0 → state.endAddr = 0
  kept : ∀ i c, text[i]? = some c → ¬ holes i → state.memory (state.startAddr + i) = c
  lost : ∀ i, holes i → i < text.length ∧ state.memory (state.startAddr + i) = nul
  clean : nul ∉ text

section

variable {text : Text} {holes : Nat → Prop} {state : ArenaState}

/-- The line is inside the arena iff the output is as long as the format and a byte. -/
theorem Output.inside_iff (output : Output text holes state) :
    (state.startAddr ≤ reportAddr state ∧ reportAddr state + 46 ≤ state.endAddr) ↔
      47 ≤ text.length := by
  have position := output.currentStart
  have bounded := output.bounded
  have addresses := output.addresses
  have null := output.null
  constructor
  · intro inside
    obtain ⟨low, high⟩ := inside
    by_contra few
    rcases Nat.lt_or_ge state.currentStart 47 with wraps | below
    · rw [reportAddr_of_lt wraps] at high
      omega
    · rw [reportAddr_of_le (by omega) below] at low
      omega
  · intro enough
    rw [reportAddr_of_le (by omega) (by omega)]
    omega

theorem ne_nul_of_isCString {memory : Nat → Char} {address i : Nat}
    (string : IsCString memory address text) (inside : i < text.length) :
    memory (address + i) ≠ nul := by
  obtain ⟨loaded, -, clean⟩ := string
  intro ends
  have located := load_getElem? memory address inside
  rw [loaded, ends] at located
  exact clean (List.mem_of_getElem? located)

/-- A line behind a text that has no NUL. -/
theorem isCString_store {memory : Nat → Char} {address n : Nat} (size : n ≤ text.length)
    (clean : nul ∉ text.take n) (kept : load memory address n = text.take n) :
    IsCString (store memory (address + n) (errorLine ++ [nul])) address
      (text.take n ++ errorLine) := by
  have length : (text.take n ++ errorLine).length = n + errorLine.length := by
    rw [List.length_append, List.length_take, Nat.min_eq_left size]
  obtain ⟨line, terminator⟩ := @load_printed errorLine memory (address + n)
  refine ⟨?_, ?_, ?_⟩
  · rw [length, load_add, line, load_store_outside _ (Or.inl (Nat.le_refl _)), kept]
  · rw [length, ← Nat.add_assoc]
    exact terminator
  · rw [List.mem_append, not_or]
    exact ⟨clean, errorLine_clean⟩

theorem load_eq_take {memory : Nat → Char} {address n : Nat} (enough : n ≤ text.length)
    (same : ∀ i c, text[i]? = some c → i < n → memory (address + i) = c) :
    load memory address n = text.take n := by
  induction n with
  | zero => rfl
  | succ n ih =>
    have located : text[n]? = some text[n] := List.getElem?_eq_getElem enough
    have first := ih (by omega) fun i c located below => same i c located (by omega)
    rw [load_add, first, load, load, same n _ located (Nat.lt_succ_self n), List.take_add_one,
      located]
    rfl

/-- The handler leaves the report in place iff it writes inside the arena and overwrites
every lost byte. -/
theorem Output.placed_iff (output : Output text holes state) :
    ReportPlaced text (reportError state 1) ↔
      47 ≤ text.length ∧ ∀ i, holes i → text.length ≤ i + 47 := by
  have position := output.currentStart
  have bounded := output.bounded
  have addresses := output.addresses
  rw [reportError_eq]
  constructor
  · intro placed
    have inside := placed.inside
    rw [errorLine_length] at inside
    have enough := output.inside_iff.mp inside
    refine ⟨enough, fun i hole => ?_⟩
    obtain ⟨kept, -, behind, string⟩ := placed.text
    have address : reportAddr state = state.currentStart - 47 :=
      reportAddr_of_le (by omega) (by omega)
    change reportAddr state = state.startAddr + kept.length at behind
    by_contra early
    -- The lost byte stands in front of the line and ends the string.
    have before : state.startAddr + i < reportAddr state := by omega
    have outside : store state.memory (reportAddr state) (errorLine ++ [nul])
        (state.startAddr + i) = state.memory (state.startAddr + i) :=
      store_outside state.memory (Or.inl before)
    refine ne_nul_of_isCString string (i := i) (by rw [List.length_append]; omega) ?_
    exact outside.trans (output.lost i hole).2
  · intro condition
    obtain ⟨enough, late⟩ := condition
    have address : reportAddr state = state.startAddr + (text.length - 47) := by
      rw [reportAddr_of_le (by omega) (by omega)]
      omega
    have size : (text.take (text.length - 47)).length = text.length - 47 := by
      rw [List.length_take, Nat.min_eq_left (by omega)]
    have clean : nul ∉ text.take (text.length - 47) := fun member =>
      output.clean (List.mem_of_mem_take member)
    have kept : load state.memory state.startAddr (text.length - 47) =
        text.take (text.length - 47) := by
      refine load_eq_take (by omega) fun i c located below => output.kept i c located fun hole => ?_
      have last := late i hole
      omega
    constructor
    · rw [errorLine_length]
      exact output.inside_iff.mpr enough
    · refine ⟨text.take (text.length - 47), List.take_prefix _ _, ?_, ?_⟩
      · rw [size]
        exact address
      · rw [address]
        exact isCString_store (Nat.sub_le _ _) clean kept

end

/-! ### The point of failure -/

/-- The bytes that clog_ArenaMake has got. -/
def madeCapacity (mem : Nat) : Nat := if mem = 0 then 0 else clientlogCapacity

theorem clientlogStart_written (memory : Nat → Char) (mem : Nat) :
    Written (clientlogStart memory mem) mem (madeCapacity mem) [] (clientlogStart memory mem) := by
  have ends : (clientlogStart memory mem).arena.state.endAddr = mem + madeCapacity mem := by
    by_cases null : mem = 0
    · subst null
      rfl
    · exact (if_neg null).trans (congrArg (mem + ·) (if_neg null).symm)
  have isEmpty : ∀ i, ¬ Hole (clientlogStart memory mem) [] i := by
    intro i hole
    exact absurd hole.inside (Nat.not_lt_zero i)
  refine ⟨⟨rfl, Nat.le_refl mem, ?_, ?_, trivial⟩, ends, rfl, ?_, ?_⟩
  · change mem ≤ (clientlogStart memory mem).arena.state.endAddr
    omega
  · change (clientlogStart memory mem).arena.state.endAddr ≤ mem + madeCapacity mem
    omega
  · intro i c located
    simp at located
  · intro i hole
    exact absurd hole (isEmpty i)

theorem appended_clean {calls : List ClogCall} (described : ∀ call ∈ calls, Described call) :
    nul ∉ appended calls := by
  induction calls with
  | nil => simp
  | cons call rest ih =>
    have first := described call List.mem_cons_self
    have behind := ih fun c member => described c (List.mem_cons_of_mem call member)
    have split := appended_append [call] rest
    rw [List.singleton_append] at split
    rw [split, List.mem_append, not_or]
    refine ⟨?_, behind⟩
    cases call with
    | arena call =>
      cases call with
      | append printed =>
        rw [appended_cons_append, appended_nil, List.append_nil]
        exact first
      | enter | leave | allocate => exact List.not_mem_nil
    | opens | closes | defer | ignorePopDefer | popDefer | popDeferAll => exact List.not_mem_nil

theorem live_of_throws {s : ClogState} {call : ArenaCall} (throws : Throws s call) : Live s := by
  obtain ⟨running, threw⟩ := throws
  refine ⟨running, fun isEmpty => threw ?_⟩
  unfold arenaStep
  rw [running.1, isEmpty]
  exact running.1

/-- The arena in which the failing call leaves the output. -/
theorem output_of_throws {memory : Nat → Char} {mem : Nat}
    (addresses : mem + clientlogCapacity < 2 ^ 64) {before : List ClogCall} {call : ArenaCall}
    (described : ∀ c ∈ before, Described c) (wellFormed : WellFormed 63 call)
    (throws : Throws (clogRun (clientlogStart memory mem) before) call) :
    Output (appended before) (Hole (clientlogStart memory mem) before)
      (arenaStep 64 (clogRun (clientlogStart memory mem) before).arena call).1.state := by
  have bounded : madeCapacity mem < 2 ^ 63 := by
    unfold madeCapacity clientlogCapacity
    split <;> decide
  have room : mem + madeCapacity mem < 2 ^ 64 := by
    unfold madeCapacity
    split <;> omega
  have written := written_of_live room bounded (clientlogStart_written memory mem) described
    (live_of_throws throws)
  obtain ⟨starts, ends, below, stays⟩ :=
    arenaStep_frame room bounded written.ordered throws.1.1 wellFormed
  have startAddr := starts.trans written.ordered.startAddr
  have currentStart := (stays (Or.inr throws.2)).trans written.currentStart
  have endAddr := ends.trans written.endAddr
  have high := written.ordered.high
  have top : ceiling (clogRun (clientlogStart memory mem) before).arena.frames
      (mem + madeCapacity mem) ≤ mem + madeCapacity mem :=
    (nested_stacked written.ordered.nested).le
  have same : ∀ i < (appended before).length,
      (arenaStep 64 (clogRun (clientlogStart memory mem) before).arena call).1.state.memory
          (mem + i) =
        (clogRun (clientlogStart memory mem) before).arena.state.memory (mem + i) := by
    intro i inside
    apply below
    rw [written.currentStart]
    omega
  have position := written.currentStart
  refine ⟨?_, ?_, ?_, ?_, ?_, ?_, appended_clean described⟩
  · rw [currentStart, startAddr]
  · rw [currentStart, endAddr]
    omega
  · rw [endAddr]
    exact room
  · intro null
    rw [startAddr] at null
    rw [endAddr, null]
    rfl
  · intro i c located noHole
    rw [startAddr, same i (List.getElem?_eq_some_iff.mp located).1]
    exact written.kept i c located noHole
  · intro i hole
    rw [startAddr, same i hole.inside]
    exact ⟨hole.inside, written.lost i hole⟩

/-- What mrsend is called with behind a throw. -/
theorem clientlog_of_throw (memory : Nat → Char) (mem : Nat) (mrmachine : Text)
    (o : ClientlogOutcome) {before after : List ClogCall} {call : ArenaCall}
    (split : clientlogCalls mrmachine o = before ++ .arena call :: after)
    (throws : Throws (clogRun (clientlogStart memory mem) before) call) :
    ∃ returned, clientlog memory mem mrmachine o = some returned ∧
      returned.sent = reportError
        (arenaStep 64 (clogRun (clientlogStart memory mem) before).arena call).1.state 1 := by
  have step : clogStep (clogRun (clientlogStart memory mem) before) (.arena call) =
      { clogRun (clientlogStart memory mem) before with
        arena := (arenaStep 64 (clogRun (clientlogStart memory mem) before).arena call).1 } :=
    if_pos throws.1
  have thrown := (arenaStep_thrown 64 throws.1.1 call).resolve_left throws.2
  have halted :
      ¬ (clogStep (clogRun (clientlogStart memory mem) before) (.arena call)).Running := by
    rw [step]
    exact fun going => throws.2 going.1
  have final : clogRun (clientlogStart memory mem) (clientlogCalls mrmachine o) =
      clogStep (clogRun (clientlogStart memory mem) before) (.arena call) := by
    rw [split, clogRun_append]
    exact clogRun_of_not_running halted after
  unfold clientlog
  rw [final, step]
  dsimp only
  rw [if_neg (by simp [throws.1.2]), thrown]
  exact ⟨_, rfl, rfl⟩

/-- The bytes that exact fits have lost, counted from the end of the output. -/
theorem holes_late_iff {start : ClogState} {before : List ClogCall} :
    (∀ i, Hole start before i → (appended before).length ≤ i + 47) ↔
      ∀ earlier printed later, before = earlier ++ append printed :: later →
        ExactFit (clogRun start earlier).arena printed → (appended later).length < 47 := by
  have size : ∀ earlier printed later, before = earlier ++ append printed :: later →
      (appended before).length =
        (appended earlier).length + printed.length + (appended later).length := by
    rintro earlier printed later rfl
    simp only [appended_append, appended_cons_append, List.length_append]
    omega
  constructor
  · intro late earlier printed later split fits
    have positive := List.length_pos_of_ne_nil fits.1
    have all := size earlier printed later split
    have last := late ((appended earlier).length + printed.length - 1)
      ⟨earlier, printed, later, split, fits, by omega⟩
    omega
  · intro few i hole
    obtain ⟨earlier, printed, later, split, fits, place⟩ := hole
    have all := size earlier printed later split
    have behind := few earlier printed later split fits
    omega

/-- Where a call throws, the handler leaves the report in place if and only if at least 47
characters were appended, and fewer than 47 behind every text that filled its frame. -/
theorem error_report_placed_iff (memory : Nat → Char) (mem : Nat) (mrmachine : Text)
    (o : ClientlogOutcome) (addresses : mem + clientlogCapacity < 2 ^ 64)
    (described : ∀ call ∈ clientlogCalls mrmachine o, Described call)
    (threw : (clogRun (clientlogStart memory mem)
      (clientlogCalls mrmachine o)).arena.thrown ≠ none) :
    ∃ before call after, clientlogCalls mrmachine o = before ++ .arena call :: after ∧
      Throws (clogRun (clientlogStart memory mem) before) call ∧
      ∃ returned, clientlog memory mem mrmachine o = some returned ∧
        (ReportPlaced (appended before) returned.sent ↔
          47 ≤ (appended before).length ∧
          ∀ earlier printed later, before = earlier ++ append printed :: later →
            ExactFit (clogRun (clientlogStart memory mem) earlier).arena printed →
            (appended later).length < 47) := by
  cases clientlog_followed memory mem mrmachine o (List.append_nil _).symm with
  | whole running _ => exact absurd running.1 threw
  | cut before call after split throws _ _ _ _ =>
    rw [split] at described
    have wellFormed : WellFormed 63 call := by
      have here := described (.arena call) (by simp)
      cases call with
      | append printed => trivial
      | enter | leave | allocate => exact here
    have output := output_of_throws addresses
      (fun c member => described c (List.mem_append_left _ member)) wellFormed throws
    obtain ⟨returned, same, sent⟩ := clientlog_of_throw memory mem mrmachine o split throws
    refine ⟨before, call, after, split, throws, returned, same, ?_⟩
    rw [sent, output.placed_iff, holes_late_iff]

/-- A machine on which nothing answers but the PDH query. -/
def nothingAnswers : ClientlogOutcome :=
  { manyConnections with winports := ⟨.noSize, .noSize, .noSize, .noSize⟩ }

/-- There malloc returns NULL. -/
theorem error_report_placed_iff_null :
    ∃ before call after, clientlogCalls "host".toList nothingAnswers =
        before ++ .arena call :: after ∧
      Throws (clogRun (clientlogStart (fun _ => nul) 0) before) call ∧
      ∃ returned, clientlog (fun _ => nul) 0 "host".toList nothingAnswers = some returned ∧
        (ReportPlaced (appended before) returned.sent ↔
          47 ≤ (appended before).length ∧
          ∀ earlier printed later, before = earlier ++ append printed :: later →
            ExactFit (clogRun (clientlogStart (fun _ => nul) 0) earlier).arena printed →
            (appended later).length < 47) :=
  error_report_placed_iff (fun _ => nul) 0 "host".toList nothingAnswers (by decide)
    (by decide +kernel) (by decide +kernel)

/-- Without a block the handler writes at 2 ^ 64 - 47. -/
theorem null_block_report_outside :
    ∃ returned, clientlog (fun _ => nul) 0 "host".toList nothingAnswers = some returned ∧
      (clogRun (clientlogStart (fun _ => nul) 0)
        (clientlogCalls "host".toList nothingAnswers)).arena.thrown ≠ none ∧
      ∀ completed, ¬ ReportPlaced completed returned.sent := by
  have ends : ∃ returned, clientlog (fun _ => nul) 0 "host".toList nothingAnswers =
      some returned ∧ returned.sent.endAddr < reportAddr returned.sent := by
    have computed : (clientlog (fun _ => nul) 0 "host".toList nothingAnswers).map
        (fun returned => decide (returned.sent.endAddr < reportAddr returned.sent)) =
          some true := by decide +kernel
    obtain ⟨returned, same, outside⟩ := Option.map_eq_some_iff.mp computed
    exact ⟨returned, same, of_decide_eq_true outside⟩
  obtain ⟨returned, same, outside⟩ := ends
  refine ⟨returned, same, by decide +kernel, fun completed placed => ?_⟩
  have inside := placed.inside.2
  omega

end MrBig.Guarantees.ErrorReport
