import MrBig.Source.ReadCfg

/-!
# The configuration server `minicfg`

minicfg.c:80-109: the machine name that is looked up for a client, and the reply. The
compiled-in display and port are parameters. A name is what `%s` leaves in
`machine[1024]`, so it carries that it is one word and fits.
-/

set_option autoImplicit false

namespace MrBig.Source

/-- What `machine[1024]` holds. -/
structure MachineName where
  text : Text
  word : IsWord text
  noNul : '\x00' ∉ text
  fits : text.length < 1024

/-- A display as `BB_DISPLAY` names it: an internet address without a port. -/
structure DisplayName where
  text : Text
  word : IsWord text
  noNul : '\x00' ∉ text
  noPort : ':' ∉ text

/-- `sscanf(b, "%s %s", ipaddr, machine)`. It returns 2 at most and never 3, so the loop
over bb-hosts goes on whatever the address is. -/
def hostsLine (machine b : Text) : Text :=
  match scanWord b with
  | none => machine
  | some (_, afterAddress) =>
    match scanWord afterAddress with
    | none => machine
    | some (name, _) => name

/-- The name that is sent to the client with address `cli`; `bbHosts` is the file if it
can be opened. -/
def machineName (cli : Text) (bbHosts : Option Text) : Text :=
  let machine := "brokencfg-".toList ++ cli
  match bbHosts with
  | none => machine
  | some stream => (fileLines 1024 stream).foldl hostsLine machine

def reply (machine : MachineName) (display : DisplayName) (port : Int) : Text :=
  strlcpy ("machine ".toList ++ machine.text ++ '\n' ::
    ("display ".toList ++ display.text ++ '\n' ::
      ("port ".toList ++ printInt port ++ ['\n']))) 32000

/-! ### Names -/

theorem scanWord_isWord {s word rest : Text} (found : scanWord s = some (word, rest)) :
    IsWord word ∧ ∃ lead, s = lead ++ (word ++ rest) := by
  obtain ⟨lead, _, word, _, split⟩ := scanWord_eq_some_iff.mp found
  exact ⟨word, lead, split⟩

theorem hostsLine_cases (machine b : Text) :
    hostsLine machine b = machine ∨
      IsWord (hostsLine machine b) ∧ ∃ lead rest, b = lead ++ (hostsLine machine b ++ rest) := by
  unfold hostsLine
  cases first : scanWord b with
  | none => exact Or.inl rfl
  | some pair =>
    dsimp only
    cases second : scanWord pair.2 with
    | none => exact Or.inl rfl
    | some pair' =>
      dsimp only
      obtain ⟨-, lead, split⟩ := scanWord_isWord first
      obtain ⟨word, lead', split'⟩ := scanWord_isWord second
      have inside : b = lead ++ (pair.1 ++ lead') ++ (pair'.1 ++ pair'.2) := by
        rw [split, split']
        simp
      exact Or.inr ⟨word, _, _, inside⟩

theorem fgets_short (room : Nat) (stream : Text) : (fgets room stream).1.length ≤ room := by
  induction room generalizing stream with
  | zero => simp [fgets]
  | succ room ih =>
    cases stream with
    | nil => simp [fgets]
    | cons c stream =>
      have rest := ih stream
      unfold fgets
      split
      · simp
      · simpa using rest

theorem fgetsAll_buffers (size fuel : Nat) (stream : Text) :
    ∀ b ∈ fgetsAll size fuel stream, b.length ≤ size - 1 ∧ '\x00' ∉ b := by
  induction fuel generalizing stream with
  | zero => simp [fgetsAll]
  | succ fuel ih =>
    cases stream with
    | nil => simp [fgetsAll]
    | cons c stream =>
      intro b member
      rcases List.mem_cons.mp member with rfl | later
      · have bound := fgets_short (size - 1) (c :: stream)
        have cut := (List.takeWhile_sublist (· ≠ '\x00') (l := (fgets (size - 1)
          (c :: stream)).1)).length_le
        constructor
        · exact Nat.le_trans cut bound
        · intro inside
          simpa using List.mem_takeWhile_imp inside
      · exact ih _ b later

/-- What minicfg sends as the name fits the name it keeps. -/
theorem machineName_isName {cli : Text} (word : IsWord cli) (noNul : '\x00' ∉ cli)
    (fits : cli.length < 1014) (bbHosts : Option Text) :
    ∃ machine : MachineName, machine.text = machineName cli bbHosts := by
  have start : ∃ machine : MachineName, machine.text = "brokencfg-".toList ++ cli := by
    have letters : IsWord ("brokencfg-".toList ++ cli) := by
      constructor
      · simp
      · intro c member
        rcases List.mem_append.mp member with fixed | inCli
        · have all : ("brokencfg-".toList.all fun d => !isspace d) = true := rfl
          simpa using List.all_eq_true.mp all c fixed
        · exact word.2 c inCli
    exact ⟨⟨_, letters, by simpa using noNul, by simp; omega⟩, rfl⟩
  unfold machineName
  cases bbHosts with
  | none => exact start
  | some stream =>
    have lines := fgetsAll_buffers 1024 stream.length stream
    change ∃ machine : MachineName, machine.text =
      (fgetsAll 1024 stream.length stream).foldl hostsLine ("brokencfg-".toList ++ cli)
    generalize fgetsAll 1024 stream.length stream = buffers at lines
    generalize "brokencfg-".toList ++ cli = name at start
    induction buffers generalizing name with
    | nil => exact start
    | cons b buffers ih =>
      have next : ∃ machine : MachineName, machine.text = hostsLine name b := by
        rcases hostsLine_cases name b with same | ⟨word, lead, rest, split⟩
        · rw [same]
          exact start
        · obtain ⟨short, plain⟩ := lines b List.mem_cons_self
          have noNul : '\x00' ∉ hostsLine name b := by
            intro inside
            apply plain
            rw [split]
            simp [inside]
          have shorter : (hostsLine name b).length ≤ b.length := by
            have whole := congrArg List.length split
            simp only [List.length_append] at whole
            omega
          exact ⟨⟨_, word, noNul, by omega⟩, rfl⟩
      exact ih (fun b member => lines b (List.mem_cons_of_mem _ member)) _ next

end MrBig.Source
