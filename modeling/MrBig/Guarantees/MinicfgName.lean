import MrBig.Guarantees.ReadCfgFlattening
import MrBig.Source.ConfigServer

/-!
# The name that minicfg gives a client

The loop over bb-hosts stores the name of every line. It ends at the client's line only where
`sscanf` returns 3, which it does not, so the name that is left is that of the last line. The
stream is closed for no client, so at some client there is none left for bb-hosts.
-/

set_option autoImplicit false

namespace MrBig.Guarantees.MinicfgName
open Library Source ReadCfgFlattening

/-- A line of bb-hosts: an address, blanks and a name. -/
structure HostsLine where
  ip : Text
  gap : Text
  name : Text
  ipWord : IsWord ip
  nameWord : IsWord name
  gapBlank : gap ≠ [] ∧ ∀ c ∈ gap, c = ' ' ∨ c = '\t'
  noNul : '\x00' ∉ ip ++ (gap ++ name)
  short : (ip ++ (gap ++ name)).length < 1000

def HostsLine.text (line : HostsLine) : Text := line.ip ++ (line.gap ++ line.name)

/-- The name on the first line with the client's address. -/
def ownName (cli : Address) (lines : List HostsLine) : Text :=
  match lines.find? (·.ip = cli.text) with
  | some line => line.name
  | none => "brokencfg-".toList ++ cli.text

/-- A reply that gives the client a name. -/
def GivesName (name reply : Text) : Prop := "machine ".toList ++ name ++ ['\n'] <+: reply

/-! ### The lines -/

theorem HostsLine.plain (line : HostsLine) : ∀ c ∈ line.text, c ≠ '\n' ∧ c ≠ '\r' := by
  have word : ∀ w : Text, IsWord w → ∀ c ∈ w, c ≠ '\n' ∧ c ≠ '\r' := by
    intro w isWord c inside
    have solid := isWord.2 c inside
    constructor
    · rintro rfl
      exact solid (by decide)
    · rintro rfl
      exact solid (by decide)
  intro c inside
  rcases List.mem_append.mp inside with inIp | behind
  · exact word _ line.ipWord c inIp
  rcases List.mem_append.mp behind with inGap | inName
  · rcases line.gapBlank.2 c inGap with rfl | rfl <;> decide
  · exact word _ line.nameWord c inName

/-- What `takeWhile` cuts off starts with the character it stops at. -/
theorem wordEnds_dropWhile {stop : Char} (blank : isspace stop) (s : Text) :
    WordEnds (s.dropWhile (· ≠ stop)) := by
  intro c head
  have stops := List.head?_dropWhile_not (· ≠ stop) s
  rw [Option.mem_def.mp head] at stops
  obtain rfl : c = stop := by simpa using stops
  exact blank

/-- What `chomp` cuts off starts with a blank. -/
theorem chomp_split (b : Text) : ∃ tail, WordEnds tail ∧ b = chomp b ++ tail := by
  have newline : WordEnds (b.dropWhile (· ≠ '\n')) := wordEnds_dropWhile (by decide) b
  have carriage : WordEnds ((b.takeWhile (· ≠ '\n')).dropWhile (· ≠ '\r')) :=
    wordEnds_dropWhile (by decide) _
  refine ⟨(b.takeWhile (· ≠ '\n')).dropWhile (· ≠ '\r') ++ b.dropWhile (· ≠ '\n'), ?_, ?_⟩
  · cases behind : (b.takeWhile (· ≠ '\n')).dropWhile (· ≠ '\r') with
    | nil => exact newline
    | cons c rest =>
      rw [behind] at carriage
      exact carriage
  · rw [chomp, ← List.append_assoc, List.takeWhile_append_dropWhile,
      List.takeWhile_append_dropWhile]

/-- A buffer with a line of bb-hosts leaves the line's name. -/
theorem hostsLine_name (machine : Text) {b : Text} {line : HostsLine}
    (chomped : chomp b = line.text) : hostsLine machine b = line.name := by
  obtain ⟨tail, ends, split⟩ := chomp_split b
  obtain ⟨gapSome, gapBlank⟩ := line.gapBlank
  have blank : Blank line.gap := by
    intro c inside
    rcases gapBlank c inside with rfl | rfl <;> decide
  have gapEnds : WordEnds (line.gap ++ (line.name ++ tail)) := by
    obtain ⟨c, rest, shape⟩ := List.exists_cons_of_ne_nil gapSome
    intro d head
    rw [shape] at head
    obtain rfl : c = d := by simpa using head
    exact blank c (shape ▸ List.mem_cons_self)
  have whole : b = [] ++ (line.ip ++ (line.gap ++ (line.name ++ tail))) := by
    rw [split, chomped, HostsLine.text]
    simp only [List.append_assoc, List.nil_append]
  have first := scanWord_eq_some_iff.mpr
    ⟨[], fun c none => absurd none List.not_mem_nil, line.ipWord, gapEnds, whole⟩
  have second := scanWord_eq_some_iff.mpr ⟨line.gap, blank, line.nameWord, ends, rfl⟩
  rw [hostsLine, first]
  dsimp only
  rw [second]

/-- The name of the last line is left. -/
theorem foldl_hostsLine {bs : List Text} {lines : List HostsLine}
    (chomped : bs.map chomp = lines.map HostsLine.text) (machine : Text) :
    bs.foldl hostsLine machine = (lines.getLast?.map HostsLine.name).getD machine := by
  induction lines generalizing bs machine with
  | nil =>
    obtain rfl := List.map_eq_nil_iff.mp chomped
    rfl
  | cons line lines ih =>
    obtain ⟨b, bs, rfl, here, behind⟩ := List.map_eq_cons_iff.mp chomped
    rw [List.foldl_cons, hostsLine_name machine here, ih behind, List.getLast?_cons]
    cases lines.getLast? <;> rfl

variable {lines : List HostsLine} {text : Text}

/-- The buffers of bb-hosts, chomped, are its lines. -/
theorem fileLines_hosts (file : Delimited.pieces '\n' text = lines.map HostsLine.text)
    (noNul : '\x00' ∉ text) :
    (fileLines 1024 text).map chomp = lines.map HostsLine.text := by
  have short : ∀ line ∈ Delimited.pieces '\n' text, line.length + 1 < 1024 := by
    rw [file, List.forall_mem_map]
    intro line _
    have fits := line.short
    unfold HostsLine.text
    omega
  rw [fileLines, fgetsAll_lines 1024 noNul short (Nat.le_refl _), Abstract.logicalLines, file,
    List.map_map]
  refine List.map_congr_left fun line _ => ?_
  exact List.takeWhile_eq_self_iff.mpr fun c inside => by simpa using (line.plain c inside).2

theorem machineName_eq (cli : Text) (file : Delimited.pieces '\n' text = lines.map HostsLine.text)
    (noNul : '\x00' ∉ text) :
    machineName cli (some text) =
      (lines.getLast?.map HostsLine.name).getD ("brokencfg-".toList ++ cli) :=
  foldl_hostsLine (fileLines_hosts file noNul) _

theorem noNul_hosts (file : Delimited.pieces '\n' text = lines.map HostsLine.text) :
    '\x00' ∉ text := by
  intro inside
  have other : '\x00' ≠ '\n' := by decide
  obtain ⟨piece, member, found⟩ := Delimited.exists_mem_pieces inside other
  rw [file] at member
  obtain ⟨line, -, rfl⟩ := List.mem_map.mp member
  exact line.noNul found

/-! ### The reply -/

theorem eq_of_prefix_line {a b : Text} (aPlain : '\n' ∉ a) (bPlain : '\n' ∉ b)
    (front : a ++ ['\n'] <+: b ++ ['\n']) : a = b := by
  obtain ⟨rest, whole⟩ := front
  have cuts := congrArg (Delimited.cut '\n') whole
  rw [List.append_assoc, List.singleton_append, Delimited.cut_append aPlain,
    Delimited.cut_append bPlain] at cuts
  exact (Prod.mk.inj (Option.some.inj cuts)).1

theorem plain_of_isWord {word : Text} (isWord : IsWord word) : '\n' ∉ word :=
  fun inside => isWord.2 _ inside (by decide)

theorem givesName_self (machine : MachineName) (display : DisplayName) (port : Int) :
    GivesName machine.text (reply machine display port) := by
  have fits := machine.fits
  rw [GivesName, reply, strlcpy, List.prefix_take_iff]
  constructor
  · exact ⟨_, by simp only [List.append_assoc, List.singleton_append]; rfl⟩
  · simp only [List.length_append, List.length_singleton]
    have eight : "machine ".toList.length = 8 := rfl
    omega

theorem givesName_iff {name : Text} (plain : '\n' ∉ name) (machine : MachineName)
    (display : DisplayName) (port : Int) :
    GivesName name (reply machine display port) ↔ machine.text = name := by
  constructor
  · intro gives
    have itself := givesName_self machine display port
    unfold GivesName at gives itself
    rw [List.append_assoc] at gives itself
    have machinePlain := plain_of_isWord machine.word
    rcases List.prefix_or_prefix_of_prefix itself gives with front | front
    · exact eq_of_prefix_line machinePlain plain ((List.prefix_append_right_inj _).mp front)
    · exact (eq_of_prefix_line plain machinePlain ((List.prefix_append_right_inj _).mp front)).symm
  · rintro rfl
    exact givesName_self machine display port

theorem ownName_plain (cli : Address) (lines : List HostsLine) :
    '\n' ∉ ownName cli lines := by
  unfold ownName
  cases lines.find? (·.ip = cli.text) with
  | some line => exact plain_of_isWord line.nameWord
  | none =>
    dsimp only
    rw [List.mem_append, not_or]
    exact ⟨by decide, plain_of_isWord cli.word⟩

/-! ### The streams that minicfg keeps -/

/-- The connections at which bb-hosts was there. -/
def found (accepted : List Accepted) : Nat := accepted.countP fun a => a.bbHosts.isSome

section Server

variable (display : DisplayName) (port : Int) (limit : Nat)

/-- The streams taken after a run of the accept loop. -/
def opened (accepted : List Accepted) : Nat :=
  Run.final (accept display port limit) 0 accepted

theorem opened_eq (accepted : List Accepted) :
    opened display port limit accepted = min limit (found accepted) := by
  unfold opened
  apply Run.history_invariant (accept display port limit)
    (fun history streams => streams = min limit (found history))
  · exact (Nat.min_zero limit).symm
  · intro history a streams
    have more : found (history ++ [a]) = found history + if a.bbHosts.isSome then 1 else 0 := by
      unfold found
      rw [List.countP_append, List.countP_singleton]
    rw [streams, more]
    unfold accept openHosts fopenRead
    by_cases there : a.bbHosts.isSome = true
    · by_cases room : min limit (found history) < limit
      · simp only [if_pos room, if_pos there]
        omega
      · simp only [if_neg room, Option.isSome_none, Bool.false_eq_true, if_false, if_pos there]
        omega
    · have absent : (if min limit (found history) < limit then a.bbHosts else none).isSome =
          false := by
        split
        · simpa using there
        · rfl
      simp only [absent, Bool.false_eq_true, if_false, if_neg there, Nat.add_zero]

/-- The name given to a client after a run of the accept loop: the streams that are taken count,
and when they are all taken bb-hosts plays no part. -/
def nameGiven (before : List Accepted) (a : Accepted) : MachineName :=
  a.cli.machine (if found before < limit then a.bbHosts else none)

theorem accept_reply (before : List Accepted) (a : Accepted) :
    (accept display port limit (opened display port limit before) a).2 =
      reply (nameGiven limit before a) display port := by
  unfold accept openHosts fopenRead nameGiven
  rw [opened_eq]
  have same : min limit (found before) < limit ↔ found before < limit := by omega
  simp only [same]

end Server

theorem nameGiven_after_limit {limit : Nat} {before : List Accepted} (a : Accepted)
    (all : limit ≤ found before) :
    (nameGiven limit before a).text = "brokencfg-".toList ++ a.cli.text := by
  rw [nameGiven, if_neg (Nat.not_lt.mpr all)]
  rfl

theorem machine_eq (cli : Address) (file : Delimited.pieces '\n' text = lines.map HostsLine.text) :
    (cli.machine (some text)).text =
      (lines.getLast?.map HostsLine.name).getD ("brokencfg-".toList ++ cli.text) :=
  machineName_eq cli.text file (noNul_hosts file)

/-- After any connections, a client gets its own name if and only if minicfg has a stream left and
bb-hosts has no line, or the client's own name on the last; or it has none left, and the client's
own name is that of the clients without a line. -/
theorem own_name_given_iff (display : DisplayName) (port : Int) (limit : Nat)
    (before : List Accepted) (cli : Address) (lines : List HostsLine) (text : Text)
    (file : Delimited.pieces '\n' text = lines.map HostsLine.text) :
    GivesName (ownName cli lines)
        (accept display port limit (opened display port limit before) ⟨cli, some text⟩).2 ↔
      (found before < limit ∧ ∀ last ∈ lines.getLast?, last.name = ownName cli lines) ∨
        (limit ≤ found before ∧ ownName cli lines = "brokencfg-".toList ++ cli.text) := by
  rw [accept_reply, givesName_iff (ownName_plain cli lines)]
  by_cases room : found before < limit
  · have full : ¬ limit ≤ found before := Nat.not_le.mpr room
    have name : nameGiven limit before ⟨cli, some text⟩ = cli.machine (some text) := by
      rw [nameGiven, if_pos room]
    rw [name, machine_eq cli file]
    simp only [room, full, true_and, false_and, or_false]
    cases final : lines.getLast? with
    | none =>
      obtain rfl := List.getLast?_eq_none_iff.mp final
      exact iff_of_true rfl fun last there => by cases there
    | some last => simp
  · have full : limit ≤ found before := Nat.not_lt.mp room
    rw [nameGiven_after_limit _ full]
    simp only [room, full, true_and, false_and, false_or]
    exact eq_comm

/-- Two clients. -/
def twoHosts : List HostsLine :=
  [⟨"10.0.0.1".toList, [' '], "alpha".toList, by decide, by decide, by simp, by decide,
      by decide⟩,
    ⟨"10.0.0.2".toList, [' '], "beta".toList, by decide, by decide, by simp, by decide,
      by decide⟩]

def twoHostsFile : Text := "10.0.0.1 alpha\n10.0.0.2 beta\n".toList

def firstClient : Address := ⟨"10.0.0.1".toList, by decide, by decide, by decide⟩

def secondClient : Address := ⟨"10.0.0.2".toList, by decide, by decide, by decide⟩

def bbDisplay : DisplayName := ⟨"10.0.0.9".toList, by decide, by decide, by decide⟩

/-- The client on the last line, behind the other one. -/
theorem second_named :
    GivesName (ownName secondClient twoHosts)
      (accept bbDisplay 1984 509
        (opened bbDisplay 1984 509 [⟨firstClient, some twoHostsFile⟩])
        ⟨secondClient, some twoHostsFile⟩).2 := by
  refine (own_name_given_iff bbDisplay 1984 509 [⟨firstClient, some twoHostsFile⟩] secondClient
    twoHosts twoHostsFile rfl).mpr (Or.inl ⟨by decide, fun last there => ?_⟩)
  cases there
  rfl

/-- The client on the first line gets the name on the second. -/
theorem first_misnamed :
    ownName firstClient twoHosts = "alpha".toList ∧
      GivesName "beta".toList
        (accept bbDisplay 1984 509 0 ⟨firstClient, some twoHostsFile⟩).2 ∧
      ¬GivesName (ownName firstClient twoHosts)
        (accept bbDisplay 1984 509 0 ⟨firstClient, some twoHostsFile⟩).2 := by
  have sent : (firstClient.machine (some twoHostsFile)).text = "beta".toList := by decide
  refine ⟨rfl, (givesName_iff (by decide) _ _ _).mpr sent, fun gives => ?_⟩
  have named := (givesName_iff (ownName_plain _ _) _ _ _).mp gives
  exact absurd (sent.symm.trans named) (by decide)

end MrBig.Guarantees.MinicfgName
