import MrBig.Guarantees.BufferBounds
import MrBig.Guarantees.ConfigStore
import MrBig.Guarantees.ReadCfgFlattening
import MrBig.Source.Minicfg
import MrBig.Source.Settings

/-!
# The port that a display gets

`readcfg` gives a display without a port of its own the port it has read so far. So the
`port` directive of a section counts only for the displays behind it, and the reply of
minicfg, which names the port last, gives its display the default port.
-/

set_option autoImplicit false

namespace MrBig.Guarantees.ReplyPort
open Library Source ReadCfgFlattening ConfigStore

/-! ### What a section asks for -/

/-- The port after directives that are read with `port` before them. -/
def portAfter (port : Int) (ds : List Directive) : Int :=
  ds.foldl (fun port d => match d with | .port n => n | _ => port) port

/-- The port of the section, and the port in force behind its first lines. -/
def sectionPort (ds : List Directive) : Int := portAfter 1984 ds

/-- The displays of the section, the last first, when those without a port have `port`. -/
def displaysWith (port : Int) (ds : List Directive) : List DisplayAddress :=
  (ds.filterMap fun d =>
    match d with
    | .display value => some (displayAddress port value)
    | _ => none).reverse

/-! ### What `readcfg` makes of it -/

/-- The displays in the order of their lines, each with the port in force there. -/
def displaysRead : Int → List Directive → List DisplayAddress
  | _, [] => []
  | port, d :: ds =>
    match d with
    | .display value => displayAddress port value :: displaysRead port ds
    | .port n => displaysRead n ds
    | _ => displaysRead port ds

theorem foldl_mrdisplay (opens : Text → Bool) (ds : List Directive) (s : Settings) :
    (ds.foldl (applyDirective opens) s).mrdisplay =
      (displaysRead s.mrport ds).reverse ++ s.mrdisplay := by
  induction ds generalizing s with
  | nil => rfl
  | cons d ds ih =>
    rw [List.foldl_cons, ih]
    cases d with
    | display value => simp [displaysRead, applyDirective]
    | _ => simp [displaysRead, applyDirective]

theorem readcfg_mrdisplay (opens : Text → Bool) (conf : List Config) (s : Settings) :
    (readcfg opens conf s).mrdisplay = (displaysRead 1984 (directives conf)).reverse := by
  have finished : ∀ t : Settings, (finishCfg t).mrdisplay = t.mrdisplay := fun _ => rfl
  have port : (setDefaults s).mrport = 1984 := rfl
  have fresh : (setDefaults s).mrdisplay = [] := rfl
  rw [readcfg, finished, foldl_mrdisplay, port, fresh, List.append_nil]

theorem displayAddress_eq_iff (port port' : Int) (value : Text) :
    displayAddress port value = displayAddress port' value ↔
      (':' ∉ value → htons port = htons port') := by
  unfold displayAddress
  cases placed : Delimited.cut ':' value with
  | none => simp [Delimited.cut_eq_none_iff.mp placed]
  | some pair =>
    have own : ':' ∈ value := by
      by_contra plain
      rw [Delimited.cut_of_notMem plain] at placed
      cases placed
    simp [own]

/-- The displays read are those with the port `q` iff `q` is in force at each line that
needs it. -/
theorem displaysRead_eq_iff (q : Int) (ds : List Directive) (port : Int) :
    (displaysRead port ds).reverse = displaysWith q ds ↔
      ∀ before value after, ds = before ++ .display value :: after → ':' ∉ value →
        htons (portAfter port before) = htons q := by
  unfold displaysWith
  rw [List.reverse_inj]
  induction ds generalizing port with
  | nil => simp [displaysRead]
  | cons d ds ih =>
    have split : ∀ holds : List Directive → Text → Prop,
        (∀ before value after, d :: ds = before ++ .display value :: after →
          holds before value) ↔
        (∀ value, d = .display value → holds [] value) ∧
          ∀ before value after, ds = before ++ .display value :: after →
            holds (d :: before) value := by
      intro holds
      constructor
      · intro every
        constructor
        · intro value here
          exact every [] value ds (by rw [here]; rfl)
        · intro before value after later
          exact every (d :: before) value after (by rw [later]; rfl)
      · intro parts before value after whole
        obtain ⟨here, later⟩ := parts
        cases before with
        | nil =>
          obtain ⟨same, -⟩ := List.cons.inj whole
          exact here value same
        | cons first before =>
          obtain ⟨rfl, rest⟩ := List.cons.inj whole
          exact later before value after rest
    rw [split fun before value => ':' ∉ value → htons (portAfter port before) = htons q]
    cases d with
    | display value =>
      have first : (∀ other, Directive.display value = .display other → ':' ∉ other →
          htons (portAfter port []) = htons q) ↔ (':' ∉ value → htons port = htons q) := by
        simp [portAfter]
      rw [first, ← displayAddress_eq_iff]
      simp only [displaysRead, List.filterMap_cons, List.cons.injEq]
      rw [ih port]
      rfl
    | port n =>
      simp only [displaysRead, List.filterMap_cons, reduceCtorEq, false_imp_iff, implies_true,
        true_and]
      exact ih n
    | _ =>
      simp only [displaysRead, List.filterMap_cons, reduceCtorEq, false_imp_iff, implies_true,
        true_and]
      exact ih port

/-! ### The lines of the section -/

theorem keyValue_line {key value : Text} (word : IsWord key) (noComment : key.head? ≠ some '#')
    (nonempty : value ≠ []) (solid : ∀ c ∈ value.head?, ¬ isspace c) (plain : '\n' ∉ value) :
    keyValue (key ++ ' ' :: value) = some (key, value) := by
  have scanned : scanWord (key ++ ' ' :: value) = some (key, ' ' :: value) := by
    apply scanWord_eq_some_iff.mpr
    exact ⟨[], by simp [Blank], word, by simp [WordEnds, isspace], rfl⟩
  have rest : scanLine (' ' :: value) = some value := by
    have dropped : (' ' :: value).dropWhile isspace = value := by
      apply (skipBlanks_iff solid).mpr
      exact ⟨[' '], by simp [Blank, isspace], rfl⟩
    unfold scanLine
    rw [dropped, takeWhile_of_notMem plain]
    cases value with
    | nil => exact absurd rfl nonempty
    | cons c value => rfl
  have first : (key ++ ' ' :: value).head? ≠ some '#' := by
    cases key with
    | nil => exact absurd rfl word.1
    | cons c key => simpa using noComment
  unfold keyValue
  rw [if_neg first, scanned]
  simp [rest]

/-- A line without a value is no directive. -/
theorem keyValue_word {b : Text} (letters : ∀ c ∈ b, ¬ isspace c) : keyValue b = none := by
  by_cases empty : b = []
  · rw [empty]
    rfl
  have scanned : scanWord b = some (b, []) := by
    apply scanWord_eq_some_iff.mpr
    exact ⟨[], by simp [Blank], ⟨empty, letters⟩, by simp [WordEnds], by simp⟩
  unfold keyValue
  rw [scanned]
  simp [scanLine]

/-! ### The displays fit the line buffer -/

theorem keyValue_length {b key value : Text} (found : keyValue b = some (key, value)) :
    key.length + 1 + value.length ≤ b.length := by
  unfold keyValue at found
  by_cases comment : b.head? = some '#'
  · rw [if_pos comment] at found
    cases found
  rw [if_neg comment] at found
  obtain ⟨⟨word, rest⟩, scanned, found⟩ := Option.bind_eq_some_iff.mp found
  obtain ⟨line, read, found⟩ := Option.bind_eq_some_iff.mp found
  cases found
  obtain ⟨lead, _, _, ends, split⟩ := scanWord_eq_some_iff.mp scanned
  have taken : value = (rest.dropWhile isspace).takeWhile (· ≠ '\n') := by
    unfold scanLine at read
    cases run : (rest.dropWhile isspace).takeWhile (· ≠ '\n') with
    | nil =>
      rw [run] at read
      cases read
    | cons c run' =>
      rw [run] at read
      exact (Option.some.inj read).symm
  have shorter : value.length + 1 ≤ rest.length := by
    cases rest with
    | nil =>
      rw [scanLine] at read
      cases read
    | cons c rest =>
      have blank : isspace c := ends c rfl
      rw [taken, List.dropWhile_cons_of_pos blank, List.length_cons]
      have cut := (List.takeWhile_sublist (· ≠ '\n')
        (l := rest.dropWhile isspace)).length_le
      have skipped := (List.dropWhile_sublist isspace (l := rest)).length_le
      omega
  rw [split]
  simp only [List.length_append]
  omega

theorem of_ite_some {p : Prop} [Decidable p] {x d : Directive} {rest : Option Directive}
    (found : (if p then some x else rest) = some d) : p ∧ x = d ∨ rest = some d := by
  by_cases holds : p
  · rw [if_pos holds] at found
    exact Or.inl ⟨holds, Option.some.inj found⟩
  · rw [if_neg holds] at found
    exact Or.inr found

theorem graceDirective_ne_display (value address : Text) :
    graceDirective value ≠ .display address := by
  unfold graceDirective
  split <;> simp

/-- Only the key `display` makes a display. -/
theorem directive_display {key value address : Text}
    (found : directive key value = some (.display address)) :
    key = "display".toList ∧ address = value := by
  unfold directive at found
  rcases of_ite_some found with ⟨-, no⟩ | found
  · cases no
  rcases of_ite_some found with ⟨-, no⟩ | found
  · cases no
  rcases of_ite_some found with ⟨same, display⟩ | found
  · exact ⟨same, (Directive.display.inj display).symm⟩
  exfalso
  repeat
    rcases of_ite_some found with ⟨-, no⟩ | found
    · first
      | cases no
      | exact graceDirective_ne_display _ _ no
  cases found

theorem display_short {conf : List Config} {value : Text}
    (asked : .display value ∈ directives conf) : value.length < 248 := by
  unfold directives at asked
  obtain ⟨b, listed, found⟩ := List.mem_filterMap.mp asked
  have short : b.length < 256 := sectionLines_short conf _ (by decide) b listed
  obtain ⟨⟨key, text⟩, parsed, found⟩ := Option.bind_eq_some_iff.mp found
  obtain ⟨rfl, rfl⟩ := directive_display found
  have fits := keyValue_length parsed
  have key : "display".toList.length = 7 := rfl
  omega

theorem displayAddress_length (port : Int) (value : Text) :
    (displayAddress port value).sinAddr.length ≤ value.length := by
  unfold displayAddress
  cases placed : Delimited.cut ':' value with
  | none => exact Nat.le_refl _
  | some pair =>
    have split := (Delimited.eq_of_cut placed).1
    have whole := congrArg List.length split
    simp only [List.length_append, List.length_cons] at whole
    dsimp only
    omega

/-- No display has an address that the line buffer cannot hold. -/
theorem readcfg_display_short (opens : Text → Bool) (conf : List Config) (s : Settings) :
    ∀ d ∈ (readcfg opens conf s).mrdisplay, d.sinAddr.length < 248 := by
  have read : ∀ ds port, (∀ value, Directive.display value ∈ ds → value.length < 248) →
      ∀ d ∈ displaysRead port ds, d.sinAddr.length < 248 := by
    intro ds
    induction ds with
    | nil => simp [displaysRead]
    | cons d ds ih =>
      intro port short
      have later : ∀ value, Directive.display value ∈ ds → value.length < 248 :=
        fun value member => short value (List.mem_cons_of_mem d member)
      cases d with
      | display value =>
        intro e member
        rcases List.mem_cons.mp member with rfl | member
        · exact Nat.lt_of_le_of_lt (displayAddress_length port value) (short value (by simp))
        · exact ih port later e member
      | port n => exact ih n later
      | _ => exact ih port later
  intro d member
  rw [readcfg_mrdisplay, List.mem_reverse] at member
  exact read _ 1984 (fun value asked => display_short asked) d member

/-! ### Reading the reply -/

/-- A line that fits the buffer, and one that does not. -/
theorem fgetsAll_line {line : Text} (plain : '\n' ∉ line) (noNul : '\x00' ∉ line) (rest : Text)
    {size : Nat} (fits : line.length + 1 < size) (fuel : Nat) :
    fgetsAll size (fuel + 1) (line ++ '\n' :: rest) =
      (line ++ ['\n']) :: fgetsAll size fuel rest := by
  have taken := fgets_line plain rest (Nat.lt_sub_of_add_lt fits)
  have whole : (line ++ ['\n']).takeWhile (· ≠ '\x00') = line ++ ['\n'] :=
    takeWhile_of_notMem (by simpa using noNul)
  rw [fgetsAll_succ size fuel (by simp), taken, whole]

theorem fgets_long {line : Text} (plain : '\n' ∉ line) (rest : Text) {room : Nat}
    (long : room ≤ line.length) :
    fgets room (line ++ rest) = (line.take room, line.drop room ++ rest) := by
  induction room generalizing line with
  | zero => simp [fgets]
  | succ room ih =>
    cases line with
    | nil => simp at long
    | cons c line =>
      have other : c ≠ '\n' := fun same => plain (by simp [same])
      have restPlain : '\n' ∉ line := fun inside => plain (List.mem_cons_of_mem c inside)
      rw [List.cons_append, fgets, if_neg other, ih restPlain (by simpa using long)]
      rfl

theorem fgetsAll_long {line : Text} (plain : '\n' ∉ line) (noNul : '\x00' ∉ line) (rest : Text)
    {size : Nat} (nonempty : line ≠ []) (long : size - 1 ≤ line.length) (fuel : Nat) :
    fgetsAll size (fuel + 1) (line ++ rest) =
      line.take (size - 1) :: fgetsAll size fuel (line.drop (size - 1) ++ rest) := by
  have taken := fgets_long plain rest long
  have whole : (line.take (size - 1)).takeWhile (· ≠ '\x00') = line.take (size - 1) :=
    takeWhile_of_notMem fun inside => noNul (List.mem_of_mem_take inside)
  rw [fgetsAll_succ size fuel (by simp [nonempty]), taken, whole]

/-- A line that begins like none of the special ones is added to its section. -/
theorem readLine_ordinary {nested : World → Text → Text → Option World} (w : World)
    {category b line : Text} (chomped : chomp b = line) (nonempty : line ≠ [])
    (first : line.head? ≠ some '[' ∧ line.head? ≠ some '#')
    (noDirective : ∀ key ∈ [".bind ".toList, ".config ".toList, ".include ".toList],
      ¬ key <+: line) :
    readLine World.recvCfg nested w category b = some (w.add category line, category) := by
  unfold readLine
  rw [chomped, if_neg first.1, if_neg (noDirective _ (by simp)),
    if_neg (noDirective _ (by simp)), if_neg (noDirective _ (by simp)),
    if_pos ⟨nonempty, first.2⟩]
  rfl

/-- Neither a line end nor a NUL in it. -/
def Plain (line : Text) : Prop := '\n' ∉ line ∧ '\r' ∉ line ∧ '\x00' ∉ line

instance (line : Text) : Decidable (Plain line) := instDecidableAnd

theorem plain_append {first second : Text} (plain : Plain first) (plain' : Plain second) :
    Plain (first ++ second) := by
  have both : ∀ c, c ∉ first → c ∉ second → c ∉ first ++ second := fun c absent absent' inside =>
    (List.mem_append.mp inside).elim absent absent'
  exact ⟨both _ plain.1 plain'.1, both _ plain.2.1 plain'.2.1, both _ plain.2.2 plain'.2.2⟩

theorem plain_of_solid {text : Text} (solid : ∀ c ∈ text, ¬ isspace c) (noNul : '\x00' ∉ text) :
    Plain text := by
  have newline : isspace '\n' = true := by decide
  have carriage : isspace '\r' = true := by decide
  exact ⟨fun inside => solid _ inside newline, fun inside => solid _ inside carriage, noNul⟩

theorem Plain.drop {line : Text} (plain : Plain line) (n : Nat) : Plain (line.drop n) :=
  ⟨fun inside => plain.1 (List.mem_of_mem_drop inside),
    fun inside => plain.2.1 (List.mem_of_mem_drop inside),
    fun inside => plain.2.2 (List.mem_of_mem_drop inside)⟩

def machineLine (machine : MachineName) : Text := "machine ".toList ++ machine.text

def displayLine (display : DisplayName) : Text := "display ".toList ++ display.text

def portLine (port : Int) : Text := "port ".toList ++ printInt port

theorem machineLine_plain (machine : MachineName) : Plain (machineLine machine) :=
  plain_append (by decide) (plain_of_solid machine.word.2 machine.noNul)

theorem displayLine_plain (display : DisplayName) : Plain (displayLine display) :=
  plain_append (by decide) (plain_of_solid display.word.2 display.noNul)

theorem portLine_plain (port : Int) : Plain (portLine port) :=
  plain_append (by decide) (plain_of_solid (fun c inside => (printInt_solid port c inside).1)
    fun inside => (printInt_solid port _ inside).2 rfl)

theorem machineLine_length (machine : MachineName) :
    (machineLine machine).length = machine.text.length + 8 := by
  have key : "machine ".toList.length = 8 := rfl
  have parts : (machineLine machine).length = "machine ".toList.length + machine.text.length :=
    List.length_append
  omega

theorem displayLine_length (display : DisplayName) :
    (displayLine display).length = display.text.length + 8 := by
  have key : "display ".toList.length = 8 := rfl
  have parts : (displayLine display).length = "display ".toList.length + display.text.length :=
    List.length_append
  omega

theorem portLine_length (port : Int) :
    (portLine port).length = (printInt port).length + 5 := by
  have key : "port ".toList.length = 5 := rfl
  have parts : (portLine port).length = "port ".toList.length + (printInt port).length :=
    List.length_append
  omega

/-- The first line as `b[1000]` receives it: a long name is continued in a second buffer. -/
def machineBuffers (machine : MachineName) : List Text :=
  if machine.text.length < 991 then [machineLine machine ++ ['\n']]
  else [(machineLine machine).take 999, machine.text.drop 991 ++ ['\n']]

/-- The reply fits `sendbuf`. -/
theorem reply_eq (machine : MachineName) {display : DisplayName} {port : Int}
    (short : display.text.length < 248) (low : -2147483648 ≤ port) (high : port < 2147483648) :
    reply machine display port = machineLine machine ++ '\n' ::
      (displayLine display ++ '\n' :: (portLine port ++ ['\n'])) := by
  have digits := printInt_length low high
  have name := machine.fits
  have size : (machineLine machine ++ '\n' ::
      (displayLine display ++ '\n' :: (portLine port ++ ['\n']))).length ≤ 32000 - 1 := by
    rw [List.length_append, List.length_cons, List.length_append, List.length_cons,
      List.length_append, List.length_singleton, machineLine_length, displayLine_length,
      portLine_length]
    omega
  exact List.take_of_length_le size

theorem fgetsAll_tail (display : DisplayName) {port : Int} (short : display.text.length < 248)
    (low : -2147483648 ≤ port) (high : port < 2147483648) (fuel : Nat) :
    fgetsAll 1000 (fuel + 2) (displayLine display ++ '\n' :: (portLine port ++ ['\n'])) =
      [displayLine display ++ ['\n'], portLine port ++ ['\n']] := by
  have digits := printInt_length low high
  have displaySize := displayLine_length display
  have portSize := portLine_length port
  have displayPlain := displayLine_plain display
  have portPlain := portLine_plain port
  rw [fgetsAll_line displayPlain.1 displayPlain.2.2 _ (by omega),
    fgetsAll_line portPlain.1 portPlain.2.2 [] (by omega), fgetsAll_nil]

/-- The buffers that the reply is read into. -/
theorem reply_buffers (machine : MachineName) {display : DisplayName} {port : Int}
    (short : display.text.length < 248) (low : -2147483648 ≤ port) (high : port < 2147483648) :
    fileLines 1000 (reply machine display port) =
      machineBuffers machine ++ [displayLine display ++ ['\n'], portLine port ++ ['\n']] := by
  have name := machine.fits
  have plain := machineLine_plain machine
  have size := machineLine_length machine
  have tail := fgetsAll_tail display short low high
  have whole := reply_eq machine short low high
  have enough : 4 ≤ (reply machine display port).length := by
    rw [whole, List.length_append]
    omega
  obtain ⟨fuel, total⟩ := Nat.exists_eq_add_of_le' enough
  unfold fileLines machineBuffers
  rw [total, whole]
  by_cases one : machine.text.length < 991
  · rw [if_pos one, fgetsAll_line plain.1 plain.2.2 _ (by omega), tail]
    rfl
  · have nonempty : machineLine machine ≠ [] := List.ne_nil_of_length_pos (by omega)
    have rest : (machineLine machine).drop 999 = machine.text.drop 991 := by
      have key : "machine ".toList.length = 8 := rfl
      unfold machineLine
      rw [List.drop_append, key, List.drop_eq_nil_of_le (by omega), List.nil_append]
    have restPlain := rest ▸ plain.drop 999
    have restSize : (machine.text.drop 991).length + 1 < 1000 := by
      rw [List.length_drop]
      omega
    have long : 1000 - 1 ≤ (machineLine machine).length := by omega
    rw [if_neg one, fgetsAll_long plain.1 plain.2.2 _ nonempty long,
      show 1000 - 1 = 999 from rfl, rest, fgetsAll_line restPlain.1 restPlain.2.2 _ restSize,
      tail]
    rfl

theorem chomp_plain {line : Text} (plain : Plain line) :
    chomp (line ++ ['\n']) = line ∧ chomp line = line := by
  have whole : line.takeWhile (· ≠ '\r') = line := takeWhile_of_notMem plain.2.1
  have chomped := chomp_line plain.1
  rwa [whole] at chomped

/-- A directive of `read_cfg` begins with a dot and has a blank in it. -/
theorem no_directive {line : Text} (free : line.head? ≠ some '.' ∨ ' ' ∉ line) :
    ∀ key ∈ [".bind ".toList, ".config ".toList, ".include ".toList], ¬ key <+: line := by
  have keys : ∀ key ∈ [".bind ".toList, ".config ".toList, ".include ".toList],
      key.head? = some '.' ∧ ' ' ∈ key := by decide
  intro key member begins
  obtain ⟨rest, rfl⟩ := begins
  obtain ⟨dot, blank⟩ := keys key member
  rcases free with other | solid
  · cases key with
    | nil => cases dot
    | cons c key => exact other dot
  · exact solid (List.mem_append_left rest blank)

/-- The section behind the machine line: a name of 992 characters and more may go on with a
header. -/
def sectionBehind (name : Text) : Text :=
  if (name.drop 991).head? = some '[' then (name.drop 992).takeWhile (· ≠ ']')
  else "mrbig".toList

theorem noBlank_of_solid {word : Text} (solid : ∀ c ∈ word, ¬ isspace c) : ' ' ∉ word := by
  have blank : isspace ' ' = true := by decide
  exact fun inside => solid _ inside blank

/-- What the rest of a long name does in a buffer of its own. -/
theorem readLine_rest (name : MachineName) :
    ∃ extra : List Add, (∀ a ∈ extra, a.1 = "mrbig".toList ∧ a.2 = name.text.drop 991) ∧
      extra.length ≤ 1 ∧ ∀ (nested : World → Text → Text → Option World) (w : World),
        readLine World.recvCfg nested w "mrbig".toList (name.text.drop 991 ++ ['\n']) =
          some (World.addAll w extra, sectionBehind name.text) := by
  have solid : ∀ c ∈ name.text.drop 991, ¬ isspace c := fun c inside =>
    name.word.2 c (List.mem_of_mem_drop inside)
  have plain : Plain (name.text.drop 991) :=
    plain_of_solid solid fun inside => name.noNul (List.mem_of_mem_drop inside)
  have chomped := (chomp_plain plain).1
  have short : (name.text.drop 992).length ≤ 99 := by
    have fits := name.fits
    rw [List.length_drop]
    omega
  have noDirective := no_directive (Or.inr (noBlank_of_solid solid))
  by_cases header : (name.text.drop 991).head? = some '['
  · have tail : (name.text.drop 991).tail = name.text.drop 992 := List.tail_drop
    have whole : strlcpy (name.text.drop 992) 100 = name.text.drop 992 :=
      List.take_of_length_le short
    refine ⟨[], by simp, by simp, fun nested w => ?_⟩
    unfold readLine sectionBehind
    rw [chomped, if_pos header, if_pos header, tail, whole, World.addAll_nil]
    rfl
  have same : sectionBehind name.text = "mrbig".toList := if_neg header
  by_cases skipped : name.text.drop 991 = [] ∨ (name.text.drop 991).head? = some '#'
  · refine ⟨[], by simp, by simp, fun nested w => ?_⟩
    unfold readLine
    rw [chomped, if_neg header, if_neg (noDirective _ (by simp)),
      if_neg (noDirective _ (by simp)), if_neg (noDirective _ (by simp)),
      if_neg (by simpa [not_and_or, or_iff_not_imp_left] using skipped), same,
      World.addAll_nil]
    rfl
  · obtain ⟨nonempty, noComment⟩ := not_or.mp skipped
    refine ⟨[("mrbig".toList, name.text.drop 991)], by simp, by simp, fun nested w => ?_⟩
    rw [readLine_ordinary w chomped nonempty ⟨header, noComment⟩ noDirective, same,
      ← World.addAll_add, World.addAll_nil]

theorem readLines_machine (name : MachineName) :
    ∃ extra : List Add, (∀ a ∈ extra, a.1 = "mrbig".toList ∧ a.2 = name.text.drop 991) ∧
      extra.length ≤ 1 ∧
      ∀ (nested : World → Text → Text → Option World) (w : World) (rest : List Text),
        readLines World.recvCfg nested w "mrbig".toList (machineBuffers name ++ rest) =
          readLines World.recvCfg nested
            (World.addAll w (("mrbig".toList, (machineLine name).take 999) :: extra))
            (sectionBehind name.text) rest := by
  have fits := machineLine_length name
  have plain := machineLine_plain name
  have first : ∀ nested w b line, chomp b = line → line = (machineLine name).take 999 →
      readLine World.recvCfg nested w "mrbig".toList b =
        some (w.add "mrbig".toList ((machineLine name).take 999), "mrbig".toList) := by
    intro nested w b line chomped same
    have start : ((machineLine name).take 999).head? = some 'm' := by
      have key : ("machine ".toList).head? = some 'm' := by decide
      unfold machineLine
      rw [List.head?_take, if_neg (by decide), List.head?_append, key, Option.some_or]
    have nonempty : (machineLine name).take 999 ≠ [] := by
      intro empty
      rw [empty] at start
      cases start
    have other : ((machineLine name).take 999).head? ≠ some '.' := by
      rw [start]
      decide
    refine readLine_ordinary w (chomped.trans same) nonempty ?_ (no_directive (Or.inl other))
    rw [start]
    decide
  unfold machineBuffers
  by_cases one : name.text.length < 991
  · have whole : (machineLine name).take 999 = machineLine name :=
      List.take_of_length_le (by omega)
    have same : sectionBehind name.text = "mrbig".toList := by
      unfold sectionBehind
      rw [List.drop_eq_nil_of_le (by omega)]
      rfl
    refine ⟨[], by simp, by simp, fun nested w rest => ?_⟩
    rw [if_pos one, List.singleton_append, readLines,
      first nested w _ _ (chomp_plain plain).1 whole.symm, same, ← World.addAll_add,
      World.addAll_nil]
    rfl
  · obtain ⟨extra, shape, few, second⟩ := readLine_rest name
    have takePlain : Plain ((machineLine name).take 999) :=
      ⟨fun inside => plain.1 (List.mem_of_mem_take inside),
        fun inside => plain.2.1 (List.mem_of_mem_take inside),
        fun inside => plain.2.2 (List.mem_of_mem_take inside)⟩
    refine ⟨extra, shape, few, fun nested w rest => ?_⟩
    rw [if_neg one, List.cons_append, readLines, first nested w _ _ (chomp_plain takePlain).2 rfl,
      ← World.addAll_add]
    dsimp only [Option.bind_eq_bind, Option.bind_some]
    rw [List.singleton_append, readLines, second]
    rfl

/-- The lines of display and port go to whatever section they are read in. -/
theorem readLines_tail {nested : World → Text → Text → Option World} (w : World)
    (category : Text) (display : DisplayName) (port : Int) :
    readLines World.recvCfg nested w category
        [displayLine display ++ ['\n'], portLine port ++ ['\n']] =
      some (World.addAll w [(category, displayLine display), (category, portLine port)]) := by
  have heads : (displayLine display).head? = some 'd' ∧ (portLine port).head? = some 'p' := by
    have keys : ("display ".toList).head? = some 'd' ∧ ("port ".toList).head? = some 'p' := by
      decide
    unfold displayLine portLine
    rw [List.head?_append, List.head?_append, keys.1, keys.2]
    exact ⟨Option.some_or, Option.some_or⟩
  have ordinary : ∀ (w : World) (line : Text) (c : Char), line.head? = some c → c ≠ '.' → c ≠ '[' →
      c ≠ '#' → Plain line →
      readLine World.recvCfg nested w category (line ++ ['\n']) =
        some (w.add category line, category) := by
    intro w line c head noDot noHeader noComment plain
    have nonempty : line ≠ [] := by
      rintro rfl
      cases head
    refine readLine_ordinary w (chomp_plain plain).1 nonempty ?_ (no_directive (Or.inl ?_))
    · rw [head]
      simp [noHeader, noComment]
    · rw [head]
      simpa using noDot
  have first := ordinary w _ 'd' heads.1 (by decide) (by decide) (by decide)
    (displayLine_plain display)
  have second := ordinary (w.add category (displayLine display)) _ 'p' heads.2 (by decide)
    (by decide) (by decide) (portLine_plain port)
  rw [readLines, first]
  dsimp only [Option.bind_eq_bind, Option.bind_some]
  rw [readLines, second]
  dsimp only [Option.bind_eq_bind, Option.bind_some]
  rw [readLines, ← World.addAll_add, ← World.addAll_add, World.addAll_nil]
  rfl

/-! ### The directives of the reply -/

theorem keyValue_key {key line value : Text} (text : line = key ++ ' ' :: value)
    (word : IsWord key) (noComment : key.head? ≠ some '#') (nonempty : value ≠ [])
    (solid : ∀ c ∈ value, ¬ isspace c) : keyValue line = some (key, value) := by
  have newline : isspace '\n' = true := by decide
  rw [text]
  exact keyValue_line word noComment nonempty (fun c head => solid c (List.mem_of_mem_head? head))
    fun inside => solid _ inside newline

theorem machineLine_directive (name : MachineName) :
    ∃ value, keyValue (((machineLine name).take 999).take 255) =
      some ("machine".toList, value) := by
  obtain ⟨c, rest, split⟩ := List.exists_cons_of_ne_nil name.word.1
  have key : "machine ".toList = "machine".toList ++ [' '] := by decide
  have size : "machine ".toList.length = 8 := rfl
  have text : ((machineLine name).take 999).take 255 =
      "machine".toList ++ ' ' :: name.text.take 247 := by
    unfold machineLine
    rw [List.take_take, List.take_append, size, List.take_of_length_le (by rw [size]; decide), key,
      List.append_assoc]
    rfl
  refine ⟨_, keyValue_key text (by decide) (by decide) ?_ fun c inside =>
    name.word.2 c (List.mem_of_mem_take inside)⟩
  rw [split]
  simp

theorem displayLine_directive (display : DisplayName) (short : display.text.length < 248) :
    keyValue ((displayLine display).take 255) = some ("display".toList, display.text) := by
  have key : "display ".toList = "display".toList ++ [' '] := by decide
  have size := displayLine_length display
  have text : (displayLine display).take 255 = "display".toList ++ ' ' :: display.text := by
    rw [List.take_of_length_le (by omega)]
    unfold displayLine
    rw [key, List.append_assoc]
    rfl
  exact keyValue_key text (by decide) (by decide) display.word.1 display.word.2

theorem portLine_directive {port : Int} (low : -2147483648 ≤ port) (high : port < 2147483648) :
    keyValue ((portLine port).take 255) = some ("port".toList, printInt port) := by
  have key : "port ".toList = "port".toList ++ [' '] := by decide
  have size := portLine_length port
  have digits := printInt_length low high
  have text : (portLine port).take 255 = "port".toList ++ ' ' :: printInt port := by
    rw [List.take_of_length_le (by omega)]
    unfold portLine
    rw [key, List.append_assoc]
    rfl
  exact keyValue_key text (by decide) (by decide) (printInt_ne_nil port) fun c inside =>
    (printInt_solid port c inside).1

theorem directive_keys (value : Text) :
    directive "machine".toList value = some (.machine (strlcpy value 256)) ∧
      directive "port".toList value = some (.port (atoi value)) ∧
      directive "display".toList value = some (.display value) := by
  have different : "port".toList ≠ "machine".toList ∧ "display".toList ≠ "machine".toList ∧
      "display".toList ≠ "port".toList := by decide
  unfold directive
  refine ⟨if_pos rfl, ?_, ?_⟩
  · rw [if_neg different.1, if_pos rfl]
  · rw [if_neg different.2.1, if_neg different.2.2, if_pos rfl]

/-- The section after the reply: a line about the machine, perhaps the rest of its name, and
display and port if they are still in it. -/
def replyLines (name : MachineName) (display : DisplayName) (port : Int) (extra : List Add) :
    List Text :=
  (machineLine name).take 999 :: extra.map Prod.snd ++
    if sectionBehind name.text = "mrbig".toList then [displayLine display, portLine port] else []

/-- The calls of `add_cfg` for the reply. -/
def replyAdds (name : MachineName) (display : DisplayName) (port : Int) (extra : List Add) :
    List Add :=
  ("mrbig".toList, (machineLine name).take 999) :: extra ++
    [(sectionBehind name.text, displayLine display), (sectionBehind name.text, portLine port)]

section Reply

variable {name : MachineName} {display : DisplayName} {port : Int} {extra : List Add}
variable (short : display.text.length < 248) (low : -2147483648 ≤ port) (high : port < 2147483648)
variable (shape : ∀ a ∈ extra, a.1 = "mrbig".toList ∧ a.2 = name.text.drop 991)
variable (few : extra.length ≤ 1)

include shape in
theorem linesOf_replyAdds :
    linesOf "mrbig".toList (replyAdds name display port extra) =
      replyLines name display port extra := by
  have mine : extra.filter (fun a => a.1 = "mrbig".toList) = extra := by
    rw [List.filter_eq_self]
    intro a member
    exact decide_eq_true (shape a member).1
  have keeps (category line : Text) (rest : List Add) (same : category = "mrbig".toList) :
      ((category, line) :: rest).filter (fun a => a.1 = "mrbig".toList) =
        (category, line) :: rest.filter (fun a => a.1 = "mrbig".toList) :=
    List.filter_cons_of_pos (decide_eq_true same)
  have drops (category line : Text) (rest : List Add) (other : category ≠ "mrbig".toList) :
      ((category, line) :: rest).filter (fun a => a.1 = "mrbig".toList) =
        rest.filter (fun a => a.1 = "mrbig".toList) :=
    List.filter_cons_of_neg fun found => other (of_decide_eq_true found)
  unfold linesOf replyAdds replyLines
  rw [List.filter_append, keeps _ _ _ rfl, mine, List.map_append, List.map_cons]
  by_cases same : sectionBehind name.text = "mrbig".toList
  · rw [if_pos same, keeps _ _ _ same, keeps _ _ _ same]
    rfl
  · rw [if_neg same, drops _ _ _ same, drops _ _ _ same]
    rfl

include short low high shape in
theorem replyLines_plain : ∀ line ∈ replyLines name display port extra,
    '\n' ∉ line ∧ line.length ≤ 1000 := by
  have digits := printInt_length low high
  have displaySize := displayLine_length display
  have portSize := portLine_length port
  intro line member
  rcases List.mem_append.mp member with first | last
  · rcases List.mem_cons.mp first with rfl | rest
    · constructor
      · exact fun inside => (machineLine_plain name).1 (List.mem_of_mem_take inside)
      · exact Nat.le_trans (List.length_take_le 999 _) (by decide)
    · obtain ⟨a, inExtra, rfl⟩ := List.mem_map.mp rest
      have fits := name.fits
      rw [(shape a inExtra).2]
      constructor
      · exact (plain_of_solid (fun c inside => name.word.2 c (List.mem_of_mem_drop inside))
          fun inside => name.noNul (List.mem_of_mem_drop inside)).1
      · rw [List.length_drop]
        omega
  · split at last
    · rcases List.mem_cons.mp last with rfl | last
      · exact ⟨(displayLine_plain display).1, by omega⟩
      · obtain rfl := List.mem_singleton.mp last
        exact ⟨(portLine_plain port).1, by omega⟩
    · cases last

include short low high shape few in
theorem sectionLines_reply {conf : List Config} (fresh : sectionText conf "mrbig".toList = []) :
    sectionLines (Source.addAll conf (replyAdds name display port extra)) "mrbig".toList 256 =
      (replyLines name display port extra).map (List.take 255) := by
  have plain := replyLines_plain short low high shape
  have count : (replyLines name display port extra).length ≤ 4 := by
    unfold replyLines
    rw [List.length_append, List.length_cons, List.length_map]
    split <;> simp <;> omega
  have size : (Delimited.frame '\n' (replyLines name display port extra)).length ≤ _ :=
    Delimited.frame_length_le fun line member => (plain line member).2
  have text := sectionText_addAll fresh (replyAdds name display port extra)
  rw [linesOf_replyAdds shape, List.take_of_length_le (by unfold cfgMax; omega)] at text
  exact sectionLines_frame text (fun line member => (plain line member).1) 256

/-- What `readcfg` does with a line. -/
def lineDirective (b : Text) : Option Directive := do
  let (key, value) ← keyValue b
  directive key value

theorem lineDirective_of_keyValue {b key value : Text} (found : keyValue b = some (key, value)) :
    lineDirective b = directive key value := by
  rw [lineDirective, found]
  rfl

include shape in
theorem lineDirective_rest : ((extra.map Prod.snd).map (List.take 255)).filterMap lineDirective =
    [] := by
  rw [List.filterMap_eq_nil_iff]
  intro b member
  obtain ⟨line, inLines, rfl⟩ := List.mem_map.mp member
  obtain ⟨a, inExtra, rfl⟩ := List.mem_map.mp inLines
  have solid : ∀ c ∈ a.2.take 255, ¬ isspace c := by
    intro c inside
    have inRest := List.mem_of_mem_take inside
    rw [(shape a inExtra).2] at inRest
    exact name.word.2 c (List.mem_of_mem_drop inRest)
  rw [lineDirective, keyValue_word solid]
  rfl

include short low high shape few in
/-- The display of the reply has the default port, if the section keeps it at all. -/
theorem mrdisplay_reply {conf : List Config} (fresh : sectionText conf "mrbig".toList = [])
    (opens : Text → Bool) (s : Settings) :
    (readcfg opens (Source.addAll conf (replyAdds name display port extra)) s).mrdisplay =
      if sectionBehind name.text = "mrbig".toList then [⟨1984, display.text⟩] else [] := by
  obtain ⟨value, machine⟩ := machineLine_directive name
  have first := (lineDirective_of_keyValue machine).trans (directive_keys value).1
  have second := (lineDirective_of_keyValue (displayLine_directive display short)).trans
    (directive_keys display.text).2.2
  have third := (lineDirective_of_keyValue (portLine_directive low high)).trans
    (directive_keys (printInt port)).2.1
  have address : displayAddress 1984 display.text = ⟨1984, display.text⟩ := by
    unfold displayAddress
    rw [Delimited.cut_of_notMem display.noPort]
    rfl
  have asked : directives (Source.addAll conf (replyAdds name display port extra)) =
      ((replyLines name display port extra).map (List.take 255)).filterMap lineDirective := by
    rw [← sectionLines_reply short low high shape few fresh]
    rfl
  rw [readcfg_mrdisplay, asked, replyLines, List.map_append, List.map_cons, List.filterMap_append,
    List.filterMap_cons_some first, lineDirective_rest shape]
  by_cases same : sectionBehind name.text = "mrbig".toList
  · rw [if_pos same, if_pos same, List.map_cons, List.map_cons, List.map_nil,
      List.filterMap_cons_some second, List.filterMap_cons_some third, List.filterMap_nil]
    simp only [List.cons_append, List.nil_append, displaysRead, address, List.reverse_singleton]
  · rw [if_neg same, if_neg same]
    rfl

end Reply

/-! ### Server and client -/

theorem readCfg_reply (name : MachineName) {display : DisplayName} {port : Int}
    (short : display.text.length < 248) (low : -2147483648 ≤ port) (high : port < 2147483648)
    {w : World} {f : Text} (there : w.files.read f = some (reply name display port)) :
    ∃ extra : List Add, (∀ a ∈ extra, a.1 = "mrbig".toList ∧ a.2 = name.text.drop 991) ∧
      extra.length ≤ 1 ∧ ∀ depth, readCfg (depth + 1) w "mrbig".toList f =
        some (World.addAll w (replyAdds name display port extra)) := by
  have category : "mrbig".toList.length < 100 := by decide
  obtain ⟨extra, shape, few, first⟩ := readLines_machine name
  refine ⟨extra, shape, few, fun depth => ?_⟩
  rw [readCfg_succ depth there category, reply_buffers name short low high, first, readLines_tail,
    World.addAll_append]
  rfl

/-- What minicfg sends is what the agent uses exactly for the default port, and a display line
without a port gets the port of its section exactly if that port is in force at the line. -/
theorem reply_port_iff (name : MachineName) (display : DisplayName) {port : Int}
    (low : -2147483648 ≤ port) (high : port < 2147483648) {w : World} {f : Text}
    (fresh : sectionText w.conf "mrbig".toList = [])
    (there : w.files.read f = some (reply name display port)) (opens : Text → Bool)
    (s : Settings) :
    ((∀ depth w', readCfg depth w "mrbig".toList f = some w' →
        ((readcfg opens w'.conf s).mrdisplay = [⟨htons port, display.text⟩] ↔
          htons port = 1984 ∧ display.text.length < 248 ∧
            sectionBehind name.text = "mrbig".toList)) ∧
      (display.text.length < 248 → ∃ w', ∀ depth, readCfg (depth + 1) w "mrbig".toList f =
        some w')) ∧
    ∀ conf : List Config,
      ((readcfg opens conf s).mrdisplay =
          displaysWith (sectionPort (directives conf)) (directives conf) ↔
        ∀ before value after, directives conf = before ++ .display value :: after →
          ':' ∉ value → htons (sectionPort before) = htons (sectionPort (directives conf))) := by
  refine ⟨⟨fun depth w' read => ?_, fun short => ?_⟩, fun conf => ?_⟩
  · by_cases short : display.text.length < 248
    · obtain ⟨extra, shape, few, run⟩ := readCfg_reply name short low high there
      cases depth with
      | zero => cases read
      | succ depth =>
        obtain rfl := Option.some.inj ((run depth).symm.trans read)
        have shown := mrdisplay_reply short low high shape few fresh opens s
        change (readcfg opens (Source.addAll w.conf (replyAdds name display port extra))
          s).mrdisplay = _ ↔ _
        rw [shown]
        by_cases same : sectionBehind name.text = "mrbig".toList
        · rw [if_pos same]
          simp [short, same, eq_comm]
        · rw [if_neg same]
          exact iff_of_false (by simp) fun condition => same condition.2.2
    · constructor
      · intro only
        have fits := readcfg_display_short opens w'.conf s ⟨htons port, display.text⟩
          (by simp [only])
        exact absurd fits short
      · intro condition
        exact absurd condition.2.1 short
  · obtain ⟨extra, -, -, run⟩ := readCfg_reply name short low high there
    exact ⟨_, run⟩
  · rw [readcfg_mrdisplay]
    exact displaysRead_eq_iff _ _ _

def clientName : MachineName :=
  ⟨"client".toList, by decide, by decide, by decide⟩

def loopback : DisplayName :=
  ⟨"127.0.0.1".toList, by decide, by decide, by decide⟩

/-- A client that has received a reply. -/
def received (port : Int) : World :=
  ⟨[⟨cacheName, reply clientName loopback port⟩], [], [], [], fun _ => noNetwork⟩

theorem received_there (port : Int) :
    (received port).files.read cacheName = some (reply clientName loopback port) := by
  simp [received, FileSys.read, KeyedList.find]

theorem reply_port_iff_default :
    ((∀ depth w', readCfg depth (received 1984) "mrbig".toList cacheName = some w' →
        ((readcfg (fun _ => false) w'.conf startup).mrdisplay =
            [⟨htons 1984, loopback.text⟩] ↔
          htons 1984 = 1984 ∧ loopback.text.length < 248 ∧
            sectionBehind clientName.text = "mrbig".toList)) ∧
      (loopback.text.length < 248 → ∃ w', ∀ depth,
        readCfg (depth + 1) (received 1984) "mrbig".toList cacheName = some w')) ∧
    ∀ conf : List Config,
      ((readcfg (fun _ => false) conf startup).mrdisplay =
          displaysWith (sectionPort (directives conf)) (directives conf) ↔
        ∀ before value after, directives conf = before ++ .display value :: after →
          ':' ∉ value → htons (sectionPort before) = htons (sectionPort (directives conf))) :=
  reply_port_iff clientName loopback (by decide) (by decide) rfl (received_there 1984)
    (fun _ => false) startup

/-- A server compiled with port 1985. -/
theorem reply_port_1985 :
    ∃ w', readCfg 1 (received 1985) "mrbig".toList cacheName = some w' ∧
      (readcfg (fun _ => false) w'.conf startup).mrdisplay ≠ [⟨htons 1985, loopback.text⟩] ∧
      (readcfg (fun _ => false) w'.conf startup).mrdisplay = [⟨1984, loopback.text⟩] := by
  have short : loopback.text.length < 248 := by decide
  have low : -2147483648 ≤ (1985 : Int) := by decide
  have high : (1985 : Int) < 2147483648 := by decide
  have same : sectionBehind clientName.text = "mrbig".toList := by decide
  obtain ⟨extra, shape, few, run⟩ := readCfg_reply clientName short low high (received_there 1985)
  have fresh : sectionText (received 1985).conf "mrbig".toList = [] := rfl
  have shown := mrdisplay_reply short low high shape few fresh (fun _ => false) startup
  rw [if_pos same] at shown
  refine ⟨_, run 0, ?_, shown⟩
  intro agreed
  have ports : [(⟨1984, loopback.text⟩ : DisplayAddress)] = [⟨htons 1985, loopback.text⟩] :=
    shown.symm.trans agreed
  revert ports
  decide

end MrBig.Guarantees.ReplyPort
