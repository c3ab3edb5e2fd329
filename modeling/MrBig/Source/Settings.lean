import MrBig.Source.ConfigStore
import MrBig.Source.Scanf
import MrBig.Source.Tables

/-!
# The global settings and `readcfg`

mrbig.c:10-36 and 459-571. A display's address is the text given to `inet_addr`, its
port is in host byte order, and an open log file is the name it was opened under.
-/

set_option autoImplicit false

namespace MrBig.Source

/-- The configured part of struct display. -/
structure DisplayAddress where
  sinPort : Nat
  sinAddr : Text
  deriving DecidableEq, Repr

/-- The globals that `readcfg` writes. -/
structure Settings where
  mrmachine : Text
  mrport : Int
  mrdisplay : List DisplayAddress
  gracetime : List GraceTime
  options : List Text
  mrsleep : Int
  mrloop : Int
  bootyellow : Int
  bootred : Int
  dfyellow : Float
  dfred : Float
  cpuyellow : Int
  cpured : Int
  memyellow : Int
  memred : Int
  msgage : Int
  memsize : Int
  pickupdir : Text
  logfp : Option Text
  cfgdir : Text
  reportSize : Int
  debug : Int

/-- The globals when the program starts. -/
def startup : Settings where
  mrmachine := []
  mrport := 0
  mrdisplay := []
  gracetime := []
  options := []
  mrsleep := 0
  mrloop := 0
  bootyellow := 0
  bootred := 0
  dfyellow := 0
  dfred := 0
  cpuyellow := 0
  cpured := 0
  memyellow := 0
  memred := 0
  msgage := 0
  memsize := 4
  pickupdir := []
  logfp := none
  cfgdir := []
  reportSize := 16384
  debug := 0

/-- Set all defaults. -/
def setDefaults (s : Settings) : Settings :=
  { s with
    mrmachine := "localhost".toList
    mrport := 1984
    mrdisplay := []
    gracetime := []
    options := []
    mrsleep := 300
    mrloop := 2147483647
    bootyellow := 60
    bootred := 30
    dfyellow := 90
    dfred := 95
    cpuyellow := 80
    cpured := 90
    memyellow := 100
    memred := 100
    msgage := 3600
    memsize := 4
    pickupdir := []
    logfp := none }

/-- The lines `get_cfg` returns from a section into a buffer of `n` bytes. -/
def cfgLines (conf : List Config) (name : Text) (n : Nat) : Nat → Nat → List Text
  | 0, _ => []
  | fuel + 1, i =>
    match getCfg conf name n i with
    | (0, _) => []
    | (_, b) => b.getD [] :: cfgLines conf name n fuel (i + 1)

/-- The length of the text is fuel enough for all the lines in it (`sectionLines_complete`). -/
def sectionLines (conf : List Config) (name : Text) (n : Nat) : List Text :=
  cfgLines conf name n (sectionText conf name).length 0

/-- The key and the value of a line that is not a comment and has both. -/
def keyValue (b : Text) : Option (Text × Text) :=
  if b.head? = some '#' then none
  else do
    let (key, rest) ← scanWord b
    let value ← scanLine rest
    pure (key, value)

/-- The directives, with their values as they are stored. -/
inductive Directive where
  | machine (name : Text)
  | port (n : Int)
  | display (value : Text)
  | sleep (n : Int)
  | loop (n : Int)
  | bootyellow (n : Int)
  | bootred (n : Int)
  | debug (n : Int)
  | cpuyellow (n : Int)
  | cpured (n : Int)
  | dfyellow (x : Float)
  | dfred (x : Float)
  | memyellow (n : Int)
  | memred (n : Int)
  | cfgdir (name : Text)
  | msgage (n : Int)
  | pickupdir (name : Text)
  | logfile (name : Text)
  | gracetime (test : Text) (grace : Int)
  | reportSize (n : Int)
  | option (name : Text)
  | memsize (n : Int)

section
variable [CLibrary]

/-- `sscanf(value, "%s %d", test, &grace)`; `grace` is zero before. -/
def graceDirective (value : Text) : Directive :=
  match scanWord value with
  | some (test, rest) => .gracetime test (atoi rest)
  | none => .gracetime [] 0

/-- The comparisons of the key, in order; `set` does nothing. -/
def directive (key value : Text) : Option Directive :=
  if key = "machine".toList then some (.machine (strlcpy value 256))
  else if key = "port".toList then some (.port (atoi value))
  else if key = "display".toList then some (.display value)
  else if key = "sleep".toList then some (.sleep (atoi value))
  else if key = "loop".toList then some (.loop (atoi value))
  else if key = "bootyellow".toList then some (.bootyellow (atoi value))
  else if key = "bootred".toList then some (.bootred (atoi value))
  else if key = "debug".toList then some (.debug (atoi value))
  else if key = "cpuyellow".toList then some (.cpuyellow (atoi value))
  else if key = "cpured".toList then some (.cpured (atoi value))
  else if key = "dfyellow".toList then some (.dfyellow (atof value))
  else if key = "dfred".toList then some (.dfred (atof value))
  else if key = "memyellow".toList then some (.memyellow (atof value).toInt32.toInt)
  else if key = "memred".toList then some (.memred (atof value).toInt32.toInt)
  else if key = "cfgdir".toList then some (.cfgdir (strlcpy value 256))
  else if key = "msgage".toList then some (.msgage (atoi value))
  else if key = "pickupdir".toList then some (.pickupdir (strlcpy value 256))
  else if key = "logfile".toList then some (.logfile value)
  else if key = "gracetime".toList then some (graceDirective value)
  else if key = "report_size".toList then some (.reportSize (atoi value))
  else if key = "option".toList then some (.option value)
  else if key = "memsize".toList then some (.memsize (atoi value))
  else none

/-- The directives `readcfg` finds in the stored configuration. -/
def directives (conf : List Config) : List Directive :=
  (sectionLines conf "mrbig".toList 256).filterMap fun b => do
    let (key, value) ← keyValue b
    directive key value

def htons (port : Int) : Nat := (port % 65536).toNat

/-- A display with a port of its own or the port read so far. -/
def displayAddress (mrport : Int) (value : Text) : DisplayAddress :=
  match Library.Delimited.cut ':' value with
  | some (addr, port) => { sinPort := htons (atoi port), sinAddr := addr }
  | none => { sinPort := htons mrport, sinAddr := value }

/-- What a directive does. `opens` says which files can be opened for appending. -/
def applyDirective (opens : Text → Bool) (s : Settings) : Directive → Settings
  | .machine name => { s with mrmachine := name }
  | .port n => { s with mrport := n }
  | .display value => { s with mrdisplay := displayAddress s.mrport value :: s.mrdisplay }
  | .sleep n => { s with mrsleep := n }
  | .loop n => { s with mrloop := n }
  | .bootyellow n => { s with bootyellow := n }
  | .bootred n => { s with bootred := n }
  | .debug n => { s with debug := n }
  | .cpuyellow n => { s with cpuyellow := n }
  | .cpured n => { s with cpured := n }
  | .dfyellow x => { s with dfyellow := x }
  | .dfred x => { s with dfred := x }
  | .memyellow n => { s with memyellow := n }
  | .memred n => { s with memred := n }
  | .cfgdir name => { s with cfgdir := name }
  | .msgage n => { s with msgage := n }
  | .pickupdir name => { s with pickupdir := name }
  | .logfile name => { s with logfp := if opens name then some name else none }
  | .gracetime test grace => { s with gracetime := insertGrace s.gracetime test grace }
  | .reportSize n => { s with reportSize := n }
  | .option name => { s with options := insertOption s.options name }
  | .memsize n => { s with memsize := n }

/-- What `readcfg` does behind its loop. -/
def finishCfg (s : Settings) : Settings :=
  { s with
    mrmachine := s.mrmachine.map fun c => if c = '.' then ',' else c
    mrloop := if s.mrloop > s.mrsleep then s.mrsleep else s.mrloop }

def readcfg (opens : Text → Bool) (conf : List Config) (s : Settings) : Settings :=
  finishCfg ((directives conf).foldl (applyDirective opens) (setDefaults s))

end

theorem cfgLines_congr {conf conf' : List Config} {name : Text}
    (same : sectionText conf name = sectionText conf' name) (n fuel i : Nat) :
    cfgLines conf name n fuel i = cfgLines conf' name n fuel i := by
  induction fuel generalizing i with
  | zero => rfl
  | succ fuel ih => rw [cfgLines, cfgLines, getCfg_congr same, ih]

/-- Other sections have no part in the settings. -/
theorem directives_congr [CLibrary] {conf conf' : List Config}
    (same : sectionText conf "mrbig".toList = sectionText conf' "mrbig".toList) :
    directives conf = directives conf' := by
  unfold directives sectionLines
  rw [cfgLines_congr same, same]

theorem cfgLines_short (conf : List Config) (name : Text) {n : Nat} (positive : 0 < n)
    (fuel i : Nat) : ∀ b ∈ cfgLines conf name n fuel i, b.length < n := by
  induction fuel generalizing i with
  | zero => simp [cfgLines]
  | succ fuel ih =>
    unfold cfgLines
    split
    next => simp
    next k b found =>
      refine List.forall_mem_cons.mpr ⟨?_, ih (i + 1)⟩
      rw [getCfg_sectionText] at found
      split at found
      next =>
        cases found
        exact positive
      next p line =>
        split at found
        next long =>
          cases found
          simp only [Option.getD_some, List.length_take]
          omega
        next short =>
          cases found
          simpa using short

/-- The buffer holds every line with its NUL. -/
theorem sectionLines_short (conf : List Config) (name : Text) {n : Nat} (positive : 0 < n) :
    ∀ b ∈ sectionLines conf name n, b.length < n :=
  cfgLines_short conf name positive _ 0

/-- No line has a newline in it. -/
theorem sectionLines_plain (conf : List Config) (name : Text) (n : Nat) :
    ∀ b ∈ sectionLines conf name n, '\n' ∉ b := by
  unfold sectionLines
  generalize (sectionText conf name).length = fuel
  generalize 0 = i
  induction fuel generalizing i with
  | zero => simp [cfgLines]
  | succ fuel ih =>
    unfold cfgLines
    split
    next => simp
    next k b found =>
      refine List.forall_mem_cons.mpr ⟨?_, ih (i + 1)⟩
      rw [getCfg_sectionText] at found
      split at found
      next =>
        cases found
        simp
      next p line =>
        have plain := Library.Delimited.notMem_of_nth line
        split at found
        · cases found
          exact fun inside => plain (List.mem_of_mem_take inside)
        · cases found
          exact plain

theorem cfgLines_complete (conf : List Config) (name : Text) (n : Nat) {fuel i : Nat}
    (enough : (sectionText conf name).length ≤ i + fuel) :
    getCfg conf name n (i + (cfgLines conf name n fuel i).length) = (0, none) := by
  induction fuel generalizing i with
  | zero =>
    rw [cfgLines, List.length_nil, getCfg_sectionText, Library.Delimited.nth_of_length_le enough]
  | succ fuel ih =>
    rw [cfgLines]
    split
    next b finished =>
      rw [List.length_nil, Nat.add_zero, finished, getCfg_zero finished]
    next b more _ =>
      rw [List.length_cons, Nat.add_comm _ 1, ← Nat.add_assoc]
      exact ih (by omega)

/-- `readcfg` sees every line: behind those of `sectionLines`, `get_cfg` returns 0. -/
theorem sectionLines_complete (conf : List Config) (name : Text) (n : Nat) :
    getCfg conf name n (sectionLines conf name n).length = (0, none) := by
  have enough : (sectionText conf name).length ≤ 0 + (sectionText conf name).length :=
    Nat.le_add_left _ 0
  have complete := cfgLines_complete conf name n enough
  rwa [Nat.zero_add] at complete

/-- The lines of a section, each with its newline; what is behind the last one is none. -/
def HasLines (conf : List Config) (name : Text) (lines : List Text) : Prop :=
  ∀ i, Library.Delimited.nth '\n' i (sectionText conf name) = lines[i]?

theorem cfgLines_of_lines {conf : List Config} {name : Text} {lines : List Text}
    (has : HasLines conf name lines) (n fuel i : Nat) (enough : lines.length ≤ i + fuel) :
    cfgLines conf name n fuel i = (lines.drop i).map (List.take (n - 1)) := by
  induction fuel generalizing i with
  | zero => rw [cfgLines, List.drop_eq_nil_of_le (by omega), List.map_nil]
  | succ fuel ih =>
    have found := getCfg_sectionText conf name n i
    rw [has i] at found
    unfold cfgLines
    by_cases inside : i < lines.length
    · rw [List.getElem?_eq_getElem inside] at found
      rw [List.drop_eq_getElem_cons inside, List.map_cons, ← ih (i + 1) (by omega)]
      by_cases long : n ≤ lines[i].length
      · simp [found, long]
      · have whole : lines[i].length ≤ n - 1 := by omega
        simp [found, long, List.take_of_length_le whole]
    · rw [List.getElem?_eq_none (by omega)] at found
      simp [found, List.drop_eq_nil_of_le (Nat.le_of_not_lt inside)]

/-- The lines of a section, each cut to the buffer. -/
theorem sectionLines_of_lines {conf : List Config} {name : Text} {lines : List Text}
    (has : HasLines conf name lines) (n : Nat) :
    sectionLines conf name n = lines.map (List.take (n - 1)) := by
  have longer : lines.length ≤ (sectionText conf name).length := by
    apply List.getElem?_eq_none_iff.mp
    rw [← has, Library.Delimited.nth_of_length_le (Nat.le_refl _)]
  unfold sectionLines
  rw [cfgLines_of_lines has n _ 0 (by rwa [Nat.zero_add]), List.drop_zero]

/-- Lines that fit into the buffer are read whole. -/
theorem sectionLines_whole {conf : List Config} {name : Text} {lines : List Text}
    (has : HasLines conf name lines) {n : Nat} (short : ∀ line ∈ lines, line.length < n) :
    sectionLines conf name n = lines := by
  rw [sectionLines_of_lines has]
  refine List.map_congr_left (fun line member => ?_) |>.trans (List.map_id lines)
  have fits := short line member
  exact List.take_of_length_le (by omega)

theorem sectionLines_frame {conf : List Config} {name : Text} {lines : List Text}
    (text : sectionText conf name = Library.Delimited.frame '\n' lines)
    (plain : ∀ line ∈ lines, '\n' ∉ line) (n : Nat) :
    sectionLines conf name n = lines.map (List.take (n - 1)) := by
  refine sectionLines_of_lines (fun i => ?_) n
  rw [text, Library.Delimited.nth_frame i plain]

end MrBig.Source
