import Mathlib.Data.List.Infix
import Mathlib.Order.Lattice
import MrBig.Library.Run
import MrBig.Library.Word
import MrBig.Source.Settings
import MrBig.Source.Status

/-!
# The message page: `match_rules`, `read_msgcfg` and `msgs`

msgs.c. The action of a rule is a color or, for `ignore`, no pointer. The words that
`sscanf` puts into `action` and `test` are texts of any length here; what `read_msgcfg`
stores and where is its output.
-/

set_option autoImplicit false

namespace MrBig.Source
open Library

def rulesMax : Nat := 1000

/-- The colors of rules and pages, from the best to the worst. -/
inductive Color where
  | green
  | yellow
  | red
  deriving DecidableEq, Repr

def Color.text : Color → Text
  | .green => "green".toList
  | .yellow => "yellow".toList
  | .red => "red".toList

def Color.rank : Color → Nat
  | .green => 0
  | .yellow => 1
  | .red => 2

theorem Color.rank_injective : Function.Injective Color.rank := by
  intro c c' same
  cases c <;> cases c' <;> first | rfl | cases same

instance : LinearOrder Color := LinearOrder.lift' Color.rank Color.rank_injective

/-- TEST_TYPE, TEST_SOURCE, TEST_MESSAGE, TEST_ID and TEST_LOG. -/
inductive RuleTest where
  | type
  | source
  | message
  | id
  | log
  deriving DecidableEq, Repr

/-- struct rules; no action is the null pointer of `ignore`. -/
structure Rule where
  action : Option Color
  test : RuleTest
  value : Text
  deriving DecidableEq, Repr

/-- The part of struct event that rules and the page read. -/
structure Event where
  gtime : Int
  id : Int
  type : Int
  source : Text
  message : Text
  deriving DecidableEq, Repr

/-- EVENTLOG_ERROR_TYPE, EVENTLOG_WARNING_TYPE, EVENTLOG_INFORMATION_TYPE,
EVENTLOG_AUDIT_SUCCESS and EVENTLOG_AUDIT_FAILURE of winnt.h. -/
def eventlogErrorType : Int := 0x0001
def eventlogWarningType : Int := 0x0002
def eventlogInformationType : Int := 0x0004
def eventlogAuditSuccess : Int := 0x0008
def eventlogAuditFailure : Int := 0x0010

/-- `sprintf(id, "%ld", (long)e->id)`; a long has 32 bits on Windows. -/
def printId (id : Int) : Text := (toString (Word.signed 32 id)).toList

/-- The tests of `match_rules` on one rule. -/
def Rule.Matches (r : Rule) (e : Event) (log : Text) : Prop :=
  match r.test with
  | .type =>
    (e.type = eventlogErrorType ∧ r.value = "error".toList) ∨
      (e.type = eventlogWarningType ∧ r.value = "warning".toList) ∨
      (e.type = eventlogInformationType ∧ r.value = "information".toList) ∨
      (e.type = eventlogAuditFailure ∧ r.value = "audit_failure".toList) ∨
      (e.type = eventlogAuditSuccess ∧ r.value = "audit_success".toList)
  | .source => e.source = r.value
  | .message => r.value <:+: e.message
  | .id => printId e.id = r.value
  | .log => log = r.value

instance (r : Rule) (e : Event) (log : Text) : Decidable (r.Matches e log) := by
  unfold Rule.Matches
  cases r.test <;> infer_instance

/-- The first rule that matches ends the search, with whatever action it has. -/
def matchRules : List Rule → Event → Text → Option Color
  | [], _, _ => none
  | r :: rules, e, log => if r.Matches e log then r.action else matchRules rules e log

/-! ### `read_msgcfg` -/

/-- A text stored in an array of the given size. -/
structure Store where
  size : Nat
  text : Text
  deriving DecidableEq, Repr

/-- The text and its NUL stay in the array. -/
def Store.Fits (s : Store) : Prop := s.text.length < s.size

instance (s : Store) : Decidable s.Fits := inferInstanceAs (Decidable (_ < _))

/-- `%[^\r\n]` of `sscanf`, behind a blank in the format. -/
def scanRest (s : Text) : Option Text :=
  match (s.dropWhile isspace).takeWhile fun c => c ≠ '\r' ∧ c ≠ '\n' with
  | [] => none
  | rest => some rest

/-- `sscanf(b, "%s %s %[^\r\n]", action, test, value)` -/
def scanRule (b : Text) : Option Text × Option Text × Option Text := scanTwoWords scanRest b

def ruleAction (action : Text) : Option (Option Color) :=
  if action = "green".toList then some (some .green)
  else if action = "yellow".toList then some (some .yellow)
  else if action = "red".toList then some (some .red)
  else if action = "ignore".toList then some none
  else none

def ruleTest (test : Text) : Option RuleTest :=
  if test = "type".toList then some .type
  else if test = "source".toList then some .source
  else if test = "message".toList then some .message
  else if test = "id".toList then some .id
  else if test = "log".toList then some .log
  else none

/-- The rule on a line, if the line is well formed. -/
def lineRule (b : Text) : Option Rule :=
  if b.head? = some '#' then none
  else
    match scanRule b with
    | (some action, some test, some value) => do
      let action ← ruleAction action
      let test ← ruleTest test
      pure ⟨action, test, value⟩
    | _ => none

/-- What `sscanf` stores of a line: `action[100]`, `test[100]` and `value[1000]`. -/
def lineStores (b : Text) : List Store :=
  if b.head? = some '#' then []
  else
    let (action, test, value) := scanRule b
    (action.map (Store.mk 100)).toList ++ (test.map (Store.mk 100)).toList ++
      (value.map (Store.mk 1000)).toList

/-- The body of the loop; once the table is full, no line is looked at any more. -/
def readMsgcfgLine (rules : List Rule) (b : Text) : List Rule × List Store :=
  if rules.length < rulesMax then (rules ++ (lineRule b).toList, lineStores b)
  else (rules, [])

def msgsLines (conf : List Config) : List Text := sectionLines conf "msgs".toList 1000

def readMsgcfg (conf : List Config) : List Rule :=
  Run.final readMsgcfgLine [] (msgsLines conf)

/-- Everything the loop stores in its buffers. -/
def readMsgcfgStores (conf : List Config) : List Store :=
  (Run.outputs readMsgcfgLine [] (msgsLines conf)).flatten

/-! ### `msgs` -/

/-- A subkey of the EventLog key: its name, and what `read_log` returns for it. -/
structure LogKey where
  achKey : Text
  readLog : Int → Bool → List Event

/-- What `msgs` finds: the settings, the clock and the files, and the subkeys in the order
of `RegEnumKeyEx`, `none` where that fails. -/
structure MsgsInput where
  options : List Text
  mrmachine : Text
  msgage : Int
  now : Text
  t0 : Int
  fastfile : Bool
  ctime : Int → Text
  keys : List (Option LogKey)

/-- What follows `fastmsgs=` in the option, or `auto`. -/
def MsgsInput.fastmsgsMode (input : MsgsInput) : Text :=
  ((getOption input.options "fastmsgs=".toList true).getD "fastmsgs=auto".toList).drop 9

/-- The last argument of `read_log`; the file is looked for in the automatic mode only. -/
def MsgsInput.fast (input : MsgsInput) : Bool :=
  input.fastmsgsMode == "on".toList ||
    (input.fastmsgsMode == "auto".toList && input.fastfile)

/-- `t0-msgage` as the int parameter of `read_log` holds it. -/
def MsgsInput.maxage (input : MsgsInput) : Int := Word.signed 32 (input.t0 - input.msgage)

def sanitizeMessage (p : Text) : Text := p.map fun c => if c = '<' ∨ c = '&' then '_' else c

/-- The color so far and the text in `p`. -/
abbrev MsgsPage := Color × Text

def worse (color mycolor : Color) : Color :=
  if color = .green ∨ mycolor = .red then mycolor else color

/-- The body of the loop over the events of a log. -/
def msgsEvent (ctime : Int → Text) (rules : List Rule) (page : MsgsPage) (entry : Text × Event) :
    MsgsPage :=
  match matchRules rules entry.2 entry.1 with
  | none => page
  | some mycolor =>
    (worse page.1 mycolor,
      snprcat page.2 5000 ("&".toList ++ mycolor.text ++ " ".toList ++ entry.1 ++ " - ".toList ++
        entry.2.source ++ " - ".toList ++ ctime entry.2.gtime ++
        sanitizeMessage entry.2.message ++ "\n".toList))

/-- The events of a subkey with the name of the log. -/
def MsgsInput.logEntries (input : MsgsInput) : Option LogKey → List (Text × Event)
  | none => []
  | some log =>
    if log.achKey = "Directory Service".toList then []
    else (log.readLog input.maxage input.fast).map fun e => (log.achKey, e)

/-- All events that reach `match_rules`, in order. -/
def MsgsInput.entries (input : MsgsInput) : List (Text × Event) :=
  input.keys.flatMap input.logEntries

/-- `msgs` once `read_cfg` has read msgs.cfg into the configuration: what it hands to
`mrsend`. -/
def msgs (input : MsgsInput) (conf : List Config) : Report :=
  if getOption input.options "no_msgs".toList false ≠ none then
    { machine := input.mrmachine, test := "msgs".toList, color := "clear".toList,
      message := "option no_msgs\n".toList }
  else
    let page : MsgsPage :=
      input.entries.foldl (msgsEvent input.ctime (readMsgcfg conf)) (.green, [])
    { machine := input.mrmachine, test := "msgs".toList, color := page.1.text,
      message := snprcat [] 4999 (input.now ++ "\n\n".toList ++ page.2 ++ "\n".toList) }

/-! ### What the rules are -/

theorem readMsgcfgLine_rules (rules : List Rule) (lines : List Text) :
    Run.final readMsgcfgLine rules lines =
      rules ++ (lines.filterMap lineRule).take (rulesMax - rules.length) := by
  induction lines generalizing rules with
  | nil => simp
  | cons b lines ih =>
    rw [Run.final_cons, ih]
    unfold readMsgcfgLine
    split
    next room =>
      cases found : lineRule b with
      | none => simp [found]
      | some r =>
        have left : rulesMax - rules.length = rulesMax - (rules.length + 1) + 1 := by omega
        simp [found, left]
    next full =>
      have none_left : rulesMax - rules.length = 0 := by omega
      simp [none_left]

/-- The rules are the first well-formed lines of the section. -/
theorem readMsgcfg_eq (conf : List Config) :
    readMsgcfg conf = ((msgsLines conf).filterMap lineRule).take rulesMax := by
  rw [readMsgcfg, readMsgcfgLine_rules]
  simp

@[simp] theorem worse_eq_max (color mycolor : Color) : worse color mycolor = max color mycolor := by
  cases color <;> cases mycolor <;> decide

end MrBig.Source
