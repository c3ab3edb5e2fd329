import MrBig.Source.Msgs

/-!
# WMI pages: `wmi`

wmi.c. A line comes with what WMI answers to a query while the line is worked on. What a
line stores in the arrays of `wmi`, which entries of `fields[]` it uses and what it hands
to `mrsend` are its output; the texts have any length here.
-/

set_option autoImplicit false

namespace MrBig.Source.Wmi
open Library

variable [CLibrary]

def fieldsMax : Nat := 100

/-- struct fields -/
structure Field where
  field : Text
  op1 : Text
  op2 : Text
  deriving DecidableEq, Repr

inductive Bullet where
  | red
  | green
  | blue
  | clear
  deriving DecidableEq, Repr

def Bullet.text : Bullet → Text
  | .red => "red".toList
  | .green => "green".toList
  | .blue => "blue".toList
  | .clear => "clear".toList

/-- What `color` points at: a literal, or the array `always`. -/
inductive PageColor where
  | green
  | red
  | always
  deriving DecidableEq, Repr

/-- The variables of `wmi`, with the first `nfields` entries of `fields[]`. -/
structure WmiState where
  query : Text
  always : Text
  page : Text
  color : PageColor
  report : Text
  fields : List Field
  deriving DecidableEq, Repr

def wmiStart : WmiState := ⟨[], [], [], .green, [], []⟩

/-- An object of the result: the text of a property, if it has one. -/
abbrev WmiObject := Text → Option Text

/-- A line of the section and the answers of WMI: no objects where a call fails. -/
structure WmiLine where
  b : Text
  execQuery : Text → Option (List WmiObject)

/-- What a line stores, the entries of `fields[]` it uses, and what it sends. -/
structure WmiOutput where
  stores : List Store
  indices : List Nat
  sent : Option Report

def noOutput : WmiOutput := ⟨[], [], none⟩

/-- The comparisons that numbers and texts have in common. -/
def compares (op1 : Text) (order : Ordering) : Bool :=
  (op1 == "=".toList && order == .eq) || (op1 == "<".toList && order == .lt) ||
    (op1 == "<=".toList && order != .gt) || (op1 == ">".toList && order == .gt) ||
    (op1 == ">=".toList && order != .lt)

/-- The condition of a field on a value, a number where `op2` starts with a digit. -/
def satisfied (f : Field) (item : Text) : Bool :=
  if (f.op2.head?.elim false Char.isDigit) then compares f.op1 (compare (atoi item) (atoi f.op2))
  else
    compares f.op1 (strcmp item f.op2) ||
      (f.op1 == "contains".toList && decide (f.op2 <:+: item))

/-- The bullet of a field whose property has the text. -/
def bullet (f : Field) : Option Text → Bullet
  | some szWmiItem =>
    if f.op1 ≠ [] ∧ f.op2 ≠ [] then
      if satisfied f (szWmiItem.take 999) then .green else .red
    else .blue
  | none => if f.op1 ≠ [] then .red else .clear

/-- The body of the loop over the fields of an object. -/
def reportField (object : WmiObject) (s : WmiState) (f : Field) : WmiState :=
  let item := object f.field
  let bullet := bullet f item
  { s with
    color := if bullet = .red then .red else s.color
    report := snprcat s.report 10000 ("&".toList ++ bullet.text ++ " ".toList ++ f.field ++
      ": ".toList ++ item.getD [] ++ "\n".toList) }

def reportObject (s : WmiState) (object : WmiObject) : WmiState :=
  let s := s.fields.foldl (reportField object) s
  { s with report := snprcat s.report 10000 "\n".toList }

/-- The keys, in the order of the comparisons. -/
inductive Keyword where
  | always
  | begins
  | ends
  | field
  | go
  | query
  | text
  deriving DecidableEq, Repr

def keyword (key : Text) : Option Keyword :=
  if key = "always".toList then some .always
  else if key = "begin".toList then some .begins
  else if key = "end".toList then some .ends
  else if key = "field".toList then some .field
  else if key = "go".toList then some .go
  else if key = "query".toList then some .query
  else if key = "text".toList then some .text
  else none

/-- `sscanf(b, "%s %[^\n]", key, value)` on a line that is not a comment; a key without a
value has the empty one. -/
def pageLine (b : Text) : Option (Keyword × Text) :=
  if b.head? = some '#' then none
  else do
    let (key, rest) ← scanWord b
    let key ← keyword key
    pure (key, (scanLine rest).getD [])

/-- `sscanf(value, "%s %s %[^\n]", ...)` into the members of an entry. -/
def scanField (value : Text) : Option Text × Option Text × Option Text :=
  scanTwoWords scanLine value

/-- `field`: the entry is counted if it has a name. -/
def fieldLine (s : WmiState) (value : Text) : WmiState × WmiOutput :=
  let (field, op1, op2) := scanField value
  let output : WmiOutput :=
    { stores := [field, op1, op2].filterMap fun member => member.map (Store.mk 100)
      indices := [s.fields.length]
      sent := none }
  match field with
  | none => (s, output)
  | some field => ({ s with fields := s.fields ++ [⟨field, op1.getD [], op2.getD []⟩] }, output)

/-- `go`: the fields of every object, if there is a query and WMI answers it. -/
def goLine (s : WmiState) (execQuery : Text → Option (List WmiObject)) : WmiState × WmiOutput :=
  if s.query = [] then (s, noOutput)
  else
    match execQuery s.query with
    | none => (s, noOutput)
    | some objects =>
      (objects.foldl reportObject s,
        { noOutput with indices := objects.flatMap fun _ => List.range s.fields.length })

/-- `end`: the page is sent in the color it has or is always to have. -/
def endLine (mrmachine : Text) (s : WmiState) : WmiState × WmiOutput :=
  if s.page = [] then (s, noOutput)
  else
    let s := if s.always ≠ [] then { s with color := .always } else s
    let color := match s.color with
      | .green => "green".toList
      | .red => "red".toList
      | .always => s.always
    (s, { noOutput with sent := some ⟨mrmachine, s.page, color, s.report⟩ })

/-- The body of the loop over the lines. -/
def wmiStep (mrmachine : Text) (s : WmiState) (line : WmiLine) : WmiState × WmiOutput :=
  match pageLine line.b with
  | none => (s, noOutput)
  | some (.always, value) =>
    ({ s with always := value }, { noOutput with stores := [⟨100, value⟩] })
  | some (.begins, value) =>
    ({ s with page := value, always := [], report := [], color := .green },
      { noOutput with stores := [⟨100, value⟩] })
  | some (.ends, _) => endLine mrmachine s
  | some (.field, value) => fieldLine s value
  | some (.go, _) => goLine s line.execQuery
  | some (.query, value) => ({ s with query := value, fields := [] }, noOutput)
  | some (.text, value) =>
    ({ s with report := snprcat s.report 10000 (value ++ "\n".toList) }, noOutput)

/-- The lines of the section, line `i` with the answers at that time. -/
def wmiLines (conf : List Config) (execQuery : Nat → Text → Option (List WmiObject)) :
    List WmiLine :=
  (sectionLines conf "wmi".toList 1000).zipIdx.map fun line => ⟨line.1, execQuery line.2⟩

/-- `wmi`: the outputs of the lines, none with the option `no_wmi`. -/
def wmi (options : List Text) (mrmachine : Text) (conf : List Config)
    (execQuery : Nat → Text → Option (List WmiObject)) : List WmiOutput :=
  if getOption options "no_wmi".toList false ≠ none then []
  else Run.outputs (wmiStep mrmachine) wmiStart (wmiLines conf execQuery)

omit [CLibrary] in
/-- A `field` line changes nothing but the end of the table. -/
theorem fieldLine_frame (s : WmiState) (value : Text) :
    ∃ more, (fieldLine s value).1 = { s with fields := s.fields ++ more } := by
  unfold fieldLine
  obtain ⟨field, op1, op2⟩ := scanField value
  cases field with
  | none => exact ⟨[], by simp⟩
  | some field => exact ⟨[⟨field, op1.getD [], op2.getD []⟩], rfl⟩

/-- The fields of an object change nothing but the color and the report. -/
theorem foldl_reportField_frame (object : WmiObject) (fields : List Field) (s : WmiState) :
    ∃ color report, fields.foldl (reportField object) s =
      { s with color := color, report := report } := by
  induction fields generalizing s with
  | nil => exact ⟨s.color, s.report, rfl⟩
  | cons f fields ih =>
    obtain ⟨color, report, same⟩ := ih (reportField object s f)
    exact ⟨color, report, same⟩

theorem foldl_reportObject_frame (objects : List WmiObject) (s : WmiState) :
    ∃ color report, objects.foldl reportObject s = { s with color := color, report := report } := by
  induction objects generalizing s with
  | nil => exact ⟨s.color, s.report, rfl⟩
  | cons first objects ih =>
    obtain ⟨color, report, same⟩ := foldl_reportField_frame first s.fields s
    obtain ⟨color', report', same'⟩ := ih (reportObject s first)
    refine ⟨color', report', same'.trans ?_⟩
    unfold reportObject
    dsimp only
    rw [same]

theorem foldl_reportObject_fields (objects : List WmiObject) (s : WmiState) :
    (objects.foldl reportObject s).fields = s.fields := by
  obtain ⟨color, report, same⟩ := foldl_reportObject_frame objects s
  rw [same]

end MrBig.Source.Wmi
