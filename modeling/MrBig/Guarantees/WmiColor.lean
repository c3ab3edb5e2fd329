import MrBig.Guarantees.WmiConditions

/-!
# When a WMI page is green

The color of a page starts green and turns red at a row on which a field gets a red bullet.
A query that fails, a result without rows and a condition whose line stands in the table at no
`go` leave it green.
-/

set_option autoImplicit false

namespace MrBig.Guarantees.WmiColor
open Library Source Source.Wmi WmiConditions

def lineKey (line : WmiLine) : Option Keyword := (pageLine line.b).map Prod.fst

/-- The condition that a `field` line states, if it has an operator and an operand. -/
def stated (line : WmiLine) : Option Field :=
  match pageLine line.b with
  | some (.field, value) =>
    match scanField value with
    | (some field, some op1, some op2) => some ⟨field, op1, op2⟩
    | _ => none
  | _ => none

/-- A line behind that of the condition is a `go` with the condition in the table: no `query` comes
between. -/
def StandsAt (between : List WmiLine) (go : WmiLine) : Prop :=
  lineKey go = some .go ∧ ∀ line ∈ between, lineKey line ≠ some .query

/-! ### What a condition says -/

/-- A text comes before another, character by character. -/
def Before (s t : Text) : Prop := List.Lex (· < ·) (s.map Char.toNat) (t.map Char.toNat)

/-- The comparison of two texts. -/
def HoldsText : Comparison → Text → Text → Prop
  | .eq, s, t => s = t
  | .lt, s, t => Before s t
  | .le, s, t => ¬ Before t s
  | .gt, s, t => Before t s
  | .ge, s, t => ¬ Before s t

/-- The condition of an operand that starts with a digit is on numbers, and every other one on
texts. -/
def Numerical (f : Field) : Prop := ∃ c ∈ f.op2.head?, c.isDigit

instance (f : Field) : Decidable (Numerical f) :=
  decidable_of_iff (f.op2.head?.elim false Char.isDigit) (by
    unfold Numerical
    cases f.op2.head? <;> simp)

section
variable [CLibrary]

/-- A value meets a condition: its operator is a comparison that holds of the value and the
operand, or the value contains the operand. -/
def Meets (f : Field) (value : Text) : Prop :=
  if Numerical f then ∃ op : Comparison, f.op1 = op.text ∧ op.Holds (atoi value) (atoi f.op2)
  else
    (∃ op : Comparison, f.op1 = op.text ∧ HoldsText op value f.op2) ∨
      f.op1 = "contains".toList ∧ f.op2 <:+: value

/-- A row meets a condition with the text of the property, of which `item` holds 999 characters. -/
def RowMeets (f : Field) (object : WmiObject) : Prop :=
  ∃ szWmiItem, object f.field = some szWmiItem ∧ Meets f (szWmiItem.take 999)

/-- What WMI answers at a `go`: nothing where there is no query or a call fails. -/
def answers (s : WmiState) (go : WmiLine) : Option (List WmiObject) :=
  if s.query = [] then none else go.execQuery s.query

/-- A row of the answer gives a field of the table a red bullet. -/
def Reddens (s : WmiState) (line : WmiLine) : Prop :=
  lineKey line = some .go ∧ ∃ objects, answers s line = some objects ∧
    ∃ object ∈ objects, ∃ f ∈ s.fields, bullet f (object f.field) = .red

variable (mrmachine : Text) (start : WmiState) (body : List WmiLine)

/-- Every `go` of the page ran its query. -/
def AllRan : Prop :=
  Run.Throughout (wmiStep mrmachine) (fun _ s line => lineKey line = some .go →
    ∃ objects, answers s line = some objects) start body

/-- The condition that a line of the page states is in the table at a `go`, and of each `go` that
it is in the table at, `Answered` holds of it and the answer. -/
def EachCondition (Answered : Field → Option (List WmiObject) → Prop) : Prop :=
  ∀ before line after f, body = before ++ line :: after → stated line = some f →
    (∃ between go rest, after = between ++ go :: rest ∧ StandsAt between go) ∧
      ∀ between go rest, after = between ++ go :: rest → StandsAt between go →
        Answered f (answers
          (Run.final (wmiStep mrmachine) start (before ++ line :: between)) go)

/-- Every `go` of the page ran its query, and the condition of every line was evaluated and
satisfied on each returned row, of which there was at least one. -/
structure Evaluated : Prop where
  ran : AllRan mrmachine start body
  met : EachCondition mrmachine start body fun f answer =>
    ∃ objects, answer = some objects ∧ objects ≠ [] ∧ ∀ object ∈ objects, RowMeets f object

/-- Every `go` of the page has an answer, and the condition of every line a row to be evaluated on
wherever it is in the table. -/
structure Evaluable : Prop where
  ran : AllRan mrmachine start body
  rows : EachCondition mrmachine start body fun _ answer => answer ≠ some []

/-- No row gives a field a red bullet. -/
def Unreddened : Prop :=
  Run.Throughout (wmiStep mrmachine) (fun _ s line => ¬ Reddens s line) start body

end

/-! ### Evaluation -/

theorem compares_iff {op1 : Text} {order : Ordering} :
    compares op1 order = true ↔
      ∃ op : Comparison, op1 = op.text ∧ compares op.text order = true := by
  constructor
  · intro holds
    have parts := holds
    simp only [compares, Bool.or_eq_true, Bool.and_eq_true, beq_iff_eq] at parts
    rcases parts with (((⟨rfl, -⟩ | ⟨rfl, -⟩) | ⟨rfl, -⟩) | ⟨rfl, -⟩) | ⟨rfl, -⟩
    · exact ⟨.eq, rfl, holds⟩
    · exact ⟨.lt, rfl, holds⟩
    · exact ⟨.le, rfl, holds⟩
    · exact ⟨.gt, rfl, holds⟩
    · exact ⟨.ge, rfl, holds⟩
  · rintro ⟨op, rfl, holds⟩
    exact holds

theorem strcmp_lt_iff (s t : Text) : strcmp s t = .lt ↔ Before s t := by
  unfold Before
  induction s generalizing t with
  | nil => cases t <;> simp [strcmp]
  | cons c s ih =>
    cases t with
    | nil => simp [strcmp]
    | cons d t =>
      rw [strcmp, Ordering.then_eq_lt, Nat.compare_eq_lt, Nat.compare_eq_eq, ih, List.map_cons,
        List.map_cons, List.cons_lex_cons_iff]

theorem strcmp_gt_iff (s t : Text) : strcmp s t = .gt ↔ Before t s := by
  unfold Before
  induction s generalizing t with
  | nil => cases t <;> simp [strcmp]
  | cons c s ih =>
    cases t with
    | nil => simp [strcmp]
    | cons d t =>
      rw [strcmp, Ordering.then_eq_gt, Nat.compare_eq_gt, Nat.compare_eq_eq, ih, List.map_cons,
        List.map_cons, List.cons_lex_cons_iff, @eq_comm _ c.toNat]

theorem strcmp_eq_iff (s t : Text) : strcmp s t = .eq ↔ s = t := by
  induction s generalizing t with
  | nil => cases t <;> simp [strcmp]
  | cons c s ih =>
    cases t with
    | nil => simp [strcmp]
    | cons d t =>
      rw [strcmp, Ordering.then_eq_eq, Nat.compare_eq_eq, ih, List.cons.injEq, Char.toNat_inj]

theorem compares_strcmp (op : Comparison) (s t : Text) :
    compares op.text (strcmp s t) = true ↔ HoldsText op s t := by
  have lt := strcmp_lt_iff s t
  have gt := strcmp_gt_iff s t
  have eq := strcmp_eq_iff s t
  cases op with
  | eq => simp [compares, Comparison.text, HoldsText, eq]
  | lt => simp [compares, Comparison.text, HoldsText, lt]
  | le => simp [compares, Comparison.text, HoldsText, ← gt]
  | gt => simp [compares, Comparison.text, HoldsText, gt]
  | ge => simp [compares, Comparison.text, HoldsText, ← lt]

theorem satisfied_iff [CLibrary] (f : Field) (value : Text) :
    satisfied f value = true ↔ Meets f value := by
  have digit : f.op2.head?.elim false Char.isDigit = true ↔ Numerical f := by
    unfold Numerical
    cases f.op2.head? <;> simp
  unfold satisfied Meets
  by_cases numerical : Numerical f
  · rw [if_pos (digit.mpr numerical), if_pos numerical, compares_iff]
    simp only [compares_compare]
  · rw [if_neg (digit.not.mpr numerical), if_neg numerical, Bool.or_eq_true, compares_iff]
    simp only [compares_strcmp, Bool.and_eq_true, beq_iff_eq, decide_eq_true_eq]

/-! ### A `go` -/

theorem reportField_color [CLibrary] (object : WmiObject) (fields : List Field) (s : WmiState) :
    (fields.foldl (reportField object) s).color =
      if fields.any (fun f => bullet f (object f.field) = .red) then .red else s.color := by
  induction fields generalizing s with
  | nil => rfl
  | cons f fields ih =>
    rw [List.foldl_cons, ih, List.any_cons]
    by_cases red : bullet f (object f.field) = .red <;> simp [reportField, red]

theorem reportObject_color [CLibrary] (objects : List WmiObject) (s : WmiState) :
    (objects.foldl reportObject s).color =
      if objects.any (fun object => s.fields.any fun f => bullet f (object f.field) = .red)
      then .red else s.color := by
  induction objects generalizing s with
  | nil => rfl
  | cons object objects ih =>
    have first : (reportObject s object).color = (s.fields.foldl (reportField object) s).color :=
      rfl
    have same : (reportObject s object).fields = s.fields := foldl_reportObject_fields [object] s
    rw [List.foldl_cons, ih, same, first, reportField_color, List.any_cons]
    by_cases red : s.fields.any (fun f => bullet f (object f.field) = .red) <;> simp [red]

theorem goLine_state [CLibrary] (s : WmiState) (go : WmiLine) :
    (goLine s go.execQuery).1 = (answers s go).elim s fun objects =>
      objects.foldl reportObject s := by
  unfold goLine answers
  by_cases empty : s.query = []
  · rw [if_pos empty, if_pos empty]
    rfl
  · rw [if_neg empty, if_neg empty]
    cases go.execQuery s.query <;> rfl

theorem reddens_go_iff [CLibrary] {s : WmiState} {line : WmiLine} (go : lineKey line = some .go) :
    Reddens s line ↔ ∃ objects, answers s line = some objects ∧
      ∃ object ∈ objects, ∃ f ∈ s.fields, bullet f (object f.field) = .red :=
  and_iff_right go

theorem stated_words {line : WmiLine} {f : Field} (states : stated line = some f) :
    f.op1 ≠ [] ∧ f.op2 ≠ [] := by
  unfold stated at states
  split at states
  next value found =>
    split at states
    next field op1 op2 scanned =>
      obtain rfl := Option.some.inj states
      obtain ⟨rest, rest', -, second, third⟩ := scanTwoWords_eq_iff.mp scanned
      obtain ⟨lead, -, word, -, -⟩ := scanWord_eq_some_iff.mp second
      exact ⟨word.1, ne_nil_of_scanLine third⟩
    next => cases states
  next => cases states

/-- A condition gives a green bullet or a red one. -/
theorem bullet_stated [CLibrary] {line : WmiLine} {f : Field} (states : stated line = some f)
    (object : WmiObject) :
    bullet f (object f.field) = .green ∨ bullet f (object f.field) = .red := by
  have words : f.op1 ≠ [] ∧ f.op2 ≠ [] := stated_words states
  unfold bullet
  cases object f.field with
  | none => exact Or.inr (if_pos words.1)
  | some item =>
    dsimp only
    rw [if_pos words]
    split
    next => exact Or.inl rfl
    next => exact Or.inr rfl

theorem bullet_green_iff_rowMeets [CLibrary] {line : WmiLine} {f : Field}
    (states : stated line = some f) (object : WmiObject) :
    bullet f (object f.field) = .green ↔ RowMeets f object := by
  have words := stated_words states
  unfold bullet RowMeets
  cases object f.field with
  | none => simp [words.1]
  | some item => simp [words, ← satisfied_iff]

/-! ### The lines of a page -/

/-- A line between the `begin` of a page and its `end`. -/
def Inner (line : WmiLine) : Prop :=
  lineKey line ≠ some .begins ∧ lineKey line ≠ some .ends

/-- What such a line makes of the state. -/
inductive InnerStep [CLibrary] (s : WmiState) (line : WmiLine) : WmiState → Prop
  | silent (absent : pageLine line.b = none) : InnerStep s line s
  | always (value : Text) (found : pageLine line.b = some (.always, value)) :
      InnerStep s line { s with always := value }
  | field (value : Text) (more : List Field) (found : pageLine line.b = some (.field, value)) :
      InnerStep s line { s with fields := s.fields ++ more }
  | unanswered (value : Text) (found : pageLine line.b = some (.go, value))
      (absent : answers s line = none) : InnerStep s line s
  | answered (value : Text) (objects : List WmiObject)
      (found : pageLine line.b = some (.go, value)) (answer : answers s line = some objects) :
      InnerStep s line (objects.foldl reportObject s)
  | query (value : Text) (found : pageLine line.b = some (.query, value)) :
      InnerStep s line { s with query := value, fields := [] }
  | text (value : Text) (found : pageLine line.b = some (.text, value)) :
      InnerStep s line { s with report := snprcat s.report 10000 (value ++ "\n".toList) }

theorem lineKey_of_pageLine {line : WmiLine} {key : Keyword} {value : Text}
    (found : pageLine line.b = some (key, value)) : lineKey line = some key := by
  rw [lineKey, found, Option.map_some]

theorem innerStep [CLibrary] (mrmachine : Text) (s : WmiState) {line : WmiLine}
    (inner : Inner line) :
    InnerStep s line (wmiStep mrmachine s line).1 := by
  unfold wmiStep
  cases found : pageLine line.b with
  | none => exact .silent found
  | some keyed =>
    obtain ⟨key, value⟩ := keyed
    cases key with
    | always => exact .always value found
    | begins => exact absurd (lineKey_of_pageLine found) inner.1
    | ends => exact absurd (lineKey_of_pageLine found) inner.2
    | field =>
      obtain ⟨more, same⟩ := fieldLine_frame s value
      dsimp only
      rw [same]
      exact .field value more found
    | go =>
      dsimp only
      rw [goLine_state]
      cases answer : answers s line with
      | none => exact .unanswered value found answer
      | some objects => exact .answered value objects found answer
    | query => exact .query value found
    | text => exact .text value found

theorem not_reddens [CLibrary] {s : WmiState} {line : WmiLine} (other : lineKey line ≠ some .go) :
    ¬ Reddens s line := fun reddens => other reddens.1

/-- What a line of a page that is not `always` changes of what is sent. -/
theorem wmiStep_inner [CLibrary] (mrmachine : Text) (s : WmiState) {line : WmiLine}
    (inner : Inner line)
    (plain : lineKey line ≠ some .always) :
    (wmiStep mrmachine s line).1.page = s.page ∧ (wmiStep mrmachine s line).1.always = s.always ∧
      (Reddens s line → (wmiStep mrmachine s line).1.color = .red) ∧
      (¬ Reddens s line → (wmiStep mrmachine s line).1.color = s.color) := by
  have step := innerStep mrmachine s inner
  generalize (wmiStep mrmachine s line).1 = s' at step ⊢
  cases step with
  | silent absent =>
    have quiet : ¬ Reddens s line := not_reddens (by rw [lineKey, absent]; simp)
    exact ⟨rfl, rfl, fun reddens => absurd reddens quiet, fun _ => rfl⟩
  | always value found => exact absurd (lineKey_of_pageLine found) plain
  | field _ _ found | query _ found | text _ found =>
    have quiet : ¬ Reddens s line := not_reddens (by rw [lineKey_of_pageLine found]; simp)
    exact ⟨rfl, rfl, fun reddens => absurd reddens quiet, fun _ => rfl⟩
  | unanswered _ found absent =>
    have quiet : ¬ Reddens s line := by simp [Reddens, absent]
    exact ⟨rfl, rfl, fun reddens => absurd reddens quiet, fun _ => rfl⟩
  | answered _ objects found answer =>
    obtain ⟨color, report, same⟩ := foldl_reportObject_frame objects s
    have red := reportObject_color objects s
    rw [reddens_go_iff (lineKey_of_pageLine found), answer]
    refine ⟨by rw [same], by rw [same], fun reddens => ?_, fun unreddened => ?_⟩
    · rw [red, if_pos (by simpa using reddens)]
    · rw [red, if_neg (by simpa using unreddened)]

/-- The entry of a condition's line is in the table behind the line. -/
theorem stated_inTable [CLibrary] (mrmachine : Text) (s : WmiState) {line : WmiLine} {f : Field}
    (states : stated line = some f) : f ∈ (wmiStep mrmachine s line).1.fields := by
  unfold stated at states
  split at states
  next value found =>
    unfold wmiStep
    rw [found]
    dsimp only
    unfold fieldLine
    split at states
    next field op1 op2 scanned =>
      rw [scanned, ← Option.some.inj states]
      exact List.mem_append_right _ (List.mem_singleton_self _)
    next => cases states
  next => cases states

/-- An entry stays in the table up to the next `query`. -/
theorem keeps_inTable [CLibrary] (mrmachine : Text) (s : WmiState) {line : WmiLine}
    (inner : Inner line)
    (noQuery : lineKey line ≠ some .query) {f : Field} (inTable : f ∈ s.fields) :
    f ∈ (wmiStep mrmachine s line).1.fields := by
  have step := innerStep mrmachine s inner
  generalize (wmiStep mrmachine s line).1 = s' at step ⊢
  cases step with
  | silent | always | unanswered | text => exact inTable
  | field => exact List.mem_append_left _ inTable
  | answered _ objects =>
    rw [foldl_reportObject_fields]
    exact inTable
  | query _ found => exact absurd (lineKey_of_pageLine found) noQuery

/-- A condition is in the table at each `go` that its line stands at. -/
theorem inTable_of_standsAt [CLibrary] (mrmachine : Text) (start : WmiState) (before : List WmiLine)
    {line go : WmiLine} {between : List WmiLine} (inner : ∀ l ∈ between, Inner l) {f : Field}
    (states : stated line = some f) (stands : StandsAt between go) :
    f ∈ (Run.final (wmiStep mrmachine) start (before ++ line :: between)).fields := by
  obtain ⟨-, noQuery⟩ := stands
  induction between using List.reverseRecOn with
  | nil =>
    rw [Run.final_concat]
    exact stated_inTable mrmachine _ states
  | append_singleton between last ih =>
    obtain ⟨innerBefore, innerLast⟩ := List.forall_mem_append.mp inner
    obtain ⟨queryBefore, queryLast⟩ := List.forall_mem_append.mp noQuery
    rw [← List.cons_append, ← List.append_assoc, Run.final_concat]
    exact keeps_inTable mrmachine _ (innerLast last (List.mem_singleton_self _))
      (queryLast last (List.mem_singleton_self _)) (ih innerBefore queryBefore)

theorem wmiStep_begins [CLibrary] (mrmachine : Text) (s : WmiState) {line : WmiLine} {page : Text}
    (opens : pageLine line.b = some (.begins, page)) :
    (wmiStep mrmachine s line).1 =
      { s with page := page, always := [], report := [], color := .green } := by
  unfold wmiStep
  rw [opens]

theorem wmiStep_ends [CLibrary] (mrmachine : Text) (s : WmiState) {line : WmiLine}
    (closes : lineKey line = some .ends) : wmiStep mrmachine s line = endLine mrmachine s := by
  obtain ⟨⟨key, value⟩, found, rfl⟩ := Option.map_eq_some_iff.mp closes
  unfold wmiStep
  rw [found]

theorem endLine_sent (mrmachine : Text) {s : WmiState} (named : s.page ≠ [])
    (noAlways : s.always = [])
    (color : s.color = .green ∨ s.color = .red) :
    ∃ report, (endLine mrmachine s).2.sent = some report ∧ report.test = s.page ∧
      (report.color = green ↔ s.color = .green) := by
  unfold endLine
  rw [if_neg named]
  dsimp only
  rw [if_neg (not_not.mpr noAlways)]
  refine ⟨_, rfl, rfl, ?_⟩
  rcases color with same | same
  · rw [same]
    exact iff_of_true rfl rfl
  · rw [same]
    exact iff_of_false (show ¬ "red".toList = green by decide) (by decide)

section Page

variable [CLibrary] {mrmachine : Text} {start : WmiState} {body : List WmiLine}

/-- What is sent of a page without `always` at its `end`. -/
theorem final_page (plain : ∀ line ∈ body, Inner line ∧ lineKey line ≠ some .always)
    (green : start.color = .green) :
    (Run.final (wmiStep mrmachine) start body).page = start.page ∧
      (Run.final (wmiStep mrmachine) start body).always = start.always ∧
      (Unreddened mrmachine start body →
        (Run.final (wmiStep mrmachine) start body).color = .green) ∧
      (¬ Unreddened mrmachine start body →
        (Run.final (wmiStep mrmachine) start body).color = .red) := by
  induction body using List.reverseRecOn with
  | nil =>
    refine ⟨rfl, rfl, fun _ => green, fun reddened => absurd ?_ reddened⟩
    exact Run.throughout_nil _ _ start
  | append_singleton body line ih =>
    obtain ⟨page, always, stillGreen, stillRed⟩ :=
      ih fun l member => plain l (List.mem_append_left _ member)
    obtain ⟨inner, other⟩ := plain line (by simp)
    obtain ⟨page', always', reddens, keeps⟩ :=
      wmiStep_inner mrmachine (Run.final (wmiStep mrmachine) start body) inner other
    have both : Unreddened mrmachine start (body ++ [line]) ↔
        Unreddened mrmachine start body ∧
          ¬ Reddens (Run.final (wmiStep mrmachine) start body) line :=
      Run.throughout_concat _ _ start body line
    rw [Run.final_concat, both]
    refine ⟨page'.trans page, always'.trans always, ?_, ?_⟩
    · intro unreddened
      exact (keeps unreddened.2).trans (stillGreen unreddened.1)
    · intro reddened
      by_cases now : Reddens (Run.final (wmiStep mrmachine) start body) line
      · exact reddens now
      · exact (keeps now).trans (stillRed fun before => reddened ⟨before, now⟩)

/-- Where no bullet is red, every condition that was evaluated was satisfied. -/
theorem evaluated_of_evaluable (inner : ∀ line ∈ body, Inner line)
    (unreddened : Unreddened mrmachine start body)
    (evaluable : Evaluable mrmachine start body) : Evaluated mrmachine start body := by
  refine ⟨evaluable.ran, fun before line after f split states => ?_⟩
  obtain ⟨reached, rows⟩ := evaluable.rows before line after f split states
  refine ⟨reached, fun between go rest behind stands => ?_⟩
  have whole : body = (before ++ line :: between) ++ go :: rest := by
    rw [split, behind, List.append_assoc, List.cons_append]
  obtain ⟨objects, answered⟩ := evaluable.ran _ go rest whole stands.1
  have nonempty := rows between go rest behind stands
  refine ⟨objects, answered, fun absent => nonempty (by rw [answered, absent]), ?_⟩
  intro object row
  have innerBetween : ∀ l ∈ between, Inner l := fun l member =>
    inner l (by simp [split, behind, member])
  have inTable := inTable_of_standsAt mrmachine start before innerBetween states stands
  have notRed : bullet f (object f.field) ≠ .red := fun red =>
    unreddened _ go rest whole ⟨stands.1, objects, answered, object, row, f, inTable, red⟩
  exact (bullet_green_iff_rowMeets states object).mp
    ((bullet_stated states object).resolve_right notRed)

theorem evaluable_of_evaluated (evaluated : Evaluated mrmachine start body) :
    Evaluable mrmachine start body := by
  refine ⟨evaluated.ran, fun before line after f split states => ?_⟩
  obtain ⟨reached, each⟩ := evaluated.met before line after f split states
  refine ⟨reached, fun between go rest behind stands absent => ?_⟩
  obtain ⟨objects, answered, nonempty, -⟩ := each between go rest behind stands
  exact nonempty (Option.some.inj (answered.symm.trans absent))

end Page

def onePage : List Config :=
  [⟨"wmi".toList, "begin disks\nquery select * from Win32_foo\nfield yyy > 0\ngo\nend\n".toList⟩]

/-- The lines of the page, with what WMI answers while they are worked on. -/
def onePageBody (execQuery : Nat → Text → Option (List WmiObject)) : List WmiLine :=
  [⟨"query select * from Win32_foo".toList, execQuery 1⟩, ⟨"field yyy > 0".toList, execQuery 2⟩,
    ⟨"go".toList, execQuery 3⟩]

theorem onePage_lines (execQuery : Nat → Text → Option (List WmiObject)) :
    wmiLines onePage execQuery =
      [] ++ ⟨"begin disks".toList, execQuery 0⟩ ::
        (onePageBody execQuery ++ ⟨"end".toList, execQuery 4⟩ :: []) := by
  have lines : sectionLines onePage "wmi".toList 1000 =
      ["begin disks".toList, "query select * from Win32_foo".toList, "field yyy > 0".toList,
        "go".toList, "end".toList] := by decide
  unfold wmiLines
  rw [lines]
  rfl

theorem onePageBody_plain (execQuery : Nat → Text → Option (List WmiObject)) :
    ∀ line ∈ onePageBody execQuery, Inner line ∧ lineKey line ≠ some .always := by
  have keys : (onePageBody execQuery).map lineKey = [some .query, some .field, some .go] := by
    change ["query select * from Win32_foo".toList, "field yyy > 0".toList, "go".toList].map
      (fun b => (pageLine b).map Prod.fst) = _
    decide
  intro line member
  have key := List.mem_map_of_mem (f := lineKey) member
  rw [keys] at key
  simp only [List.mem_cons, List.not_mem_nil, or_false] at key
  unfold Inner
  rcases key with same | same | same <;> rw [same] <;> decide

end MrBig.Guarantees.WmiColor
