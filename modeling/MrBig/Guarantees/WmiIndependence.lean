import MrBig.Guarantees.WmiColor

/-!
# What a WMI page takes over from the lines before it

A `begin` resets the page, `always`, the report and the color, but not the query and its
fields. Up to the first `query` of its own a page runs the query of the lines before it.
-/

set_option autoImplicit false

namespace MrBig.Guarantees.WmiIndependence
open Library Source Source.Wmi WmiColor

/-- What is sent at the `end` of a page behind some lines. -/
def sentAt [CLibrary] (mrmachine : Text) (begins ends : WmiLine) (before lines : List WmiLine) :
    Option Report :=
  (wmiStep mrmachine (Run.final (wmiStep mrmachine) wmiStart (before ++ begins :: lines))
    ends).2.sent

/-- Whatever WMI answers to the lines of the page, the lines before it make no difference. -/
def Independent [CLibrary] (mrmachine : Text) (begins ends : WmiLine) (body : List Text) : Prop :=
  ∀ lines : List WmiLine, lines.map WmiLine.b = body → ∀ before before',
    sentAt mrmachine begins ends before lines = sentAt mrmachine begins ends before' lines

def keyOf (b : Text) : Option Keyword := (pageLine b).map Prod.fst

/-- Each `go` stands behind a `query` of the page. -/
def GoesQueried (body : List Text) : Prop :=
  ∀ before go after, body = before ++ go :: after → keyOf go = some .go →
    ∃ b ∈ before, keyOf b = some .query

/-- What a `text` line prints. -/
def printed (b : Text) : Text :=
  match pageLine b with
  | some (.text, value) => value ++ "\n".toList
  | _ => []

def textOf (body : List Text) : Text := body.flatMap printed

/-- The value of `always` behind a line. -/
def alwaysStep (always b : Text) : Text :=
  match pageLine b with
  | some (.always, value) => value
  | _ => always

def alwaysOf (body : List Text) : Text := body.foldl alwaysStep []

/-- The color of the page is its own, or its texts leave room in the report. -/
def Visible (body : List Text) : Prop := alwaysOf body = [] ∨ (textOf body).length ≤ 9997

/-! ### What an `end` sends -/

def sentColor (s : WmiState) : Text :=
  if s.always ≠ [] then s.always
  else
    match s.color with
    | .green => "green".toList
    | .red => "red".toList
    | .always => s.always

theorem endLine_eq (mrmachine : Text) (s : WmiState) :
    (endLine mrmachine s).2.sent =
      if s.page = [] then none else some ⟨mrmachine, s.page, sentColor s, s.report⟩ := by
  unfold endLine sentColor
  by_cases noPage : s.page = []
  · rw [if_pos noPage, if_pos noPage]
    rfl
  · rw [if_neg noPage, if_neg noPage]
    dsimp only
    by_cases given : s.always ≠ []
    · rw [if_pos given, if_pos given]
    · rw [if_neg given]
      exact congrArg (fun color => some (Report.mk mrmachine s.page color s.report))
        (if_neg given).symm

/-! ### Two runs over a page -/

/-- The states differ in the query and its fields at most. -/
structure Agree (s s' : WmiState) : Prop where
  page : s.page = s'.page
  always : s.always = s'.always
  report : s.report = s'.report
  color : s.color = s'.color

section Agree

variable {mrmachine : Text} {s s' : WmiState} {line : WmiLine}

theorem agree_begins [CLibrary] {page : Text} (opens : pageLine line.b = some (.begins, page)) :
    Agree (wmiStep mrmachine s line).1 (wmiStep mrmachine s' line).1 := by
  rw [wmiStep_begins mrmachine s opens, wmiStep_begins mrmachine s' opens]
  exact ⟨rfl, rfl, rfl, rfl⟩

/-- A `query` makes the states one. -/
theorem eq_of_query [CLibrary] (agree : Agree s s') (query : keyOf line.b = some .query) :
    (wmiStep mrmachine s line).1 = (wmiStep mrmachine s' line).1 := by
  obtain ⟨⟨key, value⟩, found, rfl⟩ := Option.map_eq_some_iff.mp query
  unfold wmiStep
  rw [found]
  dsimp only
  rw [agree.page, agree.always, agree.report, agree.color]

theorem Agree.step [CLibrary] (agree : Agree s s') (inner : Inner line)
    (noGo : keyOf line.b ≠ some .go) :
    Agree (wmiStep mrmachine s line).1 (wmiStep mrmachine s' line).1 := by
  obtain ⟨page, always, report, color⟩ := agree
  unfold wmiStep
  cases found : pageLine line.b with
  | none => exact ⟨page, always, report, color⟩
  | some keyed =>
    obtain ⟨key, value⟩ := keyed
    have isKey : lineKey line = some key := by rw [lineKey, found, Option.map_some]
    cases key with
    | always => exact ⟨page, rfl, report, color⟩
    | begins => exact absurd isKey inner.1
    | ends => exact absurd isKey inner.2
    | field =>
      obtain ⟨more, same⟩ := fieldLine_frame s value
      obtain ⟨more', same'⟩ := fieldLine_frame s' value
      dsimp only
      rw [same, same']
      exact ⟨page, always, report, color⟩
    | go => exact absurd isKey noGo
    | query => exact ⟨page, always, report, color⟩
    | text =>
      refine ⟨page, always, ?_, color⟩
      dsimp only
      rw [report]

theorem Agree.sent (agree : Agree s s') :
    (endLine mrmachine s).2.sent = (endLine mrmachine s').2.sent := by
  have color : sentColor s = sentColor s' := by
    unfold sentColor
    rw [agree.always, agree.color]
  rw [endLine_eq, endLine_eq, agree.page, agree.report, color]

end Agree

/-- Up to the first `query` no `go` is met, and behind it the runs are one. -/
theorem agree_run [CLibrary] (mrmachine : Text) {lines : List WmiLine}
    (inner : ∀ line ∈ lines, Inner line)
    (queried : GoesQueried (lines.map WmiLine.b)) {s s' : WmiState} (agree : Agree s s') :
    Agree (Run.final (wmiStep mrmachine) s lines) (Run.final (wmiStep mrmachine) s' lines) := by
  induction lines generalizing s s' with
  | nil => exact agree
  | cons line rest ih =>
    rw [Run.final_cons, Run.final_cons]
    by_cases query : keyOf line.b = some .query
    · rw [eq_of_query agree query]
      exact ⟨rfl, rfl, rfl, rfl⟩
    · have noGo : keyOf line.b ≠ some .go := by
        intro go
        obtain ⟨b, member, -⟩ := queried [] line.b (rest.map WmiLine.b) rfl go
        cases member
      refine ih (fun l member => inner l (List.mem_cons_of_mem line member)) ?_
        (agree.step (inner line List.mem_cons_self) noGo)
      intro before go after split isGo
      obtain ⟨b, member, isQuery⟩ := queried (line.b :: before) go after
        (by rw [List.map_cons, split, List.cons_append]) isGo
      rcases List.mem_cons.mp member with rfl | later
      · exact absurd isQuery query
      · exact ⟨b, later, isQuery⟩

/-! ### A run that prints nothing but its texts -/

/-- The report holds as much of the text as fits. -/
def Prints (text : Text) (s : WmiState) : Prop := s.report = text.take 9999

theorem prints_snprcat {text : Text} {s : WmiState} (prints : Prints text s) (more : Text) :
    snprcat s.report 10000 more = (text ++ more).take 9999 := by
  rw [prints]
  exact snprcat_take 10000 text more

/-- A line that is no `go` with an answer. -/
theorem quiet_step [CLibrary] (mrmachine : Text) {s : WmiState} {line : WmiLine} {text : Text}
    (inner : Inner line) (quiet : lineKey line = some .go → answers s line = none)
    (prints : Prints text s) :
    (wmiStep mrmachine s line).1.page = s.page ∧
      (wmiStep mrmachine s line).1.always = alwaysStep s.always line.b ∧
      (wmiStep mrmachine s line).1.color = s.color ∧
      Prints (text ++ printed line.b) (wmiStep mrmachine s line).1 := by
  have step := innerStep mrmachine s inner
  generalize (wmiStep mrmachine s line).1 = s' at step ⊢
  unfold alwaysStep printed
  cases step with
  | silent isEmpty =>
    rw [isEmpty]
    exact ⟨rfl, rfl, rfl, by simpa [Prints] using prints⟩
  | always _ found | field _ _ found | query _ found | unanswered _ found =>
    rw [found]
    exact ⟨rfl, rfl, rfl, by simpa [Prints] using prints⟩
  | answered _ _ found answer =>
    have isEmpty := quiet (lineKey_of_pageLine found)
    cases isEmpty.symm.trans answer
  | text value found =>
    rw [found]
    exact ⟨rfl, rfl, rfl, prints_snprcat prints _⟩

theorem quiet_run [CLibrary] (mrmachine : Text) {lines : List WmiLine} {s : WmiState} {text : Text}
    (inner : ∀ line ∈ lines, Inner line)
    (quiet : Run.Throughout (wmiStep mrmachine)
      (fun _ s line => lineKey line = some .go → answers s line = none) s lines)
    (prints : Prints text s) :
    (Run.final (wmiStep mrmachine) s lines).page = s.page ∧
      (Run.final (wmiStep mrmachine) s lines).always =
        (lines.map WmiLine.b).foldl alwaysStep s.always ∧
      (Run.final (wmiStep mrmachine) s lines).color = s.color ∧
      Prints (text ++ textOf (lines.map WmiLine.b)) (Run.final (wmiStep mrmachine) s lines) := by
  induction lines generalizing s text with
  | nil => exact ⟨rfl, rfl, rfl, by simpa [textOf] using prints⟩
  | cons line rest ih =>
    obtain ⟨now, later⟩ := (Run.throughout_cons _ _ s line rest).mp quiet
    obtain ⟨page, always, color, printed⟩ :=
      quiet_step mrmachine (inner line List.mem_cons_self) now prints
    obtain ⟨page', always', color', printed'⟩ :=
      ih (fun l member => inner l (List.mem_cons_of_mem line member)) later printed
    rw [Run.final_cons]
    refine ⟨page'.trans page, ?_, color'.trans color, ?_⟩
    · rw [always', always]
      rfl
    · rw [List.append_assoc] at printed'
      exact printed'

/-- The query and the fields that a page has taken over stay up to its own `query`. -/
theorem stale_run [CLibrary] (mrmachine : Text) {lines : List WmiLine}
    (inner : ∀ line ∈ lines, Inner line)
    (noQuery : ∀ line ∈ lines, keyOf line.b ≠ some .query) (s : WmiState) :
    (Run.final (wmiStep mrmachine) s lines).query = s.query ∧
      ∃ more, (Run.final (wmiStep mrmachine) s lines).fields = s.fields ++ more := by
  induction lines generalizing s with
  | nil => exact ⟨rfl, [], (List.append_nil _).symm⟩
  | cons line rest ih =>
    have first : (wmiStep mrmachine s line).1.query = s.query ∧
        ∃ more, (wmiStep mrmachine s line).1.fields = s.fields ++ more := by
      have other := noQuery line List.mem_cons_self
      have unchanged : ∃ more, s.fields = s.fields ++ more := ⟨[], (List.append_nil _).symm⟩
      have step := innerStep mrmachine s (inner line List.mem_cons_self)
      generalize (wmiStep mrmachine s line).1 = s' at step ⊢
      cases step with
      | silent | always | unanswered | text => exact ⟨rfl, unchanged⟩
      | field _ more => exact ⟨rfl, more, rfl⟩
      | answered _ objects =>
        obtain ⟨color, report, same⟩ := foldl_reportObject_frame objects s
        rw [same]
        exact ⟨rfl, unchanged⟩
      | query _ found => exact absurd (lineKey_of_pageLine found) other
    obtain ⟨query, more, fields⟩ := first
    obtain ⟨query', more', fields'⟩ :=
      ih (fun l member => inner l (List.mem_cons_of_mem line member))
        (fun l member => noQuery l (List.mem_cons_of_mem line member))
        (wmiStep mrmachine s line).1
    rw [Run.final_cons]
    refine ⟨query'.trans query, more ++ more', ?_⟩
    rw [fields', fields, List.append_assoc]

/-! ### A `go` with the query of the lines before the page -/

/-- A property that no object has. -/
def emptyRow : WmiObject := fun _ => none

theorem reportField_prints [CLibrary] (object : WmiObject) {s : WmiState} (f : Field) {text : Text}
    (prints : Prints text s) :
    ∃ more, Prints (text ++ '&' :: ((bullet f (object f.field)).text ++ more))
      (reportField object s f) := by
  refine ⟨" ".toList ++ f.field ++ ": ".toList ++ (object f.field).getD [] ++ "\n".toList, ?_⟩
  have appended := prints_snprcat prints ("&".toList ++ (bullet f (object f.field)).text ++
    " ".toList ++ f.field ++ ": ".toList ++ (object f.field).getD [] ++ "\n".toList)
  unfold Prints reportField
  dsimp only
  rw [appended]
  simp

theorem foldl_reportField_prints [CLibrary] (object : WmiObject) {s : WmiState} {text : Text}
    (fields : List Field) (prints : Prints text s) :
    ∃ more, Prints (text ++ more) (fields.foldl (reportField object) s) := by
  induction fields generalizing s text with
  | nil => exact ⟨[], by simpa using prints⟩
  | cons f fields ih =>
    obtain ⟨first, prints⟩ := reportField_prints object f prints
    obtain ⟨more, prints⟩ := ih prints
    rw [List.append_assoc] at prints
    exact ⟨_, prints⟩

/-- One row prints the first field of the table first. -/
theorem go_prints [CLibrary] {s : WmiState} {f : Field} {fields : List Field} {text : Text}
    (table : s.fields = f :: fields) (prints : Prints text s) :
    ∃ more, Prints (text ++ '&' :: ((bullet f (emptyRow f.field)).text ++ more))
      ([emptyRow].foldl reportObject s) := by
  obtain ⟨first, printsFirst⟩ := reportField_prints emptyRow f prints
  obtain ⟨more, printsAll⟩ := foldl_reportField_prints emptyRow fields printsFirst
  have last := prints_snprcat printsAll "\n".toList
  refine ⟨first ++ more ++ "\n".toList, ?_⟩
  unfold Prints
  rw [List.foldl_cons, List.foldl_nil]
  unfold reportObject
  rw [table, List.foldl_cons]
  dsimp only
  rw [last]
  simp

/-- A line to whose query WMI has no answer. -/
def quietLine (b : Text) : WmiLine := ⟨b, fun _ => none⟩

/-- A page on which only one `go` is answered. -/
def oneAnswer (earlier : List Text) (go : Text) (later : List Text) : List WmiLine :=
  earlier.map quietLine ++ ⟨go, fun _ => some [emptyRow]⟩ :: later.map quietLine

theorem map_quietLine (body : List Text) : (body.map quietLine).map WmiLine.b = body := by
  rw [List.map_map]
  exact List.map_id body

theorem answers_quietLine (s : WmiState) (b : Text) : answers s (quietLine b) = none := by
  unfold answers
  split <;> rfl

section OneAnswer

variable {mrmachine : Text} {earlier later : List Text} {go : Text} {s : WmiState} {text : Text}

theorem quietLines_run [CLibrary] (inner : ∀ b ∈ later, Inner (quietLine b))
    (prints : Prints text s) :
    (Run.final (wmiStep mrmachine) s (later.map quietLine)).page = s.page ∧
      (Run.final (wmiStep mrmachine) s (later.map quietLine)).always =
        later.foldl alwaysStep s.always ∧
      (Run.final (wmiStep mrmachine) s (later.map quietLine)).color = s.color ∧
      Prints (text ++ textOf later) (Run.final (wmiStep mrmachine) s (later.map quietLine)) := by
  have quiet : Run.Throughout (wmiStep mrmachine)
      (fun _ s line => lineKey line = some .go → answers s line = none) s
      (later.map quietLine) := by
    intro before line after split _
    have member : line ∈ later.map quietLine := by simp [split]
    obtain ⟨b, -, rfl⟩ := List.mem_map.mp member
    exact answers_quietLine _ b
  have run := quiet_run mrmachine (by simpa using inner) quiet prints
  rw [map_quietLine] at run
  exact run

/-- The lines behind the `go`, and the `end`. -/
theorem quietLines_sent [CLibrary] {ends : WmiLine} (closes : lineKey ends = some .ends)
    (inner : ∀ b ∈ later, Inner (quietLine b)) (named : s.page ≠ []) (prints : Prints text s) :
    ∃ s', s'.always = later.foldl alwaysStep s.always ∧ s'.color = s.color ∧
      (wmiStep mrmachine (Run.final (wmiStep mrmachine) s (later.map quietLine)) ends).2.sent =
        some ⟨mrmachine, s.page, sentColor s', (text ++ textOf later).take 9999⟩ := by
  obtain ⟨page, always, color, printsAll⟩ := @quietLines_run mrmachine later s text _ inner prints
  refine ⟨_, always, color, ?_⟩
  rw [wmiStep_ends mrmachine _ closes, endLine_eq, page, if_neg named, printsAll]

/-- The state behind a `begin`. -/
structure Opened (page : Text) (s : WmiState) : Prop where
  page : s.page = page
  always : s.always = []
  report : s.report = []
  color : s.color = .green

theorem alwaysStep_go (isGo : keyOf go = some .go) (always : Text) :
    alwaysStep always go = always := by
  obtain ⟨⟨key, value⟩, found, rfl⟩ := Option.map_eq_some_iff.mp isGo
  unfold alwaysStep
  rw [found]

theorem alwaysOf_go (isGo : keyOf go = some .go) :
    alwaysOf (earlier ++ go :: later) =
      later.foldl alwaysStep (earlier.foldl alwaysStep []) := by
  unfold alwaysOf
  rw [List.foldl_append, List.foldl_cons, alwaysStep_go isGo]

variable {page : Text} {ends : WmiLine}

/-- Up to the `go`. -/
theorem opened_run [CLibrary] (opened : Opened page s) (inner : ∀ b ∈ earlier, Inner (quietLine b))
    (noQuery : ∀ b ∈ earlier, keyOf b ≠ some .query) :
    ∃ s', Run.final (wmiStep mrmachine) s (earlier.map quietLine) = s' ∧ s'.page = page ∧
      s'.always = earlier.foldl alwaysStep [] ∧ s'.color = .green ∧ Prints (textOf earlier) s' ∧
      s'.query = s.query ∧ ∃ more, s'.fields = s.fields ++ more := by
  have nothing : Prints [] s := opened.report
  obtain ⟨page', always, color, prints⟩ :=
    @quietLines_run mrmachine earlier s [] _ inner nothing
  have inners : ∀ line ∈ earlier.map quietLine, Inner line := by simpa using inner
  have noQueries : ∀ line ∈ earlier.map quietLine, keyOf line.b ≠ some .query := by
    simpa [quietLine] using noQuery
  obtain ⟨query, fields⟩ := stale_run mrmachine inners noQueries s
  refine ⟨_, rfl, page'.trans opened.page, ?_, color.trans opened.color, prints, query, fields⟩
  rw [always, opened.always]

/-- Without a query from the lines before, the page is green. -/
theorem sent_without_query [CLibrary] (opened : Opened page s) (named : page ≠ [])
    (closes : lineKey ends = some .ends)
    (inner : ∀ b ∈ earlier ++ go :: later, Inner (quietLine b)) (isGo : keyOf go = some .go)
    (noQuery : ∀ b ∈ earlier, keyOf b ≠ some .query) (fresh : s.query = [])
    (ownColor : alwaysOf (earlier ++ go :: later) = []) :
    ∃ message, (wmiStep mrmachine (Run.final (wmiStep mrmachine) s (oneAnswer earlier go later))
      ends).2.sent = some ⟨mrmachine, page, green, message⟩ := by
  obtain ⟨s', reached, page', always, color, prints, query, -⟩ :=
    @opened_run mrmachine earlier s page _ opened
      (fun b member => inner b (List.mem_append_left _ member)) noQuery
  have unanswered : answers s' ⟨go, fun _ => some [emptyRow]⟩ = none :=
    if_pos (query.trans fresh)
  obtain ⟨samePage, sameAlways, sameColor, printsOn⟩ :=
    @quiet_step _ mrmachine s' ⟨go, fun _ => some [emptyRow]⟩ (textOf earlier) (inner go (by simp))
      (fun _ => unanswered) prints
  obtain ⟨s'', alwaysEnd, colorEnd, sent⟩ :=
    @quietLines_sent mrmachine later _ _ _ ends closes
      (fun b member => inner b (List.mem_append_right _ (List.mem_cons_of_mem go member)))
      (by rw [samePage, page']; exact named) printsOn
  have noAlways : s''.always = [] := by
    rw [alwaysEnd, sameAlways, alwaysStep_go isGo, always, ← alwaysOf_go isGo, ownColor]
  have isGreen : sentColor s'' = green := by
    unfold sentColor
    rw [if_neg (not_not.mpr noAlways), colorEnd, sameColor, color]
    rfl
  rw [oneAnswer, Run.final_append, reached, Run.final_cons, sent, samePage, page', isGreen]
  exact ⟨_, rfl⟩

/-- With one, the row is printed first, and may turn the page red. -/
theorem sent_with_query [CLibrary] (opened : Opened page s) (named : page ≠ [])
    (closes : lineKey ends = some .ends)
    (inner : ∀ b ∈ earlier ++ go :: later, Inner (quietLine b)) (isGo : keyOf go = some .go)
    (noQuery : ∀ b ∈ earlier, keyOf b ≠ some .query) (stale : s.query ≠ []) {f : Field}
    {fields : List Field} (table : s.fields = f :: fields) :
    ∃ color more, (wmiStep mrmachine (Run.final (wmiStep mrmachine) s
        (oneAnswer earlier go later)) ends).2.sent =
      some ⟨mrmachine, page, color,
        (textOf earlier ++ '&' :: ((bullet f none).text ++ more)).take 9999⟩ ∧
      (alwaysOf (earlier ++ go :: later) = [] → bullet f none = .red → color ≠ green) := by
  obtain ⟨s', reached, page', always, color, prints, query, more, fields'⟩ :=
    @opened_run mrmachine earlier s page _ opened
      (fun b member => inner b (List.mem_append_left _ member)) noQuery
  have isAnswered : (wmiStep mrmachine s' ⟨go, fun _ => some [emptyRow]⟩).1 =
      [emptyRow].foldl reportObject s' := by
    obtain ⟨⟨key, value⟩, found, rfl⟩ := Option.map_eq_some_iff.mp isGo
    have answered : answers s' ⟨go, fun _ => some [emptyRow]⟩ = some [emptyRow] :=
      if_neg (query.trans_ne stale)
    have state := goLine_state s' ⟨go, fun _ => some [emptyRow]⟩
    rw [answered] at state
    unfold wmiStep
    rw [found]
    exact state
  have table' : s'.fields = f :: (fields ++ more) := by rw [fields', table, List.cons_append]
  obtain ⟨text, printsRow⟩ := go_prints table' prints
  obtain ⟨color', report, same⟩ := foldl_reportObject_frame [emptyRow] s'
  have turnsRed := reportObject_color [emptyRow] s'
  obtain ⟨s'', alwaysEnd, colorEnd, sent⟩ :=
    @quietLines_sent mrmachine later _ _ _ ends closes
      (fun b member => inner b (List.mem_append_right _ (List.mem_cons_of_mem go member)))
      (by rw [same]; exact page'.trans_ne named) printsRow
  refine ⟨sentColor s'', text ++ textOf later, ?_, fun ownColor red => ?_⟩
  · rw [oneAnswer, Run.final_append, reached, Run.final_cons, isAnswered, sent, same]
    simp [page', emptyRow]
  · have noAlways : s''.always = [] := by
      rw [alwaysEnd, same, always, ← alwaysOf_go isGo, ownColor]
    have found : [emptyRow].any (fun object =>
        s'.fields.any fun f => bullet f (object f.field) = .red) := by
      simp [table', emptyRow, red]
    unfold sentColor
    rw [if_neg (not_not.mpr noAlways), colorEnd, turnsRed, if_pos found]
    exact show "red".toList ≠ green by decide

end OneAnswer

/-! ### The pages that depend on nothing before them -/

theorem map_oneAnswer (earlier : List Text) (go : Text) (later : List Text) :
    (oneAnswer earlier go later).map WmiLine.b = earlier ++ go :: later := by
  unfold oneAnswer
  rw [List.map_append, List.map_cons, map_quietLine, map_quietLine]

theorem inner_page [CLibrary] (mrmachine : Text) {lines : List WmiLine}
    (inner : ∀ line ∈ lines, Inner line) (s : WmiState) :
    (Run.final (wmiStep mrmachine) s lines).page = s.page := by
  induction lines generalizing s with
  | nil => rfl
  | cons line rest ih =>
    rw [Run.final_cons, ih fun l member => inner l (List.mem_cons_of_mem line member)]
    have step := innerStep mrmachine s (inner line List.mem_cons_self)
    generalize (wmiStep mrmachine s line).1 = s' at step ⊢
    cases step with
    | silent | always | field | unanswered | query | text => rfl
    | answered _ objects =>
      obtain ⟨color, report, same⟩ := foldl_reportObject_frame objects s
      rw [same]

/-- The query and one field of lines before a page. -/
def staleLines (field : Text) : List WmiLine := [quietLine "query x".toList, quietLine field]

theorem staleLines_state [CLibrary] (mrmachine : Text) :
    Run.final (wmiStep mrmachine) wmiStart (staleLines "field y = 1".toList) =
        { wmiStart with query := ['x'], fields := [⟨['y'], ['='], ['1']⟩] } ∧
      Run.final (wmiStep mrmachine) wmiStart (staleLines "field y".toList) =
        { wmiStart with query := ['x'], fields := [⟨['y'], [], []⟩] } := ⟨rfl, rfl⟩

theorem textOf_append (first second : List Text) :
    textOf (first ++ second) = textOf first ++ textOf second := List.flatMap_append

theorem second_printed {text more : Text} {c : Char} (short : text.length ≤ 9997) :
    ((text ++ '&' :: c :: more).take 9999)[text.length + 1]? = some c := by
  rw [List.getElem?_take_of_lt (by omega), List.getElem?_append_right (by omega),
    Nat.add_sub_cancel_left]
  rfl

theorem sentAt_eq [CLibrary] (mrmachine : Text) (begins ends : WmiLine)
    (before lines : List WmiLine) :
    sentAt mrmachine begins ends before lines =
      (wmiStep mrmachine (Run.final (wmiStep mrmachine) (wmiStep mrmachine
        (Run.final (wmiStep mrmachine) wmiStart before) begins).1 lines) ends).2.sent := by
  unfold sentAt
  rw [Run.final_append, Run.final_cons]

theorem opened_of_begins [CLibrary] {mrmachine page : Text} {begins : WmiLine}
    (opens : pageLine begins.b = some (.begins, page)) (s : WmiState) :
    Opened page (wmiStep mrmachine s begins).1 := by
  rw [wmiStep_begins mrmachine s opens]
  exact ⟨rfl, rfl, rfl, rfl⟩

/-- A page is the same behind all lines if it has no name or each `go` of it stands behind a
`query` of it. A page that shows its color, or has room in its report, is so only then. -/
theorem page_independent_iff [CLibrary] (mrmachine : Text) {begins ends : WmiLine} {page : Text}
    (opens : pageLine begins.b = some (.begins, page)) (closes : lineKey ends = some .ends)
    (body : List Text) (inner : ∀ b ∈ body, keyOf b ≠ some .begins ∧ keyOf b ≠ some .ends) :
    (page = [] ∨ GoesQueried body → Independent mrmachine begins ends body) ∧
      (Visible body → Independent mrmachine begins ends body →
        page = [] ∨ GoesQueried body) := by
  constructor
  · rintro condition lines rfl before before'
    have inners : ∀ line ∈ lines, Inner line := fun line member =>
      inner line.b (List.mem_map_of_mem member)
    rw [sentAt_eq, sentAt_eq, wmiStep_ends mrmachine _ closes, wmiStep_ends mrmachine _ closes]
    rcases condition with noPage | queried
    · have first := @opened_of_begins _ mrmachine page begins opens
      rw [endLine_eq, endLine_eq, inner_page mrmachine inners, inner_page mrmachine inners,
        (first _).page, (first _).page, if_pos noPage, if_pos noPage]
    · exact (agree_run mrmachine inners queried (agree_begins opens)).sent
  · intro visible independent
    by_contra neither
    obtain ⟨named, unqueried⟩ := not_or.mp neither
    simp only [GoesQueried, not_forall, not_exists, not_and] at unqueried
    obtain ⟨earlier, go, later, rfl, isGo, noQuery⟩ := unqueried
    have same := independent (oneAnswer earlier go later) (map_oneAnswer earlier go later)
    obtain ⟨red, clear⟩ := staleLines_state mrmachine
    have first := @opened_of_begins _ mrmachine page begins opens
    obtain ⟨color, more, sent, shows⟩ :=
      sent_with_query (first (Run.final (wmiStep mrmachine) wmiStart
        (staleLines "field y = 1".toList))) named closes inner isGo noQuery
        (by rw [wmiStep_begins mrmachine _ opens, red]; simp)
        (f := ⟨['y'], ['='], ['1']⟩) (by rw [wmiStep_begins mrmachine _ opens, red])
    rw [← sentAt_eq] at sent
    rcases visible with ownColor | room
    · obtain ⟨message, sent'⟩ := sent_without_query (first (Run.final (wmiStep mrmachine)
        wmiStart [])) named closes inner isGo noQuery
        (by rw [wmiStep_begins mrmachine _ opens]; rfl) ownColor
      rw [← sentAt_eq, same [] (staleLines "field y = 1".toList), sent] at sent'
      simp only [Option.some.injEq, Report.mk.injEq] at sent'
      exact shows ownColor (rfl) sent'.2.2.1
    · obtain ⟨color', more', sent', -⟩ :=
        sent_with_query (first (Run.final (wmiStep mrmachine) wmiStart
          (staleLines "field y".toList))) named closes inner isGo noQuery
          (by rw [wmiStep_begins mrmachine _ opens, clear]; simp)
          (f := ⟨['y'], [], []⟩) (by rw [wmiStep_begins mrmachine _ opens, clear])
      rw [← sentAt_eq, same (staleLines "field y".toList) (staleLines "field y = 1".toList),
        sent] at sent'
      simp only [Option.some.injEq, Report.mk.injEq] at sent'
      have short : (textOf earlier).length ≤ 9997 := by
        have all := congrArg List.length (textOf_append earlier (go :: later))
        rw [List.length_append] at all
        omega
      -- The second character behind the texts in front of the `go` tells the bullets apart.
      have second := congrArg (fun message => message[(textOf earlier).length + 1]?) sent'.2.2.2
      rw [show (bullet ⟨['y'], ['='], ['1']⟩ none).text = 'r' :: "ed".toList from rfl,
        show (bullet ⟨['y'], [], []⟩ none).text = 'c' :: "lear".toList from rfl,
        List.cons_append, List.cons_append, second_printed short, second_printed short] at second
      cases second

/-- A page that brings its query. -/
theorem page_independent_of_query :
    Independent "host".toList (quietLine "begin disks".toList) (quietLine "end".toList)
      ["query select * from Win32_foo".toList, "field yyy > 0".toList, "go".toList] := by
  have opens : pageLine (quietLine "begin disks".toList).b = some (.begins, "disks".toList) := by
    decide
  refine (page_independent_iff "host".toList opens (by decide)
    ["query select * from Win32_foo".toList, "field yyy > 0".toList, "go".toList]
    (by decide)).1 (Or.inr ?_)
  intro before go after split isGo
  cases before with
  | nil =>
    obtain ⟨rfl, -⟩ := List.cons.inj split
    exact absurd isGo (by decide)
  | cons first before =>
    obtain ⟨rfl, -⟩ := List.cons.inj split
    exact ⟨_, List.mem_cons_self, by decide⟩

/-- A page without a query of its own reports the query of the lines before it. -/
theorem stale_query_reported :
    ¬ Independent "host".toList (quietLine "begin disks".toList) (quietLine "end".toList)
      ["go".toList] := by
  intro independent
  have same := independent [⟨"go".toList, fun _ => some [emptyRow]⟩] rfl []
    (staleLines "field y = 1".toList)
  have alone : sentAt "host".toList (quietLine "begin disks".toList) (quietLine "end".toList) []
      [⟨"go".toList, fun _ => some [emptyRow]⟩] =
        some ⟨"host".toList, "disks".toList, green, []⟩ := by decide
  have behind : sentAt "host".toList (quietLine "begin disks".toList) (quietLine "end".toList)
      (staleLines "field y = 1".toList) [⟨"go".toList, fun _ => some [emptyRow]⟩] =
        some ⟨"host".toList, "disks".toList, "red".toList, "&red y: \n\n".toList⟩ := by decide
  rw [alone, behind] at same
  exact absurd same (by decide)

end MrBig.Guarantees.WmiIndependence
