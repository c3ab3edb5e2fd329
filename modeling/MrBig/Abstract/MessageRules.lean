import MrBig.Source.Msgs

/-!
# The rules that a section writes

What EVENTS says of msgs.cfg, without buffers and conversions: a rule is an action, a test
and a value, apart from each other by blanks, the value up to the end of the line.
-/

set_option autoImplicit false

namespace MrBig.Abstract
open Library Source

def actionWord : Option Color → Text
  | some color => color.text
  | none => "ignore".toList

def testWord : RuleTest → Text
  | .type => "type".toList
  | .source => "source".toList
  | .message => "message".toList
  | .id => "id".toList
  | .log => "log".toList

def LineEnd (c : Char) : Prop := c = '\r' ∨ c = '\n'

/-- A value starts with a letter and stays on its line. -/
structure IsValue (value : Text) : Prop where
  nonempty : value ≠ []
  starts : ∀ c ∈ value.head?, ¬ isspace c
  oneLine : ∀ c ∈ value, ¬ LineEnd c

/-- The line writes the rule. -/
def WritesRule (b : Text) (r : Rule) : Prop :=
  ∃ lead gap gap' tail, Blank lead ∧ (Blank gap ∧ gap ≠ []) ∧ (Blank gap' ∧ gap' ≠ []) ∧
    IsValue r.value ∧ (∀ c ∈ tail.head?, LineEnd c) ∧
    b = lead ++ (actionWord r.action ++ (gap ++ (testWord r.test ++ (gap' ++ (r.value ++ tail)))))

/-- The rules of a section: one for each line that writes one. -/
inductive WritesRules : List Text → List Rule → Prop
  | done : WritesRules [] []
  | rule {b : Text} {r : Rule} {lines : List Text} {rules : List Rule} (writes : WritesRule b r)
      (after : WritesRules lines rules) : WritesRules (b :: lines) (r :: rules)
  | skip {b : Text} {lines : List Text} {rules : List Rule} (other : ∀ r, ¬ WritesRule b r)
      (after : WritesRules lines rules) : WritesRules (b :: lines) rules

/-! ### `read_msgcfg` reads them -/

theorem scanRest_eq_some_iff {s value : Text} :
    scanRest s = some value ↔
      ∃ lead tail, Blank lead ∧ IsValue value ∧ (∀ c ∈ tail.head?, LineEnd c) ∧
        s = lead ++ (value ++ tail) := by
  constructor
  · intro found
    have solid : ∀ c ∈ (s.dropWhile isspace).head?, ¬ isspace c :=
      (Delimited.longestRun_iff.mp ⟨rfl, rfl⟩).2.2
    obtain ⟨lead, blank, split⟩ := (skipBlanks_iff solid).mp rfl
    obtain ⟨run, letters, ends⟩ := Delimited.longestRun_iff.mp
      ⟨rfl, (rfl : (s.dropWhile isspace).dropWhile
        (fun c => decide (c ≠ '\r' ∧ c ≠ '\n')) = _)⟩
    unfold scanRest at found
    split at found
    next => cases found
    next nonempty =>
      obtain rfl := Option.some.inj found
      refine ⟨lead, _, blank, ⟨nonempty, ?_, by simpa [LineEnd] using letters⟩,
        by simpa [LineEnd, or_iff_not_imp_left] using ends, split.trans (congrArg (lead ++ ·) run)⟩
      intro c head
      apply solid
      rw [run, List.head?_append]
      rw [Option.mem_def.mp head]
      rfl
  · rintro ⟨lead, tail, blank, line, ends, rfl⟩
    obtain ⟨nonempty, starts, oneLine⟩ := line
    obtain ⟨c, value, rfl⟩ := List.exists_cons_of_ne_nil nonempty
    have dropped : (lead ++ (c :: value ++ tail)).dropWhile isspace = c :: value ++ tail :=
      (skipBlanks_iff (by simpa using starts)).mpr ⟨lead, blank, rfl⟩
    have taken : (c :: value ++ tail).takeWhile (fun c => decide (c ≠ '\r' ∧ c ≠ '\n')) =
        c :: value :=
      (Delimited.longestRun_iff.mpr ⟨rfl, by simpa [LineEnd] using oneLine,
        by simpa [LineEnd, or_iff_not_imp_left] using ends⟩).1
    unfold scanRest
    rw [dropped, taken]

theorem ruleAction_eq_some_iff {word : Text} {action : Option Color} :
    ruleAction word = some action ↔ word = actionWord action := by
  constructor
  · intro found
    unfold ruleAction at found
    repeat' split at found
    all_goals cases found
    all_goals assumption
  · rintro rfl
    cases action with
    | none => decide
    | some color => cases color <;> decide

theorem ruleTest_eq_some_iff {word : Text} {test : RuleTest} :
    ruleTest word = some test ↔ word = testWord test := by
  constructor
  · intro found
    unfold ruleTest at found
    repeat' split at found
    all_goals cases found
    all_goals assumption
  · rintro rfl
    cases test <;> decide

theorem isWord_actionWord (action : Option Color) : IsWord (actionWord action) := by
  cases action with
  | none => decide
  | some color => cases color <;> decide

theorem isWord_testWord (test : RuleTest) : IsWord (testWord test) := by
  cases test <;> decide

/-- Behind a word that has ended, the next word has blanks before it. -/
theorem gap_ne_nil {gap word rest : Text} (ends : WordEnds (gap ++ (word ++ rest)))
    (isWord : IsWord word) : gap ≠ [] := by
  rintro rfl
  obtain ⟨nonempty, letters⟩ := isWord
  obtain ⟨c, word, rfl⟩ := List.exists_cons_of_ne_nil nonempty
  exact letters c List.mem_cons_self (ends c rfl)

theorem wordEnds_gap {gap rest : Text} (blank : Blank gap) (nonempty : gap ≠ []) :
    WordEnds (gap ++ rest) := by
  obtain ⟨c, gap, rfl⟩ := List.exists_cons_of_ne_nil nonempty
  intro d head
  obtain rfl : c = d := by simpa using head
  exact blank c List.mem_cons_self

/-- No action starts a comment. -/
theorem actionWord_noComment (action : Option Color) : (actionWord action).head? ≠ some '#' := by
  cases action with
  | none => decide
  | some color => cases color <;> decide

/-- `read_msgcfg` takes a line for a rule exactly if it writes one. -/
theorem lineRule_eq_some_iff {b : Text} {r : Rule} : lineRule b = some r ↔ WritesRule b r := by
  constructor
  · intro found
    unfold lineRule at found
    split at found
    next => cases found
    next =>
      split at found
      next action test value scanned =>
        obtain ⟨action', isAction, found⟩ := Option.bind_eq_some_iff.mp found
        obtain ⟨test', isTest, found⟩ := Option.bind_eq_some_iff.mp found
        cases found
        obtain rfl := ruleAction_eq_some_iff.mp isAction
        obtain rfl := ruleTest_eq_some_iff.mp isTest
        obtain ⟨_, _, first, second, third⟩ := scanTwoWords_eq_iff.mp scanned
        obtain ⟨lead, blank, _, ends, rfl⟩ := scanWord_eq_some_iff.mp first
        obtain ⟨gap, blankGap, testIs, ends', rfl⟩ := scanWord_eq_some_iff.mp second
        obtain ⟨gap', tail, blankGap', line, lineEnds, rfl⟩ := scanRest_eq_some_iff.mp third
        refine ⟨lead, gap, gap', tail, blank, ⟨blankGap, gap_ne_nil ends testIs⟩,
          ⟨blankGap', ?_⟩, line, lineEnds, rfl⟩
        rintro rfl
        obtain ⟨c, value, rfl⟩ := List.exists_cons_of_ne_nil line.nonempty
        exact line.starts c rfl (ends' c rfl)
      next => cases found
  · rintro ⟨lead, gap, gap', tail, blank, ⟨blankGap, someGap⟩, ⟨blankGap', someGap'⟩, line, ends,
      written⟩
    have first : scanWord b = some (actionWord r.action, _) := scanWord_eq_some_iff.mpr
      ⟨lead, blank, isWord_actionWord _, wordEnds_gap blankGap someGap, written⟩
    have second : scanWord (gap ++ (testWord r.test ++ (gap' ++ (r.value ++ tail)))) =
        some (testWord r.test, gap' ++ (r.value ++ tail)) := scanWord_eq_some_iff.mpr
      ⟨gap, blankGap, isWord_testWord r.test, wordEnds_gap blankGap' someGap', rfl⟩
    have third : scanRest (gap' ++ (r.value ++ tail)) = some r.value :=
      scanRest_eq_some_iff.mpr ⟨gap', tail, blankGap', line, ends, rfl⟩
    have scanned : scanRule b =
        (some (actionWord r.action), some (testWord r.test), some r.value) :=
      scanTwoWords_eq_iff.mpr ⟨_, _, first, second, third⟩
    have noComment : b.head? ≠ some '#' := by
      rw [written]
      cases lead with
      | nil =>
        rw [List.nil_append, List.head?_append_of_ne_nil _ (isWord_actionWord r.action).1]
        exact actionWord_noComment r.action
      | cons c lead =>
        rintro head
        obtain rfl : c = '#' := by simpa using head
        exact absurd (blank '#' List.mem_cons_self) (by decide)
    unfold lineRule
    rw [if_neg noComment, scanned]
    simp [ruleAction_eq_some_iff.mpr rfl, ruleTest_eq_some_iff.mpr rfl]

theorem writesRules_iff {lines : List Text} {rules : List Rule} :
    WritesRules lines rules ↔ rules = lines.filterMap lineRule := by
  constructor
  · intro written
    induction written with
    | done => rfl
    | rule writes after ih => rw [List.filterMap_cons_some (lineRule_eq_some_iff.mpr writes), ← ih]
    | skip other after ih =>
      rw [List.filterMap_cons_none ?_, ← ih]
      rw [Option.eq_none_iff_forall_ne_some]
      exact fun r found => other r (lineRule_eq_some_iff.mp found)
  · rintro rfl
    induction lines with
    | nil => exact .done
    | cons b lines ih =>
      cases found : lineRule b with
      | none =>
        rw [List.filterMap_cons_none found]
        refine .skip (fun r writes => ?_) ih
        rw [lineRule_eq_some_iff.mpr writes] at found
        cases found
      | some r =>
        rw [List.filterMap_cons_some found]
        exact .rule (lineRule_eq_some_iff.mp found) ih

end MrBig.Abstract
