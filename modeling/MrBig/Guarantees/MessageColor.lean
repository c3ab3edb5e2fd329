import MrBig.Abstract.MessageRules
import MrBig.Library.Verdict

/-!
# The message page shows the worst matched event

An event counts with the action of the first rule that matches it, and the page has the
worst color that any event counts with.
-/

set_option autoImplicit false

namespace MrBig.Guarantees.MessageColor
open Library Source Abstract

/-- The event of a log counts with a color: that of the first rule that matches it. -/
def CountsWith (rules : List Rule) (entry : Text × Event) (color : Color) : Prop :=
  ∃ r, Verdict.FirstMatch (fun q : Rule => q.Matches entry.2 entry.1) rules r ∧
    r.action = some color

/-- The colors that the page has to reckon with. -/
def countedColors (rules : List Rule) (input : MsgsInput) : Set Color :=
  {color | ∃ entry ∈ input.entries, CountsWith rules entry color}

/-- The page has the worst color that an event counts with, green if there is none. -/
def ShowsWorst (rules : List Rule) (input : MsgsInput) (page : Report) : Prop :=
  ∃ color, page.color = color.text ∧
    IsGreatest (insert .green (countedColors rules input)) color

theorem matchRules_eq_some_iff {rules : List Rule} {e : Event} {log : Text} {color : Color} :
    matchRules rules e log = some color ↔
      ∃ r, Verdict.FirstMatch (fun q : Rule => q.Matches e log) rules r ∧
        r.action = some color := by
  induction rules with
  | nil => simp [matchRules]
  | cons q rules ih =>
    unfold matchRules
    split
    next hit =>
      have first : ∀ r, Verdict.FirstMatch (·.Matches e log) (q :: rules) r ↔ r = q :=
        fun r => Verdict.firstMatch_cons_of_match hit
      simp [first]
    next passed =>
      have later : ∀ r, Verdict.FirstMatch (·.Matches e log) (q :: rules) r ↔
          Verdict.FirstMatch (·.Matches e log) rules r :=
        fun r => Verdict.firstMatch_cons_of_pass passed
      simp only [ih, later]

/-- The loop keeps the running maximum of the colors it is given. -/
theorem msgsEvent_color (ctime : Int → Text) (rules : List Rule) (page : MsgsPage)
    (entries : List (Text × Event)) :
    (entries.foldl (msgsEvent ctime rules) page).1 =
      (entries.filterMap fun entry => matchRules rules entry.2 entry.1).foldl max page.1 := by
  induction entries generalizing page with
  | nil => rfl
  | cons entry entries ih =>
    rw [List.foldl_cons, ih]
    cases found : matchRules rules entry.2 entry.1 with
    | none => simp [msgsEvent, found]
    | some mycolor => simp [msgsEvent, found]

theorem msgs_showsWorst {input : MsgsInput} (conf : List Config)
    (enabled : getOption input.options "no_msgs".toList false = none) :
    ShowsWorst (readMsgcfg conf) input (msgs input conf) := by
  have page : msgs input conf = _ := if_neg (not_not_intro enabled)
  refine ⟨_, congrArg Report.color page, ?_⟩
  rw [msgsEvent_color]
  convert Verdict.isGreatest_foldl_max _ _ using 2
  ext color
  simp [countedColors, CountsWith, matchRules_eq_some_iff]

/-- The worst color depends on which events there are, not on their order. -/
theorem ShowsWorst.color_eq {rules : List Rule} {input other : MsgsInput} {page page' : Report}
    (permuted : input.entries.Perm other.entries) (shows : ShowsWorst rules input page)
    (shows' : ShowsWorst rules other page') : page'.color = page.color := by
  obtain ⟨color, shown, greatest⟩ := shows
  obtain ⟨color', shown', greatest'⟩ := shows'
  have same : countedColors rules other = countedColors rules input := by
    ext c
    simp [countedColors, permuted.mem_iff]
  rw [same] at greatest'
  rw [shown, shown', greatest.unique greatest']

/-- The first thousand rules that the section writes decide the color of the page, in
whatever order the logs and their events come. -/
theorem msgs_shows_worst (input : MsgsInput) (conf : List Config)
    (enabled : getOption input.options "no_msgs".toList false = none) :
    ∃ rules, WritesRules (msgsLines conf) rules ∧
      ShowsWorst (rules.take rulesMax) input (msgs input conf) ∧
      ∀ keys, input.entries.Perm { input with keys := keys }.entries →
        (msgs { input with keys := keys } conf).color = (msgs input conf).color := by
  refine ⟨(msgsLines conf).filterMap lineRule, writesRules_iff.mpr rfl, ?_, ?_⟩
  · rw [← readMsgcfg_eq]
    exact msgs_showsWorst conf enabled
  · intro keys permuted
    exact ShowsWorst.color_eq permuted (msgs_showsWorst conf enabled)
      (msgs_showsWorst conf enabled)

/-- The rules of EVENTS for errors and warnings. -/
def errorsAndWarnings : List Config :=
  addAll []
    [("msgs".toList, "red type error".toList), ("msgs".toList, "yellow type warning".toList)]

/-- A machine with one log. -/
def oneLog (readLog : Int → Bool → List Event) : MsgsInput where
  options := []
  mrmachine := "localhost".toList
  msgage := 3600
  now := "now".toList
  t0 := 1700000000
  fastfile := false
  ctime := fun _ => "then\n".toList
  keys := [some ⟨"System".toList, readLog⟩]

def diskFailure : Event := ⟨1699999000, 7, 1, "disk".toList, "bad block".toList⟩

theorem msgs_shows_worst_oneLog :
    ∃ rules, WritesRules (msgsLines errorsAndWarnings) rules ∧
      ShowsWorst (rules.take rulesMax) (oneLog fun _ _ => [diskFailure])
        (msgs (oneLog fun _ _ => [diskFailure]) errorsAndWarnings) ∧
      ∀ keys, (oneLog fun _ _ => [diskFailure]).entries.Perm
          { oneLog fun _ _ => [diskFailure] with keys := keys }.entries →
        (msgs { oneLog fun _ _ => [diskFailure] with keys := keys } errorsAndWarnings).color =
          (msgs (oneLog fun _ _ => [diskFailure]) errorsAndWarnings).color :=
  msgs_shows_worst (oneLog fun _ _ => [diskFailure]) errorsAndWarnings (by decide)

example : (msgs (oneLog fun _ _ => [diskFailure]) errorsAndWarnings).color = "red".toList := by
  decide

end MrBig.Guarantees.MessageColor
