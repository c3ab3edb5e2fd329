import MrBig.Library.Overwrite
import MrBig.Source.Settings

/-!
# What a reload of the configuration forgets

INSTALL: it is not necessary to restart the service after changing the configuration.
`readcfg` resets the settings before it reads the directives, but not `cfgdir`,
`report_size` and `debug`: these keep their old value where no directive sets them.
-/

set_option autoImplicit false

namespace MrBig.Guarantees.Reload
open Library Source

/-- The settings without the debug level. -/
def apartFromDebug (s : Settings) : Settings := { s with debug := 0 }

/-- The settings that `readcfg` resets. -/
def resetPart (s : Settings) : Settings := { s with cfgdir := [], reportSize := 0, debug := 0 }

/-- What a directive writes into the settings that are not reset. -/
def reportSizeOf : Directive → Option Int
  | .reportSize n => some n
  | _ => none

def cfgdirOf : Directive → Option Text
  | .cfgdir name => some name
  | _ => none

def debugOf : Directive → Option Int
  | .debug n => some n
  | _ => none

/-- The stored configuration has a directive that writes. -/
def Sets {β : Type} (written : Directive → Option β) (conf : List Config) : Prop :=
  ∃ d ∈ directives conf, written d ≠ none

variable (opens : Text → Bool)

theorem overwrites_reportSize :
    Overwrite.Overwrites (applyDirective opens) Settings.reportSize reportSizeOf := by
  intro s d
  cases d <;> rfl

theorem overwrites_cfgdir :
    Overwrite.Overwrites (applyDirective opens) Settings.cfgdir cfgdirOf := by
  intro s d
  cases d <;> rfl

theorem overwrites_debug :
    Overwrite.Overwrites (applyDirective opens) Settings.debug debugOf := by
  intro s d
  cases d <;> rfl

/-- A directive makes the part that is reset from that part alone. -/
theorem resetPart_applyDirective (s : Settings) (d : Directive) :
    resetPart (applyDirective opens s d) = resetPart (applyDirective opens (resetPart s) d) := by
  cases d <;> rfl

theorem resetPart_finishCfg {s s' : Settings} (same : resetPart s = resetPart s') :
    resetPart (finishCfg s) = resetPart (finishCfg s') := by
  have finished : ∀ s, resetPart (finishCfg s) = finishCfg (resetPart s) := fun s => rfl
  rw [finished, finished, same]

/-- Whatever the settings were, the part that is reset comes out the same. -/
theorem resetPart_readcfg (conf : List Config) (s s' : Settings) :
    resetPart (readcfg opens conf s) = resetPart (readcfg opens conf s') := by
  have defaults : resetPart (setDefaults s) = resetPart (setDefaults s') := rfl
  refine resetPart_finishCfg (Overwrite.foldl_congr (fun s s' d same => ?_) defaults _)
  rw [resetPart_applyDirective, same, ← resetPart_applyDirective]

theorem apartFromDebug_eq_iff {s s' : Settings} (same : resetPart s = resetPart s') :
    apartFromDebug s = apartFromDebug s' ↔ s.reportSize = s'.reportSize ∧ s.cfgdir = s'.cfgdir := by
  cases s
  cases s'
  simp only [resetPart, apartFromDebug, Settings.mk.injEq] at same ⊢
  simp [same, and_comm]

/-- The settings after a reload are the same, whatever they were before, exactly if
`report_size` and `cfgdir` were the same before or are set by a directive; and likewise
for the debug level. -/
theorem readcfg_forgets_iff {conf conf' : List Config}
    (stored : sectionText conf "mrbig".toList = sectionText conf' "mrbig".toList)
    (s s' : Settings) :
    (apartFromDebug (readcfg opens conf s) = apartFromDebug (readcfg opens conf' s') ↔
      (s.reportSize = s'.reportSize ∨ Sets reportSizeOf conf) ∧
        (s.cfgdir = s'.cfgdir ∨ Sets cfgdirOf conf)) ∧
    ((readcfg opens conf s).debug = (readcfg opens conf' s').debug ↔
      s.debug = s'.debug ∨ Sets debugOf conf) := by
  have same : readcfg opens conf' s' = readcfg opens conf s' := by
    rw [readcfg, readcfg, directives_congr stored]
  rw [same]
  constructor
  · rw [apartFromDebug_eq_iff (resetPart_readcfg opens conf s s')]
    exact and_congr
      ((overwrites_reportSize opens).foldl_eq_iff (setDefaults s) (setDefaults s') _)
      ((overwrites_cfgdir opens).foldl_eq_iff (setDefaults s) (setDefaults s') _)
  · exact (overwrites_debug opens).foldl_eq_iff (setDefaults s) (setDefaults s') _

/-- A configuration of one line. -/
def oneLine (line : String) : List Config := addAll [] [("mrbig".toList, line.toList)]

theorem readcfg_forgets_iff_sleep :
    (apartFromDebug (readcfg (fun _ => true) (oneLine "sleep 60") startup) =
        apartFromDebug (readcfg (fun _ => true)
          (addCfg (oneLine "sleep 60") "disk".toList "C".toList) (setDefaults startup)) ↔
      (startup.reportSize = (setDefaults startup).reportSize ∨
          Sets reportSizeOf (oneLine "sleep 60")) ∧
        (startup.cfgdir = (setDefaults startup).cfgdir ∨ Sets cfgdirOf (oneLine "sleep 60"))) ∧
    ((readcfg (fun _ => true) (oneLine "sleep 60") startup).debug =
        (readcfg (fun _ => true)
          (addCfg (oneLine "sleep 60") "disk".toList "C".toList) (setDefaults startup)).debug ↔
      startup.debug = (setDefaults startup).debug ∨ Sets debugOf (oneLine "sleep 60")) :=
  readcfg_forgets_iff (fun _ => true) (by decide) startup (setDefaults startup)

/-- A report size that is no longer in the file outlives the reload. -/
theorem removed_report_size_lingers :
    apartFromDebug (readcfg (fun _ => true) (oneLine "sleep 60")
        (readcfg (fun _ => true) (oneLine "report_size 5000") startup)) ≠
      apartFromDebug (readcfg (fun _ => true) (oneLine "sleep 60") startup) := by
  intro same
  have reportSize := congrArg Settings.reportSize same
  revert reportSize
  decide

end MrBig.Guarantees.Reload
