import MrBig.Library.Delimited
import MrBig.Library.KeyedList
import MrBig.Source.CString

/-!
# The configuration store: `add_cfg` and `get_cfg`

cfg.c:13-85. One text per section name, the section's lines each with its newline.
-/

set_option autoImplicit false

namespace MrBig.Source
open Library

def cfgMax : Nat := 32000

/-- struct config without its link. -/
structure Config where
  name : Text
  cfg : Text
  deriving DecidableEq, Repr

def Config.append (line : Text) (c : Config) : Config :=
  { c with cfg := snprcat c.cfg cfgMax (line ++ ['\n']) }

/-- A section that is not there yet goes in empty, at the head; the line is then
appended in place. -/
def addCfg (conf : List Config) (name cfg : Text) : List Config :=
  let conf :=
    match KeyedList.find Config.name name conf with
    | none => ⟨name, []⟩ :: conf
    | some _ => conf
  KeyedList.modify Config.name name (Config.append cfg) conf

/-- A call of `add_cfg`: the section name and the line. -/
abbrev Add := Text × Text

def addAll (conf : List Config) (adds : List Add) : List Config :=
  adds.foldl (fun conf a => addCfg conf a.1 a.2) conf

/-- The return value and what is stored in `b`, if anything is. The loop over
`strchr(p, '\n')` is `Delimited.nth`. -/
def getCfg (conf : List Config) (name : Text) (n line : Nat) : Nat × Option Text :=
  match KeyedList.find Config.name name conf with
  | none => (0, none)
  | some c =>
    match Delimited.nth '\n' line c.cfg with
    | none => (0, none)
    | some p =>
      if p.length ≥ n then (2, some (p.take (n - 1)))
      else (1, some p)

/-- The text stored for a section; nothing is stored for a name that was never added. -/
def sectionText (conf : List Config) (name : Text) : Text :=
  (KeyedList.find Config.name name conf).elim [] Config.cfg

theorem getCfg_sectionText (conf : List Config) (name : Text) (n line : Nat) :
    getCfg conf name n line =
      match Delimited.nth '\n' line (sectionText conf name) with
      | none => (0, none)
      | some p => if p.length ≥ n then (2, some (p.take (n - 1))) else (1, some p) := by
  unfold getCfg sectionText
  cases KeyedList.find Config.name name conf with
  | none => rw [Option.elim_none, Delimited.nth_of_notMem line (by simp)]
  | some c => rfl

/-- `get_cfg` reads nothing but the section. -/
theorem getCfg_congr {conf conf' : List Config} {name : Text}
    (same : sectionText conf name = sectionText conf' name) (n line : Nat) :
    getCfg conf name n line = getCfg conf' name n line := by
  rw [getCfg_sectionText, getCfg_sectionText, same]

/-- `get_cfg` stores nothing where it returns 0. -/
theorem getCfg_zero {conf : List Config} {name : Text} {n line : Nat} {b : Option Text}
    (zero : getCfg conf name n line = (0, b)) : b = none := by
  rw [getCfg_sectionText] at zero
  cases found : Delimited.nth '\n' line (sectionText conf name) with
  | none =>
    rw [found] at zero
    exact (Prod.mk.inj zero).2.symm
  | some p =>
    rw [found] at zero
    dsimp only at zero
    split at zero <;> cases zero

theorem Config.append_name {line name : Text} (c : Config) (same : c.name = name) :
    (c.append line).name = name := same

theorem addCfg_eq_enter (conf : List Config) (name cfg : Text) :
    addCfg conf name cfg =
      KeyedList.enter Config.name name ⟨name, []⟩ (Config.append cfg) conf := by
  unfold addCfg KeyedList.enter
  cases KeyedList.find Config.name name conf <;> rfl

theorem sectionText_addCfg_self (conf : List Config) (name cfg : Text) :
    sectionText (addCfg conf name cfg) name =
      snprcat (sectionText conf name) cfgMax (cfg ++ ['\n']) := by
  unfold sectionText
  rw [addCfg_eq_enter, KeyedList.find_enter_self Config.append_name (by rfl)]
  cases KeyedList.find Config.name name conf with
  | none => rfl
  | some c => rfl

theorem sectionText_addCfg_other (conf : List Config) {name other : Text} (cfg : Text)
    (different : other ≠ name) :
    sectionText (addCfg conf name cfg) other = sectionText conf other := by
  unfold sectionText
  rw [addCfg_eq_enter, KeyedList.find_enter_of_ne Config.append_name (by rfl) different]

end MrBig.Source
