import MrBig.Guarantees.Drives
import MrBig.Library.Verdict
import MrBig.Source.Disk
import MrBig.Source.Msgs

/-!
# The disk page shows the worst of the fixed drives

A drive is judged by the last line of the section that names it, or by the defaults. The page has
the colour of the worst verdict and a line for every drive that is not green, in the order of the
letters.
-/

set_option autoImplicit false

namespace MrBig.Guarantees.DiskPage
open Library Source Source.Disk Drives

/-! ### Limits -/

section Limits

variable {scan : Text → Option DiskLimit} {lines : List Text}

/-- The line is read as limits for the drive. -/
def Names (scan : Text → Option DiskLimit) (drive : Text) (b : Text) : Prop :=
  ∃ pc, diskcfgLine scan b = some pc ∧ strcasecmp pc.name drive = true

/-- What `read_diskcfg` finds for a drive: the limits of the last line that names it, or those of
the settings. -/
def LimitsOf (scan : Text → Option DiskLimit) (lines : List Text) (s : Settings) (drive : Text)
    (limits : Float × Float) : Prop :=
  (∃ before b after pc, lines = before ++ b :: after ∧ diskcfgLine scan b = some pc ∧
    strcasecmp pc.name drive = true ∧ (∀ later ∈ after, ¬ Names scan drive later) ∧
    limits = (pc.yellow, pc.red)) ∨
  (∀ b ∈ lines, ¬ Names scan drive b) ∧ limits = (s.dfyellow, s.dfred)

/-- `lookup_limits` in the list that `read_diskcfg` makes of the lines. -/
def lookupIn (scan : Text → Option DiskLimit) (lines : List Text) (s : Settings) (drive : Text) :
    Float × Float :=
  lookupLimits (lines.foldl (fun pcfgDisk b => (diskcfgLine scan b).toList ++ pcfgDisk) []) s drive

theorem lookupIn_concat_names {s : Settings} {drive b : Text} {pc : DiskLimit}
    (read : diskcfgLine scan b = some pc) (named : strcasecmp pc.name drive = true) :
    lookupIn scan (lines ++ [b]) s drive = (pc.yellow, pc.red) := by
  rw [lookupIn, List.foldl_append, List.foldl_cons, List.foldl_nil, read]
  simp [lookupLimits, named]

theorem lookupIn_concat_other {s : Settings} {drive b : Text} (other : ¬ Names scan drive b) :
    lookupIn scan (lines ++ [b]) s drive = lookupIn scan lines s drive := by
  rw [lookupIn, List.foldl_append, List.foldl_cons, List.foldl_nil]
  cases read : diskcfgLine scan b with
  | none => rfl
  | some pc =>
    have passed : strcasecmp pc.name drive = false :=
      Bool.eq_false_iff.mpr fun named => other ⟨pc, read, named⟩
    simp [lookupLimits, lookupIn, passed]

theorem LimitsOf.concat {s : Settings} {drive b : Text} {limits : Float × Float}
    (found : LimitsOf scan lines s drive limits) (other : ¬ Names scan drive b) :
    LimitsOf scan (lines ++ [b]) s drive limits := by
  rcases found with ⟨before, c, after, pc, rfl, read, named, last, same⟩ | ⟨nowhere, same⟩
  · refine Or.inl ⟨before, c, after ++ [b], pc, by simp, read, named, fun later member => ?_, same⟩
    rcases List.mem_append.mp member with old | new
    · exact last later old
    · rwa [List.mem_singleton.mp new]
  · refine Or.inr ⟨fun c member => ?_, same⟩
    rcases List.mem_append.mp member with old | new
    · exact nowhere c old
    · rwa [List.mem_singleton.mp new]

/-- The last line that names a drive is the one that is found. -/
theorem limitsOf_lookupIn (s : Settings) (drive : Text) :
    LimitsOf scan lines s drive (lookupIn scan lines s drive) := by
  induction lines using List.reverseRecOn with
  | nil => exact Or.inr ⟨by simp, rfl⟩
  | append_singleton lines b ih =>
    by_cases names : Names scan drive b
    · obtain ⟨pc, read, named⟩ := names
      rw [lookupIn_concat_names read named]
      exact Or.inl ⟨lines, b, [], pc, rfl, read, named, by simp, rfl⟩
    · rw [lookupIn_concat_other names]
      exact ih.concat names

end Limits

/-! ### Verdicts -/

def pctOf (d : DiskDrive) : Float :=
  match d.space with
  | none => 0
  | some (total, free) => 100.0 - 100.0 * free.toFloat / total.toFloat

def judge (pct : Float) (limits : Float × Float) : Color :=
  if pct ≥ limits.2 then .red else if pct ≥ limits.1 then .yellow else .green

section Page

variable (double : PrintDouble) (drive : Nat → DiskDrive) (limits : Nat → Float × Float)

/-- A drive that is not fixed is as good as a green one. -/
def verdict (i : Nat) : Color :=
  if (drive i).fixed then judge (pctOf (drive i)) (limits i) else .green

def rootOf (i : Nat) : Text := driveLetter i :: ":\\".toList

/-- What the page says of a drive in front of the table. -/
def warning (i : Nat) : Text :=
  match verdict drive limits i with
  | .red => panicText double (rootOf i) (pctOf (drive i)) (limits i).2
  | .yellow => warningText double (rootOf i) (pctOf (drive i)) (limits i).1
  | .green => []

/-- The row of a drive in the table. -/
def row (i : Nat) : Text :=
  if (drive i).fixed then
    let (total, free) := (drive i).space.getD (0, 0)
    filesystemText double (driveLetter i) total free (pctOf (drive i))
  else []

end Page

/-- What the loop has made of the drives so far: the worst verdict, and the beginning of the
texts. -/
def stateOf (color : Color) (r q : Text) : DiskState := ⟨color.text, r.take 4999, q.take 4999⟩

theorem snprcat_cut (r printed : Text) :
    snprcat (r.take 4999) 5000 printed = (r ++ printed).take 4999 := snprcat_take 5000 r printed

theorem text_yellow (color : Color) :
    (if color.text = green then "yellow".toList else color.text) = (max color .yellow).text := by
  cases color <;> decide

/-- The two comparisons of the loop. -/
theorem judged (pct : Float) (limits : Float × Float) (panic warn : Text) (color : Color)
    (r q : Text) :
    (if pct ≥ limits.2 then
      { stateOf color r q with
        r := snprcat (stateOf color r q).r 5000 panic, color := "red".toList }
    else if pct ≥ limits.1 then
      { stateOf color r q with
        r := snprcat (stateOf color r q).r 5000 warn
        color := if (stateOf color r q).color = green then "yellow".toList
          else (stateOf color r q).color }
    else stateOf color r q) =
    stateOf (max color (judge pct limits))
      (r ++ match judge pct limits with
        | .red => panic
        | .yellow => warn
        | .green => []) q := by
  unfold judge
  by_cases red : pct ≥ limits.2
  · have worst : max color .red = .red := by cases color <;> decide
    rw [if_pos red, if_pos red, worst]
    exact congrArg (DiskState.mk _ · _) (snprcat_cut r panic)
  · rw [if_neg red, if_neg red]
    by_cases yellow : pct ≥ limits.1
    · rw [if_pos yellow, if_pos yellow]
      unfold stateOf
      rw [text_yellow, snprcat_cut]
    · have same : max color .green = color := by cases color <;> decide
      rw [if_neg yellow, if_neg yellow, same, List.append_nil]

theorem diskDrive_stateOf (double : PrintDouble) (pcfgDisk : List DiskLimit) (s : Settings)
    (drive : Nat → DiskDrive) {limits : Nat → Float × Float}
    (found : ∀ i, limits i = lookupLimits pcfgDisk s [driveLetter i]) (color : Color)
    (r q : Text) (i : Nat) :
    diskDrive double pcfgDisk s drive (stateOf color r q) i =
      stateOf (max color (verdict drive limits i)) (r ++ warning double drive limits i)
        (q ++ row double drive i) := by
  unfold diskDrive warning row verdict
  rw [← found]
  by_cases fixed : (drive i).fixed = true
  · simp only [if_pos fixed]
    unfold pctOf
    cases (drive i).space with
    | none =>
      dsimp only
      rw [judged]
      exact congrArg (DiskState.mk _ _) (snprcat_cut q _)
    | some space =>
      dsimp only
      rw [judged]
      exact congrArg (DiskState.mk _ _) (snprcat_cut q _)
  · have same : max color .green = color := by cases color <;> decide
    simp only [if_neg fixed, List.append_nil, same]

/-- The loop over the drives. -/
theorem diskDrives_stateOf (double : PrintDouble) (pcfgDisk : List DiskLimit) (s : Settings)
    (drive : Nat → DiskDrive) {limits : Nat → Float × Float}
    (found : ∀ i, limits i = lookupLimits pcfgDisk s [driveLetter i]) (is : List Nat)
    (color : Color) (r q : Text) :
    is.foldl (diskDrive double pcfgDisk s drive) (stateOf color r q) =
      stateOf ((is.map (verdict drive limits)).foldl max color)
        (r ++ is.flatMap (warning double drive limits)) (q ++ is.flatMap (row double drive)) := by
  induction is generalizing color r q with
  | nil => simp
  | cons i is ih =>
    rw [List.foldl_cons, diskDrive_stateOf double pcfgDisk s drive found, ih]
    simp

/-- For every configuration and all drives: every drive is judged by the last line of the section
that names it, or by the defaults; the colour of the page is the worst verdict on the drives of
the mask; and the page has the warnings on them and their rows in the order of the letters, each
text cut where its buffer ends. -/
theorem disk_shows_worst (double : PrintDouble) (scan : Text → Option DiskLimit)
    (conf : List Config) (s : Settings) (drives : Nat) (drive : Nat → DiskDrive) (now : Text)
    (enabled : getOption s.options "no_disk".toList false = none) :
    ∃ limits color,
      (∀ i, LimitsOf scan (sectionLines conf "disk".toList 100) s [driveLetter i] (limits i)) ∧
      IsGreatest (insert .green {v | ∃ i ∈ setDrives drives, verdict drive limits i = v}) color ∧
      diskTest double scan conf s drives drive now =
        { machine := s.mrmachine, test := "disk".toList, color := color.text
          message := (now ++ "\n\n".toList ++
              ((setDrives drives).flatMap (warning double drive limits)).take 4999 ++
              '\n' :: (diskHeading ++ (setDrives drives).flatMap (row double drive)).take 4999 ++
              ['\n'] ++ appendLimits double (readDiskcfg scan conf) s).take 4999 } := by
  let limits := fun i => lookupLimits (readDiskcfg scan conf) s [driveLetter i]
  refine ⟨limits, ((setDrives drives).map (verdict drive limits)).foldl max .green,
    fun i => limitsOf_lookupIn s [driveLetter i], ?_, ?_⟩
  · have greatest := Verdict.isGreatest_foldl_max Color.green
      ((setDrives drives).map (verdict drive limits))
    simpa only [List.mem_map] using greatest
  · have start : (⟨green, [], diskHeading⟩ : DiskState) = stateOf .green [] diskHeading := by
      have short : diskHeading.take 4999 = diskHeading := by decide
      rw [stateOf, short]
      rfl
    unfold diskTest disk
    rw [if_pos enabled, start, diskDrives_setDrives,
      diskDrives_stateOf double _ s drive (fun _ => rfl)]
    simp only [stateOf, snprcat_nil, List.nil_append]
    exact congrArg (Report.mk _ _ _) (snprcat_cut _ _)

/-- A format that prints nothing of a double, and a scanner with limits of its own. -/
def noDigits : PrintDouble := fun _ _ => []

def nameOnly (b : Text) : Option DiskLimit := (scanWord b).map fun (name, _) => ⟨name, 90, 95⟩

/-- C is named twice. -/
def twoLines : List Config := addAll [] [("disk".toList, "C".toList), ("disk".toList, "c".toList)]

/-- Under a quota a drive may have more free bytes than there are for the user. -/
def overQuota (_ : Nat) : DiskDrive := ⟨true, some (1000, 5000)⟩

theorem disk_shows_worst_overQuota :
    ∃ limits color,
      (∀ i, LimitsOf nameOnly (sectionLines twoLines "disk".toList 100) startup [driveLetter i]
        (limits i)) ∧
      IsGreatest (insert .green {v | ∃ i ∈ setDrives 12, verdict overQuota limits i = v}) color ∧
      diskTest noDigits nameOnly twoLines startup 12 overQuota "now".toList =
        { machine := startup.mrmachine, test := "disk".toList, color := color.text
          message := ("now".toList ++ "\n\n".toList ++
              ((setDrives 12).flatMap (warning noDigits overQuota limits)).take 4999 ++
              '\n' :: (diskHeading ++
                (setDrives 12).flatMap (row noDigits overQuota)).take 4999 ++
              ['\n'] ++ appendLimits noDigits (readDiskcfg nameOnly twoLines)
                startup).take 4999 } :=
  disk_shows_worst noDigits nameOnly twoLines startup 12 overQuota "now".toList (by decide)

end MrBig.Guarantees.DiskPage
