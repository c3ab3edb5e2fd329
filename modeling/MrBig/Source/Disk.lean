import MrBig.Source.Settings
import MrBig.Source.Status

/-!
# The disk test

disk.c:19-175. `disk` gets the limits that `read_diskcfg` has stored, the first line of the table
and what `append_limits` adds. What the conversions for doubles print and scan are parameters.
-/

set_option autoImplicit false

namespace MrBig.Source.Disk

/-- struct cfg of disk.c without its link. -/
structure DiskLimit where
  name : Text
  yellow : Float
  red : Float

/-- The limits on a line, where `scan` is `sscanf(b, "%s %lf %lf", name, &y, &r)` if that returns
3. -/
def diskcfgLine (scan : Text → Option DiskLimit) (b : Text) : Option DiskLimit :=
  if b.head? = some '#' then none else scan b

/-- `read_diskcfg`: each line goes to the head of the list. -/
def readDiskcfg (scan : Text → Option DiskLimit) (conf : List Config) : List DiskLimit :=
  (sectionLines conf "disk".toList 100).foldl
    (fun pcfgDisk b => (diskcfgLine scan b).toList ++ pcfgDisk) []

def lookupLimits (pcfgDisk : List DiskLimit) (s : Settings) (drive : Text) : Float × Float :=
  match pcfgDisk.find? fun pc => strcasecmp pc.name drive with
  | some pc => (pc.yellow, pc.red)
  | none => (s.dfyellow, s.dfred)

/-- What Windows says of a drive; `space` is total and free bytes, if GetDiskFreeSpaceEx
succeeds. -/
structure DiskDrive where
  fixed : Bool
  space : Option (UInt64 × UInt64)

section Rows

variable (double : PrintDouble)

def panicText (d : Text) (pct red : Float) : Text :=
  "&red ".toList ++ d ++ " (".toList ++ double "%.1f" pct ++
    "%) has reached the PANIC level (".toList ++ double "%.1f" red ++ "%)\n".toList

def warningText (d : Text) (pct yellow : Float) : Text :=
  "&yellow ".toList ++ d ++ " (".toList ++ double "%.1f" pct ++
    "%) has reached the WARNING level (".toList ++ double "%.1f" yellow ++ "%)\n".toList

/-- `% 11` before an unsigned conversion: eleven places, filled up on the left. -/
def elevenWide (n : UInt64) : Text := List.leftpad 11 ' ' (printInt n.toNat)

/-- The row of the table; the difference of the bytes is one of unsigned words. -/
def filesystemText (letter : Char) (total free : UInt64) (pct : Float) : Text :=
  List.rightpad 11 ' ' [letter] ++ ' ' :: elevenWide (total / 1024) ++
    ' ' :: elevenWide ((total - free) / 1024) ++ ' ' :: elevenWide (free / 1024) ++
    ' ' :: double "% 10.1f" pct ++ "%  /FIXED/".toList ++ [letter, '\n']

end Rows

structure DiskState where
  color : Text
  r : Text
  q : Text

def driveLetter (i : Nat) : Char := Char.ofNat ('A'.toNat + i)

/-- The body of the loop for a drive whose bit is set. -/
def diskDrive (double : PrintDouble) (pcfgDisk : List DiskLimit) (s : Settings)
    (drive : Nat → DiskDrive) (st : DiskState) (i : Nat) : DiskState :=
  let d := driveLetter i :: ":\\".toList
  if (drive i).fixed then
    let (total, free) := (drive i).space.getD (0, 0)
    let pct : Float :=
      match (drive i).space with
      | none => 0
      | some (total, free) => 100.0 - 100.0 * free.toFloat / total.toFloat
    let (yellow, red) := lookupLimits pcfgDisk s [driveLetter i]
    let st :=
      if pct ≥ red then
        { st with r := snprcat st.r 5000 (panicText double d pct red), color := "red".toList }
      else if pct ≥ yellow then
        { st with
          r := snprcat st.r 5000 (warningText double d pct yellow)
          color := if st.color = green then "yellow".toList else st.color }
      else st
    { st with q := snprcat st.q 5000 (filesystemText double (driveLetter i) total free pct) }
  else st

/-- The letters, counted from A, for which the body of the loop is entered. -/
def diskDrives : Nat → Nat → Nat → List Nat
  | 0, _, _ => []
  | letters + 1, i, drives =>
    if drives &&& 1 ≠ 0 then i :: diskDrives letters (i + 1) (drives >>> 1)
    else diskDrives letters (i + 1) (drives >>> 1)

def disk (double : PrintDouble) (pcfgDisk : List DiskLimit) (s : Settings)
    (drives : Nat) (drive : Nat → DiskDrive) (heading footer now : Text) : Report :=
  if getOption s.options "no_disk".toList false = none then
    let st := (diskDrives 26 0 drives).foldl (diskDrive double pcfgDisk s drive)
      ⟨green, [], heading⟩
    { machine := s.mrmachine, test := "disk".toList, color := st.color
      message := snprcat (snprcat [] 5000 (now ++ "\n\n".toList ++ st.r ++ '\n' :: st.q ++ ['\n']))
        5000 footer }
  else
    { machine := s.mrmachine, test := "disk".toList, color := "clear".toList
      message := "option no_disk\n".toList }

/-- The first line of the table, printed with `"%-11s %11s %11s %11s %11s  %s\n"`. -/
def diskHeading : Text :=
  "Filesystem    1k-blocks        Used       Avail    Capacity  Mounted\n".toList

/-- A line of `append_limits`, `"%-10s %-10.1f %-10.1f\n"`. -/
def limitRow (double : PrintDouble) (name : Text) (yellow red : Float) : Text :=
  List.rightpad 10 ' ' name ++ ' ' :: double "%-10.1f" yellow ++ ' ' :: double "%-10.1f" red ++
    ['\n']

/-- `append_limits`. -/
def appendLimits (double : PrintDouble) (pcfgDisk : List DiskLimit) (s : Settings) : Text :=
  "\nLimits:\n".toList ++ "Drive      Yellow     Red       \n".toList ++
    pcfgDisk.flatMap (fun pc => limitRow double pc.name pc.yellow pc.red) ++
    limitRow double "Default".toList s.dfyellow s.dfred

/-- `disk` with what it reads of the configuration. -/
def diskTest (double : PrintDouble) (scan : Text → Option DiskLimit) (conf : List Config)
    (s : Settings) (drives : Nat) (drive : Nat → DiskDrive) (now : Text) : Report :=
  let pcfgDisk := readDiskcfg scan conf
  disk double pcfgDisk s drives drive diskHeading (appendLimits double pcfgDisk s) now

end MrBig.Source.Disk
