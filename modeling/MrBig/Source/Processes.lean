import MrBig.Library.Memory
import MrBig.Library.Word
import MrBig.Source.ClientlogModules
import MrBig.Source.Svcs

/-!
# The process tables

The sorting and the printing of clientlog/processes.c. Pointers into the rows are their indices.
What `%5.1lf` and clog_utils_PrettyBytes print, which calculate with doubles, is given.
-/

set_option autoImplicit false

namespace MrBig.Source.Processes
open Library Library.Memory Library.Word

/-- processes_TableRow. -/
structure TableRow where
  process : Text
  pid : Int
  user : Text
  cpu : Float
  memory : Int

/-- processes_Table. `Rows` points to memory of which `NumRows` rows are the table; there are so
few that `end + start` fits a DWORD. -/
structure Table where
  numRows : Nat
  rows : Nat → TableRow
  errorCode : Nat
  few : numRows < 2 ^ 31

/-- The rows of the table. -/
def Table.list (t : Table) : List TableRow := load t.rows 0 t.numRows

abbrev Compare := TableRow → TableRow → Int8

/-! ### The comparisons -/

/-- processes__CompareName, with what `_stricmp` returns. -/
def compareName (stricmp : Text → Text → Int) : Compare := fun a b =>
  let res := Int8.ofInt (-stricmp a.process b.process)
  if res = 0 then
    if a.pid > b.pid then 1 else -1
  else res

/-- processes__CompareCPU. -/
def compareCPU (stricmp : Text → Text → Int) : Compare := fun a b =>
  if a.cpu > b.cpu then 1
  else if a.cpu < b.cpu then -1
  else compareName stricmp a b

/-- processes__CompareMemory. -/
def compareMemory (stricmp : Text → Text → Int) : Compare := fun a b =>
  if a.memory > b.memory then 1
  else if a.memory < b.memory then -1
  else compareName stricmp a b

/-! ### The sort -/

section

variable {Pointer : Type} (compare : Pointer → Pointer → Int8)

/-- What the three loops store to `res` from index `i + j` on. -/
def mergeLoops (p : Nat → Pointer) (start mid ending i j : Nat) : List Pointer :=
  if i < mid - start ∧ j < ending - mid then
    if compare (p (start + i)) (p (mid + j)) ≥ 0 then
      p (start + i) :: mergeLoops p start mid ending (i + 1) j
    else p (mid + j) :: mergeLoops p start mid ending i (j + 1)
  else load p (start + i) (mid - start - i) ++ load p (mid + j) (ending - mid - j)
termination_by (mid - start - i) + (ending - mid - j)

/-- processes__HelperSortBy. -/
def helperSortBy (p : Nat → Pointer) (start ending : Nat) : Nat → Pointer :=
  if ending - start > 1 then
    let mid := (ending + start) / 2
    let p := helperSortBy p start mid
    let p := helperSortBy p mid ending
    store p start (mergeLoops compare p start mid ending 0 0)
  else p
termination_by ending - start

end

/-- processes_SortBy. -/
def sortBy (compare : Compare) (t : Table) : Table :=
  let res := helperSortBy (fun i j => compare (t.rows i) (t.rows j)) (fun i => i) 0 t.numRows
  { t with rows := fun i => t.rows (res i) }

/-! ### The print -/

/-- What the library prints for doubles. -/
structure Printer where
  percent : Float → Text
  prettyBytes : Int → Text

/-- The line of a row. -/
def rowText (printer : Printer) (row : TableRow) : Text :=
  let memory := if row.memory = 0 then ['-'] else printer.prettyBytes row.memory
  List.rightpad 31 ' ' row.process ++ '\t' :: List.leftpad 6 ' ' (printInt row.pid) ++ '\t' ::
    List.rightpad 31 ' ' row.user ++ '\t' :: printer.percent row.cpu ++ " %\t".toList ++
    List.leftpad 12 ' ' memory ++ ['\n']

/-- The loop, from row `i` on. A row without a PID raises the limit. -/
def appendRows (printer : Printer) : List TableRow → Nat → Nat → List Text
  | [], _, _ => []
  | row :: rest, i, maxNumRows =>
    if i < maxNumRows then
      if row.pid = 0 then appendRows printer rest (i + 1) (wrap 32 (maxNumRows + 1))
      else rowText printer row :: appendRows printer rest (i + 1) maxNumRows
    else []

def tableHeading : Text :=
  "\nPROCESS                        \t   PID\t".toList ++
    "USER                           \t    CPU\t      MEMORY\n".toList

/-- `%#0x`. -/
def printHexCode (n : Nat) : Text := if n = 0 then ['0'] else "0x".toList ++ Nat.toDigits 16 n

/-- processes_AppendTable: the texts it appends. -/
def appendTable (printer : Printer) (t : Table) (maxNumRows : Nat) : List Text :=
  tableHeading ::
  if t.errorCode ≠ errorSuccess then
    ["(Unable to query processes, error code ".toList ++ printHexCode t.errorCode ++ ".)".toList]
  else appendRows printer t.list 0 maxNumRows

/-- NUM_TOPPROCESSES. -/
def numTopProcesses : Nat := 20

/-- The tables of clog_processes_EndAppendQuery, each sorted from the one before it. -/
def processTables (printer : Printer) (stricmp : Text → Text → Int) (t : Table) :
    List Text × List Text × List Text :=
  let byName := sortBy (compareName stricmp) t
  let byCPU := sortBy (compareCPU stricmp) byName
  let byMemory := sortBy (compareMemory stricmp) byCPU
  (appendTable printer byName byName.numRows, appendTable printer byCPU numTopProcesses,
    appendTable printer byMemory numTopProcesses)

end MrBig.Source.Processes
