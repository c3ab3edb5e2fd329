import MrBig.Source.Svcs

/-!
# The processes test

procs.c. Nodes, reports and the name comparison are those of the services test. A process is
the name that GetModuleBaseName gives for it, if there is one; `EnumProcesses` gives the
identifiers that its buffer holds.
-/

set_option autoImplicit false

namespace MrBig.Source.Procs
open Library Svcs

variable [CLibrary]

/-- A node of `pcfg`. -/
structure Cfg where
  name : Text
  min : Int
  max : Int
  machine : Text
  deriving DecidableEq, Repr

/-- `" %d %d %s"`: the conversions done, with what they read. -/
def scanLimits (p : Text) : Int × Int × Int × Text :=
  match scanInt p with
  | none => (0, 0, 0, [])
  | some min =>
    match scanInt (afterInt p) with
    | none => (1, min, 0, [])
    | some max =>
      match scanWord (afterInt (afterInt p)) with
      | none => (2, min, max, [])
      | some (machine, _) => (3, min, max, machine)

/-- `sscanf(b, "%s %d %d %s", name, &min, &max, machine)`. -/
def scanPlain (b : Text) : Int × Text × Int × Int × Text :=
  match scanWord b with
  | none => (-1, [], 0, 0, [])
  | some (name, rest) =>
    let (n, min, max, machine) := scanLimits rest
    (n + 1, name, min, max, machine)

/-- `sscanf(p, "%[^\"]\" %d %d %s", name, &min, &max, machine)`. -/
def scanQuoted (p : Text) : Int × Text × Int × Int × Text :=
  match p.takeWhile (· ≠ '"') with
  | [] => (if p = [] then -1 else 0, [], 0, 0, [])
  | name =>
    match p.dropWhile (· ≠ '"') with
    | '"' :: rest =>
      let (n, min, max, machine) := scanLimits rest
      (n + 1, name, min, max, machine)
    | _ => (1, name, 0, 0, [])

/-- The body of the loop of `read_proccfg`. -/
def proccfgLine (mrmachine b : Text) : Option Cfg :=
  if b.head? = some '#' then none
  else
    let (n, name, min, max, machine) :=
      if b.head? = some '"' then scanQuoted b.tail else scanPlain b
    if n < 1 then none
    else
      let min := if n < 2 then 1 else min
      let max := if n < 3 then min else max
      some ⟨name, min, max, reportMachine mrmachine machine⟩

/-- The list is built at its head. -/
def readProccfg (mrmachine : Text) (lines : List Text) : List Cfg :=
  lines.foldl (fun pcfg b => (proccfgLine mrmachine b).toList ++ pcfg) []

def procsLines (conf : List Config) : List Text := sectionLines conf "procs".toList 100

/-! ### The list of processes -/

/-- A node of `plist`. -/
structure Proc where
  name : Text
  count : Nat
  deriving DecidableEq, Repr

def Proc.key (pl : Proc) : Text := folded pl.name

/-- The list and the node found, which is a new one if need be. -/
def lookupProcname (plist : List Proc) (p : Text) : List Proc × Proc :=
  match KeyedList.find Proc.key (folded p) plist with
  | some pl => (plist, pl)
  | none => (⟨p, 0⟩ :: plist, ⟨p, 0⟩)

def storeProcname (plist : List Proc) (p : Text) : List Proc :=
  KeyedList.modify Proc.key (folded p) (fun pl => { pl with count := pl.count + 1 })
    (lookupProcname plist p).1

/-- A running process: the base name of its main module, where it is to be had. -/
structure Process where
  moduleBaseName : Option Text
  deriving DecidableEq, Repr

/-- What PrintProcessNameAndID stores. -/
def szProcessName (process : Process) : Text := process.moduleBaseName.getD "<unknown>".toList

/-- All that run, and whether EnumProcesses succeeds. -/
structure Processes where
  running : List Process
  enumerated : Bool
  deriving DecidableEq, Repr

/-- The processes whose identifiers `aProcesses` has room for. -/
def enumProcesses (processes : Processes) : List Process :=
  if processes.enumerated then processes.running.take 1024 else []

def getProcessList (plist : List Proc) (processes : Processes) : List Proc :=
  ((enumProcesses processes).map szProcessName).foldl storeProcname plist

/-! ### The reports -/

/-- The line of a configured process. -/
def procLine (mycolor : Color) (pc : Cfg) (m : Nat) : Text :=
  "&".toList ++ mycolor.text ++ ' ' :: pc.name ++ " - ".toList ++ printInt m ++
    " running (min ".toList ++ printInt pc.min ++ ", max ".toList ++ printInt pc.max ++ ")\n".toList

def limitColor (pc : Cfg) (m : Nat) : Color :=
  if (m : Int) < pc.min ∨ (m : Int) > pc.max then .red else .green

/-- The body of the loop over `pcfg`. -/
def compareProcess (s : List Proc × List SvcsReport) (pc : Cfg) : List Proc × List SvcsReport :=
  let (plist, pl) := lookupProcname s.1 pc.name
  let m := pl.count
  let mycolor := limitColor pc m
  let preports :=
    match KeyedList.find SvcsReport.machine pc.machine s.2 with
    | some _ => s.2
    | none => ⟨[], pc.machine, .green⟩ :: s.2
  (plist, KeyedList.modify SvcsReport.machine pc.machine
    (SvcsReport.append (procLine mycolor pc m) mycolor) preports)

def totalLine (running unique : Nat) : Text :=
  "Total ".toList ++ printInt running ++ " processes running (".toList ++ printInt unique ++
    " unique)\n".toList

/-- The calls of `mrsend`, `conf` being the configuration when procs.cfg has been read. -/
def procs (options : List Text) (mrmachine : Text) (conf : List Config) (now : Text)
    (processes : Processes) : List Report :=
  if getOption options "no_procs".toList false ≠ none then
    [⟨mrmachine, "procs".toList, "clear".toList, "option no_procs\n".toList⟩]
  else
    let pcfg := readProccfg mrmachine (procsLines conf)
    let plist := getProcessList [] processes
    let (plist, preports) := pcfg.foldl compareProcess (plist, [⟨[], mrmachine, .green⟩])
    let running := (plist.map Proc.count).sum
    let unique := plist.length
    preports.map fun rep =>
      { machine := rep.machine, test := "procs".toList, color := rep.color.text
        message := snprcat [] 5000 (now ++ "\n\n".toList ++ rep.str ++
          '\n' :: totalLine running unique) }

end MrBig.Source.Procs
