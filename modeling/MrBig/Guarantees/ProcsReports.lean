import MrBig.Guarantees.SvcsReports
import MrBig.Source.Procs

/-!
# The processes status of every configured machine

The list of processes is also searched for the configured names, which enter it with a count
of zero; what it counts for a name does not change. A machine's report comes about at the
first of its entries and is red from the first entry on whose limits do not hold.
-/

set_option autoImplicit false

namespace MrBig.Guarantees.ProcsReports
open Library Library.KeyedList Source Source.Svcs Source.Procs SvcsReports

/-! ### The entries of a section -/

/-- What stands on a line: a name in quotes or a word, then what is there of the limits and
the machine. -/
structure Fields where
  name : Text
  min : Option Int
  max : Option Int
  machine : Option Text
  deriving DecidableEq, Repr

/-- The name up to the closing quote, if it is not empty, and what follows the quote. -/
def quotedName (p : Text) : Option (Text × Text) :=
  let name := p.takeWhile (· ≠ '"')
  if name = [] then none else some (name, (p.dropWhile (· ≠ '"')).tail)

/-- What is there behind the name. -/
def limits [CLibrary] (name rest : Text) : Fields :=
  let min := scanInt rest
  let max := min.bind fun _ => scanInt (afterInt rest)
  ⟨name, min, max, max.bind fun _ => (scanWord (afterInt (afterInt rest))).map Prod.fst⟩

def fields [CLibrary] (b : Text) : Option Fields :=
  if b.head? = some '#' then none
  else (if b.head? = some '"' then quotedName b.tail else scanWord b).map fun p => limits p.1 p.2

def commas (machine : Text) : Text := machine.map fun c => if c = '.' then ',' else c

/-- The entry of a line: the minimum is 1, the maximum the minimum, and the machine the
agent's, where nothing else is said. -/
def Fields.entry (mrmachine : Text) (f : Fields) : Cfg where
  name := f.name
  min := f.min.getD 1
  max := f.max.getD (f.min.getD 1)
  machine := (f.machine.map commas).getD mrmachine

/-- The count is not within the limits of the entry. -/
def Outside (pc : Cfg) (count : Nat) : Prop := pc.min > count ∨ (count : Int) > pc.max

instance (pc : Cfg) (count : Nat) : Decidable (Outside pc count) := instDecidableOr

/-- How many of the names are the given one up to case. -/
def occurrences (names : List Text) (name : Text) : Nat := names.countP (strcasecmp · name)

/-- One processes status for the agent's machine and one for each other machine named; it is
red exactly if an entry of the machine has limits that do not hold, and else green. -/
structure Reported [CLibrary] (mrmachine : Text) (lines names : List Text)
    (sent : List Report) : Prop where
  once : (sent.map Report.machine).Nodup
  machines : ∀ machine, machine ∈ sent.map Report.machine ↔
    machine = mrmachine ∨
      ∃ line ∈ lines, ∃ f, fields line = some f ∧ f.machine.map commas = some machine
  test : ∀ r ∈ sent, r.test = "procs".toList
  red : ∀ r ∈ sent, r.color = "red".toList ↔
    ∃ line ∈ lines, ∃ f, fields line = some f ∧ (f.entry mrmachine).machine = r.machine ∧
      Outside (f.entry mrmachine) (occurrences names f.name)
  green : ∀ r ∈ sent, r.color ≠ "red".toList → r.color = green

theorem reportMachine_word {mrmachine machine : Text} (nonempty : machine ≠ []) :
    reportMachine mrmachine machine = commas machine :=
  if_pos (List.length_pos_of_ne_nil nonempty)

/-- The defaults of the source, from the number of conversions done. -/
theorem entry_scanLimits [CLibrary] (mrmachine name rest : Text) :
    (let (n, min, max, machine) := scanLimits rest
      let min := if n + 1 < 2 then 1 else min
      let max := if n + 1 < 3 then min else max
      (⟨name, min, max, reportMachine mrmachine machine⟩ : Cfg)) =
        (limits name rest).entry mrmachine := by
  unfold scanLimits limits
  cases scanInt rest with
  | none => rfl
  | some min =>
    cases scanInt (afterInt rest) with
    | none => rfl
    | some max =>
      cases found : scanWord (afterInt (afterInt rest)) with
      | none => simp [Fields.entry, reportMachine]
      | some word =>
        obtain ⟨lead, -, isWord, -⟩ := scanWord_eq_some_iff.mp found
        simp [Fields.entry, reportMachine_word isWord.1]

theorem scanLimits_nonneg [CLibrary] (rest : Text) : 0 ≤ (scanLimits rest).1 := by
  unfold scanLimits
  split
  · exact Int.le_refl 0
  · split
    · exact Int.one_nonneg
    · split <;> exact Int.natCast_nonneg _

/-- Scanning and defaults make the entry of the line. -/
theorem proccfgLine_eq [CLibrary] (mrmachine b : Text) :
    proccfgLine mrmachine b = (fields b).map (Fields.entry mrmachine) := by
  have entered : ∀ name rest, (if (scanLimits rest).1 + 1 < 1 then none else
      some (let (n, min, max, machine) := scanLimits rest
        let min := if n + 1 < 2 then 1 else min
        let max := if n + 1 < 3 then min else max
        (⟨name, min, max, reportMachine mrmachine machine⟩ : Cfg))) =
      some ((limits name rest).entry mrmachine) := by
    intro name rest
    have positive := scanLimits_nonneg rest
    rw [if_neg (by omega), entry_scanLimits]
  unfold proccfgLine fields
  by_cases comment : b.head? = some '#'
  · rw [if_pos comment, if_pos comment]
    rfl
  rw [if_neg comment, if_neg comment]
  by_cases quoted : b.head? = some '"'
  · rw [if_pos quoted, if_pos quoted]
    unfold scanQuoted quotedName
    cases b.tail.takeWhile (· ≠ '"') with
    | nil =>
      dsimp only
      split <;> rfl
    | cons c name =>
      have ends := List.head?_dropWhile_not (fun d => decide (d ≠ '"')) b.tail
      cases behind : b.tail.dropWhile (· ≠ '"') with
      | nil => exact entered (c :: name) []
      | cons d rest =>
        rw [behind] at ends
        obtain rfl : d = '"' := by simpa using ends
        exact entered (c :: name) rest
  · rw [if_neg quoted, if_neg quoted]
    unfold scanPlain
    cases scanWord b with
    | none => rfl
    | some word => exact entered word.1 word.2

theorem readProccfg_eq [CLibrary] (mrmachine : Text) (lines : List Text) :
    readProccfg mrmachine lines =
      (lines.filterMap fun b => (fields b).map (Fields.entry mrmachine)).reverse := by
  unfold readProccfg
  induction lines using List.reverseRecOn with
  | nil => rfl
  | append_singleton lines b ih =>
    rw [List.foldl_append, List.foldl_cons, List.foldl_nil, ih, proccfgLine_eq,
      List.filterMap_append, List.reverse_append]
    cases found : fields b <;> simp [found]

/-! ### The list of processes -/

theorem strcasecmp_iff {a b : Text} : strcasecmp a b = true ↔ folded a = folded b := by
  unfold strcasecmp folded
  exact beq_iff_eq

/-- What the list counts for a name, up to case. -/
def countOf (plist : List Proc) (name : Text) : Nat :=
  (find Proc.key (folded name) plist).elim 0 Proc.count

theorem lookupProcname_enter (plist : List Proc) (p : Text) :
    (lookupProcname plist p).1 = enter Proc.key (folded p) ⟨p, 0⟩ id plist := by
  unfold lookupProcname enter
  rw [modify_id]
  cases find Proc.key (folded p) plist <;> rfl

theorem lookupProcname_count (plist : List Proc) (p : Text) :
    (lookupProcname plist p).2.count = countOf plist p := by
  unfold lookupProcname countOf
  cases find Proc.key (folded p) plist <;> rfl

theorem storeProcname_enter (plist : List Proc) (p : Text) :
    storeProcname plist p =
      enter Proc.key (folded p) ⟨p, 0⟩ (fun pl => { pl with count := pl.count + 1 }) plist := by
  unfold storeProcname lookupProcname enter
  cases find Proc.key (folded p) plist <;> rfl

theorem countOf_enter {p : Text} (change : Proc → Proc) (n : Nat)
    (keeps : ∀ pl : Proc, pl.key = folded p → (change pl).key = folded p)
    (grows : ∀ pl : Proc, (change pl).count = pl.count + n) (plist : List Proc) (name : Text) :
    countOf (enter Proc.key (folded p) ⟨p, 0⟩ change plist) name =
      countOf plist name + if folded p = folded name then n else 0 := by
  unfold countOf
  by_cases same : folded p = folded name
  · rw [if_pos same, ← same, find_enter_self keeps (by rfl), Option.elim_some, grows]
    cases find Proc.key (folded p) plist <;> rfl
  · rw [if_neg same, find_enter_of_ne keeps (by rfl) (Ne.symm same), Nat.add_zero]

theorem countOf_stored (names : List Text) (name : Text) :
    countOf (names.foldl storeProcname []) name = occurrences names name := by
  induction names using List.reverseRecOn with
  | nil => rfl
  | append_singleton names p ih =>
    rw [List.foldl_append, List.foldl_cons, List.foldl_nil, storeProcname_enter,
      countOf_enter (fun pl => { pl with count := pl.count + 1 }) 1 (fun _ same => same)
        (fun _ => rfl), ih]
    unfold occurrences
    rw [List.countP_append, List.countP_singleton]
    by_cases same : folded p = folded name
    · rw [if_pos same, if_pos (strcasecmp_iff.mpr same)]
    · rw [if_neg same, if_neg (strcasecmp_iff.not.mpr same)]

/-- A name that is looked up counts for what it did before. -/
theorem countOf_lookupProcname (plist : List Proc) (p name : Text) :
    countOf (lookupProcname plist p).1 name = countOf plist name := by
  rw [lookupProcname_enter, countOf_enter id 0 (fun _ same => same) (fun _ => rfl)]
  split <;> rfl

/-! ### The reports -/

theorem limitColor_red {pc : Cfg} {count : Nat} :
    limitColor pc count = .red ↔ Outside pc count := by
  unfold limitColor Outside
  split <;> simp_all

/-- What a report gets for an entry. -/
def addEntry (count : Text → Nat) (pc : Cfg) : SvcsReport → SvcsReport :=
  SvcsReport.append (procLine (limitColor pc (count pc.name)) pc (count pc.name))
    (limitColor pc (count pc.name))

def startReport (machine : Text) : SvcsReport := ⟨[], machine, .green⟩

/-- The reports of some entries, in front of those there are. -/
def reportEntries (count : Text → Nat) (pcfg : List Cfg) (preports : List SvcsReport) :
    List SvcsReport :=
  group SvcsReport.machine Cfg.machine startReport (addEntry count) pcfg preports

theorem compareProcess_eq (s : List Proc × List SvcsReport) (pc : Cfg) :
    compareProcess s pc =
      ((lookupProcname s.1 pc.name).1,
        enter SvcsReport.machine pc.machine (startReport pc.machine)
          (addEntry (countOf s.1) pc) s.2) := by
  unfold addEntry startReport
  rw [← lookupProcname_count]
  unfold compareProcess enter
  cases find SvcsReport.machine pc.machine s.2 <;> rfl

/-- The lookups do not change what the entries are compared with. -/
theorem foldl_compareProcess (pcfg : List Cfg) (plist : List Proc) (preports : List SvcsReport) :
    pcfg.foldl compareProcess (plist, preports) =
      ((pcfg.map Cfg.name).foldl (fun plist p => (lookupProcname plist p).1) plist,
        reportEntries (countOf plist) pcfg preports) := by
  induction pcfg generalizing plist preports with
  | nil => rfl
  | cons pc pcfg ih =>
    have same : countOf (lookupProcname plist pc.name).1 = countOf plist :=
      funext (countOf_lookupProcname plist pc.name)
    rw [List.foldl_cons, compareProcess_eq, ih, same]
    rfl

/-- The lines of the report of a machine. -/
def machineText (count : Text → Nat) (pcfg : List Cfg) (machine : Text) : Text :=
  (pcfg.filter (Cfg.machine · = machine)).flatMap fun pc =>
    procLine (limitColor pc (count pc.name)) pc (count pc.name)

/-- The report of a machine is red if one of its entries is. -/
def machineColor (count : Text → Nat) (pcfg : List Cfg) (machine : Text) : Color :=
  if ∃ pc ∈ pcfg, pc.machine = machine ∧ Outside pc (count pc.name) then .red else .green

theorem foldl_addEntry (count : Text → Nat) (entries : List Cfg) (machine : Text) :
    entries.foldl (fun rep pc => addEntry count pc rep) (startReport machine) =
      ⟨(entries.flatMap fun pc =>
          procLine (limitColor pc (count pc.name)) pc (count pc.name)).take (5000 - 1),
        machine, if ∃ pc ∈ entries, Outside pc (count pc.name) then .red else .green⟩ := by
  induction entries using List.reverseRecOn with
  | nil => rfl
  | append_singleton entries pc ih =>
    rw [List.foldl_append, ih, List.foldl_cons, List.foldl_nil]
    unfold addEntry SvcsReport.append
    dsimp only
    rw [snprcat_take, List.flatMap_append, List.flatMap_singleton]
    congr 1
    by_cases outside : Outside pc (count pc.name)
    · simp [limitColor_red.mpr outside, outside]
    · have good : limitColor pc (count pc.name) = .green := if_neg outside
      simp [good, outside]

theorem addEntry_machine (count : Text → Nat) (pc : Cfg) (rep : SvcsReport)
    (same : rep.machine = pc.machine) : (addEntry count pc rep).machine = pc.machine := same

section

variable (mrmachine : Text) (count : Text → Nat) (pcfg : List Cfg)

theorem reportEntries_unique :
    KeysUnique SvcsReport.machine (reportEntries count pcfg [startReport mrmachine]) :=
  KeysUnique.group (addEntry_machine count) (fun _ => rfl) pcfg (List.nodup_singleton _)

theorem reportEntries_machines (machine : Text) :
    machine ∈ (reportEntries count pcfg [startReport mrmachine]).map SvcsReport.machine ↔
      machine = mrmachine ∨ ∃ pc ∈ pcfg, pc.machine = machine := by
  rw [reportEntries, mem_keys_group (addEntry_machine count) fun _ => rfl]
  simp [startReport]

/-- The report of a machine has what its entries print, and their color. -/
theorem reportEntries_report {rep : SvcsReport}
    (member : rep ∈ reportEntries count pcfg [startReport mrmachine]) :
    rep.str = (machineText count pcfg rep.machine).take (5000 - 1) ∧
      rep.color = machineColor count pcfg rep.machine := by
  have found := (reportEntries_unique mrmachine count pcfg).find_of_mem member
  have seen : (find SvcsReport.machine rep.machine
      (reportEntries count pcfg [startReport mrmachine])).getD (startReport rep.machine) =
      (pcfg.filter (Cfg.machine · = rep.machine)).foldl (fun rep pc => addEntry count pc rep)
        ((find SvcsReport.machine rep.machine [startReport mrmachine]).getD
          (startReport rep.machine)) :=
    find_group (addEntry_machine count) (fun _ => rfl) rep.machine pcfg [startReport mrmachine]
  have start : (find SvcsReport.machine rep.machine [startReport mrmachine]).getD
      (startReport rep.machine) = startReport rep.machine := by
    by_cases own : mrmachine = rep.machine
    · simp [find, startReport, own]
    · simp [find, startReport, own]
  rw [found, start, Option.getD_some, foldl_addEntry] at seen
  rw [seen]
  refine ⟨rfl, ?_⟩
  unfold machineColor
  simp only [List.mem_filter, decide_eq_true_eq, and_assoc]

end

/-! ### What is sent -/

section

variable {options : List Text} (mrmachine : Text) (conf : List Config) (now : Text)
  (processes : Processes)

/-- The names that are stored. -/
def storedNames : List Text := (enumProcesses processes).map szProcessName

/-- The entries in the order of `pcfg`. -/
def entries [CLibrary] (lines : List Text) : List Cfg :=
  (lines.filterMap fun b => (fields b).map (Fields.entry mrmachine)).reverse

theorem mem_entries [CLibrary] {lines : List Text} {pc : Cfg} :
    pc ∈ entries mrmachine lines ↔
      ∃ line ∈ lines, ∃ f, fields line = some f ∧ f.entry mrmachine = pc := by
  simp [entries]

theorem exists_entries [CLibrary] {lines : List Text} {holds : Cfg → Prop} :
    (∃ pc ∈ entries mrmachine lines, holds pc) ↔
      ∃ line ∈ lines, ∃ f, fields line = some f ∧ holds (f.entry mrmachine) := by
  constructor
  · intro entered
    obtain ⟨pc, member, here⟩ := entered
    obtain ⟨line, listed, f, read, rfl⟩ := (mem_entries mrmachine).mp member
    exact ⟨line, listed, f, read, here⟩
  · intro said
    obtain ⟨line, listed, f, read, here⟩ := said
    exact ⟨_, (mem_entries mrmachine).mpr ⟨line, listed, f, read, rfl⟩, here⟩

/-- Without the option, a report of every machine with the totals behind it. -/
theorem procs_eq [CLibrary] (noOption : getOption options "no_procs".toList false = none) :
    let pcfg := entries mrmachine (procsLines conf)
    let plist := (pcfg.map Cfg.name).foldl (fun plist p => (lookupProcname plist p).1)
      ((storedNames processes).foldl storeProcname [])
    procs options mrmachine conf now processes =
      (reportEntries (occurrences (storedNames processes)) pcfg [startReport mrmachine]).map
        fun rep => ⟨rep.machine, "procs".toList, rep.color.text,
          snprcat [] 5000 (now ++ "\n\n".toList ++ rep.str ++
            '\n' :: totalLine (plist.map Proc.count).sum plist.length)⟩ := by
  have counts : countOf ((storedNames processes).foldl storeProcname []) =
      occurrences (storedNames processes) := funext (countOf_stored _)
  unfold procs
  rw [if_neg (not_not.mpr noOption), readProccfg_eq, getProcessList]
  rw [show [(⟨[], mrmachine, .green⟩ : SvcsReport)] = [startReport mrmachine] from rfl]
  dsimp only
  rw [foldl_compareProcess, ← storedNames, counts]
  rfl

theorem machineColor_red {count : Text → Nat} {pcfg : List Cfg} {machine : Text} :
    (machineColor count pcfg machine).text = "red".toList ↔
      ∃ pc ∈ pcfg, pc.machine = machine ∧ Outside pc (count pc.name) := by
  unfold machineColor
  split
  next notEmpty => exact iff_of_true rfl notEmpty
  next isEmpty => exact iff_of_false (by decide) isEmpty

theorem machineColor_green {count : Text → Nat} {pcfg : List Cfg} {machine : Text}
    (other : (machineColor count pcfg machine).text ≠ "red".toList) :
    (machineColor count pcfg machine).text = green := by
  unfold machineColor at other ⊢
  split at other
  next => exact absurd rfl other
  next isEmpty => rw [if_neg isEmpty, color_text_green]

/-- An entry is for another machine if and only if its line names that machine. -/
theorem Fields.entry_machine_iff (f : Fields) {machine : Text} (other : machine ≠ mrmachine) :
    (f.entry mrmachine).machine = machine ↔ f.machine.map commas = some machine := by
  cases said : f.machine with
  | none => simp [Fields.entry, said, Ne.symm other]
  | some m => simp [Fields.entry, said]

theorem reported_of_entries [CLibrary] (lines names : List Text) (message : SvcsReport → Text) :
    Reported mrmachine lines names
      ((reportEntries (occurrences names) (entries mrmachine lines) [startReport mrmachine]).map
        (sentAs "procs".toList message)) := by
  have machines : ((reportEntries (occurrences names) (entries mrmachine lines)
      [startReport mrmachine]).map (sentAs "procs".toList message)).map Report.machine =
      (reportEntries (occurrences names) (entries mrmachine lines)
        [startReport mrmachine]).map SvcsReport.machine := by
    rw [List.map_map]
    rfl
  constructor
  · rw [machines]
    exact reportEntries_unique mrmachine (occurrences names) (entries mrmachine lines)
  · intro machine
    rw [machines, reportEntries_machines]
    by_cases own : machine = mrmachine
    · simp [own]
    · rw [exists_entries]
      simp only [Fields.entry_machine_iff mrmachine _ own]
  · intro r member
    obtain ⟨rep, -, rfl⟩ := List.mem_map.mp member
    rfl
  · intro r member
    obtain ⟨rep, inside, rfl⟩ := List.mem_map.mp member
    have color := (reportEntries_report mrmachine _ _ inside).2
    unfold sentAs
    dsimp only
    rw [color, machineColor_red, exists_entries]
    rfl
  · intro r member other
    obtain ⟨rep, inside, rfl⟩ := List.mem_map.mp member
    have color := (reportEntries_report mrmachine _ _ inside).2
    unfold sentAs at other ⊢
    dsimp only at other ⊢
    rw [color] at other ⊢
    exact machineColor_green other

/-- Every configured machine gets its processes status, red exactly if an entry of it has
limits that do not hold. -/
theorem procs_reported [CLibrary] {lines : List Text} (has : HasLines conf "procs".toList lines)
    (short : ∀ line ∈ lines, line.length < 100)
    (noOption : getOption options "no_procs".toList false = none) :
    Reported mrmachine lines (storedNames processes)
      (procs options mrmachine conf now processes) := by
  rw [procs_eq mrmachine conf now processes noOption]
  unfold procsLines
  rw [sectionLines_whole has short]
  exact reported_of_entries mrmachine lines (storedNames processes) _

/-- An entry of another machine with both limits and one of the agent's with none. -/
theorem procs_reported_other :
    Reported "host".toList ["mrbig.exe 1 2 other.example".toList, "\"my app\"".toList]
      (storedNames ⟨[⟨some "MrBig.exe".toList⟩, ⟨none⟩], true⟩)
      (procs [] "host".toList
        [⟨"procs".toList, "mrbig.exe 1 2 other.example\n\"my app\"\n".toList⟩] "noon".toList
        ⟨[⟨some "MrBig.exe".toList⟩, ⟨none⟩], true⟩) := by
  have plain :
      ∀ line ∈ ["mrbig.exe 1 2 other.example".toList, "\"my app\"".toList], '\n' ∉ line := by
    decide
  refine procs_reported "host".toList
    [⟨"procs".toList, "mrbig.exe 1 2 other.example\n\"my app\"\n".toList⟩] "noon".toList
    ⟨[⟨some "MrBig.exe".toList⟩, ⟨none⟩], true⟩ (fun i => ?_) (by decide) rfl
  exact Delimited.nth_frame i plain

end

end MrBig.Guarantees.ProcsReports
