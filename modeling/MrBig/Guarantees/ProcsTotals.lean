import Mathlib.Data.Finset.Card
import MrBig.Guarantees.ProcsReports

/-!
# The totals of the processes status

The totals are taken of the list that the configured names are looked up in: a name that does
not run is one more node. What does not fit into `aProcesses` is not counted, and what does
not fit into the buffer of the message is cut with the line of the totals.
-/

set_option autoImplicit false

namespace MrBig.Guarantees.ProcsTotals
open Library Library.KeyedList Source Source.Svcs Source.Procs SvcsReports ProcsReports

/-- How many names there are up to case. -/
def distinct (names : List Text) : Nat := (names.map folded).dedup.length

/-- The names of all that run. -/
def runningNames (processes : Processes) : List Text := processes.running.map szProcessName

/-- The line with the number of processes and that of their names. -/
def trueTotals (processes : Processes) : Text :=
  totalLine processes.running.length (distinct (runningNames processes))

/-- Every running process is enumerated. -/
def AllEnumerated (processes : Processes) : Prop :=
  (processes.enumerated = false → processes.running = []) ∧ processes.running.length ≤ 1024

/-! ### The list of processes -/

/-- The list behind the loop over the configured names. -/
def lookedUp (stored configured : List Text) : List Proc :=
  configured.foldl (fun plist p => (lookupProcname plist p).1) (stored.foldl storeProcname [])

section

variable {plist : List Proc} {p : Text}

theorem storeProcname_sum :
    ((storeProcname plist p).map Proc.count).sum = (plist.map Proc.count).sum + 1 := by
  rw [storeProcname_enter]
  exact sum_map_enter (f := Proc.count) (n := 1) (by rfl) rfl (fun _ => rfl) plist

theorem lookupProcname_sum :
    ((lookupProcname plist p).1.map Proc.count).sum = (plist.map Proc.count).sum := by
  rw [lookupProcname_enter]
  exact sum_map_enter (f := Proc.count) (n := 0) (by rfl) rfl (fun _ => rfl) plist

/-- A list whose keys are some names, each once. -/
def Holds (plist : List Proc) (names : List Text) : Prop :=
  KeysUnique Proc.key plist ∧ ∀ k, k ∈ plist.map Proc.key ↔ k ∈ names.map folded

theorem Holds.enter {names : List Text} (holds : Holds plist names) {change : Proc → Proc}
    (keeps : ∀ pl : Proc, pl.key = folded p → (change pl).key = folded p) :
    Holds (KeyedList.enter Proc.key (folded p) ⟨p, 0⟩ change plist) (names ++ [p]) := by
  constructor
  · exact holds.1.enter keeps (by rfl)
  · intro k
    rw [mem_keys_enter keeps (by rfl), holds.2, List.map_append, List.mem_append,
      List.map_singleton, List.mem_singleton, or_comm]

end

theorem stored_holds (stored : List Text) : Holds (stored.foldl storeProcname []) stored := by
  induction stored using List.reverseRecOn with
  | nil => exact ⟨KeysUnique.nil, fun _ => Iff.rfl⟩
  | append_singleton stored p ih =>
    rw [List.foldl_append, List.foldl_cons, List.foldl_nil, storeProcname_enter]
    exact ih.enter fun _ same => same

theorem lookedUp_holds (stored configured : List Text) :
    Holds (lookedUp stored configured) (stored ++ configured) := by
  induction configured using List.reverseRecOn with
  | nil =>
    rw [List.append_nil]
    exact stored_holds stored
  | append_singleton configured p ih =>
    rw [lookedUp, List.foldl_append, List.foldl_cons, List.foldl_nil, ← lookedUp,
      lookupProcname_enter, ← List.append_assoc]
    exact ih.enter fun _ same => same

theorem Holds.length {plist : List Proc} {names : List Text} (holds : Holds plist names) :
    plist.length = distinct names := by
  have same : (plist.map Proc.key).Perm (names.map folded).dedup :=
    (List.perm_ext_iff_of_nodup holds.1 (List.nodup_dedup _)).mpr fun k => by
      rw [holds.2, List.mem_dedup]
  rw [distinct, ← same.length_eq, List.length_map]

theorem lookedUp_sum (stored configured : List Text) :
    ((lookedUp stored configured).map Proc.count).sum = stored.length := by
  induction configured using List.reverseRecOn with
  | nil =>
    induction stored using List.reverseRecOn with
    | nil => rfl
    | append_singleton stored p ih =>
      rw [lookedUp, List.foldl_nil] at ih ⊢
      rw [List.foldl_append, List.foldl_cons, List.foldl_nil, storeProcname_sum, ih,
        List.length_append, List.length_singleton]
  | append_singleton configured p ih =>
    rw [lookedUp, List.foldl_append, List.foldl_cons, List.foldl_nil, ← lookedUp,
      lookupProcname_sum, ih]

/-- Configured names leave the number of names as it is only if they all run. -/
theorem distinct_append_iff (stored configured : List Text) :
    distinct (stored ++ configured) = distinct stored ↔
      ∀ c ∈ configured, ∃ s ∈ stored, folded s = folded c := by
  unfold distinct
  rw [← List.card_toFinset, ← List.card_toFinset, List.map_append, List.toFinset_append]
  have more : (stored.map folded).toFinset ⊆
      (stored.map folded).toFinset ∪ (configured.map folded).toFinset := Finset.subset_union_left
  constructor
  · intro same c member
    have equal := Finset.eq_of_subset_of_card_le more (Nat.le_of_eq same)
    have inside : folded c ∈ (stored.map folded).toFinset := by
      rw [equal]
      simpa using Or.inr ⟨c, member, rfl⟩
    simpa using inside
  · intro all
    congr 1
    apply Finset.union_eq_left.mpr
    intro k member
    obtain ⟨c, wanted, rfl⟩ := List.mem_map.mp (List.mem_toFinset.mp member)
    obtain ⟨s, kept, same⟩ := all c wanted
    rw [List.mem_toFinset, ← same]
    exact List.mem_map_of_mem kept

/-! ### The line of the totals -/

/-- The line without its newline. -/
def totals (running unique : Nat) : Text :=
  "Total ".toList ++ (Nat.toDigits 10 running ++ (" processes running (".toList ++
    (Nat.toDigits 10 unique ++ " unique)".toList)))

theorem totalLine_eq (running unique : Nat) :
    totalLine running unique = totals running unique ++ ['\n'] := by
  have last : " unique)\n".toList = " unique)".toList ++ ['\n'] := rfl
  unfold totalLine totals
  rw [printInt_eq, printInt_eq, if_pos (Int.natCast_nonneg _), if_pos (Int.natCast_nonneg _), last]
  simp only [Int.toNat_natCast, List.append_assoc]

theorem totals_plain (running unique : Nat) : '\n' ∉ totals running unique := by
  have numerals : ∀ n : Nat, '\n' ∉ Nat.toDigits 10 n := fun n member => by
    have digit := Nat.isDigit_of_mem_toDigits (by decide) (by decide) member
    exact absurd digit (by decide)
  have texts : '\n' ∉ "Total ".toList ∧ '\n' ∉ " processes running (".toList ∧
      '\n' ∉ " unique)".toList := by decide
  obtain ⟨total, processes, uniqueWord⟩ := texts
  intro member
  rcases List.mem_append.mp member with here | member
  · exact total here
  rcases List.mem_append.mp member with here | member
  · exact numerals running here
  rcases List.mem_append.mp member with here | member
  · exact processes here
  rcases List.mem_append.mp member with here | here
  · exact numerals unique here
  · exact uniqueWord here

theorem totals_inj {n m n' m' : Nat} (same : totals n m = totals n' m') : n = n' ∧ m = m' := by
  have wordRunning : ∀ rest, ∀ c ∈ (" processes running (".toList ++ rest).head?, ¬ c.isDigit := by
    intro rest c head
    cases head
    decide
  have uniqueWord : ∀ c ∈ " unique)".toList.head?, ¬ c.isDigit := by
    intro c head
    cases head
    decide
  unfold totals at same
  obtain ⟨rfl, rest⟩ :=
    toDigits_append_inj (wordRunning _) (wordRunning _) (List.append_cancel_left same)
  obtain ⟨rfl, -⟩ := toDigits_append_inj uniqueWord uniqueWord (List.append_cancel_left rest)
  exact ⟨rfl, rfl⟩

/-- A text that ends with the line has it as the piece in front of the last newline. -/
theorem lastPiece_of_suffix {text : Text} {n m : Nat}
    (ends : ('\n' :: totalLine n m) <:+ text ++ ['\n']) :
    Delimited.lastPiece '\n' text = totals n m := by
  obtain ⟨front, same⟩ := ends
  rw [totalLine_eq, ← List.cons_append, ← List.append_assoc] at same
  rw [← (List.append_inj' same rfl).1, Delimited.lastPiece_append_cons,
    Delimited.lastPiece_of_notMem (totals_plain n m)]

theorem suffix_whole_iff (front : Text) {n m n' m' : Nat} :
    ('\n' :: totalLine n m) <:+ front ++ '\n' :: totalLine n' m' ↔ n = n' ∧ m = m' := by
  constructor
  · intro ends
    rw [totalLine_eq n', ← List.cons_append, ← List.append_assoc] at ends
    have last := lastPiece_of_suffix ends
    rw [Delimited.lastPiece_append_cons, Delimited.lastPiece_of_notMem (totals_plain n' m')] at last
    exact totals_inj last.symm
  · intro same
    obtain ⟨rfl, rfl⟩ := same
    exact List.suffix_append _ _

/-- A message that is cut has lost its last newline: behind the heading are lines, one of them
empty, and a part of the last one. -/
theorem take_message {now : Text} {records : List Text} {n m size : Nat}
    (heading : now.length + 2 ≤ size)
    (long : size < (now ++ "\n\n".toList ++ Delimited.frame '\n' records ++
      '\n' :: totalLine n m).length) :
    ∃ part, part <+: Delimited.frame '\n' (records ++ [[]]) ++ totals n m ∧
      (now ++ "\n\n".toList ++ Delimited.frame '\n' records ++ '\n' :: totalLine n m).take size =
        now ++ "\n\n".toList ++ part := by
  have whole : now ++ "\n\n".toList ++ Delimited.frame '\n' records ++ '\n' :: totalLine n m =
      (now ++ "\n\n".toList) ++ ((Delimited.frame '\n' (records ++ [[]]) ++ totals n m) ++
        ['\n']) := by
    rw [totalLine_eq, Delimited.frame_concat]
    simp
  have front : (now ++ "\n\n".toList).length = now.length + 2 := by simp
  rw [whole, List.length_append, front, List.length_append, List.length_singleton] at long
  refine ⟨_, List.take_prefix (size - (now.length + 2)) _, ?_⟩
  rw [whole, List.take_append, List.take_of_length_le (by omega), front,
    List.take_append_of_le_length (by omega)]

/-- A line of totals at the end of such a part is one of the lines. -/
theorem totals_mem_of_part {now : Text} {records : List Text} (plain : ∀ r ∈ records, '\n' ∉ r)
    {n m n' m' : Nat} {part : Text} (cut : part <+: Delimited.frame '\n' records ++ totals n' m')
    (ends : ('\n' :: totalLine n m) <:+ now ++ "\n\n".toList ++ part) :
    totals n m = [] ∨ totals n m ∈ records := by
  rcases List.eq_nil_or_concat part with rfl | ⟨text, c, rfl⟩
  · have split : now ++ "\n\n".toList ++ [] = (now ++ '\n' :: []) ++ ['\n'] := by simp
    rw [split] at ends
    have last := lastPiece_of_suffix ends
    rw [Delimited.lastPiece_append_cons] at last
    exact Or.inl last.symm
  · rw [List.concat_eq_append] at ends cut
    have split : now ++ "\n\n".toList ++ (text ++ [c]) = (now ++ '\n' :: '\n' :: text) ++ [c] := by
      simp
    rw [split] at ends
    obtain rfl : c = '\n' := by
      obtain ⟨front, same⟩ := ends
      rw [totalLine_eq, ← List.cons_append, ← List.append_assoc] at same
      exact (List.singleton_inj.mp (List.append_inj' same rfl).2).symm
    have last := lastPiece_of_suffix ends
    rw [Delimited.lastPiece_append_cons, ← List.nil_append ('\n' :: text),
      Delimited.lastPiece_append_cons] at last
    rw [← last]
    exact Or.inr (Delimited.lastPiece_of_prefix_frame plain (totals_plain n' m') cut)

/-- In a message that is cut, no line of a report stands for that of the totals. -/
theorem not_suffix_of_cut {now : Text} {records : List Text}
    (lines : ∀ r ∈ records, r.head? = some '&' ∧ '\n' ∉ r) {n m n' m' size : Nat}
    (heading : now.length + 2 ≤ size)
    (long : size < (now ++ "\n\n".toList ++ Delimited.frame '\n' records ++
      '\n' :: totalLine n' m').length) :
    ¬ ('\n' :: totalLine n m) <:+ (now ++ "\n\n".toList ++ Delimited.frame '\n' records ++
      '\n' :: totalLine n' m').take size := by
  intro ends
  have plain : ∀ r ∈ records ++ [[]], '\n' ∉ r := by
    intro r member
    rcases List.mem_append.mp member with line | last
    · exact (lines r line).2
    · simp [List.mem_singleton.mp last]
  obtain ⟨part, cut, same⟩ := take_message heading long
  rw [same] at ends
  rcases totals_mem_of_part plain cut ends with empty | member
  · cases empty
  rcases List.mem_append.mp member with line | last
  · have ampersand := (lines _ line).1
    cases ampersand
  · cases List.mem_singleton.mp last

/-! ### The messages -/

theorem fields_name [CLibrary] {b : Text} {f : Fields}
    (read : fields b = some f) : ∀ c ∈ f.name, c ∈ b := by
  unfold fields at read
  split at read
  next => cases read
  next =>
    obtain ⟨p, named, rfl⟩ := Option.map_eq_some_iff.mp read
    split at named
    next =>
      unfold quotedName at named
      dsimp only at named
      split at named
      next => cases named
      next =>
        obtain rfl := Option.some.inj named
        exact fun c member => List.mem_of_mem_tail ((List.takeWhile_subset _) member)
    next =>
      obtain ⟨lead, -, -, -, rfl⟩ := scanWord_eq_some_iff.mp named
      intro c member
      simp [limits] at member
      simp [member]

/-- A line of a report without its newline. -/
def procRecord (mycolor : Color) (pc : Cfg) (m : Nat) : Text :=
  '&' :: (mycolor.text ++ ' ' :: pc.name ++ " - ".toList ++ printInt m ++
    " running (min ".toList ++ printInt pc.min ++ ", max ".toList ++ printInt pc.max ++ ")".toList)

theorem procLine_eq (mycolor : Color) (pc : Cfg) (m : Nat) :
    procLine mycolor pc m = procRecord mycolor pc m ++ ['\n'] := by
  have first : "&".toList = ['&'] := rfl
  have last : ")\n".toList = ")".toList ++ ['\n'] := rfl
  unfold procLine procRecord
  rw [first, last]
  simp only [List.append_assoc, List.cons_append, List.nil_append]

theorem procRecord_plain (mycolor : Color) {pc : Cfg} (m : Nat) (plain : '\n' ∉ pc.name) :
    '\n' ∉ procRecord mycolor pc m := by
  have numbers : ∀ n : Int, '\n' ∉ printInt n := fun n member =>
    (printInt_solid n _ member).1 (by decide)
  have color : '\n' ∉ mycolor.text := by cases mycolor <;> decide
  have texts : '\n' ∉ " - ".toList ∧ '\n' ∉ " running (min ".toList ∧ '\n' ∉ ", max ".toList ∧
      '\n' ∉ ")".toList ∧ '\n' ≠ '&' ∧ '\n' ≠ ' ' := by decide
  obtain ⟨dash, min, max, close, ampersand, blank⟩ := texts
  simp only [procRecord, List.mem_cons, List.mem_append, numbers, color, plain, dash, min, max,
    close, ampersand, blank, or_self, not_false_eq_true]

/-- A report is made of lines that start with an ampersand. -/
theorem machineText_frame [CLibrary] (mrmachine : Text) (conf : List Config) (count : Text → Nat)
    (machine : Text) :
    ∃ records, machineText count (entries mrmachine (procsLines conf)) machine =
        Delimited.frame '\n' records ∧
      ∀ r ∈ records, r.head? = some '&' ∧ '\n' ∉ r := by
  refine ⟨((entries mrmachine (procsLines conf)).filter (Cfg.machine · = machine)).map fun pc =>
    procRecord (limitColor pc (count pc.name)) pc (count pc.name), ?_, ?_⟩
  · unfold machineText Delimited.frame
    rw [List.flatMap_map]
    simp only [procLine_eq]
  · intro r member
    obtain ⟨pc, inside, rfl⟩ := List.mem_map.mp member
    obtain ⟨line, listed, f, read, rfl⟩ :=
      (mem_entries mrmachine).mp (List.mem_of_mem_filter inside)
    refine ⟨rfl, procRecord_plain _ _ fun newline => ?_⟩
    exact sectionLines_plain conf _ _ line listed (fields_name read _ newline)

/-- A report that is cut by itself is cut with the message. -/
theorem take_cut {α : Type*} (size : Nat) (front text last : List α) :
    (front ++ text.take size ++ last).take size = (front ++ text ++ last).take size := by
  rcases Nat.le_total text.length size with fits | long
  · rw [List.take_of_length_le fits]
  · have full : size ≤ (front ++ text.take size).length := by
      rw [List.length_append, List.length_take]
      omega
    have full' : size ≤ (front ++ text).length := by
      rw [List.length_append]
      omega
    rw [List.take_append_of_le_length full, List.take_append_of_le_length full', List.take_append,
      List.take_append, List.take_take]
    congr 2
    omega

theorem message_iff {now text : Text} {records : List Text} (heading : now.length < 1024)
    (framed : text = Delimited.frame '\n' records)
    (lines : ∀ r ∈ records, r.head? = some '&' ∧ '\n' ∉ r) {n m n' m' : Nat} :
    ('\n' :: totalLine n m) <:+ snprcat [] 5000 (now ++ "\n\n".toList ++ text.take (5000 - 1) ++
        '\n' :: totalLine n' m') ↔
      n = n' ∧ m = m' ∧ now.length + 3 + text.length + (totalLine n' m').length < 5000 := by
  have size : (now ++ "\n\n".toList ++ text ++ '\n' :: totalLine n' m').length =
      now.length + 3 + text.length + (totalLine n' m').length := by
    simp only [List.length_append, List.length_cons]
    have two : "\n\n".toList.length = 2 := rfl
    omega
  rw [snprcat_nil, take_cut]
  by_cases fits : now.length + 3 + text.length + (totalLine n' m').length < 5000
  · rw [List.take_of_length_le (by omega), suffix_whole_iff]
    simp [fits]
  · subst framed
    refine iff_of_false ?_ fun parts => fits parts.2.2
    exact not_suffix_of_cut lines (by omega) (by omega)

theorem storedNames_of_all {processes : Processes} (all : AllEnumerated processes) :
    storedNames processes = runningNames processes := by
  unfold storedNames enumProcesses runningNames
  split
  next => rw [List.take_of_length_le all.2]
  next failed => rw [all.1 (by simpa using failed)]

theorem storedNames_length_iff (processes : Processes) :
    processes.running.length = (storedNames processes).length ↔ AllEnumerated processes := by
  constructor
  · intro same
    unfold storedNames enumProcesses at same
    rw [List.length_map] at same
    constructor
    · intro failed
      rw [if_neg (by simp [failed])] at same
      exact List.eq_nil_of_length_eq_zero same
    · split at same
      next =>
        rw [List.length_take] at same
        omega
      next =>
        rw [same]
        exact Nat.zero_le 1024
  · intro all
    rw [storedNames_of_all all, runningNames, List.length_map]

section

variable {options : List Text} (mrmachine : Text) (conf : List Config) {now : Text}
  (processes : Processes)

/-- What each message has to have, in terms of what is stored. -/
theorem totals_iff_stored [CLibrary] (noOption : getOption options "no_procs".toList false = none)
    (heading : now.length < 1024) {line : Text} {n m : Nat} (said : line = totalLine n m) :
    let pcfg := entries mrmachine (procsLines conf)
    let stored := storedNames processes
    let unique := distinct (stored ++ pcfg.map Cfg.name)
    (∀ r ∈ procs options mrmachine conf now processes, ('\n' :: line) <:+ r.message) ↔
      ∀ machine, (machine = mrmachine ∨ ∃ pc ∈ pcfg, pc.machine = machine) →
        n = stored.length ∧ m = unique ∧
          now.length + 3 + (machineText (occurrences stored) pcfg machine).length +
            (totalLine stored.length unique).length < 5000 := by
  intro pcfg stored unique
  have sums : ((lookedUp stored (pcfg.map Cfg.name)).map Proc.count).sum = stored.length ∧
      (lookedUp stored (pcfg.map Cfg.name)).length = unique :=
    ⟨lookedUp_sum _ _, (lookedUp_holds _ _).length⟩
  have message : ∀ rep ∈ reportEntries (occurrences stored) pcfg [startReport mrmachine],
      (('\n' :: line) <:+ snprcat [] 5000 (now ++ "\n\n".toList ++ rep.str ++
          '\n' :: totalLine stored.length unique) ↔
        n = stored.length ∧ m = unique ∧
          now.length + 3 + (machineText (occurrences stored) pcfg rep.machine).length +
            (totalLine stored.length unique).length < 5000) := by
    intro rep member
    obtain ⟨records, framed, lines⟩ :=
      machineText_frame mrmachine conf (occurrences stored) rep.machine
    rw [(reportEntries_report mrmachine _ _ member).1, said, message_iff heading framed lines]
  rw [procs_eq mrmachine conf now processes noOption, ← lookedUp, sums.1, sums.2,
    List.forall_mem_map]
  constructor
  · intro ends machine known
    obtain ⟨rep, member, rfl⟩ := List.mem_map.mp
      ((reportEntries_machines mrmachine (occurrences stored) pcfg machine).mpr known)
    exact (message rep member).mp (ends rep member)
  · intro each rep member
    refine (message rep member).mpr (each rep.machine ?_)
    exact (reportEntries_machines mrmachine (occurrences stored) pcfg rep.machine).mp
      (List.mem_map_of_mem member)

/-- Every status ends with the true totals if and only if all that runs is enumerated, every
configured name runs, and no message is longer than its buffer. -/
theorem totals_true_iff [CLibrary] (noOption : getOption options "no_procs".toList false = none)
    (heading : now.length < 1024) :
    (∀ r ∈ procs options mrmachine conf now processes,
        ('\n' :: trueTotals processes) <:+ r.message) ↔
      AllEnumerated processes ∧
        (∀ pc ∈ entries mrmachine (procsLines conf),
          ∃ name ∈ runningNames processes, folded name = folded pc.name) ∧
        ∀ machine, (machine = mrmachine ∨
            ∃ pc ∈ entries mrmachine (procsLines conf), pc.machine = machine) →
          now.length + 3 + (machineText (occurrences (runningNames processes))
            (entries mrmachine (procsLines conf)) machine).length +
            (trueTotals processes).length < 5000 := by
  have said : trueTotals processes =
      totalLine processes.running.length (distinct (runningNames processes)) := rfl
  have stored := totals_iff_stored mrmachine conf processes noOption heading said
  dsimp only at stored
  rw [stored]
  have names : distinct (runningNames processes) = distinct (runningNames processes ++
      (entries mrmachine (procsLines conf)).map Cfg.name) ↔
      ∀ pc ∈ entries mrmachine (procsLines conf),
        ∃ name ∈ runningNames processes, folded name = folded pc.name := by
    rw [eq_comm, distinct_append_iff, List.forall_mem_map]
  have size : (runningNames processes).length = processes.running.length := List.length_map _
  constructor
  · intro each
    have all : AllEnumerated processes :=
      (storedNames_length_iff processes).mp (each mrmachine (Or.inl rfl)).1
    rw [storedNames_of_all all] at each
    refine ⟨all, names.mp (each mrmachine (Or.inl rfl)).2.1, fun machine known => ?_⟩
    obtain ⟨-, unique, fits⟩ := each machine known
    rwa [size, ← unique] at fits
  · intro parts machine known
    obtain ⟨all, run, fit⟩ := parts
    have unique := names.mpr run
    rw [storedNames_of_all all, size, ← unique]
    exact ⟨rfl, rfl, fit machine known⟩

/-- Two processes of one name, which is configured. -/
theorem totals_true_iff_running :
    AllEnumerated ⟨[⟨some "svchost.exe".toList⟩, ⟨some "SvcHost.exe".toList⟩], true⟩ ∧
      ∀ r ∈ procs [] "host".toList [⟨"procs".toList, "svchost.exe 1 9\n".toList⟩] "noon".toList
          ⟨[⟨some "svchost.exe".toList⟩, ⟨some "SvcHost.exe".toList⟩], true⟩,
        ('\n' :: trueTotals ⟨[⟨some "svchost.exe".toList⟩, ⟨some "SvcHost.exe".toList⟩], true⟩) <:+
          r.message := by
  have entry : entries "host".toList
      (procsLines [⟨"procs".toList, "svchost.exe 1 9\n".toList⟩]) =
      [⟨"svchost.exe".toList, 1, 9, "host".toList⟩] := by decide
  have all : AllEnumerated ⟨[⟨some "svchost.exe".toList⟩, ⟨some "SvcHost.exe".toList⟩], true⟩ :=
    ⟨by decide, by decide⟩
  refine ⟨all, (totals_true_iff "host".toList [⟨"procs".toList, "svchost.exe 1 9\n".toList⟩]
    ⟨[⟨some "svchost.exe".toList⟩, ⟨some "SvcHost.exe".toList⟩], true⟩ rfl (by decide)).mpr
    ⟨all, ?_, ?_⟩⟩
  · rw [entry]
    decide
  · rw [entry]
    intro machine known
    obtain rfl : machine = "host".toList := by simpa [eq_comm] using known
    decide

/-- A configured process that does not run is one name too many. -/
theorem missing_process_counted :
    getOption [] "no_procs".toList false = none ∧ "noon".toList.length < 1024 ∧
    ¬ ∀ r ∈ procs [] "host".toList [⟨"procs".toList, "notepad.exe\n".toList⟩] "noon".toList
        ⟨[⟨some "svchost.exe".toList⟩], true⟩,
      ('\n' :: trueTotals ⟨[⟨some "svchost.exe".toList⟩], true⟩) <:+ r.message := by
  refine ⟨rfl, by decide, fun ends => ?_⟩
  have stored := totals_iff_stored "host".toList [⟨"procs".toList, "notepad.exe\n".toList⟩]
    ⟨[⟨some "svchost.exe".toList⟩], true⟩
    (show getOption [] "no_procs".toList false = none from rfl)
    (show "noon".toList.length < 1024 by decide)
    (show trueTotals ⟨[⟨some "svchost.exe".toList⟩], true⟩ = totalLine 1 1 from rfl)
  exact absurd (stored.mp ends "host".toList (Or.inl rfl)).2.1 (by decide)

end

end MrBig.Guarantees.ProcsTotals
