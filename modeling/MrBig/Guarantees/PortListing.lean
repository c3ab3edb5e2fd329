import MrBig.Guarantees.Ipv6Address
import MrBig.Library.Runs
import MrBig.Source.Scanf

/-!
# The listing of connections

Rows with the PID and the local address of the row before them are a run. Of a run of more than
twenty rows the rest is summed up in a line. A run that another one ends is summed up with its
last row; behind the loop `rPrev` is the row before the last.
-/

set_option autoImplicit false

namespace MrBig.Guarantees.PortListing
open Library.Runs Source Source.Winports Ipv6Address

/-! ### Rows and runs -/

section

variable {af : IpVersion}

def owningPid : {proto : Protocol} → Row af proto → UInt32
  | .TCP, row => row.owningPid
  | .UDP, row => row.owningPid

def localAddr : {proto : Protocol} → Row af proto → Address af
  | .TCP, row => row.localAddr
  | .UDP, row => row.localAddr

def localPort : {proto : Protocol} → Row af proto → UInt32
  | .TCP, row => row.localPort
  | .UDP, row => row.localPort

variable {proto : Protocol}

/-- Equal PID and local address. -/
def Alike (row row' : Row af proto) : Prop :=
  owningPid row = owningPid row' ∧ localAddr row = localAddr row'

instance (row row' : Row af proto) : Decidable (Alike row row') :=
  inferInstanceAs (Decidable (_ ∧ _))

/-- Maximal runs of consecutive rows that are alike. -/
structure MaximalRuns (rows : List (Row af proto)) (runs : List (List (Row af proto))) : Prop where
  whole : runs.flatten = rows
  nonempty : [] ∉ runs
  alike : ∀ run ∈ runs, run.Pairwise Alike
  maximal : runs.IsChain fun run run' =>
    ∀ row ∈ run.getLast?, ∀ row' ∈ run'.head?, ¬ Alike row row'

/-- The line of a row. -/
def line (row : Row af proto) : Text := rowLine proto (getRow row startListing.r)

/-- The summary of a run, with the address, the PID and the port of a row. -/
def summary (run : List (Row af proto)) (row : Row af proto) : List Text :=
  if 20 < run.length then
    [skippingLine (prettyAddress af (localAddr row)) (owningPid row).toNat (run.length - 20)
      (ntohs (localPort row))]
  else []

/-- The lines of a run. -/
def listed (run : List (Row af proto)) (row : Row af proto) : List Text :=
  (run.take 20).map line ++ summary run row

/-- The lines of a run that is summed up with its last row. -/
def listedLast (run : List (Row af proto)) : List Text := run.getLast?.elim [] (listed run)

end

/-- The runs of the rows that are read. -/
def runsOf (connections : ConnectionTable) : List (List (Row connections.af connections.proto)) :=
  (connections.table.take maxPortEntries).splitBy fun row row' => decide (Alike row row')

/-- The line for the rows that are not. -/
def beyond (connections : ConnectionTable) : List Text :=
  if connections.table.length > maxPortEntries then
    [moreLine connections.af connections.proto (connections.table.length - maxPortEntries)]
  else []

/-! ### Addresses as texts -/

theorem printUnsigned_injective {n m : Nat} (same : printUnsigned n = printUnsigned m) :
    n = m := by
  rw [printUnsigned, printUnsigned] at same
  rw [← numeral_toDigits n, ← numeral_toDigits m, same]

theorem inetNtoa_injective {addr addr' : UInt32} (same : inetNtoa addr = inetNtoa addr') :
    addr = addr' := by
  have stop : ∀ rest : Text, ∀ c ∈ ('.' :: rest).head?, ¬ c.isDigit := by
    intro rest c head
    cases head
    decide
  obtain ⟨first, rest⟩ := toDigits_append_inj (stop _) (stop _) same
  obtain ⟨second, rest⟩ := toDigits_append_inj (stop _) (stop _) (List.cons.inj rest).2
  obtain ⟨third, rest⟩ := toDigits_append_inj (stop _) (stop _) (List.cons.inj rest).2
  have fourth := printUnsigned_injective (List.cons.inj rest).2
  have small := addr.toNat_lt
  have small' := addr'.toNat_lt
  apply UInt32.toNat_inj.mp
  omega

theorem prettyAddress_injective {af : IpVersion} {addr addr' : Address af}
    (same : prettyAddress af addr = prettyAddress af addr') : addr = addr' := by
  cases af with
  | IPv4 => exact inetNtoa_injective same
  | IPv6 => exact prettyIPv6_injective same

theorem prettyAddress_ne_nil {af : IpVersion} (addr : Address af) : prettyAddress af addr ≠ [] := by
  cases af with
  | IPv4 => exact List.append_ne_nil_of_right_ne_nil _ (List.cons_ne_nil _ _)
  | IPv6 => exact List.append_ne_nil_of_right_ne_nil _ (List.cons_ne_nil _ _)

/-! ### What a row does -/

section

variable {af : IpVersion} {proto : Protocol} (row row' : Row af proto) (out out' : Record)

@[simp] theorem getRow_pid : (getRow row out).pid = (owningPid row).toNat := by
  cases proto <;> rfl

@[simp] theorem getRow_localAddress :
    (getRow row out).localAddress = prettyAddress af (localAddr row) := by
  cases proto <;> rfl

@[simp] theorem getRow_localPort : (getRow row out).localPort = ntohs (localPort row) := by
  cases proto <;> rfl

theorem rowLine_getRow : rowLine proto (getRow row out) = line row := by
  cases proto <;> rfl

/-- The texts are compared, and with them the addresses. -/
theorem alike_iff :
    (getRow row out).pid = (getRow row' out').pid ∧
        (getRow row out).localAddress = (getRow row' out').localAddress ↔ Alike row' row := by
  rw [getRow_pid, getRow_pid, getRow_localAddress, getRow_localAddress, Alike, UInt32.toNat_inj,
    eq_comm, @eq_comm _ (localAddr row')]
  refine and_congr_right fun _ => ⟨prettyAddress_injective, fun same => ?_⟩
  rw [same]

end

section

variable {af : IpVersion} {proto : Protocol}

theorem skipped_eq (run : List (Row af proto)) (row : Row af proto) (out : Record) :
    skipped (decide (20 < run.length)) (getRow row out) run.length = summary run row := by
  rw [skipped, summary, getRow_pid, getRow_localAddress, getRow_localPort]
  simp only [decide_eq_true_eq, similarEntriesMaxNum]

/-- The state in the midst of a run, where the runs in front of it are done. -/
structure InRun (done : List (List (Row af proto))) (run : List (Row af proto)) (s : Listing) :
    Prop where
  last : ∃ row out, run.getLast? = some row ∧ s.r = getRow row out
  prev : ∀ row ∈ run.dropLast.getLast?, ∃ out, s.rPrev = getRow row out
  skipping : s.skipping = decide (20 < run.length)
  range : s.range = run.length
  lines : s.lines = done.flatMap listedLast ++ (run.take 20).map line

theorem inRun_first (row : Row af proto) :
    InRun [] [row] (appendConnection startListing row) := by
  have other : ¬ ((getRow row startListing.rPrev).pid = startListing.r.pid ∧
      (getRow row startListing.rPrev).localAddress = startListing.r.localAddress) := by
    rw [getRow_localAddress]
    exact fun same => prettyAddress_ne_nil _ same.2
  rw [appendConnection, if_neg other]
  refine ⟨⟨row, _, rfl, rfl⟩, fun row' nothing => ?_, rfl, rfl, ?_⟩
  · cases nothing
  · rw [rowLine_getRow]
    rfl

theorem inRun_goesOn {done : List (List (Row af proto))} {run : List (Row af proto)} {s : Listing}
    {row : Row af proto} (inRun : InRun done run s)
    (alike : ∀ l ∈ run.getLast?, decide (Alike l row) = true) :
    InRun done (run ++ [row]) (appendConnection s row) := by
  obtain ⟨l, out, last, r⟩ := inRun.last
  have same : (getRow row s.rPrev).pid = s.r.pid ∧
      (getRow row s.rPrev).localAddress = s.r.localAddress := by
    rw [r, alike_iff]
    exact of_decide_eq_true (alike l last)
  rw [appendConnection, if_pos same]
  refine ⟨⟨row, _, List.getLast?_concat, rfl⟩, ?_, ?_, ?_, ?_⟩
  · intro before placed
    rw [List.dropLast_concat, last] at placed
    rw [← Option.some.inj placed]
    exact ⟨out, r⟩
  · dsimp only
    rw [inRun.skipping, inRun.range, List.length_append, List.length_singleton,
      ← Bool.decide_or]
    exact decide_eq_decide.mpr (by rw [similarEntriesMaxNum]; omega)
  · dsimp only
    rw [inRun.range, List.length_append, List.length_singleton]
  · dsimp only
    rw [inRun.lines, inRun.skipping, inRun.range, rowLine_getRow, ← Bool.decide_or,
      List.take_append, List.append_assoc, List.map_append]
    congr 2
    rcases Nat.lt_or_ge run.length 20 with short | long
    · have shown : ¬ (20 < run.length ∨ run.length + 1 > similarEntriesMaxNum) := by
        rw [similarEntriesMaxNum]
        omega
      rw [if_neg (by simpa only [decide_eq_true_eq] using shown),
        List.take_of_length_le (show [row].length ≤ 20 - run.length from Nat.sub_pos_of_lt short)]
      rfl
    · have left_out : 20 < run.length ∨ run.length + 1 > similarEntriesMaxNum := by
        rw [similarEntriesMaxNum]
        omega
      rw [if_pos (by simpa only [decide_eq_true_eq] using left_out), Nat.sub_eq_zero_of_le long,
        List.take_zero, List.map_nil]

theorem inRun_opens {done : List (List (Row af proto))} {run : List (Row af proto)} {s : Listing}
    {row : Row af proto} (inRun : InRun done run s)
    (differs : ∀ l ∈ run.getLast?, decide (Alike l row) = false) :
    InRun (done ++ [run]) [row] (appendConnection s row) := by
  obtain ⟨l, out, last, r⟩ := inRun.last
  have other : ¬ ((getRow row s.rPrev).pid = s.r.pid ∧
      (getRow row s.rPrev).localAddress = s.r.localAddress) := by
    rw [r, alike_iff]
    exact of_decide_eq_false (differs l last)
  rw [appendConnection, if_neg other]
  refine ⟨⟨row, _, rfl, rfl⟩, fun row' nothing => ?_, rfl, rfl, ?_⟩
  · cases nothing
  · have finished : listedLast run = (run.take 20).map line ++ summary run l := by
      rw [listedLast, last, Option.elim_some, listed]
    dsimp only
    rw [inRun.lines, inRun.skipping, inRun.range, r, skipped_eq, rowLine_getRow,
      List.flatMap_append, List.flatMap_singleton, finished, List.append_assoc (done.flatMap _)]
    rfl

theorem appendConnection_fold :
    RunFold (fun row row' : Row af proto => decide (Alike row row')) appendConnection startListing
      InRun where
  first := inRun_first
  goesOn := inRun_goesOn
  opens := inRun_opens

end

/-! ### The listing -/

instance alike_trans {af : IpVersion} {proto : Protocol} :
    Trans (@Alike af proto) Alike Alike where
  trans first second := ⟨first.1.trans second.1, first.2.trans second.2⟩

theorem runsOf_maximal (connections : ConnectionTable) :
    MaximalRuns (connections.table.take maxPortEntries) (runsOf connections) where
  whole := List.flatten_splitBy _ _
  nonempty := List.nil_notMem_splitBy _ _
  alike := by
    intro run member
    have chain := List.isChain_of_mem_splitBy member
    exact List.isChain_iff_pairwise.mp (chain.imp fun _ _ same => of_decide_eq_true same)
  maximal := by
    refine (List.isChain_getLast_head_splitBy _ _).imp fun run run' ends row last row' head => ?_
    obtain ⟨notEmpty, some', differ⟩ := ends
    rw [List.getLast_of_mem_getLast? last, List.head_of_mem_head? head] at differ
    exact of_decide_eq_false differ

/-- The run that ends the table is summed up with the row before its last one. -/
theorem connectionLines_eq {connections : ConnectionTable}
    {done : List (List (Row connections.af connections.proto))}
    {run : List (Row connections.af connections.proto)}
    (split : runsOf connections = done ++ [run]) :
    ∃ row ∈ run, (20 < run.length → run.dropLast.getLast? = some row) ∧
      connectionLines connections =
        done.flatMap listedLast ++ listed run row ++ beyond connections := by
  have notEmpty : connections.table.take maxPortEntries ≠ [] := by
    intro isEmpty
    rw [runsOf, isEmpty, List.splitBy_nil] at split
    exact absurd split.symm (by simp)
  obtain ⟨done', run', split', inRun⟩ := appendConnection_fold.foldl notEmpty
  obtain ⟨rfl, single⟩ := List.append_inj' (split.symm.trans split') rfl
  obtain rfl := List.singleton_inj.mp single
  have lines : connectionLines connections = done.flatMap listedLast ++ (run.take 20).map line ++
      skipped (decide (20 < run.length))
        ((connections.table.take maxPortEntries).foldl appendConnection startListing).rPrev
        run.length ++ beyond connections := by
    rw [connectionLines, Nat.min_comm, ← List.take_eq_take_min, inRun.lines, inRun.skipping,
      inRun.range, beyond]
  by_cases long : 20 < run.length
  · have more : run.dropLast ≠ [] := by
      intro nothing
      have size := congrArg List.length nothing
      rw [List.length_dropLast, List.length_nil] at size
      omega
    have last := List.getLast?_eq_some_getLast more
    obtain ⟨out, rPrev⟩ := inRun.prev _ last
    refine ⟨_, List.dropLast_subset _ (List.getLast_mem more), fun _ => last, ?_⟩
    rw [lines, rPrev, skipped_eq, listed, List.append_assoc (done.flatMap _)]
  · obtain ⟨row, out, last, r⟩ := inRun.last
    refine ⟨row, List.mem_of_getLast? last, fun long' => absurd long' long, ?_⟩
    have nothing : ∀ rPrev, skipped (decide (20 < run.length)) rPrev run.length = [] := by
      intro rPrev
      rw [decide_eq_false long]
      rfl
    rw [lines, nothing, listed, summary, if_neg long, List.append_nil, List.append_nil]

theorem connectionLines_nil {connections : ConnectionTable} (isEmpty : runsOf connections = []) :
    connectionLines connections = beyond connections := by
  have nothing : connections.table.take maxPortEntries = [] := List.splitBy_eq_nil.mp isEmpty
  rw [connectionLines, Nat.min_comm, ← List.take_eq_take_min, nothing]
  rfl

theorem listedLast_eq {af : IpVersion} {proto : Protocol} {run : List (Row af proto)}
    (notEmpty : run ≠ []) : listedLast run = listed run (run.getLast notEmpty) := by
  rw [listedLast, List.getLast?_eq_some_getLast notEmpty, Option.elim_some]

/-- Every row of a run is listed or counted. -/
theorem counted_flatten {α : Type} (runs : List (List α)) :
    (runs.map fun run => (run.take 20).length).sum + (runs.map fun run => run.length - 20).sum =
      runs.flatten.length := by
  induction runs with
  | nil => rfl
  | cons run rest ih =>
    rw [List.map_cons, List.map_cons, List.sum_cons, List.sum_cons, List.flatten_cons,
      List.length_append, ← ih, List.length_take]
    omega

/-- The rows are listed run by run: the first twenty of each, and a line that counts the rest. -/
theorem connections_listed (connections : ConnectionTable) :
    MaximalRuns (connections.table.take maxPortEntries) (runsOf connections) ∧
    (∃ chunks, List.Forall₂ (fun run chunk => ∃ row ∈ run, chunk = listed run row)
        (runsOf connections) chunks ∧
      connectionLines connections = chunks.flatten ++ beyond connections) ∧
    ((runsOf connections).map fun run => (run.take 20).length).sum +
        ((runsOf connections).map fun run => run.length - 20).sum +
        (connections.table.length - maxPortEntries) = connections.table.length := by
  have maximal := runsOf_maximal connections
  refine ⟨maximal, ?_, ?_⟩
  · have last : ∀ run ∈ runsOf connections, ∃ row ∈ run, listedLast run = listed run row := by
      intro run member
      have notEmpty : run ≠ [] := fun isEmpty => maximal.nonempty (isEmpty ▸ member)
      exact ⟨_, List.getLast_mem notEmpty, listedLast_eq notEmpty⟩
    rcases List.eq_nil_or_concat' (runsOf connections) with isEmpty | ⟨done, run, split⟩
    · rw [connectionLines_nil isEmpty, isEmpty]
      exact ⟨[], List.Forall₂.nil, rfl⟩
    · obtain ⟨row, member, -, lines⟩ := connectionLines_eq split
      rw [split] at last ⊢
      refine ⟨done.map listedLast ++ [listed run row], ?_, ?_⟩
      · refine List.rel_append ?_ (List.Forall₂.cons ⟨row, member, rfl⟩ List.Forall₂.nil)
        rw [List.forall₂_map_right_iff, List.forall₂_same]
        exact fun run' inDone => last run' (List.mem_append_left _ inDone)
      · rw [lines, List.flatten_append, List.flatten_singleton, List.flatMap_def]
  · rw [counted_flatten, maximal.whole, List.length_take]
    omega

/-- Summaries of one run differ by the port. -/
theorem listed_inj {af : IpVersion} {proto : Protocol} {run : List (Row af proto)}
    {row row' : Row af proto} (long : 20 < run.length) (alike : Alike row row') :
    listed run row = listed run row' ↔ ntohs (localPort row) = ntohs (localPort row') := by
  rw [listed, listed, List.append_cancel_left_eq, summary, summary, if_pos long, if_pos long,
    List.cons.injEq, and_iff_left rfl, alike.1, alike.2]
  constructor
  · intro same
    exact printUnsigned_injective (List.append_cancel_left same)
  · intro same
    rw [same]

theorem summaries_iff_of_split {connections : ConnectionTable}
    {done : List (List (Row connections.af connections.proto))}
    {run : List (Row connections.af connections.proto)}
    (split : runsOf connections = done ++ [run]) :
    connectionLines connections =
        (runsOf connections).flatMap listedLast ++ beyond connections ↔
      (20 < run.length → ∀ row ∈ run.getLast?, ∀ row' ∈ run.dropLast.getLast?,
        ntohs (localPort row') = ntohs (localPort row)) := by
  have maximal := runsOf_maximal connections
  obtain ⟨row, member, before, lines⟩ := connectionLines_eq split
  have inRuns : run ∈ runsOf connections := by
    rw [split]
    exact List.mem_append_right _ List.mem_cons_self
  have notEmpty : run ≠ [] := fun isEmpty => maximal.nonempty (isEmpty ▸ inRuns)
  rw [lines, split, List.flatMap_append, List.flatMap_singleton, List.append_cancel_right_eq,
    List.append_cancel_left_eq, listedLast_eq notEmpty]
  by_cases long : 20 < run.length
  · have split' := List.dropLast_concat_getLast notEmpty
    have alike : Alike row (run.getLast notEmpty) := by
      have pairs := maximal.alike run inRuns
      rw [← split', List.pairwise_append] at pairs
      exact pairs.2.2 row (List.mem_of_getLast? (before long)) _ List.mem_cons_self
    rw [listed_inj long alike]
    constructor
    · intro same _ l last l' before'
      rw [List.getLast?_eq_some_getLast notEmpty] at last
      rw [before long] at before'
      rw [← Option.some.inj last, ← Option.some.inj before', same]
    · intro equal
      exact equal long _ (List.getLast?_eq_some_getLast notEmpty) row (before long)
  · refine iff_of_true ?_ fun long' => absurd long' long
    rw [listed, listed, summary, summary, if_neg long, if_neg long]

/-- The last two rows of the run that ends the listing have one port, if rows of it are left
out. -/
def LastPortsEqual (connections : ConnectionTable) : Prop :=
  ∀ run ∈ (runsOf connections).getLast?, 20 < run.length →
    ∀ row ∈ run.getLast?, ∀ row' ∈ run.dropLast.getLast?,
      ntohs (localPort row') = ntohs (localPort row)

/-- Every summary has the port of the last row of its run if and only if the last two rows of the
run that ends the listing have one port or none of that run is left out. -/
theorem summaries_name_last_iff (connections : ConnectionTable) :
    connectionLines connections =
        (runsOf connections).flatMap listedLast ++ beyond connections ↔
      LastPortsEqual connections := by
  rcases List.eq_nil_or_concat' (runsOf connections) with isEmpty | ⟨done, run, split⟩
  · rw [connectionLines_nil isEmpty, LastPortsEqual, isEmpty]
    refine iff_of_true rfl fun run nothing => ?_
    cases nothing
  · rw [summaries_iff_of_split split, LastPortsEqual, split, List.getLast?_concat]
    constructor
    · intro equal run' last
      rwa [← Option.some.inj last]
    · intro equal
      exact equal run rfl

/-- Twenty-one connections of one process from 127.0.0.1, ports 8000 to 8020. -/
def oneProcess : ConnectionTable where
  af := .IPv4
  proto := .TCP
  table := (List.range 21).map fun i => TcpRow.mk 5 (0x0100007F : UInt32)
    (UInt32.ofNat (31 + (64 + i) * 256)) (0x0100007F : UInt32) 47873 4711

/-- Port 8019 is named. -/
theorem last_port_missed :
    connectionLines oneProcess ≠
      (runsOf oneProcess).flatMap listedLast ++ beyond oneProcess := by
  have split : runsOf oneProcess = [] ++ [oneProcess.table] :=
    List.splitBy_of_isChain (by decide) (by decide)
  intro precise
  have equal := (summaries_iff_of_split split).mp precise (by decide) _ rfl _ rfl
  exact absurd equal (by decide)

end MrBig.Guarantees.PortListing
