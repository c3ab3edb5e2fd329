import Mathlib.Algebra.Order.Group.Multiset
import MrBig.Guarantees.ProcsReports
import MrBig.Source.Chunks
import MrBig.Source.TestHeap

/-!
# The blocks that the tests leave behind

Every live block is a record's, the configuration's or somebody else's (`Owns`), and each step of
the main loop keeps it so. What a test gets from `big_malloc` and `big_strdup` and can no longer
free is `lost`: the report of a disabled test, the nodes of `scfg` where no service is listed, the
buffer of an empty list. The reports that are sent are those of the tests without blocks
(`procs_enabled`, `svcs_enabled`).
-/

set_option autoImplicit false

namespace MrBig.Guarantees.TestBlocks
open Library Library.Blocks Source.TestHeap
open Source (Add Call Color Config Pair Report TestStatus Text)
open Source.Procs (Cfg Proc Processes)
open Source.Svcs (CfgMode Listed ServiceManager ServiceStatus Svc SvccfgState SvcsReport)

variable (address : Nat → Nat)

/-! ### The records of insert_status -/

@[simp] theorem statusBlocks_cons (r : StatusRecord) (rest : List StatusRecord) :
    statusBlocks (r :: rest) = r.blocks + statusBlocks rest := by
  simp [statusBlocks]

/-- A change of one record leaves the blocks of the others. -/
theorem statusBlocks_modify {p : Pair} {teststatus : List StatusRecord} {r : StatusRecord}
    (found : KeyedList.find StatusRecord.pair p teststatus = some r) :
    ∃ others, statusBlocks teststatus = r.blocks + others ∧
      ∀ f : StatusRecord → StatusRecord,
        statusBlocks (KeyedList.modify StatusRecord.pair p f teststatus) =
          (f r).blocks + others := by
  induction teststatus with
  | nil => cases found
  | cons head tail ih =>
    rw [KeyedList.find_cons] at found
    split at found
    next here =>
      obtain rfl := Option.some.inj found
      refine ⟨statusBlocks tail, statusBlocks_cons _ _, fun f => ?_⟩
      rw [KeyedList.modify, if_pos here, statusBlocks_cons]
    next other =>
      obtain ⟨others, same, changed⟩ := ih found
      refine ⟨head.blocks + others, ?_, fun f => ?_⟩
      · rw [statusBlocks_cons, same, add_left_comm]
      · rw [KeyedList.modify, if_neg other, statusBlocks_cons, changed, add_left_comm]

/-- `insert_status` returns, and what it gets and frees are blocks of the records. -/
theorem insertStatus_spec {s : Heap × List StatusRecord} {frame : Multiset Nat}
    (live : s.1.live = statusBlocks s.2 + frame) (c : Call) :
    ∃ s' is, insertStatus address s c = some (s', is) ∧
      s'.1.live = statusBlocks s'.2 + frame := by
  unfold insertStatus
  cases found : KeyedList.find StatusRecord.pair c.pair s.2 with
  | none =>
    let new := hold address s.1 2 (Source.newStatus c)
    refine ⟨((new.1.malloc address).1, ⟨new.2, (new.1.malloc address).2⟩ :: s.2), 2, rfl, ?_⟩
    rw [malloc_live, hold_live, live, statusBlocks_cons, StatusRecord.blocks, Multiset.cons_add,
      Multiset.cons_add, Multiset.add_assoc]
  | some r =>
    obtain ⟨others, same, changed⟩ := statusBlocks_modify found
    dsimp only
    split
    next kept =>
      refine ⟨_, _, rfl, ?_⟩
      rw [live, changed, same]
      rfl
    next replaced =>
      rw [same, StatusRecord.blocks, Multiset.cons_add, Multiset.cons_add] at live
      obtain ⟨h, freed, still⟩ := free_spec live
      refine ⟨_, _, by rw [freed]; rfl, ?_⟩
      dsimp only
      rw [malloc_live, changed, still, StatusRecord.blocks, Multiset.cons_add, Multiset.cons_add]
      rfl

/-- The records without their blocks. -/
abbrev statuses (teststatus : List StatusRecord) : List TestStatus :=
  teststatus.map fun r => r.held.value

/-- What `insert_status` does to the records it does without blocks too. -/
theorem insertStatus_values {s s' : Heap × List StatusRecord} {c : Call} {is : Nat}
    (done : insertStatus address s c = some (s', is)) :
    Source.insertStatus (statuses s.2) c = (statuses s'.2, is) := by
  have known : KeyedList.find TestStatus.pair c.pair (statuses s.2) =
      (KeyedList.find StatusRecord.pair c.pair s.2).map fun r => r.held.value :=
    KeyedList.find_map _ c.pair s.2
  unfold insertStatus at done
  cases found : KeyedList.find StatusRecord.pair c.pair s.2 with
  | none =>
    rw [found] at done known
    obtain ⟨rfl, rfl⟩ := Prod.mk.inj (Option.some.inj done)
    rw [Source.insertStatus, known]
    rfl
  | some r =>
    rw [found] at done known
    rw [Source.insertStatus, known]
    dsimp only [Option.map_some] at done ⊢
    have changed : ∀ {g : StatusRecord → StatusRecord},
        (g r).held.value = (Source.updateStatus r.held.value c).1 →
        statuses (KeyedList.modify StatusRecord.pair c.pair g s.2) =
          KeyedList.modify TestStatus.pair c.pair (fun s => (Source.updateStatus s c).1)
            (statuses s.2) := by
      intro g update
      refine KeyedList.modify_map (fun r : StatusRecord => r.held.value) c.pair s.2 ?_
      intro r' found'
      obtain rfl := Option.some.inj (found.symm.trans found')
      exact update
    split at done
    · obtain ⟨rfl, rfl⟩ := Prod.mk.inj (Option.some.inj done)
      rw [changed rfl]
    · obtain ⟨h, -, replaced⟩ := Option.bind_eq_some_iff.mp done
      obtain ⟨rfl, rfl⟩ := Prod.mk.inj (Option.some.inj replaced)
      rw [changed rfl]

theorem mrsend_spec {s : Heap × List StatusRecord} {frame : Multiset Nat}
    (live : s.1.live = statusBlocks s.2 + frame) (c : Call) :
    ∃ s', mrsend address s c = some s' ∧ s'.1.live = statusBlocks s'.2 + frame := by
  obtain ⟨s', is, inserted, still⟩ := insertStatus_spec address live c
  rw [mrsend, inserted]
  dsimp only [Option.bind_eq_bind, Option.bind_some]
  split
  · exact ⟨_, rfl, still⟩
  · obtain ⟨h, freed, left⟩ := free_spec (malloc_live address s'.1)
    refine ⟨(h, s'.2), ?_, left.trans still⟩
    rw [freed]
    rfl

theorem mrsend_values {s s' : Heap × List StatusRecord} {c : Call}
    (done : mrsend address s c = some s') :
    (Source.mrsend (statuses s.2) c).1 = statuses s'.2 := by
  obtain ⟨⟨⟨h, teststatus⟩, is⟩, inserted, rest⟩ := Option.bind_eq_some_iff.mp done
  dsimp only at rest
  have same : statuses teststatus = statuses s'.2 := by
    split at rest
    · rw [← Option.some.inj rest]
    · obtain ⟨h', -, freed⟩ := Option.bind_eq_some_iff.mp rest
      rw [← Option.some.inj freed]
  rw [Source.mrsend, insertStatus_values address inserted, ← same]
  dsimp only
  split
  · rfl
  · split <;> rfl

/-- The last loop frees the reports. -/
theorem sendReports_spec (moment : Nat → Moment) (report : SvcsReport → Report)
    (preports : List (Held SvcsReport)) {s : Heap × List StatusRecord} {frame : Multiset Nat}
    (live : s.1.live = statusBlocks s.2 + (blocksOf preports + frame)) :
    ∃ s', sendReports address moment report preports s = some s' ∧
      s'.1.live = statusBlocks s'.2 + frame := by
  induction preports generalizing s with
  | nil => exact ⟨s, rfl, by simpa using live⟩
  | cons rep rest ih =>
    obtain ⟨sent, done, still⟩ :=
      mrsend_spec address live ((moment rest.length).call (report rep.value))
    rw [blocksOf_cons, Multiset.add_assoc, add_left_comm] at still
    obtain ⟨h, released, left⟩ := release_spec still
    obtain ⟨s', others, last⟩ := @ih (h, sent.2) left
    refine ⟨s', ?_, last⟩
    rw [sendReports, done]
    dsimp only [Option.bind_eq_bind, Option.bind_some]
    rw [released]
    exact others

/-! ### The configuration -/

abbrev values {α : Type} (xs : List (Held α)) : List α := xs.map Held.value

variable {s : Heap × List (Held Config)}

theorem addCfg_values (a : Add) :
    values (addCfg address s a).2 = Source.addCfg (values s.2) a.1 a.2 := by
  rw [Source.addCfg_eq_enter]
  exact enter_values address 2 _ _

theorem readCfg_values (adds : List Add) :
    values (readCfg address s adds).2 = Source.addAll (values s.2) adds := by
  induction adds generalizing s with
  | nil => rfl
  | cons a adds ih =>
    rw [readCfg, List.foldl_cons]
    refine ih.trans ?_
    rw [addCfg_values]
    rfl

theorem readCfg_holds {frame : Multiset Nat} (holds : Holds s frame) (adds : List Add) :
    Holds (readCfg address s adds) frame :=
  foldl_holds (fun _ _ holds => enter_holds address holds 2 _ _) adds holds

theorem addCfg_blocks (a : Add) :
    ∃ added, blocksOf (addCfg address s a).2 = added + blocksOf s.2 ∧
      (added = 0 ↔ a.1 ∈ (values s.2).map Config.name) := by
  obtain ⟨added, grown, nothing⟩ : ∃ added, blocksOf (addCfg address s a).2 = added + blocksOf s.2 ∧
      (added = 0 ↔ findHeld Config.name a.1 s.2 ≠ none) := enter_blocks address 2 _ _
  refine ⟨added, grown, ?_⟩
  rw [nothing, findHeld, Ne, KeyedList.find_eq_none_iff, not_not]

/-- The lines are all for sections that are there. -/
def NoNewSection (conf : List Config) (adds : List Add) : Prop :=
  ∀ a ∈ adds, a.1 ∈ conf.map Config.name

/-- Blocks are added if and only if there is a new section. -/
theorem readCfg_blocks (adds : List Add) :
    ∃ added, blocksOf (readCfg address s adds).2 = added + blocksOf s.2 ∧
      (added = 0 ↔ NoNewSection (values s.2) adds) := by
  induction adds generalizing s with
  | nil => exact ⟨0, (zero_add _).symm, by simp [NoNewSection]⟩
  | cons a adds ih =>
    obtain ⟨first, grown, nothing⟩ := addCfg_blocks address (s := s) a
    obtain ⟨more, rest, noMore⟩ := @ih (addCfg address s a)
    refine ⟨more + first, ?_, ?_⟩
    · rw [add_assoc, ← grown]
      exact rest
    · rw [add_eq_zero, noMore, nothing, NoNewSection, NoNewSection, List.forall_mem_cons,
        and_comm]
      refine and_congr_right fun here => forall₂_congr fun b _ => ?_
      rw [addCfg_values, Source.addCfg_eq_enter,
        KeyedList.mem_keys_enter Config.append_name (by rfl)]
      exact ⟨fun either => either.elim (fun same => same ▸ here) id, Or.inr⟩

/-! ### The loop over the configured processes or services -/

section Compare

variable {α β : Type} {frame : Multiset Nat}

def OwnsLists (s : Compared α) (frame : Multiset Nat) : Prop :=
  Holds (s.heap, s.list) (blocksOf s.preports + frame)

theorem enterReport_values (machine printed : Text) (mycolor : Color)
    (s : Heap × List (Held SvcsReport)) :
    values (enterReport address machine printed mycolor s).2 =
      KeyedList.enter SvcsReport.machine machine (emptyReport machine)
        (SvcsReport.append printed mycolor) (values s.2) :=
  enter_values address 1 _ _

/-- The node that is looked up, the report that is found or made and the node that is freed. -/
theorem compare_owns {s : Compared α} {x : Held β} {looked : Heap × List (Held α)}
    (holds : Holds looked (blocksOf s.preports + (x.blocks + frame))) (machine printed : Text)
    (mycolor : Color) :
    ∃ h, x.release (enterReport address machine printed mycolor (looked.1, s.preports)).1 =
        some h ∧
      OwnsLists ⟨h, looked.2,
        (enterReport address machine printed mycolor (looked.1, s.preports)).2⟩ frame := by
  have reports : Holds (looked.1, s.preports) (blocksOf looked.2 + (x.blocks + frame)) := by
    unfold Holds at holds ⊢
    rw [holds, add_left_comm]
  have entered : Holds (enterReport address machine printed mycolor (looked.1, s.preports))
      (blocksOf looked.2 + (x.blocks + frame)) := enter_holds address reports 1 _ _
  unfold Holds at entered
  rw [add_left_comm _ x.blocks, add_left_comm _ x.blocks] at entered
  obtain ⟨h, released, left⟩ := release_spec entered
  refine ⟨h, released, ?_⟩
  rw [OwnsLists, Holds, left, add_left_comm]

theorem compareProcess_owns {s : Compared Proc} {pc : Held Cfg}
    (owns : OwnsLists s (pc.blocks + frame)) :
    ∃ s', compareProcess address s pc = some s' ∧ OwnsLists s' frame := by
  have looked : Holds (lookupProcname address (s.heap, s.list) pc.value.name)
      (blocksOf s.preports + (pc.blocks + frame)) := ensure_holds address owns 1 _
  obtain ⟨h, released, still⟩ := compare_owns address looked pc.value.machine _ _
  refine ⟨_, ?_, still⟩
  rw [compareProcess]
  dsimp only
  rw [released]
  rfl

/-- The lists without their blocks. -/
def view (s : Compared α) : List α × List SvcsReport := (values s.list, values s.preports)

theorem lookupProcname_values (s : Heap × List (Held Proc)) (p : Text) :
    values (lookupProcname address s p).2 = (Source.Procs.lookupProcname (values s.2) p).1 := by
  rw [values, lookupProcname, ensure_values, findHeld, Source.Procs.lookupProcname]
  cases KeyedList.find Proc.key (Source.Svcs.folded p) (values s.2) <;> rfl

theorem compareProcess_values {s s' : Compared Proc} {pc : Held Cfg}
    (done : compareProcess address s pc = some s') :
    view s' = Source.Procs.compareProcess (view s) pc.value := by
  rw [compareProcess] at done
  dsimp only at done
  obtain ⟨h, -, same⟩ := Option.bind_eq_some_iff.mp done
  obtain rfl := Option.some.inj same
  rw [view, lookupProcname_values, enterReport_values, Source.Procs.compareProcess, view]
  unfold KeyedList.enter
  cases KeyedList.find SvcsReport.machine pc.value.machine (values s.preports) <;> rfl

end Compare

/-! ### What a test does to the blocks -/

/-- The live blocks are those of the records, those of the configuration and the rest. -/
def Owns (w : World) (rest : Multiset Nat) : Prop :=
  w.heap.live = statusBlocks w.teststatus + (blocksOf w.conf + rest)

/-- The blocks without those of the records that `insert_status` keeps. -/
def others (w : World) : Multiset Nat := w.heap.live - statusBlocks w.teststatus

/-- Blocks are lost that nobody can free any more, and blocks of sections are added. -/
structure Outcome (w w' : World) (rest lost added : Multiset Nat) : Prop where
  owns : Owns w' (lost + rest)
  sections : blocksOf w'.conf = added + blocksOf w.conf

section Outcome

variable {w w' : World} {rest lost added : Multiset Nat}

theorem Owns.others (owns : Owns w rest) : others w = blocksOf w.conf + rest := by
  rw [TestBlocks.others, owns, add_tsub_cancel_left]

/-- The blocks are as they were if none is lost and none is added. -/
theorem Outcome.others_iff (owns : Owns w rest) (outcome : Outcome w w' rest lost added) :
    TestBlocks.others w' = TestBlocks.others w ↔ lost = 0 ∧ added = 0 := by
  rw [owns.others, outcome.owns.others, outcome.sections, add_assoc, add_left_comm _ lost,
    ← add_assoc, add_eq_right, add_eq_zero, and_comm]

theorem disabled_outcome (owns : Owns w rest) (c : TestCall) (test message : Text) :
    ∃ w' lost, disabled address w c test message =
        some (w', [⟨c.mrmachine, test, "clear".toList, message⟩]) ∧
      Outcome w w' rest lost 0 ∧ lost.card = 2 := by
  let new := hold address w.heap 1 (emptyReport c.mrmachine)
  have live : new.1.live =
      statusBlocks w.teststatus + (blocksOf w.conf + (new.2.blocks + rest)) := by
    rw [hold_live, owns]
    ac_rfl
  obtain ⟨s, sent, still⟩ := mrsend_spec address (s := (new.1, w.teststatus)) live
    ((c.moment 0).call ⟨c.mrmachine, test, "clear".toList, message⟩)
  refine ⟨⟨s.1, w.conf, s.2⟩, new.2.blocks, ?_, ⟨still, (zero_add _).symm⟩, hold_card _ _ _ _⟩
  rw [disabled]
  dsimp only
  rw [sent]
  rfl

/-! ### The processes test -/

theorem proccfgStep_values (mrmachine b : Text) (s : Heap × List (Held Cfg)) :
    values (proccfgStep address mrmachine s b).2 =
      (Source.Procs.proccfgLine mrmachine b).toList ++ values s.2 := by
  unfold proccfgStep
  cases Source.Procs.proccfgLine mrmachine b <;> rfl

theorem readProccfg_values (mrmachine : Text) (lines : List Text) (h : Heap) :
    values (readProccfg address mrmachine lines h).2 =
      Source.Procs.readProccfg mrmachine lines :=
  (List.foldl_hom (fun s : Heap × List (Held Cfg) => values s.2)
    (fun s b => (proccfgStep_values address mrmachine b s).symm)).symm

theorem readProccfg_holds (mrmachine : Text) (lines : List Text) (h : Heap) :
    Holds (readProccfg address mrmachine lines h) h.live := by
  refine foldl_holds (fun s b holds => ?_) lines (holds_nil h)
  unfold proccfgStep
  split
  · exact holds
  · exact push_holds address holds 2 _

theorem storeProcname_values (s : Heap × List (Held Proc)) (p : Text) :
    values (storeProcname address s p).2 = Source.Procs.storeProcname (values s.2) p := by
  rw [ProcsReports.storeProcname_enter]
  exact enter_values address 1 _ _

theorem getProcessList_values (h : Heap) (processes : Processes) :
    values (getProcessList address (h, []) processes).2 =
      Source.Procs.getProcessList [] processes :=
  (List.foldl_hom (fun s : Heap × List (Held Proc) => values s.2)
    (fun s p => (storeProcname_values address s p).symm)).symm

theorem getProcessList_holds (h : Heap) (processes : Processes) :
    Holds (getProcessList address (h, []) processes) h.live :=
  foldl_holds (fun _ _ holds => enter_holds address holds 1 _ _) _ (holds_nil h)

/-- The test that is not disabled frees all that it gets, and sends the reports it should. -/
theorem procs_enabled (owns : Owns w rest) (c : TestCall) (processes : Processes)
    (enabled : Source.getOption c.options "no_procs".toList false = none) :
    ∃ w' added, procs address w c processes = some (w',
        Source.Procs.procs c.options c.mrmachine (Source.addAll (values w.conf) c.adds) c.now
          processes) ∧
      Outcome w w' rest 0 added ∧ (added = 0 ↔ NoNewSection (values w.conf) c.adds) := by
  let new := hold address w.heap 1 (emptyReport c.mrmachine)
  let read := readCfg address (new.1, w.conf) c.adds
  let cfg := readProccfg address c.mrmachine (Source.Procs.procsLines (values read.2)) read.1
  let list := getProcessList address (cfg.1, []) processes
  have reported : Holds (new.1, w.conf) (statusBlocks w.teststatus + (new.2.blocks + rest)) := by
    rw [Holds, hold_live, owns]
    ac_rfl
  have readConf : Holds read _ := readCfg_holds address reported c.adds
  have lists : OwnsLists ⟨list.1, list.2, [new.2]⟩
      (blocksOf cfg.2 + (statusBlocks w.teststatus + (blocksOf read.2 + rest))) := by
    rw [OwnsLists, Holds, getProcessList_holds, readProccfg_holds, readConf, blocksOf_cons,
      blocksOf_nil, add_zero]
    ac_rfl
  obtain ⟨s, compared, still⟩ := foldlM_releases OwnsLists (compareProcess_owns address) lists
  obtain ⟨h, released, left⟩ := releaseAll_spec still
  rw [add_left_comm] at left
  obtain ⟨sent, done, last⟩ := sendReports_spec address c.moment
    (procsReport c.now (s.list.map fun pl => pl.value.count).sum s.list.length) s.preports
    (s := (h, w.teststatus)) left
  obtain ⟨added, grown, nothing⟩ := readCfg_blocks address (s := (new.1, w.conf)) c.adds
  refine ⟨⟨sent.1, read.2, sent.2⟩, added, ?_, ⟨by rwa [zero_add], grown⟩, nothing⟩
  refine (if_neg (not_not.mpr enabled)).trans (Option.bind_eq_some_iff.mpr ⟨s, compared, ?_⟩)
  refine Option.bind_eq_some_iff.mpr ⟨h, released, Option.bind_eq_some_iff.mpr ⟨sent, done, ?_⟩⟩
  have seen : view s = (values cfg.2).foldl Source.Procs.compareProcess
      (values list.2, [emptyReport c.mrmachine]) :=
    foldlM_values view Source.Procs.compareProcess (compareProcess_values address) compared
  rw [readProccfg_values, readCfg_values, getProcessList_values] at seen
  have reports : s.preports.map (fun rep => procsReport c.now
      (s.list.map fun pl => pl.value.count).sum s.list.length rep.value) =
      (view s).2.map (procsReport c.now ((view s).1.map Proc.count).sum (view s).1.length) := by
    simp only [view, List.map_map, List.length_map, Function.comp_def]
  dsimp only
  rw [reports, seen, Source.Procs.procs, if_neg (not_not.mpr enabled)]
  rfl

/-! ### The services test -/

/-- The configuration without its blocks. -/
def cfgView (s : SvccfgRun) : SvccfgState := ⟨s.n, s.mode, values s.scfg.2⟩

theorem svccfgStep_view (mrmachine : Text) (s : SvccfgRun) (b : Text) :
    (svccfgStep address mrmachine s b).map cfgView =
      Source.Svcs.svccfgStep mrmachine (cfgView s) b := by
  unfold svccfgStep Source.Svcs.svccfgStep cfgView
  cases Source.Svcs.svccfgLine mrmachine s.n b with
  | none => rfl
  | some r =>
    obtain ⟨n, mode, entry⟩ := r
    cases entry <;> rfl

theorem svccfgLoop_view (mrmachine : Text) (lines : List Text) (s : SvccfgRun) :
    (lines.foldlM (svccfgStep address mrmachine) s).map cfgView =
      lines.foldlM (Source.Svcs.svccfgStep mrmachine) (cfgView s) := by
  induction lines generalizing s with
  | nil => rfl
  | cons b lines ih =>
    rw [List.foldlM_cons, List.foldlM_cons, ← svccfgStep_view address]
    cases svccfgStep address mrmachine s b with
    | none => rfl
    | some next => exact ih next

theorem readSvccfg_view (mrmachine : Text) (lines : List Text) (h : Heap) :
    (readSvccfg address mrmachine lines h).map cfgView =
      Source.Svcs.readSvccfg mrmachine lines :=
  svccfgLoop_view address mrmachine lines _

theorem svccfgLoop_holds {mrmachine : Text} {lines : List Text} {s cfg : SvccfgRun}
    {frame : Multiset Nat} (holds : Holds s.scfg frame)
    (done : lines.foldlM (svccfgStep address mrmachine) s = some cfg) : Holds cfg.scfg frame := by
  induction lines generalizing s with
  | nil =>
    obtain rfl := Option.some.inj done
    exact holds
  | cons b lines ih =>
    rw [List.foldlM_cons] at done
    obtain ⟨next, now, later⟩ := Option.bind_eq_some_iff.mp done
    obtain ⟨r, -, same⟩ := Option.bind_eq_some_iff.mp now
    refine ih ?_ later
    rw [← Option.some.inj same]
    cases r.entry with
    | none => exact holds
    | some pc => exact push_holds address holds 2 pc

theorem readSvccfg_holds {mrmachine : Text} {lines : List Text} {h : Heap} {cfg : SvccfgRun}
    (read : readSvccfg address mrmachine lines h = some cfg) : Holds cfg.scfg h.live :=
  svccfgLoop_holds address (s := ⟨0, ⟨false, false⟩, (h, [])⟩) (holds_nil h) read

theorem listService_values (mode : CfgMode) (s : Heap × List (Held Listed))
    (service : ServiceStatus) :
    values (listService address mode s service).2 =
      Source.Svcs.listService mode (values s.2) service := by
  rw [SvcsReports.listService_enter]
  exact enter_values address 1 _ _

theorem lookupSvcname_values (s : Heap × List (Held Listed)) (p : Text) :
    values (lookupSvcname address s p).2 = (Source.Svcs.lookupSvcname (values s.2) p).1 := by
  rw [values, lookupSvcname, ensure_values, findHeld, Source.Svcs.lookupSvcname]
  cases KeyedList.find Listed.key (Source.Svcs.folded p) (values s.2) <;> rfl

theorem compareService_owns {s : Compared Listed} {pc : Held Svc} {frame : Multiset Nat}
    (owns : OwnsLists s (pc.blocks + frame)) :
    ∃ s', compareService address s pc = some s' ∧ OwnsLists s' frame := by
  have looked : Holds (lookupSvcname address (s.heap, s.list) pc.value.name)
      (blocksOf s.preports + (pc.blocks + frame)) := ensure_holds address owns 1 _
  obtain ⟨h, released, still⟩ := compare_owns address looked pc.value.machine _ _
  refine ⟨_, ?_, still⟩
  rw [compareService]
  dsimp only
  rw [released]
  rfl

theorem compareService_values {s s' : Compared Listed} {pc : Held Svc}
    (done : compareService address s pc = some s') :
    view s' = Source.Svcs.compareService (view s) pc.value := by
  rw [compareService] at done
  dsimp only at done
  obtain ⟨h, -, same⟩ := Option.bind_eq_some_iff.mp done
  obtain rfl := Option.some.inj same
  rw [view, lookupSvcname_values, enterReport_values, Source.Svcs.compareService, view]
  unfold KeyedList.enter
  cases KeyedList.find SvcsReport.machine pc.value.machine (values s.preports) <;> rfl

/-! ### The buffer of EnumerateAllServices -/

def bufferBlocks (buf : Option Nat) : Multiset Nat := ↑buf.toList

theorem freeBuffer_spec {h : Heap} {buf : Option Nat} {frame : Multiset Nat}
    (live : h.live = bufferBlocks buf + frame) :
    ∃ h', freeBuffer h buf = some h' ∧ h'.live = frame := by
  cases buf with
  | none => exact ⟨h, rfl, by simpa [bufferBlocks] using live⟩
  | some p => exact free_spec (by simpa [bufferBlocks] using live)

/-- A buffer is left if and only if there was a call that needed more and the last succeeds. -/
theorem enumerateLoop_spec (succeeds : Bool) (moreBytesNeeded : List Nat) {h : Heap}
    (buf : Option Nat) {frame : Multiset Nat} (live : h.live = bufferBlocks buf + frame) :
    ∃ h' buf', enumerateLoop address succeeds moreBytesNeeded (h, buf) = some (h', buf') ∧
      h'.live = bufferBlocks buf' + frame ∧
      (buf' = none ↔ succeeds = false ∨ (moreBytesNeeded = [] ∧ buf = none)) := by
  induction moreBytesNeeded generalizing h buf with
  | nil =>
    cases succeeds with
    | true => exact ⟨h, buf, rfl, live, by simp⟩
    | false =>
      obtain ⟨h', freed, left⟩ := freeBuffer_spec live
      refine ⟨h', none, ?_, by simpa [bufferBlocks] using left, by simp⟩
      rw [enumerateLoop, if_neg (by simp), freed]
      rfl
  | cons needed rest ih =>
    obtain ⟨h₁, freed, left⟩ := freeBuffer_spec live
    have got : (h₁.malloc address).1.live =
        bufferBlocks (some (h₁.malloc address).2) + frame := by
      rw [malloc_live, left]
      rfl
    obtain ⟨h', buf', others, still, last⟩ := ih _ got
    refine ⟨h', buf', ?_, still, last.trans (by simp)⟩
    rw [enumerateLoop]
    dsimp only
    rw [freed]
    exact others

/-- The branches that leave neither nodes of `scfg` nor a buffer: a service at least is listed, or
there are no nodes and no buffer. -/
def FreesServices (scfg : List Svc) : ServiceManager → Prop
  | .closed => scfg = []
  | .opened _ none => scfg = []
  | .opened moreBytesNeeded (some services) =>
    services ≠ [] ∨ (moreBytesNeeded = [] ∧ scfg = [])

theorem bufferBlocks_eq_zero_iff (buf : Option Nat) : bufferBlocks buf = 0 ↔ buf = none := by
  cases buf <;> simp [bufferBlocks]

theorem blocksOf_eq_zero_iff_values {α : Type} (xs : List (Held α)) :
    blocksOf xs = 0 ↔ values xs = [] := by
  rw [blocksOf_eq_zero_iff, List.map_eq_nil_iff]

section Manager

variable {frame : Multiset Nat} {cfg : SvccfgRun} {rep : Held SvcsReport} {mrmachine : Text}

/-- Where services are listed all is freed. -/
theorem serviceReports_listed (live : cfg.scfg.1.live = blocksOf cfg.scfg.2 + (rep.blocks + frame))
    (first : rep.value = Source.Svcs.firstReport mrmachine cfg.mode) (moreBytesNeeded : List Nat)
    {services : List ServiceStatus} (nonempty : services ≠ []) :
    ∃ s, serviceReports address cfg rep (.opened moreBytesNeeded (some services)) =
        some (s, (Source.Svcs.serviceReports mrmachine (cfgView cfg)
          (.opened moreBytesNeeded (some services))).2) ∧
      Holds s frame ∧
      values s.2 = (Source.Svcs.serviceReports mrmachine (cfgView cfg)
        (.opened moreBytesNeeded (some services))).1 := by
  have listed : services.length > 0 := List.length_pos_iff.mpr nonempty
  obtain ⟨h, buf, enumerated, still, -⟩ := enumerateLoop_spec address true moreBytesNeeded
    none (zero_add cfg.scfg.1.live).symm
  let list := services.foldl (listService address cfg.mode) (h, [])
  have holds : Holds list h.live :=
    foldl_holds (fun _ _ holds => enter_holds address holds 1 _ _) services (holds_nil h)
  have buffer : list.1.live = bufferBlocks buf +
      (blocksOf list.2 + (blocksOf [rep] + (blocksOf cfg.scfg.2 + frame))) := by
    rw [holds, still, live, blocksOf_cons, blocksOf_nil, add_zero]
    ac_rfl
  obtain ⟨h₁, freed, lists⟩ := freeBuffer_spec buffer
  obtain ⟨s, compared, left⟩ := foldlM_releases OwnsLists (compareService_owns address)
    (s := ⟨h₁, list.2, [rep]⟩) lists
  obtain ⟨h₂, released, last⟩ := releaseAll_spec left
  have seen : view s = (values cfg.scfg.2).foldl Source.Svcs.compareService
      (values list.2, [rep.value]) :=
    foldlM_values view Source.Svcs.compareService (compareService_values address) compared
  have names : values list.2 = services.foldl (Source.Svcs.listService cfg.mode) [] :=
    (List.foldl_hom (fun s : Heap × List (Held Listed) => values s.2)
      (fun s service => (listService_values address cfg.mode s service).symm)).symm
  have answer : Source.Svcs.serviceReports mrmachine (cfgView cfg)
      (.opened moreBytesNeeded (some services)) =
      ((view s).2, services, Library.Word.wrap 32 moreBytesNeeded.sum) := by
    rw [seen, names, first]
    exact if_pos listed
  rw [answer]
  refine ⟨(h₂, s.preports), ?_, last, rfl⟩
  refine Option.bind_eq_some_iff.mpr ⟨(h, buf), enumerated, (if_pos listed).trans ?_⟩
  refine Option.bind_eq_some_iff.mpr ⟨h₁, freed, ?_⟩
  refine Option.bind_eq_some_iff.mpr ⟨s, compared, Option.bind_eq_some_iff.mpr ⟨h₂, released, rfl⟩⟩

/-- Where none are listed the nodes of `scfg` are left, and the buffer of a call that succeeds. -/
theorem serviceReports_unlisted
    (live : cfg.scfg.1.live = blocksOf cfg.scfg.2 + (rep.blocks + frame))
    (first : rep.value = Source.Svcs.firstReport mrmachine cfg.mode) (moreBytesNeeded : List Nat)
    (last : Option (List ServiceStatus))
    (nothing : (Source.Svcs.enumerateAllServices moreBytesNeeded last).1 = []) :
    ∃ s buf, serviceReports address cfg rep (.opened moreBytesNeeded last) =
        some (s, (Source.Svcs.serviceReports mrmachine (cfgView cfg)
          (.opened moreBytesNeeded last)).2) ∧
      Holds s (bufferBlocks buf + blocksOf cfg.scfg.2 + frame) ∧
      (buf = none ↔ last.isSome = false ∨ moreBytesNeeded = []) ∧
      values s.2 = (Source.Svcs.serviceReports mrmachine (cfgView cfg)
        (.opened moreBytesNeeded last)).1 := by
  have listed : ¬ (Source.Svcs.enumerateAllServices moreBytesNeeded last).1.length > 0 := by
    simp [nothing]
  obtain ⟨h, buf, enumerated, still, left⟩ := enumerateLoop_spec address last.isSome
    moreBytesNeeded none (zero_add cfg.scfg.1.live).symm
  have answer : Source.Svcs.serviceReports mrmachine (cfgView cfg) (.opened moreBytesNeeded last) =
      ([rep.value.append "Can't get service list".toList .red],
        Source.Svcs.enumerateAllServices moreBytesNeeded last) := by
    rw [first]
    exact if_neg listed
  rw [answer]
  refine ⟨(h, [rep.map (SvcsReport.append "Can't get service list".toList .red)]), buf, ?_, ?_,
    left.trans (by simp), rfl⟩
  · exact Option.bind_eq_some_iff.mpr ⟨(h, buf), enumerated, if_neg listed⟩
  · rw [Holds, still, live, blocksOf_cons, map_blocks, blocksOf_nil]
    ac_rfl

theorem serviceReports_outcome
    (live : cfg.scfg.1.live = blocksOf cfg.scfg.2 + (rep.blocks + frame))
    (first : rep.value = Source.Svcs.firstReport mrmachine cfg.mode) (manager : ServiceManager) :
    ∃ s lost, serviceReports address cfg rep manager =
        some (s, (Source.Svcs.serviceReports mrmachine (cfgView cfg) manager).2) ∧
      Holds s (lost + frame) ∧ (lost = 0 ↔ FreesServices (values cfg.scfg.2) manager) ∧
      values s.2 = (Source.Svcs.serviceReports mrmachine (cfgView cfg) manager).1 := by
  cases manager with
  | closed =>
    refine ⟨_, blocksOf cfg.scfg.2, rfl, ?_, blocksOf_eq_zero_iff_values _, ?_⟩
    · rw [Holds, live, blocksOf_cons, map_blocks, blocksOf_nil]
      ac_rfl
    · exact congrArg (fun first => [first.append "null sc handle\n".toList .red]) first
  | opened moreBytesNeeded last =>
    cases last with
    | none =>
      obtain ⟨s, buf, done, holds, left, seen⟩ :=
        serviceReports_unlisted address live first moreBytesNeeded none rfl
      refine ⟨s, _, done, holds, ?_, seen⟩
      rw [add_eq_zero, bufferBlocks_eq_zero_iff, left, blocksOf_eq_zero_iff_values]
      exact and_iff_right (Or.inl rfl)
    | some services =>
      by_cases nonempty : services = []
      · obtain ⟨s, buf, done, holds, left, seen⟩ :=
          serviceReports_unlisted address live first moreBytesNeeded (some services) nonempty
        refine ⟨s, _, done, holds, ?_, seen⟩
        rw [add_eq_zero, bufferBlocks_eq_zero_iff, left, blocksOf_eq_zero_iff_values]
        simp [FreesServices, nonempty]
      · obtain ⟨s, done, holds, seen⟩ :=
          serviceReports_listed address live first moreBytesNeeded nonempty
        exact ⟨s, 0, done, by rwa [zero_add], iff_of_true rfl (Or.inl nonempty), seen⟩

end Manager

/-- The test that is not disabled sends the reports it should. -/
theorem svcs_enabled (owns : Owns w rest) (c : TestCall) (manager : ServiceManager)
    (enabled : Source.getOption c.options "no_svcs".toList false = none) {read : SvccfgState}
    (isRead : Source.Svcs.readSvccfg c.mrmachine
      (Source.Svcs.svcsLines (Source.addAll (values w.conf) c.adds)) = some read) :
    ∃ w' lost added reports, svcs address w c manager = some (w', reports) ∧
      Source.Svcs.svcs c.options c.mrmachine (Source.addAll (values w.conf) c.adds) c.now manager =
        some reports ∧
      Outcome w w' rest lost added ∧ (lost = 0 ↔ FreesServices read.scfg manager) ∧
      (added = 0 ↔ NoNewSection (values w.conf) c.adds) := by
  let new := hold address w.heap 1 (emptyReport c.mrmachine)
  let conf := readCfg address (new.1, w.conf) c.adds
  have reported : Holds (new.1, w.conf) (statusBlocks w.teststatus + (new.2.blocks + rest)) := by
    rw [Holds, hold_live, owns]
    ac_rfl
  have readConf : Holds conf _ := readCfg_holds address reported c.adds
  have configured : (readSvccfg address c.mrmachine (Source.Svcs.svcsLines (values conf.2))
      conf.1).map cfgView = some read := by
    rw [readSvccfg_view, readCfg_values, isRead]
  obtain ⟨cfg, done, rfl⟩ := Option.map_eq_some_iff.mp configured
  let rep := new.2.map fun _ => Source.Svcs.firstReport c.mrmachine cfg.mode
  have live : cfg.scfg.1.live = blocksOf cfg.scfg.2 +
      (rep.blocks + (statusBlocks w.teststatus + (blocksOf conf.2 + rest))) := by
    rw [readSvccfg_holds address done, readConf, map_blocks]
    ac_rfl
  obtain ⟨s, lost, answered, holds, frees, seen⟩ :=
    serviceReports_outcome address live rfl manager
  have frame : s.1.live = statusBlocks w.teststatus +
      (blocksOf s.2 + (blocksOf conf.2 + (lost + rest))) := by
    rw [holds]
    ac_rfl
  let answer := Source.Svcs.serviceReports c.mrmachine (cfgView cfg) manager
  obtain ⟨sent, reports, last⟩ := sendReports_spec address c.moment
    (svcsReport c.now answer.2.1 answer.2.2) s.2 (s := (s.1, w.teststatus)) frame
  obtain ⟨added, grown, nothing⟩ := readCfg_blocks address (s := (new.1, w.conf)) c.adds
  refine ⟨⟨sent.1, conf.2, sent.2⟩, lost, added,
    s.2.map fun rep => svcsReport c.now answer.2.1 answer.2.2 rep.value, ?_, ?_, ⟨last, grown⟩,
    frees, nothing⟩
  · refine (if_neg (not_not.mpr enabled)).trans (Option.bind_eq_some_iff.mpr ⟨cfg, done, ?_⟩)
    refine Option.bind_eq_some_iff.mpr ⟨_, answered, ?_⟩
    exact Option.bind_eq_some_iff.mpr ⟨sent, reports, rfl⟩
  · refine (if_neg (not_not.mpr enabled)).trans (Option.bind_eq_some_iff.mpr ⟨_, isRead, ?_⟩)
    have same : s.2.map (fun rep => svcsReport c.now answer.2.1 answer.2.2 rep.value) =
        (values s.2).map (svcsReport c.now answer.2.1 answer.2.2) := by
      rw [List.map_map]
      rfl
    rw [same, seen]
    rfl

/-- Where `strlcpy` is given a null pointer the test does not return. -/
theorem svcs_stops (c : TestCall) (manager : ServiceManager)
    (enabled : Source.getOption c.options "no_svcs".toList false = none)
    (stops : Source.Svcs.readSvccfg c.mrmachine
      (Source.Svcs.svcsLines (Source.addAll (values w.conf) c.adds)) = none) :
    svcs address w c manager = none := by
  let new := hold address w.heap 1 (emptyReport c.mrmachine)
  let conf := readCfg address (new.1, w.conf) c.adds
  have configured : (readSvccfg address c.mrmachine (Source.Svcs.svcsLines (values conf.2))
      conf.1).map cfgView = none := by
    rw [readSvccfg_view, readCfg_values, stops]
  have stopped := Option.map_eq_none_iff.mp configured
  refine (if_neg (not_not.mpr enabled)).trans (Option.bind_eq_none_iff.mpr fun cfg done => ?_)
  exact absurd (done.symm.trans stopped) (Option.some_ne_none cfg)

/-! ### Both tests -/

def disabledBy : Test → Text
  | .procs _ => "no_procs".toList
  | .svcs _ => "no_svcs".toList

/-- The services test reads its configuration and gets to a branch that frees. -/
def GetsThrough (w : World) (c : TestCall) : Test → Prop
  | .procs _ => True
  | .svcs manager => ∃ cfg ∈ Source.Svcs.readSvccfg c.mrmachine
      (Source.Svcs.svcsLines (Source.addAll (values w.conf) c.adds)),
      FreesServices cfg.scfg manager

/-- The test gives back what it gets. -/
def GivesBack (w : World) (c : TestCall) (test : Test) : Prop :=
  Source.getOption c.options (disabledBy test) false = none ∧ GetsThrough w c test

/-- A call returns, and the set of live blocks is as it was, apart from the records that
`insert_status` keeps. -/
def LeavesBlocks (w : World) (c : TestCall) (test : Test) : Prop :=
  ∃ w' reports, runTest address w c test = some (w', reports) ∧ others w' = others w

/-- A test whose option is set leaves its first report: the node and the name. -/
theorem runTest_disabled (owns : Owns w rest) (c : TestCall) (test : Test)
    (disabled : Source.getOption c.options (disabledBy test) false ≠ none) :
    ∃ w' lost reports, runTest address w c test = some (w', reports) ∧
      Outcome w w' rest lost 0 ∧ lost.card = 2 := by
  cases test with
  | procs processes =>
    obtain ⟨w', lost, done, outcome⟩ :=
      disabled_outcome address owns c "procs".toList "option no_procs\n".toList
    exact ⟨w', lost, _, (if_pos disabled).trans done, outcome⟩
  | svcs manager =>
    obtain ⟨w', lost, done, outcome⟩ :=
      disabled_outcome address owns c "svcs".toList "option no_svcs\n".toList
    exact ⟨w', lost, _, (if_pos disabled).trans done, outcome⟩

theorem runTest_enabled (owns : Owns w rest) (c : TestCall) (test : Test)
    (enabled : Source.getOption c.options (disabledBy test) false = none) :
    (runTest address w c test = none ∧ ¬ GetsThrough w c test) ∨
    ∃ w' lost added reports, runTest address w c test = some (w', reports) ∧
      Outcome w w' rest lost added ∧ (lost = 0 ↔ GetsThrough w c test) ∧
      (added = 0 ↔ NoNewSection (values w.conf) c.adds) := by
  cases test with
  | procs processes =>
    obtain ⟨w', added, done, outcome, nothing⟩ := procs_enabled address owns c processes enabled
    exact Or.inr ⟨w', 0, added, _, done, outcome, iff_of_true rfl trivial, nothing⟩
  | svcs manager =>
    cases read : Source.Svcs.readSvccfg c.mrmachine
        (Source.Svcs.svcsLines (Source.addAll (values w.conf) c.adds)) with
    | none =>
      refine Or.inl ⟨svcs_stops address c manager enabled read, ?_⟩
      rintro ⟨cfg, isRead, -⟩
      rw [read] at isRead
      cases isRead
    | some cfg =>
      obtain ⟨w', lost, added, reports, done, -, outcome, frees, nothing⟩ :=
        svcs_enabled address owns c manager enabled read
      refine Or.inr ⟨w', lost, added, reports, done, outcome, frees.trans ?_, nothing⟩
      refine ⟨fun free => ⟨cfg, read, free⟩, ?_⟩
      rintro ⟨cfg', isRead, free⟩
      obtain rfl := Option.some.inj (read.symm.trans isRead)
      exact free

/-- The test does not return and does not give back, or it has an outcome that says whether it
gives back and whether its file has a new section. -/
theorem runTest_outcome (owns : Owns w rest) (c : TestCall) (test : Test) :
    (runTest address w c test = none ∧ ¬ GivesBack w c test) ∨
    ∃ w' lost added reports, runTest address w c test = some (w', reports) ∧
      Outcome w w' rest lost added ∧ (lost = 0 ↔ GivesBack w c test) ∧
      (lost = 0 → (added = 0 ↔ NoNewSection (values w.conf) c.adds)) := by
  by_cases enabled : Source.getOption c.options (disabledBy test) false = none
  · rcases runTest_enabled address owns c test enabled with
      ⟨stops, keeps⟩ | ⟨w', lost, added, reports, done, outcome, frees, nothing⟩
    · exact Or.inl ⟨stops, fun gives => keeps gives.2⟩
    · refine Or.inr ⟨w', lost, added, reports, done, outcome, ?_, fun _ => nothing⟩
      rw [frees, GivesBack, and_iff_right enabled]
  · obtain ⟨w', lost, reports, done, outcome, two⟩ :=
      runTest_disabled address owns c test enabled
    have nonempty : lost ≠ 0 := by
      rintro rfl
      cases two
    exact Or.inr ⟨w', lost, 0, reports, done, outcome,
      iff_of_false nonempty fun gives => enabled gives.1, fun zero => absurd zero nonempty⟩

/-- A call leaves the blocks as they were if and only if it gives back what it gets and its file
has no new section. -/
theorem leavesBlocks_iff (owns : Owns w rest) (c : TestCall) (test : Test) :
    LeavesBlocks address w c test ↔
      GivesBack w c test ∧ NoNewSection (values w.conf) c.adds := by
  rcases runTest_outcome address owns c test with
    ⟨stops, keeps⟩ | ⟨w', lost, added, reports, done, outcome, frees, nothing⟩
  · refine iff_of_false ?_ fun gives => keeps gives.1
    rintro ⟨w', reports, done, -⟩
    rw [stops] at done
    cases done
  · have only : LeavesBlocks address w c test ↔ TestBlocks.others w' = TestBlocks.others w := by
      refine ⟨?_, fun same => ⟨w', reports, done, same⟩⟩
      rintro ⟨w'', reports', done', same⟩
      obtain ⟨rfl, rfl⟩ := Prod.mk.inj (Option.some.inj (done.symm.trans done'))
      exact same
    rw [only, outcome.others_iff owns, frees]
    exact and_congr_right fun gives => nothing (frees.mpr gives)

/-! ### Runs of the main loop -/

/-- A condition at the calls of the two tests. -/
def AtTest (Condition : World → TestCall → Test → Prop) (w : World) : LoopStep → Prop
  | .test c test => Condition w c test
  | _ => True

theorem loopStep_accounts : Accounts (loopStep address) (AtTest GivesBack) Owns := by
  intro w step rest owns
  cases step with
  | readCfg adds =>
    refine ⟨fun _ => ⟨_, rfl, ?_⟩, fun not => absurd trivial not⟩
    have read : Holds (w.heap, w.conf) (statusBlocks w.teststatus + rest) := by
      rw [Holds, owns]
      ac_rfl
    have holds := readCfg_holds address read adds
    rw [Holds, add_left_comm] at holds
    exact holds
  | mrsend c =>
    refine ⟨fun _ => ?_, fun not => absurd trivial not⟩
    obtain ⟨s, sent, still⟩ := mrsend_spec address (s := (w.heap, w.teststatus)) owns c
    refine ⟨⟨s.1, w.conf, s.2⟩, ?_, still⟩
    exact Option.bind_eq_some_iff.mpr ⟨s, sent, rfl⟩
  | clearCfg =>
    refine ⟨fun _ => ?_, fun not => absurd trivial not⟩
    have live : w.heap.live = blocksOf w.conf + (statusBlocks w.teststatus + rest) := by
      rw [owns]
      ac_rfl
    obtain ⟨h, released, left⟩ := releaseAll_spec live
    refine ⟨⟨h, [], w.teststatus⟩, Option.bind_eq_some_iff.mpr ⟨h, released, rfl⟩, ?_⟩
    rw [Owns, left, blocksOf_nil, zero_add]
  | test c test =>
    rcases runTest_outcome address owns c test with
      ⟨stops, keeps⟩ | ⟨w', lost, added, reports, done, outcome, frees, -⟩
    · refine ⟨fun gives => absurd gives keeps, fun _ w' done => ?_⟩
      rw [loopStep, stops] at done
      cases done
    · have step : loopStep address w (.test c test) = some w' := by
        rw [loopStep, done]
        rfl
      refine ⟨fun gives => ⟨w', step, ?_⟩, fun not w'' done' => ?_⟩
      · have owned := outcome.owns
        rwa [frees.mpr gives, zero_add] at owned
      · obtain rfl := Option.some.inj (step.symm.trans done')
        exact ⟨lost, fun zero => not (frees.mp zero), outcome.owns⟩

theorem owns_determined {rest' : Multiset Nat} (owns : Owns w rest) (owns' : Owns w rest') :
    rest = rest' := by
  rw [Owns, owns'] at owns
  exact (add_left_cancel (add_left_cancel owns)).symm

end Outcome

/-- In every run of the main loop each call of the two tests leaves the live blocks as they were
if and only if it gives back what it gets and its file has no new section. No block is lost over
the whole run if and only if each of these calls gives back. -/
theorem tests_leave_blocks_iff {start : World} {rest : Multiset Nat} (owns : Owns start rest)
    (steps : List LoopStep) :
    AtEach (loopStep address) (AtTest fun w c test => LeavesBlocks address w c test ↔
      GivesBack w c test ∧ NoNewSection (values w.conf) c.adds) start steps ∧
    ((∃ w, mainLoop address start steps = some w ∧ Owns w rest) ↔
      AtEach (loopStep address) (AtTest GivesBack) start steps) := by
  have accounts := loopStep_accounts address
  refine ⟨fun before step after w _ reached => ?_,
    run_keeps_iff accounts (fun owns => owns_determined owns) owns⟩
  cases step with
  | test c test =>
    obtain ⟨lost, owned, -⟩ := run_loses accounts owns reached
    exact leavesBlocks_iff address owned c test
  | _ => trivial

def startWorld : World := ⟨⟨0, 0⟩, [], []⟩

theorem startWorld_owns : Owns startWorld 0 := rfl

/-- A call under the options; its file has one line. -/
def testCall (options : List Text) : TestCall where
  options := options
  mrmachine := "localhost".toList
  adds := [("procs".toList, "mrbig.exe 1 2".toList)]
  now := []
  moment := fun _ => ⟨0, 300, [], 16384⟩

def onlyMrbig : Test := .procs ⟨[⟨some "mrbig.exe".toList⟩], true⟩

def onePass : List LoopStep :=
  [.readCfg [("mrbig".toList, "sleep 300".toList)], .test (testCall []) onlyMrbig, .clearCfg]

/-- A pass that reads two files, runs the processes test and clears the configuration. -/
theorem tests_leave_blocks_iff_onePass :
    ∃ w, mainLoop id startWorld onePass = some w ∧ Owns w 0 := by
  refine (tests_leave_blocks_iff id startWorld_owns onePass).2.mpr ?_
  refine (atEach_cons _ _).mpr ⟨trivial, fun _ _ => ?_⟩
  refine (atEach_cons _ _).mpr ⟨⟨rfl, trivial⟩, fun _ _ => ?_⟩
  exact (atEach_cons _ _).mpr ⟨trivial, fun _ _ => atEach_nil⟩

/-- Each pass in which a test is disabled takes two more slots. -/
theorem disabled_passes {w : World} {rest : Multiset Nat} (owns : Owns w rest) (c : TestCall)
    (test : Test) (disabled : Source.getOption c.options (disabledBy test) false ≠ none)
    (passes : Nat) :
    ∃ w' lost, mainLoop address w (List.replicate passes (.test c test)) = some w' ∧
      Owns w' (lost + rest) ∧ lost.card = 2 * passes := by
  induction passes generalizing w rest with
  | zero => exact ⟨w, 0, rfl, by rwa [zero_add], rfl⟩
  | succ passes ih =>
    obtain ⟨next, lost, reports, done, outcome, two⟩ :=
      runTest_disabled address owns c test disabled
    obtain ⟨w', more, others, owned, twice⟩ := ih outcome.owns
    refine ⟨w', more + lost, ?_, by rwa [add_assoc], ?_⟩
    · rw [mainLoop, List.replicate_succ, List.foldlM_cons, loopStep, done]
      exact others
    · rw [Multiset.card_add, twice, two]
      omega

/-- Under the option no_procs a call leaves blocks, and the table of `store_chunk` has too few
slots for 5001 of them. -/
theorem disabled_test_leaves_blocks :
    ¬ LeavesBlocks id startWorld (testCall ["no_procs".toList]) onlyMrbig ∧
    ∃ w, mainLoop id startWorld
        (List.replicate 5001 (.test (testCall ["no_procs".toList]) onlyMrbig)) = some w ∧
      Source.Chunks.chunksMax < (others w).card := by
  have disabled : Source.getOption (testCall ["no_procs".toList]).options (disabledBy onlyMrbig)
      false ≠ none := by decide
  refine ⟨fun leaves => disabled ?_, ?_⟩
  · exact ((leavesBlocks_iff id startWorld_owns _ _).mp leaves).1.1
  · obtain ⟨w, lost, reached, owned, many⟩ :=
      disabled_passes id startWorld_owns (testCall ["no_procs".toList]) onlyMrbig disabled 5001
    refine ⟨w, reached, ?_⟩
    rw [owned.others, Multiset.card_add, Multiset.card_add, many, Source.Chunks.chunksMax]
    omega

end MrBig.Guarantees.TestBlocks
