import MrBig.Library.KeyedList
import MrBig.Source.FileTable

/-!
# The file table and the debug level

A file is stored if the level is 2 or more when it is opened, and removed if it is so when it
is closed. The table is right, and the search in it ends inside it, exactly as long as every
file is closed on the side of level 2 that it was opened on.
-/

set_option autoImplicit false

namespace MrBig.Guarantees.FileTable
open Library Source Source.FileTable

/-- An open file, and whether the level was 2 or more when it was opened. -/
structure Handle where
  fp : Nat
  recorded : Bool
  deriving DecidableEq, Repr

/-- The open files and the level after some calls. -/
structure History where
  opened : List Handle
  debug : Int
  deriving DecidableEq, Repr

def track (h : History) : FileCall → History
  | .fopen fp _ => if fp = 0 then h else { h with opened := ⟨fp, 2 ≤ h.debug⟩ :: h.opened }
  | .fclose fp _ => { h with opened := KeyedList.remove Handle.fp fp h.opened }
  | .setDebug level => { h with debug := level }

def history (debug : Int) (calls : List FileCall) : History := calls.foldl track ⟨[], debug⟩

/-- `fopen` returns a file of its own, at most 100 files are open, and a close is of an open
file and succeeds. -/
def Legal (h : History) : FileCall → Prop
  | .fopen fp _ => fp = 0 ∨ h.opened.length < filesMax ∧ ∀ f ∈ h.opened, f.fp ≠ fp
  | .fclose fp n => n = 0 ∧ ∃ f ∈ h.opened, f.fp = fp
  | .setDebug _ => True

instance (h : History) : (call : FileCall) → Decidable (Legal h call)
  | .fopen fp _ => inferInstanceAs (Decidable (fp = 0 ∨ _ ∧ ∀ f ∈ h.opened, f.fp ≠ fp))
  | .fclose fp n => inferInstanceAs (Decidable (n = 0 ∧ ∃ f ∈ h.opened, f.fp = fp))
  | .setDebug _ => inferInstanceAs (Decidable True)

/-- The file is closed on the side of level 2 that it was opened on. -/
def Matched (h : History) : FileCall → Prop
  | .fclose fp _ => ∀ f ∈ h.opened, f.fp = fp → (f.recorded = true ↔ 2 ≤ h.debug)
  | .fopen _ _ | .setDebug _ => True

/-- Every file in the table is open, and the table was not left. -/
def TableOk (h : History) (s : FileState) : Prop :=
  (∀ e ∈ Slots.entries s.files, ∃ f ∈ h.opened, f.fp = e.p) ∧ s.beyondTable = false

def fileState (debug : Int) (calls : List FileCall) : FileState :=
  Run.final fileStep (fileStart debug) calls

/-! ### The invariant -/

/-- The table holds exactly the files opened at level 2 or more. -/
structure Recorded (h : History) (s : FileState) : Prop where
  running : s.exited = false
  inside : s.beyondTable = false
  debug : s.debug = h.debug
  table : s.files.length = filesMax
  few : h.opened.length ≤ filesMax
  distinct : KeyedList.KeysUnique Handle.fp h.opened
  slots : ((Slots.entries s.files).map FileChunk.p).Perm
    ((h.opened.filter Handle.recorded).map Handle.fp)

theorem fileStart_recorded (debug : Int) : Recorded ⟨[], debug⟩ (fileStart debug) where
  running := rfl
  inside := rfl
  debug := rfl
  table := List.length_replicate
  few := Nat.zero_le _
  distinct := KeyedList.KeysUnique.nil
  slots := by
    rw [fileStart, Slots.entries_replicate_none]
    exact List.Perm.nil

section

variable {h : History} {s : FileState}

theorem Recorded.mem_iff (recorded : Recorded h s) {fp : Nat} :
    (∃ e ∈ Slots.entries s.files, e.p = fp) ↔ ∃ f ∈ h.opened, f.recorded = true ∧ f.fp = fp := by
  have member := recorded.slots.mem_iff (a := fp)
  simpa [and_assoc] using member

theorem Recorded.tableOk (recorded : Recorded h s) : TableOk h s := by
  constructor
  · intro e listed
    obtain ⟨f, opened, -, same⟩ := recorded.mem_iff.mp ⟨e, listed, rfl⟩
    exact ⟨f, opened, same⟩
  · exact recorded.inside

theorem open_recorded (recorded : Recorded h s) {fp : Nat} {p : Text}
    (legal : Legal h (.fopen fp p)) : Recorded (track h (.fopen fp p)) (bigFopen s fp p) := by
  unfold bigFopen
  by_cases null : fp = 0
  · have same : track h (.fopen fp p) = h := if_pos null
    rw [if_pos null, same]
    exact recorded
  have tracked : track h (.fopen fp p) =
      { h with opened := ⟨fp, 2 ≤ h.debug⟩ :: h.opened } := if_neg null
  rw [if_neg null, tracked]
  obtain ⟨room, fresh⟩ := legal.resolve_left null
  have distinct : KeyedList.KeysUnique Handle.fp (⟨fp, 2 ≤ h.debug⟩ :: h.opened) := by
    refine List.nodup_cons.mpr ⟨fun inside => ?_, recorded.distinct⟩
    obtain ⟨f, opened, same⟩ := List.mem_map.mp inside
    exact fresh f opened same
  unfold storeFile
  rw [recorded.debug]
  by_cases low : h.debug < 2
  · have off : decide (2 ≤ h.debug) = false := decide_eq_false (by omega)
    rw [if_pos low, off]
    rw [off] at distinct
    exact ⟨recorded.running, recorded.inside, recorded.debug, recorded.table, room, distinct,
      by simpa using recorded.slots⟩
  · have on : decide (2 ≤ h.debug) = true := decide_eq_true (by omega)
    have fewer : (Slots.entries s.files).length < s.files.length := by
      have sizes := recorded.slots.length_eq
      have bound := List.length_filter_le Handle.recorded h.opened
      rw [List.length_map, List.length_map] at sizes
      rw [recorded.table]
      omega
    obtain ⟨files, filled, length, permuted⟩ := Slots.fill_spec fewer ⟨fp, strlcpy p 20⟩
    rw [if_neg low, on, filled]
    rw [on] at distinct
    refine ⟨recorded.running, recorded.inside, rfl, length.trans recorded.table, room,
      distinct, ?_⟩
    have slots := (permuted.map FileChunk.p).trans (recorded.slots.cons fp)
    simpa using slots

/-- What is left when an open file is closed. -/
theorem remove_opened (recorded : Recorded h s) {f : Handle} (opened : f ∈ h.opened) :
    h.opened.Perm (f :: KeyedList.remove Handle.fp f.fp h.opened) :=
  recorded.distinct.perm_cons_remove opened

theorem close_recorded (recorded : Recorded h s) {fp : Nat} {n : Int}
    (legal : Legal h (.fclose fp n)) (matched : Matched h (.fclose fp n)) :
    Recorded (track h (.fclose fp n)) (bigFclose s fp n) := by
  obtain ⟨rfl, f, opened, rfl⟩ := legal
  have side := matched f opened rfl
  have rest := remove_opened recorded opened
  have few : (KeyedList.remove Handle.fp f.fp h.opened).length ≤ filesMax :=
    Nat.le_trans (List.length_filter_le _ _) recorded.few
  have distinct := recorded.distinct.sublist
    (List.filter_sublist (p := fun g => decide (g.fp ≠ f.fp)))
  have split := (rest.filter Handle.recorded).map Handle.fp
  unfold bigFclose removeFile
  rw [if_neg (by decide), recorded.debug]
  by_cases low : h.debug < 2
  · have off : f.recorded ≠ true := fun on => absurd (side.mp on) (by omega)
    rw [List.filter_cons_of_neg off] at split
    rw [if_pos low]
    exact ⟨recorded.running, recorded.inside, recorded.debug, recorded.table, few, distinct,
      recorded.slots.trans split⟩
  · have on : f.recorded = true := side.mpr (by omega)
    rw [List.filter_cons_of_pos on, List.map_cons] at split
    rw [if_neg low]
    cases vacated : Slots.vacate (fun e => e.p == f.fp) s.files with
    | none =>
      obtain ⟨e, listed, same⟩ := recorded.mem_iff.mpr ⟨f, opened, on, rfl⟩
      exact absurd (by simpa using same) (Slots.vacate_eq_none_iff.mp vacated e listed)
    | some found =>
      obtain ⟨e, files⟩ := found
      obtain ⟨hit, length, permuted⟩ := Slots.vacate_spec vacated
      have same : e.p = f.fp := by simpa using hit
      have slots := (permuted.map FileChunk.p).symm.trans (recorded.slots.trans split)
      rw [List.map_cons, same] at slots
      exact ⟨recorded.running, recorded.inside, rfl, length.trans recorded.table, few, distinct,
        slots.cons_inv⟩

/-- A file that is closed on the other side of level 2 stays in the table, or is looked for
in vain. -/
theorem close_mismatched (recorded : Recorded h s) {fp : Nat} {n : Int}
    (legal : Legal h (.fclose fp n)) (mismatched : ¬ Matched h (.fclose fp n)) :
    ¬ TableOk (track h (.fclose fp n)) (bigFclose s fp n) := by
  obtain ⟨rfl, f, opened, rfl⟩ := legal
  have side : ¬ (f.recorded = true ↔ 2 ≤ h.debug) := by
    intro side
    apply mismatched
    intro g openedToo same
    obtain rfl : g = f := List.inj_on_of_nodup_map recorded.distinct openedToo opened same
    exact side
  unfold bigFclose removeFile
  rw [if_neg (by decide), recorded.debug]
  intro ok
  by_cases low : h.debug < 2
  · have on : f.recorded = true := by
      by_contra off
      exact side ⟨fun on => absurd on off, fun high => absurd low (by omega)⟩
    obtain ⟨e, listed, same⟩ := recorded.mem_iff.mpr ⟨f, opened, on, rfl⟩
    rw [if_pos low] at ok
    obtain ⟨g, left, again⟩ := ok.1 e listed
    exact (KeyedList.mem_remove.mp left).2 (again.trans same)
  · have off : f.recorded ≠ true := fun on => side ⟨fun _ => by omega, fun _ => on⟩
    have absent : Slots.vacate (fun e => e.p == f.fp) s.files = none := by
      rw [Slots.vacate_eq_none_iff]
      intro e listed hit
      obtain ⟨g, openedToo, on, same⟩ := recorded.mem_iff.mp ⟨e, listed, by simpa using hit⟩
      obtain rfl : g = f := List.inj_on_of_nodup_map recorded.distinct openedToo opened same
      exact off on
    rw [if_neg low, absent] at ok
    exact absurd ok.2 (by simp)

theorem fileStep_recorded (recorded : Recorded h s) {call : FileCall} (legal : Legal h call)
    (matched : Matched h call) : Recorded (track h call) (fileStep s call).1 := by
  rw [fileStep_running recorded.running]
  cases call with
  | fopen fp p => exact open_recorded recorded legal
  | fclose fp n => exact close_recorded recorded legal matched
  | setDebug level =>
    exact ⟨recorded.running, recorded.inside, rfl, recorded.table, recorded.few,
      recorded.distinct, recorded.slots⟩

theorem fileStep_mismatched (recorded : Recorded h s) {call : FileCall} (legal : Legal h call)
    (mismatched : ¬ Matched h call) : ¬ TableOk (track h call) (fileStep s call).1 := by
  rw [fileStep_running recorded.running]
  cases call with
  | fclose fp n => exact close_mismatched recorded legal mismatched
  | fopen fp p => exact absurd trivial mismatched
  | setDebug level => exact absurd trivial mismatched

end

/-! ### Runs -/

@[simp] theorem history_concat (debug : Int) (calls : List FileCall) (call : FileCall) :
    history debug (calls ++ [call]) = track (history debug calls) call := by
  simp [history]

/-- Every call of a run meets a condition on the history before it. -/
def Along (debug : Int) (Condition : History → FileCall → Prop) (calls : List FileCall) : Prop :=
  Run.Throughout fileStep (fun before _ call => Condition (history debug before) call)
    (fileStart debug) calls

/-- In every state that a run goes through the table is right. -/
def TableOkThroughout (debug : Int) (calls : List FileCall) : Prop :=
  ∀ before after, calls = before ++ after →
    TableOk (history debug before) (fileState debug before)

theorem fileState_recorded {debug : Int} {calls : List FileCall}
    (legal : Along debug Legal calls) (matched : Along debug Matched calls) :
    Recorded (history debug calls) (fileState debug calls) := by
  refine Run.history_invariant_throughout fileStep
    (fun before s => Recorded (history debug before) s) (fileStart_recorded debug) ?_ calls
    (legal.and matched)
  intro before call recorded meets
  rw [history_concat]
  exact fileStep_recorded recorded meets.1 meets.2

/-- The first close on the other side shows. -/
theorem matched_of_tableOk {debug : Int} {calls : List FileCall}
    (legal : Along debug Legal calls) (ok : TableOkThroughout debug calls) :
    Along debug Matched calls := by
  induction calls using List.reverseRecOn with
  | nil => exact Run.throughout_nil _ _ _
  | append_singleton calls call ih =>
    obtain ⟨earlier, now⟩ := (Run.throughout_concat _ _ _ calls call).mp legal
    have before : TableOkThroughout debug calls := by
      intro first last split
      exact ok first (last ++ [call]) (by rw [split, List.append_assoc])
    have matched := ih earlier before
    refine (Run.throughout_concat _ _ _ calls call).mpr ⟨matched, ?_⟩
    by_contra mismatched
    have last := ok (calls ++ [call]) [] (by simp)
    rw [history_concat, fileState, Run.final_concat] at last
    exact fileStep_mismatched (fileState_recorded earlier matched) now mismatched last

/-- The table never holds a closed file and is never left, exactly if every file is closed on
the side of level 2 that it was opened on. -/
theorem table_matches_iff (debug : Int) (calls : List FileCall)
    (legal : Along debug Legal calls) :
    TableOkThroughout debug calls ↔
      ∀ before fp n after, calls = before ++ .fclose fp n :: after →
        ∀ f ∈ (history debug before).opened, f.fp = fp →
          (f.recorded = true ↔ 2 ≤ (history debug before).debug) := by
  constructor
  · intro ok before fp n after split
    exact matched_of_tableOk legal ok before (.fclose fp n) after split
  · intro matched before after split
    have meets : Along debug Matched calls := by
      intro first call rest split
      cases call with
      | fclose fp n => exact matched first fp n rest split
      | fopen fp p => exact trivial
      | setDebug level => exact trivial
    subst split
    exact (fileState_recorded legal.left meets.left).tableOk

/-! ### Reloads -/

/-- A run of `readcfg` ends at the level that its settings have. -/
theorem readcfgCalls_debug (opens : Text → Bool) (fopen : Text → Nat) (logfp : Nat)
    (ds : List Directive) (s : Settings) (h : History) (same : h.debug = s.debug) :
    ((readcfgCalls fopen logfp ds).foldl track h).debug =
      (ds.foldl (applyDirective opens) s).debug := by
  have opened : ∀ h fp p, (track h (.fopen fp p)).debug = h.debug := by
    intro h fp p
    unfold track
    dsimp only
    split <;> rfl
  have rest : ∀ (ds : List Directive) (s : Settings) (h : History), h.debug = s.debug →
      ((ds.filterMap (directiveCall fopen)).foldl track h).debug =
        (ds.foldl (applyDirective opens) s).debug := by
    intro ds
    induction ds with
    | nil => exact fun s h same => same
    | cons d ds ih =>
      intro s h same
      cases d with
      | debug n => exact ih _ _ rfl
      | logfile name => exact ih _ _ ((opened h _ _).trans same)
      | _ => exact ih _ _ same
  unfold readcfgCalls
  rw [List.foldl_append]
  split
  · exact rest ds s _ same
  · exact rest ds s _ same

/-- The log file stays open over a reload. -/
def logged : List FileCall :=
  readcfgCalls (fun _ => 4096) 0 [.logfile "mrbig.log".toList] ++
    readcfgCalls (fun _ => 4096) 4096 [.logfile "mrbig.log".toList]

theorem logged_legal (debug : Int) : Along debug Legal logged := by
  simp [Along, logged, readcfgCalls, directiveCall, Run.throughout_cons, Run.throughout_nil,
    Legal, history, track, KeyedList.remove, filesMax]

theorem table_matches_iff_logged :
    TableOkThroughout 2 logged ↔
      ∀ before fp n after, logged = before ++ .fclose fp n :: after →
        ∀ f ∈ (history 2 before).opened, f.fp = fp →
          (f.recorded = true ↔ 2 ≤ (history 2 before).debug) :=
  table_matches_iff 2 logged (logged_legal 2)

/-- Two runs of `readcfg` on a section that names a log file and then raises the level. -/
def raised : List FileCall :=
  readcfgCalls (fun _ => 4096) 0 [.logfile "mrbig.log".toList, .debug 2] ++
    readcfgCalls (fun _ => 4096) 4096 [.logfile "mrbig.log".toList, .debug 2]

/-- The log file is not found when it is closed. -/
theorem raised_leaves_table :
    Along 0 Legal raised ∧ ¬ TableOkThroughout 0 raised ∧
      (fileState 0 raised).beyondTable = true := by
  refine ⟨?_, fun ok => ?_, by decide⟩
  · simp [Along, raised, readcfgCalls, directiveCall, Run.throughout_cons, Run.throughout_nil,
      Legal, history, track, KeyedList.remove, filesMax]
  · have last := (ok raised [] (by simp)).2
    revert last
    decide

end MrBig.Guarantees.FileTable
