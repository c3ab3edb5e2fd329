import Mathlib.Data.List.TakeWhile
import MrBig.Source.ReadPerf

/-!
# Performance counters, complete or not at all

A block of performance data is a list of objects, each with the definitions of its counters and
one block of values, or a block for each instance. A counter that is not defined leaves its
size and offset as they happened to be; an object with no instance now has a row that nothing
was stored to but its NULL.
-/

set_option autoImplicit false

namespace MrBig.Guarantees.PerfCounters
open Library Library.Memory Library.Word Library.Chain Source Source.ReadPerf

/-! ### Performance data -/

structure Definition where
  title : Nat
  info : CounterInfo

structure Instance where
  name : Text
  block : List UInt8

/-- The values of an object, once or for each of its instances. -/
inductive Values where
  | single (block : List UInt8)
  | instances (list : List Instance)

def Values.blocks : Values → List (List UInt8)
  | .single block => [block]
  | .instances list => list.map Instance.block

structure Object where
  title : Nat
  time : UInt64
  freq : UInt64
  definitions : List Definition
  values : Values

/-- A counter's number in a block. -/
def numberAt (block : List UInt8) (info : CounterInfo) : UInt64 :=
  UInt64.ofNat (littleEndian ((block.drop info.offset).take info.size))

/-- Every value is inside every block and has no more than eight bytes. -/
def Object.Consistent (o : Object) : Prop :=
  ∀ d ∈ o.definitions, d.info.size ≤ 8 ∧
    ∀ block ∈ o.values.blocks, d.info.offset + d.info.size ≤ block.length

/-- The definition that is meant by a counter: the first with its title or, for an odd one, the
one behind that. -/
def Object.definition (o : Object) (counter : Nat) : Option Definition :=
  (o.definitions.filter (·.title = counter / 2 * 2))[counter % 2]?

/-! ### How it stands in memory -/

structure DefinitionAt (data : Bytes) (cd : Nat) (d : Definition) : Prop where
  title : counterNameTitleIndex data cd = d.title
  size : counterSize data cd = d.info.size
  offset : counterOffset data cd = d.info.offset

structure BlockAt (data : Bytes) (address : Nat) (block : List UInt8) : Prop where
  bytes : load data address block.length = block
  byteLength : blockByteLength data address = block.length

structure InstanceAt (env : PerfEnv) (data : Bytes) (p : Nat) (i : Instance) : Prop where
  name : env.dupWideToMulti data (p + nameOffset data p) = i.name
  block : BlockAt data (getCounterBlock data p) i.block

/-- A LONG says how many instances there are. -/
def ValuesAt (env : PerfEnv) (data : Bytes) (op : Nat) : Values → Prop
  | .single block =>
    numInstances data op = perfNoInstances ∧ BlockAt data (op + definitionLength data op) block
  | .instances list =>
    numInstances data op = list.length ∧
      Linked (nextInstance data) (InstanceAt env data) (firstInstance data op) list

structure ObjectAt (env : PerfEnv) (data : Bytes) (op : Nat) (o : Object) : Prop where
  title : objectNameTitleIndex data op = o.title
  time : perfTime data op = o.time
  freq : perfFreq data op = o.freq
  count : numCounters data op = o.definitions.length
  definitions : Linked (nextCounter data) (DefinitionAt data) (firstCounter data op) o.definitions
  values : ValuesAt env data op o.values

/-- A well-formed PERF_DATA_BLOCK. -/
structure DataBlock (env : PerfEnv) (data : Bytes) (objects : List Object) : Prop where
  count : numObjectTypes data = objects.length
  linked : Linked (nextObject data) (ObjectAt env data) (firstObject data) objects
  consistent : ∀ o ∈ objects, o.Consistent

/-! ### What is promised -/

/-- The numbers of all counters in a block. -/
def numbers (definitions : List Definition) (block : List UInt8) : List UInt64 :=
  definitions.map fun d => numberAt block d.info

/-- The rows of an object: one, or one for each instance and a terminator. -/
def HasRows (definitions : List Definition) (rows : List PerfCounter) : Values → Prop
  | .single block => rows = [⟨none, some (numbers definitions block)⟩]
  | .instances list => ∃ unused, rows =
      list.map (fun i => ⟨some i.name, some (numbers definitions i.block)⟩) ++ [⟨none, unused⟩]

/-- NULL where the object or a counter is absent, else all rows and values, each in memory that
was allocated. -/
def CompleteOrNull (objects : List Object) (object : Nat) (counters : List Nat)
    (answer : PerfAnswer) : Prop :=
  match objects.find? (·.title = object) with
  | none => answer.table = .null
  | some o =>
    match counters.mapM o.definition with
    | none => answer.table = .null
    | some definitions => ∃ rows, answer.table = .rows rows ∧ HasRows definitions rows o.values ∧
        ∀ value ∈ freedValues answer.table, value ≠ none

/-- The object is absent, or it has all the counters and not an empty list of instances. -/
def FullyThere (objects : List Object) (object : Nat) (counters : List Nat) : Prop :=
  ∀ o, objects.find? (·.title = object) = some o →
    (∀ counter ∈ counters, o.definition counter ≠ none) ∧ o.values ≠ .instances []

section

variable {env : PerfEnv} {data : Bytes} {op : Nat} {o : Object}

theorem counterLoop_eq {counter cd : Nat} {definitions : List Definition}
    (linked : Linked (nextCounter data) (DefinitionAt data) cd definitions) (base : Bool) :
    counterLoop data counter definitions.length base cd =
      ((definitions.filter (·.title = counter))[base.toNat]?).map Definition.info := by
  induction definitions generalizing cd base with
  | nil => rfl
  | cons d rest ih =>
    obtain ⟨here, behind⟩ := linked
    rw [List.length_cons, counterLoop, here.title]
    by_cases same : d.title = counter
    · rw [if_pos same, List.filter_cons_of_pos (by simpa using same)]
      cases base with
      | true =>
        rw [if_pos rfl, ih behind]
        rfl
      | false =>
        rw [if_neg Bool.false_ne_true, here.size, here.offset]
        rfl
    · rw [if_neg same, ih behind, List.filter_cons_of_neg (by simpa using same)]

theorem getCounterOffset_eq (placed : ObjectAt env data op o) (counter : Nat) :
    getCounterOffset data op counter = (o.definition counter).map Definition.info := by
  have base : (decide (counter % 2 = 1)).toNat = counter % 2 := by
    rcases Nat.mod_two_eq_zero_or_one counter with even | odd
    · simp [even]
    · simp [odd]
  rw [getCounterOffset, placed.count, counterLoop_eq placed.definitions, base]
  rfl

theorem getObject_eq {objects : List Object} (block : DataBlock env data objects) (object : Nat) :
    Option.Rel (ObjectAt env data) (getObject data object)
      (objects.find? (·.title = object)) := by
  unfold getObject
  rw [block.count]
  exact block.linked.find fun a o placed => by rw [placed.title]

/-- What is copied of a value inside the block. -/
theorem copyValue_eq {address : Nat} {block : List UInt8} (placed : BlockAt data address block)
    {info : CounterInfo} (small : info.size ≤ 8) (inside : info.offset + info.size ≤ block.length) :
    copyValue data address info = some (numberAt block info) := by
  have part := take_drop_load data address inside
  rw [placed.bytes] at part
  rw [copyValue, if_pos small, ← part]
  rfl

theorem copyValues_eq {address : Nat} {block : List UInt8} (placed : BlockAt data address block)
    (consistent : o.Consistent) (listed : block ∈ o.values.blocks) {definitions : List Definition}
    (defined : ∀ d ∈ definitions, d ∈ o.definitions) :
    copyValues data address (definitions.map Definition.info) =
      some (numbers definitions block) := by
  induction definitions with
  | nil => rfl
  | cons d rest ih =>
    obtain ⟨small, inside⟩ := consistent d (defined d List.mem_cons_self)
    have remaining := ih fun d member => defined d (List.mem_cons_of_mem _ member)
    unfold copyValues at remaining ⊢
    rw [List.map_cons, List.mapM_cons, copyValue_eq placed small (inside block listed), remaining]
    rfl

/-- Where every value is there, `mapM` is `map`. -/
theorem mapM_of_map {α β : Type} {f : α → Option β} {l : List α} {r : List β}
    (each : l.map f = r.map some) : l.mapM f = some r := by
  induction l generalizing r with
  | nil =>
    cases r with
    | nil => rfl
    | cons c rest => cases each
  | cons a rest ih =>
    cases r with
    | nil => cases each
    | cons c behind =>
      rw [List.map_cons, List.map_cons, List.cons.injEq] at each
      rw [List.mapM_cons, each.1, ih each.2]
      rfl

theorem mapM_isSome {α β : Type} (f : α → Option β) (l : List α) :
    (l.mapM f).isSome ↔ ∀ a ∈ l, f a ≠ none := by
  induction l with
  | nil => simp
  | cons a rest ih =>
    rw [List.mapM_cons, List.forall_mem_cons, ← ih]
    cases f a <;> cases rest.mapM f <;> simp

theorem instanceRow_eq {p : Nat} {i : Instance} (placed : InstanceAt env data p i)
    (consistent : o.Consistent) (listed : i.block ∈ o.values.blocks)
    {definitions : List Definition} (defined : ∀ d ∈ definitions, d ∈ o.definitions) :
    instanceRow env data (definitions.map Definition.info) p =
      some ⟨some i.name, some (numbers definitions i.block)⟩ := by
  rw [instanceRow, copyValues_eq placed.block consistent listed defined, placed.name]
  rfl

/-- The arrays that are freed of a table with a terminator: those of the rows in front of it, or
what the terminator has if there is no row. -/
theorem freedValues_instances {α : Type} (name : α → Text) (value : α → List UInt64)
    (list : List α) :
    (∀ v ∈ freedValues (.rows (list.map (fun i => ⟨some (name i), some (value i)⟩) ++
        [⟨none, none⟩])), v ≠ none) ↔ list ≠ [] := by
  cases list with
  | nil => simp [freedValues]
  | cons i rest =>
    refine ⟨fun _ => List.cons_ne_nil _ _, fun _ v member => ?_⟩
    rw [List.map_cons, List.cons_append, freedValues, if_neg (Option.some_ne_none _)] at member
    obtain ⟨row, taken, rfl⟩ := List.mem_map.mp member
    have named := List.mem_takeWhile_imp taken
    have inside := (List.takeWhile_sublist _).subset taken
    rw [← List.cons_append, List.mem_append, List.mem_cons, List.mem_map,
      List.mem_singleton] at inside
    rcases inside with (rfl | ⟨j, -, rfl⟩) | rfl
    · exact Option.some_ne_none _
    · exact Option.some_ne_none _
    · cases named

/-- The rows of an object that has all the counters. -/
theorem objectRows_eq (placed : ObjectAt env data op o) (consistent : o.Consistent)
    {definitions : List Definition} (defined : ∀ d ∈ definitions, d ∈ o.definitions) :
    ∃ rows, objectRows env data op (definitions.map Definition.info) = some rows ∧
      HasRows definitions rows o.values ∧
      ((∀ value ∈ freedValues (.rows rows), value ≠ none) ↔ o.values ≠ .instances []) := by
  have there := placed.values
  cases values : o.values with
  | single block =>
    rw [values] at there
    obtain ⟨noInstances, blockAt⟩ := there
    have listed : block ∈ o.values.blocks := by
      rw [values]
      exact List.mem_singleton_self block
    refine ⟨[⟨none, some (numbers definitions block)⟩], ?_, rfl, ?_⟩
    · rw [objectRows, if_pos noInstances, copyValues_eq blockAt consistent listed defined]
      rfl
    · simp [freedValues]
  | instances list =>
    rw [values] at there
    obtain ⟨count, linked⟩ := there
    have nonempty : numInstances data op ≠ perfNoInstances := by
      rw [count, perfNoInstances]
      omega
    let row : Instance → PerfCounter := fun i => ⟨some i.name, some (numbers definitions i.block)⟩
    have read : ∀ p, ∀ i ∈ list, InstanceAt env data p i →
        instanceRow env data (definitions.map Definition.info) p = some (row i) := by
      intro p i member instanceAt
      have listed : i.block ∈ o.values.blocks := by
        rw [values]
        exact List.mem_map_of_mem member
      exact instanceRow_eq instanceAt consistent listed defined
    have each := linked.map_addresses read
    have rows : _ = some (list.map row) := mapM_of_map (each.trans (List.map_map ..).symm)
    refine ⟨list.map row ++ [⟨none, none⟩], ?_, ⟨none, rfl⟩, ?_⟩
    · rw [objectRows, if_neg nonempty, count, Int.toNat_natCast, rows]
      rfl
    · rw [freedValues_instances, ne_eq, ne_eq, Values.instances.injEq]

theorem definitions_eq {counters : List Nat} {definitions : List Definition}
    (found : counters.mapM o.definition = some definitions) (placed : ObjectAt env data op o)
    (k : Nat) :
    (counters.zipIdx k).map (fun counter =>
        (getCounterOffset data op counter.1).getD (env.fresh counter.2)) =
      definitions.map Definition.info ∧ ∀ d ∈ definitions, d ∈ o.definitions := by
  induction counters generalizing definitions k with
  | nil =>
    cases found
    exact ⟨rfl, fun d member => absurd member List.not_mem_nil⟩
  | cons counter rest ih =>
    rw [List.mapM_cons] at found
    obtain ⟨d, this, found⟩ := Option.bind_eq_some_iff.mp found
    obtain ⟨behind, others, found⟩ := Option.bind_eq_some_iff.mp found
    cases found
    obtain ⟨infos, defined⟩ := ih others (k + 1)
    have member : d ∈ o.definitions :=
      List.mem_of_mem_filter (List.mem_of_getElem? this)
    constructor
    · rw [List.zipIdx_cons, List.map_cons, infos, List.map_cons, getCounterOffset_eq placed, this]
      rfl
    · intro e inside
      rcases List.mem_cons.mp inside with rfl | inside
      · exact member
      · exact defined e inside

/-- What stands in `ci` after the lookups. -/
def counterInfos (env : PerfEnv) (data : Bytes) (op : Nat) (counters : List Nat) :
    List CounterInfo :=
  counters.zipIdx.map fun counter =>
    (getCounterOffset data op counter.1).getD (env.fresh counter.2)

theorem readPerfcounters_absent {object : Nat} (answered : env.query object = some data)
    (place : getObject data object = none) (counters : List Nat) :
    readPerfcounters env object counters = some ⟨none, none, .null⟩ := by
  simp only [readPerfcounters, answered, place]

theorem readPerfcounters_there {object : Nat} (answered : env.query object = some data)
    (place : getObject data object = some op) (counters : List Nat) :
    readPerfcounters env object counters =
      (objectRows env data op (counterInfos env data op counters)).map fun rows =>
        ⟨some (perfTime data op), some (perfFreq data op), .rows rows⟩ := by
  simp only [readPerfcounters, answered, place]
  exact (Option.map_eq_bind ..).symm

/-- A counter that is missing does not keep the rows from being made. -/
theorem missing_incomplete {objects : List Object} {object : Nat} {counters : List Nat}
    (answered : env.query object = some data) (place : getObject data object = some op)
    (wanted : objects.find? (·.title = object) = some o)
    (missing : counters.mapM o.definition = none) {answer : PerfAnswer}
    (returned : readPerfcounters env object counters = some answer) :
    ¬CompleteOrNull objects object counters answer := by
  simp only [CompleteOrNull, wanted, missing]
  intro null
  rw [readPerfcounters_there answered place] at returned
  obtain ⟨rows, -, rfl⟩ := Option.map_eq_some_iff.mp returned
  cases null

/-- With every counter defined, the rows are complete but for a terminator on its own. -/
theorem defined_complete_iff {objects : List Object} {object : Nat} {counters : List Nat}
    (answered : env.query object = some data) (place : getObject data object = some op)
    (wanted : objects.find? (·.title = object) = some o) (placed : ObjectAt env data op o)
    (consistent : o.Consistent) {definitions : List Definition}
    (found : counters.mapM o.definition = some definitions) :
    (∃ answer, readPerfcounters env object counters = some answer ∧
        CompleteOrNull objects object counters answer) ↔ o.values ≠ .instances [] := by
  obtain ⟨infos, defined⟩ := definitions_eq found placed 0
  obtain ⟨rows, stored, hasRows, allocated⟩ := objectRows_eq placed consistent defined
  have returned : readPerfcounters env object counters =
      some ⟨some (perfTime data op), some (perfFreq data op), .rows rows⟩ := by
    rw [readPerfcounters_there answered place, counterInfos, infos, stored]
    rfl
  rw [returned, ← allocated]
  simp only [CompleteOrNull, wanted, found]
  constructor
  · rintro ⟨answer, same, rows', -, -, freed⟩
    cases same
    exact freed
  · intro freed
    exact ⟨_, rfl, rows, rfl, hasRows, freed⟩

end

/-- A table is complete, and NULL where it cannot be, if and only if there is no such object or
it has every counter and, if it has instances, one at least. -/
theorem counters_complete_iff (env : PerfEnv) (data : Bytes) (objects : List Object)
    (object : Nat) (counters : List Nat) (answered : env.query object = some data)
    (block : DataBlock env data objects) :
    (∃ answer, readPerfcounters env object counters = some answer ∧
        CompleteOrNull objects object counters answer) ↔
      FullyThere objects object counters := by
  have lookup := getObject_eq block object
  cases wanted : objects.find? (·.title = object) with
  | none =>
    rw [wanted] at lookup
    cases place : getObject data object with
    | some op =>
      rw [place] at lookup
      cases lookup
    | none =>
      refine iff_of_true ⟨_, readPerfcounters_absent answered place counters, ?_⟩ ?_
      · simp only [CompleteOrNull, wanted]
      · intro o there
        rw [wanted] at there
        cases there
  | some o =>
    rw [wanted] at lookup
    cases place : getObject data object with
    | none =>
      rw [place] at lookup
      cases lookup
    | some op =>
      rw [place] at lookup
      cases lookup with
      | some placed =>
        have consistent := block.consistent o (List.mem_of_find?_eq_some wanted)
        have defined := mapM_isSome o.definition counters
        have fully : FullyThere objects object counters ↔
            (∀ counter ∈ counters, o.definition counter ≠ none) ∧ o.values ≠ .instances [] := by
          simp only [FullyThere, wanted, Option.some.injEq, forall_eq']
        rw [fully, ← defined]
        cases found : counters.mapM o.definition with
        | none =>
          refine iff_of_false ?_ fun full => Bool.false_ne_true full.1
          rintro ⟨answer, returned, complete⟩
          exact missing_incomplete answered place wanted found returned complete
        | some definitions =>
          rw [defined_complete_iff answered place wanted placed consistent found]
          exact ⟨fun nonempty => ⟨rfl, nonempty⟩, And.right⟩

/-- A block with one object, 238, that has the counter 6 of eight bytes and one instance. -/
def processorBlock : Bytes := fun address =>
  ([(24, 32), (28, 1), (32, 144), (36, 104), (40, 64), (44, 238), (64, 1), (72, 1),
    (96, 40), (100, 6), (128, 8), (132, 8), (136, 24), (152, 16), (160, 16), (168, 42)].lookup
      address).getD 0

/-- The object in it. -/
def processor : Object :=
  ⟨238, 0, 0, [⟨6, ⟨8, 8⟩⟩],
    .instances [⟨"_Total".toList, [16, 0, 0, 0, 0, 0, 0, 0, 42, 0, 0, 0, 0, 0, 0, 0]⟩]⟩

def processorEnv : PerfEnv where
  query object := if object = 238 then some processorBlock else none
  fresh _ := ⟨0, 0⟩
  dupWideToMulti _ _ := "_Total".toList

theorem processorBlock_wellFormed :
    DataBlock processorEnv processorBlock [processor] where
  count := by decide
  linked := by
    refine ⟨⟨by decide, by decide, by decide, by decide, ⟨⟨?_, ?_, ?_⟩, trivial⟩, ?_⟩, trivial⟩
    · decide
    · decide
    · decide
    · exact ⟨by decide, ⟨rfl, by decide, by decide⟩, trivial⟩
  consistent := by
    intro o member
    rw [List.mem_singleton] at member
    subst member
    unfold Object.Consistent
    decide

/-- The counter 6 is read. -/
theorem processor_complete :
    ∃ answer, readPerfcounters processorEnv 238 [6] = some answer ∧
      CompleteOrNull [processor] 238 [6] answer := by
  refine (counters_complete_iff processorEnv processorBlock [processor] 238 [6] rfl
    processorBlock_wellFormed).mpr ?_
  intro o there
  cases there
  exact ⟨by decide, by simp [processor]⟩

/-- The counter 8 is not defined, and the table is not NULL. -/
theorem undefined_counter_read :
    DataBlock processorEnv processorBlock [processor] ∧
      (readPerfcounters processorEnv 238 [6, 8]).map PerfAnswer.table =
        some (.rows [⟨some "_Total".toList, some [42, 0]⟩, ⟨none, none⟩]) ∧
      ¬∃ answer, readPerfcounters processorEnv 238 [6, 8] = some answer ∧
        CompleteOrNull [processor] 238 [6, 8] answer := by
  refine ⟨processorBlock_wellFormed, by decide, ?_⟩
  rintro ⟨answer, returned, complete⟩
  have place : getObject processorBlock 238 = some 32 := by decide
  have wanted : [processor].find? (·.title = 238) = some processor := rfl
  have missing : [6, 8].mapM processor.definition = none := rfl
  exact missing_incomplete rfl place wanted missing returned complete

end MrBig.Guarantees.PerfCounters
