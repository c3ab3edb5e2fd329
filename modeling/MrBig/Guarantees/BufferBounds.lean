import MrBig.Guarantees.ReadCfgLines
import MrBig.Source.Wmi

/-!
# Configuration texts and the arrays they are stored in

A line of the configuration has up to 999 characters; the arrays that words and values of
lines are stored in have 100, 256 or 1000, and `fields[]` has 100 entries. Everything
stays in its array exactly if the words, the values and the lists of fields of the
configuration are that short.
-/

set_option autoImplicit false

namespace MrBig.Guarantees.BufferBounds
open Library Source Source.Wmi ReadCfgLines

/-! ### The lines that `read_cfg` reads -/

/-- The call of `read_cfg` that a line makes, if it makes one. -/
def innerCall (w : World) (category b : Text) : Option (World × Text × Text) :=
  let b := chomp b
  if ".config ".toList <+: b then do
    let (_, rest) ← scanWord (b.drop 7)
    let port ← scanInt rest
    if port ≠ 0 then do
      let w ← w.recvCfg
      some (w, category, cacheName)
    else none
  else if ".include ".toList <+: b then some (w, category, b.drop 9)
  else none

/-- The lines that the loop reads, each with those of the call it makes behind it. -/
def loopLines (nested : World → Text → Text → Option World)
    (inner : World → Text → Text → List Text) : World → Text → List Text → List Text
  | _, _, [] => []
  | w, category, b :: rest =>
    b :: ((innerCall w category b).elim [] fun call => inner call.1 call.2.1 call.2.2) ++
      (readLine World.recvCfg nested w category b).elim [] fun next =>
        loopLines nested inner next.1 next.2 rest

/-- All lines read by `read_cfg(cat, filename)` and the calls in it, in order. -/
def linesRead : Nat → World → Text → Text → List Text
  | 0, _, _, _ => []
  | depth + 1, w, cat, filename =>
    match w.files.read filename with
    | none => []
    | some stream =>
      loopLines (readCfg depth) (linesRead depth) w (strlcpy cat 100) (fileLines 1000 stream)

/-- What `bind_addr` holds after stores one behind the other. -/
def lastStore (bindAddr : Text) (stores : List Text) : Text := stores.getLast?.getD bindAddr

@[simp] theorem lastStore_append (bindAddr : Text) (first second : List Text) :
    lastStore bindAddr (first ++ second) = lastStore (lastStore bindAddr first) second := by
  unfold lastStore
  rw [List.getLast?_append]
  cases second.getLast? <;> simp

theorem recvCfg_bindAddr {w w' : World} (received : w.recvCfg = some w') :
    w'.bindAddr = w.bindAddr := by
  unfold World.recvCfg at received
  split at received
  next => cases received
  next => rw [← Option.some.inj received]

theorem callWorld_bindAddr {w v : World} {b : Text} (inside : callWorld World.recvCfg w b = some v) :
    v.bindAddr = w.bindAddr := by
  rw [callWorld] at inside
  split at inside
  next => exact recvCfg_bindAddr inside
  next => rw [Option.some.inj inside]

theorem innerCall_eq (w : World) (category b : Text) :
    innerCall w category b =
      (calledFile b).bind fun f =>
        (callWorld World.recvCfg w b).map fun v => (v, category, f) := by
  unfold innerCall calledFile callWorld
  dsimp only
  split
  next =>
    cases scanWord ((chomp b).drop 7) with
    | none => rfl
    | some word =>
      cases number : scanInt word.2 with
      | none => simp [number]
      | some port =>
        by_cases zero : port = 0
        · simp [number, zero]
        · cases received : w.recvCfg <;> simp [number, zero]
  next =>
    split
    next => rfl
    next => rfl

/-- A `.bind` line stores the address, an `.include` or `.config` line leaves it to the call
it makes, and every other line leaves it alone. -/
theorem readLine_bindAddr {nested : World → Text → Text → Option World} {w w' : World}
    {category b category' : Text}
    (read : readLine World.recvCfg nested w category b = some (w', category')) :
    (innerCall w category b = none ∧ w'.bindAddr = (bindStore b).getD w.bindAddr) ∨
      bindStore b = none ∧ ∃ v f, innerCall w category b = some (v, category, f) ∧
        v.bindAddr = w.bindAddr ∧ nested v category f = some w' := by
  cases readLine_step read with
  | called calls inside returned noStore =>
    refine Or.inr ⟨noStore, _, _, ?_, callWorld_bindAddr inside, returned⟩
    rw [innerCall_eq, calls, inside]
    rfl
  | opened noCall _ noStore =>
    rw [innerCall_eq, noCall, noStore]
    exact Or.inl ⟨rfl, rfl⟩
  | added noCall _ _ noStore =>
    rw [innerCall_eq, noCall, noStore]
    exact Or.inl ⟨rfl, rfl⟩
  | inert noCall _ _ =>
    rw [innerCall_eq, noCall]
    exact Or.inl ⟨rfl, rfl⟩

/-- The lines read say what `read_cfg` stores in `bind_addr`: the address that is left there
is the last one stored. -/
theorem readCfg_bindAddr {depth : Nat} {w w' : World} {cat filename : Text}
    (read : readCfg depth w cat filename = some w') :
    w'.bindAddr =
      lastStore w.bindAddr ((linesRead depth w cat filename).filterMap bindStore) := by
  induction depth generalizing w w' cat filename with
  | zero => cases read
  | succ depth ih =>
    unfold readCfg at read
    unfold linesRead
    cases there : w.files.read filename with
    | none =>
      rw [there] at read
      rw [← Option.some.inj read]
      rfl
    | some stream =>
      rw [there] at read
      clear there
      dsimp only at read ⊢
      generalize fileLines 1000 stream = lines at read ⊢
      generalize strlcpy cat 100 = category at read ⊢
      induction lines generalizing w category with
      | nil =>
        rw [← Option.some.inj read]
        rfl
      | cons b lines ihLines =>
        unfold readLines at read
        obtain ⟨⟨w₁, category₁⟩, line, rest⟩ := Option.bind_eq_some_iff.mp read
        unfold loopLines
        rcases readLine_bindAddr line with ⟨noCall, stored⟩ | ⟨noStore, v, f, call, kept, called⟩
        · rw [noCall, line, Option.elim_none, Option.elim_some, List.filterMap_append,
            lastStore_append]
          rw [ihLines _ rest, stored]
          cases bound : bindStore b <;> simp [bound, lastStore]
        · rw [call, line, Option.elim_some, Option.elim_some, List.filterMap_append,
            lastStore_append, List.filterMap_cons_none noStore, ← kept, ← ih called]
          exact ihLines _ rest

/-! ### Short lines -/

theorem scanWord_length {s word rest : Text} (found : scanWord s = some (word, rest)) :
    rest.length ≤ s.length := by
  obtain ⟨lead, _, _, _, rfl⟩ := scanWord_eq_some_iff.mp found
  simp only [List.length_append]
  omega

theorem scanRest_length {s value : Text} (found : scanRest s = some value) :
    value.length ≤ s.length := by
  unfold scanRest at found
  split at found
  next => cases found
  next =>
    cases found
    exact (List.takeWhile_sublist _).length_le.trans (List.dropWhile_sublist _).length_le

/-! ### The rules -/

/-- The words of a line that is not a comment fit `action` and `test`. -/
def RuleWordsFit (b : Text) : Prop :=
  b.head? ≠ some '#' →
    (∀ action ∈ (scanRule b).1, action.length < 100) ∧
      ∀ test ∈ (scanRule b).2.1, test.length < 100

theorem scanRule_value_length {b value : Text} (found : (scanRule b).2.2 = some value) :
    value.length ≤ b.length := by
  unfold scanRule scanTwoWords at found
  split at found
  next => cases found
  next first afterFirst firstWord =>
    split at found
    next => cases found
    next second afterSecond secondWord =>
      calc
        value.length ≤ afterSecond.length := scanRest_length found
        _ ≤ afterFirst.length := scanWord_length secondWord
        _ ≤ b.length := scanWord_length firstWord

/-- The value of a line fits its array, since the line does. -/
theorem lineStores_fit_iff {b : Text} (short : b.length < 1000) :
    (∀ store ∈ lineStores b, store.Fits) ↔ RuleWordsFit b := by
  have value : ∀ value ∈ (scanRule b).2.2, value.length < 1000 := fun value found =>
    Nat.lt_of_le_of_lt (scanRule_value_length found) short
  unfold lineStores RuleWordsFit
  split
  next comment => simp [comment]
  next line =>
    simp only [ne_eq, line, not_false_eq_true, true_implies]
    cases first : (scanRule b).1 <;> cases second : (scanRule b).2.1 <;>
      cases third : (scanRule b).2.2 <;> simp_all [Store.Fits]

/-- What `msgs` has `read_msgcfg` store. -/
def msgsStores (options : List Text) (conf : List Config) : List Store :=
  if getOption options "no_msgs".toList false ≠ none then [] else readMsgcfgStores conf

/-- The lines of the section that are looked at before the table of rules is full. -/
def RulesFit (lines : List Text) : Prop :=
  ∀ before b after, lines = before ++ b :: after →
    (before.filterMap lineRule).length < rulesMax → RuleWordsFit b

/-- What the loop stores of a line, by the lines before it. -/
theorem readMsgcfgLine_stores (before : List Text) (b : Text) :
    (readMsgcfgLine (Run.final readMsgcfgLine [] before) b).2 =
      if (before.filterMap lineRule).length < rulesMax then lineStores b else [] := by
  have room : ((before.filterMap lineRule).take rulesMax).length < rulesMax ↔
      (before.filterMap lineRule).length < rulesMax := by
    rw [List.length_take]
    omega
  rw [readMsgcfgLine_rules, List.nil_append, List.length_nil, Nat.sub_zero, readMsgcfgLine]
  simp only [room]
  split <;> rfl

theorem readMsgcfgStores_fit_iff (conf : List Config) :
    (∀ store ∈ readMsgcfgStores conf, store.Fits) ↔ RulesFit (msgsLines conf) := by
  have short : ∀ before b after, msgsLines conf = before ++ b :: after → b.length < 1000 := by
    intro before b after split
    have listed : b ∈ msgsLines conf := by simp [split]
    exact sectionLines_short conf "msgs".toList (by decide) b listed
  unfold readMsgcfgStores RulesFit
  constructor
  · intro fits before b after split room
    refine (lineStores_fit_iff (short before b after split)).mp fun store stored => ?_
    refine fits store (List.mem_flatten.mpr ⟨_, (Run.mem_outputs_iff _).mpr
      ⟨before, b, after, split, rfl⟩, ?_⟩)
    rw [readMsgcfgLine_stores, if_pos room]
    exact stored
  · intro fits store stored
    obtain ⟨output, given, stored⟩ := List.mem_flatten.mp stored
    obtain ⟨before, b, after, split, rfl⟩ := (Run.mem_outputs_iff _).mp given
    rw [readMsgcfgLine_stores] at stored
    split at stored
    next room =>
      exact (lineStores_fit_iff (short before b after ‹_›)).mpr (fits before b after ‹_› room)
        store stored
    next => cases stored

/-! ### The WMI pages -/

def isQuery (b : Text) : Bool := (pageLine b).any fun line => line.1 == .query

/-- The line counts an entry of `fields[]`. -/
def namesField (b : Text) : Bool :=
  (pageLine b).any fun line => line.1 == .field && (scanField line.2).1.isSome

theorem fieldLine_of_namesField {b : Text} (names : namesField b) :
    ∃ value, pageLine b = some (.field, value) := by
  unfold namesField at names
  cases found : pageLine b with
  | none => simp [found] at names
  | some line =>
    obtain ⟨key, value⟩ := line
    simp only [found, Option.any_some, Bool.and_eq_true, beq_iff_eq] at names
    exact ⟨value, by rw [names.1]⟩

/-- The entries in `fields[]`: those named since the last query. -/
def standingFields (before : List Text) : Nat :=
  ((before.reverse.takeWhile fun b => !isQuery b).filter namesField).length

theorem standingFields_concat (before : List Text) (b : Text) :
    standingFields (before ++ [b]) =
      if isQuery b then 0
      else if namesField b then standingFields before + 1 else standingFields before := by
  unfold standingFields
  rw [List.reverse_append, List.reverse_singleton, List.singleton_append]
  by_cases query : isQuery b
  · simp [query]
  · by_cases names : namesField b <;> simp [query, names]

/-- How a line changes the number of entries. -/
theorem wmiStep_fields (mrmachine : Text) (s : WmiState) (line : WmiLine) :
    (wmiStep mrmachine s line).1.fields.length =
      if isQuery line.b then 0
      else if namesField line.b then s.fields.length + 1 else s.fields.length := by
  unfold wmiStep isQuery namesField
  cases pageLine line.b with
  | none => rfl
  | some found =>
    obtain ⟨key, value⟩ := found
    cases key with
    | always | begins | query | text => rfl
    | ends =>
      dsimp only
      unfold endLine
      split
      next => rfl
      next => split <;> rfl
    | go =>
      dsimp only
      unfold goLine
      split
      next => rfl
      next =>
        split
        next => rfl
        next objects _ => exact congrArg List.length (foldl_reportObject_fields objects s)
    | field =>
      dsimp only
      unfold fieldLine
      cases name : (scanField value).1 <;> simp [name]

theorem final_fields (mrmachine : Text) (before : List WmiLine) :
    (Run.final (wmiStep mrmachine) wmiStart before).fields.length =
      standingFields (before.map WmiLine.b) := by
  refine Run.history_invariant (wmiStep mrmachine)
    (fun before s => s.fields.length = standingFields (before.map WmiLine.b)) rfl ?_ before
  intro history line same
  rw [wmiStep_fields, List.map_append, List.map_singleton, standingFields_concat, same]

/-- The value of a line fits the array it goes to; a field line finds a free entry of
`fields[]`, and its words fit the members. -/
def PageLineFits (before : List Text) (b : Text) : Prop :=
  match pageLine b with
  | some (.always, value) | some (.begins, value) => value.length < 100
  | some (.field, value) =>
    standingFields before < fieldsMax ∧
      (∀ field ∈ (scanField value).1, field.length < 100) ∧
      (∀ op1 ∈ (scanField value).2.1, op1.length < 100) ∧
      ∀ op2 ∈ (scanField value).2.2, op2.length < 100
  | _ => True

def PagesFit (lines : List Text) : Prop :=
  ∀ before b after, lines = before ++ b :: after → PageLineFits before b

/-- The output of a line stays in the arrays. -/
def OutputFits (output : WmiOutput) : Prop :=
  (∀ store ∈ output.stores, store.Fits) ∧ ∀ i ∈ output.indices, i < fieldsMax

instance (output : WmiOutput) : Decidable (OutputFits output) :=
  inferInstanceAs (Decidable (_ ∧ _))

theorem fieldLine_output (s : WmiState) (value : Text) :
    (fieldLine s value).2 =
      { stores := [(scanField value).1, (scanField value).2.1, (scanField value).2.2].filterMap
          fun member => member.map (Store.mk 100)
        indices := [s.fields.length]
        sent := none } := by
  unfold fieldLine
  dsimp only
  split <;> rfl

/-- Where `fields[]` has not overflowed, a line stays in the arrays exactly if it fits. -/
theorem wmiStep_fits_iff (mrmachine : Text) {s : WmiState} {before : List Text}
    (count : s.fields.length = standingFields before) (room : standingFields before ≤ fieldsMax)
    (line : WmiLine) :
    OutputFits (wmiStep mrmachine s line).2 ↔ PageLineFits before line.b := by
  have nothing : OutputFits noOutput := ⟨by simp [noOutput], by simp [noOutput]⟩
  unfold wmiStep PageLineFits
  cases pageLine line.b with
  | none => exact iff_of_true nothing trivial
  | some found =>
    obtain ⟨key, value⟩ := found
    cases key with
    | always | begins => simp [OutputFits, Store.Fits, noOutput]
    | query | text => exact iff_of_true nothing trivial
    | ends =>
      refine iff_of_true ?_ trivial
      dsimp only
      unfold endLine
      split
      next => exact nothing
      next => exact nothing
    | go =>
      refine iff_of_true ?_ trivial
      dsimp only
      unfold goLine
      split
      next => exact nothing
      next =>
        split
        next => exact nothing
        next objects _ =>
          refine ⟨nothing.1, fun i used => ?_⟩
          obtain ⟨_, _, inside⟩ := List.mem_flatMap.mp used
          have below := List.mem_range.mp inside
          omega
    | field =>
      dsimp only
      rw [← count, fieldLine_output]
      unfold OutputFits
      obtain ⟨field, op1, op2⟩ := scanField value
      cases field <;> cases op1 <;> cases op2 <;> simp [Store.Fits, and_comm]

theorem index_of_namesField (mrmachine : Text) (s : WmiState) {line : WmiLine}
    (names : namesField line.b) : s.fields.length ∈ (wmiStep mrmachine s line).2.indices := by
  obtain ⟨value, found⟩ := fieldLine_of_namesField names
  unfold wmiStep
  rw [found]
  dsimp only
  rw [fieldLine_output]
  exact List.mem_singleton_self _

/-- Every field line that counts finds a free entry. -/
def EntriesFree (lines : List Text) : Prop :=
  ∀ before b after, lines = before ++ b :: after → namesField b →
    standingFields before < fieldsMax

/-- As long as entries are free, `fields[]` never overflows. -/
theorem standingFields_le {lines : List Text} (free : EntriesFree lines)
    {before after : List Text} (split : lines = before ++ after) :
    standingFields before ≤ fieldsMax := by
  induction before using List.reverseRecOn generalizing after with
  | nil => exact Nat.zero_le _
  | append_singleton before b ih =>
    have earlier : lines = before ++ b :: after := by simp [split]
    rw [standingFields_concat]
    split_ifs with query names
    · exact Nat.zero_le _
    · exact free before b after earlier names
    · exact ih earlier

theorem forall_split_map {α β : Type} (f : α → β) (l : List α) (P : List β → β → Prop) :
    (∀ before b after, l.map f = before ++ b :: after → P before b) ↔
      ∀ before a after, l = before ++ a :: after → P (before.map f) (f a) := by
  constructor
  · rintro each before a after rfl
    exact each (before.map f) (f a) (after.map f) (by simp)
  · intro each before b after split
    obtain ⟨before', rest, rfl, rfl, same⟩ := List.map_eq_append_iff.mp split
    obtain ⟨a, after', rfl, rfl, rfl⟩ := List.map_eq_cons_iff.mp same
    exact each before' a after' rfl

theorem wmiLines_b (conf : List Config) (execQuery : Nat → Text → Option (List WmiObject)) :
    (wmiLines conf execQuery).map WmiLine.b = sectionLines conf "wmi".toList 1000 := by
  unfold wmiLines
  rw [List.map_map]
  exact List.zipIdx_map_fst 0 _

/-- As long as entries are free, a line of the run stays in the arrays exactly if it fits. -/
theorem final_fits_iff (mrmachine : Text) {lines before after : List WmiLine} {line : WmiLine}
    (free : EntriesFree (lines.map WmiLine.b)) (split : lines = before ++ line :: after) :
    OutputFits (wmiStep mrmachine (Run.final (wmiStep mrmachine) wmiStart before) line).2 ↔
      PageLineFits (before.map WmiLine.b) line.b := by
  have shape : lines.map WmiLine.b = before.map WmiLine.b ++ (line :: after).map WmiLine.b := by
    simp [split]
  exact wmiStep_fits_iff mrmachine (final_fields mrmachine before) (standingFields_le free shape)
    line

theorem entriesFree_of_pagesFit {lines : List Text} (fits : PagesFit lines) :
    EntriesFree lines := by
  intro before b after split names
  have lineFits := fits before b after split
  obtain ⟨value, found⟩ := fieldLine_of_namesField names
  unfold PageLineFits at lineFits
  rw [found] at lineFits
  exact lineFits.1

/-- The run over the lines stays in the arrays exactly if every line fits. -/
theorem wmi_fits_iff (mrmachine : Text) (lines : List WmiLine) :
    (∀ output ∈ Run.outputs (wmiStep mrmachine) wmiStart lines, OutputFits output) ↔
      PagesFit (lines.map WmiLine.b) := by
  constructor
  · intro fits
    have given : ∀ before line after, lines = before ++ line :: after →
        OutputFits (wmiStep mrmachine (Run.final (wmiStep mrmachine) wmiStart before) line).2 :=
      fun before line after split =>
        fits _ ((Run.mem_outputs_iff _).mpr ⟨before, line, after, split, rfl⟩)
    have free : EntriesFree (lines.map WmiLine.b) := by
      unfold EntriesFree
      rw [forall_split_map]
      intro before line after split names
      rw [← final_fields mrmachine]
      exact (given before line after split).2 _ (index_of_namesField mrmachine _ names)
    unfold PagesFit
    rw [forall_split_map]
    intro before line after split
    exact (final_fits_iff mrmachine free split).mp (given before line after split)
  · intro fits output given
    obtain ⟨before, line, after, split, rfl⟩ := (Run.mem_outputs_iff _).mp given
    have free := entriesFree_of_pagesFit fits
    unfold PagesFit at fits
    rw [forall_split_map] at fits
    exact (final_fits_iff mrmachine free split).mpr (fits before line after split)

/-! ### The whole configuration -/

/-- Every string that `read_cfg` stores for `.bind`, and that `read_msgcfg` and `wmi` store
from the configuration it leaves, is shorter than its array, and the entries of `fields[]`
that are used are there. -/
structure BuffersHold (lines : List Text) (conf : List Config) (options : List Text)
    (mrmachine : Text) (execQuery : Nat → Text → Option (List WmiObject)) : Prop where
  bindAddr : ∀ addr ∈ lines.filterMap bindStore, Store.Fits ⟨256, addr⟩
  rules : ∀ store ∈ msgsStores options conf, store.Fits
  pages : ∀ output ∈ wmi options mrmachine conf execQuery, OutputFits output

/-- The lines of the configuration have words and values that fit, and no list of fields is
too long. -/
structure ShortEnough (lines : List Text) (conf : List Config) (options : List Text) : Prop where
  bindAddr : ∀ b ∈ lines, ∀ addr ∈ bindStore b, addr.length < 256
  rules : getOption options "no_msgs".toList false = none → RulesFit (msgsLines conf)
  pages : getOption options "no_wmi".toList false = none →
    PagesFit (sectionLines conf "wmi".toList 1000)

/-- The lines of a run of `read_cfg` and the configuration that is there for `msgs` and
`wmi` overrun no array exactly if they are short enough. -/
theorem buffers_hold_iff (depth : Nat) (w : World) (cat filename : Text) (conf : List Config)
    (options : List Text) (mrmachine : Text) (execQuery : Nat → Text → Option (List WmiObject)) :
    BuffersHold (linesRead depth w cat filename) conf options mrmachine execQuery ↔
      ShortEnough (linesRead depth w cat filename) conf options := by
  have bind : (∀ addr ∈ (linesRead depth w cat filename).filterMap bindStore,
      Store.Fits ⟨256, addr⟩) ↔ ∀ b ∈ linesRead depth w cat filename, ∀ addr ∈ bindStore b,
        addr.length < 256 := by
    simp only [List.mem_filterMap, Store.Fits]
    exact ⟨fun fits b read addr stored => fits addr ⟨b, read, stored⟩,
      fun fits addr ⟨b, read, stored⟩ => fits b read addr stored⟩
  have rules : (∀ store ∈ msgsStores options conf, store.Fits) ↔
      (getOption options "no_msgs".toList false = none → RulesFit (msgsLines conf)) := by
    unfold msgsStores
    split
    next disabled => exact iff_of_true (by simp) fun enabled => absurd enabled disabled
    next enabled =>
      refine (readMsgcfgStores_fit_iff conf).trans ?_
      exact (imp_iff_right (not_not.mp enabled)).symm
  have pages : (∀ output ∈ wmi options mrmachine conf execQuery, OutputFits output) ↔
      (getOption options "no_wmi".toList false = none →
        PagesFit (sectionLines conf "wmi".toList 1000)) := by
    unfold wmi
    split
    next disabled => exact iff_of_true (by simp) fun enabled => absurd enabled disabled
    next enabled =>
      rw [wmi_fits_iff, wmiLines_b]
      exact (imp_iff_right (not_not.mp enabled)).symm
  constructor
  · intro hold
    exact ⟨bind.mp hold.bindAddr, rules.mp hold.rules, pages.mp hold.pages⟩
  · intro short
    exact ⟨bind.mpr short.bindAddr, rules.mpr short.rules, pages.mpr short.pages⟩

/-- A page with a name of a hundred characters. -/
def longPage : FileSys :=
  [⟨"wmi.cfg".toList, "[wmi]\nbegin ".toList ++ List.replicate 100 'x' ++ "\n".toList⟩]

def withFiles (files : FileSys) : World :=
  ⟨files, [], [], [], fun _ => ⟨false, false, false, false, false, false, none, 0, []⟩⟩

set_option maxRecDepth 8000 in
/-- The name and its NUL do not fit `page`. -/
theorem longPage_overruns :
    ∃ w', readCfg 1 (withFiles longPage) "mrbig".toList "wmi.cfg".toList = some w' ∧
      ¬ BuffersHold (linesRead 1 (withFiles longPage) "mrbig".toList "wmi.cfg".toList) w'.conf []
        "localhost".toList fun _ _ => none := by
  refine ⟨_, rfl, fun hold => ?_⟩
  exact absurd hold.pages (by decide)

end MrBig.Guarantees.BufferBounds
