import MrBig.Source.ExtTests

/-!
# Every file in the pickup directory is reported once

The directory is a mailbox with one place under each file name. Programs leave files there while
the agent goes through it; a file that is picked up and removed is gone, one that could not be
removed is picked up again.
-/

set_option autoImplicit false

namespace MrBig.Guarantees.Pickup
open Library Source

theorem read_drop_self (files : FileSys) (f : File) :
    (files.drop f).read f.name = some f.content := by
  rw [FileSys.drop, FileSys.read_append_self, FileSys.read_create_self]
  rfl

theorem read_drop_other {files : FileSys} {f : File} {other : Text} (different : other ≠ f.name) :
    (files.drop f).read other = files.read other := by
  rw [FileSys.drop, FileSys.read_append_other f.content different,
    FileSys.read_create_other different]

/-- The directory as a mailbox. -/
def mailbox : Mailbox.Store FileSys Text Text where
  read := FileSys.read
  put := fun files name content => files.drop ⟨name, content⟩
  remove := FileSys.remove
  read_put_self := fun files name content => read_drop_self files ⟨name, content⟩
  read_put_other := fun _ _ _ _ different => read_drop_other different
  read_remove_self := FileSys.read_remove_self
  read_remove_other := fun _ _ _ different => FileSys.read_remove_other different

/-! ### One event -/

/-- What `pickup_file` reads, if it gets at its file. -/
def gotten (g : PickupGlobals) (fn : Text) (fopen : Bool) (files : FileSys) : Option Text :=
  if g.noExt = false ∧ fopen = true then files.read fn else none

theorem pickupFile_eq (g : PickupGlobals) (fn : Text) (fopen removes : Bool)
    (files later : FileSys) :
    pickupFile g fn fopen removes files later =
      match gotten g fn fopen files with
      | none => (later, none)
      | some content =>
        (if removes then later.remove fn else later,
          some ⟨fn, content, pickupReport g fn content⟩) := by
  unfold pickupFile gotten
  by_cases noExt : g.noExt = true
  · simp [noExt]
  · by_cases opened : fopen = true
    · cases files.read fn <;> simp [noExt, opened]
    · simp [opened]

/-- The files that programs leave in the course of an event. -/
def drops : DirEvent → List File
  | .drop f => [f]
  | .pick _ _ _ _ meanwhile => meanwhile

/-- What is left under a name. -/
def leftUnder (name : Text) (fs : List File) : List Text :=
  fs.filterMap fun f => if f.name = name then some f.content else none

theorem mem_leftUnder {name content : Text} {fs : List File} :
    content ∈ leftUnder name fs ↔ ⟨name, content⟩ ∈ fs := by
  unfold leftUnder
  rw [List.mem_filterMap]
  constructor
  · rintro ⟨f, inside, given⟩
    split at given
    next same =>
      obtain rfl := Option.some.inj given
      exact same ▸ inside
    next => cases given
  · intro inside
    exact ⟨_, inside, if_pos rfl⟩

/-- The last file left under a name lies there, or what lay there before. -/
theorem read_foldl_drop (files : FileSys) (name : Text) (fs : List File) :
    (fs.foldl FileSys.drop files).read name =
      (leftUnder name fs).getLast?.or (files.read name) := by
  induction fs using List.reverseRecOn with
  | nil => rfl
  | append_singleton fs f ih =>
    unfold leftUnder at ih ⊢
    rw [List.foldl_append, List.filterMap_append]
    by_cases same : f.name = name
    · have last : [f].filterMap (fun f => if f.name = name then some f.content else none) =
          [f.content] := by simp [same]
      rw [last, List.getLast?_concat, ← same]
      exact read_drop_self _ f
    · have nothing : [f].filterMap (fun f => if f.name = name then some f.content else none) = [] :=
        by simp [same]
      rw [nothing, List.append_nil, ← ih]
      exact read_drop_other (Ne.symm same)

/-! ### Runs of the directory -/

def put (f : File) : Mailbox.Event Text Text := .put f.name f.content

/-- What happens to the mailbox in the course of an event. -/
def toEvents (files : FileSys) : DirEvent → List (Mailbox.Event Text Text)
  | .drop f => [put f]
  | .pick g fn fopen removes meanwhile =>
    meanwhile.map put ++ if (gotten g fn fopen files).isSome then [.take fn removes] else []

theorem final_puts (files : FileSys) (fs : List File) :
    Mailbox.final mailbox files (fs.map put) = fs.foldl FileSys.drop files :=
  List.foldl_map

theorem dirStep_files (files : FileSys) (e : DirEvent) :
    (dirStep files e).1 = Mailbox.final mailbox files (toEvents files e) := by
  cases e with
  | drop f => rfl
  | pick g fn fopen removes meanwhile =>
    unfold dirStep toEvents
    dsimp only
    rw [pickupFile_eq, Mailbox.final_append, final_puts]
    cases gotten g fn fopen files <;> rfl

/-- What each event of a run makes of a list, one after the other. -/
def collect {α : Type} (f : FileSys → DirEvent → List α) : FileSys → List DirEvent → List α
  | _, [] => []
  | files, e :: rest => f files e ++ collect f (dirStep files e).1 rest

theorem final_eq (files : FileSys) (events : List DirEvent) :
    Run.final dirStep files events =
      Mailbox.final mailbox files (collect toEvents files events) := by
  induction events generalizing files with
  | nil => rfl
  | cons e rest ih => rw [Run.final_cons, ih, collect, Mailbox.final_append, dirStep_files]

/-- What is left in the directory under a name. -/
def dropped (name : Text) (events : List DirEvent) : List Text :=
  leftUnder name (events.flatMap drops)

/-- What a pickup removes under a name. -/
def removedFor (name : Text) (files : FileSys) : DirEvent → List Text
  | .drop _ => []
  | .pick g fn fopen removes meanwhile =>
    match (dirStep files (.pick g fn fopen removes meanwhile)).2 with
    | none => []
    | some _ =>
      if fn = name ∧ removes = true then ((meanwhile.foldl FileSys.drop files).read name).toList
      else []

/-- What files that are left one after the other replace under a name. -/
def replaces (name : Text) : FileSys → List File → List Text
  | _, [] => []
  | files, f :: rest =>
    (if f.name = name then (files.read name).toList else []) ++ replaces name (files.drop f) rest

def replacedFor (name : Text) (files : FileSys) (e : DirEvent) : List Text :=
  replaces name files (drops e)

theorem cleared_puts (name : Text) (files : FileSys) (fs : List File) :
    Mailbox.cleared mailbox name files (fs.map put) = [] := by
  induction fs generalizing files with
  | nil => rfl
  | cons f rest ih => exact ih (files.drop f)

theorem overwritten_puts (name : Text) (files : FileSys) (fs : List File) :
    Mailbox.overwritten mailbox name files (fs.map put) = replaces name files fs := by
  induction fs generalizing files with
  | nil => rfl
  | cons f rest ih => exact congrArg _ (ih (files.drop f))

theorem puts_puts (name : Text) (fs : List File) :
    Mailbox.puts name (fs.map put) = leftUnder name fs := by
  unfold Mailbox.puts leftUnder
  rw [List.filterMap_map]
  rfl

theorem removedFor_eq (name : Text) (files : FileSys) (e : DirEvent) :
    Mailbox.cleared mailbox name files (toEvents files e) = removedFor name files e := by
  cases e with
  | drop f => rfl
  | pick g fn fopen removes meanwhile =>
    unfold removedFor toEvents dirStep
    dsimp only
    rw [Mailbox.cleared_append, cleared_puts, final_puts, List.nil_append, pickupFile_eq]
    cases there : gotten g fn fopen files with
    | none => rfl
    | some content => exact List.append_nil _

theorem replacedFor_eq (name : Text) (files : FileSys) (e : DirEvent) :
    Mailbox.overwritten mailbox name files (toEvents files e) = replacedFor name files e := by
  cases e with
  | drop f => rfl
  | pick g fn fopen removes meanwhile =>
    unfold toEvents
    dsimp only
    rw [Mailbox.overwritten_append, overwritten_puts]
    cases gotten g fn fopen files <;> exact List.append_nil _

theorem collect_eq {f : FileSys → DirEvent → List Text}
    (total : FileSys → List (Mailbox.Event Text Text) → List Text)
    (nil : ∀ files, total files [] = [])
    (append : ∀ files first second, total files (first ++ second) =
      total files first ++ total (Mailbox.final mailbox files first) second)
    (each : ∀ files e, total files (toEvents files e) = f files e)
    (files : FileSys) (events : List DirEvent) :
    total files (collect toEvents files events) = collect f files events := by
  induction events generalizing files with
  | nil => exact nil files
  | cons e rest ih => rw [collect, collect, append, each, ← dirStep_files, ih]

theorem puts_toEvents (name : Text) (files : FileSys) (e : DirEvent) :
    Mailbox.puts name (toEvents files e) = leftUnder name (drops e) := by
  cases e with
  | drop f => exact puts_puts name [f]
  | pick g fn fopen removes meanwhile =>
    unfold toEvents
    dsimp only
    rw [Mailbox.puts_append, puts_puts]
    cases gotten g fn fopen files <;> exact List.append_nil _

theorem dropped_eq (name : Text) (files : FileSys) (events : List DirEvent) :
    Mailbox.puts name (collect toEvents files events) = dropped name events := by
  induction events generalizing files with
  | nil => rfl
  | cons e rest ih =>
    rw [collect, Mailbox.puts_append, ih, puts_toEvents, dropped, dropped, List.flatMap_cons,
      leftUnder, leftUnder, leftUnder, List.filterMap_append]

/-- What a pickup reports is what lay there when the file was read. -/
theorem picked_content {g : PickupGlobals} {fn : Text} {fopen removes : Bool}
    {meanwhile : List File} {files : FileSys} {p : PickedUp}
    (output : (dirStep files (.pick g fn fopen removes meanwhile)).2 = some p) :
    p.fn = fn ∧ gotten g fn fopen files = some p.content ∧ files.read fn = some p.content ∧
      p.report = pickupReport g fn p.content := by
  unfold dirStep at output
  dsimp only at output
  rw [pickupFile_eq] at output
  cases there : gotten g fn fopen files with
  | none =>
    rw [there] at output
    cases output
  | some content =>
    rw [there] at output
    obtain rfl := Option.some.inj output
    refine ⟨rfl, rfl, ?_, rfl⟩
    unfold gotten at there
    split at there
    · exact there
    · cases there

/-- The place of a file that is picked up: what is removed from it, or else lies there, is the file
that was read, or the last one left under its name since. -/
theorem picked_place {g : PickupGlobals} {name : Text} {fopen removes : Bool}
    {meanwhile : List File} {files : FileSys} {p : PickedUp}
    (output : (dirStep files (.pick g name fopen removes meanwhile)).2 = some p) :
    let last := (leftUnder name meanwhile).getLast?.getD p.content
    removedFor name files (.pick g name fopen removes meanwhile) =
        (if removes then [last] else []) ∧
      (dirStep files (.pick g name fopen removes meanwhile)).1.read name =
        if removes then none else some last := by
  intro last
  obtain ⟨-, got, there, -⟩ := picked_content output
  have lies : (meanwhile.foldl FileSys.drop files).read name = some last := by
    rw [read_foldl_drop, there]
    cases given : (leftUnder name meanwhile).getLast? <;> simp [last, given]
  have after : (dirStep files (.pick g name fopen removes meanwhile)).1 =
      if removes then (meanwhile.foldl FileSys.drop files).remove name
      else meanwhile.foldl FileSys.drop files := by
    unfold dirStep
    dsimp only
    rw [pickupFile_eq, got]
  rw [removedFor, output, after, lies]
  cases removes with
  | false => exact ⟨by simp, lies⟩
  | true => exact ⟨by simp, FileSys.read_remove_self _ name⟩

/-- In every run in which other programs leave files while the agent picks up, also between the
reading of a file and its `remove`: every file left under a name was removed by the agent once, lies
there still, or was replaced by another, and the files of a name are removed in the order they were
left. A pickup reports the file that lay there when it was read; what it removes, or leaves there
where its `remove` fails, is that file, or the last one left under its name in between. -/
theorem picked_up_once (files : FileSys) (events : List DirEvent) (name : Text) :
    (((files.read name).toList ++ dropped name events).Perm
        (collect (removedFor name) files events ++
          ((Run.final dirStep files events).read name).toList ++
          collect (replacedFor name) files events) ∧
      (collect (removedFor name) files events ++
          ((Run.final dirStep files events).read name).toList).Sublist
        ((files.read name).toList ++ dropped name events)) ∧
    ∀ before g fopen removes meanwhile after p,
      events = before ++ .pick g name fopen removes meanwhile :: after →
      (dirStep (Run.final dirStep files before) (.pick g name fopen removes meanwhile)).2 =
        some p →
      (Run.final dirStep files before).read name = some p.content ∧
        p.report = pickupReport g name p.content ∧
        let last := (leftUnder name meanwhile).getLast?.getD p.content
        removedFor name (Run.final dirStep files before) (.pick g name fopen removes meanwhile) =
            (if removes then [last] else []) ∧
          (Run.final dirStep files (before ++ [.pick g name fopen removes meanwhile])).read name =
            if removes then none else some last := by
  refine ⟨?_, fun before g fopen removes meanwhile after p _ output => ?_⟩
  · have removals := collect_eq (Mailbox.cleared mailbox name) (fun _ => rfl)
      (Mailbox.cleared_append mailbox name) (removedFor_eq name) files events
    have replacements := collect_eq (Mailbox.overwritten mailbox name) (fun _ => rfl)
      (Mailbox.overwritten_append mailbox name) (replacedFor_eq name) files events
    rw [← removals, ← replacements, ← dropped_eq name files, final_eq]
    exact Mailbox.conservation mailbox name files (collect toEvents files events)
  · obtain ⟨-, -, there, report⟩ := picked_content output
    obtain ⟨removed, lies⟩ := picked_place output
    refine ⟨there, report, removed, ?_⟩
    rw [Run.final_concat]
    exact lies

/-! ### One pass of the pickup -/

/-- The names that `pickup` comes to, in order. -/
def listed (events : List DirEvent) : List Text :=
  events.filterMap fun
    | .drop _ => none
    | .pick _ fn _ _ _ => some fn

/-- No pickup fails. -/
def Works (events : List DirEvent) : Prop :=
  ∀ g fn fopen removes meanwhile, DirEvent.pick g fn fopen removes meanwhile ∈ events →
    g.noExt = false ∧ fopen = true ∧ removes = true

theorem Works.head {e : DirEvent} {rest : List DirEvent} (works : Works (e :: rest)) :
    Works [e] := fun g fn fopen removes meanwhile inside =>
  works g fn fopen removes meanwhile (by simp [List.mem_singleton.mp inside])

theorem Works.tail {e : DirEvent} {rest : List DirEvent} (works : Works (e :: rest)) :
    Works rest := fun g fn fopen removes meanwhile inside =>
  works g fn fopen removes meanwhile (List.mem_cons_of_mem e inside)

/-- A file that a program leaves in the course of a run. -/
def LeftDuring (events : List DirEvent) (name content : Text) : Prop :=
  ∃ e ∈ events, ⟨name, content⟩ ∈ drops e

theorem LeftDuring.later {e : DirEvent} {rest : List DirEvent} {name content : Text}
    (left : LeftDuring rest name content) : LeftDuring (e :: rest) name content := by
  obtain ⟨e', inside, given⟩ := left
  exact ⟨e', List.mem_cons_of_mem e inside, given⟩

/-- What lies under a name once files were left. -/
theorem read_drops {files : FileSys} {fs : List File} {name content : Text}
    (there : (fs.foldl FileSys.drop files).read name = some content) :
    ⟨name, content⟩ ∈ fs ∨ files.read name = some content := by
  rw [read_foldl_drop] at there
  cases last : (leftUnder name fs).getLast? with
  | none =>
    rw [last] at there
    exact Or.inr there
  | some newest =>
    rw [last] at there
    obtain rfl := Option.some.inj there
    exact Or.inl (mem_leftUnder.mp (List.mem_of_getLast? last))

theorem dirStep_pick {g : PickupGlobals} {fopen : Bool} (gets : g.noExt = false ∧ fopen = true)
    (fn : Text) (meanwhile : List File) (files : FileSys) :
    dirStep files (.pick g fn fopen true meanwhile) =
      match files.read fn with
      | none => (meanwhile.foldl FileSys.drop files, none)
      | some content => ((meanwhile.foldl FileSys.drop files).remove fn,
          some ⟨fn, content, pickupReport g fn content⟩) := by
  unfold dirStep
  dsimp only
  rw [pickupFile_eq, gotten, if_pos gets]
  rfl

/-- A pickup of another name leaves what lies there to the files left meanwhile. -/
theorem read_after_other {g : PickupGlobals} {fopen : Bool}
    (gets : g.noExt = false ∧ fopen = true) {fn name : Text} (other : name ≠ fn)
    (meanwhile : List File) (files : FileSys) :
    (dirStep files (.pick g fn fopen true meanwhile)).1.read name =
      (meanwhile.foldl FileSys.drop files).read name := by
  rw [dirStep_pick gets]
  cases files.read fn with
  | none => rfl
  | some content => exact FileSys.read_remove_other other

/-- What lies there after an event was left in its course, or lay there and was not come to. -/
theorem left_by_event {e : DirEvent} {files : FileSys} (works : Works [e]) {name content : Text}
    (there : (dirStep files e).1.read name = some content) :
    ⟨name, content⟩ ∈ drops e ∨ (files.read name = some content ∧ name ∉ listed [e]) := by
  cases e with
  | drop f =>
    exact (@read_drops files [f] name content there).imp_right fun lay =>
      ⟨lay, by simp [listed]⟩
  | pick g fn fopen removes meanwhile =>
    obtain ⟨noExt, opened, rfl⟩ := works g fn fopen removes meanwhile List.mem_cons_self
    by_cases same : name = fn
    · subst same
      rw [dirStep_pick ⟨noExt, opened⟩] at there
      cases lay : files.read name with
      | none =>
        rw [lay] at there
        exact Or.inl ((read_drops there).resolve_right (by simp [lay]))
      | some _ =>
        rw [lay] at there
        rw [show _ = none from FileSys.read_remove_self _ name] at there
        cases there
    · rw [read_after_other ⟨noExt, opened⟩ same] at there
      exact (read_drops there).imp_right fun lay => ⟨lay, by simp [listed, same]⟩

theorem listed_cons (e : DirEvent) (rest : List DirEvent) :
    listed (e :: rest) = listed [e] ++ listed rest := by
  unfold listed
  rw [← List.filterMap_append, List.singleton_append]

/-- What lies there after a pass was left in its course, or was never come to. -/
theorem left_over {files : FileSys} {events : List DirEvent} (works : Works events)
    {name content : Text}
    (there : (Run.final dirStep files events).read name = some content) :
    LeftDuring events name content ∨ (files.read name = some content ∧ name ∉ listed events) := by
  induction events generalizing files with
  | nil => exact Or.inr ⟨there, by simp [listed]⟩
  | cons e rest ih =>
    rw [Run.final_cons] at there
    rcases ih works.tail there with later | ⟨lies, never⟩
    · exact Or.inl later.later
    · rcases left_by_event works.head lies with during | ⟨lay, neverHere⟩
      · exact Or.inl ⟨e, List.mem_cons_self, during⟩
      · rw [listed_cons, List.mem_append]
        exact Or.inr ⟨lay, not_or.mpr ⟨neverHere, never⟩⟩

/-- What lies there and is not come to still lies there after an event, or what replaced it. -/
theorem stays_in_event {e : DirEvent} {files : FileSys} (works : Works [e]) {name content : Text}
    (there : files.read name = some content) (never : name ∉ listed [e]) :
    ∃ content', (dirStep files e).1.read name = some content' ∧
      (content' = content ∨ ⟨name, content'⟩ ∈ drops e) := by
  have lies : ∃ content', ((drops e).foldl FileSys.drop files).read name = some content' := by
    rw [read_foldl_drop, there]
    cases (leftUnder name (drops e)).getLast? <;> exact ⟨_, rfl⟩
  obtain ⟨content', lies⟩ := lies
  have origin : content' = content ∨ ⟨name, content'⟩ ∈ drops e := by
    rcases read_drops lies with left | lay
    · exact Or.inr left
    · exact Or.inl (Option.some.inj (lay.symm.trans there))
  refine ⟨content', ?_, origin⟩
  cases e with
  | drop f => exact lies
  | pick g fn fopen removes meanwhile =>
    obtain ⟨noExt, opened, rfl⟩ := works g fn fopen removes meanwhile List.mem_cons_self
    have other : name ≠ fn := fun same => never (by simp [listed, same])
    rw [read_after_other ⟨noExt, opened⟩ other]
    exact lies

/-- A file that is come to is picked up, or one that was left under its name in the meantime. -/
theorem picked {files : FileSys} {events : List DirEvent} (works : Works events)
    {name content : Text} (there : files.read name = some content) (comes : name ∈ listed events) :
    ∃ g fopen removes meanwhile content',
      DirEvent.pick g name fopen removes meanwhile ∈ events ∧
      some ⟨name, content', pickupReport g name content'⟩ ∈ Run.outputs dirStep files events ∧
      (content' = content ∨ LeftDuring events name content') := by
  induction events generalizing files content with
  | nil => simp [listed] at comes
  | cons e rest ih =>
    rw [Run.outputs_cons]
    by_cases now : name ∈ listed [e]
    · cases e with
      | drop f => simp [listed] at now
      | pick g fn fopen removes meanwhile =>
        obtain rfl : name = fn := by simpa [listed] using now
        obtain ⟨noExt, opened, rfl⟩ := works.head g name fopen removes meanwhile List.mem_cons_self
        have output : (dirStep files (.pick g name fopen true meanwhile)).2 =
            some ⟨name, content, pickupReport g name content⟩ := by
          rw [dirStep_pick ⟨noExt, opened⟩, there]
        refine ⟨g, fopen, true, meanwhile, content, List.mem_cons_self, ?_, Or.inl rfl⟩
        rw [output]
        exact List.mem_cons_self
    · obtain ⟨content', lies, origin⟩ := stays_in_event works.head there now
      have later : name ∈ listed rest := by
        rw [listed_cons, List.mem_append] at comes
        exact comes.resolve_left now
      obtain ⟨g, fopen, removes, meanwhile, content'', event, output, origin'⟩ :=
        ih works.tail lies later
      refine ⟨g, fopen, removes, meanwhile, content'', List.mem_cons_of_mem _ event,
        List.mem_cons_of_mem _ output, ?_⟩
      rcases origin' with newest | newer
      · rcases origin with first | left
        · exact Or.inl (newest.trans first)
        · exact Or.inr ⟨e, List.mem_cons_self, newest ▸ left⟩
      · exact Or.inr newer.later

/-- A report is made of a file whose part that is read has a line end. -/
theorem pickupReport_isSome_iff (g : PickupGlobals) (fn content : Text) :
    (pickupReport g fn content).isSome ↔ '\n' ∈ pickupBuffer g content := by
  unfold pickupReport
  cases cut : Delimited.cut '\n' (pickupBuffer g content) with
  | none => simpa using Delimited.cut_eq_none_iff.mp cut
  | some pair =>
    obtain ⟨whole, -⟩ := Delimited.eq_of_cut cut
    simp [whole]

/-- A pass in which the enumeration comes to every file that lies there and no pickup fails,
while other programs leave more files: every file that lay there is picked up, or one that has
replaced it under its name, and reported exactly if what is read of it has a line end; and what
lies there afterwards was left during the pass. -/
theorem pass_leaves_nothing {files : FileSys} {events : List DirEvent} (works : Works events)
    (all : ∀ name, (files.read name).isSome → name ∈ listed events) :
    (∀ name content, files.read name = some content →
      ∃ g fopen removes meanwhile content',
        DirEvent.pick g name fopen removes meanwhile ∈ events ∧
        some ⟨name, content', pickupReport g name content'⟩ ∈ Run.outputs dirStep files events ∧
        (content' = content ∨ LeftDuring events name content') ∧
        ((pickupReport g name content').isSome ↔ '\n' ∈ pickupBuffer g content')) ∧
    ∀ name content, (Run.final dirStep files events).read name = some content →
      LeftDuring events name content := by
  refine ⟨fun name content there => ?_, fun name content there => ?_⟩
  · obtain ⟨g, fopen, removes, meanwhile, content', event, output, origin⟩ :=
      picked works there (all name (by simp [there]))
    exact ⟨g, fopen, removes, meanwhile, content', event, output, origin,
      pickupReport_isSome_iff g name content'⟩
  · rcases left_over works there with during | ⟨before, never⟩
    · exact during
    · exact absurd (all name (by simp [before])) never

/-! ### A pass over two files -/

def pickupGlobals : PickupGlobals := ⟨[], "localhost".toList, "now".toList, 16384⟩

def twoFiles : FileSys := [⟨"db1.backup".toList, "green\nall fine\n".toList⟩,
  ⟨"queue".toList, "red\nstuck\n".toList⟩]

/-- The second file is replaced once it has been read. -/
def onePass : List DirEvent :=
  [.pick pickupGlobals "db1.backup".toList true true [],
    .pick pickupGlobals "queue".toList true true
      [⟨"queue".toList, "green\nmoving again\n".toList⟩]]

theorem onePass_once :
    removedFor "queue".toList (Run.final dirStep twoFiles (onePass.take 1))
        (.pick pickupGlobals "queue".toList true true
          [⟨"queue".toList, "green\nmoving again\n".toList⟩]) =
      if true then ["green\nmoving again\n".toList] else [] :=
  ((picked_up_once twoFiles onePass "queue".toList).2 (onePass.take 1) pickupGlobals true true
    [⟨"queue".toList, "green\nmoving again\n".toList⟩] []
    ⟨"queue".toList, "red\nstuck\n".toList,
      pickupReport pickupGlobals "queue".toList "red\nstuck\n".toList⟩ rfl (by decide)).2.2.1

theorem onePass_leaves_nothing :
    (∀ name content, twoFiles.read name = some content →
      ∃ g fopen removes meanwhile content',
        DirEvent.pick g name fopen removes meanwhile ∈ onePass ∧
        some ⟨name, content', pickupReport g name content'⟩ ∈
          Run.outputs dirStep twoFiles onePass ∧
        (content' = content ∨ LeftDuring onePass name content') ∧
        ((pickupReport g name content').isSome ↔ '\n' ∈ pickupBuffer g content')) ∧
    ∀ name content, (Run.final dirStep twoFiles onePass).read name = some content →
      LeftDuring onePass name content := by
  refine pass_leaves_nothing ?_ ?_
  · intro g fn fopen removes meanwhile inside
    simp only [onePass, List.mem_cons, DirEvent.pick.injEq, List.not_mem_nil, or_false] at inside
    rcases inside with ⟨rfl, -, rfl, rfl, -⟩ | ⟨rfl, -, rfl, rfl, -⟩ <;> exact ⟨by decide, rfl, rfl⟩
  · intro name there
    obtain ⟨content, found⟩ := Option.isSome_iff_exists.mp there
    have inside := FileSys.mem_of_read found
    simp only [twoFiles, List.mem_cons, File.mk.injEq, List.not_mem_nil, or_false] at inside
    rcases inside with ⟨rfl, -⟩ | ⟨rfl, -⟩ <;> decide

end MrBig.Guarantees.Pickup
