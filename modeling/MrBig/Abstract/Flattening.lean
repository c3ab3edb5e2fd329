import MrBig.Library.Acyclic
import MrBig.Library.Delimited
import MrBig.Source.ConfigStore
import MrBig.Source.Files

/-!
# The reference flattening of configuration files

What INSTALL says of headers and `.include`, without buffers: a file is its lines, a
section lasts to the next header of the same file, and an included file stands for its
own flattening, started in the section of the line that includes it.
-/

set_option autoImplicit false

namespace MrBig.Abstract
open Library Source

/-- The lines of a file, each cut at its first newline or carriage return. -/
def logicalLines (text : Text) : List Text :=
  (Delimited.pieces '\n' text).map fun line => line.takeWhile (· ≠ '\r')

def includeWord : Text := ".include ".toList

/-- What a line is for. -/
inductive LineKind where
  | nothing
  | header (name : Text)
  | inclusion (file : Text)
  | ordinary
  deriving DecidableEq, Repr

def lineKind (line : Text) : LineKind :=
  if line = [] ∨ line.head? = some '#' then .nothing
  else if line.head? = some '[' then .header (line.tail.takeWhile (· ≠ ']'))
  else if includeWord <+: line then .inclusion (line.drop includeWord.length)
  else .ordinary

/-- The `add_cfg` calls that lines stand for when they start in a section. -/
inductive Flattens (files : FileSys) : Text → List Text → List Add → Prop
  | done (category : Text) : Flattens files category [] []
  | skip {category line : Text} {rest : List Text} {adds : List Add}
      (kind : lineKind line = .nothing) (after : Flattens files category rest adds) :
      Flattens files category (line :: rest) adds
  | header {category line name : Text} {rest : List Text} {adds : List Add}
      (kind : lineKind line = .header name) (after : Flattens files name rest adds) :
      Flattens files category (line :: rest) adds
  | missing {category line g : Text} {rest : List Text} {adds : List Add}
      (kind : lineKind line = .inclusion g) (absent : files.read g = none)
      (after : Flattens files category rest adds) :
      Flattens files category (line :: rest) adds
  | included {category line g text : Text} {rest : List Text} {adds inner : List Add}
      (kind : lineKind line = .inclusion g) (there : files.read g = some text)
      (inside : Flattens files category (logicalLines text) inner)
      (after : Flattens files category rest adds) :
      Flattens files category (line :: rest) (inner ++ adds)
  | line {category line : Text} {rest : List Text} {adds : List Add}
      (kind : lineKind line = .ordinary) (after : Flattens files category rest adds) :
      Flattens files category (line :: rest) ((category, line) :: adds)

/-- The flattening of a file; a missing file contributes nothing. -/
def Flattening (files : FileSys) (category f : Text) (adds : List Add) : Prop :=
  match files.read f with
  | none => adds = []
  | some text => Flattens files category (logicalLines text) adds

/-- `f` has a line that includes `g`. -/
def Includes (files : FileSys) (f g : Text) : Prop :=
  ∃ text, files.read f = some text ∧ ∃ line ∈ logicalLines text, lineKind line = .inclusion g

def AcyclicIncludes (files : FileSys) : Prop := ∀ f, ¬ Relation.TransGen (Includes files) f f

theorem AcyclicIncludes.of_rank {files : FileSys} (rank : Text → Nat)
    (falls : ∀ f g, Includes files f g → rank g < rank f) : AcyclicIncludes files := by
  intro f cycle
  have below : ∀ g, Relation.TransGen (Includes files) f g → rank g < rank f := by
    intro g path
    induction path with
    | single step => exact falls f _ step
    | tail _ step ih => exact Nat.lt_trans (falls _ _ step) ih
  exact Nat.lt_irrefl _ (below f cycle)

/-- The kind of the first line decides the rule. -/
theorem Flattens.inversion {files : FileSys} {category line : Text} {rest : List Text}
    {adds : List Add} (flat : Flattens files category (line :: rest) adds) :
    match lineKind line with
    | .nothing => Flattens files category rest adds
    | .header name => Flattens files name rest adds
    | .inclusion g => ∃ inner after, Flattening files category g inner ∧
        Flattens files category rest after ∧ adds = inner ++ after
    | .ordinary => ∃ after, Flattens files category rest after ∧
        adds = (category, line) :: after := by
  cases flat with
  | skip kind after =>
    rw [kind]
    exact after
  | header kind after =>
    rw [kind]
    exact after
  | missing kind absent after =>
    rw [kind]
    exact ⟨[], adds, by rw [Flattening, absent], after, rfl⟩
  | included kind there inside after =>
    rw [kind]
    refine ⟨_, _, ?_, after, rfl⟩
    rw [Flattening, there]
    exact inside
  | line kind after =>
    rw [kind]
    exact ⟨_, after, rfl⟩

theorem Flattens.unique {files : FileSys} {category : Text} {lines : List Text}
    {first second : List Add} (one : Flattens files category lines first)
    (other : Flattens files category lines second) : first = second := by
  induction one generalizing second with
  | done =>
    cases other
    rfl
  | skip kind _ ih =>
    have same := other.inversion
    rw [kind] at same
    exact ih same
  | header kind _ ih =>
    have same := other.inversion
    rw [kind] at same
    exact ih same
  | missing kind absent _ ih =>
    have same := other.inversion
    rw [kind] at same
    obtain ⟨inner, after, inside, rest, rfl⟩ := same
    rw [Flattening, absent] at inside
    rw [inside, List.nil_append, ih rest]
  | included kind there _ _ ihInside ih =>
    have same := other.inversion
    rw [kind] at same
    obtain ⟨inner, after, inside, rest, rfl⟩ := same
    rw [Flattening, there] at inside
    rw [ihInside inside, ih rest]
  | line kind _ ih =>
    have same := other.inversion
    rw [kind] at same
    obtain ⟨after, rest, rfl⟩ := same
    rw [ih rest]

theorem Flattening.unique {files : FileSys} {category f : Text} {first second : List Add}
    (one : Flattening files category f first) (other : Flattening files category f second) :
    first = second := by
  unfold Flattening at one other
  cases found : files.read f with
  | none =>
    simp only [found] at one other
    rw [one, other]
  | some text =>
    simp only [found] at one other
    exact one.unique other

/-- Lines have a flattening as soon as every file they include has one. -/
theorem Flattens.exists_of_nested {files : FileSys} {lines : List Text}
    (nested : ∀ line ∈ lines, ∀ g, lineKind line = .inclusion g →
      ∀ category, ∃ adds, Flattening files category g adds) (category : Text) :
    ∃ adds, Flattens files category lines adds := by
  induction lines generalizing category with
  | nil => exact ⟨[], .done category⟩
  | cons line rest ih =>
    replace ih := ih fun l member => nested l (List.mem_cons_of_mem line member)
    cases kind : lineKind line with
    | nothing =>
      obtain ⟨adds, after⟩ := ih category
      exact ⟨adds, .skip kind after⟩
    | header name =>
      obtain ⟨adds, after⟩ := ih name
      exact ⟨adds, .header kind after⟩
    | ordinary =>
      obtain ⟨adds, after⟩ := ih category
      exact ⟨(category, line) :: adds, .line kind after⟩
    | inclusion g =>
      obtain ⟨adds, after⟩ := ih category
      obtain ⟨inner, inside⟩ := nested line (by simp) g kind category
      unfold Flattening at inside
      cases found : files.read g with
      | none => exact ⟨adds, .missing kind found after⟩
      | some text =>
        simp only [found] at inside
        exact ⟨inner ++ adds, .included kind found inside after⟩

/-- There are finitely many files. -/
theorem finite_read (files : FileSys) : {f | files.read f ≠ none}.Finite := by
  refine (files.map File.name).toFinset.finite_toSet.subset fun f there => ?_
  obtain ⟨text, found⟩ := Option.ne_none_iff_exists'.mp there
  simpa using ⟨_, FileSys.mem_of_read found, rfl⟩

theorem wellFounded_includes {files : FileSys} (acyclic : AcyclicIncludes files) :
    WellFounded fun g f => Includes files f g := by
  refine Acyclic.wellFounded_of_finite_sources (finite_read files) ?_ acyclic
  intro f g includes
  obtain ⟨text, there, -⟩ := includes
  simp [there]

/-- Without a cycle of includes every file has a flattening. -/
theorem Flattening.exists_of_acyclic {files : FileSys} (acyclic : AcyclicIncludes files)
    (category f : Text) : ∃ adds, Flattening files category f adds := by
  induction f using (wellFounded_includes acyclic).induction generalizing category with
  | h f ih =>
    unfold Flattening
    cases found : files.read f with
    | none => exact ⟨[], rfl⟩
    | some text =>
      exact Flattens.exists_of_nested (fun line member g kind category =>
        ih g ⟨text, found, line, member, kind⟩ category) category

end MrBig.Abstract
