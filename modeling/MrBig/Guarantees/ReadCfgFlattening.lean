import Mathlib.Data.List.TakeWhile
import MrBig.Abstract.Flattening
import MrBig.Source.ReadCfg

/-!
# `read_cfg` performs the reference flattening

For files with short lines and section names, no NUL and no network directives, whose
includes form no cycle, `read_cfg` returns and its `add_cfg` calls are those of the
reference flattening. The run of `read_cfg` follows the derivation of the flattening;
that there is one rests on the include graph.
-/

set_option autoImplicit false

namespace MrBig.Guarantees.ReadCfgFlattening
open Library Source Abstract

/-! ### Buffers and lines -/

theorem fgets_line {line : Text} (plain : '\n' ∉ line) (rest : Text) {room : Nat}
    (fits : line.length < room) :
    fgets room (line ++ '\n' :: rest) = (line ++ ['\n'], rest) := by
  induction line generalizing room with
  | nil =>
    obtain ⟨room, rfl⟩ := Nat.exists_eq_succ_of_ne_zero (Nat.ne_of_gt fits)
    rfl
  | cons c line ih =>
    obtain ⟨room, rfl⟩ := Nat.exists_eq_succ_of_ne_zero (Nat.ne_of_gt (Nat.zero_lt_of_lt fits))
    have other : c ≠ '\n' := fun same => plain (by simp [same])
    have restPlain : '\n' ∉ line := fun inside => plain (List.mem_cons_of_mem c inside)
    rw [List.cons_append, Nat.succ_eq_add_one, fgets, if_neg other,
      ih restPlain (by simpa using fits)]
    rfl

theorem fgets_last {line : Text} (plain : '\n' ∉ line) {room : Nat} (fits : line.length ≤ room) :
    fgets room line = (line, []) := by
  induction line generalizing room with
  | nil => cases room <;> rfl
  | cons c line ih =>
    obtain ⟨room, rfl⟩ := Nat.exists_eq_succ_of_ne_zero (Nat.ne_of_gt (Nat.lt_of_lt_of_le
      (Nat.succ_pos line.length) fits))
    have other : c ≠ '\n' := fun same => plain (by simp [same])
    have restPlain : '\n' ∉ line := fun inside => plain (List.mem_cons_of_mem c inside)
    rw [Nat.succ_eq_add_one, fgets, if_neg other, ih restPlain (by simpa using fits)]

theorem takeWhile_of_notMem {c : Char} {text : Text} (absent : c ∉ text) :
    text.takeWhile (· ≠ c) = text :=
  List.takeWhile_eq_self_iff.mpr fun a member => by
    simpa using fun same : a = c => absent (same ▸ member)

theorem chomp_line {line : Text} (plain : '\n' ∉ line) :
    chomp (line ++ ['\n']) = line.takeWhile (· ≠ '\r') ∧
      chomp line = line.takeWhile (· ≠ '\r') := by
  constructor
  · rw [chomp, List.takeWhile_append_of_pos (by
      intro a member
      simpa using fun same : a = '\n' => plain (same ▸ member))]
    simp
  · rw [chomp, takeWhile_of_notMem plain]

@[simp] theorem fgetsAll_nil (size fuel : Nat) : fgetsAll size fuel [] = [] := by
  cases fuel <;> rfl

theorem fgetsAll_succ (size fuel : Nat) {stream : Text} (nonempty : stream ≠ []) :
    fgetsAll size (fuel + 1) stream =
      (fgets (size - 1) stream).1.takeWhile (· ≠ '\x00') ::
        fgetsAll size fuel (fgets (size - 1) stream).2 := by
  cases stream with
  | nil => exact absurd rfl nonempty
  | cons c stream => rfl

/-- Chomped, the buffers of a file with short lines are its lines. -/
theorem fgetsAll_lines (size : Nat) {fuel : Nat} {text : Text} (noNul : '\x00' ∉ text)
    (short : ∀ line ∈ Delimited.pieces '\n' text, line.length + 1 < size)
    (enough : text.length ≤ fuel) :
    (fgetsAll size fuel text).map chomp = logicalLines text := by
  induction fuel generalizing text with
  | zero =>
    obtain rfl := List.eq_nil_of_length_eq_zero (Nat.le_zero.mp enough)
    rfl
  | succ fuel ih =>
    by_cases empty : text = []
    · rw [empty]
      rfl
    rw [fgetsAll_succ size fuel empty, logicalLines]
    cases placed : Delimited.cut '\n' text with
    | none =>
      have plain := Delimited.cut_eq_none_iff.mp placed
      rw [Delimited.pieces_of_notMem plain empty] at short ⊢
      have fits : text.length + 1 < size := short text (by simp)
      rw [fgets_last plain (by omega), takeWhile_of_notMem noNul, fgetsAll_nil, List.map_cons,
        List.map_cons, (chomp_line plain).2]
      rfl
    | some pair =>
      obtain ⟨line, rest⟩ := pair
      obtain ⟨rfl, plain⟩ := Delimited.eq_of_cut placed
      rw [Delimited.pieces_append plain] at short ⊢
      have fits : line.length + 1 < size := short line (by simp)
      have lineNul : '\x00' ∉ line ++ ['\n'] := by
        simp only [List.mem_append, List.mem_cons, not_or] at noNul ⊢
        exact ⟨noNul.1, noNul.2.1, by simp⟩
      have restNul : '\x00' ∉ rest := by
        simp only [List.mem_append, List.mem_cons, not_or] at noNul
        exact noNul.2.2
      rw [fgets_line plain rest (by omega), takeWhile_of_notMem lineNul, List.map_cons,
        List.map_cons, (chomp_line plain).1]
      congr 1
      apply ih restNul (fun l member => short l (List.mem_cons_of_mem line member))
      simp only [List.length_append, List.length_cons] at enough
      exact Nat.le_trans (Nat.le_add_left rest.length line.length) (by omega)

/-! ### One line -/

/-- A line that no buffer cuts and that is not about the network. -/
structure PlainLine (line : Text) : Prop where
  name : ∀ name, lineKind line = .header name → name.length < 100
  noBind : ¬ ".bind ".toList <+: line
  noConfig : ¬ ".config ".toList <+: line

instance (line : Text) : Decidable (∀ name, lineKind line = .header name → name.length < 100) :=
  match lineKind line with
  | .header name => decidable_of_iff (name.length < 100) (by simp)
  | .nothing | .inclusion _ | .ordinary => isTrue (by simp)

instance (line : Text) : Decidable (PlainLine line) :=
  decidable_of_iff (_ ∧ _ ∧ _) ⟨fun h => ⟨h.1, h.2.1, h.2.2⟩, fun h => ⟨h.1, h.2, h.3⟩⟩

structure PlainFile (text : Text) : Prop where
  noNul : '\x00' ∉ text
  short : ∀ line ∈ Delimited.pieces '\n' text, line.length < 999
  lines : ∀ line ∈ logicalLines text, PlainLine line

instance (text : Text) : Decidable (PlainFile text) :=
  decidable_of_iff (_ ∧ _ ∧ _) ⟨fun h => ⟨h.1, h.2.1, h.2.2⟩, fun h => ⟨h.1, h.2, h.3⟩⟩

theorem takeWhile_take {p : Char → Bool} {n : Nat} {text : Text}
    (fits : (text.takeWhile p).length ≤ n) : (text.take n).takeWhile p = text.takeWhile p := by
  rw [← List.take_takeWhile, List.take_of_length_le fits]

/-- A line does what its kind says. -/
theorem readLine_of_kind {nested : World → Text → Text → Option World} (w : World)
    (category b : Text) (plain : PlainLine (chomp b)) :
    readLine World.recvCfg nested w category b =
      match lineKind (chomp b) with
      | .nothing => some (w, category)
      | .header name => some (w, name)
      | .inclusion g => (nested w category g).map fun w => (w, category)
      | .ordinary => some (w.add category (chomp b), category) := by
  unfold readLine
  generalize chomp b = line at *
  dsimp only
  rw [if_neg plain.noBind, if_neg plain.noConfig]
  by_cases skipped : line = [] ∨ line.head? = some '#'
  · have kind : lineKind line = .nothing := if_pos skipped
    rw [kind]
    rcases skipped with rfl | comment
    · rfl
    · have header : ¬ line.head? = some '[' := by simp [comment]
      have inclusion : ¬ ".include ".toList <+: line := by
        rintro ⟨rest, rfl⟩
        cases comment
      rw [if_neg header, if_neg inclusion, if_neg fun ordinary => ordinary.2 comment]
      rfl
  by_cases header : line.head? = some '['
  · have kind : lineKind line = .header (line.tail.takeWhile (· ≠ ']')) := by
      rw [lineKind, if_neg skipped, if_pos header]
    have short := plain.name _ kind
    rw [if_pos header, kind, strlcpy, takeWhile_take (Nat.le_of_lt_succ short)]
    rfl
  rw [if_neg header]
  by_cases inclusion : ".include ".toList <+: line
  · have kind : lineKind line = .inclusion (line.drop 9) := by
      rw [lineKind, if_neg skipped, if_neg header]
      exact if_pos inclusion
    rw [if_pos inclusion, kind]
    dsimp only
    cases nested w category (line.drop 9) <;> rfl
  · have kind : lineKind line = .ordinary := by
      rw [lineKind, if_neg skipped, if_neg header]
      exact if_neg inclusion
    rw [if_neg inclusion, if_pos (not_or.mp skipped), kind]
    rfl

/-! ### Whole files -/

/-- The world after the calls of `add_cfg` in `adds`. -/
def World.addAll (w : World) (adds : List Add) : World :=
  { w with conf := Source.addAll w.conf adds, added := w.added ++ adds }

@[simp] theorem World.addAll_nil (w : World) : World.addAll w [] = w := by
  simp [World.addAll, Source.addAll]

@[simp] theorem World.addAll_append (w : World) (first second : List Add) :
    World.addAll (World.addAll w first) second = World.addAll w (first ++ second) := by
  simp [World.addAll, Source.addAll]

@[simp] theorem World.addAll_add (w : World) (category line : Text) (adds : List Add) :
    World.addAll (w.add category line) adds = World.addAll w ((category, line) :: adds) := by
  simp [World.addAll, World.add, Source.addAll]

theorem PlainFile.fileLines {text : Text} (plain : PlainFile text) :
    (fileLines 1000 text).map chomp = logicalLines text :=
  fgetsAll_lines 1000 plain.noNul (fun line member => Nat.succ_lt_succ (plain.short line member))
    (Nat.le_refl text.length)

/-- `read_cfg` on a plain file is the reading of its lines. -/
theorem readCfg_succ (depth : Nat) {w : World} {category f text : Text}
    (there : w.files.read f = some text) (short : category.length < 100) :
    readCfg (depth + 1) w category f =
      readLines World.recvCfg (readCfg depth) w category (Source.fileLines 1000 text) := by
  rw [readCfg, there, strlcpy, List.take_of_length_le (Nat.le_of_lt_succ short)]

/-- The step of `readLines` on a line of which the kind is known. -/
theorem readLines_cons {nested : World → Text → Text → Option World} (w : World)
    (category b : Text) (bs : List Text) (plain : PlainLine (chomp b)) :
    readLines World.recvCfg nested w category (b :: bs) =
      match lineKind (chomp b) with
      | .nothing => readLines World.recvCfg nested w category bs
      | .header name => readLines World.recvCfg nested w name bs
      | .inclusion g =>
        (nested w category g).bind fun w => readLines World.recvCfg nested w category bs
      | .ordinary => readLines World.recvCfg nested (w.add category (chomp b)) category bs := by
  rw [readLines, readLine_of_kind w category b plain]
  cases lineKind (chomp b) with
  | inclusion g =>
    dsimp only
    cases nested w category g <;> rfl
  | _ => rfl

/-- Reading follows a derivation of the flattening, whatever else the world holds. Each
inclusion inside the derivation needs one call more. -/
theorem readLines_of_flattens {files : FileSys}
    (files_plain : ∀ g text, files.read g = some text → PlainFile text) {category : Text}
    {lines : List Text} {adds : List Add} (flat : Flattens files category lines adds)
    (plain : ∀ line ∈ lines, PlainLine line) (short : category.length < 100) :
    ∃ depth, ∀ fuel, depth ≤ fuel → ∀ (w : World) (bs : List Text), w.files = files →
      bs.map chomp = lines →
      readLines World.recvCfg (readCfg fuel) w category bs = some (World.addAll w adds) := by
  induction flat with
  | done category =>
    refine ⟨0, fun fuel _ w bs _ chomped => ?_⟩
    obtain rfl := List.map_eq_nil_iff.mp chomped
    rw [World.addAll_nil]
    rfl
  | skip kind _ ih =>
    obtain ⟨depth, run⟩ := ih (fun l m => plain l (.tail _ m)) short
    refine ⟨depth, fun fuel enough w bs same chomped => ?_⟩
    obtain ⟨b, bs, rfl, rfl, rest⟩ := List.map_eq_cons_iff.mp chomped
    rw [readLines_cons w _ b bs (plain _ (.head _)), kind]
    exact run fuel enough w bs same rest
  | header kind _ ih =>
    obtain ⟨depth, run⟩ := ih (fun l m => plain l (.tail _ m)) ((plain _ (.head _)).name _ kind)
    refine ⟨depth, fun fuel enough w bs same chomped => ?_⟩
    obtain ⟨b, bs, rfl, rfl, rest⟩ := List.map_eq_cons_iff.mp chomped
    rw [readLines_cons w _ b bs (plain _ (.head _)), kind]
    exact run fuel enough w bs same rest
  | @missing category _ g _ _ kind absent _ ih =>
    obtain ⟨depth, run⟩ := ih (fun l m => plain l (.tail _ m)) short
    refine ⟨depth + 1, fun fuel enough w bs same chomped => ?_⟩
    obtain ⟨fuel, rfl⟩ := Nat.exists_eq_add_of_le' (Nat.le_trans (Nat.le_add_left 1 depth) enough)
    obtain ⟨b, bs, rfl, rfl, rest⟩ := List.map_eq_cons_iff.mp chomped
    have nothing : readCfg (fuel + 1) w category g = some w := by rw [readCfg, same, absent]
    rw [readLines_cons w _ b bs (plain _ (.head _)), kind]
    dsimp only
    rw [nothing, Option.bind_some]
    exact run (fuel + 1) (by omega) w bs same rest
  | @included category _ g text _ _ inner kind there _ _ inside ih =>
    obtain ⟨depth, run⟩ := ih (fun l m => plain l (.tail _ m)) short
    obtain ⟨depth', runInside⟩ := inside (files_plain g text there).lines short
    refine ⟨depth + depth' + 1, fun fuel enough w bs same chomped => ?_⟩
    obtain ⟨fuel, rfl⟩ := Nat.exists_eq_add_of_le' (Nat.le_trans (Nat.le_add_left 1 _) enough)
    obtain ⟨b, bs, rfl, rfl, rest⟩ := List.map_eq_cons_iff.mp chomped
    have nested : readCfg (fuel + 1) w category g = some (World.addAll w inner) := by
      rw [readCfg_succ fuel (same ▸ there) short]
      exact runInside fuel (by omega) w _ same (files_plain g text there).fileLines
    rw [readLines_cons w _ b bs (plain _ (.head _)), kind]
    dsimp only
    rw [nested, Option.bind_some, ← World.addAll_append]
    exact run (fuel + 1) (by omega) (World.addAll w inner) bs same rest
  | line kind _ ih =>
    obtain ⟨depth, run⟩ := ih (fun l m => plain l (.tail _ m)) short
    refine ⟨depth, fun fuel enough w bs same chomped => ?_⟩
    obtain ⟨b, bs, rfl, rfl, rest⟩ := List.map_eq_cons_iff.mp chomped
    rw [readLines_cons w _ b bs (plain _ (.head _)), kind]
    dsimp only
    rw [← World.addAll_add]
    exact run fuel enough (w.add _ _) bs same rest

/-- `read_cfg` returns, and it has made the calls of `add_cfg` of the one reference
flattening of the file, in order, and changed nothing else. -/
theorem read_cfg_flattens (w : World) (cat f : Text) (short : cat.length < 100)
    (plain : ∀ g text, w.files.read g = some text → PlainFile text)
    (acyclic : AcyclicIncludes w.files) :
    ∃ adds, (∀ other, Flattening w.files cat f other ↔ other = adds) ∧
      ∃ depth, ∀ fuel, depth ≤ fuel →
        readCfg fuel w cat f =
          some { w with conf := addAll w.conf adds, added := w.added ++ adds } := by
  obtain ⟨adds, flat⟩ := Flattening.exists_of_acyclic acyclic cat f
  refine ⟨adds, fun other => ⟨fun also => also.unique flat, fun same => same ▸ flat⟩, ?_⟩
  unfold Flattening at flat
  cases found : w.files.read f with
  | none =>
    simp only [found] at flat
    refine ⟨1, fun fuel enough => ?_⟩
    obtain ⟨fuel, rfl⟩ := Nat.exists_eq_add_of_le' enough
    rw [readCfg, found, flat]
    exact congrArg some (World.addAll_nil w).symm
  | some text =>
    simp only [found] at flat
    obtain ⟨depth, run⟩ := readLines_of_flattens plain flat (plain f text found).lines short
    refine ⟨depth + 1, fun fuel enough => ?_⟩
    obtain ⟨fuel, rfl⟩ := Nat.exists_eq_add_of_le' (Nat.le_trans (Nat.le_add_left 1 depth) enough)
    rw [readCfg_succ fuel found short]
    exact run fuel (Nat.le_of_succ_le_succ enough) w _ rfl (plain f text found).fileLines

/-- A configuration that includes a second file. -/
def twoFiles : FileSys :=
  [⟨"mrbig.cfg".toList, "[mrbig]\nsleep 60\n.include more.cfg\nloop 20\n".toList⟩,
    ⟨"more.cfg".toList, "option noprocs\n[proc]\nnotepad.exe\n".toList⟩]

def noNetwork : RecvScript := ⟨false, false, false, false, false, false, none, 0, []⟩

theorem read_cfg_flattens_twoFiles :
    ∃ adds, (∀ other, Flattening twoFiles "mrbig".toList "mrbig.cfg".toList other ↔
        other = adds) ∧
      ∃ depth, ∀ fuel, depth ≤ fuel →
        readCfg fuel ⟨twoFiles, [], [], [], fun _ => noNetwork⟩ "mrbig".toList
            "mrbig.cfg".toList =
          some ⟨twoFiles, addAll [] adds, [] ++ adds, [], fun _ => noNetwork⟩ := by
  refine read_cfg_flattens ⟨twoFiles, [], [], [], fun _ => noNetwork⟩ "mrbig".toList
    "mrbig.cfg".toList (by decide) (fun g text there => ?_)
    (AcyclicIncludes.of_rank (fun f => if f = "mrbig.cfg".toList then 1 else 0) ?_)
  · have all : ∀ file ∈ twoFiles, PlainFile file.content := by decide
    exact all _ (FileSys.mem_of_read there)
  · rintro f g ⟨text, there, line, inside, kind⟩
    have all : ∀ file ∈ twoFiles, ∀ line ∈ logicalLines file.content,
        lineKind line = .inclusion "more.cfg".toList ∧ file.name = "mrbig.cfg".toList ∨
          (lineKind line = .nothing ∨ lineKind line = .ordinary ∨
            lineKind line = .header (line.tail.takeWhile (· ≠ ']'))) := by decide
    rcases all _ (FileSys.mem_of_read there) line inside with ⟨here, rfl⟩ | other
    · obtain rfl := LineKind.inclusion.inj (here.symm.trans kind)
      decide
    · simp [kind] at other

end MrBig.Guarantees.ReadCfgFlattening
