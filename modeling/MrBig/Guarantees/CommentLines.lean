import MrBig.Guarantees.ReadCfgLines

/-!
# Comments and lines of any length

`read_cfg` looks at the first character of every buffer. A line that is longer than the buffer is
a comment, or one line of the configuration, as long as the rest of it does not pass for more.
-/

set_option autoImplicit false

namespace MrBig.Guarantees.CommentLines
open Library Source BufferBounds ReadCfgLines

/-- A line's buffers store `bind_addr` at most: nothing is added, the section stays, and no file is
called for. -/
def Ignored (line : Text) : Prop :=
  ∀ (nested : World → Text → Text → Option World) (w : World) (category : Text) (rest : List Text),
    ∃ bindAddr, readLines World.recvCfg nested w category (fileLines 1000 line ++ rest) =
      readLines World.recvCfg nested { w with bindAddr := bindAddr } category rest

/-- A call that reads nothing. -/
def readNothing (w : World) (_category _filename : Text) : Option World := some w

/-- A line's buffers add one line to the configuration at most, apart from what the files add that
are called for. -/
def AddsAtMostOne (line : Text) : Prop :=
  ∀ (w w' : World) (category : Text),
    readLines World.recvCfg readNothing w category (fileLines 1000 line) = some w' →
      w'.added.length ≤ w.added.length + 1

/-- A buffer calls for no file, opens no section and adds nothing: it is empty, a comment, a
`.bind` line or a bogus `.config` line. -/
def Inert (b : Text) : Prop := calledFile b = none ∧ opens b = none ∧ ¬ Adds b

instance (b : Text) : Decidable (Inert b) := inferInstanceAs (Decidable (_ ∧ _))

/-- Cut behind every 999 characters, a comment has only pieces that are inert behind the first, and
another line has one piece at most that is added. -/
def Uncut (line : Text) : Prop :=
  if line.head? = some '#' then ∀ piece ∈ (pieces line).tail, Inert (string piece)
  else (pieces line).countP (fun piece => Adds (string piece)) ≤ 1

/-! ### Comments -/

variable {nested : World → Text → Text → Option World}

theorem readLine_inert {b : Text} (inert : Inert b) (w : World) (category : Text) :
    readLine World.recvCfg nested w category b =
      some ({ w with bindAddr := (bindStore b).getD w.bindAddr }, category) := by
  rw [readLine_eq, inert.1, inert.2.1]
  exact if_neg inert.2.2

theorem readLines_inert {bs : List Text} (inert : ∀ b ∈ bs, Inert b) (w : World)
    (category : Text) (rest : List Text) :
    ∃ bindAddr, readLines World.recvCfg nested w category (bs ++ rest) =
      readLines World.recvCfg nested { w with bindAddr := bindAddr } category rest := by
  induction bs generalizing w with
  | nil => exact ⟨w.bindAddr, rfl⟩
  | cons b bs ih =>
    obtain ⟨first, others⟩ := List.forall_mem_cons.mp inert
    obtain ⟨bindAddr, read⟩ := ih others { w with bindAddr := (bindStore b).getD w.bindAddr }
    refine ⟨bindAddr, ?_⟩
    rw [List.cons_append, readLines, readLine_inert first]
    exact read

theorem recvCfg_added {w w' : World} (received : w.recvCfg = some w') : w'.added = w.added := by
  unfold World.recvCfg at received
  split at received
  next => cases received
  next => rw [← Option.some.inj received]

theorem not_adds_of_called {b f : Text} (called : calledFile b = some f) : ¬ Adds b := by
  rintro ⟨-, -, -, -, noConfig, noInclude⟩
  rw [calledFile] at called
  dsimp only at called
  rw [if_neg noConfig, if_neg noInclude] at called
  cases called

theorem not_adds_of_opened {b name : Text} (header : opens b = some name) : ¬ Adds b := by
  rintro ⟨-, -, noHeader, -⟩
  rw [opens, if_neg noHeader] at header
  cases header

/-- What one buffer adds, next to a call that adds nothing. -/
theorem readLine_added (quiet : ∀ w category f w', nested w category f = some w' →
      w'.added = w.added) {w w' : World} {category category' b : Text}
    (read : readLine World.recvCfg nested w category b = some (w', category')) :
    w'.added.length = w.added.length + if Adds b then 1 else 0 := by
  cases readLine_step read with
  | @called f v _ calls inside returned =>
    have kept : v.added = w.added := by
      rw [callWorld] at inside
      split at inside
      · exact recvCfg_added inside
      · rw [Option.some.inj inside]
    rw [quiet _ _ _ _ returned, kept, if_neg (not_adds_of_called calls), Nat.add_zero]
  | opened _ header => rw [if_neg (not_adds_of_opened header), Nat.add_zero]
  | added _ _ adds =>
    rw [if_pos adds, World.add, List.length_append]
    rfl
  | inert _ _ addsNot => rw [if_neg addsNot, Nat.add_zero]

theorem readLines_added (quiet : ∀ w category f w', nested w category f = some w' →
      w'.added = w.added) {w w' : World} {category : Text} {bs : List Text}
    (read : readLines World.recvCfg nested w category bs = some w') :
    w'.added.length = w.added.length + bs.countP fun b => Adds b := by
  induction bs generalizing w category with
  | nil =>
    cases read
    rfl
  | cons b bs ih =>
    rw [readLines] at read
    obtain ⟨⟨v, category'⟩, first, read⟩ := Option.bind_eq_some_iff.mp read
    rw [ih read, readLine_added quiet first, List.countP_cons]
    simp only [decide_eq_true_eq]
    omega

/-- A call that does not return. -/
def never (_w : World) (_category _filename : Text) : Option World := none

theorem called_none_of_never {w w' : World} {category : Text} {bs : List Text}
    (read : readLines World.recvCfg never w category bs = some w') :
    ∀ b ∈ bs, calledFile b = none := by
  induction bs generalizing w category with
  | nil => exact fun b member => absurd member List.not_mem_nil
  | cons b bs ih =>
    rw [readLines] at read
    obtain ⟨⟨v, category'⟩, first, read⟩ := Option.bind_eq_some_iff.mp read
    refine List.forall_mem_cons.mpr ⟨?_, ih read⟩
    cases readLine_step first with
    | called _ _ returned => cases returned
    | opened noCall | added noCall | inert noCall => exact noCall

/-- Behind a header the section does not depend on the one before. -/
theorem sectionAfter_of_header {bs : List Text} {b : Text} (inside : b ∈ bs)
    (header : opens b ≠ none) : ∃ name, ∀ category, sectionAfter category bs = name := by
  induction bs with
  | nil => cases inside
  | cons first bs ih =>
    by_cases later : b ∈ bs
    · obtain ⟨name, after⟩ := ih later
      exact ⟨name, fun category => after _⟩
    · obtain rfl : b = first := (List.mem_cons.mp inside).resolve_right later
      obtain ⟨name, opened⟩ := Option.ne_none_iff_exists'.mp header
      refine ⟨sectionAfter name bs, fun category => ?_⟩
      rw [sectionAfter, List.foldl_cons, opened]
      rfl

/-- Only buffers that are inert can be left out. -/
theorem inert_of_ignored {line : Text} (ignored : Ignored line) :
    ∀ b ∈ fileLines 1000 line, Inert b := by
  unfold Ignored at ignored
  generalize fileLines 1000 line = bs at ignored
  let w : World := ⟨[], [], [], [], fun _ => ReadCfgFlattening.noNetwork⟩
  have returned : ∀ category, ∃ bindAddr,
      readLines World.recvCfg never w category bs = some { w with bindAddr := bindAddr } := by
    intro category
    obtain ⟨bindAddr, read⟩ := ignored never w category []
    rw [List.append_nil] at read
    exact ⟨bindAddr, read⟩
  have kept : ∀ category, sectionAfter category bs = category := by
    intro category
    obtain ⟨bindAddr, read⟩ := returned category
    obtain ⟨bindAddr', behind⟩ := ignored never w category ["x".toList]
    rw [readLines_append, read] at behind
    have added : [(sectionAfter category bs, "x".toList)] = [(category, "x".toList)] :=
      congrArg World.added (Option.some.inj behind)
    simpa using added
  obtain ⟨bindAddr, read⟩ := returned []
  have quiet : ∀ (w : World) (category f : Text) (w' : World),
      never w category f = some w' → w'.added = w.added := by
    intro w category f w' read
    cases read
  have count := readLines_added quiet read
  change w.added.length = w.added.length + _ at count
  intro b inside
  refine ⟨called_none_of_never read b inside, ?_, ?_⟩
  · by_contra header
    obtain ⟨name, after⟩ := sectionAfter_of_header inside header
    have same := (kept ('x' :: name)).symm.trans (after _)
    exact absurd (congrArg List.length same) (by simp)
  · intro adds
    have nonempty : 0 < bs.countP fun b => Adds b := List.countP_pos_iff.mpr ⟨b, inside, by simpa⟩
    omega

/-! ### Other lines -/

def Offline (w : World) : Prop := ∀ n, w.net n = ReadCfgFlattening.noNetwork

theorem offline_kept : Kept returns World.recvCfg Offline where
  received w offline := by
    unfold World.recvCfg
    rw [offline 0]
    exact ⟨_, rfl, fun n => offline (n + 1)⟩
  stored w w' offline _ net n := by
    rw [net]
    exact offline n

theorem addsAtMostOne_iff (line : Text) :
    AddsAtMostOne line ↔ (fileLines 1000 line).countP (fun b => Adds b) ≤ 1 := by
  have quiet : ∀ (w : World) (category f : Text) (w' : World),
      readNothing w category f = some w' → w'.added = w.added := by
    intro w category f w' read
    rw [Option.some.inj read]
  constructor
  · intro atMost
    have start : Offline ⟨[], [], [], [], fun _ => ReadCfgFlattening.noNetwork⟩ := fun _ => rfl
    have returned : ∃ w',
        readLines World.recvCfg readNothing _ [] (fileLines 1000 line) = some w' ∧ Offline w' :=
      readLines_kept offline_kept start (fun _ _ _ _ w _ offline => ⟨w, rfl, offline⟩) []
    obtain ⟨w', read, -⟩ := returned
    have bound := atMost _ w' [] read
    rw [readLines_added quiet read] at bound
    omega
  · intro few w w' category read
    rw [readLines_added quiet read]
    omega

theorem inert_comment (rest : Text) : Inert ('#' :: rest) := by
  have head : (chomp ('#' :: rest)).head? = some '#' := rfl
  have starts : "#".toList <+: chomp ('#' :: rest) := prefix_of_head head
  refine ⟨calledFile_none starts (by decide), ?_, fun adds => adds.2.1 head⟩
  rw [opens, head]
  rfl

/-- The first piece of a comment is inert. -/
theorem inert_first {line : Text} (comment : line.head? = some '#') :
    Inert (string (line.take 999)) := by
  obtain ⟨rest, rfl⟩ := List.head?_eq_some_iff.mp comment
  exact inert_comment _

theorem ignored_iff {text line : Text} (inside : line ∈ physicalLines text)
    (comment : line.head? = some '#') :
    Ignored line ↔ ∀ piece ∈ (pieces line).tail, Inert (string piece) := by
  have nonempty := (physicalLines_inner inside).1
  have whole : (∀ b ∈ fileLines 1000 line, Inert b) ↔
      ∀ piece ∈ (pieces line).tail, Inert (string piece) := by
    rw [fileLines_physicalLine inside, List.forall_mem_map, pieces_cons nonempty, List.tail_cons,
      List.forall_mem_cons]
    exact and_iff_right (inert_first comment)
  rw [← whole]
  constructor
  · exact inert_of_ignored
  · intro inert nested w category rest
    exact readLines_inert inert w category rest

/-- In every file, whose lines are read one behind the other, comments are ignored and other lines
add one line at most, if and only if no line of it is cut so that the rest passes for more. -/
theorem lines_of_any_length_iff (text : Text) :
    fileLines 1000 text = (physicalLines text).flatMap (fileLines 1000) ∧
      ((∀ line ∈ physicalLines text,
          if line.head? = some '#' then Ignored line else AddsAtMostOne line) ↔
        ∀ line ∈ physicalLines text, Uncut line) := by
  constructor
  · rw [fileLines_pieces]
    refine List.flatMap_congr fun line inside => ?_
    rw [fileLines_physicalLine inside]
  · refine forall₂_congr fun line inside => ?_
    unfold Uncut
    split
    next comment => exact ignored_iff inside comment
    next other =>
      rw [addsAtMostOne_iff, fileLines_physicalLine inside, List.countP_map]
      rfl

/-- A line of which 999 characters are read first. -/
theorem fileLines_cut {front rest : Text} (length : front.length = 999) (plain : '\n' ∉ front)
    (noNul : '\x00' ∉ front) (nonempty : rest ≠ []) (ends : LineOf rest []) :
    fileLines 1000 (front ++ rest) = front :: fileLines 1000 rest := by
  have lineOf : LineOf (front ++ rest) [] := by
    refine ⟨?_, Or.inr rfl⟩
    rw [List.dropLast_append_of_ne_nil nonempty, List.mem_append, not_or]
    exact ⟨plain, ends.inner⟩
  have whole := fileLines_lineOf lineOf
  have behind := fileLines_lineOf ends
  rw [List.append_nil] at whole behind
  rw [whole, behind, pieces_cons (List.append_ne_nil_of_right_ne_nil front nonempty),
    List.take_left' length, List.drop_left' length, List.map_cons, string,
    ReadCfgFlattening.takeWhile_of_notMem noNul]
  rfl

/-- A comment of 1008 characters. -/
def longComment : Text := ('#' :: List.replicate 998 '-') ++ "port 1985\n".toList

theorem notMem_dashes {c : Char} (noHash : c ≠ '#') (noDash : c ≠ '-') :
    c ∉ '#' :: List.replicate 998 '-' := by
  intro inside
  rcases List.mem_cons.mp inside with same | inside
  · exact noHash same
  · exact noDash (List.eq_of_mem_replicate inside)

theorem fileLines_longComment :
    fileLines 1000 longComment = ['#' :: List.replicate 998 '-', "port 1985\n".toList] := by
  rw [longComment, fileLines_cut _ (notMem_dashes (by decide) (by decide))
    (notMem_dashes (by decide) (by decide)) (by decide) ⟨by decide, Or.inr rfl⟩]
  · rfl
  · rw [List.length_cons, List.length_replicate]

theorem longComment_line : longComment ∈ physicalLines longComment := by
  have plain : '\n' ∉ ('#' :: List.replicate 998 '-') ++ "port 1985".toList := by
    rw [List.mem_append, not_or]
    exact ⟨notMem_dashes (by decide) (by decide), by decide⟩
  have lines := physicalLines_append plain []
  rw [List.append_assoc] at lines
  have same : "port 1985".toList ++ ['\n'] = "port 1985\n".toList := rfl
  rw [same] at lines
  rw [longComment, lines]
  exact List.mem_cons_self

/-- What stands behind its first 999 characters is added. -/
theorem longComment_added :
    (readLines World.recvCfg readNothing ⟨[], [], [], [], fun _ => ReadCfgFlattening.noNetwork⟩
        "mrbig".toList (fileLines 1000 longComment)).map World.added =
      some [("mrbig".toList, "port 1985".toList)] ∧
      ¬∀ line ∈ physicalLines longComment,
        if line.head? = some '#' then Ignored line else AddsAtMostOne line := by
  constructor
  · rw [fileLines_longComment, readLines, readLine_inert (inert_comment _)]
    rfl
  · intro every
    have comment : longComment.head? = some '#' := rfl
    have ignored := every longComment longComment_line
    rw [if_pos comment] at ignored
    have second : "port 1985\n".toList ∈ fileLines 1000 longComment := by
      rw [fileLines_longComment]
      exact List.mem_cons_of_mem _ List.mem_cons_self
    exact absurd (inert_of_ignored ignored _ second) (by decide)

end MrBig.Guarantees.CommentLines
