import Mathlib.Data.List.TakeDrop
import MrBig.Guarantees.ReadCfgFlattening

/-!
# What `read_cfg` does with a line

A buffer that `fgets` filled has `read_cfg` called again, opens a section, is added, or does no
more than to store `bind_addr` (`readLine_eq`). A physical line that the buffer has no room for
comes in pieces of 999 characters, each of them such a buffer (`fileLines_pieces`).
-/

set_option autoImplicit false

namespace MrBig.Guarantees.BufferBounds
open Source

/-- The address that `sscanf(b, ".bind %s", bind_addr)` stores, if the line gets there. -/
def bindStore (b : Text) : Option Text :=
  let b := chomp b
  if b.head? ≠ some '[' ∧ ".bind ".toList <+: b then (scanWord (b.drop 5)).map Prod.fst
  else none

end MrBig.Guarantees.BufferBounds

namespace MrBig.Guarantees.ReadCfgLines
open Library Source BufferBounds ReadCfgFlattening

/-! ### One buffer -/

/-- The file that `read_cfg` is called for, by a `.config` line that is not bogus or an `.include`
line. -/
def calledFile (b : Text) : Option Text :=
  let b := chomp b
  if ".config ".toList <+: b then do
    let (_, rest) ← scanWord (b.drop 7)
    let port ← scanInt rest
    if port ≠ 0 then some cacheName else none
  else if ".include ".toList <+: b then some (b.drop 9)
  else none

/-- The section that a header opens. -/
def opens (b : Text) : Option Text :=
  if (chomp b).head? = some '[' then some ((strlcpy (chomp b).tail 100).takeWhile (· ≠ ']'))
  else none

/-- A line that is added to its section. -/
def Adds (b : Text) : Prop :=
  chomp b ≠ [] ∧ (chomp b).head? ≠ some '#' ∧ (chomp b).head? ≠ some '[' ∧
    ¬ ".bind ".toList <+: chomp b ∧ ¬ ".config ".toList <+: chomp b ∧
    ¬ ".include ".toList <+: chomp b

instance (b : Text) : Decidable (Adds b) := inferInstanceAs (Decidable (_ ∧ _))

/-- The world in which `read_cfg` is called. -/
def callWorld {m : Type → Type} [Monad m] (recvCfg : World → m World) (w : World) (b : Text) :
    m World :=
  if ".config ".toList <+: chomp b then recvCfg w else pure w

/-- Of words that do not start each other only one starts a line. -/
theorem not_startsWith {first second line : Text} (isFirst : first <+: line)
    (apart : ¬ first <+: second ∧ ¬ second <+: first) : ¬ second <+: line := fun isSecond =>
  (List.prefix_or_prefix_of_prefix isFirst isSecond).elim apart.1 apart.2

/-- No two of the words that `read_cfg` looks for start one line, nor the header's bracket. -/
theorem calledFile_none {b word : Text} (starts : word <+: chomp b)
    (other : word ∈ ["[".toList, "#".toList, ".bind ".toList]) : calledFile b = none := by
  have apart : ∀ command ∈ [".config ".toList, ".include ".toList],
      ¬ word <+: command ∧ ¬ command <+: word := by
    simp only [List.mem_cons, List.not_mem_nil, or_false] at other
    rcases other with rfl | rfl | rfl <;> decide
  rw [calledFile]
  dsimp only
  rw [if_neg (not_startsWith starts (apart _ List.mem_cons_self)),
    if_neg (not_startsWith starts (apart _ (List.mem_cons_of_mem _ List.mem_cons_self)))]

theorem prefix_of_head {c : Char} {line : Text} (head : line.head? = some c) : [c] <+: line := by
  obtain ⟨rest, rfl⟩ := List.head?_eq_some_iff.mp head
  exact ⟨rest, rfl⟩

/-- A buffer does one of four things, whatever comes of its calls. -/
theorem readLine_eq {m : Type → Type} [Monad m] [LawfulMonad m] (recvCfg : World → m World)
    (nested : World → Text → Text → m World) (w : World) (category b : Text) :
    readLine recvCfg nested w category b =
      match calledFile b with
      | some f => do
        let w ← callWorld recvCfg w b
        let w ← nested w category f
        pure (w, category)
      | none =>
        match opens b with
        | some name => pure (w, name)
        | none =>
          if Adds b then pure (w.add category (chomp b), category)
          else pure ({ w with bindAddr := (bindStore b).getD w.bindAddr }, category) := by
  by_cases header : (chomp b).head? = some '['
  · rw [calledFile_none (prefix_of_head header) (by decide), opens, if_pos header, readLine]
    dsimp only
    rw [if_pos header]
  by_cases bind : ".bind ".toList <+: chomp b
  · have other : ¬ Adds b := fun adds => adds.2.2.2.1 bind
    rw [calledFile_none bind (by decide), opens, if_neg header, readLine, bindStore]
    dsimp only
    rw [if_neg header, if_pos bind, if_neg other, if_pos ⟨header, bind⟩]
    cases scanWord ((chomp b).drop 5) <;> rfl
  have noStore : bindStore b = none := if_neg fun both => bind both.2
  by_cases config : ".config ".toList <+: chomp b
  · have other : ¬ Adds b := fun adds => adds.2.2.2.2.1 config
    rw [calledFile, opens, if_neg header, readLine, callWorld, noStore]
    dsimp only
    rw [if_neg header, if_neg bind, if_pos config, if_pos config, if_pos config, if_neg other]
    cases scanWord ((chomp b).drop 7) with
    | none => rfl
    | some word =>
      cases number : scanInt word.2 with
      | none => simp [number]
      | some port =>
        by_cases zero : port = 0
        · simp [number, zero]
        · simp only [Option.bind_eq_bind, Option.bind_some, number, if_pos (Ne.intro zero)]
  by_cases inclusion : ".include ".toList <+: chomp b
  · rw [calledFile, readLine, callWorld]
    dsimp only
    rw [if_neg header, if_neg bind, if_neg config, if_neg config, if_neg config, if_pos inclusion,
      if_pos inclusion]
    dsimp only
    rw [pure_bind]
  have noCall : calledFile b = none := by
    rw [calledFile]
    dsimp only
    rw [if_neg config, if_neg inclusion]
  rw [noCall, opens, if_neg header, readLine, noStore]
  dsimp only
  rw [if_neg header, if_neg bind, if_neg config, if_neg inclusion]
  by_cases ordinary : chomp b ≠ [] ∧ (chomp b).head? ≠ some '#'
  · rw [if_pos ordinary, if_pos ⟨ordinary.1, ordinary.2, header, bind, config, inclusion⟩]
  · rw [if_neg ordinary, if_neg fun adds => ordinary ⟨adds.1, adds.2.1⟩]
    rfl

/-! ### Buffers one behind the other -/

theorem noStore_of_other {b : Text} (other : calledFile b ≠ none ∨ opens b ≠ none ∨ Adds b) :
    bindStore b = none := by
  refine if_neg ?_
  rintro ⟨noHeader, bind⟩
  rcases other with called | header | adds
  · exact called (calledFile_none bind (by decide))
  · exact header (if_neg noHeader)
  · exact adds.2.2.2.1 bind

/-- What `read_cfg` does with a buffer. -/
inductive LineStep (nested : World → Text → Text → Option World) (w : World) (category b : Text) :
    World → Text → Prop
  | called {f : Text} {v w' : World} (calls : calledFile b = some f)
      (inside : callWorld World.recvCfg w b = some v) (returned : nested v category f = some w')
      (noStore : bindStore b = none) : LineStep nested w category b w' category
  | opened {name : Text} (noCall : calledFile b = none) (header : opens b = some name)
      (noStore : bindStore b = none) : LineStep nested w category b w name
  | added (noCall : calledFile b = none) (noHeader : opens b = none) (adds : Adds b)
      (noStore : bindStore b = none) :
      LineStep nested w category b (w.add category (chomp b)) category
  | inert (noCall : calledFile b = none) (noHeader : opens b = none) (addsNot : ¬ Adds b) :
      LineStep nested w category b { w with bindAddr := (bindStore b).getD w.bindAddr } category

theorem readLine_step {nested : World → Text → Text → Option World} {w w' : World}
    {category category' b : Text}
    (read : readLine World.recvCfg nested w category b = some (w', category')) :
    LineStep nested w category b w' category' := by
  rw [readLine_eq] at read
  cases calls : calledFile b with
  | some f =>
    rw [calls] at read
    obtain ⟨v, inside, read⟩ := Option.bind_eq_some_iff.mp read
    obtain ⟨v', returned, read⟩ := Option.bind_eq_some_iff.mp read
    cases read
    exact .called calls inside returned (noStore_of_other (by simp [calls]))
  | none =>
    rw [calls] at read
    cases header : opens b with
    | some name =>
      rw [header] at read
      cases read
      exact .opened calls header (noStore_of_other (by simp [header]))
    | none =>
      rw [header] at read
      dsimp only at read
      split at read
      next adds =>
        cases read
        exact .added calls header adds (noStore_of_other (by simp [adds]))
      next addsNot =>
        cases read
        exact .inert calls header addsNot

/-- The section that buffers leave open. -/
def sectionAfter (category : Text) (bs : List Text) : Text :=
  bs.foldl (fun category b => (opens b).getD category) category

theorem opens_none_of_called {b f : Text} (called : calledFile b = some f) : opens b = none := by
  rw [opens]
  split
  next header =>
    rw [calledFile_none (prefix_of_head header) (by decide)] at called
    cases called
  next => rfl

/-- Whatever else a buffer does, the section is that of the header, if it is one. -/
theorem readLine_category {nested : World → Text → Text → Option World} {w w' : World}
    {category category' b : Text}
    (read : readLine World.recvCfg nested w category b = some (w', category')) :
    category' = (opens b).getD category := by
  cases readLine_step read with
  | called calls =>
    rw [opens_none_of_called calls]
    rfl
  | opened _ header =>
    rw [header]
    rfl
  | added _ noHeader =>
    rw [noHeader]
    rfl
  | inert _ noHeader =>
    rw [noHeader]
    rfl

theorem readLines_append (nested : World → Text → Text → Option World) (w : World)
    (category : Text) (bs rest : List Text) :
    readLines World.recvCfg nested w category (bs ++ rest) =
      (readLines World.recvCfg nested w category bs).bind fun w =>
        readLines World.recvCfg nested w (sectionAfter category bs) rest := by
  induction bs generalizing w category with
  | nil => rfl
  | cons b bs ih =>
    rw [List.cons_append, readLines, readLines]
    cases read : readLine World.recvCfg nested w category b with
    | none => rfl
    | some next =>
      obtain ⟨w', category'⟩ := next
      obtain rfl := readLine_category read
      exact ih w' _

/-! ### What comes of the buffers -/

/-- What is promised of computations: of one that is done its result has the property, and of one
behind another what is promised for every result of the first. -/
structure Promise (m : Type → Type) [Monad m] where
  Holds : {α : Type} → (α → Prop) → m α → Prop
  done : ∀ {α : Type} {P : α → Prop} {a : α}, P a → Holds P (pure a)
  behind : ∀ {α β : Type} {P : α → Prop} {Q : β → Prop} {x : m α} {f : α → m β}, Holds P x →
    (∀ a, P a → Holds Q (f a)) → Holds Q (x >>= f)

/-- It returns. -/
def returns : Promise Option where
  Holds P x := ∃ a, x = some a ∧ P a
  done holds := ⟨_, rfl, holds⟩
  behind := by
    rintro α β P Q x f ⟨a, rfl, holds⟩ each
    exact each a holds

/-- What a download and the stores of a line keep of a world. -/
structure Kept {m : Type → Type} [Monad m] (promise : Promise m) (recvCfg : World → m World)
    (P : World → Prop) : Prop where
  received : ∀ w, P w → promise.Holds P (recvCfg w)
  stored : ∀ w w', P w → w'.files = w.files → w'.net = w.net → P w'

section

variable {m : Type → Type} [Monad m] {promise : Promise m} {recvCfg : World → m World}
  {P : World → Prop} {nested : World → Text → Text → m World} {w : World}

theorem callWorld_kept (kept : Kept promise recvCfg P) (there : P w) (b : Text) :
    promise.Holds P (callWorld recvCfg w b) := by
  rw [callWorld]
  split
  · exact kept.received w there
  · exact promise.done there

/-- What is promised of the call that a buffer makes is promised of the buffer. -/
theorem readLine_kept [LawfulMonad m] (kept : Kept promise recvCfg P) (there : P w) {b : Text}
    (calls : ∀ f, calledFile b = some f → ∀ w category, P w →
      promise.Holds P (nested w category f)) (category : Text) :
    promise.Holds (fun next => P next.1) (readLine recvCfg nested w category b) := by
  rw [readLine_eq]
  cases call : calledFile b with
  | some f =>
    exact promise.behind (callWorld_kept kept there b) fun v stays =>
      promise.behind (calls f call v category stays) fun _ stays => promise.done stays
  | none =>
    cases opens b with
    | some name => exact promise.done there
    | none =>
      dsimp only
      split
      · exact promise.done (kept.stored _ _ there rfl rfl)
      · exact promise.done (kept.stored _ _ there rfl rfl)

theorem readLines_kept [LawfulMonad m] (kept : Kept promise recvCfg P) (there : P w)
    {bs : List Text} (calls : ∀ b ∈ bs, ∀ f, calledFile b = some f → ∀ w category, P w →
      promise.Holds P (nested w category f)) (category : Text) :
    promise.Holds P (readLines recvCfg nested w category bs) := by
  induction bs generalizing w category with
  | nil => exact promise.done there
  | cons b bs ih =>
    obtain ⟨first, others⟩ := List.forall_mem_cons.mp calls
    rw [readLines]
    exact promise.behind (readLine_kept kept there first category) fun next stays =>
      ih stays others next.2

end

/-! ### Physical lines -/

/-- The lines of a file, each with its newline, which the last one need not have. -/
def physicalLines : Text → List Text
  | [] => []
  | c :: rest =>
    if c = '\n' then [c] :: physicalLines rest
    else
      match physicalLines rest with
      | [] => [[c]]
      | line :: lines => (c :: line) :: lines

/-- What `fgets` with room for 999 characters makes of a physical line. -/
def pieces (line : Text) : List Text :=
  (List.range ((line.length + 998) / 999)).map fun i => (line.drop (999 * i)).take 999

/-- The string in the buffer. -/
def string (piece : Text) : Text := piece.takeWhile (· ≠ '\x00')

theorem physicalLines_append {line : Text} (plain : '\n' ∉ line) (rest : Text) :
    physicalLines (line ++ '\n' :: rest) = (line ++ ['\n']) :: physicalLines rest := by
  induction line with
  | nil => rfl
  | cons c line ih =>
    obtain ⟨other, restPlain⟩ := not_or.mp (fun inside => plain (List.mem_cons.mpr inside))
    rw [List.cons_append, physicalLines, if_neg (Ne.symm other), ih restPlain]
    rfl

theorem physicalLines_of_notMem {line : Text} (plain : '\n' ∉ line) (nonempty : line ≠ []) :
    physicalLines line = [line] := by
  induction line with
  | nil => exact absurd rfl nonempty
  | cons c line ih =>
    obtain ⟨other, restPlain⟩ := not_or.mp (fun inside => plain (List.mem_cons.mpr inside))
    rw [physicalLines, if_neg (Ne.symm other)]
    cases line with
    | nil => rfl
    | cons d line =>
      rw [ih restPlain (List.cons_ne_nil d line)]

theorem physicalLines_inner {text line : Text} (inside : line ∈ physicalLines text) :
    line ≠ [] ∧ '\n' ∉ line.dropLast := by
  induction text generalizing line with
  | nil => cases inside
  | cons c rest ih =>
    rw [physicalLines] at inside
    split at inside
    next =>
      rcases List.mem_cons.mp inside with rfl | behind
      · exact ⟨List.cons_ne_nil _ _, List.not_mem_nil⟩
      · exact ih behind
    next other =>
      cases lines : physicalLines rest with
      | nil =>
        rw [lines] at inside
        obtain rfl := List.mem_singleton.mp inside
        exact ⟨List.cons_ne_nil _ _, List.not_mem_nil⟩
      | cons first more =>
        rw [lines] at inside ih
        rcases List.mem_cons.mp inside with rfl | behind
        · obtain ⟨nonempty, inner⟩ := ih List.mem_cons_self
          refine ⟨List.cons_ne_nil _ _, ?_⟩
          rw [List.dropLast_cons_of_ne_nil nonempty, List.mem_cons, not_or]
          exact ⟨Ne.symm other, inner⟩
        · exact ih (List.mem_cons_of_mem _ behind)

theorem pieces_cons {line : Text} (nonempty : line ≠ []) :
    pieces line = line.take 999 :: pieces (line.drop 999) := by
  have positive := List.length_pos_iff.mpr nonempty
  have count : (line.length + 998) / 999 = ((line.drop 999).length + 998) / 999 + 1 := by
    rw [List.length_drop]
    omega
  rw [pieces, count, List.range_succ_eq_map, List.map_cons, List.map_map, pieces]
  congr 1
  refine List.map_congr_left fun i _ => ?_
  rw [Function.comp_apply, List.drop_drop]
  congr 2
  omega

/-! ### The buffers of a file -/

/-- A line in front of the rest of a stream: a newline can only be its last character, and is it
unless nothing follows. -/
structure LineOf (line rest : Text) : Prop where
  inner : '\n' ∉ line.dropLast
  ends : line.getLast? = some '\n' ∨ rest = []

/-- What is left of a line behind some of its characters is one. -/
theorem LineOf.drop {line rest : Text} (lineOf : LineOf line rest) {n : Nat}
    (inside : n < line.length ∨ rest = []) : LineOf (line.drop n) rest where
  inner newline := by
    rw [List.dropLast_drop_eq_drop_dropLast] at newline
    exact lineOf.inner (List.mem_of_mem_drop newline)
  ends := by
    rcases inside with inside | nothing
    · rw [List.getLast?_drop, if_neg (Nat.not_le.mpr inside)]
      exact lineOf.ends
    · exact Or.inr nothing

theorem fgets_lineOf {line rest : Text} (lineOf : LineOf line rest) (room : Nat) :
    fgets room (line ++ rest) = (line.take room, line.drop room ++ rest) := by
  induction line generalizing room with
  | nil =>
    obtain rfl := lineOf.ends.resolve_left (by simp)
    cases room <;> rfl
  | cons c line ih =>
    cases room with
    | zero => rfl
    | succ room =>
      rw [List.cons_append, fgets]
      cases line with
      | nil =>
        by_cases newline : c = '\n'
        · simp [newline]
        · obtain rfl := lineOf.ends.resolve_left (by simpa using newline)
          rw [if_neg newline]
          cases room <;> rfl
      | cons d line =>
        have other : c ≠ '\n' := fun same => lineOf.inner (by simp [same])
        have behind : LineOf (d :: line) rest := lineOf.drop (n := 1) (Or.inl (by simp))
        rw [if_neg other, ih behind]
        rfl

theorem fgets_left_length (room : Nat) (c : Char) (stream : Text) :
    (fgets (room + 1) (c :: stream)).2.length ≤ stream.length := by
  induction stream generalizing room c with
  | nil =>
    rw [fgets]
    split
    · exact Nat.le_refl _
    · cases room <;> exact Nat.le_refl _
  | cons d stream ih =>
    rw [fgets]
    split
    · exact Nat.le_refl _
    · cases room with
      | zero => exact Nat.le_refl _
      | succ room => exact Nat.le_succ_of_le (ih room d)

/-- More fuel than characters changes nothing. -/
theorem fgetsAll_fuel {fuel : Nat} {stream : Text} (enough : stream.length ≤ fuel) :
    fgetsAll 1000 fuel stream = fileLines 1000 stream := by
  rw [fileLines]
  induction fuel using Nat.strong_induction_on generalizing stream with
  | h fuel ih =>
    cases stream with
    | nil => simp
    | cons c stream =>
      rw [List.length_cons] at enough ⊢
      obtain ⟨fuel, rfl⟩ := Nat.exists_eq_add_of_le' (Nat.le_trans (Nat.le_add_left 1 _) enough)
      have left : (fgets (1000 - 1) (c :: stream)).2.length ≤ stream.length :=
        fgets_left_length 998 c stream
      rw [fgetsAll_succ 1000 fuel (List.cons_ne_nil _ _),
        fgetsAll_succ 1000 stream.length (List.cons_ne_nil _ _), ih fuel (by omega) (by omega),
        ih stream.length (by omega) left]

theorem fileLines_cons {stream : Text} (nonempty : stream ≠ []) :
    fileLines 1000 stream =
      string (fgets 999 stream).1 :: fileLines 1000 (fgets 999 stream).2 := by
  obtain ⟨c, rest, rfl⟩ := List.exists_cons_of_ne_nil nonempty
  rw [fileLines, List.length_cons, fgetsAll_succ 1000 rest.length nonempty]
  exact congrArg _ (fgetsAll_fuel (fgets_left_length 998 c rest))

theorem fileLines_lineOf {line rest : Text} (lineOf : LineOf line rest) :
    fileLines 1000 (line ++ rest) = (pieces line).map string ++ fileLines 1000 rest := by
  induction length : line.length using Nat.strong_induction_on generalizing line with
  | h n ih =>
    by_cases empty : line = []
    · rw [empty]
      rfl
    · have behind : fileLines 1000 (line.drop 999 ++ rest) =
          (pieces (line.drop 999)).map string ++ fileLines 1000 rest := by
        by_cases fits : line.length ≤ 999
        · rw [List.drop_of_length_le fits]
          rfl
        · have shorter : (line.drop 999).length < n := by
            rw [List.length_drop]
            omega
          exact ih _ shorter (lineOf.drop (Or.inl (by omega))) rfl
      rw [fileLines_cons (by simp [empty]), fgets_lineOf lineOf, pieces_cons empty, behind]
      rfl

/-- A file is read piece by piece. -/
theorem fileLines_pieces (text : Text) :
    fileLines 1000 text = (physicalLines text).flatMap fun line => (pieces line).map string := by
  induction length : text.length using Nat.strong_induction_on generalizing text with
  | h n ih =>
    cases placed : Delimited.cut '\n' text with
    | none =>
      have plain := Delimited.cut_eq_none_iff.mp placed
      by_cases empty : text = []
      · rw [empty]
        rfl
      · have lineOf : LineOf text [] :=
          ⟨fun inside => plain (List.mem_of_mem_dropLast inside), Or.inr rfl⟩
        have whole := fileLines_lineOf lineOf
        rw [List.append_nil] at whole
        rw [whole, physicalLines_of_notMem plain empty]
        rfl
    | some pair =>
      obtain ⟨line, rest⟩ := pair
      obtain ⟨rfl, plain⟩ := Delimited.eq_of_cut placed
      have lineOf : LineOf (line ++ ['\n']) rest := ⟨by simpa using plain, Or.inl (by simp)⟩
      have split := fileLines_lineOf lineOf
      rw [List.append_assoc, List.singleton_append] at split
      rw [split, physicalLines_append plain, List.flatMap_cons,
        ih rest.length (by simp [← length]; omega) rest rfl]

/-- So is a line on its own. -/
theorem fileLines_physicalLine {text line : Text} (inside : line ∈ physicalLines text) :
    fileLines 1000 line = (pieces line).map string := by
  have lineOf : LineOf line [] := ⟨(physicalLines_inner inside).2, Or.inr rfl⟩
  have whole := fileLines_lineOf lineOf
  rw [List.append_nil] at whole
  rw [whole]
  exact List.append_nil _

end MrBig.Guarantees.ReadCfgLines
