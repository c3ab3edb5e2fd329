import Mathlib.Order.Filter.AtTopBot.Basic
import Mathlib.Order.Filter.Finite
import MrBig.Guarantees.ReadCfgLines

/-!
# How `read_cfg` ends

`read_cfg` calls itself for the files that its lines name and for what is downloaded, and keeps no
account of the calls it is in. Each of them holds a stream, so that a file that leads back to itself
is read until the C runtime has no stream for it; from debug level 2 on the program may end before,
when the table of open files is full. With files that stay as they are nothing else ends such a
reading: with a stream for every call `read_cfg` would return exactly where no file leads back to
itself.
-/

set_option autoImplicit false

namespace MrBig.Guarantees.ReadCfgTerminates
open Library Source Abstract ReadCfgLines

variable {content : Text → Option Text} {start : Text} {w w' : World}

/-! ### The table of open files -/

section Table
open FileTable

variable {limit opened fp : Nat} {t : FileState} {p : Text}

/-- The streams, with the entries that the table has. -/
def ofTable (limit opened : Nat) (t : FileState) : Streams :=
  ⟨limit, opened, t.debug, (Slots.entries t.files).length⟩

/-- `big_fopen` ends the program where no entry is counted as free. -/
theorem bigFopen_exits_iff (running : t.exited = false) (size : t.files.length = filesMax)
    (stream : fp ≠ 0) : (bigFopen t fp p).exited = true ↔ (ofTable limit opened t).Full := by
  have none : Slots.fill ⟨fp, strlcpy p 20⟩ t.files = none ↔
      filesMax ≤ (Slots.entries t.files).length := size ▸ Slots.fill_eq_none_iff
  unfold bigFopen storeFile Streams.Full ofTable
  rw [if_neg stream, ← none]
  by_cases low : t.debug < 2
  · rw [if_pos low, running]
    simp [Int.not_le.mpr low]
  · rw [if_neg low]
    cases Slots.fill ⟨fp, strlcpy p 20⟩ t.files <;> simp [running, Int.not_lt.mp low]

theorem bigFopen_stored (size : t.files.length = filesMax) (stream : fp ≠ 0)
    (room : ¬ (ofTable limit opened t).Full) (high : ¬ t.debug < 2) :
    ∃ files, bigFopen t fp p = { t with files := files } ∧
      (Slots.entries files).Perm (⟨fp, strlcpy p 20⟩ :: Slots.entries t.files) := by
  have fewer : (Slots.entries t.files).length < t.files.length := by
    rw [size]
    exact Nat.lt_of_not_le fun all => room ⟨Int.not_lt.mp high, all⟩
  obtain ⟨files, filled, -, permuted⟩ := Slots.fill_spec fewer ⟨fp, strlcpy p 20⟩
  refine ⟨files, ?_, permuted⟩
  unfold bigFopen storeFile
  rw [if_neg stream, if_neg high, filled]

/-- Elsewhere one more entry is counted. -/
theorem bigFopen_take (size : t.files.length = filesMax) (stream : fp ≠ 0)
    (room : ¬ (ofTable limit opened t).Full) :
    ofTable limit (opened + 1) (bigFopen t fp p) = (ofTable limit opened t).take := by
  by_cases low : t.debug < 2
  · have same : bigFopen t fp p = t := by
      unfold bigFopen storeFile
      rw [if_neg stream, if_pos low]
    unfold Streams.take
    rw [same]
    exact congrArg (Streams.mk _ _ _) (if_pos low).symm
  · obtain ⟨files, stored, permuted⟩ := bigFopen_stored (p := p) size stream room low
    unfold Streams.take
    rw [stored]
    exact congrArg (Streams.mk _ _ _) (permuted.length_eq.trans (if_neg low).symm)

/-- And when the file is closed the count is as it was. -/
theorem bigFclose_give (size : t.files.length = filesMax) (stream : fp ≠ 0)
    (room : ¬ (ofTable limit opened t).Full) :
    ofTable limit opened (bigFclose (bigFopen t fp p) fp 0) = ofTable limit opened t := by
  by_cases low : t.debug < 2
  · have same : bigFclose (bigFopen t fp p) fp 0 = t := by
      unfold bigFclose removeFile bigFopen storeFile
      rw [if_neg stream, if_pos low, if_pos low]
      rfl
    rw [same]
  · obtain ⟨files, stored, permuted⟩ := bigFopen_stored (p := p) size stream room low
    rw [stored]
    unfold bigFclose removeFile
    rw [if_neg (not_not.mpr rfl), if_neg low]
    cases vacated : Slots.vacate (fun f => f.p == fp) files with
    | none =>
      have absent := Slots.vacate_eq_none_iff.mp vacated
      exact absurd (beq_self_eq_true fp) (absent _ (permuted.mem_iff.mpr List.mem_cons_self))
    | some found =>
      have shorter := (Slots.vacate_spec vacated).2.2.length_eq.symm.trans permuted.length_eq
      exact congrArg (Streams.mk _ _ _) (Nat.succ_injective shorter)

end Table

/-! ### Streams that run out -/

/-- It returns, or the program calls `mrexit`, which it does only where `exits` holds. -/
def ends (exits : Prop) : Promise (Except Halt) where
  Holds P x := (∃ a, x = .ok a ∧ P a) ∨ x = .error .exits ∧ exits
  done holds := Or.inl ⟨_, rfl, holds⟩
  behind := by
    rintro α β P Q x f (⟨a, rfl, holds⟩ | ⟨rfl, exits⟩) each
    · exact each a holds
    · exact Or.inr ⟨rfl, exits⟩

/-- From debug level 2 on, with fewer entries left in the table of open files than streams. -/
def Scarce (s : Streams) : Prop :=
  2 ≤ s.debug ∧ FileTable.filesMax - s.stored < s.limit - s.opened

theorem scarce_of_full {s : Streams} (stream : s.opened < s.limit) (full : s.Full) : Scarce s := by
  obtain ⟨level, none⟩ := full
  exact ⟨level, by omega⟩

theorem scarce_of_take {s : Streams} (scarce : Scarce s.take) : Scarce s := by
  have level : 2 ≤ s.debug := scarce.1
  have fewer := scarce.2
  rw [Streams.take_stored level, Streams.take_limit, Streams.take_opened] at fewer
  exact ⟨level, by omega⟩

/-- Whatever it receives, each `recv_cfg` to come returns. -/
def DownloadsEnd (w : World) : Prop := ∀ n files, (recvCfg (w.net n) files).1 ≠ .running

theorem recvCfg_of_downloadsEnd (returning : DownloadsEnd w) :
    ∃ w', w.recvCfg = some w' ∧ DownloadsEnd w' := by
  have first := returning 0 w.files
  unfold World.recvCfg
  split
  next files result =>
    rw [result] at first
    exact absurd rfl first
  next => exact ⟨_, rfl, fun n => returning (n + 1)⟩

theorem downloadsEnd_kept {s : Streams} {exits : Prop} (scarce : Scarce s → exits) :
    Kept (ends exits) (World.recvCfgIn s) DownloadsEnd where
  received w returning := by
    unfold World.recvCfgIn
    split
    next opened =>
      split
      next full => exact Or.inr ⟨rfl, scarce (scarce_of_full opened.1 full)⟩
      next =>
        obtain ⟨w', received, stays⟩ := recvCfg_of_downloadsEnd returning
        rw [received]
        exact Or.inl ⟨w', rfl, stays⟩
    next => exact Or.inl ⟨_, rfl, fun n => returning (n + 1)⟩
  stored w w' returning _ net := by
    unfold DownloadsEnd
    rw [net]
    exact returning

/-- One call for each stream that is left, and a last one that gets none, are all that can be
nested. -/
theorem readCfgIn_enough {depth : Nat} {s : Streams} (enough : s.limit - s.opened < depth) :
    readCfgIn depth s = readCfgIn (s.limit - s.opened + 1) s := by
  induction depth generalizing s with
  | zero => exact absurd enough (Nat.not_lt_zero _)
  | succ depth ih =>
    funext w category f
    rw [readCfgIn, readCfgIn]
    by_cases stream : s.opened < s.limit
    · have left : s.take.limit - s.take.opened + 1 = s.limit - s.opened := by
        rw [Streams.take_limit, Streams.take_opened]
        omega
      rw [ih (by omega), left]
    · simp only [fopenRead, if_neg stream]

/-- With any number of streams `read_cfg` returns or the program ends, whatever the files name. -/
theorem readCfgIn_ends {depth : Nat} {s : Streams} (enough : s.limit - s.opened < depth)
    (returning : DownloadsEnd w) (category f : Text) :
    (ends (Scarce s)).Holds DownloadsEnd (readCfgIn depth s w category f) := by
  induction depth generalizing s w category f with
  | zero => exact absurd enough (Nat.not_lt_zero _)
  | succ depth ih =>
    rw [readCfgIn, fopenRead]
    by_cases stream : s.opened < s.limit
    · rw [if_pos stream]
      cases w.files.read f with
      | none => exact (ends _).done returning
      | some text =>
        dsimp only
        by_cases full : s.Full
        · rw [if_pos full]
          exact Or.inr ⟨rfl, scarce_of_full stream full⟩
        · rw [if_neg full]
          have fewer : s.take.limit - s.take.opened < depth := by
            rw [Streams.take_limit, Streams.take_opened]
            omega
          have nested : ∀ b ∈ fileLines 1000 text, ∀ g, calledFile b = some g →
              ∀ v category, DownloadsEnd v →
                (ends (Scarce s)).Holds DownloadsEnd (readCfgIn depth s.take v category g) := by
            intro _ _ g _ v category returning
            exact (ih fewer returning category g).imp_right fun exits =>
              ⟨exits.1, scarce_of_take exits.2⟩
          exact readLines_kept (downloadsEnd_kept scarce_of_take) returning nested _
    · rw [if_neg stream]
      exact (ends _).done returning

/-- A file that asks for a download, and a cache that asks for one and includes itself. -/
def selfIncluding : FileSys :=
  [⟨"mrbig.cfg".toList, ".config 10.0.0.1 1984\n".toList⟩,
    ⟨cacheName, ".config 10.0.0.1 1984\n.include cfg.cache\n".toList⟩]

/-- A file that includes itself. -/
def ownInclude : World :=
  ⟨[⟨"mrbig.cfg".toList, ".include mrbig.cfg\n".toList⟩], [], [], [],
    fun _ => ReadCfgFlattening.noNetwork⟩

theorem readCfgIn_ownInclude {s : Streams} (stream : s.opened < s.limit) (room : ¬ s.Full)
    (depth : Nat) :
    readCfgIn (depth + 1) s ownInclude "mrbig".toList "mrbig.cfg".toList =
      readCfgIn depth s.take ownInclude "mrbig".toList "mrbig.cfg".toList := by
  have there : ownInclude.files.read "mrbig.cfg".toList =
      some ".include mrbig.cfg\n".toList := by decide
  have lines : fileLines 1000 ".include mrbig.cfg\n".toList =
      [".include mrbig.cfg\n".toList] := by decide
  have category : strlcpy "mrbig".toList 100 = "mrbig".toList := by decide
  have calls : calledFile ".include mrbig.cfg\n".toList = some "mrbig.cfg".toList := by decide
  have noDownload : ¬ ".config ".toList <+: chomp ".include mrbig.cfg\n".toList := by decide
  rw [readCfgIn, fopenRead, if_pos stream, there]
  dsimp only
  rw [if_neg room, lines, category, readLines, readLine_eq, calls, callWorld, if_neg noDownload]
  dsimp only
  rw [pure_bind]
  cases readCfgIn depth s.take ownInclude "mrbig".toList "mrbig.cfg".toList <;> rfl

/-- At debug level 2 a file that includes itself fills the table of open files. -/
theorem ownInclude_exits (depth : Nat) {stored : Nat} (fits : stored ≤ 100) :
    readCfgIn depth ⟨512, 3 + stored, 2, stored⟩ ownInclude "mrbig".toList "mrbig.cfg".toList =
      .error (if 100 - stored < depth then .exits else .hangs) := by
  induction depth generalizing stored with
  | zero => rfl
  | succ depth ih =>
    have stream : 3 + stored < 512 := by omega
    by_cases full : (⟨512, 3 + stored, 2, stored⟩ : Streams).Full
    · have all : 100 ≤ stored := full.2
      rw [readCfgIn, fopenRead, if_pos stream, if_pos (by omega)]
      exact if_pos full
    · have room : stored < 100 := Nat.lt_of_not_le fun none => full ⟨Int.le_refl 2, none⟩
      have left : 100 - stored < depth + 1 ↔ 100 - (stored + 1) < depth := by omega
      rw [readCfgIn_ownInclude stream full, if_congr left rfl rfl]
      exact ih room

/-- There is a stream, and an entry in the table where one is needed, for each of so many calls. -/
def Suffice (s : Streams) (depth : Nat) : Prop :=
  s.opened + depth ≤ s.limit ∧ (s.debug < 2 ∨ s.stored + depth ≤ FileTable.filesMax)

section

variable {s : Streams} {depth : Nat}

theorem Suffice.stream (suffice : Suffice s (depth + 1)) : s.opened < s.limit ∧ ¬ s.Full := by
  obtain ⟨streams, entries⟩ := suffice
  refine ⟨by omega, fun full => ?_⟩
  obtain ⟨level, none⟩ := full
  omega

theorem Suffice.take (suffice : Suffice s (depth + 1)) : Suffice s.take depth := by
  obtain ⟨streams, entries⟩ := suffice
  refine ⟨by rw [Streams.take_opened, Streams.take_limit]; omega, ?_⟩
  rcases entries with low | room
  · exact Or.inl low
  · by_cases level : s.debug < 2
    · exact Or.inl level
    · rw [Streams.take_stored (Int.not_lt.mp level)]
      exact Or.inr (by omega)

theorem recvCfgIn_of_recvCfg (suffice : Suffice s (depth + 1)) (received : w.recvCfg = some w') :
    w.recvCfgIn s = .ok w' := by
  obtain ⟨stream, room⟩ := suffice.stream
  unfold World.recvCfgIn
  by_cases opened : (w.net 0).fopen = true
  · rw [if_pos ⟨stream, opened⟩, if_neg room, received]
    rfl
  · have failed : (w.net 0).fopen = false := Bool.eq_false_iff.mpr opened
    rw [if_neg fun both => opened both.2]
    unfold World.recvCfg Source.recvCfg at received
    rw [if_pos failed] at received
    rw [← Option.some.inj received]

end

section

variable {nested : World → Text → Text → Option World} {recvCfg : World → Except Halt World}
  {nested' : World → Text → Text → Except Halt World}

/-- What a buffer does where its calls return it does in a program that may end otherwise, if they
return there too. -/
theorem readLine_transfer
    (receives : ∀ w v w' category f, w.recvCfg = some v → nested v category f = some w' →
      recvCfg w = .ok v)
    (returns : ∀ w w' category f, nested w category f = some w' → nested' w category f = .ok w')
    {category b : Text} {next : World × Text}
    (read : readLine World.recvCfg nested w category b = some next) :
    readLine recvCfg nested' w category b = .ok next := by
  rw [readLine_eq] at read ⊢
  cases calls : calledFile b with
  | none =>
    rw [calls] at read
    cases header : opens b with
    | some name =>
      rw [header] at read
      cases read
      rfl
    | none =>
      rw [header] at read
      dsimp only at read ⊢
      split at read
      next adds =>
        cases read
        rw [if_pos adds]
        rfl
      next addsNot =>
        cases read
        rw [if_neg addsNot]
        rfl
  | some f =>
    rw [calls] at read
    obtain ⟨v, inside, read⟩ := Option.bind_eq_some_iff.mp read
    obtain ⟨v', returned, read⟩ := Option.bind_eq_some_iff.mp read
    cases read
    have entered : callWorld recvCfg w b = pure v := by
      rw [callWorld] at inside ⊢
      split at inside
      next config =>
        rw [if_pos config]
        exact receives w v v' category f inside returned
      next other =>
        cases inside
        exact if_neg other
    dsimp only
    rw [entered, pure_bind, returns v v' category f returned]
    rfl

theorem readLines_transfer
    (receives : ∀ w v w' category f, w.recvCfg = some v → nested v category f = some w' →
      recvCfg w = .ok v)
    (returns : ∀ w w' category f, nested w category f = some w' → nested' w category f = .ok w')
    {category : Text} {bs : List Text}
    (read : readLines World.recvCfg nested w category bs = some w') :
    readLines recvCfg nested' w category bs = .ok w' := by
  induction bs generalizing w category with
  | nil =>
    cases read
    rfl
  | cons b bs ih =>
    rw [readLines] at read ⊢
    obtain ⟨⟨v, category'⟩, line, read⟩ := Option.bind_eq_some_iff.mp read
    rw [readLine_transfer receives returns line]
    exact ih read

end

/-- What `read_cfg` does with a stream for every call it does where there are as many streams, and
entries in the table of open files, as calls nested in each other. -/
theorem readCfgIn_of_readCfg {depth depth' : Nat} {s : Streams} {category f : Text}
    (suffice : Suffice s depth) (read : readCfg depth w category f = some w')
    (fewer : depth ≤ depth') : readCfgIn depth' s w category f = .ok w' := by
  induction depth generalizing depth' s w w' category f with
  | zero => cases read
  | succ depth ih =>
    obtain ⟨depth', rfl⟩ := Nat.exists_eq_add_of_le' (Nat.le_trans (Nat.le_add_left 1 depth) fewer)
    obtain ⟨stream, room⟩ := suffice.stream
    rw [readCfg] at read
    rw [readCfgIn, fopenRead, if_pos stream]
    cases there : w.files.read f with
    | none =>
      rw [there] at read
      cases read
      rfl
    | some text =>
      rw [there] at read
      dsimp only
      rw [if_neg room]
      refine readLines_transfer (fun w v w' category f received returned => ?_)
        (fun w w' category f returned => ih suffice.take returned (by omega)) read
      cases depth with
      | zero => cases returned
      | succ depth => exact recvCfgIn_of_recvCfg suffice.take received

/-! ### The files that are read -/

/-- A file that has a line for which `read_cfg` is called with another. -/
def Follows (content : Text → Option Text) (f g : Text) : Prop :=
  ∃ text, content f = some text ∧ ∃ b ∈ fileLines 1000 text, calledFile b = some g

/-- A file that is read once the first one is. -/
def Reached (content : Text → Option Text) (start f : Text) : Prop :=
  Relation.ReflTransGen (Follows content) start f

/-- A download that ends, and after which the files read still have the same content: an unchanging
cfg.cache. -/
def Serves (content : Text → Option Text) (start : Text) (s : RecvScript) : Prop :=
  ∀ files : FileSys, (∀ g, Reached content start g → files.read g = content g) →
    (recvCfg s files).1 ≠ .running ∧
      ∀ g, Reached content start g → (recvCfg s files).2.read g = content g

structure Unchanging (content : Text → Option Text) (start : Text) (w : World) : Prop where
  files : ∀ g, Reached content start g → w.files.read g = content g
  net : ∀ n, Serves content start (w.net n)

/-- A file that is read before `read_cfg` is back with it leads to itself. -/
def Cyclic (content : Text → Option Text) (start : Text) : Prop :=
  ∃ g, Reached content start g ∧ Relation.TransGen (Follows content) g g

theorem unchanging_kept : Kept returns World.recvCfg (Unchanging content start) where
  received w same := by
    obtain ⟨ends, stays⟩ := same.net 0 w.files same.files
    unfold World.recvCfg
    split
    next files result =>
      rw [result] at ends
      exact absurd rfl ends
    next exit files _ result =>
      rw [result] at stays
      exact ⟨_, rfl, stays, fun n => same.net (n + 1)⟩
  stored w w' same files net := ⟨files ▸ same.files, net ▸ same.net⟩

/-! ### Files that do not lead back -/

/-- A call returns, whatever else is in the world. -/
def Returns (content : Text → Option Text) (start : Text) (fuel : Nat) (f : Text) : Prop :=
  ∀ (w : World) (category : Text), Unchanging content start w →
    ∃ w', readCfg fuel w category f = some w' ∧ Unchanging content start w'

/-- What holds of each element from some number on holds of all from some number on. -/
theorem exists_common_bound {α : Type} {P : α → Nat → Prop} {l : List α}
    (each : ∀ a ∈ l, ∃ bound, ∀ n, bound ≤ n → P a n) :
    ∃ bound, ∀ n, bound ≤ n → ∀ a ∈ l, P a n := by
  have eventually : ∀ a ∈ l, ∀ᶠ n in Filter.atTop, P a n := fun a inside =>
    Filter.eventually_atTop.mpr (each a inside)
  exact Filter.eventually_atTop.mp ((Filter.eventually_all_finite l.finite_toSet).mpr eventually)

theorem returns_of_acc {f : Text} (acc : Acc (fun g f => Follows content f g) f)
    (reached : Reached content start f) :
    ∃ depth, ∀ fuel, depth ≤ fuel → Returns content start fuel f := by
  induction acc with
  | intro f _ ih =>
    have called : ∀ text, content f = some text →
        ∃ depth, ∀ fuel, depth ≤ fuel → ∀ b ∈ fileLines 1000 text, ∀ g,
          calledFile b = some g → Returns content start fuel g := by
      intro text there
      refine exists_common_bound fun b inside => ?_
      cases call : calledFile b with
      | none => exact ⟨0, fun fuel _ g none => by cases none⟩
      | some g =>
        have step : Follows content f g := ⟨text, there, b, inside, call⟩
        obtain ⟨depth, returns⟩ := ih g step (reached.tail step)
        refine ⟨depth, fun fuel enough g' same => ?_⟩
        obtain rfl := Option.some.inj same
        exact returns fuel enough
    cases there : content f with
    | none =>
      refine ⟨1, fun fuel enough w category same => ?_⟩
      obtain ⟨fuel, rfl⟩ := Nat.exists_eq_add_of_le' enough
      rw [readCfg, same.files f reached, there]
      exact ⟨w, rfl, same⟩
    | some text =>
      obtain ⟨depth, returns⟩ := called text there
      refine ⟨depth + 1, fun fuel enough w category same => ?_⟩
      obtain ⟨fuel, rfl⟩ := Nat.exists_eq_add_of_le' (Nat.le_trans (Nat.le_add_left 1 depth) enough)
      rw [readCfg, same.files f reached, there]
      exact readLines_kept unchanging_kept same (returns fuel (by omega)) _

/-! ### Calls that returned -/

/-- What a call says once it has returned: the files are the same, and the one it was for is not
followed for ever. -/
def Said (content : Text → Option Text) (start : Text)
    (nested : World → Text → Text → Option World) : Prop :=
  ∀ (w w' : World) (category f : Text), Unchanging content start w → Reached content start f →
    nested w category f = some w' →
      Unchanging content start w' ∧ Acc (fun g f => Follows content f g) f

theorem said_readLine {nested : World → Text → Text → Option World}
    (said : Said content start nested) (same : Unchanging content start w)
    {category category' b : Text} (reached : ∀ g, calledFile b = some g → Reached content start g)
    (read : readLine World.recvCfg nested w category b = some (w', category')) :
    Unchanging content start w' ∧
      ∀ g, calledFile b = some g → Acc (fun g f => Follows content f g) g := by
  have nothing : calledFile b = none →
      ∀ g, calledFile b = some g → Acc (fun g f => Follows content f g) g := by
    intro noCall g calls
    rw [noCall] at calls
    cases calls
  cases readLine_step read with
  | @called f v _ calls inside returned =>
    obtain ⟨v', inside', stays⟩ := callWorld_kept unchanging_kept same b
    obtain rfl := Option.some.inj (inside'.symm.trans inside)
    obtain ⟨stays', acc⟩ := said v' w' category f stays (reached f calls) returned
    refine ⟨stays', fun g same => ?_⟩
    obtain rfl := Option.some.inj (calls.symm.trans same)
    exact acc
  | opened noCall => exact ⟨same, nothing noCall⟩
  | added noCall => exact ⟨unchanging_kept.stored _ _ same rfl rfl, nothing noCall⟩
  | inert noCall => exact ⟨unchanging_kept.stored _ _ same rfl rfl, nothing noCall⟩

theorem said_readLines {nested : World → Text → Text → Option World}
    (said : Said content start nested) (same : Unchanging content start w) {category : Text}
    {bs : List Text} (reached : ∀ b ∈ bs, ∀ g, calledFile b = some g → Reached content start g)
    (read : readLines World.recvCfg nested w category bs = some w') :
    Unchanging content start w' ∧
      ∀ b ∈ bs, ∀ g, calledFile b = some g → Acc (fun g f => Follows content f g) g := by
  induction bs generalizing w category with
  | nil =>
    cases read
    exact ⟨same, fun b member => absurd member List.not_mem_nil⟩
  | cons b bs ih =>
    obtain ⟨first, others⟩ := List.forall_mem_cons.mp reached
    rw [readLines] at read
    obtain ⟨⟨v, category'⟩, line, read⟩ := Option.bind_eq_some_iff.mp read
    obtain ⟨stays, acc⟩ := said_readLine said same first line
    obtain ⟨stays', acc'⟩ := ih stays others read
    exact ⟨stays', List.forall_mem_cons.mpr ⟨acc, acc'⟩⟩

theorem said_readCfg (depth : Nat) : Said content start (readCfg depth) := by
  induction depth with
  | zero =>
    intro w w' category f _ _ read
    cases read
  | succ depth ih =>
    intro w w' category f same reached read
    rw [readCfg, same.files f reached] at read
    cases there : content f with
    | none =>
      rw [there] at read
      obtain rfl := Option.some.inj read
      refine ⟨same, Acc.intro f fun g follows => ?_⟩
      obtain ⟨text, there', -⟩ := follows
      rw [there] at there'
      cases there'
    | some text =>
      rw [there] at read
      have behind : ∀ b ∈ fileLines 1000 text, ∀ g, calledFile b = some g →
          Reached content start g := fun b inside g call =>
        reached.tail ⟨text, there, b, inside, call⟩
      obtain ⟨stays, acc⟩ := said_readLines ih same behind read
      refine ⟨stays, Acc.intro f fun g follows => ?_⟩
      obtain ⟨text', there', b, inside, call⟩ := follows
      rw [there] at there'
      obtain rfl := Option.some.inj there'
      exact acc b inside g call

/-- With unchanging files and a stream for every call `read_cfg` would return if and only if no file
that it reads leads to itself: a reading of one that does is ended by what there is to open files
with only. -/
theorem readCfg_returns_iff (w : World) (category f : Text)
    (served : ∀ n, Serves w.files.read f (w.net n)) :
    (∃ depth w', readCfg depth w category f = some w') ↔ ¬ Cyclic w.files.read f := by
  have same : Unchanging w.files.read f w := ⟨fun _ _ => rfl, served⟩
  have leaves : ∀ g g', Follows w.files.read g g' → g ∈ {f | w.files.read f ≠ none} := by
    rintro g g' ⟨text, there, -⟩
    simp [there]
  unfold Cyclic Reached
  rw [← Acyclic.acc_iff_no_cycle (finite_read w.files) leaves f]
  constructor
  · rintro ⟨depth, w', read⟩
    exact (said_readCfg depth w w' category f same .refl read).2
  · intro acc
    obtain ⟨depth, returns⟩ := returns_of_acc acc .refl
    obtain ⟨w', read, -⟩ := returns depth (Nat.le_refl depth) w category same
    exact ⟨depth, w', read⟩

/-- Files that do not lead back are read alike wherever there are streams enough. -/
theorem readCfgIn_of_not_cyclic (w : World) (category f : Text)
    (served : ∀ n, Serves w.files.read f (w.net n)) (acyclic : ¬ Cyclic w.files.read f) :
    ∃ depth w', ∀ s depth', Suffice s depth → depth ≤ depth' →
      readCfgIn depth' s w category f = .ok w' := by
  obtain ⟨depth, w', read⟩ := (readCfg_returns_iff w category f served).mpr acyclic
  exact ⟨depth, w', fun _ _ suffice fewer => readCfgIn_of_readCfg suffice read fewer⟩

end MrBig.Guarantees.ReadCfgTerminates
