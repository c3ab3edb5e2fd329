import MrBig.Library.Delimited
import MrBig.Library.Word
import MrBig.Source.CString

/-!
# Conversions of the C library

`sscanf`, `strtok`, `atoi` and `atof` on NUL-free text. What `%d` and `atoi` make of a numeral
that an `int` does not have is left to the library.
-/

set_option autoImplicit false

namespace MrBig.Source
open Library

def isspace (c : Char) : Bool := c ∈ [' ', '\t', '\n', '\x0b', '\x0c', '\r']

/-- `%s` of `sscanf`: the word and what follows it. -/
def scanWord (s : Text) : Option (Text × Text) :=
  match s.dropWhile isspace with
  | [] => none
  | word => some (word.takeWhile (!isspace ·), word.dropWhile (!isspace ·))

/-- `%[^\n]` of `sscanf`, behind a blank in the format. -/
def scanLine (s : Text) : Option Text :=
  match (s.dropWhile isspace).takeWhile (· ≠ '\n') with
  | [] => none
  | line => some line

theorem ne_nil_of_scanLine {s line : Text} (found : scanLine s = some line) : line ≠ [] := by
  unfold scanLine at found
  split at found
  next => cases found
  next line' nonempty =>
    obtain rfl := Option.some.inj found
    exact nonempty

/-- Two `%s` and what `last` makes of the rest, in order; the first conversion that fails is
the last. -/
def scanTwoWords (last : Text → Option Text) (s : Text) :
    Option Text × Option Text × Option Text :=
  match scanWord s with
  | none => (none, none, none)
  | some (first, afterFirst) =>
    match scanWord afterFirst with
    | none => (some first, none, none)
    | some (second, afterSecond) => (some first, some second, last afterSecond)

/-! ### What the conversions find -/

def Blank (s : Text) : Prop := ∀ c ∈ s, isspace c

/-- A word ends where the text does or at a blank. -/
def WordEnds (rest : Text) : Prop := ∀ c ∈ rest.head?, isspace c

/-- Nonempty, and no character of it is a blank. -/
def IsWord (word : Text) : Prop := word ≠ [] ∧ ∀ c ∈ word, ¬ isspace c

instance (word : Text) : Decidable (IsWord word) :=
  decidable_of_iff ((!word.isEmpty && word.all fun c => !isspace c) = true) (by simp [IsWord])

theorem skipBlanks_iff {s text : Text} (solid : ∀ c ∈ text.head?, ¬ isspace c) :
    s.dropWhile isspace = text ↔ ∃ lead, Blank lead ∧ s = lead ++ text := by
  constructor
  · intro dropped
    obtain ⟨split, blank, _⟩ := Delimited.longestRun_iff.mp ⟨rfl, dropped⟩
    exact ⟨_, blank, split⟩
  · rintro ⟨lead, blank, rfl⟩
    exact (Delimited.longestRun_iff.mpr ⟨rfl, blank, solid⟩).2

theorem scanWord_eq_some_iff {s word rest : Text} :
    scanWord s = some (word, rest) ↔
      ∃ lead, Blank lead ∧ IsWord word ∧ WordEnds rest ∧ s = lead ++ (word ++ rest) := by
  have run : ∀ text : Text, text ≠ [] → (∀ c ∈ text.head?, ¬ isspace c) →
      ((text.takeWhile (!isspace ·), text.dropWhile (!isspace ·)) = (word, rest) ↔
        text = word ++ rest ∧ IsWord word ∧ WordEnds rest) := by
    intro text nonempty solid
    rw [Prod.mk.injEq, Delimited.longestRun_iff]
    constructor
    · rintro ⟨split, letters, ends⟩
      refine ⟨split, ⟨?_, by simpa using letters⟩, by simpa [WordEnds] using ends⟩
      rintro rfl
      obtain ⟨c, rest', rfl⟩ := List.exists_cons_of_ne_nil nonempty
      rw [List.nil_append] at split
      subst split
      have blank := ends c rfl
      have letter := solid c rfl
      simp_all
    · rintro ⟨split, ⟨_, letters⟩, ends⟩
      exact ⟨split, by simpa using letters, by simpa [WordEnds] using ends⟩
  constructor
  · intro found
    unfold scanWord at found
    split at found
    next => cases found
    next text nonempty =>
      have solid : ∀ c ∈ (s.dropWhile isspace).head?, ¬ isspace c :=
        (Delimited.longestRun_iff.mp ⟨rfl, rfl⟩).2.2
      obtain ⟨lead, blank, split⟩ := (skipBlanks_iff solid).mp rfl
      obtain ⟨text, word, ends⟩ := (run _ nonempty solid).mp (Option.some.inj found)
      exact ⟨lead, blank, word, ends, split.trans (congrArg (lead ++ ·) text)⟩
  · rintro ⟨lead, blank, word, ends, split⟩
    obtain ⟨nonempty, letters⟩ := word
    obtain ⟨c, tail, rfl⟩ := List.exists_cons_of_ne_nil nonempty
    have solid : ∀ d ∈ (c :: tail ++ rest).head?, ¬ isspace d := by
      intro d head
      obtain rfl : c = d := by simpa using head
      exact letters c List.mem_cons_self
    have dropped := (skipBlanks_iff solid).mpr ⟨lead, blank, split⟩
    unfold scanWord
    rw [dropped]
    exact congrArg some ((run _ (by simp) solid).mpr ⟨rfl, ⟨nonempty, letters⟩, ends⟩)

theorem scanWord_eq_none_iff {s : Text} : scanWord s = none ↔ Blank s := by
  have rest : scanWord s = none ↔ s.dropWhile isspace = [] := by
    unfold scanWord
    cases s.dropWhile isspace <;> simp
  rw [rest, List.dropWhile_eq_nil_iff]
  rfl

theorem scanTwoWords_eq_iff {last : Text → Option Text} {s first second third : Text} :
    scanTwoWords last s = (some first, some second, some third) ↔
      ∃ afterFirst afterSecond, scanWord s = some (first, afterFirst) ∧
        scanWord afterFirst = some (second, afterSecond) ∧ last afterSecond = some third := by
  constructor
  · intro scanned
    unfold scanTwoWords at scanned
    split at scanned
    next => cases scanned
    next word rest found =>
      split at scanned
      next => cases scanned
      next word' rest' found' =>
        simp only [Prod.mk.injEq, Option.some.injEq] at scanned
        obtain ⟨rfl, rfl, found''⟩ := scanned
        exact ⟨rest, rest', found, found', found''⟩
  · rintro ⟨afterFirst, afterSecond, found, found', found''⟩
    simp [scanTwoWords, found, found', found'']

/-! ### Numerals -/

def digits (s : Text) : Text := s.takeWhile Char.isDigit

def numeral (s : Text) : Nat := s.foldl (fun n c => 10 * n + (c.toNat - '0'.toNat)) 0

/-- An optional sign and digits. -/
def scanSigned (s : Text) : Option Int :=
  match s with
  | '-' :: s => if digits s = [] then none else some (-numeral (digits s))
  | '+' :: s => if digits s = [] then none else some (numeral (digits s))
  | s => if digits s = [] then none else some (numeral (digits s))

/-- The number at the beginning of a text, zero where there is none. -/
def number (s : Text) : Int := (scanSigned (s.dropWhile isspace)).getD 0

/-- An `int` has the number. -/
def InInt (n : Int) : Prop := -2147483648 ≤ n ∧ n ≤ 2147483647

instance (n : Int) : Decidable (InInt n) := inferInstanceAs (Decidable (_ ∧ _))

/-- The conversions to `int` as the C library specifies them: the number, if an `int` has it. -/
class CLibrary where
  percentD : Text → Int
  atoi : Text → Int
  percentD_int : ∀ s, InInt (percentD s)
  atoi_int : ∀ s, InInt (atoi s)
  percentD_exact : ∀ s, InInt (number s) → percentD s = number s
  atoi_exact : ∀ s, InInt (number s) → atoi s = number s

theorem inInt_signed (n : Int) : InInt (Word.signed 32 n) := by
  have low := Int.le_bmod (x := n) (m := 4294967296) (by decide)
  have high := Int.bmod_lt (x := n) (m := 4294967296) (by decide)
  change -2147483648 ≤ n.bmod 4294967296 ∧ n.bmod 4294967296 ≤ 2147483647
  omega

theorem signed_of_inInt {n : Int} (fits : InInt n) : Word.signed 32 n = n :=
  Word.signed_of_abs_le fits.1 (by have high := fits.2; omega)

/-- The C runtime of Windows keeps the low 32 bits. -/
instance windowsRuntime : CLibrary where
  percentD s := Word.signed 32 (number s)
  atoi s := Word.signed 32 (number s)
  percentD_int _ := inInt_signed _
  atoi_int _ := inInt_signed _
  percentD_exact _ := signed_of_inInt
  atoi_exact _ := signed_of_inInt

section
variable [CLibrary]

/-- `%d` of `sscanf`. -/
def scanInt (s : Text) : Option Int :=
  (scanSigned (s.dropWhile isspace)).map fun _ => CLibrary.percentD s

def atoi (s : Text) : Int := CLibrary.atoi s

end

/-- What `%d` leaves. -/
def afterInt (s : Text) : Text :=
  match s.dropWhile isspace with
  | '-' :: s | '+' :: s => s.dropWhile Char.isDigit
  | s => s.dropWhile Char.isDigit

/-- The exponent behind the digits of a number, if there is one. -/
def scanExponent (s : Text) : Int :=
  match s with
  | 'e' :: s | 'E' :: s => (scanSigned s).getD 0
  | _ => 0

/-- A number without its sign. -/
def scanFloat (s : Text) : Float :=
  let whole := digits s
  let s := s.drop whole.length
  let fraction := if s.head? = some '.' then digits s.tail else []
  let s := if s.head? = some '.' then s.tail.drop fraction.length else s
  if whole ++ fraction = [] then 0
  else
    let exponent := scanExponent s - fraction.length
    Float.ofScientific (numeral (whole ++ fraction)) (exponent < 0) exponent.natAbs

def atof (s : Text) : Float :=
  match s.dropWhile isspace with
  | '-' :: s => -scanFloat s
  | '+' :: s => scanFloat s
  | s => scanFloat s

/-! ### What `%d` prints -/

theorem printInt_eq (n : Int) :
    printInt n = if 0 ≤ n then Nat.toDigits 10 n.toNat else '-' :: Nat.toDigits 10 (-n).toNat := by
  unfold printInt
  rw [Int.toString_eq_repr, Int.repr_eq_if]
  split <;> simp

theorem digits_toDigits (n : Nat) : digits (Nat.toDigits 10 n) = Nat.toDigits 10 n :=
  List.takeWhile_eq_self_iff.mpr fun _ member =>
    Nat.isDigit_of_mem_toDigits (by decide) (by decide) member

theorem numeral_toDigits (n : Nat) : numeral (Nat.toDigits 10 n) = n :=
  Nat.ofDigitChars_ten_toDigits

/-- What `%d` prints has no blank and no control character in it. -/
theorem printInt_solid (n : Int) : ∀ c ∈ printInt n, ¬ isspace c ∧ c ≠ '\x00' := by
  have ofDigits : ∀ m, ∀ c ∈ Nat.toDigits 10 m, ¬ isspace c ∧ c ≠ '\x00' := by
    intro m c member
    have digit := Nat.isDigit_of_mem_toDigits (by decide) (by decide) member
    constructor
    · intro blank
      simp only [isspace, List.mem_cons, List.not_mem_nil, or_false, decide_eq_true_eq] at blank
      rcases blank with rfl | rfl | rfl | rfl | rfl | rfl <;> simp at digit
    · rintro rfl
      simp at digit
  intro c member
  rw [printInt_eq] at member
  split at member
  · exact ofDigits _ c member
  · rcases List.mem_cons.mp member with rfl | member
    · decide
    · exact ofDigits _ c member

theorem printInt_ne_nil (n : Int) : printInt n ≠ [] := by
  rw [printInt_eq]
  split <;> simp

theorem printInt_length {n : Int} (low : -2147483648 ≤ n) (high : n < 2147483648) :
    (printInt n).length ≤ 11 := by
  have ten : ∀ m, m < 10 ^ 10 → (Nat.toDigits 10 m).length ≤ 10 := fun m small =>
    (Nat.length_toDigits_le_iff (by decide) (by decide)).mpr small
  rw [printInt_eq]
  split
  · have few := ten n.toNat (by omega)
    omega
  · have few := ten (-n).toNat (by omega)
    rw [List.length_cons]
    omega

theorem scanSigned_digits {s : Text} (notEmpty : s ≠ []) (digit : ∀ c ∈ s, c.isDigit) :
    scanSigned s = some (numeral s : Int) := by
  have all : digits s = s := List.takeWhile_eq_self_iff.mpr digit
  unfold scanSigned
  split
  next rest => simpa using digit '-' List.mem_cons_self
  next rest => simpa using digit '+' List.mem_cons_self
  next => rw [all, if_neg notEmpty]

theorem scanSigned_toDigits (n : Nat) : scanSigned (Nat.toDigits 10 n) = some (n : Int) := by
  rw [scanSigned_digits Nat.toDigits_ne_nil fun c member =>
    Nat.isDigit_of_mem_toDigits (by decide) (by decide) member, numeral_toDigits]

theorem not_isspace_of_isDigit {c : Char} (digit : c.isDigit) : ¬ isspace c := by
  intro blank
  simp only [isspace, List.mem_cons, List.not_mem_nil, or_false, decide_eq_true_eq] at blank
  rcases blank with rfl | rfl | rfl | rfl | rfl | rfl <;> simp at digit

/-- An unsigned number. -/
theorem number_digits {s : Text} (notEmpty : s ≠ []) (digit : ∀ c ∈ s, c.isDigit) :
    number s = numeral s := by
  have solid : s.dropWhile isspace = s :=
    List.dropWhile_eq_self_iff.mpr fun nonempty => by
      simpa using not_isspace_of_isDigit (digit _ (List.getElem_mem nonempty))
  rw [number, solid, scanSigned_digits notEmpty digit]
  rfl

/-- What `%d` prints is the number. -/
theorem number_printInt (n : Int) : number (printInt n) = n := by
  have solid : (printInt n).dropWhile isspace = printInt n :=
    List.dropWhile_eq_self_iff.mpr fun nonempty => by
      simpa using (printInt_solid n _ (List.getElem_mem nonempty)).1
  unfold number
  rw [solid, printInt_eq]
  split
  next nonneg =>
    rw [scanSigned_toDigits]
    exact Int.toNat_of_nonneg nonneg
  next negative =>
    simp only [scanSigned, digits_toDigits, numeral_toDigits, if_neg Nat.toDigits_ne_nil,
      Option.getD_some]
    omega

/-- A number ends where its digits do. -/
theorem toDigits_append_inj {n m : Nat} {s t : Text} (stop : ∀ c ∈ s.head?, ¬ c.isDigit)
    (stop' : ∀ c ∈ t.head?, ¬ c.isDigit)
    (same : Nat.toDigits 10 n ++ s = Nat.toDigits 10 m ++ t) : n = m ∧ s = t := by
  have digit : ∀ k, ∀ c ∈ Nat.toDigits 10 k, c.isDigit := fun k c member =>
    Nat.isDigit_of_mem_toDigits (by decide) (by decide) member
  obtain ⟨run, rest⟩ := Delimited.longestRun_iff.mpr ⟨rfl, digit n, stop⟩
  obtain ⟨run', rest'⟩ := Delimited.longestRun_iff.mpr ⟨same, digit m, stop'⟩
  have numerals : Nat.toDigits 10 n = Nat.toDigits 10 m := run.symm.trans run'
  constructor
  · rw [← numeral_toDigits n, ← numeral_toDigits m, numerals]
  · exact rest.symm.trans rest'

/-! ### Tokens -/

/-- `strtok`: the token behind the leading delimiters and what the next call with NULL
starts from; nothing stands for the null pointer. -/
def strtok (s delims : Text) : Option (Text × Text) :=
  match s.dropWhile (· ∈ delims) with
  | [] => none
  | token => some (token.takeWhile (· ∉ delims), (token.dropWhile (· ∉ delims)).tail)

theorem strtok_eq_none_iff {s delims : Text} :
    strtok s delims = none ↔ ∀ c ∈ s, c ∈ delims := by
  have rest : strtok s delims = none ↔ s.dropWhile (· ∈ delims) = [] := by
    unfold strtok
    cases s.dropWhile (· ∈ delims) <;> simp
  rw [rest, List.dropWhile_eq_nil_iff]
  simp

/-- Without delimiters the token is all there is. -/
theorem strtok_whole (s : Text) : strtok s [] = if s = [] then none else some (s, []) := by
  cases s with
  | nil => rfl
  | cons c s =>
    have whole : s.dropWhile (fun _ => true) = [] := List.dropWhile_eq_nil_iff.mpr fun _ _ => rfl
    simp [strtok, whole]

/-- A token that a delimiter ends. -/
theorem strtok_of_cut {delim : Char} {s token rest : Text}
    (cut : Delimited.cut delim s = some (token, rest)) (nonempty : token ≠ []) :
    strtok s [delim] = some (token, rest) := by
  obtain ⟨rfl, plain⟩ := Delimited.eq_of_cut cut
  have all : ∀ c ∈ token, c ≠ delim := fun c member same => plain (same ▸ member)
  obtain ⟨c, token, rfl⟩ := List.exists_cons_of_ne_nil nonempty
  have first := all c List.mem_cons_self
  have start : (c :: token ++ delim :: rest).dropWhile (· ∈ [delim]) =
      c :: token ++ delim :: rest := by
    simp [first]
  have stop : (c :: token ++ delim :: rest).takeWhile (· ∉ [delim]) = c :: token ∧
      (c :: token ++ delim :: rest).dropWhile (· ∉ [delim]) = delim :: rest :=
    Delimited.longestRun_iff.mpr ⟨rfl, by simpa using all, by simp⟩
  obtain ⟨run, behind⟩ := stop
  unfold strtok
  rw [start]
  dsimp only [List.cons_append]
  rw [← List.cons_append, run, behind, List.tail_cons]

/-- A token is never empty. -/
theorem ne_nil_of_strtok {s delims token rest : Text}
    (found : strtok s delims = some (token, rest)) : token ≠ [] := by
  unfold strtok at found
  have stops := List.head?_dropWhile_not (fun c => decide (c ∈ delims)) s
  cases behind : s.dropWhile (· ∈ delims) with
  | nil =>
    rw [behind] at found
    cases found
  | cons c text =>
    rw [behind] at found stops
    have letter : c ∉ delims := by simpa using stops
    obtain ⟨rfl, -⟩ := Prod.mk.inj (Option.some.inj found)
    simp [letter]

end MrBig.Source
