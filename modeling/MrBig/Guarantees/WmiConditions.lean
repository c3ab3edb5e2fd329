import MrBig.Source.Wmi

/-!
# Numbers in WMI conditions

A condition compares numbers with `atoi` if its operand starts with a digit, and texts if it
starts with a sign. `atoi` has an `int` to give, whatever the number; the order of two texts is
that of their first digits, from the most significant on, and then of their lengths.
-/

set_option autoImplicit false

namespace MrBig.Guarantees.WmiConditions
open Library Source Source.Wmi

/-! ### Conditions -/

inductive Comparison where
  | eq
  | lt
  | le
  | gt
  | ge
  deriving DecidableEq, Repr

def Comparison.text : Comparison → Text
  | .eq => "=".toList
  | .lt => "<".toList
  | .le => "<=".toList
  | .gt => ">".toList
  | .ge => ">=".toList

/-- The comparison of two integers. -/
def Comparison.Holds : Comparison → Int → Int → Prop
  | .eq, a, b => a = b
  | .lt, a, b => a < b
  | .le, a, b => a ≤ b
  | .gt, a, b => a > b
  | .ge, a, b => a ≥ b

inductive Sign where
  | unsigned
  | plus
  | minus
  deriving DecidableEq, Repr

/-- A decimal integer as it stands in the configuration. -/
structure Operand where
  sign : Sign
  digits : Text
  nonempty : digits ≠ []
  decimal : ∀ c ∈ digits, c.isDigit

def Operand.text (o : Operand) : Text :=
  match o.sign with
  | .unsigned => o.digits
  | .plus => '+' :: o.digits
  | .minus => '-' :: o.digits

def Operand.value (o : Operand) : Int :=
  match o.sign with
  | .unsigned | .plus => numeral o.digits
  | .minus => -numeral o.digits

/-- The condition on a field and a value is answered as the integers compare, whatever the library
makes of a number too large for it. -/
def ComparesNumbers (op : Comparison) (v : Int) (o : Operand) : Prop :=
  ∀ [CLibrary] (field : Text),
    bullet ⟨field, op.text, o.text⟩ (some (printInt v)) = .green ↔ op.Holds v o.value

/-! ### When it is -/

/-- The order of two strings of digits: of the numbers in front, as far as both go, and then of
the lengths. -/
def digitOrder (s t : Text) : Ordering :=
  (compare (numeral (s.take t.length)) (numeral (t.take s.length))).then
    (compare s.length t.length)

/-- The order of a number's text and a signed operand's: a digit comes behind both signs, and minus
behind plus. -/
def textOrder (v : Int) (o : Operand) : Ordering :=
  if o.sign = .plus ∨ 0 ≤ v then .gt else digitOrder (printInt (-v)) o.digits

/-- Two orders have the same answer to a comparison. -/
def Comparison.Alike : Comparison → Ordering → Ordering → Prop
  | .eq, a, b => a = .eq ↔ b = .eq
  | .lt, a, b | .ge, a, b => a = .lt ↔ b = .lt
  | .le, a, b | .gt, a, b => a = .gt ↔ b = .gt

/-- Both numbers fit an `int`, or are written alike, or the one that fits is the last of its side,
and the comparison is not strict where it says so. -/
def Fitting (op : Comparison) (v : Int) (o : Operand) : Prop :=
  InInt v ∧ InInt o.value ∨ printInt v = o.digits ∨
    (op = .le ∨ op = .gt) ∧
      (v < -2147483648 ∧ o.value = 2147483647 ∨ v = -2147483648 ∧ 2147483647 < o.value)

/-- A condition is on numbers where the operand is unsigned, and on texts where it is not. -/
def Numeric (op : Comparison) (v : Int) (o : Operand) : Prop :=
  if o.sign = .unsigned then Fitting op v o
  else op.Alike (compare v o.value) (textOrder v o)

/-! ### Orders -/

theorem compares_compare (op : Comparison) (a b : Int) :
    compares op.text (compare a b) = true ↔ op.Holds a b := by
  rcases Int.lt_trichotomy a b with less | same | more
  · rw [Int.compare_eq_lt.mpr less]
    cases op <;> simp [compares, Comparison.text, Comparison.Holds] <;> omega
  · rw [Int.compare_eq_eq.mpr same]
    cases op <;> simp [compares, Comparison.text, Comparison.Holds] <;> omega
  · rw [Int.compare_eq_gt.mpr more]
    cases op <;> simp [compares, Comparison.text, Comparison.Holds] <;> omega

theorem compares_alike (op : Comparison) (a b : Ordering) :
    (compares op.text a = true ↔ compares op.text b = true) ↔ op.Alike a b := by
  cases op <;> cases a <;> cases b <;> simp [compares, Comparison.text, Comparison.Alike]

/-! ### The text of a number -/

theorem numeral_cons (c : Char) (s : Text) :
    numeral (c :: s) = 10 ^ s.length * (c.toNat - '0'.toNat) + numeral s := by
  have leading : Nat.ofDigitChars 10 s (c.toNat - '0'.toNat) = _ :=
    Nat.ofDigitChars_eq_ofDigitChars_zero
  rw [Nat.ofDigitChars_eq_foldl, Nat.ofDigitChars_eq_foldl] at leading
  rw [numeral, List.foldl_cons, Nat.mul_zero, Nat.zero_add, leading]
  rfl

theorem numeral_lt {s : Text} (digit : ∀ c ∈ s, c.isDigit) : numeral s < 10 ^ s.length := by
  induction s with
  | nil => decide
  | cons c s ih =>
    obtain ⟨first, rest⟩ := List.forall_mem_cons.mp digit
    have behind := ih rest
    have nine : c.toNat - '0'.toNat ≤ 9 := by
      have bounds := Char.isDigit_iff_toNat.mp first
      change 48 ≤ c.toNat ∧ c.toNat ≤ 57 at bounds
      change c.toNat - 48 ≤ 9
      omega
    have leading := Nat.mul_le_mul_left (10 ^ s.length) nine
    rw [numeral_cons, List.length_cons, Nat.pow_succ]
    omega

/-- Numbers with a leading digit each are ordered by it, and then by what is behind it. -/
theorem compare_leading {base a b x y : Nat} (first : x < base) (second : y < base) :
    compare (base * a + x) (base * b + y) = (compare a b).then (compare x y) := by
  rcases Nat.lt_trichotomy a b with less | rfl | more
  · have product := Nat.mul_le_mul_left base (Nat.succ_le_of_lt less)
    rw [Nat.mul_succ] at product
    rw [Nat.compare_eq_lt.mpr less, Nat.compare_eq_lt.mpr (by omega)]
    rfl
  · rw [Nat.compare_eq_eq.mpr rfl, Ordering.eq_then]
    rcases Nat.lt_trichotomy x y with less | rfl | more
    · rw [Nat.compare_eq_lt.mpr less, Nat.compare_eq_lt.mpr (by omega)]
    · rw [Nat.compare_eq_eq.mpr rfl, Nat.compare_eq_eq.mpr rfl]
    · rw [Nat.compare_eq_gt.mpr more, Nat.compare_eq_gt.mpr (by omega)]
  · have product := Nat.mul_le_mul_left base (Nat.succ_le_of_lt more)
    rw [Nat.mul_succ] at product
    rw [Nat.compare_eq_gt.mpr more, Nat.compare_eq_gt.mpr (by omega)]
    rfl

/-- `strcmp` on digits. -/
theorem strcmp_digits {s t : Text} (sDigit : ∀ c ∈ s, c.isDigit) (tDigit : ∀ c ∈ t, c.isDigit) :
    strcmp s t = digitOrder s t := by
  induction s generalizing t with
  | nil => cases t <;> rfl
  | cons c s ih =>
    cases t with
    | nil => rfl
    | cons d t =>
      obtain ⟨cDigit, sRest⟩ := List.forall_mem_cons.mp sDigit
      obtain ⟨dDigit, tRest⟩ := List.forall_mem_cons.mp tDigit
      have same : (s.take t.length).length = (t.take s.length).length := by
        rw [List.length_take, List.length_take, Nat.min_comm]
      have first : numeral (s.take t.length) < 10 ^ (t.take s.length).length := by
        rw [← same]
        exact numeral_lt fun e member => sRest e (List.mem_of_mem_take member)
      have second : numeral (t.take s.length) < 10 ^ (t.take s.length).length :=
        numeral_lt fun e member => tRest e (List.mem_of_mem_take member)
      have leading : compare c.toNat d.toNat =
          compare (c.toNat - '0'.toNat) (d.toNat - '0'.toNat) := by
        have cBounds := Char.isDigit_iff_toNat.mp cDigit
        have dBounds := Char.isDigit_iff_toNat.mp dDigit
        rw [Nat.compare_eq_ite_lt, Nat.compare_eq_ite_lt]
        congr 1
        · rw [eq_iff_iff]
          omega
        · congr 1
          rw [eq_iff_iff]
          omega
      have lengths : compare (s.length + 1) (t.length + 1) = compare s.length t.length := by
        simp only [Nat.compare_eq_ite_lt, Nat.add_lt_add_iff_right]
      rw [strcmp, ih sRest tRest, digitOrder, digitOrder, List.length_cons, List.length_cons,
        List.take_succ_cons, List.take_succ_cons, numeral_cons, numeral_cons, same,
        compare_leading first second, leading, lengths, Ordering.then_assoc]

section

variable {op : Comparison} {v : Int} {o : Operand}

theorem Operand.isDigit_head (o : Operand) :
    o.text.head?.elim false Char.isDigit = true ↔ o.sign = .unsigned := by
  obtain ⟨sign, digits, nonempty, decimal⟩ := o
  cases sign with
  | unsigned =>
    obtain ⟨c, rest, rfl⟩ := List.exists_cons_of_ne_nil nonempty
    simpa [Operand.text] using decimal c List.mem_cons_self
  | plus => simp [Operand.text]
  | minus => simp [Operand.text]

theorem Operand.text_ne_nil (o : Operand) : o.text ≠ [] := by
  obtain ⟨sign, digits, nonempty, decimal⟩ := o
  cases sign with
  | unsigned => exact nonempty
  | plus => exact List.cons_ne_nil _ _
  | minus => exact List.cons_ne_nil _ _

/-- The bullet of a value that is not cut off. -/
theorem bullet_green_iff [CLibrary] (field : Text) (whole : (printInt v).length ≤ 999) :
    bullet ⟨field, op.text, o.text⟩ (some (printInt v)) = .green ↔
      if o.sign = .unsigned then op.Holds (atoi (printInt v)) (atoi o.text)
      else compares op.text (strcmp (printInt v) o.text) = true := by
  have nonempty : op.text ≠ [] ∧ o.text ≠ [] := by
    refine ⟨?_, o.text_ne_nil⟩
    cases op <;> decide
  have other : (op.text == "contains".toList) = false := by cases op <;> decide
  have decided : ∀ b : Bool,
      (if b = true then Bullet.green else Bullet.red) = .green ↔ b = true := by
    decide
  unfold bullet
  dsimp only
  rw [if_pos nonempty, decided, List.take_of_length_le whole, satisfied]
  dsimp only
  by_cases unsigned : o.sign = .unsigned
  · rw [if_pos (o.isDigit_head.mpr unsigned), if_pos unsigned, compares_compare]
  · rw [if_neg fun digit => unsigned (o.isDigit_head.mp digit), if_neg unsigned, other,
      Bool.false_and, Bool.or_false]

/-! ### Unsigned operands -/

/-- A library that gives `first` for one text and `second` for the others, where it is free to. -/
@[reducible] def freeLibrary (text : Text) (first second : Int) (firstInt : InInt first)
    (secondInt : InInt second) : CLibrary :=
  { windowsRuntime with
    atoi := fun s => if InInt (number s) then number s else if s = text then first else second
    atoi_int := by
      intro s
      split
      · assumption
      · split
        · exact firstInt
        · exact secondInt
    atoi_exact := fun s fits => if_pos fits }

theorem Operand.number_text (unsigned : o.sign = .unsigned) : number o.text = o.value := by
  rw [Operand.text, Operand.value, unsigned]
  exact number_digits o.nonempty o.decimal

theorem Operand.value_nonneg (unsigned : o.sign = .unsigned) : 0 ≤ o.value := by
  rw [Operand.value, unsigned]
  exact Int.natCast_nonneg _

/-- What the library may give for a value and an operand that are written differently. -/
theorem holds_free (unsigned : o.sign = .unsigned) (differ : printInt v ≠ o.digits)
    (every : ∀ library : CLibrary, op.Holds (library.atoi (printInt v)) (library.atoi o.text) ↔
      op.Holds v o.value) {a b : Int} (aInt : InInt a) (bInt : InInt b)
    (aExact : InInt v → a = v) (bExact : InInt o.value → b = o.value) :
    op.Holds a b ↔ op.Holds v o.value := by
  have text : o.text = o.digits := by rw [Operand.text, unsigned]
  have free := every (freeLibrary (printInt v) a b aInt bInt)
  have first : (freeLibrary (printInt v) a b aInt bInt).atoi (printInt v) = a := by
    change (if InInt (number (printInt v)) then _ else if printInt v = printInt v then a else b) = a
    rw [number_printInt, if_pos rfl]
    split
    next fits => exact (aExact fits).symm
    next => rfl
  have second : (freeLibrary (printInt v) a b aInt bInt).atoi o.text = b := by
    change (if InInt (number o.text) then _ else if o.text = printInt v then a else b) = b
    have other : ¬ o.text = printInt v := text ▸ differ.symm
    simp only [Operand.number_text unsigned, if_neg other]
    split
    next fits => exact (bExact fits).symm
    next => rfl
  rwa [first, second] at free

/-- Whatever the library gives, the answer is right, only where the numbers are fitting. -/
theorem fitting_of_every (unsigned : o.sign = .unsigned)
    (every : ∀ library : CLibrary, op.Holds (library.atoi (printInt v)) (library.atoi o.text) ↔
      op.Holds v o.value) : Fitting op v o := by
  by_cases differ : printInt v = o.digits
  · exact Or.inr (Or.inl differ)
  have nonneg := Operand.value_nonneg unsigned
  have least : InInt (-2147483648) := by decide
  have most : InInt 2147483647 := by decide
  have free {a b : Int} := @holds_free op v o unsigned differ every a b
  by_cases vFits : InInt v <;> by_cases wFits : InInt o.value
  · exact Or.inl ⟨vFits, wFits⟩
  · -- The operand may be taken for the value, or for the least `int`.
    have same := free vFits vFits (fun _ => rfl) fun fits => absurd fits wFits
    have low := free vFits least (fun _ => rfl) fun fits => absurd fits wFits
    unfold InInt at vFits wFits
    refine Or.inr (Or.inr ?_)
    cases op <;> simp only [Comparison.Holds, true_iff] at same low <;> simp <;> omega
  · -- The value may be taken for the operand, or for the least or the greatest `int`.
    have same := free wFits wFits (fun fits => absurd fits vFits) fun _ => rfl
    have low := free least wFits (fun fits => absurd fits vFits) fun _ => rfl
    have high := free most wFits (fun fits => absurd fits vFits) fun _ => rfl
    unfold InInt at vFits wFits
    refine Or.inr (Or.inr ?_)
    cases op <;> simp only [Comparison.Holds, true_iff] at same low high <;> simp <;> omega
  · -- They may be taken for any two numbers.
    have zero : InInt 0 := by decide
    have one : InInt 1 := by decide
    have same := free zero zero (fun fits => absurd fits vFits) fun fits => absurd fits wFits
    have less := free zero one (fun fits => absurd fits vFits) fun fits => absurd fits wFits
    have more := free one zero (fun fits => absurd fits vFits) fun fits => absurd fits wFits
    cases op <;> simp only [Comparison.Holds, true_iff] at same less more <;> omega

theorem every_of_fitting (unsigned : o.sign = .unsigned) (fitting : Fitting op v o)
    (library : CLibrary) :
    op.Holds (library.atoi (printInt v)) (library.atoi o.text) ↔ op.Holds v o.value := by
  have vExact := library.atoi_exact (printInt v)
  have wExact := library.atoi_exact o.text
  have vInt := library.atoi_int (printInt v)
  have wInt := library.atoi_int o.text
  rw [number_printInt] at vExact
  rw [Operand.number_text unsigned] at wExact
  rcases fitting with ⟨vFits, wFits⟩ | written | ⟨loose, ends⟩
  · rw [vExact vFits, wExact wFits]
  · have text : o.text = printInt v := by rw [Operand.text, unsigned, written]
    have value : o.value = v := by rw [← Operand.number_text unsigned, text, number_printInt]
    rw [text, value]
    cases op <;> simp [Comparison.Holds]
  · unfold InInt at *
    rcases loose with rfl | rfl
    · simp only [Comparison.Holds]
      omega
    · simp only [Comparison.Holds]
      omega

/-! ### Signed operands -/

theorem isDigit_toDigits (n : Nat) : ∀ c ∈ Nat.toDigits 10 n, c.isDigit := fun _ member =>
  Nat.isDigit_of_mem_toDigits (by decide) (by decide) member

theorem strcmp_of_lt {c d : Char} (less : d.toNat < c.toNat) (s t : Text) :
    strcmp (c :: s) (d :: t) = .gt := by
  rw [strcmp, Nat.compare_eq_gt.mpr less]
  rfl

theorem strcmp_same (c : Char) (s t : Text) : strcmp (c :: s) (c :: t) = strcmp s t := by
  rw [strcmp, Nat.compare_eq_eq.mpr rfl]
  rfl

/-- A digit comes behind both signs. -/
theorem strcmp_toDigits (n : Nat) {sign : Char} (isSign : sign.toNat < 48) (t : Text) :
    strcmp (Nat.toDigits 10 n) (sign :: t) = .gt := by
  obtain ⟨c, rest, shape⟩ := List.exists_cons_of_ne_nil (Nat.toDigits_ne_nil (b := 10) (n := n))
  have digit := Char.isDigit_iff_toNat.mp (isDigit_toDigits n c (shape ▸ List.mem_cons_self))
  rw [shape]
  exact strcmp_of_lt (Nat.lt_of_lt_of_le isSign digit.1) rest t

theorem strcmp_signed (signed : o.sign ≠ .unsigned) :
    strcmp (printInt v) o.text = textOrder v o := by
  obtain ⟨sign, digits, nonempty, decimal⟩ := o
  unfold textOrder
  by_cases nonneg : 0 ≤ v
  · rw [printInt_eq, if_pos nonneg, if_pos (Or.inr nonneg)]
    cases sign with
    | unsigned => exact absurd rfl signed
    | plus => exact strcmp_toDigits _ (by decide) digits
    | minus => exact strcmp_toDigits _ (by decide) digits
  · rw [printInt_eq, if_neg nonneg]
    cases sign with
    | unsigned => exact absurd rfl signed
    | plus =>
      rw [if_pos (Or.inl rfl)]
      exact strcmp_of_lt (by decide) _ _
    | minus =>
      rw [if_neg (by simpa using nonneg), printInt_eq (-v), if_pos (by omega)]
      exact (strcmp_same '-' _ _).trans (strcmp_digits (isDigit_toDigits _) decimal)

end

/-- Values are compared with the operand of a condition as integers if and only if both fit an
`int` where the operand is unsigned (or it does not matter), and the texts are ordered alike where
it has a sign. `item` has room for 999 characters; a number of 64 bits has up to 20. -/
theorem compares_numbers_iff (op : Comparison) (v : Int) (o : Operand)
    (whole : (printInt v).length ≤ 999) : ComparesNumbers op v o ↔ Numeric op v o := by
  have green := fun library field => @bullet_green_iff op v o library field whole
  unfold ComparesNumbers Numeric
  simp only [green]
  by_cases unsigned : o.sign = .unsigned
  · simp only [if_pos unsigned]
    constructor
    · intro every
      exact fitting_of_every unsigned fun library => @every library []
    · intro fitting library _
      exact every_of_fitting unsigned fitting library
  · simp only [if_neg unsigned, strcmp_signed unsigned]
    rw [← compares_alike, compares_compare]
    constructor
    · intro every
      exact (every []).symm
    · intro alike _ _
      exact alike.symm

/-- 7 is at least 5. -/
theorem seven_at_least_five :
    ComparesNumbers .ge 7 ⟨.unsigned, "5".toList, by decide, List.all_eq_true.mp rfl⟩ :=
  (compares_numbers_iff .ge 7 ⟨.unsigned, "5".toList, by decide, List.all_eq_true.mp rfl⟩
    (by decide)).mpr (Or.inl ⟨by decide, by decide⟩)

/-- -2 is not greater than -1, but its text is behind it. -/
theorem minus_two_exceeds_minus_one :
    bullet ⟨"Load".toList, ">".toList, "-1".toList⟩ (some (printInt (-2))) = .green ∧
      ¬ComparesNumbers .gt (-2) ⟨.minus, "1".toList, by decide, List.all_eq_true.mp rfl⟩ := by
  refine ⟨by decide, fun every => ?_⟩
  have green := every "Load".toList
  have holds := green.mp (by decide)
  change (-2 : Int) > -1 at holds
  omega

end MrBig.Guarantees.WmiConditions
