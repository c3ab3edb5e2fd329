import Mathlib.Data.Char
import Mathlib.Data.List.Lex
import MrBig.Guarantees.ProcessTables

/-!
# The order of the process names

`_stricmp` returns an int of which only the sign is specified. Its negation is cut to a byte
before the sign is looked at.
-/

set_option autoImplicit false

namespace MrBig.Guarantees.ProcessNames
open Library Library.Memory Library.Merge Source Source.Processes Svcs ProcessTables

/-- `_stricmp` as the C library specifies it. -/
structure Stricmp where
  result : Text → Text → Int
  negative : ∀ a b, result a b < 0 ↔ folded a < folded b
  positive : ∀ a b, 0 < result a b ↔ folded b < folded a

/-- The name of one row precedes that of another, ignoring case. -/
def Precedes (a b : TableRow) : Prop := folded a.process < folded b.process

variable (stricmp : Stricmp)

/-- The comparison of two rows says how their names are ordered, and their PIDs where the names
are equal. -/
structure Ordered (a b : TableRow) : Prop where
  before : Precedes a b → 0 < compareName stricmp.result a b
  behind : Precedes b a → compareName stricmp.result a b < 0
  equal : folded a.process = folded b.process →
    if b.pid < a.pid then 0 < compareName stricmp.result a b
    else compareName stricmp.result a b < 0

/-- The names of a table are compared consistently. -/
structure Consistent (t : Table) : Prop where
  ordered : ∀ a ∈ t.list, ∀ b ∈ t.list, Ordered stricmp a b
  antisymmetric : ∀ a ∈ t.list, ∀ b ∈ t.list, 0 ≤ compareName stricmp.result a b →
    ¬ 0 ≤ compareName stricmp.result b a
  transitive : ∀ a ∈ t.list, ∀ b ∈ t.list, ∀ c ∈ t.list, 0 ≤ compareName stricmp.result a b →
    0 ≤ compareName stricmp.result b c → 0 ≤ compareName stricmp.result a c
  ascending : (sortBy (compareName stricmp.result) t).list.Pairwise fun a b => ¬ Precedes b a

/-- The low byte of what `_stricmp` returned shows its sign, or is zero where the PIDs are in the
order of the names. -/
structure KeepsSign (r : Int) (a b : TableRow) : Prop where
  negative : r < 0 → 128 < r % 256 ∨ r % 256 = 0 ∧ b.pid < a.pid
  positive : 0 < r → 0 < r % 256 ∧ r % 256 ≤ 128 ∨ r % 256 = 0 ∧ ¬ b.pid < a.pid

/-! ### The low byte -/

theorem toInt_negated (r : Int) : (Int8.ofInt (-r)).toInt = (-r).bmod 256 :=
  Int8.toInt_ofInt

theorem negated_pos_iff (r : Int) : 0 < Int8.ofInt (-r) ↔ 128 < r % 256 := by
  rw [Int8.lt_iff_toInt_lt, toInt_negated, Int8.toInt_zero, Int.bmod_def]
  omega

theorem negated_neg_iff (r : Int) : Int8.ofInt (-r) < 0 ↔ 0 < r % 256 ∧ r % 256 ≤ 128 := by
  rw [Int8.lt_iff_toInt_lt, toInt_negated, Int8.toInt_zero, Int.bmod_def]
  omega

theorem negated_zero_iff (r : Int) : Int8.ofInt (-r) = 0 ↔ r % 256 = 0 := by
  rw [← Int8.toInt_inj, toInt_negated, Int8.toInt_zero, Int.bmod_def]
  omega

section

variable {stricmp} {a b c : TableRow}

theorem compareName_of_zero (zero : Int8.ofInt (-stricmp.result a.process b.process) = 0) :
    compareName stricmp.result a b = if b.pid < a.pid then 1 else -1 := by
  unfold compareName
  exact if_pos zero

theorem compareName_of_ne (other : Int8.ofInt (-stricmp.result a.process b.process) ≠ 0) :
    compareName stricmp.result a b = Int8.ofInt (-stricmp.result a.process b.process) := by
  unfold compareName
  exact if_neg other

theorem compareName_pos_iff :
    0 < compareName stricmp.result a b ↔
      128 < stricmp.result a.process b.process % 256 ∨
        stricmp.result a.process b.process % 256 = 0 ∧ b.pid < a.pid := by
  rw [← negated_pos_iff, ← negated_zero_iff]
  by_cases zero : Int8.ofInt (-stricmp.result a.process b.process) = 0
  · rw [compareName_of_zero zero, zero, and_iff_right rfl,
      or_iff_right (show ¬ (0 : Int8) < 0 by decide)]
    split
    · next above => exact iff_of_true (by decide) above
    · next notAbove => exact iff_of_false (by decide) notAbove
  · rw [compareName_of_ne zero, or_iff_left fun parts => zero parts.1]

theorem compareName_neg_iff :
    compareName stricmp.result a b < 0 ↔
      (0 < stricmp.result a.process b.process % 256 ∧
        stricmp.result a.process b.process % 256 ≤ 128) ∨
        stricmp.result a.process b.process % 256 = 0 ∧ ¬ b.pid < a.pid := by
  rw [← negated_neg_iff, ← negated_zero_iff]
  by_cases zero : Int8.ofInt (-stricmp.result a.process b.process) = 0
  · rw [compareName_of_zero zero, zero, and_iff_right rfl,
      or_iff_right (show ¬ (0 : Int8) < 0 by decide)]
    split
    · next above => exact iff_of_false (by decide) (not_not_intro above)
    · next notAbove => exact iff_of_true (by decide) notAbove
  · rw [compareName_of_ne zero, or_iff_left fun parts => zero parts.1]

/-- Equal names are decided by the PIDs in any case. -/
theorem compareName_of_equal (same : folded a.process = folded b.process) :
    compareName stricmp.result a b = if b.pid < a.pid then 1 else -1 := by
  have notNegative := (not_congr (stricmp.negative a.process b.process)).mpr (same ▸ lt_irrefl _)
  have notPositive := (not_congr (stricmp.positive a.process b.process)).mpr (same ▸ lt_irrefl _)
  have zero : stricmp.result a.process b.process = 0 := by omega
  exact compareName_of_zero (by rw [zero]; rfl)

theorem ordered_iff :
    Ordered stricmp a b ↔ KeepsSign (stricmp.result a.process b.process) a b := by
  constructor
  · intro ordered
    constructor
    · intro negative
      exact compareName_pos_iff.mp (ordered.before ((stricmp.negative _ _).mp negative))
    · intro positive
      exact compareName_neg_iff.mp (ordered.behind ((stricmp.positive _ _).mp positive))
  · intro keeps
    refine ⟨fun precedes => ?_, fun follows => ?_, fun same => ?_⟩
    · exact compareName_pos_iff.mpr (keeps.negative ((stricmp.negative _ _).mpr precedes))
    · exact compareName_neg_iff.mpr (keeps.positive ((stricmp.positive _ _).mpr follows))
    · rw [compareName_of_equal same]
      split
      · decide
      · decide

/-- What the comparison then says. -/
def NameBefore (a b : TableRow) : Prop :=
  Precedes a b ∨ folded a.process = folded b.process ∧ b.pid < a.pid

theorem nonneg_iff (ordered : Ordered stricmp a b) :
    0 ≤ compareName stricmp.result a b ↔ NameBefore a b := by
  rcases lt_trichotomy (folded a.process) (folded b.process) with less | same | more
  · exact iff_of_true (Int8.le_of_lt (ordered.before less)) (Or.inl less)
  · rw [compareName_of_equal same, NameBefore, Precedes, same, or_iff_right (lt_irrefl _),
      and_iff_right rfl]
    split
    · next above => exact iff_of_true (by decide) above
    · next notAbove => exact iff_of_false (by decide) notAbove
  · refine iff_of_false (Int8.not_le.mpr (ordered.behind more)) ?_
    intro before
    rcases before with less | equal
    · exact lt_asymm less more
    · exact lt_irrefl _ (equal.1 ▸ more)

theorem NameBefore.trans (first : NameBefore a b) (second : NameBefore b c) : NameBefore a c := by
  rcases first with less | ⟨same, pid⟩
  · rcases second with less' | ⟨same', pid'⟩
    · exact Or.inl (lt_trans less less')
    · exact Or.inl (lt_of_lt_of_eq less same')
  · rcases second with less' | ⟨same', pid'⟩
    · exact Or.inl (lt_of_eq_of_lt same less')
    · exact Or.inr ⟨same.trans same', lt_trans pid' pid⟩

theorem NameBefore.asymm (first : NameBefore a b) : ¬ NameBefore b a := by
  intro second
  rcases first.trans second with less | ⟨-, pid⟩
  · exact lt_irrefl _ less
  · exact lt_irrefl _ pid

end

/-! ### The table -/

theorem list_eq_map (t : Table) : t.list = (List.range t.numRows).map t.rows := by
  rw [← load_pointers, ← load_map]
  rfl

variable {stricmp}

theorem sorted_ascending {t : Table}
    (ordered : ∀ a ∈ t.list, ∀ b ∈ t.list, Ordered stricmp a b) :
    (sortBy (compareName stricmp.result) t).list.Pairwise fun a b => ¬ Precedes b a := by
  have inTable : ∀ {i}, i ∈ List.range t.numRows → t.rows i ∈ t.list := by
    intro i inside
    rw [list_eq_map]
    exact List.mem_map_of_mem inside
  have decides : ∀ {i j}, i ∈ List.range t.numRows → j ∈ List.range t.numRows →
      Decides (notLess fun i j => compareName stricmp.result (t.rows i) (t.rows j))
        (fun i j => ¬ Precedes (t.rows j) (t.rows i)) i j := by
    intro i j inside inside'
    have names := nonneg_iff (ordered _ (inTable inside) _ (inTable inside'))
    refine ⟨fun is less => ?_, fun is less => ?_⟩
    · exact (names.mp (of_decide_eq_true is)).asymm (Or.inl less)
    · exact of_decide_eq_false is (names.mpr (Or.inl less))
  obtain ⟨order, -, rows, sorted⟩ := sortBy_order
    (S := fun i j => ¬ Precedes (t.rows j) (t.rows i))
    (fun i _ j _ k _ first second => not_lt.mpr (le_trans (not_lt.mp first) (not_lt.mp second)))
    (List.Pairwise.imp_of_mem (fun {i j} inside inside' _ => decides inside inside')
      List.pairwise_lt_range)
  rw [rows, List.pairwise_map]
  exact sorted

/-- The names of a table are compared consistently if and only if the low byte of what `_stricmp`
returns for any two of its rows keeps the sign. -/
theorem names_consistent_iff (stricmp : Stricmp) (t : Table) :
    Consistent stricmp t ↔
      ∀ a ∈ t.list, ∀ b ∈ t.list, KeepsSign (stricmp.result a.process b.process) a b := by
  constructor
  · intro consistent a inTable b inTable'
    exact ordered_iff.mp (consistent.ordered a inTable b inTable')
  · intro keeps
    have ordered : ∀ a ∈ t.list, ∀ b ∈ t.list, Ordered stricmp a b :=
      fun a inTable b inTable' => ordered_iff.mpr (keeps a inTable b inTable')
    refine ⟨ordered, ?_, ?_, sorted_ascending ordered⟩
    · intro a inA b inB
      rw [nonneg_iff (ordered a inA b inB), nonneg_iff (ordered b inB a inA)]
      exact NameBefore.asymm
    · intro a inA b inB c inC
      rw [nonneg_iff (ordered a inA b inB), nonneg_iff (ordered b inB c inC),
        nonneg_iff (ordered a inA c inC)]
      exact NameBefore.trans

/-! ### The difference of two bytes -/

/-- The difference of the first bytes that differ. -/
def difference : Text → Text → Int
  | [], [] => 0
  | [], _ :: _ => -1
  | _ :: _, [] => 1
  | c :: s, d :: t => if c = d then difference s t else c.toNat - d.toNat

theorem difference_neg_iff (s t : Text) : difference s t < 0 ↔ s < t := by
  fun_induction difference s t with
  | case1 => exact iff_of_false (by decide) (lt_irrefl _)
  | case2 c t => exact iff_of_true (by decide) List.Lex.nil
  | case3 c s => exact iff_of_false (by decide) (List.not_lt_nil _)
  | case4 s d t ih => rw [ih, List.cons_lt_cons_iff, and_iff_right rfl, or_iff_right (lt_irrefl d)]
  | case5 c s d t other =>
    rw [List.cons_lt_cons_iff, or_iff_left fun parts => other parts.1]
    have less : (c.toNat : Int) - d.toNat < 0 ↔ c.toNat < d.toNat := by omega
    exact less

theorem difference_swap (s t : Text) : difference t s = -difference s t := by
  fun_induction difference s t with
  | case1 => rfl
  | case2 c t => rfl
  | case3 c s => rfl
  | case4 s d t ih => rw [difference, if_pos rfl, ih]
  | case5 c s d t other =>
    rw [difference, if_neg fun same => other same.symm]
    omega

theorem difference_pos_iff (s t : Text) : 0 < difference s t ↔ t < s := by
  rw [← difference_neg_iff, difference_swap s t]
  omega

/-- A `_stricmp` that returns the difference of the folded bytes. -/
def byteDifference : Stricmp where
  result a b := difference (folded a) (folded b)
  negative _ _ := difference_neg_iff _ _
  positive _ _ := difference_pos_iff _ _

/-- Two processes; byte E9 is the first of one name. -/
def accented : Table where
  numRows := 2
  rows := fun i =>
    if i = 0 then ⟨"\xe9tude.exe".toList, 4, ['-'], 0, 0⟩ else ⟨"app.exe".toList, 8, ['-'], 0, 0⟩
  errorCode := 0
  few := by decide

/-- It is taken to precede the other one. -/
theorem accented_inconsistent : ¬ Consistent byteDifference accented := by
  intro consistent
  have keeps := ordered_iff.mp (consistent.ordered (accented.rows 0) List.mem_cons_self
    (accented.rows 1) (List.mem_cons_of_mem _ List.mem_cons_self))
  exact absurd (keeps.positive (by decide)) (by decide)

end MrBig.Guarantees.ProcessNames
