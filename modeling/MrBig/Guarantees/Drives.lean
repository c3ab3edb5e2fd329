import Mathlib.Data.Nat.Bitwise
import Mathlib.Data.Nat.Find
import MrBig.Source.ClientlogModules
import MrBig.Source.Disk

/-!
# The two loops over the drive letters

The loop of `disk` shifts the mask at every letter. The loop of `diskinfo` doubles a WORD
instead, not at all after a drive that it skips and to zero after P; it examines the drives
whose bits are set exactly if neither happens before the last of them.
-/

set_option autoImplicit false

namespace MrBig.Guarantees.Drives
open Source Source.Disk

/-- The letters, counted from A, whose bits are set. -/
def setDrives (drivebits : Nat) : List Nat := (List.range 26).filter (drivebits.testBit ·)

/-- Nothing in the body of the loop skips the rest of it. -/
def Usable (drive : Nat → DriveOutcome) (i : Nat) : Prop :=
  (drive i).fixed = true ∧ (drive i).writable = true

instance (drive : Nat → DriveOutcome) (i : Nat) : Decidable (Usable drive i) :=
  instDecidableAnd

/-- The bits of `m` belong to the letters from `i` on: they end with P, and the letters of all
but the last are usable. -/
def InStep (drive : Nat → DriveOutcome) (i m : Nat) : Prop :=
  (∀ k, m.testBit k → i + k < 16) ∧
    ∀ k l, k < l → m.testBit k → m.testBit l → Usable drive (i + k)

/-! ### The loop of `disk` -/

theorem diskDrives_even {letters i m : Nat} (even : m.testBit 0 = false) :
    diskDrives (letters + 1) i m = diskDrives letters (i + 1) (m / 2) := by
  have clear : m &&& 1 = 0 := by
    rw [Nat.and_one_is_mod]
    exact Nat.mod_two_eq_zero_iff_testBit_zero.mpr even
  rw [diskDrives, if_neg (not_not_intro clear), Nat.shiftRight_one]

theorem diskDrives_odd {letters i m : Nat} (odd : m.testBit 0 = true) :
    diskDrives (letters + 1) i m = i :: diskDrives letters (i + 1) (m / 2) := by
  have set : m &&& 1 = 1 := by
    rw [Nat.and_one_is_mod]
    exact Nat.mod_two_eq_one_iff_testBit_zero.mpr odd
  rw [diskDrives, if_pos (set.trans_ne Nat.one_ne_zero), Nat.shiftRight_one]

theorem diskDrives_eq (letters i m : Nat) :
    diskDrives letters i m =
      (List.range' i letters).filter fun k => m.testBit (k - i) := by
  induction letters generalizing i m with
  | zero => rfl
  | succ letters ih =>
    have rest : (List.range' (i + 1) letters).filter (fun k => m.testBit (k - i)) =
        (List.range' (i + 1) letters).filter fun k => (m >>> 1).testBit (k - (i + 1)) := by
      apply List.filter_congr
      intro k member
      have behind := (List.mem_range'_1.mp member).1
      rw [Nat.testBit_shiftRight, show 1 + (k - (i + 1)) = k - i by omega]
    rw [List.range'_succ, List.filter_cons, rest, Nat.sub_self, ← ih]
    cases first : m.testBit 0 with
    | false => rw [diskDrives_even first, Nat.shiftRight_one, if_neg (by decide)]
    | true => rw [diskDrives_odd first, Nat.shiftRight_one, if_pos rfl]

/-- A bit of a mask that has one bit for a letter at most. -/
theorem mem_diskDrives {letters i m k : Nat} (few : m < 2 ^ letters) (set : m.testBit k = true) :
    i + k ∈ diskDrives letters i m := by
  have inside : k < letters := by
    by_contra beyond
    have small : m < 2 ^ k :=
      Nat.lt_of_lt_of_le few (Nat.pow_le_pow_right (by decide) (Nat.le_of_not_lt beyond))
    rw [Nat.testBit_eq_false_of_lt small] at set
    cases set
  rw [diskDrives_eq, List.mem_filter, List.mem_range'_1, Nat.add_sub_cancel_left]
  exact ⟨⟨Nat.le_add_right i k, Nat.add_lt_add_left inside i⟩, set⟩

theorem diskDrives_nothing (letters i : Nat) : diskDrives letters i 0 = [] := by
  rw [diskDrives_eq]
  simp

/-- The loop of `disk` enters its body for exactly the set bits. -/
theorem diskDrives_setDrives (drivebits : Nat) :
    diskDrives 26 0 drivebits = setDrives drivebits := by
  rw [diskDrives_eq, setDrives, List.range_eq_range']
  simp

/-! ### The loop of diskinfo -/

section

variable (drive : Nat → DriveOutcome)

theorem examinedDrives_zero (letters i drivebits : Nat) :
    examinedDrives drive letters i 0 drivebits = [] := by
  induction letters generalizing i with
  | zero => rfl
  | succ letters ih =>
    unfold examinedDrives
    split
    · rfl
    · simpa using ih (i + 1)

theorem le_of_mem_examinedDrives {letters i curr drivebits k : Nat}
    (member : k ∈ examinedDrives drive letters i curr drivebits) : i ≤ k := by
  induction letters generalizing i curr drivebits with
  | zero => cases member
  | succ letters ih =>
    unfold examinedDrives at member
    split at member
    · cases member
    · split at member
      · rcases List.mem_cons.mp member with rfl | later
        · exact Nat.le_refl k
        · exact Nat.le_of_succ_le (ih later)
      · exact Nat.le_of_succ_le (ih member)

theorem and_two_pow_eq_zero_iff (j bits : Nat) : 2 ^ j &&& bits = 0 ↔ bits.testBit j = false := by
  rw [Nat.two_pow_and]
  cases bits.testBit j <;> simp

/-- A WORD is doubled to zero at the last bit. -/
theorem doubled_word (j : Nat) : 2 ^ j * 2 % 65536 = if j < 15 then 2 ^ (j + 1) else 0 := by
  rw [← Nat.pow_succ]
  split
  next low => exact Nat.mod_eq_of_lt (Nat.pow_lt_pow_right (by decide) (by omega : j + 1 < 16))
  next high => exact Nat.mod_eq_zero_of_dvd (Nat.pow_dvd_pow 2 (by omega : 16 ≤ j + 1))

/-- Once the letters are ahead of the bits, the drive of the least bit is never examined. -/
theorem not_mem_of_ahead {letters i j b drivebits : Nat} (ahead : j < i)
    (least : ∀ k, drivebits.testBit k → b ≤ k) :
    b ∉ examinedDrives drive letters i (2 ^ j) drivebits := by
  induction letters generalizing i j with
  | zero => simp [examinedDrives]
  | succ letters ih =>
    by_cases behind : b < i
    · exact fun member => absurd (le_of_mem_examinedDrives drive member) (by omega)
    have clear : drivebits.testBit j = false := by
      by_contra set
      have := least j (by simpa using set)
      omega
    unfold examinedDrives
    split
    · simp
    · rw [if_neg (by simpa using (and_two_pow_eq_zero_iff j drivebits).mpr clear)]
      rw [doubled_word]
      split
      · exact ih (by omega)
      · simp [examinedDrives_zero]

theorem examinedDrives_nothing (letters i curr : Nat) :
    examinedDrives drive letters i curr 0 = [] := by
  cases letters <;> simp [examinedDrives]

theorem examinedDrives_even {letters i m : Nat} (even : m.testBit 0 = false) :
    examinedDrives drive (letters + 1) i (2 ^ i) (2 ^ i * m) =
      examinedDrives drive letters (i + 1) (2 ^ i * 2 % 65536) (2 ^ (i + 1) * (m / 2)) := by
  have half : m = 2 * (m / 2) := by
    rw [Nat.testBit_zero, decide_eq_false_iff_not] at even
    omega
  have bits : 2 ^ i * m = 2 ^ (i + 1) * (m / 2) := by
    conv => lhs; rw [half]
    rw [Nat.pow_succ, Nat.mul_assoc]
  have clear : 2 ^ i &&& 2 ^ i * m = 0 := by
    rw [and_two_pow_eq_zero_iff, Nat.testBit_two_pow_mul]
    simpa using even
  by_cases nothing : 2 ^ i * m = 0
  · rw [← bits, nothing, examinedDrives_nothing, examinedDrives_nothing]
  · rw [examinedDrives, if_neg nothing, if_neg (by simpa using clear), bits]

theorem examinedDrives_odd {letters i m : Nat} (odd : m.testBit 0 = true) :
    examinedDrives drive (letters + 1) i (2 ^ i) (2 ^ i * m) =
      i :: examinedDrives drive letters (i + 1)
        (if Usable drive i then 2 ^ i * 2 % 65536 else 2 ^ i) (2 ^ (i + 1) * (m / 2)) := by
  have half : m = 2 * (m / 2) + 1 := by
    rw [Nat.testBit_zero, decide_eq_true_eq] at odd
    omega
  have bits : 2 ^ i * m = 2 ^ (i + 1) * (m / 2) + 2 ^ i := by
    conv => lhs; rw [half]
    rw [Nat.pow_succ, Nat.mul_add, Nat.mul_one, Nat.mul_assoc]
  have set : 2 ^ i &&& 2 ^ i * m ≠ 0 := by
    rw [Ne, and_two_pow_eq_zero_iff, Nat.testBit_two_pow_mul]
    simpa using odd
  have something : 2 ^ i * m ≠ 0 := by
    intro zero
    rw [zero, Nat.and_zero] at set
    exact set rfl
  have rest : 2 ^ i * m - 2 ^ i = 2 ^ (i + 1) * (m / 2) := by
    rw [bits, Nat.add_sub_cancel]
  rw [examinedDrives, if_neg something, if_pos set, rest]
  rfl

/-- A skipped drive leaves the WORD behind the letters, and the next drive is missed. -/
theorem skipped_misses {letters i m : Nat} (more : m ≠ 0) (few : m < 2 ^ letters) :
    ¬ (examinedDrives drive letters (i + 1) (2 ^ i) (2 ^ (i + 1) * m)).Perm
      (diskDrives letters (i + 1) m) := by
  have nonempty : ∃ k, m.testBit k = true := Nat.exists_testBit_of_ne_zero more
  have first := Nat.find_spec nonempty
  have least : ∀ k, (2 ^ (i + 1) * m).testBit k = true → i + 1 + Nat.find nonempty ≤ k := by
    intro k set
    rw [Nat.testBit_two_pow_mul, Bool.and_eq_true, decide_eq_true_eq] at set
    have := Nat.find_min' nonempty set.2
    omega
  have entered : i + 1 + Nat.find nonempty ∈ diskDrives letters (i + 1) m :=
    mem_diskDrives few first
  intro same
  exact not_mem_of_ahead drive (Nat.lt_succ_self i) least (same.mem_iff.mpr entered)

/-! ### In step -/

/-- What holds of the bits behind the first one. -/
theorem inStep_half {i m : Nat} :
    InStep drive (i + 1) (m / 2) ↔
      (∀ k, m.testBit (k + 1) → i + (k + 1) < 16) ∧
        ∀ k l, k < l → m.testBit (k + 1) → m.testBit (l + 1) → Usable drive (i + (k + 1)) := by
  have shift : ∀ k, i + 1 + k = i + (k + 1) := fun k => by omega
  unfold InStep
  simp only [Nat.testBit_div_two, shift]

theorem inStep_even {i m : Nat} (even : m.testBit 0 = false) :
    InStep drive i m ↔ InStep drive (i + 1) (m / 2) := by
  rw [inStep_half]
  constructor
  · intro inStep
    exact ⟨fun k => inStep.1 (k + 1), fun k l less => inStep.2 (k + 1) (l + 1) (by omega)⟩
  · intro half
    constructor
    · intro k set
      cases k with
      | zero => simp [even] at set
      | succ k => exact half.1 k set
    · intro k l less set set'
      cases k with
      | zero => simp [even] at set
      | succ k =>
        obtain ⟨l, rfl⟩ := Nat.exists_eq_succ_of_ne_zero (Nat.ne_of_gt (Nat.zero_lt_of_lt less))
        exact half.2 k l (by omega) set set'

theorem inStep_odd {i m : Nat} (odd : m.testBit 0 = true) :
    InStep drive i m ↔
      i < 16 ∧ (m / 2 ≠ 0 → Usable drive i) ∧ InStep drive (i + 1) (m / 2) := by
  rw [inStep_half]
  constructor
  · intro inStep
    refine ⟨inStep.1 0 odd, fun more => ?_, fun k => inStep.1 (k + 1),
      fun k l less => inStep.2 (k + 1) (l + 1) (by omega)⟩
    obtain ⟨l, set⟩ := Nat.exists_testBit_of_ne_zero more
    rw [Nat.testBit_div_two] at set
    exact inStep.2 0 (l + 1) (by omega) odd set
  · intro parts
    obtain ⟨low, usable, rest⟩ := parts
    constructor
    · intro k set
      cases k with
      | zero => exact low
      | succ k => exact rest.1 k set
    · intro k l less set set'
      obtain ⟨l, rfl⟩ := Nat.exists_eq_succ_of_ne_zero (Nat.ne_of_gt (Nat.zero_lt_of_lt less))
      cases k with
      | zero =>
        apply usable
        intro nothing
        rw [Nat.succ_eq_add_one, Nat.testBit_succ, nothing, Nat.zero_testBit] at set'
        cases set'
      | succ k => exact rest.2 k l (by omega) set set'

/-- The WORD is zero from the letter Q on. -/
theorem nothing_examined_iff {letters m : Nat} (few : m < 2 ^ letters) :
    ([] : List Nat).Perm (diskDrives letters 16 m) ↔ InStep drive 16 m := by
  by_cases nothing : m = 0
  · rw [nothing, diskDrives_nothing]
    simp [InStep]
  · obtain ⟨k, set⟩ := Nat.exists_testBit_of_ne_zero nothing
    have entered : 16 + k ∈ diskDrives letters 16 m := mem_diskDrives few set
    constructor
    · intro same
      rw [same.symm.eq_nil] at entered
      cases entered
    · intro inStep
      exact absurd (inStep.1 k set) (by omega)

/-- As long as bit and letter are in step, the two loops agree iff they stay so. -/
theorem examined_perm_iff (letters : Nat) {i m : Nat} (low : i ≤ 16) (few : m < 2 ^ letters) :
    (examinedDrives drive letters i (2 ^ i % 65536) (2 ^ i * m)).Perm
      (diskDrives letters i m) ↔ InStep drive i m := by
  induction letters generalizing i m with
  | zero =>
    obtain rfl : m = 0 := by simpa using few
    simp [examinedDrives, diskDrives, InStep]
  | succ letters ih =>
    have fewer : m / 2 < 2 ^ letters := by
      rw [Nat.pow_succ] at few
      omega
    rcases Nat.lt_or_eq_of_le low with low | rfl
    · have word : 2 ^ i % 65536 = 2 ^ i :=
        Nat.mod_eq_of_lt (Nat.pow_lt_pow_right (by decide) low)
      have next := ih (show i + 1 ≤ 16 from low) fewer
      rw [Nat.pow_succ] at next
      rw [word]
      cases first : m.testBit 0 with
      | false =>
        rw [diskDrives_even first, examinedDrives_even drive first, inStep_even drive first]
        exact next
      | true =>
        rw [diskDrives_odd first, examinedDrives_odd drive first, inStep_odd drive first,
          List.perm_cons]
        by_cases usable : Usable drive i
        · rw [if_pos usable, Nat.pow_succ, next]
          simp [low, usable]
        · rw [if_neg usable]
          by_cases more : m / 2 = 0
          · rw [more, Nat.mul_zero, examinedDrives_nothing, diskDrives_nothing]
            simp [low, InStep]
          · exact iff_of_false (skipped_misses drive more fewer) fun parts =>
              usable (parts.2.1 more)
    · rw [show 2 ^ 16 % 65536 = 0 from rfl, examinedDrives_zero]
      exact nothing_examined_iff drive few

end

/-- `diskinfo_AddVolumesToDisks` queries the drives whose bits are set, as `disk` does, exactly
if none of them is behind P and all but the last are fixed and writable. -/
theorem drives_examined_iff (drive : Nat → DriveOutcome) {drivebits : Nat}
    (letters : drivebits < 2 ^ 26) :
    diskDrives 26 0 drivebits = setDrives drivebits ∧
      ((examinedDrives drive 26 0 1 drivebits).Perm (setDrives drivebits) ↔
        (∀ i, drivebits.testBit i → i < 16) ∧
          ∀ i j, i < j → drivebits.testBit i → drivebits.testBit j →
            (drive i).fixed = true ∧ (drive i).writable = true) := by
  have agree := examined_perm_iff drive 26 (Nat.zero_le 16) letters
  rw [show 2 ^ 0 % 65536 = 1 from rfl, Nat.pow_zero, Nat.one_mul, diskDrives_setDrives] at agree
  constructor
  · exact diskDrives_setDrives drivebits
  · rw [agree]
    simp [InStep, Usable]

/-- A floppy drive A that is skipped, and fixed drives from C on. -/
def workstation (i : Nat) : DriveOutcome := ⟨i ≠ 0, true, i ≠ 0⟩

theorem drives_examined_iff_workstation :
    diskDrives 26 0 12 = setDrives 12 ∧
      ((examinedDrives workstation 26 0 1 12).Perm (setDrives 12) ↔
        (∀ i, Nat.testBit 12 i → i < 16) ∧
          ∀ i j, i < j → Nat.testBit 12 i → Nat.testBit 12 j →
            (workstation i).fixed = true ∧ (workstation i).writable = true) :=
  drives_examined_iff workstation (by decide)

/-- With the floppy drive, D is queried in the place of C. -/
theorem floppy_shifts_letters :
    setDrives 5 = [0, 2] ∧ examinedDrives workstation 26 0 1 5 = [0, 3] ∧
      ¬ (examinedDrives workstation 26 0 1 5).Perm (setDrives 5) := by
  decide

end MrBig.Guarantees.Drives
