import MrBig.Source.Arena

/-!
# Sizes that the arena is asked for

`count * size` is a `size_t`, and then a `ptrdiff_t`. From the half of the address space on, what is
asked for passes for less than it is, or for a negative amount, and nothing but the room that
this leaves decides whether the call throws.
-/

set_option autoImplicit false

namespace MrBig.Guarantees.AllocationSizes
open Library.Word Source

/-- A call throws, or its block has the mathematical size and lies in front of the old `End` and
behind the report. -/
def Contained (state : ArenaState) (aEnd amount : Nat) (answer : Option (ArenaState × Nat)) :
    Prop :=
  ∀ granted ∈ answer, state.currentStart ≤ granted.2 ∧ granted.2 + amount ≤ aEnd

/-- An amount of the half of the address space or more is refused: what is left of it is, aligned,
still more than is free, or it comes out negative and leads beyond the signed differences. -/
def Refused (bits k free aEnd amount : Nat) : Prop :=
  let residue := amount % 2 ^ (bits + 1)
  if residue < 2 ^ bits then free < residue + (aEnd - residue) % 2 ^ k
  else
    let more := 2 ^ (bits + 1) - residue
    free + more < (aEnd + more) % 2 ^ k ∨ 2 ^ bits + (aEnd + more) % 2 ^ k ≤ free + more

instance (bits k free aEnd amount : Nat) : Decidable (Refused bits k free aEnd amount) := by
  unfold Refused
  infer_instance

variable {bits k : Nat} {state : ArenaState} {aEnd size count : Nat}

/-- The difference of an aligned address, as the machine computes it. -/
theorem signed_aligned (aligned : k ≤ bits) (z : Int) (aStart : Nat) :
    signed (bits + 1) ((wrap (bits + 1) z &&& wrap (bits + 1) (-(2 ^ k : Nat)) : Nat) - aStart) =
      signed (bits + 1) (z - z % (2 ^ k : Nat) - aStart) := by
  have positive : (0 : Int) < (2 ^ (bits + 1) : Nat) := by
    exact_mod_cast Nat.two_pow_pos (bits + 1)
  have word : (wrap (bits + 1) z : Int) = z % (2 ^ (bits + 1) : Nat) :=
    Int.toNat_of_nonneg (Int.emod_nonneg _ (Int.ne_of_gt positive))
  have small : wrap (bits + 1) z < 2 ^ (bits + 1) := by
    have below := Int.emod_lt_of_pos z positive
    omega
  have divides : ((2 ^ k : Nat) : Int) ∣ (2 ^ (bits + 1) : Nat) :=
    Int.natCast_dvd_natCast.mpr (Nat.pow_dvd_pow 2 (by omega))
  have low : ((wrap (bits + 1) z % 2 ^ k : Nat) : Int) = z % (2 ^ k : Nat) := by
    rw [Int.natCast_emod, word, Int.emod_emod_of_dvd z divides]
  rw [and_wrap_neg_two_pow small (by omega), Int.ofNat_sub (Nat.mod_le _ _), word, low]
  unfold signed
  rw [Int.sub_sub, Int.emod_sub_bmod, Int.sub_sub]

/-- A difference of up to twice the signed range is negative to the machine below zero and from
the half on. -/
theorem signed_neg_iff {x : Int} (low : -(2 ^ bits : Nat) ≤ x) (high : x < (2 ^ (bits + 1) : Nat)) :
    signed (bits + 1) x < 0 ↔ x < 0 ∨ (2 ^ bits : Nat) ≤ x := by
  have doubled : 2 ^ (bits + 1) = 2 ^ bits * 2 := Nat.pow_succ 2 bits
  by_cases below : x < (2 ^ bits : Nat)
  · rw [signed_of_abs_le low below]
    omega
  · have negative : signed (bits + 1) (x - (2 ^ (bits + 1) : Nat)) = x - (2 ^ (bits + 1) : Nat) :=
      signed_of_abs_le (by omega) (by omega)
    have turned : signed (bits + 1) x = x - (2 ^ (bits + 1) : Nat) := by
      rw [← negative]
      exact (Int.sub_bmod_right x _).symm
    rw [turned]
    omega

/-- The amount that the machine makes of a product. -/
theorem signed_amount (amount : Nat) :
    signed (bits + 1) amount =
      if amount % 2 ^ (bits + 1) < 2 ^ bits then ((amount % 2 ^ (bits + 1) : Nat) : Int)
      else ((amount % 2 ^ (bits + 1) : Nat) : Int) - (2 ^ (bits + 1) : Nat) := by
  have doubled : 2 ^ (bits + 1) = 2 ^ bits * 2 := Nat.pow_succ 2 bits
  have half : ((2 ^ (bits + 1) : Nat) + 1 : Int) / 2 = (2 ^ bits : Nat) := by omega
  unfold signed
  rw [Int.bmod_def, half, ← Int.natCast_emod]
  by_cases small : amount % 2 ^ (bits + 1) < 2 ^ bits
  · rw [if_pos small, if_pos (by omega)]
  · rw [if_neg small, if_neg (by omega)]

/-- A call throws if the amount is too much for what is free, or leads out of the signed
differences. -/
theorem arenaAllocate_none_iff (ordered : state.currentStart ≤ aEnd)
    (room : aEnd - state.currentStart < 2 ^ bits) (aligned : k ≤ bits) :
    arenaAllocate (bits + 1) state aEnd size (2 ^ k) count = none ↔
      let free : Int := (aEnd - state.currentStart : Nat)
      let amount := signed (bits + 1) (count * size : Nat)
      let remaining := free - amount - (aEnd - amount) % (2 ^ k : Nat)
      free < amount ∨ remaining < 0 ∨ (2 ^ bits : Nat) ≤ remaining := by
  have doubled : 2 ^ (bits + 1) = 2 ^ bits * 2 := Nat.pow_succ 2 bits
  have power : 2 ^ k ≤ 2 ^ bits := Nat.pow_le_pow_right (by omega) aligned
  have positive : 0 < 2 ^ k := Nat.two_pow_pos k
  dsimp only
  rw [arenaAllocate, freeBytes_eq ordered room, ← Int.natCast_mul]
  have atLeast : -(2 ^ bits : Nat) ≤ signed (bits + 1) (count * size : Nat) := by
    rw [signed_amount]
    split <;> omega
  generalize signed (bits + 1) (count * size : Nat) = amount at *
  have low := Int.emod_nonneg (aEnd - amount) (b := (2 ^ k : Nat)) (by omega)
  have high := Int.emod_lt_of_pos (aEnd - amount) (b := (2 ^ k : Nat)) (by omega)
  by_cases tooMuch : amount > (aEnd - state.currentStart : Nat)
  · simp only [if_pos tooMuch]
    exact iff_of_true trivial (Or.inl tooMuch)
  · simp only [if_neg tooMuch]
    rw [signed_aligned aligned]
    have same : aEnd - amount - (aEnd - amount) % (2 ^ k : Nat) - state.currentStart =
        (aEnd - state.currentStart : Nat) - amount - (aEnd - amount) % (2 ^ k : Nat) := by
      omega
    rw [same]
    generalize outside : (aEnd - state.currentStart : Nat) - amount -
      (aEnd - amount) % (2 ^ k : Nat) = remaining
    rw [or_iff_right tooMuch, ← signed_neg_iff (by omega) (by omega)]
    split
    next negative => exact iff_of_true rfl negative
    next nonneg => exact iff_of_false (Option.some_ne_none _) nonneg

/-- From the half of the address space on, exactly what is refused throws. -/
theorem refused_iff (ordered : state.currentStart ≤ aEnd)
    (room : aEnd - state.currentStart < 2 ^ bits) (aligned : k ≤ bits) :
    arenaAllocate (bits + 1) state aEnd size (2 ^ k) count = none ↔
      Refused bits k (aEnd - state.currentStart) aEnd (count * size) := by
  have doubled : 2 ^ (bits + 1) = 2 ^ bits * 2 := Nat.pow_succ 2 bits
  have word : count * size % 2 ^ (bits + 1) < 2 ^ (bits + 1) :=
    Nat.mod_lt _ (Nat.two_pow_pos _)
  rw [arenaAllocate_none_iff ordered room aligned, signed_amount, Refused]
  dsimp only
  generalize count * size % 2 ^ (bits + 1) = residue at *
  split
  next small =>
    by_cases tooMuch : aEnd - state.currentStart < residue
    · exact iff_of_true (Or.inl (by omega)) (by omega)
    · have part : (aEnd - residue : Int) % (2 ^ k : Nat) = ((aEnd - residue) % 2 ^ k : Nat) := by
        rw [Int.natCast_emod, Int.ofNat_sub (by omega)]
      rw [part]
      omega
  next large =>
    have part : (aEnd - (residue - (2 ^ (bits + 1) : Nat)) : Int) % (2 ^ k : Nat) =
        ((aEnd + (2 ^ (bits + 1) - residue)) % 2 ^ k : Nat) := by
      rw [Int.natCast_emod]
      congr 1
      omega
    rw [part]
    omega

/-- An allocation stays in the arena if and only if the product is below the half of the address
space, or it is refused. -/
theorem allocation_contained_iff (bits k : Nat) (state : ArenaState) (aEnd size count : Nat)
    (ordered : state.currentStart ≤ aEnd) (small : aEnd < 2 ^ (bits + 1))
    (room : aEnd - state.currentStart < 2 ^ bits) (aligned : k ≤ bits) :
    Contained state aEnd (count * size)
        (arenaAllocate (bits + 1) state aEnd size (2 ^ k) count) ↔
      count * size < 2 ^ bits ∨
        Refused bits k (aEnd - state.currentStart) aEnd (count * size) := by
  by_cases amount : count * size < 2 ^ bits
  · refine iff_of_true ?_ (Or.inl amount)
    rw [arenaAllocate_eq ordered small room amount aligned]
    intro granted there
    split at there
    next fits =>
      cases there
      have part := Nat.mod_le (aEnd - count * size) (2 ^ k)
      exact ⟨fits.2, by dsimp only; omega⟩
    next => cases there
  · rw [or_iff_right amount, ← refused_iff ordered room aligned]
    constructor
    · intro contained
      cases answer : arenaAllocate (bits + 1) state aEnd size (2 ^ k) count with
      | none => rfl
      | some granted =>
        obtain ⟨low, high⟩ := contained granted answer
        omega
    · intro thrown granted there
      rw [thrown] at there
      cases there

/-- 64 bits, and an arena of 64 KiB. -/
def smallArena : ArenaState := ⟨fun _ => nul, 65536, 131072, 65536⟩

theorem page_contained :
    Contained smallArena 131072 (4 * 4096)
      (arenaAllocate (63 + 1) smallArena 131072 4096 (2 ^ 3) 4) :=
  (allocation_contained_iff 63 3 smallArena 131072 4096 4 (by decide) (by decide) (by decide)
    (by decide)).mpr (Or.inl (by decide))

/-- 2^32 elements of 2^32 bytes are a block of none. -/
theorem product_wraps :
    (arenaAllocate (63 + 1) smallArena 131072 4294967296 (2 ^ 3) 4294967296).map Prod.snd =
        some 131072 ∧
      ¬Contained smallArena 131072 (4294967296 * 4294967296)
        (arenaAllocate (63 + 1) smallArena 131072 4294967296 (2 ^ 3) 4294967296) := by
  have block : (arenaAllocate (63 + 1) smallArena 131072 4294967296 (2 ^ 3) 4294967296).map
      Prod.snd = some 131072 := by decide
  refine ⟨block, fun contained => ?_⟩
  obtain ⟨granted, there, address⟩ := Option.map_eq_some_iff.mp block
  obtain ⟨-, high⟩ := contained granted there
  omega

end MrBig.Guarantees.AllocationSizes
