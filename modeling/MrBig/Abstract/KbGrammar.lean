import Mathlib.Data.List.Basic

/-!
# The number of an update in its title

The grammar of the titles, over the codes of their characters: the number of a title is the run of
digits behind the first `KB` that a digit follows.
-/

set_option autoImplicit false

namespace MrBig.Abstract.KbGrammar

def Digit (c : Nat) : Prop := '0'.toNat ≤ c ∧ c ≤ '9'.toNat

instance : DecidablePred Digit := fun _ => inferInstanceAs (Decidable (_ ∧ _))

/-- The text starts with `K`, `B` and a digit. -/
def StartsKB : List Nat → Prop
  | k :: b :: d :: _ => k = 'K'.toNat ∧ b = 'B'.toNat ∧ Digit d
  | _ => False

instance : DecidablePred StartsKB
  | k :: b :: d :: _ => inferInstanceAs (Decidable (k = _ ∧ b = _ ∧ Digit d))
  | [] | [_] | [_, _] => isFalse not_false

/-- The value of decimal digits behind those that gave `value`. -/
def valueFrom (value : Nat) (digits : List Nat) : Nat :=
  digits.foldl (fun value c => value * 10 + (c - '0'.toNat)) value

/-- The value of the longest run of digits behind the first two characters. -/
def numberAt (text : List Nat) : Nat := valueFrom 0 ((text.drop 2).takeWhile fun c => Digit c)

/-- The number of a title, or 0. -/
def kbNumber : List Nat → Nat
  | [] => 0
  | c :: rest => if StartsKB (c :: rest) then numberAt (c :: rest) else kbNumber rest

theorem not_startsKB_of_head {c : Nat} {rest : List Nat} (other : c ≠ 'K'.toNat) :
    ¬ StartsKB (c :: rest) := by
  intro starts
  match rest with
  | _ :: _ :: _ => exact other starts.1
  | [] | [_] => exact starts

/-- The first occurrence decides. -/
theorem kbNumber_of_first {text : List Nat} {i : Nat} (starts : StartsKB (text.drop i))
    (first : ∀ j < i, ¬ StartsKB (text.drop j)) : kbNumber text = numberAt (text.drop i) := by
  induction text generalizing i with
  | nil => simp [StartsKB] at starts
  | cons c rest ih =>
    rw [kbNumber]
    cases i with
    | zero =>
      rw [List.drop_zero] at starts
      rw [if_pos starts, List.drop_zero]
    | succ i =>
      have here : ¬ StartsKB (c :: rest) := first 0 (Nat.succ_pos i)
      rw [if_neg here, List.drop_succ_cons]
      exact ih starts fun j before => first (j + 1) (Nat.succ_lt_succ before)

theorem kbNumber_of_none {text : List Nat} (never : ∀ j, ¬ StartsKB (text.drop j)) :
    kbNumber text = 0 := by
  induction text with
  | nil => rfl
  | cons c rest ih =>
    have here : ¬ StartsKB (c :: rest) := never 0
    rw [kbNumber, if_neg here]
    exact ih fun j => never (j + 1)

end MrBig.Abstract.KbGrammar
