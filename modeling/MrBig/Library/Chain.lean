import Mathlib.Data.Option.Basic

/-!
# Records one behind the other

Each record of a chain stands at the address that the one in front of it leads to. A loop that
goes from record to record finds what a search of the list of them finds.
-/

set_option autoImplicit false

namespace Library.Chain

variable {α : Type*} {next : Nat → Nat} {holds : Nat → α → Prop}

/-- From the address on there are the records of the list. -/
def Linked (next : Nat → Nat) (holds : Nat → α → Prop) : Nat → List α → Prop
  | _, [] => True
  | a, x :: rest => holds a x ∧ Linked next holds (next a) rest

/-- The first of `n` addresses that is found. -/
def find (next : Nat → Nat) (found : Nat → Bool) : Nat → Nat → Option Nat
  | 0, _ => none
  | n + 1, a => if found a then some a else find next found n (next a)

/-- The addresses of `n` records. -/
def addresses (next : Nat → Nat) : Nat → Nat → List Nat
  | 0, _ => []
  | n + 1, a => a :: addresses next n (next a)

theorem Linked.find {found : Nat → Bool} {wanted : α → Bool}
    (same : ∀ a x, holds a x → found a = wanted x) {a : Nat} {records : List α}
    (chain : Linked next holds a records) :
    Option.Rel holds (Chain.find next found records.length a) (records.find? wanted) := by
  induction records generalizing a with
  | nil => exact Option.Rel.none
  | cons x rest ih =>
    obtain ⟨here, behind⟩ := chain
    rw [List.length_cons, Chain.find, same a x here, List.find?_cons]
    cases wanted x with
    | true => exact Option.Rel.some here
    | false => exact ih behind

/-- What is read of the records one by one. -/
theorem Linked.map_addresses {β : Type*} {read : Nat → β} {value : α → β} {records : List α}
    (same : ∀ a, ∀ x ∈ records, holds a x → read a = value x) {a : Nat}
    (chain : Linked next holds a records) :
    (addresses next records.length a).map read = records.map value := by
  induction records generalizing a with
  | nil => rfl
  | cons x rest ih =>
    obtain ⟨here, behind⟩ := chain
    have others := ih (fun b y member => same b y (List.mem_cons_of_mem _ member)) behind
    rw [List.length_cons, addresses, List.map_cons, List.map_cons,
      same a x List.mem_cons_self here, others]

end Library.Chain
