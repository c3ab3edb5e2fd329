import Mathlib.Data.List.Basic

/-!
# Spans of an address space

A span is a half-open range of addresses. A memory gives every address its cell.

* `Stacked`: spans in address order between two bounds, none reaching into the next;
  they are pairwise disjoint (`Stacked.pairwise`) and stay between the bounds;
* `load`, `store`: reading a range and writing one, with what a store leaves alone.
-/

set_option autoImplicit false

namespace Library.Memory

/-- The addresses from `start` on, `size` of them. -/
structure Span where
  start : Nat
  size : Nat
  deriving DecidableEq, Repr

namespace Span

def stop (s : Span) : Nat := s.start + s.size

def Contains (s : Span) (address : Nat) : Prop := s.start ≤ address ∧ address < s.stop

/-- No address lies in both. -/
def Disjoint (s t : Span) : Prop := ∀ address, s.Contains address → ¬ t.Contains address

theorem Disjoint.symm {s t : Span} (apart : s.Disjoint t) : t.Disjoint s :=
  fun address inSecond inFirst => apart address inFirst inSecond

theorem disjoint_of_stop_le {s t : Span} (before : s.stop ≤ t.start) : s.Disjoint t := by
  intro address first second
  have below := first.2
  have above := second.1
  omega

end Span

/-- The spans lie between `lo` and `hi`, each behind the one before it. -/
def Stacked : Nat → List Span → Nat → Prop
  | lo, [], hi => lo ≤ hi
  | lo, s :: rest, hi => lo ≤ s.start ∧ Stacked s.stop rest hi

theorem Stacked.le {lo hi : Nat} {spans : List Span} (stacked : Stacked lo spans hi) :
    lo ≤ hi := by
  induction spans generalizing lo with
  | nil => exact stacked
  | cons s rest ih =>
    obtain ⟨above, behind⟩ := stacked
    have room := ih behind
    have size : s.start ≤ s.stop := Nat.le_add_right _ _
    omega

theorem Stacked.within {lo hi : Nat} {spans : List Span} (stacked : Stacked lo spans hi) :
    ∀ s ∈ spans, lo ≤ s.start ∧ s.stop ≤ hi := by
  induction spans generalizing lo with
  | nil => simp
  | cons s rest ih =>
    obtain ⟨above, behind⟩ := stacked
    have size : s.start ≤ s.stop := Nat.le_add_right _ _
    intro t member
    rcases List.mem_cons.mp member with rfl | later
    · exact ⟨above, behind.le⟩
    · obtain ⟨low, high⟩ := ih behind t later
      exact ⟨by omega, high⟩

theorem Stacked.pairwise {lo hi : Nat} {spans : List Span} (stacked : Stacked lo spans hi) :
    spans.Pairwise Span.Disjoint := by
  induction spans generalizing lo with
  | nil => exact List.Pairwise.nil
  | cons s rest ih =>
    obtain ⟨_, behind⟩ := stacked
    refine List.pairwise_cons.mpr ⟨fun t later => ?_, ih behind⟩
    exact Span.disjoint_of_stop_le (behind.within t later).1

theorem Stacked.append {lo mid hi : Nat} {first second : List Span}
    (low : Stacked lo first mid) (high : Stacked mid second hi) :
    Stacked lo (first ++ second) hi := by
  induction first generalizing lo with
  | nil =>
    cases second with
    | nil => exact Nat.le_trans low high
    | cons s rest => exact ⟨Nat.le_trans low high.1, high.2⟩
  | cons s rest ih => exact ⟨low.1, ih low.2⟩

section Cells

variable {α : Type*}

/-- The cells of `n` addresses from `address` on. -/
def load (m : Nat → α) : Nat → Nat → List α
  | _, 0 => []
  | address, n + 1 => m address :: load m (address + 1) n

/-- The values stand from `address` on, one behind the other. -/
def store (m : Nat → α) (address : Nat) (values : List α) : Nat → α := fun x =>
  if address ≤ x then (values[x - address]?).getD (m x) else m x

variable (m : Nat → α)

@[simp] theorem load_length (address n : Nat) : (load m address n).length = n := by
  induction n generalizing address with
  | zero => rfl
  | succ n ih => rw [load, List.length_cons, ih]

theorem load_add (address n k : Nat) :
    load m address (n + k) = load m address n ++ load m (address + n) k := by
  induction n generalizing address with
  | zero => rw [Nat.zero_add, Nat.add_zero, load, List.nil_append]
  | succ n ih =>
    rw [Nat.succ_add, load, ih, load, List.cons_append]
    congr 3
    omega

/-- A part of what is loaded is loaded from further on. -/
theorem take_drop_load {n i k : Nat} (address : Nat) (inside : i + k ≤ n) :
    ((load m address n).drop i).take k = load m (address + i) k := by
  obtain ⟨rest, rfl⟩ := Nat.exists_eq_add_of_le inside
  rw [Nat.add_assoc, load_add, List.drop_left' (load_length m address i), load_add,
    List.take_left' (load_length m (address + i) k)]

theorem load_getElem? {n i : Nat} (address : Nat) (inside : i < n) :
    (load m address n)[i]? = some (m (address + i)) := by
  induction n generalizing address i with
  | zero => omega
  | succ n ih =>
    rw [load]
    cases i with
    | zero => rfl
    | succ i =>
      rw [List.getElem?_cons_succ, ih (address + 1) (by omega)]
      congr 2
      omega

theorem load_map {β : Type*} (f : α → β) (address n : Nat) :
    load (fun x => f (m x)) address n = (load m address n).map f := by
  induction n generalizing address with
  | zero => rfl
  | succ n ih => rw [load, load, ih, List.map_cons]

theorem load_congr {m m' : Nat → α} {address n : Nat}
    (same : ∀ x, address ≤ x → x < address + n → m x = m' x) :
    load m address n = load m' address n := by
  induction n generalizing address with
  | zero => rfl
  | succ n ih =>
    rw [load, load, same address (Nat.le_refl _) (by omega)]
    congr 1
    apply ih
    intro x low high
    exact same x (by omega) (by omega)

theorem eq_of_load_eq {m m' : Nat → α} {address n : Nat}
    (same : load m address n = load m' address n) {x : Nat} (low : address ≤ x)
    (high : x < address + n) : m x = m' x := by
  induction n generalizing address with
  | zero => omega
  | succ n ih =>
    obtain ⟨first, rest⟩ := List.cons.inj same
    rcases Nat.eq_or_lt_of_le low with rfl | above
    · exact first
    · exact ih rest above (by omega)

@[simp] theorem store_nil (address : Nat) : store m address [] = m := by
  funext x
  simp [store]

theorem store_outside {address x : Nat} {values : List α}
    (outside : x < address ∨ address + values.length ≤ x) : store m address values x = m x := by
  unfold store
  rcases outside with below | above
  · rw [if_neg (by omega)]
  · rw [if_pos (by omega), List.getElem?_eq_none (by omega), Option.getD_none]

/-- A store inside a span leaves everything outside the span alone. -/
theorem store_outside_span {span : Span} {address x : Nat} {values : List α}
    (low : span.start ≤ address) (high : address + values.length ≤ span.stop)
    (outside : ¬ span.Contains x) : store m address values x = m x := by
  apply store_outside
  unfold Span.Contains at outside
  omega

theorem store_inside {address i : Nat} {values : List α} (inside : i < values.length) :
    store m address values (address + i) = values[i] := by
  unfold store
  rw [if_pos (Nat.le_add_right _ _), Nat.add_sub_cancel_left, List.getElem?_eq_getElem inside,
    Option.getD_some]

theorem load_store_outside {address other n : Nat} {values : List α}
    (outside : other + n ≤ address ∨ address + values.length ≤ other) :
    load (store m address values) other n = load m other n := by
  apply load_congr
  intro x low high
  apply store_outside
  omega

theorem store_cons (address : Nat) (v : α) (values : List α) :
    store m address (v :: values) = store (store m address [v]) (address + 1) values := by
  funext x
  unfold store
  rcases Nat.lt_trichotomy x address with below | rfl | above
  · rw [if_neg (by omega), if_neg (by omega), if_neg (by omega)]
  · rw [if_neg (show ¬ x + 1 ≤ x by omega)]
    simp
  · obtain ⟨k, rfl⟩ : ∃ k, x = address + 1 + k := ⟨x - (address + 1), by omega⟩
    have shift : address + 1 + k - address = k + 1 := by omega
    simp [shift, show address ≤ address + 1 + k by omega]

theorem load_store_self (address : Nat) (values : List α) :
    load (store m address values) address values.length = values := by
  induction values generalizing m address with
  | nil => rfl
  | cons v values ih =>
    rw [List.length_cons, load, store_cons, ih, store_outside _ (Or.inl (by omega))]
    simp [store]

end Cells

end Library.Memory
