import Mathlib.Data.Multiset.OrderedMonoid
import MrBig.Library.KeyedList

/-!
# Heap blocks and the records that are kept in them

A heap hands out blocks at addresses that are not its choice and takes them back. A record that
is `Held` has a block for its node and one for each of its texts. The rules say what stays live
around an operation: whatever else is live, the frame, is still live behind it.

* `malloc`, `free`, `freeAll`: the heap; a block that is not live cannot be freed;
* `hold`, `release`, `push`, `releaseAll`: a record with its blocks, and lists of them;
* `ensure`, `change`, `enter`: the record under a key, which is held first if there is none; on
  the values, `enter` is that of the searched lists;
* `foldlM_releases`: a loop that releases each record of a list;
* `AtEach`, `run_keeps_iff`: a run loses no block if and only if none of its steps does.
-/

set_option autoImplicit false

namespace Library.Blocks

/-- The blocks that are live, and how many there have been. -/
structure Heap where
  mallocs : Nat
  live : Multiset Nat

variable {α β κ : Type*} (address : Nat → Nat)

/-- A further block; `address` says where each one is. -/
def Heap.malloc (h : Heap) : Heap × Nat :=
  (⟨h.mallocs + 1, address h.mallocs ::ₘ h.live⟩, address h.mallocs)

def Heap.free (h : Heap) (p : Nat) : Option Heap :=
  if p ∈ h.live then some { h with live := h.live.erase p } else none

def Heap.freeAll (h : Heap) (ps : List Nat) : Option Heap := ps.foldlM Heap.free h

/-- A value with the blocks it is kept in. -/
structure Held (α : Type*) where
  value : α
  node : Nat
  texts : List Nat

def Held.blocks (x : Held α) : Multiset Nat := x.node ::ₘ x.texts

def blocksOf (xs : List (Held α)) : Multiset Nat := (xs.map Held.blocks).sum

/-- The blocks of some texts. -/
def holdTexts : Nat → Heap → Heap × List Nat
  | 0, h => (h, [])
  | texts + 1, h =>
    let (h, p) := h.malloc address
    let (h, ps) := holdTexts texts h
    (h, p :: ps)

/-- A node first, then its texts. -/
def hold (h : Heap) (texts : Nat) (value : α) : Heap × Held α :=
  let (h, node) := h.malloc address
  let (h, ps) := holdTexts address texts h
  (h, ⟨value, node, ps⟩)

/-- The texts first, then the node. -/
def Held.release (h : Heap) (x : Held α) : Option Heap := h.freeAll (x.texts ++ [x.node])

def releaseAll (h : Heap) (xs : List (Held α)) : Option Heap := xs.foldlM Held.release h

def push (texts : Nat) (value : α) (s : Heap × List (Held α)) : Heap × List (Held α) :=
  ((hold address s.1 texts value).1, (hold address s.1 texts value).2 :: s.2)

section Keyed

variable [DecidableEq κ] (key : α → κ) (k : κ)

def findHeld (xs : List (Held α)) : Option α :=
  KeyedList.find key k (xs.map Held.value)

/-- A list in which there is a record under a key. -/
def ensure (texts : Nat) (fresh : α) (s : Heap × List (Held α)) : Heap × List (Held α) :=
  match findHeld key k s.2 with
  | none => push address texts fresh s
  | some _ => s

def Held.map (f : α → α) (x : Held α) : Held α := { x with value := f x.value }

/-- The record under a key is changed where it stands. -/
def change (f : α → α) (xs : List (Held α)) : List (Held α) :=
  KeyedList.modify (fun x => key x.value) k (Held.map f) xs

/-- The record under a key, which goes in first if there is none, is changed. -/
def enter (texts : Nat) (fresh : α) (f : α → α) (s : Heap × List (Held α)) :
    Heap × List (Held α) :=
  ((ensure address key k texts fresh s).1, change key k f (ensure address key k texts fresh s).2)

end Keyed

/-! ### What is live -/

@[simp] theorem blocksOf_nil : blocksOf ([] : List (Held α)) = 0 := rfl

@[simp] theorem blocksOf_cons (x : Held α) (xs : List (Held α)) :
    blocksOf (x :: xs) = x.blocks + blocksOf xs := by
  simp [blocksOf]

theorem blocksOf_eq_zero_iff (xs : List (Held α)) : blocksOf xs = 0 ↔ xs = [] := by
  cases xs with
  | nil => simp
  | cons x xs =>
    refine iff_of_false ?_ (List.cons_ne_nil x xs)
    rw [blocksOf_cons, Held.blocks, Multiset.cons_add]
    exact Multiset.cons_ne_zero

@[simp] theorem malloc_live (h : Heap) :
    (h.malloc address).1.live = (h.malloc address).2 ::ₘ h.live := rfl

theorem free_spec {h : Heap} {p : Nat} {frame : Multiset Nat} (live : h.live = p ::ₘ frame) :
    ∃ h', h.free p = some h' ∧ h'.live = frame := by
  refine ⟨{ h with live := h.live.erase p }, if_pos ?_, ?_⟩
  · rw [live]
    exact Multiset.mem_cons_self p frame
  · rw [live]
    exact Multiset.erase_cons_head p frame

theorem freeAll_spec {h : Heap} {ps : List Nat} {frame : Multiset Nat}
    (live : h.live = ↑ps + frame) : ∃ h', h.freeAll ps = some h' ∧ h'.live = frame := by
  induction ps generalizing h with
  | nil => exact ⟨h, rfl, by simpa using live⟩
  | cons p ps ih =>
    rw [← Multiset.cons_coe, Multiset.cons_add] at live
    obtain ⟨next, freed, still⟩ := free_spec live
    obtain ⟨h', rest, left⟩ := ih still
    refine ⟨h', ?_, left⟩
    rw [Heap.freeAll, List.foldlM_cons, freed]
    exact rest

theorem holdTexts_live (texts : Nat) (h : Heap) :
    (holdTexts address texts h).1.live = ↑(holdTexts address texts h).2 + h.live := by
  induction texts generalizing h with
  | zero => simp [holdTexts]
  | succ texts ih =>
    rw [holdTexts]
    dsimp only
    rw [ih, ← Multiset.cons_coe, Multiset.cons_add, ← Multiset.add_cons]
    rfl

theorem hold_live (h : Heap) (texts : Nat) (value : α) :
    (hold address h texts value).1.live = (hold address h texts value).2.blocks + h.live := by
  rw [hold]
  dsimp only
  rw [holdTexts_live, Held.blocks, Multiset.cons_add, ← Multiset.add_cons]
  rfl

theorem holdTexts_length (texts : Nat) (h : Heap) :
    (holdTexts address texts h).2.length = texts := by
  induction texts generalizing h with
  | zero => rfl
  | succ texts ih => exact congrArg (· + 1) (ih _)

theorem hold_card (h : Heap) (texts : Nat) (value : α) :
    (hold address h texts value).2.blocks.card = texts + 1 := by
  rw [Held.blocks, Multiset.card_cons, Multiset.coe_card]
  exact congrArg (· + 1) (holdTexts_length address texts _)

@[simp] theorem hold_value (h : Heap) (texts : Nat) (value : α) :
    (hold address h texts value).2.value = value := rfl

theorem release_spec {h : Heap} {x : Held α} {frame : Multiset Nat}
    (live : h.live = x.blocks + frame) : ∃ h', x.release h = some h' ∧ h'.live = frame := by
  apply freeAll_spec
  rw [live, Held.blocks, ← Multiset.coe_add, Multiset.coe_singleton, Multiset.add_comm _ {x.node},
    Multiset.singleton_add]

/-- A loop that releases each record of a list. -/
theorem foldlM_releases {σ : Type*} {step : σ → Held α → Option σ} (Inv : σ → Multiset Nat → Prop)
    (steps : ∀ {s x frame}, Inv s (x.blocks + frame) → ∃ s', step s x = some s' ∧ Inv s' frame)
    {xs : List (Held α)} {s : σ} {frame : Multiset Nat} (inv : Inv s (blocksOf xs + frame)) :
    ∃ s', xs.foldlM step s = some s' ∧ Inv s' frame := by
  induction xs generalizing s with
  | nil => exact ⟨s, rfl, by simpa using inv⟩
  | cons x xs ih =>
    rw [blocksOf_cons, Multiset.add_assoc] at inv
    obtain ⟨next, done, still⟩ := steps inv
    obtain ⟨s', rest, last⟩ := ih still
    refine ⟨s', ?_, last⟩
    rw [List.foldlM_cons, done]
    exact rest

theorem releaseAll_spec {h : Heap} {xs : List (Held α)} {frame : Multiset Nat}
    (live : h.live = blocksOf xs + frame) :
    ∃ h', releaseAll h xs = some h' ∧ h'.live = frame :=
  foldlM_releases (fun (h : Heap) frame => h.live = frame) release_spec live

/-- What such a loop does to the values. -/
theorem foldlM_values {σ τ : Type*} {step : σ → Held α → Option σ} (view : σ → τ) (goOn : τ → α → τ)
    (steps : ∀ {s x s'}, step s x = some s' → view s' = goOn (view s) x.value)
    {xs : List (Held α)} {s s' : σ} (done : xs.foldlM step s = some s') :
    view s' = (xs.map Held.value).foldl goOn (view s) := by
  induction xs generalizing s with
  | nil =>
    obtain rfl := Option.some.inj done
    rfl
  | cons x xs ih =>
    rw [List.foldlM_cons] at done
    obtain ⟨next, now, later⟩ := Option.bind_eq_some_iff.mp done
    rw [ih later, steps now, List.map_cons, List.foldl_cons]

/-- The heap and the list that a function works on, with the rest that it leaves alone. -/
def Holds (s : Heap × List (Held α)) (frame : Multiset Nat) : Prop :=
  s.1.live = blocksOf s.2 + frame

theorem holds_nil (h : Heap) : Holds (h, ([] : List (Held α))) h.live := (zero_add _).symm

theorem push_holds {s : Heap × List (Held α)} {frame : Multiset Nat} (holds : Holds s frame)
    (texts : Nat) (value : α) : Holds (push address texts value s) frame := by
  unfold Holds at holds ⊢
  rw [push, hold_live, holds, blocksOf_cons, Multiset.add_assoc]

theorem foldl_holds {ε : Type*} {step : Heap × List (Held α) → ε → Heap × List (Held α)}
    {frame : Multiset Nat} (steps : ∀ s e, Holds s frame → Holds (step s e) frame)
    (entries : List ε) {s : Heap × List (Held α)} (holds : Holds s frame) :
    Holds (entries.foldl step s) frame := by
  induction entries generalizing s with
  | nil => exact holds
  | cons e entries ih => exact ih (steps s e holds)

/-! ### Records under a key -/

section Keyed

variable [DecidableEq κ] {key : α → κ} {k : κ} {s : Heap × List (Held α)}

@[simp] theorem map_blocks (f : α → α) (x : Held α) : (x.map f).blocks = x.blocks := rfl

@[simp] theorem blocksOf_change (f : α → α) (xs : List (Held α)) :
    blocksOf (change key k f xs) = blocksOf xs := by
  induction xs with
  | nil => rfl
  | cons x xs ih =>
    unfold change at ih ⊢
    rw [KeyedList.modify]
    split
    · rw [blocksOf_cons, blocksOf_cons, map_blocks]
    · rw [blocksOf_cons, blocksOf_cons, ih]

theorem change_values (f : α → α) (xs : List (Held α)) :
    (change key k f xs).map Held.value = KeyedList.modify key k f (xs.map Held.value) :=
  KeyedList.modify_map Held.value k xs fun _ _ => rfl

theorem ensure_values (texts : Nat) (fresh : α) :
    (ensure address key k texts fresh s).2.map Held.value =
      match findHeld key k s.2 with
      | none => fresh :: s.2.map Held.value
      | some _ => s.2.map Held.value := by
  unfold ensure
  split <;> rfl

theorem enter_values (texts : Nat) (fresh : α) (f : α → α) :
    (enter address key k texts fresh f s).2.map Held.value =
      KeyedList.enter key k fresh f (s.2.map Held.value) := by
  rw [enter, change_values, ensure_values]
  rfl

theorem ensure_holds {frame : Multiset Nat} (holds : Holds s frame) (texts : Nat) (fresh : α) :
    Holds (ensure address key k texts fresh s) frame := by
  unfold ensure
  split
  · exact push_holds address holds texts fresh
  · exact holds

theorem enter_holds {frame : Multiset Nat} (holds : Holds s frame) (texts : Nat) (fresh : α)
    (f : α → α) : Holds (enter address key k texts fresh f s) frame := by
  have ensured : Holds (ensure address key k texts fresh s) frame :=
    ensure_holds address holds texts fresh
  unfold Holds at ensured ⊢
  rw [enter, blocksOf_change]
  exact ensured

/-- Blocks are added if and only if there is no such record yet. -/
theorem enter_blocks (texts : Nat) (fresh : α) (f : α → α) :
    ∃ added, blocksOf (enter address key k texts fresh f s).2 = added + blocksOf s.2 ∧
      (added = 0 ↔ findHeld key k s.2 ≠ none) := by
  rw [enter, blocksOf_change]
  unfold ensure
  cases findHeld key k s.2 with
  | none =>
    refine ⟨_, blocksOf_cons _ _, ?_⟩
    simp [Held.blocks]
  | some _ => exact ⟨0, by simp, by simp⟩

end Keyed

/-! ### Runs -/

section Run

variable {σ ι : Type*} (step : σ → ι → Option σ)

/-- A condition at each step that a run gets to. -/
def AtEach (Condition : σ → ι → Prop) (start : σ) (steps : List ι) : Prop :=
  ∀ before i after s, steps = before ++ i :: after → before.foldlM step start = some s →
    Condition s i

variable {step} {Condition : σ → ι → Prop} {start : σ}

theorem atEach_nil : AtEach step Condition start [] := by
  intro before i after s split
  simp at split

theorem atEach_cons (i : ι) (steps : List ι) :
    AtEach step Condition start (i :: steps) ↔
      Condition start i ∧ ∀ s, step start i = some s → AtEach step Condition s steps := by
  constructor
  · intro each
    refine ⟨each [] i steps start rfl rfl, fun s now before j after s' split reached => ?_⟩
    refine each (i :: before) j after s' (by rw [split, List.cons_append]) ?_
    rw [List.foldlM_cons, now]
    exact reached
  · rintro ⟨first, others⟩ before j after s split reached
    cases before with
    | nil =>
      obtain ⟨rfl, rfl⟩ := List.cons.inj split
      obtain rfl := Option.some.inj reached
      exact first
    | cons head before =>
      obtain ⟨rfl, rest⟩ := List.cons.inj split
      rw [List.foldlM_cons] at reached
      obtain ⟨next, now, later⟩ := Option.bind_eq_some_iff.mp reached
      exact others next now before j after s rest later

/-- What a step does to the blocks that are nobody's: none is lost if the condition holds, and
otherwise the step loses some or does not return. -/
def Accounts (step : σ → ι → Option σ) (Condition : σ → ι → Prop)
    (Owns : σ → Multiset Nat → Prop) : Prop :=
  ∀ s i rest, Owns s rest →
    (Condition s i → ∃ s', step s i = some s' ∧ Owns s' rest) ∧
    (¬ Condition s i → ∀ s', step s i = some s' → ∃ lost, lost ≠ 0 ∧ Owns s' (lost + rest))

variable {Owns : σ → Multiset Nat → Prop}

theorem run_keeps (accounts : Accounts step Condition Owns) {steps : List ι}
    {rest : Multiset Nat} (owns : Owns start rest) (each : AtEach step Condition start steps) :
    ∃ s, steps.foldlM step start = some s ∧ Owns s rest := by
  induction steps generalizing start with
  | nil => exact ⟨start, rfl, owns⟩
  | cons i steps ih =>
    obtain ⟨first, others⟩ := (atEach_cons i steps).mp each
    obtain ⟨next, now, still⟩ := (accounts start i rest owns).1 first
    obtain ⟨s, later, last⟩ := ih still (others next now)
    refine ⟨s, ?_, last⟩
    rw [List.foldlM_cons, now]
    exact later

/-- A block that is lost stays lost. -/
theorem run_loses (accounts : Accounts step Condition Owns) {steps : List ι}
    {rest : Multiset Nat} (owns : Owns start rest) {s : σ}
    (reached : steps.foldlM step start = some s) :
    ∃ lost, Owns s (lost + rest) ∧ (¬ AtEach step Condition start steps → lost ≠ 0) := by
  induction steps generalizing start rest with
  | nil =>
    obtain rfl := Option.some.inj reached
    exact ⟨0, by rwa [zero_add], fun not => absurd atEach_nil not⟩
  | cons i steps ih =>
    rw [List.foldlM_cons] at reached
    obtain ⟨next, now, later⟩ := Option.bind_eq_some_iff.mp reached
    by_cases first : Condition start i
    · obtain ⟨next', now', still⟩ := (accounts start i rest owns).1 first
      obtain rfl := Option.some.inj (now.symm.trans now')
      obtain ⟨lost, last, others⟩ := ih still later
      refine ⟨lost, last, fun not => others fun each => not ?_⟩
      refine (atEach_cons i steps).mpr ⟨first, fun s' same => ?_⟩
      obtain rfl := Option.some.inj (now.symm.trans same)
      exact each
    · obtain ⟨lost, nonempty, still⟩ := (accounts start i rest owns).2 first next now
      obtain ⟨more, last, -⟩ := ih still later
      refine ⟨more + lost, by rwa [add_assoc], fun _ nothing => nonempty ?_⟩
      exact (add_eq_zero.mp nothing).2

/-- A run ends without a loss if and only if each of its steps meets the condition. -/
theorem run_keeps_iff (accounts : Accounts step Condition Owns)
    (determined : ∀ {s rest rest'}, Owns s rest → Owns s rest' → rest = rest')
    {steps : List ι} {rest : Multiset Nat} (owns : Owns start rest) :
    (∃ s, steps.foldlM step start = some s ∧ Owns s rest) ↔
      AtEach step Condition start steps := by
  refine ⟨fun ⟨s, reached, still⟩ => ?_, run_keeps accounts owns⟩
  obtain ⟨lost, last, loses⟩ := run_loses accounts owns reached
  by_contra not
  exact loses not (add_eq_right.mp (determined last still))

end Run

end Library.Blocks
