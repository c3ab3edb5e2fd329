import Mathlib.Data.List.Perm.Basic
import Mathlib.Data.List.Sublists

/-!
# A store with one place under each key

Anyone may put something under a key, and a collector takes what lies there, in any order.
What is put under a key that is occupied replaces what was there; what is taken stays there if
the collector does not get rid of it.

* `Store`: reading, putting and removing, with the laws that connect them;
* `cleared`, `overwritten`: what the collector has taken and got rid of under a key, and what was
  replaced before it came;
* `conservation`: everything put under a key has been cleared, lies there, or was overwritten,
  once each, and what is cleared comes out in the order it went in.
-/

set_option autoImplicit false

namespace Library.Mailbox

variable {σ κ γ : Type*} [DecidableEq κ]

structure Store (σ κ γ : Type*) where
  read : σ → κ → Option γ
  put : σ → κ → γ → σ
  remove : σ → κ → σ
  read_put_self : ∀ s k c, read (put s k c) k = some c
  read_put_other : ∀ s k c other, other ≠ k → read (put s k c) other = read s other
  read_remove_self : ∀ s k, read (remove s k) k = none
  read_remove_other : ∀ s k other, other ≠ k → read (remove s k) other = read s other

/-- `gone` says whether the collector gets rid of what it takes. -/
inductive Event (κ γ : Type*) where
  | put (k : κ) (c : γ)
  | take (k : κ) (gone : Bool)

variable (store : Store σ κ γ)

def after (s : σ) : Event κ γ → σ
  | .put k c => store.put s k c
  | .take k gone => if gone then store.remove s k else s

def final (s : σ) (events : List (Event κ γ)) : σ := events.foldl (after store) s

/-- Everything put under a key. -/
def puts (k : κ) (events : List (Event κ γ)) : List γ :=
  events.filterMap fun
    | .put k' c => if k' = k then some c else none
    | .take .. => none

/-- What an event clears under a key. -/
def clears (k : κ) (s : σ) : Event κ γ → List γ
  | .put .. => []
  | .take k' gone => if k' = k ∧ gone = true then (store.read s k).toList else []

/-- What an event overwrites under a key. -/
def overwrites (k : κ) (s : σ) : Event κ γ → List γ
  | .put k' _ => if k' = k then (store.read s k).toList else []
  | .take .. => []

def cleared (k : κ) : σ → List (Event κ γ) → List γ
  | _, [] => []
  | s, e :: rest => clears store k s e ++ cleared k (after store s e) rest

def overwritten (k : κ) : σ → List (Event κ γ) → List γ
  | _, [] => []
  | s, e :: rest => overwrites store k s e ++ overwritten k (after store s e) rest

omit [DecidableEq κ] in
theorem final_append (s : σ) (first second : List (Event κ γ)) :
    final store s (first ++ second) = final store (final store s first) second :=
  List.foldl_append

theorem puts_append (k : κ) (first second : List (Event κ γ)) :
    puts k (first ++ second) = puts k first ++ puts k second :=
  List.filterMap_append

theorem cleared_append (k : κ) (s : σ) (first second : List (Event κ γ)) :
    cleared store k s (first ++ second) =
      cleared store k s first ++ cleared store k (final store s first) second := by
  induction first generalizing s with
  | nil => rfl
  | cons e rest ih =>
    rw [List.cons_append, cleared, cleared, ih, List.append_assoc]
    rfl

theorem overwritten_append (k : κ) (s : σ) (first second : List (Event κ γ)) :
    overwritten store k s (first ++ second) =
      overwritten store k s first ++ overwritten store k (final store s first) second := by
  induction first generalizing s with
  | nil => rfl
  | cons e rest ih =>
    rw [List.cons_append, overwritten, overwritten, ih, List.append_assoc]
    rfl

/-- One event: what lies under the key and what is put there is cleared, lies there, or is
overwritten. -/
theorem conservation_step (k : κ) (s : σ) (e : Event κ γ) :
    ((store.read s k).toList ++ puts k [e]).Perm
        (clears store k s e ++ (store.read (after store s e) k).toList ++ overwrites store k s e) ∧
      (clears store k s e ++ (store.read (after store s e) k).toList).Sublist
        ((store.read s k).toList ++ puts k [e]) := by
  cases e with
  | put k' c =>
    by_cases same : k' = k
    · subst same
      have there : store.read (after store s (.put k' c)) k' = some c := store.read_put_self s k' c
      have mine : puts k' [.put k' c] = [c] := by simp [puts]
      rw [there, mine]
      simp only [clears, overwrites, if_true, List.nil_append, Option.toList_some]
      exact ⟨List.perm_append_comm, List.sublist_append_right _ _⟩
    · have there : store.read (after store s (.put k' c)) k = store.read s k :=
        store.read_put_other s k' c k (Ne.symm same)
      rw [there]
      simp [puts, clears, overwrites, same]
  | take k' gone =>
    by_cases cleared : k' = k ∧ gone = true
    · obtain ⟨rfl, rfl⟩ := cleared
      have there : store.read (after store s (.take k' true)) k' = none :=
        store.read_remove_self s k'
      rw [there]
      simp [puts, clears, overwrites]
    · have there : store.read (after store s (.take k' gone)) k = store.read s k := by
        unfold after
        dsimp only
        split
        next discarded =>
          have other : k ≠ k' := fun same => cleared ⟨same.symm, discarded⟩
          exact store.read_remove_other s k' k other
        next => rfl
      rw [there]
      simp [puts, clears, overwrites, cleared]

/-- Over any run: everything put under a key has been cleared, lies there, or was overwritten,
and the first two come in the order they were put in. -/
theorem conservation (k : κ) (s : σ) (events : List (Event κ γ)) :
    ((store.read s k).toList ++ puts k events).Perm
        (cleared store k s events ++ (store.read (final store s events) k).toList ++
          overwritten store k s events) ∧
      (cleared store k s events ++ (store.read (final store s events) k).toList).Sublist
        ((store.read s k).toList ++ puts k events) := by
  induction events generalizing s with
  | nil => simp [cleared, overwritten, final, puts]
  | cons e rest ih =>
    obtain ⟨once, inOrder⟩ := conservation_step store k s e
    obtain ⟨onceLater, inOrderLater⟩ := ih (after store s e)
    rw [← List.singleton_append, puts_append, List.singleton_append, cleared, overwritten,
      ← List.append_assoc]
    refine ⟨?_, ?_⟩
    · calc
        List.Perm ((store.read s k).toList ++ puts k [e] ++ puts k rest)
            (clears store k s e ++ (store.read (after store s e) k).toList ++
              overwrites store k s e ++ puts k rest) := once.append_right _
        List.Perm _ (clears store k s e ++ ((store.read (after store s e) k).toList ++
              puts k rest) ++ overwrites store k s e) := by
            simp only [List.append_assoc]
            exact (List.perm_append_comm.append_left _).append_left _
        List.Perm _ (clears store k s e ++ (cleared store k (after store s e) rest ++
              (store.read (final store (after store s e) rest) k).toList ++
              overwritten store k (after store s e) rest) ++ overwrites store k s e) :=
            (onceLater.append_left _).append_right _
        List.Perm _ _ := by
            simp only [List.append_assoc]
            refine (List.Perm.append_left _ (List.Perm.append_left _ ?_)).append_left _
            exact List.perm_append_comm
    · have first : (clears store k s e ++ (cleared store k (after store s e) rest ++
          (store.read (final store (after store s e) rest) k).toList)).Sublist
          (clears store k s e ++ ((store.read (after store s e) k).toList ++ puts k rest)) :=
        inOrderLater.append_left _
      rw [List.append_assoc]
      apply first.trans
      rw [← List.append_assoc]
      exact inOrder.append_right _

end Library.Mailbox
