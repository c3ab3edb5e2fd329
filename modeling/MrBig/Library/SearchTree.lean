import Mathlib.Data.List.Induction
import Mathlib.Data.Tree.Basic
import Mathlib.Order.Lattice

/-!
# Search trees

* `Inserts`: an insertion that adds a leaf and goes left only below roots that the new element
  may stand in front of, and right only below roots that it may stand behind. Where both are the
  case it may take either side; the traversal in order stays sorted whichever it takes.
* `add`: the insertion that drops an element that is there already; the traversal is the set of
  all elements in increasing order.
-/

set_option autoImplicit false

namespace Library.SearchTree

variable {α : Type*} {R : α → α → Prop} {x : α} {t t' : BinaryTree α}

def inorder : BinaryTree α → List α
  | .nil => []
  | .node root left right => inorder left ++ root :: inorder right

/-- The second tree is the first one with `x` as a further leaf. -/
inductive Inserts (R : α → α → Prop) (x : α) : BinaryTree α → BinaryTree α → Prop
  | leaf : Inserts R x .nil (.node x .nil .nil)
  | left {root : α} {left left' right : BinaryTree α} (before : R x root)
      (below : Inserts R x left left') :
      Inserts R x (.node root left right) (.node root left' right)
  | right {root : α} {left right right' : BinaryTree α} (behind : R root x)
      (below : Inserts R x right right') :
      Inserts R x (.node root left right) (.node root left right')

theorem Inserts.perm (inserts : Inserts R x t t') : (inorder t').Perm (x :: inorder t) := by
  induction inserts with
  | leaf => exact List.Perm.refl _
  | left _ _ ih => exact ih.append_right _
  | @right root left right right' _ _ ih =>
    have rest : (root :: inorder right').Perm (x :: root :: inorder right) :=
      (ih.cons root).trans (List.Perm.swap x root _)
    exact (rest.append_left (inorder left)).trans List.perm_middle

theorem Inserts.sorted (trans : ∀ a b c, R a b → R b c → R a c) (inserts : Inserts R x t t')
    (sorted : (inorder t).Pairwise R) : (inorder t').Pairwise R := by
  induction inserts with
  | leaf => exact List.pairwise_singleton R x
  | @left root left left' right before below ih =>
    obtain ⟨front, back, cross⟩ := List.pairwise_append.mp sorted
    refine List.pairwise_append.mpr ⟨ih front, back, fun a inLeft b behind => ?_⟩
    rcases List.mem_cons.mp (below.perm.subset inLeft) with rfl | old
    · rcases List.mem_cons.mp behind with rfl | inRight
      · exact before
      · exact trans _ _ _ before ((List.pairwise_cons.mp back).1 b inRight)
    · exact cross a old b behind
  | @right root left right right' behind below ih =>
    obtain ⟨front, back, cross⟩ := List.pairwise_append.mp sorted
    obtain ⟨above, rest⟩ := List.pairwise_cons.mp back
    have above' : ∀ b ∈ inorder right', R root b := by
      intro b inRight
      rcases List.mem_cons.mp (below.perm.subset inRight) with rfl | old
      · exact behind
      · exact above b old
    refine List.pairwise_append.mpr
      ⟨front, List.pairwise_cons.mpr ⟨above', ih rest⟩, fun a inLeft b inBack => ?_⟩
    have toRoot := cross a inLeft root List.mem_cons_self
    rcases List.mem_cons.mp inBack with rfl | inRight
    · exact toRoot
    · exact trans _ _ _ toRoot (above' b inRight)

/-- What a sequence of insertions makes of the empty tree. -/
theorem inorder_foldl {insert : BinaryTree α → α → BinaryTree α}
    (trans : ∀ a b c, R a b → R b c → R a c) (inserts : ∀ t x, Inserts R x t (insert t x))
    (xs : List α) :
    (inorder (xs.foldl insert .nil)).Perm xs ∧ (inorder (xs.foldl insert .nil)).Pairwise R := by
  induction xs using List.reverseRecOn with
  | nil => exact ⟨List.Perm.refl _, List.Pairwise.nil⟩
  | append_singleton xs x ih =>
    rw [List.foldl_append, List.foldl_cons, List.foldl_nil]
    have step := inserts (xs.foldl insert .nil) x
    have perm := (ih.1.cons x).trans (List.perm_append_singleton x xs).symm
    exact ⟨step.perm.trans perm, step.sorted trans ih.2⟩

/-! ### Trees that hold each element once -/

section Sets

variable [LinearOrder α]

/-- Insertion into a set. -/
def add (x : α) : BinaryTree α → BinaryTree α
  | .nil => .node x .nil .nil
  | .node root left right =>
    if x < root then .node root (add x left) right
    else if root < x then .node root left (add x right)
    else .node root left right

theorem mem_inorder_add {y : α} : y ∈ inorder (add x t) ↔ y = x ∨ y ∈ inorder t := by
  induction t with
  | nil => simp [add, inorder]
  | node root left right ihLeft ihRight =>
    rw [add]
    split
    · simp only [inorder, List.mem_append, List.mem_cons, ihLeft]
      tauto
    next notLess =>
      split
      · simp only [inorder, List.mem_append, List.mem_cons, ihRight]
        tauto
      next notGreater =>
        have same : x = root := le_antisymm (not_lt.mp notGreater) (not_lt.mp notLess)
        subst same
        simp only [inorder, List.mem_append, List.mem_cons]
        tauto

theorem sorted_add (sorted : (inorder t).Pairwise (· < ·)) :
    (inorder (add x t)).Pairwise (· < ·) := by
  induction t with
  | nil => exact List.pairwise_singleton _ x
  | node root left right ihLeft ihRight =>
    obtain ⟨front, back, cross⟩ := List.pairwise_append.mp sorted
    obtain ⟨above, rest⟩ := List.pairwise_cons.mp back
    rw [add]
    split
    next less =>
      refine List.pairwise_append.mpr ⟨ihLeft front, back, fun a inLeft b behind => ?_⟩
      rcases mem_inorder_add.mp inLeft with rfl | old
      · rcases List.mem_cons.mp behind with rfl | inRight
        · exact less
        · exact less.trans (above b inRight)
      · exact cross a old b behind
    next =>
      split
      next greater =>
        have above' : ∀ b ∈ inorder (add x right), root < b := by
          intro b inRight
          rcases mem_inorder_add.mp inRight with rfl | old
          · exact greater
          · exact above b old
        refine List.pairwise_append.mpr
          ⟨front, List.pairwise_cons.mpr ⟨above', ihRight rest⟩, fun a inLeft b behind => ?_⟩
        have toRoot := cross a inLeft root List.mem_cons_self
        rcases List.mem_cons.mp behind with rfl | inRight
        · exact toRoot
        · exact toRoot.trans (above' b inRight)
      next => exact sorted

/-- What a sequence of insertions makes of the empty tree. -/
theorem inorder_foldl_add (xs : List α) :
    (inorder (xs.foldl (fun t x => add x t) .nil)).Pairwise (· < ·) ∧
      ∀ y, y ∈ inorder (xs.foldl (fun t x => add x t) .nil) ↔ y ∈ xs := by
  induction xs using List.reverseRecOn with
  | nil => exact ⟨List.Pairwise.nil, fun y => Iff.rfl⟩
  | append_singleton xs x ih =>
    rw [List.foldl_append, List.foldl_cons, List.foldl_nil]
    refine ⟨sorted_add ih.1, fun y => ?_⟩
    rw [mem_inorder_add, ih.2, List.mem_append, List.mem_singleton, or_comm]

end Sets

end Library.SearchTree
