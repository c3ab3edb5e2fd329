import Mathlib.Data.List.Perm.Basic

/-!
# Merging

A merge is sorted by any relation that its comparison decides between the two lists, if both are.
The relation may say more than the comparison: with the place of an element in it, a sort by
merging is stable.
-/

set_option autoImplicit false

namespace Library.Merge

variable {α : Type*} {le : α → α → Bool} {S : α → α → Prop}

/-- The relation holds one way or the other, as the comparison says. -/
structure Decides (le : α → α → Bool) (S : α → α → Prop) (x y : α) : Prop where
  pos : le x y = true → S x y
  neg : le x y = false → S y x

def TransOn (S : α → α → Prop) (list : List α) : Prop :=
  ∀ a ∈ list, ∀ b ∈ list, ∀ c ∈ list, S a b → S b c → S a c

theorem TransOn.mono {list more : List α} (trans : TransOn S more) (sub : list ⊆ more) :
    TransOn S list :=
  fun a inA b inB c inC => trans a (sub inA) b (sub inB) c (sub inC)

theorem pairwise_merge {xs ys : List α} (trans : TransOn S (xs ++ ys))
    (decides : ∀ x ∈ xs, ∀ y ∈ ys, Decides le S x y) (left : xs.Pairwise S)
    (right : ys.Pairwise S) : (xs.merge ys le).Pairwise S := by
  induction xs generalizing ys with
  | nil => rwa [List.nil_merge]
  | cons x xs ihx =>
    induction ys with
    | nil => rwa [List.merge_right]
    | cons y ys ihy =>
      obtain ⟨beforeX, left'⟩ := List.pairwise_cons.mp left
      obtain ⟨beforeY, right'⟩ := List.pairwise_cons.mp right
      have inX : x ∈ x :: xs ++ y :: ys := List.mem_append_left _ List.mem_cons_self
      have inY : y ∈ x :: xs ++ y :: ys := List.mem_append_right _ List.mem_cons_self
      have between := decides x List.mem_cons_self y List.mem_cons_self
      cases is : le x y with
      | true =>
        have sub : xs ++ y :: ys ⊆ x :: xs ++ y :: ys := List.subset_cons_self x _
        rw [List.cons_merge_cons_pos _ _ _ is, List.pairwise_cons]
        refine ⟨fun z member => ?_, ?_⟩
        · rcases List.mem_merge.mp member with inXs | inYs
          · exact beforeX z inXs
          · rcases List.mem_cons.mp inYs with rfl | behind
            · exact between.pos is
            · exact trans x inX y inY z (List.mem_append_right _ inYs) (between.pos is)
                (beforeY z behind)
        · exact ihx (trans.mono sub)
            (fun a inA => decides a (List.mem_cons_of_mem _ inA)) left' right
      | false =>
        have sub : x :: xs ++ ys ⊆ x :: xs ++ y :: ys := by
          intro a member
          rcases List.mem_append.mp member with inXs | inYs
          · exact List.mem_append_left _ inXs
          · exact List.mem_append_right _ (List.mem_cons_of_mem y inYs)
        rw [List.cons_merge_cons_neg _ _ _ (by simp [is]), List.pairwise_cons]
        refine ⟨fun z member => ?_, ?_⟩
        · rcases List.mem_merge.mp member with inXs | inYs
          · rcases List.mem_cons.mp inXs with rfl | behind
            · exact between.neg is
            · exact trans y inY x inX z (List.mem_append_left _ inXs) (between.neg is)
                (beforeX z behind)
          · exact beforeY z inYs
        · exact ihy (trans.mono sub)
            (fun a inA b inB => decides a inA b (List.mem_cons_of_mem _ inB)) right'

end Library.Merge
