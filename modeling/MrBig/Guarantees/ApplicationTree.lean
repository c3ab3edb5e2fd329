import MrBig.Source.Applications

/-!
# The tree of applications

Nodes with equal keys go to the left of each other where the left child is free and to the right
otherwise, so a key may stand on both sides of a root that has it.
-/

set_option autoImplicit false

namespace MrBig.Guarantees.ApplicationTree
open Library Library.SearchTree Source Source.Applications

/-- The name of the first is less in its 64 bytes, or the same and the architecture not greater. -/
def NotBehind (a b : Application) : Prop :=
  strncmp a.name b.name 64 = .lt ∨
    strncmp a.name b.name 64 = .eq ∧ a.architecture.value ≤ b.architecture.value

theorem notBehind_iff (a b : Application) : NotBehind a b ↔ tComp a b ≠ .gt := by
  unfold NotBehind tComp
  rw [Ne, Ordering.then_eq_gt, Nat.compare_eq_gt]
  change _ ↔ ¬ (strncmp a.name b.name 64 = .gt ∨ strncmp a.name b.name 64 = .eq ∧ _)
  cases strncmp a.name b.name 64 <;> simp

theorem strncmp_compares (s t : Text) (n : Nat) : (strncmp s t n).Compares (s.take n) (t.take n) :=
  strcmp_compares _ _

theorem NotBehind.trans {a b c : Application} (first : NotBehind a b) (second : NotBehind b c) :
    NotBehind a c := by
  unfold NotBehind at *
  rw [(strncmp_compares _ _ _).eq_lt, (strncmp_compares _ _ _).eq_eq] at *
  rcases first with less | ⟨same, below⟩
  · rcases second with less' | ⟨same', -⟩
    · exact Or.inl (lt_trans less less')
    · exact Or.inl (same' ▸ less)
  · rw [same]
    rcases second with less' | ⟨same', below'⟩
    · exact Or.inl less'
    · exact Or.inr ⟨same', Nat.le_trans below below'⟩

theorem tComp_swap (a b : Application) : (tComp a b).swap = tComp b a := by
  unfold tComp strncmp
  rw [Ordering.swap_then, strcmp_swap, Nat.compare_swap]

theorem treeInsert_inserts (root : ApplicationTree) (t : Node) :
    Inserts (fun a b => NotBehind a.value b.value) t root (treeInsert root t) := by
  fun_induction treeInsert root t with
  | case1 t => exact Inserts.leaf
  | case2 root left right t less ih =>
    exact Inserts.left ((notBehind_iff _ _).mpr (by simp [less])) ih
  | case3 root left right t more ih =>
    refine Inserts.right ((notBehind_iff _ _).mpr ?_) ih
    rw [← tComp_swap, more]
    decide
  | case4 root right t same =>
    exact Inserts.left ((notBehind_iff _ _).mpr (by simp [same])) Inserts.leaf
  | case5 root right t same value left' right' ih =>
    refine Inserts.right ((notBehind_iff _ _).mpr ?_) ih
    rw [← tComp_swap, same]
    decide

theorem treeTraverseAppend_eq (t : ApplicationTree) :
    treeTraverseAppend t =
      (inorder t).map fun node => '\n' :: prettyApplication node.value := by
  induction t with
  | nil => rfl
  | node root left right ihLeft ihRight =>
    rw [treeTraverseAppend, ihLeft, ihRight, inorder, List.map_append, List.map_cons]

theorem inorder_inserted (nodes : List Node) :
    (inorder (nodes.foldl treeInsert .nil)).Perm nodes ∧
      (inorder (nodes.foldl treeInsert .nil)).Pairwise fun a b => NotBehind a.value b.value :=
  inorder_foldl (R := fun a b : Node => NotBehind a.value b.value)
    (fun _ _ _ => NotBehind.trans) treeInsert_inserts nodes

/-- Nodes inserted one after the other are visited once each, in the order of their keys. -/
theorem applications_in_order (nodes : List Node) :
    ∃ visited : List Node, visited.Perm nodes ∧
      visited.Pairwise (fun a b => NotBehind a.value b.value) ∧
      treeTraverseAppend (nodes.foldl treeInsert .nil) =
        visited.map fun node => '\n' :: prettyApplication node.value :=
  ⟨_, (inorder_inserted nodes).1, (inorder_inserted nodes).2, treeTraverseAppend_eq _⟩

/-! ### The page -/

/-- The nodes for the keys of one root. -/
def listedNodes (arch : Arch) (keys : Option (List UninstallKey)) : List Node :=
  ((keys.getD []).filter UninstallKey.listed).map (UninstallKey.app arch)

theorem insertApplications_eq (root : ApplicationTree) (arch : Arch)
    (keys : Option (List UninstallKey)) :
    Applications.insertApplications root arch keys =
      (listedNodes arch keys).foldl treeInsert root := by
  cases keys with
  | none => rfl
  | some keys =>
    unfold Applications.insertApplications listedNodes
    rw [List.foldl_map, List.foldl_filter]
    rfl

/-- Both registry views are on the page, every key with a version or a publisher once. -/
theorem applicationsText_rows (x86_32 x86_64 : Option (List UninstallKey))
    (nonempty : listedNodes .x86_32 x86_32 ++ listedNodes .x86_64 x86_64 ≠ []) :
    ∃ visited : List Node,
      visited.Perm (listedNodes .x86_32 x86_32 ++ listedNodes .x86_64 x86_64) ∧
      visited.Pairwise (fun a b => NotBehind a.value b.value) ∧
      applicationsText x86_32 x86_64 =
        "[applications]".toList ::
          visited.map fun node => '\n' :: prettyApplication node.value := by
  obtain ⟨perm, sorted⟩ :=
    inorder_inserted (listedNodes .x86_32 x86_32 ++ listedNodes .x86_64 x86_64)
  refine ⟨_, perm, sorted, ?_⟩
  unfold applicationsText
  dsimp only
  rw [insertApplications_eq, insertApplications_eq, ← List.foldl_append,
    ← treeTraverseAppend_eq]
  cases inserted : List.foldl treeInsert .nil
      (listedNodes .x86_32 x86_32 ++ listedNodes .x86_64 x86_64) with
  | nil =>
    rw [inserted] at perm
    exact absurd perm.symm.eq_nil nonempty
  | node root left right => rfl

end MrBig.Guarantees.ApplicationTree
