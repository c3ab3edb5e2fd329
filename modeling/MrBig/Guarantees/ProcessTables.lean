import MrBig.Library.Merge
import MrBig.Source.Processes

/-!
# The sorted process tables

The sort merges the halves of a range of pointers, the left one first where the rows are equal.
It is stable and sorts by whatever the comparison decides between the rows. The print skips the
rows without a PID and raises its limit for each of them.
-/

set_option autoImplicit false

namespace MrBig.Guarantees.ProcessTables
open Library Library.Memory Library.Merge Library.Word Source Source.Processes

/-! ### The sort -/

section

variable {Pointer : Type} {compare : Pointer → Pointer → Int8}

/-- The comparison as the merge asks it. -/
def notLess (compare : Pointer → Pointer → Int8) (a b : Pointer) : Bool :=
  decide (compare a b ≥ 0)

theorem load_cons {α : Type*} (m : Nat → α) {address n : Nat} (nonempty : 0 < n) :
    load m address n = m address :: load m (address + 1) (n - 1) := by
  cases n with
  | zero => exact absurd nonempty (Nat.lt_irrefl 0)
  | succ n => rfl

/-- The loops are a merge of what they have not read. -/
theorem mergeLoops_eq (p : Nat → Pointer) (start mid ending i j : Nat) :
    mergeLoops compare p start mid ending i j =
      (load p (start + i) (mid - start - i)).merge (load p (mid + j) (ending - mid - j))
        (notLess compare) := by
  fun_induction mergeLoops compare p start mid ending i j with
  | case1 i j inside left ih =>
    have take : notLess compare (p (start + i)) (p (mid + j)) = true := decide_eq_true left
    rw [ih, load_cons p (Nat.sub_pos_of_lt inside.1), load_cons p (Nat.sub_pos_of_lt inside.2),
      List.cons_merge_cons_pos _ _ _ take, ← load_cons p (Nat.sub_pos_of_lt inside.2)]
    rfl
  | case2 i j inside right ih =>
    have take : ¬ notLess compare (p (start + i)) (p (mid + j)) = true := by
      rw [notLess, decide_eq_false right]
      exact Bool.false_ne_true
    rw [ih, load_cons p (Nat.sub_pos_of_lt inside.1), load_cons p (Nat.sub_pos_of_lt inside.2),
      List.cons_merge_cons_neg _ _ _ take, ← load_cons p (Nat.sub_pos_of_lt inside.1)]
    rfl
  | case3 i j outside =>
    rcases Nat.lt_or_ge i (mid - start) with more | isEmpty
    · rw [show ending - mid - j = 0 by omega, load, List.append_nil, List.merge_right]
    · rw [show mid - start - i = 0 by omega, load, List.nil_append, List.nil_merge]

/-- What the sort does to a range of pointers. -/
structure SortsRange (S : Pointer → Pointer → Prop) (start ending : Nat) (p p' : Nat → Pointer) :
    Prop where
  outside : ∀ x, x < start ∨ ending ≤ x → p' x = p x
  perm : (load p' start (ending - start)).Perm (load p start (ending - start))
  sorted : (load p' start (ending - start)).Pairwise S

theorem load_split (p : Nat → Pointer) {start mid ending : Nat} (low : start ≤ mid)
    (high : mid ≤ ending) :
    load p start (ending - start) = load p start (mid - start) ++ load p mid (ending - mid) := by
  rw [show ending - start = mid - start + (ending - mid) by omega, load_add,
    Nat.add_sub_cancel' low]

/-- The loops behind the sorts of the two halves. -/
theorem SortsRange.merge {S : Pointer → Pointer → Prop} {start mid ending : Nat}
    {p p₁ p₂ : Nat → Pointer} (low : start ≤ mid) (high : mid ≤ ending)
    (left : SortsRange S start mid p p₁) (right : SortsRange S mid ending p₁ p₂)
    (trans : TransOn S (load p start (mid - start) ++ load p mid (ending - mid)))
    (cross : ∀ a ∈ load p start (mid - start), ∀ b ∈ load p mid (ending - mid),
      Decides (notLess compare) S a b) :
    SortsRange S start ending p (store p₂ start (mergeLoops compare p₂ start mid ending 0 0)) := by
  have same : load p₁ mid (ending - mid) = load p mid (ending - mid) :=
    load_congr fun x above _ => left.outside x (Or.inr above)
  have same' : load p₂ start (mid - start) = load p₁ start (mid - start) :=
    load_congr fun x _ below => right.outside x (Or.inl (by omega))
  have permL := left.perm
  have permR := right.perm
  rw [same] at permR
  have merged : mergeLoops compare p₂ start mid ending 0 0 =
      (load p₁ start (mid - start)).merge (load p₂ mid (ending - mid)) (notLess compare) := by
    rw [mergeLoops_eq, Nat.add_zero, Nat.add_zero, Nat.sub_zero, Nat.sub_zero, same']
  have size : (mergeLoops compare p₂ start mid ending 0 0).length = ending - start := by
    rw [merged, List.length_merge, load_length, load_length]
    omega
  have stored := load_store_self p₂ start (mergeLoops compare p₂ start mid ending 0 0)
  rw [size] at stored
  refine ⟨?_, ?_, ?_⟩
  · intro x outside
    rw [store_outside _ (by omega), right.outside x (by omega), left.outside x (by omega)]
  · rw [stored, merged, load_split p low high]
    exact List.Perm.trans (List.merge_perm_append _) (permL.append permR)
  · rw [stored, merged]
    refine pairwise_merge (trans.mono ?_) ?_ left.sorted right.sorted
    · exact (permL.append permR).subset
    · intro a inLeft b inRight
      exact cross a (permL.subset inLeft) b (permR.subset inRight)

theorem helperSortBy_sorts {S : Pointer → Pointer → Prop} (p : Nat → Pointer) (start ending : Nat)
    (trans : TransOn S (load p start (ending - start)))
    (decides : (load p start (ending - start)).Pairwise (Decides (notLess compare) S)) :
    SortsRange S start ending p (helperSortBy compare p start ending) := by
  fun_induction helperSortBy compare p start ending with
  | case1 p start ending more mid p₁ p₂ ih₁ _ ih₂ =>
    have low : start ≤ mid := by omega
    have high : mid ≤ ending := by omega
    rw [load_split p low high] at trans decides
    obtain ⟨left, right, cross⟩ := List.pairwise_append.mp decides
    have sorts₁ : SortsRange S start mid p p₁ := ih₁ (trans.mono (List.subset_append_left _ _)) left
    -- The first sort leaves the second half alone.
    have same : load p₁ mid (ending - mid) = load p mid (ending - mid) :=
      load_congr fun x above _ => sorts₁.outside x (Or.inr above)
    rw [same] at ih₂
    have sorts₂ : SortsRange S mid ending p₁ p₂ :=
      ih₂ (trans.mono (List.subset_append_right _ _)) right
    exact sorts₁.merge low high sorts₂ trans cross
  | case2 p start ending few =>
    refine ⟨fun x _ => rfl, List.Perm.refl _, ?_⟩
    rcases Nat.lt_or_ge (ending - start) 1 with isEmpty | one
    · rw [show ending - start = 0 by omega]
      exact List.Pairwise.nil
    · rw [show ending - start = 1 by omega]
      exact List.pairwise_singleton _ _

end

/-! ### The table -/

theorem load_pointers (n : Nat) : load (fun i => i) 0 n = List.range n := by
  apply List.ext_getElem?
  intro i
  rcases Nat.lt_or_ge i n with inside | outside
  · rw [load_getElem? _ 0 inside, List.getElem?_range inside, Nat.zero_add]
  · rw [List.getElem?_eq_none (by rwa [load_length]),
      List.getElem?_eq_none (by rwa [List.length_range])]

section

variable {compare : Compare} {t : Table} {S : Nat → Nat → Prop}

/-- The pointers behind the sort. -/
theorem sortBy_order (trans : TransOn S (List.range t.numRows))
    (decides : (List.range t.numRows).Pairwise
      (Decides (notLess fun i j => compare (t.rows i) (t.rows j)) S)) :
    ∃ order : List Nat, order.Perm (List.range t.numRows) ∧
      (sortBy compare t).list = order.map t.rows ∧ order.Pairwise S := by
  rw [← load_pointers] at trans decides
  have sorts := helperSortBy_sorts (fun i => i) 0 t.numRows trans decides
  refine ⟨_, ?_, ?_, sorts.sorted⟩
  · have perm := sorts.perm
    rwa [load_pointers] at perm
  · exact load_map _ t.rows 0 t.numRows

/-- Behind one another as the comparison says, and as before where it says nothing. -/
def StablyBefore (compare : Compare) (t : Table) (i j : Nat) : Prop :=
  0 ≤ compare (t.rows i) (t.rows j) ∧ (0 ≤ compare (t.rows j) (t.rows i) → i < j)

theorem sortBy_stable (total : ∀ a b, 0 ≤ compare a b ∨ 0 ≤ compare b a)
    (trans : ∀ a b c, 0 ≤ compare a b → 0 ≤ compare b c → 0 ≤ compare a c) :
    ∃ order : List Nat, order.Perm (List.range t.numRows) ∧
      (sortBy compare t).list = order.map t.rows ∧ order.Pairwise (StablyBefore compare t) := by
  apply sortBy_order
  · intro i _ j _ k _ first second
    refine ⟨trans _ _ _ first.1 second.1, fun back => ?_⟩
    have one := first.2 (trans _ _ _ second.1 back)
    have two := second.2 (trans _ _ _ back first.1)
    exact Nat.lt_trans one two
  · refine List.pairwise_lt_range.imp fun {i j} before => ⟨fun is => ?_, fun is => ?_⟩
    · exact ⟨of_decide_eq_true is, fun _ => before⟩
    · have less := of_decide_eq_false is
      refine ⟨(total _ _).resolve_left less, fun back => absurd back less⟩

end

/-! ### The print -/

theorem appendRows_eq (printer : Printer) {rows : List TableRow} {i maxNumRows : Nat}
    (below : i ≤ maxNumRows) (small : maxNumRows + rows.length < 2 ^ 32) :
    appendRows printer rows i maxNumRows =
      ((rows.filter (·.pid ≠ 0)).take (maxNumRows - i)).map (rowText printer) := by
  induction rows generalizing i maxNumRows with
  | nil =>
    rw [List.filter_nil, List.take_nil, List.map_nil]
    rfl
  | cons row rest ih =>
    rw [List.length_cons] at small
    unfold appendRows
    split
    · next room =>
      split
      · next isEmpty =>
        have raised : wrap 32 ((maxNumRows : Int) + 1) = maxNumRows + 1 :=
          wrap_of_eq (by omega) (by omega)
        rw [raised, ih (by omega) (by omega), List.filter_cons_of_neg (by simpa using isEmpty),
          Nat.add_sub_add_right]
      · next nonempty =>
        rw [ih room (by omega), List.filter_cons_of_pos (by simpa using nonempty),
          show maxNumRows - i = maxNumRows - (i + 1) + 1 by omega, List.take_succ_cons,
          List.map_cons]
    · next full =>
      rw [show maxNumRows - i = 0 by omega, List.take_zero, List.map_nil]

/-- A sorted table is a stable permutation of the rows, and the first rows of it with a PID are
printed. -/
theorem tables_sorted (compare : Compare) (total : ∀ a b, 0 ≤ compare a b ∨ 0 ≤ compare b a)
    (trans : ∀ a b c, 0 ≤ compare a b → 0 ≤ compare b c → 0 ≤ compare a c)
    (printer : Printer) (t : Table) (succeeded : t.errorCode = errorSuccess) (m : Nat)
    (small : m < 2 ^ 31) :
    (∃ order : List Nat, order.Perm (List.range t.numRows) ∧
      (sortBy compare t).list = order.map t.rows ∧ order.Pairwise (StablyBefore compare t)) ∧
    appendTable printer (sortBy compare t) m =
      tableHeading ::
        (((sortBy compare t).list.filter (·.pid ≠ 0)).take m).map (rowText printer) := by
  refine ⟨sortBy_stable total trans, ?_⟩
  have few := t.few
  have size : (sortBy compare t).list.length = t.numRows := load_length _ _ _
  have noError : ¬ (sortBy compare t).errorCode ≠ errorSuccess := not_not_intro succeeded
  rw [appendTable, if_neg noError,
    appendRows_eq printer (Nat.zero_le m) (by omega), Nat.sub_zero]

/-- Three processes, one without a PID. -/
def threeProcesses : Table where
  numRows := 3
  rows := fun i =>
    if i = 0 then ⟨"Idle".toList, 0, ['-'], 98, 0⟩
    else if i = 1 then ⟨"System".toList, 4, ['-'], 1, 20480⟩
    else ⟨"mrbig".toList, 1312, "NT AUTHORITY\\SYSTEM".toList, 1, 512000⟩
  errorCode := 0
  few := by decide

def byPid : Compare := fun a b => if b.pid ≤ a.pid then 1 else -1

theorem nonneg_byPid (a b : TableRow) : 0 ≤ byPid a b ↔ b.pid ≤ a.pid := by
  unfold byPid
  split
  · next above => exact iff_of_true (by decide) above
  · next notAbove => exact iff_of_false (by decide) notAbove

/-- Numbers as they are. -/
def plainPrinter : Printer where
  percent _ := "0.0".toList
  prettyBytes := printInt

theorem tables_sorted_byPid :
    (∃ order : List Nat, order.Perm (List.range 3) ∧
      (sortBy byPid threeProcesses).list = order.map threeProcesses.rows ∧
      order.Pairwise (StablyBefore byPid threeProcesses)) ∧
    appendTable plainPrinter (sortBy byPid threeProcesses) 1 =
      tableHeading ::
        (((sortBy byPid threeProcesses).list.filter (·.pid ≠ 0)).take 1).map
          (rowText plainPrinter) :=
  tables_sorted byPid
    (fun a b => by rw [nonneg_byPid, nonneg_byPid]; omega)
    (fun a b c => by rw [nonneg_byPid, nonneg_byPid, nonneg_byPid]; omega)
    plainPrinter threeProcesses rfl 1 (by decide)

end MrBig.Guarantees.ProcessTables
