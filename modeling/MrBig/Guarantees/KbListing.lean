import Mathlib.Data.List.Sort
import MrBig.Guarantees.KbNumbers
import MrBig.Library.SearchTree

/-!
# The list of updates

The page lists the numbers in the titles in increasing order, each once, whatever order the
updates come in and however many titles have the same number.
-/

set_option autoImplicit false

namespace MrBig.Guarantees.KbListing
open Library Library.SearchTree Source.Kbs Abstract.KbGrammar KbNumbers
open Source (Text)

theorem insertKB_eq_add (value : Nat) (t : BinaryTree Nat) : insertKB value t = add value t := by
  induction t with
  | nil => rfl
  | node root left right ihLeft ihRight => rw [insertKB, add, ihLeft, ihRight]

theorem appendKBs_eq (t : BinaryTree Nat) : appendKBs t = (inorder t).flatMap kbLine := by
  induction t with
  | nil => rfl
  | node root left right ihLeft ihRight => simp [appendKBs, inorder, ihLeft, ihRight]

/-- The numbers that are put into the tree. -/
def kept (values : List UInt32) : List Nat := (values.map UInt32.toNat).filter (· ≠ 0)

theorem mem_kept {values : List UInt32} {n : Nat} :
    n ∈ kept values ↔ n ≠ 0 ∧ ∃ value ∈ values, value.toNat = n := by
  rw [kept, List.mem_filter, List.mem_map, decide_eq_true_eq, and_comm]

theorem kept_cons (value : UInt32) (values : List UInt32) :
    kept (value :: values) = if value ≠ 0 then value.toNat :: kept values else kept values := by
  have zero : value.toNat = 0 ↔ value = 0 := UInt32.toNat_inj (b := 0)
  by_cases nothing : value = 0
  · simp [kept, nothing]
  · simp [kept, zero, nothing]

/-- The loop over the updates, where no title is read behind its end. -/
theorem foldlM_kbItem (titles : List WideString) (t : BinaryTree Nat) :
    titles.foldlM kbItem t = (titles.mapM extractKBNumber).map fun values =>
      (kept values).foldl (fun t value => add value t) t := by
  induction titles generalizing t with
  | nil => rfl
  | cons title rest ih =>
    rw [List.foldlM_cons, List.mapM_cons, kbItem]
    cases extractKBNumber title with
    | none => rfl
    | some value =>
      simp only [Option.map_some, Option.bind_eq_bind, Option.bind_some, ih]
      cases rest.mapM extractKBNumber with
      | none => rfl
      | some values =>
        simp only [Option.map_some, Option.bind_some, Option.pure_def, kept_cons, insertKB_eq_add]
        split <;> rfl

/-- The value of a title that is read right. -/
def number (title : WideString) : Nat := kbNumber (characters title) % 2 ^ 32

theorem extract_of_scannedRight {title : WideString} (right : ScannedRight title) :
    extractKBNumber title = some (UInt32.ofNat (kbNumber (characters title))) := by
  obtain ⟨i, stops, same⟩ := right
  exact (@kbLoop_eq_some_iff [] _ Even.zero (titleBytes_terminated title) _).mpr
    ⟨i, stops, ((ofNat_eq_ofNat_iff _ _).mpr same).symm⟩

theorem mapM_of_scannedRight {titles : List WideString}
    (right : ∀ title ∈ titles, ScannedRight title) :
    titles.mapM extractKBNumber =
      some (titles.map fun title => UInt32.ofNat (kbNumber (characters title))) := by
  induction titles with
  | nil => rfl
  | cons title rest ih =>
    obtain ⟨here, later⟩ := List.forall_mem_cons.mp right
    rw [List.mapM_cons, extract_of_scannedRight here, ih later]
    rfl

/-- The numbers of the titles as a list in increasing order. -/
def Lists (titles : List WideString) (numbers : List Nat) : Prop :=
  numbers.Pairwise (· < ·) ∧ ∀ n, n ∈ numbers ↔ n ≠ 0 ∧ ∃ title ∈ titles, number title = n

/-- What the page says of a list of numbers. -/
def listing : List Nat → Text
  | [] => "[kbs](No KBs found)".toList
  | n :: rest => "[kbs]".toList ++ (n :: rest).flatMap kbLine

theorem listing_of_ne_nil {numbers : List Nat} (nonempty : numbers ≠ []) :
    listing numbers = "[kbs]".toList ++ numbers.flatMap kbLine := by
  cases numbers with
  | nil => exact absurd rfl nonempty
  | cons n rest => rfl

/-- The page of a tree. -/
theorem listing_inorder (t : BinaryTree Nat) :
    (match t with
      | .nil => some "[kbs](No KBs found)".toList
      | .node .. => some ("[kbs]".toList ++ appendKBs t)) = some (listing (inorder t)) := by
  cases t with
  | nil => rfl
  | node root left right =>
    have nonempty : inorder (.node root left right) ≠ [] := by simp [inorder]
    dsimp only
    rw [listing_of_ne_nil nonempty, appendKBs_eq]

theorem clogKbs_updates {titles : List WideString}
    (right : ∀ title ∈ titles, ScannedRight title) :
    ∃ numbers, Lists titles numbers ∧ clogKbs (.updates titles) = some (listing numbers) := by
  have read := mapM_of_scannedRight right
  generalize given : (titles.map fun title => UInt32.ofNat (kbNumber (characters title))) =
    values at read
  obtain ⟨sorted, members⟩ := inorder_foldl_add (kept values)
  refine ⟨_, ⟨sorted, fun n => ?_⟩, ?_⟩
  · rw [members, mem_kept]
    refine and_congr_right fun _ => ?_
    simp only [← given, List.mem_map, exists_exists_and_eq_and, UInt32.toNat_ofNat', number]
  · rw [clogKbs, foldlM_kbItem, read]
    exact listing_inorder _

theorem Lists.unique {titles titles' : List WideString} {numbers numbers' : List Nat}
    (lists : Lists titles numbers) (lists' : Lists titles' numbers')
    (same : ∀ n, (∃ title ∈ titles, number title = n) ↔ ∃ title ∈ titles', number title = n) :
    numbers = numbers' := by
  refine lists.1.eq_of_mem_iff lists'.1 fun n => ?_
  rw [lists.2, lists'.2, same]

/-- For all titles that are read right: the page lists their numbers in increasing order, each
once, and is the same for all titles with the same numbers, in whatever order and however often
they come. -/
theorem numbers_listed_once {titles : List WideString}
    (right : ∀ title ∈ titles, ScannedRight title) :
    (∃ numbers : List Nat, numbers.Pairwise (· < ·) ∧
      (∀ n, n ∈ numbers ↔ n ≠ 0 ∧ ∃ title ∈ titles, number title = n) ∧
      clogKbs (.updates titles) = some (listing numbers)) ∧
    ∀ titles', (∀ title ∈ titles', ScannedRight title) →
      (∀ n, (∃ title ∈ titles, number title = n) ↔ ∃ title ∈ titles', number title = n) →
      clogKbs (.updates titles') = clogKbs (.updates titles) := by
  obtain ⟨numbers, lists, page⟩ := clogKbs_updates right
  refine ⟨⟨numbers, lists.1, lists.2, page⟩, fun titles' right' same => ?_⟩
  obtain ⟨numbers', lists', page'⟩ := clogKbs_updates right'
  rw [page, page', lists.unique lists' same]

/-- `KB42`, `KB7` and `KB42` again. -/
def threeTitles : List WideString :=
  [⟨[75, 66, 52, 50], by simp⟩, ⟨[75, 66, 55], by simp⟩, ⟨[75, 66, 52, 50], by simp⟩]

theorem threeTitles_right : ∀ title ∈ threeTitles, ScannedRight title := by
  have starts : ∀ title ∈ threeTitles, StartsKB (characters title) := by decide
  have latin : ∀ title ∈ threeTitles, ∀ c ∈ characters title, c < 256 := by decide
  intro title inside
  exact scannedRight_of_latin (latin title inside)
    (fun j before => absurd before (Nat.not_lt_zero j)) (.inl (starts title inside)) Even.zero

theorem numbers_listed_once_threeTitles :
    (∃ numbers : List Nat, numbers.Pairwise (· < ·) ∧
      (∀ n, n ∈ numbers ↔ n ≠ 0 ∧ ∃ title ∈ threeTitles, number title = n) ∧
      clogKbs (.updates threeTitles) = some (listing numbers)) ∧
    ∀ titles', (∀ title ∈ titles', ScannedRight title) →
      (∀ n, (∃ title ∈ threeTitles, number title = n) ↔
        ∃ title ∈ titles', number title = n) →
      clogKbs (.updates titles') = clogKbs (.updates threeTitles) :=
  numbers_listed_once threeTitles_right

example : clogKbs (.updates threeTitles) = some "[kbs]\nKB7\nKB42".toList := by decide

end MrBig.Guarantees.KbListing
