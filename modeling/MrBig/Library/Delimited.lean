import Mathlib.Algebra.GroupWithZero.Nat
import Mathlib.Data.List.TakeWhile
import Mathlib.Order.Bounds.Defs

/-!
# Delimited records in a bounded store

Records without the delimiter are written one after the other, each followed by it,
into a store that keeps the first `cap` symbols. Reading record `i` scans for the
delimiter, so a record is found again exactly if it fitted with its delimiter
(`nth_take_frame`); what is left of a cut one is never returned. `pieces` splits a
whole text at its delimiters, and `lastPiece` is the one behind the last of them. A
scan with a predicate takes the longest run of symbols that meet it (`longestRun_iff`).
-/

set_option autoImplicit false

namespace Library.Delimited

variable {α : Type*} [DecidableEq α] (sep : α)

/-- What stands before and behind the first delimiter. -/
def cut : List α → Option (List α × List α)
  | [] => none
  | a :: rest => if a = sep then some ([], rest) else (cut rest).map fun p => (a :: p.1, p.2)

/-- The record reached by skipping over `i` delimiters, if a delimiter ends it. -/
def nth : Nat → List α → Option (List α)
  | 0, text => (cut sep text).map Prod.fst
  | i + 1, text => (cut sep text).bind fun p => nth i p.2

def frame (records : List (List α)) : List α := records.flatMap (· ++ [sep])

/-- How many leading records fit with their delimiters. -/
def fitting : Nat → List (List α) → Nat
  | _, [] => 0
  | cap, r :: rest => if r.length + 1 ≤ cap then fitting (cap - (r.length + 1)) rest + 1 else 0

/-- The pieces between delimiters; an empty piece behind the last delimiter is none. -/
def pieces : List α → List (List α)
  | [] => []
  | a :: rest =>
    if a = sep then [] :: pieces rest
    else
      match pieces rest with
      | [] => [[a]]
      | p :: ps => (a :: p) :: ps

variable {sep}

theorem cut_append {before : List α} (plain : sep ∉ before) (after : List α) :
    cut sep (before ++ sep :: after) = some (before, after) := by
  induction before with
  | nil => simp [cut]
  | cons a rest ih =>
    have other : a ≠ sep := fun same => plain (by simp [same])
    have restPlain : sep ∉ rest := fun inside => plain (List.mem_cons_of_mem a inside)
    simp [cut, other, ih restPlain]

theorem cut_of_notMem {text : List α} (plain : sep ∉ text) : cut sep text = none := by
  induction text with
  | nil => rfl
  | cons a rest ih =>
    have other : a ≠ sep := fun same => plain (by simp [same])
    have restPlain : sep ∉ rest := fun inside => plain (List.mem_cons_of_mem a inside)
    simp [cut, other, ih restPlain]

theorem eq_of_cut {text before after : List α} (placed : cut sep text = some (before, after)) :
    text = before ++ sep :: after ∧ sep ∉ before := by
  induction text generalizing before with
  | nil => simp [cut] at placed
  | cons a rest ih =>
    by_cases here : a = sep
    · simp only [cut, if_pos here, Option.some.injEq, Prod.mk.injEq] at placed
      obtain ⟨rfl, rfl⟩ := placed
      exact ⟨by rw [here]; rfl, by simp⟩
    · rw [cut, if_neg here] at placed
      obtain ⟨⟨first, last⟩, inRest, pair⟩ := Option.map_eq_some_iff.mp placed
      obtain ⟨rfl, rfl⟩ := Prod.mk.inj pair
      obtain ⟨split, plain⟩ := ih inRest
      exact ⟨by rw [split]; rfl, by simp [Ne.symm here, plain]⟩

theorem cut_eq_none_iff {text : List α} : cut sep text = none ↔ sep ∉ text := by
  refine ⟨fun nothing inside => ?_, cut_of_notMem⟩
  obtain ⟨before, after, rfl, plain⟩ := List.eq_append_cons_of_mem inside
  rw [cut_append plain] at nothing
  cases nothing

theorem pieces_append {before : List α} (plain : sep ∉ before) (after : List α) :
    pieces sep (before ++ sep :: after) = before :: pieces sep after := by
  induction before with
  | nil => simp [pieces]
  | cons a rest ih =>
    have other : a ≠ sep := fun same => plain (by simp [same])
    have restPlain : sep ∉ rest := fun inside => plain (List.mem_cons_of_mem a inside)
    simp [pieces, other, ih restPlain]

theorem pieces_of_notMem {text : List α} (plain : sep ∉ text) (nonempty : text ≠ []) :
    pieces sep text = [text] := by
  induction text with
  | nil => exact absurd rfl nonempty
  | cons a rest ih =>
    have other : a ≠ sep := fun same => plain (by simp [same])
    have restPlain : sep ∉ rest := fun inside => plain (List.mem_cons_of_mem a inside)
    by_cases last : rest = []
    · simp [pieces, other, last]
    · simp [pieces, other, ih restPlain last]

/-- A delimiter apart, what is in a text is in one of its pieces. -/
theorem exists_mem_pieces {text : List α} {a : α} (inside : a ∈ text) (other : a ≠ sep) :
    ∃ p ∈ pieces sep text, a ∈ p := by
  induction text with
  | nil => cases inside
  | cons b rest ih =>
    rw [pieces]
    split
    next delimiter =>
      have behind := (List.mem_cons.mp inside).resolve_left fun same => other (same.trans delimiter)
      obtain ⟨p, member, found⟩ := ih behind
      exact ⟨p, List.mem_cons_of_mem _ member, found⟩
    next =>
      rcases List.mem_cons.mp inside with rfl | behind
      · cases pieces sep rest with
        | nil => exact ⟨[a], List.mem_cons_self, List.mem_cons_self⟩
        | cons p ps => exact ⟨a :: p, List.mem_cons_self, List.mem_cons_self⟩
      · obtain ⟨p, member, found⟩ := ih behind
        cases placed : pieces sep rest with
        | nil =>
          rw [placed] at member
          cases member
        | cons first ps =>
          rw [placed] at member
          rcases List.mem_cons.mp member with rfl | later
          · exact ⟨b :: p, List.mem_cons_self, List.mem_cons_of_mem _ found⟩
          · exact ⟨p, List.mem_cons_of_mem _ later, found⟩

omit [DecidableEq α] in
@[simp] theorem frame_nil : frame sep [] = [] := rfl

omit [DecidableEq α] in
@[simp] theorem frame_cons (r : List α) (rest : List (List α)) :
    frame sep (r :: rest) = r ++ sep :: frame sep rest := by
  simp [frame]

omit [DecidableEq α] in
theorem frame_concat (records : List (List α)) (r : List α) :
    frame sep (records ++ [r]) = frame sep records ++ (r ++ [sep]) := by
  simp [frame]

omit [DecidableEq α] in
theorem frame_length_le {bound : Nat} {records : List (List α)}
    (short : ∀ r ∈ records, r.length ≤ bound) :
    (frame sep records).length ≤ records.length * (bound + 1) := by
  induction records with
  | nil => simp
  | cons r rest ih =>
    have head := short r List.mem_cons_self
    have tail := ih fun s member => short s (List.mem_cons_of_mem r member)
    rw [frame_cons, List.length_append, List.length_cons, List.length_cons, Nat.add_mul]
    omega

theorem nth_of_notMem (i : Nat) {text : List α} (plain : sep ∉ text) : nth sep i text = none := by
  cases i <;> simp [nth, cut_of_notMem plain]

/-- A text holds no more records than symbols. -/
theorem nth_of_length_le {i : Nat} {text : List α} (beyond : text.length ≤ i) :
    nth sep i text = none := by
  induction i generalizing text with
  | zero => rw [List.eq_nil_of_length_eq_zero (Nat.le_zero.mp beyond), nth_of_notMem 0 (by simp)]
  | succ i ih =>
    rw [nth]
    cases placed : cut sep text with
    | none => rfl
    | some pair =>
      obtain ⟨before, after⟩ := pair
      obtain ⟨rfl, -⟩ := eq_of_cut placed
      have shorter : after.length ≤ i := by
        simp only [List.length_append, List.length_cons] at beyond
        omega
      exact ih shorter

/-- Record `i` of a text of whole records. -/
theorem nth_frame (i : Nat) {records : List (List α)} (plain : ∀ r ∈ records, sep ∉ r) :
    nth sep i (frame sep records) = records[i]? := by
  induction records generalizing i with
  | nil => simp [nth_of_notMem]
  | cons r rest ih =>
    have headPlain : sep ∉ r := plain r (by simp)
    have restPlain : ∀ s ∈ rest, sep ∉ s := fun s member => plain s (List.mem_cons_of_mem r member)
    rw [frame_cons]
    cases i with
    | zero => simp [nth, cut_append headPlain]
    | succ i => simp [nth, cut_append headPlain, ih i restPlain]

/-- A cut store gives back exactly the records that fitted whole. -/
theorem nth_take_frame (cap i : Nat) {records : List (List α)} (plain : ∀ r ∈ records, sep ∉ r) :
    nth sep i ((frame sep records).take cap) =
      if i < fitting cap records then records[i]? else none := by
  induction records generalizing cap i with
  | nil => simp [fitting, nth_of_notMem]
  | cons r rest ih =>
    have headPlain : sep ∉ r := plain r (by simp)
    by_cases fits : r.length + 1 ≤ cap
    · have kept : (frame sep (r :: rest)).take cap =
          r ++ sep :: (frame sep rest).take (cap - (r.length + 1)) := by
        rw [frame_cons, List.take_append, List.take_of_length_le (by omega),
          show cap - r.length = cap - (r.length + 1) + 1 by omega, List.take_succ_cons]
      rw [kept, fitting, if_pos fits]
      cases i with
      | zero => simp [nth, cut_append headPlain]
      | succ i =>
        rw [nth, cut_append headPlain, Option.bind_some,
          ih (cap - (r.length + 1)) i fun s member => plain s (List.mem_cons_of_mem r member)]
        simp
    · have lost : (frame sep (r :: rest)).take cap = r.take cap := by
        rw [frame_cons, List.take_append_of_le_length (by omega)]
      have noDelimiter : sep ∉ r.take cap := fun inside => headPlain (List.mem_of_mem_take inside)
      rw [lost, nth_of_notMem i noDelimiter, fitting, if_neg fits, if_neg (Nat.not_lt_zero i)]

omit [DecidableEq α] in
/-- `fitting` is the largest number of leading records within the capacity. -/
theorem fitting_isGreatest (cap : Nat) (records : List (List α)) :
    IsGreatest {k | k ≤ records.length ∧ ((records.take k).map (·.length + 1)).sum ≤ cap}
      (fitting cap records) := by
  induction records generalizing cap with
  | nil =>
    refine ⟨⟨Nat.le_refl _, Nat.zero_le _⟩, ?_⟩
    intro k fitted
    obtain ⟨bound, -⟩ := fitted
    simpa [fitting] using bound
  | cons r rest ih =>
    by_cases fits : r.length + 1 ≤ cap
    · obtain ⟨⟨inside, total⟩, greatest⟩ := ih (cap - (r.length + 1))
      rw [fitting, if_pos fits]
      refine ⟨⟨by simpa using inside, ?_⟩, ?_⟩
      · simp only [List.take_succ_cons, List.map_cons, List.sum_cons]
        omega
      · intro k fitted
        obtain ⟨bound, sum⟩ := fitted
        cases k with
        | zero => exact Nat.zero_le _
        | succ k =>
          simp only [List.take_succ_cons, List.map_cons, List.sum_cons] at sum
          exact Nat.succ_le_succ (greatest ⟨by simpa using bound, by omega⟩)
    · rw [fitting, if_neg fits]
      refine ⟨⟨Nat.zero_le _, by simp⟩, ?_⟩
      intro k fitted
      obtain ⟨-, sum⟩ := fitted
      cases k with
      | zero => exact Nat.le_refl 0
      | succ k =>
        simp only [List.take_succ_cons, List.map_cons, List.sum_cons] at sum
        omega

/-- A record that is read holds no delimiter. -/
theorem notMem_of_nth {i : Nat} {text r : List α} (found : nth sep i text = some r) : sep ∉ r := by
  induction i generalizing text with
  | zero =>
    obtain ⟨pair, placed, rfl⟩ := Option.map_eq_some_iff.mp found
    exact (eq_of_cut placed).2
  | succ i ih =>
    obtain ⟨pair, -, later⟩ := Option.bind_eq_some_iff.mp found
    exact ih later

/-! ### The last piece -/

variable (sep) in
/-- What stands behind the last delimiter. -/
def lastPiece (text : List α) : List α := (text.reverse.takeWhile (· ≠ sep)).reverse

theorem lastPiece_of_notMem {text : List α} (plain : sep ∉ text) : lastPiece sep text = text := by
  have all : text.reverse.takeWhile (· ≠ sep) = text.reverse :=
    List.takeWhile_eq_self_iff.mpr fun a member => by
      simpa using fun same : a = sep => plain (same ▸ List.mem_reverse.mp member)
  rw [lastPiece, all, List.reverse_reverse]

theorem lastPiece_append_cons (before text : List α) :
    lastPiece sep (before ++ sep :: text) = lastPiece sep text := by
  have stop : ∀ front : List α, (front ++ sep :: before.reverse).takeWhile (· ≠ sep) =
      front.takeWhile (· ≠ sep) := by
    intro front
    induction front with
    | nil => simp
    | cons a front ih =>
      by_cases here : a = sep
      · simp [here]
      · simpa [here] using ih
  rw [lastPiece, List.reverse_append, List.reverse_cons, List.append_assoc, List.singleton_append,
    stop, lastPiece]

/-- A text cut behind one of its delimiters ends with a whole record. -/
theorem lastPiece_of_prefix_frame {records : List (List α)} (plain : ∀ r ∈ records, sep ∉ r)
    {last text : List α} (lastPlain : sep ∉ last)
    (cut : (text ++ [sep]) <+: frame sep records ++ last) : lastPiece sep text ∈ records := by
  induction records generalizing text with
  | nil =>
    rw [frame_nil, List.nil_append] at cut
    exact absurd (cut.subset (by simp)) lastPlain
  | cons r records ih =>
    have headPlain : sep ∉ r := plain r List.mem_cons_self
    obtain ⟨rest, whole⟩ := cut
    rw [frame_cons, List.append_assoc, List.append_assoc, List.singleton_append,
      List.cons_append] at whole
    rcases List.append_eq_append_iff.mp whole with ⟨more, front, back⟩ | ⟨more, front, back⟩
    · cases more with
      | nil =>
        rw [List.append_nil] at front
        subst front
        rw [lastPiece_of_notMem headPlain]
        exact List.mem_cons_self
      | cons a more =>
        obtain ⟨rfl, -⟩ := List.cons.inj back
        exact absurd (front ▸ by simp) headPlain
    · cases more with
      | nil =>
        rw [List.append_nil] at front
        subst front
        rw [lastPiece_of_notMem headPlain]
        exact List.mem_cons_self
      | cons a more =>
        obtain ⟨rfl, same⟩ := List.cons.inj back
        subst front
        rw [lastPiece_append_cons]
        have plain' : ∀ s ∈ records, sep ∉ s :=
          fun s member => plain s (List.mem_cons_of_mem r member)
        refine List.mem_cons_of_mem r (ih plain' ?_)
        exact ⟨rest, by rw [same]; simp⟩

theorem longestRun_iff {β : Type*} {p : β → Bool} {text run rest : List β} :
    (text.takeWhile p = run ∧ text.dropWhile p = rest) ↔
      text = run ++ rest ∧ (∀ a ∈ run, p a) ∧ ∀ a ∈ rest.head?, ¬ p a := by
  constructor
  · rintro ⟨rfl, rfl⟩
    refine ⟨List.takeWhile_append_dropWhile.symm, fun a member => List.mem_takeWhile_imp member, ?_⟩
    intro a head
    have stops := List.head?_dropWhile_not p text
    rw [Option.mem_def.mp head] at stops
    simpa using stops
  · rintro ⟨rfl, all, stops⟩
    rw [List.takeWhile_append_of_pos all, List.dropWhile_append_of_pos all]
    cases rest with
    | nil => simp
    | cons a rest =>
      have stop : ¬ p a := stops a rfl
      simp [stop]

end Library.Delimited
