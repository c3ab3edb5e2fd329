import Mathlib.Data.List.ReduceOption
import MrBig.Guarantees.AppendWhole
import MrBig.Source.Certificates

/-!
# The list of purposes in its buffer

`snprintf` counts what it cuts off, so `written` may pass `outSize`. The room is then a huge
unsigned number and the next purpose is written behind the buffer. A comma in front of a purpose
is only counted where it is written.
-/

set_option autoImplicit false

namespace MrBig.Guarantees.PurposesBuffer
open Library Library.Memory Library.Word Source Source.Certificates AppendWhole

/-- What the list is shown as. -/
def purposesText : Option EKUPurposes → Text
  | some eku => joined ',' eku.purposes
  | none => "None".toList

/-- Whatever is in memory, nothing is written behind the buffer, and it holds the text as far as
it has room for it. -/
structure InBuffer (eku : Option EKUPurposes) (outSize : Nat) : Prop where
  inside : ∀ out x, outSize ≤ x → prettyEKUPurposes eku outSize out x = out x
  text : ∀ out, IsCString (prettyEKUPurposes eku outSize out) 0
    ((purposesText eku).take (outSize - 1))

/-- The joined ',' text with its commas marked. -/
def marked (purposes : List Text) : List (Option Char) :=
  [none].intercalate (purposes.map (List.map some))

/-- How many characters of the purposes are behind the room for the text. -/
def cutOff (outSize : Nat) (text : List (Option Char)) : Nat :=
  (text.drop (outSize - 1)).reduceOption.length

/-- There is no list, or one with a purpose, and at most one character of the purposes in front
of the last one is cut off. -/
def LittleCutOff (outSize : Nat) : Option EKUPurposes → Prop
  | some eku => eku.purposes ≠ [] ∧ cutOff outSize (marked eku.purposes.dropLast) ≤ 1
  | none => True

/-! ### Marked texts -/

/-- The text itself. -/
def shown (text : List (Option Char)) : Text := text.map (·.getD ',')

/-- A further purpose. -/
def next (purpose : Text) : List (Option Char) := none :: purpose.map some

theorem marked_cons (purpose : Text) (rest : List Text) :
    marked (purpose :: rest) = purpose.map some ++ rest.flatMap next := by
  induction rest generalizing purpose with
  | nil => simp [marked]
  | cons second rest ih =>
    have unfolded : marked (purpose :: second :: rest) =
        purpose.map some ++ [none] ++ marked (second :: rest) := by
      simp [marked]
    rw [unfolded, ih second, List.flatMap_cons]
    simp [next]

theorem shown_marked (purposes : List Text) : shown (marked purposes) = joined ',' purposes := by
  induction purposes with
  | nil => rfl
  | cons purpose rest ih =>
    cases rest with
    | nil => simp [shown, marked, joined, Function.comp_def]
    | cons second rest =>
      simp only [shown, marked, joined, List.map_cons, List.intercalate_cons_cons,
        List.map_append, List.map_map] at ih ⊢
      rw [ih]
      simp [Function.comp_def]

@[simp] theorem shown_length (text : List (Option Char)) : (shown text).length = text.length :=
  List.length_map _

theorem shown_append (text more : List (Option Char)) :
    shown (text ++ more) = shown text ++ shown more := List.map_append

theorem shown_next (purpose : Text) : shown (next purpose) = ',' :: purpose := by
  simp [shown, next, Function.comp_def]

theorem length_append_next (text : List (Option Char)) (purpose : Text) :
    (text ++ next purpose).length = text.length + 1 + purpose.length := by
  rw [List.length_append, next, List.length_cons, List.length_map]
  omega

section

variable {outSize : Nat} {text more : List (Option Char)}

theorem cutOff_mono : cutOff outSize text ≤ cutOff outSize (text ++ more) := by
  unfold cutOff
  rw [List.drop_append, List.reduceOption_append, List.length_append]
  exact Nat.le_add_right _ _

variable (outSize text) in
theorem cutOff_le : cutOff outSize text ≤ text.length - (outSize - 1) := by
  have most := List.reduceOption_length_le (text.drop (outSize - 1))
  rwa [List.length_drop] at most

theorem cutOff_of_le (short : text.length ≤ outSize - 1) : cutOff outSize text = 0 := by
  have most := cutOff_le outSize text
  omega

variable (outSize) in
theorem cutOff_map_some (purpose : Text) :
    cutOff outSize (purpose.map some) = purpose.length - (outSize - 1) := by
  unfold cutOff
  rw [← List.map_drop, ← List.length_drop]
  induction purpose.drop (outSize - 1) with
  | nil => rfl
  | cons c rest ih => rw [List.map_cons, List.reduceOption_cons_of_some, List.length_cons, ih,
      List.length_cons]

/-- Where the comma is written, everything behind the room is a character of the purpose. -/
theorem cutOff_next_of_lt (purpose : Text) (short : text.length + 1 < outSize) :
    cutOff outSize (text ++ next purpose) = text.length + 1 + purpose.length - (outSize - 1) := by
  have split : text ++ next purpose = text ++ [none] ++ purpose.map some := by
    rw [next, List.append_assoc]
    rfl
  have front : (text ++ [none]).length = text.length + 1 := by simp
  have behind : outSize - (text.length + 1) - 1 = outSize - 1 - (text.length + 1) := by omega
  have cut := cutOff_map_some (outSize - (text.length + 1)) purpose
  unfold cutOff at cut ⊢
  rw [split, List.drop_append, front, List.drop_of_length_le (by omega), List.nil_append,
    ← behind, cut]
  omega

theorem cutOff_next_of_le (purpose : Text) (long : outSize ≤ text.length + 1) :
    cutOff outSize (text ++ next purpose) = cutOff outSize text + purpose.length := by
  have whole := cutOff_map_some 1 purpose
  unfold cutOff at whole ⊢
  rw [List.drop_append, show outSize - 1 - text.length = 0 by omega, List.drop_zero,
    List.reduceOption_append, List.length_append, next, List.reduceOption_cons_of_none]
  rw [Nat.sub_self, List.drop_zero, Nat.sub_zero] at whole
  rw [whole]

end

/-! ### What one purpose does -/

/-- So far nothing was written behind the buffer. -/
structure Printed (outSize : Nat) (before : Nat → Char) (text : List (Option Char))
    (s : Written) : Prop where
  started : 0 < s.i ∧ s.i ≤ text.length + 1
  counted : s.written = min text.length (outSize - 1) + cutOff outSize text
  inside : ∀ x, outSize ≤ x → s.out x = before x
  held : load s.out 0 (min text.length (outSize - 1)) = (shown text).take (outSize - 1)
  ended : s.out (min text.length (outSize - 1)) = nul

/-- Something was, and `written` is past it. -/
structure Spilled (outSize : Nat) (before : Nat → Char) (text : List (Option Char))
    (s : Written) : Prop where
  counted : s.written ≤ text.length
  outside : ∃ x, outSize ≤ x ∧ x < s.written ∧ s.out x ≠ before x

section

variable {outSize : Nat} {before : Nat → Char} {text : List (Option Char)} {s : Written}

/-- vsnprintf behind a text. -/
theorem vsnprintf_behind {out : Nat → Char} {n : Nat} (held printed : Text) (positive : 0 < n)
    (front : load out 0 held.length = held) :
    load (vsnprintf out held.length n printed) 0 (min (held.length + printed.length)
        (held.length + n - 1)) = (held ++ printed).take (held.length + n - 1) ∧
      vsnprintf out held.length n printed
        (min (held.length + printed.length) (held.length + n - 1)) = nul := by
  have size : (printed.take (n - 1)).length = min printed.length (n - 1) := by
    rw [List.length_take, Nat.min_comm]
  have total : min (held.length + printed.length) (held.length + n - 1) =
      held.length + (printed.take (n - 1)).length := by omega
  have cut : (held ++ printed).take (held.length + n - 1) = held ++ printed.take (n - 1) := by
    rw [Nat.add_sub_assoc positive, List.take_length_add_append]
  have ended : store out held.length (printed.take (n - 1) ++ [nul])
      (held.length + (printed.take (n - 1)).length) = nul := (load_printed out held.length).2
  rw [vsnprintf, if_neg (by omega), total, cut, load_add, Nat.zero_add,
    (load_printed out held.length).1, load_store_outside _ (Or.inl (by omega)), front]
  exact ⟨rfl, ended⟩

theorem writeComma_of_lt (another : 0 < s.i) (room : 1 < wrap 64 ((outSize : Int) - s.written))
    (small : s.written + 1 < 2 ^ 32) :
    writeComma outSize s = ⟨s.i, s.written + 1, store s.out s.written [',']⟩ := by
  have one : wrap 32 ((s.written : Int) + 1) = s.written + 1 := wrap_of_eq (by omega) small
  rw [writeComma, if_pos ⟨Nat.pos_iff_ne_zero.mp another, room⟩, one]

theorem writeComma_of_le (few : wrap 64 ((outSize : Int) - s.written) ≤ 1) :
    writeComma outSize s = s :=
  if_neg fun parts => Nat.not_lt.mpr few parts.2

theorem writePurpose_eq {purpose : Text} (number : s.i + 1 < 2 ^ 32)
    (small : s.written + purpose.length < 2 ^ 32) :
    writePurpose outSize s purpose = ⟨s.i + 1, s.written + purpose.length,
      vsnprintf s.out s.written (wrap 64 ((outSize : Int) - s.written)) purpose⟩ := by
  have following : wrap 32 ((s.i : Int) + 1) = s.i + 1 := wrap_of_eq (by omega) number
  have count : wrap 32 ((s.written : Int) + purpose.length) = s.written + purpose.length :=
    wrap_of_eq (by omega) small
  rw [writePurpose, following, count]

/-- The first purpose. -/
theorem printed_first (positive : 0 < outSize) (fits : outSize < 2 ^ 64) (purpose : Text)
    (small : purpose.length < 2 ^ 31) :
    Printed outSize before (purpose.map some) (writeNext outSize ⟨0, 0, before⟩ purpose) := by
  have following : writeNext outSize ⟨0, 0, before⟩ purpose =
      ⟨1, purpose.length, vsnprintf before 0 outSize purpose⟩ := by
    have room : wrap 64 ((outSize : Int) - (0 : Nat)) = outSize := wrap_of_eq (by omega) fits
    have count : 0 + purpose.length < 2 ^ 32 := by omega
    rw [writeNext, writeComma, if_neg (fun parts => parts.1 rfl),
      writePurpose_eq (show 0 + 1 < 2 ^ 32 by decide) count, room, Nat.zero_add, Nat.zero_add]
  have printed := vsnprintf_behind [] purpose positive (show load before 0 0 = [] from rfl)
  rw [List.length_nil, Nat.zero_add, Nat.zero_add, List.nil_append] at printed
  have same : shown (purpose.map some) = purpose := by simp [shown, Function.comp_def]
  rw [following]
  refine ⟨⟨Nat.one_pos, Nat.le_add_left _ _⟩, ?_, fun x outside => ?_, ?_, ?_⟩
  · rw [cutOff_map_some, List.length_map]
    change purpose.length = _
    omega
  · exact vsnprintf_outside (by omega)
  · rw [List.length_map, same]
    exact printed.1
  · rw [List.length_map]
    exact printed.2

/-- A comma and a purpose behind a text that leaves room for more than a NUL. -/
theorem printed_next_of_lt (fits : outSize < 2 ^ 64) (printed : Printed outSize before text s)
    (purpose : Text) (short : text.length + 1 < outSize)
    (small : (text ++ next purpose).length < 2 ^ 31) :
    Printed outSize before (text ++ next purpose) (writeNext outSize s purpose) := by
  have size := length_append_next text purpose
  have count : s.written = text.length := by
    rw [printed.counted, cutOff_of_le (by omega)]
    omega
  have whole : load s.out 0 text.length = shown text := by
    have held := printed.held
    rwa [Nat.min_eq_left (by omega), List.take_of_length_le (by rw [shown_length]; omega)] at held
  have comma : writeComma outSize s = ⟨s.i, text.length + 1, store s.out text.length [',']⟩ := by
    have room : wrap 64 ((outSize : Int) - s.written) = outSize - text.length :=
      wrap_of_eq (by omega) (by omega)
    rw [writeComma_of_lt printed.started.1 (by omega) (by omega), count]
  have following : writeNext outSize s purpose =
      ⟨s.i + 1, text.length + 1 + purpose.length, vsnprintf (store s.out text.length [','])
        (text.length + 1) (outSize - (text.length + 1)) purpose⟩ := by
    have room : wrap 64 ((outSize : Int) - (text.length + 1 : Nat)) =
        outSize - (text.length + 1) := wrap_of_eq (by omega) (by omega)
    have most := printed.started.2
    rw [writeNext, comma, writePurpose_eq (by dsimp only; omega) (by dsimp only; omega), room]
  have front : load (store s.out text.length [',']) 0 (shown text ++ [',']).length =
      shown text ++ [','] := by
    have stored := load_store_self s.out text.length [',']
    rw [List.length_append, shown_length, load_add, Nat.zero_add, stored,
      load_store_outside _ (Or.inl (by omega)), whole]
  have written := vsnprintf_behind (shown text ++ [',']) purpose
    (show 0 < outSize - (text.length + 1) by omega) front
  have place : (shown text ++ [',']).length = text.length + 1 := by simp
  have behind : text.length + 1 + (outSize - (text.length + 1)) - 1 = outSize - 1 := by omega
  have line : shown (text ++ next purpose) = shown text ++ [','] ++ purpose := by
    rw [shown_append, shown_next, List.append_assoc]
    rfl
  rw [place, behind] at written
  rw [following]
  refine ⟨⟨Nat.succ_pos _, ?_⟩, ?_, fun x outside => ?_, ?_, ?_⟩
  · have most := printed.started.2
    dsimp only
    omega
  · rw [cutOff_next_of_lt purpose short, size]
    dsimp only
    omega
  · have apart : store s.out text.length [','] x = s.out x :=
      store_outside s.out (Or.inr (Nat.le_of_lt (Nat.lt_of_lt_of_le short outside)))
    have past : text.length + 1 + (outSize - (text.length + 1)) ≤ x := by omega
    exact (vsnprintf_outside past).trans (apart.trans (printed.inside x outside))
  · rw [size, line]
    exact written.1
  · rw [size]
    exact written.2

/-- A purpose behind a text that fills the room but for a character that is cut off. -/
theorem printed_next_of_le (positive : 0 < outSize) (fits : outSize < 2 ^ 64)
    (printed : Printed outSize before text s)
    (purpose : Text) (long : outSize ≤ text.length + 1) (little : cutOff outSize text ≤ 1)
    (small : (text ++ next purpose).length < 2 ^ 31) :
    Printed outSize before (text ++ next purpose) (writeNext outSize s purpose) := by
  have size := length_append_next text purpose
  have full : min text.length (outSize - 1) = outSize - 1 := by omega
  have count : s.written = outSize - 1 + cutOff outSize text := by
    rw [printed.counted, full]
  have room : wrap 64 ((outSize : Int) - s.written) = 1 - cutOff outSize text :=
    wrap_of_eq (by omega) (by omega)
  have following : writeNext outSize s purpose = ⟨s.i + 1, s.written + purpose.length,
      vsnprintf s.out s.written (1 - cutOff outSize text) purpose⟩ := by
    have most := cutOff_le outSize text
    have started := printed.started.2
    rw [writeNext, writeComma_of_le (by omega), writePurpose_eq (by omega) (by omega), room]
  have same : ∀ x, vsnprintf s.out s.written (1 - cutOff outSize text) purpose x = s.out x := by
    intro x
    unfold vsnprintf
    split
    · rfl
    · next nonempty =>
      have isEmpty : cutOff outSize text = 0 := by omega
      have ended := printed.ended
      rw [full] at ended
      rw [isEmpty, Nat.sub_self, List.take_zero, List.nil_append, count, isEmpty, Nat.add_zero]
      by_cases here : x = outSize - 1
      · rw [here, ended]
        exact store_inside s.out (show 0 < [nul].length from Nat.one_pos)
      · refine store_outside _ ?_
        rw [List.length_singleton]
        omega
  have line : (shown (text ++ next purpose)).take (outSize - 1) =
      (shown text).take (outSize - 1) := by
    rw [shown_append, List.take_append_of_le_length (by rw [shown_length]; omega)]
  have full' : min (text ++ next purpose).length (outSize - 1) =
      min text.length (outSize - 1) := by omega
  rw [following]
  refine ⟨⟨Nat.succ_pos _, ?_⟩, ?_, fun x outside => ?_, ?_, ?_⟩
  · have most := printed.started.2
    dsimp only
    omega
  · rw [cutOff_next_of_le purpose long]
    dsimp only
    omega
  · exact (same x).trans (printed.inside x outside)
  · rw [full', line, ← printed.held]
    exact load_congr fun x _ _ => same x
  · rw [full']
    exact (same _).trans printed.ended

theorem printed_next (positive : 0 < outSize) (fits : outSize < 2 ^ 64)
    (printed : Printed outSize before text s) (purpose : Text) (little : cutOff outSize text ≤ 1)
    (small : (text ++ next purpose).length < 2 ^ 31) :
    Printed outSize before (text ++ next purpose) (writeNext outSize s purpose) := by
  rcases Nat.lt_or_ge (text.length + 1) outSize with short | long
  · exact printed_next_of_lt fits printed purpose short small
  · exact printed_next_of_le positive fits printed purpose long little small

theorem writeNext_out {purpose : Text} {x : Nat} (below : x < (writeComma outSize s).written) :
    (writeNext outSize s purpose).out x = (writeComma outSize s).out x :=
  vsnprintf_below below

theorem writeNext_written {purpose : Text}
    (small : (writeComma outSize s).written + purpose.length < 2 ^ 32) :
    (writeNext outSize s purpose).written = (writeComma outSize s).written + purpose.length :=
  wrap_of_eq (Int.natCast_add _ _).symm small

theorem spilled_next (spilled : Spilled outSize before text s) (purpose : Text)
    (small : (text ++ next purpose).length < 2 ^ 31) :
    Spilled outSize before (text ++ next purpose) (writeNext outSize s purpose) := by
  have size := length_append_next text purpose
  have counted := spilled.counted
  obtain ⟨x, behind, past, changed⟩ := spilled.outside
  obtain ⟨count, low, high, same⟩ : ∃ count, s.written ≤ count ∧ count ≤ s.written + 1 ∧
      (writeComma outSize s).written = count ∧ (writeComma outSize s).out x = s.out x := by
    unfold writeComma
    split
    · have one : wrap 32 ((s.written : Int) + 1) = s.written + 1 :=
        wrap_of_eq (by omega) (by omega)
      exact ⟨s.written + 1, Nat.le_succ _, Nat.le_refl _, one, store_outside _ (Or.inl past)⟩
    · exact ⟨s.written, Nat.le_refl _, Nat.le_succ _, rfl, rfl⟩
  have written : (writeNext outSize s purpose).written = count + purpose.length := by
    rw [writeNext_written (by omega), same.1]
  refine ⟨by omega, x, behind, by omega, ?_⟩
  rwa [writeNext_out (by omega), same.2]

/-- Behind a text of which two characters are cut off the comma is written outside. -/
theorem spilled_of_cutOff (fits : outSize < 2 ^ 64)
    (printed : Printed outSize (fun _ => nul) text s) (purpose : Text)
    (cut : 1 < cutOff outSize text)
    (small : (text ++ next purpose).length < 2 ^ 31) :
    Spilled outSize (fun _ => nul) (text ++ next purpose) (writeNext outSize s purpose) := by
  have size := length_append_next text purpose
  have most := cutOff_le outSize text
  have counted := printed.counted
  have room : 1 < wrap 64 ((outSize : Int) - s.written) := by
    have wrapped : ((outSize : Int) - s.written) % (2 ^ 64 : Nat) =
        outSize - s.written + (2 ^ 64 : Nat) := by
      rw [← Int.add_emod_right, Int.emod_eq_of_lt (by omega) (by omega)]
    unfold wrap
    omega
  have comma := writeComma_of_lt printed.started.1 room (by omega)
  have count : (writeComma outSize s).written = s.written + 1 := by rw [comma]
  have written : (writeNext outSize s purpose).written = s.written + 1 + purpose.length := by
    rw [writeNext_written (by omega), count]
  refine ⟨by omega, s.written, by omega, by omega, ?_⟩
  rw [writeNext_out (by omega), comma]
  have stored : store s.out s.written [','] (s.written + 0) = ',' :=
    store_inside s.out (show 0 < [','].length from Nat.one_pos)
  rw [Nat.add_zero] at stored
  change store s.out s.written [','] s.written ≠ nul
  rw [stored]
  decide

/-! ### What the loop does -/

theorem printed_foldl (positive : 0 < outSize) (fits : outSize < 2 ^ 64) (rest : List Text)
    (printed : Printed outSize before text s)
    (little : rest ≠ [] → cutOff outSize (text ++ rest.dropLast.flatMap next) ≤ 1)
    (small : (text ++ rest.flatMap next).length < 2 ^ 31) :
    Printed outSize before (text ++ rest.flatMap next) (rest.foldl (writeNext outSize) s) := by
  induction rest generalizing text s with
  | nil =>
    rw [List.flatMap_nil, List.append_nil]
    exact printed
  | cons purpose rest ih =>
    rw [List.flatMap_cons, ← List.append_assoc] at small ⊢
    have little' := little (List.cons_ne_nil _ _)
    have front : cutOff outSize text ≤ 1 := Nat.le_trans cutOff_mono little'
    have small' : (text ++ next purpose).length < 2 ^ 31 := by
      rw [List.length_append] at small
      omega
    refine ih (printed_next positive fits printed purpose front small') (fun nonempty => ?_) small
    rwa [List.dropLast_cons_of_ne_nil nonempty, List.flatMap_cons, ← List.append_assoc] at little'

theorem spilled_foldl (rest : List Text) (spilled : Spilled outSize before text s)
    (small : (text ++ rest.flatMap next).length < 2 ^ 31) :
    Spilled outSize before (text ++ rest.flatMap next) (rest.foldl (writeNext outSize) s) := by
  induction rest generalizing text s with
  | nil =>
    rw [List.flatMap_nil, List.append_nil]
    exact spilled
  | cons purpose rest ih =>
    rw [List.flatMap_cons, ← List.append_assoc] at small ⊢
    refine ih (spilled_next spilled purpose ?_) small
    rw [List.length_append] at small
    omega

/-- Once two characters are cut off, a further purpose spills over. -/
theorem spilled_foldl_of_cutOff (positive : 0 < outSize) (fits : outSize < 2 ^ 64)
    (rest : List Text) (nonempty : rest ≠ [])
    (printed : Printed outSize (fun _ => nul) text s)
    (cut : 1 < cutOff outSize (text ++ rest.dropLast.flatMap next))
    (small : (text ++ rest.flatMap next).length < 2 ^ 31) :
    Spilled outSize (fun _ => nul) (text ++ rest.flatMap next)
      (rest.foldl (writeNext outSize) s) := by
  induction rest generalizing text s with
  | nil => exact absurd rfl nonempty
  | cons purpose rest ih =>
    rw [List.flatMap_cons, ← List.append_assoc] at small ⊢
    have small' : (text ++ next purpose).length < 2 ^ 31 := by
      rw [List.length_append] at small
      omega
    rcases Nat.lt_or_ge 1 (cutOff outSize text) with early | front
    · exact spilled_foldl rest (spilled_of_cutOff fits printed purpose early small') small
    · have later : rest ≠ [] := by
        rintro rfl
        rw [List.dropLast_singleton, List.flatMap_nil, List.append_nil] at cut
        omega
      refine ih later (printed_next positive fits printed purpose front small') ?_ small
      rwa [List.dropLast_cons_of_ne_nil later, List.flatMap_cons, ← List.append_assoc] at cut

end

/-! ### The list -/

theorem marked_dropLast {purpose : Text} {rest : List Text} (nonempty : rest ≠ []) :
    marked (purpose :: rest).dropLast = purpose.map some ++ rest.dropLast.flatMap next := by
  rw [List.dropLast_cons_of_ne_nil nonempty, marked_cons]

theorem mem_joined {purposes : List Text} {c : Char} (member : c ∈ joined ',' purposes) :
    c = ',' ∨ ∃ purpose ∈ purposes, c ∈ purpose := by
  rw [← shown_marked, shown, List.mem_map] at member
  obtain ⟨mark, inside, rfl⟩ := member
  cases purposes with
  | nil => cases inside
  | cons purpose rest =>
    rw [marked_cons] at inside
    rcases List.mem_append.mp inside with first | later
    · obtain ⟨c, inPurpose, rfl⟩ := List.mem_map.mp first
      exact Or.inr ⟨purpose, List.mem_cons_self, inPurpose⟩
    · obtain ⟨other, inRest, inNext⟩ := List.mem_flatMap.mp later
      rcases List.mem_cons.mp inNext with rfl | behind
      · exact Or.inl rfl
      · obtain ⟨c, inPurpose, rfl⟩ := List.mem_map.mp behind
        exact Or.inr ⟨other, List.mem_cons_of_mem _ inRest, inPurpose⟩

theorem notMem_joined (eku : EKUPurposes) : nul ∉ joined ',' eku.purposes := by
  intro member
  rcases mem_joined member with comma | ⟨purpose, inside, placed⟩
  · exact absurd comma (by decide)
  · exact eku.noNul purpose inside placed

theorem joined_length (purposes : List Text) :
    (joined ',' purposes).length = (marked purposes).length := by
  rw [← shown_marked, shown_length]

/-- A list without a purpose leaves the buffer as it was. -/
theorem not_inBuffer_nil (eku : EKUPurposes) (outSize : Nat) (isEmpty : eku.purposes = []) :
    ¬ InBuffer (some eku) outSize := by
  intro inBuffer
  have text := inBuffer.text fun _ => ','
  have line : purposesText (some eku) = [] := by
    rw [purposesText, isEmpty]
    rfl
  have untouched : prettyEKUPurposes (some eku) outSize (fun _ => ',') = fun _ => ',' := by
    rw [prettyEKUPurposes, isEmpty]
    rfl
  rw [line, untouched, List.take_nil] at text
  exact absurd text.2.1 (by decide)

section

variable {outSize : Nat} (positive : 0 < outSize) (fits : outSize < 2 ^ 64)
include positive

theorem inBuffer_none : InBuffer none outSize := by
  have printed : ∀ out, prettyEKUPurposes none outSize out =
      store out 0 ("None".toList.take (outSize - 1) ++ [nul]) := by
    intro out
    rw [prettyEKUPurposes, vsnprintf, if_neg (by omega)]
  constructor
  · intro out x outside
    exact vsnprintf_outside (by omega)
  · intro out
    rw [printed]
    refine ⟨(load_printed out 0).1, (load_printed out 0).2, ?_⟩
    intro member
    exact absurd (List.mem_of_mem_take member) (by decide)

include fits

theorem inBuffer_of_littleCutOff (eku : EKUPurposes) (nonempty : eku.purposes ≠ [])
    (little : cutOff outSize (marked eku.purposes.dropLast) ≤ 1) :
    InBuffer (some eku) outSize := by
  have printed : ∀ out, Printed outSize out (marked eku.purposes)
      (eku.purposes.foldl (writeNext outSize) ⟨0, 0, out⟩) := by
    intro out
    have room := eku.room
    rw [joined_length] at room
    cases purposes : eku.purposes with
    | nil => exact absurd purposes nonempty
    | cons purpose rest =>
      rw [purposes] at room little
      rw [marked_cons] at room ⊢
      have small : purpose.length < 2 ^ 31 := by
        rw [List.length_append, List.length_map] at room
        omega
      refine printed_foldl positive fits rest
        (printed_first positive fits purpose small) (fun more => ?_) room
      rwa [marked_dropLast more] at little
  constructor
  · intro out
    exact (printed out).inside
  · intro out
    have held := (printed out).held
    have ended := (printed out).ended
    have size : ((purposesText (some eku)).take (outSize - 1)).length =
        min (marked eku.purposes).length (outSize - 1) := by
      rw [List.length_take, Nat.min_comm, purposesText, joined_length]
    rw [shown_marked] at held
    refine ⟨?_, ?_, fun member => notMem_joined eku (List.mem_of_mem_take member)⟩
    · rw [size]
      exact held
    · rw [size, Nat.zero_add]
      exact ended

theorem not_inBuffer_of_cutOff (eku : EKUPurposes) (nonempty : eku.purposes ≠ [])
    (cut : 1 < cutOff outSize (marked eku.purposes.dropLast)) :
    ¬ InBuffer (some eku) outSize := by
  intro inBuffer
  have room := eku.room
  rw [joined_length] at room
  have inside := inBuffer.inside fun _ => nul
  rw [prettyEKUPurposes] at inside
  cases purposes : eku.purposes with
  | nil => exact nonempty purposes
  | cons purpose rest =>
    rw [purposes] at room cut inside
    have more : rest ≠ [] := by
      rintro rfl
      rw [List.dropLast_singleton] at cut
      exact absurd cut (by simp [cutOff, marked])
    rw [marked_dropLast more] at cut
    rw [marked_cons] at room
    have small : purpose.length < 2 ^ 31 := by
      rw [List.length_append, List.length_map] at room
      omega
    have spilled := spilled_foldl_of_cutOff positive fits rest more
      (printed_first positive fits purpose small) cut room
    obtain ⟨x, outside, -, changed⟩ := spilled.outside
    exact changed (inside x outside)

end

/-- The list stays in its buffer and shows the purposes if and only if it has one and the
purposes in front of the last one fit but for a character. -/
theorem purposes_inside_iff (eku : Option EKUPurposes) (outSize : Nat) (positive : 0 < outSize)
    (fits : outSize < 2 ^ 64) : InBuffer eku outSize ↔ LittleCutOff outSize eku := by
  cases eku with
  | none => exact iff_of_true (inBuffer_none positive) trivial
  | some eku =>
    constructor
    · intro inBuffer
      have nonempty : eku.purposes ≠ [] := fun isEmpty =>
        not_inBuffer_nil eku outSize isEmpty inBuffer
      refine ⟨nonempty, Nat.le_of_not_lt fun cut => ?_⟩
      exact not_inBuffer_of_cutOff positive fits eku nonempty cut inBuffer
    · intro little
      exact inBuffer_of_littleCutOff positive fits eku little.1 little.2

def shortList : EKUPurposes where
  purposes := ["Server Authentication".toList, "Client Authentication".toList,
    "Secure Email".toList, "Code Signing".toList]
  noNul := by decide
  room := by decide

theorem purposes_inside_short :
    InBuffer (some shortList) 64 ↔ LittleCutOff 64 (some shortList) :=
  purposes_inside_iff (some shortList) 64 (by decide) (by decide)

def longList : EKUPurposes where
  purposes := ["Server Authentication".toList, "Client Authentication".toList,
    "Secure Email".toList, "Code Signing".toList, "Time Stamping".toList]
  noNul := by decide
  room := by decide

/-- The fourth of five purposes is cut off; the fifth is written behind the buffer. -/
theorem long_list_outside : ¬ InBuffer (some longList) 64 :=
  not_inBuffer_of_cutOff (by decide) (by decide) longList (by decide) (by decide)

end MrBig.Guarantees.PurposesBuffer
