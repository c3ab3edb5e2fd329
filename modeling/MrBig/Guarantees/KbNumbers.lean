import Mathlib.Algebra.Group.Nat.Even
import MrBig.Abstract.KbGrammar
import MrBig.Source.Kbs

/-!
# The number of an update, as it is extracted

The scanner takes a `K` together with the character behind it and does not step back: of a run of
`K`s it takes pairs, so it finds the last one in front of a `B` if an even number of them precedes
it. A run of odd length at the end takes the terminator with it. Characters are told apart by their
low bytes.
-/

set_option autoImplicit false

namespace MrBig.Guarantees.KbNumbers
open Source Source.Kbs Abstract.KbGrammar

/-! ### Runs of `K` -/

/-- How many `K`s the text ends with. -/
def kRun (text : List Nat) : Nat := (text.reverse.takeWhile (· = 'K'.toNat)).length

theorem kRun_concat_k (text : List Nat) : kRun (text ++ ['K'.toNat]) = kRun text + 1 := by
  simp [kRun]

theorem kRun_concat {c : Nat} (other : c ≠ 'K'.toNat) (text : List Nat) :
    kRun (text ++ [c]) = 0 := by
  simp only [kRun, List.reverse_append, List.reverse_singleton, List.singleton_append]
  rw [List.takeWhile_cons_of_neg (by simpa using other), List.length_nil]

/-- Two characters of which the first is a `K` leave the parity. -/
theorem even_kRun_pair {text : List Nat} (even : Even (kRun text)) (c : Nat) :
    Even (kRun (text ++ ['K'.toNat] ++ [c])) := by
  by_cases k : c = 'K'.toNat
  · subst k
    rw [kRun_concat_k, kRun_concat_k]
    obtain ⟨half, same⟩ := even
    exact ⟨half + 1, by omega⟩
  · rw [kRun_concat k]
    exact Even.zero

/-! ### Where the scanner stops -/

/-- Behind `before`, the scanner sees a zero or a number at this place. -/
def StopsAt (before bytes : List Nat) (i : Nat) : Prop :=
  Even (kRun (before ++ bytes.take i)) ∧ (bytes[i]? = some 0 ∨ StartsKB (bytes.drop i))

instance (before bytes : List Nat) (i : Nat) : Decidable (StopsAt before bytes i) :=
  inferInstanceAs (Decidable (_ ∧ _))

def StopsFirst (before bytes : List Nat) (i : Nat) : Prop :=
  StopsAt before bytes i ∧ ∀ j < i, ¬ StopsAt before bytes j

/-- What stands at a place: the number, or 0. -/
def found (bytes : List Nat) : Nat := if StartsKB bytes then numberAt bytes else 0

/-- What the first place has to offer where the scanner stops. -/
def Reads (before bytes : List Nat) (value : UInt32) : Prop :=
  ∃ i, StopsFirst before bytes i ∧ value = UInt32.ofNat (found (bytes.drop i))

theorem not_reads_nil (before : List Nat) (value : UInt32) : ¬ Reads before [] value := by
  rintro ⟨i, ⟨⟨-, zero | starts⟩, -⟩, -⟩
  · simp at zero
  · simp [StartsKB] at starts

theorem reads_here {before bytes : List Nat} (stops : StopsAt before bytes 0) (value : UInt32) :
    Reads before bytes value ↔ value = UInt32.ofNat (found bytes) := by
  constructor
  · rintro ⟨i, ⟨-, first⟩, rfl⟩
    cases i with
    | zero => rfl
    | succ i => exact absurd stops (first 0 (Nat.succ_pos i))
  · intro same
    exact ⟨0, ⟨stops, fun j before => absurd before (Nat.not_lt_zero j)⟩, same⟩

theorem stopsAt_succ (before bytes : List Nat) (c i : Nat) :
    StopsAt before (c :: bytes) (i + 1) ↔ StopsAt (before ++ [c]) bytes i := by
  simp [StopsAt]

theorem reads_skip {before bytes : List Nat} {c : Nat} (goesOn : ¬ StopsAt before (c :: bytes) 0)
    (value : UInt32) : Reads before (c :: bytes) value ↔ Reads (before ++ [c]) bytes value := by
  constructor
  · rintro ⟨i, ⟨stops, first⟩, same⟩
    cases i with
    | zero => exact absurd stops goesOn
    | succ i =>
      refine ⟨i, ⟨(stopsAt_succ ..).mp stops, fun j before there => ?_⟩, same⟩
      exact first (j + 1) (Nat.succ_lt_succ before) ((stopsAt_succ ..).mpr there)
  · rintro ⟨i, ⟨stops, first⟩, same⟩
    refine ⟨i + 1, ⟨(stopsAt_succ ..).mpr stops, fun j before there => ?_⟩, same⟩
    cases j with
    | zero => exact goesOn there
    | succ j => exact first j (Nat.lt_of_succ_lt_succ before) ((stopsAt_succ ..).mp there)

/-! ### The loops -/

/-- Nothing but a zero is last. -/
def Terminated (bytes : List Nat) : Prop := ∀ c ∈ bytes.getLast?, c = 0

theorem Terminated.tail {c : Nat} {rest : List Nat} (terminated : Terminated (c :: rest)) :
    Terminated rest := by
  cases rest with
  | nil => exact nofun
  | cons d rest =>
    unfold Terminated at terminated
    rwa [List.getLast?_cons_cons] at terminated

theorem isDigit_iff (c : Nat) : isDigit c = true ↔ Digit c := by
  unfold isDigit Digit
  simp

/-- The inner loop reads the digits there are. -/
theorem digitsLoop_eq {bytes : List Nat} (terminated : Terminated bytes) (nonempty : bytes ≠ [])
    (value : Nat) :
    digitsLoop (UInt32.ofNat value) bytes =
      some (UInt32.ofNat (valueFrom value (bytes.takeWhile fun c => Digit c))) := by
  induction bytes generalizing value with
  | nil => exact absurd rfl nonempty
  | cons c rest ih =>
    rw [digitsLoop]
    by_cases digit : Digit c
    · have more : rest ≠ [] := by
        rintro rfl
        obtain rfl := terminated c rfl
        exact absurd digit.1 (by decide)
      have next : UInt32.ofNat value * 10 + UInt32.ofNat (c - '0'.toNat) =
          UInt32.ofNat (value * 10 + (c - '0'.toNat)) := by
        rw [UInt32.ofNat_add, UInt32.ofNat_mul]
        rfl
      rw [if_pos ((isDigit_iff c).mpr digit), next, ih terminated.tail more,
        List.takeWhile_cons_of_pos (by simpa using digit)]
      rfl
    · rw [if_neg fun isDigit => digit ((isDigit_iff c).mp isDigit),
        List.takeWhile_cons_of_neg (by simpa using digit)]
      rfl

theorem not_stops_odd {before bytes : List Nat} (odd : ¬ Even (kRun before)) :
    ¬ StopsAt before bytes 0 := by
  rintro ⟨even, -⟩
  rw [List.take_zero, List.append_nil] at even
  exact odd even

theorem not_stops_of_head {before rest : List Nat} {c : Nat} (nonzero : c ≠ 0)
    (goesOn : ¬ StartsKB (c :: rest)) : ¬ StopsAt before (c :: rest) 0 := by
  rintro ⟨-, zero | starts⟩
  · exact nonzero (by simpa using zero)
  · exact goesOn starts

theorem stops_here {before bytes : List Nat} (even : Even (kRun before))
    (stops : bytes[0]? = some 0 ∨ StartsKB bytes) : StopsAt before bytes 0 := by
  refine ⟨?_, stops⟩
  rwa [List.take_zero, List.append_nil]

theorem odd_kRun_concat {before : List Nat} (even : Even (kRun before)) :
    ¬ Even (kRun (before ++ ['K'.toNat])) := by
  rw [kRun_concat_k]
  rintro ⟨half, same⟩
  obtain ⟨half', same'⟩ := even
  omega

/-- From a place behind a run of even length on, the outer loop returns what the first place has
to offer where the scanner stops, and reads behind the terminator if there is none. -/
theorem kbLoop_eq_some_iff {before bytes : List Nat} (even : Even (kRun before))
    (terminated : Terminated bytes) (value : UInt32) :
    kbLoop bytes = some value ↔ Reads before bytes value := by
  fun_induction kbLoop bytes generalizing before with
  | case1 => exact iff_of_false nofun (not_reads_nil before value)
  | case2 rest =>
    have nothing : found (0 :: rest) = 0 := if_neg (not_startsKB_of_head (by decide))
    rw [reads_here (stops_here even (.inl rfl)), nothing, Option.some.injEq]
    exact eq_comm
  | case3 c rest nonzero other ih =>
    rw [reads_skip (not_stops_of_head nonzero (not_startsKB_of_head other))]
    exact ih (by rw [kRun_concat other]; exact Even.zero) terminated.tail
  | case4 c nonzero k =>
    obtain rfl := Decidable.not_not.mp k
    have goesOn : ¬ StartsKB ['K'.toNat] := not_false
    rw [reads_skip (not_stops_of_head nonzero goesOn)]
    exact iff_of_false nofun (not_reads_nil _ value)
  | case5 c nonzero k d rest other ih =>
    obtain rfl := Decidable.not_not.mp k
    have goesOn : ¬ StartsKB ('K'.toNat :: d :: rest) := by
      intro starts
      match rest with
      | _ :: _ => exact other starts.2.1
      | [] => exact starts
    rw [reads_skip (not_stops_of_head nonzero goesOn),
      reads_skip (not_stops_odd (odd_kRun_concat even))]
    exact ih (even_kRun_pair even d) terminated.tail.tail
  | case6 c nonzero k b isB =>
    obtain rfl := Decidable.not_not.mp k
    have goesOn : ¬ StartsKB ['K'.toNat, b] := not_false
    rw [reads_skip (not_stops_of_head nonzero goesOn),
      reads_skip (not_stops_odd (odd_kRun_concat even))]
    exact iff_of_false nofun (not_reads_nil _ value)
  | case7 c nonzero k b isB d rest digit =>
    obtain rfl := Decidable.not_not.mp k
    obtain rfl := Decidable.not_not.mp isB
    have starts : StartsKB ('K'.toNat :: 'B'.toNat :: d :: rest) :=
      ⟨rfl, rfl, (isDigit_iff d).mp digit⟩
    have number : digitsLoop 0 (d :: rest) =
        some (UInt32.ofNat (numberAt ('K'.toNat :: 'B'.toNat :: d :: rest))) :=
      digitsLoop_eq terminated.tail.tail (List.cons_ne_nil d rest) 0
    rw [reads_here (stops_here even (.inr starts)), found, if_pos starts, number,
      Option.some.injEq]
    exact eq_comm
  | case8 c nonzero k b isB d rest other ih =>
    obtain rfl := Decidable.not_not.mp k
    have goesOn : ¬ StartsKB ('K'.toNat :: b :: d :: rest) :=
      fun starts => other ((isDigit_iff d).mpr starts.2.2)
    rw [reads_skip (not_stops_of_head nonzero goesOn),
      reads_skip (not_stops_odd (odd_kRun_concat even))]
    exact ih (even_kRun_pair even b) terminated.tail.tail

/-! ### Titles -/

/-- The characters of a title. -/
def characters (title : WideString) : List Nat := title.units.map UInt16.toNat

/-- The scanner stops inside the title, and the number it finds there, in the low bytes, is that
of the title. -/
def ScannedRight (title : WideString) : Prop :=
  ∃ i, StopsFirst [] (titleBytes title) i ∧
    found ((titleBytes title).drop i) % 2 ^ 32 = kbNumber (characters title) % 2 ^ 32

theorem ofNat_eq_ofNat_iff (a b : Nat) :
    UInt32.ofNat a = UInt32.ofNat b ↔ a % 2 ^ 32 = b % 2 ^ 32 := by
  rw [UInt32.ofNat_eq_iff_mod_eq_toNat, UInt32.toNat_ofNat']

theorem titleBytes_terminated (title : WideString) : Terminated (titleBytes title) := by
  intro c last
  rw [titleBytes, List.getLast?_concat] at last
  exact (Option.some.inj last).symm

/-- For every title: the number by the grammar is returned, and nothing behind the terminator is
read, if and only if the first place where the scanner stops has that number. -/
theorem kb_number_extracted_iff (title : WideString) :
    extractKBNumber title = some (UInt32.ofNat (kbNumber (characters title))) ↔
      ScannedRight title := by
  rw [extractKBNumber, @kbLoop_eq_some_iff [] _ Even.zero (titleBytes_terminated title)]
  refine exists_congr fun i => and_congr_right fun _ => ?_
  rw [eq_comm, ofNat_eq_ofNat_iff]

/-- `(KB42)` -/
example : extractKBNumber ⟨[40, 75, 66, 52, 50, 41], by simp⟩ = some 42 := by decide

/-- `KKB5`, and `K`. -/
def doubledK : WideString := ⟨[75, 75, 66, 53], by simp⟩
def finalK : WideString := ⟨[75], by simp⟩

/-- The number behind the second `K` is missed, and behind a last `K` the scanner goes on. -/
theorem kb_number_missed :
    extractKBNumber doubledK = some 0 ∧ kbNumber (characters doubledK) = 5 ∧
      extractKBNumber finalK = none := by
  decide

/-! ### Latin titles -/

/-- What follows the number may be the terminator. -/
theorem startsKB_concat_iff (text : List Nat) : StartsKB (text ++ [0]) ↔ StartsKB text := by
  match text with
  | [] => exact Iff.rfl
  | [_] => exact Iff.rfl
  | [_, _] => exact iff_of_false (fun starts => absurd starts.2.2.1 (by decide)) not_false
  | _ :: _ :: _ :: _ => exact Iff.rfl

theorem numberAt_concat {text : List Nat} (starts : StartsKB text) :
    numberAt (text ++ [0]) = numberAt text := by
  match text with
  | [] | [_] | [_, _] => exact absurd starts not_false
  | _ :: _ :: d :: rest =>
    have zero : ¬ Digit 0 := by decide
    unfold numberAt
    rw [List.drop_append_of_le_length (by simp), List.takeWhile_append]
    split
    next whole =>
      rw [List.takeWhile_cons_of_neg (by simpa using zero), List.append_nil,
        (List.takeWhile_prefix _).eq_of_length whole]
    next => rfl

theorem titleBytes_of_latin {title : WideString} (latin : ∀ c ∈ characters title, c < 256) :
    titleBytes title = characters title ++ [0] := by
  rw [titleBytes, characters]
  congr 1
  refine List.map_congr_left fun u member => Nat.mod_eq_of_lt ?_
  exact latin _ (List.mem_map_of_mem member)

/-- In front of the terminator, the scanner of a Latin title stops at numbers only. -/
theorem stopsAt_of_latin {title : WideString} (latin : ∀ c ∈ characters title, c < 256) {i : Nat}
    (inside : i < (characters title).length) :
    StopsAt [] (titleBytes title) i ↔
      Even (kRun ((characters title).take i)) ∧ StartsKB ((characters title).drop i) := by
  have nonzero : (titleBytes title)[i]? ≠ some 0 := by
    rw [titleBytes_of_latin latin, List.getElem?_append_left inside]
    intro zero
    obtain ⟨u, member, value⟩ := List.mem_map.mp (List.mem_of_getElem? zero)
    exact title.nonzero u member (UInt16.toNat.inj value)
  unfold StopsAt
  rw [or_iff_right nonzero, titleBytes_of_latin latin, List.nil_append,
    List.take_append_of_le_length (Nat.le_of_lt inside),
    List.drop_append_of_le_length (Nat.le_of_lt inside), startsKB_concat_iff]

/-- A Latin title is read right if an even number of `K`s stands in front of its number, or at its
end if there is none. -/
theorem scannedRight_of_latin {title : WideString} (latin : ∀ c ∈ characters title, c < 256)
    {place : Nat}
    (first : ∀ j < place, ¬ StartsKB ((characters title).drop j))
    (stops : StartsKB ((characters title).drop place) ∨ place = (characters title).length)
    (even : Even (kRun ((characters title).take place))) : ScannedRight title := by
  have bytes := titleBytes_of_latin latin
  rcases stops with starts | rfl
  · have inside : place < (characters title).length := by
      by_contra outside
      rw [List.drop_eq_nil_of_le (Nat.le_of_not_lt outside)] at starts
      exact starts
    refine ⟨place,
      ⟨(stopsAt_of_latin latin inside).mpr ⟨even, starts⟩, fun j before there => ?_⟩, ?_⟩
    · exact first j before ((stopsAt_of_latin latin (Nat.lt_trans before inside)).mp there).2
    · rw [bytes, List.drop_append_of_le_length (Nat.le_of_lt inside), found,
        if_pos ((startsKB_concat_iff _).mpr starts), numberAt_concat starts,
        kbNumber_of_first starts first]
  · have never : ∀ j, ¬ StartsKB ((characters title).drop j) := by
      intro j starts
      by_cases inside : j < (characters title).length
      · exact first j inside starts
      · rw [List.drop_eq_nil_of_le (Nat.le_of_not_lt inside)] at starts
        exact starts
    refine ⟨(characters title).length, ⟨⟨?_, .inl ?_⟩, fun j before there => ?_⟩, ?_⟩
    · rwa [bytes, List.nil_append, List.take_append_of_le_length (Nat.le_refl _)]
    · rw [bytes]
      simp
    · exact first j before ((stopsAt_of_latin latin before).mp there).2
    · have nothing : found [0] = 0 := by decide
      rw [bytes, List.drop_left, nothing, kbNumber_of_none never]

end MrBig.Guarantees.KbNumbers
