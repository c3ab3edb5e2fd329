import Mathlib.Data.List.Basic
import MrBig.Source.CString

/-!
# IPv6 addresses as text

The text form of RFC 4291, section 2.2: eight groups of one to four hexadecimal digits with
colons between them, where `::` may stand once for one or more groups of zeros. The form that
ends in an IPv4 address is left out; its dots occur in no text here.
-/

set_option autoImplicit false

namespace MrBig.Abstract.Ipv6Text
open Source

/-! ### Reading -/

def hexDigit (c : Char) : Option Nat :=
  if '0' ≤ c ∧ c ≤ '9' then some (c.toNat - '0'.toNat)
  else if 'a' ≤ c ∧ c ≤ 'f' then some (c.toNat - 'a'.toNat + 10)
  else if 'A' ≤ c ∧ c ≤ 'F' then some (c.toNat - 'A'.toNat + 10)
  else none

def hexValue (digits : Text) : Option Nat :=
  digits.foldlM (fun value c => (hexDigit c).map (16 * value + ·)) 0

/-- One group. -/
def hexGroup (piece : Text) : Option Nat :=
  if 1 ≤ piece.length ∧ piece.length ≤ 4 then hexValue piece else none

/-- Groups with colons between them; no text stands for no groups. -/
def parseGroups (text : Text) : Option (List Nat) :=
  if text = [] then some [] else (text.splitOn ':').mapM hexGroup

/-- What stands in front of the first `::` and behind it. -/
def splitDouble : Text → Option (Text × Text)
  | [] => none
  | c :: rest =>
    if c = ':' ∧ rest.head? = some ':' then some ([], rest.tail)
    else (splitDouble rest).map fun parts => (c :: parts.1, parts.2)

/-- The eight groups. -/
def parse (text : Text) : Option (List Nat) :=
  match splitDouble text with
  | none => (parseGroups text).filter fun groups => groups.length = 8
  | some (front, back) => do
    let left ← parseGroups front
    let right ← parseGroups back
    if left.length + right.length < 8 then
      some (left ++ List.replicate (8 - (left.length + right.length)) 0 ++ right)
    else none

/-- The sixteen bytes in network byte order. -/
def parseBytes (text : Text) : Option (List UInt8) :=
  (parse text).map (List.flatMap fun group => [UInt8.ofNat (group / 256), UInt8.ofNat group])

/-! ### Hexadecimal numbers -/

theorem hexDigit_digitChar {d : Nat} (small : d < 16) : hexDigit d.digitChar = some d := by
  revert d
  decide

theorem hexValue_concat (digits : Text) (c : Char) :
    hexValue (digits ++ [c]) =
      (hexValue digits).bind fun value => (hexDigit c).map (16 * value + ·) := by
  simp [hexValue, List.foldlM_append]

theorem hexValue_toDigits (n : Nat) : hexValue (Nat.toDigits 16 n) = some n := by
  induction n using Nat.strongRecOn with
  | ind n ih =>
    rcases Nat.lt_or_ge n 16 with small | large
    · rw [Nat.toDigits_of_lt_base small]
      have digit := hexValue_concat [] n.digitChar
      rw [List.nil_append] at digit
      rw [digit, hexDigit_digitChar small]
      simp [hexValue]
    · rw [Nat.toDigits_of_base_le (by decide) large, hexValue_concat, ih (n / 16) (by omega),
        Option.bind_some, hexDigit_digitChar (Nat.mod_lt n (by decide)), Option.map_some,
        Nat.div_add_mod]

theorem mem_toDigits {n : Nat} {c : Char} (member : c ∈ Nat.toDigits 16 n) :
    ∃ d < 16, c = d.digitChar := by
  induction n using Nat.strongRecOn with
  | ind n ih =>
    rcases Nat.lt_or_ge n 16 with small | large
    · rw [Nat.toDigits_of_lt_base small, List.mem_singleton] at member
      exact ⟨n, small, member⟩
    · rw [Nat.toDigits_of_base_le (by decide) large] at member
      rcases List.mem_append.mp member with front | last
      · exact ih (n / 16) (by omega) front
      · exact ⟨n % 16, Nat.mod_lt n (by decide), List.mem_singleton.mp last⟩

theorem colon_notMem_toDigits (n : Nat) : ':' ∉ Nat.toDigits 16 n := by
  intro member
  obtain ⟨d, small, same⟩ := mem_toDigits member
  have digit := hexDigit_digitChar small
  rw [← same] at digit
  exact absurd digit (by simp [hexDigit])

theorem hexGroup_toDigits {n : Nat} (small : n < 65536) :
    hexGroup (Nat.toDigits 16 n) = some n := by
  have most : (Nat.toDigits 16 n).length ≤ 4 :=
    (Nat.length_toDigits_le_iff (by decide) (by decide)).mpr small
  rw [hexGroup, if_pos ⟨Nat.length_toDigits_pos, most⟩, hexValue_toDigits]

/-! ### Groups with colons between them -/

/-- The pieces that a colon can separate. -/
def Plain (pieces : List Text) : Prop := ∀ piece ∈ pieces, piece ≠ [] ∧ ':' ∉ piece

def hexes (groups : List Nat) : List Text := groups.map (Nat.toDigits 16)

theorem plain_hexes (groups : List Nat) : Plain (hexes groups) := by
  intro piece member
  obtain ⟨n, _, rfl⟩ := List.mem_map.mp member
  exact ⟨Nat.toDigits_ne_nil, colon_notMem_toDigits n⟩

theorem joined_cons_cons (piece second : Text) (rest : List Text) :
    joined ':' (piece :: second :: rest) = piece ++ ':' :: joined ':' (second :: rest) := by
  simp [joined]

section

variable {pieces : List Text} (plain : Plain pieces)
include plain

theorem joined_eq_nil_iff : joined ':' pieces = [] ↔ pieces = [] := by
  cases pieces with
  | nil => exact iff_of_true rfl rfl
  | cons piece rest =>
    have nonempty := (plain piece List.mem_cons_self).1
    refine iff_of_false ?_ (List.cons_ne_nil _ _)
    cases rest with
    | nil => simpa [joined] using nonempty
    | cons second rest =>
      rw [joined_cons_cons]
      simp

theorem head_joined : (joined ':' pieces).head? ≠ some ':' := by
  cases pieces with
  | nil => simp [joined]
  | cons piece rest =>
    obtain ⟨nonempty, apart⟩ := plain piece List.mem_cons_self
    obtain ⟨c, piece', rfl⟩ := List.exists_cons_of_ne_nil nonempty
    have other : c ≠ ':' := fun same => apart (same ▸ List.mem_cons_self)
    cases rest with
    | nil => simpa [joined] using other
    | cons second rest =>
      rw [joined_cons_cons]
      simpa using other

theorem getLast_joined : (joined ':' pieces).getLast? ≠ some ':' := by
  induction pieces with
  | nil => simp [joined]
  | cons piece rest ih =>
    have plain' : Plain rest := fun other member => plain other (List.mem_cons_of_mem _ member)
    cases rest with
    | nil =>
      obtain ⟨nonempty, apart⟩ := plain piece List.mem_cons_self
      intro last
      have single : joined ':' [piece] = piece := by simp [joined]
      rw [single] at last
      exact apart (List.mem_of_getLast? last)
    | cons second rest =>
      have nonempty : joined ':' (second :: rest) ≠ [] := fun nothing =>
        absurd ((joined_eq_nil_iff plain').mp nothing) (List.cons_ne_nil _ _)
      rw [joined_cons_cons, List.getLast?_append_of_ne_nil _ (List.cons_ne_nil _ _),
        List.getLast?_cons_of_ne_nil nonempty]
      exact ih plain'

theorem parseGroups_joined : parseGroups (joined ':' pieces) = pieces.mapM hexGroup := by
  by_cases nothing : pieces = []
  · rw [nothing]
    rfl
  · have nonempty : joined ':' pieces ≠ [] := fun nil => nothing ((joined_eq_nil_iff plain).mp nil)
    have split : (joined ':' pieces).splitOn ':' = pieces :=
      List.splitOn_intercalate ':' (fun piece member => (plain piece member).2) nothing
    rw [parseGroups, if_neg nonempty, split]

end

/-! ### Two colons in a row -/

section

variable {front back : Text} {c : Char}

theorem splitDouble_double (back : Text) : splitDouble (':' :: ':' :: back) = some ([], back) := by
  rw [splitDouble, if_pos ⟨rfl, rfl⟩, List.tail_cons]

theorem splitDouble_cons_eq_none_iff :
    splitDouble (c :: back) = none ↔
      ¬ (c = ':' ∧ back.head? = some ':') ∧ splitDouble back = none := by
  rw [splitDouble]
  split
  · next double => exact iff_of_false (Option.some_ne_none _) fun parts => parts.1 double
  · next single => rw [Option.map_eq_none_iff, and_iff_right single]

/-- Only a text that ends in a colon changes when a text with two of them is put behind it. -/
theorem splitDouble_front (single : splitDouble front = none) (last : front.getLast? ≠ some ':')
    (back : Text) : splitDouble (front ++ ':' :: ':' :: back) = some (front, back) := by
  induction front with
  | nil => exact splitDouble_double back
  | cons c rest ih =>
    obtain ⟨notDouble, single'⟩ := splitDouble_cons_eq_none_iff.mp single
    rw [List.cons_append, splitDouble]
    cases rest with
    | nil =>
      have other : c ≠ ':' := by simpa using last
      rw [if_neg (fun double => other double.1), List.nil_append, splitDouble_double]
      rfl
    | cons d rest =>
      have last' : (d :: rest).getLast? ≠ some ':' := by
        rwa [List.getLast?_cons_of_ne_nil (List.cons_ne_nil _ _)] at last
      rw [if_neg (show ¬ (c = ':' ∧ (d :: rest ++ _).head? = some ':') from notDouble),
        ih single' last']
      rfl

theorem splitDouble_ne_none (front back : Text) :
    splitDouble (front ++ ':' :: ':' :: back) ≠ none := by
  induction front with
  | nil =>
    rw [List.nil_append, splitDouble_double]
    exact Option.some_ne_none _
  | cons c rest ih => exact fun nothing => ih (splitDouble_cons_eq_none_iff.mp nothing).2

theorem splitDouble_plain (plain : ':' ∉ front) (single : splitDouble back = none) :
    splitDouble (front ++ back) = none := by
  induction front with
  | nil => exact single
  | cons c rest ih =>
    have other : c ≠ ':' := fun same => plain (same ▸ List.mem_cons_self)
    refine splitDouble_cons_eq_none_iff.mpr ⟨fun double => other double.1, ?_⟩
    exact ih fun member => plain (List.mem_cons_of_mem _ member)

theorem splitDouble_concat (single : splitDouble front = none) (other : c ≠ ':') :
    splitDouble (front ++ [c]) = none := by
  induction front with
  | nil => exact splitDouble_cons_eq_none_iff.mpr ⟨fun double => other double.1, rfl⟩
  | cons d rest ih =>
    obtain ⟨notDouble, single'⟩ := splitDouble_cons_eq_none_iff.mp single
    refine splitDouble_cons_eq_none_iff.mpr ⟨fun double => ?_, ih single'⟩
    cases rest with
    | nil => exact other (by simpa using double.2)
    | cons e rest => exact notDouble double

/-- Two colons in a row stand where the text is cut, and nowhere else. -/
theorem double_once (single : splitDouble front = none) (last : front.getLast? ≠ some ':')
    (single' : splitDouble back = none) (head : back.head? ≠ some ':') {p q : Text}
    (same : front ++ ':' :: ':' :: back = p ++ ':' :: ':' :: q) : p = front := by
  induction front generalizing p with
  | nil =>
    match p with
    | [] => rfl
    | [_] =>
      rw [List.nil_append, List.cons_append, List.nil_append, List.cons.injEq, List.cons.injEq]
        at same
      exact absurd (by rw [same.2.2]; rfl) head
    | _ :: _ :: p =>
      rw [List.nil_append, List.cons_append, List.cons_append, List.cons.injEq, List.cons.injEq]
        at same
      exact absurd (same.2.2 ▸ single') (splitDouble_ne_none p q)
  | cons c rest ih =>
    obtain ⟨notDouble, single''⟩ := splitDouble_cons_eq_none_iff.mp single
    cases p with
    | nil =>
      rw [List.nil_append, List.cons_append, List.cons.injEq] at same
      cases rest with
      | nil => exact absurd (by rw [same.1]; rfl) last
      | cons d rest =>
        rw [List.cons_append, List.cons.injEq] at same
        exact absurd ⟨same.1, by rw [same.2.1]; rfl⟩ notDouble
    | cons e p =>
      rw [List.cons_append, List.cons_append, List.cons.injEq] at same
      have last' : rest.getLast? ≠ some ':' := by
        cases rest with
        | nil => simp
        | cons d rest => rwa [List.getLast?_cons_of_ne_nil (List.cons_ne_nil _ _)] at last
      rw [ih single'' last' same.2, same.1]

end

/-! ### Reading what is written -/

theorem splitDouble_joined {pieces : List Text} (plain : Plain pieces) :
    splitDouble (joined ':' pieces) = none := by
  induction pieces with
  | nil => rfl
  | cons piece rest ih =>
    have plain' : Plain rest := fun other member => plain other (List.mem_cons_of_mem _ member)
    have apart := (plain piece List.mem_cons_self).2
    cases rest with
    | nil =>
      have single : splitDouble (piece ++ []) = none := splitDouble_plain apart rfl
      have alone : joined ':' [piece] = piece := by simp [joined]
      rwa [alone, ← List.append_nil piece]
    | cons second rest =>
      rw [joined_cons_cons]
      refine splitDouble_plain apart (splitDouble_cons_eq_none_iff.mpr ⟨?_, ih plain'⟩)
      exact fun double => head_joined plain' double.2

theorem mapM_hexes {groups : List Nat} (small : ∀ n ∈ groups, n < 65536) :
    (hexes groups).mapM hexGroup = some groups := by
  induction groups with
  | nil => rfl
  | cons n rest ih =>
    have remaining := ih fun m member => small m (List.mem_cons_of_mem _ member)
    rw [hexes] at remaining
    rw [hexes, List.map_cons, List.mapM_cons, hexGroup_toDigits (small n List.mem_cons_self),
      remaining]
    rfl

theorem parseGroups_hexes {groups : List Nat} (small : ∀ n ∈ groups, n < 65536) :
    parseGroups (joined ':' (hexes groups)) = some groups := by
  rw [parseGroups_joined (plain_hexes groups), mapM_hexes small]

theorem parse_joined {groups : List Nat} (small : ∀ n ∈ groups, n < 65536)
    (eight : groups.length = 8) : parse (joined ':' (hexes groups)) = some groups := by
  rw [parse, splitDouble_joined (plain_hexes groups)]
  dsimp only
  rw [parseGroups_hexes small, Option.filter_some_pos (by simpa using eight)]

theorem parse_compressed {left right : List Nat} (small : ∀ n ∈ left ++ right, n < 65536)
    (room : left.length + right.length < 8) :
    parse (joined ':' (hexes left) ++ ':' :: ':' :: joined ':' (hexes right)) =
      some (left ++ List.replicate (8 - (left.length + right.length)) 0 ++ right) := by
  have front := parseGroups_hexes fun n member => small n (List.mem_append_left right member)
  have back := parseGroups_hexes fun n member => small n (List.mem_append_right left member)
  rw [parse, splitDouble_front (splitDouble_joined (plain_hexes left))
    (getLast_joined (plain_hexes left))]
  dsimp only
  rw [front, back, Option.bind_eq_bind, Option.bind_some, Option.bind_some, if_pos room]

example : parse "2001:db8::7:0:1".toList = some [0x2001, 0xdb8, 0, 0, 0, 7, 0, 1] := by decide

end MrBig.Abstract.Ipv6Text
