import Mathlib.Data.Char
import Mathlib.Data.List.Lex
import Mathlib.Order.Compare

/-!
# C strings

A C string is the list of its characters without the terminating NUL; a buffer is
the string it holds. `vsnprintf` follows C99 and writes at most the given number of
bytes, the last of them the NUL.
-/

set_option autoImplicit false

namespace MrBig.Source

abbrev Text := List Char

/-- strlcpy.c: at most `siz - 1` characters arrive. -/
def strlcpy (src : Text) (siz : Nat) : Text := src.take (siz - 1)

/-- `strcasecmp` returns zero. -/
def strcasecmp (a b : Text) : Bool := a.map Char.toLower == b.map Char.toLower

/-- The order of the first characters that differ. -/
def strcmp : Text → Text → Ordering
  | [], [] => .eq
  | [], _ :: _ => .lt
  | _ :: _, [] => .gt
  | c :: s, d :: t => (compare c.toNat d.toNat).then (strcmp s t)

def strncmp (s t : Text) (n : Nat) : Ordering := strcmp (s.take n) (t.take n)

/-- `%d` of `printf`. -/
def printInt (n : Int) : Text := (toString n).toList

/-- Texts with a separator between them. -/
def joined (separator : Char) (pieces : List Text) : Text := [separator].intercalate pieces

/-- What `printf` makes of a double, by the conversion that asks for it. -/
abbrev PrintDouble := String → Float → Text

/-- mrbig.c `snprcat`: `vsnprintf` behind what the buffer holds, then a NUL at
`str[size-1]`. `printed` is the expansion of the format. -/
def snprcat (str : Text) (size : Nat) (printed : Text) : Text :=
  (str ++ printed.take (size - str.length - 1)).take (size - 1)

/-- `strcmp` is the order of the dictionary. -/
theorem strcmp_compares (s t : Text) : (strcmp s t).Compares s t := by
  fun_induction strcmp s t with
  | case1 => rfl
  | case2 => exact List.nil_lt_cons _ _
  | case3 => exact List.nil_lt_cons _ _
  | case4 c s d t ih =>
    rcases Nat.lt_trichotomy c.toNat d.toNat with less | same | more
    · rw [Nat.compare_eq_lt.mpr less]
      exact List.cons_lt_cons_iff.mpr (Or.inl less)
    · obtain rfl : c = d := Char.toNat_inj.mp same
      rw [Nat.compare_eq_eq.mpr rfl]
      rw [Ordering.eq_then]
      cases order : strcmp s t with
      | lt =>
        rw [order] at ih
        exact List.cons_lt_cons_iff.mpr (Or.inr ⟨rfl, ih⟩)
      | eq =>
        rw [order] at ih
        exact congrArg (c :: ·) ih
      | gt =>
        rw [order] at ih
        exact List.cons_lt_cons_iff.mpr (Or.inr ⟨rfl, ih⟩)
    · rw [Nat.compare_eq_gt.mpr more]
      exact List.cons_lt_cons_iff.mpr (Or.inl more)

theorem strcmp_eq_iff (s t : Text) : strcmp s t = .eq ↔ s = t := by
  have order := strcmp_compares s t
  constructor
  · intro same
    rw [same] at order
    exact order
  · rintro rfl
    exact Ordering.Compares.inj order rfl

theorem strcmp_swap (s t : Text) : (strcmp s t).swap = strcmp t s :=
  Ordering.Compares.inj (Ordering.compares_swap.mpr (strcmp_compares s t)) (strcmp_compares t s)

/-- What is appended to a buffer that already holds a cut text is cut with it. -/
theorem snprcat_take (size : Nat) (text printed : Text) :
    snprcat (text.take (size - 1)) size printed = (text ++ printed).take (size - 1) := by
  unfold snprcat
  rcases Nat.le_total text.length (size - 1) with fits | full
  · rw [List.take_of_length_le fits, List.take_append, List.take_append, List.take_take]
    congr 2
    omega
  · have nothing : size - (text.take (size - 1)).length - 1 = 0 := by
      rw [List.length_take]
      omega
    rw [nothing, List.take_zero, List.append_nil, List.take_take, Nat.min_self,
      List.take_append_of_le_length full]

theorem snprcat_nil (size : Nat) (printed : Text) :
    snprcat [] size printed = printed.take (size - 1) := by
  simpa using snprcat_take size [] printed

end MrBig.Source
