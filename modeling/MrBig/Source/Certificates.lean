import MrBig.Source.Arena

/-!
# The purposes of a certificate

certificates_PrettyEKUPurposes of clientlog/certificates.c. The memory is addressed from `out`
on; `written` and `i` are DWORDs, `outSize` is a size_t.
-/

set_option autoImplicit false

namespace MrBig.Source.Certificates
open Library Library.Memory Library.Word

/-- What certificates_GetEKUPurposes makes: strings in an arena, where the length of them all is
far below that of an int. -/
structure EKUPurposes where
  purposes : List Text
  noNul : ∀ purpose ∈ purposes, nul ∉ purpose
  room : (joined ',' purposes).length < 2 ^ 31

/-- The variables of the loop, and the memory behind `out`. -/
structure Written where
  i : Nat
  written : Nat
  out : Nat → Char

/-- `if (i != 0 && outSize - written > 1) out[written++] = ','`. -/
def writeComma (outSize : Nat) (s : Written) : Written :=
  if s.i ≠ 0 ∧ wrap 64 (outSize - s.written) > 1 then
    { s with written := wrap 32 (s.written + 1), out := store s.out s.written [','] }
  else s

/-- `written += snprintf(&out[written], outSize - written, "%s", eku[i++])`. -/
def writePurpose (outSize : Nat) (s : Written) (eku : Text) : Written where
  i := wrap 32 (s.i + 1)
  written := wrap 32 (s.written + eku.length)
  out := vsnprintf s.out s.written (wrap 64 (outSize - s.written)) eku

def writeNext (outSize : Nat) (s : Written) (eku : Text) : Written :=
  writePurpose outSize (writeComma outSize s) eku

/-- certificates_PrettyEKUPurposes. -/
def prettyEKUPurposes (eku : Option EKUPurposes) (outSize : Nat) (out : Nat → Char) :
    Nat → Char :=
  match eku with
  | some eku => (eku.purposes.foldl (writeNext outSize) ⟨0, 0, out⟩).out
  | none => vsnprintf out 0 outSize "None".toList

end MrBig.Source.Certificates
