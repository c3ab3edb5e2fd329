import Mathlib.Data.Tree.Basic
import MrBig.Source.CString

/-!
# The numbers of the updates

clientlog/kbs.c:17-166. A title is an array of `wchar_t`, which have 16 bits, and it is read as an
array of bytes, every second one of them. The numbers found are kept in a tree.
-/

set_option autoImplicit false

namespace MrBig.Source.Kbs

/-- A title in front of its terminator. -/
structure WideString where
  units : List UInt16
  nonzero : ∀ u ∈ units, u ≠ 0

/-- The bytes at the even places, with that of the terminator. -/
def titleBytes (title : WideString) : List Nat :=
  title.units.map (fun u => u.toNat % 256) ++ [0]

def isDigit (c : Nat) : Bool := '0'.toNat ≤ c && c ≤ '9'.toNat

/-- The inner loop; nothing where a byte behind the list is read. -/
def digitsLoop (res : UInt32) : List Nat → Option UInt32
  | [] => none
  | c :: rest =>
    if isDigit c then digitsLoop (res * 10 + UInt32.ofNat (c - '0'.toNat)) rest else some res

/-- The outer loop, from the byte at `i` on. -/
def kbLoop : List Nat → Option UInt32
  | [] => none
  | c :: rest =>
    if c = 0 then some 0
    else if c ≠ 'K'.toNat then kbLoop rest
    else
      match rest with
      | [] => none
      | c :: rest =>
        if c ≠ 'B'.toNat then kbLoop rest
        else
          match rest with
          | [] => none
          | c :: rest => if isDigit c then digitsLoop 0 (c :: rest) else kbLoop (c :: rest)

/-- kbs_ExtractKBNumber; nothing where an element behind the terminator is read. -/
def extractKBNumber (title : WideString) : Option UInt32 := kbLoop (titleBytes title)

/-! ### The list of updates -/

/-- kbs_InsertKB: a value that is there already is dropped. -/
def insertKB (value : Nat) : BinaryTree Nat → BinaryTree Nat
  | .nil => .node value .nil .nil
  | .node root left right =>
    if value < root then .node root (insertKB value left) right
    else if value > root then .node root left (insertKB value right)
    else .node root left right

/-- The line of a number; `%lu` prints a DWORD whole. -/
def kbLine (value : Nat) : Text := "\nKB".toList ++ (toString value).toList

/-- kbs_appendKBs, with an empty tree where it is not called. -/
def appendKBs : BinaryTree Nat → Text
  | .nil => []
  | .node root left right => appendKBs left ++ kbLine root ++ appendKBs right

/-- The body of the loop over the updates; nothing where the title is read behind its end. -/
def kbItem (kbs : BinaryTree Nat) (title : WideString) : Option (BinaryTree Nat) :=
  (extractKBNumber title).map fun kb => if kb ≠ 0 then insertKB kb.toNat kbs else kbs

/-- What the COM calls of clog_kbs come to: they cannot be initialized, one of them fails or there
are no updates, or the titles of the updates. -/
inductive KbSearch where
  | noCOM
  | nothing
  | updates (titles : List WideString)

def clogKbs : KbSearch → Option Text
  | .noCOM => some "[kbs](Unable to initialize COM)".toList
  | .nothing => some "[kbs](No KBs found)".toList
  | .updates titles => do
    let kbs ← titles.foldlM kbItem .nil
    match kbs with
    | .nil => some "[kbs](No KBs found)".toList
    | .node .. => some ("[kbs]".toList ++ appendKBs kbs)

end MrBig.Source.Kbs
