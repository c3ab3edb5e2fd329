import MrBig.Source.CString

/-!
# The gracetime and option lists of mrbig.c

Both are linked lists that `readcfg` empties and refills at the head.
-/

set_option autoImplicit false

namespace MrBig.Source

/-- struct gracetime without its link. -/
structure GraceTime where
  test : Text
  grace : Int
  deriving DecidableEq, Repr

def insertGrace (gracetime : List GraceTime) (test : Text) (grace : Int) : List GraceTime :=
  ⟨test, grace⟩ :: gracetime

def lookupGrace : List GraceTime → Text → Int
  | [], _ => 0
  | gt :: rest, test => if test = gt.test then gt.grace else lookupGrace rest test

def insertOption (options : List Text) (name : Text) : List Text := name :: options

/-- `get_option(n, partial)`: the first option named `n`, or, where the start of the name
is enough, the first that starts with `n`. -/
def getOption (options : List Text) (n : Text) (startOnly : Bool) : Option Text :=
  options.find? fun name => (startOnly && n.isPrefixOf name) || n == name

end MrBig.Source
