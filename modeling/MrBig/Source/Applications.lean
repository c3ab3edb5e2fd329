import MrBig.Library.SearchTree
import MrBig.Source.ClientlogModules

/-!
# The installed applications

clientlog/applications.c with clog_utils_ClampString. A node of the tree is its address and its
value; a text is what the array it is kept in holds up to the NUL.
-/

set_option autoImplicit false

namespace MrBig.Source.Applications
open Library

/-- applications_Arch. -/
inductive Arch where
  | x86_32
  | x86_64
  deriving DecidableEq, Repr

def Arch.value : Arch → Nat
  | .x86_32 => 0
  | .x86_64 => 1

def prettyArch (a : Arch) : Text := if a = .x86_32 then "x86-32".toList else "x64".toList

/-- applications_Application. -/
structure Application where
  name : Text
  version : Text
  publisher : Text
  architecture : Arch
  deriving DecidableEq, Repr

def maxApplicationName : Nat := 64
def maxApplicationVersion : Nat := 64
def maxApplicationPublisher : Nat := 64

/-- MAX_APPLICATIONS_ROW_SIZE. -/
def maxApplicationsRowSize : Nat :=
  16 + maxApplicationName + maxApplicationVersion + maxApplicationPublisher

/-- applications_PrettyApplication. -/
def prettyApplication (a : Application) : Text :=
  (a.name ++ '\t' :: a.version ++ '\t' :: a.publisher ++ '\t' :: prettyArch a.architecture).take
    (maxApplicationsRowSize - 1)

/-! ### The tree -/

/-- A node of applications_ApplicationTree without its children. -/
structure Node where
  address : Nat
  value : Application
  deriving DecidableEq, Repr

abbrev ApplicationTree := BinaryTree Node

/-- The sign of `tComp`. -/
def tComp (t root : Application) : Ordering :=
  (strncmp t.name root.name maxApplicationName).then
    (compare t.architecture.value root.architecture.value)

/-- applications_TreeInsert. -/
def treeInsert : ApplicationTree → Node → ApplicationTree
  | .nil, t => .node t .nil .nil
  | .node root left right, t =>
    match tComp t.value root.value with
    | .lt => .node root (treeInsert left t) right
    | .gt => .node root left (treeInsert right t)
    | .eq =>
      match left with
      | .nil => .node root (.node t .nil .nil) right
      | .node _ _ _ => .node root left (treeInsert right t)

/-- applications_TreeTraverseAppend: the texts it appends. -/
def treeTraverseAppend : ApplicationTree → List Text
  | .nil => []
  | .node t left right =>
    treeTraverseAppend left ++ ('\n' :: prettyApplication t.value) :: treeTraverseAppend right

/-! ### The keys of the registry -/

/-- clog_utils_ClampString. -/
def clampString (str : Text) (outSize : Nat) : Text :=
  if str.length ≥ outSize ∧ outSize > 7 then str.take (outSize - 3) ++ "..".toList
  else if str.length = 0 then ['-']
  else str.take (outSize - 1)

/-- A key below Uninstall with the values that can be read, and the address that the arena has
for a node. -/
structure UninstallKey where
  regKeyName : Text
  displayName : Option Text
  displayVersion : Option Text
  publisher : Option Text
  address : Nat

/-- The node that is made of a key. -/
def UninstallKey.app (arch : Arch) (key : UninstallKey) : Node where
  address := key.address
  value :=
    { name := clampString (key.displayName.getD key.regKeyName) maxApplicationName
      version := clampString (key.displayVersion.getD ['-']) maxApplicationVersion
      publisher := clampString (key.publisher.getD ['-']) maxApplicationPublisher
      architecture := arch }

def UninstallKey.listed (key : UninstallKey) : Bool :=
  key.displayVersion.isSome || key.publisher.isSome

/-- applications_InsertApplications; nothing where the root key cannot be opened. -/
def insertApplications (root : ApplicationTree) (arch : Arch) :
    Option (List UninstallKey) → ApplicationTree
  | none => root
  | some keys =>
    keys.foldl (fun root key => if key.listed then treeInsert root (key.app arch) else root) root

/-- The texts that clog_applications appends. -/
def applicationsText (x86_32 x86_64 : Option (List UninstallKey)) : List Text :=
  let applications := insertApplications .nil .x86_32 x86_32
  let applications := insertApplications applications .x86_64 x86_64
  "[applications]".toList ::
  match applications with
  | .nil => ["\n(No applications found)".toList]
  | .node _ _ _ => treeTraverseAppend applications

end MrBig.Source.Applications
