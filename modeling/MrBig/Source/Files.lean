import MrBig.Library.KeyedList
import MrBig.Source.CString

/-!
# The files the agent reads and writes

A file is its name and the characters its text-mode stream delivers; the line-end
translation of the C runtime is below this model. `fopen` for writing truncates, and
`fwrite`, `fclose`, `remove` and `rename` succeed. `FileSys.read` is `fopen` where the C runtime
has a stream to give; `fopenRead` counts the streams.
-/

set_option autoImplicit false

namespace MrBig.Source
open Library

structure File where
  name : Text
  content : Text
  deriving DecidableEq, Repr

def File.extend (data : Text) (f : File) : File := { f with content := f.content ++ data }

theorem File.extend_name {data name : Text} (f : File) (same : f.name = name) :
    (f.extend data).name = name := same

abbrev FileSys := List File

/-- `fopen` for reading of a file that holds `there`, if it is there: the C runtime has `limit`
streams, of which `opened` are taken. -/
def fopenRead (limit opened : Nat) (there : Option Text) : Option Text :=
  if opened < limit then there else none

namespace FileSys

variable (files : FileSys) (name : Text)

/-- The content of a file, if `fopen` for reading finds it. -/
def read : Option Text := (KeyedList.find File.name name files).map File.content

/-- `fopen` in mode "w". -/
def create : FileSys := ⟨name, []⟩ :: KeyedList.remove File.name name files

def append (data : Text) : FileSys := KeyedList.modify File.name name (File.extend data) files

def remove : FileSys := KeyedList.remove File.name name files

/-- `rename` to a name that no file has. -/
def rename (new : Text) : FileSys :=
  match read files name with
  | none => files
  | some content => ⟨new, content⟩ :: KeyedList.remove File.name name files

variable {files name}

theorem mem_of_read {content : Text} (there : read files name = some content) :
    ⟨name, content⟩ ∈ files := by
  obtain ⟨file, found, rfl⟩ := Option.map_eq_some_iff.mp there
  obtain ⟨inside, rfl⟩ := KeyedList.mem_of_find found
  exact inside

theorem read_create_self : read (create files name) name = some [] := by
  simp [read, create, KeyedList.find]

theorem read_create_other {other : Text} (different : other ≠ name) :
    read (create files name) other = read files other := by
  rw [read, create, KeyedList.find_cons_of_ne _ (Ne.symm different),
    KeyedList.find_remove_of_ne different]
  rfl

theorem read_append_self (data : Text) :
    read (append files name data) name = (read files name).map (· ++ data) := by
  rw [read, append, KeyedList.find_modify_self File.extend_name, read, Option.map_map,
    Option.map_map]
  rfl

theorem read_append_other {other : Text} (data : Text) (different : other ≠ name) :
    read (append files name data) other = read files other := by
  rw [read, append, KeyedList.find_modify_of_ne File.extend_name different]
  rfl

theorem read_remove_other {other : Text} (different : other ≠ name) :
    read (remove files name) other = read files other := by
  rw [read, remove, KeyedList.find_remove_of_ne different]
  rfl

theorem read_remove_self (files : FileSys) (name : Text) :
    read (remove files name) name = none := by
  rw [read, remove, Option.map_eq_none_iff, KeyedList.find_eq_none_iff]
  intro inside
  obtain ⟨file, kept, same⟩ := List.mem_map.mp inside
  exact (KeyedList.mem_remove.mp kept).2 same

theorem read_rename_new {new content : Text} (there : read files name = some content) :
    read (rename files name new) new = some content := by
  rw [rename, there]
  simp [read, KeyedList.find]

end FileSys

end MrBig.Source
