import MrBig.Library.Delimited
import MrBig.Source.CString

/-!
# A status text as the display takes it apart

`status [machine],[domain],[tld].[test] [colour] [message]`: the machine ends at the first dot,
the test and the colour at a blank, and the rest is the message.
-/

set_option autoImplicit false

namespace MrBig.Abstract
open Library Source

structure StatusLine where
  machine : Text
  test : Text
  color : Text
  message : Text
  deriving DecidableEq, Repr

namespace StatusLine

/-- What stands before the message. -/
def header (l : StatusLine) : Text :=
  "status ".toList ++ (l.machine ++ '.' :: (l.test ++ ' ' :: (l.color ++ [' '])))

def print (l : StatusLine) : Text := l.header ++ l.message

def parse (text : Text) : Option StatusLine :=
  if "status ".toList <+: text then do
    let (machine, rest) ← Delimited.cut '.' (text.drop 7)
    let (test, rest) ← Delimited.cut ' ' rest
    let (color, message) ← Delimited.cut ' ' rest
    some ⟨machine, test, color, message⟩
  else none

/-- The parts do not contain what ends them. -/
structure Plain (l : StatusLine) : Prop where
  machine : '.' ∉ l.machine
  test : ' ' ∉ l.test
  color : ' ' ∉ l.color

theorem print_eq (l : StatusLine) :
    l.print = "status ".toList ++
      (l.machine ++ '.' :: (l.test ++ ' ' :: (l.color ++ ' ' :: l.message))) := by
  unfold print header
  generalize "status ".toList = key
  simp

theorem length_header (l : StatusLine) :
    l.header.length = 10 + l.machine.length + l.test.length + l.color.length := by
  have size : "status ".toList.length = 7 := rfl
  unfold header
  generalize "status ".toList = key at size ⊢
  simp only [List.length_append, List.length_cons, List.length_nil, size]
  omega

theorem parse_print {l : StatusLine} (plain : l.Plain) : parse l.print = some l := by
  have begins : "status ".toList <+: l.print := by
    rw [print_eq]
    exact List.prefix_append _ _
  have rest : l.print.drop 7 =
      l.machine ++ '.' :: (l.test ++ ' ' :: (l.color ++ ' ' :: l.message)) := by
    rw [print_eq]
    exact List.drop_left' (by decide)
  rw [parse, if_pos begins, rest]
  simp only [Delimited.cut_append plain.machine, Delimited.cut_append plain.test,
    Delimited.cut_append plain.color, Option.bind_eq_bind, Option.bind_some]

theorem of_parse {text : Text} {l : StatusLine} (read : parse text = some l) :
    text = l.print ∧ l.Plain := by
  unfold parse at read
  by_cases begins : "status ".toList <+: text
  · rw [if_pos begins] at read
    obtain ⟨⟨machine, afterMachine⟩, first, read⟩ := Option.bind_eq_some_iff.mp read
    obtain ⟨⟨test, afterTest⟩, second, read⟩ := Option.bind_eq_some_iff.mp read
    obtain ⟨⟨color, message⟩, third, read⟩ := Option.bind_eq_some_iff.mp read
    obtain rfl := Option.some.inj read
    obtain ⟨split, plainMachine⟩ := Delimited.eq_of_cut first
    obtain ⟨split', plainTest⟩ := Delimited.eq_of_cut second
    obtain ⟨split'', plainColor⟩ := Delimited.eq_of_cut third
    obtain ⟨tail, whole⟩ := begins
    refine ⟨?_, plainMachine, plainTest, plainColor⟩
    have dropped : text.drop 7 = tail := by
      rw [← whole]
      exact List.drop_left' (by decide)
    rw [print_eq, ← whole, ← dropped, split, split', split'']
  · rw [if_neg begins] at read
    cases read

/-- Exactly the lines whose parts do not contain what ends them are read back. -/
theorem parse_eq_some_iff {text : Text} {l : StatusLine} :
    parse text = some l ↔ text = l.print ∧ l.Plain := by
  refine ⟨of_parse, fun printed => ?_⟩
  obtain ⟨rfl, plain⟩ := printed
  exact parse_print plain

/-- A text that was cut off is no other status: what is read from it has lost part of the message
at most. -/
theorem parse_of_prefix {text : Text} {l m : StatusLine} (plain : m.Plain)
    (cut : text <+: m.print) (read : parse text = some l) :
    l.machine = m.machine ∧ l.test = m.test ∧ l.color = m.color ∧ l.message <+: m.message := by
  obtain ⟨tail, whole⟩ := cut
  obtain ⟨rfl, plain'⟩ := of_parse read
  let completed : StatusLine := { l with message := l.message ++ tail }
  have printed : completed.print = m.print := by
    rw [← whole]
    exact (List.append_assoc l.header l.message tail).symm
  have both := parse_print (l := completed) ⟨plain'.machine, plain'.test, plain'.color⟩
  rw [printed, parse_print plain] at both
  obtain rfl := Option.some.inj both
  exact ⟨rfl, rfl, rfl, l.message.prefix_append tail⟩

end StatusLine

end MrBig.Abstract
