import MrBig.Source.ConfigStore

/-!
# The store is a list of lines per section, with a capacity

The text of a section is the framed list of the lines added under its name, cut after
`CFG_MAX - 1` bytes (`sectionText_addAll`). `get_cfg` therefore finds again exactly the
lines that fitted with their newline.
-/

set_option autoImplicit false

namespace MrBig.Guarantees.ConfigStore
open Library Source

/-- The lines added under a name, in order. -/
def linesOf (name : Text) (adds : List Add) : List Text :=
  (adds.filter fun a => a.1 = name).map Prod.snd

theorem linesOf_concat (name : Text) (adds : List Add) (a : Add) :
    linesOf name (adds ++ [a]) = linesOf name adds ++ if a.1 = name then [a.2] else [] := by
  unfold linesOf
  rw [List.filter_append, List.map_append]
  by_cases same : a.1 = name <;> simp [same]

/-- The store refines the lists of lines: each section holds its framed lines, cut at
the capacity. -/
theorem sectionText_addAll {conf : List Config} {name : Text}
    (fresh : sectionText conf name = []) (adds : List Add) :
    sectionText (addAll conf adds) name =
      (Delimited.frame '\n' (linesOf name adds)).take (cfgMax - 1) := by
  induction adds using List.reverseRecOn with
  | nil => exact fresh
  | append_singleton adds a ih =>
    rw [linesOf_concat, addAll, List.foldl_append, List.foldl_cons, List.foldl_nil]
    by_cases same : a.1 = name
    · rw [if_pos same, Delimited.frame_concat, ← same, sectionText_addCfg_self, same,
        ← snprcat_take cfgMax]
      exact congrArg (fun text => snprcat text cfgMax (a.2 ++ ['\n'])) ih
    · rw [if_neg same, List.append_nil, sectionText_addCfg_other _ _ (Ne.symm same)]
      exact ih

/-- From the empty store, with `k` the largest number of leading lines of the section
that fit with their newlines into `CFG_MAX - 1` bytes: `get_cfg` returns 0 exactly from
line `k` on, and before it stores the first `n - 1` characters of the line and says by
2 or 1 whether the buffer was too short. -/
theorem get_cfg_lines (adds : List Add) (plain : ∀ a ∈ adds, '\n' ∉ a.2) (name : Text) :
    ∃ k, IsGreatest {j | j ≤ (linesOf name adds).length ∧
        (((linesOf name adds).take j).map (·.length + 1)).sum ≤ cfgMax - 1} k ∧
      ∀ n i, 1 ≤ n →
        ((getCfg (addAll [] adds) name n i).1 = 0 ↔ k ≤ i) ∧
        ∀ line, i < k → (linesOf name adds)[i]? = some line →
          getCfg (addAll [] adds) name n i =
            (if n ≤ line.length then 2 else 1, some (line.take (min line.length (n - 1)))) := by
  refine ⟨_, Delimited.fitting_isGreatest (cfgMax - 1) (linesOf name adds), fun n i room => ?_⟩
  have linesPlain : ∀ line ∈ linesOf name adds, '\n' ∉ line := by
    intro line member
    obtain ⟨a, inAdds, rfl⟩ := List.mem_map.mp member
    exact plain a (List.mem_filter.mp inAdds).1
  rw [getCfg_sectionText, sectionText_addAll rfl, Delimited.nth_take_frame _ _ linesPlain]
  by_cases fits : i < Delimited.fitting (cfgMax - 1) (linesOf name adds)
  · have inside : i < (linesOf name adds).length :=
      Nat.lt_of_lt_of_le fits (Delimited.fitting_isGreatest (cfgMax - 1) (linesOf name adds)).1.1
    rw [if_pos fits, List.getElem?_eq_getElem inside]
    refine ⟨?_, fun line _ isLine => ?_⟩
    · have returns : ∀ p : Text, (if p.length ≥ n then (2, some (p.take (n - 1)))
          else (1, some p)).1 ≠ 0 := by
        intro p
        split <;> simp
      exact ⟨fun zero => absurd zero (returns _), fun beyond => absurd fits (by omega)⟩
    · obtain rfl := Option.some.inj isLine
      dsimp only
      split
      next long => rw [Nat.min_eq_right (by omega)]
      next short => rw [Nat.min_eq_left (by omega), List.take_length]
  · rw [if_neg fits]
    exact ⟨⟨fun _ => by omega, fun _ => rfl⟩, fun line inside => absurd inside fits⟩

/-- Two sections, their lines added in turn. -/
def twoSections : List Add :=
  [("mrbig".toList, "sleep 60".toList), ("proc".toList, "notepad.exe".toList),
    ("mrbig".toList, "loop 20".toList)]

theorem get_cfg_lines_twoSections :
    ∃ k, IsGreatest {j | j ≤ (linesOf "mrbig".toList twoSections).length ∧
        (((linesOf "mrbig".toList twoSections).take j).map (·.length + 1)).sum ≤ cfgMax - 1} k ∧
      ∀ n i, 1 ≤ n →
        ((getCfg (addAll [] twoSections) "mrbig".toList n i).1 = 0 ↔ k ≤ i) ∧
        ∀ line, i < k → (linesOf "mrbig".toList twoSections)[i]? = some line →
          getCfg (addAll [] twoSections) "mrbig".toList n i =
            (if n ≤ line.length then 2 else 1, some (line.take (min line.length (n - 1)))) :=
  get_cfg_lines twoSections (by decide) "mrbig".toList

end MrBig.Guarantees.ConfigStore
