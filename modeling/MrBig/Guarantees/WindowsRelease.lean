import Mathlib.Order.Compare
import MrBig.Library.Halving
import MrBig.Source.OsVersion

/-!
# The release that a build number stands for

The search leaves a compared entry out when it goes on above it. A build between two entries
belongs to the lower one and is found only where the search never compares with that entry; a
build above the last entry ends behind the table.
-/

set_option autoImplicit false

namespace MrBig.Guarantees.WindowsRelease
open Library.Halving Source Source.OsVersion

/-- The place of the entry with the greatest build number not above the build, or of the first
entry if the build is below them all. -/
structure IsRelease (versionList : List WindowsVersion) (build i : Nat) : Prop where
  inside : i < versionList.length
  release : (∃ v, versionList[i]? = some v ∧ v.buildNumber ≤ build ∧
      ∀ w ∈ versionList, w.buildNumber ≤ build → w.buildNumber ≤ v.buildNumber) ∨
    i = 0 ∧ ∀ w ∈ versionList, build < w.buildNumber

/-- The build is above the entry and below the next one, if there is one. -/
def Between (versionList : List WindowsVersion) (build i : Nat) : Prop :=
  ∃ v, versionList[i]? = some v ∧ v.buildNumber < build ∧
    ∀ w, versionList[i + 1]? = some w → build < w.buildNumber

/-! ### The loop is the search of the library -/

/-- How the build compares with an entry. -/
def buildOrder (versionList : List WindowsVersion) (build i : Nat) : Ordering :=
  (versionList[i]?).elim .lt fun v => compare build v.buildNumber

theorem searchLoop_eq (versionList : List WindowsVersion) (build : Nat)
    (s : Search versionList.length) :
    (searchLoop versionList build s).nCurr =
      halve (buildOrder versionList build) s.nLow s.nHigh := by
  have order : ∀ {i : Nat} (within : i < versionList.length),
      buildOrder versionList build i = compare build versionList[i].buildNumber := by
    intro i within
    rw [buildOrder, List.getElem?_eq_getElem within, Option.elim_some]
  fun_induction searchLoop versionList build s with
  | case1 s more within less ih =>
    have smaller : buildOrder versionList build ((s.nLow + s.nHigh) / 2) = .lt := by
      rw [← s.middle, order within]
      exact compare_lt_iff_lt.mpr less
    rw [ih, halve_below (by omega) smaller, ← s.middle]
  | case2 s more within notLess larger ih =>
    have greater : buildOrder versionList build ((s.nLow + s.nHigh) / 2) = .gt := by
      rw [← s.middle, order within]
      exact compare_gt_iff_gt.mpr larger
    rw [ih, halve_above (by omega) greater, ← s.middle]
  | case3 s more within notLess notMore =>
    have same : buildOrder versionList build ((s.nLow + s.nHigh) / 2) = .eq := by
      rw [← s.middle, order within]
      exact compare_eq_iff_eq.mpr (Nat.le_antisymm (Nat.le_of_not_lt notMore)
        (Nat.le_of_not_lt notLess))
    rw [halve_here (by omega) same, s.middle]
  | case4 s small => rw [halve_small (by omega), s.middle]

theorem search_eq (versionList : List WindowsVersion) (build : Nat) :
    search versionList build =
      halve (buildOrder versionList build) 0 versionList.length :=
  searchLoop_eq versionList build (startSearch versionList.length)

/-! ### The entries not above the build -/

/-- How many entries lead that are not above the build. -/
def notAbove (versionList : List WindowsVersion) (build : Nat) : Nat :=
  versionList.findIdx fun v => decide (build < v.buildNumber)

section

variable (table : VersionTable) (build : Nat)

theorem notAbove_le : notAbove table.entries build ≤ table.entries.length :=
  List.findIdx_le_length

theorem le_of_lt_notAbove {i : Nat} (within : i < table.entries.length)
    (low : i < notAbove table.entries build) : table.entries[i].buildNumber ≤ build := by
  simpa using List.not_of_lt_findIdx low

theorem lt_of_notAbove_le {i : Nat} (within : i < table.entries.length)
    (high : notAbove table.entries build ≤ i) : build < table.entries[i].buildNumber := by
  have inside : notAbove table.entries build < table.entries.length := by omega
  have first : build < table.entries[notAbove table.entries build].buildNumber :=
    of_decide_eq_true (List.findIdx_getElem (w := inside))
  rcases Nat.lt_or_eq_of_le high with less | same
  · exact Nat.lt_trans first (List.pairwise_iff_getElem.mp table.sorted _ i inside within less)
  · simpa only [same] using first

/-- The release is the last of them, or the first entry if there is none. -/
theorem isRelease_iff (i : Nat) :
    IsRelease table.entries build i ↔
      i + 1 = notAbove table.entries build ∨ i = 0 ∧ notAbove table.entries build = 0 := by
  have size := notAbove_le table build
  constructor
  · intro release
    have inside := release.inside
    rcases release.release with ⟨v, placed, low, greatest⟩ | ⟨rfl, all⟩
    · rw [List.getElem?_eq_getElem inside] at placed
      obtain rfl := Option.some.inj placed
      have below : i < notAbove table.entries build := by
        by_contra high
        have above := lt_of_notAbove_le table build inside (Nat.le_of_not_lt high)
        omega
      left
      by_contra more
      have next : i + 1 < table.entries.length := by omega
      have low' := le_of_lt_notAbove table build next (by omega)
      have rises := List.pairwise_iff_getElem.mp table.sorted i (i + 1) inside next (by omega)
      have most := greatest _ (List.getElem_mem next) low'
      omega
    · right
      refine ⟨rfl, ?_⟩
      by_contra notEmpty
      have low := le_of_lt_notAbove table build inside (Nat.pos_of_ne_zero notEmpty)
      have high := all _ (List.getElem_mem inside)
      omega
  · intro place
    rcases place with last | ⟨rfl, nothing⟩
    · have inside : i < table.entries.length := by omega
      refine ⟨inside, Or.inl ⟨table.entries[i], List.getElem?_eq_getElem inside,
        le_of_lt_notAbove table build inside (by omega), ?_⟩⟩
      intro w member low
      obtain ⟨j, within, rfl⟩ := List.mem_iff_getElem.mp member
      have below : j ≤ i := by
        by_contra high
        have above := lt_of_notAbove_le table build within (by omega)
        omega
      rcases Nat.lt_or_eq_of_le below with less | rfl
      · exact Nat.le_of_lt (List.pairwise_iff_getElem.mp table.sorted j i within inside less)
      · exact Nat.le_refl _
    · refine ⟨List.length_pos_of_ne_nil table.nonempty, Or.inr ⟨rfl, ?_⟩⟩
      intro w member
      obtain ⟨j, within, rfl⟩ := List.mem_iff_getElem.mp member
      exact lt_of_notAbove_le table build within (by omega)

/-- A build between two entries is above exactly those up to the lower one, and equals none. -/
theorem between_iff (i : Nat) :
    Between table.entries build i ↔
      i + 1 = notAbove table.entries build ∧ ∀ v ∈ table.entries, v.buildNumber ≠ build := by
  have size := notAbove_le table build
  constructor
  · intro between
    obtain ⟨v, placed, less, next⟩ := between
    obtain ⟨inside, rfl⟩ := List.getElem?_eq_some_iff.mp placed
    have low : i < notAbove table.entries build := by
      by_contra high
      have above := lt_of_notAbove_le table build inside (Nat.le_of_not_lt high)
      omega
    have last : i + 1 = notAbove table.entries build := by
      by_contra more
      have within : i + 1 < table.entries.length := by omega
      have above := next _ (List.getElem?_eq_getElem within)
      have below := le_of_lt_notAbove table build within (by omega)
      omega
    refine ⟨last, ?_⟩
    intro w member same
    obtain ⟨j, within, rfl⟩ := List.mem_iff_getElem.mp member
    rcases Nat.lt_trichotomy j i with before | rfl | behind
    · have rises := List.pairwise_iff_getElem.mp table.sorted j i within inside before
      omega
    · omega
    · have above := lt_of_notAbove_le table build within (by omega)
      omega
  · intro parts
    have inside : i < table.entries.length := by omega
    have low := le_of_lt_notAbove table build inside (by omega)
    have other := parts.2 _ (List.getElem_mem inside)
    refine ⟨table.entries[i], List.getElem?_eq_getElem inside, by omega, ?_⟩
    intro w next
    obtain ⟨within, rfl⟩ := List.getElem?_eq_some_iff.mp next
    exact lt_of_notAbove_le table build within (by omega)

theorem buildOrder_above {i : Nat} (within : i < table.entries.length)
    (high : notAbove table.entries build ≤ i) : buildOrder table.entries build i = .lt := by
  rw [buildOrder, List.getElem?_eq_getElem within]
  exact compare_lt_iff_lt.mpr (lt_of_notAbove_le table build within high)

theorem buildOrder_below {i : Nat} (low : i < notAbove table.entries build)
    (other : table.entries[i]?.map WindowsVersion.buildNumber ≠ some build) :
    buildOrder table.entries build i = .gt := by
  have within : i < table.entries.length := Nat.lt_of_lt_of_le low (notAbove_le table build)
  have atMost := le_of_lt_notAbove table build within low
  rw [List.getElem?_eq_getElem within, Option.map_some, Ne, Option.some.injEq] at other
  rw [buildOrder, List.getElem?_eq_getElem within]
  exact compare_gt_iff_gt.mpr (Nat.lt_of_le_of_ne atMost other)

end

/-- A build that an entry has is found. -/
theorem found_of_mem (table : VersionTable) (build : Nat)
    (member : ∃ v ∈ table.entries, v.buildNumber = build) :
    IsRelease table.entries build (search table.entries build) := by
  obtain ⟨v, member, same⟩ := member
  obtain ⟨k, within, rfl⟩ := List.mem_iff_getElem.mp member
  have low : k < notAbove table.entries build := by
    by_contra high
    have above := lt_of_notAbove_le table build within (Nat.le_of_not_lt high)
    omega
  have last : k + 1 = notAbove table.entries build := by
    by_contra more
    have size := notAbove_le table build
    have next : k + 1 < table.entries.length := by omega
    have below := le_of_lt_notAbove table build next (by omega)
    have rises := List.pairwise_iff_getElem.mp table.sorted k (k + 1) within next (by omega)
    omega
  have here : buildOrder table.entries build k = .eq := by
    rw [buildOrder, List.getElem?_eq_getElem within]
    exact compare_eq_iff_eq.mpr same.symm
  have below : ∀ i < k, buildOrder table.entries build i = .gt := by
    intro i before
    have inside : i < table.entries.length := by omega
    refine buildOrder_below table build (by omega) ?_
    rw [List.getElem?_eq_getElem inside]
    have rises := List.pairwise_iff_getElem.mp table.sorted i k inside within before
    intro equal
    have equal' : table.entries[i].buildNumber = build := Option.some.inj equal
    omega
  have above : ∀ i, k < i → i < table.entries.length →
      buildOrder table.entries build i = .lt := by
    intro i behind inside
    exact buildOrder_above table build inside (by omega)
  rw [search_eq, isRelease_iff, halve_of_eq ⟨Nat.zero_le k, within⟩ here below above]
  exact Or.inl last

/-- Where no entry has the build, the search is one for the last entry below it. -/
theorem found_iff_of_notMem (table : VersionTable) (build : Nat)
    (other : ∀ v ∈ table.entries, v.buildNumber ≠ build) :
    IsRelease table.entries build (search table.entries build) ↔
      ∀ i, i + 1 = notAbove table.entries build → ¬ Picked table.entries.length i := by
  have size := notAbove_le table build
  have above : ∀ i, notAbove table.entries build ≤ i → i < table.entries.length →
      buildOrder table.entries build i = .lt :=
    fun i behind inside => buildOrder_above table build inside behind
  rw [search_eq, isRelease_iff]
  rcases Nat.eq_zero_or_pos (notAbove table.entries build) with nothing | notEmpty
  · have first := halve_of_lt (Nat.zero_le table.entries.length)
      fun i _ inside => above i (by omega) inside
    exact iff_of_true (Or.inr ⟨first, nothing⟩) fun i last => by omega
  · have below : ∀ i < notAbove table.entries build,
        buildOrder table.entries build i = .gt := by
      intro i low
      refine buildOrder_below table build low ?_
      have inside : i < table.entries.length := by omega
      rw [List.getElem?_eq_getElem inside]
      exact fun equal => other _ (List.getElem_mem inside) (Option.some.inj equal)
    rw [or_iff_left fun parts => Nat.ne_of_gt notEmpty parts.2,
      halve_between ⟨Nat.zero_le _, size⟩ below above, and_iff_right notEmpty]
    constructor
    · intro apart i last
      rwa [← last, Nat.add_sub_cancel, Nat.sub_zero, Nat.sub_zero] at apart
    · intro apart
      exact apart _ (by omega)

/-- The search finds the release if and only if the build is not between an entry that halving
the table compares with and the next one. -/
theorem release_found_iff (table : VersionTable) (build : Nat) :
    IsRelease table.entries build (search table.entries build) ↔
      ∀ i, Between table.entries build i → ¬ Picked table.entries.length i := by
  by_cases other : ∀ v ∈ table.entries, v.buildNumber ≠ build
  · rw [found_iff_of_notMem table build other]
    refine forall_congr' fun i => imp_congr_left ?_
    rw [between_iff, and_iff_left other]
  · have found := found_of_mem table build (by
      simpa only [not_forall, Classical.not_not, exists_prop] using other)
    refine iff_of_true found fun i between => ?_
    exact absurd ((between_iff table build i).mp between).2 other

/-- Build 26200, newer than every entry of the table, is looked up behind the table. -/
theorem newer_build_outside :
    search windowsPersonalVersions.entries 26200 = windowsPersonalVersions.entries.length ∧
      ¬ IsRelease windowsPersonalVersions.entries 26200
        (search windowsPersonalVersions.entries 26200) := by
  have size : windowsPersonalVersions.entries.length = 27 := rfl
  have behind : search windowsPersonalVersions.entries 26200 =
      windowsPersonalVersions.entries.length := by
    rw [search_eq, size]
    rw [halve_above (by decide) (show buildOrder _ _ 13 = .gt by decide)]
    rw [halve_above (by decide) (show buildOrder _ _ 20 = .gt by decide)]
    rw [halve_above (by decide) (show buildOrder _ _ 24 = .gt by decide)]
    rw [halve_above (by decide) (show buildOrder _ _ 26 = .gt by decide)]
    exact halve_small (by decide)
  refine ⟨behind, fun release => ?_⟩
  have inside := release.inside
  rw [behind] at inside
  exact Nat.lt_irrefl _ inside

end MrBig.Guarantees.WindowsRelease
