import MrBig.Abstract.Ipv6Text
import MrBig.Library.LongestRun
import MrBig.Source.Winports

/-!
# IPv6 addresses in the report

The text is a compressed form of the computed groups and is read back as these. The groups are
computed from the end of the address, with the bytes of each swapped: what is read back is the
address from its last byte to its first.
-/

set_option autoImplicit false

namespace MrBig.Guarantees.Ipv6Address
open Library.LongestRun Source Source.Winports Abstract.Ipv6Text

/-- The text between the brackets. -/
def between (text : Text) : Text := text.tail.dropLast

/-- The groups as numbers. -/
def values (group : Groups) : List Nat := group.toList.map UInt16.toNat

/-- A group of zeros. -/
def Zero (group : Groups) (i : Nat) : Prop := group[i]? = some 0

/-- The groups from `start` on, `len` of them, left out. -/
def compressed (group : Groups) (start len : Nat) : Text :=
  if len = 0 then joined ':' (hexes (values group))
  else joined ':' (hexes ((values group).take start)) ++
    ':' :: ':' :: joined ':' (hexes ((values group).drop (start + len)))

/-- The text stands for the groups, and shows which of them it leaves out. -/
structure Unambiguous (group : Groups) (text : Text) : Prop where
  brackets : text = ['['] ++ between text ++ [']']
  once : ∀ {p q p' q' : Text}, text = p ++ ':' :: ':' :: q → text = p' ++ ':' :: ':' :: q' → p = p'
  replaced : ∃ start len, FirstLongest (Zero group) 8 8 start len ∧
    between text = compressed group start len
  expands : parse (between text) = some (values group)
  leading : ∀ {rest}, between text = ':' :: rest → rest.head? = some ':'
  trailing : ∀ {rest}, between text = rest ++ [':'] → rest.getLast? = some ':'

/-! ### The zero groups -/

section

variable {group : Groups} {i : Nat}

theorem zero_iff (h : i < 8) : Zero group i ↔ group[i] = 0 := by
  rw [Zero, Vector.getElem?_eq_getElem h, Option.some.injEq]

theorem not_zero (h : 8 ≤ i) : ¬ Zero group i := by
  rw [Zero, Vector.getElem?_eq_none h]
  exact (Option.some_ne_none _).symm

/-- The inner loop runs to the end of the zero groups. -/
theorem clusterLen_run (h : i < 8) (zero : Zero group i) :
    0 < clusterLen group i ∧ IsRun (Zero group) 8 i (clusterLen group i) ∧
      (i + clusterLen group i = 8 ∨ ¬ Zero group (i + clusterLen group i)) := by
  fun_induction clusterLen group i with
  | case1 i more next ih =>
    obtain ⟨nonempty, run, ends⟩ := ih more ((zero_iff more).mpr next)
    have shift : i + (clusterLen group (i + 1) + 1) = i + 1 + clusterLen group (i + 1) := by omega
    refine ⟨Nat.succ_pos _, ⟨?_, ?_⟩, ?_⟩
    · rw [shift]
      exact run.inside
    · intro j low high
      rcases Nat.eq_or_lt_of_le low with rfl | above
      · exact zero
      · exact run.all j above (by omega)
    · rwa [shift]
  | case2 i more next =>
    refine ⟨Nat.one_pos, ⟨h, fun j low high => ?_⟩, Or.inr fun zero' => ?_⟩
    · rwa [show j = i by omega]
    · exact next ((zero_iff more).mp zero')
  | case3 i last =>
    refine ⟨Nat.one_pos, ⟨h, fun j low high => ?_⟩, Or.inl (by omega)⟩
    rwa [show j = i by omega]

theorem firstLongest_larger {largest : Cluster} {len : Nat}
    (found : FirstLongest (Zero group) 8 i largest.ix largest.len)
    (run : IsRun (Zero group) 8 i len) (ends : i + len = 8 ∨ ¬ Zero group (i + len)) :
    FirstLongest (Zero group) 8 (i + len) (largest.larger i len).ix (largest.larger i len).len := by
  have longer := found.extend run ends
  rw [Cluster.larger]
  split
  · next more => rwa [if_pos more, if_pos more] at longer
  · next notMore => rwa [if_neg notMore, if_neg notMore] at longer

theorem largestZeroCluster_first {largest : Cluster}
    (found : FirstLongest (Zero group) 8 i largest.ix largest.len) :
    FirstLongest (Zero group) 8 8
      (largestZeroCluster group i largest).ix (largestZeroCluster group i largest).len := by
  fun_induction largestZeroCluster group i largest with
  | case1 i largest h zero len ih =>
    obtain ⟨nonempty, run, ends⟩ := clusterLen_run h ((zero_iff h).mpr zero)
    refine ih ((firstLongest_larger found run ends).skip ?_)
    rcases ends with last | other
    · exact not_zero (Nat.le_of_eq last.symm)
    · exact other
  | case2 i largest h other ih =>
    exact ih (found.skip fun zero => other ((zero_iff h).mp zero))
  | case3 i largest h => exact found.whole (Nat.le_of_not_lt h)

end

/-! ### The text -/

theorem printGroups_eq (rest : List UInt16) {i last : Nat} (ending : i + rest.length = last + 1) :
    printGroups last i rest = joined ':' (hexes (rest.map UInt16.toNat)) := by
  induction rest generalizing i with
  | nil => rfl
  | cons g rest ih =>
    rw [List.length_cons] at ending
    cases rest with
    | nil =>
      have here : ¬ i ≠ last := by
        rw [List.length_nil] at ending
        omega
      rw [printGroups, if_neg here]
      simp [printGroups, joined, hexes, printHex]
    | cons h rest =>
      have other : i ≠ last := by
        rw [List.length_cons] at ending
        omega
      rw [printGroups, if_pos other, ih (by omega)]
      have front := joined_cons_cons (printHex g) (printHex h) (hexes (rest.map UInt16.toNat))
      rw [List.append_assoc]
      exact front.symm

theorem values_length (group : Groups) : (values group).length = 8 := by
  rw [values, List.length_map, Vector.length_toList]

theorem printAround_none (group : Groups) :
    printAround group 8 0 = joined ':' (hexes (values group)) := by
  have size : group.toList.length = 8 := Vector.length_toList
  have front : printGroups 7 0 group.toList = joined ':' (hexes (values group)) :=
    printGroups_eq group.toList (by omega)
  rw [printAround, List.take_of_length_le (Nat.le_of_eq size),
    List.drop_eq_nil_of_le (Nat.le_of_eq size), if_neg (Nat.lt_irrefl 0), List.append_nil]
  exact (List.append_nil _).trans front

theorem printAround_some (group : Groups) {ix len : Nat} (positive : 0 < len)
    (inside : ix + len ≤ 8) :
    printAround group ix len = joined ':' (hexes ((values group).take ix)) ++
      ':' :: ':' :: joined ':' (hexes ((values group).drop (ix + len))) := by
  have size : group.toList.length = 8 := Vector.length_toList
  have front : printGroups (ix - 1) 0 (group.toList.take ix) =
      joined ':' (hexes ((values group).take ix)) := by
    rcases Nat.eq_zero_or_pos ix with rfl | nonempty
    · rfl
    · rw [printGroups_eq _ (by rw [List.length_take]; omega), List.map_take, values]
  have back : printGroups 7 (ix + len) (group.toList.drop (ix + len)) =
      joined ':' (hexes ((values group).drop (ix + len))) := by
    rw [printGroups_eq _ (by rw [List.length_drop]; omega), List.map_drop, values]
  rw [printAround, front, back, if_pos positive, List.append_assoc]
  rfl

theorem prettyGroups_eq (group : Groups) :
    ∃ start len, FirstLongest (Zero group) 8 8 start len ∧
      prettyGroups group = ['['] ++ compressed group start len ++ [']'] := by
  have found := largestZeroCluster_first (show FirstLongest (Zero group) 8 0
    (Cluster.mk 0 0).ix (Cluster.mk 0 0).len from firstLongest_zero)
  refine ⟨_, _, found, ?_⟩
  rw [prettyGroups, compressed]
  by_cases nothing : (largestZeroCluster group 0 ⟨0, 0⟩).len = 0
  · rw [if_pos nothing, if_pos nothing, nothing, printAround_none]
  · rw [if_neg nothing, if_neg nothing,
      printAround_some group (Nat.pos_of_ne_zero nothing) found.run.inside]

/-! ### What the text stands for -/

theorem between_brackets (text : Text) : between (['['] ++ text ++ [']']) = text := by
  rw [between, List.append_assoc, List.singleton_append, List.tail_cons, List.dropLast_concat]

section

variable {group : Groups} {start len : Nat}

theorem values_small (group : Groups) : ∀ n ∈ values group, n < 65536 := by
  intro n member
  obtain ⟨g, _, rfl⟩ := List.mem_map.mp member
  exact g.toNat_lt

theorem values_of_zero (i : Nat) (h : i < 8) (zero : Zero group i) :
    (values group)[i]? = some 0 := by
  have inside : i < group.toList.length := by rwa [Vector.length_toList]
  rw [values, List.getElem?_map, List.getElem?_eq_getElem inside, Vector.getElem_toList,
    (zero_iff h).mp zero]
  rfl

/-- The groups of the cluster are zeros. -/
theorem values_split (run : IsRun (Zero group) 8 start len) :
    (values group).take start ++ List.replicate len 0 ++ (values group).drop (start + len) =
      values group := by
  have inside := run.inside
  have size := values_length group
  have middle : ((values group).drop start).take len = List.replicate len 0 := by
    refine List.eq_replicate_iff.mpr ⟨?_, ?_⟩
    · rw [List.length_take, List.length_drop]
      omega
    · intro n member
      obtain ⟨i, placed⟩ := List.mem_iff_getElem?.mp member
      have short : i < len := by
        have below := (List.getElem?_eq_some_iff.mp placed).1
        rw [List.length_take] at below
        omega
      rw [List.getElem?_take_of_lt short, List.getElem?_drop,
        values_of_zero (start + i) (by omega) (run.all _ (by omega) (by omega))] at placed
      exact (Option.some.inj placed).symm
  rw [List.append_assoc, ← middle, ← List.drop_drop, List.take_append_drop,
    List.take_append_drop]

theorem parse_compressed_groups (run : IsRun (Zero group) 8 start len) :
    parse (compressed group start len) = some (values group) := by
  have inside := run.inside
  have size := values_length group
  rw [compressed]
  split
  · exact parse_joined (values_small group) size
  · next nonempty =>
    have front : ((values group).take start).length = start := by
      rw [List.length_take]
      omega
    have back : ((values group).drop (start + len)).length = 8 - (start + len) := by
      rw [List.length_drop, size]
    have left : 8 - (start + (8 - (start + len))) = len := by omega
    rw [parse_compressed _ (by omega), front, back, left, values_split run]
    intro n member
    rcases List.mem_append.mp member with inFront | inBack
    · exact values_small group n (List.mem_of_mem_take inFront)
    · exact values_small group n (List.mem_of_mem_drop inBack)

/-- Where a cluster is left out, the two colons stand between texts without such. -/
theorem compressed_once {p q p' q' : Text}
    (first : ['['] ++ compressed group start len ++ [']'] = p ++ ':' :: ':' :: q)
    (second : ['['] ++ compressed group start len ++ [']'] = p' ++ ':' :: ':' :: q') : p = p' := by
  have single : ∀ groups, splitDouble (['['] ++ joined ':' (hexes groups)) = none := fun groups =>
    splitDouble_plain (by decide) (splitDouble_joined (plain_hexes groups))
  have single' : ∀ groups, splitDouble (joined ':' (hexes groups) ++ [']']) = none := fun groups =>
    splitDouble_concat (splitDouble_joined (plain_hexes groups)) (by decide)
  rw [compressed] at first second
  split at first
  · exact absurd (first ▸ splitDouble_concat (single (values group)) (by decide))
      (splitDouble_ne_none p q)
  · next nonempty =>
    rw [if_neg nonempty] at second
    have last : ∀ groups, (['['] ++ joined ':' (hexes groups)).getLast? ≠ some ':' := by
      intro groups
      have ending := getLast_joined (plain_hexes groups)
      rcases List.eq_nil_or_concat' (joined ':' (hexes groups)) with nothing | ⟨front, c, text⟩
      · rw [nothing]
        decide
      · rw [text, List.getLast?_concat] at ending
        rwa [text, ← List.append_assoc, List.getLast?_concat]
    have head : ∀ groups, (joined ':' (hexes groups) ++ [']']).head? ≠ some ':' := by
      intro groups
      have beginning := head_joined (plain_hexes groups)
      cases text : joined ':' (hexes groups) with
      | nil => decide
      | cons c rest =>
        rw [text] at beginning
        exact beginning
    rw [← List.append_assoc, List.append_assoc, List.cons_append, List.cons_append]
      at first second
    exact (double_once (single _) (last _) (single' _) (head _) first).trans
      (double_once (single _) (last _) (single' _) (head _) second).symm

theorem compressed_leading {rest : Text} (text : compressed group start len = ':' :: rest) :
    rest.head? = some ':' := by
  have beginning := fun groups => head_joined (plain_hexes groups)
  rw [compressed] at text
  split at text
  · exact absurd (by rw [text]; rfl) (beginning (values group))
  · cases front : joined ':' (hexes ((values group).take start)) with
    | nil =>
      rw [front, List.nil_append, List.cons.injEq] at text
      rw [← text.2]
      rfl
    | cons c rest' =>
      rw [front, List.cons_append, List.cons.injEq] at text
      exact absurd (by rw [front, text.1]; rfl) (beginning ((values group).take start))

theorem compressed_trailing {rest : Text} (text : compressed group start len = rest ++ [':']) :
    rest.getLast? = some ':' := by
  have ending := fun groups => getLast_joined (plain_hexes groups)
  rw [compressed] at text
  split at text
  · exact absurd (by rw [text]; exact List.getLast?_concat) (ending (values group))
  · rcases List.eq_nil_or_concat' (joined ':' (hexes ((values group).drop (start + len)))) with
      nothing | ⟨back, c, last⟩
    · rw [nothing, show [':', ':'] = [':'] ++ [':'] from rfl, ← List.append_assoc] at text
      rw [← (List.append_inj' text rfl).1]
      exact List.getLast?_concat
    · have tail : c = ':' := by
        rw [last, ← List.cons_append, ← List.cons_append, ← List.append_assoc] at text
        exact (List.cons.inj (List.append_inj' text rfl).2).1
      exact absurd (by rw [last, tail]; exact List.getLast?_concat)
        (ending ((values group).drop (start + len)))

end

/-- What is printed for any groups. -/
theorem unambiguous (group : Groups) : Unambiguous group (prettyGroups group) := by
  obtain ⟨start, len, found, text⟩ := prettyGroups_eq group
  have inner : between (prettyGroups group) = compressed group start len := by
    rw [text, between_brackets]
  refine ⟨?_, ?_, ⟨start, len, found, inner⟩, ?_, ?_, ?_⟩
  · rw [inner, text]
  · rw [text]
    exact compressed_once
  · rw [inner, parse_compressed_groups found.run]
  · rw [inner]
    exact compressed_leading
  · rw [inner]
    exact compressed_trailing

/-! ### The bytes of the groups -/

theorem group_toNat (x y : UInt8) :
    ((x.toUInt16 <<< 8) + y.toUInt16).toNat = x.toNat * 256 + y.toNat := by
  have low := y.toNat_lt
  have high := x.toNat_lt
  rw [UInt16.toNat_add, UInt16.toNat_shiftLeft, UInt8.toNat_toUInt16, UInt8.toNat_toUInt16]
  change (x.toNat <<< 8 % 2 ^ 16 + y.toNat) % 2 ^ 16 = _
  rw [Nat.shiftLeft_eq]
  omega

theorem group_bytes (x y : UInt8) :
    [UInt8.ofNat (((x.toUInt16 <<< 8) + y.toUInt16).toNat / 256),
      UInt8.ofNat ((x.toUInt16 <<< 8) + y.toUInt16).toNat] = [x, y] := by
  have low := y.toNat_lt
  have first : (x.toNat * 256 + y.toNat) / 256 = x.toNat := by omega
  have second : UInt8.ofNat (x.toNat * 256 + y.toNat) = y := by
    apply UInt8.toNat_inj.mp
    rw [UInt8.toNat_ofNat']
    omega
  rw [group_toNat, first, second, UInt8.ofNat_toNat]

/-- The first group is made of the last two bytes, the last of them in front. -/
theorem bytes_reverse (b : Address6) :
    (values (groups b)).flatMap (fun group => [UInt8.ofNat (group / 256), UInt8.ofNat group]) =
      b.toList.reverse := by
  have words : values (groups b) = List.ofFn fun i : Fin 8 =>
      ((b[15 - 2 * i.val].toUInt16 <<< 8) +
        b[14 - 2 * i.val].toUInt16).toNat := by
    rw [values, groups, Vector.toList_ofFn, List.map_ofFn]
    rfl
  have bytes : b.toList = List.ofFn fun i : Fin 16 => b[i.val] := by
    apply List.ext_getElem
    · rw [Vector.length_toList, List.length_ofFn]
    · intro i _ _
      rw [Vector.getElem_toList, List.getElem_ofFn]
  rw [words, bytes, List.flatMap_def, List.map_ofFn]
  simp only [Function.comp_def, group_bytes]
  simp [List.ofFn_succ]

/-- What the text of an address is read back as. -/
theorem parseBytes_prettyIPv6 (b : Address6) :
    parseBytes (between (prettyIPv6 b)) = some b.toList.reverse := by
  rw [parseBytes, prettyIPv6, (unambiguous (groups b)).expands, Option.map_some, bytes_reverse]

theorem prettyIPv6_injective {b b' : Address6} (same : prettyIPv6 b = prettyIPv6 b') : b = b' := by
  have bytes := parseBytes_prettyIPv6 b
  rw [same, parseBytes_prettyIPv6 b', Option.some.injEq, List.reverse_inj] at bytes
  exact (Vector.toList_inj.mp bytes).symm

/-- Whatever the groups, the text is an unambiguous form of them, and no two addresses have the
same text. -/
theorem compression_unambiguous :
    (∀ group, Unambiguous group (prettyGroups group)) ∧
      ∀ b b', prettyIPv6 b = prettyIPv6 b' → b = b' :=
  ⟨unambiguous, fun _ _ same => prettyIPv6_injective same⟩

/-- The text is read back as the address if and only if the address is the same from its last
byte to its first. -/
theorem address_read_back_iff (b : Address6) :
    parseBytes (between (prettyIPv6 b)) = some b.toList ↔ b.toList.reverse = b.toList := by
  rw [parseBytes_prettyIPv6, Option.some.injEq]

def loopback : Address6 := #v[0, 0, 0, 0, 0, 0, 0, 0, 0, 0, 0, 0, 0, 0, 0, 1]

/-- The loopback address is shown as 100::. -/
theorem loopback_reversed :
    parseBytes (between (prettyIPv6 loopback)) =
        some [1, 0, 0, 0, 0, 0, 0, 0, 0, 0, 0, 0, 0, 0, 0, 0] ∧
      parseBytes (between (prettyIPv6 loopback)) ≠ some loopback.toList := by
  rw [parseBytes_prettyIPv6]
  decide

end MrBig.Guarantees.Ipv6Address
