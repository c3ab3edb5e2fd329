import MrBig.Library.Verdict
import MrBig.Source.Svcs

/-!
# What read_svccfg makes of a line

A name in double quotes is taken as it is only if it is not empty and both its quotes are
there. Behind the closing quote nothing need follow; then no scan sets `n`, and its value is
the one that the last scan in front of the line has left.
-/

set_option autoImplicit false

namespace MrBig.Guarantees.SvcsConfig
open Library Source Source.Svcs

def Comment (b : Text) : Prop := b.head? = some '#'

def Quoted (b : Text) : Prop := b.head? = some '"'

instance : DecidablePred Comment := fun b => inferInstanceAs (Decidable (b.head? = some '#'))

instance : DecidablePred Quoted := fun b => inferInstanceAs (Decidable (b.head? = some '"'))

/-- The text between the first two quotes of a quoted line, and the text behind them. -/
def quotedParts (b : Text) : Option (Text × Text) := Delimited.cut '"' b.tail

/-- A name that is not empty, and its closing quote. -/
def WellQuoted (b : Text) : Prop := ∃ parts ∈ quotedParts b, parts.1 ≠ []

instance (b : Text) : Decidable (WellQuoted b) :=
  decidable_of_iff ((quotedParts b).any (fun parts => !parts.1.isEmpty) = true) (by
    unfold WellQuoted
    cases quotedParts b <;> simp)

/-- The line ends with its closing quote. -/
def Bare (b : Text) : Prop := Quoted b ∧ ∃ parts ∈ quotedParts b, parts.2 = []

/-- The line is given to sscanf, or what stands behind its quotes is. -/
def Scanned (b : Text) : Prop := ¬ Comment b ∧ ¬ Bare b

/-- The scan reads something: a word, or the number behind the quotes. -/
def Counts [CLibrary] (b : Text) : Prop :=
  if Quoted b then ∃ parts ∈ quotedParts b, scanInt parts.2 ≠ none else ¬ Blank b

/-- Nothing but a name. -/
def JustName (b : Text) : Prop :=
  if Quoted b then ∃ parts ∈ quotedParts b, Blank parts.2
  else ∃ word ∈ scanWord b, Blank word.2

/-- The last of the lines that is scanned. -/
def LastScanned (lines : List Text) (b : Text) : Prop := Verdict.FirstMatch Scanned lines.reverse b

/-- Every line has the entry that it has as the only line, and a line that just has a name
expects a running service. -/
def EntriesAlone [CLibrary] (mrmachine : Text) (lines : List Text) : Prop :=
  ∀ before line after, lines = before ++ line :: after →
    ∃ s r alone, readSvccfg mrmachine before = some s ∧
      svccfgLine mrmachine s.n line = some r ∧ svccfgLine mrmachine 0 line = some alone ∧
      r.entry = alone.entry ∧ (JustName line → ∀ svc ∈ r.entry, svc.status = serviceRunning)

/-- No null pointer, and of each quoted line exactly the text between the first two quotes,
if the line has an entry. -/
def NamesExact [CLibrary] (mrmachine : Text) (lines : List Text) : Prop :=
  (∃ s, readSvccfg mrmachine lines = some s) ∧
  ∀ before line after, lines = before ++ line :: after → Quoted line →
    ∀ s r, readSvccfg mrmachine before = some s → svccfgLine mrmachine s.n line = some r →
      ∀ svc ∈ r.entry, ∃ rest, quotedParts line = some (svc.name, rest)

/-! ### The scans -/

theorem scanStatus_counts [CLibrary] (p : Text) : 1 ≤ (scanStatus p).1 ↔ scanInt p ≠ none := by
  unfold scanStatus
  cases scanInt p with
  | none =>
    dsimp only
    split <;> simp
  | some status =>
    dsimp only
    cases scanWord (afterInt p) <;> simp

theorem scanService_counts [CLibrary] (b : Text) : 1 ≤ (scanService b).1 ↔ ¬ Blank b := by
  rw [← scanWord_eq_none_iff]
  unfold scanService
  cases scanWord b with
  | none => simp
  | some found =>
    dsimp only
    split <;> simp
    omega

/-- No number is read from blanks. -/
theorem scanStatus_blank [CLibrary] {p : Text} (blank : Blank p) : (scanStatus p).1 < 1 := by
  have nothing : scanInt p = none := by
    unfold scanInt
    rw [List.dropWhile_eq_nil_iff.mpr blank]
    rfl
  have counts := (scanStatus_counts p).mp.mt (by simp [nothing])
  omega

/-! ### A line -/

section Line

variable (mrmachine : Text) {b : Text} {n : Int}

theorem svccfgLine_comment [CLibrary] (comment : Comment b) :
    svccfgLine mrmachine n b = some ⟨n, ⟨false, false⟩, none⟩ := if_pos comment

theorem not_comment_of_quoted (quoted : Quoted b) : ¬ Comment b := by
  intro comment
  have same := comment.symm.trans quoted
  simp at same

/-- A line in quotes by what strtok makes of it. -/
theorem svccfgLine_quoted [CLibrary] (quoted : Quoted b) :
    svccfgLine mrmachine n b = (strtok b.tail ['"']).map fun token =>
      let scan := if token.2 = [] then (n, 0, []) else scanStatus token.2
      ⟨scan.1, ⟨true, false⟩, some ⟨strlcpy token.1 256, reportMachine mrmachine scan.2.2,
        if scan.1 < 1 then serviceRunning else scan.2.1⟩⟩ := by
  have line : ¬ b.head? = some '#' := not_comment_of_quoted quoted
  have quote : b.head? = some '"' := quoted
  unfold svccfgLine
  rw [if_neg line, if_pos quote]
  cases strtok b.tail ['"'] with
  | none => rfl
  | some token =>
    obtain ⟨token, rest⟩ := token
    dsimp only [Option.map_some]
    rw [strtok_whole]
    by_cases nothing : rest = []
    · rw [if_pos nothing, if_pos nothing]
    · rw [if_neg nothing, if_neg nothing]

theorem svccfgLine_wellQuoted [CLibrary] {name rest : Text} (quoted : Quoted b)
    (parts : quotedParts b = some (name, rest)) (nonempty : name ≠ []) :
    svccfgLine mrmachine n b =
      let scan := if rest = [] then (n, 0, []) else scanStatus rest
      some ⟨scan.1, ⟨true, false⟩, some ⟨strlcpy name 256, reportMachine mrmachine scan.2.2,
        if scan.1 < 1 then serviceRunning else scan.2.1⟩⟩ := by
  rw [svccfgLine_quoted mrmachine quoted, strtok_of_cut parts nonempty]
  rfl

theorem svccfgLine_unquoted [CLibrary] (line : ¬ Comment b) (unquoted : ¬ Quoted b) :
    svccfgLine mrmachine n b =
      let scan := scanService b
      if scan.1 < 1 then some ⟨scan.1, ⟨false, false⟩, none⟩
      else some ⟨scan.1, ⟨false, true⟩, some ⟨scan.2.1, reportMachine mrmachine scan.2.2.2,
        if scan.1 < 2 then serviceRunning else scan.2.2.1⟩⟩ := by
  have hash : ¬ b.head? = some '#' := line
  have quote : ¬ b.head? = some '"' := unquoted
  unfold svccfgLine
  rw [if_neg hash, if_neg quote]

/-- A line that is scanned means the same behind any other, and leaves in `n` whether the
scan has read something. -/
theorem svccfgLine_scanned [CLibrary] (wellQuoted : Quoted b → WellQuoted b) (scanned : Scanned b) :
    ∃ r, (∀ n, svccfgLine mrmachine n b = some r) ∧ (1 ≤ r.n ↔ Counts b) := by
  obtain ⟨line, behind⟩ := scanned
  by_cases quoted : Quoted b
  · obtain ⟨⟨name, rest⟩, parts, nonempty⟩ := wellQuoted quoted
    have notEmpty : rest ≠ [] := fun absent => behind ⟨quoted, _, parts, absent⟩
    have counts : Counts b ↔ scanInt rest ≠ none := by
      rw [Counts, if_pos quoted, Option.mem_def.mp parts]
      simp
    have each := fun n => svccfgLine_wellQuoted mrmachine (n := n) quoted parts
      nonempty
    simp only [if_neg notEmpty] at each
    exact ⟨_, each, (scanStatus_counts rest).trans counts.symm⟩
  · have each := fun n => svccfgLine_unquoted mrmachine (n := n) line quoted
    have counts : 1 ≤ (scanService b).1 ↔ Counts b := by
      rw [Counts, if_neg quoted]
      exact scanService_counts b
    dsimp only at each
    by_cases read : (scanService b).1 < 1
    · simp only [if_pos read] at each
      exact ⟨_, each, counts⟩
    · simp only [if_neg read] at each
      exact ⟨_, each, counts⟩

/-- Behind a closing quote that ends the line `n` is what it was. -/
theorem svccfgLine_bare [CLibrary] (wellQuoted : WellQuoted b) (bare : Bare b) :
    ∃ name, ∀ n, svccfgLine mrmachine n b =
      some ⟨n, ⟨true, false⟩, some ⟨name, mrmachine, if n < 1 then serviceRunning else 0⟩⟩ := by
  obtain ⟨quoted, ⟨name, rest⟩, parts, rfl⟩ := bare
  obtain ⟨other, same, nonempty⟩ := wellQuoted
  obtain rfl := Option.some.inj ((Option.mem_def.mp parts).symm.trans same)
  exact ⟨_, fun n => svccfgLine_wellQuoted mrmachine quoted parts nonempty⟩

/-- A line that just has a name, as the only line. -/
theorem justName_running [CLibrary] (wellQuoted : Quoted b → WellQuoted b) (justName : JustName b)
    {r : LineResult} (alone : svccfgLine mrmachine 0 b = some r) :
    ∀ svc ∈ r.entry, svc.status = serviceRunning := by
  by_cases comment : Comment b
  · rw [svccfgLine_comment mrmachine comment] at alone
    obtain rfl := Option.some.inj alone
    simp
  by_cases quoted : Quoted b
  · obtain ⟨⟨name, rest⟩, parts, nonempty⟩ := wellQuoted quoted
    have blank : Blank rest := by
      rw [JustName, if_pos quoted, Option.mem_def.mp parts] at justName
      simpa using justName
    have few :
        (if rest = [] then ((0 : Int), (0 : Int), ([] : Text)) else scanStatus rest).1 < 1 := by
      split
      · exact Int.zero_lt_one
      · exact scanStatus_blank blank
    rw [svccfgLine_wellQuoted mrmachine quoted parts nonempty] at alone
    dsimp only at alone
    rw [if_pos few] at alone
    obtain rfl := Option.some.inj alone
    simp
  · have few : (scanService b).1 < 2 := by
      obtain ⟨⟨word, rest⟩, found, blank⟩ := (if_neg quoted).mp justName
      have status := scanStatus_blank blank
      unfold scanService
      rw [Option.mem_def.mp found]
      dsimp only
      rw [if_pos status]
      decide
    rw [svccfgLine_unquoted mrmachine comment quoted] at alone
    dsimp only at alone
    rw [if_pos few] at alone
    split at alone
    next =>
      obtain rfl := Option.some.inj alone
      simp
    next =>
      obtain rfl := Option.some.inj alone
      simp

end Line

/-! ### The section -/

theorem readSvccfg_concat [CLibrary] (mrmachine : Text) (lines : List Text) (line : Text) :
    readSvccfg mrmachine (lines ++ [line]) =
      (readSvccfg mrmachine lines).bind fun s => svccfgStep mrmachine s line := by
  unfold readSvccfg
  rw [List.foldlM_append]
  cases lines.foldlM (svccfgStep mrmachine) _ with
  | none => rfl
  | some s =>
    change (svccfgStep mrmachine s line).bind some = svccfgStep mrmachine s line
    exact Option.bind_fun_some _

/-- Where strlcpy is given a null pointer. -/
theorem svccfgLine_eq_none_iff [CLibrary] (mrmachine : Text) {b : Text} {n : Int} :
    svccfgLine mrmachine n b = none ↔ Quoted b ∧ ∀ c ∈ b, c = '"' := by
  by_cases quoted : Quoted b
  · obtain ⟨rest, rfl⟩ := List.head?_eq_some_iff.mp quoted
    rw [svccfgLine_quoted mrmachine quoted, Option.map_eq_none_iff, strtok_eq_none_iff]
    simp [quoted]
  · by_cases comment : Comment b
    · simp [svccfgLine_comment mrmachine comment, quoted]
    · rw [svccfgLine_unquoted mrmachine comment quoted]
      dsimp only
      split <;> simp [quoted]

/-- The section is read unless a line is nothing but quotes. -/
theorem readSvccfg_read_iff [CLibrary] (mrmachine : Text) {lines : List Text} :
    (∃ s, readSvccfg mrmachine lines = some s) ↔
      ∀ line ∈ lines, Quoted line → ∃ c ∈ line, c ≠ '"' := by
  induction lines using List.reverseRecOn with
  | nil => simp [readSvccfg]
  | append_singleton lines line ih =>
    rw [readSvccfg_concat, List.forall_mem_append, ← ih]
    have step : ∀ s, (∃ s', svccfgStep mrmachine s line = some s') ↔
        (Quoted line → ∃ c ∈ line, c ≠ '"') := by
      intro s
      have crash := svccfgLine_eq_none_iff mrmachine (b := line) (n := s.n)
      unfold svccfgStep
      cases result : svccfgLine mrmachine s.n line with
      | none =>
        obtain ⟨quoted, all⟩ := crash.mp result
        simp only [Option.bind_eq_bind, Option.bind_none, reduceCtorEq, exists_false, false_iff]
        intro other
        obtain ⟨c, member, different⟩ := other quoted
        exact different (all c member)
      | some r =>
        rw [result] at crash
        simp only [reduceCtorEq, false_iff, not_and, not_forall] at crash
        simpa using crash
    cases readSvccfg mrmachine lines with
    | none => simp
    | some s => simpa using step s

theorem lastScanned_concat_of_scanned {lines : List Text} {line b : Text}
    (scanned : Scanned line) : LastScanned (lines ++ [line]) b ↔ b = line := by
  unfold LastScanned
  rw [List.reverse_concat]
  exact Verdict.firstMatch_cons_of_match scanned

theorem lastScanned_concat_of_not_scanned {lines : List Text} {line b : Text}
    (skipped : ¬ Scanned line) : LastScanned (lines ++ [line]) b ↔ LastScanned lines b := by
  unfold LastScanned
  rw [List.reverse_concat]
  exact Verdict.firstMatch_cons_of_pass skipped

section Section

variable (mrmachine : Text) {lines : List Text}

theorem read_of_wellQuoted [CLibrary] (quoted : ∀ line ∈ lines, Quoted line → WellQuoted line) :
    ∃ s, readSvccfg mrmachine lines = some s := by
  refine (readSvccfg_read_iff mrmachine).mpr fun line member start => ?_
  obtain ⟨⟨name, rest⟩, parts, nonempty⟩ := quoted line member start
  obtain ⟨split, plain⟩ := Delimited.eq_of_cut (Option.mem_def.mp parts)
  obtain ⟨c, name, rfl⟩ := List.exists_cons_of_ne_nil nonempty
  refine ⟨c, List.mem_of_mem_tail (by simp [split]), fun same => plain ?_⟩
  simp [same]

/-- What the loop carries from line to line: whether the last scan has read something. -/
theorem n_of_read [CLibrary] (quoted : ∀ line ∈ lines, Quoted line → WellQuoted line)
    {s : SvccfgState}
    (read : readSvccfg mrmachine lines = some s) :
    1 ≤ s.n ↔ ∃ other, LastScanned lines other ∧ Counts other := by
  induction lines using List.reverseRecOn generalizing s with
  | nil =>
    obtain rfl := Option.some.inj read
    simp [LastScanned]
  | append_singleton lines line ih =>
    rw [readSvccfg_concat] at read
    obtain ⟨s', earlier, step⟩ := Option.bind_eq_some_iff.mp read
    obtain ⟨r, result, same⟩ := Option.bind_eq_some_iff.mp step
    obtain rfl := Option.some.inj same
    have carried := ih (fun l member => quoted l (List.mem_append_left _ member)) earlier
    have here := quoted line (by simp)
    by_cases scanned : Scanned line
    · obtain ⟨r', each, counts⟩ := svccfgLine_scanned mrmachine here scanned
      obtain rfl := Option.some.inj ((each s'.n).symm.trans result)
      simp only [lastScanned_concat_of_scanned scanned, exists_eq_left]
      exact counts
    · have kept : r.n = s'.n := by
        by_cases comment : Comment line
        · rw [svccfgLine_comment mrmachine comment] at result
          rw [← Option.some.inj result]
        · have bare : Bare line := by
            by_contra other
            exact scanned ⟨comment, other⟩
          obtain ⟨name, each⟩ := svccfgLine_bare mrmachine (here bare.1) bare
          rw [← Option.some.inj ((each s'.n).symm.trans result)]
      simp only [lastScanned_concat_of_not_scanned scanned]
      rw [kept]
      exact carried

end Section

/-- The entries of a section whose quoted names are not empty and closed are those of its
lines alone if and only if, in front of every line that ends with its closing quote, the last
line that was scanned has given the scan nothing to read. -/
theorem entries_alone_iff [CLibrary] (mrmachine : Text) (conf : List Config)
    (quoted : ∀ line ∈ svcsLines conf, Quoted line → WellQuoted line) :
    EntriesAlone mrmachine (svcsLines conf) ↔
      ∀ before bare after, svcsLines conf = before ++ bare :: after → Bare bare →
        ∀ other, LastScanned before other → ¬ Counts other := by
  constructor
  · intro each before bare after split ends other last counts
    obtain ⟨s, r, alone, read, result, single, same, -⟩ := each before bare after split
    rw [split] at quoted
    have here := quoted bare (by simp) ends.1
    have earlier : ∀ l ∈ before, Quoted l → WellQuoted l :=
      fun l member => quoted l (List.mem_append_left _ member)
    have carried := (n_of_read mrmachine earlier read).mpr ⟨other, last, counts⟩
    obtain ⟨name, line⟩ := svccfgLine_bare mrmachine here ends
    obtain rfl := Option.some.inj ((line s.n).symm.trans result)
    obtain rfl := Option.some.inj ((line 0).symm.trans single)
    have status := congrArg (Option.map Svc.status) same
    rw [Option.map_some, Option.map_some, if_neg (by omega), if_pos Int.zero_lt_one] at status
    simp [serviceRunning] at status
  · intro late before line after split
    rw [split] at quoted
    have earlier : ∀ l ∈ before, Quoted l → WellQuoted l :=
      fun l member => quoted l (List.mem_append_left _ member)
    have here : Quoted line → WellQuoted line := quoted line (by simp)
    obtain ⟨s, read⟩ := read_of_wellQuoted mrmachine earlier
    have results : ∃ r alone, svccfgLine mrmachine s.n line = some r ∧
        svccfgLine mrmachine 0 line = some alone ∧ r.entry = alone.entry := by
      by_cases scanned : Scanned line
      · obtain ⟨r, each, -⟩ := svccfgLine_scanned mrmachine here scanned
        exact ⟨r, r, each s.n, each 0, rfl⟩
      by_cases comment : Comment line
      · exact ⟨_, _, svccfgLine_comment mrmachine comment,
          svccfgLine_comment mrmachine comment, rfl⟩
      have bare : Bare line := by
        by_contra other
        exact scanned ⟨comment, other⟩
      have few : s.n < 1 := by
        have carried := (n_of_read mrmachine earlier read).mp.mt (by
          rintro ⟨other, last, counts⟩
          exact late before line after split bare other last counts)
        omega
      obtain ⟨name, each⟩ := svccfgLine_bare mrmachine (here bare.1) bare
      refine ⟨_, _, each s.n, each 0, ?_⟩
      rw [if_pos few, if_pos Int.zero_lt_one]
    obtain ⟨r, alone, result, single, same⟩ := results
    refine ⟨s, r, alone, read, result, single, same, fun justName => ?_⟩
    rw [same]
    exact justName_running mrmachine here justName single

/-- A display name in front of a line with a number. -/
theorem entries_alone_iff_first :
    EntriesAlone "host".toList
      (svcsLines [⟨"svcs".toList, "\"Server\"\n\"Spooler\" 3\n".toList⟩]) := by
  have lines : svcsLines [⟨"svcs".toList, "\"Server\"\n\"Spooler\" 3\n".toList⟩] =
      ["\"Server\"".toList, "\"Spooler\" 3".toList] := by decide
  refine (entries_alone_iff "host".toList
    [⟨"svcs".toList, "\"Server\"\n\"Spooler\" 3\n".toList⟩] ?_).mpr ?_
  · rw [lines]
    decide
  · rw [lines]
    intro before bare after split ends other last counts
    cases before with
    | nil => simp [LastScanned] at last
    | cons first before =>
      have second : bare = "\"Spooler\" 3".toList := by
        cases before with
        | nil => simpa using (List.cons.inj (List.cons.inj split).2).1.symm
        | cons second before => simp at split
      subst second
      obtain ⟨-, parts, found, nothing⟩ := ends
      have behind : quotedParts "\"Spooler\" 3".toList = some ("Spooler".toList, " 3".toList) := by
        decide
      rw [behind] at found
      obtain rfl := Option.some.inj found
      cases nothing

/-- Behind a line with a number a display name expects a service that is not installed. -/
theorem display_name_expects_zero :
    (∀ line ∈ svcsLines [⟨"svcs".toList, "\"Server\" 4\n\"IPSEC Services\"\n".toList⟩],
      Quoted line → WellQuoted line) ∧
    ¬ EntriesAlone "host".toList
      (svcsLines [⟨"svcs".toList, "\"Server\" 4\n\"IPSEC Services\"\n".toList⟩]) := by
  have lines : svcsLines [⟨"svcs".toList, "\"Server\" 4\n\"IPSEC Services\"\n".toList⟩] =
      ["\"Server\" 4".toList, "\"IPSEC Services\"".toList] := by decide
  rw [lines]
  refine ⟨by decide, fun each => ?_⟩
  obtain ⟨s, r, alone, read, result, single, same, -⟩ :=
    each ["\"Server\" 4".toList] "\"IPSEC Services\"".toList [] rfl
  have first : readSvccfg "host".toList ["\"Server\" 4".toList] =
      some ⟨1, ⟨true, false⟩, [⟨"Server".toList, "host".toList, 4⟩]⟩ := by decide
  obtain rfl := Option.some.inj (first.symm.trans read)
  have stale : svccfgLine "host".toList 1 "\"IPSEC Services\"".toList =
      some ⟨1, ⟨true, false⟩, some ⟨"IPSEC Services".toList, "host".toList, 0⟩⟩ := by decide
  have fresh : svccfgLine "host".toList 0 "\"IPSEC Services\"".toList =
      some ⟨0, ⟨true, false⟩, some ⟨"IPSEC Services".toList, "host".toList, 4⟩⟩ := by decide
  obtain rfl := Option.some.inj (stale.symm.trans result)
  obtain rfl := Option.some.inj (fresh.symm.trans single)
  exact absurd same (by decide)

/-- No line of a section gives strlcpy a null pointer, and quoted names are stored exactly, if
and only if every quoted line has a closing quote and a name in front of it. -/
theorem names_exact_iff [CLibrary] (mrmachine : Text) (conf : List Config) :
    NamesExact mrmachine (svcsLines conf) ↔
      ∀ line ∈ svcsLines conf, Quoted line → WellQuoted line := by
  constructor
  · intro precise line member quoted
    obtain ⟨⟨final, whole⟩, each⟩ := precise
    obtain ⟨before, after, split⟩ := List.append_of_mem member
    have all := (readSvccfg_read_iff mrmachine).mp ⟨final, whole⟩
    obtain ⟨s, read⟩ := (readSvccfg_read_iff mrmachine).mpr
      fun l (inside : l ∈ before) => all l (by simp [split, inside])
    cases token : strtok line.tail ['"'] with
    | none =>
      have crash := svccfgLine_eq_none_iff mrmachine (b := line) (n := s.n)
      rw [svccfgLine_quoted mrmachine quoted, token] at crash
      obtain ⟨c, inside, different⟩ := all line member quoted
      exact absurd ((crash.mp rfl).2 c inside) different
    | some found =>
      obtain ⟨token', rest⟩ := found
      have nonempty := ne_nil_of_strtok token
      have result := svccfgLine_quoted mrmachine (n := s.n) quoted
      rw [token, Option.map_some] at result
      obtain ⟨rest', parts⟩ := each before line after split quoted s _ read result _ rfl
      refine ⟨_, parts, fun empty => nonempty ?_⟩
      dsimp only [strlcpy] at empty
      simpa using empty
  · intro quoted
    refine ⟨read_of_wellQuoted mrmachine quoted, ?_⟩
    intro before line after split start s r read result svc member
    have inside : line ∈ svcsLines conf := by simp [split]
    have short : line.length < 256 := sectionLines_short conf _ (by decide) line inside
    obtain ⟨⟨name, rest⟩, parts, nonempty⟩ := quoted line inside start
    have fits : name.length ≤ 255 := by
      obtain ⟨whole, -⟩ := Delimited.eq_of_cut (Option.mem_def.mp parts)
      have size := congrArg List.length whole
      rw [List.length_tail, List.length_append, List.length_cons] at size
      omega
    rw [svccfgLine_wellQuoted mrmachine start parts nonempty] at result
    obtain rfl := Option.some.inj result
    obtain rfl := Option.some.inj member
    refine ⟨rest, parts.trans ?_⟩
    rw [strlcpy, List.take_of_length_le fits]

/-- A section with a line of two quotes. -/
theorem empty_quotes_crash :
    ¬ NamesExact "host".toList (svcsLines [⟨"svcs".toList, "MrBig\n\"\"\n".toList⟩]) := by
  intro precise
  obtain ⟨⟨s, read⟩, -⟩ := precise
  have crash : readSvccfg "host".toList (svcsLines [⟨"svcs".toList, "MrBig\n\"\"\n".toList⟩]) =
      none := by decide
  rw [crash] at read
  cases read

end MrBig.Guarantees.SvcsConfig
