import Mathlib.Order.Bounds.Basic
import MrBig.Source.CpuMemory

/-!
# The pages of the cpu and memory tests

The cpu page has the colour of the worse of two verdicts, and both pages hold their whole text
with the limits at its end: no buffer ever cuts it.
-/

set_option autoImplicit false

namespace MrBig.Guarantees.CpuMemoryPages
open Library.Word Source Source.Cpu Source.CpuMemory Source.Durations Source.ReadPerf

/-! ### Texts that fit -/

theorem snprcats_eq (text : Text) (n : Nat) (texts : List Text) :
    snprcats (text.take (n - 1)) n texts = (text ++ texts.flatten).take (n - 1) := by
  induction texts generalizing text with
  | nil => rw [snprcats, List.foldl_nil, List.flatten_nil, List.append_nil]
  | cons printed rest ih =>
    have step : snprcats (text.take (n - 1)) n (printed :: rest) =
        snprcats (snprcat (text.take (n - 1)) n printed) n rest := rfl
    rw [step, snprcat_take, ih, List.flatten_cons, List.append_assoc]

/-- A page that has room for all its texts. -/
theorem page_whole {text : Text} {texts : List Text}
    (fits : (text ++ texts.flatten).length ≤ 4999) :
    snprcats (snprcat [] 5000 text) 5000 texts = text ++ texts.flatten := by
  rw [snprcat_nil, snprcats_eq]
  exact List.take_of_length_le fits

/-- A value that an int has. -/
structure IsInt (n : Int) : Prop where
  low : -2147483648 ≤ n
  high : n < 2147483648

theorem IsInt.length {n : Int} (isInt : IsInt n) : (printInt n).length ≤ 11 :=
  printInt_length isInt.low isInt.high

theorem isInt_signed (n : Int) : IsInt (signed 32 n) := by
  have low : -2147483648 ≤ signed 32 n := Int.le_bmod (by decide)
  have high : signed 32 n < 2147483648 := Int.bmod_lt (by decide)
  exact ⟨low, high⟩

/-- The limits that readcfg stores in ints. -/
structure IntLimits (s : Settings) : Prop where
  bootyellow : IsInt s.bootyellow
  bootred : IsInt s.bootred
  cpuyellow : IsInt s.cpuyellow
  cpured : IsInt s.cpured
  memyellow : IsInt s.memyellow
  memred : IsInt s.memred

/-! ### The cpu page -/

/-- The names of the build are short, a 64-bit number has twenty digits, and `now` is a buffer of
1024. -/
structure CpuShort (build : Build) (bytes : UInt64 → Text) (now : Text) : Prop where
  names : build.package.length + build.version.length + build.cpu.length ≤ 100
  bytes : ∀ n, (bytes n).length ≤ 20
  now : now.length ≤ 1023

def uptimeVerdict (s : Settings) (um : Int) : Color :=
  if um < s.bootred then .red else if um < s.bootyellow then .yellow else .green

def loadVerdict (s : Settings) (load : Int) : Color :=
  if s.cpured ≤ load then .red else if s.cpuyellow ≤ load then .yellow else .green

theorem uptimeRemark_color (s : Settings) (um : Int) :
    (uptimeRemark s um).1 = uptimeVerdict s um := by
  unfold uptimeRemark uptimeVerdict
  split_ifs <;> rfl

theorem uptimeRemark_short (s : Settings) (um : Int) : (uptimeRemark s um).2.length ≤ 34 := by
  unfold uptimeRemark
  split_ifs <;> decide

theorem loadColor_eq_max (s : Settings) (color : Color) (load : Int) :
    loadColor s color load = max color (loadVerdict s load) := by
  unfold loadColor loadVerdict
  cases color <;> split_ifs <;> first | rfl | simp_all

theorem getLoad_isInt {timeBits : Nat} {state state' : LoadState} {call : LoadCall}
    {answer : LoadAnswer} (returned : getLoad timeBits state call = some (state', answer)) :
    IsInt answer.load := by
  have zero : IsInt 0 := ⟨by decide, by decide⟩
  obtain ⟨reading, -, same⟩ := Option.map_eq_some_iff.mp returned
  unfold loadStep at same
  split at same
  · cases same
    exact zero
  · cases same
    unfold clamp
    dsimp only
    split_ifs
    · exact zero
    · unfold periodLoad
      dsimp only
      exact isInt_signed _
    · exact zero
    · exact zero

theorem cpuText_short {build : Build} {bytes : UInt64 → Text} {now up r : Text} {uc pc load : Int}
    {version : Int × Int} {statex : MemoryStatus} (short : CpuShort build bytes now)
    (upShort : up.length ≤ 99) (rShort : r.length ≤ 34) (isUc : IsInt uc) (isPc : IsInt pc)
    (isLoad : IsInt load) (isVersion : IsInt version.1 ∧ IsInt version.2) :
    (cpuText build bytes now up r uc pc load version statex).length ≤ 2000 := by
  have names := short.names
  have nowShort := short.now
  have one := short.bytes statex.ullTotalPhys
  have two := short.bytes statex.ullAvailPhys
  have three := short.bytes statex.ullTotalPageFile
  have four := short.bytes statex.ullAvailPageFile
  have five := short.bytes statex.ullTotalVirtual
  have six := short.bytes statex.ullAvailVirtual
  have totalShort := (isInt_signed (statex.ullTotalPhys.toNat / (1024 * 1024) : Nat)).length
  have percentShort := (isInt_signed statex.dwMemoryLoad.toNat).length
  have numbers := And.intro isUc.length (And.intro isPc.length isLoad.length)
  have versions := And.intro isVersion.1.length isVersion.2.length
  have literals : " up: ".length = 5 ∧ ", ".length = 2 ∧ " users, ".length = 8 ∧
      " procs, load=".length = 13 ∧ "%, PhysicalMem: ".length = 16 ∧ "MB (".length = 4 ∧
      "%)\n".length = 3 ∧ "\nMemory Statistics\n".length = 19 ∧
      "Total physical memory:         ".length = 31 ∧
      "Available physical memory:     ".length = 31 ∧
      "Total pagefile size:           ".length = 31 ∧
      "Available pagefile size:       ".length = 31 ∧
      "Total virtual memory:          ".length = 31 ∧
      "Available virtual memory size: ".length = 31 ∧ " bytes\n".length = 7 ∧
      " bytes\n\nWindows version ".length = 24 ∧ " (".length = 2 ∧ ")\n".length = 2 := by
    decide
  unfold cpuText
  generalize printInt (signed 32 (statex.ullTotalPhys.toNat / (1024 * 1024) : Nat)) = total at *
  generalize printInt (signed 32 statex.dwMemoryLoad.toNat) = percent at *
  simp only [List.length_append, List.length_cons, String.length_toList, literals]
  omega

theorem cpuLimits_short {s : Settings} (limits : IntLimits s) :
    (cpuLimits s).flatten.length ≤ 200 := by
  have uptimes := And.intro limits.bootyellow.length limits.bootred.length
  have loads := And.intro limits.cpuyellow.length limits.cpured.length
  have literals : "\nLimits:\n".length = 9 ∧ "Yellow uptime: ".length = 15 ∧
      " minutes\n".length = 9 ∧ "Red uptime: ".length = 12 ∧ "Yellow CPU: ".length = 12 ∧
      "%\n".length = 2 ∧ "Red CPU: ".length = 9 := by decide
  simp only [cpuLimits, List.flatten_cons, List.flatten_nil, List.length_append, List.length_nil,
    String.length_toList, literals]
  omega

theorem pscount_isInt (cbNeeded : Option UInt32) : IsInt (pscount cbNeeded) := by
  unfold pscount
  cases cbNeeded with
  | none => exact ⟨by decide, by decide⟩
  | some n =>
    have small : n.toNat < 4294967296 := n.toNat_lt
    constructor
    · change -2147483648 ≤ (n.toNat : Int) / 4
      omega
    · change (n.toNat : Int) / 4 < 2147483648
      omega

theorem users_isInt {pc : PerfCounters} {uc : Int} (returned : users pc = some uc) : IsInt uc := by
  unfold users at returned
  split at returned
  · cases returned
    exact ⟨by decide, by decide⟩
  · obtain ⟨row, -, returned⟩ := Option.bind_eq_some_iff.mp returned
    obtain ⟨value, -, returned⟩ := Option.bind_eq_some_iff.mp returned
    rw [← Option.some.inj returned]
    exact isInt_signed _

section
variable {build : Build} {bytes : UInt64 → Text} {timeBits : Nat} {now : Text} {s : Settings}
variable {state state' : LoadState} {o : CpuAnswers} {version : Int × Int} {r : Report}

/-- What a pass of `cpu` that reports has gone through. -/
theorem cpu_reported (enabled : getOption s.options "no_cpu".toList false = none)
    (known : o.osvi = some version)
    (returned : cpu build bytes timeBits s now state o = some (state', r)) :
    ∃ ut uc answer, getUptime o.uptime = some ut ∧ users o.users = some uc ∧
      getLoad timeBits state ⟨version.1, o.perfc, o.time⟩ = some (state', answer) ∧
      r = ⟨s.mrmachine, "cpu".toList,
        (loadColor s (uptimeRemark s (uptimeMinutes ut)).1 answer.load).text,
        snprcats (snprcat [] 5000 (cpuText build bytes now
          (snprcat [] 100 (upText (uptimeMinutes ut))) (uptimeRemark s (uptimeMinutes ut)).2 uc
          (pscount o.cbNeeded) answer.load version o.statex)) 5000 (cpuLimits s)⟩ := by
  unfold cpu at returned
  rw [if_neg (not_not.mpr enabled), known] at returned
  obtain ⟨ut, uptime, returned⟩ := Option.bind_eq_some_iff.mp returned
  obtain ⟨uc, counted, returned⟩ := Option.bind_eq_some_iff.mp returned
  dsimp only at returned
  obtain ⟨⟨state'', answer⟩, load, returned⟩ := Option.bind_eq_some_iff.mp returned
  obtain ⟨rfl, reported⟩ := Prod.mk.inj (Option.some.inj returned)
  exact ⟨ut, uc, answer, uptime, counted, load, reported.symm⟩

/-- Whatever Windows answers: the cpu page has the colour of the worse verdict on the uptime and
the load, and its text is the whole one with the limits at its end. -/
theorem cpu_shows_worst (short : CpuShort build bytes now) (limits : IntLimits s)
    (enabled : getOption s.options "no_cpu".toList false = none)
    (known : o.osvi = some version) (isVersion : IsInt version.1 ∧ IsInt version.2)
    (returned : cpu build bytes timeBits s now state o = some (state', r)) :
    ∃ ut uc answer color, getUptime o.uptime = some ut ∧ users o.users = some uc ∧
      getLoad timeBits state ⟨version.1, o.perfc, o.time⟩ = some (state', answer) ∧
      IsGreatest {uptimeVerdict s (uptimeMinutes ut), loadVerdict s answer.load} color ∧
      r = ⟨s.mrmachine, "cpu".toList, color.text,
        cpuText build bytes now (snprcat [] 100 (upText (uptimeMinutes ut)))
          (uptimeRemark s (uptimeMinutes ut)).2 uc (pscount o.cbNeeded) answer.load version
          o.statex ++ (cpuLimits s).flatten⟩ := by
  obtain ⟨ut, uc, answer, uptime, counted, load, rfl⟩ := cpu_reported enabled known returned
  have upShort : (snprcat [] 100 (upText (uptimeMinutes ut))).length ≤ 99 := by
    rw [snprcat_nil, List.length_take]
    exact Nat.min_le_left _ _
  have text := @cpuText_short build bytes now _ _ uc _ answer.load version o.statex short upShort
    (uptimeRemark_short s (uptimeMinutes ut)) (users_isInt counted) (pscount_isInt o.cbNeeded)
    (getLoad_isInt load) isVersion
  have behind := cpuLimits_short limits
  refine ⟨ut, uc, answer, _, uptime, counted, load, isGreatest_pair, ?_⟩
  rw [page_whole (by rw [List.length_append]; omega), loadColor_eq_max, uptimeRemark_color]

end

/-- `"%*.0f"` with a width of 15, of a number that a double has. -/
def fifteen (n : UInt64) : Text :=
  let digits := Nat.toDigits 10 n.toNat
  List.replicate (15 - digits.length) ' ' ++ digits

theorem fifteen_short (n : UInt64) : (fifteen n).length ≤ 20 := by
  have digits : (Nat.toDigits 10 n.toNat).length ≤ 20 :=
    (Nat.length_toDigits_le_iff (by decide) (by decide)).mpr (n.toNat_lt.trans (by decide))
  unfold fifteen
  dsimp only
  rw [List.length_append, List.length_replicate]
  omega

/-- The machine has been up for a day, and for a minute its processor had 95 percent to do. -/
def busy : CpuAnswers where
  uptime := ⟨some 86400, some 1, .rows [⟨none, some [0]⟩]⟩
  users := .rows [⟨none, some [2]⟩]
  cbNeeded := some 400
  osvi := some (10, 0)
  statex := ⟨40, 8589934592, 5153960755, 0, 0, 0, 0⟩
  perfc := .rows [⟨some total, some [30001000]⟩, ⟨none, none⟩]
  time := 160

theorem intLimits_defaults : IntLimits (setDefaults startup) := by
  constructor <;> constructor <;> decide

/-- The page of a busy machine is red. -/
theorem cpu_shows_worst_busy :
    ∃ state' r, cpu ⟨"MrBig".toList, "0.26.3".toList, "x64".toList⟩ fifteen 64
        (setDefaults startup) "now".toList ⟨100, 1000⟩ busy = some (state', r) ∧
      ∃ ut uc answer color, getUptime busy.uptime = some ut ∧ users busy.users = some uc ∧
        getLoad 64 ⟨100, 1000⟩ ⟨10, busy.perfc, busy.time⟩ = some (state', answer) ∧
        IsGreatest {uptimeVerdict (setDefaults startup) (uptimeMinutes ut),
          loadVerdict (setDefaults startup) answer.load} color ∧ r.color = color.text := by
  have reports : (cpu ⟨"MrBig".toList, "0.26.3".toList, "x64".toList⟩ fifteen 64
      (setDefaults startup) "now".toList ⟨100, 1000⟩ busy).isSome := by decide +kernel
  obtain ⟨⟨state', r⟩, returned⟩ := Option.isSome_iff_exists.mp reports
  obtain ⟨ut, uc, answer, color, uptime, counted, load, worst, page⟩ := cpu_shows_worst
    ⟨by decide, fifteen_short, by decide⟩ intLimits_defaults rfl rfl
    ⟨⟨by decide, by decide⟩, ⟨by decide, by decide⟩⟩ returned
  exact ⟨state', r, returned, ut, uc, answer, color, uptime, counted, load, worst,
    congrArg Report.color page⟩

/-! ### The memory page -/

/-- A double without its fraction has up to 310 characters. -/
structure MemoryShort (double : PrintDouble) (now : Text) : Prop where
  double : ∀ x, (double "%.0f" x).length ≤ 310
  now : now.length ≤ 1023

def memoryHeading : Text := "\n\n   Memory              Used       Total  Percentage\n".toList

/-- The text in front of the limits. -/
def memoryText (double : PrintDouble) (s : Settings) (now : Text) (statex : MemoryStatus) : Text :=
  let (pused, ptotal, ppct) := usage statex.ullTotalPhys statex.ullAvailPhys
  let (sused, stotal, spct) := usage statex.ullTotalPageFile statex.ullAvailPageFile
  now ++ memoryHeading ++
    memoryRow double (memoryColor s statex.dwMemoryLoad) " Physical           ".toList
      (pused / 1024 / 1024) (ptotal / 1024 / 1024) ppct ++
    memoryRow double .green " Swap               ".toList (sused / 1024 / 1024)
      (stotal / 1024 / 1024) spct

/-- The colour that the limits ask for, as integers. -/
def memoryVerdict (s : Settings) (memusage : Int) : Color :=
  if s.memred < memusage then .red else if s.memyellow < memusage then .yellow else .green

theorem memoryLimits_short {s : Settings} (limits : IntLimits s) :
    (memoryLimits s).flatten.length ≤ 100 := by
  have sizes := And.intro limits.memyellow.length limits.memred.length
  have literals : "\nLimits:\n".length = 9 ∧ "Yellow RAM: ".length = 12 ∧
      "Red RAM: ".length = 9 := by decide
  simp only [memoryLimits, List.flatten_cons, List.flatten_nil, List.length_append,
    List.length_cons, List.length_nil, String.length_toList, literals]
  omega

section
variable {double : PrintDouble} {s : Settings} {now : Text}

theorem memoryRow_short (short : MemoryShort double now) (color : Color) {name : Text}
    (named : name.length = 20) (used total : Float) {pct : Int} (isInt : IsInt pct) :
    (memoryRow double color name used total pct).length ≤ 700 := by
  have usedShort := short.double used
  have totalShort := short.double total
  have percent := isInt.length
  have colorShort : color.text.length ≤ 6 := by cases color <;> decide
  have literals : "M       ".length = 8 ∧ "M         ".length = 10 ∧ "%\n".length = 2 := by decide
  unfold memoryRow
  simp only [List.length_append, List.length_cons, String.length_toList, literals, named]
  omega

theorem isInt_toInt (n : Int32) : IsInt n.toInt := ⟨n.le_toInt, n.toInt_lt⟩

theorem memoryText_short (short : MemoryShort double now) (statex : MemoryStatus) :
    (memoryText double s now statex).length ≤ 2500 := by
  have heading : memoryHeading.length ≤ 60 := by decide
  have nowShort := short.now
  unfold memoryText usage
  dsimp only
  rw [List.length_append, List.length_append, List.length_append]
  exact le_trans (Nat.add_le_add (Nat.add_le_add (Nat.add_le_add nowShort heading)
    (memoryRow_short short _ (by decide) _ _ (isInt_toInt _)))
    (memoryRow_short short _ (by decide) _ _ (isInt_toInt _))) (by decide)

theorem memory_page (short : MemoryShort double now) (limits : IntLimits s)
    (enabled : getOption s.options "no_memory".toList false = none) (statex : MemoryStatus) :
    memory double s now statex =
      ⟨s.mrmachine, "memory".toList, (memoryColor s statex.dwMemoryLoad).text,
        memoryText double s now statex ++ (memoryLimits s).flatten⟩ := by
  have text : (memoryText double s now statex).length ≤ 2500 := memoryText_short short statex
  have behind := memoryLimits_short limits
  have whole : snprcats (snprcat [] 5000 (memoryText double s now statex)) 5000
      (memoryLimits s) = memoryText double s now statex ++ (memoryLimits s).flatten :=
    page_whole (by rw [List.length_append]; omega)
  unfold memory
  rw [if_neg (not_not.mpr enabled), ← whole]
  rfl

end

theorem wrap_of_nonneg {n : Int} (isInt : IsInt n) (positive : 0 ≤ n) : (wrap 32 n : Int) = n := by
  have high := isInt.high
  lift n to Nat using positive
  rw [wrap_of_lt (by omega)]

theorem memoryColor_of_nonneg {s : Settings} (limits : IntLimits s) (yellow : 0 ≤ s.memyellow)
    (red : 0 ≤ s.memred) (memusage : UInt32) :
    memoryColor s memusage = memoryVerdict s memusage.toNat := by
  have yellow' := wrap_of_nonneg limits.memyellow yellow
  have red' := wrap_of_nonneg limits.memred red
  unfold memoryColor memoryVerdict
  refine if_congr ?_ rfl (if_congr ?_ rfl rfl)
  · omega
  · omega

theorem memoryColor_zero (s : Settings) : memoryColor s 0 = .green := by
  unfold memoryColor
  split_ifs with red yellow
  · exact absurd red (Nat.not_lt_zero _)
  · exact absurd yellow (Nat.not_lt_zero _)
  · rfl

theorem color_text_injective : Function.Injective Color.text := by
  intro a b
  cases a <;> cases b <;> decide

theorem nonneg_of_verdict_zero {s : Settings} (green : memoryVerdict s 0 = .green) :
    0 ≤ s.memyellow ∧ 0 ≤ s.memred := by
  unfold memoryVerdict at green
  split_ifs at green with red yellow
  exact ⟨not_lt.mp yellow, not_lt.mp red⟩

/-- The memory page is never cut, and for the loads that Windows has, its colour is the verdict
of the limits as integers, exactly if neither limit is negative. -/
theorem memory_shows_verdict_iff {double : PrintDouble} {s : Settings} {now : Text}
    (short : MemoryShort double now) (limits : IntLimits s)
    (enabled : getOption s.options "no_memory".toList false = none) :
    (∀ statex, (memory double s now statex).message =
        memoryText double s now statex ++ (memoryLimits s).flatten) ∧
      ((∀ statex, statex.dwMemoryLoad.toNat ≤ 100 →
          (memory double s now statex).color =
            (memoryVerdict s statex.dwMemoryLoad.toNat).text) ↔
        0 ≤ s.memyellow ∧ 0 ≤ s.memred) := by
  have page := memory_page short limits enabled
  refine ⟨fun statex => congrArg Report.message (page statex), ?_, ?_⟩
  · intro shown
    have zero := shown ⟨0, 0, 0, 0, 0, 0, 0⟩ (Nat.zero_le _)
    rw [page] at zero
    apply nonneg_of_verdict_zero
    exact (color_text_injective zero).symm.trans (memoryColor_zero s)
  · rintro ⟨yellow, red⟩ statex -
    rw [page, memoryColor_of_nonneg limits yellow red]

/-- `"%.0f"` of a double that is not negative. -/
def megabytes : PrintDouble := fun _ x => Nat.toDigits 10 x.round.toUInt64.toNat

theorem megabytes_short (conversion : String) (x : Float) :
    (megabytes conversion x).length ≤ 310 :=
  ((Nat.length_toDigits_le_iff (by decide) (by decide)).mpr
    (x.round.toUInt64.toNat_lt.trans (by decide : 2 ^ 64 < 10 ^ 20))).trans (by decide)

/-- With the limits of readcfg the page shows the verdict, and with a limit of -1 it does not. -/
theorem memory_shows_verdict_defaults :
    (∀ statex : MemoryStatus, statex.dwMemoryLoad.toNat ≤ 100 →
        (memory megabytes (setDefaults startup) "now".toList statex).color =
          (memoryVerdict (setDefaults startup) statex.dwMemoryLoad.toNat).text) ∧
      ¬∀ statex : MemoryStatus, statex.dwMemoryLoad.toNat ≤ 100 →
        (memory megabytes { setDefaults startup with memyellow := -1 } "now".toList
            statex).color =
          (memoryVerdict { setDefaults startup with memyellow := -1 }
            statex.dwMemoryLoad.toNat).text := by
  have short : MemoryShort megabytes "now".toList := ⟨megabytes_short "%.0f", by decide⟩
  have limits : IntLimits { setDefaults startup with memyellow := -1 } := by
    constructor <;> constructor <;> decide
  constructor
  · exact (memory_shows_verdict_iff short intLimits_defaults rfl).2.mpr ⟨by decide, by decide⟩
  · intro shown
    have both := (memory_shows_verdict_iff short limits rfl).2.mp shown
    exact absurd both.1 (by decide)

end MrBig.Guarantees.CpuMemoryPages
