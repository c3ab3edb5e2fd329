import MrBig.Source.RecvCfg

/-!
# The cached configuration is replaced whole or not at all

The receive loop writes to the temporary file only. `cfg.cache` is replaced after
`recv` returned 0, and what it then holds is the concatenation of the chunks received;
after every other end it is what it was.
-/

set_option autoImplicit false

namespace MrBig.Guarantees.CacheAtomic
open Source

/-- A pass that neither ends nor fails the download: in time, and `recv` delivers data
or says that it would block or that the connection is not up yet. -/
def Quiet (startTime : Int) (pass : RecvPass) : Prop :=
  ¬ timedOut startTime pass.now pass.now' ∧ pass.exception = false ∧
    match pass.recv with
    | .data _ => True
    | .error code => code = WSAEWOULDBLOCK ∨ code = WSAENOTCONN
    | .closed => False

/-- What a pass received. -/
def received (pass : RecvPass) : Text :=
  match pass.recv with
  | .data chunk => chunk.bytes
  | _ => []

/-- `recv` returned 0 before any failure or timeout, after the chunks in `content`. -/
def Closed (startTime : Int) (passes : List RecvPass) (content : Text) : Prop :=
  ∃ quiet last rest, passes = quiet ++ last :: rest ∧ (∀ pass ∈ quiet, Quiet startTime pass) ∧
    ¬ timedOut startTime last.now last.now' ∧ last.recv = .closed ∧
    content = quiet.flatMap received

theorem closed_nil (startTime : Int) (content : Text) : ¬ Closed startTime [] content := by
  intro closed
  obtain ⟨quiet, last, rest, split, -⟩ := closed
  simp at split

theorem closed_cons {startTime : Int} {pass : RecvPass} {rest : List RecvPass} {content : Text} :
    Closed startTime (pass :: rest) content ↔
      (¬ timedOut startTime pass.now pass.now' ∧ pass.recv = .closed ∧ content = []) ∨
      (Quiet startTime pass ∧ ∃ later, Closed startTime rest later ∧
        content = received pass ++ later) := by
  constructor
  · intro ends
    obtain ⟨quiet, last, after, split, quiets, inTime, closed, rfl⟩ := ends
    cases quiet with
    | nil =>
      obtain ⟨rfl, rfl⟩ := List.cons.inj split
      exact .inl ⟨inTime, closed, rfl⟩
    | cons head quiet =>
      obtain ⟨rfl, tail⟩ := List.cons.inj split
      refine .inr ⟨quiets pass (by simp), quiet.flatMap received, ?_, by simp⟩
      exact ⟨quiet, last, after, tail,
        fun p member => quiets p (List.mem_cons_of_mem pass member), inTime, closed, rfl⟩
  · rintro (⟨inTime, closed, rfl⟩ | ⟨isQuiet, later, ⟨quiet, last, after, split, quiets, inTime,
      closed, rfl⟩, rfl⟩)
    · exact ⟨[], pass, rest, rfl, by simp, inTime, closed, rfl⟩
    · refine ⟨pass :: quiet, last, after, by rw [split, List.cons_append], ?_, inTime, closed,
        by simp⟩
      intro p member
      rcases List.mem_cons.mp member with rfl | inQuiet
      · exact isQuiet
      · exact quiets p inQuiet

/-- The loop writes nothing but the temporary file. -/
theorem recvLoop_other (startTime : Int) (passes : List RecvPass) (files : FileSys)
    {name : Text} (other : name ≠ tempName) :
    (recvLoop startTime passes files).2.read name = files.read name := by
  induction passes generalizing files with
  | nil => rfl
  | cons pass rest ih =>
    rw [recvLoop]
    split
    · rfl
    · cases pass.recv with
      | closed => rfl
      | error code =>
        dsimp only
        split
        · rfl
        · split
          · rfl
          · exact ih files
      | data chunk =>
        dsimp only
        have kept : (files.append tempName chunk.bytes).read name = files.read name :=
          FileSys.read_append_other chunk.bytes other
        split
        · exact kept
        · exact (ih _).trans kept

variable {startTime : Int} {pass : RecvPass}

/-- A quiet pass writes what it received and goes on. -/
theorem recvLoop_quiet (quiet : Quiet startTime pass) (rest : List RecvPass) (files : FileSys) :
    ∃ files', recvLoop startTime (pass :: rest) files = recvLoop startTime rest files' ∧
      files'.read tempName = (files.read tempName).map (· ++ received pass) := by
  obtain ⟨inTime, calm, goesOn⟩ := quiet
  rw [recvLoop, if_neg inTime, calm]
  cases outcome : pass.recv with
  | closed => simp [outcome] at goesOn
  | error code =>
    have transient : ¬ (code ≠ WSAEWOULDBLOCK ∧ code ≠ WSAENOTCONN) := by
      simp only [outcome] at goesOn
      tauto
    refine ⟨files, by simp [transient], ?_⟩
    simp [received, outcome]
  | data chunk =>
    refine ⟨files.append tempName chunk.bytes, by simp, ?_⟩
    rw [FileSys.read_append_self]
    simp [received, outcome]

/-- Any other pass that does not close the download fails it. -/
theorem recvLoop_fails (notQuiet : ¬ Quiet startTime pass)
    (notClosed : ¬ (¬ timedOut startTime pass.now pass.now' ∧ pass.recv = .closed))
    (rest : List RecvPass) (files : FileSys) :
    (recvLoop startTime (pass :: rest) files).1 = .failure := by
  rw [recvLoop]
  by_cases inTime : timedOut startTime pass.now pass.now'
  · rw [if_pos inTime]
  · rw [if_neg inTime]
    cases outcome : pass.recv with
    | closed => exact absurd ⟨inTime, outcome⟩ notClosed
    | error code =>
      dsimp only
      split
      · rfl
      next transient =>
        have excepted : pass.exception = true := by
          by_contra calm
          refine notQuiet ⟨inTime, by simpa using calm, ?_⟩
          simp only [outcome]
          tauto
        rw [if_pos excepted]
    | data chunk =>
      have excepted : pass.exception = true := by
        by_contra calm
        exact notQuiet ⟨inTime, by simpa using calm, by simp [outcome]⟩
      simp [excepted]

/-- The loop succeeds exactly if `recv` returned 0 before any failure or timeout, and
then the temporary file has grown by the chunks received. -/
theorem recvLoop_temp (startTime : Int) (passes : List RecvPass) (files : FileSys) (old : Text)
    (there : files.read tempName = some old) :
    (∃ content, Closed startTime passes content ∧
      (recvLoop startTime passes files).1 = .success ∧
      (recvLoop startTime passes files).2.read tempName = some (old ++ content)) ∨
    ((∀ content, ¬ Closed startTime passes content) ∧
      (recvLoop startTime passes files).1 ≠ .success) := by
  induction passes generalizing files old with
  | nil => exact .inr ⟨closed_nil startTime, by simp [recvLoop]⟩
  | cons pass rest ih =>
    by_cases closed : ¬ timedOut startTime pass.now pass.now' ∧ pass.recv = .closed
    · refine .inl ⟨[], closed_cons.mpr (.inl ⟨closed.1, closed.2, rfl⟩), ?_⟩
      simp [recvLoop, closed.1, closed.2, there]
    · by_cases quiet : Quiet startTime pass
      · obtain ⟨files', goesOn, grown⟩ := recvLoop_quiet quiet rest files
        rw [there, Option.map_some] at grown
        rw [goesOn]
        rcases ih files' _ grown with ⟨later, closes, success, content⟩ | ⟨never, notSuccess⟩
        · refine .inl ⟨received pass ++ later, closed_cons.mpr (.inr ⟨quiet, later, closes, rfl⟩),
            success, ?_⟩
          rw [content, List.append_assoc]
        · refine .inr ⟨fun content closes => ?_, notSuccess⟩
          rcases closed_cons.mp closes with ⟨inTime, ends, -⟩ | ⟨-, later, closesLater, -⟩
          · exact closed ⟨inTime, ends⟩
          · exact never later closesLater
      · refine .inr ⟨fun content closes => ?_, by simp [recvLoop_fails quiet closed]⟩
        rcases closed_cons.mp closes with ⟨inTime, ends, -⟩ | ⟨isQuiet, -⟩
        · exact closed ⟨inTime, ends⟩
        · exact quiet isQuiet

/-- The download came to its end: the temporary file opened, the connection was set up
and `recv` returned 0 before any failure or timeout. -/
def Downloads (s : RecvScript) (content : Text) : Prop :=
  s.fopen = true ∧ s.startWinsock = true ∧ connects s = true ∧
    Closed s.startTime s.passes content

theorem cache_not_temp : cacheName ≠ tempName := by decide

/-- `cfg.cache` changes only if the download came to its end, and then it holds exactly
the chunks received, in order; on every other exit it keeps its content. -/
theorem recv_cfg_atomic (s : RecvScript) (files : FileSys) :
    (∃ content, Downloads s content ∧
      (recvCfg s files).2.read cacheName = some content) ∨
    ((∀ content, ¬ Downloads s content) ∧
      (recvCfg s files).2.read cacheName = files.read cacheName) := by
  have created : (files.create tempName).read cacheName = files.read cacheName :=
    FileSys.read_create_other cache_not_temp
  unfold recvCfg
  by_cases opened : s.fopen = true
  case neg =>
    rw [if_pos (by simpa using opened)]
    exact .inr ⟨fun content down => opened down.1, rfl⟩
  rw [if_neg (by simp [opened])]
  by_cases started : s.startWinsock = true
  case neg =>
    rw [if_pos (by simpa using started)]
    exact .inr ⟨fun content down => started down.2.1, created⟩
  rw [if_neg (by simp [started])]
  by_cases connected : connects s = true
  case neg =>
    rw [if_pos (by simpa using connected)]
    exact .inr ⟨fun content down => connected down.2.2.1, created⟩
  rw [if_neg (by simp [connected])]
  have kept := recvLoop_other s.startTime s.passes (files.create tempName) cache_not_temp
  have loop := recvLoop_temp s.startTime s.passes (files.create tempName) []
    FileSys.read_create_self
  generalize recvLoop s.startTime s.passes (files.create tempName) = result at kept loop ⊢
  obtain ⟨exit, out⟩ := result
  rcases loop with ⟨content, closes, success, temp⟩ | ⟨never, notSuccess⟩
  · refine .inl ⟨content, ⟨opened, started, connected, closes⟩, ?_⟩
    obtain rfl : exit = .success := success
    apply FileSys.read_rename_new
    rw [FileSys.read_remove_other (Ne.symm cache_not_temp)]
    exact temp
  · refine .inr ⟨fun content down => never content down.2.2.2, ?_⟩
    cases exit with
    | success => exact absurd rfl notSuccess
    | failure => exact kept.trans created
    | running => exact kept.trans created

end MrBig.Guarantees.CacheAtomic
