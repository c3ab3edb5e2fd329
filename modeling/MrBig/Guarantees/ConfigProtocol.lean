import MrBig.Guarantees.CacheAtomic
import MrBig.Guarantees.ReplyPort
import MrBig.Source.ConfigServer

/-!
# What a download installs, however the two sides take turns

The server's loop, the stream and the client's loop interleave in any order. A download that
the client takes for complete installs what the server had sent when it closed the connection:
the whole reply, unless a `send` had failed. Every other download leaves `cfg.cache` alone.
-/

set_option autoImplicit false

namespace MrBig.Guarantees.ConfigProtocol
open Library Library.Channel Source CacheAtomic
open ReplyPort (loopback)

theorem received_eq_bytes (pass : RecvPass) : received pass = pass.recv.bytes := by
  unfold received RecvResult.bytes
  cases pass.recv <;> rfl

/-! ### The server's side is a transfer of the reply -/

variable {sendbuf : Text}

/-- The connection as a transfer of the reply. -/
structure Represents (c : Connection) (t : Transfer sendbuf) : Prop where
  pos : t.writer.pos = c.server.m
  broken : t.broken = c.server.gaveUp
  pipe : t.pipe = c.pipe
  shut : c.pipe.shut = c.server.closed

theorem represents_start (sendbuf : Text) : Represents .start (Transfer.start sendbuf) :=
  ⟨rfl, rfl, rfl, rfl⟩

theorem Represents.turn {c : Connection} {t : Transfer sendbuf} (r : SendResult)
    (represents : Represents c t) :
    ∃ t', Transfer.Reaches t t' ∧ Represents (c.serve sendbuf r) t' := by
  obtain ⟨pos, broken, pipe, shut⟩ := represents
  unfold Connection.serve Serving.turn
  by_cases closed : c.server.closed = true
  · have same : c.pipe.close = c.pipe := by
      rw [Pipe.close, ← closed, ← shut]
    rw [if_pos closed]
    dsimp only
    rw [if_pos closed, same]
    exact ⟨t, .refl, pos, broken, pipe, shut⟩
  rw [if_neg closed]
  have opened : c.server.closed = false := by simpa using closed
  by_cases sends : c.server.m < sendbuf.length ∧ c.server.gaveUp = false
  · rw [if_pos sends]
    have length : t.writer.rest.length = sendbuf.length - c.server.m := by
      rw [Cursor.length_rest, pos]
    dsimp only
    split
    next takes =>
      have amount : min (r.amount (sendbuf.length - c.server.m)) t.writer.rest.length =
          r.amount (sendbuf.length - c.server.m) := by
        apply Nat.min_eq_left
        rw [length]
        cases r with
        | error => exact Nat.zero_le _
        | taken len => exact Nat.min_le_right _ _
      refine ⟨_, .single (.put t (r.amount (sendbuf.length - c.server.m)) ?_ ?_), ?_⟩
      · rw [pipe, shut, opened]
      · rw [broken, sends.2]
      · refine ⟨?_, broken, ?_, ?_⟩
        · rw [Cursor.pos_advance, amount, pos]
        · simp only [pipe, Cursor.rest, pos, Nat.add_sub_cancel_left]
        · rw [Pipe.shut_write]
          exact shut
    next nothing =>
      refine ⟨_, .single (.breaks t), ?_⟩
      refine ⟨pos, rfl, ?_, ?_⟩
      · simp [pipe, Pipe.write]
      · rw [Pipe.shut_write]
        exact shut
  · rw [if_neg sends]
    have leaves : t.broken = true ∨ t.writer.rest = [] := by
      by_cases gaveUp : c.server.gaveUp = true
      · exact Or.inl (broken.trans gaveUp)
      · right
        apply List.eq_nil_of_length_eq_zero
        rw [Cursor.length_rest, pos]
        have finished : ¬ c.server.m < sendbuf.length :=
          fun more => sends ⟨more, by simpa using gaveUp⟩
        omega
    refine ⟨_, .single (.close t leaves), ?_⟩
    exact ⟨pos, broken, by simp [pipe], by simp⟩

/-- Every step of a connection is a step of the transfer, or none. -/
theorem Represents.step {startTime : Int} {files : FileSys} {c c' : Connection}
    {t : Transfer sendbuf} (represents : Represents c t)
    (step : Connection.Step sendbuf startTime files c c') :
    ∃ t', Transfer.Reaches t t' ∧ Represents c' t' := by
  cases step with
  | serve r => exact represents.turn r
  | receive pass offers inLoop =>
    refine ⟨_, .single (.take t pass.recv.bytes.length), represents.pos, represents.broken, ?_, ?_⟩
    · dsimp only [Connection.receive]
      rw [represents.pipe]
    · exact represents.shut

/-- Every connection that starts afresh is a transfer of the reply. -/
theorem exists_transfer {startTime : Int} {files : FileSys} {c : Connection}
    (reached : Connection.Reaches sendbuf startTime files .start c) :
    ∃ t : Transfer sendbuf, t.Faithful ∧ Represents c t := by
  induction reached with
  | refl => exact ⟨_, Transfer.faithful_start sendbuf, represents_start sendbuf⟩
  | tail _ step ih =>
    obtain ⟨t, faithful, represents⟩ := ih
    obtain ⟨t', moves, represents'⟩ := represents.step step
    exact ⟨t', faithful.of_reaches moves, represents'⟩

/-! ### The client's side -/

/-- The loop goes on where it was. -/
theorem recvLoop_append (startTime : Int) (passes rest : List RecvPass) (files : FileSys)
    (inLoop : (recvLoop startTime passes files).1 = .running) :
    recvLoop startTime (passes ++ rest) files =
      recvLoop startTime rest (recvLoop startTime passes files).2 := by
  induction passes generalizing files with
  | nil => rfl
  | cons pass passes ih =>
    rw [recvLoop] at inLoop
    rw [List.cons_append, recvLoop, recvLoop]
    split at inLoop
    · cases inLoop
    next inTime =>
      rw [if_neg inTime, if_neg inTime]
      cases outcome : pass.recv with
      | closed =>
        rw [outcome] at inLoop
        cases inLoop
      | error code =>
        rw [outcome] at inLoop
        dsimp only at inLoop ⊢
        split at inLoop
        · cases inLoop
        next transient =>
          rw [if_neg transient, if_neg transient]
          split at inLoop
          · cases inLoop
          next calm =>
            rw [if_neg calm, if_neg calm]
            exact ih files inLoop
      | data chunk =>
        rw [outcome] at inLoop
        dsimp only at inLoop ⊢
        split at inLoop
        · cases inLoop
        next calm =>
          rw [if_neg calm, if_neg calm]
          exact ih _ inLoop

/-- What the client has written is what the stream has delivered, and where it takes the
download for complete the stream is at its end. -/
structure Written (startTime : Int) (files : FileSys) (c : Connection) : Prop where
  inLoop : (recvLoop startTime c.passes (files.create tempName)).1 = .running →
    (recvLoop startTime c.passes (files.create tempName)).2.read tempName =
      some c.pipe.delivered
  ended : (recvLoop startTime c.passes (files.create tempName)).1 = .success →
    (recvLoop startTime c.passes (files.create tempName)).2.read tempName =
      some c.pipe.delivered ∧ c.pipe.AtEnd

theorem written_start (startTime : Int) (files : FileSys) :
    Written startTime files .start where
  inLoop := fun _ => FileSys.read_create_self
  ended := nofun

/-- One pass, from where the loop is. -/
theorem recvLoop_single (startTime : Int) (pass : RecvPass) (files : FileSys) {old : Text}
    (there : files.read tempName = some old) :
    ((recvLoop startTime [pass] files).1 = .running →
      (recvLoop startTime [pass] files).2.read tempName = some (old ++ received pass)) ∧
    ((recvLoop startTime [pass] files).1 = .success →
      pass.recv = .closed ∧
        (recvLoop startTime [pass] files).2.read tempName = some (old ++ received pass)) := by
  by_cases quiet : Quiet startTime pass
  · obtain ⟨files', goesOn, grown⟩ := recvLoop_quiet quiet [] files
    rw [there, Option.map_some] at grown
    rw [goesOn]
    refine ⟨fun _ => grown, fun success => ?_⟩
    cases success
  · by_cases closed : ¬ timedOut startTime pass.now pass.now' ∧ pass.recv = .closed
    · obtain ⟨inTime, ends⟩ := closed
      have nothing : received pass = [] := by simp [received, ends]
      rw [nothing, List.append_nil]
      simp [recvLoop, inTime, ends, there]
    · rw [recvLoop_fails quiet closed]
      constructor
      · intro running
        cases running
      · intro success
        cases success

theorem pipe_serve (r : SendResult) (c : Connection) :
    (c.serve sendbuf r).pipe.delivered = c.pipe.delivered := by
  unfold Connection.serve
  dsimp only
  split <;> rfl

/-- At the end nothing more can come. -/
theorem atEnd_serve {c : Connection} {t : Transfer sendbuf} (represents : Represents c t)
    (r : SendResult) (ended : c.pipe.AtEnd) : (c.serve sendbuf r).pipe.AtEnd := by
  have closed : c.server.closed = true := represents.shut.symm.trans ended.1
  unfold Connection.serve Serving.turn
  simp only [if_pos closed, Pipe.AtEnd, Pipe.close, true_and]
  exact ended.2

theorem Written.step {startTime : Int} {files : FileSys} {c c' : Connection}
    {t : Transfer sendbuf} (represents : Represents c t) (written : Written startTime files c)
    (step : Connection.Step sendbuf startTime files c c') : Written startTime files c' := by
  cases step with
  | serve r =>
    refine ⟨fun running => ?_, fun success => ?_⟩
    · rw [pipe_serve]
      exact written.inLoop running
    · rw [pipe_serve]
      obtain ⟨temp, ended⟩ := written.ended success
      exact ⟨temp, atEnd_serve represents r ended⟩
  | receive pass offers inLoop =>
    have goesOn := recvLoop_append startTime c.passes [pass] (files.create tempName) inLoop
    obtain ⟨running, success⟩ := recvLoop_single startTime pass _ (written.inLoop inLoop)
    have delivered : (c.receive pass).pipe.delivered = c.pipe.delivered ++ received pass := by
      rw [received_eq_bytes]
      apply Pipe.delivered_read_of_prefix
      cases outcome : pass.recv with
      | data chunk =>
        rw [outcome] at offers
        exact offers
      | closed => exact List.nil_prefix
      | error code => exact List.nil_prefix
    unfold Connection.receive at delivered ⊢
    refine ⟨fun still => ?_, fun done => ?_⟩
    · rw [goesOn] at still ⊢
      rw [delivered]
      exact running still
    · rw [goesOn] at done ⊢
      obtain ⟨closed, temp⟩ := success done
      rw [closed] at offers
      refine ⟨temp.trans (congrArg some delivered.symm), offers.1, ?_⟩
      dsimp only
      rw [closed]
      exact offers.2

/-! ### A download can still be completed -/

/-- Two turns in which `send` takes all it is offered bring the server behind its loop. -/
theorem turn_twice {n : Nat} {s : Serving} (inside : s.m ≤ n) (sound : s.gaveUp = false) :
    ((s.turn n (.taken n)).turn n .error).closed = true ∧
      ((s.turn n (.taken n)).turn n .error).gaveUp = false := by
  by_cases closed : s.closed = true
  · simp [Serving.turn, closed, sound]
  · by_cases sends : s.m < n
    · have all : s.m + (n - s.m) = n := Nat.add_sub_cancel' inside
      have positive : 0 < n - s.m := Nat.sub_pos_of_lt sends
      simp [Serving.turn, closed, sends, sound, SendResult.amount, all, positive]
    · simp [Serving.turn, closed, sends, sound]

section Completes

variable {startTime : Int} {files : FileSys} {c : Connection}

theorem exists_shut (reached : Connection.Reaches sendbuf startTime files .start c)
    (sound : c.server.gaveUp = false) :
    ∃ c', Connection.Reaches sendbuf startTime files c c' ∧ c'.passes = c.passes ∧
      c'.server.closed = true ∧ c'.server.gaveUp = false := by
  obtain ⟨t, -, represents⟩ := exists_transfer reached
  have inside : c.server.m ≤ sendbuf.length := represents.pos ▸ t.writer.inside
  obtain ⟨closed, still⟩ := turn_twice inside sound
  refine ⟨(c.serve sendbuf (.taken sendbuf.length)).serve sendbuf .error, ?_, rfl, closed, still⟩
  exact .tail (.single (.serve c _)) (.serve _ _)

theorem inTime (startTime : Int) : ¬ timedOut startTime startTime startTime := by
  unfold timedOut
  omega

/-- The client reads what is on its way, if that fits its buffer. -/
theorem exists_drained (fits : c.pipe.inFlight.length ≤ 32000)
    (inLoop : (recvLoop startTime c.passes (files.create tempName)).1 = .running) :
    ∃ c', Connection.Reaches sendbuf startTime files c c' ∧ c'.server = c.server ∧
      c'.pipe.shut = c.pipe.shut ∧ c'.pipe.inFlight = [] ∧
      (recvLoop startTime c'.passes (files.create tempName)).1 = .running := by
  by_cases nothing : c.pipe.inFlight = []
  · exact ⟨c, .refl, rfl, rfl, nothing, inLoop⟩
  let chunk : Chunk := ⟨c.pipe.inFlight, nothing, fits⟩
  let pass : RecvPass := ⟨startTime, startTime, .data chunk, false⟩
  have quiet : Quiet startTime pass := ⟨inTime startTime, rfl, trivial⟩
  refine ⟨c.receive pass, .single (.receive c pass (List.prefix_refl _) inLoop), rfl, rfl, ?_, ?_⟩
  · exact List.drop_length
  · rw [Connection.receive, recvLoop_append _ _ _ _ inLoop]
    obtain ⟨files', goesOn, -⟩ := recvLoop_quiet quiet [] (recvLoop startTime c.passes
      (files.create tempName)).2
    rw [goesOn]
    rfl

theorem exists_success (fits : sendbuf.length ≤ 32000)
    (reached : Connection.Reaches sendbuf startTime files .start c)
    (sound : c.server.gaveUp = false)
    (inLoop : (recvLoop startTime c.passes (files.create tempName)).1 = .running) :
    ∃ c', Connection.Reaches sendbuf startTime files c c' ∧ c'.server.gaveUp = false ∧
      (recvLoop startTime c'.passes (files.create tempName)).1 = .success := by
  obtain ⟨c₁, first, samePasses, closed, sound₁⟩ := exists_shut reached sound
  obtain ⟨t, faithful, represents⟩ := exists_transfer (reached.trans first)
  have onItsWay : c₁.pipe.inFlight.length ≤ 32000 := by
    have sent := congrArg List.length faithful.sent
    have done : t.writer.done.length ≤ sendbuf.length := List.length_take_le' _ _
    rw [represents.pipe, Pipe.sent, List.length_append] at sent
    omega
  rw [← samePasses] at inLoop
  obtain ⟨c₂, second, sameServer, shut, drained, inLoop₂⟩ := exists_drained onItsWay inLoop
  let pass : RecvPass := ⟨startTime, startTime, .closed, false⟩
  have ended : c₂.pipe.AtEnd := ⟨by rw [shut, represents.shut, closed], drained⟩
  refine ⟨c₂.receive pass, .tail (first.trans second) (.receive c₂ pass ended inLoop₂), ?_, ?_⟩
  · rw [← sound₁, ← sameServer]
    rfl
  · rw [Connection.receive, recvLoop_append _ _ _ _ inLoop₂]
    simp [recvLoop, pass, inTime startTime]

end Completes

/-! ### What `recv_cfg` installs -/

theorem written_of_reaches {startTime : Int} {files : FileSys} {c : Connection}
    (reached : Connection.Reaches sendbuf startTime files .start c) :
    Written startTime files c := by
  induction reached with
  | refl => exact written_start startTime files
  | tail before step ih =>
    obtain ⟨t, -, represents⟩ := exists_transfer before
    exact ih.step represents step

/-- `recv_cfg` up to its loop went well. -/
def Starts (s : RecvScript) : Prop :=
  s.fopen = true ∧ s.startWinsock = true ∧ connects s = true

theorem recvCfg_cache (s : RecvScript) (files : FileSys) :
    ((recvCfg s files).1 = .success →
      Starts s ∧ (recvLoop s.startTime s.passes (files.create tempName)).1 = .success ∧
      ∀ content, (recvLoop s.startTime s.passes (files.create tempName)).2.read tempName =
        some content → (recvCfg s files).2.read cacheName = some content) ∧
    ((recvCfg s files).1 ≠ .success →
      (recvCfg s files).2.read cacheName = files.read cacheName) := by
  have created : (files.create tempName).read cacheName = files.read cacheName :=
    FileSys.read_create_other cache_not_temp
  unfold recvCfg Starts
  by_cases opened : s.fopen = true
  case neg => simp [opened]
  by_cases started : s.startWinsock = true
  case neg => simp [opened, started, created]
  by_cases connected : connects s = true
  case neg => simp [opened, started, connected, created]
  have kept := recvLoop_other s.startTime s.passes (files.create tempName) cache_not_temp
  rw [if_neg (by simp [opened]), if_neg (by simp [started]), if_neg (by simp [connected])]
  generalize recvLoop s.startTime s.passes (files.create tempName) = result at kept ⊢
  obtain ⟨exit, out⟩ := result
  cases exit with
  | success =>
    refine ⟨fun _ => ⟨⟨opened, started, connected⟩, rfl, fun content temp => ?_⟩, nofun⟩
    apply FileSys.read_rename_new
    rw [FileSys.read_remove_other (Ne.symm cache_not_temp)]
    exact temp
  | failure => exact ⟨nofun, fun _ => kept.trans created⟩
  | running => exact ⟨nofun, fun _ => kept.trans created⟩

theorem recvCfg_of_starts {s : RecvScript} (starts : Starts s) (files : FileSys) :
    (recvCfg s files).1 = (recvLoop s.startTime s.passes (files.create tempName)).1 := by
  obtain ⟨opened, started, connected⟩ := starts
  unfold recvCfg
  rw [if_neg (by simp [opened]), if_neg (by simp [started]), if_neg (by simp [connected])]
  generalize recvLoop s.startTime s.passes (files.create tempName) = result
  obtain ⟨exit, out⟩ := result
  cases exit <;> rfl

/-- What a download that succeeds installs is what the server had sent when it closed: the whole
reply, if its `send` calls all took something. -/
theorem installed {startTime : Int} {files : FileSys} {c : Connection}
    (reached : Connection.Reaches sendbuf startTime files .start c) {s : RecvScript}
    (time : s.startTime = startTime) (passes : s.passes = c.passes)
    (success : (recvCfg s files).1 = .success) :
    c.server.closed = true ∧
      (recvCfg s files).2.read cacheName = some (sendbuf.take c.server.m) ∧
      (c.server.gaveUp = false → sendbuf.take c.server.m = sendbuf) := by
  obtain ⟨t, faithful, represents⟩ := exists_transfer reached
  obtain ⟨-, done, content⟩ := (recvCfg_cache s files).1 success
  rw [time, passes] at done content
  obtain ⟨temp, ended⟩ := (written_of_reaches reached).ended done
  have ended' : t.pipe.AtEnd := represents.pipe ▸ ended
  obtain ⟨sent, whole⟩ := faithful.whole_at_end ended'
  have takes : t.writer.done = sendbuf.take c.server.m := by rw [Cursor.done, represents.pos]
  refine ⟨represents.shut.symm.trans ended.1, ?_, fun sound => ?_⟩
  · rw [content _ temp, ← represents.pipe, sent, takes]
  · rw [← takes, ← sent]
    exact whole (represents.broken.trans sound)

theorem reply_length (machine : MachineName) (display : DisplayName) (port : Int) :
    (reply machine display port).length ≤ 32000 := by
  unfold reply strlcpy
  exact Nat.le_trans (List.length_take_le _ _) (by decide)

/-- Whatever turns the two sides have taken: `cfg.cache` is replaced only when the client has
seen the end of the connection, and then by what the server had sent of its reply, all of it
unless a `send` had failed; on every other exit it keeps its content. And a client in its loop
whose server has not given up can still get the whole reply. -/
theorem download_atomic (machine : MachineName) (display : DisplayName) (port : Int)
    (files : FileSys) (s : RecvScript) (c : Connection)
    (reached : Connection.Reaches (reply machine display port) s.startTime files .start c)
    (passes : s.passes = c.passes) :
    ((recvCfg s files).1 = .success →
      c.server.closed = true ∧
      (recvCfg s files).2.read cacheName =
        some ((reply machine display port).take c.server.m) ∧
      (c.server.gaveUp = false →
        (recvCfg s files).2.read cacheName = some (reply machine display port))) ∧
    ((recvCfg s files).1 ≠ .success →
      (recvCfg s files).2.read cacheName = files.read cacheName) ∧
    ((recvCfg s files).1 = .running → c.server.gaveUp = false →
      ∃ c', Connection.Reaches (reply machine display port) s.startTime files c c' ∧
        (recvCfg { s with passes := c'.passes } files).1 = .success ∧
        (recvCfg { s with passes := c'.passes } files).2.read cacheName =
          some (reply machine display port)) := by
  refine ⟨fun success => ?_, (recvCfg_cache s files).2, fun running sound => ?_⟩
  · obtain ⟨closed, cache, whole⟩ := installed reached rfl passes success
    refine ⟨closed, cache, fun sound => ?_⟩
    rw [cache, whole sound]
  · have starts : Starts s := by
      by_contra fails
      unfold Starts at fails
      revert running
      unfold recvCfg
      by_cases opened : s.fopen = true <;> by_cases started : s.startWinsock = true <;>
        by_cases connected : connects s = true <;> simp_all
    have inLoop := (recvCfg_of_starts starts files).symm.trans running
    rw [passes] at inLoop
    obtain ⟨c', later, sound', done⟩ :=
      exists_success (reply_length machine display port) reached sound inLoop
    have success : (recvCfg { s with passes := c'.passes } files).1 = .success :=
      (recvCfg_of_starts (s := { s with passes := c'.passes }) starts files).trans done
    obtain ⟨-, cache, whole⟩ := installed (s := { s with passes := c'.passes })
      (reached.trans later) rfl rfl success
    exact ⟨c', later, success, by rw [cache, whole sound']⟩

/-! ### An exchange -/

def agentAddress : Address := ⟨"10.0.0.7".toList, by decide, by decide, by decide⟩

def hostsFile : Text := "10.0.0.7 alpha\n".toList

def agentFiles : FileSys := [⟨"mrbig.cfg".toList, ".config 10.0.0.1 27016\n".toList⟩]

def agentReply : Text := reply (agentAddress.machine (some hostsFile)) loopback 1984

def passAtStart (recv : RecvResult) : RecvPass := ⟨0, 0, recv, false⟩

def replyChunk : Chunk := ⟨agentReply, by decide +kernel, by decide +kernel⟩

/-- The server sends the reply in one piece and closes, then the client reads it. -/
def exchange : Connection :=
  (((Connection.start.serve agentReply (.taken 32000)).serve agentReply .error).receive
    (passAtStart (.data replyChunk))).receive (passAtStart .closed)

def exchangeScript : RecvScript := ⟨true, true, true, true, true, true, none, 0, exchange.passes⟩

theorem exchange_reached : Connection.Reaches agentReply 0 agentFiles .start exchange := by
  refine .tail (.tail (.tail (.single (.serve _ _)) (.serve _ _)) (.receive _ _ ?_ ?_))
    (.receive _ _ ?_ ?_)
  · change replyChunk.bytes <+: _
    decide +kernel
  · decide +kernel
  · exact ⟨by decide +kernel, by decide +kernel⟩
  · decide +kernel

theorem exchange_installs :
    (recvCfg exchangeScript agentFiles).2.read cacheName = some agentReply :=
  ((download_atomic (agentAddress.machine (some hostsFile)) loopback 1984 agentFiles
    exchangeScript exchange exchange_reached rfl).1 (by decide +kernel)).2.2 (by decide +kernel)

end MrBig.Guarantees.ConfigProtocol
