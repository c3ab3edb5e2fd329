import MrBig.Library.Completion
import MrBig.Guarantees.ConfigProtocol
import MrBig.Guarantees.MinicfgName
import MrBig.Guarantees.ReplyPort

/-!
# Server and agent over all their connections

minicfg answers one client after the other and keeps the bb-hosts stream of each; the agent
downloads at every pass of its main loop and reads what `cfg.cache` then holds. Whatever order
the connections of this and of other agents come in, `cfg.cache` is a reply that minicfg made
for this agent, and the agent calls itself what that reply says.
-/

set_option autoImplicit false

namespace MrBig.Guarantees.Deployment
open Library Source ConfigProtocol MinicfgName ReplyPort

/-! ### Runs of the deployment -/

/-- The connections that minicfg has accepted, and the files of the agent. -/
structure State where
  accepted : List Accepted
  files : FileSys

section Runs

variable (display : DisplayName) (port : Int) (limit : Nat) (self : Address)
variable (Allowed : Connection → Prop)

/-- The agent's download: it fails before there is a connection, or it runs on one that
minicfg has accepted. -/
inductive Download (s : RecvScript) : State → State → Prop
  | alone (d : State) (fails : ¬ Starts s) :
    Download s d ⟨d.accepted, (recvCfg s d.files).2⟩
  | served (d : State) (bbHosts : Option Text) (c : Connection)
      (reached : Connection.Reaches
        (accept display port limit (opened display port limit d.accepted) ⟨self, bbHosts⟩).2
        s.startTime d.files .start c)
      (allowed : Allowed c) (passes : s.passes = c.passes)
      (returns : (recvCfg s d.files).1 ≠ .running) :
    Download s d ⟨d.accepted ++ [⟨self, bbHosts⟩], (recvCfg s d.files).2⟩

/-- Other clients come and go, and the agent downloads. -/
inductive Step : State → State → Prop
  | other (d : State) (a : Accepted) : Step d ⟨d.accepted ++ [a], d.files⟩
  | download (s : RecvScript) (d d' : State)
      (down : Download display port limit self Allowed s d d') : Step d d'

abbrev Reaches : State → State → Prop :=
  Relation.ReflTransGen (Step display port limit self Allowed)

/-- `content` is what a connection that was allowed had got of the reply made for this agent. -/
def FromReply (accepted : List Accepted) (content : Text) : Prop :=
  ∃ before a after c, accepted = before ++ a :: after ∧ a.cli = self ∧ Allowed c ∧
    content = (reply (nameGiven limit before a) display port).take c.server.m ∧
    (c.server.gaveUp = false → content = reply (nameGiven limit before a) display port)

variable {display port limit self Allowed}

theorem FromReply.append {accepted : List Accepted} {content : Text}
    (fromReply : FromReply display port limit self Allowed accepted content)
    (more : List Accepted) :
    FromReply display port limit self Allowed (accepted ++ more) content := by
  obtain ⟨before, a, after, c, split, rest⟩ := fromReply
  exact ⟨before, a, after ++ more, c, by simp [split], rest⟩

theorem not_success_of_not_starts {s : RecvScript} (fails : ¬ Starts s) (files : FileSys) :
    (recvCfg s files).1 ≠ .success := by
  intro success
  exact fails ((recvCfg_cache s files).1 success).1

/-- A download leaves `cfg.cache` alone or puts a reply there. -/
theorem Download.cache {s : RecvScript} {d d' : State}
    (down : Download display port limit self Allowed s d d') :
    d'.files.read cacheName = d.files.read cacheName ∨
      ∃ content, d'.files.read cacheName = some content ∧
        FromReply display port limit self Allowed d'.accepted content := by
  cases down with
  | alone fails => exact Or.inl ((recvCfg_cache s d.files).2 (not_success_of_not_starts fails _))
  | served bbHosts c reached allowed passes returns =>
    by_cases success : (recvCfg s d.files).1 = .success
    · obtain ⟨-, cache, whole⟩ := installed reached rfl passes success
      rw [accept_reply] at cache whole
      exact Or.inr ⟨_, cache, d.accepted, ⟨self, bbHosts⟩, [], c, rfl, rfl, allowed, rfl, whole⟩
    · exact Or.inl ((recvCfg_cache s d.files).2 success)

theorem Download.accepted {s : RecvScript} {d d' : State}
    (down : Download display port limit self Allowed s d d') :
    ∃ more, d'.accepted = d.accepted ++ more := by
  cases down with
  | alone fails => exact ⟨[], (List.append_nil _).symm⟩
  | served bbHosts => exact ⟨_, rfl⟩

/-- The cache is what it was at first, or from a reply made for this agent. -/
def CacheOrigin (display : DisplayName) (port : Int) (limit : Nat) (self : Address)
    (Allowed : Connection → Prop) (files : FileSys) (d : State) : Prop :=
  d.files.read cacheName = files.read cacheName ∨
    ∃ content, d.files.read cacheName = some content ∧
      FromReply display port limit self Allowed d.accepted content

theorem CacheOrigin.step {files : FileSys} {d d' : State}
    (origin : CacheOrigin display port limit self Allowed files d)
    (step : Step display port limit self Allowed d d') :
    CacheOrigin display port limit self Allowed files d' := by
  cases step with
  | other _ a =>
    rcases origin with same | ⟨content, cache, fromReply⟩
    · exact Or.inl same
    · exact Or.inr ⟨content, cache, fromReply.append [a]⟩
  | download s _ _ down =>
    rcases down.cache with same | installed
    · rcases origin with first | ⟨content, cache, fromReply⟩
      · exact Or.inl (same.trans first)
      · obtain ⟨more, accepted⟩ := down.accepted
        exact Or.inr ⟨content, same.trans cache, accepted ▸ fromReply.append more⟩
    · exact Or.inr installed

theorem cacheOrigin_of_reaches {files : FileSys} {d : State}
    (reached : Reaches display port limit self Allowed ⟨[], files⟩ d) :
    CacheOrigin display port limit self Allowed files d := by
  induction reached with
  | refl => exact Or.inl rfl
  | tail _ step ih => exact ih.step step

/-- In every order of connections of this and of other agents: `cfg.cache` is what it was at
first, or what a connection had got of the reply that minicfg made for this agent; whole, if the
server did not give up on it; with the name from bb-hosts as it was then, if fewer than `limit`
connections had found it before, and with `brokencfg-` and the address otherwise. -/
theorem cache_from_reply {files : FileSys} {d : State}
    (reached : Reaches display port limit self Allowed ⟨[], files⟩ d) :
    d.files.read cacheName = files.read cacheName ∨
      ∃ before a after c, d.accepted = before ++ a :: after ∧ a.cli = self ∧ Allowed c ∧
        d.files.read cacheName =
          some ((reply (nameGiven limit before a) display port).take c.server.m) ∧
        (c.server.gaveUp = false →
          d.files.read cacheName = some (reply (nameGiven limit before a) display port)) ∧
        (found before < limit → nameGiven limit before a = self.machine a.bbHosts) ∧
        (limit ≤ found before →
          (nameGiven limit before a).text = "brokencfg-".toList ++ self.text) := by
  rcases cacheOrigin_of_reaches reached with same | ⟨_, cache, fromReply⟩
  · exact Or.inl same
  · obtain ⟨before, a, after, c, split, rfl, allowed, rfl, whole⟩ := fromReply
    refine Or.inr ⟨before, a, after, c, split, rfl, allowed, cache, fun kept => ?_,
      fun few => ?_, fun all => nameGiven_after_limit a all⟩
    · rw [cache, whole kept]
    · rw [nameGiven, if_pos few]

/-! ### The last download -/

variable (display port limit self Allowed)

/-- A download that comes to its end on a connection that minicfg has accepted. -/
inductive Completed (s : RecvScript) (bbHosts : Option Text) (c : Connection) :
    State → State → Prop
  | served (d : State)
      (reached : Connection.Reaches
        (accept display port limit (opened display port limit d.accepted) ⟨self, bbHosts⟩).2
        s.startTime d.files .start c)
      (allowed : Allowed c) (passes : s.passes = c.passes)
      (success : (recvCfg s d.files).1 = .success) :
    Completed s bbHosts c d ⟨d.accepted ++ [⟨self, bbHosts⟩], (recvCfg s d.files).2⟩

/-- Other clients come and go, and no download of the agent comes to its end. -/
inductive Idle : State → State → Prop
  | other (d : State) (a : Accepted) : Idle d ⟨d.accepted ++ [a], d.files⟩
  | download (s : RecvScript) (d d' : State)
      (down : Download display port limit self Allowed s d d')
      (fails : (recvCfg s d.files).1 ≠ .success) : Idle d d'

variable {display port limit self Allowed}

theorem step_completed_or_idle (d d' : State)
    (step : Step display port limit self Allowed d d') :
    (∃ s bbHosts c, Completed display port limit self Allowed s bbHosts c d d') ∨
      Idle display port limit self Allowed d d' := by
  cases step with
  | other _ a => exact Or.inr (.other d a)
  | download s _ _ down =>
    by_cases success : (recvCfg s d.files).1 = .success
    · cases down with
      | alone fails => exact absurd success (not_success_of_not_starts fails d.files)
      | served bbHosts c reached allowed passes returns =>
        exact Or.inl ⟨s, bbHosts, c, .served d reached allowed passes success⟩
    · exact Or.inr (.download s d d' down success)

theorem Idle.cache {d d' : State} (idle : Idle display port limit self Allowed d d') :
    d'.files.read cacheName = d.files.read cacheName := by
  cases idle with
  | other => rfl
  | download s _ _ down fails =>
    cases down <;> exact (recvCfg_cache s d.files).2 fails

theorem cache_of_idle {d d' : State}
    (idle : Completion.Reaches (Idle display port limit self Allowed) d d') :
    d'.files.read cacheName = d.files.read cacheName := by
  induction idle with
  | refl => rfl
  | tail _ next ih => exact next.cache.trans ih

/-- A download that comes to its end leaves what the server had sent, and the whole reply unless
the server gave up. -/
theorem Completed.cache {s : RecvScript} {bbHosts : Option Text} {c : Connection} {d d' : State}
    (completed : Completed display port limit self Allowed s bbHosts c d d')
    (kept : c.server.gaveUp = false) :
    d'.files.read cacheName =
      some (reply (nameGiven limit d.accepted ⟨self, bbHosts⟩) display port) := by
  cases completed with
  | served reached allowed passes success =>
    obtain ⟨-, cache, whole⟩ := installed reached rfl passes success
    rw [accept_reply] at cache whole
    rw [cache, whole kept]

end Runs

/-! ### What the agent makes of a reply -/

/-- The name a reply makes the agent call itself: what `key[256]` leaves room for, with commas
for the dots. -/
def calledBy (name : MachineName) : Text :=
  (name.text.take 247).map fun c => if c = '.' then ',' else c

def displaysOf (name : MachineName) (display : DisplayName) : List DisplayAddress :=
  if sectionBehind name.text = "mrbig".toList then [⟨1984, display.text⟩] else []

theorem machineLine_value (name : MachineName) :
    keyValue (((machineLine name).take 999).take 255) =
      some ("machine".toList, name.text.take 247) := by
  obtain ⟨c, rest, split⟩ := List.exists_cons_of_ne_nil name.word.1
  have key : "machine ".toList = "machine".toList ++ [' '] := by decide
  have size : "machine ".toList.length = 8 := rfl
  have text : ((machineLine name).take 999).take 255 =
      "machine".toList ++ ' ' :: name.text.take 247 := by
    unfold machineLine
    rw [List.take_take, List.take_append, size, List.take_of_length_le (by rw [size]; decide), key,
      List.append_assoc]
    rfl
  have nonempty : name.text.take 247 ≠ [] := by simp [split]
  exact keyValue_key text (by decide) (by decide) nonempty fun c inside =>
    name.word.2 c (List.mem_of_mem_take inside)

section Settings

variable {name : MachineName} {display : DisplayName} {port : Int} {extra : List Add}

/-- The directives of the reply: its name, and display and port if the section keeps them. -/
theorem directives_reply (short : display.text.length < 248) (low : -2147483648 ≤ port)
    (high : port < 2147483648)
    (shape : ∀ a ∈ extra, a.1 = "mrbig".toList ∧ a.2 = name.text.drop 991)
    (few : extra.length ≤ 1) {conf : List Config}
    (fresh : sectionText conf "mrbig".toList = []) :
    directives (Source.addAll conf (replyAdds name display port extra)) =
      .machine (name.text.take 247) ::
        if sectionBehind name.text = "mrbig".toList then
          [.display display.text, .port (atoi (printInt port))] else [] := by
  have keyword := (lineDirective_of_keyValue (machineLine_value name)).trans
    (directive_keys (name.text.take 247)).1
  have fits : strlcpy (name.text.take 247) 256 = name.text.take 247 := by
    have size : (name.text.take 247).length ≤ 247 := List.length_take_le _ _
    exact List.take_of_length_le (by omega)
  have first : lineDirective (((machineLine name).take 999).take 255) =
      some (.machine (name.text.take 247)) := by rw [keyword, fits]
  have second := (lineDirective_of_keyValue (displayLine_directive display short)).trans
    (directive_keys display.text).2.2
  have third := (lineDirective_of_keyValue (portLine_directive low high)).trans
    (directive_keys (printInt port)).2.1
  have asked : directives (Source.addAll conf (replyAdds name display port extra)) =
      ((replyLines name display port extra).map (List.take 255)).filterMap lineDirective := by
    rw [← sectionLines_reply short low high shape few fresh]
    rfl
  rw [asked, replyLines, List.map_append, List.map_cons, List.filterMap_append,
    List.filterMap_cons_some first, lineDirective_rest shape]
  by_cases same : sectionBehind name.text = "mrbig".toList
  · rw [if_pos same, if_pos same, List.map_cons, List.map_cons, List.map_nil,
      List.filterMap_cons_some second, List.filterMap_cons_some third, List.filterMap_nil]
    rfl
  · rw [if_neg same, if_neg same]
    rfl

/-- After a reply the agent has the name and the display that it says. -/
theorem readcfg_reply (short : display.text.length < 248) (low : -2147483648 ≤ port)
    (high : port < 2147483648)
    (shape : ∀ a ∈ extra, a.1 = "mrbig".toList ∧ a.2 = name.text.drop 991)
    (few : extra.length ≤ 1) {conf : List Config}
    (fresh : sectionText conf "mrbig".toList = []) (opens : Text → Bool)
    (s : Settings) :
    (readcfg opens (Source.addAll conf (replyAdds name display port extra)) s).mrmachine =
        calledBy name ∧
      (readcfg opens (Source.addAll conf (replyAdds name display port extra)) s).mrdisplay =
        displaysOf name display := by
  refine ⟨?_, mrdisplay_reply short low high shape few fresh opens s⟩
  rw [readcfg, directives_reply short low high shape few fresh]
  split <;> rfl

end Settings

/-- The line that makes `read_cfg` download. -/
def IsConfigLine (b : Text) : Prop :=
  ".config ".toList <+: chomp b ∧
    ∃ host rest port, scanWord ((chomp b).drop 7) = some (host, rest) ∧
      scanInt rest = some port ∧ port ≠ 0

theorem readLine_config {nested : World → Text → Text → Option World} {w : World} {b : Text}
    (line : IsConfigLine b) (category : Text) :
    readLine World.recvCfg nested w category b =
      w.recvCfg.bind fun w => (nested w category cacheName).bind fun w => some (w, category) := by
  obtain ⟨begins, host, rest, port, scanned, number, nonzero⟩ := line
  have dot : (chomp b).head? = some '.' := by
    obtain ⟨tail, whole⟩ := begins
    rw [← whole]
    rfl
  have noBind : ¬ ".bind ".toList <+: chomp b := by
    intro bind
    obtain ⟨tail, whole⟩ := begins
    rw [← whole] at bind
    revert bind
    simp
  unfold readLine
  dsimp only
  rw [dot, if_neg (by decide), if_neg noBind, if_pos begins, scanned]
  dsimp only
  rw [number]
  exact if_pos nonzero

/-- A configuration file that says nothing but where to download. -/
theorem readCfg_config {w : World} {cfgfile text b : Text}
    (there : w.files.read cfgfile = some text) (lines : fileLines 1000 text = [b])
    (line : IsConfigLine b) (depth : Nat) :
    readCfg (depth + 1) w "mrbig".toList cfgfile =
      w.recvCfg.bind fun w => readCfg depth w "mrbig".toList cacheName := by
  have category : strlcpy "mrbig".toList 100 = "mrbig".toList := by decide
  rw [readCfg, there]
  dsimp only
  rw [lines, category, readLines, readLine_config line]
  simp only [Option.bind_eq_bind, Option.bind_assoc, Option.bind_some, Option.pure_def, readLines,
    Option.bind_fun_some]

theorem name_after_limit {limit : Nat} {before : List Accepted} (a : Accepted)
    (all : limit ≤ found before) :
    calledBy (nameGiven limit before a) =
      "brokencfg-".toList ++ a.cli.text.map fun c => if c = '.' then ',' else c := by
  have name := nameGiven_after_limit a all
  have short : ("brokencfg-".toList ++ a.cli.text).length ≤ 247 := by
    have size : "brokencfg-".toList.length = 10 := rfl
    have fits := a.cli.fits
    rw [List.length_append]
    omega
  rw [calledBy, name, List.take_of_length_le short, List.map_append]
  rfl

theorem recvCfg_returns {s : RecvScript} (fails : ¬ Starts s) (files : FileSys) :
    (recvCfg s files).1 ≠ .running := by
  intro running
  apply fails
  unfold Starts
  revert running
  unfold recvCfg
  by_cases opened : s.fopen = true <;> by_cases started : s.startWinsock = true <;>
    by_cases connected : connects s = true <;> simp_all

theorem world_recvCfg {w : World} {s : RecvScript} (net : w.net 0 = s)
    (returns : (Source.recvCfg s w.files).1 ≠ .running) :
    w.recvCfg = some { w with
      files := (Source.recvCfg s w.files).2
      net := fun n => w.net (n + 1) } := by
  unfold World.recvCfg
  rw [net]
  generalize Source.recvCfg s w.files = result at returns ⊢
  obtain ⟨exit, out⟩ := result
  cases exit with
  | running => exact absurd rfl returns
  | success => rfl
  | failure => rfl

/-- The server got rid of all that it meant to send. -/
def Unbroken (c : Connection) : Prop := c.server.gaveUp = false

/-- An agent that has no `cfg.cache` at first and whose configuration says nothing but where to
download, at any pass, whatever connections there were before. Where no download has come to its
end, the agent has no settings of its own. Otherwise, unless minicfg gave up on the connection of
the last one that did, it is called what the reply on that connection says and reports to the
display in it. A reply made after `limit` connections had found bb-hosts renames the agent to
`brokencfg-` and its address. -/
theorem agent_settings {display : DisplayName} {port : Int} {limit : Nat} {self : Address}
    {Allowed : Connection → Prop} (short : display.text.length < 248) (low : -2147483648 ≤ port)
    (high : port < 2147483648) {files : FileSys} (first : files.read cacheName = none)
    {s : RecvScript} {d d' : State}
    (reached : Reaches display port limit self Allowed ⟨[], files⟩ d)
    (down : Download display port limit self Allowed s d d')
    {w : World} (same : w.files = d.files) (cleared : w.conf = []) (net : w.net 0 = s)
    {cfgfile text b : Text} (there : w.files.read cfgfile = some text)
    (lines : fileLines 1000 text = [b]) (line : IsConfigLine b) (depth : Nat) :
    (Completion.Reaches (Idle display port limit self Allowed) ⟨[], files⟩ d' ∧
      ∃ w', readCfg (depth + 2) w "mrbig".toList cfgfile = some w' ∧ w'.files = d'.files ∧
        w'.conf = []) ∨
      ∃ s' bbHosts c before after, Reaches display port limit self Allowed ⟨[], files⟩ before ∧
        Completed display port limit self Allowed s' bbHosts c before after ∧
        Completion.Reaches (Idle display port limit self Allowed) after d' ∧
        (c.server.gaveUp = false →
          ∃ w', readCfg (depth + 2) w "mrbig".toList cfgfile = some w' ∧ w'.files = d'.files ∧
            (∀ opens settings,
              (readcfg opens w'.conf settings).mrmachine =
                calledBy (nameGiven limit before.accepted ⟨self, bbHosts⟩) ∧
              (readcfg opens w'.conf settings).mrdisplay =
                displaysOf (nameGiven limit before.accepted ⟨self, bbHosts⟩) display) ∧
            (limit ≤ found before.accepted →
              calledBy (nameGiven limit before.accepted ⟨self, bbHosts⟩) =
                "brokencfg-".toList ++ self.text.map fun c => if c = '.' then ',' else c)) := by
  have returns : (Source.recvCfg s w.files).1 ≠ .running := by
    rw [same]
    cases down with
    | alone fails => exact recvCfg_returns fails d.files
    | served bbHosts c reached' allowed passes returns => exact returns
  let w₁ : World := { w with
    files := (Source.recvCfg s w.files).2
    net := fun n => w.net (n + 1) }
  have files₁ : w₁.files = d'.files := by
    change (Source.recvCfg s w.files).2 = d'.files
    rw [same]
    cases down <;> rfl
  have received : readCfg (depth + 2) w "mrbig".toList cfgfile =
      readCfg (depth + 1) w₁ "mrbig".toList cacheName := by
    rw [readCfg_config there lines line, world_recvCfg net returns, Option.bind_some]
  rw [received]
  rcases Completion.exists_last step_completed_or_idle (reached.tail (.download s d d' down)) with
    never | ⟨before, after, start, ⟨s', bbHosts, c, completed⟩, idle⟩
  · have absent : w₁.files.read cacheName = none := by
      rw [files₁, cache_of_idle never, first]
    refine Or.inl ⟨never, w₁, ?_, files₁, cleared⟩
    rw [readCfg, absent]
  · refine Or.inr ⟨s', bbHosts, c, before, after, start, completed, idle, fun kept => ?_⟩
    have stored : w₁.files.read cacheName =
        some (reply (nameGiven limit before.accepted ⟨self, bbHosts⟩) display port) := by
      rw [files₁, cache_of_idle idle, completed.cache kept]
    obtain ⟨extra, shape, few, run⟩ :=
      readCfg_reply (nameGiven limit before.accepted ⟨self, bbHosts⟩) short low high stored
    have fresh : sectionText w.conf "mrbig".toList = [] := by
      rw [cleared]
      rfl
    exact ⟨_, run depth, files₁,
      fun opens settings => readcfg_reply short low high shape few fresh opens settings,
      fun all => name_after_limit ⟨self, bbHosts⟩ all⟩

/-! ### A neighbour and an agent -/

def neighbour : Accepted := ⟨⟨"10.0.0.8".toList, by decide, by decide, by decide⟩, some hostsFile⟩

/-- A server with two streams answers a neighbour and then the agent. -/
def twoAccepted : State := ⟨[neighbour, ⟨agentAddress, some hostsFile⟩],
  (recvCfg exchangeScript agentFiles).2⟩

theorem agent_downloads :
    Download loopback 1984 2 agentAddress Unbroken exchangeScript ⟨[neighbour], agentFiles⟩
      twoAccepted := by
  have sent : (accept loopback 1984 2 (opened loopback 1984 2 [neighbour])
      ⟨agentAddress, some hostsFile⟩).2 = agentReply := by decide +kernel
  refine .served ⟨[neighbour], agentFiles⟩ (some hostsFile) exchange ?_ ?_ rfl ?_
  · rw [sent]
    exact exchange_reached
  · change exchange.server.gaveUp = false
    decide +kernel
  · decide +kernel

theorem neighbour_first :
    Reaches loopback 1984 2 agentAddress Unbroken ⟨[], agentFiles⟩ ⟨[neighbour], agentFiles⟩ :=
  .single (.other ⟨[], agentFiles⟩ neighbour)

theorem cache_from_reply_twoAccepted :
    twoAccepted.files.read cacheName = agentFiles.read cacheName ∨
      ∃ before a after c, twoAccepted.accepted = before ++ a :: after ∧ a.cli = agentAddress ∧
        Unbroken c ∧
        twoAccepted.files.read cacheName =
          some ((reply (nameGiven 2 before a) loopback 1984).take c.server.m) ∧
        (c.server.gaveUp = false →
          twoAccepted.files.read cacheName = some (reply (nameGiven 2 before a) loopback 1984)) ∧
        (found before < 2 → nameGiven 2 before a = agentAddress.machine a.bbHosts) ∧
        (2 ≤ found before →
          (nameGiven 2 before a).text = "brokencfg-".toList ++ agentAddress.text) :=
  cache_from_reply (neighbour_first.tail (.download exchangeScript _ _ agent_downloads))

/-- The agent at its pass. -/
def agentWorld : World := ⟨agentFiles, [], [], "0.0.0.0".toList, fun _ => exchangeScript⟩

theorem agent_settings_twoAccepted :
    (Completion.Reaches (Idle loopback 1984 2 agentAddress Unbroken) ⟨[], agentFiles⟩ twoAccepted ∧
      ∃ w', readCfg 2 agentWorld "mrbig".toList "mrbig.cfg".toList = some w' ∧
        w'.files = twoAccepted.files ∧ w'.conf = []) ∨
      ∃ s' bbHosts c before after,
        Reaches loopback 1984 2 agentAddress Unbroken ⟨[], agentFiles⟩ before ∧
        Completed loopback 1984 2 agentAddress Unbroken s' bbHosts c before after ∧
        Completion.Reaches (Idle loopback 1984 2 agentAddress Unbroken) after twoAccepted ∧
        (c.server.gaveUp = false →
          ∃ w', readCfg 2 agentWorld "mrbig".toList "mrbig.cfg".toList = some w' ∧
            w'.files = twoAccepted.files ∧
            (∀ opens settings,
              (readcfg opens w'.conf settings).mrmachine =
                calledBy (nameGiven 2 before.accepted ⟨agentAddress, bbHosts⟩) ∧
              (readcfg opens w'.conf settings).mrdisplay =
                displaysOf (nameGiven 2 before.accepted ⟨agentAddress, bbHosts⟩) loopback) ∧
            (2 ≤ found before.accepted →
              calledBy (nameGiven 2 before.accepted ⟨agentAddress, bbHosts⟩) =
                "brokencfg-".toList ++
                  agentAddress.text.map fun c => if c = '.' then ',' else c)) := by
  have line : IsConfigLine ".config 10.0.0.1 27016\n".toList :=
    ⟨by decide, "10.0.0.1".toList, " 27016".toList, 27016, by decide, by decide, by decide⟩
  have there : agentWorld.files.read "mrbig.cfg".toList =
      some ".config 10.0.0.1 27016\n".toList := by decide
  exact agent_settings (by decide) (by decide) (by decide) (by decide) neighbour_first
    agent_downloads rfl rfl rfl there (by decide) line 0

end MrBig.Guarantees.Deployment
