import DebRelease.Proofs.Manifest.Runs
import DebRelease.Proofs.Run.Parallel
import DebRelease.Tool.Launcher

namespace DebRelease

/-- The session but for what was written to the terminal. -/
def Session.unwritten {σ : Type} (s : Session σ) : Session σ :=
  { s with writes := [] }

/-- The reply but for what was written to the terminal. -/
def Reply.unwritten {σ α : Type} (reply : Reply σ α) : Reply σ α :=
  { reply with writes := [] }

open RunM

variable {σ α : Type} {tools tools' : Runner σ} {console console' : Console} {s₀ s s' : Session σ}

/-- Tools that answer the same and do the same, whatever they write to the terminal. -/
structure Runner.AnswersAlike (tools tools' : Runner σ) : Prop where
  run command tree memory : (tools'.run command tree memory).unwritten = (tools.run command tree memory).unwritten
  capture command tree memory :
    (tools'.capture command tree memory).unwritten = (tools.capture command tree memory).unwritten

/-- A conversation with tools: what they remember at first, the calls that they answer one after another, what they
    write to the terminal the while, and what they remember then. -/
inductive Runner.Converses (tools : Runner σ) : σ → List Call → List Write → σ → Prop where
  | silence (memory : σ) : Converses tools memory [] [] memory
  /-- One more call is answered whose output is shown. -/
  | run {before memory : σ} {calls : List Call} {writes : List Write} (command : ToolCommand) (tree : FileTree)
    (reply : Reply σ ToolStatus) (h : Converses tools before calls writes memory)
    (hreply : tools.run command tree memory = reply) :
    Converses tools before
      (calls ++ [⟨.run, command, tree, reply.outcome.map fun status => ⟨status, ""⟩, reply.tree⟩])
      (writes ++ reply.writes) reply.memory
  /-- One more call is answered whose output is kept. -/
  | capture {before memory : σ} {calls : List Call} {writes : List Write} (command : ToolCommand) (tree : FileTree)
    (reply : Reply σ Captured) (h : Converses tools before calls writes memory)
    (hreply : tools.capture command tree memory = reply) :
    Converses tools before (calls ++ [⟨.capture, command, tree, reply.outcome, reply.tree⟩])
      (writes ++ reply.writes) reply.memory

/-- All that was written to the terminal since a first session was written by the tools, as they answered the calls
    made since. -/
def Session.OnlyTools (tools : Runner σ) (s₀ s : Session σ) : Prop :=
  ∃ made shown, s.calls = s₀.calls ++ made ∧ s.writes = s₀.writes ++ shown ∧
    tools.Converses s₀.memory made shown s.memory

namespace Runner

/-- If all that tools write is of a kind, so is all that they write in a conversation. -/
theorem Converses.forall_writes {P : Write → Prop} {before after : σ} {calls : List Call} {shown : List Write}
    (h : tools.Converses before calls shown after)
    (hrun : ∀ command tree memory, ∀ write ∈ (tools.run command tree memory).writes, P write)
    (hcapture : ∀ command tree memory, ∀ write ∈ (tools.capture command tree memory).writes, P write) :
    ∀ write ∈ shown, P write := by
  induction h with
  | silence => simp
  | run command tree reply _ hreply ih =>
    exact List.forall_mem_append.mpr ⟨ih, hreply ▸ hrun command tree _⟩
  | capture command tree reply _ hreply ih =>
    exact List.forall_mem_append.mpr ⟨ih, hreply ▸ hcapture command tree _⟩

end Runner

namespace Session

theorem unwritten_eq_iff : s'.unwritten = s.unwritten ↔
    s'.tree = s.tree ∧ s'.memory = s.memory ∧ s'.calls = s.calls ∧ s'.log = s.log := by
  simp [unwritten]

theorem onlyTools_refl (tools : Runner σ) (s : Session σ) : OnlyTools tools s s :=
  ⟨[], [], by simp, by simp, .silence _⟩

end Session

/-- A call that is answered alike leaves sessions that are the same but for what was written. -/
private theorem matches_call (mode : CallMode) (command : ToolCommand)
    {answer answer' : ToolCommand → FileTree → σ → Reply σ α} (kept : α → Captured)
    (h : ∀ tree memory, (answer' command tree memory).unwritten = (answer command tree memory).unwritten) :
    Matches (fun s s' : Session σ => s'.unwritten = s.unwritten) (call mode command answer kept)
      (call mode command answer' kept) := by
  intro s s' hsame
  obtain ⟨htree, hmemory, hcalls, hlog⟩ := Session.unwritten_eq_iff.mp hsame
  have hreply := h s.tree s.memory
  simp only [Reply.unwritten, Reply.mk.injEq] at hreply
  obtain ⟨houtcome, htree', hmemory', -⟩ := hreply
  refine ⟨by simp only [call, htree, hmemory, houtcome], Session.unwritten_eq_iff.mpr ?_⟩
  simp only [call, htree, hmemory, hcalls, hlog, houtcome, htree', hmemory', and_self]

/-- Runs with two terminals leave sessions that are the same but for what was written. -/
theorem Steady.unwritten (h : tools.AnswersAlike tools') (console console' : Console) :
    Steady (fun s s' => s'.unwritten = s.unwritten) tools tools' console console' where
  work m s s' hsame := by
    obtain ⟨htree, hmemory, hcalls, hlog⟩ := Session.unwritten_eq_iff.mp hsame
    exact ⟨by simp [htree], Session.unwritten_eq_iff.mpr (by simp [htree, hmemory, hcalls, hlog])⟩
  log level text s s' hsame := by
    obtain ⟨htree, hmemory, hcalls, hlog⟩ := Session.unwritten_eq_iff.mp hsame
    exact ⟨rfl, Session.unwritten_eq_iff.mpr (by simp [htree, hmemory, hcalls, hlog])⟩
  message _ _ s s' hsame := ⟨rfl, hsame⟩
  run command := matches_call .run command _ (h.run command)
  capture command := matches_call .capture command _ (h.capture command)

/-- With a quiet terminal only the tools write. -/
theorem Steady.onlyTools (s₀ : Session σ) (hquiet : console.quiet = true) :
    Steady (fun s s' => s' = s ∧ s₀.OnlyTools tools s) tools tools console console where
  work m s s' := by
    rintro ⟨rfl, h⟩
    exact ⟨rfl, rfl, h⟩
  log level text s s' := by
    rintro ⟨rfl, h⟩
    exact ⟨rfl, rfl, h⟩
  message shown hmutes s s' := by
    rintro ⟨rfl, h⟩
    rw [hmutes console hquiet]
    exact ⟨rfl, rfl, by simpa using h⟩
  run command s s' := by
    rintro ⟨rfl, made, shown, hcalls, hwrites, hconverses⟩
    refine ⟨rfl, rfl, _, _, ?_, ?_, hconverses.run command s'.tree _ rfl⟩
    · simp [call, hcalls]
    · simp [call, hwrites]
  capture command s s' := by
    rintro ⟨rfl, made, shown, hcalls, hwrites, hconverses⟩
    refine ⟨rfl, rfl, _, _, ?_, ?_, hconverses.capture command s'.tree _ rfl⟩
    · simp [call, hcalls, Except.map_id]
    · simp [call, hwrites]

namespace Pipeline

/-- With tools that answer alike, runs come to the same with any terminal, and leave sessions that are the same but for
    what was written. -/
theorem results_unwritten {p : Pipeline σ} (h : p.tools.AnswersAlike tools) (console : Console)
    (values : List (Option String)) (s : Session σ) :
    ((p.equipped tools console).results values s).map (fun result => (result.1, result.2.unwritten)) =
      (p.results values s).map fun result => (result.1, result.2.unwritten) := by
  have hboth := results_matches (Steady.unwritten h p.console console) values (s := s) rfl
  generalize p.results values s = runs, (p.equipped tools console).results values s = runs' at hboth ⊢
  induction hboth with
  | nil => rfl
  | cons hsame _ ih => rw [List.map_cons, List.map_cons, ih, hsame.1, hsame.2]

/-- In quiet runs only the tools write. -/
theorem results_onlyTools {p : Pipeline σ} (hquiet : p.console.quiet = true) (values : List (Option String))
    (s : Session σ) : ∀ result ∈ p.results values s, s.OnlyTools p.tools result.2 := by
  -- A run beside itself: two runs side by side are more than is needed, but their rules serve for one.
  have hboth := results_matches (p := p) (Steady.onlyTools s hquiet) values ⟨rfl, s.onlyTools_refl p.tools⟩
  intro result hmem
  exact (List.forall₂_same.mp hboth result hmem).2.2

/-- Verbosity changes nothing but what is shown. With any two settings, runs one after another come to the same
    reports and failures, make the same calls on the same trees, log the same and leave the same trees; and when they
    are quiet, all that they write is what the tools write while they answer the calls. -/
theorem results_regardless_of_verbosity (p : Pipeline σ) (verbose quiet color verbose' quiet' color' : Bool)
    (values : List (Option String)) (s : Session σ) :
    ((p.equipped p.tools (.ofFlags verbose' quiet' color')).results values s).map
        (fun result => (result.1, result.2.unwritten)) =
      ((p.equipped p.tools (.ofFlags verbose quiet color)).results values s).map
        (fun result => (result.1, result.2.unwritten)) ∧
    ∀ result ∈ (p.equipped p.tools (.ofFlags verbose true color)).results values s,
      s.OnlyTools p.tools result.2 := by
  constructor
  · exact results_unwritten (p := p.equipped p.tools (.ofFlags verbose quiet color))
      ⟨fun _ _ _ => rfl, fun _ _ _ => rfl⟩ _ values s
  · exact results_onlyTools (p := p.equipped p.tools (.ofFlags verbose true color)) rfl values s

/-- A machine with one program, which prints a version and complains. -/
def complainingHost : Host where
  tree := smallTree [("/python", .file (Bytes.ofText "#!/bin/sh\necho 1.2.0\necho careful >&2\n") true)]
  cwd := some []
  environment := [("PATH", Bytes.ofText "/")]

/-- A run on that machine, where the program is the version command. -/
def complaining (console : Console) : Pipeline Unit :=
  let p := small "/b" "y" (Launcher.runner complainingHost console)
  { p with
    config := { p.config with versioning := ⟨"VERSION", some ⟨"python", []⟩, []⟩ }
    console }

/-- A quiet run is not silent: what the version command writes to standard error passes through. -/
theorem not_results_silent :
    ¬ ∀ (p : Pipeline Unit) (verbose color : Bool) (values : List (Option String)) (s : Session Unit),
      ∀ result ∈ (p.equipped p.tools (.ofFlags verbose true color)).results values s,
        result.2.writes = s.writes := by
  intro hclaim
  have hsilent := hclaim (complaining (.ofFlags false true false)) false false [none] (.start complainingHost.tree ())
    _ List.mem_cons_self
  exact absurd hsilent (by decide +kernel)

end Pipeline

namespace Launcher

/-- Whether and how a program runs does not hang on the terminal. -/
theorem launch_alike (h : Host) (activity activity' : String) (command : ToolCommand) (console console' : Console) :
    ∃ outcome writes writes', launch h console activity command = (outcome, writes) ∧
      launch h console' activity' command = (outcome, writes') := by
  rw [launch, launch]
  cases Lookup.program? h (command.searchPath <|> h.searchPath?) command.cwd command.program <;>
    exact ⟨_, _, _, rfl, rfl⟩

/-- Without details nothing is shown about it. -/
private theorem launch_muted (hverbose : console.verbose = false) (h : Host) (activity : String)
    (command : ToolCommand) : ∃ outcome, launch h console activity command = (outcome, []) := by
  have hdetail (text : String) : console.detail text = [] := by simp [Console.detail, hverbose]
  rw [launch]
  cases Lookup.program? h (command.searchPath <|> h.searchPath?) command.cwd command.program <;> simp [hdetail]

/-- The tools of a machine answer the same and do the same with every terminal. -/
theorem answersAlike (h : Host) (console console' : Console) :
    (runner h console).AnswersAlike (runner h console') where
  run command tree memory := by
    obtain ⟨outcome, _, _, hlaunch, hlaunch'⟩ :=
      launch_alike { h with tree } "Running" "Running" command console console'
    simp only [runner, run, hlaunch, hlaunch']
    cases outcome <;> rfl
  capture command tree memory := by
    obtain ⟨outcome, _, _, hlaunch, hlaunch'⟩ :=
      launch_alike { h with tree } "Capturing" "Capturing" command console console'
    simp only [runner, capture, hlaunch, hlaunch']
    cases outcome <;> rfl

/-- Tools whose output is shown write nothing to a quiet terminal. -/
private theorem run_muted (hverbose : console.verbose = false) (hquiet : console.quiet = true) (h : Host)
    (command : ToolCommand) (tree : FileTree) (memory : Unit) : (run h console command tree memory).writes = [] := by
  have hforward (stream : Stream) (bytes : Bytes) : forward console stream bytes = [] := by
    simp [forward, Console.indented, Console.unlessQuiet, hquiet]
  obtain ⟨outcome, hlaunch⟩ := launch_muted hverbose { h with tree } "Running" command
  rw [run, hlaunch]
  cases outcome <;> simp [hforward]

/-- Tools whose output is kept write to standard error alone. -/
private theorem capture_writes (hverbose : console.verbose = false) (h : Host) (command : ToolCommand)
    (tree : FileTree) (memory : Unit) :
    ∀ write ∈ (capture h console command tree memory).writes, write.stream = .err := by
  obtain ⟨outcome, hlaunch⟩ := launch_muted hverbose { h with tree } "Capturing" command
  rw [capture, hlaunch]
  cases outcome <;> simp

end Launcher

/-- The runs on a machine, whose tools show what they do on the same terminal. -/
def Pipeline.onMachine (p : Pipeline Unit) (h : Host) (console : Console) : Pipeline Unit :=
  p.equipped (Launcher.runner h console) console

/-- On a machine, where verbosity reaches the tools, it still changes nothing else, and a quiet run writes nothing to
    standard output. -/
theorem Pipeline.results_onMachine (p : Pipeline Unit) (h : Host) (verbose quiet color verbose' quiet' color' : Bool)
    (values : List (Option String)) (s : Session Unit) :
    ((p.onMachine h (.ofFlags verbose' quiet' color')).results values s).map
        (fun result => (result.1, result.2.unwritten)) =
      ((p.onMachine h (.ofFlags verbose quiet color)).results values s).map
        (fun result => (result.1, result.2.unwritten)) ∧
    ∀ result ∈ (p.onMachine h (.ofFlags verbose true color)).results values s, ∃ shown,
      result.2.writes = s.writes ++ shown ∧ ∀ write ∈ shown, write.stream = .err := by
  constructor
  · exact results_unwritten (p := p.onMachine h (.ofFlags verbose quiet color))
      (Launcher.answersAlike h _ _) _ values s
  · intro result hmem
    obtain ⟨made, shown, -, hwrites, hconverses⟩ :=
      results_onlyTools (p := p.onMachine h (.ofFlags verbose true color)) rfl values s result hmem
    have hverbose : (Console.ofFlags verbose true color).verbose = false := by simp [Console.ofFlags]
    refine ⟨shown, hwrites, hconverses.forall_writes (fun command tree memory write hwrite => ?_)
      (Launcher.capture_writes hverbose h)⟩
    have hnone := Launcher.run_muted hverbose rfl h command tree memory
    exact absurd (hnone ▸ hwrite : write ∈ []) List.not_mem_nil

end DebRelease
