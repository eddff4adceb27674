import DebRelease.Proofs.Run.Order
import DebRelease.Proofs.Run.Verbosity
import DebRelease.Proofs.Text.LineEnds

namespace DebRelease

open RunM

namespace Config

variable {c : Config} {command : VersionCommand} {value : Option String} {made : List Call}
    {outcome : Except Failure Version} {v : Version}

/-- A program called where the build scripts are, with the search path of the run. -/
def atScripts (c : Config) (mode : CallMode) (program : String) (args : List String) : Request :=
  ⟨mode, program, args.map Bytes.ofText, c.layout.buildScripts, c.searchPath⟩

/-- What installs the requirements of the version command. -/
def installRequest (c : Config) : Request :=
  c.atScripts .run c.tools.pip ("install" :: c.versioning.requirements)

/-- Calls after which the requirements of the version command are installed. -/
inductive Installs (c : Config) : List Call → Prop where
  /-- Nothing is required, and nothing is called. -/
  | nothing (hnone : c.versioning.requirements = []) : Installs c []
  | done {install : Call} (hsome : c.versioning.requirements ≠ []) (hinstall : install.request = c.installRequest)
      (hdone : install.succeeded = true) : Installs c [install]

/-- Calls by which the version command is asked, and what comes of them: the failure of the last one, or what the
    command prints. -/
inductive Queries (c : Config) (command : VersionCommand) : List Call → Except Failure String → Prop where
  /-- The installer fails, and the command is not called. -/
  | uninstalled {install : Call} {e : Failure} (hsome : c.versioning.requirements ≠ [])
      (hinstall : install.request = c.installRequest) (hfails : install.failure? = some e) :
      Queries c command [install] (.error e)
  | failed {installs : List Call} {query : Call} {e : Failure} (h : c.Installs installs)
      (hquery : query.request = c.atScripts .capture command.program command.args)
      (hfails : query.failure? = some e) : Queries c command (installs ++ [query]) (.error e)
  | printed {installs : List Call} {query : Call} {captured : Captured} (h : c.Installs installs)
      (hquery : query.request = c.atScripts .capture command.program command.args)
      (hanswer : query.answer = .ok captured) (hsuccess : captured.status.success = true) :
      Queries c command (installs ++ [query]) (.ok captured.stdout)

/-- Calls by which a version is found, given the value of the version variable, and what comes of them. -/
inductive Resolves (c : Config) (value : Option String) : List Call → Except Failure Version → Prop where
  /-- The variable has a value, which is the version as it is. -/
  | environment {text : String} (hvalue : value = some text) (htext : text ≠ "") :
      Resolves c value [] (.ok ⟨text, .environment⟩)
  /-- No command is configured, and nothing is called. -/
  | unconfigured (hvalue : value.getD "" = "") (hcommand : c.versioning.command = none) :
      Resolves c value [] (.ok ⟨"0.0.0", .fallback⟩)
  | failed {command : VersionCommand} {made : List Call} {e : Failure} (hvalue : value.getD "" = "")
      (hcommand : c.versioning.command = some command) (h : c.Queries command made (.error e)) :
      Resolves c value made (.error e)
  | command {command : VersionCommand} {made : List Call} {printed text : String} (hvalue : value.getD "" = "")
      (hcommand : c.versioning.command = some command) (h : c.Queries command made (.ok printed))
      (htext : StripsLineEnds printed text) (hsome : text ≠ "") : Resolves c value made (.ok ⟨text, .command⟩)
  /-- The command prints nothing but line ends. -/
  | blank {command : VersionCommand} {made : List Call} {printed : String} (hvalue : value.getD "" = "")
      (hcommand : c.versioning.command = some command) (h : c.Queries command made (.ok printed))
      (hblank : StripsLineEnds printed "") : Resolves c value made (.ok ⟨"0.0.0", .fallback⟩)

/-- A version that is found is not empty. -/
theorem Resolves.value_ne (h : c.Resolves value made (.ok v)) : v.value ≠ "" := by
  cases h with
  | environment _ htext => exact htext
  | unconfigured | blank => decide
  | command _ _ _ _ hsome => exact hsome

/-- A version that the command prints does not end in a line end. -/
theorem Resolves.stripped (h : c.Resolves value made (.ok v)) (hsource : v.source = .command) :
    ∀ ch ∈ v.value.toList.getLast?, ch ≠ '\r' ∧ ch ≠ '\n' := by
  cases h with
  | environment | unconfigured | blank => cases hsource
  | command _ _ _ htext => exact htext.maximal

/-- What the command prints decides: its text without the line ends at its end, or the fallback if nothing is left. -/
theorem Queries.resolves {printed : String} (h : c.Queries command made (.ok printed)) (hvalue : value.getD "" = "")
    (hcommand : c.versioning.command = some command) :
    c.Resolves value made (.ok ((Version.ofOutput? printed).getD .fallback)) := by
  have hstrips := stripsLineEnds_iff.mpr (rfl : Bytes.dropLineEnds printed = _)
  rw [Version.ofOutput?]
  by_cases hblank : Bytes.dropLineEnds printed = ""
  · rw [hblank] at hstrips ⊢
    exact .blank hvalue hcommand h hstrips
  · simp only [String.isEmpty_iff, hblank, if_false]
    exact .command hvalue hcommand h hstrips hblank

end Config

/-- The variable gives a version as it is, unless it is not set or empty. -/
theorem Version.ofVariable_cases (value : Option String) :
    (∃ text, value = some text ∧ text ≠ "" ∧ ofVariable value = ⟨text, .environment⟩) ∨
      value.getD "" = "" ∧ ofVariable value = .fallback := by
  cases value with
  | none => exact .inr ⟨rfl, rfl⟩
  | some text =>
    by_cases htext : text = ""
    · exact .inr ⟨htext, by simp [ofVariable, htext]⟩
    · exact .inl ⟨text, rfl, htext, by simp [ofVariable, htext]⟩

/-- What the version step itself shows: a version, after a warning if nothing gave it. The version variable is called
    `name`. -/
def Console.versionShown (console : Console) (name : String) : Except Failure Version → List Write
  | .error _ => []
  | .ok v =>
    if console.quiet then [] else
      (if v.source = .fallback then
        [⟨.err, console.styled .yellow "warning:" ++ " " ++
          s!"No environment variable {name} set. Using {v.value}." ++ "\n"⟩]
      else []) ++ [⟨.out, s!"Installer version is: {v.value}" ++ "\n"⟩]

theorem Console.versionShown_ok (console : Console) (name : String) (v : Version) :
    console.versionShown name (.ok v) = console.versionLines name v := by
  rw [versionShown, versionLines, warning, info, unlessQuiet, unlessQuiet]
  cases hfallback : v.isFallback with
  | true =>
    have hsource : v.source = .fallback := of_decide_eq_true hfallback
    rw [if_pos hsource, if_pos rfl]
    split <;> rfl
  | false =>
    have hsource : v.source ≠ .fallback := of_decide_eq_false hfallback
    rw [if_neg hsource, if_neg Bool.false_ne_true]
    split <;> rfl

variable {σ : Type} {tools : Runner σ} {s mid after : Session σ} {made made' : List Call} {shown shown' : List Write}

/-- From one session to another the tools are asked these calls and write this, and nothing else is written. -/
structure Session.Hears (tools : Runner σ) (s : Session σ) (made : List Call) (shown : List Write)
    (after : Session σ) : Prop where
  calls : after.calls = s.calls ++ made
  writes : after.writes = s.writes ++ shown
  converses : tools.Converses s.memory made shown after.memory

theorem Runner.Converses.append {before memory later : σ} (h : tools.Converses before made shown memory)
    (h' : tools.Converses memory made' shown' later) :
    tools.Converses before (made ++ made') (shown ++ shown') later := by
  induction h' with
  | silence => simpa using h
  | run command tree reply _ hreply ih =>
    rw [← List.append_assoc, ← List.append_assoc]
    exact ih.run command tree reply hreply
  | capture command tree reply _ hreply ih =>
    rw [← List.append_assoc, ← List.append_assoc]
    exact ih.capture command tree reply hreply

theorem Session.Hears.trans (h : Hears tools s made shown mid) (h' : Hears tools mid made' shown' after) :
    Hears tools s (made ++ made') (shown ++ shown') after :=
  ⟨by rw [h'.calls, h.calls, List.append_assoc], by rw [h'.writes, h.writes, List.append_assoc],
    h.converses.append h'.converses⟩

namespace RunM

/-- A call that is checked leaves what the call leaves. It fails as the call does, or the call does its work. -/
private theorem run_checked {α β : Type} (mode : CallMode) (command : ToolCommand)
    (answer : ToolCommand → FileTree → σ → Reply σ α) (kept : α → Captured) (given : α → β) {m : RunM σ β}
    (hm : m = do
      let a ← call mode command answer kept
      match (kept a).status.check command with
      | .ok () => pure (given a)
      | .error e => throw e) (s : Session σ) :
    (m s).2 = (call mode command answer kept s).2 ∧
      ((∃ e, (recorded mode command answer kept s).failure? = some e ∧ (m s).1 = .error e) ∨
        ∃ a, (recorded mode command answer kept s).answer = .ok (kept a) ∧ (kept a).status.success = true ∧
          (m s).1 = .ok (given a)) := by
  rw [hm, run_bind, call, recorded]
  cases (answer command s.tree s.memory).outcome with
  | error e => exact ⟨rfl, .inl ⟨e, rfl, rfl⟩⟩
  | ok a =>
    cases hsuccess : (kept a).status.success with
    | true =>
      refine ⟨?_, .inr ⟨a, rfl, hsuccess, ?_⟩⟩
      · simp [ToolStatus.check, hsuccess]
      · simp [ToolStatus.check, hsuccess]
    | false => simp [ToolStatus.check, Call.failure?, Except.map, hsuccess]

/-- A tool whose output is shown fails as its call does, or does its work. -/
theorem hears_runTool (tools : Runner σ) (command : ToolCommand) (s : Session σ) : ∃ call shown,
    call.request = ⟨.run, command⟩ ∧ s.Hears tools [call] shown (runTool tools command s).2 ∧
      ((∃ e, call.failure? = some e ∧ (runTool tools command s).1 = .error e) ∨
        call.succeeded = true ∧ (runTool tools command s).1 = .ok ()) := by
  obtain ⟨hsession, houtcome⟩ := run_checked .run command tools.run (fun status => ⟨status, ""⟩) (fun _ => ())
    (m := runTool tools command) rfl s
  have hconverses := (Runner.Converses.silence s.memory).run command s.tree _ (rfl : tools.run command _ _ = _)
  rw [hsession]
  refine ⟨ran tools command s, _, rfl, ⟨rfl, rfl, hconverses⟩, houtcome.imp_right ?_⟩
  rintro ⟨status, hanswer, hsuccess, hok⟩
  exact ⟨by simpa [Call.succeeded, ran, hanswer] using hsuccess, hok⟩

/-- A tool whose output is kept fails as its call does, or gives what it printed. -/
theorem hears_captureTool (tools : Runner σ) (command : ToolCommand) (s : Session σ) : ∃ call shown,
    call.request = ⟨.capture, command⟩ ∧ s.Hears tools [call] shown (captureTool tools command s).2 ∧
      ((∃ e, call.failure? = some e ∧ (captureTool tools command s).1 = .error e) ∨
        ∃ captured, call.answer = .ok captured ∧ captured.status.success = true ∧
          (captureTool tools command s).1 = .ok captured.stdout) := by
  obtain ⟨hsession, houtcome⟩ := run_checked .capture command tools.capture id (·.stdout)
    (m := captureTool tools command) rfl s
  have hconverses := (Runner.Converses.silence s.memory).capture command s.tree _ (rfl : tools.capture command _ _ = _)
  rw [hsession]
  refine ⟨recorded .capture command tools.capture id s, _, rfl, ⟨rfl, rfl, ?_⟩, houtcome⟩
  rwa [recorded, Except.map_id]

end RunM

namespace Pipeline

variable {p : Pipeline σ}

/-- The version step ends by showing the version. -/
theorem run_showVersion (p : Pipeline σ) (v : Version) (s : Session σ) :
    showVersion p v s = (.ok v, { s with
      writes := s.writes ++ p.console.versionShown p.config.versioning.envVar (.ok v) }) := by
  rw [showVersion_eq, Console.versionShown_ok]
  rfl

/-- Once the requirements are installed, the version command is asked. -/
private theorem hears_askVersion {installs : List Call} (h : p.config.Installs installs)
    (hears : s.Hears p.tools installs shown mid) (command : VersionCommand) : ∃ made shown,
      s.Hears p.tools made shown (askVersion p.tools (versionTool p.config command.program command.args) mid).2 ∧
      ∃ printed, p.config.Queries command made printed ∧
        (askVersion p.tools (versionTool p.config command.program command.args) mid).1 =
          printed.map Version.ofOutput? := by
  obtain ⟨query, told, hquery, hasked, houtcome⟩ :=
    hears_captureTool p.tools (versionTool p.config command.program command.args) mid
  refine ⟨installs ++ [query], shown ++ told, ?_, ?_⟩
  · rw [askVersion, session_bind_pure]
    exact hears.trans hasked
  · rw [askVersion, outcome_bind_pure]
    obtain ⟨e, hfails, herror⟩ | ⟨captured, hanswer, hsuccess, hok⟩ := houtcome
    · exact ⟨.error e, .failed h hquery hfails, by rw [herror]⟩
    · exact ⟨.ok captured.stdout, .printed h hquery hanswer hsuccess, by rw [hok]⟩

theorem hears_runVersionCommand (p : Pipeline σ) (command : VersionCommand) (s : Session σ) : ∃ made shown,
    s.Hears p.tools made shown (runVersionCommand p command s).2 ∧ ∃ printed, p.config.Queries command made printed ∧
      (runVersionCommand p command s).1 = printed.map Version.ofOutput? := by
  rw [runVersionCommand_eq]
  by_cases hnone : p.config.versioning.requirements = []
  · rw [if_pos (List.isEmpty_iff.mpr hnone)]
    exact hears_askVersion (.nothing hnone) ⟨by simp, by simp, .silence _⟩ command
  · obtain ⟨install, told, hinstall, hasked, houtcome⟩ :=
      hears_runTool p.tools (versionTool p.config p.config.tools.pip ("install" :: p.config.versioning.requirements)) s
    rw [if_neg (mt List.isEmpty_iff.mp hnone), run_bind]
    generalize runTool p.tools _ s = result at hasked houtcome ⊢
    obtain ⟨outcome, installed⟩ := result
    obtain ⟨e, hfails, rfl⟩ | ⟨hdone, rfl⟩ := houtcome
    · exact ⟨_, _, hasked, .error e, .uninstalled hnone hinstall hfails, rfl⟩
    · exact hears_askVersion (.done hnone hinstall hdone) hasked command

/-- The version step asks the tools as precedence has it, and then shows what it found. -/
theorem hears_resolveVersion (p : Pipeline σ) (value : Option String) (s : Session σ) : ∃ made shown heard outcome,
    s.Hears p.tools made shown heard ∧ p.config.Resolves value made outcome ∧
      resolveVersion p value s = (outcome, { heard with
        writes := heard.writes ++ p.console.versionShown p.config.versioning.envVar outcome }) := by
  have hsilent : s.Hears p.tools [] [] s := ⟨by simp, by simp, .silence _⟩
  rw [resolveVersion_eq]
  obtain ⟨text, hvalue, htext, hversion⟩ | ⟨hvalue, hversion⟩ := Version.ofVariable_cases value
  · rw [hversion]
    exact ⟨[], [], s, _, hsilent, .environment hvalue htext, run_showVersion p _ s⟩
  · rw [hversion]
    cases hcommand : p.config.versioning.command with
    | none => exact ⟨[], [], s, _, hsilent, .unconfigured hvalue hcommand, run_showVersion p _ s⟩
    | some command =>
      -- What is heard does not depend on the version that is shown after it.
      obtain ⟨made, shown, hears, printed, hqueries, houtcome⟩ := hears_runVersionCommand p command s
      refine ⟨made, shown, (runVersionCommand p command s).2, ?_⟩
      change ∃ outcome, _ ∧ _ ∧ (do
        let found ← runVersionCommand p command
        showVersion p (found.getD .fallback)) s = _
      rw [run_bind]
      generalize runVersionCommand p command s = result at hears houtcome ⊢
      obtain ⟨_, heard⟩ := result
      obtain rfl := houtcome
      cases printed with
      | error e => exact ⟨.error e, hears, .failed hvalue hcommand hqueries, by simp [Except.map, Console.versionShown]⟩
      | ok text => exact ⟨_, hears, hqueries.resolves hvalue hcommand, run_showVersion p _ heard⟩

/-- The version step finds the version by precedence. Its calls are answered by the tools, one after another; and but
    for what the tools write the while it writes the version alone, after a warning if nothing gave it. A version is
    never empty, and one that the command prints does not end in a line end. -/
theorem resolveVersion_by_precedence (p : Pipeline σ) (value : Option String) (s : Session σ) :
    let (outcome, after) := resolveVersion p value s
    ∃ made shown, after.calls = s.calls ++ made ∧ p.tools.Converses s.memory made shown after.memory ∧
      p.config.Resolves value made outcome ∧
      after.writes = s.writes ++ shown ++ p.console.versionShown p.config.versioning.envVar outcome ∧
      ∀ v, outcome = .ok v → v.value ≠ "" ∧
        (v.source = .command → ∀ ch ∈ v.value.toList.getLast?, ch ≠ '\r' ∧ ch ≠ '\n') := by
  obtain ⟨made, shown, heard, outcome, hears, hresolves, hrun⟩ := hears_resolveVersion p value s
  rw [hrun]
  refine ⟨made, shown, hears.calls, hears.converses, hresolves, by rw [← hears.writes], ?_⟩
  rintro v rfl
  exact ⟨hresolves.value_ne, hresolves.stripped⟩

end Pipeline

end DebRelease
