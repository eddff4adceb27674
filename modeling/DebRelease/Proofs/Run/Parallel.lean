import DebRelease.Proofs.Run.Order
import Mathlib.Data.List.Forall2

namespace DebRelease

/-- A message that a quiet terminal does not show. -/
def Console.Mutes (message : Console → List Write) : Prop :=
  ∀ c : Console, c.quiet = true → message c = []

theorem Console.mutes_unlessQuiet (message : Console → List Write) : Mutes fun c => c.unlessQuiet (message c) :=
  fun _ h => if_pos h

theorem Console.mutes_versionLines (name : String) (v : Version) : Mutes (·.versionLines name v) := by
  intro c h
  simp [versionLines, warning, info, unlessQuiet, h]

theorem Console.mutes_artifactLines (dir : Path) (found : List Artifact) : Mutes (·.artifactLines dir found) := by
  intro c h
  simp [artifactLines, warning, indented, unlessQuiet, h]

variable {σ α β : Type} {I : Session σ → Session σ → Prop} {m m' : RunM σ α} {f f' : α → RunM σ β}

/-- From related sessions two computations come to the same, and leave related sessions. -/
def RunM.Matches (I : Session σ → Session σ → Prop) (m m' : RunM σ α) : Prop :=
  ∀ s s', I s s' → (m' s').1 = (m s).1 ∧ I (m s).2 (m' s').2

namespace RunM.Matches

theorem pure (a : α) : Matches I (pure a) (pure a) := fun _ _ h => ⟨rfl, h⟩

theorem throw (e : Failure) : Matches I (throw e : RunM σ α) (throw e) := fun _ _ h => ⟨rfl, h⟩

theorem bind (hm : Matches I m m') (hf : ∀ a, Matches I (f a) (f' a)) : Matches I (m >>= f) (m' >>= f') := by
  intro s s' h
  obtain ⟨houtcome, hafter⟩ := hm s s' h
  rw [run_bind, run_bind]
  cases hrun : m s with
  | mk outcome after =>
    cases hrun' : m' s' with
    | mk outcome' after' =>
      rw [hrun, hrun'] at houtcome hafter
      dsimp only at houtcome hafter
      subst houtcome
      cases outcome' with
      | error e => exact ⟨rfl, hafter⟩
      | ok a => exact hf a after after' hafter

theorem attempt (h : Matches I m m') : Matches I (attempt m) (attempt m') := by
  intro s s' hrelated
  obtain ⟨houtcome, hafter⟩ := h s s' hrelated
  exact ⟨congrArg Except.ok houtcome, hafter⟩

theorem inStage (h : Matches I m m') (stage : String) :
    Matches I (Pipeline.inStage stage m) (Pipeline.inStage stage m') := by
  intro s s' hrelated
  obtain ⟨houtcome, hafter⟩ := h s s' hrelated
  exact ⟨by rw [run_inStage, run_inStage, houtcome], hafter⟩

end RunM.Matches

open RunM

/-- What is needed of a relation between sessions for two runs to go side by side, which have tools and a terminal
    each: all that runs are made of keeps it. -/
structure Steady (I : Session σ → Session σ → Prop) (tools tools' : Runner σ) (console console' : Console) :
    Prop where
  work {α : Type} (m : TreeM Failure α) : Matches I (onTree m) (onTree m)
  log (level : LogLevel) (text : String) : Matches I (RunM.log level text) (RunM.log level text)
  message (shown : Console → List Write) (h : Console.Mutes shown) :
    Matches I (emit (shown console)) (emit (shown console'))
  run (command : ToolCommand) : Matches I (call .run command tools.run fun status => ⟨status, ""⟩)
    (call .run command tools'.run fun status => ⟨status, ""⟩)
  capture (command : ToolCommand) :
    Matches I (call .capture command tools.capture id) (call .capture command tools'.capture id)

namespace Steady

variable {tools tools' : Runner σ} {console console' : Console}

theorem runTool (h : Steady I tools tools' console console') (command : ToolCommand) :
    Matches I (RunM.runTool tools command) (RunM.runTool tools' command) := by
  refine (h.run command).bind fun status => ?_
  cases status.check command with
  | ok => exact .pure _
  | error e => exact .throw e

theorem captureTool (h : Steady I tools tools' console console') (command : ToolCommand) :
    Matches I (RunM.captureTool tools command) (RunM.captureTool tools' command) := by
  refine (h.capture command).bind fun captured => ?_
  cases captured.status.check command with
  | ok => exact .pure _
  | error e => exact .throw e

section

open Manifest

variable (cwd : WorkingDir)

theorem drop (h : Steady I tools tools' console console') (g : Guard) :
    Matches I (Guard.drop cwd g) (Guard.drop cwd g) := by
  refine (h.work _).bind fun outcome => ?_
  cases outcome with
  | ok => exact (h.work _).bind fun _ => .pure _
  | error e => exact h.log _ _

theorem acquire (h : Steady I tools tools' console console') (manifest : Path) (version : String) :
    Matches I (Guard.acquire cwd manifest version) (Guard.acquire cwd manifest version) := by
  refine (h.work _).bind fun prepared => ?_
  refine (h.work _).bind fun _ => ?_
  refine (h.work _).bind fun outcome => ?_
  cases outcome with
  | ok => exact .pure _
  | error e => exact (h.drop cwd _).bind fun _ => .throw _

theorem restore (h : Steady I tools tools' console console') (g : Guard) :
    Matches I (Guard.restore cwd g) (Guard.restore cwd g) := by
  refine (h.work _).bind fun outcome => ?_
  cases outcome with
  | error e => exact (h.drop cwd g).bind fun _ => .throw _
  | ok =>
    refine (h.work _).bind fun outcome => ?_
    cases outcome with
    | ok => exact .pure _
    | error e =>
      dsimp only
      split
      · exact .pure _
      · exact .throw _

end

end Steady

namespace Pipeline

/-- The run with other tools and another terminal. -/
def equipped (p : Pipeline σ) (tools : Runner σ) (console : Console) : Pipeline σ :=
  { p with tools, console }

variable {p : Pipeline σ} {tools : Runner σ} {console : Console}

theorem matches_runVersionCommand (h : Steady I p.tools tools p.console console) (command : VersionCommand) :
    Matches I (runVersionCommand p command) (runVersionCommand (p.equipped tools console) command) := by
  have hask : Matches I (askVersion p.tools (versionTool p.config command.program command.args))
      (askVersion tools (versionTool p.config command.program command.args)) :=
    (h.captureTool _).bind fun _ => .pure _
  have hinstall := (h.runTool (versionTool p.config p.config.tools.pip
    ("install" :: p.config.versioning.requirements))).bind fun _ => hask
  rw [runVersionCommand_eq, runVersionCommand_eq]
  by_cases hempty : p.config.versioning.requirements.isEmpty = true
  · simpa [equipped, hempty] using hask
  · simpa [equipped, hempty] using hinstall

theorem matches_showVersion (h : Steady I p.tools tools p.console console) (version : Version) :
    Matches I (showVersion p version) (showVersion (p.equipped tools console) version) := by
  rw [showVersion_eq, showVersion_eq]
  exact (h.message (·.versionLines p.config.versioning.envVar version) (Console.mutes_versionLines _ version)).bind
    fun _ => .pure version

theorem matches_resolveVersion (h : Steady I p.tools tools p.console console) (value : Option String) :
    Matches I (resolveVersion p value) (resolveVersion (p.equipped tools console) value) := by
  rw [resolveVersion_eq, resolveVersion_eq]
  dsimp only [equipped]
  split
  · exact (matches_runVersionCommand h _).bind fun _ => matches_showVersion h _
  · exact matches_showVersion h _

theorem matches_freeze (h : Steady I p.tools tools p.console console) (locate freezer : ToolCommand) :
    Matches I (freeze p locate freezer) (freeze (p.equipped tools console) locate freezer) := by
  refine (h.captureTool locate).bind fun stdout => ?_
  dsimp only
  split
  · exact .throw _
  · exact (h.log _ _).bind fun _ => h.runTool _

theorem matches_package (h : Steady I p.tools tools p.console console) (manifest : Path) (version : String)
    (command : ToolCommand) :
    Matches I (package p manifest version command) (package (p.equipped tools console) manifest version command) := by
  refine (h.acquire p.cwd manifest version).bind fun g => ?_
  refine (h.runTool command).attempt.bind fun outcome => ?_
  refine (h.restore p.cwd g).attempt.bind fun restored => ?_
  cases outcome with
  | ok =>
    cases restored with
    | ok => exact .pure _
    | error e => exact .throw e
  | error e =>
    cases restored with
    | ok => exact .throw e
    | error unrestored => exact (h.log _ _).bind fun _ => .throw e

theorem matches_listArtifacts (h : Steady I p.tools tools p.console console) (dir : Path) :
    Matches I (listArtifacts p dir) (listArtifacts (p.equipped tools console) dir) := by
  rw [listArtifacts_eq, listArtifacts_eq]
  refine (h.work _).bind fun found => ?_
  exact (h.message (·.artifactLines dir found) (Console.mutes_artifactLines dir found)).bind fun _ => .pure found

theorem matches_perform (h : Steady I p.tools tools p.console console) (action : Action) :
    Matches I (perform p action) (perform (p.equipped tools console) action) := by
  cases action with
  | run command => exact (h.runTool command).bind fun _ => .pure none
  | freeze locate freezer => exact (matches_freeze h locate freezer).bind fun _ => .pure none
  | recreate path => exact (h.work _).bind fun _ => .pure none
  | copy source target => exact (h.work _).bind fun _ => (h.work _).bind fun _ => .pure none
  | move source target => exact (h.work _).bind fun _ => .pure none
  | package manifest version command => exact (matches_package h manifest version command).bind fun _ => .pure none
  | list path => exact (matches_listArtifacts h path).bind fun artifacts => .pure (some artifacts)

theorem matches_performAll (h : Steady I p.tools tools p.console console) (total number : Nat)
    (listed : List Artifact) (stages : List Stage) :
    Matches I (performAll p total number listed stages)
      (performAll (p.equipped tools console) total number listed stages) := by
  induction stages generalizing number listed with
  | nil => exact .pure listed
  | cons stage stages ih =>
    rw [performAll, performAll]
    have hprogress := h.message (·.progress s!"[{number}/{total}] {stage.name}") (Console.mutes_unlessQuiet _)
    exact hprogress.bind fun _ => ((matches_perform h stage.action).inStage _).bind fun _ => ih _ _

/-- Two runs that differ in their tools and terminals go side by side, if all that they are made of does. -/
theorem matches_run (h : Steady I p.tools tools p.console console) (value : Option String) :
    Matches I (p.run value) ((p.equipped tools console).run value) := by
  rw [run, run]
  dsimp only [equipped]
  have hheading := h.message
    (·.heading s!"Building {p.config.product.name} installer for {p.config.platform.selector}")
    (Console.mutes_unlessQuiet _)
  refine hheading.bind fun _ => ((matches_resolveVersion h value).inStage _).bind fun version => ?_
  refine (matches_performAll h _ _ _ _).bind fun artifacts => ?_
  exact (h.message (·.success _) (Console.mutes_unlessQuiet _)).bind fun _ => .pure _

/-- What runs one after another come to, each given its value of the version variable, with the session that
    each of them leaves. -/
def results (p : Pipeline σ) : List (Option String) → Session σ → List (Except Failure Report × Session σ)
  | [], _ => []
  | value :: values, s => p.run value s :: results p values (p.run value s).2

/-- So do the runs one after another. -/
theorem results_matches (h : Steady I p.tools tools p.console console) (values : List (Option String))
    {s s' : Session σ} (hstart : I s s') :
    List.Forall₂ (fun result result' => result'.1 = result.1 ∧ I result.2 result'.2)
      (p.results values s) ((p.equipped tools console).results values s') := by
  induction values generalizing s s' with
  | nil => exact .nil
  | cons value values ih =>
    have hrun := matches_run h value s s' hstart
    exact .cons hrun (ih hrun.2)

end Pipeline

end DebRelease
