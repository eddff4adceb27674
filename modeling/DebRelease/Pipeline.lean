import DebRelease.Artifact
import DebRelease.Manifest.Guard
import DebRelease.Plan
import DebRelease.Text.Blank

namespace DebRelease

/-- What a successful run reports. -/
structure Report where
  platform : Platform
  version : Version
  /-- The name of the packaged application among the build results. -/
  outputDirName : String
  artifacts : List Artifact
  deriving DecidableEq, Repr

/-- What a run works with. -/
structure Pipeline (σ : Type) where
  config : Config
  tools : Runner σ
  console : Console
  cwd : WorkingDir

namespace Pipeline

open RunM

/-- A command of the version step: it runs where the run starts, with the search path of the run. -/
def versionTool (c : Config) (program : String) (args : List String) : ToolCommand :=
  .ofTexts program args c.layout.buildScripts c.searchPath

/-- Runs the version command, its requirements installed first. -/
def runVersionCommand (p : Pipeline σ) (command : VersionCommand) : RunM σ (Option Version) := do
  let requirements := p.config.versioning.requirements
  if !requirements.isEmpty then
    runTool p.tools (versionTool p.config p.config.tools.pip ("install" :: requirements))
  let stdout ← captureTool p.tools (versionTool p.config command.program command.args)
  pure (Version.ofOutput? stdout)

/-- The version of a run: the value of the environment variable, or else what the version command
    prints, or else the fallback, with a warning. -/
def resolveVersion (p : Pipeline σ) (value : Option String) : RunM σ Version := do
  let mut version := Version.ofVariable value
  if version.isFallback then
    if let some command := p.config.versioning.command then
      if let some found ← runVersionCommand p command then
        version := found
  if version.isFallback then
    let name := p.config.versioning.envVar
    emit (p.console.warning s!"No environment variable {name} set. Using {version.value}.")
  emit (p.console.info s!"Installer version is: {version.value}")
  pure version

/-- Asks for the specification of the freezer and runs the freezer on it. -/
def freeze (p : Pipeline σ) (locate freezer : ToolCommand) : RunM σ Unit := do
  let spec := trimText (← captureTool p.tools locate)
  if spec.isEmpty then
    let shown := locate.display
    throw (.plain s!"`{shown}` printed no freezer spec path")
  log .info s!"Freezer spec file: {spec}"
  runTool p.tools (freezer.withArg (Bytes.ofText spec))

/-- Runs a tool while a manifest carries the version. If both the tool and putting the manifest back
    fail, the tool's failure counts and the other one is logged. -/
def package (p : Pipeline σ) (manifest : Path) (version : String) (command : ToolCommand) :
    RunM σ Unit := do
  let g ← Manifest.Guard.acquire p.cwd manifest version
  let outcome ← attempt (runTool p.tools command)
  let restored ← attempt (Manifest.Guard.restore p.cwd g)
  match outcome, restored with
  | .error e, .error unrestored =>
    log .error unrestored.message
    throw e
  | .error e, .ok () => throw e
  | .ok (), .error e => throw e
  | .ok (), .ok () => pure ()

/-- Lists a directory and shows what it holds. -/
def listArtifacts (p : Pipeline σ) (dir : Path) : RunM σ (List Artifact) := do
  let artifacts ← onTree (TreeM.look (·.artifacts p.cwd dir))
  if artifacts.isEmpty then
    let shown := dir.display
    emit (p.console.warning s!"{shown} is empty")
  artifacts.forM fun a => do
    let name := a.fileName
    emit (p.console.indented .out s!"{name}  {a.size} bytes  sha256:{a.checksum}")
  pure artifacts

/-- Does what a stage does. A stage that lists artifacts returns them. -/
def perform (p : Pipeline σ) : Action → RunM σ (Option (List Artifact))
  | .run command => do runTool p.tools command; pure none
  | .freeze locate freezer => do freeze p locate freezer; pure none
  | .recreate path => do onTree (FileTree.recreate p.cwd path); pure none
  | .copy source target => do
    onTree (FileTree.removeAll p.cwd target)
    onTree (FileTree.copyDir p.cwd source target)
    pure none
  | .move source target => do onTree (FileTree.moveDir p.cwd source target); pure none
  | .package manifest version command => do package p manifest version command; pure none
  | .list path => do
    let artifacts ← listArtifacts p path
    pure (some artifacts)

/-- A computation whose failure names a stage. -/
def inStage (stage : String) (m : RunM σ α) : RunM σ α := fun s =>
  let (outcome, s) := m s
  (outcome.mapError (.atStage stage), s)

/-- Performs stages in order, the first of which has the given number of `total`. What a listing
    stage returns takes the place of what was listed before. -/
def performAll (p : Pipeline σ) (total : Nat) :
    Nat → List Artifact → List Stage → RunM σ (List Artifact)
  | _, listed, [] => pure listed
  | number, listed, stage :: stages => do
    emit (p.console.progress s!"[{number}/{total}] {stage.name}")
    let found ← inStage stage.name (perform p stage.action)
    performAll p total (number + 1) (found.getD listed) stages

/-- A run, given the value of the version variable. -/
def run (p : Pipeline σ) (value : Option String) : RunM σ Report := do
  let c := p.config
  emit (p.console.heading s!"Building {c.product.name} installer for {c.platform.selector}")
  let version ← inStage Plan.resolveVersion (resolveVersion p value)
  let stages := c.plan version
  let artifacts ← performAll p stages.length 1 [] stages
  let dir := c.layout.finalInstaller.display
  let count := artifacts.length
  emit (p.console.success s!"Created {count} artifact(s) in {dir}")
  pure ⟨c.platform, version, c.outputDirName, artifacts⟩

end Pipeline

end DebRelease
