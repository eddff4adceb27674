import DebRelease.Pipeline
import DebRelease.Proofs.FileTree.Computation

namespace DebRelease

namespace RunM

variable {σ α β : Type}

@[simp] theorem run_pure (a : α) (s : Session σ) : (pure a : RunM σ α) s = (.ok a, s) := rfl

@[simp] theorem run_throw (e : Failure) (s : Session σ) :
    (throw e : RunM σ α) s = (.error e, s) := rfl

theorem run_bind (m : RunM σ α) (f : α → RunM σ β) (s : Session σ) :
    (m >>= f) s =
      match m s with
      | (.ok a, after) => f a after
      | (.error e, after) => (.error e, after) := by
  have hbind : (m >>= f) s = ExceptT.bindCont f (m s).1 (m s).2 := rfl
  rw [hbind]
  cases m s with
  | mk outcome after => cases outcome <;> rfl

/-- What a computation does is not changed by what is made of its result. -/
theorem session_bind_pure (m : RunM σ α) (f : α → β) (s : Session σ) : ((do pure (f (← m))) s).2 = (m s).2 := by
  rw [run_bind]
  cases m s with
  | mk outcome after => cases outcome <;> rfl

/-- What is made of the result of a computation is made of its outcome. -/
theorem outcome_bind_pure (m : RunM σ α) (f : α → β) (s : Session σ) :
    ((do pure (f (← m))) s).1 = (m s).1.map f := by
  rw [run_bind]
  cases m s with
  | mk outcome after => cases outcome <;> rfl

@[simp] theorem run_onTree (m : TreeM Failure α) (s : Session σ) :
    onTree m s = ((m s.tree).1, { s with tree := (m s.tree).2 }) := rfl

@[simp] theorem run_emit (writes : List Write) (s : Session σ) :
    emit writes s = (.ok (), { s with writes := s.writes ++ writes }) := rfl

@[simp] theorem run_log (level : LogLevel) (text : String) (s : Session σ) :
    log level text s = (.ok (), { s with log := s.log ++ [⟨level, text⟩] }) := rfl

@[simp] theorem run_attempt (m : RunM σ α) (s : Session σ) :
    attempt m s = (.ok (m s).1, (m s).2) := rfl

@[simp] theorem run_inStage (stage : String) (m : RunM σ α) (s : Session σ) :
    Pipeline.inStage stage m s = ((m s).1.mapError (.atStage stage), (m s).2) := rfl

theorem emit_append (first later : List Write) (m : RunM σ α) :
    (do emit first; emit later; m) = (do emit (first ++ later); m) := by
  funext s
  simp only [run_bind, run_emit, List.append_assoc]

/-- Writing one thing after another is writing them all. -/
theorem forM_emit (writes : α → List Write) (xs : List α) :
    (xs.forM fun x => emit (writes x) : RunM σ Unit) = emit (xs.flatMap writes) := by
  funext s
  induction xs generalizing s with
  | nil => simp [List.forM_eq_forM]
  | cons x xs ih =>
    rw [List.forM_eq_forM, List.forM_cons, run_bind, run_emit]
    refine (ih _).trans ?_
    simp

end RunM

/-- A guard that was not restored ends without failing. -/
theorem Manifest.Guard.dropOn_eq_ok {σ : Type} (storage : FileTree.Storage) (cwd : WorkingDir) (g : Guard)
    (s : Session σ) : (dropOn storage cwd g s).1 = .ok () := by
  rw [dropOn, RunM.run_bind, RunM.run_onTree, TreeM.run_attempt]
  dsimp only
  cases (storage.write cwd g.manifest g.content s.tree).1 with
  | error e => rfl
  | ok => rfl

/-- What is shown of a version. The version variable is called `name`. -/
def Console.versionLines (c : Console) (name : String) (v : Version) : List Write :=
  (if v.isFallback then c.warning s!"No environment variable {name} set. Using {v.value}." else []) ++
    c.info s!"Installer version is: {v.value}"

/-- What is shown of the artifacts in a directory. -/
def Console.artifactLines (c : Console) (dir : Path) (found : List Artifact) : List Write :=
  (if found.isEmpty then c.warning s!"{dir.display} is empty" else []) ++
    found.flatMap fun a => c.indented .out s!"{a.fileName}  {a.size} bytes  sha256:{a.checksum}"

namespace Pipeline

open RunM

variable {σ : Type}

theorem listArtifacts_eq (p : Pipeline σ) (dir : Path) : listArtifacts p dir = (do
    let found ← onTree (TreeM.look (·.artifacts p.cwd dir))
    emit (p.console.artifactLines dir found)
    pure found) := by
  rw [listArtifacts]
  refine congrArg (onTree _ >>= ·) (funext fun found => ?_)
  dsimp only
  rw [forM_emit, Console.artifactLines]
  split
  · exact emit_append ..
  · rfl

/-- The version that a command prints. -/
def askVersion (tools : Runner σ) (command : ToolCommand) : RunM σ (Option Version) := do
  let stdout ← captureTool tools command
  pure (Version.ofOutput? stdout)

theorem runVersionCommand_eq (p : Pipeline σ) (command : VersionCommand) : runVersionCommand p command =
    if p.config.versioning.requirements.isEmpty then
      askVersion p.tools (versionTool p.config command.program command.args)
    else (do
      runTool p.tools (versionTool p.config p.config.tools.pip ("install" :: p.config.versioning.requirements))
      askVersion p.tools (versionTool p.config command.program command.args)) := by
  rw [runVersionCommand]
  cases p.config.versioning.requirements.isEmpty <;> rfl

/-- Runs the freezer on the specification that was printed, unless that is blank. -/
def freezeOn (tools : Runner σ) (locate freezer : ToolCommand) (out : String) : RunM σ Unit := do
  let spec := trimText out
  if spec.isEmpty then
    let shown := locate.display
    throw (.plain s!"`{shown}` printed no freezer spec path")
  log .info s!"Freezer spec file: {spec}"
  runTool tools (freezer.withArg (Bytes.ofText spec))

theorem freeze_eq (p : Pipeline σ) (locate freezer : ToolCommand) :
    freeze p locate freezer = captureTool p.tools locate >>= freezeOn p.tools locate freezer :=
  rfl

end Pipeline

end DebRelease
