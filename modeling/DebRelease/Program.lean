import DebRelease.Arguments.Config
import DebRelease.Arguments.Help
import DebRelease.Arguments.Parser
import DebRelease.Pipeline

namespace DebRelease

namespace Host

/-- Whether the environment asks for colours on what is no terminal. -/
def forcesColor (h : Host) : Bool :=
  match (h.env? "CLICOLOR_FORCE").bind Bytes.text? with
  | some value => value != "0"
  | none => false

/-- Whether texts about the command line are coloured: a wish for no colours counts for them. -/
def colorsHelp (h : Host) : Bool :=
  let isForced := ((h.env? "CLICOLOR_FORCE").getD (Bytes.ofText "0")) != Bytes.ofText "0"
  isForced && ((h.env? "NO_COLOR").getD []).isEmpty

end Host

/-- The tools of a machine, for a console that shows what they write. -/
abbrev Toolbox (σ : Type) := Console → Runner σ

namespace Arguments

/-- What a run needs before it can start: a configuration and the value of the version variable. -/
def prepare (a : Arguments) (h : Host) : Except ReleaseError (Config × Option String) := do
  let platform ← a.target.mapError .usage
  let config ← a.config h platform
  let name := config.versioning.envVar
  let version ← (versionFromVariable name (h.env? name)).mapError .usage
  pure (config, version)

/-- A run. What it did to the files and wrote to the terminal is kept also when it fails. -/
def execute (a : Arguments) (h : Host) (console : Console) (tools : Toolbox σ) (memory : σ) :
    Except ReleaseError Report × Session σ :=
  let start : Session σ := .start h.tree memory
  match a.prepare h with
  | .error e => (.error e, start)
  | .ok (config, version) =>
    let pipeline : Pipeline σ := ⟨config, tools console, console, h.cwd⟩
    let (outcome, after) := pipeline.run version start
    (outcome.mapError .pipeline, after)

end Arguments

namespace Program

/-- How the program ended. -/
structure Ending where
  exitCode : Int
  writes : List Write
  tree : FileTree

/-- The line that reminds of the usage after a usage error. -/
def reminder : String :=
  let choices := Platform.choices
  s!"Usage: {programName} <{choices}>"

/-- What the program writes about an error. -/
def reportError (console : Console) (e : ReleaseError) : List Write :=
  console.error e.message ++ if e.isUsage then Console.line .err reminder else []

/-- What the program writes when it has nothing to run. -/
def reportStop (h : Host) (stop : ArgumentStop) : Write :=
  let text := stop.render h.env?
  ⟨if stop.isError then .err else .out, if h.colorsHelp then text.toStyled else text.toPlain⟩

/-- Runs the program. -/
def run (h : Host) (tools : Toolbox σ) (memory : σ) (words : List Bytes) : Ending :=
  match Arguments.parse h.env? words with
  | .error stop =>
    ⟨if stop.isError then ReleaseError.usageExit else 0, [reportStop h stop], h.tree⟩
  | .ok a =>
    let console := a.console h.forcesColor
    let (outcome, after) := a.execute h console tools memory
    match outcome with
    | .ok _ => ⟨0, after.writes, after.tree⟩
    | .error e => ⟨e.exitCode, after.writes ++ reportError console e, after.tree⟩

end Program

end DebRelease
