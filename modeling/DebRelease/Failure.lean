import DebRelease.Errno
import DebRelease.Json.Parser
import DebRelease.Path.Basic

namespace DebRelease

/-- Why the pipeline or a part of it failed. -/
inductive Failure where
  | plain (text : String)
  | context (text : String) (source : Failure)
  | file (operation : String) (path : Path) (cause : SystemError)
  | manifest (cause : Json.ParseError)
  | traversal (path : Path) (cause : SystemError)
  | notBelow
  /-- No program of this name is on the search path. -/
  | toolNotFound (program : String)
  | launch (program : String) (cause : SystemError)
  /-- A tool ended with an exit code, or by a signal when there is none. -/
  | toolFailed (program : String) (code : Option Int)
  | inStage (stage : String) (source : Failure)
  deriving DecidableEq, Repr

namespace Failure

/-- How a tool ended. -/
def describeExit : Option Int → String
  | some code => s!"exited with code {code}"
  | none => "was terminated by a signal"

/-- The message of a failure. -/
def message : Failure → String
  | plain text => text
  | context text source => s!"{text}: {source.message}"
  | file operation path cause => s!"{operation} {path.display}: {cause.message}"
  | manifest cause => cause.message
  | traversal path cause => s!"IO error for operation on {path.display}: {cause.message}"
  | notBelow => "prefix not found"
  | toolNotFound program => s!"`{program}` not found on PATH"
  | launch program cause => s!"failed to launch `{program}`: {cause.message}"
  | toolFailed program code => s!"`{program}` {describeExit code}"
  | inStage stage source => s!"stage '{stage}' failed: {source.message}"

/-- Names the stage of a failure that names none. -/
def atStage (stage : String) : Failure → Failure
  | inStage known source => inStage known source
  | source => inStage stage source

/-- The stage a failure names. -/
def stage? : Failure → Option String
  | inStage stage _ => some stage
  | _ => none

/-- The exit code that stands for a tool that cannot be found or launched. -/
def unavailable : Int := 127

/-- The exit code of a failure: that of the tool that failed, if it has one other than zero. -/
def exitCode : Failure → Int
  | toolFailed _ (some code) => if code = 0 then 1 else code
  | toolNotFound _ | launch .. => unavailable
  | inStage _ source | context _ source => source.exitCode
  | _ => 1

/-- The failure without the remarks and stages around it. -/
def innermost : Failure → Failure
  | inStage _ source | context _ source => source.innermost
  | cause => cause

/-- The result of a file operation, its operation and path named if it fails. -/
def naming (operation : String) (path : Path) (r : Except SystemError α) : Except Failure α :=
  r.mapError (file operation path)

end Failure

end DebRelease
