import DebRelease.Failure

namespace DebRelease

/-- What is wrong with a call of the program. -/
inductive UsageError where
  | invalid (reason : String)
  | missing (argument : String)
  deriving DecidableEq, Repr

/-- The message of a usage error. -/
def UsageError.message : UsageError → String
  | invalid reason => s!"invalid arguments: {reason}"
  | missing argument => s!"missing required argument: {argument}"

/-- Why the program ends without an installer. -/
inductive ReleaseError where
  | usage (cause : UsageError)
  | configUnreadable (path : Path) (cause : SystemError)
  /-- The release file does not say what it should; the text says why. -/
  | configInvalid (path : Path) (reason : String)
  | terminal (cause : SystemError)
  | pipeline (cause : Failure)
  deriving DecidableEq, Repr

namespace ReleaseError

/-- The exit code of errors that precede the run. -/
def usageExit : Int := 1

/-- The message of an error. -/
def message : ReleaseError → String
  | usage cause => cause.message
  | configUnreadable path cause => s!"failed to read config {path.display}: {cause.message}"
  | configInvalid path reason => s!"invalid config {path.display}: {reason}"
  | terminal cause => s!"IO error: {cause.message}"
  | pipeline cause => cause.message

/-- The exit code of an error. -/
def exitCode : ReleaseError → Int
  | pipeline cause => cause.exitCode
  | _ => usageExit

/-- Whether an error is about how the program was called. -/
def isUsage : ReleaseError → Bool
  | usage _ => true
  | _ => false

/-- The stage an error arose in. -/
def stage? : ReleaseError → Option String
  | pipeline cause => cause.stage?
  | _ => none

end ReleaseError

/-- The value of the version variable as text; a value that is not text is refused rather than
    ignored. -/
def versionFromVariable (name : String) : Option Bytes → Except UsageError (Option String)
  | none => .ok none
  | some value =>
    match value.text? with
    | some text => .ok (some text)
    | none =>
      let shown := value.lossy
      .error (.invalid s!"{name} is set but is not valid UTF-8 ({shown})")

end DebRelease
