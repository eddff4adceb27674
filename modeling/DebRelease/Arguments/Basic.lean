import DebRelease.Arguments.Switch
import DebRelease.Console
import DebRelease.Platform
import DebRelease.Release

namespace DebRelease

/-- What a command line says. -/
structure Arguments where
  platform : Option String
  buildScripts : Path
  releaseFile : Option Path
  verbose : Bool
  quiet : Bool
  deriving DecidableEq, Repr

/-- What is wrong with a command line. `used` are the slots that the usage line shows as used. -/
inductive ArgumentError where
  /-- A word has no meaning. It may be like a switch, or have been meant as a value. -/
  | unknown (shown : String) (isValue : Bool) (similar : Option Switch) (used : List Slot)
  | missingValue (s : Switch)
  | unexpectedValue (s : Switch) (value : String) (used : List Slot)
  | repeated (s : Switch)
  | excluded (first second : Switch) (used : List Slot)
  | notText
  deriving DecidableEq, Repr

/-- Why a command line gives nothing to run. -/
inductive ArgumentStop where
  | help (long : Bool)
  | version
  | error (cause : ArgumentError)
  deriving DecidableEq, Repr

/-- Whether a command line that gives nothing to run is wrong. -/
def ArgumentStop.isError : ArgumentStop → Bool
  | error _ => true
  | _ => false

namespace Arguments

/-- The target platform. -/
def target (a : Arguments) : Except UsageError Platform :=
  let choices := Platform.choices
  match a.platform with
  | none => .error (.missing s!"PLATFORM ({choices})")
  | some selector =>
    match Platform.ofSelector? selector with
    | some p => .ok p
    | none =>
      .error (.invalid s!"unsupported platform '{selector}', expected one of: {choices}")

/-- The console that the arguments ask for. -/
def console (a : Arguments) (color : Bool) : Console :=
  .ofFlags a.verbose a.quiet color

end Arguments

end DebRelease
