import DebRelease.Program
import DebRelease.Rehearsal
import DebRelease.Tool.Launcher

namespace DebRelease

/-- The environment variables that the program looks at whatever the release file says. -/
def knownVariables : List String :=
  ["PATH", "HOME", "CLICOLOR_FORCE", "NO_COLOR"] ++ Switch.all.filterMap Switch.envVar?

/-- The names and values of those environment variables that are set. -/
def readVariables (names : List String) : IO (List (String × Bytes)) :=
  names.filterMapM fun name => do
    return (← IO.getEnv name).map fun value => (name, Bytes.ofText value)

/-- The content of a file, unless it cannot be read. -/
def readFile? (path : Path) : IO (Option Bytes) := do
  try
    return some (← IO.FS.readBinFile path.display).toList
  catch _ =>
    return none

/-- The machine with what the arguments point at. -/
def readHost (words : List Bytes) : IO Host := do
  let here := Path.ofText (← IO.currentDir).toString
  let location := here.names
  let (_, tree) := FileTree.makeDirs (some []) here .empty
  let h : Host := ⟨tree, some location, ← readVariables knownVariables⟩
  match Arguments.parse h.env? words with
  | .error _ => return h
  | .ok a =>
    let path := a.releaseFile.map here.absoluteFrom
    let content ← (path.mapM readFile? : IO (Option (Option Bytes)))
    let h := match path, content.join with
      | some p, some bytes =>
        { h with tree := FileAction.apply h.cwd [.write p bytes false] tree }
      | _, _ => h
    match a.prepare h with
    | .error _ => return h
    | .ok (config, _) =>
      let more ← readVariables [config.versioning.envVar]
      return { h with environment := h.environment ++ more }

end DebRelease

open DebRelease in
/-- Runs the program on the arguments. -/
def main (args : List String) : IO UInt32 := do
  let words := args.map Bytes.ofText
  let h ← readHost words
  let ending := Program.run h (Launcher.runner h) () words
  for w in ending.writes do
    match w.stream with
    | .out => (← IO.getStdout).putStr w.text
    | .err => (← IO.getStderr).putStr w.text
  return UInt32.ofNat (ending.exitCode % 256).toNat
