import DebRelease.Config.Basic
import DebRelease.FileTree.Resolve

namespace DebRelease

/-- What a program finds when it is started. -/
structure Host where
  tree : FileTree
  cwd : WorkingDir
  environment : List (String × Bytes)

namespace Host

/-- The value of an environment variable. -/
def env? (h : Host) (name : String) : Option Bytes :=
  h.environment.lookup name

/-- The search path. -/
def searchPath? (h : Host) : Option Bytes :=
  h.env? "PATH"

/-- The working directory as a path. -/
def currentDir (h : Host) : Except SystemError Path :=
  match h.cwd with
  | some location => .ok (Path.ofSegments true location)
  | none => .error (.os .noEntry)

/-- What a configuration takes from the machine. -/
def surroundings (h : Host) : Surroundings :=
  ⟨h.currentDir, h.searchPath?⟩

end Host

end DebRelease
