import DebRelease.Path.SearchPath
import DebRelease.Shell.Utility

namespace DebRelease.Shell

/-- The interpreter that a file names on its first line, and what follows its name there. -/
def interpreter? (content : Bytes) : Option (Bytes × Bytes) :=
  match content with
  | a :: b :: rest =>
    if a == Bytes.ascii '#' && b == Bytes.ascii '!' then
      let line := (rest.takeWhile (· != Bytes.lineFeed)).dropWhile Token.isBlank
      let name := line.takeWhile (! Token.isBlank ·)
      some (name, (line.drop name.length).dropWhile Token.isBlank)
    else none
  | _ => none

/-- The interpreters of scripts. -/
def shellPaths : List Bytes :=
  ["/bin/sh", "/usr/bin/sh", "/bin/dash", "/usr/bin/dash"].map Bytes.ofText

/-- The flags with which a file that is a script is interpreted. -/
def scriptFlags? (content : Bytes) : Option Bytes :=
  match interpreter? content with
  | some (name, flags) => if shellPaths.contains name then some flags else none
  | none => none

/-- Whether flags ask a script to stop on failures. -/
def asksToStop (flags : Bytes) : Bool :=
  flags.head? == some (Bytes.ascii '-') && flags.contains (Bytes.ascii 'e')

/-- What a call that is no part of the language runs. -/
inductive External where
  | utility (u : Utility)
  | script (path : Path) (content : Bytes)
  | forbidden

namespace External

/-- The program at a path. -/
def at? (s : State) (p : Path) : Option External :=
  match s.tree.stat (some s.cwd) p with
  | .ok (_, .file content true) => some (.script p content)
  | .ok _ => some .forbidden
  | .error _ =>
    match p.parent?, p.fileName? with
    | some dir, some name =>
      if Utility.directories.contains dir.bytes then (Utility.ofName? name).map .utility else none
    | _, _ => none

/-- Whether a program can be run. -/
def isRunnable : External → Bool
  | forbidden => false
  | _ => true

/-- The program that a call names: by its path, or by a name looked up on the search path. -/
def ofName? (s : State) (name : Bytes) : Option External :=
  if name.contains Path.slash then at? s ⟨name⟩
  else
    let dirs := SearchPath.split (s.parameter (Bytes.ofText "PATH"))
    let found := dirs.filterMap fun dir => at? s (dir.join ⟨name⟩)
    found.find? isRunnable <|> found.head?

end External

end DebRelease.Shell
