import DebRelease.Session

namespace DebRelease

/-- A change of files that sets a scene. -/
inductive FileAction where
  | makeDir (path : Path)
  | write (path : Path) (content : Bytes) (executable : Bool)
  | link (path target : Path)
  | remove (path : Path)
  deriving DecidableEq, Repr

namespace FileAction

open FileTree TreeM

/-- Makes the directories above a path. -/
def makeAbove (cwd : WorkingDir) (p : Path) : TreeM SystemError Unit :=
  match p.parent? with
  | some parent => makeDirs cwd parent
  | none => pure ()

/-- The change of the tree. -/
def perform (cwd : WorkingDir) : FileAction → TreeM SystemError Unit
  | makeDir path => makeDirs cwd path
  | write path content executable => do
    makeAbove cwd path
    FileTree.write cwd path content
    setExecutable cwd path executable
  | link path target => do
    makeAbove cwd path
    makeLink cwd target path
  | remove path => do
    match ← look (·.lstat cwd path) with
    | (_, .directory) => removeAllAt cwd path
    | _ => unlink cwd path

/-- The tree after actions; one that cannot be done is left out. -/
def apply (cwd : WorkingDir) (actions : List FileAction) (t : FileTree) : FileTree :=
  actions.foldl (fun t action => (action.perform cwd t).2) t

end FileAction

namespace Rehearsal

/-- How a call is answered. -/
structure Rule where
  program : String
  /-- How many calls of the program must precede, if that matters. -/
  nth : Option Nat
  effects : List FileAction
  /-- The failure of the runner, if it fails itself. -/
  raise : Option Failure
  status : ToolStatus
  stdout : String

/-- The programs called so far. -/
abbrev Memory := List String

/-- The first rule that answers a call. -/
def ruleFor? (rules : List Rule) (memory : Memory) (program : String) : Option Rule :=
  rules.find? fun rule =>
    rule.program == program && rule.nth.all (· == memory.count program)

/-- The answer to a call; without a rule the tool does nothing and succeeds. -/
def answer (rules : List Rule) (cwd : WorkingDir) (command : ToolCommand) (tree : FileTree)
    (memory : Memory) : Reply Memory Captured :=
  let later := memory ++ [command.program]
  match ruleFor? rules memory command.program with
  | none => ⟨.ok ⟨.ok, ""⟩, tree, later, []⟩
  | some rule =>
    let outcome := match rule.raise with
      | some failure => .error failure
      | none => .ok ⟨rule.status, rule.stdout⟩
    ⟨outcome, FileAction.apply cwd rule.effects tree, later, []⟩

/-- The tools of a rehearsal. -/
def runner (rules : List Rule) (cwd : WorkingDir) : Runner Memory where
  capture := answer rules cwd
  run command tree memory :=
    let reply := answer rules cwd command tree memory
    { reply with outcome := reply.outcome.map (·.status) }

end Rehearsal

end DebRelease
