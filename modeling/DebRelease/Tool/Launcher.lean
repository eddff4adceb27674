import DebRelease.Artifact
import DebRelease.Session
import DebRelease.Shell.Run
import DebRelease.Tool.Lookup
import DebRelease.Tool.Pipe

namespace DebRelease

namespace Launcher

/-- A program that can be launched. -/
structure Image where
  path : Path
  script : Bytes
  stopsOnFailure : Bool
  cwd : Location

/-- What a program did. -/
structure Execution where
  status : ToolStatus
  tree : FileTree
  stdout : Bytes
  stderr : Bytes

/-- The program that a command launches from a path. -/
def image (h : Host) (command : ToolCommand) (path : Path) : Except SystemError Image := do
  if (command.cwd.bytes :: command.searchPath.toList ++ command.args).any (·.contains 0) then
    throw (.other "nul byte found in provided data")
  match ← h.tree.stat h.cwd command.cwd with
  | (cwd, .directory) =>
    match ← h.tree.stat (some cwd) path with
    | (_, .file content true) =>
      match Shell.interpreter? content, Shell.scriptFlags? content with
      | _, some flags => pure ⟨path, content, Shell.asksToStop flags, cwd⟩
      | some _, none => throw (.os .noEntry)
      | none, none => throw (.os .execFormat)
    | _ => throw (.os .accessDenied)
  | _ => throw (.os .notDirectory)

/-- The environment variables that a command runs with. -/
def environment (h : Host) (command : ToolCommand) : List (Bytes × Bytes) :=
  let inherited := h.environment.map fun (name, value) => (Bytes.ofText name, value)
  command.searchPath.toList.map (fun path => (Bytes.ofText "PATH", path)) ++ inherited

/-- Runs a program to its end. -/
def execute (h : Host) (command : ToolCommand) (i : Image) : Execution :=
  let start : Shell.State :=
    { tree := h.tree
      cwd := i.cwd
      name := i.path.bytes
      args := command.args
      bindings := environment h command
      descriptors := [(0, .nowhere), (1, .sink (.stream .out)), (2, .sink (.stream .err))]
      stopsOnFailure := i.stopsOnFailure }
  match Shell.Script.parse? i.script with
  | none =>
    ⟨⟨some 2⟩, h.tree, [], i.path.bytes ++ Bytes.ofText ": 1: Syntax error\n"⟩
  | some script =>
    let (status, s) := script.run start
    ⟨status, s.tree, s.output (.stream .out), s.output (.stream .err)⟩

/-- Looks up and runs a command. The console tells what happens, in the words of `activity`. -/
def launch (h : Host) (console : Console) (activity : String) (command : ToolCommand) :
    Except Failure Execution × List Write :=
  let place := command.cwd.display
  let announced := console.detail s!"{activity} `{command.display}` in {place}"
  match Lookup.program? h (command.searchPath <|> h.searchPath?) command.cwd command.program with
  | none => (.error (.toolNotFound command.program), announced)
  | some path =>
    let shown := path.display
    let resolved := console.detail s!"Resolved {command.program} to {shown}"
    let outcome := (image h command path).mapError (.launch command.program)
    (outcome.map (execute h command), announced ++ resolved)

/-- What a tool wrote, shown line by line as it is read. -/
def forward (console : Console) (stream : Stream) (bytes : Bytes) : List Write :=
  (Pipe.ofParts (Chunking.full.parts bytes)).forwardLines.1.flatMap (console.indented stream)

/-- Runs a command and shows what it writes. -/
def run (h : Host) (console : Console) (command : ToolCommand) (tree : FileTree) (σ : Unit) :
    Reply Unit ToolStatus :=
  match launch { h with tree } console "Running" command with
  | (.error e, writes) => ⟨.error e, tree, σ, writes⟩
  | (.ok e, writes) =>
    let shown := forward console .out e.stdout ++ forward console .err e.stderr
    ⟨.ok e.status, e.tree, σ, writes ++ shown⟩

/-- Runs a command and keeps what it writes to standard output; what it writes to standard error
    goes there as it is. -/
def capture (h : Host) (console : Console) (command : ToolCommand) (tree : FileTree) (σ : Unit) :
    Reply Unit Captured :=
  match launch { h with tree } console "Capturing" command with
  | (.error e, writes) => ⟨.error e, tree, σ, writes⟩
  | (.ok e, writes) =>
    ⟨.ok ⟨e.status, e.stdout.lossy⟩, e.tree, σ, writes ++ [⟨.err, e.stderr.lossy⟩]⟩

/-- The tools of a machine. -/
def runner (h : Host) (console : Console) : Runner Unit where
  run := run h console
  capture := capture h console

end Launcher

end DebRelease
