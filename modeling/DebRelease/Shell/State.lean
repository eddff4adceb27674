import DebRelease.Console
import DebRelease.FileTree.Change
import DebRelease.Shell.Script
import DebRelease.Tool.Command

namespace DebRelease.Shell

/-- Where written bytes go. -/
inductive Sink where
  | stream (s : Stream)
  | pipe (number : Nat)
  deriving DecidableEq, Repr

/-- Where a descriptor leads. -/
inductive Descriptor where
  /-- To where written bytes are kept. -/
  | sink (s : Sink)
  | file (location : Location)
  | source (number : Nat)
  /-- To where everything written is lost and nothing can be read. -/
  | nowhere
  | closed
  deriving DecidableEq, Repr

/-- The state of a running script. -/
structure State where
  tree : FileTree
  cwd : Location
  name : Bytes
  args : List Bytes
  bindings : List (Bytes × Bytes)
  descriptors : List (Nat × Descriptor)
  status : Nat := 0
  line : Nat := 1
  stopsOnFailure : Bool := false
  /-- Whether the running command is a condition, whose failure is no reason to stop. -/
  isCondition : Bool := false
  /-- What was written, the last first. -/
  written : List (Sink × Bytes) := []
  pipes : Nat := 0
  /-- What is left of the bytes that can be read. -/
  sources : List Bytes := []
  /-- Commands that are not waited for, with where their descriptors lead. -/
  jobs : List (List (Nat × Descriptor) × Command) := []
  functions : List (Bytes × Command) := []

/-- Why a computation of a script does not go on. -/
inductive Stop where
  | ended (status : ToolStatus)
  /-- A command that has a name is left with a status. -/
  | returned (status : Nat)
  /-- Loops are left; the last of them goes on with its next round or ends. -/
  | left (loops : Nat) (goesOn : Bool)
  deriving DecidableEq, Repr

/-- A computation of a running script. -/
abbrev ShellM := ExceptT Stop (StateM State)

namespace State

/-- All that was written to a sink. -/
def output (s : State) (sink : Sink) : Bytes :=
  ((s.written.reverse.filter (·.1 == sink)).map (·.2)).flatten

/-- The value of a parameter, if it has one. -/
def parameter? (s : State) (name : Bytes) : Option Bytes :=
  if name.all isDigit then
    match numberOf name with
    | 0 => some s.name
    | n + 1 => s.args[n]?
  else if name == Bytes.ofText "*" || name == Bytes.ofText "@" then
    if s.args.isEmpty then none else some (Bytes.joinWith space s.args)
  else if name == Bytes.ofText "#" then some (Bytes.ofText (toString s.args.length))
  else if name == Bytes.ofText "?" then some (Bytes.ofText (toString s.status))
  else if name == Bytes.ofText "$" then some (Bytes.ofText "1")
  else s.bindings.lookup name

/-- The value of a parameter; without one it is empty. -/
def parameter (s : State) (name : Bytes) : Bytes :=
  (s.parameter? name).getD []

/-- The state in which a variable has a value. -/
def assign (s : State) (name value : Bytes) : State :=
  { s with bindings := (name, value) :: s.bindings.filter (·.1 != name) }

/-- The state in which a descriptor leads elsewhere. -/
def redirect (s : State) (descriptor : Nat) (d : Descriptor) : State :=
  { s with descriptors := (descriptor, d) :: s.descriptors.filter (·.1 != descriptor) }

end State

namespace ShellM

/-- Work on the files. -/
def onTree (m : TreeM SystemError α) : ShellM (Except SystemError α) := fun s =>
  let (outcome, tree) := m s.tree
  (.ok outcome, { s with tree })

/-- Writes to a descriptor; whether that was possible. -/
def write (descriptor : Nat) (bytes : Bytes) : ShellM Bool := do
  match (← get).descriptors.lookup descriptor with
  | some (.sink sink) =>
    modify fun s => { s with written := (sink, bytes) :: s.written }
    pure true
  | some (.file location) =>
    modify fun s =>
      match s.tree.get? location with
      | some (.file content executable) =>
        { s with tree := s.tree.set location (.file (content ++ bytes) executable) }
      | _ => s
    pure true
  | some .nowhere => pure true
  | some (.source _) | some .closed | none => pure false

/-- Takes bytes from where a descriptor leads, in the way that `take` divides what is left there. -/
def readBy (descriptor : Nat) (take : Bytes → Bytes × Bytes) : ShellM Bytes := do
  let s ← get
  match s.descriptors.lookup descriptor with
  | some (.source number) =>
    let (taken, left) := take (s.sources[number]?.getD [])
    set { s with sources := s.sources.set number left }
    pure taken
  | _ => pure []

/-- Reads all that is left where a descriptor leads. -/
def readAll (descriptor : Nat) : ShellM Bytes :=
  readBy descriptor fun bytes => (bytes, [])

/-- Reads a line with its line feed, or what is left. -/
def readLine (descriptor : Nat) : ShellM Bytes :=
  readBy descriptor fun bytes =>
    let length := (bytes.takeWhile (· != Bytes.lineFeed)).length + 1
    (bytes.take length, bytes.drop length)

/-- Makes bytes readable. -/
def source (bytes : Bytes) : ShellM Descriptor := do
  let s ← get
  set { s with sources := s.sources ++ [bytes] }
  pure (.source s.sources.length)

/-- Writes a text as a line to standard error. -/
def complain (text : Bytes) : ShellM Unit := do
  let _ ← write 2 (text ++ [Bytes.lineFeed])

/-- Writes what is wrong with the running command, after the script's name and the line. -/
def blame (text : Bytes) : ShellM Unit := do
  let s ← get
  complain (s.name ++ Bytes.ofText s!": {s.line}: " ++ text)

/-- Ends the process with a status. -/
def exit (status : Nat) : ShellM α :=
  throw (.ended ⟨some (status % 256)⟩)

/-- Ends the process by a signal. -/
def kill : ShellM α :=
  throw (.ended ⟨none⟩)

/-- Sets the status of the last command. -/
def setStatus (status : Nat) : ShellM Unit :=
  modify fun s => { s with status }

/-- Whether the last command succeeded. -/
def succeeded : ShellM Bool := do
  pure ((← get).status == 0)

/-- Ends the process if the last command failed and the script stops on failures. -/
def checkFailure : ShellM Unit := do
  let s ← get
  if s.stopsOnFailure && !s.isCondition && s.status != 0 then exit s.status

/-- Runs a condition. -/
def asCondition (m : ShellM Unit) : ShellM Unit := do
  let before ← get
  modify fun s => { s with isCondition := true }
  m
  modify fun s => { s with isCondition := before.isCondition }

/-- Runs something as a process of its own: only files and what was read and written outlast it. -/
def isolated (m : ShellM Unit) : ShellM Unit := fun s =>
  let (outcome, after) := m s
  let left (status : Nat) : State :=
    { s with
      tree := after.tree
      written := after.written
      pipes := after.pipes
      sources := after.sources
      jobs := after.jobs
      status }
  match outcome with
  | .error (.ended ⟨some code⟩) => (.ok (), left code.toNat)
  | .error (.ended ⟨none⟩) => (.error (.ended ⟨none⟩), left after.status)
  | .error (.returned status) => (.ok (), left status)
  | .error (.left ..) | .ok () => (.ok (), left after.status)

/-- What something writes to standard output as a process of its own. -/
def collected (m : ShellM Unit) : ShellM Bytes := do
  let number := (← get).pipes
  isolated do
    modify fun s => { s with pipes := number + 1 }.redirect 1 (.sink (.pipe number))
    m
  let s ← get
  set { s with written := s.written.filter (·.1 != Sink.pipe number) }
  pure (s.output (.pipe number))

end ShellM

end DebRelease.Shell
