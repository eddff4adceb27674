import DebRelease.Console
import DebRelease.FileTree.Directory
import DebRelease.Tool.Command

namespace DebRelease

/-- The weight of a log record. -/
inductive LogLevel where
  | error
  | warn
  | info
  deriving DecidableEq, Repr

/-- A record of the log. -/
structure LogRecord where
  level : LogLevel
  text : String
  deriving DecidableEq, Repr

/-- Whether the output of a tool is shown or kept. -/
inductive CallMode where
  | run
  | capture
  deriving DecidableEq, Repr

/-- A call of a tool, with the tree at that moment, what the tool answered and the tree it left. -/
structure Call where
  mode : CallMode
  command : ToolCommand
  tree : FileTree
  /-- The answer; of output that is shown nothing is kept. -/
  answer : Except Failure Captured
  after : FileTree

/-- What a call of a tool gives: its outcome, the tree after it, what it wrote to the terminal, and
    what the tools remember. -/
structure Reply (σ α : Type) where
  outcome : Except Failure α
  tree : FileTree
  /-- What the tools remember. -/
  memory : σ
  writes : List Write

/-- How tools answer calls. They may change the tree in any way, and remember what they like. -/
structure Runner (σ : Type) where
  run : ToolCommand → FileTree → σ → Reply σ ToolStatus
  /-- Runs a command and keeps its standard output. -/
  capture : ToolCommand → FileTree → σ → Reply σ Captured

/-- The state of a run. -/
structure Session (σ : Type) where
  tree : FileTree
  /-- What the tools remember. -/
  memory : σ
  calls : List Call
  log : List LogRecord
  writes : List Write

namespace Session

/-- The state before a run. -/
def start (tree : FileTree) (memory : σ) : Session σ :=
  ⟨tree, memory, [], [], []⟩

end Session

/-- A computation in a run; what it did before a failure stays done. -/
abbrev RunM (σ : Type) := ExceptT Failure (StateM (Session σ))

namespace RunM

/-- Work on the files. -/
def onTree (m : TreeM Failure α) : RunM σ α := fun s =>
  let (outcome, tree) := m s.tree
  (outcome, { s with tree })

/-- Writes to the terminal. -/
def emit (writes : List Write) : RunM σ Unit :=
  modify fun s => { s with writes := s.writes ++ writes }

/-- Adds a record to the log. -/
def log (level : LogLevel) (text : String) : RunM σ Unit :=
  modify fun s => { s with log := s.log ++ [⟨level, text⟩] }

/-- The outcome of a computation in place of its failure. -/
def attempt (m : RunM σ α) : RunM σ (Except Failure α) := fun s =>
  let (outcome, s) := m s
  (.ok outcome, s)

/-- A call that a runner answers; `kept` is what is kept of an outcome. -/
def call (mode : CallMode) (command : ToolCommand)
    (answer : ToolCommand → FileTree → σ → Reply σ α) (kept : α → Captured) : RunM σ α := fun s =>
  let reply := answer command s.tree s.memory
  (reply.outcome,
    { s with
      tree := reply.tree
      memory := reply.memory
      calls := s.calls ++ [⟨mode, command, s.tree, reply.outcome.map kept, reply.tree⟩]
      writes := s.writes ++ reply.writes })

/-- Runs a tool; a status that is no success is a failure. -/
def runTool (tools : Runner σ) (command : ToolCommand) : RunM σ Unit := do
  let status ← call .run command tools.run fun status => ⟨status, ""⟩
  match status.check command with
  | .ok () => pure ()
  | .error e => throw e

/-- Runs a tool and keeps what it prints; a status that is no success is a failure. -/
def captureTool (tools : Runner σ) (command : ToolCommand) : RunM σ String := do
  let captured ← call .capture command tools.capture id
  match captured.status.check command with
  | .ok () => pure captured.stdout
  | .error e => throw e

end RunM

end DebRelease
