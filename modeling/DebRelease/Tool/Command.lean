import DebRelease.Failure

namespace DebRelease

/-- An invocation of a tool. -/
structure ToolCommand where
  /-- The name of the program, or its path. -/
  program : String
  args : List Bytes
  cwd : Path
  /-- The search path the program is looked up on and runs with, if not the inherited one. -/
  searchPath : Option Bytes
  deriving DecidableEq, Repr

namespace ToolCommand

/-- A command whose arguments are texts. -/
def ofTexts (program : String) (args : List String) (cwd : Path) (searchPath : Option Bytes) :
    ToolCommand :=
  ⟨program, args.map Bytes.ofText, cwd, searchPath⟩

/-- The command with a further argument. -/
def withArg (command : ToolCommand) (arg : Bytes) : ToolCommand :=
  { command with args := command.args ++ [arg] }

/-- The arguments as messages show them. -/
def argTexts (command : ToolCommand) : List String :=
  command.args.map Bytes.lossy

/-- The program and its arguments, separated by spaces. -/
def display (command : ToolCommand) : String :=
  " ".intercalate (command.program :: command.argTexts)

end ToolCommand

/-- How a tool ended: with an exit code, or by a signal. -/
structure ToolStatus where
  code : Option Int
  deriving DecidableEq, Repr

namespace ToolStatus

/-- The status of a tool that did its work. -/
def ok : ToolStatus := ⟨some 0⟩

/-- Whether the tool did its work. -/
def success (status : ToolStatus) : Bool :=
  status.code = some 0

/-- A status that is no success is a failure of the command. -/
def check (status : ToolStatus) (command : ToolCommand) : Except Failure Unit :=
  if status.success then .ok () else .error (.toolFailed command.program status.code)

end ToolStatus

/-- How a tool ended and what it printed. -/
structure Captured where
  status : ToolStatus
  stdout : String
  deriving DecidableEq, Repr

end DebRelease
