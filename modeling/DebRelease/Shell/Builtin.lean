import DebRelease.Shell.Check
import DebRelease.Shell.External

namespace DebRelease.Shell.ShellM

/-- The status of a written answer. -/
def answer (name : String) (bytes : Bytes) : ShellM Nat := do
  if ← write 1 bytes then pure 0
  else
    blame (Bytes.ofText s!"{name}: {name}: I/O error")
    pure 1

/-- Says why a call cannot be answered and ends the process. -/
def abort (text : String) : ShellM α := do
  blame (Bytes.ofText text)
  exit 2

/-- The number that the first argument writes. -/
def numberArgument (name : String) (default : Nat) : List Bytes → ShellM Nat
  | [] => pure default
  | arg :: _ =>
    if !arg.isEmpty && arg.all isDigit then pure (numberOf arg)
    else
      let shown := arg.lossy
      abort s!"{name}: Illegal number: {shown}"

/-- Goes to another directory. -/
def changeDir (dir : Bytes) : ShellM Nat := do
  let s ← get
  match s.tree.stat (some s.cwd) ⟨dir⟩ with
  | .ok (location, .directory) =>
    set { s with cwd := location }
    pure 0
  | _ =>
    blame (Bytes.ofText "cd: can't cd to " ++ dir)
    pure 2

/-- Leaves out the first arguments of the script. -/
def shift (args : List Bytes) : ShellM Nat := do
  let count ← numberArgument "shift" 1 args
  if (← get).args.length < count then abort "shift: can't shift that many"
  else
    modify fun s => { s with args := s.args.drop count }
    pure 0

/-- Sets flags, and the arguments of the script if any are given. -/
def setFlags (args : List Bytes) : ShellM Nat := do
  let isFlags (arg : Bytes) :=
    arg.head? == some (Bytes.ascii '-') || arg.head? == some (Bytes.ascii '+')
  let flags := args.takeWhile isFlags
  flags.forM fun arg => do
    if arg.contains (Bytes.ascii 'e') then
      modify fun s => { s with stopsOnFailure := asksToStop arg }
  if flags.length < args.length || flags.contains (Bytes.ofText "--") then
    modify fun s => { s with args := args.drop flags.length }
  pure 0

/-- Gives values to the variables whose assignments are exported. -/
def exportAll (args : List Bytes) : ShellM Nat := do
  args.forM fun arg => do
    let name := arg.takeWhile inName
    match arg.drop name.length with
    | _ :: value => modify fun s => s.assign name value
    | [] => pure ()
  pure 0

/-- Gives to variables the words of a line, and to the last variable all that are left. -/
def assignWords : List Bytes → Bytes → ShellM Unit
  | [], _ => pure ()
  | [name], line => do
    let isEnd (b : UInt8) := partsFields b
    let value := ((line.dropWhile isEnd).reverse.dropWhile isEnd).reverse
    modify fun s => s.assign name value
  | name :: names, line => do
    let line := line.dropWhile partsFields
    let value := line.takeWhile (! partsFields ·)
    modify fun s => s.assign name value
    assignWords names (line.drop value.length)

/-- Reads a line into variables. -/
def readWords (args : List Bytes) : ShellM Nat := do
  let line ← readLine 0
  assignWords (args.filter (·.head? != some (Bytes.ascii '-'))) line
  pure (if line.getLast? == some Bytes.lineFeed then 0 else 1)

/-- Answers a call that the script answers itself. -/
def builtin? (name : Bytes) (args : List Bytes) : Option (ShellM Nat) :=
  match name.lossy with
  | "echo" => some (answer "echo" (Print.arguments args))
  | "printf" =>
    some (answer "printf" (Print.formatted (args.length + 1) (args.headD []) args.tail))
  | "pwd" => some do
    answer "pwd" ((Path.ofSegments true (← get).cwd).bytes ++ [Bytes.lineFeed])
  | ":" | "true" => some (pure 0)
  | "false" => some (pure 1)
  | "exit" => some do exit (← numberArgument "exit" (← get).status args)
  | "return" => some do throw (.returned (← numberArgument "return" (← get).status args))
  | "break" => some do throw (.left (← numberArgument "break" 1 args) false)
  | "continue" => some do throw (.left (← numberArgument "continue" 1 args) true)
  | "kill" => some kill
  | "test" => some do pure (if Check.holds (← get) args then 0 else 1)
  | "[" => some do pure (if Check.holds (← get) args.dropLast then 0 else 1)
  | "cd" => some do
    match args.head? <|> (← get).parameter? (Bytes.ofText "HOME") with
    | some dir => changeDir dir
    | none => pure 0
  | "shift" => some (shift args)
  | "set" => some (setFlags args)
  | "export" | "readonly" => some (exportAll args)
  | "unset" => some do
    modify fun s => { s with bindings := s.bindings.filter (! args.contains ·.1) }
    pure 0
  | "read" => some (readWords args)
  | _ => none

end DebRelease.Shell.ShellM
