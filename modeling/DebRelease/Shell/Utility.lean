import DebRelease.FileTree.Directory
import DebRelease.Shell.Filter

namespace DebRelease.Shell

/-- A utility. -/
inductive Utility where
  | basename
  | cat
  | chmod
  | cp
  | dirname
  | head
  | ln
  | ls
  | mkdir
  | mv
  | rm
  | rmdir
  | seq
  | sleep
  | tail
  | touch
  | tr
  | wc
  deriving DecidableEq, Repr

namespace Utility

/-- The name of a utility. -/
def name : Utility → String
  | basename => "basename"
  | cat => "cat"
  | chmod => "chmod"
  | cp => "cp"
  | dirname => "dirname"
  | head => "head"
  | ln => "ln"
  | ls => "ls"
  | mkdir => "mkdir"
  | mv => "mv"
  | rm => "rm"
  | rmdir => "rmdir"
  | seq => "seq"
  | sleep => "sleep"
  | tail => "tail"
  | touch => "touch"
  | tr => "tr"
  | wc => "wc"

/-- The utilities. -/
def all : List Utility :=
  [basename, cat, chmod, cp, dirname, head, ln, ls, mkdir, mv, rm, rmdir, seq, sleep, tail, touch,
    tr, wc]

/-- The utility of a name. -/
def ofName? (bytes : Bytes) : Option Utility :=
  all.find? fun u => Bytes.ofText u.name == bytes

/-- The directories in which the utilities are. -/
def directories : List Bytes :=
  [Bytes.ofText "/bin", Bytes.ofText "/usr/bin"]

/-- The text of a cause without its number. -/
def causeText : SystemError → String
  | .os errno => errno.text
  | e => e.message

/-- Says that a utility could not do something to a path. -/
def refuse (u : Utility) (deed : String) (p : Path) (e : SystemError) : ShellM Unit :=
  let cause := causeText e
  ShellM.complain (Bytes.ofText s!"{u.name}: {deed} '" ++ p.bytes ++ Bytes.ofText s!"': {cause}")

/-- The options among the arguments, and the operands. -/
def options (args : List Bytes) : List Bytes × List Path :=
  let isOption (arg : Bytes) := arg.head? == some (Bytes.ascii '-') && 1 < arg.length
  (args.filter isOption, (args.filter (! isOption ·)).map Path.mk)

/-- Whether an option is given. -/
def hasOption (given : List Bytes) (letter : Char) : Bool :=
  given.any (·.contains (Bytes.ascii letter))

/-- Works on operands one after another; the status tells whether all went well. -/
def forAll (failed : Nat) (ps : List Path) (work : Path → ShellM Bool) : ShellM Nat := do
  let outcomes ← ps.mapM work
  pure (if outcomes.all id then 0 else failed)

/-- Work on the files by a utility; whether it went well. -/
def attempt (u : Utility) (deed : String) (p : Path) (m : TreeM SystemError Unit) :
    ShellM Bool := do
  match ← ShellM.onTree m with
  | .ok () => pure true
  | .error e =>
    refuse u deed p e
    pure false

/-- The entry in a directory that `p` goes to, if `p` goes to a directory. -/
def destination (t : FileTree) (cwd : WorkingDir) (source target : Path) : Path :=
  if t.isDir cwd target then
    match source.fileName? with
    | some name => target.join ⟨name⟩
    | none => target
  else target

/-- Copies a file; what is copied onto keeps being a program or not. -/
def copy (cwd : WorkingDir) (source target : Path) : TreeM SystemError Unit := do
  let (_, entry) ← TreeM.look (·.stat cwd source)
  match entry with
  | .file content executable =>
    let isNew := ((← get).stat cwd target).toOption.isNone
    FileTree.write cwd target content
    if isNew then FileTree.setExecutable cwd target executable
  | _ => TreeM.refuse .isDirectory

/-- Whether a mode makes a file a program: its owner may run it. -/
def isProgramMode (mode : Bytes) : Bool :=
  match mode.reverse with
  | _ :: _ :: owner :: _ => (owner.toNat - 48) % 2 == 1
  | _ => mode.contains (Bytes.ascii 'x')

/-- Prints the names in a directory in their order, hidden ones left out, or the path of a file. -/
def list (cwd : WorkingDir) (p : Path) : ShellM Bool := do
  let t := (← get).tree
  match t.stat cwd p with
  | .error e =>
    refuse .ls "cannot access" p e
    pure false
  | .ok (location, .directory) =>
    let names := (t.childNames location).filter (·.head? != some (Bytes.ascii '.'))
    let lines := (names.mergeSort Bytes.le).map (· ++ [Bytes.lineFeed])
    ShellM.write 1 lines.flatten
  | .ok _ => ShellM.write 1 (p.bytes ++ [Bytes.lineFeed])

/-- The content of a file, if it can be read. -/
def content? (u : Utility) (cwd : WorkingDir) (p : Path) : ShellM (Option Bytes) := do
  match (← get).tree.read cwd p with
  | .ok content => pure (some content)
  | .error e =>
    let cause := causeText e
    ShellM.complain (Bytes.ofText s!"{u.name}: " ++ p.bytes ++ Bytes.ofText s!": {cause}")
    pure none

/-- Prints a file. -/
def print (cwd : WorkingDir) (p : Path) : ShellM Bool := do
  let content? ← if p == "-" then pure (some (← ShellM.readAll 0)) else content? .cat cwd p
  match content? with
  | some content => ShellM.write 1 content
  | none => pure false

/-- The content of the first file, or all that can be read from standard input if there is none. -/
def input? (u : Utility) (cwd : WorkingDir) : List Path → ShellM (Option Bytes)
  | [] => do pure (some (← ShellM.readAll 0))
  | p :: _ => content? u cwd p

/-- Prints what becomes of the content of a file or of standard input. -/
def filter (u : Utility) (cwd : WorkingDir) (ps : List Path) (f : Bytes → Bytes) : ShellM Bool := do
  match ← input? u cwd ps with
  | some content => ShellM.write 1 (f content)
  | none => pure false

/-- How much of a file is asked for: an amount, of bytes or else of lines. The files are returned,
    too. -/
def amount : List Bytes → Bool × Nat × List Path
  | [] => (false, 10, [])
  | option :: rest =>
    let number := option.filter isDigit
    let isBytes := option.contains (Bytes.ascii 'c')
    if option.head? != some (Bytes.ascii '-') then (false, 10, (option :: rest).map Path.mk)
    else if number.isEmpty then
      (isBytes, numberOf (rest.headD []), rest.tail.map Path.mk)
    else (isBytes, numberOf number, rest.map Path.mk)

/-- Prints the beginning or the end of a file. -/
def excerpt (u : Utility) (cwd : WorkingDir) (args : List Bytes) : ShellM Bool :=
  let isEnd := u == .tail
  let (isBytes, count, ps) := amount args
  if isBytes && ps == [Path.ofText "/dev/zero"] then ShellM.write 1 (List.replicate count 0)
  else
    filter u cwd ps fun content =>
      if isBytes then Filter.outermost isEnd count content
      else (Filter.outermost isEnd count (Filter.linesOf content)).flatten

/-- Prints how many lines, words and bytes there are. -/
def countContent (cwd : WorkingDir) (given : List Bytes) (ps : List Path) : ShellM Bool := do
  let isAsked (letter : Char) := given.isEmpty || hasOption given letter
  match ← input? .wc cwd ps with
  | none => pure false
  | some content =>
    let counts :=
      [('l', content.count Bytes.lineFeed), ('w', (Filter.wordsOf content).length),
        ('c', content.length)].filter (isAsked ·.1)
    let width := if counts.length = 1 then 0 else if ps.isEmpty then 7 else
      (toString content.length).length
    let columns := counts.map (Filter.column width ·.2)
    let shown := Bytes.joinWith space (columns ++ (ps.take 1).map (·.bytes))
    ShellM.write 1 (shown ++ [Bytes.lineFeed])

/-- Replaces or deletes bytes of standard input. -/
def substitute (args : List Bytes) : ShellM Bool := do
  let input ← ShellM.readAll 0
  match args with
  | [source, target] =>
    let named := Filter.namedBytes target
    if source == Bytes.ofText "-d" then ShellM.write 1 (input.filter (! named.contains ·))
    else ShellM.write 1 (input.map (Filter.replaced (Filter.namedBytes source) named))
  | _ => pure false

/-- Prints numbers on lines. -/
def printNumbers (args : List Bytes) : ShellM Bool :=
  let line (n : Int) := Bytes.ofText (toString n) ++ [Bytes.lineFeed]
  match args.map Arithmetic.value with
  | [last] => ShellM.write 1 ((Filter.numbers 1 1 last).flatMap line)
  | [first, last] => ShellM.write 1 ((Filter.numbers first 1 last).flatMap line)
  | [first, step, last] => ShellM.write 1 ((Filter.numbers first step last).flatMap line)
  | _ => pure false

/-- Makes a file that is not there. -/
def makeFile (cwd : WorkingDir) (p : Path) : TreeM SystemError Unit := do
  if ((← get).stat cwd p).toOption.isNone then
    let _ ← FileTree.truncate cwd false p

/-- Prints a path on a line. -/
def printPath (p : Bytes) : ShellM Bool :=
  ShellM.write 1 (p ++ [Bytes.lineFeed])

/-- The directory of a path. -/
def directoryOf (p : Path) : Bytes :=
  match p.parent? with
  | some dir => if dir.bytes.isEmpty then Path.dot else dir.bytes
  | none => p.bytes

/-- Removes a file, or a directory if that is asked for. -/
def remove (cwd : WorkingDir) (given : List Bytes) (p : Path) : ShellM Bool := do
  match (← get).tree.lstat cwd p with
  | .ok (_, .directory) =>
    attempt .rm "cannot remove" p
      (if hasOption given 'r' then FileTree.removeAllAt cwd p else TreeM.refuse .isDirectory)
  | .ok _ => attempt .rm "cannot remove" p (FileTree.unlink cwd p)
  | .error e =>
    if hasOption given 'f' then pure true
    else
      refuse .rm "cannot remove" p e
      pure false

/-- Copies a file to a path or into a directory. -/
def copyTo (cwd : WorkingDir) (source target : Path) : ShellM Bool := do
  let t := (← get).tree
  match t.stat cwd source with
  | .error e =>
    refuse .cp "cannot stat" source e
    pure false
  | .ok _ =>
    let new := destination t cwd source target
    attempt .cp "cannot create regular file" new (copy cwd source new)

/-- Makes a symbolic link at a path or in a directory. -/
def linkTo (cwd : WorkingDir) (target p : Path) : ShellM Bool := do
  let new := destination (← get).tree cwd target p
  attempt .ln "failed to create symbolic link" new (FileTree.makeLink cwd target new)

/-- Moves an entry to a path or into a directory. -/
def moveTo (cwd : WorkingDir) (source target : Path) : ShellM Bool := do
  let new := destination (← get).tree cwd source target
  attempt .mv "cannot stat" source (FileTree.rename cwd source new)

/-- The status of a single piece of work. -/
def status (work : ShellM Bool) : ShellM Nat := do
  pure (if ← work then 0 else 1)

/-- Runs a utility. -/
def run (u : Utility) (args : List Bytes) : ShellM Nat := do
  let cwd : WorkingDir := some (← get).cwd
  let (given, operands) := options args
  match u, operands with
  | .basename, p :: ends =>
    let name := p.fileName?.getD p.bytes
    status (printPath (cutEnd false ((ends.flatMap (·.bytes)).map Sign.exactly) name))
  | .cat, [] => status (filter u cwd [] id)
  | .cat, _ => forAll 1 operands (print cwd)
  | .chmod, mode :: files =>
    let makeProgram := isProgramMode mode.bytes
    forAll 1 files fun p =>
      attempt .chmod "cannot access" p (FileTree.setExecutable cwd p makeProgram)
  | .cp, [source, target] => status (copyTo cwd source target)
  | .dirname, [p] => status (printPath (directoryOf p))
  | .head, _ | .tail, _ => status (excerpt u cwd args)
  | .ln, [target, p] => status (linkTo cwd target p)
  | .ls, [] => forAll 2 ["."] (list cwd)
  | .ls, _ => forAll 2 operands (list cwd)
  | .mkdir, _ :: _ =>
    let make := if hasOption given 'p' then FileTree.makeDirs cwd else FileTree.makeDir cwd
    forAll 1 operands fun p => attempt .mkdir "cannot create directory" p (make p)
  | .mv, [source, target] => status (moveTo cwd source target)
  | .rm, _ => forAll 1 operands (remove cwd given)
  | .rmdir, _ :: _ =>
    forAll 1 operands fun p => attempt .rmdir "failed to remove" p (FileTree.removeDir cwd p)
  | .seq, _ => status (printNumbers args)
  | .sleep, _ :: _ => pure 0
  | .touch, _ :: _ => forAll 1 operands fun p => attempt .touch "cannot touch" p (makeFile cwd p)
  | .tr, _ => status (substitute args)
  | .wc, _ => status (countContent cwd given operands)
  | _, _ =>
    ShellM.complain (Bytes.ofText s!"{u.name}: missing operand")
    ShellM.complain (Bytes.ofText s!"Try '{u.name} --help' for more information.")
    pure 1

end Utility

end DebRelease.Shell
