import DebRelease.FileTree.Resolve
import DebRelease.Shell.Expansion

namespace DebRelease.Shell

/-- The whole number that bytes write. -/
def wholeNumber? (bytes : Bytes) : Option Int :=
  let digits := if bytes.head? == some (Bytes.ascii '-') then bytes.tail else bytes
  if digits.isEmpty || !digits.all isDigit then none else some (Arithmetic.value bytes)

namespace Check

/-- The comparison of numbers that an operator names. -/
def comparison? (operator : String) : Option (Int → Int → Bool) :=
  match operator with
  | "-eq" => some (· == ·)
  | "-ne" => some (· != ·)
  | "-lt" => some (· < ·)
  | "-le" => some (· ≤ ·)
  | "-gt" => some (· > ·)
  | "-ge" => some (· ≥ ·)
  | _ => none

/-- Whether an entry of the file tree is a link, or what it leads to satisfies a condition. -/
def onEntry (s : State) (operator : String) (p : Path) : Bool :=
  let entry? := (s.tree.stat (some s.cwd) p).toOption.map (·.2)
  match operator, entry? with
  | "-L", _ | "-h", _ => ((s.tree.lstat (some s.cwd) p).toOption.map (·.2)).any Entry.isSymlink
  | "-d", entry? => entry?.any Entry.isDirectory
  | "-f", entry? => entry?.any (! ·.isDirectory)
  | "-s", some (.file content _) => !content.isEmpty
  | "-x", some (.file _ executable) => executable
  | _, entry? => entry?.isSome

/-- The operators on files. -/
def fileOperators : List String :=
  ["-e", "-d", "-f", "-s", "-x", "-r", "-w", "-L", "-h"]

/-- Whether a check with one operand holds. -/
def one (s : State) (operator : String) (operand : Bytes) : Bool :=
  if fileOperators.contains operator then onEntry s operator ⟨operand⟩
  else operator == "-n" && !operand.isEmpty ||
    (operator == "-z" || operator == "!") && operand.isEmpty

/-- Whether a check with two operands holds; without a fitting operator there is none. -/
def two? (a : Bytes) (operator : String) (b : Bytes) : Option Bool :=
  match operator, comparison? operator with
  | "=", _ => some (a == b)
  | "!=", _ => some (a != b)
  | _, some compare =>
    some (((wholeNumber? a).bind fun m => (wholeNumber? b).map (compare m)).getD false)
  | _, none => none

/-- Whether a check without connectives holds. -/
def simple (s : State) : List Bytes → Bool
  | [a] => !a.isEmpty
  | [operator, a] => one s operator.lossy a
  | [a, operator, b] =>
    match two? a operator.lossy b with
    | some holds => holds
    | none => a.lossy == "!" && !one s operator.lossy b
  | [_, a, operator, b] => !(two? a operator.lossy b).getD false
  | _ => false

/-- The operands before and after the first occurrence of a connective. -/
def parted? (connective : String) (args : List Bytes) : Option (List Bytes × List Bytes) :=
  let before := args.takeWhile (·.lossy != connective)
  if before.isEmpty || args.length ≤ before.length + 1 then none
  else some (before, args.drop (before.length + 1))

/-- Whether checks joined by connectives hold; `-a` binds more tightly than `-o`. -/
def joined (s : State) : Nat → List Bytes → Bool
  | 0, args => simple s args
  | fuel + 1, args =>
    if args.length ≤ 4 then simple s args
    else
      match parted? "-o" args, parted? "-a" args with
      | some (a, b), _ => joined s fuel a || joined s fuel b
      | none, some (a, b) => joined s fuel a && joined s fuel b
      | none, none => simple s args

/-- Whether a check holds. -/
def holds (s : State) (args : List Bytes) : Bool :=
  joined s args.length args

end Check

end DebRelease.Shell
