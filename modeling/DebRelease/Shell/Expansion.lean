import DebRelease.Shell.State

namespace DebRelease.Shell

namespace Arithmetic

/-- A sign of an arithmetic expression. -/
inductive Term where
  | number (n : Int)
  | sign (b : UInt8)
  deriving DecidableEq, Repr

/-- The number that the value of a variable writes; an empty one is zero. -/
def value (bytes : Bytes) : Int :=
  match bytes with
  | [] => 0
  | b :: digits =>
    if b == Bytes.ascii '-' then -(numberOf digits) else numberOf bytes

/-- The terms of an expression, variables replaced by their values. -/
def terms (s : State) : Nat → Bytes → List Term
  | 0, _ => []
  | _ + 1, [] => []
  | fuel + 1, b :: rest =>
    if isDigit b then
      let digits := (b :: rest).takeWhile isDigit
      .number (numberOf digits) :: terms s fuel ((b :: rest).drop digits.length)
    else if beginsName b then
      let name := (b :: rest).takeWhile inName
      .number (value (s.parameter name)) :: terms s fuel ((b :: rest).drop name.length)
    else if b == space then terms s fuel rest
    else .sign b :: terms s fuel rest

/-- The result of an operator. -/
def apply (operator : UInt8) (a b : Int) : Int :=
  if operator == Bytes.ascii '+' then a + b
  else if operator == Bytes.ascii '-' then a - b
  else if operator == Bytes.ascii '*' then a * b
  else if operator == Bytes.ascii '/' then a.tdiv b
  else a.tmod b

/-- How tightly an operator binds; what is none does not bind. -/
def rank (operator : UInt8) : Nat :=
  if "+-".toList.any (Bytes.ascii · == operator) then 1
  else if "*/%".toList.any (Bytes.ascii · == operator) then 2
  else 0

mutual

/-- The value of an operand and the terms after it. -/
def operand : Nat → List Term → Int × List Term
  | fuel + 1, .sign b :: rest =>
    if b == Bytes.ascii '(' then
      let (n, left) := sum fuel rest
      (n, left.tail)
    else if b == Bytes.ascii '-' then
      let (n, left) := operand fuel rest
      (-n, left)
    else operand fuel rest
  | _, .number n :: rest => (n, rest)
  | _, ts => (0, ts.tail)

/-- The value of operands joined by operators of at least the given rank to one before them. -/
def joined : Nat → Nat → Int → List Term → Int × List Term
  | fuel + 1, least, a, .sign operator :: rest =>
    if least ≤ rank operator && rank operator != 0 then
      let (b, left) := operand fuel rest
      let (b, left) := joined fuel (rank operator + 1) b left
      joined fuel least (apply operator a b) left
    else (a, .sign operator :: rest)
  | _, _, a, ts => (a, ts)

/-- The value of an expression and the terms after it. -/
def sum : Nat → List Term → Int × List Term
  | fuel + 1, ts =>
    let (a, left) := operand fuel ts
    joined fuel 1 a left
  | _, ts => (0, ts)

end

/-- The value of an expression. -/
def evaluate (s : State) (expression : Bytes) : Int :=
  let ts := terms s (expression.length + 1) expression
  (sum (3 * ts.length + 3) ts).1

end Arithmetic

/-- A part of an expanded word. -/
structure Part where
  isQuoted : Bool
  bytes : Bytes

/-- The value of parts as one byte string. -/
def valueOf (parts : List Part) : Bytes :=
  parts.flatMap (·.bytes)

/-- The pattern that parts are. -/
def patternOf (parts : List Part) : List Sign :=
  parts.flatMap fun p => p.bytes.map (Sign.ofByte p.isQuoted)

/-- How the inside of an expansion is expanded. -/
structure Expander where
  /-- Expands bytes that are read as a word, quoted or not. -/
  parts : Bool → Bytes → ShellM (List Part)
  printed : Bytes → ShellM Bytes

namespace Expander

/-- The value of a parameter after a change. -/
def parameter (x : Expander) (isQuoted : Bool) (name : Bytes) (change : Change)
    (operand : Bytes) : ShellM Bytes := do
  let value? := (← get).parameter? name
  let value := value?.getD []
  let isMissing (emptyToo : Bool) := value?.isNone || (emptyToo && value.isEmpty)
  match change with
  | .none => pure value
  | .length => pure (Bytes.ofText (toString value.length))
  | .cutBeginning longest =>
    pure (cutBeginning longest (patternOf (← x.parts false operand)) value)
  | .cutEnd longest => pure (cutEnd longest (patternOf (← x.parts false operand)) value)
  | .otherwise emptyToo =>
    if isMissing emptyToo then pure (valueOf (← x.parts isQuoted operand)) else pure value
  | .assigned emptyToo =>
    if isMissing emptyToo then
      let value := valueOf (← x.parts isQuoted operand)
      modify fun s => s.assign name value
      pure value
    else pure value
  | .instead emptyToo =>
    if isMissing emptyToo then pure [] else pure (valueOf (← x.parts isQuoted operand))

/-- The value of a fragment. -/
def value (x : Expander) (f : Fragment) : ShellM Bytes := do
  match f.meaning with
  | .text bytes => pure bytes
  | .parameter name change operand => x.parameter f.isQuoted name change operand
  | .arithmetic expression =>
    let expression := valueOf (← x.parts true expression)
    pure (Bytes.ofText (toString (Arithmetic.evaluate (← get) expression)))
  | .output script => x.printed script

/-- The parts of a word. -/
def expand (x : Expander) (w : Word) : ShellM (List Part) :=
  w.mapM fun f => do pure ⟨f.isQuoted, ← x.value f⟩

/-- The expander that can expand expansions inside one another to the given depth. -/
def ofDepth (printed : Bytes → ShellM Bytes) : Nat → Expander
  | 0 => ⟨fun isQuoted bytes => pure [⟨isQuoted, bytes⟩], printed⟩
  | depth + 1 =>
    { parts := fun isQuoted bytes =>
        match Token.whole? isQuoted bytes with
        | some w => (ofDepth printed depth).expand w
        | none => pure [⟨isQuoted, bytes⟩]
      printed }

/-- The number of bytes inside the expansions of a word, which bounds how deep they nest. -/
def depth (w : Word) : Nat :=
  w.foldl (fun depth f => depth + match f.meaning with
    | .parameter _ _ operand => operand.length
    | .arithmetic expression => expression.length
    | _ => 0) 0

end Expander

/-- A byte of a field, quoted or not. -/
abbrev Letter := Bool × UInt8

/-- What a fragment gives to the fields of a word. -/
inductive Piece where
  | whole (isQuoted : Bool) (bytes : Bytes)
  | parted (bytes : Bytes)
  | boundary
  deriving DecidableEq, Repr

/-- Whether a fragment stands for all arguments, each of them a field. -/
def Fragment.isAllArguments (f : Fragment) : Bool :=
  f.isQuoted && f.meaning == .parameter (Bytes.ofText "@") .none []

/-- What a fragment gives to the fields of its word. -/
def Expander.pieces (x : Expander) (f : Fragment) : ShellM (List Piece) := do
  if f.isAllArguments then pure (((← get).args.map (Piece.whole true)).intersperse .boundary)
  else
    let value ← x.value f
    match f.isQuoted, f.meaning with
    | true, _ => pure [.whole true value]
    | false, .text _ => pure (if value.isEmpty then [] else [.whole false value])
    | false, _ => pure [.parted value]

/-- Whether a byte parts fields. -/
def partsFields (b : UInt8) : Bool :=
  b == space || b == Bytes.ascii '\t' || b == Bytes.lineFeed

/-- A field that may have been begun, with bytes after it. -/
def continued (field : Option (List Letter)) (isQuoted : Bool) (bytes : Bytes) :
    List Letter :=
  field.getD [] ++ bytes.map ((isQuoted, ·))

/-- Adds bytes that white space parts to a field that may have been begun; returns the fields that
    are finished and the one that is begun. -/
def part (field : Option (List Letter)) (bytes : Bytes) :
    List (List Letter) × Option (List Letter) :=
  let joined (field : Option (List Letter)) (segment : Bytes) :=
    if segment.isEmpty then field else some (continued field false segment)
  let segments := Bytes.splitOn space (bytes.map fun b => if partsFields b then space else b)
  match segments, segments.getLast? with
  | first :: _ :: _, some last =>
    let inner := segments.tail.dropLast.filterMap (joined none)
    ((joined field first).toList ++ inner, joined none last)
  | _, _ => ([], joined field bytes)

/-- The fields that pieces make after a field that may have been begun. -/
def fieldsFrom : Option (List Letter) → List Piece → List (List Letter)
  | field, [] => field.toList
  | field, .whole isQuoted bytes :: rest =>
    fieldsFrom (some (continued field isQuoted bytes)) rest
  | field, .boundary :: rest => field.toList ++ fieldsFrom none rest
  | field, .parted bytes :: rest =>
    let (fields, last) := part field bytes
    fields ++ fieldsFrom last rest

/-- The names in a directory that a pattern matches, in their order. A name that begins with a dot
    is matched only by a pattern that does. -/
def namesFitting (s : State) (dir : Bytes) (signs : List Sign) : List Bytes :=
  let path : Path := if dir.isEmpty then "." else ⟨dir⟩
  let dot := Bytes.ascii '.'
  let isFitting (name : Bytes) :=
    fits signs name && (name.head? != some dot || signs.head? == some (.exactly dot))
  match s.tree.list (some s.cwd) path with
  | .ok names => (names.filter isFitting).mergeSort Bytes.le
  | .error _ => []

/-- The paths that go on from others by a component that may be a pattern. -/
def pathsFrom (s : State) (dirs : List Bytes) (component : List Letter) : List Bytes :=
  let signs := component.map fun (isQuoted, b) => Sign.ofByte isQuoted b
  if signs.contains .any || signs.contains .many then
    dirs.flatMap fun dir => (namesFitting s dir signs).map (dir ++ ·)
  else dirs.map (· ++ component.map (·.2))

/-- The components of a field that is a path. -/
def componentsOf : List Letter → List (List Letter)
  | [] => [[]]
  | (isQuoted, b) :: rest =>
    let components := componentsOf rest
    if b == Path.slash then [] :: components
    else ((isQuoted, b) :: components.headD []) :: components.tail

/-- The paths that a field matches as a pattern. -/
def pathsFitting (s : State) (field : List Letter) : List Bytes :=
  let step (dirs : List Bytes) (component : List Letter) :=
    pathsFrom s (dirs.map (· ++ [Path.slash])) component
  let isThere (p : Bytes) := (s.tree.lstat (some s.cwd) ⟨p⟩).toOption.isSome
  match componentsOf field with
  | first :: rest => (rest.foldl step (pathsFrom s [[]] first)).filter isThere
  | [] => []

/-- The byte strings that a field stands for: the paths that it matches if it is a pattern and
    matches any, else itself. -/
def resolved (s : State) (field : List Letter) : List Bytes :=
  let isPattern := field.any fun (isQuoted, b) => Sign.ofByte isQuoted b != .exactly b
  let paths := if isPattern then pathsFitting s field else []
  if paths.isEmpty then [field.map (·.2)] else paths

/-- The fields of a word. -/
def Word.fields (printed : Bytes → ShellM Bytes) (w : Word) : ShellM (List Bytes) := do
  let x := Expander.ofDepth printed (Expander.depth w + 1)
  let pieces ← w.mapM x.pieces
  let s ← get
  let fields := (fieldsFrom none pieces.flatten).flatMap (resolved s)
  if w.any (·.isAllArguments) && s.args.isEmpty then pure (fields.filter (! ·.isEmpty))
  else pure fields

/-- The parts of a word that is one field. -/
def Word.parts (printed : Bytes → ShellM Bytes) (w : Word) : ShellM (List Part) :=
  (Expander.ofDepth printed (Expander.depth w + 1)).expand w

/-- The value of a word that is one field. -/
def Word.value (printed : Bytes → ShellM Bytes) (w : Word) : ShellM Bytes := do
  pure (valueOf (← w.parts printed))

end DebRelease.Shell
