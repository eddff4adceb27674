import DebRelease.Toml.Cursor

namespace DebRelease.Toml

open Reader

/-- Whether a byte is a space or a tab. -/
def isBlank (b : UInt8) : Bool :=
  b == 0x20 || b == 0x09

/-- Whether a byte is a control character that may not be written as itself. -/
def isControl (b : UInt8) : Bool :=
  (b < 0x20 && b != 0x09) || b == 0x7F

/-- Spaces and tabs. -/
def blanks : Reader Unit :=
  discard (takeWhile isBlank)

/-- The end of a line, if it comes next. -/
def newline? : Reader Bool := do
  if ← accept "\n" then pure true else accept "\r\n"

/-- A comment, if one comes next; it ends before the end of the line. -/
def comment? : Reader Bool := do
  if ← accept "#" then
    discard (takeWhile (! isControl ·))
    pure true
  else
    pure false

/-- Blanks, comments and line ends. Each round passes a line end, so the number of bytes bounds the
    number of rounds. -/
def gapRounds : Nat → Reader Unit
  | 0 => pure ()
  | fuel + 1 => do
    blanks
    discard comment?
    if ← newline? then gapRounds fuel

/-- Blanks, comments and line ends. -/
def gap : Reader Unit := do
  gapRounds ((← rest).length + 1)

/-- Blanks and line ends. -/
def foldRounds : Nat → Reader Unit
  | 0 => pure ()
  | fuel + 1 => do
    blanks
    if ← newline? then foldRounds fuel

/-- What must follow a statement: the end of its line or of the document. -/
def lineEnd : Reader Unit := do
  blanks
  discard comment?
  if !(← newline?) && !(← rest).isEmpty then failure

/-- The value of a hexadecimal digit. -/
def hexValue? (b : UInt8) : Option Nat :=
  if 0x30 ≤ b && b ≤ 0x39 then some (b.toNat - 0x30)
  else if 0x61 ≤ b && b ≤ 0x66 then some (b.toNat - 0x61 + 10)
  else if 0x41 ≤ b && b ≤ 0x46 then some (b.toNat - 0x41 + 10)
  else none

/-- The character that hexadecimal digits number. -/
def hexCharacter (digits : Nat) : Reader Bytes := do
  let taken := (← rest).take digits
  if taken.length < digits then failure
  skip digits
  let code ← taken.foldlM (fun code b => do
    match hexValue? b with
    | some d => pure (code * 16 + d)
    | none => failure) 0
  if 0x10FFFF < code ∨ (0xD800 ≤ code ∧ code ≤ 0xDFFF) then failure
  pure (Bytes.ofText (String.singleton (Char.ofNat code)))

/-- What an escape stands for; the backslash has been read. -/
def escape : Reader Bytes := do
  match Char.ofNat (← next).toNat with
  | 'b' => pure [0x08]
  | 't' => pure [0x09]
  | 'n' => pure [0x0A]
  | 'f' => pure [0x0C]
  | 'r' => pure [0x0D]
  | 'e' => pure [0x1B]
  | '"' => pure [0x22]
  | '\\' => pure [0x5C]
  | 'x' => hexCharacter 2
  | 'u' => hexCharacter 4
  | 'U' => hexCharacter 8
  | _ => failure

/-- The rest of a string between double quotes. -/
def basicRounds : Nat → Reader Bytes
  | 0 => failure
  | fuel + 1 => do
    let run ← takeWhile fun b => !isControl b && b != 0x22 && b != 0x5C
    let b ← next
    if b == 0x22 then pure run
    else if b == 0x5C then
      let escaped ← escape
      return run ++ escaped ++ (← basicRounds fuel)
    else failure

/-- The rest of a string between single quotes. -/
def literal : Reader Bytes := do
  let run ← takeWhile fun b => !isControl b && b != 0x27
  expect "'"
  pure run

/-- A line end inside a string of several lines. -/
def keptNewline : Reader Bytes := do
  if ← accept "\n" then pure [0x0A]
  else
    expect "\r\n"
    pure [0x0D, 0x0A]

/-- The quotes of a string of several lines that may be its end: three or more end it, and up to two
    more belong to the string. -/
def quoteRun (quote : UInt8) : Reader (Bytes × Bool) := do
  let run ← takeWhile (· == quote)
  if run.length < 3 then pure (run, false)
  else if run.length ≤ 5 then pure (run.drop 3, true)
  else failure

/-- The rest of a string of several lines; `escapes` tells whether a backslash means anything. -/
def longRounds (quote : UInt8) (escapes : Bool) : Nat → Reader Bytes
  | 0 => failure
  | fuel + 1 => do
    let run ← takeWhile fun b => !isControl b && b != quote && !(escapes && b == 0x5C)
    match ← peek? with
    | none => failure
    | some b =>
      if b == quote then
        let (quotes, ended) ← quoteRun quote
        if ended then pure (run ++ quotes)
        else return run ++ quotes ++ (← longRounds quote escapes fuel)
      else if b == 0x5C then
        skip 1
        let ahead := (← rest).dropWhile isBlank
        if ahead.head? = some 0x0A || (Bytes.ofText "\r\n").isPrefixOf ahead then
          foldRounds ((← rest).length + 1)
          return run ++ (← longRounds quote escapes fuel)
        else
          let escaped ← escape
          return run ++ escaped ++ (← longRounds quote escapes fuel)
      else
        let ended ← keptNewline
        return run ++ ended ++ (← longRounds quote escapes fuel)

/-- A string of several lines; a line end right after the opening quotes does not count. -/
def long (quote : UInt8) (escapes : Bool) : Reader Bytes := do
  discard newline?
  longRounds quote escapes ((← rest).length + 1)

/-- Bytes as text. -/
def asText (bytes : Bytes) : Reader String :=
  match bytes.text? with
  | some s => pure s
  | none => failure

/-- A string on one line. -/
def shortString : Reader String := do
  if ← accept "\"" then asText (← basicRounds ((← rest).length + 1))
  else
    expect "'"
    asText (← literal)

/-- A string. -/
def string : Reader String := do
  if ← accept "\"\"\"" then asText (← long 0x22 true)
  else if ← accept "'''" then asText (← long 0x27 false)
  else shortString

/-- Whether a byte may stand in a key without quotes. -/
def isBare (b : UInt8) : Bool :=
  (0x30 ≤ b && b ≤ 0x39) || (0x41 ≤ b && b ≤ 0x5A) || (0x61 ≤ b && b ≤ 0x7A) || b == 0x2D ||
    b == 0x5F

/-- A key. -/
def simpleKey : Reader Key := do
  let name : Reader String := do
    match ← peek? with
    | some 0x22 | some 0x27 => shortString
    | _ =>
      let bare ← takeWhile isBare
      if bare.isEmpty then failure
      asText bare
  let (name, span) ← spanned name
  pure ⟨name, span⟩

/-- The keys after a dot. -/
def moreKeys : Nat → Reader (List Key)
  | 0 => pure []
  | fuel + 1 => do
    blanks
    if ← accept "." then
      blanks
      let key ← simpleKey
      return key :: (← moreKeys fuel)
    else
      pure []

/-- Keys with dots between them; blanks after the last are passed. -/
def dottedKey : Reader (List Key) := do
  let key ← simpleKey
  return key :: (← moreKeys ((← rest).length + 1))

end DebRelease.Toml
