import DebRelease.Shell.Word

namespace DebRelease.Shell

/-- Where a redirection leads. -/
inductive Channel where
  | replace
  | append
  | input
  | duplicate
  deriving DecidableEq, Repr

/-- A change of where a descriptor leads. -/
structure Redirection where
  descriptor : Nat
  channel : Channel
  target : Word
  deriving DecidableEq, Repr

/-- What a token is. -/
inductive Lexeme where
  | word (w : Word)
  | separator
  /-- The end of a command that is not waited for: `&`. -/
  | background
  /-- The end of a branch of a choice: `;;`. -/
  | branchEnd
  | both
  | either
  | pipe
  | opening
  | closing
  | redirect (r : Redirection)
  deriving DecidableEq, Repr

/-- A token and its line. -/
structure Token where
  /-- The line, from one. -/
  line : Nat
  lexeme : Lexeme
  deriving DecidableEq, Repr

namespace Token

/-- A character as a byte. -/
abbrev ch (c : Char) : UInt8 := Bytes.ascii c

/-- Whether a byte is a space or a tab. -/
def isBlank (b : UInt8) : Bool :=
  b == ch ' ' || b == ch '\t'

/-- Whether a byte ends a word that is not quoted. -/
def endsWord (b : UInt8) : Bool :=
  isBlank b || "\n;&|<>()".toList.any (ch · == b)

/-- Whether a backslash keeps its meaning before a byte between double quotes. -/
def isEscapedInQuotes (b : UInt8) : Bool :=
  "$`\"\\".toList.any (ch · == b)

/-- Whether a byte names a special parameter. -/
def isSpecial (b : UInt8) : Bool :=
  isDigit b || "*@#?$".toList.any (ch · == b)

/-- Where the reading of an enclosure is. -/
structure Enclosure where
  /-- How many enclosures are open inside it. -/
  depth : Nat
  /-- The quotation mark that is open. -/
  mark? : Option UInt8
  isEscaped : Bool

/-- The reading after a further byte, unless the byte closes the enclosure. -/
def Enclosure.after? (opening closing : UInt8) (e : Enclosure) (b : UInt8) : Option Enclosure :=
  if e.isEscaped then some { e with isEscaped := false }
  else if b == ch '\\' && e.mark? != some (ch '\'') then some { e with isEscaped := true }
  else
    match e.mark? with
    | some mark => some (if b == mark then { e with mark? := none } else e)
    | none =>
      if b == ch '\'' || b == ch '"' then some { e with mark? := some b }
      else if b == closing then
        if e.depth = 0 then none else some { e with depth := e.depth - 1 }
      else if b == opening then some { e with depth := e.depth + 1 }
      else some e

/-- The bytes up to the sign that closes an enclosure, and those after it. -/
def enclosedFrom (opening closing : UInt8) : Enclosure → Bytes → Option (Bytes × Bytes)
  | _, [] => none
  | e, b :: rest =>
    match e.after? opening closing b with
    | none => some ([], rest)
    | some e => (enclosedFrom opening closing e rest).map fun (taken, left) => (b :: taken, left)

/-- The bytes of an enclosure that has just been opened, and those after its end. -/
def enclosed (opening closing : UInt8) (input : Bytes) : Option (Bytes × Bytes) :=
  enclosedFrom opening closing ⟨0, none, false⟩ input

/-- What the signs after the name of a parameter mean, and the operand after them. -/
def change? (input : Bytes) : Option (Change × Bytes) :=
  match input with
  | [] => some (.none, [])
  | b :: rest =>
    let doubled := rest.head? == some b
    let operand := if doubled then rest.tail else rest
    if b == ch '#' then some (.cutBeginning doubled, operand)
    else if b == ch '%' then some (.cutEnd doubled, operand)
    else
      let emptyToo := b == ch ':'
      let (sign, operand) := if emptyToo then (rest.headD b, rest.tail) else (b, rest)
      if sign == ch '-' then some (.otherwise emptyToo, operand)
      else if sign == ch '=' then some (.assigned emptyToo, operand)
      else if sign == ch '+' then some (.instead emptyToo, operand)
      else none

/-- What braces after a dollar sign mean. -/
def braced? (inside : Bytes) : Option Meaning :=
  let length := (inside.takeWhile inName).length
  let name := inside.take (if length = 0 then 1 else length)
  let operators := inside.drop name.length
  if name == [ch '#'] && operators.head?.any inName then
    some (.parameter operators .length [])
  else (change? operators).map fun (change, operand) => .parameter name change operand

/-- What parentheses after a dollar sign mean: an expression if they are doubled, else a script. -/
def parenthesised (inside : Bytes) : Meaning :=
  match inside, inside.getLast? with
  | b :: rest, some last =>
    if b == ch '(' && last == ch ')' then .arithmetic rest.dropLast else .output inside
  | _, _ => .output inside

/-- What follows a dollar sign, and the bytes after it. A dollar sign before anything else stands
    for itself. -/
def expansion? (input : Bytes) : Option (Meaning × Bytes) :=
  match input with
  | [] => some (.text [ch '$'], [])
  | b :: rest =>
    if b == ch '{' then do
      let (inside, after) ← enclosed b (ch '}') rest
      pure (← braced? inside, after)
    else if b == ch '(' then
      (enclosed b (ch ')') rest).map fun (inside, after) => (parenthesised inside, after)
    else if isSpecial b then some (.parameter [b] .none [], rest)
    else if beginsName b then
      let name := input.takeWhile inName
      some (.parameter name .none [], input.drop name.length)
    else some (.text [ch '$'], input)

/-- Reads a word, or the rest of one between double quotes, and returns the bytes after it. -/
def word? : Nat → Bool → Bytes → Option (Word × Bytes)
  | 0, _, _ => none
  | _ + 1, true, [] => none
  | _ + 1, false, [] => some ([], [])
  | fuel + 1, inQuotes, b :: rest =>
    let more (isQuoted : Bool) (m : Meaning) (inQuotes : Bool) (after : Bytes) :=
      (word? fuel inQuotes after).map fun (w, left) => (⟨isQuoted, m⟩ :: w, left)
    if b == ch '"' then more true (.text []) (!inQuotes) rest
    else if b == ch '$' then
      match expansion? rest with
      | none => none
      | some (m, after) => more inQuotes m inQuotes after
    else if b == ch '`' then
      let script := rest.takeWhile (· != b)
      if script.length < rest.length then
        more inQuotes (.output script) inQuotes (rest.drop (script.length + 1))
      else none
    else if b == ch '\\' then
      match rest with
      | [] => none
      | c :: after =>
        if c == Bytes.lineFeed then more false (.text []) inQuotes after
        else if inQuotes && !isEscapedInQuotes c then more true (.text [b]) inQuotes rest
        else more true (.text [c]) inQuotes after
    else if inQuotes then more true (.text [b]) true rest
    else if b == ch '\'' then
      let quoted := rest.takeWhile (· != ch '\'')
      if quoted.length < rest.length then
        more true (.text quoted) false (rest.drop (quoted.length + 1))
      else none
    else if endsWord b then some ([], b :: rest)
    else more false (.text [b]) false rest

/-- The bytes of an expansion as one word, which signs between words do not end. -/
def wholeFrom (isQuoted : Bool) : Nat → Bytes → Option Word
  | 0, _ => none
  | fuel + 1, bytes =>
    let input := if isQuoted then bytes ++ [ch '"'] else bytes
    match word? (input.length + 1) isQuoted input with
    | none => none
    | some (w, []) => some w
    | some (w, b :: rest) => (wholeFrom isQuoted fuel rest).map (w ++ ⟨isQuoted, .text [b]⟩ :: ·)

/-- The bytes of an expansion as one word, quoted or not. -/
def whole? (isQuoted : Bool) (bytes : Bytes) : Option Word :=
  wholeFrom isQuoted (bytes.length + 1) bytes

/-- Reads a redirection of a descriptor from its sign on. -/
def redirection? (fuel descriptor : Nat) (sign : UInt8) (input : Bytes) :
    Option (Redirection × Bytes) :=
  let (channel, after) :=
    match sign == ch '>', input with
    | true, b :: rest =>
      if b == ch '>' then (Channel.append, rest)
      else if b == ch '&' then (.duplicate, rest)
      else (.replace, input)
    | true, [] => (.replace, [])
    | false, _ => (.input, input)
  match word? fuel false (after.dropWhile isBlank) with
  | none | some ([], _) => none
  | some (target, left) => some (⟨descriptor, channel, target⟩, left)

/-- Reads one token, unless a blank or a comment comes first, and returns the bytes after it. -/
def next? (fuel : Nat) (b : UInt8) (rest : Bytes) : Option (Option Lexeme × Bytes) :=
  let doubled := rest.head? == some b
  if isBlank b then some (none, rest)
  else if b == ch '#' then some (none, rest.dropWhile (· != Bytes.lineFeed))
  else if b == ch ';' && doubled then some (some .branchEnd, rest.tail)
  else if b == ch ';' || b == Bytes.lineFeed then some (some .separator, rest)
  else if b == ch '&' && doubled then some (some .both, rest.tail)
  else if b == ch '&' then some (some .background, rest)
  else if b == ch '|' && doubled then some (some .either, rest.tail)
  else if b == ch '|' then some (some .pipe, rest)
  else if b == ch '(' then some (some .opening, rest)
  else if b == ch ')' then some (some .closing, rest)
  else if b == ch '>' || b == ch '<' then
    let descriptor := if b == ch '>' then 1 else 0
    (redirection? fuel descriptor b rest).map fun (r, left) => (some (.redirect r), left)
  else
    match isDigit b, rest with
    | true, c :: after =>
      if c == ch '>' || c == ch '<' then
        (redirection? fuel (numberOf [b]) c after).map fun (r, left) =>
          (some (.redirect r), left)
      else (word? fuel false (b :: rest)).map fun (w, left) => (some (.word w), left)
    | _, _ =>
      if endsWord b then none
      else (word? fuel false (b :: rest)).map fun (w, left) => (some (.word w), left)

/-- Reads the tokens of bytes that begin in the given line. -/
def scanFrom : Nat → Nat → Bytes → Option (List Token)
  | 0, _, _ => none
  | _ + 1, _, [] => some []
  | fuel + 1, line, b :: rest =>
    match next? fuel b rest with
    | none => none
    | some (lexeme?, left) =>
      let passed := (b :: rest).take (rest.length + 1 - left.length)
      let tokens := lexeme?.toList.map fun lexeme => ⟨line, lexeme⟩
      (scanFrom fuel (line + passed.count Bytes.lineFeed) left).map (tokens ++ ·)

/-- The tokens of a script. -/
def scan? (script : Bytes) : Option (List Token) :=
  scanFrom (script.length + 2) 1 script

end Token

end DebRelease.Shell
