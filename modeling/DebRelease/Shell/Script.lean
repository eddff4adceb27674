import DebRelease.Shell.Token

namespace DebRelease.Shell

/-- A command of a script. -/
inductive Command where
  | call (line : Nat) (assignments : List (Bytes × Word)) (words : List Word)
      (redirections : List Redirection)
  /-- A loop that goes on while its condition succeeds, or until it does. -/
  | loop (isUntil : Bool) (condition body : List Command)
  /-- A loop over the fields of words, or over the arguments. -/
  | each (name : Bytes) (words : Option (List Word)) (body : List Command)
  /-- A condition with what follows from its success and from its failure. -/
  | condition (condition yes no : List Command)
  /-- The first branch one of whose patterns matches a word. -/
  | choice (subject : Word) (branches : List (List Word × List Command))
  /-- Two commands, the second only if the first succeeds. -/
  | both (first second : Command)
  /-- Two commands, the second only if the first fails. -/
  | either (first second : Command)
  /-- A command that succeeds if the given one fails. -/
  | negation (command : Command)
  /-- Two commands, the second of which reads what the first writes. -/
  | pipeline (first second : Command)
  /-- A list of commands with redirections of its own; what happens in one that is apart changes
      nothing but files. -/
  | group (isApart : Bool) (body : List Command) (redirections : List Redirection)
  | later (command : Command)
  /-- Gives a command a name by which it can be called. -/
  | define (name : Bytes) (body : Command)
  deriving Repr

/-- A script. -/
abbrev Script := List Command

namespace Script

/-- A word of the language itself. -/
def keyword? (t : Token) : Option Bytes :=
  match t.lexeme with
  | .word w => w.plain?
  | _ => none

/-- Whether a token is a word of the language. -/
def isKeyword (text : String) (t : Token) : Bool :=
  keyword? t == some (Bytes.ofText text)

/-- The words at which a list of commands ends. -/
def endWords : List String :=
  ["do", "done", "then", "elif", "else", "fi", "esac", "\x7d"]

/-- Whether a list of commands ends at a token. -/
def endsList (t : Token) : Bool :=
  t.lexeme == .branchEnd || t.lexeme == .closing || endWords.any fun word => isKeyword word t

/-- The name and the value of a word that is an assignment. -/
def assignment? (w : Word) : Option (Bytes × Word) :=
  go [] w
where
  go : Bytes → Word → Option (Bytes × Word)
    | name, ⟨false, .text [b]⟩ :: rest =>
      if b == Bytes.ascii '=' then
        if name.head?.all beginsName && !name.isEmpty then some (name, rest) else none
      else if inName b then go (name ++ [b]) rest
      else none
    | _, _ => none

/-- Reads a call and returns the tokens after it. -/
def call (line : Nat) : List (Bytes × Word) → List Word → List Redirection → List Token →
    Command × List Token
  | assignments, words, redirections, token :: rest =>
    match token.lexeme with
    | .word w =>
      match words, assignment? w with
      | [], some a => call line (assignments ++ [a]) [] redirections rest
      | words, _ => call line assignments (words ++ [w]) redirections rest
    | .redirect r => call line assignments words (redirections ++ [r]) rest
    | _ => (.call line assignments words redirections, token :: rest)
  | assignments, words, redirections, [] =>
    (.call line assignments words redirections, [])

/-- The tokens after the given word of the language. -/
def expect (text : String) : List Token → Option (List Token)
  | t :: rest => if isKeyword text t then some rest else none
  | [] => none

/-- The tokens after separators. -/
def skipSeparators (ts : List Token) : List Token :=
  ts.dropWhile (·.lexeme == .separator)

/-- The patterns of a branch, up to its closing parenthesis, and the tokens after it. -/
def patterns : List Token → Option (List Word × List Token)
  | [] => none
  | t :: rest =>
    match t.lexeme with
    | .word w => (patterns rest).map fun (ws, left) => (w :: ws, left)
    | .pipe | .opening => patterns rest
    | .closing => some ([], rest)
    | _ => none

/-- The words before the next token that is none, and the tokens from there on. -/
def wordsBefore : List Token → List Word × List Token
  | ⟨_, .word w⟩ :: rest =>
    let (ws, left) := wordsBefore rest
    (w :: ws, left)
  | ts => ([], ts)

/-- The redirections before the next token that is none, and the tokens from there on. -/
def redirectionsBefore : List Token → List Redirection × List Token
  | ⟨_, .redirect r⟩ :: rest =>
    let (rs, left) := redirectionsBefore rest
    (r :: rs, left)
  | ts => ([], ts)

/-- A command with the redirections after it. -/
def withRedirections (command : Command) (ts : List Token) : Command × List Token :=
  match redirectionsBefore ts with
  | ([], left) => (command, left)
  | (rs, left) => (.group false [command] rs, left)

mutual

/-- Reads a list of commands up to its end. -/
def list : Nat → List Token → Option (Script × List Token)
  | 0, _ => none
  | fuel + 1, ts =>
    match skipSeparators ts with
    | [] => some ([], [])
    | t :: rest =>
      if endsList t then some ([], t :: rest)
      else do
        let (first, ts) ← pipeline fuel (t :: rest)
        let (first, ts) ← chain fuel first ts
        match ts with
        | ⟨_, .background⟩ :: left =>
          let (others, ts) ← list fuel left
          pure (.later first :: others, ts)
        | t :: left =>
          if t.lexeme == .separator || endsList t then
            let (others, ts) ← list fuel (t :: left)
            pure (first :: others, ts)
          else none
        | [] => pure ([first], [])

/-- Reads what is joined to a command by `&&` and `||`. -/
def chain : Nat → Command → List Token → Option (Command × List Token)
  | fuel + 1, first, t :: rest =>
    if t.lexeme == .both || t.lexeme == .either then do
      let (second, ts) ← pipeline fuel (skipSeparators rest)
      chain fuel (if t.lexeme == .both then .both first second else .either first second) ts
    else some (first, t :: rest)
  | _, first, ts => some (first, ts)

/-- Reads commands joined by `|`. -/
def pipeline : Nat → List Token → Option (Command × List Token)
  | fuel + 1, t :: rest =>
    if isKeyword "!" t then do
      let (negated, ts) ← pipeline fuel rest
      pure (.negation negated, ts)
    else do
      let (first, ts) ← command fuel (t :: rest)
      match ts with
      | ⟨_, .pipe⟩ :: ts =>
        let (second, ts) ← pipeline fuel (skipSeparators ts)
        pure (.pipeline first second, ts)
      | ts => pure (first, ts)
  | _, _ => none

/-- Reads a command. -/
def command : Nat → List Token → Option (Command × List Token)
  | fuel + 1, t :: rest =>
    if isKeyword "while" t || isKeyword "until" t then do
      let (condition, ts) ← list fuel rest
      let (body, ts) ← list fuel (← expect "do" ts)
      pure (withRedirections (.loop (isKeyword "until" t) condition body) (← expect "done" ts))
    else if isKeyword "if" t then do
      let (command, ts) ← conditional fuel rest
      pure (withRedirections command ts)
    else if isKeyword "for" t then
      match rest with
      | ⟨_, .word name⟩ :: ts => do
        let (words, ts) :=
          match expect "in" (skipSeparators ts) with
          | some ts =>
            let (words, ts) := wordsBefore ts
            (some words, ts)
          | none => (none, ts)
        let (body, ts) ← list fuel (← expect "do" (skipSeparators ts))
        pure (withRedirections (.each (← name.plain?) words body) (← expect "done" ts))
      | _ => none
    else if isKeyword "case" t then
      match rest with
      | ⟨_, .word subject⟩ :: ts => do
        let (branches, ts) ← branches fuel (← expect "in" (skipSeparators ts))
        pure (withRedirections (.choice subject branches) ts)
      | _ => none
    else if isKeyword "\x7b" t then do
      let (body, ts) ← list fuel rest
      let (rs, ts) := redirectionsBefore (← expect "\x7d" ts)
      pure (.group false body rs, ts)
    else if t.lexeme == .opening then do
      let (body, ts) ← list fuel rest
      match ts with
      | ⟨_, .closing⟩ :: ts =>
        let (rs, ts) := redirectionsBefore ts
        pure (.group true body rs, ts)
      | _ => none
    else if endsList t then none
    else
      match t.lexeme, rest with
      | .word name, ⟨_, .opening⟩ :: ⟨_, .closing⟩ :: ts => do
        let (body, ts) ← command fuel (skipSeparators ts)
        pure (.define (← name.plain?) body, ts)
      | .word _, _ | .redirect _, _ => some (call t.line [] [] [] (t :: rest))
      | _, _ => none
  | _, _ => none

/-- Reads a condition after its first word, up to its end. -/
def conditional : Nat → List Token → Option (Command × List Token)
  | 0, _ => none
  | fuel + 1, ts => do
    let (condition, ts) ← list fuel ts
    let (yes, ts) ← list fuel (← expect "then" ts)
    match expect "elif" ts, expect "else" ts with
    | some ts, _ =>
      let (no, ts) ← conditional fuel ts
      pure (.condition condition yes [no], ts)
    | none, some ts =>
      let (no, ts) ← list fuel ts
      pure (.condition condition yes no, ← expect "fi" ts)
    | none, none => pure (.condition condition yes [], ← expect "fi" ts)

/-- Reads the branches of a choice and its end. -/
def branches : Nat → List Token → Option (List (List Word × List Command) × List Token)
  | 0, _ => none
  | fuel + 1, ts =>
    let ts := skipSeparators ts
    match expect "esac" ts with
    | some rest => some ([], rest)
    | none => do
      let (words, ts) ← patterns ts
      let (body, ts) ← list fuel ts
      match ts with
      | ⟨_, .branchEnd⟩ :: ts =>
        let (others, ts) ← branches fuel ts
        pure ((words, body) :: others, ts)
      | ts => pure ([(words, body)], ← expect "esac" ts)

end

/-- The script that bytes write. -/
def parse? (script : Bytes) : Option Script := do
  let tokens ← Token.scan? script
  match ← list (4 * tokens.length + 4) tokens with
  | (commands, []) => some commands
  | _ => none

end Script

end DebRelease.Shell
