import DebRelease.Text.Utf8
import DebRelease.Toml.Value

namespace DebRelease.Toml

/-- A place in a document and the bytes from there on. -/
structure Cursor where
  offset : Nat
  /-- The bytes from the place on. -/
  rest : Bytes
  deriving DecidableEq, Repr

/-- A reader of a part of a document. -/
abbrev Reader := StateT Cursor Option

namespace Reader

/-- The place reached. -/
def offset : Reader Nat :=
  return (← get).offset

/-- The bytes left. -/
def rest : Reader Bytes :=
  return (← get).rest

/-- The next byte, which stays. -/
def peek? : Reader (Option UInt8) :=
  return (← get).rest.head?

/-- Passes some bytes. -/
def skip (count : Nat) : Reader Unit :=
  modify fun c => ⟨c.offset + (c.rest.take count).length, c.rest.drop count⟩

/-- The next byte. -/
def next : Reader UInt8 := do
  match ← peek? with
  | some b => skip 1; pure b
  | none => failure

/-- The bytes up to the first that does not satisfy a condition. -/
def takeWhile (p : UInt8 → Bool) : Reader Bytes := do
  let taken := (← rest).takeWhile p
  skip taken.length
  pure taken

/-- Whether the rest begins with some bytes. -/
def startsWith (s : String) : Reader Bool :=
  return (Bytes.ofText s).isPrefixOf (← rest)

/-- Passes some bytes if the rest begins with them. -/
def accept (s : String) : Reader Bool := do
  if ← startsWith s then
    skip (Bytes.ofText s).length
    pure true
  else
    pure false

/-- Passes bytes that must come next. -/
def expect (s : String) : Reader Unit := do
  if !(← accept s) then failure

/-- Runs a reader and notes the part it reads. -/
def spanned (r : Reader α) : Reader (α × Span) := do
  let start ← offset
  let a ← r
  let stop ← offset
  pure (a, ⟨start, stop⟩)

end Reader

end DebRelease.Toml
