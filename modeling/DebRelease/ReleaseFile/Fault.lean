import DebRelease.Text.Utf8
import DebRelease.Toml.Value

namespace DebRelease.ReleaseFile

/-- Something in a document that the schema does not allow. -/
structure Fault where
  span : Toml.Span
  text : String
  deriving DecidableEq, Repr

/-- Why a release file is refused. -/
inductive Refusal where
  | notToml
  | schema (fault : Fault)
  deriving DecidableEq, Repr

/-- The line of a document, from zero, in which a byte stands, and the bytes of the line before
    it. -/
def lineAndStart (document : Bytes) (offset : Nat) : Nat × Bytes :=
  let before := document.take offset
  (before.count Bytes.lineFeed,
    (before.reverse.takeWhile (· != Bytes.lineFeed)).reverse)

/-- The message of a fault in a document. Columns count characters; the mark is never empty and does
    not leave the line. -/
def Fault.render (document : Bytes) (f : Fault) : String :=
  let (line, start) := lineAndStart document f.span.start
  let content := (Bytes.splitOn Bytes.lineFeed document).getD line []
  let column := start.lossy.length
  let marked := min (f.span.stop - f.span.start) (content.length - column)
  let shown := content.lossy
  let number := toString (line + 1)
  let gutter := String.ofList (List.replicate (number.length + 1) ' ')
  let indent := String.ofList (List.replicate (column + 1) ' ')
  let mark := String.ofList (List.replicate (max marked 1) '^')
  s!"TOML parse error at line {number}, column {column + 1}\n" ++
    s!"{gutter}|\n{number} | {shown}\n{gutter}|{indent}{mark}\n{f.text}\n"

/-- The message of a refusal of a document. -/
def Refusal.render (document : Bytes) : Refusal → String
  | .notToml => "syntax"
  | .schema fault => fault.render document

end DebRelease.ReleaseFile
