import DebRelease.Text.Bytes

namespace DebRelease.Toml

/-- A part of a document, in bytes from its start. -/
structure Span where
  start : Nat
  stop : Nat
  deriving DecidableEq, Repr, Inhabited

/-- A key, with the place it is written at. -/
structure Key where
  name : String
  span : Span
  deriving DecidableEq, Repr

/-- How a table came about, which decides how it may be extended. -/
inductive TableKind where
  /-- By a header of its own, or by being the document. -/
  | header
  /-- By a longer header. -/
  | implied
  /-- By a dotted key. -/
  | dotted
  /-- In braces. -/
  | inline
  deriving DecidableEq, Repr, BEq

/-- A value. -/
inductive Value where
  | string (span : Span) (text : String)
  | integer (span : Span) (value : Int)
  /-- A floating-point number; nothing stands for one that is too large. -/
  | float (span : Span) (value : Option Float)
  | boolean (span : Span) (value : Bool)
  | datetime (span : Span)
  /-- A list of values; it grows by headers if `ofTables` is set. -/
  | array (span : Span) (ofTables : Bool) (items : List Value)
  | table (span : Span) (kind : TableKind) (members : List (Key × Value))
  deriving Repr, Inhabited

/-- The members of a table. -/
abbrev Members := List (Key × Value)

/-- The place a value is written at. -/
def Value.span : Value → Span
  | string span _ | integer span _ | float span _ | boolean span _ | datetime span
  | array span _ _ | table span _ _ => span

/-- The value of a name. -/
def Members.get? (members : Members) (name : String) : Option Value :=
  (members.find? (·.1.name == name)).map (·.2)

/-- The members without a name. -/
def Members.erase (members : Members) (name : String) : Members :=
  members.filter (·.1.name != name)

/-- The members with another value for a name they have. -/
def Members.replace (members : Members) (name : String) (value : Value) : Members :=
  members.map fun (key, old) => (key, if key.name == name then value else old)

end DebRelease.Toml
