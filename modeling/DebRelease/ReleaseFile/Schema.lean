import DebRelease.Decimal.Shortest
import DebRelease.ReleaseFile.Fault
import DebRelease.Text.Quoted

namespace DebRelease.ReleaseFile

open Toml (Value Key Span)

/-- What a field holds. -/
inductive Kind where
  | text
  | path
  | texts
  deriving DecidableEq, Repr

/-- What a message calls a kind. -/
def Kind.expected : Kind → String
  | text => "a string"
  | path => "path string"
  | texts => "a sequence"

/-- The value of a field: texts, exactly one unless the field holds a list. -/
abbrev Setting := List String

/-- A section of a release file. -/
structure Section where
  key : String
  title : String
  fields : List (String × Kind)
  deriving DecidableEq, Repr

/-- The fields a section of a file gives. -/
abbrev Settings := List (String × Setting)

/-- A floating-point number in a message: positional, with a point. -/
def floatText (x : Float) : String :=
  if x.isNaN then "NaN"
  else
    let (negative, magnitude) := Decimal.ofFloat x
    let sign := if negative then "-" else ""
    if x.isInf then sign ++ "inf"
    else
      match magnitude with
      | none => sign ++ "0.0"
      | some b =>
        let d := Decimal.shortest b
        let digits := Nat.toDigits 10 d.digits
        if 0 ≤ d.exponent then
          sign ++ String.ofList (digits ++ List.replicate d.exponent.toNat '0') ++ ".0"
        else
          let places := (-d.exponent).toNat
          let padded := List.replicate (places + 1 - digits.length) '0' ++ digits
          let whole := padded.take (padded.length - places)
          let fraction := padded.drop (padded.length - places)
          sign ++ String.ofList whole ++ "." ++ String.ofList fraction

/-- How a message describes a whole number; numbers beyond 128 bits are not described. -/
def integerText? (n : Int) : Option String :=
  if -Int.pow 2 63 ≤ n ∧ n < Int.pow 2 64 then some s!"integer `{n}`"
  else if -Int.pow 2 127 ≤ n ∧ n < Int.pow 2 127 then some s!"integer `{n}` as i128"
  else if 0 ≤ n ∧ n < Int.pow 2 128 then some s!"integer `{n}` as u128"
  else none

/-- The fault of a value that is not what is expected. -/
def wrongType (v : Value) (expected : String) : Fault :=
  let found (what : String) : Fault := ⟨v.span, s!"invalid type: {what}, expected {expected}"⟩
  match v with
  | .string _ s => found ("string " ++ quotedText s)
  | .integer span n =>
    match integerText? n with
    | some what => found what
    | none => ⟨span, "integer number overflowed"⟩
  | .float span x =>
    match x with
    | some x =>
      let shown := floatText x
      found s!"floating point `{shown}`"
    | none => ⟨span, "floating-point number overflowed"⟩
  | .boolean _ b => found s!"boolean `{b}`"
  | .datetime _ | .table .. => found "map"
  | .array .. => found "sequence"

/-- The fault of a name that no field has. -/
def unknownField (span : Span) (name : String) (known : List String) : Fault :=
  let list := ", ".intercalate (known.map fun field => "`" ++ field ++ "`")
  ⟨span, s!"unknown field `{name}`, expected one of {list}"⟩

/-- A text. -/
def readText (expected : String) : Value → Except Fault String
  | .string _ s => .ok s
  | v => .error (wrongType v expected)

/-- A value of a kind. -/
def Kind.read (kind : Kind) (v : Value) : Except Fault Setting :=
  match kind, v with
  | .texts, .array _ _ items => items.mapM (readText Kind.text.expected)
  | .texts, v => .error (wrongType v kind.expected)
  | _, v => (readText kind.expected v).map ([·])

/-- The members of a table in the order of their names. -/
def sorted (members : Toml.Members) : Toml.Members :=
  members.mergeSort fun a b => Bytes.le (Bytes.ofText a.1.name) (Bytes.ofText b.1.name)

/-- The fields of a section written as a table. -/
def Section.readTable (s : Section) (members : Toml.Members) : Except Fault Settings :=
  (sorted members).mapM fun (key, v) =>
    match s.fields.lookup key.name with
    | some kind => (kind.read v).map fun setting => (key.name, setting)
    | none => .error (unknownField key.span key.name (s.fields.map (·.1)))

/-- The fields of a section written as an array; `count` precede those in `fields`. Items after the
    last field do not count. -/
def Section.readItems (s : Section) (span : Span) (count : Nat) :
    List (String × Kind) → List Value → Except Fault Settings
  | [], _ => .ok []
  | _ :: _, [] =>
    .error ⟨span,
      s!"invalid length {count}, expected struct {s.title} with {s.fields.length} elements"⟩
  | (name, kind) :: fields, v :: items => do
    let setting ← kind.read v
    let settings ← s.readItems span (count + 1) fields items
    pure ((name, setting) :: settings)

/-- The name under which a date stands where a table is expected. -/
def datetimeField : String := "$__toml_private_datetime"

/-- The fields of a section. -/
def Section.read (s : Section) : Value → Except Fault Settings
  | .table _ _ members => s.readTable members
  | .array span _ items => s.readItems span 0 s.fields items
  | .datetime span => .error (unknownField span datetimeField (s.fields.map (·.1)))
  | v => .error (wrongType v s!"struct {s.title}")

/-- The sections of a file, as far as it has them, by their keys. -/
def readSections (sections : List Section) (members : Toml.Members) :
    Except Fault (List (String × Settings)) :=
  (sorted members).mapM fun (key, v) =>
    match sections.find? (·.key == key.name) with
    | some s => (s.read v).map fun settings => (key.name, settings)
    | none => .error (unknownField key.span key.name (sections.map (·.key)))

end DebRelease.ReleaseFile
