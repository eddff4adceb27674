import DebRelease.Toml.Scalar

namespace DebRelease.Toml

open Reader

namespace Members

/-- Changes the table that keys lead to, tables on the way being made. Keys of a header and dotted
    keys follow different rules: no dotted key leads into a table that has a header. -/
def updateAt (dotted : Bool) (change : TableKind → Members → Option Members) :
    List Key → TableKind → Members → Option Members
  | [], kind, members => change kind members
  | key :: keys, _, members =>
    match members.get? key.name with
    | none => do
      let kind : TableKind := if dotted then .dotted else .implied
      let inner ← updateAt dotted change keys kind []
      some (members ++ [(key, .table key.span kind inner)])
    | some (.table span kind inner) =>
      if kind = .inline || (dotted && kind = .header) then none
      else do
        let inner ← updateAt dotted change keys kind inner
        some (members.replace key.name (.table span kind inner))
    | some (.array span true items) =>
      match items.getLast? with
      | some (.table lastSpan kind inner) =>
        if dotted && kind = .header then none
        else do
          let inner ← updateAt dotted change keys kind inner
          let items := items.dropLast ++ [.table lastSpan kind inner]
          some (members.replace key.name (.array span true items))
      | _ => none
    | some _ => none

/-- Adds a value under dotted keys. -/
def insert (members : Members) (path : List Key) (key : Key) (value : Value) : Option Members :=
  members.updateAt true (fun kind members =>
    if (kind == .dotted) == path.isEmpty then none
    else if (members.get? key.name).isSome then none
    else some (members ++ [(key, value)])) path .header

/-- Begins a table under the keys of its header. -/
def beginTable (members : Members) (path : List Key) (key : Key) (span : Span) : Option Members :=
  members.updateAt false (fun _ members =>
    match members.get? key.name with
    | none => some (members ++ [(key, .table span .header [])])
    | some (.table _ .implied inner) =>
      some (Members.erase members key.name ++ [(key, .table span .header inner)])
    | some _ => none) path .header

/-- Begins the next table of an array under the keys of its header. -/
def beginItem (members : Members) (path : List Key) (key : Key) (span : Span) : Option Members :=
  members.updateAt false (fun _ members =>
    match members.get? key.name with
    | none => some (members ++ [(key, .array span true [.table span .header []])])
    | some (.array first true items) =>
      some (members.replace key.name (.array first true (items ++ [.table span .header []])))
    | some _ => none) path .header

end Members

/-- Something that must be there. -/
def require : Option α → Reader α
  | some a => pure a
  | none => failure

/-- Keys, the last apart. -/
def splitLast (keys : List Key) : Reader (List Key × Key) := do
  let last ← require keys.getLast?
  pure (keys.dropLast, last)

/-- A key and the value given to it, which `value` reads. -/
def assignment (value : Reader Value) : Reader (List Key × Key × Value) := do
  let (path, key) ← splitLast (← dottedKey)
  expect "="
  blanks
  let v ← value
  pure (path, key, v)

/-- The items of an array, which `value` reads, up to its closing bracket. -/
def arrayItems (value : Reader Value) : Nat → Reader (List Value)
  | 0 => failure
  | fuel + 1 => do
    gap
    if ← accept "]" then return []
    let item ← value
    gap
    if ← accept "," then return item :: (← arrayItems value fuel)
    expect "]"
    pure [item]

/-- The members of a table in braces, whose values `value` reads, up to its closing brace. -/
def inlineMembers (value : Reader Value) (known : Members) : Nat → Reader Members
  | 0 => failure
  | fuel + 1 => do
    gap
    if ← accept "\x7d" then return known
    let (path, key, v) ← assignment value
    let known ← require (known.insert path key v)
    gap
    if ← accept "," then return ← inlineMembers value known fuel
    expect "\x7d"
    pure known

/-- A value that holds no others. -/
def leaf : Reader Value := do
  match ← peek? with
  | some 0x22 | some 0x27 =>
    let (s, span) ← spanned string
    pure (.string span s)
  | _ => word

/-- A value inside at most `depth` further brackets and braces. -/
def value : Nat → Reader Value
  | 0 => leaf
  | depth + 1 => do
    let rounds := (← rest).length + 1
    match ← peek? with
    | some 0x5B =>
      let (items, span) ← spanned do
        expect "["
        arrayItems (value depth) rounds
      pure (.array span false items)
    | some 0x7B =>
      let (members, span) ← spanned do
        expect "\x7b"
        inlineMembers (value depth) [] rounds
      pure (.table span .inline members)
    | _ => leaf

/-- How many brackets and braces may stand inside one another. -/
def nestingLimit : Nat := 80

/-- A document that is being read: its members and the keys of the current header. -/
structure Draft where
  members : Members
  /-- The keys of the current header. -/
  header : List Key

/-- Adds a value under the current header. -/
def Draft.insert? (d : Draft) (path : List Key) (key : Key) (v : Value) : Option Draft :=
  (d.members.updateAt false (fun _ table => table.insert path key v) d.header .header).map
    fun members => { d with members }

/-- A header. -/
def header (d : Draft) : Reader Draft := do
  let ((keys, many), span) ← spanned do
    let many ← accept "[["
    if !many then expect "["
    blanks
    let keys ← dottedKey
    expect (if many then "]]" else "]")
    pure (keys, many)
  let (path, key) ← splitLast keys
  let members ← require <|
    if many then d.members.beginItem path key span else d.members.beginTable path key span
  pure ⟨members, keys⟩

/-- The statement on a line. -/
def statement (d : Draft) : Reader Draft := do
  blanks
  match ← peek? with
  | none | some 0x23 | some 0x0A | some 0x0D => pure d
  | some 0x5B => header d
  | some _ =>
    let (path, key, v) ← assignment (value nestingLimit)
    require (d.insert? path key v)

/-- The statements of a document. Each round passes a line, so the number of bytes bounds the number
    of rounds. -/
def statements : Nat → Draft → Reader Draft
  | 0, d => pure d
  | fuel + 1, d => do
    if (← rest).isEmpty then return d
    let d ← statement d
    lineEnd
    statements fuel d

/-- The members of a document, if it is TOML. A byte order mark may come first. -/
def parse? (bytes : Bytes) : Option Members :=
  let reader : Reader Members := do
    discard (accept "\uFEFF")
    return (← statements ((← rest).length + 1) ⟨[], []⟩).members
  (reader.run ⟨0, bytes⟩).map (·.1)

end DebRelease.Toml
