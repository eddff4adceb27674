import DebRelease.Text.Utf8

namespace DebRelease

/-- A path, absolute when it begins with a slash. -/
structure Path where
  bytes : Bytes
  deriving DecidableEq, Repr, Inhabited

namespace Path

/-- The separator `/`. -/
def slash : UInt8 := 0x2F

/-- The segment `.`, which names the directory it stands in. -/
def dot : Bytes := [0x2E]

/-- The segment `..`, which names the parent of the directory it stands in. -/
def dotDot : Bytes := [0x2E, 0x2E]

/-- The path with the given text. -/
def ofText (s : String) : Path :=
  ⟨Bytes.ofText s⟩

instance : Coe String Path := ⟨ofText⟩

/-- The text of a path as messages show it. -/
def display (p : Path) : String :=
  p.bytes.lossy

/-- The root directory. -/
def root : Path := ⟨[slash]⟩

/-- The empty path. -/
def empty : Path := ⟨[]⟩

/-- Whether the path begins at the root. -/
def isAbsolute (p : Path) : Bool :=
  p.bytes.head? = some slash

/-- Whether the path ends in a slash. -/
def endsInSlash (p : Path) : Bool :=
  p.bytes.getLast? = some slash

/-- The segments between slashes, after the leading slash of an absolute path. -/
def segments (p : Path) : List Bytes :=
  Bytes.splitOn slash (if p.isAbsolute then p.bytes.tail else p.bytes)

/-- Whether a segment adds nothing to a path: it is empty or `.`. -/
def isTrivial (segment : Bytes) : Bool :=
  segment.isEmpty || segment == dot

/-- The components of a path: its segments without the trivial ones, except that a relative path
    keeps a leading `.`. -/
def components (p : Path) : List Bytes :=
  match p.isAbsolute, p.segments with
  | false, first :: rest =>
    if first == dot then first :: rest.filter (! isTrivial ·)
    else (first :: rest).filter (! isTrivial ·)
  | _, segments => segments.filter (! isTrivial ·)

/-- The path with the given segments. -/
def ofSegments (absolute : Bool) (segments : List Bytes) : Path :=
  ⟨(if absolute then [slash] else []) ++ Bytes.joinWith slash segments⟩

/-- A list without the elements at its end that satisfy `p`. -/
def dropTrailing (p : α → Bool) (xs : List α) : List α :=
  (xs.reverse.dropWhile p).reverse

/-- The segments of a path up to its last component. -/
def significant (p : Path) : List Bytes :=
  match p.isAbsolute, p.segments with
  | false, first :: rest =>
    if first == dot then first :: dropTrailing isTrivial rest
    else dropTrailing isTrivial (first :: rest)
  | _, segments => dropTrailing isTrivial segments

/-- The path without its last component; the root and the empty path have none. -/
def parent? (p : Path) : Option Path :=
  match p.significant with
  | [] => none
  | segments =>
    let rest := ofSegments p.isAbsolute segments.dropLast
    some (ofSegments p.isAbsolute rest.significant)

/-- The last component, if it is a name. -/
def fileName? (p : Path) : Option Bytes :=
  p.components.getLast?.filter fun name => name != dot && name != dotDot

/-- `other` read from the directory `p`. -/
def join (p other : Path) : Path :=
  if other.isAbsolute then other
  else if p.bytes.isEmpty || p.endsInSlash then ⟨p.bytes ++ other.bytes⟩
  else ⟨p.bytes ++ slash :: other.bytes⟩

/-- The entry `name` of the directory `p`. -/
def child (p : Path) (name : String) : Path :=
  p.join (ofText name)

/-- The path with a text written directly after it. -/
def append (p : Path) (suffix : String) : Path :=
  ⟨p.bytes ++ Bytes.ofText suffix⟩

/-- What follows `base` in `p`, compared component by component. -/
def relativeTo? (p base : Path) : Option Path :=
  if p.isAbsolute == base.isAbsolute && base.components.isPrefixOf p.components then
    some (ofSegments false (p.components.drop base.components.length))
  else
    none

/-- Whether a name occurs between slashes only: it is one component of a path. -/
def isName (name : Bytes) : Bool :=
  !name.isEmpty && name != dot && name != dotDot && !name.contains slash

end Path

end DebRelease
