import DebRelease.Text.Lines

namespace DebRelease

/-- Where a version came from. -/
inductive VersionSource where
  | environment
  | command
  | fallback
  deriving DecidableEq, Repr

/-- The version of a run. -/
structure Version where
  value : String
  source : VersionSource
  deriving DecidableEq, Repr

namespace Version

/-- The version of a run for which nothing gives one. -/
def fallback : Version := ⟨"0.0.0", .fallback⟩

/-- Whether nothing gave a version. -/
def isFallback (v : Version) : Bool :=
  v.source = .fallback

/-- The version that a value of the environment variable gives; an empty value gives none. -/
def ofVariable : Option String → Version
  | some value => if value.isEmpty then fallback else ⟨value, .environment⟩
  | none => fallback

/-- The version that the output of the version command gives, if any. -/
def ofOutput? (stdout : String) : Option Version :=
  let value := Bytes.dropLineEnds stdout
  if value.isEmpty then none else some ⟨value, .command⟩

end Version

end DebRelease
