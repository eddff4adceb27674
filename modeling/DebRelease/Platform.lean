namespace DebRelease

/-- A target platform. -/
structure Platform where
  /-- What the user types on the command line. -/
  selector : String
  packagerArch : String
  debArch : String
  deriving DecidableEq, Repr

namespace Platform

/-- The 64-bit x86 platform. -/
def amd64 : Platform := ⟨"amd64", "x64", "amd64"⟩

/-- The 64-bit ARM platform. -/
def arm64 : Platform := ⟨"arm64", "arm64", "arm64"⟩

/-- The supported platforms. -/
def all : List Platform := [amd64, arm64]

/-- The platform of a selector. -/
def ofSelector? (selector : String) : Option Platform :=
  all.find? (·.selector == selector)

/-- The selectors in the order of the table, separated by bars. -/
def choices : String :=
  "|".intercalate (all.map selector)

/-- The directory the desktop packager creates for a product. -/
def outputDirName (p : Platform) (product : String) : String :=
  s!"{product}-linux-{p.packagerArch}"

theorem ofSelector?_selector {selector : String} {p : Platform}
    (h : ofSelector? selector = some p) : p.selector = selector := by
  simpa using List.find?_some h

end Platform

end DebRelease
