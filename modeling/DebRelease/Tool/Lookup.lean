import DebRelease.Host
import DebRelease.Path.SearchPath

namespace DebRelease

/-- The path with a component put after it. -/
def Path.push (p : Path) (component : Bytes) : Path :=
  p.join ⟨component⟩

/-- A path read from a directory, component by component; dots at its beginning are left out, other
    components stay as they are. -/
def Path.under (p dir : Path) : Path :=
  if p.isAbsolute then p
  else (p.components.dropWhile (· == Path.dot)).foldl Path.push dir

namespace Lookup

/-- Whether a path is a program. -/
def isProgram (h : Host) (p : Path) : Bool :=
  match h.tree.stat h.cwd p with
  | .ok (_, .file _ executable) => executable
  | _ => false

/-- Whether a name is a path: it has several components, the root counting as one. -/
def isPath (p : Path) : Bool :=
  1 < p.components.length || (p.isAbsolute && !p.components.isEmpty)

/-- The segment that stands for the home directory. -/
def tilde : Bytes := Bytes.ofText "~"

/-- A directory of the search path in which a leading `~` stands for the home directory, if that is
    known. -/
def expandHome (h : Host) (dir : Path) : Path :=
  match dir.isAbsolute, dir.components, h.env? "HOME" with
  | false, first :: rest, some home =>
    if first == tilde then rest.foldl Path.push ⟨home⟩ else dir
  | _, _, _ => dir

/-- The paths that a name can mean for a tool that runs in a directory, in the order in which they
    are tried. -/
def candidates (h : Host) (searchPath : Option Bytes) (cwd : Path) (program : String) :
    List Path :=
  let name := Path.ofText program
  if isPath name then [name.under cwd]
  else
    match searchPath with
    | none => []
    | some dirs =>
      (SearchPath.split dirs).map fun dir => ((expandHome h dir).join name).under cwd

/-- The program that a name means. -/
def program? (h : Host) (searchPath : Option Bytes) (cwd : Path) (program : String) :
    Option Path :=
  (candidates h searchPath cwd program).find? (isProgram h)

/-- Only a program is found. -/
theorem isProgram_of_program? {h : Host} {searchPath : Option Bytes} {cwd p : Path}
    {program : String} (found : program? h searchPath cwd program = some p) :
    isProgram h p := by
  simpa [program?] using List.find?_some found

end Lookup

end DebRelease
