import DebRelease.Path.Basic

namespace DebRelease.Path

/-- The names left after folding `.` and `..`, the last one first. At the root `..` stays there. -/
def foldNames (names : List Bytes) (component : Bytes) : List Bytes :=
  if component == dotDot then names.tail
  else if isTrivial component then names
  else component :: names

/-- The absolute path with the given names, the last one first. -/
def ofNames (names : List Bytes) : Path :=
  ofSegments true names.reverse

/-- The normal form of `p` read from the directory `base`. -/
def absoluteFrom (base p : Path) : Path :=
  let start := if p.isAbsolute then [] else base.segments
  ofNames ((start ++ p.segments).foldl foldNames [])

/-- A path in normal form: absolute, and every segment a name, the root having none. -/
def IsNormal (p : Path) : Prop :=
  p = root ∨ p.isAbsolute ∧ ∀ segment ∈ p.segments, isName segment

instance (p : Path) : Decidable p.IsNormal := by
  unfold IsNormal; infer_instance

end DebRelease.Path
