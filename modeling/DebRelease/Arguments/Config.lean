import DebRelease.Arguments.Basic
import DebRelease.Host
import DebRelease.ReleaseFile.Basic

namespace DebRelease.Arguments

/-- The settings that the arguments give for a platform. -/
def draft (a : Arguments) (p : Platform) : ConfigDraft :=
  { ConfigDraft.empty with platform := some p, buildScripts := some a.buildScripts }

/-- The configuration that the arguments ask for; a release file overrides them. -/
def config (a : Arguments) (h : Host) (p : Platform) : Except ReleaseError Config := do
  let draft ← match a.releaseFile with
    | some path =>
      let file ← ReleaseFile.load h.tree h.cwd path
      pure (file.apply (a.draft p))
    | none => pure (a.draft p)
  (draft.build h.surroundings).mapError .pipeline

end DebRelease.Arguments
