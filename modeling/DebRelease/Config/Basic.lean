import DebRelease.Config.Layout
import DebRelease.Config.Settings
import DebRelease.Failure
import DebRelease.Path.SearchPath
import DebRelease.Platform

namespace DebRelease

/-- Everything a run needs to know. -/
structure Config where
  platform : Platform
  layout : Layout
  tools : ToolNames
  product : Product
  versioning : Versioning
  searchPath : Option Bytes
  /-- The search path with the packaging tools in front. -/
  toolSearchPath : Bytes
  deriving DecidableEq, Repr

/-- The directory the desktop packager creates. -/
def Config.outputDirName (c : Config) : String :=
  c.platform.outputDirName c.product.name

/-- Settings from which a configuration is built. -/
structure ConfigDraft where
  platform : Option Platform
  /-- The directory the run starts from, read from the current one. -/
  buildScripts : Option Path
  /-- The workspace of the packaging tools, read from where the run starts. -/
  tooling : Option Path
  /-- The workspace of the desktop application, read from where the run starts. -/
  gui : Option Path
  /-- The package of the desktop application, read from its workspace. -/
  guiPackage : Option Path
  license : Option Path
  tools : ToolNames
  product : Product
  versioning : Versioning
  /-- The search path, if not that of the process. -/
  searchPath : Option Bytes
  deriving DecidableEq, Repr

/-- The draft in which nothing is set. -/
def ConfigDraft.empty : ConfigDraft where
  platform := none
  buildScripts := none
  tooling := none
  gui := none
  guiPackage := none
  license := none
  tools := .default
  product := .default
  versioning := .default
  searchPath := none

/-- What a configuration takes from the process it is built in. -/
structure Surroundings where
  /-- The current directory, absolute and in normal form, unless it is gone. -/
  currentDir : Except SystemError Path
  searchPath : Option Bytes

/-- The search path that finds the packaging tools before all others. -/
def Layout.searchPathWithTools (l : Layout) (base : Option Bytes) : Except Failure Bytes :=
  match SearchPath.join? (l.toolBin :: (base.map SearchPath.split).getD []) with
  | some path => .ok path
  | none =>
    let dir := l.toolBin.display
    .error (.plain s!"cannot put {dir} on PATH: path segment contains separator `:`")

/-- The layout of a draft, its paths in normal form. -/
def ConfigDraft.layout (d : ConfigDraft) (currentDir : Path) : Layout :=
  let buildScripts := currentDir.absoluteFrom (d.buildScripts.getD ".")
  let gui := buildScripts.absoluteFrom (d.gui.getD Layout.defaultGui)
  { buildScripts
    tooling := buildScripts.absoluteFrom (d.tooling.getD Layout.defaultTooling)
    gui
    guiPackage := gui.absoluteFrom (d.guiPackage.getD Layout.defaultGuiPackage)
    license := buildScripts.absoluteFrom (d.license.getD Layout.defaultLicense) }

/-- The configuration of a draft. -/
def ConfigDraft.build (d : ConfigDraft) (around : Surroundings) : Except Failure Config := do
  let some platform := d.platform | throw (.plain "platform is required")
  let currentDir ← Failure.naming "reading current directory" "." around.currentDir
  let layout := d.layout currentDir
  let searchPath := d.searchPath <|> around.searchPath
  let toolSearchPath ← layout.searchPathWithTools searchPath
  pure
    { platform, layout, tools := d.tools, product := d.product, versioning := d.versioning
      searchPath, toolSearchPath }

end DebRelease
