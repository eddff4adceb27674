import DebRelease.Path.Absolute

namespace DebRelease

/-- The directories and files of a checkout that a run works with. -/
structure Layout where
  buildScripts : Path
  tooling : Path
  gui : Path
  guiPackage : Path
  license : Path
  deriving DecidableEq, Repr

namespace Layout

/-- The workspace of the packaging tools, unless another is set. -/
def defaultTooling : Path := "npm_linux_deb"

/-- The workspace of the desktop application, unless another is set. -/
def defaultGui : Path := "../hydrangea-blockchain-gui"

/-- The package of the desktop application, unless another is set. -/
def defaultGuiPackage : Path := "packages/gui"

/-- The license, unless another is set. -/
def defaultLicense : Path := "../LICENSE"

/-- The programs of the packaging tools. -/
def toolBin (l : Layout) : Path :=
  (l.tooling.child "node_modules").child ".bin"

/-- The manifest that carries the version. -/
def guiManifest (l : Layout) : Path :=
  l.guiPackage.child "package.json"

/-- The copy of the frozen daemon inside the desktop application. -/
def guiDaemon (l : Layout) : Path :=
  l.guiPackage.child "daemon"

/-- The directory of build results, made anew by each run. -/
def dist (l : Layout) : Path :=
  l.buildScripts.child "dist"

/-- The frozen daemon. -/
def frozenDaemon (l : Layout) : Path :=
  l.dist.child "daemon"

/-- The directory of the installer, made anew by each run. -/
def finalInstaller (l : Layout) : Path :=
  l.buildScripts.child "final_installer"

end Layout

end DebRelease
