import DebRelease.Config.Basic
import DebRelease.Tool.Command
import DebRelease.Version

namespace DebRelease

/-- What a stage does. -/
inductive Action where
  | run (command : ToolCommand)
  | freeze (locate freezer : ToolCommand)
  | recreate (path : Path)
  | copy (source target : Path)
  | move (source target : Path)
  /-- Runs a tool while a manifest carries the version. -/
  | package (manifest : Path) (version : String) (command : ToolCommand)
  | list (path : Path)
  deriving DecidableEq, Repr

/-- A stage of a run. -/
structure Stage where
  name : String
  action : Action
  deriving DecidableEq, Repr

namespace Plan

/-- The step before all stages. -/
def resolveVersion : String := "resolve version"

/-- A command whose program is found among the packaging tools first. -/
def tool (c : Config) (program : String) (cwd : Path) (args : List String) : ToolCommand :=
  .ofTexts program args cwd (some c.toolSearchPath)

/-- The application as the desktop packager leaves it. -/
def packagedApp (c : Config) : Path :=
  c.layout.guiPackage.child c.outputDirName

/-- The application among the build results. -/
def collectedApp (c : Config) : Path :=
  c.layout.dist.child c.outputDirName

/-- Installs the packaging tools. -/
def installTools (c : Config) : ToolCommand :=
  .ofTexts c.tools.npm ["ci"] c.layout.tooling c.searchPath

/-- Installs the freezer. -/
def installFreezer (c : Config) : ToolCommand :=
  let package := s!"pyinstaller=={c.tools.freezerVersion}"
  tool c c.tools.pip c.layout.buildScripts ["install", package]

/-- Prints the path of the specification of the freezer. -/
def locateSpec (c : Config) : ToolCommand :=
  let name := c.tools.freezerModule
  let program := s!"import {name}; print({name}.PYINSTALLER_SPEC_PATH)"
  tool c c.tools.python c.layout.buildScripts ["-c", program]

/-- Freezes the daemon; the specification follows as the last argument. -/
def freeze (c : Config) : ToolCommand :=
  tool c c.tools.freezer c.layout.buildScripts ["--log-level=INFO"]

/-- Packages the desktop application. -/
def packageApp (c : Config) (version : String) : ToolCommand :=
  tool c c.tools.packager c.layout.guiPackage
    [".", c.product.name, s!"--asar.unpack={c.product.unpackPattern}", "--platform=linux",
      s!"--arch={c.platform.packagerArch}", s!"--icon={c.product.icon}", "--overwrite",
      s!"--app-bundle-id={c.product.bundleId}", s!"--appVersion={version}",
      s!"--executable-name={c.product.executableName}"]

/-- Builds the Debian package. -/
def buildDeb (c : Config) (version : String) : ToolCommand where
  program := c.tools.debBuilder
  args :=
    [Bytes.ofText "--src", (collectedApp c).bytes,
      Bytes.ofText "--dest", c.layout.finalInstaller.bytes,
      Bytes.ofText "--arch", Bytes.ofText c.platform.debArch,
      Bytes.ofText "--options.version", Bytes.ofText version,
      Bytes.ofText "--license", c.layout.license.bytes]
  cwd := c.layout.buildScripts
  searchPath := some c.toolSearchPath

end Plan

/-- The stages of a run, in order. -/
def Config.plan (c : Config) (version : Version) : List Stage :=
  let gui := c.layout.gui
  [⟨"install packaging tools", .run (Plan.installTools c)⟩,
    ⟨"prepare dist directory", .recreate c.layout.dist⟩,
    ⟨"install freezer", .run (Plan.installFreezer c)⟩,
    ⟨"freeze executables", .freeze (Plan.locateSpec c) (Plan.freeze c)⟩,
    ⟨"stage daemon into gui", .copy c.layout.frozenDaemon c.layout.guiDaemon⟩,
    ⟨"clean gui workspace", .run (Plan.tool c c.tools.lerna gui ["clean", "-y"])⟩,
    ⟨"install gui dependencies", .run (Plan.tool c c.tools.npm gui ["ci"])⟩,
    ⟨"build gui", .run (Plan.tool c c.tools.npm gui ["run", "build"])⟩,
    ⟨"package desktop app",
      .package c.layout.guiManifest version.value (Plan.packageApp c version.value)⟩,
    ⟨"collect packaged app", .move (Plan.packagedApp c) (Plan.collectedApp c)⟩,
    ⟨"prepare installer directory", .recreate c.layout.finalInstaller⟩,
    ⟨"build debian package", .run (Plan.buildDeb c version.value)⟩,
    ⟨"list installer artifacts", .list c.layout.finalInstaller⟩]

end DebRelease
