import DebRelease.Config.Basic
import DebRelease.FileTree.Resolve
import DebRelease.Release
import DebRelease.ReleaseFile.Schema
import DebRelease.Toml.Document

namespace DebRelease

/-- What a file says about paths. -/
structure PathOverrides where
  tooling : Option Path
  gui : Option Path
  guiPackage : Option Path
  license : Option Path
  deriving DecidableEq, Repr

/-- What a file says about the product. -/
structure ProductOverrides where
  name : Option String
  bundleId : Option String
  icon : Option String
  executableName : Option String
  unpackPattern : Option String
  deriving DecidableEq, Repr

/-- What a file says about the tools. -/
structure ToolOverrides where
  python : Option String
  pip : Option String
  npm : Option String
  lerna : Option String
  freezer : Option String
  freezerVersion : Option String
  freezerModule : Option String
  packager : Option String
  debBuilder : Option String
  deriving DecidableEq, Repr

/-- What a file says about the version. -/
structure VersionOverrides where
  envVar : Option String
  command : Option (List String)
  requirements : Option (List String)
  deriving DecidableEq, Repr

/-- A release file. -/
structure ReleaseFile where
  paths : PathOverrides
  product : ProductOverrides
  tools : ToolOverrides
  version : VersionOverrides
  deriving DecidableEq, Repr

namespace ReleaseFile

/-- The file that says nothing. -/
def empty : ReleaseFile where
  paths := ⟨none, none, none, none⟩
  product := ⟨none, none, none, none, none⟩
  tools := ⟨none, none, none, none, none, none, none, none, none⟩
  version := ⟨none, none, none⟩

/-- The section about paths. -/
def pathsSection : Section where
  key := "paths"
  title := "PathsSection"
  fields :=
    [("npm_tooling_dir", .path), ("gui_dir", .path), ("gui_package_dir", .path),
      ("license", .path)]

/-- The section about the product. -/
def productSection : Section where
  key := "product"
  title := "ProductSection"
  fields :=
    [("name", .text), ("app_bundle_id", .text), ("icon", .text), ("executable_name", .text),
      ("asar_unpack", .text)]

/-- The section about the tools. -/
def toolsSection : Section where
  key := "tools"
  title := "ToolsSection"
  fields :=
    [("python", .text), ("pip", .text), ("npm", .text), ("lerna", .text), ("pyinstaller", .text),
      ("pyinstaller_version", .text), ("freezer_module", .text), ("electron_packager", .text),
      ("electron_installer_debian", .text)]

/-- The section about the version. -/
def versionSection : Section where
  key := "version"
  title := "VersionSection"
  fields := [("env_var", .text), ("command", .texts), ("requirements", .texts)]

/-- The sections of a release file. -/
def sections : List Section :=
  [pathsSection, productSection, toolsSection, versionSection]

/-- The text of a field. -/
def textOf (settings : Settings) (field : String) : Option String :=
  (settings.lookup field).bind List.head?

/-- The path of a field. -/
def pathOf (settings : Settings) (field : String) : Option Path :=
  (textOf settings field).map Path.ofText

/-- The file whose sections give the settings. -/
def ofSettings (given : List (String × Settings)) : ReleaseFile :=
  let ofKey (s : Section) : Settings := (given.lookup s.key).getD []
  let paths := ofKey pathsSection
  let product := ofKey productSection
  let tools := ofKey toolsSection
  let version := ofKey versionSection
  { paths :=
      { tooling := pathOf paths "npm_tooling_dir"
        gui := pathOf paths "gui_dir"
        guiPackage := pathOf paths "gui_package_dir"
        license := pathOf paths "license" }
    product :=
      { name := textOf product "name"
        bundleId := textOf product "app_bundle_id"
        icon := textOf product "icon"
        executableName := textOf product "executable_name"
        unpackPattern := textOf product "asar_unpack" }
    tools :=
      { python := textOf tools "python"
        pip := textOf tools "pip"
        npm := textOf tools "npm"
        lerna := textOf tools "lerna"
        freezer := textOf tools "pyinstaller"
        freezerVersion := textOf tools "pyinstaller_version"
        freezerModule := textOf tools "freezer_module"
        packager := textOf tools "electron_packager"
        debBuilder := textOf tools "electron_installer_debian" }
    version :=
      { envVar := textOf version "env_var"
        command := version.lookup "command"
        requirements := version.lookup "requirements" } }

/-- The release file that a document is, unless it is none. -/
def ofMembers (members : Toml.Members) : Except Fault ReleaseFile :=
  (readSections sections members).map ofSettings

/-- Reads a release file. -/
def parse (document : Bytes) : Except Refusal ReleaseFile :=
  match Toml.parse? document with
  | none => .error .notToml
  | some members => (ofMembers members).mapError .schema

/-- Reads the release file at a path. -/
def load (t : FileTree) (cwd : WorkingDir) (path : Path) : Except ReleaseError ReleaseFile := do
  let document ← (t.read cwd path).mapError (.configUnreadable path)
  if document.text?.isNone then throw (.configUnreadable path .notText)
  (parse document).mapError fun refusal => .configInvalid path (refusal.render document)

/-- The product with what a file says about it. -/
def ProductOverrides.apply (o : ProductOverrides) (product : Product) : Product where
  name := o.name.getD product.name
  bundleId := o.bundleId.getD product.bundleId
  icon := o.icon.getD product.icon
  executableName := o.executableName.getD product.executableName
  unpackPattern := o.unpackPattern.getD product.unpackPattern

/-- The tools with what a file says about them. -/
def ToolOverrides.apply (o : ToolOverrides) (tools : ToolNames) : ToolNames where
  python := o.python.getD tools.python
  pip := o.pip.getD tools.pip
  npm := o.npm.getD tools.npm
  lerna := o.lerna.getD tools.lerna
  freezer := o.freezer.getD tools.freezer
  freezerVersion := o.freezerVersion.getD tools.freezerVersion
  freezerModule := o.freezerModule.getD tools.freezerModule
  packager := o.packager.getD tools.packager
  debBuilder := o.debBuilder.getD tools.debBuilder

/-- The source of the version with what a file says about it; a command without words is no
    command. -/
def VersionOverrides.apply (o : VersionOverrides) (versioning : Versioning) : Versioning where
  envVar := o.envVar.getD versioning.envVar
  command := (o.command.bind VersionCommand.ofWords?) <|> versioning.command
  requirements := o.requirements.getD versioning.requirements

/-- Sets in a draft what a file says. Paths it does not give stay as they were set; names and texts
    it does not give are the built-in ones. -/
def apply (f : ReleaseFile) (d : ConfigDraft) : ConfigDraft :=
  { d with
    tooling := f.paths.tooling <|> d.tooling
    gui := f.paths.gui <|> d.gui
    guiPackage := f.paths.guiPackage <|> d.guiPackage
    license := f.paths.license <|> d.license
    product := ProductOverrides.apply f.product .default
    tools := ToolOverrides.apply f.tools .default
    versioning := VersionOverrides.apply f.version .default }

end ReleaseFile

end DebRelease
