namespace DebRelease

/-- What the desktop packager is told about the product. -/
structure Product where
  name : String
  bundleId : String
  icon : String
  executableName : String
  unpackPattern : String
  deriving DecidableEq, Repr

/-- The built-in product. -/
def Product.default : Product where
  name := "hydrangea-blockchain"
  bundleId := "net.hydrangea.blockchain"
  icon := "src/assets/img/Hydrangea.icns"
  executableName := "hydrangea-blockchain"
  unpackPattern := "**/daemon/**"

/-- The programs the stages call. -/
structure ToolNames where
  python : String
  pip : String
  npm : String
  lerna : String
  freezer : String
  freezerVersion : String
  freezerModule : String
  packager : String
  debBuilder : String
  deriving DecidableEq, Repr

/-- The built-in tools. -/
def ToolNames.default : ToolNames where
  python := "python"
  pip := "pip"
  npm := "npm"
  lerna := "lerna"
  freezer := "pyinstaller"
  freezerVersion := "4.9"
  freezerModule := "hydrangea"
  packager := "electron-packager"
  debBuilder := "electron-installer-debian"

/-- A command that prints the version. -/
structure VersionCommand where
  program : String
  args : List String
  deriving DecidableEq, Repr

/-- The command with the given words; no words are no command. -/
def VersionCommand.ofWords? : List String → Option VersionCommand
  | [] => none
  | program :: args => some ⟨program, args⟩

/-- The words of a command. -/
def VersionCommand.words (command : VersionCommand) : List String :=
  command.program :: command.args

/-- Where the version comes from. -/
structure Versioning where
  envVar : String
  command : Option VersionCommand
  requirements : List String
  deriving DecidableEq, Repr

/-- The built-in source of the version. -/
def Versioning.default : Versioning where
  envVar := "HYDRANGEA_INSTALLER_VERSION"
  command := none
  requirements := ["setuptools_scm"]

end DebRelease
