import DebRelease.Text.Bytes

namespace DebRelease

/-- A switch of the command line. -/
inductive Switch where
  | buildScripts
  | config
  | verbose
  | quiet
  | help
  | version
  deriving DecidableEq, Repr

namespace Switch

/-- The switches in the order of the help. -/
def all : List Switch :=
  [buildScripts, config, verbose, quiet, help, version]

/-- The letter of a switch. -/
def letter : Switch → Char
  | buildScripts => 'C'
  | config => 'c'
  | verbose => 'v'
  | quiet => 'q'
  | help => 'h'
  | version => 'V'

/-- The word of a switch. -/
def word : Switch → String
  | buildScripts => "build-scripts-dir"
  | config => "config"
  | verbose => "verbose"
  | quiet => "quiet"
  | help => "help"
  | version => "version"

/-- What the value of a switch is called, if it takes one. -/
def valueName? : Switch → Option String
  | buildScripts => some "DIR"
  | config => some "FILE"
  | _ => none

/-- Whether a switch takes a value. -/
def takesValue (s : Switch) : Bool :=
  s.valueName?.isSome

/-- The environment variable that gives the value of a switch the command line leaves out. -/
def envVar? : Switch → Option String
  | buildScripts => some "HYDRANGEA_BUILD_SCRIPTS_DIR"
  | config => some "HYDRANGEA_RELEASE_CONFIG"
  | _ => none

/-- The value of a switch that nothing gives. -/
def default? : Switch → Option String
  | buildScripts => some "."
  | _ => none

/-- The switch of a letter. -/
def ofLetter? (b : UInt8) : Option Switch :=
  all.find? fun s => Bytes.ascii s.letter == b

/-- The switch of a word. -/
def ofWord? (word : Bytes) : Option Switch :=
  all.find? fun s => Bytes.ofText s.word == word

/-- A switch as messages name it, with what it takes. -/
def shown (s : Switch) : String :=
  match s.valueName? with
  | some name => s!"--{s.word} <{name}>"
  | none => s!"--{s.word}"

/-- Whether two switches rule each other out. -/
def excludes : Switch → Switch → Bool
  | verbose, quiet | quiet, verbose => true
  | _, _ => false

theorem excludes_comm (s t : Switch) : s.excludes t = t.excludes s := by
  cases s <;> cases t <;> rfl

end Switch

/-- What a word of the command line can be for. -/
inductive Slot where
  | platform
  | switch (s : Switch)
  deriving DecidableEq, Repr

namespace Slot

/-- The switch of a slot. -/
def switch? : Slot → Option Switch
  | platform => none
  | switch s => some s

end Slot

end DebRelease
