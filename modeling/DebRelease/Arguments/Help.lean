import DebRelease.Arguments.Basic
import DebRelease.Text.Markup

namespace DebRelease

/-- The name of the program. -/
def programName : String := "hydrangea_bundler_deb"

/-- The version of the program. -/
def programVersion : String := "0.1.0"

/-- What the program does, in one line. -/
def programSummary : String := "Builds the Hydrangea Linux .deb installer"

/-- What the program does, at length. -/
def programDescription : String :=
  "\n".intercalate
    ["Builds the Hydrangea blockchain Linux .deb installer.", "",
      "Freezes the Python daemon, builds the GUI, packages the desktop app and wraps it",
      "in a Debian package. Run from the build_scripts directory of a release checkout",
      "(or pass --build-scripts-dir).", "", "Usage:", s!"  {programName} amd64",
      s!"  HYDRANGEA_INSTALLER_VERSION=1.2.3 {programName} arm64", "",
      "The installer is written to final_installer/."]

namespace Switch

/-- The word of a switch and what it takes. -/
def label (s : Switch) : Markup :=
  .literal s!"--{s.word}" ++
    match s.valueName? with
    | some name => .text s!" <{name}>"
    | none => []

/-- The letter and the word of a switch and what it takes. -/
def fullLabel (s : Switch) : Markup :=
  .literal s!"-{s.letter}" ++ .text ", " ++ s.label

/-- What a switch is for. -/
def summary (long : Bool) : Switch → String
  | buildScripts => "Directory every relative path is resolved against"
  | config => "TOML file overriding paths, tool names, product metadata and version source"
  | verbose => "Show detailed output"
  | quiet => "Only print errors"
  | help => if long then "Print help (see a summary with '-h')" else
      "Print help (see more with '--help')"
  | version => "Print version"

/-- Where the value of a switch comes from if the command line leaves it out. -/
def notes (env : String → Option Bytes) (s : Switch) : List String :=
  let fromVariable := s.envVar?.toList.map fun name =>
    let value := ((env name).map Bytes.lossy).getD ""
    s!"[env: {name}={value}]"
  fromVariable ++ s.default?.toList.map fun value => s!"[default: {value}]"

end Switch

namespace Usage

/-- The platform on the usage line, if it may be left out or not. -/
def platform (needed : Bool) : Markup :=
  .text (if needed then "<PLATFORM>" else "[PLATFORM]")

/-- The usage line, which shows the slots that are used; if none is, it stands for all. -/
def line (used : List Slot) : Markup :=
  let switches := (used.filterMap Slot.switch?).eraseDups
  let parts :=
    if used.isEmpty then [.text "[OPTIONS]", platform false]
    else switches.map Switch.label ++ [platform (used.contains .platform)]
  .heading "Usage:" ++ .text " " ++
    .joinWith (.text " ") (.literal programName :: parts)

end Usage

/-- A text whose further lines begin in the given column. -/
def hanging (column : Nat) (s : String) : String :=
  s.replace "\n" ("\n" ++ String.ofList (List.replicate column ' '))

/-- The first column of the explanations in the help at length. -/
def explanationColumn : Nat := 10

namespace Help

/-- An entry of the help: a label, what it is for, and notes. -/
structure Item where
  label : Markup
  summary : String
  notes : List String

/-- The entry of the platform. -/
def platform : Item :=
  ⟨Usage.platform false, "Target platform: amd64 or arm64", []⟩

/-- The entry of a switch. -/
def ofSwitch (env : String → Option Bytes) (long : Bool) (s : Switch) : Item :=
  ⟨s.fullLabel, s.summary long, s.notes env⟩

/-- An entry on one line, its explanation after labels of the given width. -/
def Item.short (width : Nat) (item : Item) : Markup :=
  let gap := String.ofList (List.replicate (width - item.label.content.length + 2) ' ')
  let words := hanging (width + 4) (" ".intercalate (item.summary :: item.notes))
  .text "  " ++ item.label ++ .text (gap ++ words)

/-- An entry with its explanation on lines of its own. -/
def Item.long (item : Item) : Markup :=
  let notes := if item.notes.isEmpty then "" else "\n\n" ++ "\n".intercalate item.notes
  .text "  " ++ item.label ++ .text (hanging explanationColumn ("\n" ++ item.summary ++ notes))

/-- A section of the help. -/
def part (long : Bool) (title : String) (items : List Item) : Markup :=
  let width := (items.map (·.label.content.length)).foldl max 0
  let entries := if long then items.map Item.long else items.map (Item.short width)
  .heading title ++ .text "\n" ++ .joinWith (.text (if long then "\n\n" else "\n")) entries

/-- The help. -/
def all (env : String → Option Bytes) (long : Bool) : Markup :=
  let about := if long then programDescription else programSummary
  let parts :=
    [.text about, Usage.line [], part long "Arguments:" [platform],
      part long "Options:" (Switch.all.map (ofSwitch env long))]
  .joinWith (.text "\n\n") parts ++ .text "\n"

end Help

namespace ArgumentError

/-- What is wrong. -/
def reason : ArgumentError → Markup
  | unknown shown _ _ _ =>
    .text "unexpected argument " ++ .quoted .invalid shown ++ .text " found"
  | missingValue s =>
    .text "a value is required for " ++ .quoted .literal s.shown ++
      .text " but none was supplied"
  | unexpectedValue s value _ =>
    .text "unexpected value " ++ .quoted .invalid value ++ .text " for " ++
      .quoted .literal s.shown ++ .text " found; no more were expected"
  | repeated s =>
    .text "the argument " ++ .quoted .invalid s.shown ++
      .text " cannot be used multiple times"
  | excluded first second _ =>
    .text "the argument " ++ .quoted .invalid first.shown ++ .text " cannot be used with " ++
      .quoted .invalid second.shown
  | notText => .text "invalid UTF-8 was detected in one or more arguments"

/-- What could be done about it. -/
def tips : ArgumentError → List Markup
  | unknown shown isValue similar _ =>
    let like := similar.toList.map fun s =>
      Markup.text "a similar argument exists: " ++ .quoted .valid s!"--{s.word}"
    let value :=
      Markup.text "to pass " ++ .quoted .invalid shown ++ .text " as a value, use " ++
        .quoted .valid s!"-- {shown}"
    like ++ if isValue then [value] else []
  | _ => []

/-- The slots that the usage line of an error shows, unless it has no such line. -/
def used? : ArgumentError → Option (List Slot)
  | unknown _ _ _ used | unexpectedValue _ _ used | excluded _ _ used => some used
  | repeated _ | notText => some []
  | missingValue _ => none

/-- The message of an error. -/
def render (e : ArgumentError) : Markup :=
  let tips := (e.tips.map fun m => Markup.text "\n  " ++ .valid "tip:" ++ .text " " ++ m).flatten
  let usage := e.used?.elim [] fun used => Markup.text "\n\n" ++ Usage.line used
  .alert "error:" ++ .text " " ++ e.reason ++
    (if tips.isEmpty then [] else Markup.text "\n" ++ tips) ++ usage ++
    .text "\n\nFor more information, try " ++ .quoted .literal "--help" ++ .text ".\n"

end ArgumentError

/-- What the program says when it has nothing to run. -/
def ArgumentStop.render (env : String → Option Bytes) : ArgumentStop → Markup
  | help long => Help.all env long
  | version => .text s!"{programName} {programVersion}\n"
  | error cause => cause.render

end DebRelease
