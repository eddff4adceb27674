import DebRelease.Text.ControlSequence

namespace DebRelease

/-- What a part of a text is there for. -/
inductive Role where
  | plain
  | alert
  | heading
  | literal
  | valid
  | invalid
  deriving DecidableEq, Repr

/-- The sequence that begins the style of a role. -/
def Role.style : Role → String
  | .plain => ""
  | .alert => "\x1B[1m\x1B[31m"
  | .heading => "\x1B[1m\x1B[4m"
  | .literal => "\x1B[1m"
  | .valid => "\x1B[32m"
  | .invalid => "\x1B[33m"

/-- A text in parts. -/
abbrev Markup := List (Role × String)

namespace Markup

/-- A text that is just text. -/
def text (s : String) : Markup := [(.plain, s)]

/-- A text that is typed as it stands. -/
def literal (s : String) : Markup := [(.literal, s)]

/-- A text that heads a section. -/
def heading (s : String) : Markup := [(.heading, s)]

/-- A text that heads an error message. -/
def alert (s : String) : Markup := [(.alert, s)]

/-- A text that is right. -/
def valid (s : String) : Markup := [(.valid, s)]

/-- A text in quotes that has a role. -/
def quoted (role : Role) (s : String) : Markup :=
  [(.plain, "'"), (role, s), (.plain, "'")]

/-- The characters of all parts. -/
def content (m : Markup) : String :=
  String.join (m.map (·.2))

/-- The text without styles, and without control sequences that its parts may contain. -/
def toPlain (m : Markup) : String :=
  ControlSequence.strip m.content

/-- The text with a style for each part that has one. -/
def toStyled (m : Markup) : String :=
  String.join <| m.map fun (role, s) =>
    if role.style.isEmpty then s else role.style ++ s ++ "\x1B[0m"

/-- Texts with a separator between them. -/
def joinWith (separator : Markup) : List Markup → Markup
  | [] => []
  | [m] => m
  | m :: next :: rest => m ++ separator ++ joinWith separator (next :: rest)

/-- The content of texts put together is that of the parts put together. -/
theorem content_append (m n : Markup) : content (m ++ n) = content m ++ content n := by
  simp [content, String.join_append]

end Markup

end DebRelease
