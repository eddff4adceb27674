namespace DebRelease

/-- A stream of the terminal. -/
inductive Stream where
  | out
  | err
  deriving DecidableEq, Repr

/-- A text written to a stream. -/
structure Write where
  stream : Stream
  text : String
  deriving DecidableEq, Repr

/-- All that was written to a stream. -/
def Write.gather (stream : Stream) (writes : List Write) : String :=
  String.join ((writes.filter (·.stream == stream)).map (·.text))

/-- A style of text, named by the codes that turn it on. -/
structure Style where
  codes : String
  deriving DecidableEq, Repr

namespace Style

/-- Less prominent. -/
def dimmed : Style := ⟨"2"⟩
/-- More prominent. -/
def bold : Style := ⟨"1"⟩
/-- Bold and underlined. -/
def heading : Style := ⟨"1;4"⟩
/-- Bold green. -/
def green : Style := ⟨"1;32"⟩
/-- Bold yellow. -/
def yellow : Style := ⟨"1;33"⟩
/-- Bold red. -/
def red : Style := ⟨"1;31"⟩
/-- Bold cyan. -/
def cyan : Style := ⟨"1;36"⟩

/-- The sequence that ends every style. -/
def reset : String := "\x1B[0m"

/-- A text in a style. Where the text itself ends every style, the style begins again. -/
def paint (style : Style) (text : String) : String :=
  let start := s!"\x1B[{style.codes}m"
  start ++ text.replace reset (reset ++ start) ++ reset

end Style

/-- How much is shown, and whether in colour. -/
structure Console where
  verbose : Bool
  quiet : Bool
  color : Bool
  deriving DecidableEq, Repr

namespace Console

/-- A console with the given wishes; being quiet wins over showing details. -/
def ofFlags (verbose quiet color : Bool) : Console :=
  ⟨verbose && !quiet, quiet, color⟩

/-- A text in a style, if the console has colours. -/
def styled (c : Console) (style : Style) (text : String) : String :=
  if c.color then style.paint text else text

/-- A line on a stream. -/
def line (stream : Stream) (text : String) : List Write :=
  [⟨stream, text ++ "\n"⟩]

/-- A line that begins with a label in a style. -/
def labelled (c : Console) (stream : Stream) (style : Style) (label text : String) : List Write :=
  line stream (c.styled style label ++ " " ++ text)

/-- Writes unless the console is quiet. -/
def unlessQuiet (c : Console) (writes : List Write) : List Write :=
  if c.quiet then [] else writes

/-- A detail. -/
def detail (c : Console) (text : String) : List Write :=
  if c.verbose then line .out (c.styled .dimmed text) else []

/-- A piece of information. -/
def info (c : Console) (text : String) : List Write :=
  c.unlessQuiet (line .out text)

/-- A warning. -/
def warning (c : Console) (text : String) : List Write :=
  c.unlessQuiet (c.labelled .err .yellow "warning:" text)

/-- An error, which is always shown. -/
def error (c : Console) (text : String) : List Write :=
  c.labelled .err .red "error:" text

/-- A success. -/
def success (c : Console) (text : String) : List Write :=
  c.unlessQuiet (c.labelled .out .green "✓" text)

/-- The start of a stage. -/
def progress (c : Console) (text : String) : List Write :=
  c.unlessQuiet (c.labelled .out .cyan "==>" (c.styled .bold text))

/-- The start of a run, after an empty line. -/
def heading (c : Console) (text : String) : List Write :=
  c.unlessQuiet (line .out "" ++ line .out (c.styled .heading text))

/-- An indented line. -/
def indented (c : Console) (stream : Stream) (text : String) : List Write :=
  c.unlessQuiet (line stream s!"    {text}")

end Console

end DebRelease
