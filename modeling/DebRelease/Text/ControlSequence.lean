namespace DebRelease.ControlSequence

/-- Where a terminal stands that reads a text. -/
inductive State where
  | text
  | escape
  | escaped
  /-- In a control sequence, which ends with a letter or a sign like one. -/
  | control
  /-- In a command of the operating system, which a bell ends. -/
  | command
  /-- In a string, which an escape character ends. -/
  | string
  deriving DecidableEq, Repr

/-- The escape character. -/
def escape : Char := '\x1B'

/-- Whether a character in plain text is shown. -/
def isShown (c : Char) : Bool :=
  (0x20 ≤ c.toNat && c.toNat != 0x7F) || c == '\t' || c == '\n' || c == '\r' || c == '\x0C'

/-- The state after a character that does not belong to plain text. -/
def State.next (s : State) (c : Char) : State :=
  let n := c.toNat
  if c == ControlSequence.escape then .escape
  else if n == 0x18 || n == 0x1A then .text
  else
    match s with
    | .text => .text
    | .escape =>
      if c == '[' then .control
      else if c == ']' then .command
      else if c == 'P' || c == 'X' || c == '^' || c == '_' then .string
      else if 0x20 ≤ n && n < 0x30 then .escaped
      else if 0x30 ≤ n && n < 0x7F then .text
      else .escape
    | .escaped => if 0x30 ≤ n && n < 0x7F then .text else .escaped
    | .control => if 0x40 ≤ n && n < 0x7F then .text else .control
    | .command => if n == 0x07 then .text else .command
    | .string => .string

/-- Whether a character is shown in a state: always in plain text if it can be, and white space that
    moves the cursor also inside a sequence. -/
def State.shows (s : State) (c : Char) : Bool :=
  match s with
  | .text => isShown c
  | .escape | .escaped | .control => isShown c && c.toNat < 0x20
  | .command | .string => false

/-- The characters that are shown from a state on. -/
def shownFrom : State → List Char → List Char
  | _, [] => []
  | s, c :: rest =>
    if s.shows c then c :: shownFrom .text rest else shownFrom (s.next c) rest

/-- A text without control sequences. -/
def strip (s : String) : String :=
  String.ofList (shownFrom .text s.toList)

/-- A text of characters that are shown stays as it is. -/
theorem shownFrom_text_of_all_shown (cs : List Char) (h : ∀ c ∈ cs, isShown c) :
    shownFrom .text cs = cs := by
  induction cs with
  | nil => rfl
  | cons c rest ih =>
    simp only [List.mem_cons, forall_eq_or_imp] at h
    simp [shownFrom, State.shows, h.1, ih h.2]

end DebRelease.ControlSequence
