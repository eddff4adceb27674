import DebRelease.Arguments.Basic
import DebRelease.Text.Similarity

namespace DebRelease

/-- How far a command line has been read. -/
structure Reading where
  /-- The slots that have been given, in order, with their values. -/
  given : List (Slot × Bytes)
  /-- The slot that was begun last, with its value unless it still waits for one. -/
  pending : Option (Slot × Option Bytes)
  deriving DecidableEq, Repr

namespace Reading

/-- Nothing has been read. -/
def start : Reading := ⟨[], none⟩

/-- The slots that have been given. -/
def slots (r : Reading) : List Slot :=
  r.given.map (·.1)

/-- Whether a slot has been given. -/
def has (r : Reading) (slot : Slot) : Bool :=
  r.slots.contains slot

/-- The value of a slot. -/
def value? (r : Reading) (slot : Slot) : Option Bytes :=
  r.given.lookup slot

/-- What is wrong with a value by itself: a platform is text, and the value of a switch is not
    empty. -/
def fault? : Slot → Bytes → Option ArgumentError
  | .platform, value => if value.text?.isNone then some .notText else none
  | .switch s, value => if s.takesValue && value.isEmpty then some (.missingValue s) else none

/-- Takes in the value of a slot. A refused value counts as given, a repetition takes back what was
    given before. -/
def take (r : Reading) (slot : Slot) (value : Bytes) : Reading × Option ArgumentError :=
  match slot, r.has slot with
  | .switch s, true =>
    ({ r with given := r.given.filter (·.1 != slot) }, some (.repeated s))
  | _, _ => ({ r with given := r.given ++ [(slot, value)] }, fault? slot value)

/-- Takes in the slot that was begun last. -/
def settle (r : Reading) : Reading × Option ArgumentError :=
  match r.pending with
  | none => (r, none)
  | some (.platform, none) => ({ r with pending := none }, none)
  | some (.switch s, none) => ({ r with pending := none }, some (.missingValue s))
  | some (slot, some value) => take { r with pending := none } slot value

/-- A reading, unless something is wrong. -/
def check : Reading × Option ArgumentError → Except ArgumentStop Reading
  | (r, none) => .ok r
  | (_, some e) => .error (.error e)

/-- Takes in the slot that was begun last and then another with its value. -/
def give (r : Reading) (slot : Slot) (value : Bytes) : Except ArgumentStop Reading := do
  let r ← check r.settle
  check (r.take slot value)

/-- Takes in the slot that was begun last and begins another. -/
def begin (r : Reading) (slot : Slot) (value : Option Bytes) : Except ArgumentStop Reading := do
  let r ← check r.settle
  pure { r with pending := some (slot, value) }

/-- Takes in a switch that has no value. The help is long if its word asks for it. -/
def raise (r : Reading) (long : Bool) (s : Switch) : Except ArgumentStop Reading := do
  let r ← check r.settle
  match s with
  | .help => throw (.help long)
  | .version => throw .version
  | s => check (r.take (.switch s) [])

/-- The byte `-`. -/
def dash : UInt8 := 0x2D

/-- The byte `=`. -/
def equals : UInt8 := 0x3D

/-- The error of a switch word without meaning. -/
def unknownWord (r : Reading) (word : Bytes) : ArgumentError :=
  let similar := Similarity.closest? word.lossy (Switch.all.map fun s => (s.word, s))
  let used := r.settle.1.slots ++ similar.toList.map Slot.switch
  .unknown ("--" ++ word.lossy) similar.isNone similar used

/-- The error of a switch letter without meaning: it shows the character, or all that is left if no
    character is there. -/
def unknownLetter (rest : Bytes) : ArgumentError :=
  let shown := match Utf8.firstFrom .start rest with
    | some c => String.singleton c
    | none => rest.lossy
  .unknown ("-" ++ shown) true none []

/-- Reads a switch word after its dashes, possibly with a value after a `=`. -/
def readWord (r : Reading) (body : Bytes) : Except ArgumentStop Reading :=
  let word := body.takeWhile (· != equals)
  let value? : Option Bytes := (body.dropWhile (· != equals)).tail?
  match Switch.ofWord? word with
  | none => throw (.error (r.unknownWord word))
  | some s =>
    match s.takesValue, value? with
    | true, some value => r.give (.switch s) value
    | true, none => r.begin (.switch s) none
    | false, some value =>
      throw (.error (.unexpectedValue s value.lossy (r.slots ++ [.switch s])))
    | false, none => r.raise true s

/-- Reads switch letters after their dash. A switch that takes a value takes the rest, possibly
    after a `=`, or else the next word. -/
def readLetters : Bytes → Reading → Except ArgumentStop Reading
  | [], r => pure r
  | b :: rest, r =>
    match Switch.ofLetter? b with
    | none => throw (.error (unknownLetter (b :: rest)))
    | some s =>
      if s.takesValue then
        match rest with
        | [] => r.begin (.switch s) none
        | c :: value => r.give (.switch s) (if c = equals then value else rest)
      else do
        let r ← r.raise false s
        readLetters rest r

/-- Whether the platform has been read. -/
def hasPlatform (r : Reading) : Bool :=
  r.has .platform || r.pending.any (·.1 = .platform)

/-- Reads a word that has no switch. -/
def readPlain (r : Reading) (word : Bytes) : Except ArgumentStop Reading :=
  if r.hasPlatform then throw (.error (.unknown word.lossy false none []))
  else r.begin .platform (some word)

/-- Reads a word that may be a switch, or the value of the switch before it. -/
def read (r : Reading) (word : Bytes) : Except ArgumentStop Reading :=
  match word with
  | b :: c :: rest =>
    if b = dash then
      if c = dash then r.readWord rest else readLetters (c :: rest) r
    else readValue
  | _ => readValue
where
  readValue : Except ArgumentStop Reading :=
    match r.pending with
    | some (slot, none) => pure { r with pending := some (slot, some word) }
    | _ => r.readPlain word

/-- Reads words. After `--` none of them is a switch. -/
def readAll : Bool → List Bytes → Reading → Except ArgumentStop Reading
  | _, [], r => pure r
  | plain, word :: rest, r => do
    if plain then readAll true rest (← r.readPlain word)
    else if word = [dash, dash] then readAll true rest r
    else readAll false rest (← r.read word)

/-- Takes in the value of a switch from the environment unless the switch has been given. -/
def fromEnvironment (env : String → Option Bytes) (r : Reading) (s : Switch) :
    Except ArgumentStop Reading :=
  match r.has (.switch s), s.envVar?.bind env with
  | false, some value => check (r.take (.switch s) value)
  | _, _ => pure r

/-- The first switch that another one rules out, and that one. -/
def exclusion? (r : Reading) : Option (Switch × Switch) :=
  let switches := r.slots.filterMap Slot.switch?
  switches.findSome? fun s => (switches.find? s.excludes).map fun t => (s, t)

/-- The arguments that have been read. -/
def arguments (r : Reading) : Arguments where
  platform := (r.value? .platform).bind Bytes.text?
  buildScripts :=
    match r.value? (.switch .buildScripts) with
    | some value => ⟨value⟩
    | none => (Switch.default? .buildScripts).elim .empty Path.ofText
  releaseFile := (r.value? (.switch .config)).map Path.mk
  verbose := r.has (.switch .verbose)
  quiet := r.has (.switch .quiet)

end Reading

/-- Reads a command line in an environment. -/
def Arguments.parse (env : String → Option Bytes) (words : List Bytes) :
    Except ArgumentStop Arguments := do
  let r ← Reading.readAll false words .start
  let r ← Reading.check r.settle
  let r ← Switch.all.foldlM (Reading.fromEnvironment env) r
  match r.exclusion? with
  | some (s, t) => throw (.error (.excluded s t (r.slots.filter (· != .switch t))))
  | none => pure r.arguments

end DebRelease
