import DebRelease.Errno
import DebRelease.Text.Lines

namespace DebRelease

/-- Output on its way from a tool to its reader. -/
structure Pipe where
  /-- What has been read and not yet taken. -/
  buffered : Bytes
  /-- What the next reads give. A read that gives nothing is the end of the output. -/
  parts : List Bytes
  /-- How the read after these fails, unless it is the end of the output. -/
  fault : Option SystemError
  deriving DecidableEq, Repr

namespace Pipe

/-- Output of which nothing has been read and no read fails. -/
def ofParts (parts : List Bytes) : Pipe :=
  ⟨[], parts, none⟩

/-- Output of which nothing is left. -/
def drained : Pipe :=
  ofParts []

/-- All that has not yet been taken. -/
def content (p : Pipe) : Bytes :=
  p.buffered ++ p.parts.flatten

/-- Takes bytes up to and including the next line feed, reading on where there is none; at the end of
    the output, takes what is left. What was taken when a read fails is lost. -/
def takeLine (fault : Option SystemError) (available : Bytes) (parts : List Bytes) :
    Except SystemError Bytes × Pipe :=
  match available.cutLine?, parts with
  | some (line, rest), parts => (.ok line, ⟨rest, parts, fault⟩)
  | none, part :: parts =>
    if part.isEmpty then (.ok available, ⟨[], parts, fault⟩)
    else
      let (line, rest) := takeLine fault part parts
      (line.map (available ++ ·), rest)
  | none, [] =>
    match fault with
    | some e => (.error e, ⟨[], [], some e⟩)
    | none => (.ok available, drained)

/-- Takes the next line, its line feed included. -/
def readLine (p : Pipe) : Except SystemError Bytes × Pipe :=
  takeLine p.fault p.buffered p.parts

/-- What is taken goes, and nothing else. -/
theorem content_takeLine {fault : Option SystemError} {available line : Bytes} {parts : List Bytes}
    {rest : Pipe} (h : takeLine fault available parts = (.ok line, rest)) :
    available ++ parts.flatten = line ++ rest.content := by
  fun_induction takeLine fault available parts generalizing line with
  | case1 available parts taken left hcut =>
    cases h
    rw [content, ← List.append_assoc, Bytes.append_of_cutLine? hcut]
  | case2 available hcut part parts hempty =>
    cases h
    rw [List.flatten_cons, List.isEmpty_iff.mp hempty]
    rfl
  | case3 available hcut part parts hempty next left hnext ih =>
    cases next with
    | error e => cases h
    | ok next =>
      cases h
      rw [List.append_assoc, ← ih hnext, List.flatten_cons]
  | case4 | case5 => cases h <;> rfl

/-- Taking something leaves less. -/
theorem length_content_lt {p rest : Pipe} {b : UInt8} {line : Bytes}
    (h : p.readLine = (.ok (b :: line), rest)) : rest.content.length < p.content.length := by
  have hcontent : p.content = b :: line ++ rest.content := content_takeLine h
  rw [hcontent, List.length_append, List.length_cons]
  omega

/-- Takes line after line until there are no more, or a read fails. A line is decoded on its own and
    loses the line ends after it. What is left of the output is given back. -/
def forwardLines (p : Pipe) : List String × Pipe :=
  match _h : p.readLine with
  | (.error _, rest) => ([], rest)
  | (.ok [], rest) => ([], rest)
  | (.ok (b :: line), rest) =>
    let (lines, last) := rest.forwardLines
    (Bytes.dropLineEnds (Bytes.lossy (b :: line)) :: lines, last)
termination_by p.content.length
decreasing_by exact length_content_lt _h

theorem forwardLines_eq (p : Pipe) :
    p.forwardLines =
      match p.readLine with
      | (.error _, rest) => ([], rest)
      | (.ok [], rest) => ([], rest)
      | (.ok (b :: line), rest) =>
        (Bytes.dropLineEnds (Bytes.lossy (b :: line)) :: rest.forwardLines.1, rest.forwardLines.2) := by
  rw [forwardLines]
  split
  all_goals
    rename_i hread
    rw [hread]

end Pipe

end DebRelease
