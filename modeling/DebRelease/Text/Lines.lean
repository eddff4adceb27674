import DebRelease.Text.Utf8

namespace DebRelease.Bytes

/-- A byte string cut after its first line feed, if it has one. -/
def cutLine? : Bytes → Option (Bytes × Bytes)
  | [] => none
  | b :: rest =>
    if b == lineFeed then some ([b], rest)
    else (cutLine? rest).map fun (line, rest) => (b :: line, rest)

theorem append_of_cutLine? {bytes line rest : Bytes} (h : cutLine? bytes = some (line, rest)) :
    line ++ rest = bytes := by
  induction bytes generalizing line with
  | nil => cases h
  | cons b bytes ih =>
    rw [cutLine?] at h
    split at h
    · cases h
      rfl
    · obtain ⟨⟨line', rest'⟩, hcut, heq⟩ := Option.map_eq_some_iff.mp h
      cases heq
      rw [List.cons_append, ih hcut]

/-- Whether a character ends lines. -/
def isLineEnd (c : Char) : Bool :=
  c == '\r' || c == '\n'

/-- A text without the carriage returns and line feeds at its end. -/
def dropLineEnds (s : String) : String :=
  String.ofList (s.toList.reverse.dropWhile isLineEnd).reverse

end DebRelease.Bytes
