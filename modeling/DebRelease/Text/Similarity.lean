namespace DebRelease.Similarity

/-- A fraction. -/
structure Score where
  num : Nat
  den : Nat
  deriving DecidableEq, Repr

/-- Whether a score exceeds another. -/
def Score.exceeds (a b : Score) : Bool :=
  b.num * a.den < a.num * b.den

/-- Marks the first letter `c` that is not marked yet at a position from `low` to below `high`.
    The list begins at position `here`. -/
def mark (c : Char) (low high : Nat) : Nat → List (Char × Bool) → Option (List (Char × Bool))
  | _, [] => none
  | here, (d, marked) :: rest =>
    if low ≤ here && here < high && d == c && !marked then some ((d, true) :: rest)
    else (mark c low high (here + 1) rest).map ((d, marked) :: ·)

/-- The letters of a word, the first of which has position `here`, that occur in the other word at
    most `window` positions away, each letter of that one used once; and what was used. -/
def shared (window : Nat) : Nat → List Char → List (Char × Bool) → List Char × List (Char × Bool)
  | _, [], other => ([], other)
  | here, c :: rest, other =>
    match mark c (here - window) (here + window + 1) 0 other with
    | none => shared window (here + 1) rest other
    | some other =>
      let (letters, other) := shared window (here + 1) rest other
      (c :: letters, other)

/-- The score of two words: the mean of the shares that the common letters have in either word and
    of the share of them that keeps its order, two exchanged letters counting once. -/
def score (a b : String) : Score :=
  let xs := a.toList
  let ys := b.toList
  if xs.isEmpty && ys.isEmpty then ⟨1, 1⟩
  else
    let window := max xs.length ys.length / 2 - 1
    let (left, used) := shared window 0 xs (ys.map fun c => (c, false))
    let right := (used.filter (·.2)).map (·.1)
    let common := left.length
    if common = 0 then ⟨0, 1⟩
    else
      let exchanged := ((left.zip right).countP fun (x, y) => x != y) / 2
      let (m, k, l) := (common, xs.length, ys.length)
      ⟨m * m * l + m * m * k + (m - exchanged) * k * l, 3 * k * l * m⟩

/-- The least score that makes words alike is just above this one. -/
def threshold : Score := ⟨7, 10⟩

/-- The candidate most like a word, among those that are alike; the last of several equals. -/
def closest? (word : String) (candidates : List (String × α)) : Option α :=
  let step (best : Score × Option α) (candidate : String × α) :=
    let next := score word candidate.1
    if next.exceeds threshold && !best.1.exceeds next then (next, some candidate.2) else best
  (candidates.foldl step (⟨0, 1⟩, none)).2

end DebRelease.Similarity
