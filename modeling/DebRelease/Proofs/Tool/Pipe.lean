import DebRelease.Proofs.Run.Verbosity
import DebRelease.Proofs.Text.Lines
import DebRelease.Tool.Launcher

namespace DebRelease

namespace Pipe

open Bytes

variable {p rest : Pipe} {available line bytes left : Bytes} {parts : List Bytes} {fault : Option SystemError}

/-- A pipe brings some bytes before it ends or a read fails. -/
structure Brings (p : Pipe) (bytes : Bytes) (fault : Option SystemError) : Prop where
  content : p.content = bytes
  parts : [] ∉ p.parts
  fault : p.fault = fault

theorem brings_ofParts (hparts : [] ∉ parts) : (ofParts parts).Brings parts.flatten none :=
  ⟨rfl, hparts, rfl⟩

/-- A line is taken whole, whatever parts it comes in. -/
private theorem takeLine_of_line (fault : Option SystemError) (hparts : [] ∉ parts)
    (hcut : cutLine? (available ++ parts.flatten) = some (line, left)) :
    ∃ rest, takeLine fault available parts = (.ok line, rest) ∧ rest.Brings left fault := by
  fun_induction takeLine fault available parts generalizing line with
  | case1 available parts first after hfirst =>
    rw [cutLine?_append_right hfirst] at hcut
    cases hcut
    exact ⟨_, rfl, rfl, hparts, rfl⟩
  | case2 available part parts hnone hempty =>
    rw [List.isEmpty_iff] at hempty
    exact absurd hempty.symm (List.ne_of_not_mem_cons hparts)
  | case3 available part parts hnone hpart taken rest htaken ih =>
    rw [List.flatten_cons, cutLine?_append hnone] at hcut
    obtain ⟨⟨more, after⟩, hmore, heq⟩ := Option.map_eq_some_iff.mp hcut
    cases heq
    obtain ⟨rest', htake, hbrings⟩ := ih (List.not_mem_of_not_mem_cons hparts) hmore
    cases htaken.symm.trans htake
    exact ⟨rest, rfl, hbrings⟩
  | case4 available hnone | case5 available hnone =>
    rw [List.flatten_nil, List.append_nil, hnone] at hcut
    cases hcut

/-- Without a line feed all is taken, unless a read fails. -/
private theorem takeLine_of_last (fault : Option SystemError) (hparts : [] ∉ parts)
    (hcut : cutLine? (available ++ parts.flatten) = none) :
    takeLine fault available parts =
      fault.elim (.ok (available ++ parts.flatten), drained) fun e => (.error e, ⟨[], [], some e⟩) := by
  fun_induction takeLine fault available parts with
  | case1 available parts first after hfirst =>
    rw [cutLine?_append_right hfirst] at hcut
    cases hcut
  | case2 available part parts hnone hempty =>
    rw [List.isEmpty_iff] at hempty
    exact absurd hempty.symm (List.ne_of_not_mem_cons hparts)
  | case3 available part parts hnone hpart taken rest htaken ih =>
    rw [List.flatten_cons, cutLine?_append hnone, Option.map_eq_none_iff] at hcut
    have htake := ih (List.not_mem_of_not_mem_cons hparts) hcut
    rw [htaken] at htake
    cases fault with
    | some e =>
      cases htake
      rfl
    | none =>
      cases htake
      rfl
  | case4 available hnone e hfault =>
    rw [hfault]
    rfl
  | case5 available hnone hfault =>
    rw [hfault, List.flatten_nil, List.append_nil]
    rfl

theorem readLine_of_line (hp : p.Brings (line ++ lineFeed :: left) fault) (hline : lineFeed ∉ line) :
    ∃ rest, p.readLine = (.ok (line ++ [lineFeed]), rest) ∧ rest.Brings left fault := by
  have hcut : cutLine? (p.buffered ++ p.parts.flatten) = some (line ++ [lineFeed], left) := by
    rw [show p.buffered ++ p.parts.flatten = line ++ lineFeed :: left from hp.content,
      cutLine?_append (cutLine?_eq_none_iff.mpr hline), cutLine?, if_pos (beq_self_eq_true lineFeed), Option.map_some]
  rw [readLine, hp.fault]
  exact takeLine_of_line fault hp.parts hcut

theorem readLine_of_last (hp : p.Brings bytes fault) (hlast : lineFeed ∉ bytes) :
    p.readLine = fault.elim (.ok bytes, drained) fun e => (.error e, ⟨[], [], some e⟩) := by
  have hcontent : p.buffered ++ p.parts.flatten = bytes := hp.content
  rw [readLine, hp.fault, ← hcontent]
  apply takeLine_of_last fault hp.parts
  rw [hcontent]
  exact cutLine?_eq_none_iff.mpr hlast

theorem forwardLines_of_error {e : SystemError} (hread : p.readLine = (.error e, rest)) :
    p.forwardLines = ([], rest) := by
  rw [forwardLines_eq, hread]

theorem forwardLines_of_end (hread : p.readLine = (.ok [], rest)) : p.forwardLines = ([], rest) := by
  rw [forwardLines_eq, hread]

theorem forwardLines_of_ok (hread : p.readLine = (.ok line, rest)) (hne : line ≠ []) :
    p.forwardLines = (dropLineEnds line.lossy :: rest.forwardLines.1, rest.forwardLines.2) := by
  obtain ⟨b, line, rfl⟩ := List.exists_cons_of_ne_nil hne
  rw [forwardLines_eq, hread]

/-- A line is shown, and reading goes on behind it. -/
theorem forwardLines_of_line (hp : p.Brings (line ++ lineFeed :: left) fault) (hline : lineFeed ∉ line) :
    ∃ rest : Pipe, rest.Brings left fault ∧
      p.forwardLines = (dropLineEnds (lossy (line ++ [lineFeed])) :: rest.forwardLines.1, rest.forwardLines.2) := by
  obtain ⟨rest, hread, hbrings⟩ := readLine_of_line hp hline
  exact ⟨rest, hbrings, forwardLines_of_ok hread (by simp)⟩

theorem forwardLines_drained : drained.forwardLines = ([], drained) :=
  forwardLines_of_end rfl

/-- All of the output is taken, and each of its lines is shown once, in order. -/
theorem forwardLines_of_brings (hp : p.Brings bytes none) :
    p.forwardLines = ((cutAfter lineFeed bytes).map (dropLineEnds ∘ lossy), drained) := by
  induction bytes using line_induction lineFeed generalizing p with
  | last line hline =>
    have hread := readLine_of_last hp hline
    by_cases hne : line = []
    · subst hne
      exact forwardLines_of_end hread
    · rw [forwardLines_of_ok hread hne, forwardLines_drained, cutAfter_of_not_mem hline hne]
      rfl
  | line line left hline ih =>
    obtain ⟨rest, hbrings, hshown⟩ := forwardLines_of_line hp hline
    rw [hshown, ih hbrings, cutAfter_append hline]
    rfl

/-- Where a read fails, what follows the last line feed is not shown. -/
theorem forwardLines_of_fault {e : SystemError} (hp : p.Brings bytes (some e)) :
    p.forwardLines =
      (((cutAfter lineFeed bytes).filter (lineFeed ∈ ·)).map (dropLineEnds ∘ lossy),
        ⟨[], [], some e⟩) := by
  induction bytes using line_induction lineFeed generalizing p with
  | last line hline =>
    rw [forwardLines_of_error (readLine_of_last hp hline)]
    by_cases hne : line = []
    · rw [hne]
      rfl
    · rw [cutAfter_of_not_mem hline hne, List.filter_singleton]
      simp [hline]
  | line line left hline ih =>
    obtain ⟨rest, hbrings, hshown⟩ := forwardLines_of_line hp hline
    rw [hshown, ih hbrings, cutAfter_append hline, List.filter_cons_of_pos (by simp)]
    rfl

/-- However output arrives, reading it takes all of it and shows, each once and in order, the lines of the text that
    it is when decoded at once, without their line ends. Decoding the lines one by one makes no difference. -/
theorem forwardLines_lossy (parts : List Bytes) (hparts : [] ∉ parts) :
    (ofParts parts).forwardLines = ((linesOf (lossy parts.flatten)).map dropLineEnds, drained) ∧
      (cutAfter lineFeed parts.flatten).map lossy = linesOf (lossy parts.flatten) := by
  refine ⟨?_, map_lossy_cutAfter _⟩
  rw [forwardLines_of_brings (brings_ofParts hparts), ← map_lossy_cutAfter, List.map_map]

/-- Output in four parts, some of which end inside a character or a line end. -/
def tornOutput : List Bytes :=
  [[0x61, 0xC3], [0xA9, 0xE2, 0x82, 0x0A, 0x0A], [0x62, 0x0D], [0x0D, 0x0A, 0xFF]]

/-- A character that is cut in two by parts is whole, one that a line feed cuts short is replaced, and the last line
    needs no line feed. -/
theorem forwardLines_lossy_torn :
    [] ∉ tornOutput ∧ (ofParts tornOutput).forwardLines = (["aé\uFFFD", "", "b", "\uFFFD"], drained) := by
  have hparts : [] ∉ tornOutput := by decide
  exact ⟨hparts, (forwardLines_lossy tornOutput hparts).1.trans (by decide)⟩

end Pipe

namespace Launcher

/-- Of a program that is launched both ways the one shows, line by line, what the other keeps; what it writes to
    standard error is shown in the same way. -/
theorem run_shows_captured (h : Host) (console : Console) (command : ToolCommand) (tree : FileTree) (memory : Unit)
    {captured : Captured} (hcapture : (capture h console command tree memory).outcome = .ok captured) :
    (run h console command tree memory).outcome = .ok captured.status ∧
      (run h console command tree memory).tree = (capture h console command tree memory).tree ∧
      ∃ announced announced' reported,
        (capture h console command tree memory).writes = announced' ++ [⟨.err, reported⟩] ∧
        (run h console command tree memory).writes = announced ++
          (((Bytes.linesOf captured.stdout).map Bytes.dropLineEnds).flatMap (console.indented .out) ++
            ((Bytes.linesOf reported).map Bytes.dropLineEnds).flatMap (console.indented .err)) := by
  have hforward (stream : Stream) (bytes : Bytes) : forward console stream bytes =
      ((Bytes.linesOf bytes.lossy).map Bytes.dropLineEnds).flatMap (console.indented stream) := by
    have hparts : [] ∉ Chunking.full.parts bytes := fun hmem => (Chunking.full.bounded bytes [] hmem).1 rfl
    rw [forward, Pipe.forwardLines_of_brings (Pipe.brings_ofParts hparts), Chunking.full.flatten_parts,
      ← Bytes.map_lossy_cutAfter, List.map_map]
  obtain ⟨outcome, announced, announced', hrun, hlaunch⟩ :=
    launch_alike { h with tree } "Running" "Capturing" command console console
  rw [capture, hlaunch] at hcapture ⊢
  rw [run, hrun]
  cases outcome with
  | error e => cases hcapture
  | ok e =>
    cases hcapture
    refine ⟨rfl, rfl, announced, announced', e.stderr.lossy, rfl, ?_⟩
    rw [← hforward, ← hforward]

end Launcher

end DebRelease
