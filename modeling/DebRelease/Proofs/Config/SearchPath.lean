import DebRelease.Proofs.Config.Built
import DebRelease.Proofs.Path.Lexical
import DebRelease.Proofs.Run.Calls

namespace DebRelease

namespace SearchPath

variable {dir : Path}

/-- A directory and after it the directories of a search path, if there is one. -/
def leadBy (dir : Path) (base : Option Bytes) : Bytes :=
  dir.bytes ++ base.elim [] (colon :: ·)

/-- A directory can lead a search path unless its own path would fall apart. -/
theorem join?_leadBy (dir : Path) (base : Option Bytes) :
    join? (dir :: (base.map split).getD []) = if colon ∈ dir.bytes then none else some (leadBy dir base) := by
  have hrest : ∀ other ∈ (base.map split).getD [], colon ∉ other.bytes := by
    intro other hmem
    cases base with
    | none => cases hmem
    | some base =>
      obtain ⟨part, hpart, rfl⟩ := List.mem_map.mp hmem
      exact Bytes.not_mem_of_mem_splitOn hpart
  have hjoined : Bytes.joinWith colon ((dir :: (base.map split).getD []).map Path.bytes) = leadBy dir base := by
    cases base with
    | none => exact (List.append_nil _).symm
    | some base =>
      have hparts : (split base).map Path.bytes = Bytes.splitOn colon base := by
        rw [split, List.map_map]
        exact List.map_id _
      rw [Option.map_some, Option.getD_some, List.map_cons, hparts]
      obtain ⟨part, parts, hsplit⟩ := List.exists_cons_of_ne_nil (Bytes.splitOn_ne_nil colon base)
      rw [hsplit, Bytes.joinWith, ← hsplit, Bytes.joinWith_splitOn]
      rfl
  rw [join?, hjoined, List.any_cons]
  have hnone : ((base.map split).getD []).any (·.bytes.contains colon) = false := by
    rw [List.any_eq_false]
    intro other hmem
    simpa using hrest other hmem
  rw [hnone, Bool.or_false]
  simp

/-- Splitting gives back the directory and those of the search path after it. -/
theorem split_leadBy (h : colon ∉ dir.bytes) (base : Option Bytes) :
    split (leadBy dir base) = dir :: base.elim [] split := by
  cases base with
  | none => simp [leadBy, split, Bytes.splitOn_of_not_mem h]
  | some base => simp [leadBy, split, Bytes.splitOn_append, Bytes.splitOn_of_not_mem h]

end SearchPath

open DebRelease.SearchPath DebRelease.Path

namespace Path

variable {p : Path} {name : Bytes}

theorem bytes_join (hne : p.bytes ≠ []) (hslash : p.endsInSlash = false) (h : isName name = true) :
    (p.join ⟨name⟩).bytes = p.bytes ++ slash :: name := by
  rw [join, (names_of_isName h).1, if_neg (by simp), hslash, if_neg (by simpa using hne)]

/-- Of the paths in normal form only the root ends in a slash. -/
theorem IsNormal.endsInSlash (h : p.IsNormal) (hroot : p ≠ root) : p.bytes ≠ [] ∧ p.endsInSlash = false := by
  obtain ⟨heq, hnames⟩ := isNormal_iff.mp h
  rcases List.eq_nil_or_concat p.names with hnil | ⟨front, last, hconcat⟩
  · rw [hnil] at heq
    exact absurd heq hroot
  · rw [List.concat_eq_append] at hconcat
    rw [hconcat] at heq hnames
    rw [heq]
    exact ⟨by simp [ofLocation, ofSegments], endsInSlash_ofLocation front (hnames last (by simp))⟩

end Path

namespace Layout

variable {l : Layout}

theorem searchPathWithTools_eq (l : Layout) (base : Option Bytes) : l.searchPathWithTools base =
    if colon ∈ l.toolBin.bytes then
      let dir := l.toolBin.display
      .error (.plain s!"cannot put {dir} on PATH: path segment contains separator `:`")
    else .ok (leadBy l.toolBin base) := by
  rw [searchPathWithTools, join?_leadBy]
  by_cases hcolon : colon ∈ l.toolBin.bytes
  · rw [if_pos hcolon, if_pos hcolon]
  · rw [if_neg hcolon, if_neg hcolon]

/-- The directory of the programs, written after the workspace of the packaging tools. The root ends in a slash
    already. -/
theorem bytes_toolBin (h : l.tooling.IsNormal) : l.toolBin.bytes =
    (if l.tooling = root then [] else l.tooling.bytes) ++ Bytes.ofText "/node_modules/.bin" := by
  by_cases hroot : l.tooling = root
  · rw [if_pos hroot, toolBin, hroot]
    decide +kernel
  · have hmodules : isName (Bytes.ofText "node_modules") = true := by decide +kernel
    have hbin : isName (Bytes.ofText ".bin") = true := by decide +kernel
    have hwritten : Bytes.ofText "/node_modules/.bin" =
        slash :: Bytes.ofText "node_modules" ++ slash :: Bytes.ofText ".bin" := by decide +kernel
    obtain ⟨hne, hslash⟩ := h.endsInSlash hroot
    have hinner : (l.tooling.child "node_modules").bytes = l.tooling.bytes ++ slash :: Bytes.ofText "node_modules" :=
      bytes_join hne hslash hmodules
    have houter : l.toolBin.bytes = (l.tooling.child "node_modules").bytes ++ slash :: Bytes.ofText ".bin" :=
      bytes_join (by simp [hinner]) (endsInSlash_join_name _ hmodules) hbin
    rw [if_neg hroot, houter, hinner, hwritten, List.append_assoc]

theorem colon_mem_toolBin_iff (h : l.tooling.IsNormal) : colon ∈ l.toolBin.bytes ↔ colon ∈ l.tooling.bytes := by
  have hwritten : colon ∉ Bytes.ofText "/node_modules/.bin" := by decide +kernel
  rw [bytes_toolBin h, List.mem_append, or_iff_left hwritten]
  split
  · rename_i hroot
    rw [hroot]
    decide +kernel
  · rfl

end Layout

/-- The commands that an action runs. -/
def Action.commands : Action → List ToolCommand
  | .run command | .package _ _ command => [command]
  | .freeze locate freezer => [locate, freezer]
  | .recreate _ | .copy .. | .move .. | .list _ => []

namespace Config

/-- The search paths of all commands of a run: the version step and the first stage, which installs the packaging
    tools, have that of the run, and all others the one that finds the packaging tools first. -/
structure Equips (c : Config) (base : Option Bytes) : Prop where
  version : ∀ value, ∀ request ∈ c.versionRequests value, request.command.searchPath = base
  plan : ∀ version, ∃ name command later, c.plan version = ⟨name, .run command⟩ :: later ∧
    command.searchPath = base ∧
    ∀ stage ∈ later, ∀ command ∈ stage.action.commands, command.searchPath = some c.toolSearchPath

theorem equips (c : Config) : c.Equips c.searchPath where
  version := by
    intro value request hmem
    rw [versionRequests] at hmem
    split at hmem
    · rcases List.mem_append.mp hmem with hmem | hmem
      · split at hmem
        · cases hmem
        · rw [List.mem_singleton.mp hmem]
          rfl
      · rw [List.mem_singleton.mp hmem]
        rfl
    · cases hmem
  plan := by
    intro version
    refine ⟨_, _, _, rfl, rfl, ?_⟩
    simp only [List.forall_mem_cons, List.not_mem_nil, false_imp_iff, implies_true, and_true, true_and, Action.commands]
    exact ⟨rfl, ⟨rfl, rfl⟩, rfl, rfl, rfl, rfl, rfl⟩

end Config

namespace ConfigDraft

variable {d : ConfigDraft} {around : Surroundings} {platform : Platform} {currentDir : Path}

theorem isNormal_tooling (d : ConfigDraft) (currentDir : Path) : (d.layout currentDir).tooling.IsNormal :=
  isNormal_absoluteFrom _ _

/-- A configuration cannot be built, and the failure says so, just if there is a colon in the workspace of the packaging
    tools. Otherwise the search path of the tools is that of the run with the directory of their programs in front, byte
    for byte, and it splits into just these directories; the commands of the plan carry it, and only what runs before
    the packaging tools are installed carries the one of the run. -/
theorem build_searchPath (hplatform : d.platform = some platform) (hdir : around.currentDir = .ok currentDir) :
    let l := d.layout currentDir
    let base := d.searchPath <|> around.searchPath
    let bin := (if l.tooling = root then [] else l.tooling.bytes) ++ Bytes.ofText "/node_modules/.bin"
    (colon ∈ l.tooling.bytes →
      let dir := l.toolBin.display
      d.build around = .error (.plain s!"cannot put {dir} on PATH: path segment contains separator `:`")) ∧
    (colon ∉ l.tooling.bytes → ∃ c, d.build around = .ok c ∧ c.layout = l ∧
      c.toolSearchPath = bin ++ base.elim [] (colon :: ·) ∧
      split c.toolSearchPath = ⟨bin⟩ :: base.elim [] split ∧
      c.Equips base) := by
  intro l base bin
  have hnormal : l.tooling.IsNormal := isNormal_tooling d currentDir
  have hbin : l.toolBin.bytes = bin := Layout.bytes_toolBin hnormal
  have hbuild := build_eq hplatform hdir
  constructor
  · intro hcolon
    rw [hbuild, Layout.searchPathWithTools_eq, if_pos ((Layout.colon_mem_toolBin_iff hnormal).mpr hcolon)]
    rfl
  · intro hcolon
    have hfree : colon ∉ l.toolBin.bytes := fun hmem => hcolon ((Layout.colon_mem_toolBin_iff hnormal).mp hmem)
    rw [Layout.searchPathWithTools_eq, if_neg hfree] at hbuild
    refine ⟨_, hbuild, rfl, ?_, ?_, Config.equips _⟩
    · rw [← hbin]
      rfl
    · rw [← hbin]
      exact split_leadBy hfree base

/-- Settings with a workspace of the packaging tools, and with a search path that begins and ends with an empty
    directory. -/
def withTooling (tooling : Path) : ConfigDraft :=
  { ConfigDraft.empty with
    platform := some .amd64
    tooling := some tooling
    searchPath := some (Bytes.ofText ":/usr/bin:") }

/-- A process that was started somewhere. -/
def startedIn (currentDir : Path) : Surroundings :=
  ⟨.ok currentDir, none⟩

theorem platform_withTooling (tooling : Path) : (withTooling tooling).platform = some .amd64 :=
  rfl

theorem currentDir_startedIn (currentDir : Path) : (startedIn currentDir).currentDir = .ok currentDir :=
  rfl

theorem build_searchPath_withTooling :
    (∃ c, (withTooling "..//tools/./").build (startedIn "/work/scripts") = .ok c ∧
      c.toolSearchPath = Bytes.ofText "/work/tools/node_modules/.bin::/usr/bin:" ∧
      split c.toolSearchPath = ["/work/tools/node_modules/.bin", "", "/usr/bin", ""] ∧
      c.Equips (some (Bytes.ofText ":/usr/bin:"))) ∧
    (withTooling "a:b").build (startedIn "/work/scripts") =
      .error (.plain "cannot put /work/scripts/a:b/node_modules/.bin on PATH: path segment contains separator `:`") := by
  obtain ⟨-, hbuilt⟩ := build_searchPath (platform_withTooling "..//tools/./") (currentDir_startedIn "/work/scripts")
  obtain ⟨hrefused, -⟩ := build_searchPath (platform_withTooling "a:b") (currentDir_startedIn "/work/scripts")
  obtain ⟨c, hbuild, -, hpath, hsplit, hequips⟩ := hbuilt (by decide +kernel)
  refine ⟨⟨c, hbuild, hpath.trans (by decide +kernel), hsplit.trans (by decide +kernel), hequips⟩, ?_⟩
  have hshown : ((withTooling "a:b").layout "/work/scripts").toolBin.display =
      "/work/scripts/a:b/node_modules/.bin" := by
    decide +kernel
  rw [hrefused (by decide +kernel), hshown]
  rfl

/-- Where the workspace of the packaging tools is the root, no second slash is written after it. -/
theorem not_build_searchPath_slash : ¬ ∀ (d : ConfigDraft) (around : Surroundings) (c : Config),
    d.build around = .ok c → c.toolSearchPath =
      c.layout.tooling.bytes ++ Bytes.ofText "/node_modules/.bin" ++ c.searchPath.elim [] (colon :: ·) := by
  intro hclaim
  have hbuild := build_eq (platform_withTooling "/") (currentDir_startedIn "/work/scripts")
  rw [Layout.searchPathWithTools_eq, if_neg (by decide +kernel)] at hbuild
  exact absurd (hclaim _ _ _ hbuild) (by decide +kernel)

end ConfigDraft

end DebRelease
