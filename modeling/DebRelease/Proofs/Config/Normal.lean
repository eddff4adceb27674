import DebRelease.Proofs.Config.SearchPath

namespace DebRelease

open DebRelease.Path DebRelease.SearchPath

/-- The paths of a layout. -/
def Layout.paths (l : Layout) : List Path :=
  [l.buildScripts, l.tooling, l.gui, l.guiPackage, l.license]

namespace ConfigDraft

variable {d : ConfigDraft} {around : Surroundings} {currentDir : Path} {c : Config} {l : Layout}

/-- The settings with the paths of a layout in place of their own. -/
def laidOut (d : ConfigDraft) (l : Layout) : ConfigDraft :=
  { d with
    buildScripts := some l.buildScripts
    tooling := some l.tooling
    gui := some l.gui
    guiPackage := some l.guiPackage
    license := some l.license }

theorem isNormal_layout (d : ConfigDraft) (currentDir : Path) :
    ∀ path ∈ (d.layout currentDir).paths, path.IsNormal := by
  simp only [Layout.paths, List.forall_mem_cons, List.not_mem_nil, false_imp_iff, implies_true, and_true]
  exact ⟨isNormal_absoluteFrom _ _, isNormal_absoluteFrom _ _, isNormal_absoluteFrom _ _, isNormal_absoluteFrom _ _,
    isNormal_absoluteFrom _ _⟩

/-- A layout in normal form that is given is the layout, wherever it is read. -/
theorem layout_laidOut (h : ∀ path ∈ l.paths, path.IsNormal) (d : ConfigDraft) (currentDir : Path) :
    (d.laidOut l).layout currentDir = l := by
  simp only [Layout.paths, List.forall_mem_cons, List.not_mem_nil, false_imp_iff, implies_true, and_true] at h
  obtain ⟨hscripts, htooling, hgui, hpackage, hlicense⟩ := h
  simp only [layout, laidOut, Option.getD_some, hscripts.absoluteFrom, htooling.absoluteFrom, hgui.absoluteFrom,
    hpackage.absoluteFrom, hlicense.absoluteFrom]

/-- Whether a configuration can be built with a layout does not hang on the search path. -/
theorem colon_not_mem_of_build (h : d.build around = .ok c) : colon ∉ c.layout.toolBin.bytes := by
  obtain ⟨_, currentDir, _, -, -, hpath, rfl⟩ := build_eq_ok h
  rw [layout_configFor]
  intro hcolon
  rw [Layout.searchPathWithTools_eq, if_pos hcolon] at hpath
  cases hpath

/-- The paths of a configuration that was built are the normal forms of those that are set, or else of the defaults,
    each joined to the directory that it is read from. They are absolute and hold no empty component, no `.` and no
    `..`; and given explicitly, they are the layout again whatever the current directory is then. -/
theorem build_layout (h : d.build around = .ok c) (hdir : around.currentDir = .ok currentDir) :
    (∀ q : Path,
      (q.IsNormalFormOf (currentDir.join (d.buildScripts.getD ".")) ↔ q = c.layout.buildScripts) ∧
      (q.IsNormalFormOf (c.layout.buildScripts.join (d.tooling.getD "npm_linux_deb")) ↔ q = c.layout.tooling) ∧
      (q.IsNormalFormOf (c.layout.buildScripts.join (d.gui.getD "../hydrangea-blockchain-gui")) ↔ q = c.layout.gui) ∧
      (q.IsNormalFormOf (c.layout.gui.join (d.guiPackage.getD "packages/gui")) ↔ q = c.layout.guiPackage) ∧
      (q.IsNormalFormOf (c.layout.buildScripts.join (d.license.getD "../LICENSE")) ↔ q = c.layout.license)) ∧
    (∀ path ∈ c.layout.paths, path.IsNormal) ∧
    ∀ (d' : ConfigDraft) (around' : Surroundings) (currentDir' : Path), d'.platform.isSome = true →
      around'.currentDir = .ok currentDir' → ∃ c', (d'.laidOut c.layout).build around' = .ok c' ∧
        c'.layout = c.layout := by
  have hfree := colon_not_mem_of_build h
  obtain ⟨_, found, _, -, hfound, -, rfl⟩ := build_eq_ok h
  obtain rfl : currentDir = found := Except.ok.inj (hdir.symm.trans hfound)
  rw [layout_configFor] at hfree
  have hnormal := isNormal_layout d currentDir
  refine ⟨fun q => ⟨isNormalFormOf_join_iff, isNormalFormOf_join_iff, isNormalFormOf_join_iff, isNormalFormOf_join_iff,
    isNormalFormOf_join_iff⟩, hnormal, ?_⟩
  intro d' around' currentDir' hplatform' hdir'
  obtain ⟨platform, hplatform'⟩ := Option.isSome_iff_exists.mp hplatform'
  have hlayout := layout_laidOut hnormal d' currentDir'
  have hbuild := build_eq (d := d'.laidOut (d.layout currentDir)) hplatform' hdir'
  rw [hlayout, Layout.searchPathWithTools_eq, if_neg hfree] at hbuild
  exact ⟨_, hbuild, hlayout⟩

/-- Settings that climb above the directories they are read from, with slashes and dots that say nothing. -/
def wandering : ConfigDraft :=
  { ConfigDraft.empty with
    platform := some .amd64
    buildScripts := some "../b/"
    tooling := some "a/../../../../x//y/."
    gui := some "//gui/.//../w/"
    guiPackage := some "../../.."
    license := some "" }

theorem build_layout_wandering : ∃ c, wandering.build (startedIn "/work/scripts") = .ok c ∧
    c.layout = ⟨"/work/b", "/x/y", "/w", "/", "/work/b"⟩ ∧
    Path.IsNormalFormOf "/x/y" (Path.join "/work/b" "a/../../../../x//y/.") ∧
    ∃ c', (wandering.laidOut c.layout).build (startedIn "/elsewhere") = .ok c' ∧ c'.layout = c.layout := by
  have hlayout : wandering.layout "/work/scripts" = ⟨"/work/b", "/x/y", "/w", "/", "/work/b"⟩ := by decide +kernel
  have hplatform : wandering.platform = some .amd64 := rfl
  have hbuild := build_eq hplatform (currentDir_startedIn "/work/scripts")
  rw [Layout.searchPathWithTools_eq, if_neg (by decide +kernel)] at hbuild
  obtain ⟨hforms, -, hagain⟩ := build_layout hbuild rfl
  rw [layout_configFor, hlayout] at hforms
  refine ⟨_, hbuild, hlayout, ?_, hagain wandering (startedIn "/elsewhere") "/elsewhere" rfl rfl⟩
  obtain ⟨-, htooling, -⟩ := hforms "/x/y"
  exact htooling.mpr rfl

end ConfigDraft

end DebRelease
