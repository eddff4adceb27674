import DebRelease.Config.Basic
import DebRelease.Plan
import DebRelease.Proofs.Manifest.Guarded

namespace DebRelease

open DebRelease.Path

/-- The name of the manifest of the desktop application. -/
def Layout.manifestName : Bytes := Bytes.ofText "package.json"

namespace ConfigDraft

variable {d : ConfigDraft} {around : Surroundings} {platform : Platform} {currentDir : Path} {c : Config}

/-- The configuration of a draft for a platform, read from a directory, with a search path for the tools. -/
def configFor (d : ConfigDraft) (around : Surroundings) (platform : Platform) (currentDir : Path)
    (toolSearchPath : Bytes) : Config where
  platform
  layout := d.layout currentDir
  tools := d.tools
  product := d.product
  versioning := d.versioning
  searchPath := d.searchPath <|> around.searchPath
  toolSearchPath

@[simp] theorem layout_configFor (d : ConfigDraft) (around : Surroundings) (platform : Platform) (currentDir : Path)
    (toolSearchPath : Bytes) : (d.configFor around platform currentDir toolSearchPath).layout = d.layout currentDir :=
  rfl

/-- With a platform and a current directory, only the search path of the tools can fail. -/
theorem build_eq (hplatform : d.platform = some platform) (hdir : around.currentDir = .ok currentDir) :
    d.build around = ((d.layout currentDir).searchPathWithTools (d.searchPath <|> around.searchPath)).map
      (d.configFor around platform currentDir) := by
  rw [build, hplatform, hdir]
  change ((d.layout currentDir).searchPathWithTools (d.searchPath <|> around.searchPath) >>= fun toolSearchPath =>
    pure _) = _
  cases (d.layout currentDir).searchPathWithTools (d.searchPath <|> around.searchPath) <;> rfl

theorem build_eq_ok (h : d.build around = .ok c) : ∃ platform currentDir toolSearchPath,
    d.platform = some platform ∧ around.currentDir = .ok currentDir ∧
      (d.layout currentDir).searchPathWithTools (d.searchPath <|> around.searchPath) = .ok toolSearchPath ∧
      c = d.configFor around platform currentDir toolSearchPath := by
  cases hplatform : d.platform with
  | none =>
    rw [build, hplatform] at h
    cases h
  | some platform =>
    cases hdir : around.currentDir with
    | error e =>
      rw [build, hplatform, hdir] at h
      cases h
    | ok currentDir =>
      rw [build_eq hplatform hdir] at h
      cases hpath : (d.layout currentDir).searchPathWithTools (d.searchPath <|> around.searchPath) with
      | error e =>
        rw [hpath] at h
        cases h
      | ok toolSearchPath =>
        rw [hpath] at h
        exact ⟨platform, currentDir, toolSearchPath, rfl, rfl, hpath, (Except.ok.inj h).symm⟩

end ConfigDraft

namespace Config

/-- A configuration that was built from settings. -/
def Built (c : Config) : Prop :=
  ∃ (draft : ConfigDraft) (around : Surroundings), draft.build around = .ok c

variable {c : Config}

theorem Built.layout (h : c.Built) :
    ∃ (draft : ConfigDraft) (currentDir : Path), c.layout = draft.layout currentDir := by
  obtain ⟨draft, around, hbuild⟩ := h
  obtain ⟨_, currentDir, _, -, -, -, rfl⟩ := ConfigDraft.build_eq_ok hbuild
  exact ⟨draft, currentDir, rfl⟩

/-- The directory that a run starts from is in normal form. -/
theorem Built.buildScripts (h : c.Built) :
    ∃ dir, (∀ name ∈ dir, isName name = true) ∧ c.layout.buildScripts = ofLocation dir := by
  obtain ⟨draft, currentDir, hlayout⟩ := h.layout
  rw [hlayout]
  exact absoluteFrom_eq _ _

/-- The package of the desktop application is in normal form. -/
theorem Built.guiPackage (h : c.Built) :
    ∃ dir, (∀ name ∈ dir, isName name = true) ∧ c.layout.guiPackage = ofLocation dir := by
  obtain ⟨draft, currentDir, hlayout⟩ := h.layout
  rw [hlayout]
  exact absoluteFrom_eq _ _

/-- The paths that a run rebuilds. -/
def rebuilt (c : Config) : List Path :=
  [c.layout.dist, c.layout.finalInstaller, c.layout.guiDaemon, Plan.packagedApp c, Plan.collectedApp c]

/-- The place of the manifest of the desktop application. -/
def manifestPlace (c : Config) : Location :=
  c.layout.guiManifest.place

/-- The place of the backup of the manifest. -/
def backupPlace (c : Config) : Location :=
  (Manifest.backupOf c.layout.guiManifest).place

/-- The places that a run rebuilds: those that the paths spell, and those that are left when `..` takes
    back the name before it. Without `..` they are the same. -/
def rebuiltPlaces (c : Config) : List Location :=
  c.rebuilt.flatMap fun path => [path.place, (Path.root.absoluteFrom path).place]

theorem place_mem_rebuiltPlaces {path : Path} (h : path ∈ c.rebuilt) : path.place ∈ c.rebuiltPlaces :=
  List.mem_flatMap.mpr ⟨path, h, List.mem_cons_self⟩

/-- The paths that a run rebuilds are direct, if the name of the application's directory is. -/
theorem Built.rebuilt (h : c.Built) (hname : dotDot ∉ (ofText c.outputDirName).names) :
    ∀ path ∈ c.rebuilt, path.IsDirect := by
  obtain ⟨scripts, hscripts, heq⟩ := h.buildScripts
  obtain ⟨package, hpackage, heq'⟩ := h.guiPackage
  have hbuildScripts : c.layout.buildScripts.IsDirect := heq ▸ (isDirect_ofLocation hscripts).1
  have hguiPackage : c.layout.guiPackage.IsDirect := heq' ▸ (isDirect_ofLocation hpackage).1
  have hdist : c.layout.dist.IsDirect := hbuildScripts.join_isDirect (by decide +kernel)
  simp only [Config.rebuilt, List.forall_mem_cons, List.not_mem_nil, false_imp_iff, implies_true, and_true]
  exact ⟨hdist, hbuildScripts.join_isDirect (by decide +kernel), hguiPackage.join_isDirect (by decide +kernel),
    hguiPackage.join_isDirect hname, hdist.join_isDirect hname⟩

/-- The application among the build results is not at or above the installer directory, unless it is named by a
    path from the root and there is no moving it to its place. -/
theorem Built.not_above_finalInstaller (h : c.Built) (hname : dotDot ∉ (ofText c.outputDirName).names)
    (happ : ¬ (Plan.collectedApp c).place <+: (Plan.packagedApp c).place) :
    ¬ (Plan.collectedApp c).place <+: c.layout.finalInstaller.place := by
  obtain ⟨dir, hdir, heq⟩ := h.buildScripts
  have hplace (name : Bytes) (hname : isName name = true) :
      (c.layout.buildScripts.join ⟨name⟩).IsDirect ∧ (c.layout.buildScripts.join ⟨name⟩).place = dir ++ [name] := by
    obtain ⟨hdirect, hplace⟩ := isDirect_ofLocation hdir
    have hjoined := hdirect.join_name hname
    rw [hplace] at hjoined
    rwa [heq]
  obtain ⟨hdirect, hdist⟩ := hplace (Bytes.ofText "dist") (by decide +kernel)
  obtain ⟨-, hinstaller⟩ := hplace (Bytes.ofText "final_installer") (by decide +kernel)
  cases habsolute : (ofText c.outputDirName).isAbsolute with
  | true =>
    refine absurd ?_ happ
    rw [Plan.collectedApp, Plan.packagedApp, child, child, join, join, if_pos habsolute, if_pos habsolute]
  | false =>
    intro hpre
    have hcollected : (Plan.collectedApp c).place = dir ++ [Bytes.ofText "dist"] ++ (ofText c.outputDirName).place :=
      (hdirect.join habsolute hname).2.trans (congrArg (· ++ _) hdist)
    have hinstaller : c.layout.finalInstaller.place = dir ++ [Bytes.ofText "final_installer"] := hinstaller
    rw [hcollected, hinstaller, List.append_assoc, List.prefix_append_right_inj, List.singleton_append,
      List.cons_prefix_cons] at hpre
    exact absurd hpre.1 (by decide +kernel)

/-- The manifest is an entry of the application's package, and its backup another. All names are ordinary. -/
theorem Built.manifest_isName (h : c.Built) : ∃ dir,
    c.layout.guiManifest = ofLocation (dir ++ [Layout.manifestName]) ∧
      c.manifestPlace = dir ++ [Layout.manifestName] ∧
      c.backupPlace = dir ++ [Manifest.backupName Layout.manifestName] ∧
      ∀ name ∈ dir ++ [Layout.manifestName], isName name = true := by
  obtain ⟨dir, hdir, heq⟩ := h.guiPackage
  have hname : isName Layout.manifestName = true := by decide +kernel
  have hmanifest : c.layout.guiManifest = ofLocation (dir ++ [Layout.manifestName]) := by
    rw [Layout.guiManifest, heq]
    exact ofLocation_join hdir hname
  have hnames {name : Bytes} (hname : isName name = true) : ∀ other ∈ dir ++ [name], isName other = true := by
    intro other hmem
    rcases List.mem_append.mp hmem with hmem | hmem
    · exact hdir other hmem
    · exact List.mem_singleton.mp hmem ▸ hname
  have hplace {name : Bytes} (hname : isName name = true) : (ofLocation (dir ++ [name])).place = dir ++ [name] :=
    (isDirect_ofLocation (hnames hname)).2
  refine ⟨dir, hmanifest, ?_, ?_, hnames hname⟩
  · rw [manifestPlace, hmanifest, hplace hname]
  · rw [backupPlace, hmanifest, Manifest.backupOf_ofLocation, hplace (Manifest.isName_backupName hname)]

/-- The manifest is an entry of the application's package, and its backup another. -/
theorem Built.manifest (h : c.Built) : ∃ dir,
    c.layout.guiManifest = ofLocation (dir ++ [Layout.manifestName]) ∧
      c.manifestPlace = dir ++ [Layout.manifestName] ∧
      c.backupPlace = dir ++ [Manifest.backupName Layout.manifestName] := by
  obtain ⟨dir, hpath, hplace, hbackup, -⟩ := h.manifest_isName
  exact ⟨dir, hpath, hplace, hbackup⟩

end Config

end DebRelease
