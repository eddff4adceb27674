import DebRelease.Proofs.Config.Built
import DebRelease.Proofs.FileTree.Content

namespace DebRelease

open DebRelease.Path

/-- What the stages of a run hand to one another. -/
inductive Site where
  | dist
  | finalInstaller
  /-- The copy of the frozen daemon inside the desktop application. -/
  | guiDaemon
  | packagedApp
  | manifest
  | backup
  deriving DecidableEq, Repr

namespace Site

/-- Whether a site lies where the run starts, and not in the application's package. -/
def inScripts : Site → Bool
  | dist | finalInstaller => true
  | guiDaemon | packagedApp | manifest | backup => false

/-- All sites. -/
def all : List Site := [dist, finalInstaller, guiDaemon, packagedApp, manifest, backup]

theorem mem_all (site : Site) : site ∈ all := by
  cases site <;> decide

end Site

/-- The name of the frozen daemon among the build results, and of its copy. -/
def Layout.daemonName : Bytes := Bytes.ofText "daemon"

namespace Config

variable {c : Config} {site other : Site}

/-- The name of the application among the build results. -/
def outputName (c : Config) : Bytes := Bytes.ofText c.outputDirName

/-- The path of a site. -/
def pathOf (c : Config) : Site → Path
  | .dist => c.layout.dist
  | .finalInstaller => c.layout.finalInstaller
  | .guiDaemon => c.layout.guiDaemon
  | .packagedApp => Plan.packagedApp c
  | .manifest => c.layout.guiManifest
  | .backup => Manifest.backupOf c.layout.guiManifest

/-- The place of a site. -/
def placeOf (c : Config) (site : Site) : Location := (c.pathOf site).place

/-- The name of a site in its directory. -/
def nameOf (c : Config) : Site → Bytes
  | .dist => Bytes.ofText "dist"
  | .finalInstaller => Bytes.ofText "final_installer"
  | .guiDaemon => Layout.daemonName
  | .packagedApp => c.outputName
  | .manifest => Layout.manifestName
  | .backup => Manifest.backupName Layout.manifestName

/-- The directory of a site. -/
def homeOf (c : Config) (site : Site) : Location :=
  if site.inScripts then c.layout.buildScripts.place else c.layout.guiPackage.place

/-- With a platform of the table, the directory of the application is a single name if the product is. -/
theorem isName_outputName (hplatform : c.platform ∈ Platform.all)
    (hproduct : isName (Bytes.ofText c.product.name) = true) : isName c.outputName = true := by
  obtain ⟨hne, -, -, hslash⟩ := isName_iff.mp hproduct
  have harch : slash ∉ Bytes.ofText c.platform.packagerArch := by
    simp only [Platform.all, List.mem_cons, List.not_mem_nil, or_false] at hplatform
    rcases hplatform with heq | heq <;> rw [heq] <;> decide +kernel
  have hlinux : slash ∉ Bytes.ofText "-linux-" ∧ 3 ≤ (Bytes.ofText "-linux-").length := by decide +kernel
  have hname : c.outputName =
      Bytes.ofText c.product.name ++ Bytes.ofText "-linux-" ++ Bytes.ofText c.platform.packagerArch := by
    simp [outputName, outputDirName, Platform.outputDirName, toString]
  have hlength : 3 ≤ c.outputName.length := by
    rw [hname, List.length_append, List.length_append]
    omega
  refine isName_iff.mpr ⟨?_, ?_, ?_, ?_⟩
  · rintro heq
    simp [heq] at hlength
  · rintro heq
    simp [heq, dot] at hlength
  · rintro heq
    simp [heq, dotDot] at hlength
  · simp [hname, hslash, hlinux.1, harch]

/-- The output directory has a letter that no other site has. -/
private theorem mem_outputName (c : Config) : (0x78 : UInt8) ∈ c.outputName := by
  have hlinux : (0x78 : UInt8) ∈ Bytes.ofText "-linux-" := by decide +kernel
  simp [outputName, outputDirName, Platform.outputDirName, toString, hlinux]

private theorem not_mem_nameOf (c : Config) (h : site ≠ .packagedApp) : (0x78 : UInt8) ∉ c.nameOf site := by
  cases site with
  | packagedApp => exact absurd rfl h
  | _ => rw [nameOf]; decide +kernel

theorem nameOf_ne (c : Config) (hne : site ≠ other) : c.nameOf site ≠ c.nameOf other := by
  by_cases hsite : site = .packagedApp
  · subst hsite
    exact fun heq => not_mem_nameOf c hne.symm (heq ▸ mem_outputName c)
  · by_cases hother : other = .packagedApp
    · subst hother
      exact fun heq => not_mem_nameOf c hne (heq.symm ▸ mem_outputName c)
    · cases site <;> cases other <;>
        first
        | exact absurd rfl hne
        | exact absurd rfl hsite
        | exact absurd rfl hother
        | (simp only [nameOf]; decide +kernel)

theorem daemonName_ne_outputName (c : Config) : Layout.daemonName ≠ c.outputName :=
  nameOf_ne c (show Site.guiDaemon ≠ .packagedApp by decide)

/-- A configuration whose parts lie so that a run can go through: the application's directory is a single
    name, and neither the package nor the directory that the run starts from lies at or below a place that
    is rebuilt in the other one. -/
structure LaidOut (c : Config) : Prop where
  built : c.Built
  name : isName c.outputName = true
  /-- What is rebuilt where the run starts is not at or above the package. -/
  package : ∀ site ∈ [Site.dist, .finalInstaller], ¬ c.placeOf site <+: c.layout.guiPackage.place
  /-- What is rebuilt in the package is not at or above where the run starts. -/
  scripts : ∀ site ∈ [Site.guiDaemon, .packagedApp], ¬ c.placeOf site <+: c.layout.buildScripts.place

namespace LaidOut

theorem isName_nameOf (h : c.LaidOut) (site : Site) : isName (c.nameOf site) = true := by
  cases site with
  | packagedApp => exact h.name
  | _ => rw [nameOf]; decide +kernel

/-- Every site is written from its directory and its name. -/
theorem pathOf_eq (h : c.LaidOut) (site : Site) :
    c.pathOf site = ofLocation (c.homeOf site ++ [c.nameOf site]) ∧
      ∀ name ∈ c.homeOf site ++ [c.nameOf site], isName name = true := by
  obtain ⟨scripts, hscripts, heq⟩ := h.built.buildScripts
  obtain ⟨package, hpackage, heq'⟩ := h.built.guiPackage
  have hplace : c.layout.buildScripts.place = scripts := by rw [heq, (isDirect_ofLocation hscripts).2]
  have hplace' : c.layout.guiPackage.place = package := by rw [heq', (isDirect_ofLocation hpackage).2]
  have hchild {dir : Location} {name : Bytes} (hdir : ∀ other ∈ dir, isName other = true)
      (hname : isName name = true) : ∀ other ∈ dir ++ [name], isName other = true := by
    intro other hmem
    rcases List.mem_append.mp hmem with hmem | hmem
    · exact hdir other hmem
    · exact List.mem_singleton.mp hmem ▸ hname
  have hmanifest : c.layout.guiManifest = ofLocation (package ++ [Layout.manifestName]) := by
    rw [Layout.guiManifest, heq']
    exact ofLocation_join hpackage (h.isName_nameOf .manifest)
  have hname := h.isName_nameOf site
  cases site with
  | dist =>
    simp only [homeOf, Site.inScripts, if_true, hplace]
    exact ⟨by rw [pathOf, Layout.dist, heq]; exact ofLocation_join hscripts hname, hchild hscripts hname⟩
  | finalInstaller =>
    simp only [homeOf, Site.inScripts, if_true, hplace]
    exact ⟨by rw [pathOf, Layout.finalInstaller, heq]; exact ofLocation_join hscripts hname, hchild hscripts hname⟩
  | guiDaemon =>
    simp only [homeOf, Site.inScripts, Bool.false_eq_true, if_false, hplace']
    exact ⟨by rw [pathOf, Layout.guiDaemon, heq']; exact ofLocation_join hpackage hname, hchild hpackage hname⟩
  | packagedApp =>
    simp only [homeOf, Site.inScripts, Bool.false_eq_true, if_false, hplace']
    exact ⟨by rw [pathOf, Plan.packagedApp, heq']; exact ofLocation_join hpackage hname, hchild hpackage hname⟩
  | manifest =>
    simp only [homeOf, Site.inScripts, Bool.false_eq_true, if_false, hplace']
    exact ⟨hmanifest, hchild hpackage hname⟩
  | backup =>
    simp only [homeOf, Site.inScripts, Bool.false_eq_true, if_false, hplace']
    exact ⟨by rw [pathOf, hmanifest, Manifest.backupOf_ofLocation]; rfl, hchild hpackage hname⟩

theorem placeOf_eq (h : c.LaidOut) (site : Site) : c.placeOf site = c.homeOf site ++ [c.nameOf site] := by
  obtain ⟨heq, hnames⟩ := h.pathOf_eq site
  rw [placeOf, heq, (isDirect_ofLocation hnames).2]

theorem pathOf_ofLocation (h : c.LaidOut) (site : Site) : c.pathOf site = ofLocation (c.placeOf site) := by
  rw [h.placeOf_eq, (h.pathOf_eq site).1]

theorem isName_placeOf (h : c.LaidOut) (site : Site) : ∀ name ∈ c.placeOf site, isName name = true := by
  rw [h.placeOf_eq]
  exact (h.pathOf_eq site).2

theorem frozenDaemon_eq (h : c.LaidOut) :
    c.layout.frozenDaemon = ofLocation (c.placeOf .dist ++ [Layout.daemonName]) := by
  have hdist : c.layout.dist = ofLocation (c.placeOf .dist) := h.pathOf_ofLocation .dist
  rw [Layout.frozenDaemon, hdist]
  exact ofLocation_join (h.isName_placeOf .dist) (h.isName_nameOf .guiDaemon)

theorem collectedApp_eq (h : c.LaidOut) :
    Plan.collectedApp c = ofLocation (c.placeOf .dist ++ [c.outputName]) := by
  have hdist : c.layout.dist = ofLocation (c.placeOf .dist) := h.pathOf_ofLocation .dist
  rw [Plan.collectedApp, hdist]
  exact ofLocation_join (h.isName_placeOf .dist) h.name

/-- If the run does not start at or below the manifest or its backup either, no two sites meet. -/
theorem separate (h : c.LaidOut)
    (hfiles : ∀ site ∈ [Site.manifest, .backup], ¬ c.placeOf site <+: c.layout.buildScripts.place)
    (hne : site ≠ other) : Separate (c.placeOf site) (c.placeOf other) := by
  have hout : ∀ site, ¬ c.placeOf site <+: if site.inScripts then c.layout.guiPackage.place else
      c.layout.buildScripts.place := by
    rintro (_ | _ | _ | _ | _ | _)
    · exact h.package .dist (by simp)
    · exact h.package .finalInstaller (by simp)
    · exact h.scripts .guiDaemon (by simp)
    · exact h.scripts .packagedApp (by simp)
    · exact hfiles .manifest (by simp)
    · exact hfiles .backup (by simp)
  have hsite := hout site
  have hother := hout other
  have hnames := nameOf_ne c hne
  rw [h.placeOf_eq, homeOf] at hsite hother ⊢
  rw [h.placeOf_eq, homeOf]
  cases hin : site.inScripts <;> cases hin' : other.inScripts <;>
    simp only [hin, hin', Bool.false_eq_true, if_true, if_false] at hsite hother ⊢
  · exact .of_ne hnames
  · exact .of_outside hnames hsite hother
  · exact .of_outside hnames hsite hother
  · exact .of_ne hnames

end LaidOut

end Config

end DebRelease
