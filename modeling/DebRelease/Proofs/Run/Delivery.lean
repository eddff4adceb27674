import DebRelease.Proofs.Manifest.Runs
import DebRelease.Proofs.Run.Stages

namespace DebRelease

open FileTree

/-- A path that the system accepts, and each name in it too. -/
def Path.Accepted (p : Path) : Prop :=
  checkPath p = .ok () ∧ ∀ name ∈ p.names, name.length ≤ nameLimit

theorem Path.Accepted.spells {location : Location} (h : (ofLocation location).Accepted)
    (hnames : ∀ name ∈ location, isName name = true) : (ofLocation location).Spells location := by
  obtain ⟨hcheck, hlength⟩ := h
  rw [names_ofLocation hnames] at hlength
  refine ⟨rfl, fun name hmem => ⟨hnames name hmem, fun hzero => ?_, hlength name hmem⟩, hcheck⟩
  have hmem : name ∈ (ofLocation location).names := (names_ofLocation hnames).symm ▸ hmem
  exact (checkPath_eq_ok_iff.mp hcheck).1 (mem_of_mem_segment (mem_names_iff.mp hmem).1 hzero)

instance (p : Path) : Decidable p.Accepted := by
  unfold Path.Accepted; infer_instance

namespace Config

variable {c : Config} {D P F : FileTree}

/-- The paths that a run hands to the system: those of the sites, that of the application among the build
    results, that of the daemon's copy with a slash after it, those of the entries of the daemon `D` where it
    is frozen and where it is copied to, and those of the entries of the installer `F`. -/
def handed (c : Config) (D F : FileTree) : List Path :=
  Site.all.map c.pathOf ++ [Plan.collectedApp c, c.layout.guiDaemon.join .empty] ++
  D.places.map (fun rest => .ofLocation (c.placeOf .dist ++ [Layout.daemonName] ++ rest)) ++
  D.places.map (fun rest => .ofLocation (c.placeOf .guiDaemon ++ rest)) ++
  F.places.map (fun rest => .ofLocation (c.placeOf .finalInstaller ++ rest))

theorem LaidOut.routed (h : c.LaidOut) (hD : D.WellFormed) (hF : F.WellFormed)
    (hfiles : ∀ site ∈ [Site.manifest, .backup], ¬ c.placeOf site <+: c.layout.buildScripts.place)
    (haccepted : ∀ path ∈ c.handed D F, path.Accepted) : c.Routed D F := by
  have hdaemon : Path.isName Layout.daemonName = true := h.isName_nameOf .guiDaemon
  have happend {location rest : Location} (hlocation : ∀ name ∈ location, Path.isName name = true)
      (hrest : ∀ name ∈ rest, Path.isName name = true) : ∀ name ∈ location ++ rest, Path.isName name = true :=
    List.forall_mem_append.mpr ⟨hlocation, hrest⟩
  have hsingle {name : Bytes} (hname : Path.isName name = true) : ∀ other ∈ [name], Path.isName other = true :=
    List.forall_mem_singleton.mpr hname
  have hentry {tree : FileTree} (hwf : tree.WellFormed) {rest : Location} (hrest : tree.get? rest ≠ none) :
      ∀ name ∈ rest, Path.isName name = true := by
    obtain ⟨entry, hget⟩ := Option.ne_none_iff_exists'.mp hrest
    exact fun name hmem => (hwf.isEntryName hget name hmem).isName
  simp only [handed, List.forall_mem_append, List.forall_mem_cons, List.forall_mem_map] at haccepted
  obtain ⟨⟨⟨⟨hsites, hcollected, hslash, -⟩, hfrozen⟩, hcopied⟩, hlisted⟩ := haccepted
  refine ⟨h, h.separate hfiles, fun site => ?_, fun rest hrest => ?_, fun rest hrest => ?_, ?_, ?_,
    fun rest hrest => ?_⟩
  · refine Path.Accepted.spells ?_ (h.isName_placeOf site)
    rw [← h.pathOf_ofLocation]
    exact hsites site site.mem_all
  · exact (hfrozen rest (mem_places hrest)).spells
      (happend (happend (h.isName_placeOf .dist) (hsingle hdaemon)) (hentry hD hrest))
  · exact (hcopied rest (mem_places hrest)).spells (happend (h.isName_placeOf .guiDaemon) (hentry hD hrest))
  · rw [← h.pathOf_ofLocation]
    exact hslash.1
  · refine Path.Accepted.spells ?_ (happend (h.isName_placeOf .dist) (hsingle h.name))
    rw [← h.collectedApp_eq]
    exact hcollected
  · exact (hlisted rest (mem_places hrest)).spells (happend (h.isName_placeOf .finalInstaller) (hentry hF hrest))

/-- What a run leaves at each site. -/
def delivered (c : Config) (D P F : FileTree) (manifest : Entry) : Site → Content
  | .dist => .directory [(Layout.daemonName, D.get?), (c.outputName, P.get?)]
  | .finalInstaller => F.get?
  | .guiDaemon => D.get?
  | .packagedApp => .none
  | .manifest => .only manifest
  | .backup => .none

end Config

namespace Pipeline

open RunM

variable {σ : Type} {p : Pipeline σ} {D P F : FileTree} {contents : Site → Content} {content : Bytes} {is : Bool}
    {tree : FileTree} {memory : σ} {value : Option String}

/-- Below a directory of build results, the directory of the installer can be made. -/
private theorem finalInstaller_open {c : Config} {t : FileTree} (h : c.LaidOut) (hshows : c.Shows contents t)
    (hdist : contents .dist [] = some .directory)
    (hfinal : contents .finalInstaller [] = none ∨ contents .finalInstaller [] = some .directory) :
    t.IsOpen (c.placeOf .finalInstaller) := by
  have hget := (hshows.2 .dist).get?
  have hthere := (hshows.2 .finalInstaller).get?
  rw [hdist, h.placeOf_eq] at hget
  rw [h.placeOf_eq] at hthere ⊢
  exact .of_parent hshows.1 (hshows.1.parent hget) (hthere ▸ hfinal)

section Whole

variable (h : p.config.Routed D F) (hF : F.WellFormed)
  (hlinks : ∀ location ∈ F.places, ∀ entry ∈ F.get? location, entry.isSymlink = false)
  (hmanifest : contents .manifest = .only (.file content is)) (hbackup : contents .backup = .none)
  (hfinal : contents .finalInstaller [] = none ∨ contents .finalInstaller [] = some .directory)
  (hdaemon : contents .guiDaemon [] = none ∨ contents .guiDaemon [] = some .directory)

include h hF hlinks hmanifest hbackup hfinal hdaemon

/-- The stages of a plan, one after another. -/
private theorem achieves_plan (version : Version)
    (hvalid : ∃ versioned, Manifest.setVersion content version.value = .ok versioned) (total : Nat) :
    Achieves (p.config.KeepsContract D P F)
      (fun t => p.config.Shows contents t ∧ t.IsOpen (p.config.placeOf .dist))
      (performAll p total 1 [] (p.config.plan version)) fun artifacts t =>
        artifacts = F.artifactsOf p.config.layout.finalInstaller ∧
          p.config.Shows (p.config.delivered D P F (.file content is)) t := by
  have hrun {contents : Site → Content} {command : ToolCommand} {first : Bytes} :
      command.args.head? = some first → first ∉ Config.fillingArgs →
        Achieves (p.config.KeepsContract D P F) (p.config.Shows contents) (perform p (.run command)) fun _ =>
          p.config.Shows contents :=
    achieves_run fun _ hcall => hcall.shows
  have hname : [(Layout.daemonName, D.get?)].lookup p.config.outputName = none := by
    simp [List.lookup_cons, beq_false_of_ne (Config.daemonName_ne_outputName p.config).symm]
  rw [Config.plan]
  refine achieves_cons (achieves_run (fun _ hcall hnone hI => ⟨hcall.shows hnone hI.1, hcall.isOpen hI.2⟩)
    rfl (by decide +kernel)) fun _ => ?_
  refine achieves_cons (achieves_recreate h .dist fun _ hI => hI) fun _ => ?_
  refine achieves_cons (hrun rfl (by decide +kernel)) fun _ => ?_
  refine achieves_cons (achieves_frozen h (by rw [Function.update_self])) fun _ => ?_
  rw [Function.update_idem]
  refine achieves_cons (achieves_copied h (Function.update_self _ _ _) (by simp) ?_ hdaemon) fun _ => ?_
  · rw [Function.update_of_ne (by decide), hmanifest]
    exact Option.some_ne_none _
  refine achieves_cons (hrun rfl (by decide +kernel)) fun _ => ?_
  refine achieves_cons (hrun rfl (by decide +kernel)) fun _ => ?_
  refine achieves_cons (hrun rfl (by decide +kernel)) fun _ => ?_
  refine achieves_cons (achieves_packaged h hmanifest hbackup hvalid) fun _ => ?_
  refine achieves_cons (achieves_collected h rfl hname rfl) fun _ => ?_
  refine achieves_cons (achieves_recreate h .finalInstaller fun t hshows => ⟨hshows,
    finalInstaller_open h.laidOut hshows rfl hfinal⟩) fun _ => ?_
  refine achieves_cons (achieves_built h version.value) fun _ => ?_
  refine achieves_cons (achieves_listed h hF hlinks rfl) fun found => ?_
  refine (Achieves.pure (I := _)).mono (fun _ hI => hI) ?_
  rintro artifacts t ⟨rfl, rfl, hshows⟩
  refine ⟨rfl, ?_⟩
  convert hshows using 1
  funext site
  cases site <;> simp [Config.delivered, Function.update, hmanifest, hbackup]

/-- The whole run. Until the directory of build results is rebuilt, it stays open to that. -/
private theorem achieves_whole (hvalid : Manifest.isObject content = true) (value : Option String) :
    Achieves (p.config.KeepsContract D P F)
      (fun t => p.config.Shows contents t ∧ t.IsOpen (p.config.placeOf .dist)) (p.run value) fun report t =>
        (∃ version, report = ⟨p.config.platform, version, p.config.outputDirName,
          F.artifactsOf p.config.layout.finalInstaller⟩) ∧
          p.config.Shows (p.config.delivered D P F (.file content is)) t := by
  have hversion : Achieves (p.config.KeepsContract D P F)
      (fun t => p.config.Shows contents t ∧ t.IsOpen (p.config.placeOf .dist)) (resolveVersion p value) fun _ t =>
        p.config.Shows contents t ∧ t.IsOpen (p.config.placeOf .dist) := by
    refine achieves_resolveVersion (fun _ hcall => hcall.succeeded) value fun call hcall hrequest ⟨hshows, hopen⟩ => ?_
    exact ⟨hcall.shows (Config.not_fills_version hrequest) hshows, hcall.isOpen hopen⟩
  refine (Achieves.emit _).bind fun _ => (hversion.inStage _).bind fun version => ?_
  have hplan := achieves_plan (P := P) h hF hlinks hmanifest hbackup hfinal hdaemon version
    (Manifest.setVersion_eq_ok hvalid version.value) (p.config.plan version).length
  refine hplan.bind fun artifacts => (Achieves.emit _).bind fun _ => Achieves.pure.mono (fun _ h => h) ?_
  rintro report t ⟨rfl, rfl, hshows⟩
  exact ⟨⟨version, rfl⟩, hshows⟩

end Whole

/-- A report shows the version that was resolved. -/
private theorem version_of_run {s after : Session σ} {report : Report} (h : p.run value s = (.ok report, after)) :
    (resolveVersion p value (opened p s)).1 = .ok report.version := by
  rw [run_eq] at h
  cases hversion : resolveVersion p value (opened p s) with
  | mk outcome ready =>
    rw [hversion] at h
    cases outcome with
    | error cause => cases h
    | ok version =>
      dsimp only at h
      cases hperform : performAll p (p.config.plan version).length 1 [] (p.config.plan version) ready with
      | mk outcome final =>
        rw [hperform] at h
        cases outcome with
        | error e => cases h
        | ok artifacts =>
          cases h
          rfl

/-- A run with tools that keep their contracts, and the tree it starts from: the manifest is a valid one,
    there is no backup, and no link is in the way of what is rebuilt. -/
structure Contracted (p : Pipeline σ) (value : Option String) (tree : FileTree) (memory : σ) (content : Bytes)
    (is : Bool) (D P F : FileTree) : Prop where
  /-- The parts of the configuration lie so that a run can go through. -/
  laidOut : p.config.LaidOut
  wellFormed : tree.WellFormed
  manifest : tree.get? (p.config.placeOf .manifest) = some (.file content is)
  valid : Manifest.isObject content = true
  backup : tree.get? (p.config.placeOf .backup) = none
  /-- No link is at or above what is rebuilt. -/
  plain : ∀ site ∈ [Site.dist, .finalInstaller, .guiDaemon], tree.IsPlain (p.config.placeOf site)
  daemon : D.WellFormed
  installer : F.WellFormed
  links : ∀ location ∈ F.places, ∀ entry ∈ F.get? location, entry.isSymlink = false
  tools : ∀ call ∈ (p.run value (.start tree memory)).2.calls, p.config.KeepsContract D P F call

/-- The run succeeds, reports the version that was resolved and what the installer holds, and every site is
    as delivered. -/
def Delivers (p : Pipeline σ) (value : Option String) (tree : FileTree) (memory : σ) (content : Bytes) (is : Bool)
    (D P F : FileTree) : Prop :=
  ∃ version after, (resolveVersion p value (opened p (.start tree memory))).1 = .ok version ∧
    p.run value (.start tree memory) =
      (.ok ⟨p.config.platform, version, p.config.outputDirName, F.artifactsOf p.config.layout.finalInstaller⟩, after) ∧
    p.config.Shows (p.config.delivered D P F (.file content is)) after.tree

/-- With tools that keep their contracts a run delivers. What is rebuilt must be a directory or nothing,
    and so must all above it; the run must not start at or below the backup of the manifest; and the system
    must accept the paths that it is handed. -/
theorem run_delivers (h : Contracted p value tree memory content is D P F)
    (hopen : ∀ site ∈ [Site.dist, .finalInstaller, .guiDaemon], tree.IsOpen (p.config.placeOf site))
    (hbackup : ¬ p.config.placeOf .backup <+: p.config.layout.buildScripts.place)
    (haccepted : ∀ path ∈ p.config.handed D F, path.Accepted) :
    Delivers p value tree memory content is D P F := by
  obtain ⟨hlaidOut, hwf, hmanifest, hvalid, hnone, -, hD, hF, hlinks, htools⟩ := h
  have hdist := hopen .dist (by simp)
  have hout : ¬ p.config.placeOf .manifest <+: p.config.layout.buildScripts.place := by
    intro hpre
    have habove : p.config.placeOf .manifest <+: p.config.placeOf .dist := by
      rw [hlaidOut.placeOf_eq .dist]
      exact hpre.trans (List.prefix_append _ _)
    rcases hdist _ habove with hfree | hdir
    · simp [hmanifest] at hfree
    · simp [hmanifest] at hdir
  have hrouted : p.config.Routed D F :=
    hlaidOut.routed hD hF (by simp [hout, hbackup]) haccepted
  let contents (site : Site) : Content := fun rest => tree.get? (p.config.placeOf site ++ rest)
  have hstart : p.config.Shows contents tree := ⟨hwf, fun site => .self tree (p.config.placeOf site)⟩
  have hmanifest' : contents .manifest = .only (.file content is) :=
    funext fun rest => Contains.of_entry hwf hmanifest (by simp) rest
  have hbackup' : contents .backup = .none := funext fun rest => Contains.of_none hwf hnone rest
  have hthere (site : Site) (hmem : site ∈ [Site.dist, .finalInstaller, .guiDaemon]) :
      contents site [] = none ∨ contents site [] = some .directory := by
    simpa [contents] using hopen site hmem _ List.prefix_rfl
  have hachieves : Achieves (p.config.KeepsContract D P F) _ (p.run value) _ :=
    achieves_whole hrouted hF hlinks hmanifest' hbackup' (hthere .finalInstaller (by simp))
      (hthere .guiDaemon (by simp)) hvalid value
  obtain ⟨report, after, hrun, ⟨version, rfl⟩, hshows⟩ := hachieves.success _ ⟨hstart, hdist⟩ htools
  exact ⟨version, after, version_of_run hrun, hrun, hshows⟩

/-- The tree with another one put at a place. -/
def put (t : FileTree) (place : Location) (tree : FileTree) : FileTree :=
  tree.entries.foldl (fun t item => t.set (place ++ item.1) item.2) (t.set place .directory)

/-- Tools that succeed, and of which some put a tree at a place. -/
def filling (puts : List (String × Location × FileTree)) : Runner Unit where
  run command t _ :=
    let after := (puts.find? fun item => item.1 = command.program).map fun item => put t item.2.1 item.2.2
    ⟨.ok .ok, after.getD t, (), []⟩
  capture _ t _ := ⟨.ok ⟨.ok, "daemon.spec"⟩, t, (), []⟩

/-- A daemon of one program. -/
def smallDaemon : FileTree := treeOf [("/run", .file [1] true)]

/-- An application of one program, to which a link leads. -/
def smallApp : FileTree := treeOf [("/y", .file [2] true), ("/z", .symlink "y")]

/-- An installer in a single file. -/
def smallInstaller : FileTree := treeOf [("/y.deb", .file [3] false)]

/-- A run from `scripts` on the package `/g`, with tools that keep their contracts. -/
def smallContracted (scripts : Path) : Pipeline Unit :=
  small scripts "y" (filling [("pyinstaller", (scripts.join "dist/daemon").place, smallDaemon),
    ("electron-packager", (Path.place "/g/y-linux-x64"), smallApp),
    ("electron-installer-debian", (scripts.join "final_installer").place, smallInstaller)])

/-- Where the scripts lie, and what such a run starts from, is all that is left to see. -/
private theorem contracted_small (scripts : Path) (tree : FileTree)
    (hbuild : (smallDraft scripts "y").build ⟨.ok "/", none⟩ = .ok (smallContracted scripts).config)
    (hlies : let c := (smallContracted scripts).config
      (∀ site ∈ [Site.dist, .finalInstaller], ¬ c.placeOf site <+: c.layout.guiPackage.place) ∧
        ∀ site ∈ [Site.guiDaemon, .packagedApp], ¬ c.placeOf site <+: c.layout.buildScripts.place)
    (hstart : let c := (smallContracted scripts).config
      tree.WellFormed ∧ tree.get? (c.placeOf .manifest) = some (.file (Bytes.ofText "\x7b\x7d") false) ∧
        tree.get? (c.placeOf .backup) = none ∧
        ∀ site ∈ [Site.dist, .finalInstaller, .guiDaemon], tree.IsPlain (c.placeOf site))
    (htools : ∀ call ∈ ((smallContracted scripts).run none (.start tree ())).2.calls,
      (smallContracted scripts).config.KeepsContract smallDaemon smallApp smallInstaller call) :
    Contracted (smallContracted scripts) none tree () (Bytes.ofText "\x7b\x7d") false smallDaemon smallApp
      smallInstaller := by
  obtain ⟨hwf, hmanifest, hbackup, hplain⟩ := hstart
  have hname : Path.isName (smallContracted scripts).config.outputName = true :=
    Config.isName_outputName (show Platform.amd64 ∈ Platform.all by decide)
      (show Path.isName (Bytes.ofText "y") = true by decide +kernel)
  exact ⟨⟨⟨_, _, hbuild⟩, hname, hlies.1, hlies.2⟩, hwf, hmanifest, by decide +kernel, hbackup, hplain,
    by decide +kernel, by decide +kernel, by decide +kernel, htools⟩

theorem run_delivers_small :
    Delivers (smallContracted "/b") none (smallTree [("/b/dist", .directory), ("/b/dist/old", .file [] false),
      ("/g/daemon", .directory), ("/g/daemon/old", .file [] true)]) () (Bytes.ofText "\x7b\x7d") false smallDaemon
      smallApp smallInstaller := by
  have hcontracted := contracted_small "/b" (smallTree [("/b/dist", .directory), ("/b/dist/old", .file [] false),
    ("/g/daemon", .directory), ("/g/daemon/old", .file [] true)]) (by decide +kernel) (by decide +kernel)
    (by decide +kernel) (by decide +kernel)
  exact run_delivers hcontracted (by decide +kernel) (by decide +kernel) (by decide +kernel)

/-- A directory whose name is longer than a system accepts. -/
def longScripts : Path := ⟨Path.slash :: List.replicate 256 0x62⟩

/-- A run that delivers does not fail. -/
private theorem Delivers.isOk (h : Delivers p value tree memory content is D P F) :
    (p.run value (.start tree memory)).1.isOk = true := by
  obtain ⟨version, after, -, hrun, -⟩ := h
  rw [hrun]
  rfl

/-- A file where the build results belong is not removed, the backup of the manifest cannot be written where
    the run starts, and a name that is too long cannot be made. -/
theorem not_run_delivers :
    (¬ ∀ (p : Pipeline Unit) (value : Option String) (tree : FileTree) (content : Bytes) (is : Bool)
        (D P F : FileTree), Contracted p value tree () content is D P F →
      ¬ p.config.placeOf .backup <+: p.config.layout.buildScripts.place →
      (∀ path ∈ p.config.handed D F, path.Accepted) → Delivers p value tree () content is D P F) ∧
    (¬ ∀ (p : Pipeline Unit) (value : Option String) (tree : FileTree) (content : Bytes) (is : Bool)
        (D P F : FileTree), Contracted p value tree () content is D P F →
      (∀ site ∈ [Site.dist, .finalInstaller, .guiDaemon], tree.IsOpen (p.config.placeOf site)) →
      (∀ path ∈ p.config.handed D F, path.Accepted) → Delivers p value tree () content is D P F) ∧
    ¬ ∀ (p : Pipeline Unit) (value : Option String) (tree : FileTree) (content : Bytes) (is : Bool)
        (D P F : FileTree), Contracted p value tree () content is D P F →
      (∀ site ∈ [Site.dist, .finalInstaller, .guiDaemon], tree.IsOpen (p.config.placeOf site)) →
      ¬ p.config.placeOf .backup <+: p.config.layout.buildScripts.place →
      Delivers p value tree () content is D P F := by
  refine ⟨fun hclaim => ?_, fun hclaim => ?_, fun hclaim => ?_⟩
  · have hdelivers := hclaim _ _ _ _ _ _ _ _ (contracted_small "/b" (smallTree [("/b/dist", .file [] false)])
      (by decide +kernel) (by decide +kernel) (by decide +kernel) (by decide +kernel)) (by decide +kernel)
      (by decide +kernel)
    exact absurd hdelivers.isOk (by decide +kernel)
  · have hdelivers := hclaim _ _ _ _ _ _ _ _ (contracted_small "/g/package.json.hydrangea-release-backup" (smallTree [])
      (by decide +kernel) (by decide +kernel) (by decide +kernel) (by decide +kernel)) (by decide +kernel)
      (by decide +kernel)
    exact absurd hdelivers.isOk (by decide +kernel)
  · have hdelivers := hclaim _ _ _ _ _ _ _ _ (contracted_small longScripts (smallTree []) (by decide +kernel)
      (by decide +kernel) (by decide +kernel) (by decide +kernel)) (by decide +kernel) (by decide +kernel)
    exact absurd hdelivers.isOk (by decide +kernel)

end Pipeline

end DebRelease
