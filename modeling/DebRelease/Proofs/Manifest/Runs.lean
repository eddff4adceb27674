import DebRelease.Proofs.Config.Built
import DebRelease.Proofs.Manifest.Guarded
import DebRelease.Proofs.Run.Preserve

namespace DebRelease

open FileTree

variable {σ : Type}

/-- The tree stays well-formed, and all at and above some places stays as it is. -/
def FileTree.Spares (places : List Location) (t t' : FileTree) : Prop :=
  t'.WellFormed ∧ ∀ place ∈ places, ∀ above, above <+: place → t'.get? above = t.get? above

/-- Tools whose calls may change anything but what lies at and above some places. -/
def Runner.Spares (tools : Runner σ) (places : List Location) : Prop :=
  ∀ command t memory, t.WellFormed →
    FileTree.Spares places t (tools.run command t memory).tree ∧
      FileTree.Spares places t (tools.capture command t memory).tree

namespace Manifest

/-- A tree in which a manifest and its backup are what they were. -/
structure Kept (dir : Location) (name : Bytes) (manifest : Entry) (backup : Option Entry) (t : FileTree) :
    Prop where
  wellFormed : t.WellFormed
  manifest : t.get? (dir ++ [name]) = some manifest
  backup : t.get? (dir ++ [backupName name]) = backup

/-- A place may be rebuilt if the manifest does not lie at or below it, and making it makes no backup. -/
structure Apart (dir : Location) (name : Bytes) (backup : Option Entry) (place : Location) : Prop where
  manifest : ¬ place <+: dir ++ [name]
  ne_backup : place ≠ dir ++ [backupName name]
  /-- If there is no backup, the place is not below it. -/
  not_below : backup = none → ¬ dir ++ [backupName name] <+: place

namespace Kept

variable {dir : Location} {name content : Bytes} {manifest : Entry} {backup : Option Entry} {t t' : FileTree}
    {is : Bool}

theorem of_spares (h : Kept dir name manifest backup t)
    (hspares : FileTree.Spares [dir ++ [name], dir ++ [backupName name]] t t') : Kept dir name manifest backup t' := by
  obtain ⟨hwf, hsame⟩ := hspares
  refine ⟨hwf, ?_, ?_⟩
  · rw [hsame _ (by simp) _ List.prefix_rfl, h.manifest]
  · rw [hsame _ (by simp) _ List.prefix_rfl, h.backup]

theorem of_within {places : List Location} (h : Kept dir name manifest backup t)
    (hwf : t'.WellFormed) (hwithin : Within places t t') (hapart : ∀ place ∈ places, Apart dir name backup place) :
    Kept dir name manifest backup t' := by
  have hbackup : ∀ place ∈ places, ¬ place <+: dir ++ [backupName name] := by
    intro place hmem hpre
    rcases List.prefix_concat_iff.mp hpre with heq | habove
    · exact (hapart place hmem).ne_backup heq
    · exact (hapart place hmem).manifest (habove.trans (List.prefix_append _ _))
  refine ⟨hwf, ?_, ?_⟩
  · rw [hwithin.get?_eq (fun place hmem => (hapart place hmem).manifest) (.inl (by simp [h.manifest])), h.manifest]
  · rw [hwithin.get?_eq hbackup ?_, h.backup]
    rw [h.backup]
    by_cases hnone : backup = none
    · exact .inr fun place hmem => (hapart place hmem).not_below hnone
    · exact .inl hnone

theorem preserves_tools {tools : Runner σ} (h : tools.Spares [dir ++ [name], dir ++ [backupName name]]) :
    tools.Preserves (Kept dir name manifest backup) := by
  intro command t memory hkept
  obtain ⟨hrun, hcapture⟩ := h command t memory hkept.wellFormed
  exact ⟨hkept.of_spares hrun, hkept.of_spares hcapture⟩

end Kept

end Manifest

namespace Pipeline

open RunM Manifest

variable {p : Pipeline σ} {dir : Location} {name content : Bytes} {is : Bool} {backup : Option Entry}

/-- A manifest that was guarded is restored whatever becomes of the tool. -/
theorem session_package {manifest : Path} {version : String} {command : ToolCommand} {g : Guard}
    {s guarded : Session σ} (h : Guard.acquire p.cwd manifest version s = (.ok g, guarded)) :
    ∃ log, (package p manifest version command s).2 =
      { (Guard.restore p.cwd g (runTool p.tools command guarded).2).2 with log } := by
  rw [package, run_bind, h]
  dsimp only
  rw [run_bind, run_attempt]
  dsimp only
  rw [run_bind, run_attempt]
  dsimp only
  cases (runTool p.tools command guarded).1 with
  | error e => cases (Guard.restore p.cwd g (runTool p.tools command guarded).2).1 <;> exact ⟨_, rfl⟩
  | ok => cases (Guard.restore p.cwd g (runTool p.tools command guarded).2).1 <;> exact ⟨_, rfl⟩

theorem tree_package {manifest : Path} {version : String} {command : ToolCommand} {g : Guard}
    {s guarded : Session σ} (h : Guard.acquire p.cwd manifest version s = (.ok g, guarded)) :
    (package p manifest version command s).2.tree =
      (Guard.restore p.cwd g (runTool p.tools command guarded).2).2.tree := by
  obtain ⟨log, hlog⟩ := session_package h
  rw [hlog]

/-- Packaging with a manifest that was guarded makes one call. -/
theorem calls_package {manifest : Path} {version : String} {command : ToolCommand} {g : Guard}
    {s guarded : Session σ} (h : Guard.acquire p.cwd manifest version s = (.ok g, guarded)) :
    (package p manifest version command s).2.calls = s.calls ++ [ran p.tools command guarded] := by
  have hacquired := (Guard.asks_acquire p.cwd manifest version s).1
  have hrestored := (Guard.asks_restore p.cwd g (runTool p.tools command guarded).2).1
  obtain ⟨log, hsession⟩ := session_package h
  rw [h, List.append_nil] at hacquired
  rw [calls_runTool, List.append_nil] at hrestored
  rw [hsession]
  exact hrestored.trans (congrArg (· ++ _) hacquired)

/-- Packaging leaves the manifest and its backup as they were. -/
theorem package_kept (htools : p.tools.Spares [dir ++ [name], dir ++ [backupName name]])
    (hlink : ∀ link, backup ≠ some (.symlink link)) (version : String) (command : ToolCommand) :
    Preserves (package p (.ofLocation (dir ++ [name])) version command)
      (Kept dir name (.file content is) backup) := by
  intro s h
  rcases Guard.acquire_at p.cwd version h.wellFormed h.manifest (by rw [h.backup]; exact hlink) with
    ⟨e, hrun⟩ | ⟨versioned, -, hnone, hspells, hspellsBackup, hrun⟩
  · rw [package, run_bind, hrun]
    exact h
  · have hdir := h.wellFormed.parent h.manifest
    have hbacked : (s.tree.set (dir ++ [backupName name]) (.file content false)).WellFormed :=
      h.wellFormed.set hdir (hspellsBackup.entryName _ (by simp)) (by simp [hnone]) (by simp)
    have hmanifest : (s.tree.set (dir ++ [backupName name]) (.file content false)).get? (dir ++ [name]) =
        some (.file content is) := by
      rw [get?_set_backup, h.manifest]
    -- What the tool finds: the backup holds the bytes and the manifest the version.
    obtain ⟨⟨hwf, hsame⟩, -⟩ := htools command
      ((s.tree.set (dir ++ [backupName name]) (.file content false)).set (dir ++ [name]) (.file versioned is))
      s.memory (hbacked.set_file hmanifest)
    have hversioned := hsame (dir ++ [name]) (by simp) _ List.prefix_rfl
    have hcontent := hsame (dir ++ [backupName name]) (by simp) _ List.prefix_rfl
    rw [get?_set_self _ _ (by simp)] at hversioned
    rw [get?_set_manifest, get?_set_self _ _ (by simp)] at hcontent
    rw [tree_package hrun, Guard.restore_at (by rw [tree_runTool]; exact hwf) hspells hspellsBackup
      (by rw [tree_runTool]; exact hversioned) (by rw [tree_runTool]; exact hcontent), tree_runTool]
    have hwf' : ((p.tools.run command
        ((s.tree.set (dir ++ [backupName name]) (.file content false)).set (dir ++ [name]) (.file versioned is))
        s.memory).tree.set (dir ++ [name]) (.file content is)).WellFormed := hwf.set_file hversioned
    refine ⟨hwf'.erase (by simp) fun rest hrest => hwf'.none_below ?_ hrest, ?_, ?_⟩
    · rw [get?_set_manifest, hcontent]
      simp
    · rw [get?_erase _ (by simp), if_neg (backup_ne dir name).symm, get?_set_self _ _ (by simp)]
    · rw [get?_erase _ (by simp), if_pos rfl, ← h.backup, hnone]

/-- The trees in which stages begin, up to the first that fails. -/
def stageTrees (p : Pipeline σ) (total : Nat) : Nat → List Stage → Session σ → List FileTree
  | _, [], _ => []
  | number, stage :: stages, s =>
    s.tree ::
      match perform p stage.action (announced p total number stage s) with
      | (.ok _, after) => stageTrees p total (number + 1) stages after
      | (.error _, _) => []

/-- The trees in which the stages of a run begin. -/
def runTrees (p : Pipeline σ) (value : Option String) (s : Session σ) : List FileTree :=
  match resolveVersion p value (opened p s) with
  | (.error _, _) => []
  | (.ok version, ready) => stageTrees p (p.config.plan version).length 1 (p.config.plan version) ready

/-- The sessions that runs one after another leave, each run given its value of the version variable. -/
def runs (p : Pipeline σ) : List (Option String) → Session σ → List (Session σ)
  | [], _ => []
  | value :: values, s => (p.run value s).2 :: runs p values (p.run value s).2

/-- The trees in which stages begin, over runs one after another. -/
def runsTrees (p : Pipeline σ) : List (Option String) → Session σ → List FileTree
  | [], _ => []
  | value :: values, s => runTrees p value s ++ runsTrees p values (p.run value s).2

/-- A stage that may run beside a manifest: it rebuilds nothing that matters to the manifest, and
    packages with no other manifest. -/
structure Beside (dir : Location) (name : Bytes) (backup : Option Entry) (stage : Stage) : Prop where
  rebuilt : ∀ path ∈ stage.action.rebuilt, path.IsDirect ∧ Apart dir name backup path.place
  package : ∀ manifest version command, stage.action = .package manifest version command →
    manifest = .ofLocation (dir ++ [name])

theorem perform_kept {stage : Stage} (htools : p.tools.Spares [dir ++ [name], dir ++ [backupName name]])
    (hlink : ∀ link, backup ≠ some (.symlink link)) (hbeside : Beside dir name backup stage) {s : Session σ}
    (hplain : ∀ path ∈ stage.action.rebuilt, s.tree.IsPlain path.place)
    (h : Kept dir name (.file content is) backup s.tree) :
    Kept dir name (.file content is) backup (perform p stage.action s).2.tree := by
  by_cases hpackage : ∃ manifest version command, stage.action = .package manifest version command
  · obtain ⟨manifest, version, command, haction⟩ := hpackage
    obtain rfl := hbeside.package manifest version command haction
    rw [haction]
    exact (package_kept htools hlink version command).bind (fun _ => .pure _) s h
  · refine perform_within (Kept.preserves_tools htools) (fun _ hkept => hkept.wellFormed) ?_ ?_
      (fun path hmem => (hbeside.rebuilt path hmem).1) hplain h
    · intro t t' hkept hwf hwithin
      refine hkept.of_within hwf hwithin fun place hmem => ?_
      obtain ⟨path, hpath, rfl⟩ := List.mem_map.mp hmem
      exact (hbeside.rebuilt path hpath).2
    · exact fun manifest version command haction => hpackage ⟨manifest, version, command, haction⟩

/-- Stages performed one after another keep the manifest, wherever they end. -/
theorem performAll_kept (total : Nat) {stages : List Stage}
    (htools : p.tools.Spares [dir ++ [name], dir ++ [backupName name]])
    (hlink : ∀ link, backup ≠ some (.symlink link)) (hbeside : ∀ stage ∈ stages, Beside dir name backup stage)
    (number : Nat) (listed : List Artifact) {s : Session σ}
    (hplain : ∀ t ∈ stageTrees p total number stages s, ∀ stage ∈ stages, ∀ path ∈ stage.action.rebuilt,
      t.IsPlain path.place)
    (h : Kept dir name (.file content is) backup s.tree) :
    Kept dir name (.file content is) backup (performAll p total number listed stages s).2.tree := by
  induction stages generalizing number listed s with
  | nil => exact h
  | cons stage stages ih =>
    rw [stageTrees] at hplain
    have hstage := perform_kept htools hlink (hbeside stage List.mem_cons_self)
      (s := announced p total number stage s) (hplain _ List.mem_cons_self stage List.mem_cons_self) h
    rw [performAll_cons]
    cases hrun : perform p stage.action (announced p total number stage s) with
    | mk outcome after =>
      rw [hrun] at hplain hstage
      cases outcome with
      | error e => exact hstage
      | ok found =>
        refine ih (fun other hmem => hbeside other (List.mem_cons_of_mem _ hmem)) (number + 1) _ ?_ hstage
        exact fun t ht other hmem => hplain t (List.mem_cons_of_mem _ ht) other (List.mem_cons_of_mem _ hmem)

theorem run_kept (value : Option String) (htools : p.tools.Spares [dir ++ [name], dir ++ [backupName name]])
    (hlink : ∀ link, backup ≠ some (.symlink link))
    (hbeside : ∀ version, ∀ stage ∈ p.config.plan version, Beside dir name backup stage) {s : Session σ}
    (hplain : ∀ t ∈ runTrees p value s, ∀ version, ∀ stage ∈ p.config.plan version,
      ∀ path ∈ stage.action.rebuilt, t.IsPlain path.place)
    (h : Kept dir name (.file content is) backup s.tree) :
    Kept dir name (.file content is) backup (p.run value s).2.tree := by
  have hready := preserves_resolveVersion (Kept.preserves_tools htools) value (opened p s) h
  rw [run_eq]
  rw [runTrees] at hplain
  cases hversion : resolveVersion p value (opened p s) with
  | mk outcome ready =>
    rw [hversion] at hready hplain
    cases outcome with
    | error cause => exact hready
    | ok version =>
      have hall := performAll_kept (p.config.plan version).length htools hlink (hbeside version) 1 []
        (fun t ht => hplain t ht version) hready
      dsimp only
      cases hperform : performAll p (p.config.plan version).length 1 [] (p.config.plan version) ready with
      | mk outcome after =>
        rw [hperform] at hall
        cases outcome <;> exact hall

/-- The stages of a plan may run beside the manifest, if what they rebuild is apart from it. -/
theorem beside_plan (hbuilt : p.config.Built) (hname : Path.dotDot ∉ (Path.ofText p.config.outputDirName).names)
    (hmanifest : p.config.layout.guiManifest = .ofLocation (dir ++ [name]))
    (hapart : ∀ path ∈ p.config.rebuilt, Apart dir name backup path.place) (version : Version) :
    ∀ stage ∈ p.config.plan version, Beside dir name backup stage := by
  have hmem : ∀ stage ∈ p.config.plan version, ∀ path ∈ stage.action.rebuilt, path ∈ p.config.rebuilt := by
    simp [Config.plan, Action.rebuilt, Config.rebuilt]
  have hpackage : ∀ stage ∈ p.config.plan version, ∀ manifest version command,
      stage.action = .package manifest version command → manifest = p.config.layout.guiManifest := by
    simp [Config.plan]
  intro stage hstage
  refine ⟨fun path hpath => ?_, fun manifest version command haction => ?_⟩
  · have hrebuilt := hmem stage hstage path hpath
    exact ⟨hbuilt.rebuilt hname path hrebuilt, hapart path hrebuilt⟩
  · rw [hpackage stage hstage manifest version command haction, hmanifest]

/-- What the manifest is promised over runs: it is a file, it and its backup are left alone by the tools
    and lie apart from what is rebuilt, and no link is in the way of that. -/
structure Undisturbed (p : Pipeline σ) (values : List (Option String)) (s : Session σ) (content : Bytes)
    (is : Bool) : Prop where
  built : p.config.Built
  wellFormed : s.tree.WellFormed
  manifest : s.tree.get? p.config.manifestPlace = some (.file content is)
  backup : ∀ entry ∈ s.tree.get? p.config.backupPlace, entry.isSymlink = false
  tools : p.tools.Spares [p.config.manifestPlace, p.config.backupPlace]
  /-- The manifest is not at or below a place that is rebuilt. -/
  apart : ∀ place ∈ p.config.rebuiltPlaces, ¬ place <+: p.config.manifestPlace
  /-- Where a stage begins, no link is at or above a place that is rebuilt. -/
  plain : ∀ t ∈ p.runsTrees values s, ∀ place ∈ p.config.rebuiltPlaces, t.IsPlain place

/-- After each of the runs the manifest and its backup are what they were before the first. -/
def KeepsManifest (p : Pipeline σ) (values : List (Option String)) (s : Session σ) (content : Bytes)
    (is : Bool) : Prop :=
  ∀ after ∈ p.runs values s, after.tree.get? p.config.manifestPlace = some (.file content is) ∧
    after.tree.get? p.config.backupPlace = s.tree.get? p.config.backupPlace

/-- Over runs one after another, each of which may end in any stage, the manifest and its backup stay as
    they were before the first run. The directory of the application must not be named by going up, and
    nothing that is rebuilt may be the backup or, if there is none, lie below it. -/
theorem runs_keep_manifest {values : List (Option String)} {s : Session σ}
    (h : Undisturbed p values s content is)
    (hname : Path.dotDot ∉ (Path.ofText p.config.outputDirName).names)
    (hbackup : ∀ place ∈ p.config.rebuiltPlaces, place ≠ p.config.backupPlace ∧
      (s.tree.get? p.config.backupPlace = none → ¬ p.config.backupPlace <+: place)) :
    KeepsManifest p values s content is := by
  rw [KeepsManifest]
  obtain ⟨hbuilt, hwf, hmanifest, hlink, htools, hapart, hplain⟩ := h
  obtain ⟨dir, hpath, hplace, hplaceBackup⟩ := hbuilt.manifest
  rw [hplace] at hmanifest htools hapart ⊢
  rw [hplaceBackup] at hlink htools hbackup ⊢
  have hlink : ∀ link, s.tree.get? (dir ++ [backupName Layout.manifestName]) ≠ some (.symlink link) :=
    fun link hget => by cases hlink _ hget
  have hbeside := beside_plan hbuilt hname hpath fun path hmem =>
    Apart.mk (hapart _ (Config.place_mem_rebuiltPlaces hmem)) (hbackup _ (Config.place_mem_rebuiltPlaces hmem)).1
      (hbackup _ (Config.place_mem_rebuiltPlaces hmem)).2
  have hrebuilt : ∀ version, ∀ stage ∈ p.config.plan version, ∀ path ∈ stage.action.rebuilt,
      path.place ∈ p.config.rebuiltPlaces := by
    intro version stage hstage path hpath
    refine Config.place_mem_rebuiltPlaces (c := p.config) ?_
    revert stage path
    simp [Config.plan, Action.rebuilt, Config.rebuilt]
  suffices hall : ∀ start : Session σ, (∀ t ∈ p.runsTrees values start, ∀ place ∈ p.config.rebuiltPlaces,
      t.IsPlain place) → Kept dir Layout.manifestName (.file content is)
        (s.tree.get? (dir ++ [backupName Layout.manifestName])) start.tree →
      ∀ after ∈ p.runs values start, Kept dir Layout.manifestName (.file content is)
        (s.tree.get? (dir ++ [backupName Layout.manifestName])) after.tree by
    intro after hafter
    have hkept := hall s hplain ⟨hwf, hmanifest, rfl⟩ after hafter
    exact ⟨hkept.manifest, hkept.backup⟩
  clear hplain hmanifest hwf
  -- One run keeps what the next one needs.
  induction values with
  | nil => simp [runs]
  | cons value values ih =>
    intro start hplain hkept after hafter
    rw [runsTrees] at hplain
    have hrun := run_kept value htools hlink hbeside
      (fun t ht version stage hstage path hpath =>
        hplain t (List.mem_append_left _ ht) _ (hrebuilt version stage hstage path hpath)) hkept
    rcases List.mem_cons.mp hafter with rfl | hafter
    · exact hrun
    · exact ih _ (fun t ht => hplain t (List.mem_append_right _ ht)) hrun after hafter

/-- Tools that succeed, but for one program, and make given trees of others. -/
def scripted (failing : String) (edits : List (String × FileTree × FileTree)) : Runner Unit where
  run command t _ :=
    let after := (edits.find? fun edit => edit.1 = command.program && edit.2.1 = t).map fun edit => edit.2.2
    ⟨.ok ⟨some (if command.program = failing then 1 else 0)⟩, after.getD t, (), []⟩
  capture _ t _ := ⟨.ok ⟨.ok, "daemon.spec"⟩, t, (), []⟩

theorem spares_scripted {failing : String} {edits : List (String × FileTree × FileTree)} {places : List Location}
    (h : ∀ edit ∈ edits, edit.2.2.WellFormed ∧
      ∀ place ∈ places, ∀ above ∈ place.inits, edit.2.2.get? above = edit.2.1.get? above) :
    (scripted failing edits).Spares places := by
  intro command t memory hwf
  refine ⟨?_, hwf, fun _ _ _ _ => rfl⟩
  simp only [scripted]
  cases hfind : edits.find? fun edit => edit.1 = command.program && edit.2.1 = t with
  | none => exact ⟨hwf, fun _ _ _ _ => rfl⟩
  | some edit =>
    have hfound := List.find?_some hfind
    simp only [Bool.and_eq_true, decide_eq_true_eq] at hfound
    obtain ⟨hwf', hsame⟩ := h edit (List.mem_of_find?_eq_some hfind)
    refine ⟨hwf', fun place hmem above hpre => ?_⟩
    rw [← hfound.2]
    exact hsame place hmem above ((List.mem_inits above place).mpr hpre)

/-- Settings for a run from `scripts` on the package `/g`. -/
def smallDraft (scripts : Path) (product : String) : ConfigDraft :=
  { ConfigDraft.empty with
    platform := some .amd64
    buildScripts := some scripts
    gui := some "/"
    guiPackage := some "/g"
    product := { Product.default with name := product } }

/-- A run from `scripts` on the package `/g`. -/
def small (scripts : Path) (product : String) (tools : Runner Unit) : Pipeline Unit where
  config :=
    { platform := .amd64
      layout := (smallDraft scripts product).layout "/"
      tools := .default
      product := { Product.default with name := product }
      versioning := .default
      searchPath := none
      toolSearchPath := ((smallDraft scripts product).layout "/").toolBin.bytes }
  tools
  console := ⟨false, true, false⟩
  cwd := some []

/-- The tree of given paths. -/
def treeOf (entries : List (Path × Entry)) : FileTree :=
  ⟨entries.map fun (path, entry) => (path.place, entry)⟩

/-- The package `/g` with its manifest, the directory `/b`, and further entries. -/
def smallTree (more : List (Path × Entry)) : FileTree :=
  treeOf (("/b", .directory) :: ("/g", .directory) ::
    ("/g/package.json", .file (Bytes.ofText "\x7b\x7d") false) :: more)

/-- Tools that freeze a daemon and fail to package. -/
def failingTools : Runner Unit :=
  scripted "electron-packager"
    [("pyinstaller", smallTree [("/b/dist", .directory)],
        smallTree [("/b/dist", .directory), ("/b/dist/daemon", .directory)]),
      ("pyinstaller", smallTree [("/g/daemon", .directory), ("/b/dist", .directory)],
        smallTree [("/g/daemon", .directory), ("/b/dist", .directory), ("/b/dist/daemon", .directory)])]

/-- Two runs fail to package, while the manifest carries a version. -/
theorem runs_keep_manifest_failing :
    KeepsManifest (small "/b" "y" failingTools) [none, some "1.2.0"] (Session.start (smallTree []) ())
      (Bytes.ofText "\x7b\x7d") false :=
  runs_keep_manifest ⟨⟨smallDraft "/b" "y", ⟨.ok "/", none⟩, by decide +kernel⟩, by decide +kernel,
    by decide +kernel, by decide +kernel, spares_scripted (by decide +kernel), by decide +kernel,
    by decide +kernel⟩ (by decide +kernel) (by decide +kernel)

/-- A run from scripts that lie where the backup of the manifest would. -/
def scriptsAtBackup : Pipeline Unit :=
  small "/g/package.json.hydrangea-release-backup" "y" (scripted "pip" [])

/-- Tools that freeze a daemon, and leave a link to the manifest where a file of the application will go. -/
def linkingTools : Runner Unit :=
  scripted ""
    [("pyinstaller", smallTree [("/b/dist", .directory)],
        smallTree [("/b/dist", .directory), ("/b/dist/daemon", .directory)]),
      ("npm", smallTree [("/b/dist", .directory), ("/b/dist/daemon", .directory), ("/g/daemon", .directory)],
        smallTree [("/b/dist", .directory), ("/b/dist/daemon", .directory), ("/g/daemon", .directory),
          ("/g/x", .directory), ("/g/y-linux-x64", .directory), ("/g/y-linux-x64/f", .file [] false),
          ("/b/dist/y-linux-x64", .directory), ("/b/dist/y-linux-x64/f", .symlink "/g/package.json")])]

/-- Scripts that lie where the backup would make a directory of it, and a directory of the application
    that is named by going up is copied through a link to the manifest. -/
theorem not_runs_keep_manifest :
    (¬ ∀ (p : Pipeline Unit) (values : List (Option String)) (s : Session Unit) (content : Bytes) (is : Bool),
      Undisturbed p values s content is → Path.dotDot ∉ (Path.ofText p.config.outputDirName).names →
        KeepsManifest p values s content is) ∧
      ¬ ∀ (p : Pipeline Unit) (values : List (Option String)) (s : Session Unit) (content : Bytes) (is : Bool),
        Undisturbed p values s content is → (∀ place ∈ p.config.rebuiltPlaces, place ≠ p.config.backupPlace ∧
          (s.tree.get? p.config.backupPlace = none → ¬ p.config.backupPlace <+: place)) →
          KeepsManifest p values s content is := by
  constructor
  · intro hclaim
    have hkept := hclaim scriptsAtBackup [some "1"] (Session.start (smallTree []) ()) (Bytes.ofText "\x7b\x7d") false
      ⟨⟨smallDraft "/g/package.json.hydrangea-release-backup" "y", ⟨.ok "/", none⟩, by decide +kernel⟩,
        by decide +kernel, by decide +kernel, by decide +kernel, spares_scripted (by decide +kernel),
        by decide +kernel, by decide +kernel⟩ (by decide +kernel)
    exact absurd (hkept _ List.mem_cons_self).2 (by decide +kernel)
  · intro hclaim
    have hkept := hclaim (small "/b" "x/../y" linkingTools) [some "1"] (Session.start (smallTree []) ())
      (Bytes.ofText "\x7b\x7d") false
      ⟨⟨smallDraft "/b" "x/../y", ⟨.ok "/", none⟩, by decide +kernel⟩, by decide +kernel, by decide +kernel,
        by decide +kernel, spares_scripted (by decide +kernel), by decide +kernel, by decide +kernel⟩
      (by decide +kernel)
    exact absurd (hkept _ List.mem_cons_self).1 (by decide +kernel)

end Pipeline

end DebRelease
