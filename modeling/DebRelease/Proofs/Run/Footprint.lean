import DebRelease.Proofs.Manifest.Edits
import DebRelease.Proofs.Run.Confined
import DebRelease.Proofs.Run.Versioned

namespace DebRelease

open FileTree Manifest RunM

variable {σ : Type}

/-- The paths that an action is given. -/
def Action.given : Action → List Path
  | .recreate path => [path]
  | .copy source target | .move source target => [source, target]
  | .package manifest _ _ => [manifest]
  | .run _ | .freeze .. | .list _ => []

/-- The paths that an action guards: a manifest and its backup. -/
def Action.guarded : Action → List Path
  | .package manifest _ _ => [manifest, backupOf manifest]
  | .run _ | .freeze .. | .recreate _ | .copy .. | .move .. | .list _ => []

theorem Action.rebuilt_subset_given (action : Action) : action.rebuilt ⊆ action.given := by
  cases action <;> simp [Action.rebuilt, Action.given]

/-- Work on the spots that makes no calls is confined to them. -/
theorem RunM.Confined.of_preserves {α : Type} {places spots : List Location} {m : RunM σ α} {s : Session σ}
    (hwf : s.tree.WellFormed) (hcalls : (m s).2.calls = s.calls ++ []) (h : Preserves m (Edited spots s.tree)) :
    Confined places spots m s := by
  have hedited := h s (.refl hwf spots)
  exact .of_changes hedited.wellFormed (by rw [hcalls, List.append_nil]) (.of_same hedited.same places)

/-- What a stage rebuilds lies at some places, and what it guards lies at some spots. -/
structure Stage.Bounded (places spots : List Location) (stage : Stage) : Prop where
  rebuilt : ∀ path ∈ stage.action.rebuilt, path.IsDirect ∧ path.place ∈ places
  guarded : ∀ path ∈ stage.action.guarded, path.IsDirect ∧ path.place ∈ spots

/-- No link is in the way of a stage's own work. -/
structure Pipeline.Clear (p : Pipeline σ) (b : Beginning σ) : Prop where
  /-- Where the stage begins, no link is in the way of what it rebuilds. -/
  rebuilt : ∀ path ∈ b.stage.action.rebuilt, b.session.tree.IsPlain path.place
  guarded : ∀ path ∈ b.stage.action.guarded, b.session.tree.IsPlain path.place
  /-- Its calls have put no link in the way of what it guards. -/
  called : ∀ call ∈ p.callsOf b, ∀ path ∈ b.stage.action.guarded, call.after.IsPlain path.place

namespace Pipeline

variable {p : Pipeline σ} {places spots : List Location} {s : Session σ}

private theorem runVersionCommand_confined (hwf : s.tree.WellFormed) (htools : p.tools.Preserves WellFormed)
    (command : VersionCommand) : Confined places spots (runVersionCommand p command) s := by
  have hask (s : Session σ) (hwf : s.tree.WellFormed) :
      Confined places spots (askVersion p.tools (versionTool p.config command.program command.args)) s :=
    (Confined.captureTool hwf htools _).bind fun _ _ _ hwf => .pure hwf _
  rw [runVersionCommand_eq]
  split
  · exact hask s hwf
  · exact (Confined.runTool hwf htools _).bind fun _ after _ hwf => hask after hwf

theorem resolveVersion_confined (hwf : s.tree.WellFormed) (htools : p.tools.Preserves WellFormed)
    (value : Option String) : Confined places spots (resolveVersion p value) s := by
  have hshow (version : Version) (s : Session σ) (hwf : s.tree.WellFormed) :
      Confined places spots (showVersion p version) s := by
    have hcalls := (asks_showVersion p version s).1
    rw [List.append_nil] at hcalls
    exact .of_still hwf hcalls (preserves_showVersion (I := (· = s.tree)) version s rfl)
  rw [resolveVersion_eq]
  split
  · exact (runVersionCommand_confined hwf htools _).bind fun _ after _ hwf => hshow _ after hwf
  · exact hshow _ s hwf

private theorem freeze_confined (hwf : s.tree.WellFormed) (htools : p.tools.Preserves WellFormed)
    (locate freezer : ToolCommand) : Confined places spots (freeze p locate freezer) s := by
  refine (Confined.captureTool hwf htools locate).bind fun stdout after _ hwf => ?_
  dsimp only
  split
  · exact .throw hwf _
  · exact (Confined.log hwf _ _).bind fun _ logged _ hwf => .runTool hwf htools _

/-- Packaging changes nothing by itself but the manifest and its backup, unless the tool puts a link in the way. -/
theorem package_confined {manifest : Path} (hwf : s.tree.WellFormed) (htools : p.tools.Preserves WellFormed)
    (version : String) (command : ToolCommand) (hspot : ∀ path ∈ [manifest, backupOf manifest], Spot spots s.tree path)
    (hcalled : ∀ call ∈ (package p manifest version command s).2.calls.drop s.calls.length,
      ∀ path ∈ [manifest, backupOf manifest], call.after.IsPlain path.place) :
    Confined places spots (package p manifest version command) s := by
  obtain ⟨hmanifest, hbackup⟩ : Spot spots s.tree manifest ∧ Spot spots s.tree (backupOf manifest) :=
    ⟨hspot _ (by simp), hspot _ (by simp)⟩
  have hacquire : Confined places spots (Guard.acquire p.cwd manifest version) s :=
    .of_preserves hwf (Guard.asks_acquire p.cwd manifest version s).1
      (Guard.preserves_acquire hmanifest hbackup version)
  refine hacquire.bind fun g guarded hguarded hwf => ?_
  obtain ⟨-, rfl, -⟩ := Guard.acquire_eq_ok hguarded
  rw [calls_package hguarded, List.drop_left, List.forall_mem_singleton] at hcalled
  refine (Confined.runTool hwf htools command).attempt.bind fun outcome called hcall hwf => ?_
  -- The guard is restored on the tree that the packager leaves, where it may have put links.
  have htree : called.tree = (ran p.tools command guarded).after := by
    rw [run_attempt, Prod.mk.injEq] at hcall
    rw [← hcall.2, tree_runTool]
    rfl
  have hrestore : Confined places spots (Guard.restore p.cwd g) called :=
    .of_preserves hwf (Guard.asks_restore p.cwd g called).1
      (Guard.preserves_restore ⟨hmanifest.direct, htree ▸ hcalled g.manifest (by simp), hmanifest.mem⟩
        ⟨hbackup.direct, htree ▸ hcalled g.backup (by simp [Guard.backup]), hbackup.mem⟩)
  refine hrestore.attempt.bind fun restored after _ hwf => ?_
  rcases outcome with e | _ <;> rcases restored with e' | _
  · exact (Confined.log hwf _ _).bind fun _ _ _ hwf => .throw hwf _
  · exact .throw hwf _
  · exact .throw hwf _
  · exact .pure hwf _

/-- What a stage changes by itself lies where it rebuilds and guards. -/
theorem perform_confined {b : Beginning σ} (hwf : b.session.tree.WellFormed) (htools : p.tools.Preserves WellFormed)
    (hbounded : b.stage.Bounded places spots) (hclear : p.Clear b) :
    Confined places spots (perform p b.stage.action) b.session := by
  obtain ⟨⟨name, action⟩, later, s⟩ := b
  obtain ⟨hrebuilt, hguarded⟩ := hbounded
  obtain ⟨hplain, hplainGuarded, hcalled⟩ := hclear
  dsimp only at hwf hrebuilt hguarded hplain hplainGuarded hcalled ⊢
  have hwork (hrebuilds : action.rebuilt ≠ []) : Confined places spots (perform p action) s := by
    obtain ⟨hwf', hwithin⟩ := perform_rebuilds hrebuilds hwf (fun path hmem => (hrebuilt path hmem).1) hplain
    refine .of_changes hwf' (calls_perform_of_rebuilds hrebuilds s) ?_
    refine (ChangesOnly.of_within hwithin spots).mono (fun place hmem => ?_) (List.Subset.refl _)
    obtain ⟨path, hpath, rfl⟩ := List.mem_map.mp hmem
    exact (hrebuilt path hpath).2
  cases action with
  | run command => exact (Confined.runTool hwf htools command).bind fun _ _ _ hwf => .pure hwf _
  | freeze locate freezer => exact (freeze_confined hwf htools locate freezer).bind fun _ _ _ hwf => .pure hwf _
  | recreate | copy | move => exact hwork (by simp [Action.rebuilt])
  | package manifest version command =>
    refine (package_confined hwf htools version command (fun path hmem => ?_) ?_).bind fun _ _ _ hwf => .pure hwf _
    · exact ⟨(hguarded path hmem).1, hplainGuarded path hmem, (hguarded path hmem).2⟩
    · rwa [callsOf, perform, session_bind_pure (package p manifest version command) fun _ => none] at hcalled
  | list path =>
    have hcalls := (asks_listArtifacts p path s).1
    rw [List.append_nil] at hcalls
    refine Confined.bind (.of_still hwf hcalls ?_) fun _ _ _ hwf => .pure hwf _
    exact preserves_listArtifacts (I := (· = s.tree)) path s rfl

/-- Stages performed one after another are confined to what they rebuild and guard. -/
theorem performAll_confined (hwf : s.tree.WellFormed) (htools : p.tools.Preserves WellFormed) {stages : List Stage}
    (hbounded : ∀ stage ∈ stages, stage.Bounded places spots) (total number : Nat) (listed : List Artifact)
    (hclear : ∀ b ∈ stagesBegun p total number stages s, p.Clear b) :
    Confined places spots (performAll p total number listed stages) s := by
  induction stages generalizing number listed s with
  | nil => exact .pure hwf listed
  | cons stage stages ih =>
    rw [performAll]
    refine (Confined.emit hwf _).bind fun _ ready hready hwf => ?_
    obtain rfl : announced p total number stage s = ready := (Prod.mk.inj hready).2
    have hstage := perform_confined hwf htools (hbounded stage List.mem_cons_self)
      (hclear _ (mem_stagesBegun_cons.mpr (.inl rfl)))
    refine (hstage.inStage stage.name).bind fun found after hrun hwf => ?_
    -- A stage that went well went as without its name, so the later ones begin where they are said to.
    have hperform : perform p stage.action (announced p total number stage s) = (.ok found, after) := by
      rw [run_inStage, Prod.mk.injEq] at hrun
      exact Prod.ext (mapError_eq_ok_iff.mp hrun.1) hrun.2
    exact ih hwf (fun other hmem => hbounded other (List.mem_cons_of_mem _ hmem)) _ _ fun b hmem =>
      hclear b (mem_stagesBegun_cons.mpr (.inr ⟨found, after, hperform, hmem⟩))

/-- A run is confined to what its stages rebuild and guard, whatever it comes to. -/
theorem run_confined (hwf : s.tree.WellFormed) (htools : p.tools.Preserves WellFormed) (value : Option String)
    (hbounded : ∀ version, ∀ stage ∈ p.config.plan version, stage.Bounded places spots)
    (hclear : ∀ b ∈ begun p value s, p.Clear b) : Confined places spots (p.run value) s := by
  rw [run]
  refine (Confined.emit hwf _).bind fun _ ready hready hwf => ?_
  obtain rfl : opened p s = ready := (Prod.mk.inj hready).2
  refine ((resolveVersion_confined hwf htools value).inStage _).bind fun version ready hrun hwf => ?_
  have hversion : resolveVersion p value (opened p s) = (.ok version, ready) := by
    rw [run_inStage, Prod.mk.injEq] at hrun
    exact Prod.ext (mapError_eq_ok_iff.mp hrun.1) hrun.2
  have hstages : Confined places spots
      (performAll p (p.config.plan version).length 1 [] (p.config.plan version)) ready :=
    performAll_confined hwf htools (hbounded version) _ 1 [] fun b hmem =>
      hclear b (mem_begun.mpr ⟨version, ready, hversion, hmem⟩)
  exact hstages.bind fun _ _ _ hwf => (Confined.emit hwf _).bind fun _ _ _ hwf => .pure hwf _

/-- What the stages of a plan rebuild and guard, if the directory of the application is not named by going up. -/
theorem bounded_plan (hbuilt : p.config.Built) (hname : Path.dotDot ∉ (Path.ofText p.config.outputDirName).names)
    (version : Version) : ∀ stage ∈ p.config.plan version,
      stage.Bounded (p.config.rebuilt.map Path.place) [p.config.manifestPlace, p.config.backupPlace] := by
  have hrebuilt : ∀ stage ∈ p.config.plan version, ∀ path ∈ stage.action.rebuilt, path ∈ p.config.rebuilt := by
    simp [Config.plan, Action.rebuilt, Config.rebuilt]
  have hguarded : ∀ stage ∈ p.config.plan version, ∀ path ∈ stage.action.guarded,
      path ∈ [p.config.layout.guiManifest, backupOf p.config.layout.guiManifest] := by
    simp [Config.plan, Action.guarded]
  obtain ⟨dir, hmanifest, -, -, hnames⟩ := hbuilt.manifest_isName
  have hbackup : ∀ other ∈ dir ++ [backupName Layout.manifestName], Path.isName other = true := by
    rw [List.forall_mem_append] at hnames ⊢
    exact ⟨hnames.1, by simpa using isName_backupName (hnames.2 _ (List.mem_singleton_self _))⟩
  have hdirect : ∀ path ∈ [p.config.layout.guiManifest, backupOf p.config.layout.guiManifest], path.IsDirect := by
    rw [hmanifest, backupOf_ofLocation, List.forall_mem_cons, List.forall_mem_singleton]
    exact ⟨(Path.isDirect_ofLocation hnames).1, (Path.isDirect_ofLocation hbackup).1⟩
  intro stage hstage
  refine ⟨fun path hpath => ?_, fun path hpath => ⟨hdirect path (hguarded stage hstage path hpath), ?_⟩⟩
  · have hmem := hrebuilt stage hstage path hpath
    exact ⟨hbuilt.rebuilt hname path hmem, List.mem_map_of_mem hmem⟩
  · rcases List.mem_cons.mp (hguarded stage hstage path hpath) with rfl | hpath
    · exact List.mem_cons_self
    · rw [List.mem_singleton.mp hpath]
      exact List.mem_cons_of_mem _ (List.mem_singleton_self _)

/-- Where a stage begins, no link is at or above the paths that it is given. -/
def PlainGiven (p : Pipeline σ) (value : Option String) (s : Session σ) : Prop :=
  ∀ b ∈ begun p value s, ∀ path ∈ b.stage.action.given, b.session.tree.IsPlain path.place

instance (p : Pipeline σ) (value : Option String) (s : Session σ) : Decidable (p.PlainGiven value s) := by
  unfold PlainGiven; infer_instance

/-- Where packaging begins, no link is at or above the manifest and its backup. -/
def PlainBefore (p : Pipeline σ) (value : Option String) (s : Session σ) : Prop :=
  ∀ b ∈ begun p value s, ∀ path ∈ b.stage.action.guarded, b.session.tree.IsPlain path.place

instance (p : Pipeline σ) (value : Option String) (s : Session σ) : Decidable (p.PlainBefore value s) := by
  unfold PlainBefore; infer_instance

/-- When the packager is done, no link is at or above the manifest and its backup. -/
def PlainAfter (p : Pipeline σ) (value : Option String) (s : Session σ) : Prop :=
  ∀ b ∈ begun p value s, ∀ call ∈ callsOf p b, ∀ path ∈ b.stage.action.guarded, call.after.IsPlain path.place

instance (p : Pipeline σ) (value : Option String) (s : Session σ) : Decidable (p.PlainAfter value s) := by
  unfold PlainAfter; infer_instance

/-- What a run is promised. -/
structure Unimpeded (p : Pipeline σ) (value : Option String) (s : Session σ) : Prop where
  built : p.config.Built
  wellFormed : s.tree.WellFormed
  tools : p.tools.Preserves WellFormed
  plain : p.PlainGiven value s

/-- Between the calls of a run nothing changes but what lies at or below the places that are rebuilt, and what lies at
    the manifest and its backup, and directories above the places are made. What else changes, a tool changes. -/
structure KeepsFootprint (p : Pipeline σ) (value : Option String) (s : Session σ) : Prop where
  work : Confined (p.config.rebuilt.map Path.place) [p.config.manifestPlace, p.config.backupPlace] (p.run value) s
  tools : ∀ location, (∀ place ∈ p.config.rebuilt.map Path.place, ¬ place <+: location ∧ ¬ location <+: place) →
    location ∉ [p.config.manifestPlace, p.config.backupPlace] →
      (p.run value s).2.tree.get? location ≠ s.tree.get? location →
        ∃ call ∈ (p.run value s).2.calls.drop s.calls.length, call.after.get? location ≠ call.tree.get? location

/-- A run keeps to its footprint, whatever it comes to and whatever its tools do. The directory of the application must
    not be named by going up, and no link may be at or above the manifest and its backup, neither where packaging begins
    nor when the packager is done. -/
theorem run_keeps_footprint {value : Option String} (h : Unimpeded p value s)
    (hname : Path.dotDot ∉ (Path.ofText p.config.outputDirName).names) (hbefore : p.PlainBefore value s)
    (hafter : p.PlainAfter value s) : KeepsFootprint p value s := by
  obtain ⟨hbuilt, hwf, htools, hplain⟩ := h
  have hconfined := run_confined hwf htools value (bounded_plan hbuilt hname) fun b hmem =>
    ⟨fun path hpath => hplain b hmem path (b.stage.action.rebuilt_subset_given hpath), hbefore b hmem, hafter b hmem⟩
  exact ⟨hconfined, fun location hout hspot hchanged => hconfined.changed_by_tool hout hspot hchanged⟩

/-- A run strays to a location that is apart from what it rebuilds and guards, if it changes what is there and no tool
    does. -/
def Strays (p : Pipeline σ) (value : Option String) (s : Session σ) (location : Location) : Prop :=
  (∀ place ∈ p.config.rebuilt.map Path.place, ¬ place <+: location ∧ ¬ location <+: place) ∧
    location ∉ [p.config.manifestPlace, p.config.backupPlace] ∧
      (p.run value s).2.tree.get? location ≠ s.tree.get? location ∧
        ¬ ∃ call ∈ (p.run value s).2.calls.drop s.calls.length, call.after.get? location ≠ call.tree.get? location

instance (p : Pipeline σ) (value : Option String) (s : Session σ) (location : Location) :
    Decidable (p.Strays value s location) := by
  unfold Strays; infer_instance

theorem KeepsFootprint.not_strays {value : Option String} (h : KeepsFootprint p value s) (location : Location) :
    ¬ p.Strays value s location :=
  fun ⟨hout, hspot, hchanged, hcall⟩ => hcall (h.tools location hout hspot hchanged)

theorem preserves_scripted {failing : String} {edits : List (String × FileTree × FileTree)}
    (h : ∀ edit ∈ edits, edit.2.2.WellFormed) : (scripted failing edits).Preserves WellFormed := by
  have hspares : (scripted failing edits).Spares [] :=
    spares_scripted fun edit hmem => ⟨h edit hmem, fun _ hplace => absurd hplace List.not_mem_nil⟩
  exact fun command t memory hwf => ⟨(hspares command t memory hwf).1.1, (hspares command t memory hwf).2.1⟩

/-- The package `/g` with a manifest, the directory `/b`, a file `/x` beside them, and further entries. -/
def besideTree (manifest : Entry) (more : List (Path × Entry)) : FileTree :=
  treeOf (("/b", .directory) :: ("/g", .directory) :: ("/g/package.json", manifest) ::
    ("/x", .file (Bytes.ofText "mine") false) :: more)

/-- A manifest without a version. -/
def bareManifest : Entry := .file (Bytes.ofText "\x7b\x7d") false

/-- The manifest with a version. -/
def versionedManifest : Entry := .file (Bytes.ofText "\x7b\n  \"version\": \"1\"\n\x7d\n") false

/-- A daemon in the build results, with a link to the file `/x`. -/
def frozenEntries : List (Path × Entry) :=
  [("/b/dist", .directory), ("/b/dist/daemon", .directory), ("/b/dist/daemon/l", .symlink "/x")]

/-- The daemon, and its copy in the package. -/
def stagedEntries : List (Path × Entry) :=
  [("/b/dist", .directory), ("/b/dist/daemon", .directory), ("/b/dist/daemon/l", .symlink "/x"),
    ("/g/daemon", .directory), ("/g/daemon/l", .symlink "/x")]

/-- Tools that freeze that daemon. While the manifest is guarded the packager makes an application with a link to the
    file `/x`, and leaves something in place of the manifest. -/
def linkMaking (left : Entry) : Runner Unit :=
  let backup : Path × Entry := ("/g/package.json.hydrangea-release-backup", bareManifest)
  scripted ""
    [("pyinstaller", besideTree bareManifest [("/b/dist", .directory)], besideTree bareManifest frozenEntries),
      ("electron-packager", besideTree versionedManifest (stagedEntries ++ [backup]),
        besideTree left (stagedEntries ++ [backup, ("/g/y-linux-x64", .directory),
          ("/g/y-linux-x64/l", .symlink "/x")]))]

/-- A run with those tools. -/
def linkMakingRun : Pipeline Unit :=
  small "/b" "y" (linkMaking versionedManifest)

/-- It starts where the build results hold a link to the file `/x` already. -/
def linkMakingStart : Session Unit :=
  .start (besideTree bareManifest [("/b/dist", .directory), ("/b/dist/l", .symlink "/x")]) ()

/-- Trees with links to a file are removed, copied and moved, and the file stays as it is. -/
theorem run_keeps_footprint_links :
    KeepsFootprint linkMakingRun (some "1") linkMakingStart ∧
      (linkMakingRun.run (some "1") linkMakingStart).1.isOk = true ∧
        (linkMakingRun.run (some "1") linkMakingStart).2.tree.get? [Bytes.ofText "x"] =
          some (.file (Bytes.ofText "mine") false) := by
  have hrun : linkMakingRun.PlainGiven (some "1") linkMakingStart ∧
      linkMakingRun.PlainBefore (some "1") linkMakingStart ∧ linkMakingRun.PlainAfter (some "1") linkMakingStart ∧
        (linkMakingRun.run (some "1") linkMakingStart).1.isOk = true ∧
          (linkMakingRun.run (some "1") linkMakingStart).2.tree.get? [Bytes.ofText "x"] =
            some (.file (Bytes.ofText "mine") false) := by
    decide +kernel
  obtain ⟨hplain, hbefore, hafter, hends⟩ := hrun
  exact ⟨run_keeps_footprint ⟨⟨smallDraft "/b" "y", ⟨.ok "/", none⟩, by decide +kernel⟩, by decide +kernel,
    preserves_scripted (by decide +kernel), hplain⟩ (by decide +kernel) hbefore hafter, hends⟩

/-- Tools that freeze a daemon beside a link that dangles where the backup goes, and whose packager removes the link and
    fails. -/
def danglingTools : Runner Unit :=
  let link : Path × Entry := ("/g/package.json.hydrangea-release-backup", .symlink "/z")
  let packaging : List (Path × Entry) :=
    [("/b/dist", .directory), ("/b/dist/daemon", .directory), ("/g/daemon", .directory),
      ("/z", .file (Bytes.ofText "\x7b\x7d") false)]
  scripted "electron-packager"
    [("pyinstaller", besideTree bareManifest [link, ("/b/dist", .directory)],
        besideTree bareManifest [link, ("/b/dist", .directory), ("/b/dist/daemon", .directory)]),
      ("electron-packager", besideTree versionedManifest (link :: packaging), besideTree versionedManifest packaging)]

/-- Tools that freeze a daemon, and leave a link to the file `/x` where a file of the application will go. -/
def strayingTools : Runner Unit :=
  scripted ""
    [("pyinstaller", besideTree bareManifest [("/b/dist", .directory)], besideTree bareManifest frozenEntries),
      ("npm", besideTree bareManifest stagedEntries,
        besideTree bareManifest (stagedEntries.append
          [("/g/x", .directory), ("/g/y-linux-x64", .directory), ("/g/y-linux-x64/f", .file [] false),
            ("/b/dist/y-linux-x64", .directory), ("/b/dist/y-linux-x64/f", .symlink "/x")]))]

/-- A directory of the application that is named by going up is copied through a link to the file `/x`. A backup is
    written through a link that dangles, and makes the file `/z`. A manifest that the packager has replaced by a link to
    the file `/x` is restored through the link. -/
theorem not_run_keeps_footprint :
    (¬ ∀ (p : Pipeline Unit) (value : Option String) (s : Session Unit), Unimpeded p value s →
      p.PlainBefore value s → p.PlainAfter value s → KeepsFootprint p value s) ∧
    (¬ ∀ (p : Pipeline Unit) (value : Option String) (s : Session Unit), Unimpeded p value s →
      Path.dotDot ∉ (Path.ofText p.config.outputDirName).names → p.PlainAfter value s → KeepsFootprint p value s) ∧
    ¬ ∀ (p : Pipeline Unit) (value : Option String) (s : Session Unit), Unimpeded p value s →
      Path.dotDot ∉ (Path.ofText p.config.outputDirName).names → p.PlainBefore value s → KeepsFootprint p value s := by
  refine ⟨fun hclaim => ?_, fun hclaim => ?_, fun hclaim => ?_⟩
  · let p := small "/b" "x/../y" strayingTools
    let s : Session Unit := .start (besideTree bareManifest []) ()
    obtain ⟨hplain, hbefore, hafter, hstrays⟩ : p.PlainGiven (some "1") s ∧ p.PlainBefore (some "1") s ∧
        p.PlainAfter (some "1") s ∧ p.Strays (some "1") s [Bytes.ofText "x"] := by
      decide +kernel
    exact (hclaim p (some "1") s ⟨⟨smallDraft "/b" "x/../y", ⟨.ok "/", none⟩, by decide +kernel⟩, by decide +kernel,
      preserves_scripted (by decide +kernel), hplain⟩ hbefore hafter).not_strays _ hstrays
  · let p := small "/b" "y" danglingTools
    let s : Session Unit :=
      .start (besideTree bareManifest [("/g/package.json.hydrangea-release-backup", .symlink "/z")]) ()
    obtain ⟨hplain, hafter, hstrays⟩ : p.PlainGiven (some "1") s ∧ p.PlainAfter (some "1") s ∧
        p.Strays (some "1") s [Bytes.ofText "z"] := by
      decide +kernel
    exact (hclaim p (some "1") s ⟨⟨smallDraft "/b" "y", ⟨.ok "/", none⟩, by decide +kernel⟩, by decide +kernel,
      preserves_scripted (by decide +kernel), hplain⟩ (by decide +kernel) hafter).not_strays _ hstrays
  · let p := small "/b" "y" (linkMaking (.symlink "/x"))
    let s : Session Unit := .start (besideTree bareManifest []) ()
    obtain ⟨hplain, hbefore, hstrays⟩ : p.PlainGiven (some "1") s ∧ p.PlainBefore (some "1") s ∧
        p.Strays (some "1") s [Bytes.ofText "x"] := by
      decide +kernel
    exact (hclaim p (some "1") s ⟨⟨smallDraft "/b" "y", ⟨.ok "/", none⟩, by decide +kernel⟩, by decide +kernel,
      preserves_scripted (by decide +kernel), hplain⟩ (by decide +kernel) hbefore).not_strays _ hstrays

end Pipeline

end DebRelease
