import DebRelease.Proofs.Manifest.Runs
import DebRelease.Proofs.Manifest.Versioned
import DebRelease.Proofs.Run.Delivery
import DebRelease.Proofs.Run.Passage

namespace DebRelease

open FileTree RunM Manifest

variable {σ : Type}

/-- A directory that replaces another, and then a directory made anew: what is apart from the three stays. -/
theorem FileTree.get?_of_moved {cwd : WorkingDir} {source target path : Path} {t moved ready : FileTree}
    {location : Location} {entry : Entry} (hwf : t.WellFormed)
    (hdirect : ∀ other ∈ [source, target, path], other.IsDirect)
    (hplain : ∀ other ∈ [source, target, path], t.IsPlain other.place)
    (hout : ∀ other ∈ [source, target, path], ¬ other.place <+: location)
    (hbeside : ¬ target.place <+: source.place → ¬ target.place <+: path.place) (hget : t.get? location = some entry)
    (hmove : moveDir cwd source target t = (.ok (), moved)) (hrecreate : recreate cwd path moved = (.ok (), ready)) :
    ready.WellFormed ∧ ready.get? location = some entry := by
  simp only [List.forall_mem_cons, List.not_mem_nil, false_imp_iff, implies_true, and_true] at hdirect hplain hout
  obtain ⟨hsource, htarget, hpath⟩ := hdirect
  obtain ⟨hplainSource, hplainTarget, hplainPath⟩ := hplain
  have hmoved := moveDir_alters cwd hwf hsource htarget hplainSource hplainTarget
  have hwf' := hmoved.wellFormed
  have hwithin := hmoved.within
  obtain ⟨hapart, hgone⟩ := hmoved.result (a := ()) (by rw [hmove])
  have hbeside := hbeside hapart
  rw [hmove] at hwf' hwithin hgone
  have hget' : moved.get? location = some entry := by
    rw [hwithin.get?_eq (by simp [hout.1, hout.2.1]) (.inl (by simp [hget])), hget]
  -- Above the directory that is made anew, what was moved away leaves nothing, and the rest no link.
  have hplainPath' : moved.IsPlain path.place := by
    intro above hpre link hlink
    by_cases hin : source.place <+: above
    · rw [hgone above hin fun hbelow => hbeside (hbelow.trans hpre)] at hlink
      cases hlink
    · exact hwithin.isPlain (hplainPath.of_prefix hpre)
        (by simpa [hin] using fun hbelow => hbeside (hbelow.trans hpre)) above List.prefix_rfl link hlink
  have hrecreated := recreate_alters cwd hwf' hpath hplainPath'
  have hwf'' := hrecreated.wellFormed
  have hwithin' := hrecreated.within
  rw [hrecreate] at hwf'' hwithin'
  refine ⟨hwf'', ?_⟩
  rw [hwithin'.get?_eq (by simpa using hout.2.2) (.inl (by simp [hget'])), hget']

namespace Config

/-- The paths that are moved or made anew between the packager and the builder. -/
def collected (c : Config) : List Path :=
  [Plan.packagedApp c, Plan.collectedApp c, c.layout.finalInstaller]

/-- The manifest is not at or below a path that is moved or made anew between the packager and the builder,
    as it is spelled or with `..` taking back the name before it. -/
def ManifestApart (c : Config) : Prop :=
  ∀ path ∈ c.collected, ∀ place ∈ [path.place, (Path.root.absoluteFrom path).place], ¬ place <+: c.manifestPlace

instance (c : Config) : Decidable c.ManifestApart := by
  unfold ManifestApart; infer_instance

/-- No link is at or above the manifest, nor a place that is moved or made anew before the builder. -/
def Unlinked (c : Config) (t : FileTree) : Prop :=
  ∀ place ∈ c.manifestPlace :: c.collected.map Path.place, t.IsPlain place

instance (c : Config) (t : FileTree) : Decidable (c.Unlinked t) := by
  unfold Unlinked; infer_instance

end Config

namespace Pipeline

variable {p : Pipeline σ} {manifest : Path} {version : String} {command : ToolCommand} {s after : Session σ}
    {call : Call} {b : Beginning σ}

/-- A stage that runs a tool makes one call. -/
theorem callsOf_run (haction : b.stage.action = .run command) (h : call ∈ callsOf p b) :
    call = ran p.tools command b.session := by
  rw [callsOf, haction, perform, session_bind_pure (runTool p.tools command) fun _ => none, calls_runTool,
    List.drop_left] at h
  exact List.mem_singleton.mp h

/-- A stage that packages makes one call, while the manifest is guarded. -/
theorem callsOf_package (haction : b.stage.action = .package manifest version command) (h : call ∈ callsOf p b) :
    ∃ g guarded, Guard.acquire p.cwd manifest version b.session = (.ok g, guarded) ∧
      call = ran p.tools command guarded := by
  rw [callsOf, haction, perform, session_bind_pure (package p manifest version command) fun _ => none] at h
  cases hacquire : Guard.acquire p.cwd manifest version b.session with
  | mk outcome guarded =>
    cases outcome with
    | error e =>
      have hsilent := (Guard.asks_acquire p.cwd manifest version b.session).1
      rw [hacquire, List.append_nil] at hsilent
      rw [package, run_bind, hacquire] at h
      dsimp only at h hsilent
      simp [hsilent] at h
    | ok g =>
      rw [calls_package hacquire, List.drop_left] at h
      exact ⟨g, guarded, rfl, List.mem_singleton.mp h⟩

/-- Packaging that succeeds has restored the manifest after the tool. -/
theorem package_eq_ok (h : package p manifest version command s = (.ok (), after)) :
    ∃ g guarded, Guard.acquire p.cwd manifest version s = (.ok g, guarded) ∧
      Guard.restore p.cwd g (runTool p.tools command guarded).2 = (.ok (), after) := by
  rw [package, run_bind] at h
  cases hacquire : Guard.acquire p.cwd manifest version s with
  | mk outcome guarded =>
    rw [hacquire] at h
    cases outcome with
    | error e => cases h
    | ok g =>
      dsimp only at h
      rw [run_bind, run_attempt] at h
      dsimp only at h
      rw [run_bind, run_attempt] at h
      dsimp only at h
      refine ⟨g, guarded, rfl, ?_⟩
      cases hrestore : Guard.restore p.cwd g (runTool p.tools command guarded).2 with
      | mk restored final =>
        rw [hrestore] at h
        generalize (runTool p.tools command guarded).1 = outcome at h
        cases outcome with
        | error e => cases restored <;> cases h
        | ok =>
          cases restored with
          | error e => cases h
          | ok => exact h

/-- The packaging stage, and what follows it in a plan. -/
private def packagingOn (c : Config) (version : Version) : List Stage :=
  ⟨"package desktop app", .package c.layout.guiManifest version.value (Plan.packageApp c version.value)⟩ ::
    (c.plan version).drop 9

/-- The building stage, and what follows it in a plan. -/
private def buildingOn (c : Config) (version : Version) : List Stage :=
  ⟨"build debian package", .run (Plan.buildDeb c version.value)⟩ :: (c.plan version).drop 12

/-- In a plan the names of the two stages are theirs alone. -/
private theorem stage_of_name {c : Config} {version : Version} {stage : Stage} {later : List Stage}
    (h : stage :: later <:+ c.plan version) :
    (stage.name = "package desktop app" → stage :: later = packagingOn c version) ∧
      (stage.name = "build debian package" → stage :: later = buildingOn c version) := by
  simp only [Config.plan, List.suffix_cons_iff, List.suffix_nil, List.cons.injEq, reduceCtorEq, or_false] at h
  rcases h with h | h | h | h | h | h | h | h | h | h | h | h | h <;> obtain ⟨rfl, rfl⟩ := h <;>
    simp [packagingOn, buildingOn, Config.plan]

/-- A call that a stage of a run makes. -/
structure CallIn (p : Pipeline σ) (value : Option String) (s : Session σ) (name : String) (b : Beginning σ)
    (call : Call) : Prop where
  begun : b ∈ p.begun value s
  name : b.stage.name = name
  call : call ∈ p.callsOf b

/-- The version that a run resolves. -/
def Resolves (p : Pipeline σ) (value : Option String) (s : Session σ) (version : Version) : Prop :=
  (resolveVersion p value (opened p s)).1 = .ok version

/-- When the builder is called, the manifest holds what it held when packaging began, if `H` holds of the call
    of the packager. -/
def RestoresManifest (p : Pipeline σ) (value : Option String) (s : Session σ) (H : Call → Prop) : Prop :=
  ∀ packaging packaged content building built, p.CallIn value s "package desktop app" packaging packaged →
    p.CallIn value s "build debian package" building built →
    packaging.session.tree.read p.cwd p.config.layout.guiManifest = .ok content → H packaged →
    built.tree.read p.cwd p.config.layout.guiManifest = .ok content

/-- The version that a run resolves is the one that the manifest carries when the packager is called, the one
    that the packager and the builder are told, and the one that is reported. -/
structure CarriesVersion (p : Pipeline σ) (value : Option String) (s : Session σ) (H : Call → Prop) : Prop where
  /-- The packager is told the version. The manifest carries it, and the backup holds what it held. -/
  packaged : ∀ b call, p.CallIn value s "package desktop app" b call →
    ∃ version content versioned, p.Resolves value s version ∧
      b.session.tree.read p.cwd p.config.layout.guiManifest = .ok content ∧
      setVersion content version.value = .ok versioned ∧
      call.tree.read p.cwd p.config.layout.guiManifest = .ok versioned ∧
      call.tree.read p.cwd (backupOf p.config.layout.guiManifest) = .ok content ∧
      Bytes.ofText s!"--appVersion={version.value}" ∈ call.command.args
  built : ∀ b call, p.CallIn value s "build debian package" b call → ∃ version, p.Resolves value s version ∧
    [Bytes.ofText "--options.version", Bytes.ofText version.value] <:+: call.command.args
  restored : p.RestoresManifest value s H
  reported : ∀ report, (p.run value s).1 = .ok report → p.Resolves value s report.version

variable {value : Option String} {b b' : Beginning σ} {call call' : Call} {content : Bytes}

/-- The calls that the stages of a certain name make in a run, with their stages. -/
def callsIn (p : Pipeline σ) (value : Option String) (s : Session σ) (name : String) : List (Beginning σ × Call) :=
  ((p.begun value s).filter fun b => b.stage.name = name).flatMap fun b => (p.callsOf b).map fun call => (b, call)

theorem callIn_iff {name : String} : p.CallIn value s name b call ↔ (b, call) ∈ p.callsIn value s name := by
  simp only [callsIn, List.mem_flatMap, List.mem_filter, decide_eq_true_eq, List.mem_map, Prod.mk.injEq]
  constructor
  · rintro ⟨hbegun, hname, hcall⟩
    exact ⟨b, ⟨hbegun, hname⟩, call, hcall, rfl, rfl⟩
  · rintro ⟨_, ⟨hbegun, hname⟩, _, hcall, rfl, rfl⟩
    exact ⟨hbegun, hname, hcall⟩

/-- Whether the manifest is restored shows at the calls of the two stages. -/
theorem restoresManifest_iff {H : Call → Prop} : p.RestoresManifest value s H ↔
    ∀ item ∈ p.callsIn value s "package desktop app", ∀ item' ∈ p.callsIn value s "build debian package",
      ∀ content ∈ (item.1.session.tree.read p.cwd p.config.layout.guiManifest).toOption, H item.2 →
        item'.2.tree.read p.cwd p.config.layout.guiManifest = .ok content := by
  constructor
  · rintro h ⟨b, call⟩ hmem ⟨b', call'⟩ hmem' content hread
    refine h b call content b' call' (callIn_iff.mpr hmem) (callIn_iff.mpr hmem') ?_
    revert hread
    cases b.session.tree.read p.cwd p.config.layout.guiManifest <;> simp [Except.toOption]
  · intro h b call content b' call' hcall hcall' hread
    have hfound : content ∈ (b.session.tree.read p.cwd p.config.layout.guiManifest).toOption := by
      simp [hread, Except.toOption]
    exact h (b, call) (callIn_iff.mp hcall) (b', call') (callIn_iff.mp hcall') content hfound

instance (p : Pipeline σ) (value : Option String) (s : Session σ) (H : Call → Prop) [DecidablePred H] :
    Decidable (p.RestoresManifest value s H) :=
  decidable_of_iff' _ restoresManifest_iff

/-- The packager is called while the manifest is guarded. -/
private theorem CallIn.packages (h : p.CallIn value s "package desktop app" b call) :
    ∃ version ready g guarded, resolveVersion p value (opened p s) = (.ok version, ready) ∧
      b ∈ stagesBegun p (p.config.plan version).length 1 (p.config.plan version) ready ∧
      b.stage :: b.later = packagingOn p.config version ∧
      Guard.acquire p.cwd p.config.layout.guiManifest version.value b.session = (.ok g, guarded) ∧
      call = ran p.tools (Plan.packageApp p.config version.value) guarded := by
  obtain ⟨version, ready, hversion, hmem⟩ := mem_begun.mp h.begun
  have hstage := (stage_of_name (suffix_of_mem_stagesBegun hmem)).1 h.name
  obtain ⟨hhead, -⟩ := List.cons.inj hstage
  obtain ⟨g, guarded, hacquire, hcall⟩ := callsOf_package (by rw [hhead]) h.call
  exact ⟨version, ready, g, guarded, hversion, hmem, hstage, hacquire, hcall⟩

/-- The builder is called in the state in which its stage begins. -/
private theorem CallIn.builds (h : p.CallIn value s "build debian package" b call) :
    ∃ version ready, resolveVersion p value (opened p s) = (.ok version, ready) ∧
      b ∈ stagesBegun p (p.config.plan version).length 1 (p.config.plan version) ready ∧
      b.stage :: b.later = buildingOn p.config version ∧
      call = ran p.tools (Plan.buildDeb p.config version.value) b.session := by
  obtain ⟨version, ready, hversion, hmem⟩ := mem_begun.mp h.begun
  have hstage := (stage_of_name (suffix_of_mem_stagesBegun hmem)).2 h.name
  obtain ⟨hhead, -⟩ := List.cons.inj hstage
  exact ⟨version, ready, hversion, hmem, hstage, callsOf_run (by rw [hhead]) h.call⟩

/-- A stage that works on the files and succeeds. -/
private theorem tree_of_onTree {m : TreeM Failure Unit} {found : Option (List Artifact)}
    (h : (do onTree m; pure none : RunM σ (Option (List Artifact))) s = (.ok found, after)) :
    m s.tree = (.ok (), after.tree) := by
  rw [run_bind, run_onTree] at h
  cases hrun : m s.tree with
  | mk outcome t =>
    rw [hrun] at h
    cases outcome <;> cases h
    rfl

private theorem package_of_perform {found : Option (List Artifact)}
    (h : perform p (.package manifest version command) s = (.ok found, after)) :
    package p manifest version command s = (.ok (), after) := by
  rw [perform, run_bind] at h
  cases hrun : package p manifest version command s with
  | mk outcome after =>
    rw [hrun] at h
    cases outcome <;> cases h
    rfl

/-- Between the call of the packager and that of the builder the manifest is restored, the application moved,
    and the installer directory made anew. -/
private theorem CallIn.between (hpackaging : p.CallIn value s "package desktop app" b call)
    (hbuilding : p.CallIn value s "build debian package" b' call') :
    ∃ version g guarded, ∃ called restored : Session σ, ∃ moved,
      Guard.acquire p.cwd p.config.layout.guiManifest version b.session = (.ok g, guarded) ∧
      called.tree = call.after ∧ Guard.restore p.cwd g called = (.ok (), restored) ∧
      moveDir p.cwd (Plan.packagedApp p.config) (Plan.collectedApp p.config) restored.tree = (.ok (), moved) ∧
      recreate p.cwd p.config.layout.finalInstaller moved = (.ok (), call'.tree) := by
  obtain ⟨version, ready, g, guarded, hversion, hmem, hstage, hacquire, rfl⟩ := hpackaging.packages
  obtain ⟨version', ready', hversion', hmem', hstage', rfl⟩ := hbuilding.builds
  rw [hversion] at hversion'
  cases hversion'
  have hplan : p.config.plan version = (p.config.plan version).take 8 ++ packagingOn p.config version := rfl
  obtain ⟨-, hlater⟩ := List.cons.inj hstage
  obtain ⟨-, hlater'⟩ := List.cons.inj hstage'
  have hleft : b'.later.length = 1 := by rw [hlater']; rfl
  rw [hplan] at hmem hmem'
  obtain ⟨_, session, _, packaged, hbegun, hperform, hmem'⟩ :=
    begun_before hmem' (hleft.trans_lt (show 1 < 4 by decide))
  obtain rfl : b = _ := begun_unique hmem hbegun hlater
  have hpackage : package p p.config.layout.guiManifest version.value (Plan.packageApp p.config version.value) session =
      (.ok (), packaged) := package_of_perform hperform
  obtain ⟨g', guarded', hacquire', hrestore⟩ := package_eq_ok hpackage
  dsimp only at hacquire
  rw [hacquire] at hacquire'
  cases hacquire'
  obtain ⟨_, moved, hmove, hmem'⟩ := begun_after hmem' (hleft.trans_lt (show 1 < 3 by decide))
  obtain ⟨_, ready, hrecreate, hmem'⟩ := begun_after hmem' (hleft.trans_lt (show 1 < 2 by decide))
  obtain rfl : b' = _ := begun_unique hmem' (mem_stagesBegun_cons.mpr (.inl rfl)) hlater'
  have hmove := tree_of_onTree hmove
  have hrecreate := tree_of_onTree hrecreate
  exact ⟨version.value, g, guarded, _, packaged, moved.tree, hacquire, tree_runTool _ _ _, hrestore, hmove, hrecreate⟩

/-- What a tree must be after the packager for the manifest to be restored. -/
structure Restorable (c : Config) (t : FileTree) : Prop where
  built : c.Built
  /-- The manifest is apart from what is moved or made anew. -/
  apart : c.ManifestApart
  wellFormed : t.WellFormed
  /-- The directory of the application is not named by going up. -/
  name : Path.dotDot ∉ (Path.ofText c.outputDirName).names
  unlinked : c.Unlinked t

/-- Where no link is in the way, the builder finds the manifest that packaging found. -/
private theorem restoresManifest (p : Pipeline σ) (value : Option String) (s : Session σ) :
    p.RestoresManifest value s fun call => Restorable p.config call.after := by
  intro b call content b' call' hpackaging hbuilding hread ⟨hbuilt, hapart, hwf, hname, hunlinked⟩
  obtain ⟨version, g, guarded, called, restored, moved, hacquire, hcalled, hrestore, hmove, hrecreate⟩ :=
    hpackaging.between hbuilding
  obtain ⟨dir, hpath, hplace, -, hnames⟩ := hbuilt.manifest_isName
  obtain ⟨versioned, hg, hcontent, -, -, -, -⟩ := Guard.acquire_eq_ok hacquire
  obtain rfl : content = g.content := Except.ok.inj (hread.symm.trans hcontent)
  have hguard : g = ⟨.ofLocation (dir ++ [Layout.manifestName]), g.content⟩ := by rw [← hpath, ← hg]
  rw [hguard] at hrestore
  rw [← hcalled] at hwf hunlinked
  have hplain := hunlinked _ List.mem_cons_self
  rw [hplace] at hplain
  obtain ⟨hwf', ⟨is, hget⟩, hkeeps⟩ := Guard.restore_eq_ok hnames hwf hplain hrestore
  have hcollected : ∀ path ∈ p.config.collected, path.IsDirect := fun path hmem =>
    hbuilt.rebuilt hname path (by simp [Config.collected, Config.rebuilt] at hmem ⊢; tauto)
  obtain ⟨hwf'', hget'⟩ := get?_of_moved hwf' hcollected
    (fun path hmem => hkeeps _ (hunlinked _ (List.mem_cons_of_mem _ (List.mem_map_of_mem hmem))))
    (fun path hmem => hplace ▸ hapart path hmem _ List.mem_cons_self) (hbuilt.not_above_finalInstaller hname) hget
    hmove hrecreate
  rw [hpath] at hread ⊢
  exact read_spells (hwf''.spells hget' (checkPath_of_read hread)) hwf'' hget'

/-- A run carries the version that it resolves, whatever that is and whatever the tools do: into the manifest for
    the packager, to the packager and the builder, and into the report. The builder finds the manifest as packaging
    found it, where no link is in the way. -/
theorem run_carriesVersion (p : Pipeline σ) (value : Option String) (s : Session σ) :
    CarriesVersion p value s fun call => Restorable p.config call.after := by
  refine ⟨fun b call h => ?_, fun b call h => ?_, restoresManifest p value s, fun report hok => ?_⟩
  · obtain ⟨version, ready, g, guarded, hversion, -, -, hacquire, rfl⟩ := h.packages
    obtain ⟨versioned, -, hcontent, hset, hread, hbackup, -⟩ := Guard.acquire_eq_ok hacquire
    exact ⟨version, g.content, versioned, by rw [Resolves, hversion], hcontent, hset, hread, hbackup,
      by simp [ran, recorded, Plan.packageApp, Plan.tool, ToolCommand.ofTexts]⟩
  · obtain ⟨version, ready, hversion, -, -, rfl⟩ := h.builds
    refine ⟨version, by rw [Resolves, hversion], ?_⟩
    exact ⟨(Plan.buildDeb p.config version.value).args.take 6, (Plan.buildDeb p.config version.value).args.drop 8, rfl⟩
  · rw [run_eq] at hok
    rw [Resolves]
    cases hversion : resolveVersion p value (opened p s) with
    | mk outcome ready =>
      rw [hversion] at hok
      cases outcome with
      | error e => cases hok
      | ok version =>
        dsimp only at hok
        cases hperform : performAll p (p.config.plan version).length 1 [] (p.config.plan version) ready with
        | mk outcome final =>
          rw [hperform] at hok
          cases outcome <;> cases hok
          rfl

/-- A run on the small package, for a version that has to be quoted. -/
def smallCalls (name : String) : List (Beginning Unit × Call) :=
  (smallContracted "/b").callsIn (some "1 \"é\"") (.start (smallTree []) ()) name

theorem smallCalls_nonempty :
    0 < (smallCalls "package desktop app").length ∧ 0 < (smallCalls "build debian package").length := by
  decide +kernel

/-- The builder of that run finds the manifest that packaging found. -/
theorem run_carriesVersion_small :
    ∃ item ∈ smallCalls "package desktop app", ∃ item' ∈ smallCalls "build debian package",
    Restorable (smallContracted "/b").config item.2.after ∧
      item'.2.tree.read (smallContracted "/b").cwd (smallContracted "/b").config.layout.guiManifest =
        .ok (Bytes.ofText "\x7b\x7d") := by
  have hpackager := List.getElem_mem smallCalls_nonempty.1
  have hbuilder := List.getElem_mem smallCalls_nonempty.2
  have hrestorable : Restorable (smallContracted "/b").config
      ((smallCalls "package desktop app").get ⟨0, smallCalls_nonempty.1⟩).2.after :=
    ⟨⟨smallDraft "/b" "y", ⟨.ok "/", none⟩, by decide +kernel⟩, by decide +kernel, by decide +kernel, by decide +kernel,
      by decide +kernel⟩
  have hread : ((smallCalls "package desktop app").get ⟨0, smallCalls_nonempty.1⟩).1.session.tree.read
      (smallContracted "/b").cwd (smallContracted "/b").config.layout.guiManifest = .ok (Bytes.ofText "\x7b\x7d") := by
    decide +kernel
  refine ⟨_, hpackager, _, hbuilder, hrestorable, ?_⟩
  exact (run_carriesVersion (smallContracted "/b") _ _).restored _ _ _ _ _ (callIn_iff.mpr hpackager)
    (callIn_iff.mpr hbuilder) hread hrestorable

/-- A package in a directory of the name of the installer directory, and a run from a link to the root. -/
def linkedDraft : ConfigDraft := { smallDraft "/l" "y" with guiPackage := some "/final_installer/g" }

/-- A run on that package with tools of which some put a tree at a place. -/
def linkedRun (puts : List (String × Location × FileTree)) : Pipeline Unit :=
  let base := small "/l" "y" (filling puts)
  let layout := linkedDraft.layout "/"
  { base with config := { base.config with layout, toolSearchPath := layout.toolBin.bytes } }

/-- Tools that freeze a daemon and build the application before it is packaged; the packager does nothing. -/
def early (scripts package : Path) : List (String × Location × FileTree) :=
  [("pyinstaller", (scripts.join "dist/daemon").place, smallDaemon),
    ("npm", (package.join "y-linux-x64").place, smallApp)]

/-- Though the packager does nothing, the manifest is not restored if it is a link to what is made anew, if what is
    made anew is reached through a link, or if the application is copied through a link. -/
theorem not_run_carriesVersion :
    (¬ ∀ (p : Pipeline Unit) (value : Option String) (s : Session Unit), p.config.Built →
      p.RestoresManifest value s fun call => call.after = call.tree ∧ p.config.ManifestApart ∧
        call.after.WellFormed ∧ Path.dotDot ∉ (Path.ofText p.config.outputDirName).names ∧
        ∀ path ∈ p.config.collected, call.after.IsPlain path.place) ∧
    (¬ ∀ (p : Pipeline Unit) (value : Option String) (s : Session Unit), p.config.Built →
      p.RestoresManifest value s fun call => call.after = call.tree ∧ p.config.ManifestApart ∧
        call.after.WellFormed ∧ Path.dotDot ∉ (Path.ofText p.config.outputDirName).names ∧
        call.after.IsPlain p.config.manifestPlace) ∧
    ¬ ∀ (p : Pipeline Unit) (value : Option String) (s : Session Unit), p.config.Built →
      p.RestoresManifest value s fun call => call.after = call.tree ∧ p.config.ManifestApart ∧
        call.after.WellFormed ∧ p.config.Unlinked call.after := by
  refine ⟨fun hclaim => ?_, fun hclaim => ?_, fun hclaim => ?_⟩
  · exact absurd (hclaim (small "/b" "y" (filling (early "/b" "/g"))) (some "1") (.start (treeOf [("/b", .directory),
      ("/g", .directory), ("/b/final_installer", .directory),
      ("/b/final_installer/m", .file (Bytes.ofText "\x7b\x7d") false),
      ("/g/package.json", .symlink "/b/final_installer/m")]) ())
      ⟨smallDraft "/b" "y", ⟨.ok "/", none⟩, by decide +kernel⟩) (by decide +kernel)
  · exact absurd (hclaim (linkedRun (early "/" "/final_installer/g")) (some "1") (.start (treeOf [("/l", .symlink "/"),
      ("/final_installer", .directory), ("/final_installer/g", .directory),
      ("/final_installer/g/package.json", .file (Bytes.ofText "\x7b\x7d") false)]) ())
      ⟨linkedDraft, ⟨.ok "/", none⟩, by decide +kernel⟩) (by decide +kernel)
  · exact absurd (hclaim (small "/b" "x/../y" linkingTools) (some "1") (.start (smallTree []) ())
      ⟨smallDraft "/b" "x/../y", ⟨.ok "/", none⟩, by decide +kernel⟩) (by decide +kernel)

end Pipeline

end DebRelease
