import DebRelease.Proofs.FileTree.Listing
import DebRelease.Proofs.Run.Achieve
import DebRelease.Proofs.Run.Contract

namespace DebRelease

open FileTree

/-- How the paths of a run lie: each leads where it should, and no two sites meet. -/
structure Config.Routed (c : Config) (D F : FileTree) : Prop where
  laidOut : c.LaidOut
  separate : ∀ {site other : Site}, site ≠ other → Separate (c.placeOf site) (c.placeOf other)
  spells : ∀ site, (Path.ofLocation (c.placeOf site)).Spells (c.placeOf site)
  frozen : Reachable D.get? (c.placeOf .dist ++ [Layout.daemonName])
  copied : Reachable D.get? (c.placeOf .guiDaemon)
  /-- The system accepts the path of the copy with a slash after it. -/
  slash : checkPath ((Path.ofLocation (c.placeOf .guiDaemon)).join .empty) = .ok ()
  /-- The application is led to among the build results. -/
  collected : (Path.ofLocation (c.placeOf .dist ++ [c.outputName])).Spells (c.placeOf .dist ++ [c.outputName])
  listed : Reachable F.get? (c.placeOf .finalInstaller)

namespace Pipeline

open RunM Manifest

variable {σ : Type} {p : Pipeline σ} {D P F : FileTree} {site : Site} {contents : Site → Content}

private theorem succeeded {c : Config} : ∀ call, c.KeepsContract D P F call → call.succeeded = true :=
  fun _ h => h.succeeded

private theorem achieves_none {C : Call → Prop} {I : FileTree → Prop} :
    RunM.Achieves C I (pure none : RunM σ (Option (List Artifact))) fun _ => I :=
  Achieves.pure.mono (fun _ h => h) fun _ _ h => h.2

/-- A tool that is to fill nothing keeps what such calls keep. -/
theorem achieves_run {I : FileTree → Prop} (hkeep : ∀ call, p.config.KeepsContract D P F call →
      (∀ place tree, ¬ p.config.Fills D P F call place tree) → I call.tree → I call.after)
    {command : ToolCommand} {first : Bytes} (hargs : command.args.head? = some first)
    (hfirst : first ∉ Config.fillingArgs) :
    Achieves (p.config.KeepsContract D P F) I (perform p (.run command)) fun _ => I := by
  refine (Achieves.runTool succeeded fun call hcall hrequest hI => ?_).bind fun _ => achieves_none
  refine hkeep call hcall (Config.not_fills hrequest (.inr fun found hmem => ?_)) hI
  rwa [← Option.some.inj (hargs.symm.trans hmem)]

/-- A site that is open is made an empty directory. -/
theorem achieves_recreate (h : p.config.Routed D F) (site : Site) {C : Call → Prop} {I : FileTree → Prop}
    (hI : ∀ t, I t → p.config.Shows contents t ∧ t.IsOpen (p.config.placeOf site)) :
    Achieves C I (perform p (.recreate (p.config.pathOf site)))
      fun _ => p.config.Shows (Function.update contents site (.directory [])) := by
  have hne : p.config.placeOf site ≠ [] := by simp [h.laidOut.placeOf_eq]
  have hspells := h.spells site
  rw [← h.laidOut.pathOf_ofLocation] at hspells
  refine (Achieves.onTree fun t ht => ?_).bind fun _ => achieves_none
  obtain ⟨hshows, hopen⟩ := hI t ht
  refine (recreate_open p.cwd hspells hne hshows.1 hopen).mono ?_
  rintro _ t' ⟨hwf, hwithin, hget, hempty⟩
  refine hshows.change hwf (.of_empty hget hempty) fun other hother hholds => ?_
  exact hholds.of_within hwithin fun changed hmem => List.mem_singleton.mp hmem ▸ h.separate hother.symm

/-- The freezer leaves the daemon in the directory of build results, which was empty. -/
theorem achieves_frozen (h : p.config.Routed D F) (hdist : contents .dist = .directory []) :
    Achieves (p.config.KeepsContract D P F) (p.config.Shows contents)
      (perform p (.freeze (Plan.locateSpec p.config) (Plan.freeze p.config)))
      fun _ => p.config.Shows (Function.update contents .dist (.directory [(Layout.daemonName, D.get?)])) := by
  refine (achieves_freeze (J := p.config.Shows contents) succeeded (fun call hcall hrequest hshows => ⟨?_, ?_⟩)
    fun spec call hcall hrequest hshows => ?_).bind fun _ => achieves_none
  · obtain ⟨hmode, hcommand⟩ := Call.of_request hrequest
    exact hcall.spec hmode hcommand
  · exact hcall.shows (Config.not_fills hrequest (.inl rfl)) hshows
  · have hruns : call.Runs p.config.tools.freezer p.config.layout.buildScripts "--log-level=INFO" := by
      obtain ⟨hmode, hcommand⟩ := Call.of_request hrequest
      rw [Call.Runs, hcommand]
      exact ⟨hmode, rfl, rfl, rfl⟩
    have hone (other : Location) (tree : FileTree) (hfills : p.config.Fills D P F call other tree) :=
      hfills.of_freezer hruns.2.2.2
    refine hcall.shows_filled (List.prefix_append _ _) hone (fun other hne => h.separate hne.symm) ?_ hshows
    have hholds := hshows.2 .dist
    rw [hdist] at hholds
    refine hholds.insert rfl (hcall.fills _ _ (.freezer hruns)) fun rest hout => ?_
    refine hcall.untouched .dist rest fun other tree hfills hpre => hout ?_
    rw [hone other tree hfills, List.prefix_append_right_inj] at hpre
    exact hpre

/-- The daemon is copied into the application, in place of what was there. -/
theorem achieves_copied (h : p.config.Routed D F) {entries : List (Bytes × Content)}
    (hdist : contents .dist = .directory entries) (hfrozen : entries.lookup Layout.daemonName = some D.get?)
    (hmanifest : contents .manifest [] ≠ none)
    (hopen : contents .guiDaemon [] = none ∨ contents .guiDaemon [] = some .directory) {C : Call → Prop} :
    Achieves C (p.config.Shows contents) (perform p (.copy p.config.layout.frozenDaemon p.config.layout.guiDaemon))
      fun _ => p.config.Shows (Function.update contents .guiDaemon D.get?) := by
  have htarget : p.config.layout.guiDaemon = .ofLocation (p.config.placeOf .guiDaemon) :=
    h.laidOut.pathOf_ofLocation .guiDaemon
  have hhome {t : FileTree} (hshows : p.config.Shows contents t) :
      t.get? (p.config.homeOf .guiDaemon) = some .directory := by
    have hget := (hshows.2 .manifest).get?
    obtain ⟨entry, hthere⟩ := Option.ne_none_iff_exists'.mp hmanifest
    rw [hthere, h.laidOut.placeOf_eq] at hget
    exact hshows.1.parent hget
  have hspells := h.spells .guiDaemon
  have hcopied := h.copied
  have hslash := h.slash
  have hseparate : Separate (p.config.placeOf .dist ++ [Layout.daemonName]) (p.config.placeOf .guiDaemon) :=
    ((h.separate (show Site.guiDaemon ≠ .dist by decide)).append _).symm
  rw [perform, h.laidOut.frozenDaemon_eq, htarget]
  refine .bind (Q := fun _ t => p.config.Shows (Function.update contents .guiDaemon .none) t ∧
    t.get? (p.config.homeOf .guiDaemon) = some .directory) (.onTree fun t hshows => ?_) fun _ => ?_
  · have hget := (hshows.2 .guiDaemon).get?
    have hplace := h.laidOut.placeOf_eq .guiDaemon
    have hisOpen : t.IsOpen (p.config.placeOf .guiDaemon) := by
      rw [hplace] at hget ⊢
      exact .of_parent hshows.1 (hhome hshows) (hget ▸ hopen)
    have hne : p.config.placeOf .guiDaemon ≠ [] := by simp [hplace]
    have hwithout := without_outside t hne
    refine ⟨(), _, removeAll_open p.cwd hspells hne hshows.1 hisOpen, hshows.change (hshows.1.outside _)
      (fun rest => hwithout.get?_eq_none (List.prefix_append _ _)) fun other hne hholds => ?_, ?_⟩
    · exact hholds.of_within hwithout.within fun changed hmem => List.mem_singleton.mp hmem ▸ h.separate hne.symm
    · rw [hwithout, if_neg, hhome hshows]
      rw [hplace]
      exact entry_not_above _ _
  · refine (Achieves.onTree fun t ⟨hshows, hdir⟩ => ?_).bind fun _ => achieves_none
    have hbuilt := hshows.2 .dist
    rw [Function.update_of_ne (by decide), hdist] at hbuilt
    have hholds := hbuilt.named hfrozen
    have hfree := hshows.2 .guiDaemon
    rw [Function.update_self] at hfree
    rw [h.laidOut.placeOf_eq .guiDaemon] at hseparate hfree hcopied hslash ⊢
    refine (copyDir_arrives p.cwd hseparate hshows.1 hholds rfl hdir hfree h.frozen hcopied hslash).mono ?_
    rintro _ t' ⟨hwf, harrived, hsame⟩
    rw [← h.laidOut.placeOf_eq .guiDaemon] at harrived hsame
    have hchanged := hshows.change hwf harrived fun other hne hholds =>
      hholds.of_eq fun rest => hsame _ ((h.separate hne.symm).append rest).1
    rwa [Function.update_idem] at hchanged

/-- Setting the version leaves the backup beside the manifest that carries it. -/
private theorem achieves_acquire (h : p.config.Routed D F) {content versioned : Bytes} {is : Bool} {version : String}
    (hmanifest : contents .manifest = .only (.file content is)) (hbackup : contents .backup = .none)
    (hversion : setVersion content version = .ok versioned) {C : Call → Prop} :
    Achieves C (p.config.Shows contents)
      (Guard.acquire p.cwd (.ofLocation (p.config.placeOf .manifest)) version : RunM σ Guard)
      fun g t => g = ⟨.ofLocation (p.config.placeOf .manifest), content⟩ ∧
        p.config.Shows (Function.update (Function.update contents .backup (.only (.file content false))) .manifest
          (.only (.file versioned is))) t := by
  refine ⟨fun s => (Guard.asks_acquire p.cwd _ version s).grows, fun s hshows _ => ?_⟩
  have hplace := h.laidOut.placeOf_eq .manifest
  have hplace' := h.laidOut.placeOf_eq .backup
  have hget := (hshows.2 .manifest).get?
  have hnone := (hshows.2 .backup).get?
  have hspells := h.spells .manifest
  have hspells' := h.spells .backup
  rw [hmanifest, hplace] at hget
  rw [hbackup, hplace'] at hnone
  rw [hplace] at hspells
  rw [hplace'] at hspells'
  refine ⟨_, _, by rw [hplace]; exact Guard.acquire_spells hspells hspells' hshows.1 hget hnone hversion,
    by rw [hplace], ?_⟩
  have hwf : (s.tree.set (p.config.placeOf .backup) (.file content false)).WellFormed := by
    rw [hplace']
    exact hshows.1.set (hshows.1.parent hget) (hspells'.entryName _ (by simp)) (by simp [hnone, Content.none]) (by simp)
  have hbacked := hshows.set _ (by simp [hplace']) hwf (by simp) fun other hne => h.separate hne.symm
  have hthere := (hbacked.2 .manifest).get?
  rw [Function.update_of_ne (by decide), hmanifest] at hthere
  have hcarrying := hbacked.set (.file versioned is) (by simp [hplace]) (hwf.set_file hthere) (by simp)
    fun other hne => h.separate hne.symm
  rw [hplace, hplace'] at hcarrying
  exact hcarrying

/-- Restoring puts the manifest's bytes back and removes the backup. -/
private theorem achieves_restore (h : p.config.Routed D F) (content : Bytes) {old kept : Bytes} {is was : Bool}
    (hmanifest : contents .manifest = .only (.file old is)) (hbackup : contents .backup = .only (.file kept was))
    (g : Guard) {C : Call → Prop} :
    Achieves C (fun t => g = ⟨.ofLocation (p.config.placeOf .manifest), content⟩ ∧ p.config.Shows contents t)
      (Guard.restore p.cwd g : RunM σ Unit)
      fun _ => p.config.Shows (Function.update (Function.update contents .manifest (.only (.file content is))) .backup
        .none) := by
  refine ⟨fun s => (Guard.asks_restore p.cwd g s).grows, ?_⟩
  rintro s ⟨rfl, hshows⟩ -
  have hplace := h.laidOut.placeOf_eq .manifest
  have hplace' := h.laidOut.placeOf_eq .backup
  have hget := (hshows.2 .manifest).get?
  have hgetBackup := (hshows.2 .backup).get?
  have hspells := h.spells .manifest
  have hspells' := h.spells .backup
  rw [hmanifest] at hget
  rw [hbackup, hplace'] at hgetBackup
  rw [hplace] at hspells
  rw [hplace'] at hspells'
  have hrestored := hshows.set (.file content is) (by simp [hplace]) (hshows.1.set_file hget) (by simp)
    fun other hne => h.separate hne.symm
  have hthere := (hrestored.2 .backup).get?
  rw [Function.update_of_ne (by decide), hbackup] at hthere
  have hne : p.config.placeOf .backup ≠ [] := by simp [hplace']
  have herased := hrestored.erase .backup hne (hrestored.1.erase hne fun rest hrest =>
    hrestored.1.none_below (by simp [hthere, Content.only]) hrest) fun other hne => h.separate hne.symm
  refine ⟨(), { s with
    tree := (s.tree.set (p.config.placeOf .manifest) (.file content is)).erase (p.config.placeOf .backup) }, ?_, herased⟩
  rw [hplace] at hget ⊢
  rw [hplace']
  exact Guard.restore_at hshows.1 hspells hspells' hget hgetBackup

/-- While the manifest carries the version, the packager leaves the application; then the manifest is as
    before. -/
theorem achieves_packaged (h : p.config.Routed D F) {content : Bytes} {is : Bool} {version : String}
    (hmanifest : contents .manifest = .only (.file content is)) (hbackup : contents .backup = .none)
    (hvalid : ∃ versioned, setVersion content version = .ok versioned) :
    Achieves (p.config.KeepsContract D P F) (p.config.Shows contents)
      (perform p (.package p.config.layout.guiManifest version (Plan.packageApp p.config version)))
      fun _ => p.config.Shows (Function.update contents .packagedApp P.get?) := by
  obtain ⟨versioned, hversioned⟩ := hvalid
  have hpath : p.config.layout.guiManifest = .ofLocation (p.config.placeOf .manifest) :=
    h.laidOut.pathOf_ofLocation .manifest
  let carrying := Function.update (Function.update contents .backup (.only (.file content false))) .manifest
    (.only (.file versioned is))
  have htool (g : Guard) : Achieves (p.config.KeepsContract D P F)
      (fun t => g = ⟨.ofLocation (p.config.placeOf .manifest), content⟩ ∧ p.config.Shows carrying t)
      (runTool p.tools (Plan.packageApp p.config version)) fun _ t =>
        g = ⟨.ofLocation (p.config.placeOf .manifest), content⟩ ∧
          p.config.Shows (Function.update carrying .packagedApp P.get?) t := by
    refine .runTool succeeded fun call hcall hrequest ⟨hg, hshows⟩ => ⟨hg, ?_⟩
    have hruns : call.Runs p.config.tools.packager p.config.layout.guiPackage "." := by
      obtain ⟨hmode, hcommand⟩ := Call.of_request hrequest
      rw [Call.Runs, hcommand]
      exact ⟨hmode, rfl, rfl, rfl⟩
    exact hcall.shows_filled List.prefix_rfl (fun _ _ hfills => hfills.of_packager hruns.2.2.2)
      (fun other hne => h.separate hne.symm) (hcall.fills _ _ (.packager hruns)) hshows
  have hend : Function.update (Function.update (Function.update carrying .packagedApp P.get?) .manifest
      (.only (.file content is))) .backup .none = Function.update contents .packagedApp P.get? := by
    funext site
    cases site <;> simp [carrying, Function.update, hmanifest, hbackup]
  have hmanifest' : Function.update carrying .packagedApp P.get? .manifest = .only (.file versioned is) := rfl
  have hbackup' : Function.update carrying .packagedApp P.get? .backup = .only (.file content false) := rfl
  refine Achieves.bind (Q := fun _ => p.config.Shows (Function.update contents .packagedApp P.get?)) ?_
    fun _ => achieves_none
  rw [hpath, package, ← hend]
  refine (achieves_acquire h hmanifest hbackup hversioned).bind fun g => (htool g).attempt.bind fun outcome => ?_
  refine .bind (Q := fun restored t => restored = .ok () ∧ outcome = .ok () ∧ p.config.Shows (Function.update
    (Function.update (Function.update carrying .packagedApp P.get?) .manifest (.only (.file content is))) .backup
    .none) t) ?_ fun restored => ?_
  · have hrestore := (achieves_restore (C := p.config.KeepsContract D P F) h content hmanifest' hbackup' g).attempt
    refine ⟨hrestore.grows, ?_⟩
    rintro s ⟨_, hok, hg, hshows⟩ hcalls
    obtain ⟨restored, after, hrun, ⟨_, hrestored, hend⟩⟩ := hrestore.success s ⟨hg, hshows⟩ hcalls
    exact ⟨restored, after, hrun, hrestored, hok, hend⟩
  · refine ⟨fun s => ?_, ?_⟩
    · cases outcome <;> cases restored <;> exact List.Subset.refl _
    · rintro s ⟨rfl, rfl, hshows⟩ -
      exact ⟨(), s, rfl, hshows⟩

/-- The application is moved to the build results, and is no longer in its package. -/
theorem achieves_collected (h : p.config.Routed D F) {entries : List (Bytes × Content)}
    (hdist : contents .dist = .directory entries) (hfree : entries.lookup p.config.outputName = none)
    (happ : contents .packagedApp = P.get?) {C : Call → Prop} :
    Achieves C (p.config.Shows contents)
      (perform p (.move (Plan.packagedApp p.config) (Plan.collectedApp p.config)))
      fun _ => p.config.Shows (Function.update (Function.update contents .packagedApp .none) .dist
        (.directory (entries ++ [(p.config.outputName, P.get?)]))) := by
  have hsource : Plan.packagedApp p.config = .ofLocation (p.config.placeOf .packagedApp) :=
    h.laidOut.pathOf_ofLocation .packagedApp
  have hspells := h.spells .packagedApp
  have hseparate : Separate (p.config.placeOf .packagedApp) (p.config.placeOf .dist ++ [p.config.outputName]) :=
    (h.separate (by decide)).append _
  rw [perform, hsource, h.laidOut.collectedApp_eq]
  refine (Achieves.onTree fun t hshows => ?_).bind fun _ => achieves_none
  have happHolds := hshows.2 .packagedApp
  have hdistHolds := hshows.2 .dist
  rw [happ] at happHolds
  rw [hdist] at hdistHolds
  have hdir : t.get? (p.config.placeOf .dist) = some .directory := hdistHolds.get?
  have hnone : t.get? (p.config.placeOf .dist ++ [p.config.outputName]) = none := by
    rw [hdistHolds]
    change ((entries.lookup p.config.outputName).bind fun found => found []) = none
    rw [hfree]
    rfl
  have happPlace := h.laidOut.placeOf_eq .packagedApp
  rw [happPlace] at hspells hseparate happHolds ⊢
  refine (moveDir_arrives p.cwd hspells h.collected hseparate hshows.1 happHolds rfl hdir
    (.of_parent hshows.1 hdir (.inl hnone))).mono ?_
  rintro _ t' ⟨hwf, harrived, hleft, hsame⟩
  rw [← happPlace] at hleft hsame
  have hkeep {other : Site} (hne : other ≠ .packagedApp) (rest : Location)
      (hout : ¬ p.config.placeOf .dist ++ [p.config.outputName] <+: p.config.placeOf other ++ rest) :
      t'.get? (p.config.placeOf other ++ rest) = t.get? (p.config.placeOf other ++ rest) :=
    hsame _ ((h.separate hne.symm).append rest).1 hout
  refine ⟨hwf, fun other => ?_⟩
  by_cases hdistSite : other = .dist
  · subst hdistSite
    rw [Function.update_self]
    refine hdistHolds.insert hfree harrived fun rest hout => hkeep (by decide) rest fun hpre => hout ?_
    exact (List.prefix_append_right_inj _).mp hpre
  · rw [Function.update_of_ne hdistSite]
    by_cases happSite : other = .packagedApp
    · subst happSite
      rw [Function.update_self]
      exact hleft
    · rw [Function.update_of_ne happSite]
      refine (hshows.2 other).of_eq fun rest => hkeep happSite rest fun hpre => ?_
      exact ((h.separate (Ne.symm hdistSite)).append rest).1 ((List.prefix_append _ _).trans hpre)

/-- The builder leaves the installer in its directory. -/
theorem achieves_built (h : p.config.Routed D F) (version : String) :
    Achieves (p.config.KeepsContract D P F) (p.config.Shows contents)
      (perform p (.run (Plan.buildDeb p.config version)))
      fun _ => p.config.Shows (Function.update contents .finalInstaller F.get?) := by
  refine (Achieves.runTool succeeded fun call hcall hrequest hshows => ?_).bind fun _ => achieves_none
  have hruns : call.Runs p.config.tools.debBuilder p.config.layout.buildScripts "--src" := by
    obtain ⟨hmode, hcommand⟩ := Call.of_request hrequest
    rw [Call.Runs, hcommand]
    exact ⟨hmode, rfl, rfl, rfl⟩
  exact hcall.shows_filled List.prefix_rfl (fun _ _ hfills => hfills.of_builder hruns.2.2.2)
    (fun other hne => h.separate hne.symm) (hcall.fills _ _ (.builder hruns)) hshows

/-- The installer is listed. -/
theorem achieves_listed (h : p.config.Routed D F) (hF : F.WellFormed)
    (hlinks : ∀ location ∈ F.places, ∀ entry ∈ F.get? location, entry.isSymlink = false)
    (hinstaller : contents .finalInstaller = F.get?) {C : Call → Prop} :
    Achieves C (p.config.Shows contents) (perform p (.list p.config.layout.finalInstaller)) fun found t =>
      found = some (F.artifactsOf p.config.layout.finalInstaller) ∧ p.config.Shows contents t := by
  have hpath : p.config.layout.finalInstaller = .ofLocation (p.config.placeOf .finalInstaller) :=
    h.laidOut.pathOf_ofLocation .finalInstaller
  have hlist : Achieves C (p.config.Shows contents) (listArtifacts p p.config.layout.finalInstaller) fun found t =>
      found = F.artifactsOf p.config.layout.finalInstaller ∧ p.config.Shows contents t :=
    achieves_listArtifacts fun t hshows => ?_
  · refine hlist.bind fun _ => Achieves.pure.mono (fun _ h => h) fun _ _ ⟨heq, hlisted, hshows⟩ => ?_
    exact ⟨by rw [heq, hlisted], hshows⟩
  have hholds := hshows.2 .finalInstaller
  rw [hinstaller] at hholds
  rw [hpath]
  refine artifacts_eq p.cwd (h.spells .finalInstaller) hshows.1 hF hholds
    (fun name entry hget => ⟨?_, ?_⟩) h.listed.spans
  · have hspells := h.listed [name] (by simp [hget])
    rwa [Path.ofLocation_join (h.spells .finalInstaller).isName (hspells.isName name (by simp))]
  · exact hlinks [name] (mem_places (by simp [hget])) entry hget

end Pipeline

end DebRelease
