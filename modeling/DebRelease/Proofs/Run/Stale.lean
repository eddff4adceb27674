import DebRelease.Proofs.Manifest.Runs
import DebRelease.Proofs.Run.Renewal

namespace DebRelease

open FileTree RunM Manifest

namespace Config

variable {c : Config} {version : Version} {stage : Stage} {later : List Stage}

/-- The places that a run makes anew, whatever was there. -/
def renewed (c : Config) : List Location :=
  [c.layout.dist.place, c.layout.guiDaemon.place, c.layout.finalInstaller.place]

/-- The manifest, its backup and the packaged application are not at or below what a run makes anew. -/
def ReadsApart (c : Config) : Prop :=
  ∀ path ∈ [c.layout.guiManifest, backupOf c.layout.guiManifest, Plan.packagedApp c], ∀ place ∈ c.renewed,
    ¬ place <+: path.place

instance (c : Config) : Decidable c.ReadsApart := by
  unfold ReadsApart; infer_instance

/-- What a run reads and what it makes anew lie apart, and the run does not start at or below the daemon's copy or the
    packaged application, which is not named by going up. -/
structure RenewsApart (c : Config) : Prop where
  built : c.Built
  /-- The directory of the application is not named by going up. -/
  name : Path.dotDot ∉ (Path.ofText c.outputDirName).names
  /-- What is read is not at or below what is made anew. -/
  files : c.ReadsApart
  /-- The run does not start in what it replaces or moves away. -/
  scripts : ∀ path ∈ [c.layout.guiDaemon, Plan.packagedApp c], ¬ path.place <+: c.layout.buildScripts.place

namespace RenewsApart

private theorem isWritten_join {dir : Location} {name : Bytes} (hdir : ∀ other ∈ dir, Path.isName other = true)
    (hname : Path.isName name = true) : ((Path.ofLocation dir).join ⟨name⟩).IsWritten ∧
      ((Path.ofLocation dir).join ⟨name⟩).place = dir ++ [name] := by
  have hnames : ∀ other ∈ dir ++ [name], Path.isName other = true :=
    List.forall_mem_append.mpr ⟨hdir, List.forall_mem_singleton.mpr hname⟩
  have hplace : ((Path.ofLocation dir).join ⟨name⟩).place = dir ++ [name] := by
    rw [Path.ofLocation_join hdir hname, (Path.isDirect_ofLocation hnames).2]
  refine ⟨⟨by simp [hplace], ?_, by rwa [hplace]⟩, hplace⟩
  rw [hplace, Path.ofLocation_join hdir hname]

/-- A path to an entry of the directory that the run starts from. -/
private theorem inScripts (h : c.RenewsApart) {name : Bytes} (hname : Path.isName name = true) :
    (c.layout.buildScripts.join ⟨name⟩).IsWritten ∧
      (c.layout.buildScripts.join ⟨name⟩).place = c.layout.buildScripts.place ++ [name] := by
  obtain ⟨scripts, hscripts, heq⟩ := h.built.buildScripts
  rw [heq, (Path.isDirect_ofLocation hscripts).2]
  exact isWritten_join hscripts hname

/-- A path to an entry of the package. -/
private theorem inPackage (h : c.RenewsApart) {name : Bytes} (hname : Path.isName name = true) :
    (c.layout.guiPackage.join ⟨name⟩).IsWritten ∧
      (c.layout.guiPackage.join ⟨name⟩).place = c.layout.guiPackage.place ++ [name] := by
  obtain ⟨package, hpackage, heq⟩ := h.built.guiPackage
  rw [heq, (Path.isDirect_ofLocation hpackage).2]
  exact isWritten_join hpackage hname

theorem dist (h : c.RenewsApart) : c.layout.dist.IsWritten ∧
    c.layout.dist.place = c.layout.buildScripts.place ++ [Bytes.ofText "dist"] :=
  h.inScripts (by decide +kernel)

theorem finalInstaller (h : c.RenewsApart) : c.layout.finalInstaller.IsWritten ∧
    c.layout.finalInstaller.place = c.layout.buildScripts.place ++ [Bytes.ofText "final_installer"] :=
  h.inScripts (by decide +kernel)

theorem guiDaemon (h : c.RenewsApart) : c.layout.guiDaemon.IsWritten ∧
    c.layout.guiDaemon.place = c.layout.guiPackage.place ++ [Bytes.ofText "daemon"] :=
  h.inPackage (by decide +kernel)

/-- What is made anew where the run starts does not meet the daemon's copy. -/
private theorem separate_guiDaemon (h : c.RenewsApart) {name : Bytes} (hne : name ≠ Bytes.ofText "daemon")
    (hrenewed : c.layout.buildScripts.place ++ [name] ∈ c.renewed) :
    Separate (c.layout.buildScripts.place ++ [name]) c.layout.guiDaemon.place := by
  have hmanifest : c.layout.guiManifest.place = c.layout.guiPackage.place ++ [Layout.manifestName] :=
    (h.inPackage (by decide +kernel)).2
  have hfiles := h.files c.layout.guiManifest (by simp) _ hrenewed
  have hscripts := h.scripts c.layout.guiDaemon (by simp)
  rw [h.guiDaemon.2] at hscripts ⊢
  refine .of_outside hne (fun hpre => hfiles ?_) hscripts
  rw [hmanifest]
  exact hpre.trans (List.prefix_append _ _)

/-- No two of the places that are made anew meet. -/
theorem separate (h : c.RenewsApart) : Separate c.layout.dist.place c.layout.guiDaemon.place ∧
    Separate c.layout.finalInstaller.place c.layout.guiDaemon.place ∧
    Separate c.layout.finalInstaller.place c.layout.dist.place := by
  have hdist := h.dist.2
  have hinstaller := h.finalInstaller.2
  refine ⟨hdist ▸ h.separate_guiDaemon (by decide +kernel) ?_,
    hinstaller ▸ h.separate_guiDaemon (by decide +kernel) ?_, ?_⟩
  · simp [renewed, hdist]
  · simp [renewed, hinstaller]
  · rw [hdist, hinstaller]
    exact .of_ne (by decide +kernel)

/-- The application among the build results is an entry below them, or named like the packaged application by a path
    from the root. -/
private theorem collectedApp (h : c.RenewsApart) : Plan.collectedApp c = Plan.packagedApp c ∨
    ∃ rest, (Plan.collectedApp c).place = c.layout.dist.place ++ rest := by
  cases habsolute : (Path.ofText c.outputDirName).isAbsolute with
  | true =>
    refine .inl ?_
    rw [Plan.collectedApp, Plan.packagedApp, Path.child, Path.child, Path.join, Path.join, if_pos habsolute,
      if_pos habsolute]
  | false =>
    obtain ⟨⟨-, hpath, hnames⟩, -⟩ := h.dist
    have hdirect := (Path.isDirect_ofLocation hnames).1
    rw [← hpath] at hdirect
    exact .inr ⟨_, (hdirect.join habsolute h.name).2⟩

/-- The packaged application does not meet the installer directory, nor does the application among the build results;
    and the former is not above the latter. -/
theorem moves (h : c.RenewsApart) :
    FileTree.Apart [c.layout.finalInstaller.place] (Plan.packagedApp c) (Plan.collectedApp c) ∧
    ((Plan.packagedApp c).place <+: (Plan.collectedApp c).place →
      (Plan.packagedApp c).place = (Plan.collectedApp c).place) := by
  have hscripts := h.scripts (Plan.packagedApp c) (by simp)
  have hout := h.files (Plan.packagedApp c) (by simp)
  have habove {name : Bytes} (hrenewed : c.layout.buildScripts.place ++ [name] ∈ c.renewed) :
      ¬ (Plan.packagedApp c).place <+: c.layout.buildScripts.place ++ [name] := by
    intro hpre
    rcases List.prefix_concat_iff.mp hpre with heq | hpre
    · exact hout _ hrenewed (heq ▸ List.prefix_rfl)
    · exact hscripts hpre
  have hdist : c.layout.dist.place ∈ c.renewed := List.mem_cons_self
  have hinstaller : c.layout.finalInstaller.place ∈ c.renewed := by simp [renewed]
  have hpackaged : Separate c.layout.finalInstaller.place (Plan.packagedApp c).place := by
    refine ⟨hout _ hinstaller, ?_⟩
    rw [h.finalInstaller.2] at hinstaller ⊢
    exact habove hinstaller
  refine ⟨fun place hmem => ?_, fun hpre => ?_⟩
  · obtain rfl := List.mem_singleton.mp hmem
    refine ⟨hpackaged, ?_⟩
    rcases h.collectedApp with heq | ⟨rest, hrest⟩
    · rwa [heq]
    · rw [hrest]
      exact h.separate.2.2.append rest
  · rcases h.collectedApp with heq | ⟨rest, hrest⟩
    · rw [heq]
    · rw [hrest] at hpre
      rcases List.prefix_or_prefix_of_prefix hpre (List.prefix_append _ _) with habove' | hbelow
      · rw [h.dist.2] at habove' hdist
        exact absurd habove' (habove hdist)
      · exact absurd hbelow (hout _ hdist)

theorem frozenDaemon (h : c.RenewsApart) : c.layout.frozenDaemon.IsDirect ∧
    c.layout.frozenDaemon.place = c.layout.dist.place ++ [Bytes.ofText "daemon"] := by
  obtain ⟨⟨-, hpath, hnames⟩, -⟩ := h.dist
  have hdirect := (Path.isDirect_ofLocation hnames).1
  rw [← hpath] at hdirect
  exact hdirect.join_name (by decide +kernel)

/-- The manifest and its backup are reached directly. -/
private theorem guarded (h : c.RenewsApart) :
    c.layout.guiManifest.IsDirect ∧ (backupOf c.layout.guiManifest).IsDirect := by
  obtain ⟨dir, hmanifest, -, -, hnames⟩ := h.built.manifest_isName
  obtain ⟨hdir, hname⟩ := List.forall_mem_append.mp hnames
  have hbackup : ∀ name ∈ dir ++ [backupName Layout.manifestName], Path.isName name = true :=
    List.forall_mem_append.mpr ⟨hdir,
      List.forall_mem_singleton.mpr (isName_backupName (hname _ (List.mem_singleton_self _)))⟩
  rw [hmanifest, backupOf_ofLocation]
  exact ⟨(Path.isDirect_ofLocation hnames).1, (Path.isDirect_ofLocation hbackup).1⟩

/-- The stages of a plan work apart from what is made anew after them. -/
theorem fits (h : c.RenewsApart) (hsuffix : stage :: later <:+ c.plan version) : stage.action.Fits (pending later) := by
  obtain ⟨hdistDaemon, hinstallerDaemon, hinstallerDist⟩ := h.separate
  have hrebuilt := h.built.rebuilt h.name
  simp only [Config.plan, List.suffix_cons_iff, List.suffix_nil, List.cons.injEq, reduceCtorEq, or_false] at hsuffix
  rcases hsuffix with hs | hs | hs | hs | hs | hs | hs | hs | hs | hs | hs | hs | hs <;> obtain ⟨rfl, rfl⟩ := hs
  case inr.inl =>
    refine ⟨h.dist.1, ?_⟩
    change ∀ place ∈ [c.layout.guiDaemon.place, c.layout.finalInstaller.place], _
    simpa using ⟨hdistDaemon.symm, hinstallerDist⟩
  case inr.inr.inr.inr.inl =>
    obtain ⟨hdirect, hplace⟩ := h.frozenDaemon
    refine ⟨hdirect, h.guiDaemon.1, ?_, ?_⟩
    · rw [hplace]
      exact (hdistDaemon.symm.append _).symm
    · change FileTree.Apart [c.layout.finalInstaller.place] _ _
      refine fun place hmem => ?_
      obtain rfl := List.mem_singleton.mp hmem
      exact ⟨hplace ▸ hinstallerDist.append _, hinstallerDaemon⟩
  case inr.inr.inr.inr.inr.inr.inr.inr.inl =>
    obtain ⟨hmanifest, hbackup⟩ := h.guarded
    have hdirect : ∀ path ∈ [c.layout.guiManifest, backupOf c.layout.guiManifest], path.IsDirect := by
      simpa using ⟨hmanifest, hbackup⟩
    refine fun path hmem => ⟨hdirect path hmem, fun place hplace => h.files path ?_ place ?_⟩
    · simp only [List.mem_cons, List.not_mem_nil, or_false] at hmem ⊢
      exact hmem.imp_right .inl
    · change place ∈ [c.layout.finalInstaller.place] at hplace
      simp [renewed, List.mem_singleton.mp hplace]
  case inr.inr.inr.inr.inr.inr.inr.inr.inr.inl =>
    exact ⟨hrebuilt _ (by simp [rebuilt]), hrebuilt _ (by simp [rebuilt]), h.moves.2, h.moves.1⟩
  case inr.inr.inr.inr.inr.inr.inr.inr.inr.inr.inl =>
    exact ⟨h.finalInstaller.1, fun place hmem => by cases hmem⟩
  all_goals trivial

end RenewsApart

end Config

/-- Two trees that a file system can hold and that are the same but for what lies at or below some places, where each
    has a directory or nothing. -/
structure FileTree.DifferAt (places : List Location) (t t' : FileTree) : Prop where
  wellFormed : t.WellFormed
  wellFormed' : t'.WellFormed
  outside : t.outside places = t'.outside places
  stale : ∀ tree ∈ [t, t'], ∀ place ∈ places, tree.get? place = none ∨ tree.get? place = some .directory

instance (places : List Location) (t t' : FileTree) : Decidable (FileTree.DifferAt places t t') :=
  decidable_of_iff (t.WellFormed ∧ t'.WellFormed ∧ t.outside places = t'.outside places ∧
    ∀ tree ∈ [t, t'], ∀ place ∈ places, tree.get? place = none ∨ tree.get? place = some .directory)
    ⟨fun ⟨hwf, hwf', hout, hstale⟩ => ⟨hwf, hwf', hout, hstale⟩,
      fun ⟨hwf, hwf', hout, hstale⟩ => ⟨hwf, hwf', hout, hstale⟩⟩

namespace Pipeline

variable {p : Pipeline (List Request)} {script : List Request → Behaviour} {value : Option String}
    {s s' : Session (List Request)} {t₀ t₀' : FileTree} {total number : Nat} {stages : List Stage}
    {b : Beginning (List Request)}

/-- No link is in the way of the paths that a stage works at, where it begins and after each of its calls. -/
def Unlinked (p : Pipeline (List Request)) (b : Beginning (List Request)) : Prop :=
  ∀ path ∈ b.stage.action.handled, b.session.tree.IsPlain path.place ∧
    ∀ call ∈ p.callsOf b, call.after.IsPlain path.place

instance (p : Pipeline (List Request)) (b : Beginning (List Request)) : Decidable (p.Unlinked b) := by
  unfold Unlinked; infer_instance

/-- A place that is not made anew when a stage has begun, because that is for a later stage or because what is there
    could not be removed. -/
def Unmade (p : Pipeline (List Request)) (b : Beginning (List Request)) (place : Location) : Prop :=
  place ∈ pending b.later ∨ b.stage.action.IsStuck p.cwd b.session.tree ∧ place ∈ b.stage.action.renewed

/-- Sessions that differ at most at places that none of the stages that have begun has made anew. -/
private def Parted (p : Pipeline (List Request)) (t₀ t₀' : FileTree) (stages : List Stage)
    (begun : List (Beginning (List Request))) (s s' : Session (List Request)) : Prop :=
  ∃ left, Alike t₀ t₀' left s s' ∧ left ⊆ pending stages ∧ ∀ b ∈ begun, ∀ place ∈ left, p.Unmade b place

/-- Stages performed one after another make the trees the same place by place. -/
private theorem performAll_concurs (htools : p.tools = .ofScript script) (total : Nat) (number : Nat)
    (listed : List Artifact) (h : Alike t₀ t₀' (pending stages) s s')
    (hfits : ∀ stage later, stage :: later <:+ stages → stage.action.Fits (pending later))
    (hstale : ∀ tree ∈ [t₀, t₀'], ∀ place ∈ pending stages, tree.get? place = none ∨ tree.get? place = some .directory)
    (hspares : ∀ b ∈ stagesBegun p total number stages s,
      RunM.Spares script (pending (b.stage :: b.later)) (perform p b.stage.action) b.session)
    (hplain : ∀ b ∈ stagesBegun p total number stages s, p.Unlinked b) :
    Concurs (Parted p t₀ t₀' stages (stagesBegun p total number stages s)) (fun _ => Alike t₀ t₀' [])
      (performAll p total number listed stages) s s' := by
  induction stages generalizing number listed s s' with
  | nil => exact .pure h
  | cons stage stages ih =>
    rw [performAll]
    refine (h.emit _).bind fun _ ready ready' hready hshown => ?_
    obtain rfl : announced p total number stage s = ready := (Prod.mk.inj hready).2
    have hhead : ⟨stage, stages, announced p total number stage s⟩ ∈ stagesBegun p total number (stage :: stages) s :=
      mem_stagesBegun_cons.mpr (.inl rfl)
    have hstage := perform_concurs htools hshown (hfits stage stages List.suffix_rfl)
      (fun place hmem tree htree => hstale tree htree place (List.mem_append_left _ hmem)) (hspares _ hhead)
      (hplain _ hhead)
    refine Concurs.bind (R := fun _ => Alike t₀ t₀' (pending stages)) ?_ fun found after after' hrun hafter => ?_
    · refine (hstage.inStage stage.name).mono_failed fun e he hparted => ?_
      -- The stage has failed, so no other has begun.
      have honly : ∀ b ∈ stagesBegun p total number (stage :: stages) s,
          b = ⟨stage, stages, announced p total number stage s⟩ := by
        intro b hmem
        rcases mem_stagesBegun_cons.mp hmem with heq | ⟨found, reached, hok, -⟩
        · exact heq
        · rw [run_inStage, hok] at he
          cases he
      rcases hparted with ⟨hstuck, hbefore⟩ | hafter
      · refine ⟨_, hbefore, List.Subset.refl _, fun b hmem place hplace => ?_⟩
        rw [honly b hmem]
        exact (List.mem_append.mp hplace).symm.imp_right (And.intro hstuck)
      · refine ⟨_, hafter, List.subset_append_right _ _, fun b hmem place hplace => ?_⟩
        rw [honly b hmem]
        exact .inl hplace
    · have hperform : perform p stage.action (announced p total number stage s) = (.ok found, after) := by
        rw [run_inStage, Prod.mk.injEq] at hrun
        exact Prod.ext (mapError_eq_ok_iff.mp hrun.1) hrun.2
      have hlater : ∀ b ∈ stagesBegun p total (number + 1) stages after,
          b ∈ stagesBegun p total number (stage :: stages) s :=
        fun b hmem => mem_stagesBegun_cons.mpr (.inr ⟨found, after, hperform, hmem⟩)
      refine (ih (number + 1) _ hafter
        (fun other later hsuffix => hfits other later (hsuffix.trans (List.suffix_cons _ _)))
        (fun tree htree place hmem => hstale tree htree place (List.mem_append_right _ hmem))
        (fun b hmem => hspares b (hlater b hmem)) fun b hmem => hplain b (hlater b hmem)).mono_failed ?_
      rintro e - ⟨left, halike, hleft, hall⟩
      have hsubset : left ⊆ pending (stage :: stages) := List.Subset.trans hleft (List.subset_append_right _ _)
      refine ⟨left, halike, hsubset, fun b hmem => ?_⟩
      rcases mem_stagesBegun_cons.mp hmem with rfl | ⟨_, _, hperform', hmem⟩
      · exact fun place hplace => .inl (hleft hplace)
      · rw [hperform] at hperform'
        cases hperform'
        exact hall b hmem

/-- Two runs go alike. If they fail, the trees differ at most at places that are made anew in a run, but of which
    `Unmade` holds with every stage that has begun. -/
structure GoesAlike (p : Pipeline (List Request)) (value : Option String) (s s' : Session (List Request))
    (Unmade : Beginning (List Request) → Location → Prop) : Prop where
  outcome : (p.run value s').1 = (p.run value s).1
  calls : (p.run value s').2.calls.map Call.exchange = (p.run value s).2.calls.map Call.exchange
  shown : (p.run value s').2.writes = (p.run value s).2.writes ∧ (p.run value s').2.log = (p.run value s).2.log
  success : ∀ report, (p.run value s).1 = .ok report → (p.run value s').2.tree = (p.run value s).2.tree
  /-- With a failure the trees differ at most at what was not yet made anew, and there each is as it was. -/
  failure : ∀ e, (p.run value s).1 = .error e → ∃ left ⊆ p.config.renewed,
    (∀ b ∈ p.begun value s, ∀ place ∈ left, Unmade b place) ∧
    (p.run value s').2.tree.outside left = (p.run value s).2.tree.outside left ∧
    Untouched left s.tree (p.run value s).2.tree ∧ Untouched left s'.tree (p.run value s').2.tree

/-- A run on either of two trees that differ only in what is made anew: what it reads lies apart from that, its tools go
    by what they are asked, and they leave it alone as long as it is not made anew. -/
structure Sheltered (script : List Request → Behaviour) (p : Pipeline (List Request)) (value : Option String)
    (t t' : FileTree) : Prop where
  built : p.config.Built
  /-- The manifest, its backup and the packaged application are not at or below what is made anew. -/
  files : p.config.ReadsApart
  trees : DifferAt p.config.renewed t t'
  tools : p.tools = .ofScript script
  /-- The tools that the version step asks leave alone what is made anew. -/
  version : RunM.Spares script p.config.renewed (resolveVersion p value) (opened p (.start t []))
  stages : ∀ b ∈ p.begun value (.start t []),
    RunM.Spares script (pending (b.stage :: b.later)) (perform p b.stage.action) b.session

private theorem run_concurs (h : Sheltered script p value t₀ t₀') (hconfig : p.config.RenewsApart)
    (hplain : ∀ b ∈ p.begun value (.start t₀ []), p.Unlinked b) :
    Concurs (fun after after' => ∃ left ⊆ p.config.renewed, Alike t₀ t₀' left after after' ∧
      ∀ b ∈ p.begun value (.start t₀ []), ∀ place ∈ left, p.Unmade b place) (fun _ => Alike t₀ t₀' [])
      (p.run value) (.start t₀ []) (.start t₀' []) := by
  obtain ⟨-, -, hdiffer, htools, hversion, hspares⟩ := h
  have hstart : Alike t₀ t₀' p.config.renewed (.start t₀ [] : Session (List Request)) (.start t₀' []) :=
    ⟨hdiffer.wellFormed, hdiffer.wellFormed', hdiffer.outside, .refl _ _, .refl _ _, rfl, rfl, rfl, rfl⟩
  rw [run]
  refine (hstart.emit _).bind fun _ ready ready' hready hopened => ?_
  obtain rfl : opened p (.start t₀ []) = ready := (Prod.mk.inj hready).2
  have hresolved := resolveVersion_concurs htools value hopened hversion
  refine Concurs.bind (R := fun _ => Alike t₀ t₀' p.config.renewed) ?_ fun version after after' hrun hafter => ?_
  · refine (hresolved.inStage _).mono_failed fun e he halike => ⟨_, List.Subset.refl _, halike, fun b hmem => ?_⟩
    obtain ⟨version, ready, hversion, -⟩ := mem_begun.mp hmem
    rw [run_inStage, hversion] at he
    cases he
  · have hresolve : resolveVersion p value (opened p (.start t₀ [])) = (.ok version, after) := by
      rw [run_inStage, Prod.mk.injEq] at hrun
      exact Prod.ext (mapError_eq_ok_iff.mp hrun.1) hrun.2
    have hbegun : ∀ b ∈ stagesBegun p (p.config.plan version).length 1 (p.config.plan version) after,
        b ∈ p.begun value (.start t₀ []) := fun b hmem => mem_begun.mpr ⟨version, after, hresolve, hmem⟩
    have hperformed := performAll_concurs htools (p.config.plan version).length 1 [] hafter
      (fun _ _ => hconfig.fits) hdiffer.stale (fun b hmem => hspares b (hbegun b hmem))
      fun b hmem => hplain b (hbegun b hmem)
    refine Concurs.bind (R := fun _ => Alike t₀ t₀' []) ?_ fun artifacts _ _ _ hdone =>
      (hdone.emit _).bind fun _ _ _ _ hreported => .pure hreported
    refine hperformed.mono_failed ?_
    rintro e - ⟨left, halike, hleft, hall⟩
    refine ⟨left, hleft, halike, fun b hmem => ?_⟩
    obtain ⟨_, _, hresolve', hmem⟩ := mem_begun.mp hmem
    rw [hresolve] at hresolve'
    cases hresolve'
    exact hall b hmem

/-- What an earlier run has left in the directories that a run makes anew does not influence it. The directory of the
    application must not be named by going up, the run must not start in what it replaces or moves away, and no link may
    be in the way of what the stages work at. -/
theorem run_ignores_stale (h : Sheltered script p value t₀ t₀')
    (hname : Path.dotDot ∉ (Path.ofText p.config.outputDirName).names)
    (hdaemon : ¬ p.config.layout.guiDaemon.place <+: p.config.layout.buildScripts.place)
    (hpackaged : ¬ (Plan.packagedApp p.config).place <+: p.config.layout.buildScripts.place)
    (hplain : ∀ b ∈ p.begun value (.start t₀ []), p.Unlinked b) :
    GoesAlike p value (.start t₀ []) (.start t₀' []) p.Unmade := by
  have hconfig : p.config.RenewsApart := ⟨h.built, hname, h.files, by simpa using ⟨hdaemon, hpackaged⟩⟩
  obtain ⟨houtcome, hdone, hfailed⟩ := run_concurs h hconfig hplain
  cases hfirst : (p.run value (.start t₀ [])).1 with
  | ok report =>
    have halike := hdone report hfirst
    refine ⟨houtcome, halike.calls.symm, ⟨halike.writes.symm, halike.log.symm⟩, fun _ _ => ?_, fun e he => ?_⟩
    · simpa using halike.tree.symm
    · rw [hfirst] at he
      cases he
  | error e =>
    obtain ⟨left, hleft, halike, hall⟩ := hfailed e hfirst
    refine ⟨houtcome, halike.calls.symm, ⟨halike.writes.symm, halike.log.symm⟩, fun _ hok => ?_, fun _ _ => ?_⟩
    · rw [hfirst] at hok
      cases hok
    · exact ⟨left, hleft, hall, halike.tree.symm, halike.untouched, halike.untouched'⟩

/-- A run with the settings of a draft, with tools that put entries at places. -/
def drafted (d : ConfigDraft) (edits : List (String × Location × Entry)) : Pipeline (List Request) where
  config :=
    { platform := .amd64
      layout := d.layout "/"
      tools := d.tools
      product := d.product
      versioning := d.versioning
      searchPath := none
      toolSearchPath := (d.layout "/").toolBin.bytes }
  tools := .ofScript (making edits)
  console := ⟨false, true, false⟩
  cwd := some []

/-- The tools put nothing where a run with these settings is still to make something anew, and only there do the trees
    differ. -/
def Harmless (d : ConfigDraft) (edits : List (String × Location × Entry)) (t t' : FileTree) : Prop :=
  SearchPath.colon ∉ (d.layout "/").toolBin.bytes ∧ (drafted d edits).config.ReadsApart ∧
  DifferAt (drafted d edits).config.renewed t t' ∧
  (∀ call ∈ callsMade (resolveVersion (drafted d edits) none) (opened (drafted d edits) (.start t [])),
    ∀ edit ∈ edits, edit.1 = call.command.program → ∀ place ∈ (drafted d edits).config.renewed, ¬ place <+: edit.2.1) ∧
  ∀ b ∈ (drafted d edits).begun none (.start t []),
    ∀ call ∈ callsMade (perform (drafted d edits) b.stage.action) b.session, ∀ edit ∈ edits,
      edit.1 = call.command.program → ∀ place ∈ pending (b.stage :: b.later), ¬ place <+: edit.2.1

instance (d : ConfigDraft) (edits : List (String × Location × Entry)) (t t' : FileTree) :
    Decidable (Harmless d edits t t') := by
  unfold Harmless; infer_instance

theorem sheltered_drafted {d : ConfigDraft} {edits : List (String × Location × Entry)} {t t' : FileTree}
    (h : Harmless d edits t t') (hplatform : d.platform = some .amd64) (hsearch : d.searchPath = none) :
    Sheltered (making edits) (drafted d edits) none t t' := by
  obtain ⟨hcolon, hfiles, htrees, hversion, hstages⟩ := h
  refine ⟨⟨d, ⟨.ok "/", none⟩, ?_⟩, hfiles, htrees, rfl, spares_making hversion,
    fun b hmem => spares_making (hstages b hmem)⟩
  have hdir : (Failure.naming "reading current directory" "." (.ok "/") : Except Failure Path) = .ok "/" := rfl
  have hjoin : (d.layout "/").searchPathWithTools none = .ok (d.layout "/").toolBin.bytes := by
    simp [Layout.searchPathWithTools, SearchPath.join?, Bytes.joinWith, hcolon]
  rw [ConfigDraft.build, hplatform]
  dsimp only
  rw [hdir]
  simp [drafted, hjoin, hsearch, bind, Except.bind, pure, Except.pure]

/-- Tools that make the directories and the file that a run from `/b` asks of them. -/
def smallEdits : List (String × Location × Entry) :=
  [("pyinstaller", Path.place "/b/dist/daemon", .directory),
    ("electron-packager", Path.place "/g/y-linux-x64", .directory),
    ("electron-installer-debian", Path.place "/b/final_installer/y.deb", .file [3] false)]

/-- What an earlier run has left, and more. -/
def smallStale : List (Path × Entry) :=
  [("/b/dist", .directory), ("/b/dist/daemon", .directory), ("/b/dist/daemon/old", .symlink "/g/package.json"),
    ("/g/daemon", .directory), ("/g/daemon/old", .file [1] true),
    ("/b/final_installer", .directory), ("/b/final_installer/old.deb", .file [2] false)]

/-- A run that succeeds does so alike on what an earlier one has left. -/
theorem run_ignores_stale_small :
    ((drafted (smallDraft "/b" "y") smallEdits).run none (.start (smallTree []) [])).1.isOk = true ∧
      GoesAlike (drafted (smallDraft "/b" "y") smallEdits) none (.start (smallTree []) [])
        (.start (smallTree smallStale) []) (drafted (smallDraft "/b" "y") smallEdits).Unmade :=
  ⟨by decide +kernel, run_ignores_stale (sheltered_drafted (by decide +kernel) rfl rfl) (by decide +kernel)
    (by decide +kernel) (by decide +kernel) (by decide +kernel)⟩

/-- A product whose name has many slashes in a row. -/
def slashed (count : Nat) : String :=
  "a" ++ String.ofList (List.replicate count '/') ++ "y"

/-- Settings for a run from where the packaged application of such a product will be. -/
def fromApp (count : Nat) : ConfigDraft := smallDraft "/g/a/y-linux-x64" (slashed count)

/-- A package with that directory, and further entries. -/
def appTree (more : List (Path × Entry)) : FileTree :=
  smallTree (("/g/a", .directory) :: ("/g/a/y-linux-x64", .directory) :: more)

/-- Tools that freeze a daemon there. -/
def frozenInApp : List (String × Location × Entry) :=
  [("pyinstaller", Path.place "/g/a/y-linux-x64/dist/daemon", .directory)]

private theorem ofText_slashes (count : Nat) :
    Bytes.ofText (String.ofList (List.replicate count '/')) = List.replicate count Path.slash := by
  induction count with
  | zero => decide +kernel
  | succ count ih =>
    have hslash : Bytes.ofText (String.singleton '/') = [Path.slash] := by decide +kernel
    rw [List.replicate_succ, List.replicate_succ, String.ofList_cons, Bytes.ofText_append, ih, hslash,
      List.singleton_append]

/-- The directory of the application, in bytes. -/
theorem outputDirName_fromApp (count : Nat) (edits : List (String × Location × Entry)) :
    Path.ofText (drafted (fromApp count) edits).config.outputDirName =
      ⟨Bytes.ofText "a" ++ List.replicate count Path.slash ++ Bytes.ofText "y-linux-x64"⟩ := by
  have hname : (drafted (fromApp count) edits).config.outputDirName = slashed count ++ "-linux-" ++ "x64" := rfl
  have hend : Bytes.ofText "y" ++ (Bytes.ofText "-linux-" ++ Bytes.ofText "x64") = Bytes.ofText "y-linux-x64" := by
    decide +kernel
  rw [hname, slashed, Path.ofText, ← hend]
  simp only [Bytes.ofText_append, ofText_slashes, List.append_assoc]

/-- How long the path is that a stage failed at. -/
def failedLength : Except Failure Report → Nat
  | .error (.atStage _ (.file _ path _)) => path.bytes.length
  | _ => 0

/-- A directory the path of which is so long that paths to what is in it are longer than a system accepts. -/
def longDir : Location :=
  List.replicate 15 (List.replicate Path.nameLimit 0x62) ++ [List.replicate 250 0x62]

/-- Settings for a run from there. -/
def fromLong : ConfigDraft := smallDraft (.ofLocation longDir) "y"

/-- A directory and all above it. -/
def reaching (dir : Location) : FileTree :=
  ⟨(List.range dir.length).map fun above => (dir.take (above + 1), .directory)⟩

/-- On what an earlier run has left, a run goes otherwise if it starts below the daemon's copy or in the packaged
    application, if a link is in the way, or if the directory of the application is named by going up; and what cannot
    be removed is left. -/
theorem not_run_ignores_stale :
    (¬ ∀ (p : Pipeline (List Request)) (script : List Request → Behaviour) (value : Option String) (t t' : FileTree),
      Sheltered script p value t t' → Path.dotDot ∉ (Path.ofText p.config.outputDirName).names →
        ¬ (Plan.packagedApp p.config).place <+: p.config.layout.buildScripts.place →
        (∀ b ∈ p.begun value (.start t []), p.Unlinked b) → GoesAlike p value (.start t []) (.start t' []) p.Unmade) ∧
    (¬ ∀ (p : Pipeline (List Request)) (script : List Request → Behaviour) (value : Option String) (t t' : FileTree),
      Sheltered script p value t t' → Path.dotDot ∉ (Path.ofText p.config.outputDirName).names →
        ¬ p.config.layout.guiDaemon.place <+: p.config.layout.buildScripts.place →
        (∀ b ∈ p.begun value (.start t []), p.Unlinked b) → GoesAlike p value (.start t []) (.start t' []) p.Unmade) ∧
    (¬ ∀ (p : Pipeline (List Request)) (script : List Request → Behaviour) (value : Option String) (t t' : FileTree),
      Sheltered script p value t t' → Path.dotDot ∉ (Path.ofText p.config.outputDirName).names →
        ¬ p.config.layout.guiDaemon.place <+: p.config.layout.buildScripts.place →
        ¬ (Plan.packagedApp p.config).place <+: p.config.layout.buildScripts.place →
        GoesAlike p value (.start t []) (.start t' []) p.Unmade) ∧
    (¬ ∀ (p : Pipeline (List Request)) (script : List Request → Behaviour) (value : Option String) (t t' : FileTree),
      Sheltered script p value t t' → ¬ p.config.layout.guiDaemon.place <+: p.config.layout.buildScripts.place →
        ¬ (Plan.packagedApp p.config).place <+: p.config.layout.buildScripts.place →
        (∀ b ∈ p.begun value (.start t []), p.Unlinked b) → GoesAlike p value (.start t []) (.start t' []) p.Unmade) ∧
    ¬ ∀ (p : Pipeline (List Request)) (script : List Request → Behaviour) (value : Option String) (t t' : FileTree),
      Sheltered script p value t t' → Path.dotDot ∉ (Path.ofText p.config.outputDirName).names →
        ¬ p.config.layout.guiDaemon.place <+: p.config.layout.buildScripts.place →
        ¬ (Plan.packagedApp p.config).place <+: p.config.layout.buildScripts.place →
        (∀ b ∈ p.begun value (.start t []), p.Unlinked b) →
        GoesAlike p value (.start t []) (.start t' []) fun b place => place ∈ pending b.later := by
  refine ⟨fun hclaim => ?_, fun hclaim => ?_, fun hclaim => ?_, fun hclaim => ?_, fun hclaim => ?_⟩
  · have halike := hclaim (drafted (smallDraft "/g/daemon/x" "y") []) _ none (smallTree [])
      (smallTree [("/g/daemon", .directory), ("/g/daemon/x", .file [] false)])
      (sheltered_drafted (by decide +kernel) rfl rfl) (by decide +kernel) (by decide +kernel) (by decide +kernel)
    exact absurd halike.outcome (by decide +kernel)
  · -- The application is copied into itself until a path is too long; at which, that depends on what is there.
    obtain ⟨hharmless, hname, hdaemon, hplain, hlength⟩ :
        Harmless (fromApp 4060) frozenInApp (appTree []) (appTree [("/g/a/y-linux-x64/final_installer", .directory)]) ∧
        Path.dotDot ∉ (Path.ofText (drafted (fromApp 4060) frozenInApp).config.outputDirName).names ∧
        ¬ (drafted (fromApp 4060) frozenInApp).config.layout.guiDaemon.place <+:
          (drafted (fromApp 4060) frozenInApp).config.layout.buildScripts.place ∧
        (∀ b ∈ (drafted (fromApp 4060) frozenInApp).begun none (.start (appTree []) []),
          (drafted (fromApp 4060) frozenInApp).Unlinked b) ∧
        failedLength ((drafted (fromApp 4060) frozenInApp).run none
            (.start (appTree [("/g/a/y-linux-x64/final_installer", .directory)]) [])).1 ≠
          failedLength ((drafted (fromApp 4060) frozenInApp).run none (.start (appTree []) [])).1 := by
      -- The name is put in bytes, as evaluating so long a text takes its time.
      simp only [run_eq, Harmless, Config.ReadsApart, begun, Config.plan, Plan.packagedApp, Plan.collectedApp,
        Path.child, outputDirName_fromApp]
      decide +kernel
    exact hlength (congrArg failedLength
      (hclaim _ _ _ _ _ (sheltered_drafted hharmless rfl rfl) hname hdaemon hplain).outcome)
  · have halike := hclaim (drafted (smallDraft "/l" "y") []) _ none (smallTree [("/l", .symlink "/g/daemon")])
      (smallTree [("/l", .symlink "/g/daemon"), ("/g/daemon", .directory)])
      (sheltered_drafted (by decide +kernel) rfl rfl) (by decide +kernel) (by decide +kernel) (by decide +kernel)
    exact absurd halike.outcome (by decide +kernel)
  · have halike := hclaim (drafted (smallDraft "/b" "../b/final_installer/../../g/y") smallEdits) _ none
      (smallTree [("/g/y-linux-x64", .directory)])
      (smallTree [("/g/y-linux-x64", .directory), ("/b/final_installer", .directory)])
      (sheltered_drafted (by decide +kernel) rfl rfl) (by decide +kernel) (by decide +kernel) (by decide +kernel)
    exact absurd halike.outcome (by decide +kernel)
  · -- The second stage fails at removing what is there, and leaves it.
    obtain ⟨hharmless, hname, hdaemon, hpackaged, hplain, hfailed, b, hmem, hdiffer⟩ :
        Harmless fromLong [] (reaching longDir) (reaching (longDir ++ [Bytes.ofText "dist"])) ∧
        Path.dotDot ∉ (Path.ofText (drafted fromLong []).config.outputDirName).names ∧
        ¬ (drafted fromLong []).config.layout.guiDaemon.place <+:
          (drafted fromLong []).config.layout.buildScripts.place ∧
        ¬ (Plan.packagedApp (drafted fromLong []).config).place <+:
          (drafted fromLong []).config.layout.buildScripts.place ∧
        (∀ b ∈ (drafted fromLong []).begun none (.start (reaching longDir) []), (drafted fromLong []).Unlinked b) ∧
        ((drafted fromLong []).run none (.start (reaching longDir) [])).1.toOption = none ∧
        ∃ b ∈ (drafted fromLong []).begun none (.start (reaching longDir) []),
          ((drafted fromLong []).run none (.start (reaching (longDir ++ [Bytes.ofText "dist"])) [])).2.tree.outside
              (pending b.later) ≠
            ((drafted fromLong []).run none (.start (reaching longDir) [])).2.tree.outside (pending b.later) := by
      decide +kernel
    have halike := hclaim _ _ _ _ _ (sheltered_drafted hharmless rfl rfl) hname hdaemon hpackaged hplain
    cases houtcome : ((drafted fromLong []).run none (.start (reaching longDir) [])).1 with
    | ok report => simp [houtcome, Except.toOption] at hfailed
    | error e =>
      obtain ⟨left, -, hleft, houtside, -⟩ := halike.failure e houtcome
      exact hdiffer (outside_mono houtside (hleft b hmem))

end Pipeline

end DebRelease
