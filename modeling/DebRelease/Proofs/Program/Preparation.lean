import DebRelease.Program
import DebRelease.Proofs.Manifest.Runs
import DebRelease.Proofs.Outcome

namespace DebRelease

namespace Failure

theorem stage?_atStage (name : String) (cause : Failure) :
    ∃ stage, (cause.atStage name).stage? = some stage := by
  cases cause with
  | inStage known source => exact ⟨known, rfl⟩
  | _ => exact ⟨name, rfl⟩

end Failure

/-- Building a configuration fails without a stage and a tool having a part in it. -/
theorem ConfigDraft.internal_build (d : ConfigDraft) (around : Surroundings) : Failure.Internal (d.build around) := by
  have htools (layout : Layout) (base : Option Bytes) : Failure.Internal (layout.searchPathWithTools base) := by
    rw [Layout.searchPathWithTools]
    split
    · exact Failure.internal_ok _
    · exact Failure.internal_error ⟨rfl, rfl⟩
  rw [build]
  cases d.platform with
  | none => exact Failure.internal_error ⟨rfl, rfl⟩
  | some platform =>
    exact (Failure.internal_naming _ _ _).bind fun currentDir => (htools _ _).bind fun _ => Failure.internal_pure _

/-- What goes wrong with a release file is said about that file. -/
theorem ReleaseFile.load_eq_error {t : FileTree} {cwd : WorkingDir} {path : Path} {e : ReleaseError}
    (h : load t cwd path = .error e) :
    (∃ cause, e = .configUnreadable path cause) ∨ ∃ reason, e = .configInvalid path reason := by
  rw [load, bind_eq_error_iff] at h
  rcases h with hread | ⟨document, -, hdocument⟩
  · obtain ⟨cause, -, rfl⟩ := mapError_eq_error_iff.mp hread
    exact .inl ⟨cause, rfl⟩
  · dsimp only at hdocument
    split at hdocument
    · cases hdocument
      exact .inl ⟨_, rfl⟩
    · obtain ⟨refusal, -, rfl⟩ := mapError_eq_error_iff.mp hdocument
      exact .inr ⟨_, rfl⟩

namespace Arguments

/-- Why a run is refused: what comes before has been checked and is right. -/
inductive Refused (a : Arguments) (h : Host) : ReleaseError → Prop where
  /-- No platform is named, or none that is supported. -/
  | platform {cause : UsageError} (hplatform : a.target = .error cause) : Refused a h (.usage cause)
  /-- The release file cannot be read, or does not say what it should. -/
  | file {platform : Platform} {path : Path} {e : ReleaseError} (hplatform : a.target = .ok platform)
      (hpath : a.releaseFile = some path) (hload : ReleaseFile.load h.tree h.cwd path = .error e) : Refused a h e
  | config {platform : Platform} {cause : Failure} (hplatform : a.target = .ok platform)
      (hconfig : a.config h platform = .error (.pipeline cause)) : Refused a h (.pipeline cause)
  /-- The version variable is set, but is no text. -/
  | version {platform : Platform} {config : Config} {cause : UsageError} (hplatform : a.target = .ok platform)
      (hconfig : a.config h platform = .ok config)
      (hvalue : versionFromVariable config.versioning.envVar (h.env? config.versioning.envVar) = .error cause) :
      Refused a h (.usage cause)

variable {a : Arguments} {h : Host} {e : ReleaseError}

theorem target_eq_error (hplatform : a.platform ∉ Platform.all.map fun p => some p.selector) :
    ∃ cause, a.target = .error cause := by
  rw [target]
  cases hselector : a.platform with
  | none => exact ⟨_, rfl⟩
  | some selector =>
    dsimp only
    split
    · rename_i p hfound
      refine absurd (List.mem_map.mpr ⟨p, List.mem_of_find?_eq_some hfound, ?_⟩) hplatform
      rw [hselector, Platform.ofSelector?_selector hfound]
    · exact ⟨_, rfl⟩

/-- A configuration fails over the release file, or else it cannot be built. -/
theorem config_eq_error {p : Platform} (hconfig : a.config h p = .error e) :
    (∃ path, a.releaseFile = some path ∧ ReleaseFile.load h.tree h.cwd path = .error e) ∨
      ∃ cause, e = .pipeline cause ∧ cause.IsInternal := by
  have hbuild (d : ConfigDraft) (hfailed : (d.build h.surroundings).mapError .pipeline = .error e) :
      ∃ cause, e = .pipeline cause ∧ cause.IsInternal := by
    obtain ⟨cause, hcause, rfl⟩ := mapError_eq_error_iff.mp hfailed
    exact ⟨cause, rfl, d.internal_build h.surroundings cause hcause⟩
  rw [config] at hconfig
  cases hpath : a.releaseFile with
  | none =>
    rw [hpath] at hconfig
    exact .inr (hbuild _ hconfig)
  | some path =>
    rw [hpath] at hconfig
    rcases bind_eq_error_iff.mp hconfig with hload | ⟨file, -, hfailed⟩
    · exact .inl ⟨path, rfl, hload⟩
    · exact .inr (hbuild _ hfailed)

/-- What is refused names no stage, and its exit code is 1. -/
theorem Refused.stage?_exitCode (hrefused : a.Refused h e) : e.stage? = none ∧ e.exitCode = 1 := by
  cases hrefused with
  | platform => exact ⟨rfl, rfl⟩
  | version => exact ⟨rfl, rfl⟩
  | file _ _ hload =>
    rcases ReleaseFile.load_eq_error hload with ⟨cause, rfl⟩ | ⟨reason, rfl⟩
    · exact ⟨rfl, rfl⟩
    · exact ⟨rfl, rfl⟩
  | config _ hconfig =>
    rcases config_eq_error hconfig with ⟨path, -, hload⟩ | ⟨cause, heq, hinternal⟩
    · rcases ReleaseFile.load_eq_error hload with ⟨_, heq⟩ | ⟨_, heq⟩
      · cases heq
      · cases heq
    · cases heq
      exact hinternal

/-- Preparing a run fails for the first reason that applies. -/
theorem prepare_eq_error_iff : a.prepare h = .error e ↔ a.Refused h e := by
  rw [prepare, bind_eq_error_iff]
  constructor
  · rintro (htarget | ⟨platform, htarget, hrest⟩)
    · obtain ⟨cause, hplatform, rfl⟩ := mapError_eq_error_iff.mp htarget
      exact .platform hplatform
    have hplatform : a.target = .ok platform := by
      cases h : a.target <;> simp_all [Except.mapError]
    rcases bind_eq_error_iff.mp hrest with hconfig | ⟨config, hconfig, hrest⟩
    · rcases config_eq_error hconfig with ⟨path, hpath, hload⟩ | ⟨cause, rfl, -⟩
      · exact .file hplatform hpath hload
      · exact .config hplatform hconfig
    rcases bind_eq_error_iff.mp hrest with hversion | ⟨value, -, hdone⟩
    · obtain ⟨cause, hvalue, rfl⟩ := mapError_eq_error_iff.mp hversion
      exact .version hplatform hconfig hvalue
    · cases hdone
  · intro hrefused
    cases hrefused with
    | platform hplatform => simp [hplatform, Except.mapError]
    | file hplatform hpath hload =>
      refine .inr ⟨_, by rw [hplatform]; rfl, bind_eq_error_iff.mpr (.inl ?_)⟩
      rw [config, hpath]
      dsimp only
      rw [hload]
      rfl
    | config hplatform hconfig =>
      exact .inr ⟨_, by rw [hplatform]; rfl, bind_eq_error_iff.mpr (.inl hconfig)⟩
    | version hplatform hconfig hvalue =>
      refine .inr ⟨_, by rw [hplatform]; rfl, bind_eq_error_iff.mpr (.inr ⟨_, hconfig, ?_⟩)⟩
      simp [hvalue, Except.mapError, bind, Except.bind]

/-- A refused run is not started. -/
theorem Refused.execute {σ : Type} (hrefused : a.Refused h e) (console : Console) (tools : Toolbox σ) (memory : σ) :
    a.execute h console tools memory = (.error e, .start h.tree memory) := by
  rw [Arguments.execute, prepare_eq_error_iff.mpr hrefused]

/-- A run that is prepared is started. -/
theorem execute_eq_run {σ : Type} {config : Config} {version : Option String}
    (hprepare : a.prepare h = .ok (config, version)) (console : Console) (tools : Toolbox σ) (memory : σ) :
    a.execute h console tools memory =
      let p : Pipeline σ := ⟨config, tools console, console, h.cwd⟩
      ((p.run version (.start h.tree memory)).1.mapError .pipeline, (p.run version (.start h.tree memory)).2) := by
  rw [execute, hprepare]
  rfl

/-- A failure of a run names a stage. -/
private theorem run_staged {σ : Type} (p : Pipeline σ) (value : Option String) (s : Session σ) {cause : Failure}
    (hcause : (p.run value s).1 = .error cause) : ∃ stage, cause.stage? = some stage := by
  obtain ⟨made, asked, raw, -, -, name, hraw⟩ := p.run_follows value s
  rw [hraw] at hcause
  obtain ⟨source, -, rfl⟩ := mapError_eq_error_iff.mp hcause
  exact source.stage?_atStage name

/-- What is not refused is run. -/
private theorem execute_eq_error {σ : Type} {console : Console} {tools : Toolbox σ} {memory : σ}
    (hfailed : (a.execute h console tools memory).1 = .error e) :
    a.Refused h e ∨ ∃ (p : Pipeline σ) (value : Option String) (cause : Failure), e = .pipeline cause ∧
      (p.run value (.start h.tree memory)).1 = .error cause := by
  cases hprepare : a.prepare h with
  | error cause =>
    have hrefused := prepare_eq_error_iff.mp hprepare
    rw [hrefused.execute] at hfailed
    cases hfailed
    exact .inl hrefused
  | ok prepared =>
    rw [execute_eq_run hprepare] at hfailed
    obtain ⟨cause, hcause, rfl⟩ := mapError_eq_error_iff.mp hfailed
    exact .inr ⟨_, _, cause, rfl, hcause⟩

/-- A failure that names no stage is a refusal: no tool has been called and the files are as they were. The
    reasons have an order, in which the platform comes first. Every failure of a run names a stage. -/
theorem execute_refused_or_staged (σ : Type) :
    (∀ (a : Arguments) (h : Host) (console : Console) (tools : Toolbox σ) (memory : σ) (e : ReleaseError),
      (a.execute h console tools memory).1 = .error e → e.stage? = none →
        a.Refused h e ∧ (a.execute h console tools memory).2 = .start h.tree memory) ∧
      (∀ (a : Arguments) (h : Host) (console : Console) (tools : Toolbox σ) (memory : σ) (e : ReleaseError),
        a.Refused h e → (a.execute h console tools memory).1 = .error e ∧ e.stage? = none) ∧
      (∀ a : Arguments, (a.platform ∉ Platform.all.map fun p => some p.selector) → ∃ cause, a.target = .error cause ∧
        ∀ (h : Host) (console : Console) (tools : Toolbox σ) (memory : σ),
          a.execute h console tools memory = (.error (.usage cause), .start h.tree memory)) ∧
      ∀ (p : Pipeline σ) (value : Option String) (s : Session σ) (cause : Failure),
        (p.run value s).1 = .error cause → ∃ stage, cause.stage? = some stage := by
  refine ⟨fun a h console tools memory e hfailed hstage => ?_, fun a h console tools memory e hrefused => ?_,
    fun a hplatform => ?_, fun p value s cause => run_staged p value s⟩
  · rcases execute_eq_error hfailed with hrefused | ⟨p, value, cause, rfl, hcause⟩
    · exact ⟨hrefused, by rw [hrefused.execute]⟩
    · obtain ⟨stage, hnamed⟩ := run_staged p value _ hcause
      cases hstage.symm.trans hnamed
  · exact ⟨by rw [hrefused.execute], hrefused.stage?_exitCode.1⟩
  · obtain ⟨cause, htarget⟩ := target_eq_error hplatform
    exact ⟨cause, htarget, fun h console tools memory => (Refused.platform htarget).execute console tools memory⟩

/-- A call for a platform that is not supported. -/
def unsupported : Arguments where
  platform := some "riscv64"
  buildScripts := "/b"
  releaseFile := some "/release.toml"
  verbose := false
  quiet := true

/-- A machine without a release file, on which the version variable is set to what is no text. -/
def bareHost : Host where
  tree := Pipeline.smallTree []
  cwd := some []
  environment := [("HYDRANGEA_INSTALLER_VERSION", [0xFF])]

/-- The call is refused over the platform, though neither the release file nor the version variable can be
    read. With a platform it is refused over the file. A run in which a tool fails names the stage. -/
theorem execute_refused_or_staged_small :
    (∃ cause, unsupported.target = .error cause ∧
      unsupported.execute bareHost ⟨false, true, false⟩ (fun _ => Pipeline.scripted "" []) () =
        (.error (.usage cause), .start bareHost.tree ())) ∧
      { unsupported with platform := some "amd64" }.Refused bareHost
        (.configUnreadable "/release.toml" (.os .noEntry)) ∧
      ((Pipeline.small "/b" "y" (Pipeline.scripted "pip" [])).run (some "1") (.start (Pipeline.smallTree []) ())).1 =
        .error (.inStage "install freezer" (.toolFailed "pip" (some 1))) ∧
      ∃ stage, (Failure.inStage "install freezer" (.toolFailed "pip" (some 1))).stage? = some stage := by
  obtain ⟨huntouched, -, hplatform, hstaged⟩ := execute_refused_or_staged Unit
  obtain ⟨cause, htarget, hexecute⟩ := hplatform unsupported (by decide +kernel)
  have hrun : ((Pipeline.small "/b" "y" (Pipeline.scripted "pip" [])).run (some "1")
      (.start (Pipeline.smallTree []) ())).1 =
        .error (.inStage "install freezer" (.toolFailed "pip" (some 1))) := by
    decide +kernel
  refine ⟨⟨cause, htarget, hexecute _ _ _ _⟩, ?_, hrun, hstaged _ _ _ _ hrun⟩
  exact (huntouched { unsupported with platform := some "amd64" } bareHost ⟨false, true, false⟩
    (fun _ => Pipeline.scripted "" []) () _ (by decide +kernel) rfl).1

end Arguments

end DebRelease
