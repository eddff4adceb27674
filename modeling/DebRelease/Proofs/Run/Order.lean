import DebRelease.Proofs.Run.Calls

namespace DebRelease

open RunM

variable {σ : Type}

namespace Manifest.Guard

theorem asks_drop (cwd : WorkingDir) (g : Guard) (s : Session σ) : Asks (drop cwd g) s [] [] := by
  refine (asks_onTree (TreeM.internal_attempt _) s).silent_bind fun outcome written => ?_
  cases outcome with
  | ok => exact (asks_onTree (TreeM.internal_attempt _) written).silent_bind fun _ after => asks_pure _ after
  | error e => exact asks_log _ _ written

theorem asks_acquire (cwd : WorkingDir) (manifest : Path) (version : String) (s : Session σ) :
    Asks (acquire cwd manifest version) s [] [] := by
  refine (asks_onTree (TreeM.internal_look (internal_prepare cwd manifest version)) s).silent_bind ?_
  rintro ⟨content, versioned⟩ prepared
  refine (asks_onTree (TreeM.internal_describe (fun _ => ⟨rfl, rfl⟩) _) prepared).silent_bind fun _ backed => ?_
  refine (asks_onTree (TreeM.internal_attempt _) backed).silent_bind fun outcome written => ?_
  cases outcome with
  | ok => exact asks_pure _ written
  | error e => exact (asks_drop cwd _ written).silent_bind fun _ after => asks_throw ⟨rfl, rfl⟩ after

theorem asks_restore (cwd : WorkingDir) (g : Guard) (s : Session σ) : Asks (restore cwd g) s [] [] := by
  refine (asks_onTree (TreeM.internal_attempt _) s).silent_bind fun outcome written => ?_
  cases outcome with
  | error e => exact (asks_drop cwd _ written).silent_bind fun _ after => asks_throw ⟨rfl, rfl⟩ after
  | ok =>
    refine (asks_onTree (TreeM.internal_attempt _) written).silent_bind fun outcome removed => ?_
    cases outcome with
    | ok => exact asks_pure _ removed
    | error e =>
      dsimp only
      split
      · exact asks_pure _ removed
      · exact asks_throw ⟨rfl, rfl⟩ removed

end Manifest.Guard

namespace Pipeline

open Manifest

theorem asks_package (p : Pipeline σ) (manifest : Path) (version : String) (command : ToolCommand)
    (s : Session σ) : ∃ made, Asks (package p manifest version command) s made [⟨.run, command⟩] := by
  refine (Guard.asks_acquire p.cwd manifest version s).after_silent fun g guarded _ => ?_
  obtain ⟨made, hcalls, hfollows⟩ := asks_runTool p.tools command guarded
  obtain ⟨hrestoreCalls, hrestoreFollows⟩ :=
    Guard.asks_restore p.cwd g (runTool p.tools command guarded).2
  refine ⟨made, ?_⟩
  rw [Asks, run_bind, run_attempt]
  dsimp only
  rw [run_bind, run_attempt]
  dsimp only
  cases houtcome : (runTool p.tools command guarded).1 with
  | error e =>
    rw [houtcome] at hfollows
    have hkept := hfollows.error (β := Unit) []
    rw [List.append_nil] at hkept
    cases hrestored : (Guard.restore p.cwd g (runTool p.tools command guarded).2).1 with
    | error unrestored => exact ⟨by simp [run_bind, hrestoreCalls, hcalls], by simpa [run_bind] using hkept⟩
    | ok => exact ⟨by simp [hrestoreCalls, hcalls], by simpa using hkept⟩
  | ok =>
    rw [houtcome] at hfollows
    have hboth := hfollows.append hrestoreFollows
    rw [List.append_nil, List.append_nil] at hboth
    cases hrestored : (Guard.restore p.cwd g (runTool p.tools command guarded).2).1 with
    | error e =>
      rw [hrestored] at hboth
      exact ⟨by simp [hrestoreCalls, hcalls], by simpa using hboth⟩
    | ok =>
      rw [hrestored] at hboth
      exact ⟨by simp [hrestoreCalls, hcalls], by simpa using hboth⟩

theorem asks_listArtifacts (p : Pipeline σ) (dir : Path) (s : Session σ) :
    Asks (listArtifacts p dir) s [] [] := by
  rw [listArtifacts_eq]
  refine (asks_onTree (TreeM.internal_look fun t => t.internal_artifacts p.cwd dir) s).silent_bind fun found after => ?_
  exact (asks_emit _ after).silent_bind fun _ => asks_pure found

/-- The freezer is asked with the specification that was printed, and not at all if that is blank. -/
theorem asks_freeze (p : Pipeline σ) (locate freezer : ToolCommand) (s : Session σ) :
    ∃ made spec, Asks (freeze p locate freezer) s made ((Action.freeze locate freezer).requests spec) ∧
      (∀ call ∈ made.head?, call.spec = spec) ∧ (1 < made.length → spec ≠ "") := by
  let first := recorded .capture locate p.tools.capture id s
  have hfreeze := (asks_captureTool p.tools locate s).bind_with
    (P := fun made => made ≠ [] → first.spec ≠ "")
    (f := freezeOn p.tools locate freezer) [⟨.run, freezer.withArg (Bytes.ofText first.spec)⟩]
    (fun h => absurd rfl h) ?_
  · obtain ⟨made, hasks, hspec⟩ := hfreeze
    refine ⟨first :: made, first.spec, hasks, by simp, fun hlength => hspec ?_⟩
    rintro rfl
    simp at hlength
  · intro out after hrun
    have hspec : first.spec = trimText out := captureTool_eq_ok hrun
    rw [hspec, freezeOn]
    dsimp only
    split
    · refine ⟨[], ⟨by simp [run_bind], ?_⟩, fun h => absurd rfl h⟩
      exact (Follows.silent (Failure.internal_error (α := Unit) ⟨rfl, rfl⟩)).error _
    · rename_i hblank
      obtain ⟨made, hasks⟩ := (asks_log (σ := σ) .info _ after).after_silent fun _ logged _ =>
        asks_runTool p.tools (freezer.withArg (Bytes.ofText (trimText out))) logged
      exact ⟨made, hasks, fun _ => by simpa using hblank⟩

theorem asks_perform (p : Pipeline σ) (action : Action) (s : Session σ) :
    ∃ made spec, Asks (perform p action) s made (action.requests spec) ∧
      ∀ locate freezer, action = .freeze locate freezer →
        (∀ call ∈ made.head?, call.spec = spec) ∧ (1 < made.length → spec ≠ "") := by
  have hnone : ∀ after, Asks (pure none : RunM σ (Option (List Artifact))) after [] [] := asks_pure none
  cases action with
  | run command =>
    obtain ⟨made, hasks⟩ := asks_runTool p.tools command s
    exact ⟨made, "", hasks.before_silent fun _ => hnone, by simp⟩
  | freeze locate freezer =>
    obtain ⟨made, spec, hasks, hspec⟩ := asks_freeze p locate freezer s
    exact ⟨made, spec, hasks.before_silent fun _ => hnone, fun _ _ _ => hspec⟩
  | recreate path =>
    exact ⟨[], "", (asks_onTree (FileTree.internal_recreate _ _) s).silent_bind fun _ => hnone, by simp⟩
  | copy source target =>
    refine ⟨[], "", (asks_onTree (FileTree.internal_removeAll _ _) s).silent_bind fun _ removed => ?_, by simp⟩
    exact (asks_onTree (FileTree.internal_copyDir _ _ _) removed).silent_bind fun _ => hnone
  | move source target =>
    exact ⟨[], "", (asks_onTree (FileTree.internal_moveDir _ _ _) s).silent_bind fun _ => hnone, by simp⟩
  | package manifest version command =>
    obtain ⟨made, hasks⟩ := asks_package p manifest version command s
    exact ⟨made, "", hasks.before_silent fun _ => hnone, by simp⟩
  | list path =>
    exact ⟨[], "", (asks_listArtifacts p path s).silent_bind fun artifacts => asks_pure (some artifacts),
      by simp⟩

/-- The state in which the action of a stage begins: its progress has been shown. -/
def announced (p : Pipeline σ) (total number : Nat) (stage : Stage) (s : Session σ) : Session σ :=
  { s with writes := s.writes ++ p.console.progress s!"[{number}/{total}] {stage.name}" }

/-- Of stages performed one after another the stage called `name` is the first that fails. It fails
    for `cause` and leaves `final`. -/
inductive FailsAt (p : Pipeline σ) (total : Nat) :
    Nat → List Stage → Session σ → String → Failure → Session σ → Prop where
  | here {number : Nat} {stage : Stage} {stages : List Stage} {s final : Session σ} {cause : Failure}
      (h : perform p stage.action (announced p total number stage s) = (.error cause, final)) :
      FailsAt p total number (stage :: stages) s stage.name cause final
  /-- The first stage succeeds, and a later one fails. -/
  | later {number : Nat} {stage : Stage} {stages : List Stage} {s after final : Session σ}
      {found : Option (List Artifact)} {name : String} {cause : Failure}
      (h : perform p stage.action (announced p total number stage s) = (.ok found, after))
      (hrest : FailsAt p total (number + 1) stages after name cause final) :
      FailsAt p total number (stage :: stages) s name cause final

/-- What holds of stages performed from `s` on: their calls keep to the requests, and a failure is
    that of the first stage that fails. -/
structure Performs (p : Pipeline σ) (total number : Nat) (listed : List Artifact) (stages : List Stage)
    (s : Session σ) (made : List Call) (asked : List Request) : Prop where
  calls : (performAll p total number listed stages s).2.calls = s.calls ++ made
  /-- The calls keep to the requests up to the outcome. -/
  outcome : ∃ raw : Except Failure (List Artifact), Follows made asked raw ∧
    match raw with
    | .ok artifacts => (performAll p total number listed stages s).1 = .ok artifacts
    | .error cause => ∃ name, (performAll p total number listed stages s).1 = .error (cause.atStage name) ∧
        FailsAt p total number stages s name cause (performAll p total number listed stages s).2

variable {p : Pipeline σ} {total number : Nat} {listed : List Artifact} {stage : Stage}
    {stages : List Stage} {s : Session σ} {made : List Call} {asked asked' : List Request}

theorem performs_nil (p : Pipeline σ) (total number : Nat) (listed : List Artifact) (s : Session σ) :
    Performs p total number listed [] s [] [] :=
  ⟨by simp [performAll], .ok listed, Follows.silent (Failure.internal_ok _), rfl⟩

theorem performAll_cons (p : Pipeline σ) (total number : Nat) (listed : List Artifact)
    (stage : Stage) (stages : List Stage) (s : Session σ) :
    performAll p total number listed (stage :: stages) s =
      match perform p stage.action (announced p total number stage s) with
      | (.ok found, after) => performAll p total (number + 1) (found.getD listed) stages after
      | (.error cause, after) => (.error (cause.atStage stage.name), after) := by
  rw [performAll, run_bind, run_emit]
  dsimp only
  rw [run_bind, run_inStage, announced]
  obtain ⟨outcome, after⟩ := perform p stage.action
    { s with writes := s.writes ++ p.console.progress s!"[{number}/{total}] {stage.name}" }
  cases outcome <;> rfl

/-- A stage, and after it others; `P` is what is known of the calls of the others. -/
theorem performs_cons {P : List Call → List Request → Prop} (listed : List Artifact)
    (hstage : Asks (perform p stage.action) (announced p total number stage s) made asked)
    (hnil : ∃ asked', P [] asked')
    (hrest : made.map Call.request = asked → ∀ listed after, ∃ made' asked',
      Performs p total (number + 1) listed stages after made' asked' ∧ P made' asked') :
    ∃ made' asked', Performs p total number listed (stage :: stages) s (made ++ made') (asked ++ asked') ∧
      P made' asked' := by
  obtain ⟨hcalls, hfollows⟩ := hstage
  cases hrun : perform p stage.action (announced p total number stage s) with
  | mk outcome after =>
    rw [hrun] at hcalls hfollows
    cases outcome with
    | ok found =>
      obtain ⟨made', asked', ⟨hcalls', raw, hfollows', hraw⟩, hP⟩ :=
        hrest (hfollows.complete rfl).1 (found.getD listed) after
      refine ⟨made', asked', ⟨?_, raw, hfollows.append hfollows', ?_⟩, hP⟩
      · have hafter : after.calls = s.calls ++ made := hcalls
        rw [performAll_cons, hrun, ← List.append_assoc, ← hafter]
        exact hcalls'
      · rw [performAll_cons, hrun]
        cases raw with
        | ok artifacts => exact hraw
        | error cause =>
          obtain ⟨name, houtcome, hfails⟩ := hraw
          exact ⟨name, houtcome, .later hrun hfails⟩
    | error cause =>
      obtain ⟨asked', hP⟩ := hnil
      refine ⟨[], asked', ⟨?_, .error cause, ?_, ?_⟩, hP⟩
      · rw [performAll_cons, hrun, List.append_nil]
        exact hcalls
      · rw [List.append_nil]
        exact hfollows.error asked'
      · rw [performAll_cons, hrun]
        exact ⟨stage.name, rfl, .here hrun⟩

/-- Stages that ask the same whatever the specification of the freezer. -/
theorem performs_of_fixed {spec : String}
    (hfixed : ∀ stage ∈ stages, ∀ spec', stage.action.requests spec' = stage.action.requests spec)
    (number : Nat) (listed : List Artifact) (s : Session σ) :
    ∃ made, Performs p total number listed stages s made
      (stages.flatMap fun stage => stage.action.requests spec) := by
  induction stages generalizing number listed s with
  | nil => exact ⟨[], performs_nil p total number listed s⟩
  | cons stage stages ih =>
    obtain ⟨made, printed, hstage, -⟩ := asks_perform p stage.action (announced p total number stage s)
    rw [hfixed stage List.mem_cons_self printed] at hstage
    obtain ⟨made', asked', hperforms, rfl⟩ := performs_cons listed
      (P := fun _ asked' => asked' = stages.flatMap fun stage => stage.action.requests spec) hstage ⟨_, rfl⟩
      fun _ listed after => by
        obtain ⟨made', hrest⟩ :=
          ih (fun stage hmem => hfixed stage (List.mem_cons_of_mem _ hmem)) (number + 1) listed after
        exact ⟨made', _, hrest, rfl⟩
    exact ⟨made ++ made', hperforms⟩

/-- The call at a position prints the specification, and after it there are calls only if the
    specification is not blank. -/
def SpecifiedAt (made : List Call) (position : Nat) (spec : String) : Prop :=
  (∀ call, made[position]? = some call → call.spec = spec) ∧ (position + 1 < made.length → spec ≠ "")

private theorem SpecifiedAt.append {made' : List Call} {position : Nat} {spec : String}
    (hlength : made.length ≤ asked.length)
    (h : made' = [] ∨ made.map Call.request = asked ∧ SpecifiedAt made' position spec) :
    SpecifiedAt (made ++ made') (asked.length + position) spec := by
  rcases h with rfl | ⟨hdone, hcall, hspec⟩
  · rw [List.append_nil]
    refine ⟨fun call hget => ?_, fun hlong => ?_⟩
    · rw [List.getElem?_eq_none (by omega)] at hget
      cases hget
    · omega
  · have hsame : made.length = asked.length := by rw [← hdone, List.length_map]
    refine ⟨fun call hget => hcall call ?_, fun hlong => hspec ?_⟩
    · rw [List.getElem?_append_right (by omega)] at hget
      rw [← hget]
      congr 1
      omega
    · rw [List.length_append] at hlong
      omega

/-- Stages of which one freezes: the freezer is asked with the specification that was printed. -/
theorem performs_of_freeze {before after : List Stage} {name : String} {locate freezer : ToolCommand}
    (hbefore : ∀ stage ∈ before, ∀ spec spec', stage.action.requests spec = stage.action.requests spec')
    (hafter : ∀ stage ∈ after, ∀ spec spec', stage.action.requests spec = stage.action.requests spec')
    (number : Nat) (listed : List Artifact) (s : Session σ) :
    ∃ made spec, Performs p total number listed (before ++ ⟨name, .freeze locate freezer⟩ :: after) s made
        ((before ++ ⟨name, .freeze locate freezer⟩ :: after).flatMap fun stage => stage.action.requests spec) ∧
      SpecifiedAt made (before.flatMap fun stage => stage.action.requests "").length spec := by
  induction before generalizing number listed s with
  | nil =>
    let stage : Stage := ⟨name, .freeze locate freezer⟩
    obtain ⟨made, spec, hstage, hspec⟩ := asks_perform p stage.action (announced p total number stage s)
    obtain ⟨hcall, hblank⟩ := hspec locate freezer rfl
    obtain ⟨made', asked', hperforms, rfl, hrest⟩ := performs_cons listed
      (P := fun made' asked' => asked' = (after.flatMap fun stage => stage.action.requests spec) ∧
        (made' = [] ∨ made.map Call.request = stage.action.requests spec)) hstage ⟨_, rfl, .inl rfl⟩
      fun hdone listed reached => by
        obtain ⟨made', hrest⟩ := performs_of_fixed
          (fun stage hmem spec' => hafter stage hmem spec' spec) (number + 1) listed reached
        exact ⟨made', _, hrest, rfl, .inr hdone⟩
    refine ⟨made ++ made', spec, hperforms, fun call hget => ?_, fun hlong => hblank ?_⟩
    · rcases hrest with rfl | hdone
      · rw [List.append_nil] at hget
        exact hcall call (by simpa [List.head?_eq_getElem?] using hget)
      · have hlength := congrArg List.length hdone
        cases made with
        | nil => simp [stage, Action.requests] at hlength
        | cons first rest => exact hcall call (by simpa using hget)
    · rcases hrest with rfl | hdone
      · simpa using hlong
      · have hlength := congrArg List.length hdone
        simp only [List.length_map, stage, Action.requests, List.length_cons, List.length_nil] at hlength
        omega
  | cons stage before ih =>
    obtain ⟨made, printed, hstage, -⟩ := asks_perform p stage.action (announced p total number stage s)
    rw [hbefore stage List.mem_cons_self printed ""] at hstage
    obtain ⟨made', asked', hperforms, spec, rfl, hrest⟩ := performs_cons listed
      (P := fun made' asked' => ∃ spec,
        asked' = ((before ++ ⟨name, .freeze locate freezer⟩ :: after).flatMap fun stage =>
          stage.action.requests spec) ∧
        (made' = [] ∨ made.map Call.request = stage.action.requests "" ∧
          SpecifiedAt made' (before.flatMap fun stage => stage.action.requests "").length spec))
      hstage ⟨_, "", rfl, .inl rfl⟩ fun hdone listed reached => by
        obtain ⟨made', spec, hrest, hspec⟩ :=
          ih (fun stage hmem => hbefore stage (List.mem_cons_of_mem _ hmem)) (number + 1) listed reached
        exact ⟨made', _, hrest, spec, rfl, .inr ⟨hdone, hspec⟩⟩
    refine ⟨made ++ made', spec, ?_, ?_⟩
    · rw [List.cons_append, List.flatMap_cons, hbefore stage List.mem_cons_self spec ""]
      exact hperforms
    · rw [List.flatMap_cons, List.length_append]
      exact SpecifiedAt.append (by simpa using hstage.2.initial.length_le) hrest

/-- The end of the version step: the version is shown, with a warning if nothing gave it. -/
def showVersion (p : Pipeline σ) (version : Version) : RunM σ Version := do
  if version.isFallback then
    let name := p.config.versioning.envVar
    emit (p.console.warning s!"No environment variable {name} set. Using {version.value}.")
  emit (p.console.info s!"Installer version is: {version.value}")
  pure version

theorem showVersion_eq (p : Pipeline σ) (version : Version) : showVersion p version = (do
    emit (p.console.versionLines p.config.versioning.envVar version)
    pure version) := by
  rw [showVersion, Console.versionLines]
  split
  · exact emit_append ..
  · rfl

theorem resolveVersion_eq (p : Pipeline σ) (value : Option String) :
    resolveVersion p value =
      match (Version.ofVariable value).isFallback, p.config.versioning.command with
      | true, some command => do
        let found ← runVersionCommand p command
        showVersion p (found.getD (Version.ofVariable value))
      | _, _ => showVersion p (Version.ofVariable value) := by
  rw [resolveVersion]
  cases (Version.ofVariable value).isFallback with
  | false => rfl
  | true =>
    cases p.config.versioning.command with
    | none => rfl
    | some command =>
      refine congrArg (runVersionCommand p command >>= ·) (funext fun found => ?_)
      cases found <;> rfl

theorem asks_showVersion (p : Pipeline σ) (version : Version) (s : Session σ) :
    Asks (showVersion p version) s [] [] := by
  rw [showVersion_eq]
  exact (asks_emit _ s).silent_bind fun _ after => asks_pure version after

theorem asks_runVersionCommand (p : Pipeline σ) (command : VersionCommand) (s : Session σ) :
    ∃ made, Asks (runVersionCommand p command) s made
      ((if p.config.versioning.requirements.isEmpty then [] else
        [⟨.run, versionTool p.config p.config.tools.pip ("install" :: p.config.versioning.requirements)⟩]) ++
      [⟨.capture, versionTool p.config command.program command.args⟩]) := by
  have hask (t : Session σ) : ∃ made,
      Asks (askVersion p.tools (versionTool p.config command.program command.args)) t made
        [⟨.capture, versionTool p.config command.program command.args⟩] :=
    ⟨_, (asks_captureTool p.tools _ t).before_silent fun _ => asks_pure _⟩
  rw [runVersionCommand_eq]
  split
  · exact hask s
  · obtain ⟨made, hinstall⟩ := asks_runTool p.tools
      (versionTool p.config p.config.tools.pip ("install" :: p.config.versioning.requirements)) s
    obtain ⟨made', hboth⟩ := hinstall.bind fun _ after _ => hask after
    exact ⟨made ++ made', hboth⟩

theorem asks_resolveVersion (p : Pipeline σ) (value : Option String) (s : Session σ) :
    ∃ made, Asks (resolveVersion p value) s made (p.config.versionRequests value) := by
  rw [resolveVersion_eq, Config.versionRequests]
  cases (Version.ofVariable value).isFallback with
  | false => exact ⟨[], asks_showVersion p _ s⟩
  | true =>
    cases p.config.versioning.command with
    | none => exact ⟨[], asks_showVersion p _ s⟩
    | some command =>
      obtain ⟨made, hmade⟩ := asks_runVersionCommand p command s
      exact ⟨made, hmade.before_silent fun found => asks_showVersion p _⟩

/-- The state in which the version step begins: the heading has been shown. -/
def opened (p : Pipeline σ) (s : Session σ) : Session σ :=
  let c := p.config
  { s with
    writes := s.writes ++ p.console.heading s!"Building {c.product.name} installer for {c.platform.selector}" }

/-- The step called `name` is the first step of a run that fails. It fails for `cause` and leaves
    `final`. -/
inductive StopsAt (p : Pipeline σ) (value : Option String) (s : Session σ) :
    String → Failure → Session σ → Prop where
  | version {cause : Failure} {final : Session σ}
      (h : resolveVersion p value (opened p s) = (.error cause, final)) :
      StopsAt p value s Plan.resolveVersion cause final
  /-- The version step succeeds, and a stage of the plan fails. -/
  | stage {version : Version} {ready final : Session σ} {name : String} {cause : Failure}
      (h : resolveVersion p value (opened p s) = (.ok version, ready))
      (hstage : FailsAt p (p.config.plan version).length 1 (p.config.plan version) ready name cause final) :
      StopsAt p value s name cause final

/-- What holds of a run that makes the calls `made`, with the version it resolves and the specification
    that is printed. -/
structure RunsInOrder (p : Pipeline σ) (value : Option String) (s : Session σ) (version : Version)
    (spec : String) (made : List Call) : Prop where
  calls : (p.run value s).2.calls = s.calls ++ made
  /-- The calls are an initial segment of what the version step and the plan ask. -/
  initial : made.map Call.request <+: p.config.requests value version spec
  /-- No call comes after one that does not succeed. -/
  failFast : ∀ call ∈ made.dropLast, call.succeeded = true
  /-- Past the version step the version is the one that was resolved. -/
  resolved : (p.config.versionRequests value).length < made.length →
    (resolveVersion p value (opened p s)).1 = .ok version
  /-- The specification is the one that was printed, and the freezer is not asked if it is blank. -/
  specified : SpecifiedAt made ((p.config.versionRequests value).length + 2) spec
  success : ∀ report, (p.run value s).1 = .ok report →
    (resolveVersion p value (opened p s)).1 = .ok version ∧ report.version = version ∧
      made.map Call.request = p.config.requests value version spec ∧ ∀ call ∈ made, call.succeeded = true
  /-- A failure is that of the first step that fails, and the run ends there. It names that step,
      unless it is the answer to the last call and named a stage already. -/
  failure : ∀ e, (p.run value s).1 = .error e →
    ∃ name cause, e = cause.atStage name ∧ StopsAt p value s name cause (p.run value s).2 ∧
      (e.stage? = some name ∨ ∃ call, made.getLast? = some call ∧ call.answer = .error e)

/-- A run is its version step, the stages of its plan, and a report. -/
theorem run_eq (p : Pipeline σ) (value : Option String) (s : Session σ) :
    p.run value s =
      match resolveVersion p value (opened p s) with
      | (.error cause, final) => (.error (cause.atStage Plan.resolveVersion), final)
      | (.ok version, ready) =>
        let c := p.config
        match performAll p (c.plan version).length 1 [] (c.plan version) ready with
        | (.error e, final) => (.error e, final)
        | (.ok artifacts, after) =>
          let dir := c.layout.finalInstaller.display
          let count := artifacts.length
          (.ok ⟨c.platform, version, c.outputDirName, artifacts⟩,
            { after with
              writes := after.writes ++ p.console.success s!"Created {count} artifact(s) in {dir}" }) := by
  rw [run, run_bind, run_emit]
  dsimp only
  rw [run_bind, run_inStage, opened]
  obtain ⟨outcome, ready⟩ := resolveVersion p value
    { s with
      writes := s.writes ++
        p.console.heading s!"Building {p.config.product.name} installer for {p.config.platform.selector}" }
  cases outcome with
  | error cause => rfl
  | ok version =>
    have hok (name : String) : (Except.ok version).mapError (Failure.atStage name) = .ok version := rfl
    rw [hok]
    dsimp only
    rw [run_bind]
    obtain ⟨outcome, after⟩ :=
      performAll p (p.config.plan version).length 1 [] (p.config.plan version) ready
    cases outcome <;> rfl

private theorem performs_plan (p : Pipeline σ) (version : Version) (s : Session σ) :
    ∃ made spec, Performs p (p.config.plan version).length 1 [] (p.config.plan version) s made
        (p.config.stageRequests version spec) ∧ SpecifiedAt made 2 spec := by
  have hbefore : ∀ stage ∈ (p.config.plan version).take 3, ∀ spec spec',
      stage.action.requests spec = stage.action.requests spec' := by
    simp [Config.plan, Action.requests]
  have hafter : ∀ stage ∈ (p.config.plan version).drop 4, ∀ spec spec',
      stage.action.requests spec = stage.action.requests spec' := by
    simp [Config.plan, Action.requests]
  exact performs_of_freeze hbefore hafter 1 [] s

/-- The calls of a run and its outcome, a failure taken before a stage is named. -/
theorem run_follows (p : Pipeline σ) (value : Option String) (s : Session σ) :
    ∃ (made : List Call) (asked : List Request) (raw : Except Failure Report),
      (p.run value s).2.calls = s.calls ++ made ∧ Follows made asked raw ∧
        ∃ name, (p.run value s).1 = raw.mapError (.atStage name) := by
  obtain ⟨first, hcalls, hfollows⟩ := asks_resolveVersion p value (opened p s)
  have hrun := run_eq p value s
  cases hversion : resolveVersion p value (opened p s) with
  | mk outcome ready =>
    rw [hversion] at hcalls hfollows hrun
    cases outcome with
    | error cause =>
      rw [hrun]
      exact ⟨first, _, .error cause, hcalls, hfollows.error [], _, rfl⟩
    | ok version =>
      obtain ⟨made, spec, ⟨hmade, raw, hstages, hraw⟩, -⟩ := performs_plan p version ready
      have hall := hfollows.append hstages
      have hready : ready.calls = s.calls ++ first := hcalls
      rw [hready, List.append_assoc] at hmade
      cases hperform : performAll p (p.config.plan version).length 1 [] (p.config.plan version) ready with
      | mk outcome final =>
        rw [hperform] at hmade hraw
        simp only [hperform] at hrun
        rw [hrun]
        cases raw with
        | error cause =>
          obtain ⟨name, rfl, -⟩ := hraw
          exact ⟨_, _, .error cause, hmade, hall.error [], name, rfl⟩
        | ok artifacts =>
          cases hraw
          obtain ⟨hmap, hsucceed⟩ := hall.complete rfl
          exact ⟨_, _, .ok _, hmade, .ok hmap hsucceed _, "", rfl⟩

private theorem atStage_cases (name : String) (cause : Failure) :
    (cause.atStage name).stage? = some name ∨ cause.atStage name = cause := by
  cases cause <;> simp [Failure.atStage, Failure.stage?]

private theorem names_or_kept {cause : Failure} {name : String} {α : Type} {made : List Call}
    {asked : List Request} (h : Follows made asked (.error cause : Except Failure α)) :
    (cause.atStage name).stage? = some name ∨
      ∃ call, made.getLast? = some call ∧ call.answer = .error (cause.atStage name) := by
  rcases h.staged cause rfl with hnone | ⟨call, hlast, hanswer⟩
  · refine .inl ?_
    cases cause <;> simp_all [Failure.atStage, Failure.stage?]
  · rcases atStage_cases name cause with hnames | hsame
    · exact .inl hnames
    · exact .inr ⟨call, hlast, by rw [hsame, hanswer]⟩

section InOrder

variable {p : Pipeline σ} {value : Option String} {s ready : Session σ}

private theorem inOrder_of_unversioned {cause : Failure}
    (hversion : resolveVersion p value (opened p s) = (.error cause, ready)) :
    ∃ made, RunsInOrder p value s Version.fallback "" made := by
  obtain ⟨first, hcalls, hfollows⟩ := asks_resolveVersion p value (opened p s)
  have hlength := hfollows.initial.length_le
  rw [List.length_map] at hlength
  rw [hversion] at hcalls hfollows
  have hrun : p.run value s = (.error (cause.atStage Plan.resolveVersion), ready) := by
    rw [run_eq, hversion]
  refine ⟨first, by rw [hrun]; exact hcalls, hfollows.initial.trans (List.prefix_append _ _), hfollows.failFast,
    fun hlong => ?_, ⟨fun call hget => ?_, fun hlong => ?_⟩, fun report hok => ?_, fun e he => ?_⟩
  · omega
  · rw [List.getElem?_eq_none (by omega)] at hget
    cases hget
  · omega
  · rw [hrun] at hok
    cases hok
  · rw [hrun] at he ⊢
    cases he
    exact ⟨Plan.resolveVersion, cause, rfl, .version hversion, names_or_kept hfollows⟩

private theorem inOrder_of_version {version : Version}
    (hversion : resolveVersion p value (opened p s) = (.ok version, ready)) :
    ∃ spec made, RunsInOrder p value s version spec made := by
  obtain ⟨first, hcalls, hfollows⟩ := asks_resolveVersion p value (opened p s)
  have hlength := hfollows.initial.length_le
  rw [List.length_map] at hlength
  rw [hversion] at hcalls hfollows
  obtain ⟨made, spec, ⟨hmade, raw, hstages, hraw⟩, hspec⟩ := performs_plan p version ready
  have hall := hfollows.append hstages
  obtain ⟨hfirst, -⟩ := hfollows.complete rfl
  have hspecified : SpecifiedAt (first ++ made) ((p.config.versionRequests value).length + 2) spec :=
    SpecifiedAt.append hlength (.inr ⟨hfirst, hspec⟩)
  have hreached : s.calls ++ (first ++ made) = ready.calls ++ made := by
    rw [← List.append_assoc]
    exact congrArg (· ++ made) hcalls.symm
  have hrun := run_eq p value s
  rw [hversion] at hrun
  cases hperform : performAll p (p.config.plan version).length 1 [] (p.config.plan version) ready with
  | mk outcome final =>
    rw [hperform] at hmade hraw
    simp only [hperform] at hrun
    refine ⟨spec, first ++ made, ?_, hall.initial, hall.failFast, fun _ => hversion ▸ rfl, hspecified, ?_, ?_⟩
    · rw [hreached, hrun]
      cases outcome <;> exact hmade
    · intro report hok
      cases outcome with
      | error e =>
        rw [hrun] at hok
        cases hok
      | ok artifacts =>
        rw [hrun] at hok
        cases hok
        cases raw with
        | error cause =>
          obtain ⟨name, hname, -⟩ := hraw
          cases hname
        | ok _ =>
          obtain ⟨hmap, hsucceed⟩ := hall.complete rfl
          exact ⟨hversion ▸ rfl, rfl, hmap, hsucceed⟩
    · intro e he
      cases outcome with
      | ok artifacts =>
        rw [hrun] at he
        cases he
      | error e' =>
        rw [hrun] at he ⊢
        cases he
        cases raw with
        | ok _ => cases hraw
        | error cause =>
          obtain ⟨name, hname, hfails⟩ := hraw
          cases hname
          exact ⟨name, cause, rfl, .stage hversion hfails, names_or_kept hall⟩

end InOrder

/-- A run asks the tools what its plan says, in that order, and stops at the first step that fails. -/
theorem run_inOrder (p : Pipeline σ) (value : Option String) (s : Session σ) :
    ∃ version spec made, RunsInOrder p value s version spec made := by
  cases hversion : resolveVersion p value (opened p s) with
  | mk outcome ready =>
    cases outcome with
    | error cause => exact ⟨Version.fallback, "", inOrder_of_unversioned hversion⟩
    | ok version => exact ⟨version, inOrder_of_version hversion⟩

end Pipeline

end DebRelease
