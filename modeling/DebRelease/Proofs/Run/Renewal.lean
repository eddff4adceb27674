import DebRelease.Proofs.Run.Alike

namespace DebRelease

open FileTree RunM Manifest

/-- The places that an action makes anew, whatever was there. -/
def Action.renewed : Action → List Location
  | .recreate path => [path.place]
  | .copy _ target => [target.place]
  | .run _ | .freeze .. | .move .. | .package .. | .list _ => []

/-- The removal that an action begins with is refused. -/
def Action.IsStuck (cwd : WorkingDir) (t : FileTree) : Action → Prop
  | .recreate path | .copy _ path => Refused (removeAll cwd path) t
  | .run _ | .freeze .. | .move .. | .package .. | .list _ => False

/-- The places that stages are still to make anew. -/
def pending (stages : List Stage) : List Location :=
  stages.flatMap (·.action.renewed)

/-- The paths that an action works at. -/
def Action.handled : Action → List Path
  | .recreate path => [path]
  | .copy source target | .move source target => [source, target]
  | .package manifest _ _ => [manifest, backupOf manifest]
  | .run _ | .freeze .. | .list _ => []

/-- A path written from a place other than the root. -/
def Path.IsWritten (p : Path) : Prop :=
  p.place ≠ [] ∧ p = .ofLocation p.place ∧ ∀ name ∈ p.place, isName name = true

/-- An action works apart from the places that are made anew after it. -/
def Action.Fits (later : List Location) : Action → Prop
  | .recreate path => path.IsWritten ∧ ∀ place ∈ later, Separate place path.place
  | .copy source target => source.IsDirect ∧ target.IsWritten ∧ Separate source.place target.place ∧
      FileTree.Apart later source target
  | .move source target => source.IsDirect ∧ target.IsDirect ∧
      (source.place <+: target.place → source.place = target.place) ∧ FileTree.Apart later source target
  | .package manifest _ _ => ∀ path ∈ [manifest, backupOf manifest], path.IsDirect ∧
      ∀ place ∈ later, ¬ place <+: path.place
  | .list _ => later = []
  | .run _ | .freeze .. => True

theorem FileTree.isPlain_outside {t : FileTree} {location : Location} (h : t.IsPlain location)
    (places : List Location) : (t.outside places).IsPlain location := by
  refine h.of_links fun above link hget => ?_
  by_cases hnil : above = []
  · simp [hnil] at hget
  · rw [get?_outside t places hnil] at hget
    split at hget
    · exact hget
    · cases hget

namespace Pipeline

variable {t₀ t₀' : FileTree} {places later : List Location} {s s' : Session (List Request)}
    {script : List Request → Behaviour} {p : Pipeline (List Request)}

private theorem records_freezeOn (script : List Request → Behaviour) (locate freezer : ToolCommand) (out : String) :
    Records (freezeOn (.ofScript script) locate freezer out) := by
  rw [freezeOn]
  dsimp only
  split
  · exact (Records.throw _).bind fun _ => (Records.log _ _).bind fun _ => .runTool script _
  · exact (Records.log _ _).bind fun _ => .runTool script _

theorem records_freeze (htools : p.tools = .ofScript script) (locate freezer : ToolCommand) :
    Records (freeze p locate freezer) := by
  rw [freeze_eq, htools]
  exact (Records.captureTool script locate).bind (records_freezeOn script locate freezer)

theorem freeze_concurs (htools : p.tools = .ofScript script) (locate freezer : ToolCommand)
    (h : Alike t₀ t₀' places s s') (hspares : RunM.Spares script places (freeze p locate freezer) s) :
    Concurs (Alike t₀ t₀' places) (fun _ => Alike t₀ t₀' places) (freeze p locate freezer) s s' := by
  rw [freeze_eq, htools] at hspares ⊢
  have hlocate := Records.captureTool script locate
  have hfreeze := records_freezeOn script locate freezer
  refine (h.captureTool locate (hspares.left hlocate hfreeze)).bind fun out after after' hrun hafter => ?_
  have hspares := hspares.right hlocate hfreeze hrun
  rw [freezeOn] at hspares ⊢
  dsimp only at hspares ⊢
  split
  · exact .throw hafter
  · rename_i hblank
    rw [if_neg hblank] at hspares
    refine (hafter.record _ _).bind fun _ _ _ hlog hlogged => hlogged.runTool _ ?_
    exact hspares.right (Records.log _ _) (fun _ => .runTool script _) hlog

/-- What comes of the outcome of packaging, and of that of restoring. -/
private theorem records_settled (outcome restored : Except Failure Unit) : Records (match outcome, restored with
    | .error e, .error unrestored => do
      log .error unrestored.message
      throw e
    | .error e, .ok () => throw e
    | .ok (), .error e => throw e
    | .ok (), .ok () => pure () : RunM (List Request) Unit) := by
  rcases outcome with e | _ <;> rcases restored with e' | _
  · exact (Records.log _ _).bind fun _ => .throw _
  · exact .throw _
  · exact .throw _
  · exact .pure _

theorem records_package (htools : p.tools = .ofScript script) (manifest : Path) (version : String)
    (command : ToolCommand) : Records (package p manifest version command) := by
  rw [package, htools]
  exact (Records.guardAcquire p.cwd manifest version).bind fun g => (Records.runTool script command).attempt.bind
    fun outcome => (Records.guardRestore p.cwd g).attempt.bind fun restored => records_settled outcome restored

theorem package_concurs (htools : p.tools = .ofScript script) (manifest : Path) (version : String)
    (command : ToolCommand) (h : Holding t₀ t₀' places [manifest, backupOf manifest] s s')
    (hspares : RunM.Spares script places (package p manifest version command) s)
    (hplain : ∀ call ∈ callsMade (package p manifest version command) s, ∀ path ∈ [manifest, backupOf manifest],
      call.after.IsPlain path.place) :
    Concurs (Alike t₀ t₀' places) (fun _ => Alike t₀ t₀' places) (package p manifest version command) s s' := by
  rw [package, htools] at hspares hplain ⊢
  have hacquire := Records.guardAcquire p.cwd manifest version
  have htool := Records.runTool script command
  have hrestore (g : Guard) (outcome : Except Failure Unit) :=
    (Records.guardRestore p.cwd g).attempt.bind fun restored => records_settled outcome restored
  have hguarded (g : Guard) := htool.attempt.bind fun outcome => hrestore g outcome
  refine ((Guard.acquire_concurs h p.cwd).mono (fun _ _ h => h.1) fun _ _ _ h => h).bind ?_
  rintro g guarded guarded' hrun ⟨rfl, hholding⟩
  have hspares := (hspares.right hacquire hguarded hrun).left htool.attempt (hrestore g)
  have hran : callsMade (RunM.attempt (runTool (.ofScript script) command)) guarded =
      [ran (.ofScript script) command guarded] := by
    rw [callsMade, run_attempt, calls_runTool, List.drop_left]
  have hmade := (htool.attempt.callsMade_left (hrestore g) guarded).subset
  rw [hran] at hmade
  have hplain := hplain _ (hacquire.callsMade_right hguarded hrun (hmade (List.mem_singleton_self _)))
  -- The tool may have changed the manifest and its backup, but has put no link in the way of either.
  have htried : Concurs (Holding t₀ t₀' places [g.manifest, g.backup])
      (fun _ => Holding t₀ t₀' places [g.manifest, g.backup])
      (runTool (.ofScript script) command) guarded guarded' := by
    obtain ⟨houtcome, hdone, hfailed⟩ := hholding.1.runTool command hspares
    have hmisses : ∀ path ∈ [g.manifest, g.backup],
        (runTool (.ofScript script) command guarded).2.tree.Misses places path := fun path hmem =>
      ⟨(hholding.2 path hmem).direct, by rw [tree_runTool]; exact hplain path hmem, (hholding.2 path hmem).out⟩
    exact ⟨houtcome, fun a hok => ⟨hdone a hok, hmisses⟩, fun e he => ⟨hfailed e he, hmisses⟩⟩
  refine htried.attempt.bind fun outcome _ _ _ hcalled => ?_
  refine (Guard.restore_concurs hcalled p.cwd).attempt.bind ?_
  rintro restored after after' - ⟨hafter, -⟩
  rcases outcome with e | _ <;> rcases restored with e' | _
  · exact (hafter.record _ _).bind fun _ _ _ _ hlogged => .throw hlogged
  · exact .throw hafter
  · exact .throw hafter
  · exact .pure hafter

theorem showVersion_concurs (p : Pipeline (List Request)) (version : Version) (h : Alike t₀ t₀' places s s') :
    Concurs (Alike t₀ t₀' places) (fun _ => Alike t₀ t₀' places) (showVersion p version) s s' := by
  rw [showVersion_eq]
  exact (h.emit _).bind fun _ _ _ _ hshown => .pure hshown

theorem records_showVersion (p : Pipeline (List Request)) (version : Version) : Records (showVersion p version) := by
  rw [showVersion_eq]
  exact (Records.emit _).bind fun _ => .pure _

private theorem records_askVersion (script : List Request → Behaviour) (command : ToolCommand) :
    Records (askVersion (.ofScript script) command) :=
  (Records.captureTool script command).bind fun _ => .pure _

private theorem askVersion_concurs (command : ToolCommand) (h : Alike t₀ t₀' places s s')
    (hspares : RunM.Spares script places (askVersion (.ofScript script) command) s) :
    Concurs (Alike t₀ t₀' places) (fun _ => Alike t₀ t₀' places) (askVersion (.ofScript script) command) s s' := by
  have hspares := hspares.left (Records.captureTool script command) fun _ => .pure _
  exact (h.captureTool command hspares).bind fun _ _ _ _ hasked => .pure hasked

theorem runVersionCommand_concurs (htools : p.tools = .ofScript script) (command : VersionCommand)
    (h : Alike t₀ t₀' places s s') (hspares : RunM.Spares script places (runVersionCommand p command) s) :
    Concurs (Alike t₀ t₀' places) (fun _ => Alike t₀ t₀' places) (runVersionCommand p command) s s' := by
  rw [runVersionCommand_eq, htools] at hspares ⊢
  split
  · rename_i hrequired
    rw [if_pos hrequired] at hspares
    exact askVersion_concurs _ h hspares
  · rename_i hrequired
    rw [if_neg hrequired] at hspares
    have hask := records_askVersion script (versionTool p.config command.program command.args)
    have hinstall := Records.runTool script
      (versionTool p.config p.config.tools.pip ("install" :: p.config.versioning.requirements))
    refine (h.runTool _ (hspares.left hinstall fun _ => hask)).bind fun _ after after' hrun hafter => ?_
    exact askVersion_concurs _ hafter (hspares.right hinstall (fun _ => hask) hrun)

theorem resolveVersion_concurs (htools : p.tools = .ofScript script) (value : Option String)
    (h : Alike t₀ t₀' places s s') (hspares : RunM.Spares script places (resolveVersion p value) s) :
    Concurs (Alike t₀ t₀' places) (fun _ => Alike t₀ t₀' places) (resolveVersion p value) s s' := by
  rw [resolveVersion_eq] at hspares ⊢
  split
  · rename_i command hfallback hcommand
    rw [hfallback, hcommand] at hspares
    dsimp only at hspares
    have hrecords : Records (runVersionCommand p command) := by
      rw [runVersionCommand_eq, htools]
      split
      · exact records_askVersion script _
      · exact (Records.runTool script _).bind fun _ => records_askVersion script _
    have hspares := hspares.left hrecords fun _ => records_showVersion p _
    exact (runVersionCommand_concurs htools command h hspares).bind fun _ _ _ _ hfound => showVersion_concurs p _ hfound
  · exact showVersion_concurs p _ h

theorem listArtifacts_concurs (p : Pipeline (List Request)) (dir : Path) (h : Alike t₀ t₀' [] s s') :
    Concurs (Alike t₀ t₀' []) (fun _ => Alike t₀ t₀' []) (listArtifacts p dir) s s' := by
  have hlisted := h.onTree (m := TreeM.look (·.artifacts p.cwd dir)) fun t hwf _ => .look hwf (by rw [outside_nil])
  rw [listArtifacts_eq]
  exact hlisted.bind fun _ _ _ _ hfound => (hfound.1.emit _).bind fun _ _ _ _ hshown => .pure hshown

/-- Work on the files in two parts. -/
private theorem onTree_bind {α β : Type} (m : TreeM Failure α) (f : α → TreeM Failure β) :
    (onTree (m >>= f) : RunM (List Request) β) = onTree m >>= fun a => onTree (f a) := by
  funext s
  rw [run_onTree, TreeM.run_bind, run_bind, run_onTree]
  cases m s.tree with
  | mk outcome after => cases outcome <;> rfl

theorem recreate_concurs {path : Path} (cwd : WorkingDir) (h : Alike t₀ t₀' (path.place :: later) s s')
    (hfits : (Action.recreate path).Fits later)
    (hstale : ∀ t ∈ [t₀, t₀'], t.get? path.place = none ∨ t.get? path.place = some .directory)
    (hplain : s.tree.IsPlain path.place) :
    Concurs (fun after after' => (Action.recreate path).IsStuck cwd s.tree ∧
      Alike t₀ t₀' (path.place :: later) after after' ∨ Alike t₀ t₀' later after after')
      (fun _ => Alike t₀ t₀' later) (onTree (FileTree.recreate cwd path)) s s' := by
  obtain ⟨⟨hne, hpath, hnames⟩, hseparate⟩ := hfits
  have hdirect := (Path.isDirect_ofLocation hnames).1
  have hremoved := h.removeAll cwd hnames hne hseparate hplain hstale
  rw [← hpath] at hdirect hremoved
  rw [FileTree.recreate, onTree_bind]
  refine (hremoved.mono (fun _ _ => .inl) fun _ _ _ h => h).bind fun _ after after' _ ⟨hafter, hcleared⟩ => ?_
  refine (hafter.onTree fun t hwf hsame => ?_).mono (fun _ _ => .inr) fun _ _ _ h => h.1
  have hmisses : after.tree.Misses later path :=
    ⟨hdirect, hcleared ▸ isPlain_outside hplain _, fun place hmem => (hseparate place hmem).1⟩
  have hmisses := hmisses.congr hsame
  refine .describe (.of_alters (ignores_makeDirs cwd hwf hmisses)
    (makeDirs_alters cwd hwf hdirect hmisses.plain List.prefix_rfl) ?_) _
  simpa using hseparate

theorem copy_concurs {source target : Path} (cwd : WorkingDir) (h : Alike t₀ t₀' (target.place :: later) s s')
    (hfits : (Action.copy source target).Fits later)
    (hstale : ∀ t ∈ [t₀, t₀'], t.get? target.place = none ∨ t.get? target.place = some .directory)
    (hplainSource : s.tree.IsPlain source.place) (hplain : s.tree.IsPlain target.place) :
    Concurs (fun after after' => (Action.copy source target).IsStuck cwd s.tree ∧
      Alike t₀ t₀' (target.place :: later) after after' ∨ Alike t₀ t₀' later after after')
      (fun _ => Alike t₀ t₀' later) (do
        onTree (FileTree.removeAll cwd target)
        onTree (FileTree.copyDir cwd source target)) s s' := by
  obtain ⟨hsource, ⟨hne, hpath, hnames⟩, hdistinct, hapart⟩ := hfits
  have hdirect := (Path.isDirect_ofLocation hnames).1
  have hremoved := h.removeAll cwd hnames hne (fun place hmem => (hapart place hmem).2) hplain hstale
  rw [← hpath] at hdirect hremoved
  refine (hremoved.mono (fun _ _ => .inl) fun _ _ _ h => h).bind fun _ after after' _ ⟨hafter, hcleared⟩ => ?_
  refine (hafter.onTree fun t hwf hsame => ?_).mono (fun _ _ => .inr) fun _ _ _ h => h.1
  have hfrom : after.tree.Misses later source := ⟨hsource, hcleared ▸ isPlain_outside hplainSource _, hapart.out.1⟩
  have hto : after.tree.Misses later target := ⟨hdirect, hcleared ▸ isPlain_outside hplain _, hapart.out.2⟩
  have hfrom := hfrom.congr hsame
  have hto' := hto.congr hsame
  have hfree : t.get? target.place = none := by
    rw [← hto'.get?, hsame, hto.get?, hcleared, get?_outside _ _ hne, if_neg (by simp [isOutside_iff])]
  refine .of_alters (ignores_copyDir cwd hwf hfrom hto' hfree (fun hpre => absurd hpre hdistinct.1) hapart)
    (copyDir_alters cwd source hwf hdirect hto'.plain hfree) ?_
  simpa using fun place hmem => (hapart place hmem).2

theorem move_concurs {source target : Path} (cwd : WorkingDir) (h : Alike t₀ t₀' later s s')
    (hfits : (Action.move source target).Fits later) (hplainSource : s.tree.IsPlain source.place)
    (hplainTarget : s.tree.IsPlain target.place) :
    Concurs (Alike t₀ t₀' later) (fun _ => Alike t₀ t₀' later) (onTree (FileTree.moveDir cwd source target)) s s' := by
  obtain ⟨hsource, htarget, hnested, hapart⟩ := hfits
  refine (h.onTree fun t hwf hsame => ?_).mono (fun _ _ h => h) fun _ _ _ h => h.1
  have hfrom : s.tree.Misses later source := ⟨hsource, hplainSource, hapart.out.1⟩
  have hto : s.tree.Misses later target := ⟨htarget, hplainTarget, hapart.out.2⟩
  have hfrom := hfrom.congr hsame
  have hto := hto.congr hsame
  refine .of_alters (ignores_moveDir cwd hwf hfrom hto hnested hapart)
    (moveDir_alters cwd hwf hsource htarget hfrom.plain hto.plain) fun place hmem => ?_
  simpa using hapart place hmem

/-- An action makes the trees the same at what it makes anew, and leaves alone what is made anew after it. Only if the
    removal is refused do they differ there still. -/
theorem perform_concurs (htools : p.tools = .ofScript script) {action : Action}
    (h : Alike t₀ t₀' (action.renewed ++ later) s s') (hfits : action.Fits later)
    (hstale : ∀ place ∈ action.renewed, ∀ t ∈ [t₀, t₀'], t.get? place = none ∨ t.get? place = some .directory)
    (hspares : RunM.Spares script (action.renewed ++ later) (perform p action) s)
    (hplain : ∀ path ∈ action.handled, s.tree.IsPlain path.place ∧
      ∀ call ∈ callsMade (perform p action) s, call.after.IsPlain path.place) :
    Concurs (fun after after' => action.IsStuck p.cwd s.tree ∧ Alike t₀ t₀' (action.renewed ++ later) after after' ∨
      Alike t₀ t₀' later after after') (fun _ => Alike t₀ t₀' later) (perform p action) s s' := by
  have hnone (a : Unit) : Records (pure none : RunM (List Request) (Option (List Artifact))) := .pure _
  have hquiet {m : RunM (List Request) Unit} {E : Session (List Request) → Session (List Request) → Prop}
      (hm : Concurs E (fun _ => Alike t₀ t₀' later) m s s') :
      Concurs E (fun _ => Alike t₀ t₀' later) (do m; pure none : RunM (List Request) (Option (List Artifact))) s s' :=
    hm.bind fun _ _ _ _ h => .pure h
  cases action with
  | run command =>
    rw [perform, htools] at hspares ⊢
    exact hquiet ((h.runTool command (hspares.left (.runTool script command) hnone)).mono (fun _ _ => .inr)
      fun _ _ _ h => h)
  | freeze locate freezer =>
    rw [perform] at hspares ⊢
    have hspares := hspares.left (records_freeze htools locate freezer) hnone
    exact hquiet ((freeze_concurs htools locate freezer h hspares).mono (fun _ _ => .inr) fun _ _ _ h => h)
  | recreate path =>
    exact hquiet (recreate_concurs p.cwd h hfits (hstale _ (List.mem_singleton_self _))
      (hplain path (List.mem_singleton_self _)).1)
  | copy source target =>
    have hcopied := copy_concurs p.cwd h hfits (hstale _ (List.mem_singleton_self _))
      (hplain source List.mem_cons_self).1
      (hplain target (by simp [Action.handled])).1
    rw [perform, ← bind_assoc]
    exact hquiet hcopied
  | move source target =>
    have hmoved := move_concurs p.cwd h hfits (hplain source List.mem_cons_self).1
      (hplain target (by simp [Action.handled])).1
    exact hquiet (hmoved.mono (fun _ _ => .inr) fun _ _ _ h => h)
  | package manifest version command =>
    rw [perform] at hspares hplain ⊢
    have hrecords := records_package htools manifest version command
    have hholding : Holding t₀ t₀' later [manifest, backupOf manifest] s s' :=
      ⟨h, fun path hmem => ⟨(hfits path hmem).1, (hplain path hmem).1, (hfits path hmem).2⟩⟩
    have hpackaged := package_concurs htools manifest version command hholding (hspares.left hrecords hnone)
      fun call hcall path hmem => (hplain path hmem).2 call ((hrecords.callsMade_left hnone s).subset hcall)
    exact hquiet (hpackaged.mono (fun _ _ => .inr) fun _ _ _ h => h)
  | list path =>
    obtain rfl : later = [] := hfits
    rw [perform]
    exact ((listArtifacts_concurs p path h).mono (fun _ _ => .inr) fun _ _ _ h => h).bind fun _ _ _ _ h => .pure h

end Pipeline

end DebRelease
