import DebRelease.Proofs.FileTree.Transfer
import DebRelease.Proofs.Run.Order

namespace DebRelease

variable {σ α β : Type} {I : FileTree → Prop}

/-- Tools whose calls keep a property of the files. -/
def Runner.Preserves (tools : Runner σ) (I : FileTree → Prop) : Prop :=
  ∀ command t memory, I t → I (tools.run command t memory).tree ∧ I (tools.capture command t memory).tree

namespace RunM

/-- A computation that keeps a property of the files, whatever comes of it. -/
def Preserves (m : RunM σ α) (I : FileTree → Prop) : Prop :=
  ∀ s, I s.tree → I (m s).2.tree

namespace Preserves

theorem pure (a : α) : Preserves (pure a : RunM σ α) I := fun _ h => h

theorem throw (e : Failure) : Preserves (throw e : RunM σ α) I := fun _ h => h

theorem emit (writes : List Write) : Preserves (emit writes : RunM σ Unit) I := fun _ h => h

theorem log (level : LogLevel) (text : String) : Preserves (log level text : RunM σ Unit) I := fun _ h => h

theorem bind {m : RunM σ α} {f : α → RunM σ β} (hm : Preserves m I) (hf : ∀ a, Preserves (f a) I) :
    Preserves (m >>= f) I := by
  intro s h
  have hmid := hm s h
  rw [run_bind]
  cases hrun : m s with
  | mk outcome after =>
    rw [hrun] at hmid
    cases outcome with
    | error e => exact hmid
    | ok a => exact hf a after hmid

theorem look (f : FileTree → Except Failure α) : Preserves (onTree (TreeM.look f) : RunM σ α) I := by
  intro s h
  rw [run_onTree, TreeM.run_look]
  exact h

theorem runTool {tools : Runner σ} (htools : tools.Preserves I) (command : ToolCommand) :
    Preserves (runTool tools command) I := by
  have hcall : Preserves (call .run command tools.run fun status => ⟨status, ""⟩) I :=
    fun s h => (htools command s.tree s.memory h).1
  refine hcall.bind fun status => ?_
  cases status.check command with
  | ok => exact pure _
  | error e => exact throw e

theorem captureTool {tools : Runner σ} (htools : tools.Preserves I) (command : ToolCommand) :
    Preserves (captureTool tools command) I := by
  have hcall : Preserves (call .capture command tools.capture id) I :=
    fun s h => (htools command s.tree s.memory h).2
  refine hcall.bind fun captured => ?_
  cases captured.status.check command with
  | ok => exact pure _
  | error e => exact throw e

end Preserves

end RunM

theorem RunM.tree_onTree (m : TreeM Failure α) (b : β) (s : Session σ) :
    ((do let _ ← onTree m; pure b : RunM σ β) s).2.tree = (m s.tree).2 := by
  rw [run_bind, run_onTree]
  cases (m s.tree).1 <;> rfl

theorem RunM.tree_onTree_onTree {γ : Type} (m : TreeM Failure α) (m' : TreeM Failure β) (c : γ) (s : Session σ) :
    ((do let _ ← onTree m; let _ ← onTree m'; pure c : RunM σ γ) s).2.tree =
      ((do let _ ← m; m' : TreeM Failure β) s.tree).2 := by
  rw [run_bind, run_onTree, TreeM.run_bind]
  cases hrun : m s.tree with
  | mk outcome after =>
    cases outcome with
    | error e => rfl
    | ok a => exact tree_onTree m' c { s with tree := after }

/-- The paths that an action rebuilds. -/
def Action.rebuilt : Action → List Path
  | .recreate path => [path]
  | .copy _ target => [target]
  | .move source target => [source, target]
  | .run _ | .freeze .. | .package .. | .list _ => []

namespace Pipeline

open RunM FileTree

variable {p : Pipeline σ}

theorem preserves_freeze (htools : p.tools.Preserves I) (locate freezer : ToolCommand) :
    Preserves (freeze p locate freezer) I := by
  rw [freeze_eq]
  refine (Preserves.captureTool htools locate).bind fun out => ?_
  rw [freezeOn]
  dsimp only
  split
  · exact .throw _
  · exact (Preserves.log _ _).bind fun _ => .runTool htools _

theorem preserves_listArtifacts (dir : Path) : Preserves (listArtifacts p dir) I := by
  rw [listArtifacts_eq]
  exact (Preserves.look _).bind fun _ => (Preserves.emit _).bind fun _ => .pure _

theorem preserves_runVersionCommand (htools : p.tools.Preserves I) (command : VersionCommand) :
    Preserves (runVersionCommand p command) I := by
  have hask : Preserves (askVersion p.tools (versionTool p.config command.program command.args)) I :=
    (Preserves.captureTool htools _).bind fun _ => .pure _
  rw [runVersionCommand_eq]
  split
  · exact hask
  · exact (Preserves.runTool htools _).bind fun _ => hask

theorem preserves_showVersion (version : Version) : Preserves (showVersion p version) I := by
  rw [showVersion_eq]
  exact (Preserves.emit _).bind fun _ => .pure _

theorem preserves_resolveVersion (htools : p.tools.Preserves I) (value : Option String) :
    Preserves (resolveVersion p value) I := by
  rw [resolveVersion_eq]
  split
  · exact (preserves_runVersionCommand htools _).bind fun _ => preserves_showVersion _
  · exact preserves_showVersion _

/-- An action that rebuilds directories calls no tool. -/
theorem calls_perform_of_rebuilds {action : Action} (hrebuilds : action.rebuilt ≠ []) (s : Session σ) :
    (perform p action s).2.calls = s.calls := by
  obtain ⟨made, spec, ⟨hcalls, hfollows⟩, -⟩ := asks_perform p action s
  have hnone : action.requests spec = [] := by
    cases action with
    | run | freeze | list | package => exact absurd rfl hrebuilds
    | recreate | copy | move => rfl
  have hmade : made = [] := List.map_eq_nil_iff.mp (List.prefix_nil.mp (hnone ▸ hfollows.initial))
  rw [hcalls, hmade, List.append_nil]

/-- Where no link is in the way, it changes nothing else. -/
theorem perform_rebuilds {action : Action} {s : Session σ} (hrebuilds : action.rebuilt ≠ []) (hwf : s.tree.WellFormed)
    (hdirect : ∀ path ∈ action.rebuilt, path.IsDirect) (hplain : ∀ path ∈ action.rebuilt, s.tree.IsPlain path.place) :
    (perform p action s).2.tree.WellFormed ∧
      Within (action.rebuilt.map Path.place) s.tree (perform p action s).2.tree := by
  have halters {m : TreeM Failure Unit} {P : Unit → FileTree → Prop}
      (hm : Alters (action.rebuilt.map Path.place) m s.tree P) :
      (m s.tree).2.WellFormed ∧ Within (action.rebuilt.map Path.place) s.tree (m s.tree).2 :=
    ⟨hm.wellFormed, hm.within⟩
  cases action with
  | run | freeze | list | package => exact absurd rfl hrebuilds
  | recreate path =>
    have hpath : path ∈ (Action.recreate path).rebuilt := List.mem_singleton_self _
    rw [perform, tree_onTree]
    exact halters (recreate_alters p.cwd hwf (hdirect path hpath) (hplain path hpath))
  | move source target =>
    have hsource : source ∈ (Action.move source target).rebuilt := List.mem_cons_self
    have htarget : target ∈ (Action.move source target).rebuilt := List.mem_cons_of_mem _ (List.mem_singleton_self _)
    rw [perform, tree_onTree]
    exact halters (moveDir_alters p.cwd hwf (hdirect source hsource) (hdirect target htarget)
      (hplain source hsource) (hplain target htarget))
  | copy source target =>
    have htarget : target ∈ (Action.copy source target).rebuilt := List.mem_singleton_self _
    rw [perform, tree_onTree_onTree]
    refine halters (P := fun _ _ => True) ?_
    refine (removeAll_alters p.cwd hwf (hdirect target htarget) (hplain target htarget)).bind ?_
    intro _ removed hwf' _ hwithout
    exact (copyDir_alters p.cwd source hwf' (hdirect target htarget)
      (hwithout.isPlain (hplain target htarget)) (hwithout.get?_eq_none List.prefix_rfl)).mono
      (List.Subset.refl _) fun _ _ _ _ _ => trivial

/-- Where no link is in the way, an action other than packaging changes nothing but what it rebuilds, and
    what tools change. -/
theorem perform_within {action : Action} (htools : p.tools.Preserves I) (hwf : ∀ t, I t → t.WellFormed)
    (hwithin : ∀ t t', I t → t'.WellFormed → Within (action.rebuilt.map Path.place) t t' → I t')
    (hpackage : ∀ manifest version command, action ≠ .package manifest version command)
    (hdirect : ∀ path ∈ action.rebuilt, path.IsDirect) {s : Session σ}
    (hplain : ∀ path ∈ action.rebuilt, s.tree.IsPlain path.place) (h : I s.tree) :
    I (perform p action s).2.tree := by
  have hnone : ∀ a : Option (List Artifact), Preserves (pure a : RunM σ _) I := Preserves.pure
  have hwork (hrebuilds : action.rebuilt ≠ []) : I (perform p action s).2.tree := by
    obtain ⟨hwf', hchanges⟩ := perform_rebuilds hrebuilds (hwf s.tree h) hdirect hplain
    exact hwithin s.tree _ h hwf' hchanges
  cases action with
  | run command => exact (Preserves.runTool htools command).bind (fun _ => hnone _) s h
  | freeze locate freezer => exact (preserves_freeze htools locate freezer).bind (fun _ => hnone _) s h
  | list path => exact (preserves_listArtifacts path).bind (fun artifacts => hnone _) s h
  | package manifest version command => exact absurd rfl (hpackage manifest version command)
  | recreate | move | copy => exact hwork (by simp [Action.rebuilt])

end Pipeline

end DebRelease
