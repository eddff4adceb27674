import DebRelease.Proofs.FileTree.Rebuild
import DebRelease.Proofs.Run.Order

namespace DebRelease.RunM

open FileTree

variable {σ α β : Type} {C : Call → Prop} {I J : FileTree → Prop}

/-- If all calls made keep `C`, the computation succeeds on trees of which `I` holds, with a result and a
    tree of which `Q` holds. -/
structure Achieves (C : Call → Prop) (I : FileTree → Prop) (m : RunM σ α) (Q : α → FileTree → Prop) : Prop where
  grows : ∀ s, s.calls ⊆ (m s).2.calls
  success : ∀ s, I s.tree → (∀ call ∈ (m s).2.calls, C call) → ∃ a after, m s = (.ok a, after) ∧ Q a after.tree

theorem Asks.grows {m : RunM σ α} {s : Session σ} {made : List Call} {asked : List Request} (h : Asks m s made asked) :
    s.calls ⊆ (m s).2.calls := by
  rw [h.1]
  exact List.subset_append_left _ _

namespace Achieves

variable {m : RunM σ α} {f : α → RunM σ β} {Q Q' : α → FileTree → Prop} {R : β → FileTree → Prop}

theorem pure {a : α} : Achieves C I (pure a : RunM σ α) fun b t => b = a ∧ I t :=
  ⟨fun _ => List.Subset.refl _, fun s h _ => ⟨a, s, rfl, rfl, h⟩⟩

theorem emit (writes : List Write) : Achieves C I (emit writes : RunM σ Unit) fun _ => I :=
  ⟨fun _ => List.Subset.refl _, fun _ h _ => ⟨(), _, rfl, h⟩⟩

theorem log (level : LogLevel) (text : String) : Achieves C I (log level text : RunM σ Unit) fun _ => I :=
  ⟨fun _ => List.Subset.refl _, fun _ h _ => ⟨(), _, rfl, h⟩⟩

theorem bind (hm : Achieves C I m Q) (hf : ∀ a, Achieves C (Q a) (f a) R) : Achieves C I (m >>= f) R := by
  refine ⟨fun s => ?_, fun s h hcalls => ?_⟩
  · have hgrows := hm.grows s
    rw [run_bind]
    cases hrun : m s with
    | mk outcome after =>
      rw [hrun] at hgrows
      cases outcome with
      | error e => exact hgrows
      | ok a => exact List.Subset.trans hgrows ((hf a).grows after)
  · rw [run_bind] at hcalls ⊢
    cases hrun : m s with
    | mk outcome after =>
      rw [hrun] at hcalls
      cases outcome with
      | error e =>
        obtain ⟨a, after', heq, -⟩ := hm.success s h (by rw [hrun]; exact hcalls)
        rw [hrun] at heq
        cases heq
      | ok a =>
        obtain ⟨a', after', heq, hQ⟩ := hm.success s h fun call hmem => by
          rw [hrun] at hmem
          exact hcalls call ((hf a).grows after hmem)
        rw [hrun] at heq
        cases heq
        exact (hf a).success after hQ hcalls

theorem mono (h : Achieves C J m Q) (hI : ∀ t, I t → J t) (hQ : ∀ a t, Q a t → Q' a t) : Achieves C I m Q' := by
  refine ⟨h.grows, fun s hs hcalls => ?_⟩
  obtain ⟨a, after, hrun, hholds⟩ := h.success s (hI _ hs) hcalls
  exact ⟨a, after, hrun, hQ a _ hholds⟩

theorem attempt (h : Achieves C I m Q) :
    Achieves C I (RunM.attempt m) fun outcome t => ∃ a, outcome = .ok a ∧ Q a t := by
  refine ⟨h.grows, fun s hs hcalls => ?_⟩
  obtain ⟨a, after, hrun, hholds⟩ := h.success s hs hcalls
  exact ⟨.ok a, after, by rw [run_attempt, hrun], a, rfl, hholds⟩

theorem inStage (h : Achieves C I m Q) (stage : String) : Achieves C I (Pipeline.inStage stage m) Q := by
  refine ⟨h.grows, fun s hs hcalls => ?_⟩
  obtain ⟨a, after, hrun, hholds⟩ := h.success s hs hcalls
  exact ⟨a, after, by rw [run_inStage, hrun]; rfl, hholds⟩

/-- Work on the files that succeeds. -/
theorem onTree {m : TreeM Failure α} (h : ∀ t, I t → Yields m t Q) : Achieves C I (onTree m : RunM σ α) Q := by
  refine ⟨fun _ => List.Subset.refl _, fun s hs _ => ?_⟩
  obtain ⟨a, t', hrun, hholds⟩ := h s.tree hs
  exact ⟨a, { s with tree := t' }, by rw [run_onTree, hrun], hholds⟩

/-- A call leaves the tree that it records, and its answer is the result. -/
theorem call {mode : CallMode} {command : ToolCommand} {answer : ToolCommand → FileTree → σ → Reply σ α}
    {kept : α → Captured} (hC : ∀ call, C call → call.succeeded = true) :
    Achieves C I (call mode command answer kept) fun a t => ∃ call, C call ∧ call.request = ⟨mode, command⟩ ∧
      I call.tree ∧ call.answer = .ok (kept a) ∧ call.after = t := by
  refine ⟨fun _ => List.subset_append_left _ _, fun s hs hcalls => ?_⟩
  have hcall : C (recorded mode command answer kept s) := hcalls _ (List.mem_append_right _ (List.mem_singleton_self _))
  have hsucceeded := hC _ hcall
  cases houtcome : (answer command s.tree s.memory).outcome with
  | error e => simp [Call.succeeded, recorded, houtcome, Except.map] at hsucceeded
  | ok a =>
    refine ⟨a, _, by rw [RunM.call, houtcome], _, hcall, rfl, hs, ?_, rfl⟩
    simp [recorded, houtcome, Except.map]

private theorem check_eq_ok {status : ToolStatus} {stdout : String} {call : Call}
    (hanswer : call.answer = .ok ⟨status, stdout⟩) (h : call.succeeded = true) (command : ToolCommand) :
    status.check command = .ok () := by
  rw [Call.succeeded, hanswer] at h
  rw [ToolStatus.check, if_pos h]

/-- A tool whose call keeps `C` does its work. -/
theorem runTool {tools : Runner σ} {command : ToolCommand} (hC : ∀ call, C call → call.succeeded = true)
    (h : ∀ call, C call → call.request = ⟨.run, command⟩ → I call.tree → J call.after) :
    Achieves C I (runTool tools command) fun _ => J := by
  refine (call hC).bind fun status => ⟨fun s => ?_, ?_⟩
  · cases hcheck : status.check command <;> simp
  · rintro s ⟨made, hmade, hrequest, hI, hanswer, hafter⟩ -
    refine ⟨(), s, ?_, hafter ▸ h made hmade hrequest hI⟩
    rw [check_eq_ok hanswer (hC made hmade)]
    rfl

/-- So does one whose output is kept. -/
theorem captureTool {tools : Runner σ} {command : ToolCommand} {Q : String → FileTree → Prop}
    (hC : ∀ call, C call → call.succeeded = true)
    (h : ∀ call out, C call → call.request = ⟨.capture, command⟩ → call.spec = trimText out → I call.tree →
      Q out call.after) :
    Achieves C I (captureTool tools command) Q := by
  refine (call hC).bind fun captured => ⟨fun s => ?_, ?_⟩
  · cases hcheck : captured.status.check command <;> simp
  · rintro s ⟨made, hmade, hrequest, hI, hanswer, hafter⟩ -
    refine ⟨captured.stdout, s, ?_, hafter ▸ h made _ hmade hrequest ?_ hI⟩
    · rw [check_eq_ok hanswer (hC made hmade)]
      rfl
    · rw [Call.spec, hanswer]
      rfl

end Achieves

end DebRelease.RunM

namespace DebRelease.Pipeline

open RunM FileTree

variable {σ : Type} {C : Call → Prop} {I J : FileTree → Prop} {p : Pipeline σ}

/-- A stage, and after it others. -/
theorem achieves_cons {total number : Nat} {listed : List Artifact} {stage : Stage} {stages : List Stage}
    {Q : Option (List Artifact) → FileTree → Prop} {R : List Artifact → FileTree → Prop}
    (hstage : Achieves C I (perform p stage.action) Q)
    (hrest : ∀ found, Achieves C (Q found) (performAll p total (number + 1) (found.getD listed) stages) R) :
    Achieves C I (performAll p total number listed (stage :: stages)) R :=
  (Achieves.emit _).bind fun _ => (hstage.inStage stage.name).bind hrest

/-- The freezer is run on the specification, which is not blank. -/
theorem achieves_freeze {locate freezer : ToolCommand} (hC : ∀ call, C call → call.succeeded = true)
    (hlocate : ∀ call, C call → call.request = ⟨.capture, locate⟩ → I call.tree → call.spec ≠ "" ∧ J call.after)
    {K : FileTree → Prop} (hfreeze : ∀ spec call, C call → call.request = ⟨.run, freezer.withArg (Bytes.ofText spec)⟩ →
      J call.tree → K call.after) :
    Achieves C I (freeze p locate freezer) fun _ => K := by
  refine (Achieves.captureTool (Q := fun out t => trimText out ≠ "" ∧ J t) hC ?_).bind fun out => ?_
  · intro call out hcall hrequest hspec htree
    rw [← hspec]
    exact hlocate call hcall hrequest htree
  · cases hempty : (trimText out).isEmpty with
    | true =>
      dsimp only
      rw [hempty]
      exact ⟨fun _ => List.Subset.refl _, fun _ h => absurd (String.isEmpty_iff.mp hempty) h.1⟩
    | false =>
      dsimp only
      rw [hempty]
      refine .mono (J := J) ?_ (fun _ h => h.2) fun _ _ h => h
      exact (Achieves.log _ _).bind fun _ => .runTool hC (hfreeze (trimText out))

/-- Listing what a directory holds changes nothing. -/
theorem achieves_listArtifacts {dir : Path} {artifacts : List Artifact}
    (h : ∀ t, I t → t.artifacts p.cwd dir = .ok artifacts) :
    Achieves C I (listArtifacts p dir) fun found t => found = artifacts ∧ I t := by
  have hlook : Achieves C I (onTree (TreeM.look (·.artifacts p.cwd dir)) : RunM σ (List Artifact)) fun found t =>
      found = artifacts ∧ I t :=
    .onTree fun t ht => ⟨artifacts, t, by rw [TreeM.run_look, h t ht], rfl, ht⟩
  rw [listArtifacts_eq]
  refine hlook.bind fun found => (Achieves.emit _).bind fun _ => ?_
  exact Achieves.pure.mono (fun _ h => h) fun _ _ ⟨heq, h⟩ => heq ▸ h

/-- The version step succeeds where tools do. -/
theorem achieves_resolveVersion (hC : ∀ call, C call → call.succeeded = true) (value : Option String)
    (hkeep : ∀ call, C call → call.request ∈ p.config.versionRequests value → I call.tree → I call.after) :
    Achieves C I (resolveVersion p value) fun _ => I := by
  have hshow (version : Version) : Achieves C I (showVersion p version) fun _ => I := by
    rw [showVersion_eq]
    exact (Achieves.emit _).bind fun _ => Achieves.pure.mono (fun _ h => h) fun _ _ h => h.2
  rw [Config.versionRequests] at hkeep
  rw [resolveVersion_eq]
  cases hfallback : (Version.ofVariable value).isFallback with
  | false => exact hshow _
  | true =>
    cases hcommand : p.config.versioning.command with
    | none => exact hshow _
    | some command =>
      simp only [hfallback, hcommand] at hkeep
      refine .bind (Q := fun _ => I) ?_ fun _ => hshow _
      have hask : Achieves C I (askVersion p.tools (versionTool p.config command.program command.args))
          fun _ => I := by
        refine .bind (Q := fun _ => I) (.captureTool hC fun call _ hcall hrequest _ => hkeep call hcall ?_)
          fun _ => Achieves.pure.mono (fun _ h => h) fun _ _ h => h.2
        rw [hrequest]
        simp
      rw [runVersionCommand_eq]
      split
      · exact hask
      · rename_i hrequired
        refine .bind (Q := fun _ => I) (.runTool hC fun call hcall hrequest => hkeep call hcall ?_) fun _ => hask
        rw [hrequest]
        simp [hrequired]

end DebRelease.Pipeline
