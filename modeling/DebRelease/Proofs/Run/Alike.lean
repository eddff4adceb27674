import DebRelease.Proofs.Run.Script

namespace DebRelease

open FileTree RunM

/-- What was asked in a call, and what was answered. -/
def Call.exchange (call : Call) : Request × Except Failure Captured :=
  (call.request, call.answer)

/-- Two sessions that differ at most in what lies at or below some places, which in both is as it was in a first
    tree, and in the trees of the calls made so far. -/
structure Alike {σ : Type} (t₀ t₀' : FileTree) (places : List Location) (s s' : Session σ) : Prop where
  wellFormed : s.tree.WellFormed
  wellFormed' : s'.tree.WellFormed
  tree : s.tree.outside places = s'.tree.outside places
  untouched : Untouched places t₀ s.tree
  untouched' : Untouched places t₀' s'.tree
  memory : s.memory = s'.memory
  calls : s.calls.map Call.exchange = s'.calls.map Call.exchange
  log : s.log = s'.log
  writes : s.writes = s'.writes

variable {σ α β : Type} {t₀ t₀' : FileTree} {places later : List Location} {place : Location}
    {s s' : Session σ} {E I : Session σ → Session σ → Prop} {R : α → Session σ → Session σ → Prop}
    {Q : β → Session σ → Session σ → Prop} {m : RunM σ α} {f : α → RunM σ β} {cwd : WorkingDir} {p : Path}

/-- From two sessions a computation comes to the same: to the same result, with sessions between which `R` holds, or
    to the same failure, with sessions between which `E` holds. -/
structure RunM.Concurs (E : Session σ → Session σ → Prop) (R : α → Session σ → Session σ → Prop) (m : RunM σ α)
    (s s' : Session σ) : Prop where
  outcome : (m s').1 = (m s).1
  done : ∀ a, (m s).1 = .ok a → R a (m s).2 (m s').2
  failed : ∀ e, (m s).1 = .error e → E (m s).2 (m s').2

namespace RunM.Concurs

theorem pure {a : α} (h : R a s s') : Concurs E R (pure a) s s' :=
  ⟨rfl, fun _ heq => Except.ok.inj heq ▸ h, fun _ heq => (nomatch heq)⟩

theorem throw {e : Failure} (h : E s s') : Concurs E R (throw e) s s' :=
  ⟨rfl, fun _ heq => (nomatch heq), fun _ _ => h⟩

theorem bind (hm : Concurs E R m s s')
    (hf : ∀ a after after', m s = (.ok a, after) → R a after after' → Concurs E Q (f a) after after') :
    Concurs E Q (m >>= f) s s' := by
  obtain ⟨houtcome, hdone, hfailed⟩ := hm
  cases hrun : m s with
  | mk outcome after =>
    cases hrun' : m s' with
    | mk outcome' after' =>
      rw [hrun, hrun'] at houtcome hdone hfailed
      dsimp only at houtcome
      subst houtcome
      cases outcome' with
      | error e =>
        have hbind : (m >>= f) s = (.error e, after) := by rw [run_bind, hrun]
        have hbind' : (m >>= f) s' = (.error e, after') := by rw [run_bind, hrun']
        exact ⟨by rw [hbind, hbind'], fun b hok => (by rw [hbind] at hok; cases hok),
          fun _ _ => by rw [hbind, hbind']; exact hfailed e rfl⟩
      | ok a =>
        have hbind : (m >>= f) s = f a after := by rw [run_bind, hrun]
        have hbind' : (m >>= f) s' = f a after' := by rw [run_bind, hrun']
        obtain ⟨houtcome, hdone', hfailed'⟩ := hf a after after' hrun (hdone a rfl)
        exact ⟨by rwa [hbind, hbind'], by rwa [hbind, hbind'], by rwa [hbind, hbind']⟩

theorem mono {E' : Session σ → Session σ → Prop} {R' : α → Session σ → Session σ → Prop} (h : Concurs E R m s s')
    (hE : ∀ after after', E after after' → E' after after')
    (hR : ∀ a after after', R a after after' → R' a after after') :
    Concurs E' R' m s s' :=
  ⟨h.outcome, fun a hok => hR _ _ _ (h.done a hok), fun e he => hE _ _ (h.failed e he)⟩

theorem mono_failed {E' : Session σ → Session σ → Prop} (h : Concurs E R m s s')
    (hE : ∀ e, (m s).1 = .error e → E (m s).2 (m s').2 → E' (m s).2 (m s').2) : Concurs E' R m s s' :=
  ⟨h.outcome, h.done, fun e he => hE e he (h.failed e he)⟩

/-- What is tried and may fail leaves what holds either way. -/
theorem attempt (h : Concurs I (fun _ => I) m s s') : Concurs E (fun _ => I) (attempt m) s s' := by
  refine ⟨by simp [h.outcome], fun outcome hok => ?_, fun _ he => by cases he⟩
  cases houtcome : (m s).1 with
  | ok a => exact h.done a houtcome
  | error e => exact h.failed e houtcome

theorem inStage (h : Concurs E R m s s') (stage : String) : Concurs E R (Pipeline.inStage stage m) s s' := by
  refine ⟨by simp [h.outcome], fun a hok => h.done a ?_, fun e he => ?_⟩
  · rw [run_inStage] at hok
    exact mapError_eq_ok_iff.mp hok
  · rw [run_inStage] at he
    cases houtcome : (m s).1 with
    | ok a => simp [houtcome, Except.mapError] at he
    | error cause => exact h.failed cause houtcome

end RunM.Concurs

namespace Alike

theorem emit (h : Alike t₀ t₀' places s s') (writes : List Write) :
    Concurs E (fun _ => Alike t₀ t₀' places) (emit writes) s s' :=
  ⟨rfl, fun _ _ => { h with writes := congrArg (· ++ writes) h.writes }, fun _ he => (nomatch he)⟩

theorem record (h : Alike t₀ t₀' places s s') (level : LogLevel) (text : String) :
    Concurs E (fun _ => Alike t₀ t₀' places) (RunM.log level text) s s' :=
  ⟨rfl, fun _ _ => { h with log := congrArg (· ++ [(⟨level, text⟩ : LogRecord)]) h.log }, fun _ he => (nomatch he)⟩

/-- Work on the files that neither sees nor touches the places. -/
theorem onTree {m : TreeM Failure α} (h : Alike t₀ t₀' places s s')
    (hm : ∀ t : FileTree, t.WellFormed → t.outside places = s.tree.outside places → Blind places m t) :
    Concurs (Alike t₀ t₀' places) (fun a after after' => Alike t₀ t₀' places after after' ∧
      m s.tree = (.ok a, after.tree)) (onTree m) s s' := by
  obtain ⟨hignores, hwf, huntouched⟩ := hm s.tree h.wellFormed rfl
  obtain ⟨hignores', hwf', huntouched'⟩ := hm s'.tree h.wellFormed' h.tree.symm
  rw [Ignores, ← h.tree, hignores, Prod.mk.injEq] at hignores'
  have hafter : Alike t₀ t₀' places { s with tree := (m s.tree).2 } { s' with tree := (m s'.tree).2 } :=
    { h with
      wellFormed := hwf
      wellFormed' := hwf'
      tree := hignores'.2
      untouched := h.untouched.trans huntouched
      untouched' := h.untouched'.trans huntouched' }
  exact ⟨hignores'.1.symm, fun a hok => ⟨hafter, Prod.ext hok rfl⟩, fun _ _ => hafter⟩

/-- Removing what lies at one of the places makes the trees the same there too, unless it is refused. -/
theorem removeAll (h : Alike t₀ t₀' (place :: later) s s') (cwd : WorkingDir)
    (hnames : ∀ name ∈ place, Path.isName name = true) (hne : place ≠ [])
    (hseparate : ∀ other ∈ later, Separate other place) (hplain : s.tree.IsPlain place)
    (hstale : ∀ t ∈ [t₀, t₀'], t.get? place = none ∨ t.get? place = some .directory) :
    Concurs (fun after after' => Refused (FileTree.removeAll cwd (.ofLocation place)) s.tree ∧
      Alike t₀ t₀' (place :: later) after after') (fun _ after after' => Alike t₀ t₀' later after after' ∧
      after.tree = s.tree.outside [place]) (RunM.onTree (FileTree.removeAll cwd (.ofLocation place))) s s' := by
  have hthere : s.tree.get? place = none ∨ s.tree.get? place = some .directory := by
    have hsame := h.untouched place List.mem_cons_self []
    rw [List.append_nil] at hsame
    exact hsame ▸ hstale t₀ (by simp)
  have hthere' : s'.tree.get? place = none ∨ s'.tree.get? place = some .directory := by
    have hsame := h.untouched' place List.mem_cons_self []
    rw [List.append_nil] at hsame
    exact hsame ▸ hstale t₀' (by simp)
  have hplain' : s'.tree.IsPlain place := by
    intro above hpre link hget
    by_cases heq : above = place
    · rw [heq] at hget
      rcases hthere' with hnone | hdir
      · simp [hnone] at hget
      · simp [hdir] at hget
    · have hout : ∀ other ∈ place :: later, ¬ other <+: above := by
        intro other hmem hin
        rcases List.mem_cons.mp hmem with rfl | hmem
        · exact heq (hpre.eq_of_length_le hin.length_le)
        · exact (hseparate other hmem).1 (hin.trans hpre)
      rw [← get?_outside_of_out _ hout, ← h.tree, get?_outside_of_out _ hout] at hget
      exact hplain above hpre link hget
  obtain ⟨outcome, hclean, hrun⟩ := removeAll_outside cwd h.wellFormed hnames hne hplain hthere hseparate
  obtain ⟨outcome', hclean', hrun'⟩ := removeAll_outside cwd h.wellFormed' hnames hne hplain' hthere' hseparate
  rw [h.tree, hclean', Prod.mk.injEq] at hclean
  obtain ⟨rfl, -⟩ := hclean
  rcases hrun with ⟨e, rfl, hrun⟩ | ⟨rfl, hrun⟩
  · rcases hrun' with ⟨_, -, hrun'⟩ | ⟨heq, -⟩
    · refine ⟨by rw [run_onTree, run_onTree, hrun, hrun'], fun a hok => ?_, fun _ _ => ?_⟩
      · rw [run_onTree, hrun] at hok
        cases hok
      · rw [run_onTree, run_onTree, hrun, hrun']
        exact ⟨⟨e, hrun⟩, h⟩
    · cases heq
  · rcases hrun' with ⟨_, heq, -⟩ | ⟨-, hrun'⟩
    · cases heq
    have hkept (t : FileTree) : Untouched later t (t.outside [place]) := fun other hmem rest =>
      get?_outside_of_out t (by simpa using ((hseparate other hmem).symm.append rest).1)
    refine ⟨by rw [run_onTree, run_onTree, hrun, hrun'], fun _ _ => ?_, fun e he => ?_⟩
    · rw [run_onTree, run_onTree, hrun, hrun']
      exact ⟨{ h with
        wellFormed := h.wellFormed.outside _
        wellFormed' := h.wellFormed'.outside _
        tree := by rw [← outside_cons, ← outside_cons, h.tree]
        untouched := (h.untouched.mono (List.subset_cons_self _ _)).trans (hkept _)
        untouched' := (h.untouched'.mono (List.subset_cons_self _ _)).trans (hkept _) }, rfl⟩
    · rw [run_onTree, hrun] at he
      cases he

section

variable {s s' : Session (List Request)} {script : List Request → Behaviour}

/-- A tool that leaves the places alone answers the same. -/
private theorem call (h : Alike t₀ t₀' places s s') (mode : CallMode) (command : ToolCommand)
    {answer : ToolCommand → FileTree → List Request → Reply (List Request) α} (kept : α → Captured)
    (result : Except Failure Captured → Except Failure α)
    (hspares : (script (s.memory ++ [⟨mode, command⟩])).Spares places)
    (hanswer : ∀ t asked, answer command t asked =
      let b := script (asked ++ [⟨mode, command⟩])
      ⟨result b.outcome, b.effect t, asked ++ [⟨mode, command⟩], b.writes⟩) :
    Concurs (Alike t₀ t₀' places) (fun _ => Alike t₀ t₀' places) (RunM.call mode command answer kept) s s' := by
  have hwf := hspares.wellFormed _ h.wellFormed
  have hwf' := hspares.wellFormed _ h.wellFormed'
  have hafter : Alike t₀ t₀' places (RunM.call mode command answer kept s).2
      (RunM.call mode command answer kept s').2 := by
    simp only [RunM.call, hanswer, ← h.memory]
    exact {
      wellFormed := hwf
      wellFormed' := hwf'
      tree := hspares.outside _ _ h.wellFormed h.wellFormed' h.tree
      untouched := h.untouched.trans (hspares.untouched _ h.wellFormed)
      untouched' := h.untouched'.trans (hspares.untouched _ h.wellFormed')
      memory := rfl
      calls := by simp [h.calls, Call.exchange, Call.request]
      log := h.log
      writes := by rw [h.writes] }
  exact ⟨by simp only [RunM.call, hanswer, h.memory], fun _ _ => hafter, fun _ _ => hafter⟩

theorem runTool (h : Alike t₀ t₀' places s s') (command : ToolCommand)
    (hspares : Spares script places (RunM.runTool (.ofScript script) command) s) :
    Concurs (Alike t₀ t₀' places) (fun _ => Alike t₀ t₀' places) (RunM.runTool (.ofScript script) command) s s' := by
  have hcalls : callsMade (RunM.runTool (.ofScript script) command) s = [ran (.ofScript script) command s] := by
    rw [callsMade, calls_runTool, List.drop_left]
  have hasked := hspares [⟨.run, command⟩] (by simp) (by rw [hcalls]; exact List.prefix_rfl)
  refine (h.call .run command _ (Except.map Captured.status) hasked fun _ _ => rfl).bind
    fun status after after' _ hafter => ?_
  cases status.check command with
  | ok => exact .pure hafter
  | error e => exact .throw hafter

theorem captureTool (h : Alike t₀ t₀' places s s') (command : ToolCommand)
    (hspares : Spares script places (RunM.captureTool (.ofScript script) command) s) :
    Concurs (Alike t₀ t₀' places) (fun _ => Alike t₀ t₀' places)
      (RunM.captureTool (.ofScript script) command) s s' := by
  have hcalls : callsMade (RunM.captureTool (.ofScript script) command) s =
      [recorded .capture command (Runner.ofScript script).capture id s] := by
    rw [callsMade, calls_captureTool, List.drop_left]
  have hasked := hspares [⟨.capture, command⟩] (by simp) (by rw [hcalls]; exact List.prefix_rfl)
  refine (h.call .capture command _ id hasked fun _ _ => rfl).bind fun captured after after' _ hafter => ?_
  cases captured.status.check command with
  | ok => exact .pure hafter
  | error e => exact .throw hafter

end

end Alike

/-- Two such sessions, in the trees of which some paths miss the places. -/
def Holding (t₀ t₀' : FileTree) (places : List Location) (paths : List Path) (s s' : Session σ) : Prop :=
  Alike t₀ t₀' places s s' ∧ ∀ path ∈ paths, s.tree.Misses places path

namespace Holding

variable {paths : List Path} {path : Path}

/-- Work that neither sees nor touches the places and puts no link in the way of the paths. -/
private theorem onTree {m : TreeM Failure α} (h : Holding t₀ t₀' places paths s s')
    (hblind : ∀ t : FileTree, t.WellFormed → (∀ path ∈ paths, t.Misses places path) → Blind places m t)
    (hplain : ∀ location, s.tree.IsPlain location → (m s.tree).2.IsPlain location) :
    Concurs (Holding t₀ t₀' places paths) (fun _ => Holding t₀ t₀' places paths) (RunM.onTree m) s s' := by
  obtain ⟨halike, hmisses⟩ := h
  obtain ⟨houtcome, hdone, hfailed⟩ := halike.onTree fun t hwf hsame =>
    hblind t hwf fun path hmem => (hmisses path hmem).congr hsame
  have hmisses' : ∀ path ∈ paths, (m s.tree).2.Misses places path := fun path hmem =>
    ⟨(hmisses path hmem).direct, hplain _ (hmisses path hmem).plain, (hmisses path hmem).out⟩
  exact ⟨houtcome, fun a hok => ⟨(hdone a hok).1, hmisses'⟩, fun e he => ⟨hfailed e he, hmisses'⟩⟩

theorem look {f : FileTree → Except Failure α} (h : Holding t₀ t₀' places paths s s')
    (hf : ∀ t : FileTree, (∀ path ∈ paths, t.Misses places path) → f (t.outside places) = f t) :
    Concurs (Holding t₀ t₀' places paths) (fun _ => Holding t₀ t₀' places paths) (RunM.onTree (TreeM.look f)) s s' :=
  h.onTree (fun t hwf hmisses => .look hwf (hf t hmisses)) fun location hplain => by rwa [TreeM.run_look]

private theorem isPlain_write {t : FileTree} {content : Bytes} {location : Location} (cwd : WorkingDir)
    (hwf : t.WellFormed) (h : t.Misses places path) (hplain : t.IsPlain location) :
    (write cwd path content t).2.IsPlain location := by
  rcases write_at cwd content hwf h.direct h.plain with ⟨e, hrun⟩ | ⟨is, hrun, hne, -⟩ <;> rw [hrun]
  · exact hplain
  · exact isPlain_set hplain hne rfl

theorem write (h : Holding t₀ t₀' places paths s s') (hmem : path ∈ paths) (cwd : WorkingDir) (content : Bytes)
    (describe : SystemError → Failure) :
    Concurs (Holding t₀ t₀' places paths) (fun _ => Holding t₀ t₀' places paths)
      (RunM.onTree ((FileTree.write cwd path content).describe describe)) s s' :=
  h.onTree (fun _ hwf hmisses => (blind_write cwd content hwf (hmisses path hmem)).describe _)
    fun _ => isPlain_write cwd h.1.wellFormed (h.2 path hmem)

theorem tryWrite (h : Holding t₀ t₀' places paths s s') (hmem : path ∈ paths) (cwd : WorkingDir) (content : Bytes) :
    Concurs (Holding t₀ t₀' places paths) (fun _ => Holding t₀ t₀' places paths)
      (RunM.onTree (TreeM.attempt (FileTree.write cwd path content))) s s' :=
  h.onTree (fun _ hwf hmisses => (blind_write cwd content hwf (hmisses path hmem)).attempt)
    fun _ => isPlain_write cwd h.1.wellFormed (h.2 path hmem)

theorem tryUnlink (h : Holding t₀ t₀' places paths s s') (hmem : path ∈ paths) (cwd : WorkingDir) :
    Concurs (Holding t₀ t₀' places paths) (fun _ => Holding t₀ t₀' places paths)
      (RunM.onTree (TreeM.attempt (unlink cwd path))) s s' := by
  refine h.onTree (fun _ hwf hmisses => (blind_unlink cwd hwf (hmisses path hmem)).attempt) fun location hplain => ?_
  have hmisses := h.2 path hmem
  rw [TreeM.run_attempt]
  rcases unlink_at cwd h.1.wellFormed hmisses.direct hmisses.plain with ⟨e, hrun⟩ | ⟨hrun, hne, -⟩ <;> rw [hrun]
  · exact hplain
  · exact isPlain_erase hplain hne

end Holding

namespace Manifest.Guard

variable {g : Guard} {manifest : Path} {version : String}

theorem drop_concurs (h : Holding t₀ t₀' places [g.manifest, g.backup] s s') (cwd : WorkingDir) :
    Concurs (Holding t₀ t₀' places [g.manifest, g.backup]) (fun _ => Holding t₀ t₀' places [g.manifest, g.backup])
      (drop cwd g) s s' := by
  refine (h.tryWrite List.mem_cons_self cwd g.content).bind fun outcome after after' _ hafter => ?_
  cases outcome with
  | ok => exact (hafter.tryUnlink (by simp) cwd).bind fun _ _ _ _ h => .pure h
  | error e =>
    exact ⟨rfl, fun _ _ => ⟨(hafter.1.record (E := fun _ _ => True) _ _).done () rfl, hafter.2⟩,
      fun _ he => (nomatch he)⟩

theorem restore_concurs (h : Holding t₀ t₀' places [g.manifest, g.backup] s s') (cwd : WorkingDir) :
    Concurs (Holding t₀ t₀' places [g.manifest, g.backup]) (fun _ => Holding t₀ t₀' places [g.manifest, g.backup])
      (restore cwd g) s s' := by
  refine (h.tryWrite List.mem_cons_self cwd g.content).bind fun outcome after after' _ hafter => ?_
  cases outcome with
  | error e => exact (drop_concurs hafter cwd).bind fun _ _ _ _ h => .throw h
  | ok =>
    have hbackup : g.backup ∈ [g.manifest, g.backup] := by simp
    refine (hafter.tryUnlink hbackup cwd).bind fun outcome _ _ _ hremoved => ?_
    cases outcome with
    | ok => exact .pure hremoved
    | error e =>
      dsimp only
      split
      · exact .pure hremoved
      · exact .throw hremoved

private theorem prepare_outside (cwd : WorkingDir) {t : FileTree}
    (h : ∀ path ∈ [manifest, backupOf manifest], t.Misses places path) :
    prepare cwd manifest version (t.outside places) = prepare cwd manifest version t := by
  rw [prepare, prepare, (h manifest (by simp)).read, (h (backupOf manifest) (by simp)).exists?]

theorem acquire_concurs (h : Holding t₀ t₀' places [manifest, backupOf manifest] s s') (cwd : WorkingDir) :
    Concurs (Holding t₀ t₀' places [manifest, backupOf manifest]) (fun g after after' => g.manifest = manifest ∧
      Holding t₀ t₀' places [manifest, backupOf manifest] after after') (acquire cwd manifest version) s s' := by
  refine (h.look fun t => prepare_outside cwd).bind fun ⟨content, versioned⟩ _ _ _ hprepared => ?_
  have hbackup : backupOf manifest ∈ [manifest, backupOf manifest] := by simp
  refine (hprepared.write hbackup cwd content _).bind fun _ _ _ _ hbacked => ?_
  have hmanifest : manifest ∈ [manifest, backupOf manifest] := List.mem_cons_self
  refine (hbacked.tryWrite hmanifest cwd versioned).bind fun outcome _ _ _ hwritten => ?_
  cases outcome with
  | ok => exact .pure ⟨rfl, hwritten⟩
  | error e => exact (drop_concurs (g := ⟨manifest, content⟩) hwritten cwd).bind fun _ _ _ _ h => .throw h

end Manifest.Guard

end DebRelease
