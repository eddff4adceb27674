import DebRelease.Proofs.FileTree.Stale
import DebRelease.Proofs.Run.Passage

namespace DebRelease

open RunM

/-- What a tool does when it is asked. -/
structure Behaviour where
  outcome : Except Failure Captured
  effect : FileTree → FileTree
  writes : List Write

/-- Tools that remember what has been asked of them and go by that alone. -/
def Runner.ofScript (script : List Request → Behaviour) : Runner (List Request) where
  run command t asked :=
    let asked := asked ++ [⟨.run, command⟩]
    let b := script asked
    ⟨b.outcome.map Captured.status, b.effect t, asked, b.writes⟩
  capture command t asked :=
    let asked := asked ++ [⟨.capture, command⟩]
    let b := script asked
    ⟨b.outcome, b.effect t, asked, b.writes⟩

/-- A tool leaves alone what lies at or below some places: it does not change that, and it does not go by it. -/
structure Behaviour.Spares (b : Behaviour) (places : List Location) : Prop where
  wellFormed : ∀ t, t.WellFormed → (b.effect t).WellFormed
  untouched : ∀ t, t.WellFormed → FileTree.Untouched places t (b.effect t)
  /-- Trees that are the same elsewhere are the same elsewhere after it. -/
  outside : ∀ t t', t.WellFormed → t'.WellFormed → t.outside places = t'.outside places →
    (b.effect t).outside places = (b.effect t').outside places

/-- What a computation asks of tools that go by a script: they remember just that. -/
def RunM.Records {α : Type} (m : RunM (List Request) α) : Prop :=
  ∀ s, ∃ made, (m s).2.calls = s.calls ++ made ∧ (m s).2.memory = s.memory ++ made.map Call.request

namespace RunM

variable {α β : Type} {m : RunM (List Request) α} {f : α → RunM (List Request) β} {s after : Session (List Request)}
    {script : List Request → Behaviour}

/-- The calls that a computation makes. -/
def callsMade (m : RunM (List Request) α) (s : Session (List Request)) : List Call :=
  (m s).2.calls.drop s.calls.length

namespace Records

theorem of_silent (h : ∀ s, (m s).2.calls = s.calls ∧ (m s).2.memory = s.memory) : Records m :=
  fun s => ⟨[], by simp [h s]⟩

theorem pure (a : α) : Records (pure a : RunM (List Request) α) := of_silent fun _ => ⟨rfl, rfl⟩

theorem throw (e : Failure) : Records (throw e : RunM (List Request) α) := of_silent fun _ => ⟨rfl, rfl⟩

theorem onTree (m : TreeM Failure α) : Records (onTree m) := of_silent fun _ => ⟨rfl, rfl⟩

theorem emit (writes : List Write) : Records (emit writes) := of_silent fun _ => ⟨rfl, rfl⟩

theorem log (level : LogLevel) (text : String) : Records (log level text) := of_silent fun _ => ⟨rfl, rfl⟩

theorem attempt (h : Records m) : Records (attempt m) := h

theorem bind (hm : Records m) (hf : ∀ a, Records (f a)) : Records (m >>= f) := by
  intro s
  obtain ⟨made, hcalls, hmemory⟩ := hm s
  rw [run_bind]
  cases hrun : m s with
  | mk outcome after =>
    rw [hrun] at hcalls hmemory
    cases outcome with
    | error e => exact ⟨made, hcalls, hmemory⟩
    | ok a =>
      obtain ⟨made', hcalls', hmemory'⟩ := hf a after
      dsimp only at hcalls hmemory ⊢
      exact ⟨made ++ made', by rw [hcalls', hcalls, List.append_assoc],
        by rw [hmemory', hmemory, List.map_append, List.append_assoc]⟩

theorem runTool (script : List Request → Behaviour) (command : ToolCommand) :
    Records (runTool (.ofScript script) command) := by
  have hcall : Records (call .run command (Runner.ofScript script).run fun status => ⟨status, ""⟩) :=
    fun s => ⟨_, rfl, rfl⟩
  refine hcall.bind fun status => ?_
  cases status.check command with
  | ok => exact pure _
  | error e => exact throw e

theorem captureTool (script : List Request → Behaviour) (command : ToolCommand) :
    Records (captureTool (.ofScript script) command) := by
  have hcall : Records (call .capture command (Runner.ofScript script).capture id) := fun s => ⟨_, rfl, rfl⟩
  refine hcall.bind fun captured => ?_
  cases captured.status.check command with
  | ok => exact pure _
  | error e => exact throw e

theorem guardDrop (cwd : WorkingDir) (g : Manifest.Guard) : Records (Manifest.Guard.drop cwd g) := by
  refine (onTree _).bind fun outcome => ?_
  cases outcome with
  | ok => exact (onTree _).bind fun _ => pure _
  | error e => exact log _ _

theorem guardRestore (cwd : WorkingDir) (g : Manifest.Guard) : Records (Manifest.Guard.restore cwd g) := by
  refine (onTree _).bind fun outcome => ?_
  cases outcome with
  | error e => exact (guardDrop cwd g).bind fun _ => throw _
  | ok =>
    refine (onTree _).bind fun outcome => ?_
    cases outcome with
    | ok => exact pure _
    | error e =>
      dsimp only
      split
      · exact pure _
      · exact throw _

theorem guardAcquire (cwd : WorkingDir) (manifest : Path) (version : String) :
    Records (Manifest.Guard.acquire cwd manifest version) := by
  refine (onTree _).bind fun ⟨content, versioned⟩ => (onTree _).bind fun _ => (onTree _).bind fun outcome => ?_
  cases outcome with
  | ok => exact pure _
  | error e => exact (guardDrop cwd _).bind fun _ => throw _

/-- What follows does not take back the calls of what comes first. -/
theorem callsMade_left (hm : Records m) (hf : ∀ a, Records (f a)) (s : Session (List Request)) :
    callsMade m s <+: callsMade (m >>= f) s := by
  obtain ⟨made, hcalls, -⟩ := hm s
  rw [callsMade, callsMade, run_bind, hcalls, List.drop_left]
  cases hrun : m s with
  | mk outcome after =>
    rw [hrun] at hcalls
    cases outcome with
    | error e =>
      dsimp only at hcalls ⊢
      rw [hcalls, List.drop_left]
    | ok a =>
      obtain ⟨made', hcalls', -⟩ := hf a after
      dsimp only at hcalls ⊢
      rw [hcalls', hcalls, List.append_assoc, List.drop_left]
      exact List.prefix_append _ _

/-- The calls of a computation that succeeds come before those of what follows. -/
theorem callsMade_bind {a : α} (hm : Records m) (hf : ∀ a, Records (f a)) (hrun : m s = (.ok a, after)) :
    callsMade (m >>= f) s = callsMade m s ++ callsMade (f a) after ∧
      after.memory = s.memory ++ (callsMade m s).map Call.request := by
  obtain ⟨made, hcalls, hmemory⟩ := hm s
  obtain ⟨made', hcalls', -⟩ := hf a after
  rw [hrun] at hcalls hmemory
  dsimp only at hcalls hmemory
  rw [callsMade, callsMade, callsMade, run_bind, hrun]
  dsimp only
  rw [hcalls', hcalls, List.append_assoc, List.drop_left, List.drop_left, ← List.append_assoc, List.drop_left]
  exact ⟨rfl, hmemory⟩

theorem callsMade_right {a : α} (hm : Records m) (hf : ∀ a, Records (f a)) (hrun : m s = (.ok a, after)) :
    callsMade (f a) after ⊆ callsMade (m >>= f) s := by
  rw [(hm.callsMade_bind hf hrun).1]
  exact List.subset_append_right _ _

end Records

/-- The tools that a computation asks leave alone what lies at or below some places, each when it is asked. -/
def Spares (script : List Request → Behaviour) (places : List Location) (m : RunM (List Request) α)
    (s : Session (List Request)) : Prop :=
  ∀ asked, asked ≠ [] → asked <+: (callsMade m s).map Call.request → (script (s.memory ++ asked)).Spares places

namespace Spares

variable {places : List Location}

theorem left (h : Spares script places (m >>= f) s) (hm : Records m) (hf : ∀ a, Records (f a)) :
    Spares script places m s :=
  fun asked hne hpre => h asked hne (hpre.trans ((hm.callsMade_left hf s).map _))

theorem right {a : α} (h : Spares script places (m >>= f) s) (hm : Records m) (hf : ∀ a, Records (f a))
    (hrun : m s = (.ok a, after)) : Spares script places (f a) after := by
  obtain ⟨hcalls, hmemory⟩ := hm.callsMade_bind hf hrun
  intro asked hne hpre
  rw [hmemory, List.append_assoc]
  refine h _ (by simp [hne]) ?_
  rw [hcalls, List.map_append]
  exact (List.prefix_append_right_inj _).mpr hpre

end Spares

end RunM

/-- An entry put at a place, if it may be there and nothing is. -/
def FileTree.supply (t : FileTree) (item : Location × Entry) : FileTree :=
  if t.get? item.1 = none ∧ t.isListable item = true then t.set item.1 item.2 else t

theorem FileTree.WellFormed.supply {t : FileTree} (h : t.WellFormed) (item : Location × Entry) :
    (t.supply item).WellFormed := by
  rw [FileTree.supply]
  split
  · rename_i hfree
    obtain ⟨hnone, hlistable⟩ := hfree
    obtain hnil | ⟨dir, name, hplace⟩ := List.eq_nil_or_concat item.1
    · simp [hnil] at hnone
    rw [List.concat_eq_append] at hplace
    simp only [isListable, hplace, List.getLast?_concat, List.dropLast_concat, Bool.and_eq_true, decide_eq_true_eq]
      at hlistable
    obtain ⟨⟨hname, hdir⟩, hlink⟩ := hlistable
    rw [hplace] at hnone ⊢
    refine h.set hdir hname (by simp [hnone]) fun target heq => ?_
    simpa [heq] using hlink
  · exact h

/-- Putting an entry elsewhere is the same whatever lies at or below some places. -/
theorem FileTree.outside_supply (t : FileTree) {places : List Location} {item : Location × Entry}
    (h : ∀ place ∈ places, ¬ place <+: item.1) : (t.supply item).outside places = (t.outside places).supply item := by
  have hdir : (t.outside places).get? item.1.dropLast = t.get? item.1.dropLast :=
    get?_outside_of_out t fun place hmem hpre => h place hmem (hpre.trans (List.dropLast_prefix _))
  have hlistable : (t.outside places).isListable item = t.isListable item := by rw [isListable, isListable, hdir]
  rw [supply, supply, hlistable, get?_outside_of_out t h]
  split
  · exact outside_set t item.2 h
  · rfl

/-- Tools that succeed, of which some put an entry at a place. -/
def making (edits : List (String × Location × Entry)) (asked : List Request) : Behaviour where
  outcome := .ok ⟨.ok, "daemon.spec"⟩
  effect t :=
    ((asked.getLast?.bind fun request => edits.find? fun edit => edit.1 = request.command.program).map
      fun edit => t.supply edit.2).getD t
  writes := []

/-- Tools leave alone the places that they put nothing at or below. -/
theorem RunM.spares_making {α : Type} {edits : List (String × Location × Entry)} {places : List Location}
    {m : RunM (List Request) α} {s : Session (List Request)}
    (h : ∀ call ∈ callsMade m s, ∀ edit ∈ edits, edit.1 = call.command.program →
      ∀ place ∈ places, ¬ place <+: edit.2.1) :
    RunM.Spares (making edits) places m s := by
  intro asked hne hpre
  obtain ⟨before, request, rfl⟩ := (List.eq_nil_or_concat asked).resolve_left hne
  rw [List.concat_eq_append] at hpre ⊢
  obtain ⟨call, hcall, rfl⟩ := List.mem_map.mp (hpre.subset (List.mem_append_right _ (List.mem_singleton_self _)))
  rw [← List.append_assoc]
  cases hfind : edits.find? fun edit => edit.1 = call.request.command.program with
  | none =>
    have heffect : (making edits (s.memory ++ before ++ [call.request])).effect = id := by
      funext t
      simp [making, hfind]
    exact ⟨fun t hwf => by rwa [heffect], fun t _ => by rw [heffect]; exact .refl _ _,
      fun _ _ _ _ hsame => by rwa [heffect]⟩
  | some edit =>
    have heffect : (making edits (s.memory ++ before ++ [call.request])).effect = (FileTree.supply · edit.2) := by
      funext t
      simp [making, hfind]
    have hprogram := List.find?_some hfind
    rw [decide_eq_true_eq] at hprogram
    have hout := h call hcall edit (List.mem_of_find?_eq_some hfind) hprogram
    refine ⟨fun t hwf => ?_, fun t hwf place hmem rest => ?_, fun t t' hwf hwf' hsame => ?_⟩
    · rw [heffect]
      exact hwf.supply _
    · simp only [heffect, FileTree.supply]
      split
      · rename_i hfree
        refine FileTree.get?_set_of_ne _ _ (fun hnil => ?_) fun heq => hout place hmem (heq ▸ List.prefix_append _ _)
        simp [hnil] at hfree
      · rfl
    · simp only [heffect]
      rw [FileTree.outside_supply t hout, FileTree.outside_supply t' hout, hsame]

end DebRelease
