import DebRelease.Proofs.Run.Preserve

namespace DebRelease

open FileTree

/-- Nothing changes but what lies at or below some places and what lies at some spots, and that directories above the
    places are made. -/
def FileTree.ChangesOnly (places spots : List Location) (t t' : FileTree) : Prop :=
  ∀ location, (∀ place ∈ places, ¬ place <+: location) → location ∉ spots →
    t'.get? location = t.get? location ∨
      t.get? location = none ∧ t'.get? location = some .directory ∧ ∃ place ∈ places, location <+: place

/-- The trees between which a run works by itself: from a first one up to the first call, from the tree that each call
    leaves up to the next call, and from there to a last one. -/
def spans : FileTree → List Call → FileTree → List (FileTree × FileTree)
  | first, [], last => [(first, last)]
  | first, call :: calls, last => (first, call.tree) :: spans call.after calls last

variable {σ α β : Type} {places spots : List Location} {t t' t'' : FileTree} {location : Location}
    {calls calls' : List Call}

namespace FileTree.ChangesOnly

theorem refl (places spots : List Location) (t : FileTree) : ChangesOnly places spots t t :=
  fun _ _ _ => .inl rfl

theorem trans (h : ChangesOnly places spots t t') (h' : ChangesOnly places spots t' t'') :
    ChangesOnly places spots t t'' := by
  intro location hout hspot
  rcases h' location hout hspot with hsame' | ⟨hnone', hmade', habove⟩
  · rw [hsame']
    exact h location hout hspot
  · rcases h location hout hspot with hsame | ⟨-, hmade, -⟩
    · exact .inr ⟨hsame ▸ hnone', hmade', habove⟩
    · rw [hmade] at hnone'
      cases hnone'

theorem of_within (h : Within places t t') (spots : List Location) : ChangesOnly places spots t t' :=
  fun location hout _ => h location hout

theorem mono {places' spots' : List Location} (h : ChangesOnly places spots t t') (hplaces : places ⊆ places')
    (hspots : spots ⊆ spots') : ChangesOnly places' spots' t t' := by
  intro location hout hspot
  refine (h location (fun place hmem => hout place (hplaces hmem)) fun hmem => hspot (hspots hmem)).imp_right ?_
  rintro ⟨hnone, hmade, place, hmem, habove⟩
  exact ⟨hnone, hmade, place, hplaces hmem, habove⟩

theorem of_same (h : ∀ location ∉ spots, t'.get? location = t.get? location) (places : List Location) :
    ChangesOnly places spots t t' :=
  fun location _ hspot => .inl (h location hspot)

/-- What is neither at, below or above the places nor at the spots stays as it is. -/
theorem get?_eq (h : ChangesOnly places spots t t')
    (hout : ∀ place ∈ places, ¬ place <+: location ∧ ¬ location <+: place) (hspot : location ∉ spots) :
    t'.get? location = t.get? location := by
  rcases h location (fun place hmem => (hout place hmem).1) hspot with hsame | ⟨-, -, place, hmem, habove⟩
  · exact hsame
  · exact absurd habove (hout place hmem).2

end FileTree.ChangesOnly

/-- Work that leads on from other work, if each is confined between its calls, is so across them. -/
theorem forall_spans_append (h : ∀ span ∈ spans t calls t', ChangesOnly places spots span.1 span.2)
    (h' : ∀ span ∈ spans t' calls' t'', ChangesOnly places spots span.1 span.2) :
    ∀ span ∈ spans t (calls ++ calls') t'', ChangesOnly places spots span.1 span.2 := by
  induction calls generalizing t with
  | nil =>
    -- The last span of the one work and the first of the other become one.
    have hfirst := h (t, t') (List.mem_singleton_self _)
    cases calls' with
    | nil =>
      rintro span hmem
      rw [List.mem_singleton.mp hmem]
      exact hfirst.trans (h' (t', t'') (List.mem_singleton_self _))
    | cons call calls' =>
      rw [spans, List.forall_mem_cons] at h'
      rw [List.nil_append, spans, List.forall_mem_cons]
      exact ⟨hfirst.trans h'.1, h'.2⟩
  | cons call calls ih =>
    rw [spans, List.forall_mem_cons] at h
    rw [List.cons_append, spans, List.forall_mem_cons]
    exact ⟨h.1, ih h.2⟩

/-- What is changed across calls but not between them is changed by one of the calls. -/
theorem changed_by_call (h : ∀ span ∈ spans t calls t', span.2.get? location = span.1.get? location)
    (hchanged : t'.get? location ≠ t.get? location) :
    ∃ call ∈ calls, call.after.get? location ≠ call.tree.get? location := by
  induction calls generalizing t with
  | nil => exact absurd (h (t, t') (List.mem_singleton_self _)) hchanged
  | cons call calls ih =>
    rw [spans, List.forall_mem_cons] at h
    by_cases hcall : call.after.get? location = call.tree.get? location
    · obtain ⟨later, hmem, hlater⟩ := ih h.2 fun hsame => hchanged (hsame.trans (hcall.trans h.1))
      exact ⟨later, List.mem_cons_of_mem _ hmem, hlater⟩
    · exact ⟨call, List.mem_cons_self, hcall⟩

namespace RunM

/-- From `s` on a computation leaves a tree that a file system can hold, and between the calls that it makes it changes
    nothing but what lies at or below some places and at some spots, and makes directories above the places. -/
structure Confined (places spots : List Location) (m : RunM σ α) (s : Session σ) : Prop where
  wellFormed : (m s).2.tree.WellFormed
  work : ∃ made, (m s).2.calls = s.calls ++ made ∧
    ∀ span ∈ spans s.tree made (m s).2.tree, ChangesOnly places spots span.1 span.2

namespace Confined

variable {m : RunM σ α} {f : α → RunM σ β} {s : Session σ} {tools : Runner σ}

/-- Work without calls. -/
theorem of_changes (hwf : (m s).2.tree.WellFormed) (hcalls : (m s).2.calls = s.calls)
    (h : ChangesOnly places spots s.tree (m s).2.tree) : Confined places spots m s :=
  ⟨hwf, [], by rw [hcalls, List.append_nil], by simpa [spans] using h⟩

/-- Neither calls nor changes. -/
theorem of_still (hwf : s.tree.WellFormed) (hcalls : (m s).2.calls = s.calls) (htree : (m s).2.tree = s.tree) :
    Confined places spots m s :=
  of_changes (htree ▸ hwf) hcalls (htree ▸ .refl places spots s.tree)

theorem pure (hwf : s.tree.WellFormed) (a : α) : Confined places spots (pure a) s := of_still hwf rfl rfl

theorem throw (hwf : s.tree.WellFormed) (e : Failure) : Confined places spots (throw e : RunM σ α) s :=
  of_still hwf rfl rfl

theorem emit (hwf : s.tree.WellFormed) (writes : List Write) : Confined places spots (RunM.emit writes) s :=
  of_still hwf rfl rfl

theorem log (hwf : s.tree.WellFormed) (level : LogLevel) (text : String) :
    Confined places spots (RunM.log level text) s :=
  of_still hwf rfl rfl

theorem bind (hm : Confined places spots m s)
    (hf : ∀ a after, m s = (.ok a, after) → after.tree.WellFormed → Confined places spots (f a) after) :
    Confined places spots (m >>= f) s := by
  obtain ⟨hwf, made, hcalls, hspans⟩ := hm
  cases hrun : m s with
  | mk outcome after =>
    rw [hrun] at hwf hcalls hspans
    dsimp only at hcalls hspans
    cases outcome with
    | error e =>
      have hbind : (m >>= f) s = (.error e, after) := by rw [run_bind, hrun]
      exact ⟨by rwa [hbind], made, by rwa [hbind], by rwa [hbind]⟩
    | ok a =>
      have hbind : (m >>= f) s = f a after := by rw [run_bind, hrun]
      obtain ⟨hwf', made', hcalls', hspans'⟩ := hf a after hrun hwf
      refine ⟨by rwa [hbind], made ++ made', ?_, ?_⟩
      · rw [hbind, hcalls', hcalls, List.append_assoc]
      · rw [hbind]
        exact forall_spans_append hspans hspans'

theorem attempt (h : Confined places spots m s) : Confined places spots (attempt m) s := ⟨h.wellFormed, h.work⟩

theorem inStage (h : Confined places spots m s) (stage : String) :
    Confined places spots (Pipeline.inStage stage m) s :=
  ⟨h.wellFormed, h.work⟩

/-- What a tool does is not the run's work. -/
private theorem call {mode : CallMode} {command : ToolCommand} {answer : ToolCommand → FileTree → σ → Reply σ α}
    {kept : α → Captured} (hwf : (answer command s.tree s.memory).tree.WellFormed) :
    Confined places spots (call mode command answer kept) s := by
  refine ⟨hwf, [recorded mode command answer kept s], rfl, ?_⟩
  rw [spans, spans, List.forall_mem_cons, List.forall_mem_singleton]
  exact ⟨.refl places spots _, .refl places spots _⟩

theorem runTool (hwf : s.tree.WellFormed) (htools : tools.Preserves WellFormed) (command : ToolCommand) :
    Confined places spots (runTool tools command) s := by
  refine (call (htools command s.tree s.memory hwf).1).bind fun status after _ hwf' => ?_
  cases status.check command with
  | ok => exact .pure hwf' _
  | error e => exact .throw hwf' e

theorem captureTool (hwf : s.tree.WellFormed) (htools : tools.Preserves WellFormed) (command : ToolCommand) :
    Confined places spots (captureTool tools command) s := by
  refine (call (htools command s.tree s.memory hwf).2).bind fun captured after _ hwf' => ?_
  cases captured.status.check command with
  | ok => exact .pure hwf' _
  | error e => exact .throw hwf' e

/-- What changes elsewhere, a tool changes. -/
theorem changed_by_tool (h : Confined places spots m s)
    (hout : ∀ place ∈ places, ¬ place <+: location ∧ ¬ location <+: place) (hspot : location ∉ spots)
    (hchanged : (m s).2.tree.get? location ≠ s.tree.get? location) :
    ∃ call ∈ (m s).2.calls.drop s.calls.length, call.after.get? location ≠ call.tree.get? location := by
  obtain ⟨-, made, hcalls, hspans⟩ := h
  rw [hcalls, List.drop_left]
  exact changed_by_call (fun span hmem => (hspans span hmem).get?_eq hout hspot) hchanged

end Confined

end RunM

end DebRelease
