import DebRelease.Proofs.Run.Order

namespace DebRelease

variable {σ : Type}

/-- A stage that begins. -/
structure Beginning (σ : Type) where
  stage : Stage
  later : List Stage
  session : Session σ

namespace Pipeline

/-- The calls that a stage makes. -/
def callsOf (p : Pipeline σ) (b : Beginning σ) : List Call :=
  (perform p b.stage.action b.session).2.calls.drop b.session.calls.length

/-- The stages that begin when stages are performed one after another, up to the first that fails. -/
def stagesBegun (p : Pipeline σ) (total : Nat) : Nat → List Stage → Session σ → List (Beginning σ)
  | _, [], _ => []
  | number, stage :: stages, s =>
    ⟨stage, stages, announced p total number stage s⟩ ::
      match perform p stage.action (announced p total number stage s) with
      | (.ok _, after) => stagesBegun p total (number + 1) stages after
      | (.error _, _) => []

/-- The stages that begin in a run. -/
def begun (p : Pipeline σ) (value : Option String) (s : Session σ) : List (Beginning σ) :=
  match resolveVersion p value (opened p s) with
  | (.ok version, ready) => stagesBegun p (p.config.plan version).length 1 (p.config.plan version) ready
  | (.error _, _) => []

variable {p : Pipeline σ} {total number : Nat} {stage : Stage} {stages before after : List Stage} {s : Session σ}
    {b b' : Beginning σ} {value : Option String}

theorem mem_stagesBegun_cons : b ∈ stagesBegun p total number (stage :: stages) s ↔
    b = ⟨stage, stages, announced p total number stage s⟩ ∨ ∃ found reached,
      perform p stage.action (announced p total number stage s) = (.ok found, reached) ∧
        b ∈ stagesBegun p total (number + 1) stages reached := by
  rw [stagesBegun, List.mem_cons]
  refine or_congr_right ?_
  obtain ⟨outcome, reached⟩ := perform p stage.action (announced p total number stage s)
  constructor
  · intro hmem
    cases outcome with
    | ok found => exact ⟨found, reached, rfl, hmem⟩
    | error e => cases hmem
  · rintro ⟨found, reached, ⟨⟩, hmem⟩
    exact hmem

/-- The stages that begin are those to be performed, in their order. -/
theorem suffix_of_mem_stagesBegun (h : b ∈ stagesBegun p total number stages s) : b.stage :: b.later <:+ stages := by
  induction stages generalizing number s with
  | nil => cases h
  | cons stage stages ih =>
    rcases mem_stagesBegun_cons.mp h with rfl | ⟨found, reached, -, hmem⟩
    · exact List.suffix_rfl
    · exact (ih hmem).trans (List.suffix_cons _ _)

/-- Where a stage begins that comes after another, the other has begun and succeeded. -/
theorem begun_before (h : b ∈ stagesBegun p total number (before ++ stage :: after) s)
    (hlater : b.later.length < after.length) :
    ∃ number' session found reached, ⟨stage, after, session⟩ ∈ stagesBegun p total number (before ++ stage :: after) s ∧
      perform p stage.action session = (.ok found, reached) ∧ b ∈ stagesBegun p total number' after reached := by
  induction before generalizing number s with
  | nil =>
    rcases mem_stagesBegun_cons.mp h with rfl | ⟨found, reached, hperform, hmem⟩
    · exact absurd hlater (Nat.lt_irrefl _)
    · exact ⟨_, _, found, reached, List.mem_cons_self, hperform, hmem⟩
  | cons first before ih =>
    rcases mem_stagesBegun_cons.mp h with rfl | ⟨found, reached, hperform, hmem⟩
    · change (before ++ stage :: after).length < _ at hlater
      simp only [List.length_append, List.length_cons] at hlater
      omega
    · obtain ⟨number', session, found', reached', hbegun, hstage, hafter⟩ := ih hmem
      exact ⟨number', session, found', reached',
        mem_stagesBegun_cons.mpr (.inr ⟨found, reached, hperform, hbegun⟩), hstage, hafter⟩

/-- A stage that begins after the first begins in what the first leaves. -/
theorem begun_after (h : b ∈ stagesBegun p total number (stage :: stages) s) (hlater : b.later.length < stages.length) :
    ∃ found reached, perform p stage.action (announced p total number stage s) = (.ok found, reached) ∧
      b ∈ stagesBegun p total (number + 1) stages reached := by
  rcases mem_stagesBegun_cons.mp h with rfl | hrest
  · exact absurd hlater (Nat.lt_irrefl _)
  · exact hrest

/-- The state in which a stage begins is determined by the stages that are to follow. -/
theorem begun_unique (h : b ∈ stagesBegun p total number stages s) (h' : b' ∈ stagesBegun p total number stages s)
    (hlater : b.later = b'.later) : b = b' := by
  induction stages generalizing number s with
  | nil => cases h
  | cons stage stages ih =>
    rcases mem_stagesBegun_cons.mp h with rfl | ⟨found, reached, hperform, hmem⟩
    · rcases mem_stagesBegun_cons.mp h' with rfl | ⟨_, _, -, hmem'⟩
      · rfl
      · have hlength := (suffix_of_mem_stagesBegun hmem').length_le
        rw [← hlater, List.length_cons] at hlength
        exact absurd hlength (Nat.not_succ_le_self _)
    · rcases mem_stagesBegun_cons.mp h' with rfl | ⟨_, _, hperform', hmem'⟩
      · have hlength := (suffix_of_mem_stagesBegun hmem).length_le
        rw [hlater, List.length_cons] at hlength
        exact absurd hlength (Nat.not_succ_le_self _)
      · rw [hperform] at hperform'
        cases hperform'
        exact ih hmem hmem'

/-- A stage that begins in a run is one of its plan, for the version that was resolved. -/
theorem mem_begun : b ∈ begun p value s ↔ ∃ version ready, resolveVersion p value (opened p s) = (.ok version, ready) ∧
    b ∈ stagesBegun p (p.config.plan version).length 1 (p.config.plan version) ready := by
  rw [begun]
  obtain ⟨outcome, ready⟩ := resolveVersion p value (opened p s)
  constructor
  · intro hmem
    cases outcome with
    | ok version => exact ⟨version, ready, rfl, hmem⟩
    | error e => cases hmem
  · rintro ⟨version, ready, ⟨⟩, hmem⟩
    exact hmem

end Pipeline

end DebRelease
