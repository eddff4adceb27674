import DebRelease.Proofs.Program.Preparation
import DebRelease.Tool.Launcher

namespace DebRelease

namespace Failure

@[simp] theorem exitCode_atStage (name : String) (cause : Failure) :
    (cause.atStage name).exitCode = cause.exitCode := by
  cases cause <;> rfl

/-- No failure has the exit code of success, a tool that failed with the exit code 0 included. -/
theorem exitCode_ne_zero (cause : Failure) : cause.exitCode ≠ 0 := by
  induction cause with
  | context text source ih => exact ih
  | inStage stage source ih => exact ih
  | toolFailed program code =>
    cases code with
    | none => exact Int.one_ne_zero
    | some code =>
      rw [exitCode]
      split
      · exact Int.one_ne_zero
      · assumption
  | _ => simp [exitCode, unavailable]

/-- Remarks and stages around a failure leave its exit code as it is. -/
theorem exitCode_innermost (cause : Failure) : cause.innermost.exitCode = cause.exitCode := by
  induction cause with
  | context text source ih => exact ih
  | inStage stage source ih => exact ih
  | _ => rfl

end Failure

theorem ReleaseError.exitCode_ne_zero (e : ReleaseError) : e.exitCode ≠ 0 := by
  cases e with
  | pipeline cause => exact cause.exitCode_ne_zero
  | _ => exact Int.one_ne_zero

namespace Call

/-- The exit code that a call gives the program, unless the tool did its work: that of the tool, 1 for a
    signal, 127 for a tool that was not found or could not be launched. Tools that answer with another failure
    give the exit code of that. -/
def exitCode? (call : Call) : Option Int :=
  match call.answer with
  | .ok ⟨⟨some code⟩, _⟩ => if code = 0 then none else some code
  | .ok ⟨⟨none⟩, _⟩ => some 1
  | .error (.toolNotFound _) | .error (.launch ..) => some 127
  | .error cause => some cause.exitCode

theorem exitCode?_eq_map (call : Call) : call.exitCode? = call.failure?.map Failure.exitCode := by
  rw [exitCode?, failure?]
  split
  · rename_i code _ hanswer
    by_cases hzero : code = 0 <;>
      simp [hanswer, ToolStatus.success, hzero, Failure.exitCode]
  · rename_i hanswer
    simp [hanswer, ToolStatus.success, Failure.exitCode]
  · rename_i hanswer
    simp [hanswer, Failure.exitCode, Failure.unavailable]
  · rename_i hanswer
    simp [hanswer, Failure.exitCode, Failure.unavailable]
  · rename_i hanswer
    simp [hanswer]

theorem exitCode?_eq_none {call : Call} (h : call.succeeded = true) : call.exitCode? = none := by
  rw [exitCode?_eq_map, failure?]
  rw [succeeded] at h
  split at h
  · simp [h]
  · cases h

end Call

/-- The exit code of a failure is that of the call that failed, or 1 if all calls succeed. -/
theorem Follows.exitCode {α : Type} {made : List Call} {asked : List Request} {cause : Failure}
    (h : Follows made asked (.error cause : Except Failure α)) :
    cause.exitCode = (made.findSome? Call.exitCode?).getD 1 := by
  rcases h.failed cause rfl with ⟨hinternal, hall⟩ | ⟨call, hlast, hfailure⟩
  · rw [hinternal.2, List.findSome?_eq_none_iff.mpr fun call hcall => Call.exitCode?_eq_none (hall call hcall)]
    rfl
  · obtain ⟨before, rfl⟩ := List.getLast?_eq_some_iff.mp hlast
    have hbefore : before.findSome? Call.exitCode? = none := by
      refine List.findSome?_eq_none_iff.mpr fun other hmem => Call.exitCode?_eq_none (h.failFast other ?_)
      rwa [List.dropLast_concat]
    simp [List.findSome?_append, hbefore, Call.exitCode?_eq_map, hfailure]

namespace Arguments

variable {a : Arguments} {h : Host} {e : ReleaseError}

/-- A failed execution has the exit code of the call that failed, or 1 if all calls succeed. -/
theorem exitCode_execute {σ : Type} {console : Console} {tools : Toolbox σ} {memory : σ}
    (hfailed : (a.execute h console tools memory).1 = .error e) :
    e.exitCode = ((a.execute h console tools memory).2.calls.findSome? Call.exitCode?).getD 1 := by
  cases hprepare : a.prepare h with
  | error cause =>
    have hrefused := prepare_eq_error_iff.mp hprepare
    rw [hrefused.execute] at hfailed ⊢
    cases hfailed
    exact hrefused.stage?_exitCode.2
  | ok prepared =>
    rw [execute_eq_run hprepare] at hfailed ⊢
    obtain ⟨made, asked, raw, hcalls, hfollows, name, hraw⟩ :=
      Pipeline.run_follows ⟨prepared.1, tools console, console, h.cwd⟩ prepared.2 (.start h.tree memory)
    dsimp only at hfailed ⊢
    rw [hraw] at hfailed
    rw [hcalls]
    cases raw with
    | ok report => cases hfailed
    | error cause =>
      cases hfailed
      exact (Failure.exitCode_atStage name cause).trans hfollows.exitCode

end Arguments

namespace Program

/-- The exit code is 0 exactly if the command line asks for help or the version, or the execution succeeds.
    Otherwise it is that of the call that failed, or 1 if none did. Whatever is wrapped around the cause of a
    failure leaves its exit code as it is. -/
theorem run_exitCode {σ : Type} (h : Host) (tools : Toolbox σ) (memory : σ) (words : List Bytes) :
    ((run h tools memory words).exitCode =
      match Arguments.parse h.env? words with
      | .error stop => if stop.isError then 1 else 0
      | .ok a =>
        match a.execute h (a.console h.forcesColor) tools memory with
        | (.ok _, _) => 0
        | (.error _, after) => (after.calls.findSome? Call.exitCode?).getD 1) ∧
      ((run h tools memory words).exitCode = 0 ↔
        (∃ stop, Arguments.parse h.env? words = .error stop ∧ stop.isError = false) ∨
          ∃ a report, Arguments.parse h.env? words = .ok a ∧
            (a.execute h (a.console h.forcesColor) tools memory).1 = .ok report) ∧
      ∀ cause : Failure, cause.exitCode ≠ 0 ∧ cause.exitCode = cause.innermost.exitCode := by
  refine ⟨?_, ?_, fun cause => ⟨cause.exitCode_ne_zero, cause.exitCode_innermost.symm⟩⟩
  · rw [run]
    cases hparse : Arguments.parse h.env? words with
    | error stop => rfl
    | ok a =>
      dsimp only
      cases hexecute : a.execute h (a.console h.forcesColor) tools memory with
      | mk outcome after =>
        cases outcome with
        | ok report => rfl
        | error e =>
          have hcode := Arguments.exitCode_execute (congrArg Prod.fst hexecute)
          rwa [hexecute] at hcode
  · rw [run]
    cases hparse : Arguments.parse h.env? words with
    | error stop => cases hstop : stop.isError <;> simp [hstop, ReleaseError.usageExit]
    | ok a =>
      dsimp only
      cases hexecute : a.execute h (a.console h.forcesColor) tools memory with
      | mk outcome after =>
        cases outcome with
        | ok report => simp [hexecute]
        | error e =>
          simp [hexecute, e.exitCode_ne_zero]

/-- A machine without any tools: the first one is not found. -/
example :
    (run { Arguments.bareHost with environment := [] } (Launcher.runner Arguments.bareHost) ()
      (["amd64", "--quiet"].map Bytes.ofText)).exitCode = 127 := by
  decide +kernel

end Program

end DebRelease
