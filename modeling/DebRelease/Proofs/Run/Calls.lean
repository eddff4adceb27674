import DebRelease.Proofs.Run.Internal

namespace DebRelease

/-- What is asked of a tool. -/
structure Request where
  mode : CallMode
  command : ToolCommand
  deriving DecidableEq, Repr

namespace Call

/-- What was asked. -/
def request (call : Call) : Request :=
  ⟨call.mode, call.command⟩

/-- Whether the tool was run and did its work. -/
def succeeded (call : Call) : Bool :=
  match call.answer with
  | .ok captured => captured.status.success
  | .error _ => false

/-- Why a call is a failure, unless the tool did its work. -/
def failure? (call : Call) : Option Failure :=
  match call.answer with
  | .ok captured =>
    if captured.status.success then none else some (.toolFailed call.command.program captured.status.code)
  | .error e => some e

/-- The specification that a call printed. -/
def spec (call : Call) : String :=
  match call.answer with
  | .ok captured => trimText captured.stdout
  | .error _ => ""

/-- A failure of a call that names a stage is what the tools answered. -/
theorem unstaged_or_answer {call : Call} {e : Failure} (h : call.failure? = some e) :
    e.stage? = none ∨ call.answer = .error e := by
  cases hanswer : call.answer with
  | ok captured =>
    simp only [failure?, hanswer] at h
    split at h
    · cases h
    · exact .inl (Option.some.inj h ▸ rfl)
  | error cause =>
    simp only [failure?, hanswer, Option.some.injEq] at h
    exact .inr (h ▸ rfl)

end Call

/-- Calls that keep to the requests in order and go no further than the first failure. -/
structure Follows {α : Type} (made : List Call) (asked : List Request) (outcome : Except Failure α) :
    Prop where
  initial : made.map Call.request <+: asked
  /-- After a call that fails there is no other. -/
  failFast : ∀ call ∈ made.dropLast, call.succeeded = true
  complete : outcome.isOk = true → made.map Call.request = asked ∧ ∀ call ∈ made, call.succeeded = true
  /-- A failure is that of the last call, unless all calls succeed. -/
  failed : ∀ e, outcome = .error e →
    (e.IsInternal ∧ ∀ call ∈ made, call.succeeded = true) ∨
      ∃ call, made.getLast? = some call ∧ call.failure? = some e

/-- From `s` on a computation makes calls that keep to the requests. -/
def RunM.Asks {σ α : Type} (m : RunM σ α) (s : Session σ) (made : List Call) (asked : List Request) :
    Prop :=
  (m s).2.calls = s.calls ++ made ∧ Follows made asked (m s).1

/-- What an action asks, given the specification of the freezer. -/
def Action.requests (spec : String) : Action → List Request
  | .run command | .package _ _ command => [⟨.run, command⟩]
  | .freeze locate freezer => [⟨.capture, locate⟩, ⟨.run, freezer.withArg (Bytes.ofText spec)⟩]
  | .recreate _ | .copy .. | .move .. | .list _ => []

/-- What the version step asks, given the value of the version variable. -/
def Config.versionRequests (c : Config) (value : Option String) : List Request :=
  match (Version.ofVariable value).isFallback, c.versioning.command with
  | true, some command =>
    let requirements := c.versioning.requirements
    let install := Pipeline.versionTool c c.tools.pip ("install" :: requirements)
    (if requirements.isEmpty then [] else [⟨.run, install⟩]) ++
      [⟨.capture, Pipeline.versionTool c command.program command.args⟩]
  | _, _ => []

/-- What the stages ask, given the version and the specification of the freezer. -/
def Config.stageRequests (c : Config) (version : Version) (spec : String) : List Request :=
  (c.plan version).flatMap fun stage => stage.action.requests spec

/-- All that a run asks, given the version and the specification of the freezer. -/
def Config.requests (c : Config) (value : Option String) (version : Version) (spec : String) :
    List Request :=
  c.versionRequests value ++ c.stageRequests version spec

theorem Config.stageRequests_eq (c : Config) (version : Version) (spec : String) :
    c.stageRequests version spec =
      [⟨.run, Plan.installTools c⟩, ⟨.run, Plan.installFreezer c⟩, ⟨.capture, Plan.locateSpec c⟩,
        ⟨.run, (Plan.freeze c).withArg (Bytes.ofText spec)⟩,
        ⟨.run, Plan.tool c c.tools.lerna c.layout.gui ["clean", "-y"]⟩,
        ⟨.run, Plan.tool c c.tools.npm c.layout.gui ["ci"]⟩,
        ⟨.run, Plan.tool c c.tools.npm c.layout.gui ["run", "build"]⟩,
        ⟨.run, Plan.packageApp c version.value⟩, ⟨.run, Plan.buildDeb c version.value⟩] :=
  rfl

namespace Follows

variable {α β : Type} {made made' : List Call} {asked asked' : List Request}

/-- Work without calls asks nothing. -/
theorem silent {outcome : Except Failure α} (h : Failure.Internal outcome) : Follows [] [] outcome where
  initial := List.prefix_rfl
  failFast := by simp
  complete := by simp
  failed := fun e he => .inl ⟨h e he, by simp⟩

theorem ok (h : made.map Call.request = asked) (hall : ∀ call ∈ made, call.succeeded = true) (a : α) :
    Follows made asked (.ok a : Except Failure α) where
  initial := h ▸ List.prefix_rfl
  failFast := fun call hcall => hall call ((List.dropLast_sublist made).subset hcall)
  complete := fun _ => ⟨h, hall⟩
  failed := by simp

/-- A failure keeps to longer requests with the same beginning. -/
theorem error {e : Failure} (h : Follows made asked (.error e : Except Failure α)) (more : List Request) :
    Follows made (asked ++ more) (.error e : Except Failure β) where
  initial := h.initial.trans (List.prefix_append _ _)
  failFast := h.failFast
  complete := by simp [Except.isOk, Except.toBool]
  failed := by
    rintro e' ⟨⟩
    exact h.failed e rfl

/-- What follows a success continues it. -/
theorem append {a : α} {outcome : Except Failure β} (h : Follows made asked (.ok a : Except Failure α))
    (h' : Follows made' asked' outcome) : Follows (made ++ made') (asked ++ asked') outcome := by
  obtain ⟨hasked, hall⟩ := h.complete rfl
  refine ⟨?_, ?_, ?_, ?_⟩
  · rw [List.map_append, hasked]
    exact (List.prefix_append_right_inj _).mpr h'.initial
  · intro call hcall
    by_cases hnil : made' = []
    · rw [hnil, List.append_nil] at hcall
      exact h.failFast call hcall
    · rw [List.dropLast_append_of_ne_nil hnil] at hcall
      rcases List.mem_append.mp hcall with hfirst | hsecond
      · exact hall call hfirst
      · exact h'.failFast call hsecond
  · intro hok
    obtain ⟨hasked', hall'⟩ := h'.complete hok
    refine ⟨by rw [List.map_append, hasked, hasked'], fun call hcall => ?_⟩
    exact (List.mem_append.mp hcall).elim (hall call) (hall' call)
  · intro e he
    rcases h'.failed e he with ⟨hinternal, hall'⟩ | ⟨call, hlast, hfailure⟩
    · exact .inl ⟨hinternal, fun call hcall => (List.mem_append.mp hcall).elim (hall call) (hall' call)⟩
    · exact .inr ⟨call, by simp [hlast], hfailure⟩

/-- A failure names no stage, or is what the tools answered to the last call. -/
theorem staged {outcome : Except Failure α} (h : Follows made asked outcome) (e : Failure) (he : outcome = .error e) :
    e.stage? = none ∨ ∃ call, made.getLast? = some call ∧ call.answer = .error e := by
  rcases h.failed e he with ⟨hinternal, -⟩ | ⟨call, hlast, hfailure⟩
  · exact .inl hinternal.1
  · exact (Call.unstaged_or_answer hfailure).imp_right fun hanswer => ⟨call, hlast, hanswer⟩

end Follows

namespace RunM

variable {σ α β : Type} {m : RunM σ α} {f : α → RunM σ β} {s : Session σ} {made : List Call}
    {asked asked' : List Request}

theorem asks_onTree {m : TreeM Failure α} (h : m.Internal) (s : Session σ) : Asks (onTree m) s [] [] :=
  ⟨by simp, Follows.silent (h s.tree)⟩

theorem asks_emit (writes : List Write) (s : Session σ) : Asks (emit writes) s [] [] :=
  ⟨by simp, Follows.silent (Failure.internal_ok _)⟩

theorem asks_log (level : LogLevel) (text : String) (s : Session σ) : Asks (log level text) s [] [] :=
  ⟨by simp, Follows.silent (Failure.internal_ok _)⟩

theorem asks_pure (a : α) (s : Session σ) : Asks (pure a) s [] [] :=
  ⟨by simp, Follows.silent (Failure.internal_ok _)⟩

theorem asks_throw {e : Failure} (h : e.IsInternal) (s : Session σ) :
    Asks (throw e : RunM σ α) s [] [] :=
  ⟨by simp, Follows.silent (Failure.internal_error h)⟩

/-- What a computation asks, and after it another; `P` is what holds of the calls of the second, and
    holds where there are none. -/
theorem Asks.bind_with {P : List Call → Prop} (asked' : List Request) (hm : Asks m s made asked)
    (hnil : P [])
    (hf : ∀ a after, m s = (.ok a, after) → ∃ made', Asks (f a) after made' asked' ∧ P made') :
    ∃ made', Asks (m >>= f) s (made ++ made') (asked ++ asked') ∧ P made' := by
  obtain ⟨hcalls, hfollows⟩ := hm
  cases hrun : m s with
  | mk outcome after =>
    rw [hrun] at hcalls hfollows
    cases outcome with
    | ok a =>
      obtain ⟨made', ⟨hcalls', hfollows'⟩, hP⟩ := hf a after hrun
      refine ⟨made', ⟨?_, ?_⟩, hP⟩
      · rw [run_bind, hrun]
        simp only at hcalls ⊢
        rw [hcalls', hcalls, List.append_assoc]
      · rw [run_bind, hrun]
        exact hfollows.append hfollows'
    | error e =>
      refine ⟨[], ⟨?_, ?_⟩, hnil⟩
      · rw [run_bind, hrun, List.append_nil]
        exact hcalls
      · rw [run_bind, hrun, List.append_nil]
        exact hfollows.error asked'

theorem Asks.bind (hm : Asks m s made asked)
    (hf : ∀ a after, m s = (.ok a, after) → ∃ made', Asks (f a) after made' asked') :
    ∃ made', Asks (m >>= f) s (made ++ made') (asked ++ asked') := by
  obtain ⟨made', h, -⟩ := hm.bind_with (P := fun _ => True) asked' trivial fun a after hrun => by
    simpa using hf a after hrun
  exact ⟨made', h⟩

/-- Work without calls may come first. -/
theorem Asks.after_silent (hm : Asks m s [] [])
    (hf : ∀ a after, m s = (.ok a, after) → ∃ made, Asks (f a) after made asked) :
    ∃ made, Asks (m >>= f) s made asked :=
  hm.bind hf

/-- Work without calls may come last. -/
theorem Asks.before_silent (hm : Asks m s made asked) (hf : ∀ a after, Asks (f a) after [] []) :
    Asks (m >>= f) s made asked := by
  obtain ⟨made', h, rfl⟩ := hm.bind_with (P := (· = [])) [] rfl fun a after _ =>
    ⟨[], hf a after, rfl⟩
  simpa using h

/-- Work without calls composes. -/
theorem Asks.silent_bind (hm : Asks m s [] []) (hf : ∀ a after, Asks (f a) after [] []) :
    Asks (m >>= f) s [] [] :=
  hm.before_silent hf

/-- The call that a run records when it asks a tool. -/
def recorded (mode : CallMode) (command : ToolCommand)
    (answer : ToolCommand → FileTree → σ → Reply σ α) (kept : α → Captured) (s : Session σ) : Call :=
  let reply := answer command s.tree s.memory
  ⟨mode, command, s.tree, reply.outcome.map kept, reply.tree⟩

/-- The call of a tool whose output is shown. -/
def ran (tools : Runner σ) (command : ToolCommand) (s : Session σ) : Call :=
  recorded .run command tools.run (fun status => ⟨status, ""⟩) s

theorem calls_runTool (tools : Runner σ) (command : ToolCommand) (s : Session σ) :
    (runTool tools command s).2.calls = s.calls ++ [ran tools command s] := by
  rw [runTool, run_bind, RunM.call]
  cases houtcome : (tools.run command s.tree s.memory).outcome with
  | error e => simp [ran, recorded, houtcome]
  | ok status =>
    dsimp only
    cases status.check command <;> simp [ran, recorded, houtcome]

theorem tree_runTool (tools : Runner σ) (command : ToolCommand) (s : Session σ) :
    (runTool tools command s).2.tree = (tools.run command s.tree s.memory).tree := by
  rw [runTool, run_bind, RunM.call]
  cases houtcome : (tools.run command s.tree s.memory).outcome with
  | error e => rfl
  | ok status =>
    dsimp only
    cases status.check command <;> rfl

theorem calls_captureTool (tools : Runner σ) (command : ToolCommand) (s : Session σ) :
    (captureTool tools command s).2.calls = s.calls ++ [recorded .capture command tools.capture id s] := by
  rw [captureTool, run_bind, RunM.call]
  cases houtcome : (tools.capture command s.tree s.memory).outcome with
  | error e => simp [recorded, houtcome]
  | ok captured =>
    dsimp only
    cases captured.status.check command <;> simp [recorded, houtcome]

/-- A call, and after it a check of its outcome. -/
private theorem asks_checked (mode : CallMode) (command : ToolCommand)
    (answer : ToolCommand → FileTree → σ → Reply σ α) (kept : α → Captured) (s : Session σ)
    (check : α → Except Failure β)
    (hcheck : ∀ a e, check a = .error e →
      (kept a).status.success = false ∧ e = .toolFailed command.program (kept a).status.code)
    (hok : ∀ a, (check a).isOk = true → (kept a).status.success = true)
    (hf : ∀ a after, f a after = (check a, after)) :
    Asks (call mode command answer kept >>= f) s [recorded mode command answer kept s]
      [⟨mode, command⟩] := by
  rw [Asks, run_bind, call]
  cases houtcome : (answer command s.tree s.memory).outcome with
  | error e =>
    refine ⟨by simp [recorded, houtcome, Except.map], List.prefix_rfl, by simp,
      by simp [Except.isOk, Except.toBool], ?_⟩
    rintro e' ⟨⟩
    exact .inr ⟨_, rfl, by simp [Call.failure?, recorded, houtcome, Except.map]⟩
  | ok a =>
    simp only [hf]
    refine ⟨by simp [recorded, houtcome, Except.map], List.prefix_rfl, by simp, ?_, ?_⟩
    · intro hisOk
      refine ⟨rfl, ?_⟩
      simpa [recorded, houtcome, Except.map, Call.succeeded] using hok a hisOk
    · intro e he
      obtain ⟨hstatus, rfl⟩ := hcheck a e he
      exact .inr ⟨_, rfl, by simp [Call.failure?, recorded, houtcome, Except.map, hstatus]⟩

private theorem check_eq_error {status : ToolStatus} {command : ToolCommand} {e : Failure}
    (h : status.check command = .error e) :
    status.success = false ∧ e = .toolFailed command.program status.code := by
  rw [ToolStatus.check] at h
  split at h
  · cases h
  · rename_i hstatus
    exact ⟨by simpa using hstatus, (Except.error.inj h).symm⟩

private theorem success_of_check {status : ToolStatus} (command : ToolCommand)
    (h : (status.check command).isOk = true) : status.success = true := by
  cases hsuccess : status.success with
  | true => rfl
  | false => simp [ToolStatus.check, hsuccess, Except.isOk, Except.toBool] at h

theorem asks_runTool (tools : Runner σ) (command : ToolCommand) (s : Session σ) :
    ∃ made, Asks (runTool tools command) s made [⟨.run, command⟩] := by
  refine ⟨_, asks_checked .run command tools.run (fun status => ⟨status, ""⟩) s
    (fun status => status.check command) (fun _ _ => check_eq_error)
    (fun _ => success_of_check command) fun status after => ?_⟩
  cases h : status.check command <;> simp

theorem asks_captureTool (tools : Runner σ) (command : ToolCommand) (s : Session σ) :
    Asks (captureTool tools command) s [recorded .capture command tools.capture id s]
      [⟨.capture, command⟩] := by
  refine asks_checked .capture command tools.capture id s
    (fun captured => (captured.status.check command).map fun _ => captured.stdout)
    (fun captured => ?_) (fun captured hok => ?_) fun captured after => ?_
  · cases h : captured.status.check command with
    | ok => simp [Except.map]
    | error e =>
      simp only [Except.map, Except.error.injEq]
      rintro _ rfl
      exact check_eq_error h
  · refine success_of_check command ?_
    cases h : captured.status.check command with
    | ok => simp [h, Except.isOk, Except.toBool]
    | error e => simp [h, Except.map, Except.isOk, Except.toBool] at hok
  · cases h : captured.status.check command <;> simp [Except.map]

/-- What a capturing call returns is what the tool printed. -/
theorem captureTool_eq_ok {tools : Runner σ} {command : ToolCommand} {s after : Session σ} {out : String}
    (h : captureTool tools command s = (.ok out, after)) :
    (recorded .capture command tools.capture id s).spec = trimText out := by
  rw [captureTool, run_bind, call] at h
  cases houtcome : (tools.capture command s.tree s.memory).outcome with
  | error e =>
    simp only [houtcome] at h
    cases h
  | ok captured =>
    simp only [houtcome] at h
    cases hcheck : captured.status.check command with
    | error e =>
      simp only [hcheck, run_throw] at h
      cases h
    | ok =>
      simp only [hcheck, run_pure] at h
      cases h
      simp [Call.spec, recorded, houtcome, Except.map]

end RunM

end DebRelease
