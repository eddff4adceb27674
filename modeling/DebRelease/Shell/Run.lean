import DebRelease.Shell.Builtin
import DebRelease.Shell.Redirection

namespace DebRelease.Shell

namespace ShellM

/-- What a script inside another prints, without the line feeds at its end. -/
def printed (inner : Script → ShellM Unit) (bytes : Bytes) : ShellM Bytes := do
  match Script.parse? bytes with
  | none => abort "Syntax error"
  | some script =>
    let printed ← collected (inner script)
    pure (printed.reverse.dropWhile (· == Bytes.lineFeed)).reverse

/-- Runs a file that is a script, with arguments of its own, and returns its status. -/
def runFile (inner : Script → ShellM Unit) (path : Path) (content : Bytes) (args : List Bytes) :
    ShellM Nat := do
  match Script.parse? content with
  | none => pure 2
  | some script =>
    isolated do
      modify fun s =>
        { s with
          name := path.bytes
          args
          stopsOnFailure := ((scriptFlags? content).map asksToStop).getD false
          isCondition := false }
      inner script
    pure (← get).status

/-- Runs what a call names and returns its status. -/
def perform (inner : Script → ShellM Unit) (announced : Bytes) (name : Bytes)
    (args : List Bytes) : ShellM Nat := do
  match External.ofName? (← get) name with
  | some (.utility u) => u.run args
  | some (.script path content) => runFile inner path content args
  | some .forbidden =>
    blame (announced ++ name ++ Bytes.ofText ": Permission denied")
    pure 126
  | none =>
    blame (announced ++ name ++ Bytes.ofText ": not found")
    pure 127

/-- Gives variables values, one after another. -/
def assignAll (inner : Script → ShellM Unit) (assignments : List (Bytes × Word)) :
    ShellM Unit :=
  assignments.forM fun (name, word) => do
    let value ← word.value (printed inner)
    modify fun s => s.assign name value

/-- Runs commands that were not waited for. -/
def finishJobs (inner : Script → ShellM Unit) : ShellM Unit := do
  let jobs := (← get).jobs
  modify fun s => { s with jobs := [] }
  jobs.forM fun (descriptors, command) =>
    isolated do
      modify fun s => { s with descriptors }
      inner [command]

/-- Runs a command that has a name, with arguments of its own. -/
def runFunction (inner : Script → ShellM Unit) (body : Command) (args : List Bytes) :
    ShellM Unit := do
  let before ← get
  modify fun s => { s with args }
  try inner [body]
  catch
    | .returned status => setStatus status
    | stop => throw stop
  modify fun s => { s with args := before.args }

/-- Runs a call whose words have fields. Assignments before it hold for it alone. -/
def runCall (inner : Script → ShellM Unit) (assignments : List (Bytes × Word)) (name : Bytes)
    (args : List Bytes) : ShellM Unit := do
  let before ← get
  assignAll inner assignments
  match before.functions.lookup name, builtin? name args with
  | some body, _ => runFunction inner body args
  | none, some answered => setStatus (← answered)
  | none, none =>
    if name == Bytes.ofText "wait" then
      finishJobs inner
      setStatus 0
    else setStatus (← perform inner [] name args)
  if !assignments.isEmpty then modify fun s => { s with bindings := before.bindings }

/-- Runs a call. A call without words makes its assignments; `exec` makes its redirections last, or
    ends the process with what it runs. -/
def call (inner : Script → ShellM Unit) (line : Nat) (assignments : List (Bytes × Word))
    (words : List Word) (redirections : List Redirection) : ShellM Unit := do
  modify fun s => { s with line }
  let fields ← words.mapM (·.fields (printed inner))
  match fields.flatten with
  | [] =>
    redirected (printed inner) redirections do
      assignAll inner assignments
      if !(assignments.any (·.2.runsScript) || words.any (·.runsScript)) then setStatus 0
  | name :: args =>
    if name == Bytes.ofText "exec" then
      if ← redirectAll (printed inner) redirections then
        match args with
        | [] => setStatus 0
        | name :: args =>
          match builtin? name args with
          | some answered => exit (← answered)
          | none => exit (← perform inner (Bytes.ofText "exec: ") name args)
      else exit 2
    else redirected (printed inner) redirections (runCall inner assignments name args)

/-- Runs a round of a loop; whether the loop goes on. -/
def runRound (body : ShellM Unit) : ShellM Bool :=
  try
    body
    pure true
  catch
    | .left (loops + 2) goesOn => throw (.left (loops + 1) goesOn)
    | .left _ goesOn => pure goesOn
    | stop => throw stop

mutual

/-- Runs commands one after another. -/
def runAll : Nat → List Command → ShellM Unit
  | _, [] => pure ()
  | 0, _ :: _ => kill
  | fuel + 1, command :: rest => do
    runOne fuel command
    runAll fuel rest

/-- Runs a loop; `status` is what it ends with if its body does not run again. -/
def runLoop : Nat → Bool → List Command → List Command → Nat → ShellM Unit
  | 0, _, _, _, _ => kill
  | fuel + 1, isUntil, condition, body, status => do
    asCondition (runAll fuel condition)
    if (← succeeded) != isUntil then
      if ← runRound (runAll fuel body) then
        runLoop fuel isUntil condition body (← get).status
    else setStatus status

/-- Runs a body for each of some fields. -/
def runEach : Nat → Bytes → List Bytes → List Command → ShellM Unit
  | _, _, [], _ => pure ()
  | 0, _, _ :: _, _ => kill
  | fuel + 1, name, value :: values, body => do
    modify fun s => s.assign name value
    if ← runRound (runAll fuel body) then runEach fuel name values body

/-- Runs a command. -/
def runOne : Nat → Command → ShellM Unit
  | 0, _ => kill
  | fuel + 1, command =>
    match command with
    | .call line assignments words redirections => do
      call (runAll fuel) line assignments words redirections
      checkFailure
    | .loop isUntil condition body => runLoop fuel isUntil condition body 0
    | .each name words body => do
      let fields ←
        match words with
        | some words => words.mapM (·.fields (printed (runAll fuel)))
        | none => do pure [(← get).args]
      setStatus 0
      runEach fuel name fields.flatten body
    | .condition condition yes no => do
      asCondition (runAll fuel condition)
      if ← succeeded then runAll fuel yes
      else
        setStatus 0
        runAll fuel no
    | .choice subject branches => do
      let value ← subject.value (printed (runAll fuel))
      setStatus 0
      let branch? ← branches.findM? fun branch =>
        branch.1.anyM fun w => do
          pure (fits (patternOf (← w.parts (printed (runAll fuel)))) value)
      match branch? with
      | some branch => runAll fuel branch.2
      | none => pure ()
    | .both first second => do
      asCondition (runOne fuel first)
      if ← succeeded then runOne fuel second
    | .either first second => do
      asCondition (runOne fuel first)
      if !(← succeeded) then runOne fuel second
    | .negation command => do
      asCondition (runOne fuel command)
      setStatus (if ← succeeded then 1 else 0)
    | .pipeline first second => do
      let bytes ← collected (runOne fuel first)
      let input ← source bytes
      isolated do
        modify fun s => s.redirect 0 input
        runOne fuel second
      checkFailure
    | .group isApart body redirections => do
      redirected (printed (runAll fuel)) redirections
        (if isApart then isolated (runAll fuel body) else runAll fuel body)
      if isApart then checkFailure
    | .later command => do
      modify fun s => { s with jobs := s.jobs ++ [(s.redirect 0 .nowhere |>.descriptors, command)] }
      setStatus 0
    | .define name body => do
      modify fun s => { s with functions := (name, body) :: s.functions }
      setStatus 0

end

end ShellM

/-- The greatest depth of steps in a run. -/
def stepLimit : Nat := 1000000

/-- Runs a script to its end, and after it what it did not wait for, and returns its status and the
    state after that. -/
def Script.run (script : Script) (s : State) : ToolStatus × State :=
  let inner := ShellM.runAll stepLimit
  let (outcome, s) := inner script s
  let status :=
    match outcome with
    | .error (.ended status) => status
    | .error (.returned status) => ⟨some status⟩
    | .error (.left ..) | .ok () => ⟨some s.status⟩
  (status, (ShellM.finishJobs inner s).2)

end DebRelease.Shell
