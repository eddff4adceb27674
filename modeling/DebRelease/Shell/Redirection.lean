import DebRelease.Shell.Expansion

namespace DebRelease.Shell.ShellM

/-- Why a file cannot be opened, as scripts say it. -/
def openCause (missing : String) : SystemError → String
  | .os errno => if errno = .noEntry || errno = .notDirectory then missing else errno.text
  | e => e.message

/-- Opens something for a redirection, or says why that is not possible. -/
def opening (deed missing : String) (target : Bytes) (m : TreeM SystemError α) :
    ShellM (Option α) := do
  match ← onTree m with
  | .ok opened => pure (some opened)
  | .error e =>
    let cause := openCause missing e
    blame (Bytes.ofText s!"cannot {deed} " ++ target ++ Bytes.ofText s!": {cause}")
    pure none

/-- Opens the target of a redirection. -/
def openTarget (channel : Channel) (target : Bytes) : ShellM (Option Descriptor) := do
  let s ← get
  let cwd : WorkingDir := some s.cwd
  let create (m : TreeM SystemError Location) := do
    pure ((← opening "create" "Directory nonexistent" target m).map Descriptor.file)
  let existing : TreeM SystemError Location := do
    match ← TreeM.look (·.stat cwd ⟨target⟩) with
    | (location, .file ..) => pure location
    | _ => TreeM.refuse .isDirectory
  if channel != .duplicate && target == Bytes.ofText "/dev/null" then return some .nowhere
  match channel with
  | .replace => create (FileTree.truncate cwd false ⟨target⟩)
  | .append =>
    if (s.tree.stat cwd ⟨target⟩).toOption.isSome then create existing
    else create (FileTree.truncate cwd false ⟨target⟩)
  | .input =>
    match ← opening "open" "No such file" target (TreeM.look (·.read cwd ⟨target⟩)) with
    | some content => pure (some (← source content))
    | none => pure none
  | .duplicate =>
    if target == Bytes.ofText "-" then pure (some .closed)
    else pure (s.descriptors.lookup (numberOf target))

/-- Redirects descriptors one after another; whether all could be. -/
def redirectAll (printed : Bytes → ShellM Bytes) : List Redirection → ShellM Bool
  | [] => pure true
  | r :: rest => do
    match ← openTarget r.channel (← r.target.value printed) with
    | none => pure false
    | some d =>
      modify fun s => s.redirect r.descriptor d
      redirectAll printed rest

/-- Does something with descriptors redirected, unless that is not possible. -/
def redirected (printed : Bytes → ShellM Bytes) (redirections : List Redirection)
    (m : ShellM Unit) : ShellM Unit := do
  let before ← get
  if ← redirectAll printed redirections then m else setStatus 2
  modify fun s => { s with descriptors := before.descriptors }

end DebRelease.Shell.ShellM
