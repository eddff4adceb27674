import DebRelease.Manifest.Guard
import DebRelease.Proofs.Run.Computation

namespace DebRelease.Manifest

/-- File operations one after another; the outcome of one decides what follows. -/
inductive Steps (α : Type) where
  | finish (a : α)
  /-- A file is opened and emptied. -/
  | truncate (p : Path) (next : Except SystemError Location → Steps α)
  /-- A file that was opened gets its content. -/
  | fill (location : Location) (content : Bytes) (next : Steps α)
  | unlink (p : Path) (next : Except SystemError Unit → Steps α)

namespace Steps

variable {σ α : Type}

/-- The result of the operations and the tree after them. -/
def run (cwd : WorkingDir) : Steps α → FileTree → α × FileTree
  | finish a, t => (a, t)
  | truncate p next, t =>
    let (outcome, after) := FileTree.truncate cwd false p t
    (next outcome).run cwd after
  | fill location content next, t =>
    next.run cwd (FileTree.fill (ε := SystemError) location content t).2
  | unlink p next, t =>
    let (outcome, after) := FileTree.unlink cwd p t
    (next outcome).run cwd after

/-- The trees that are passed: the first, and the one after each operation. -/
def trees (cwd : WorkingDir) : Steps α → FileTree → List FileTree
  | finish _, t => [t]
  | truncate p next, t =>
    let (outcome, after) := FileTree.truncate cwd false p t
    t :: (next outcome).trees cwd after
  | fill location content next, t =>
    t :: next.trees cwd (FileTree.fill (ε := SystemError) location content t).2
  | unlink p next, t =>
    let (outcome, after) := FileTree.unlink cwd p t
    t :: (next outcome).trees cwd after

/-- Writing a whole file. -/
def write (p : Path) (content : Bytes) (next : Except SystemError Unit → Steps α) : Steps α :=
  .truncate p fun
    | .ok location => .fill location content (next (.ok ()))
    | .error e => next (.error e)

/-- Ending a guard that was not restored. -/
def drop (g : Guard) (result : α) : Steps α :=
  write g.manifest g.content fun
    | .ok () => .unlink g.backup fun _ => .finish result
    | .error _ => .finish result

/-- Setting the version in a manifest, once its bytes and those with the version are known. -/
def guarding (manifest : Path) (content versioned : Bytes) : Steps (Except Failure Guard) :=
  let g : Guard := ⟨manifest, content⟩
  write g.backup content fun
    | .error e => .finish (.error (.file "backing up manifest" g.backup e))
    | .ok () => write manifest versioned fun
      | .ok () => .finish (.ok g)
      | .error e => drop g (.error (.file "writing manifest" manifest e))

/-- Setting the version in a manifest. -/
def acquire (cwd : WorkingDir) (manifest : Path) (version : String) (t : FileTree) :
    Steps (Except Failure Guard) :=
  match Guard.prepare cwd manifest version t with
  | .error e => .finish (.error e)
  | .ok (content, versioned) => guarding manifest content versioned

/-- Putting the bytes of a manifest back. -/
def restore (g : Guard) : Steps (Except Failure Unit) :=
  write g.manifest g.content fun
    | .error e => drop g (.error (.file "restoring manifest" g.manifest e))
    | .ok () => .unlink g.backup fun
      | .ok () => .finish (.ok ())
      | .error e =>
        if e.isNotFound then .finish (.ok ())
        else .finish (.error (.file "removing manifest backup" g.backup e))

/-- The last tree that is passed is the one that the operations leave. -/
theorem getLast?_trees (cwd : WorkingDir) (steps : Steps α) (t : FileTree) :
    (steps.trees cwd t).getLast? = some (steps.run cwd t).2 := by
  induction steps generalizing t with
  | finish a => rfl
  | truncate p next ih =>
    rw [trees, run]
    obtain ⟨outcome, after⟩ := FileTree.truncate cwd false p t
    rw [List.getLast?_cons, ih]
    rfl
  | fill location content next ih =>
    rw [trees, run, List.getLast?_cons, ih]
    rfl
  | unlink p next ih =>
    rw [trees, run]
    obtain ⟨outcome, after⟩ := FileTree.unlink cwd p t
    rw [List.getLast?_cons, ih]
    rfl

theorem trees_truncate {cwd : WorkingDir} {p : Path} {next : Except SystemError Location → Steps α}
    {t after : FileTree} {outcome : Except SystemError Location}
    (h : FileTree.truncate cwd false p t = (outcome, after)) :
    (truncate p next).trees cwd t = t :: (next outcome).trees cwd after := by
  rw [trees, h]

theorem run_truncate {cwd : WorkingDir} {p : Path} {next : Except SystemError Location → Steps α}
    {t after : FileTree} {outcome : Except SystemError Location}
    (h : FileTree.truncate cwd false p t = (outcome, after)) :
    (truncate p next).run cwd t = (next outcome).run cwd after := by
  rw [run, h]

theorem trees_unlink {cwd : WorkingDir} {p : Path} {next : Except SystemError Unit → Steps α}
    {t after : FileTree} {outcome : Except SystemError Unit}
    (h : FileTree.unlink cwd p t = (outcome, after)) :
    (unlink p next).trees cwd t = t :: (next outcome).trees cwd after := by
  rw [trees, h]

theorem run_write (cwd : WorkingDir) (p : Path) (content : Bytes)
    (next : Except SystemError Unit → Steps α) (t : FileTree) :
    (write p content next).run cwd t =
      (next (FileTree.write cwd p content t).1).run cwd (FileTree.write cwd p content t).2 := by
  rw [write, run, FileTree.write, TreeM.run_bind]
  obtain ⟨outcome, after⟩ := FileTree.truncate cwd false p t
  cases outcome <;> rfl

/-- The operations of ending a guard are those that it makes. -/
theorem run_drop (cwd : WorkingDir) (g : Guard) (result : α) (s : Session σ) :
    (drop g result).run cwd s.tree = (result, (Guard.drop cwd g s).2.tree) := by
  rw [drop, run_write, Guard.drop, Guard.dropOn, FileTree.Storage.willing_write, RunM.run_bind, RunM.run_onTree,
    TreeM.run_attempt]
  dsimp only
  obtain ⟨outcome, after⟩ := FileTree.write cwd g.manifest g.content s.tree
  cases outcome with
  | error e => rfl
  | ok =>
    simp only [run]
    rw [RunM.run_bind, RunM.run_onTree, TreeM.run_attempt]
    rfl

private theorem run_drop_throw (cwd : WorkingDir) (g : Guard) (e : Failure) (s : Session σ) :
    (drop g (.error e : Except Failure α)).run cwd s.tree =
      (((Guard.drop cwd g >>= fun _ => throw e : RunM σ α) s).1,
        ((Guard.drop cwd g >>= fun _ => throw e : RunM σ α) s).2.tree) := by
  have hok : (Guard.drop cwd g s).1 = .ok () := Guard.dropOn_eq_ok .willing cwd g s
  rw [run_drop, RunM.run_bind]
  cases hdrop : Guard.drop cwd g s with
  | mk outcome after =>
    rw [hdrop] at hok
    cases hok
    rfl

theorem drop_result (cwd : WorkingDir) (g : Guard) (result : α) (t : FileTree) :
    ((drop g result).run cwd t).1 = result := by
  rw [show t = (Session.start t ()).tree from rfl, run_drop]

theorem run_acquire (cwd : WorkingDir) (manifest : Path) (version : String) (s : Session σ) :
    (acquire cwd manifest version s.tree).run cwd s.tree =
      ((Guard.acquire cwd manifest version s).1, (Guard.acquire cwd manifest version s).2.tree) := by
  rw [acquire, Guard.acquire, Guard.acquireOn, RunM.run_bind, RunM.run_onTree, TreeM.run_look]
  cases Guard.prepare cwd manifest version s.tree with
  | error e => rfl
  | ok found =>
    obtain ⟨content, versioned⟩ := found
    dsimp only
    rw [guarding, run_write, FileTree.Storage.willing_write, FileTree.Storage.willing_write, RunM.run_bind, RunM.run_onTree,
      TreeM.run_describe]
    dsimp only
    obtain ⟨outcome, backed⟩ := FileTree.write cwd (Guard.backup ⟨manifest, content⟩) content s.tree
    cases outcome with
    | error e => rfl
    | ok =>
      dsimp only [Except.mapError]
      rw [run_write, RunM.run_bind, RunM.run_onTree, TreeM.run_attempt]
      dsimp only
      obtain ⟨outcome, written⟩ := FileTree.write cwd manifest versioned backed
      cases outcome with
      | ok => rfl
      | error e =>
        exact run_drop_throw cwd ⟨manifest, content⟩ (.file "writing manifest" manifest e)
          { s with tree := written }

theorem run_restore (cwd : WorkingDir) (g : Guard) (s : Session σ) :
    (restore g).run cwd s.tree = ((Guard.restore cwd g s).1, (Guard.restore cwd g s).2.tree) := by
  rw [restore, run_write, Guard.restore, Guard.restoreOn, FileTree.Storage.willing_write, RunM.run_bind, RunM.run_onTree,
    TreeM.run_attempt]
  dsimp only
  obtain ⟨outcome, written⟩ := FileTree.write cwd g.manifest g.content s.tree
  cases outcome with
  | error e =>
    exact run_drop_throw cwd g (.file "restoring manifest" g.manifest e) { s with tree := written }
  | ok =>
    dsimp only
    rw [run, RunM.run_bind, RunM.run_onTree, TreeM.run_attempt]
    dsimp only
    obtain ⟨outcome, removed⟩ := FileTree.unlink cwd g.backup written
    cases outcome with
    | ok => rfl
    | error e =>
      dsimp only
      by_cases hnotFound : e.isNotFound = true
      · rw [if_pos hnotFound, if_pos hnotFound]
        rfl
      · rw [if_neg hnotFound, if_neg hnotFound]
        rfl

end Steps

end DebRelease.Manifest
