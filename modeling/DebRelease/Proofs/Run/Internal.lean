import DebRelease.Proofs.Run.Computation

namespace DebRelease

/-- A failure in which neither a stage nor a tool has a part. -/
def Failure.IsInternal (e : Failure) : Prop :=
  e.stage? = none ∧ e.exitCode = 1

/-- A result that fails, if it does, without a stage and a tool having a part in it. -/
def Failure.Internal {α : Type} (r : Except Failure α) : Prop :=
  ∀ e, r = .error e → e.IsInternal

/-- Work that fails, if it does, without a stage and a tool having a part in it. -/
def TreeM.Internal {α : Type} (m : TreeM Failure α) : Prop :=
  ∀ t, Failure.Internal (m t).1

namespace Failure

variable {ε α β : Type}

theorem internal_ok (a : α) : Internal (.ok a) := by
  intro e h
  cases h

theorem internal_pure (a : α) : Internal (pure a) :=
  internal_ok a

theorem internal_error {e : Failure} (h : e.IsInternal) : Internal (.error e : Except Failure α) := by
  rintro e' ⟨⟩
  exact h

theorem Internal.bind {r : Except Failure α} {f : α → Except Failure β} (hr : Internal r)
    (hf : ∀ a, Internal (f a)) : Internal (r >>= f) := by
  cases r with
  | ok a => exact hf a
  | error e => exact internal_error (hr e rfl)

theorem Internal.context {r : Except Failure α} (hr : Internal r) (text : String) :
    Internal (r.mapError (.context text)) := by
  cases r with
  | ok a => exact internal_ok a
  | error e => exact internal_error ⟨rfl, (hr e rfl).2⟩

theorem internal_mapError {f : ε → Failure} (hf : ∀ e, (f e).IsInternal) (r : Except ε α) :
    Internal (r.mapError f) := by
  cases r with
  | ok a => exact internal_ok a
  | error e => exact internal_error (hf e)

theorem internal_naming (operation : String) (p : Path) (r : Except SystemError α) :
    Internal (naming operation p r) :=
  internal_mapError (fun _ => ⟨rfl, rfl⟩) r

theorem internal_mapM {f : α → Except Failure β} (hf : ∀ a, Internal (f a)) (xs : List α) :
    Internal (xs.mapM f) := by
  induction xs with
  | nil => exact internal_pure []
  | cons x xs ih =>
    rw [List.mapM_cons]
    exact (hf x).bind fun _ => ih.bind fun _ => internal_pure _

end Failure

namespace TreeM

open Failure

variable {ε α β : Type}

theorem internal_pure (a : α) : Internal (pure a) :=
  fun _ => internal_ok a

theorem internal_throw {e : Failure} (h : e.IsInternal) : Internal (throw e : TreeM Failure α) :=
  fun _ => internal_error h

theorem Internal.bind {m : TreeM Failure α} {f : α → TreeM Failure β} (hm : Internal m)
    (hf : ∀ a, Internal (f a)) : Internal (m >>= f) := by
  intro t
  rw [run_bind]
  have hfirst := hm t
  cases h : m t with
  | mk outcome after =>
    cases outcome with
    | ok a => exact hf a after
    | error e => exact internal_error (hfirst e (by rw [h]))

theorem internal_get : Internal (get : TreeM Failure FileTree) :=
  fun t => internal_ok t

theorem internal_look {f : FileTree → Except Failure α} (hf : ∀ t, Failure.Internal (f t)) :
    Internal (look f) := by
  intro t
  rw [run_look]
  exact hf t

theorem internal_attempt (m : TreeM ε α) : Internal (attempt m) :=
  fun t => internal_ok (m t).1

theorem internal_describe {f : ε → Failure} (hf : ∀ e, (f e).IsInternal) (m : TreeM ε α) :
    Internal (describe f m) :=
  fun t => internal_mapError hf (m t).1

theorem internal_forM {f : α → TreeM Failure PUnit} (hf : ∀ a, Internal (f a)) (xs : List α) :
    Internal (xs.forM f) := by
  induction xs with
  | nil => exact internal_pure _
  | cons x xs ih => exact (hf x).bind fun _ => ih

end TreeM

namespace FileTree

open TreeM

theorem internal_removeAll (cwd : WorkingDir) (p : Path) : Internal (removeAll cwd p) := by
  refine (internal_attempt _).bind fun outcome => ?_
  cases outcome with
  | ok => exact internal_pure ()
  | error e =>
    dsimp only
    split
    · exact internal_pure ()
    · exact internal_throw ⟨rfl, rfl⟩

theorem internal_recreate (cwd : WorkingDir) (p : Path) : Internal (recreate cwd p) :=
  (internal_removeAll cwd p).bind fun _ => internal_describe (fun _ => ⟨rfl, rfl⟩) _

theorem internal_copyEntry (cwd : WorkingDir) (entry : Entry) (source target : Path) :
    Internal (copyEntry cwd entry source target) := by
  cases entry with
  | directory => exact internal_describe (fun _ => ⟨rfl, rfl⟩) _
  | file content executable => exact internal_describe (fun _ => ⟨rfl, rfl⟩) _
  | symlink linked =>
    exact (internal_look fun _ => Failure.internal_naming _ _ _).bind fun _ =>
      internal_describe (fun _ => ⟨rfl, rfl⟩) _

theorem internal_copyBelow (cwd : WorkingDir) (depth : Nat) (source target : Path) :
    Internal (copyBelow cwd depth source target) := by
  induction depth generalizing source target with
  | zero => exact internal_throw ⟨rfl, rfl⟩
  | succ depth ih =>
    refine (internal_look fun _ => Failure.internal_mapError (fun _ => ⟨rfl, rfl⟩) _).bind fun entries => ?_
    refine internal_forM (fun item => ?_) entries
    refine (internal_copyEntry cwd item.2 _ _).bind fun _ => ?_
    split
    · exact ih _ _
    · exact internal_pure _

theorem internal_requireDir (cwd : WorkingDir) (p : Path) : Internal (requireDir cwd p) := by
  refine internal_get.bind fun t => ?_
  split
  · exact internal_throw ⟨rfl, rfl⟩
  · exact internal_pure _

theorem internal_makeParent (cwd : WorkingDir) (p : Path) : Internal (makeParent cwd p) := by
  rw [makeParent]
  split
  · exact internal_describe (fun _ => ⟨rfl, rfl⟩) _
  · exact internal_pure _

theorem internal_copyDir (cwd : WorkingDir) (source target : Path) :
    Internal (copyDir cwd source target) := by
  refine (internal_requireDir cwd source).bind fun _ => (internal_makeParent cwd target).bind fun _ => ?_
  refine (internal_look fun _ => Failure.internal_mapError (fun _ => ⟨rfl, rfl⟩) _).bind fun found => ?_
  exact (internal_copyEntry cwd found.2 _ _).bind fun _ => internal_copyBelow cwd _ _ _

theorem internal_moveDir (cwd : WorkingDir) (source target : Path) :
    Internal (moveDir cwd source target) := by
  refine (internal_requireDir cwd source).bind fun _ => (internal_removeAll cwd target).bind fun _ => ?_
  refine (internal_makeParent cwd target).bind fun _ => (internal_attempt _).bind fun outcome => ?_
  cases outcome with
  | ok => exact internal_pure ()
  | error e => exact (internal_copyDir cwd _ _).bind fun _ => internal_removeAll cwd _

theorem internal_readParts (chunking : Chunking) (t : FileTree) (cwd : WorkingDir) (p : Path) :
    Failure.Internal (t.readParts chunking cwd p) := by
  refine (Failure.internal_naming _ _ _).bind fun found => ?_
  split
  · exact Failure.internal_pure _
  · exact Failure.internal_error ⟨rfl, rfl⟩

theorem internal_hashedParts (chunking : Chunking) (t : FileTree) (cwd : WorkingDir) (p : Path) :
    Failure.Internal (t.hashedParts chunking cwd p) := by
  refine (Failure.internal_naming _ _ _).bind fun found => ?_
  split
  · refine (Failure.internal_mapM (fun file => ?_) _).bind fun parts => Failure.internal_pure _
    refine (internal_readParts chunking t cwd file).bind fun parts => ?_
    split <;> exact Failure.internal_pure _
  · exact internal_readParts chunking t cwd p

theorem internal_artifacts (t : FileTree) (cwd : WorkingDir) (dir : Path) :
    Failure.Internal (t.artifacts cwd dir) := by
  refine (Failure.internal_naming _ _ _).bind fun names => Failure.internal_mapM (fun name => ?_) _
  refine Failure.Internal.bind ?_ fun _ => Failure.Internal.bind ?_ fun _ => Failure.internal_pure _
  · refine (Failure.internal_naming _ _ _).bind fun found => ?_
    split <;> exact Failure.internal_pure _
  · exact (internal_hashedParts .full t cwd _).bind fun _ => Failure.internal_pure _

end FileTree

namespace Manifest

open Failure

theorem internal_setVersion (content : Bytes) (version : String) : Internal (setVersion content version) := by
  refine (internal_mapError (fun _ => ⟨rfl, rfl⟩) _).bind fun value => ?_
  cases value with
  | object members => exact internal_pure _
  | _ => exact internal_error ⟨rfl, rfl⟩

theorem Guard.internal_prepare (cwd : WorkingDir) (manifest : Path) (version : String) (t : FileTree) :
    Internal (Guard.prepare cwd manifest version t) := by
  refine (internal_naming _ _ _).bind fun stale => ?_
  have hrest : ∀ u : PUnit, Internal (do
      let content ← naming "reading manifest" manifest (t.read cwd manifest)
      let shown := manifest.display
      let versioned ← (setVersion content version).mapError (.context s!"invalid manifest {shown}")
      pure (content, versioned)) := fun _ =>
    (internal_naming _ _ _).bind fun content =>
      ((internal_setVersion content version).context _).bind fun _ => internal_pure _
  cases stale with
  | true => exact internal_error ⟨rfl, rfl⟩
  | false => exact hrest ()

end Manifest

end DebRelease
