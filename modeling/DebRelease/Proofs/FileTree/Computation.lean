import DebRelease.FileTree.Change

namespace DebRelease

namespace TreeM

variable {ε ε' α β : Type}

@[simp] theorem run_pure (a : α) (t : FileTree) : (pure a : TreeM ε α) t = (.ok a, t) := rfl

@[simp] theorem run_throw (e : ε) (t : FileTree) : (throw e : TreeM ε α) t = (.error e, t) := rfl

theorem run_bind (m : TreeM ε α) (f : α → TreeM ε β) (t : FileTree) :
    (m >>= f) t =
      match m t with
      | (.ok a, after) => f a after
      | (.error e, after) => (.error e, after) := by
  have hbind : (m >>= f) t = ExceptT.bindCont f (m t).1 (m t).2 := rfl
  rw [hbind]
  cases m t with
  | mk outcome after => cases outcome <;> rfl

@[simp] theorem run_get (t : FileTree) : (get : TreeM ε FileTree) t = (.ok t, t) := rfl

@[simp] theorem run_modify (f : FileTree → FileTree) (t : FileTree) :
    (modify f : TreeM ε Unit) t = (.ok (), f t) := rfl

@[simp] theorem run_refuse (errno : Errno) (t : FileTree) :
    (refuse errno : TreeM SystemError α) t = (.error (.os errno), t) := rfl

@[simp] theorem run_look (f : FileTree → Except ε α) (t : FileTree) : look f t = (f t, t) := by
  rw [look, run_bind, run_get]
  cases h : f t <;> simp [h]

@[simp] theorem run_attempt (m : TreeM ε α) (t : FileTree) :
    (attempt m : TreeM ε' (Except ε α)) t = (.ok (m t).1, (m t).2) := rfl

@[simp] theorem run_describe (f : ε → ε') (m : TreeM ε α) (t : FileTree) :
    describe f m t = ((m t).1.mapError f, (m t).2) := rfl

theorem run_forM_cons (act : α → TreeM ε PUnit) (item : α) (items : List α) (t : FileTree) :
    (item :: items).forM act t =
      match act item t with
      | (.ok _, after) => items.forM act after
      | (.error e, after) => (.error e, after) := by
  rw [show (item :: items).forM act = act item >>= fun _ => items.forM act from rfl, run_bind]
  cases act item t with
  | mk outcome after => cases outcome <;> rfl

theorem run_forM_append (act : α → TreeM ε PUnit) (front back : List α) (t : FileTree) :
    (front ++ back).forM act t =
      match front.forM act t with
      | (.ok _, after) => back.forM act after
      | (.error e, after) => (.error e, after) := by
  induction front generalizing t with
  | nil => rfl
  | cons item front ih =>
    rw [List.cons_append, run_forM_cons, run_forM_cons]
    cases act item t with
    | mk outcome after =>
      cases outcome with
      | error => rfl
      | ok => exact ih after

end TreeM

@[simp] theorem FileTree.Storage.willing_write (cwd : WorkingDir) (p : Path) (content : Bytes) :
    willing.write cwd p content = FileTree.write cwd p content := rfl

end DebRelease
