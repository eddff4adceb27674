import DebRelease.Proofs.FileTree.Computation
import DebRelease.Proofs.FileTree.Resolution

namespace DebRelease.FileTree

open TreeM

variable {ε ε' α β : Type} {t t' : FileTree} {cwd : WorkingDir} {p : Path} {P : α → FileTree → Prop}

/-- A computation that fails and leaves the tree as it was. -/
def Refused (m : TreeM ε α) (t : FileTree) : Prop :=
  ∃ e, m t = (.error e, t)

/-- A place that a path leads to for writing: that of a file, or a free one. -/
def Opens (t : FileTree) (cwd : WorkingDir) (p : Path) (location : Location) : Prop :=
  (∃ content is, t.resolve cwd true p = .ok (.present location (.file content is))) ∨
    ∃ dir name, location = dir ++ [name] ∧ t.resolve cwd true p = .ok (.absent dir name)

/-- A computation that is refused, or succeeds with a result and a tree of which `P` holds. -/
def Does (m : TreeM ε α) (t : FileTree) (P : α → FileTree → Prop) : Prop :=
  Refused m t ∨ ∃ a after, m t = (.ok a, after) ∧ P a after

namespace Does

theorem refuse (errno : Errno) : Does (refuse errno) t P :=
  .inl ⟨.os errno, rfl⟩

theorem modify {P : Unit → FileTree → Prop} (f : FileTree → FileTree) (h : P () (f t)) :
    Does (modify f : TreeM ε Unit) t P :=
  .inr ⟨(), f t, rfl, h⟩

theorem edit (f : FileTree → FileTree) {a : α} (h : P a (f t)) :
    Does (do MonadStateOf.modifyGet fun t => ((), f t); Pure.pure a : TreeM ε α) t P :=
  .inr ⟨a, f t, rfl, h⟩

theorem look {f : FileTree → Except ε β} {act : β → TreeM ε α} (h : ∀ b, f t = .ok b → Does (act b) t P) :
    Does (look f >>= act) t P := by
  rw [Does, Refused, run_bind, run_look]
  cases hf : f t with
  | error e => exact .inl ⟨e, rfl⟩
  | ok b => exact h b hf

theorem get {act : FileTree → TreeM ε α} (h : Does (act t) t P) : Does (get >>= act) t P :=
  h

theorem mono {m : TreeM ε α} {Q : α → FileTree → Prop} (h : Does m t P) (hP : ∀ a after, P a after → Q a after) :
    Does m t Q :=
  h.imp_right fun ⟨a, after, hrun, hholds⟩ => ⟨a, after, hrun, hP a after hholds⟩

theorem describe {m : TreeM ε α} (h : Does m t P) (f : ε → ε') : Does (m.describe f) t P := by
  rcases h with ⟨e, hrun⟩ | ⟨a, after, hrun, hP⟩
  · exact .inl ⟨f e, by rw [run_describe, hrun]; rfl⟩
  · exact .inr ⟨a, after, by rw [run_describe, hrun]; rfl, hP⟩

/-- A check that refuses. -/
theorem check {c : Prop} [Decidable c] {errno : Errno} {act : TreeM SystemError α} (h : ¬ c → Does act t P) :
    Does (if c then TreeM.refuse errno >>= fun _ : PUnit => act else act) t P := by
  by_cases hc : c
  · rw [if_pos hc]
    exact .inl ⟨.os errno, rfl⟩
  · rw [if_neg hc]
    exact h hc

end Does

/-- A computation succeeds, with a result and a tree of which `P` holds. -/
def Yields (m : TreeM ε α) (t : FileTree) (P : α → FileTree → Prop) : Prop :=
  ∃ a t', m t = (.ok a, t') ∧ P a t'

namespace Yields

variable {m : TreeM ε α} {act : α → TreeM ε β} {P P' : α → FileTree → Prop} {Q : β → FileTree → Prop}

theorem pure {a : α} (h : P a t) : Yields (pure a : TreeM ε α) t P :=
  ⟨a, t, rfl, h⟩

theorem bind (h : Yields m t P) (hact : ∀ a t', P a t' → Yields (act a) t' Q) : Yields (m >>= act) t Q := by
  obtain ⟨a, t', hrun, hP⟩ := h
  obtain ⟨b, t'', hrun', hQ⟩ := hact a t' hP
  exact ⟨b, t'', by rw [run_bind, hrun]; exact hrun', hQ⟩

theorem step {a : α} (hrun : m t = (.ok a, t')) (h : Yields (act a) t' Q) : Yields (m >>= act) t Q := by
  obtain ⟨b, t'', hrun', hQ⟩ := h
  exact ⟨b, t'', by rw [run_bind, hrun]; exact hrun', hQ⟩

theorem mono (h : Yields m t P) (hP : ∀ a t', P a t' → P' a t') : Yields m t P' := by
  obtain ⟨a, t', hrun, hholds⟩ := h
  exact ⟨a, t', hrun, hP a t' hholds⟩

theorem describe (h : Yields m t P) (f : ε → ε') : Yields (m.describe f) t P := by
  obtain ⟨a, t', hrun, hP⟩ := h
  exact ⟨a, t', by rw [run_describe, hrun]; rfl, hP⟩

end Yields

theorem makeDir_does (cwd : WorkingDir) (p : Path) (t : FileTree) :
    Does (makeDir cwd p) t fun _ after => ∃ dir name slash,
      t.resolveParent cwd p = .ok (dir, .name name slash) ∧ name.length ≤ Path.nameLimit ∧
        t.get? (dir ++ [name]) = none ∧ after = t.set (dir ++ [name]) .directory := by
  refine .look fun ⟨dir, last⟩ hparent => ?_
  cases last with
  | name name slash =>
    refine .check fun hlength => .get ?_
    cases hget : t.get? (dir ++ [name]) with
    | some entry => exact .refuse _
    | none => exact .modify _ ⟨dir, name, slash, hparent, Nat.not_lt.mp hlength, hget, rfl⟩
  | _ => exact .refuse _

theorem makeLink_does (cwd : WorkingDir) (link p : Path) (t : FileTree) :
    Does (makeLink cwd link p) t fun _ after => ∃ dir name,
      t.resolveParent cwd p = .ok (dir, .name name false) ∧ name.length ≤ Path.nameLimit ∧
        t.get? (dir ++ [name]) = none ∧ checkPath link = .ok () ∧
        after = t.set (dir ++ [name]) (.symlink link) := by
  refine .look fun _ hcheck => .look fun ⟨dir, last⟩ hparent => ?_
  cases last with
  | name name slash =>
    refine .check fun hlength => .get ?_
    cases hget : t.get? (dir ++ [name]) with
    | some entry => exact .refuse _
    | none =>
      refine .check fun hslash => ?_
      simp only [Bool.not_eq_true] at hslash
      subst hslash
      exact .modify _ ⟨dir, name, hparent, Nat.not_lt.mp hlength, hget, hcheck, rfl⟩
  | _ => exact .refuse _

theorem unlink_does (cwd : WorkingDir) (p : Path) (t : FileTree) :
    Does (unlink cwd p) t fun _ after => ∃ dir name entry,
      t.resolveParent cwd p = .ok (dir, .name name false) ∧ name.length ≤ Path.nameLimit ∧
        t.get? (dir ++ [name]) = some entry ∧ entry ≠ .directory ∧ after = t.erase (dir ++ [name]) := by
  refine .look fun ⟨dir, last⟩ hparent => ?_
  cases last with
  | name name slash =>
    refine .check fun hlength => .get ?_
    cases hget : t.get? (dir ++ [name]) with
    | none => exact .refuse _
    | some entry =>
      cases slash with
      | true => cases entry <;> exact .refuse _
      | false =>
        cases entry with
        | directory => exact .refuse _
        | _ => exact .modify _ ⟨dir, name, _, hparent, Nat.not_lt.mp hlength, hget, by simp, rfl⟩
  | _ => exact .refuse _

theorem removeDir_does (cwd : WorkingDir) (p : Path) (t : FileTree) :
    Does (removeDir cwd p) t fun _ after => ∃ dir name slash,
      t.resolveParent cwd p = .ok (dir, .name name slash) ∧ name.length ≤ Path.nameLimit ∧
        t.get? (dir ++ [name]) = some .directory ∧ (t.below (dir ++ [name])).isEmpty = true ∧
        after = t.erase (dir ++ [name]) := by
  refine .look fun ⟨dir, last⟩ hparent => ?_
  cases last with
  | name name slash =>
    refine .check fun hlength => .get ?_
    cases hget : t.get? (dir ++ [name]) with
    | none => exact .refuse _
    | some entry =>
      cases entry with
      | directory =>
        refine .get <| .check fun hbelow => ?_
        exact .modify _ ⟨dir, name, slash, hparent, Nat.not_lt.mp hlength, hget, by simpa using hbelow, rfl⟩
      | _ => exact .refuse _
  | _ => exact .refuse _

/-- Removing a directory finds nothing only if its own directory or the entry is missing. -/
theorem removeDir_noEntry (h : (removeDir cwd p t).1 = .error (.os .noEntry)) :
    t.resolveParent cwd p = .error (.os .noEntry) ∨
      ∃ dir name slash, t.resolveParent cwd p = .ok (dir, .name name slash) ∧ t.get? (dir ++ [name]) = none := by
  rw [removeDir, run_bind, run_look] at h
  cases hparent : t.resolveParent cwd p with
  | error e =>
    rw [hparent] at h
    cases h
    exact .inl rfl
  | ok found =>
    obtain ⟨dir, last⟩ := found
    rw [hparent] at h
    cases last with
    | name name slash =>
      dsimp only at h
      by_cases hlength : Path.nameLimit < name.length
      · rw [if_pos hlength] at h
        cases h
      · rw [if_neg hlength, run_bind, run_get] at h
        cases hget : t.get? (dir ++ [name]) with
        | none => exact .inr ⟨dir, name, slash, rfl, hget⟩
        | some entry =>
          simp only [hget] at h
          cases entry with
          | directory =>
            dsimp only at h
            rw [run_bind, run_get] at h
            dsimp only at h
            split at h <;> cases h
          | _ => cases h
    | _ => cases h

theorem rename_does (cwd : WorkingDir) (source target : Path) (t : FileTree)
    (hfree : ∀ dir name slash, t.resolveParent cwd target = .ok (dir, .name name slash) →
      t.get? (dir ++ [name]) = none) :
    Does (rename cwd source target) t fun _ after =>
      ∃ sourceDir sourceName sourceSlash targetDir targetName targetSlash entry,
        t.resolveParent cwd source = .ok (sourceDir, .name sourceName sourceSlash) ∧
        t.resolveParent cwd target = .ok (targetDir, .name targetName targetSlash) ∧
        sourceName.length ≤ Path.nameLimit ∧ targetName.length ≤ Path.nameLimit ∧
        t.get? (sourceDir ++ [sourceName]) = some entry ∧
        (entry = .directory → ¬ sourceDir ++ [sourceName] <+: targetDir ++ [targetName]) ∧
        after = t.move (sourceDir ++ [sourceName]) (targetDir ++ [targetName]) := by
  refine .look fun _ _ => .look fun _ _ => .look fun ⟨sourceDir, sourceLast⟩ hsource =>
    .look fun ⟨targetDir, targetLast⟩ htarget => ?_
  cases sourceLast with
  | name sourceName sourceSlash =>
    cases targetLast with
    | name targetName targetSlash =>
      have hnew := hfree targetDir targetName targetSlash htarget
      refine .check fun hlength => .get ?_
      rw [Bool.or_eq_true, decide_eq_true_iff, decide_eq_true_iff, not_or, Nat.not_lt, Nat.not_lt] at hlength
      cases hold : t.get? (sourceDir ++ [sourceName]) with
      | none => exact .refuse _
      | some entry =>
        refine .check fun _ => .check fun hbelow => .check fun _ => ?_
        by_cases heq : sourceDir ++ [sourceName] = targetDir ++ [targetName]
        · rw [heq, hnew] at hold
          cases hold
        · rw [if_neg heq]
          refine .get ?_
          rw [hnew]
          refine .modify _ ⟨sourceDir, sourceName, sourceSlash, targetDir, targetName, targetSlash, entry, hsource,
            htarget, hlength.1, hlength.2, hold, ?_, rfl⟩
          rintro rfl habove
          exact hbelow (by simp [Entry.isDirectory, isBelow_iff, habove, heq])
    | _ => exact .refuse _
  | _ => cases targetLast <;> exact .refuse _

theorem truncate_does (cwd : WorkingDir) (executable : Bool) (p : Path) (t : FileTree) :
    Does (truncate cwd executable p) t fun location after => ∃ is,
      t.Opens cwd p location ∧ (∃ dir name, t.resolveParent cwd p = .ok (dir, .name name false)) ∧
        after = t.set location (.file [] is) := by
  refine .look fun ⟨dir, last⟩ hparent => ?_
  cases last with
  | name name slash =>
    cases slash with
    | true => exact .refuse _
    | false =>
      refine .look fun target hresolve => ?_
      cases target with
      | present location entry =>
        cases entry with
        | file content is => exact .edit _ ⟨is, .inl ⟨content, is, hresolve⟩, ⟨dir, name, hparent⟩, rfl⟩
        | _ => exact .refuse _
      | absent free last =>
        refine .check fun _ => ?_
        exact .edit _ ⟨executable, .inr ⟨free, last, rfl, hresolve⟩, ⟨dir, name, hparent⟩, rfl⟩
  | _ => exact .refuse _

namespace Opens

variable {location : Location} {content : Bytes} {is : Bool}

/-- Nothing is there but perhaps a file. -/
theorem file_or_none (h : t.Opens cwd p location) :
    t.get? location = none ∨ ∃ content is, t.get? location = some (.file content is) := by
  rcases h with ⟨content, is, hresolve⟩ | ⟨dir, name, rfl, hresolve⟩
  · exact .inr ⟨content, is, resolve_fits hresolve⟩
  · exact .inl (resolve_fits hresolve).2.1

theorem ne_nil (h : t.Opens cwd p location) : location ≠ [] := by
  rintro rfl
  rcases h.file_or_none with hnone | ⟨content, is, hget⟩
  · simp at hnone
  · simp at hget

theorem ne_of_get? {other : Location} {entry : Entry} (h : t.Opens cwd p location)
    (hget : t.get? other = some entry) (hfile : ∀ content is, entry ≠ .file content is) :
    other ≠ location := by
  rintro rfl
  rcases h.file_or_none with hnone | ⟨content, is, hthere⟩
  · rw [hnone] at hget
    cases hget
  · rw [hthere] at hget
    cases hget
    exact hfile content is rfl

/-- Writing there changes no directory and no link. -/
theorem keeps (h : t.Opens cwd p location) (entry : Entry) : t.Keeps (t.set location entry) :=
  keeps_set h.ne_nil (fun hget => h.ne_of_get? hget (by simp) rfl)
    (fun _ hget => h.ne_of_get? hget (by simp) rfl) entry

theorem resolve (h : t.Opens cwd p location) : ∃ target, t.resolve cwd true p = .ok target ∧
    target.location = location := by
  rcases h with ⟨content, is, hresolve⟩ | ⟨dir, name, rfl, hresolve⟩
  · exact ⟨_, hresolve, rfl⟩
  · exact ⟨_, hresolve, rfl⟩

/-- After writing the path leads to the file. -/
theorem stat_set (h : t.Opens cwd p location) (content : Bytes) (is : Bool) :
    (t.set location (.file content is)).stat cwd p = .ok (location, .file content is) := by
  have hget := get?_set_self t (.file content is) h.ne_nil
  have hkeeps := h.keeps (.file content is)
  rw [stat_eq_ok_iff]
  rcases h with ⟨_, _, hresolve⟩ | ⟨dir, name, rfl, hresolve⟩
  · exact hkeeps.resolve hresolve (.present hget fun _ => rfl)
  · exact hkeeps.resolve hresolve (.put hget rfl)

theorem of_stat (h : t.stat cwd p = .ok (location, .file content is)) : t.Opens cwd p location :=
  .inl ⟨content, is, stat_eq_ok_iff.mp h⟩

/-- Where the path leads to something, that is what is opened. -/
theorem eq_of_stat {place : Location} {entry : Entry} (h : t.Opens cwd p location)
    (hstat : t.stat cwd p = .ok (place, entry)) : location = place := by
  have hresolve := stat_eq_ok_iff.mp hstat
  rcases h with ⟨_, _, hopened⟩ | ⟨_, _, -, hopened⟩
  · rw [hopened] at hresolve
    cases hresolve
    rfl
  · rw [hopened] at hresolve
    cases hresolve

end Opens

@[simp] theorem fill_eq {ε : Type} {location : Location} {old : Bytes} {is : Bool}
    (hget : t.get? location = some (.file old is)) (content : Bytes) :
    (fill location content : TreeM ε Unit) t = (.ok (), t.set location (.file content is)) := by
  rw [fill, run_modify, hget]

theorem read_of_stat {location : Location} {content : Bytes} {is : Bool}
    (h : t.stat cwd p = .ok (location, .file content is)) : t.read cwd p = .ok content := by
  rw [read, h]
  rfl

/-- Writing a file fails before anything changes, or leaves the content where the path leads. -/
theorem write_does (cwd : WorkingDir) (p : Path) (content : Bytes) (t : FileTree) :
    Does (write cwd p content) t fun _ after => ∃ location is,
      t.Opens cwd p location ∧ (∃ dir name, t.resolveParent cwd p = .ok (dir, .name name false)) ∧
        after = t.set location (.file content is) := by
  rcases truncate_does cwd false p t with ⟨e, hrun⟩ | ⟨location, _, hrun, is, hopens, hparent, rfl⟩
  · exact .inl ⟨e, by rw [write, run_bind, hrun]⟩
  · refine .inr ⟨(), _, ?_, location, is, hopens, hparent, rfl⟩
    rw [write, run_bind, hrun]
    dsimp only
    rw [fill_eq (get?_set_self t _ hopens.ne_nil), set_set]

/-- What a write that succeeds has done. -/
theorem write_eq_ok {content : Bytes} {after : FileTree} (h : write cwd p content t = (.ok (), after)) :
    ∃ location is, t.Opens cwd p location ∧ (∃ dir name, t.resolveParent cwd p = .ok (dir, .name name false)) ∧
      after = t.set location (.file content is) := by
  rcases write_does cwd p content t with ⟨e, hrun⟩ | ⟨_, _, hrun, hdone⟩
  · rw [hrun] at h
    cases h
  · rw [hrun] at h
    cases h
    exact hdone

namespace Storage

variable {storage : Storage}

theorem write_refused {errno : Errno} (h : storage.refusal? t p = some errno) (cwd : WorkingDir) (content : Bytes) :
    storage.write cwd p content t = (.error (.os errno), t) := by
  rw [write, run_bind, run_get]
  dsimp only
  rw [h]
  rfl

theorem write_granted (h : storage.refusal? t p = none) (cwd : WorkingDir) (content : Bytes) :
    storage.write cwd p content t = FileTree.write cwd p content t := by
  rw [write, run_bind, run_get]
  dsimp only
  rw [h]

/-- What storage lets be written is written as ever. -/
theorem write_does (storage : Storage) (cwd : WorkingDir) (p : Path) (content : Bytes) (t : FileTree) :
    Refused (storage.write cwd p content) t ∨ ∃ after, storage.refusal? t p = none ∧
      storage.write cwd p content t = (.ok (), after) ∧ FileTree.write cwd p content t = (.ok (), after) := by
  cases h : storage.refusal? t p with
  | some errno => exact .inl ⟨_, write_refused h cwd content⟩
  | none =>
    rw [Refused, write_granted h]
    rcases FileTree.write_does cwd p content t with hrefused | ⟨_, after, hrun, -⟩
    · exact .inl hrefused
    · exact .inr ⟨after, rfl, hrun, hrun⟩

theorem write_eq_ok {content : Bytes} {after : FileTree} (h : storage.write cwd p content t = (.ok (), after)) :
    FileTree.write cwd p content t = (.ok (), after) := by
  rcases storage.write_does cwd p content t with ⟨e, hrefused⟩ | ⟨_, -, hgranted, hrun⟩
  · rw [h] at hrefused
    cases hrefused
  · cases h.symm.trans hgranted
    exact hrun

end Storage

theorem checkPath_of_read {content : Bytes} (h : t.read cwd p = .ok content) : checkPath p = .ok () := by
  rw [read] at h
  cases hstat : t.stat cwd p with
  | error e =>
    rw [hstat] at h
    cases h
  | ok found => exact (resolve_eq_ok_iff.mp (stat_eq_ok_iff.mp hstat)).1

end DebRelease.FileTree
