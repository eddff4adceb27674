import DebRelease.Proofs.FileTree.Outside
import DebRelease.Proofs.FileTree.Transfer

namespace DebRelease.FileTree

open TreeM

variable {ε ε' α β : Type} {t t' : FileTree} {places : List Location} {place : Location} {cwd : WorkingDir}
    {p source target : Path} {m : TreeM ε α} {act : α → TreeM ε β} {entry : Entry}

/-- The computation comes to the same without what lies at or below the places. -/
def Ignores (places : List Location) (m : TreeM ε α) (t : FileTree) : Prop :=
  m (t.outside places) = ((m t).1, (m t).2.outside places)

namespace Ignores

theorem pure (a : α) : Ignores places (pure a : TreeM ε α) t := rfl

theorem throw (e : ε) : Ignores places (throw e : TreeM ε α) t := rfl

theorem refuse (errno : Errno) : Ignores places (refuse errno : TreeM SystemError α) t := rfl

theorem bind (hm : Ignores places m t) (hact : ∀ a t', m t = (.ok a, t') → Ignores places (act a) t') :
    Ignores places (m >>= act) t := by
  rw [Ignores, run_bind, run_bind, hm]
  cases hrun : m t with
  | mk outcome t' =>
    cases outcome with
    | error e => rfl
    | ok a => exact hact a t' hrun

/-- The same where it is known what the first computation changes. -/
theorem step {changed : List Location} {P : α → FileTree → Prop} (hm : Ignores places m t) (h : Alters changed m t P)
    (hact : ∀ a t', t'.WellFormed → Within changed t t' → P a t' → Ignores places (act a) t') :
    Ignores places (m >>= act) t := by
  refine hm.bind fun a t' hrun => ?_
  obtain ⟨hwf, hwithin, hresult⟩ := h
  rw [hrun] at hwf hwithin hresult
  exact hact a t' hwf hwithin (hresult rfl)

theorem look {f : FileTree → Except ε α} (hf : f (t.outside places) = f t)
    (hact : ∀ a, f t = .ok a → Ignores places (act a) t) : Ignores places (TreeM.look f >>= act) t := by
  refine bind (by simp [Ignores, hf]) fun a t' hrun => ?_
  rw [run_look] at hrun
  obtain ⟨hok, rfl⟩ := Prod.mk.inj hrun
  exact hact a hok

theorem get {act : FileTree → TreeM ε α} (hact : act (t.outside places) = act t) (h : Ignores places (act t) t) :
    Ignores places (MonadState.get >>= act) t := by
  rw [Ignores, run_bind, run_bind, run_get, run_get]
  dsimp only
  rw [hact, h]

theorem modify {f : FileTree → FileTree} (hf : f (t.outside places) = (f t).outside places) :
    Ignores places (modify f : TreeM ε Unit) t := by
  rw [Ignores, run_modify, run_modify, hf]

theorem check {c : Prop} [Decidable c] {errno : Errno} {m : TreeM SystemError α} (h : ¬ c → Ignores places m t) :
    Ignores places (if c then TreeM.refuse errno >>= fun _ : PUnit => m else m) t := by
  by_cases hc : c
  · rw [if_pos hc]
    rfl
  · rw [if_neg hc]
    exact h hc

theorem attempt (h : Ignores places m t) : Ignores places (TreeM.attempt m : TreeM ε' (Except ε α)) t := by
  rw [Ignores, run_attempt, run_attempt, h]

theorem describe (h : Ignores places m t) (f : ε → ε') : Ignores places (m.describe f) t := by
  rw [Ignores, run_describe, run_describe, h]

end Ignores

/-- A direct path, without links in its way, to a place that is not at or below some places. -/
structure Misses (t : FileTree) (places : List Location) (p : Path) : Prop where
  direct : p.IsDirect
  plain : t.IsPlain p.place
  out : ∀ place ∈ places, ¬ place <+: p.place

namespace Misses

variable {last : Bool}

/-- What lies at or below the places plays no part in that. -/
theorem congr (h : t.Misses places p) (hsame : t'.outside places = t.outside places) : t'.Misses places p := by
  refine ⟨h.direct, h.plain.congr fun above hpre => ?_, h.out⟩
  have hout : ∀ place ∈ places, ¬ place <+: above := fun place hmem habove => h.out place hmem (habove.trans hpre)
  rw [← get?_outside_of_out t' hout, hsame, get?_outside_of_out t hout]

theorem get?_of_prefix (h : t.Misses places p) {above : Location} (hpre : above <+: p.place) :
    (t.outside places).get? above = t.get? above :=
  get?_outside_of_out t fun place hmem habove => h.out place hmem (habove.trans hpre)

theorem get? (h : t.Misses places p) : (t.outside places).get? p.place = t.get? p.place :=
  h.get?_of_prefix List.prefix_rfl

theorem resolve (h : t.Misses places p) : (t.outside places).resolve cwd last p = t.resolve cwd last p :=
  resolve_congr h.direct h.plain fun _ => h.get?_of_prefix

theorem resolveParent (h : t.Misses places p) : (t.outside places).resolveParent cwd p = t.resolveParent cwd p :=
  resolveParent_congr h.direct h.plain fun _ => h.get?_of_prefix

theorem stat (h : t.Misses places p) : (t.outside places).stat cwd p = t.stat cwd p := by
  rw [FileTree.stat, FileTree.stat, h.resolve]

theorem lstat (h : t.Misses places p) : (t.outside places).lstat cwd p = t.lstat cwd p := by
  rw [FileTree.lstat, FileTree.lstat, h.resolve]

theorem readLink (h : t.Misses places p) : (t.outside places).readLink cwd p = t.readLink cwd p := by
  rw [FileTree.readLink, FileTree.readLink, h.lstat]

theorem isDir (h : t.Misses places p) : (t.outside places).isDir cwd p = t.isDir cwd p := by
  rw [FileTree.isDir, FileTree.isDir, h.stat]

theorem read (h : t.Misses places p) : (t.outside places).read cwd p = t.read cwd p := by
  rw [FileTree.read, FileTree.read, h.stat]

theorem exists? (h : t.Misses places p) : (t.outside places).exists? cwd p = t.exists? cwd p := by
  rw [FileTree.exists?, FileTree.exists?, h.stat]

theorem parent {dir : Location} {name : Bytes} {slash : Bool} (h : t.Misses places p)
    (hparent : t.resolveParent cwd p = .ok (dir, .name name slash)) :
    (∀ place ∈ places, ¬ place <+: dir ++ [name]) ∧
      (t.outside places).get? (dir ++ [name]) = t.get? (dir ++ [name]) := by
  rw [resolveParent_place h.direct h.plain hparent]
  exact ⟨h.out, h.get?⟩

end Misses

theorem ignores_makeDir (cwd : WorkingDir) (h : t.Misses places p) : Ignores places (makeDir cwd p) t := by
  refine .look h.resolveParent fun ⟨dir, last⟩ hparent => ?_
  cases last with
  | name name slash =>
    obtain ⟨hout, hget⟩ := h.parent hparent
    refine .check fun _ => .get (by rw [hget]) ?_
    cases t.get? (dir ++ [name]) with
    | some entry => exact .refuse _
    | none => exact .modify (outside_set t _ hout).symm
  | _ => exact .refuse _

theorem ignores_makeLink (cwd : WorkingDir) (link : Path) (h : t.Misses places p) :
    Ignores places (makeLink cwd link p) t := by
  refine .look rfl fun _ _ => .look h.resolveParent fun ⟨dir, last⟩ hparent => ?_
  cases last with
  | name name slash =>
    obtain ⟨hout, hget⟩ := h.parent hparent
    refine .check fun _ => .get (by rw [hget]) ?_
    cases t.get? (dir ++ [name]) with
    | some entry => exact .refuse _
    | none => exact .check fun _ => .modify (outside_set t _ hout).symm
  | _ => exact .refuse _

theorem ignores_unlink (cwd : WorkingDir) (h : t.Misses places p) : Ignores places (unlink cwd p) t := by
  refine .look h.resolveParent fun ⟨dir, last⟩ hparent => ?_
  cases last with
  | name name slash =>
    obtain ⟨hout, hget⟩ := h.parent hparent
    refine .check fun _ => .get (by rw [hget]) ?_
    cases t.get? (dir ++ [name]) with
    | none => exact .refuse _
    | some entry =>
      cases entry with
      | directory => exact .refuse _
      | _ => exact .check fun _ => .modify (outside_erase t _ _).symm
  | _ => exact .refuse _

theorem ignores_removeDir (cwd : WorkingDir) (h : t.Misses places p)
    (hseparate : ∀ place ∈ places, Separate place p.place) : Ignores places (removeDir cwd p) t := by
  refine .look h.resolveParent fun ⟨dir, last⟩ hparent => ?_
  cases last with
  | name name slash =>
    have hplace := resolveParent_place h.direct h.plain hparent
    obtain ⟨hout, hget⟩ := h.parent hparent
    refine .check fun _ => .get (by rw [hget]) ?_
    cases t.get? (dir ++ [name]) with
    | none => exact .refuse _
    | some entry =>
      cases entry with
      | directory =>
        have hbelow := below_outside t (hplace ▸ hseparate)
        refine .get (by rw [hbelow]) <| .check fun _ => ?_
        exact .modify (outside_erase t _ _).symm
      | _ => exact .refuse _
  | _ => exact .refuse _

theorem ignores_truncate (cwd : WorkingDir) (executable : Bool) (h : t.Misses places p) :
    Ignores places (truncate cwd executable p) t := by
  refine .look h.resolveParent fun ⟨dir, last⟩ hparent => ?_
  cases last with
  | name name slash =>
    cases slash with
    | true => exact .refuse _
    | false =>
      refine .look h.resolve fun found hresolve => ?_
      have hplace : found.location = p.place := resolve_place h.direct h.plain hresolve
      cases found with
      | present location entry =>
        obtain rfl : location = p.place := hplace
        cases entry with
        | file content is => exact .bind (.modify (outside_set t _ h.out).symm) fun _ _ _ => .pure _
        | _ => exact .refuse _
      | absent free last =>
        have hplace : free ++ [last] = p.place := hplace
        have hout := h.out
        rw [← hplace] at hout
        exact .check fun _ => .bind (.modify (outside_set t _ hout).symm) fun _ _ _ => .pure _
  | _ => exact .refuse _

theorem ignores_fill (content : Bytes) (h : ∀ other ∈ places, ¬ other <+: place) :
    Ignores places (fill place content : TreeM ε Unit) t := by
  refine .modify ?_
  rw [get?_outside_of_out t h]
  cases t.get? place with
  | none => rfl
  | some entry =>
    cases entry with
    | file old is => exact (outside_set t _ h).symm
    | _ => rfl

theorem ignores_write (cwd : WorkingDir) (content : Bytes) (hwf : t.WellFormed) (h : t.Misses places p) :
    Ignores places (write cwd p content) t := by
  refine (ignores_truncate cwd false h).bind fun location t' hrun => ?_
  rcases truncate_at cwd false hwf h.direct h.plain with ⟨e, hrefused⟩ | ⟨is, hdone, -, -, -⟩
  · rw [hrefused] at hrun
    cases hrun
  · rw [hdone] at hrun
    cases hrun
    exact ignores_fill content h.out

private theorem ignores_isDir (cwd : WorkingDir) (h : t.Misses places p) (e : SystemError) :
    Ignores places (do if (← get).isDir cwd p then pure () else throw e : TreeM SystemError Unit) t := by
  refine .get (by rw [h.isDir]) ?_
  split <;> rfl

/-- Trying to make a directory, and doing something else if that is refused. -/
private theorem ignores_attempt {act : SystemError → TreeM SystemError Unit} (h : t.Misses places p)
    (hact : ∀ e, Ignores places (act e) t) :
    Ignores places (do
      match ← attempt (makeDir cwd p) with
      | .ok () => pure ()
      | .error e => act e) t := by
  refine (ignores_makeDir cwd h).attempt.bind fun outcome t' hrun => ?_
  cases outcome with
  | ok => rfl
  | error e =>
    rw [run_attempt] at hrun
    rcases makeDir_does cwd p t with ⟨e', hrefused⟩ | ⟨_, _, hdone, -⟩
    · rw [hrefused] at hrun
      cases hrun
      exact hact e
    · rw [hdone] at hrun
      cases hrun

theorem ignores_makeDirsUpTo (cwd : WorkingDir) (parents : Nat) (hwf : t.WellFormed) (h : t.Misses places p) :
    Ignores places (makeDirsUpTo cwd parents p) t := by
  induction parents generalizing p t with
  | zero =>
    rw [makeDirsUpTo, if_neg (by simp [bytes_isEmpty h.direct])]
    refine ignores_attempt h fun e => ?_
    split
    · rfl
    · exact ignores_isDir cwd h e
  | succ parents ih =>
    rw [makeDirsUpTo, if_neg (by simp [bytes_isEmpty h.direct])]
    refine ignores_attempt h fun e => ?_
    split
    · cases hparent : p.parent? with
      | none => rfl
      | some above =>
        obtain ⟨habove, hplace⟩ := h.direct.parent hparent
        have hpre : above.place <+: p.place := hplace ▸ List.dropLast_prefix _
        have hmisses : t.Misses places above :=
          ⟨habove, h.plain.of_prefix hpre, fun place hmem hin => h.out place hmem (hin.trans hpre)⟩
        refine (ih hwf hmisses).bind fun _ t' hrun => ?_
        obtain ⟨-, hmakes, -⟩ := makeDirsUpTo_makes cwd parents hwf habove hmisses.plain
        rw [hrun] at hmakes
        have hmisses' : t'.Misses places p := ⟨h.direct, hmakes.isPlain h.plain, h.out⟩
        exact ignores_attempt hmisses' fun e => ignores_isDir cwd hmisses' e
    · exact ignores_isDir cwd h e

theorem ignores_makeDirs (cwd : WorkingDir) (hwf : t.WellFormed) (h : t.Misses places p) :
    Ignores places (makeDirs cwd p) t :=
  ignores_makeDirsUpTo cwd _ hwf h

private theorem ignores_removeAllAt (cwd : WorkingDir) (h : t.Misses places p)
    (hseparate : ∀ place ∈ places, Separate place p.place) : Ignores places (removeAllAt cwd p) t := by
  refine .look h.lstat fun ⟨location, entry⟩ _ => ?_
  cases entry with
  | symlink link => exact ignores_unlink cwd h
  | file content is => exact .refuse _
  | directory =>
    refine .bind (.modify (outside_clear t _ _).symm) fun _ t' hrun => ?_
    obtain rfl : t.clear location = t' := (Prod.mk.inj hrun).2
    have hmisses : (t.clear location).Misses places p := ⟨h.direct, isPlain_clear h.plain _, h.out⟩
    refine (ignores_removeDir cwd hmisses hseparate).attempt.bind fun outcome _ _ => ?_
    cases outcome with
    | ok => rfl
    | error e => cases hfound : e.isNotFound <;> simp only [hfound] <;> rfl

theorem ignores_removeAll (cwd : WorkingDir) (h : t.Misses places p)
    (hseparate : ∀ place ∈ places, Separate place p.place) : Ignores places (removeAll cwd p) t := by
  refine (ignores_removeAllAt cwd h hseparate).attempt.bind fun outcome _ _ => ?_
  cases outcome with
  | ok => rfl
  | error e => cases hfound : e.isNotFound <;> simp only [hfound] <;> rfl

theorem ignores_requireDir (cwd : WorkingDir) (h : t.Misses places p) : Ignores places (requireDir cwd p) t := by
  refine .get (by rw [h.isDir]) ?_
  dsimp only
  split <;> rfl

theorem ignores_makeParent (cwd : WorkingDir) (hwf : t.WellFormed) (h : t.Misses places p) :
    Ignores places (makeParent cwd p) t := by
  rw [makeParent]
  cases hparent : p.parent? with
  | none => rfl
  | some parent =>
    obtain ⟨habove, hplace⟩ := h.direct.parent hparent
    have hpre : parent.place <+: p.place := hplace ▸ List.dropLast_prefix _
    exact (ignores_makeDirs cwd hwf ⟨habove, h.plain.of_prefix hpre,
      fun place hmem hin => h.out place hmem (hin.trans hpre)⟩).describe _

theorem ignores_copyFile (cwd : WorkingDir) (hwf : t.WellFormed) (hsource : t.Misses places source)
    (htarget : t.Misses places target) : Ignores places (copyFile cwd source target) t := by
  refine .look hsource.stat fun ⟨location, entry⟩ hstat => ?_
  have hplace : location = source.place :=
    resolve_place hsource.direct hsource.plain (stat_eq_ok_iff.mp hstat)
  cases entry with
  | file old executable =>
    refine (ignores_truncate cwd executable htarget).bind fun new t' hrun => ?_
    have hnew : new = target.place := by
      rcases truncate_at cwd executable hwf htarget.direct htarget.plain with ⟨e, hrefused⟩ | ⟨is, hdone, -⟩
      · rw [hrefused] at hrun
        cases hrun
      · rw [hdone] at hrun
        cases hrun
        rfl
    subst hplace hnew
    refine .bind (.modify ?_) fun _ t'' _ => .get (by rw [get?_outside_of_out t'' hsource.out]) ?_
    · rw [get?_outside_of_out t' htarget.out]
      rcases t'.get? target.place with _ | _ | ⟨content, _⟩ | _
      case some.file => exact (outside_set t' _ htarget.out).symm
      all_goals rfl
    · rcases t''.get? source.place with _ | _ | ⟨content, _⟩ | _
      case some.file => exact ignores_fill content htarget.out
      all_goals rfl
  | _ => exact .throw _

/-- What is copied may be a link, as long as the way to it has none. -/
theorem ignores_copyEntry (cwd : WorkingDir) (hwf : t.WellFormed)
    (hlink : (t.outside places).readLink cwd source = t.readLink cwd source)
    (hsource : ∀ content is, entry = .file content is → t.Misses places source) (htarget : t.Misses places target) :
    Ignores places (copyEntry cwd entry source target) t := by
  cases entry with
  | directory => exact (ignores_makeDirs cwd hwf htarget).describe _
  | file content executable => exact (ignores_copyFile cwd hwf (hsource _ _ rfl) htarget).describe _
  | symlink link => exact .look (by rw [hlink]) fun linked _ => (ignores_makeLink cwd linked htarget).describe _

theorem listEntries_outside (cwd : WorkingDir) (h : t.Misses places p)
    (hseparate : ∀ place ∈ places, Separate place p.place) :
    (t.outside places).listEntries cwd p = t.listEntries cwd p := by
  rw [listEntries, listEntries, h.stat]
  cases hstat : t.stat cwd p with
  | error e => rfl
  | ok found =>
    obtain ⟨location, entry⟩ := found
    have hplace : location = p.place := resolve_place h.direct h.plain (stat_eq_ok_iff.mp hstat)
    cases entry with
    | directory =>
      subst hplace
      have hget (name : Bytes) : (t.outside places).get? (p.place ++ [name]) = t.get? (p.place ++ [name]) :=
        get?_outside_of_out t fun place hmem =>
          not_prefix_of_separate (hseparate place hmem) (List.prefix_append _ _)
      simp only [bind, Except.bind, childNames_outside t hseparate, hget]
    | _ => rfl

end DebRelease.FileTree
