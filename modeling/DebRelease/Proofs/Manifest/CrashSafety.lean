import DebRelease.Proofs.FileTree.Changes
import DebRelease.Proofs.Manifest.Steps

namespace DebRelease

open FileTree

variable {cwd : WorkingDir} {t : FileTree} {p : Path} {content : Bytes} {location : Location}

/-- The path is that of a file, not of a link, with the given content. -/
def FileTree.Holds (t : FileTree) (cwd : WorkingDir) (p : Path) (content : Bytes) : Prop :=
  ∃ location executable, t.lstat cwd p = .ok (location, .file content executable)

namespace Manifest

/-- Why a manifest with a backup is not touched. -/
def staleBackup (manifest : Path) : Failure :=
  let stale := (backupOf manifest).display
  let shown := manifest.display
  .plain (s!"stale manifest backup {stale} from an interrupted run; " ++
    s!"restore {shown} from it (or delete it) and rerun")

/-- A manifest that a backup stands against is refused, whatever the backup is, and nothing is written. -/
theorem Guard.acquireOn_of_stat {σ : Type} (storage : Storage) (version : String) {s : Session σ}
    {found : Location × Entry} (h : s.tree.stat cwd (backupOf p) = .ok found) :
    Guard.acquireOn storage cwd p version s = (.error (staleBackup p), s) := by
  have hexists : s.tree.exists? cwd (backupOf p) = .ok true := by
    rw [exists?, h]
  have hprepare : Guard.prepare cwd p version s.tree = .error (staleBackup p) := by
    rw [Guard.prepare, hexists]
    rfl
  rw [Guard.acquireOn, RunM.run_bind, RunM.run_onTree, TreeM.run_look, hprepare]

theorem Guard.acquire_of_stat {σ : Type} (version : String) {s : Session σ} {found : Location × Entry}
    (h : s.tree.stat cwd (backupOf p) = .ok found) :
    Guard.acquire cwd p version s = (.error (staleBackup p), s) :=
  acquireOn_of_stat .willing version h

theorem Guard.acquire_of_backup {σ : Type} (version : String) {s : Session σ}
    (h : s.tree.Holds cwd (backupOf p) content) :
    Guard.acquire cwd p version s = (.error (staleBackup p), s) := by
  obtain ⟨location, executable, hlstat⟩ := h
  exact acquire_of_stat version (stat_of_lstat rfl hlstat)

/-- Either the manifest or its backup holds the original bytes. -/
def Safe (cwd : WorkingDir) (g : Guard) (t : FileTree) : Prop :=
  t.read cwd g.manifest = .ok g.content ∨ t.Holds cwd g.backup g.content

/-- The backup holds the original bytes, and the manifest does not lead to it. -/
structure Backed (cwd : WorkingDir) (g : Guard) (place : Location) (t : FileTree) : Prop where
  backup : ∃ executable, t.lstat cwd g.backup = .ok (place, .file g.content executable)
  apart : ∀ entry, t.stat cwd g.manifest ≠ .ok (place, entry)

namespace Backed

variable {g : Guard} {place : Location}

theorem safe (h : Backed cwd g place t) : Safe cwd g t := by
  obtain ⟨executable, hlstat⟩ := h.backup
  exact .inr ⟨place, executable, hlstat⟩

/-- Writing where the manifest leads keeps the backup. -/
theorem set (h : Backed cwd g place t) (hopens : t.Opens cwd g.manifest location) (content : Bytes)
    (is : Bool) : Backed cwd g place (t.set location (.file content is)) := by
  obtain ⟨executable, hlstat⟩ := h.backup
  have hget : t.get? place = some (.file g.content executable) := resolve_fits (lstat_eq_ok_iff.mp hlstat)
  have hne : place ≠ location := by
    rintro rfl
    rcases hopens with ⟨old, was, hresolve⟩ | ⟨dir, name, rfl, hresolve⟩
    · exact h.apart _ (stat_eq_ok_iff.mpr hresolve)
    · rw [(resolve_fits hresolve).2.1] at hget
      cases hget
  constructor
  · refine ⟨executable, (hopens.keeps _).lstat hlstat ?_ fun _ => rfl⟩
    rw [get?_set_of_ne t _ hopens.ne_nil hne, hget]
  · intro entry hstat
    rw [hopens.stat_set content is] at hstat
    cases hstat
    exact hne rfl

end Backed

/-- Removing the backup keeps what the manifest leads to. -/
theorem Backed.read_after_unlink {g : Guard} {place : Location} {is : Bool} (h : Backed cwd g place t)
    (hstat : t.stat cwd g.manifest = .ok (location, .file content is)) :
    ((unlink cwd g.backup t).2).read cwd g.manifest = .ok content := by
  rcases unlink_does cwd g.backup t with ⟨e, hrun⟩ | ⟨_, _, hrun, dir, name, entry, hparent, hlength, hget, -, rfl⟩
  · rw [hrun]
    exact read_of_stat hstat
  · obtain ⟨executable, hlstat⟩ := h.backup
    have hfound := lstat_eq_ok_iff.mpr (resolve_of_parent_present hparent hlength hget (by simp))
    rw [hlstat] at hfound
    cases hfound
    have hne : location ≠ dir ++ [name] := by
      rintro rfl
      exact h.apart _ hstat
    have hkeeps : t.Keeps (t.erase (dir ++ [name])) :=
      keeps_erase (by simp) (by simp [hget]) (by simp [hget])
    have hthere := resolve_fits (stat_eq_ok_iff.mp hstat)
    rw [hrun]
    have hkept : (t.erase (dir ++ [name])).get? location = some (.file content is) := by
      rw [get?_erase t (by simp), if_neg hne]
      exact hthere
    exact read_of_stat (hkeeps.stat hstat hkept fun _ => rfl)

namespace Steps

variable {α : Type} {g : Guard} {place : Location}

/-- While the manifest is written the backup stands. -/
theorem safe_write (content : Bytes) (next : Except SystemError Unit → Steps α) (h : Backed cwd g place t)
    (herror : ∀ e, ∀ x ∈ (next (.error e)).trees cwd t, Safe cwd g x)
    (hok : ∀ after location is, Backed cwd g place after →
      after.stat cwd g.manifest = .ok (location, .file content is) →
      ∀ x ∈ (next (.ok ())).trees cwd after, Safe cwd g x) :
    ∀ x ∈ (write g.manifest content next).trees cwd t, Safe cwd g x := by
  intro x hx
  rw [write] at hx
  rcases truncate_does cwd false g.manifest t with ⟨e, hrun⟩ | ⟨location, _, hrun, is, hopens, -, rfl⟩
  · rw [trees_truncate hrun] at hx
    rcases List.mem_cons.mp hx with rfl | hx
    · exact h.safe
    · exact herror e x hx
  · rw [trees_truncate hrun] at hx
    have hemptied := h.set hopens [] is
    have hstat := hopens.stat_set [] is
    rcases List.mem_cons.mp hx with rfl | hx
    · exact h.safe
    dsimp only at hx
    rw [trees, fill_eq (resolve_fits (stat_eq_ok_iff.mp hstat)) content] at hx
    rcases List.mem_cons.mp hx with rfl | hx
    · exact hemptied.safe
    · have hopens' : (t.set location (.file [] is)).Opens cwd g.manifest location := .of_stat hstat
      exact hok _ location is (hemptied.set hopens' content is) (hopens'.stat_set content is) x hx

/-- Where the manifest was written the backup still stands. -/
theorem run_write_backed (content : Bytes) (next : Except SystemError Unit → Steps α)
    (h : Backed cwd g place t) :
    (∃ e, (write g.manifest content next).run cwd t = (next (.error e)).run cwd t) ∨
      ∃ after, Backed cwd g place after ∧
        (write g.manifest content next).run cwd t = (next (.ok ())).run cwd after := by
  rw [write]
  rcases truncate_does cwd false g.manifest t with ⟨e, hrun⟩ | ⟨location, _, hrun, is, hopens, -, rfl⟩
  · exact .inl ⟨e, run_truncate hrun⟩
  · have hstat := hopens.stat_set [] is
    refine .inr ⟨_, (h.set hopens [] is).set (.of_stat hstat) content is, ?_⟩
    rw [run_truncate hrun]
    dsimp only
    rw [run, fill_eq (resolve_fits (stat_eq_ok_iff.mp hstat)) content]

theorem safe_drop (h : Backed cwd g place t) (result : α) :
    ∀ x ∈ (drop g result).trees cwd t, Safe cwd g x := by
  refine safe_write _ _ h (fun e x hx => ?_) fun after location is hafter hstat x hx => ?_
  · rw [List.mem_singleton.mp hx]
    exact h.safe
  · have hread := hafter.read_after_unlink hstat
    cases hrun : FileTree.unlink cwd g.backup after with
    | mk outcome removed =>
      rw [hrun] at hread
      rw [trees_unlink hrun] at hx
      rcases List.mem_cons.mp hx with rfl | hx
      · exact hafter.safe
      · rw [List.mem_singleton.mp hx]
        exact .inl hread

theorem safe_restore (h : Backed cwd g place t) : ∀ x ∈ (restore g).trees cwd t, Safe cwd g x := by
  refine safe_write _ _ h (fun e => safe_drop h _) fun after location is hafter hstat x hx => ?_
  have hread := hafter.read_after_unlink hstat
  cases hrun : FileTree.unlink cwd g.backup after with
  | mk outcome removed =>
    rw [hrun] at hread
    rw [trees_unlink hrun] at hx
    rcases List.mem_cons.mp hx with rfl | hx
    · exact hafter.safe
    · have hremoved : x = removed := by
        cases outcome with
        | ok => exact List.mem_singleton.mp hx
        | error e =>
          dsimp only at hx
          split at hx <;> exact List.mem_singleton.mp hx
      rw [hremoved]
      exact .inl hread

/-- Where there is no backup, writing it makes it. -/
theorem backed_of_opens {e : SystemError} (is : Bool) (hcontent : t.Holds cwd g.manifest g.content)
    (hbackup : t.lstat cwd g.backup = .error e)
    (hparent : ∃ dir name, t.resolveParent cwd g.backup = .ok (dir, .name name false))
    (hopens : t.Opens cwd g.backup location) :
    (t.set location (.file [] is)).read cwd g.manifest = .ok g.content ∧
      Backed cwd g location ((t.set location (.file [] is)).set location (.file g.content is)) := by
  obtain ⟨dir, name, hparent⟩ := hparent
  obtain ⟨place, executable, hmanifest⟩ := hcontent
  obtain ⟨_, hresolve, -⟩ := hopens.resolve
  have hlength := length_le_of_resolve hparent hresolve
  have hfree : location = dir ++ [name] ∧ t.get? location = none := by
    cases hget : t.get? (dir ++ [name]) with
    | some entry =>
      rw [lstat_eq_ok_iff.mpr (resolve_of_parent_present hparent hlength hget (by simp))] at hbackup
      cases hbackup
    | none =>
      have habsent := resolve_of_parent_absent hparent hlength hget true
      rcases hopens with ⟨_, _, hresolve⟩ | ⟨_, _, rfl, hresolve⟩
      · rw [habsent] at hresolve
        cases hresolve
      · rw [habsent] at hresolve
        cases hresolve
        exact ⟨rfl, hget⟩
  obtain ⟨hplace, hnone⟩ := hfree
  have hthere : t.get? place = some (.file g.content executable) :=
    resolve_fits (lstat_eq_ok_iff.mp hmanifest)
  have hne : place ≠ location := by
    rintro rfl
    rw [hnone] at hthere
    cases hthere
  have hemptied : (t.set location (.file [] is)).get? place = some (.file g.content executable) := by
    rw [get?_set_of_ne t _ hopens.ne_nil hne, hthere]
  have hstat := (hopens.keeps (.file [] is)).stat (stat_of_lstat rfl hmanifest) hemptied fun _ => rfl
  have hopens' : (t.set location (.file [] is)).Opens cwd g.backup location :=
    .of_stat (hopens.stat_set [] is)
  refine ⟨read_of_stat hstat, ⟨is, ?_⟩, fun entry hfound => ?_⟩
  · have hstands := (hopens'.keeps (.file g.content is)).resolveParent
      ((hopens.keeps (.file [] is)).resolveParent hparent)
    have hfilled := get?_set_self (t.set location (.file [] is)) (.file g.content is) hopens.ne_nil
    rw [hplace] at hstands hfilled ⊢
    exact lstat_eq_ok_iff.mpr (resolve_of_parent_present hstands hlength hfilled (by simp))
  · have hfilled := (hopens'.keeps (.file g.content is)).stat hstat
      (by rw [get?_set_of_ne _ _ hopens.ne_nil hne, hemptied]) fun _ => rfl
    rw [hfilled] at hfound
    cases hfound
    exact hne rfl

private theorem prepare_content {manifest : Path} {version : String} {found versioned : Bytes}
    (hcontent : t.read cwd manifest = .ok content)
    (h : Guard.prepare cwd manifest version t = .ok (found, versioned)) : found = content := by
  rw [Guard.prepare, hcontent] at h
  cases hexists : t.exists? cwd (backupOf manifest) with
  | error e =>
    rw [hexists] at h
    cases h
  | ok stale =>
    rw [hexists] at h
    cases stale with
    | true => cases h
    | false =>
      cases hversion : setVersion content version with
      | error e =>
        simp [bind, Except.bind, Failure.naming, Except.mapError, hversion] at h
      | ok bytes =>
        simp [bind, Except.bind, Failure.naming, Except.mapError, hversion] at h
        cases h
        rfl

/-- While the version is set in a manifest without backup, the original bytes are never lost. If that
    succeeds, the backup holds them. -/
theorem safe_acquire {manifest : Path} {e : SystemError} (version : String)
    (hcontent : t.Holds cwd manifest content) (hbackup : t.lstat cwd (backupOf manifest) = .error e) :
    (∀ x ∈ (acquire cwd manifest version t).trees cwd t, Safe cwd ⟨manifest, content⟩ x) ∧
      ∀ g held, (acquire cwd manifest version t).run cwd t = (.ok g, held) →
        g = ⟨manifest, content⟩ ∧ ∃ place, Backed cwd g place held := by
  have hread : t.read cwd manifest = .ok content := by
    obtain ⟨place, executable, hmanifest⟩ := hcontent
    exact read_of_stat (stat_of_lstat rfl hmanifest)
  rw [acquire]
  cases hprepare : Guard.prepare cwd manifest version t with
  | error e =>
    refine ⟨fun x hx => ?_, fun g held hrun => ?_⟩
    · rw [List.mem_singleton.mp hx]
      exact .inl hread
    · cases hrun
  | ok found =>
    obtain ⟨found, versioned⟩ := found
    obtain rfl := prepare_content hread hprepare
    dsimp only
    rw [guarding, write]
    let g : Guard := ⟨manifest, found⟩
    rcases truncate_does cwd false g.backup t with ⟨e, hrun⟩ | ⟨location, _, hrun, is, hopens, hparent, rfl⟩
    · rw [trees_truncate hrun, run_truncate hrun]
      refine ⟨fun x hx => ?_, fun g held hheld => ?_⟩
      · rcases List.mem_cons.mp hx with rfl | hx
        · exact .inl hread
        · rw [List.mem_singleton.mp hx]
          exact .inl hread
      · cases hheld
    · obtain ⟨hemptied, hbacked⟩ := backed_of_opens (g := g) is hcontent hbackup hparent hopens
      have hget := get?_set_self t (.file [] is) hopens.ne_nil
      rw [trees_truncate hrun, run_truncate hrun]
      dsimp only
      rw [trees, run, fill_eq hget found]
      constructor
      · intro x hx
        rcases List.mem_cons.mp hx with rfl | hx
        · exact .inl hread
        rcases List.mem_cons.mp hx with rfl | hx
        · exact .inl hemptied
        refine safe_write (g := g) versioned _ hbacked ?_ ?_ x hx
        · exact fun e => safe_drop hbacked _
        · intro after _ _ hafter _ x hx
          rw [List.mem_singleton.mp hx]
          exact hafter.safe
      · intro g' held hheld
        rcases run_write_backed (g := g) versioned _ hbacked with ⟨e, hwrite⟩ | ⟨after, hafter, hwrite⟩
        · dsimp only at hheld
          rw [hwrite] at hheld
          have hresult := drop_result cwd g
            (Except.error (.file "writing manifest" manifest e) : Except Failure Guard)
            ((t.set location (.file [] is)).set location (.file g.content is))
          dsimp only at hheld
          rw [hheld] at hresult
          cases hresult
        · dsimp only at hheld
          rw [hwrite] at hheld
          cases hheld
          exact ⟨rfl, location, hafter⟩

end Steps

/-- The trees that a guard's life passes through, wherever it ends: those of acquiring it, those that
    others leave while it lives, and those of restoring or dropping it. -/
def life {σ : Type} (cwd : WorkingDir) (manifest : Path) (version : String) (s : Session σ)
    (between : List FileTree) (restores : Bool) : List FileTree :=
  (Steps.acquire cwd manifest version s.tree).trees cwd s.tree ++
    match Guard.acquire cwd manifest version s with
    | (.error _, _) => []
    | (.ok g, held) =>
      let reached := between.getLast?.getD held.tree
      between ++ if restores then (Steps.restore g).trees cwd reached else (Steps.drop g ()).trees cwd reached

/-- In a guard's life the manifest or its backup holds the original bytes at every moment, so that
    whoever acquires the manifest next starts from the original or is told of the backup and writes
    nothing. Others may do anything meanwhile but touch the backup, or leave the manifest leading to it
    when the guard ends. -/
theorem life_safe {σ : Type} {manifest : Path} {content : Bytes} {e : SystemError} (cwd : WorkingDir)
    (version : String) (s : Session σ) (between : List FileTree) (restores : Bool)
    (hcontent : s.tree.Holds cwd manifest content)
    (hbackup : s.tree.lstat cwd (backupOf manifest) = .error e)
    (huntouched : ∀ g held, Guard.acquire cwd manifest version s = (.ok g, held) →
      ∀ x ∈ between, x.lstat cwd (backupOf manifest) = held.tree.lstat cwd (backupOf manifest))
    (hapart : ∀ x ∈ between.getLast?, ∀ location entry entry',
      x.lstat cwd (backupOf manifest) = .ok (location, entry) → x.stat cwd manifest ≠ .ok (location, entry'))
    (x : FileTree) (hx : x ∈ life cwd manifest version s between restores) :
    (x.read cwd manifest = .ok content ∨ x.Holds cwd (backupOf manifest) content) ∧
      ∀ (version' : String) (next : Session σ), next.tree = x →
        x.read cwd manifest = .ok content ∨
          Guard.acquire cwd manifest version' next = (.error (staleBackup manifest), next) := by
  have hsafe : Safe cwd ⟨manifest, content⟩ x := by
    obtain ⟨hacquire, hheld⟩ := Steps.safe_acquire version hcontent hbackup
    have hrun := Steps.run_acquire cwd manifest version s
    rw [life] at hx
    rcases List.mem_append.mp hx with hx | hx
    · exact hacquire x hx
    cases hacquired : Guard.acquire cwd manifest version s with
    | mk outcome held =>
      rw [hacquired] at hx hrun
      cases outcome with
      | error e => cases hx
      | ok g =>
        obtain ⟨rfl, place, hbacked⟩ := hheld g held.tree hrun
        obtain ⟨executable, hlstat⟩ := hbacked.backup
        have hbetween : ∀ y ∈ between, y.lstat cwd (backupOf manifest) = .ok (place, .file content executable) :=
          fun y hy => (huntouched _ held hacquired y hy).trans hlstat
        have hreached : Backed cwd ⟨manifest, content⟩ place (between.getLast?.getD held.tree) := by
          cases hlast : between.getLast? with
          | none => exact hbacked
          | some y =>
            have hy := hbetween y (List.mem_of_getLast? hlast)
            exact ⟨⟨executable, hy⟩, fun entry => hapart y hlast place _ entry hy⟩
        rcases List.mem_append.mp hx with hx | hx
        · exact .inr ⟨place, executable, hbetween x hx⟩
        · cases restores with
          | true => exact Steps.safe_restore hreached x hx
          | false => exact Steps.safe_drop hreached () x hx
  refine ⟨hsafe, fun version' next hnext => ?_⟩
  rcases hsafe with hread | hholds
  · exact .inl hread
  · subst hnext
    exact .inr (Guard.acquire_of_backup version' hholds)

/-- A tree of one manifest `/m`. -/
def soleManifest (bytes : String) : FileTree :=
  ⟨[([Bytes.ofText "m"], .file (Bytes.ofText bytes) false)]⟩

/-- The tree while the manifest of `soleManifest` is guarded, with another entry in its place. -/
def soleGuarded (entry : Entry) (bytes : String) : FileTree :=
  ⟨[([Bytes.ofText "m"], entry),
    ([Bytes.ofText "m.hydrangea-release-backup"], .file (Bytes.ofText bytes) false)]⟩

private theorem untouched_of_lstat {entry : Entry}
    (h : (soleGuarded entry "{}").lstat (some []) (backupOf "/m") =
      (Guard.acquire (some []) "/m" "2" (Session.start (soleManifest "{}") ())).2.tree.lstat (some [])
        (backupOf "/m"))
    (g : Guard) (held : Session Unit)
    (hrun : Guard.acquire (some []) "/m" "2" (Session.start (soleManifest "{}") ()) = (.ok g, held))
    (x : FileTree) (hx : x ∈ [soleGuarded entry "{}"]) :
    x.lstat (some []) (backupOf "/m") = held.tree.lstat (some []) (backupOf "/m") := by
  rw [hrun] at h
  rw [List.mem_singleton.mp hx]
  exact h

/-- The manifest was written over by someone else, and the process is killed when restoring has
    emptied it. -/
theorem life_safe_emptied :
    (soleGuarded (.file [] true) "{}").read (some []) "/m" = .ok (Bytes.ofText "{}") ∨
      (soleGuarded (.file [] true) "{}").Holds (some []) (backupOf "/m") (Bytes.ofText "{}") := by
  have hfree : (soleManifest "{}").lstat (some []) (backupOf "/m") = .error (.os .noEntry) := by
    decide +kernel
  refine (life_safe (some []) "2" (Session.start (soleManifest "{}") ())
    [soleGuarded (.file (Bytes.ofText "[]") true) "{}"] true ⟨[Bytes.ofText "m"], false, by decide +kernel⟩
    hfree (untouched_of_lstat (by decide +kernel)) ?_ (soleGuarded (.file [] true) "{}")
    (by decide +kernel)).1
  intro x hx location entry entry' hlstat hstat
  obtain rfl : soleGuarded (.file (Bytes.ofText "[]") true) "{}" = x := by simpa using hx
  have hplaces : (soleGuarded (.file (Bytes.ofText "[]") true) "{}").lstat (some []) (backupOf "/m") =
        .ok ([Bytes.ofText "m.hydrangea-release-backup"], .file (Bytes.ofText "{}") false) ∧
      (soleGuarded (.file (Bytes.ofText "[]") true) "{}").stat (some []) "/m" =
        .ok ([Bytes.ofText "m"], .file (Bytes.ofText "[]") true) := by
    decide +kernel
  rw [hplaces.1] at hlstat
  cases hlstat
  rw [hplaces.2, Except.ok.injEq, Prod.mk.injEq] at hstat
  exact absurd hstat.1 (by decide +kernel)

/-- If the manifest may be made a link to the backup, restoring empties the backup through it. -/
theorem not_life_safe_of_untouched :
    ¬ ∀ (cwd : WorkingDir) (manifest : Path) (content : Bytes) (e : SystemError) (version : String)
      (s : Session Unit) (between : List FileTree) (restores : Bool),
      s.tree.Holds cwd manifest content → s.tree.lstat cwd (backupOf manifest) = .error e →
      (∀ g held, Guard.acquire cwd manifest version s = (.ok g, held) →
        ∀ x ∈ between, x.lstat cwd (backupOf manifest) = held.tree.lstat cwd (backupOf manifest)) →
      ∀ x ∈ life cwd manifest version s between restores,
        x.read cwd manifest = .ok content ∨ x.Holds cwd (backupOf manifest) content := by
  intro hclaim
  let link : Entry := .symlink (backupOf "/m")
  have hlost := hclaim (some []) "/m" (Bytes.ofText "{}") (.os .noEntry) "2"
    (Session.start (soleManifest "{}") ()) [soleGuarded link "{}"] true
    ⟨[Bytes.ofText "m"], false, by decide +kernel⟩ (by decide +kernel) (untouched_of_lstat (by decide +kernel))
    ⟨[([Bytes.ofText "m"], link)]⟩ (by decide +kernel)
  rcases hlost with hread | ⟨location, executable, hlstat⟩
  · exact absurd hread (by decide +kernel)
  · have hgone : FileTree.lstat ⟨[([Bytes.ofText "m"], link)]⟩ (some []) (backupOf "/m") =
        .error (.os .noEntry) := by
      decide +kernel
    rw [hgone] at hlstat
    cases hlstat

end Manifest

end DebRelease
