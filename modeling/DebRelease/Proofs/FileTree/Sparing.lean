import DebRelease.Proofs.FileTree.Ending
import DebRelease.Proofs.FileTree.Overlay

namespace DebRelease.FileTree

open TreeM Content

variable {t t' : FileTree} {cwd : WorkingDir} {p q : Path} {source target dir above place location rest : Location}
    {name last : Bytes} {entry new : Entry}

/-- What takes the place of an entry when it is copied. -/
inductive CopyOf (t : FileTree) (cwd : WorkingDir) (p : Path) (place : Location) : Entry → Entry → Prop
  | directory : CopyOf t cwd p place .directory .directory
  | symlink {listed link : Path} (hread : t.readLink cwd p = .ok link) (hcheck : checkPath link = .ok ()) :
      CopyOf t cwd p place (.symlink listed) (.symlink link)
  /-- A file with the same bytes, unless its place is that of the copy. -/
  | file {old bytes : Bytes} {was is : Bool} {location : Location}
      (hstat : t.stat cwd p = .ok (location, .file bytes is)) :
      CopyOf t cwd p place (.file old was) (.file (if location = place then [] else bytes) is)

namespace CopyOf

theorem checkPath_of_symlink {link : Path} (h : t.CopyOf cwd p place entry (.symlink link)) :
    checkPath link = .ok () := by
  cases h with
  | symlink hread hcheck => exact hcheck

/-- The copy of an entry elsewhere is the entry. -/
theorem eq (h : t.CopyOf cwd p place entry new) (hp : checkPath p = .ok () → t.StandsFor cwd p above last)
    (hget : t.get? (above ++ [last]) = some entry) (hne : above ++ [last] ≠ place) : new = entry := by
  cases h with
  | directory => rfl
  | symlink hread hcheck =>
    rename_i listed link
    have hstands : t.StandsFor cwd p above last := by
      refine hp ?_
      rw [readLink] at hread
      cases hlstat : t.lstat cwd p with
      | error e =>
        rw [hlstat] at hread
        cases hread
      | ok found => exact (resolve_eq_ok_iff.mp (lstat_eq_ok_iff.mp hlstat)).1
    rw [readLink, hstands.lstat hget] at hread
    cases hread
    rfl
  | file hstat =>
    have hstands := hp (resolve_eq_ok_iff.mp (stat_eq_ok_iff.mp hstat)).1
    rw [hstands.stat hget rfl] at hstat
    cases hstat
    rw [if_neg hne]

end CopyOf

/-- A path that stands for a name, where no link is, opens what has that name. -/
theorem StandsFor.eq_of_opens (h : t.StandsFor cwd p dir name)
    (hplain : ∀ link, t.get? (dir ++ [name]) ≠ some (.symlink link)) (hopens : t.Opens cwd p place) :
    place = dir ++ [name] := by
  cases hget : t.get? (dir ++ [name]) with
  | none =>
    have hresolve := resolve_of_parent_absent h.parent h.length_le hget true
    obtain ⟨target, htarget, rfl⟩ := hopens.resolve
    rw [hresolve] at htarget
    cases htarget
    rfl
  | some entry =>
    have hlink : entry.isSymlink = false := Entry.isSymlink_of_ne fun link heq => hplain link (heq ▸ hget)
    exact hopens.eq_of_stat (h.stat hget hlink)

/-- A directory is not made by a path that the system does not accept. -/
private theorem makeDirs_of_checkPath (hcheck : checkPath q ≠ .ok ()) (hne : q.bytes ≠ []) :
    Refused (makeDirs cwd q) t := by
  cases hrefused : checkPath q with
  | ok => exact absurd hrefused hcheck
  | error e =>
    have hfound : e.isNotFound = false := by
      rw [checkPath] at hrefused
      split at hrefused
      · cases hrefused
        rfl
      · rw [if_neg (by simpa using hne)] at hrefused
        split at hrefused
        · cases hrefused
          rfl
        · cases hrefused
    have hmake : makeDir cwd q t = (.error e, t) := by
      rw [makeDir, run_bind, run_look, resolveParent, hrefused]
      rfl
    have hnot : t.isDir cwd q = false := by
      rw [isDir, stat, resolve, hrefused]
      rfl
    exact makeDirs_of_error hne hmake hfound hnot

/-- Where a copy is put: at the name that its path stands for, or in the file that a link of that name leads to. -/
inductive Lands (t : FileTree) (cwd : WorkingDir) (q : Path) (dir : Location) (name : Bytes) : Location → Prop
  /-- At the name, where no link is. -/
  | name (h : t.StandsFor cwd q dir name) (hplain : ∀ link, t.get? (dir ++ [name]) ≠ some (.symlink link)) :
      Lands t cwd q dir name (dir ++ [name])
  /-- In the file that a link leads to. -/
  | link {link : Path} {place : Location} {bytes : Bytes} {is : Bool}
      (hget : t.get? (dir ++ [name]) = some (.symlink link)) (hstat : t.stat cwd q = .ok (place, .file bytes is)) :
      Lands t cwd q dir name place

namespace Lands

theorem ne_nil (h : t.Lands cwd q dir name place) : place ≠ [] := by
  cases h with
  | name => simp
  | link _ hstat => exact (Opens.of_stat hstat).ne_nil

/-- An entry that fits may be put there, and then nothing goes. -/
theorem persists (h : t.Lands cwd q dir name place) (hwf : t.WellFormed) (htakes : takes (t.get? place) new = true)
    (hlink : ∀ link, new = .symlink link → checkPath link = .ok ()) : t.Persists (t.set place new) := by
  cases hget : t.get? place with
  | none =>
    cases h with
    | name hstands hplain => exact .put_new (wellFormed_of_takes hstands hwf htakes hlink) (by simp) hget
    | link _ hstat =>
      rw [show t.get? place = _ from resolve_fits (stat_eq_ok_iff.mp hstat)] at hget
      cases hget
  | some found =>
    rw [hget] at htakes
    cases found with
    | directory =>
      rw [takes_directory htakes, hwf.set_eq_self h.ne_nil hget]
      exact .refl hwf
    | file bytes is =>
      cases new with
      | file bytes' is' => exact .put_over hwf hget
      | _ => cases htakes
    | symlink link => cases htakes

end Lands

/-- What copying an entry into a directory does: it is refused, or a copy is put where it fits. -/
theorem copyEntry_does (entry : Entry) (p : Path) (hwf : t.WellFormed) (hq : t.Leads cwd q dir)
    (hname : Path.IsEntryName name) (hlink : ∀ link, t.get? (dir ++ [name]) = some (.symlink link) →
      ∃ location bytes is, t.stat cwd (q.join ⟨name⟩) = .ok (location, .file bytes is)) :
    Does (copyEntry cwd entry p (q.join ⟨name⟩)) t fun _ after => ∃ place new,
      t.Lands cwd (q.join ⟨name⟩) dir name place ∧ t.CopyOf cwd p place entry new ∧
        takes (t.get? place) new = true ∧ after = t.set place new := by
  have hplain_or : (∃ link, t.get? (dir ++ [name]) = some (.symlink link)) ∨
      ∀ link, t.get? (dir ++ [name]) ≠ some (.symlink link) := by
    rw [← not_exists]
    exact Classical.em _
  rw [copyEntry.eq_def]
  cases entry with
  | directory =>
    refine Does.describe ?_ _
    by_cases hcheck : checkPath (q.join ⟨name⟩) = .ok ()
    · have hstands := hq.child hname hcheck
      rcases hplain_or with ⟨link, hget⟩ | hplain
      · obtain ⟨location, bytes, is, hstat⟩ := hlink link hget
        refine .inl (hstands.makeDirs_refused hget ?_)
        rw [isDir, hstat]
        rfl
      · rcases makeDirs_cases hstands hwf hplain with ⟨htakes, hrun⟩ | ⟨-, hrefused⟩
        · exact .inr ⟨(), _, hrun, _, .directory, .name hstands hplain, .directory, htakes, rfl⟩
        · exact .inl hrefused
    · have hlonger := q.length_join_name hname.isName
      exact .inl (makeDirs_of_checkPath hcheck (List.ne_nil_of_length_pos (by omega)))
  | file old was =>
    refine Does.describe ((copyFile_does cwd p (q.join ⟨name⟩) t).mono fun _ after hafter => ?_) _
    obtain ⟨location, bytes, is, place, hstat, hopens, rfl⟩ := hafter
    have htakes : takes (t.get? place) (.file (if location = place then [] else bytes) is) = true := by
      rcases hopens.file_or_none with hnone | ⟨_, _, hfile⟩
      · rw [hnone]
        rfl
      · rw [hfile]
        rfl
    refine ⟨place, _, ?_, .file hstat, htakes, rfl⟩
    rcases hplain_or with ⟨link, hget⟩ | hplain
    · obtain ⟨found, bytes, is, hfound⟩ := hlink link hget
      obtain rfl := hopens.eq_of_stat hfound
      exact .link hget hfound
    · obtain ⟨_, hresolve, -⟩ := hopens.resolve
      have hstands := hq.child hname (resolve_eq_ok_iff.mp hresolve).1
      obtain rfl := hstands.eq_of_opens hplain hopens
      exact .name hstands hplain
  | symlink listed =>
    refine .look fun link hread => Does.describe ((makeLink_does cwd link _ t).mono fun _ after hafter => ?_) _
    obtain ⟨dir', name', hparent, hlength, hnone, hcheck, rfl⟩ := hafter
    have hstands := hq.child hname (resolveParent_eq_ok_iff.mp hparent).1
    obtain ⟨rfl, rfl⟩ : dir' = dir ∧ name' = name := by simpa using hparent.symm.trans hstands.parent
    exact ⟨_, _, .name hstands (by simp [hnone]), .symlink (mapError_eq_ok_iff.mp hread) hcheck,
      by rw [hnone]; rfl, rfl⟩

/-- Two entries of one directory have separate places. -/
private theorem separate_of_ne {other : Bytes} (h : name ≠ other) :
    Separate (target ++ (rest ++ [name])) (target ++ (rest ++ [other])) := by
  rw [← List.append_assoc, ← List.append_assoc]
  exact .of_ne h

/-- A directory that is copied: the tree when copying begins, and the two paths with the places that they lead to. -/
structure Copy where
  made : FileTree
  cwd : WorkingDir
  p : Path
  q : Path
  source : Location
  target : Location

namespace Copy

variable {c : Copy} {item : Bytes × Entry} {entries front back : List (Bytes × Entry)} {rests : List Location}
    {m m' : TreeM Failure Unit} {depth : Nat}

/-- What copying comes to below its source, by the names on the way: what is there, and what it has put there itself. -/
inductive Comes (c : Copy) : Location → Prop
  | there {rest : Location} (hget : c.made.get? (c.source ++ rest) ≠ .none) : Comes c rest
  | again {rest back : Location} (h : Comes c rest) (hback : c.target ++ rest = c.source ++ back) : Comes c back

/-- Where a copy is to be put there is no file of what is copied, and a link leads to a file elsewhere. One that leads to
    nothing or to a directory is ruled out, since it may bring a copy to where another one has put a link, and by that
    to anything. -/
def Spares (c : Copy) : Prop :=
  ∀ rest, c.Comes rest →
    (∀ bytes is, c.made.get? (c.target ++ rest) = some (.file bytes is) → ¬ c.source <+: c.target ++ rest) ∧
    ∀ link, c.made.get? (c.target ++ rest) = some (.symlink link) → ∃ location bytes is,
      c.made.stat c.cwd (c.q.descend rest) = .ok (location, .file bytes is) ∧ ¬ c.source <+: location

/-- A place elsewhere, that a link leads to where a copy is to be put. -/
def Linked (c : Copy) (location : Location) : Prop :=
  ¬ c.source <+: location ∧ ∃ rest link bytes is, c.Comes rest ∧
    c.made.get? (c.target ++ rest) = some (.symlink link) ∧
    c.made.stat c.cwd (c.q.descend rest) = .ok (location, .file bytes is)

/-- Into directories in which there are only directories, whatever is copied is spared, also into itself. -/
theorem spares_of_directories
    (h : ∀ rest entry, c.made.get? (c.target ++ rest) = some entry → entry = .directory) : c.Spares :=
  fun rest _ => ⟨fun _ _ hget => Entry.noConfusion (h rest _ hget), fun _ hget => Entry.noConfusion (h rest _ hget)⟩

/-- If no copy is put at or below the source, only what was there is copied. -/
theorem Comes.get? (h : c.Comes rest) (hdir : c.made.get? c.target = some .directory)
    (hbeside : ∀ rest, rest ≠ [] → c.made.get? (c.source ++ rest) ≠ .none → ¬ c.source <+: c.target ++ rest) :
    c.made.get? (c.source ++ rest) ≠ .none := by
  induction h with
  | there hget => exact hget
  | @again rest back _ hback ih =>
    by_cases hrest : rest = []
    · rw [hrest, List.append_nil] at hback
      simp [← hback, hdir]
    · exact absurd (hback ▸ List.prefix_append _ _) (hbeside rest hrest ih)

/-- A directory is spared if no copy is put at or below it, and links in the way lead to files elsewhere. -/
theorem spares_of_beside (hdir : c.made.get? c.target = some .directory)
    (hbeside : ∀ rest, rest ≠ [] → c.made.get? (c.source ++ rest) ≠ .none → ¬ c.source <+: c.target ++ rest)
    (hlinks : ∀ rest link, c.made.get? (c.source ++ rest) ≠ .none →
      c.made.get? (c.target ++ rest) = some (.symlink link) → ∃ location bytes is,
        c.made.stat c.cwd (c.q.descend rest) = .ok (location, .file bytes is) ∧ ¬ c.source <+: location) :
    c.Spares := by
  intro rest hcomes
  have hthere := hcomes.get? hdir hbeside
  refine ⟨fun bytes is hget => hbeside rest ?_ hthere, fun link => hlinks rest link hthere⟩
  rintro rfl
  rw [List.append_nil, hdir] at hget
  cases hget

theorem Linked.get? (h : c.Linked location) : ∃ bytes is, c.made.get? location = some (.file bytes is) := by
  obtain ⟨-, _, _, bytes, is, -, -, hstat⟩ := h
  exact ⟨bytes, is, resolve_fits (stat_eq_ok_iff.mp hstat)⟩

/-- A tree in which a directory is being copied: nothing has gone, nothing has changed but where copies are put, and all
    that is copied is as it was. -/
structure Underway (c : Copy) (t : FileTree) : Prop where
  persists : c.made.Persists t
  only : ∀ location, t.get? location = c.made.get? location ∨ c.Linked location ∨
    ∃ rest, c.Comes rest ∧ location = c.target ++ rest
  spared : ∀ {rest : Location} {entry : Entry},
    c.made.get? (c.source ++ rest) = some entry → t.get? (c.source ++ rest) = some entry

theorem Underway.refl (hwf : c.made.WellFormed) : c.Underway c.made :=
  ⟨.refl hwf, fun _ => .inl rfl, id⟩

/-- What is there to be copied was there, or is a copy. -/
theorem Underway.comes (h : c.Underway t) (hget : t.get? (c.source ++ rest) ≠ .none) : c.Comes rest := by
  rcases h.only (c.source ++ rest) with hsame | hlinked | ⟨rest', hcomes, hback⟩
  · exact .there (hsame ▸ hget)
  · exact absurd (List.prefix_append _ _) hlinked.1
  · exact .again hcomes hback.symm

/-- Nothing has changed at a place but what is in a file that a link leads to. -/
def FreshAt (c : Copy) (t : FileTree) (place : Location) : Prop :=
  t.get? place = c.made.get? place ∨ c.Linked place

/-- Nothing has changed below a place but what is in files that links lead to. -/
def Fresh (c : Copy) (t : FileTree) (place : Location) : Prop :=
  ∀ below, below ≠ [] → c.FreshAt t (place ++ below)

/-- Copying that has come to a directory below its source. -/
structure Copying (c : Copy) (rest : Location) (t : FileTree) : Prop where
  underway : c.Underway t
  reads : t.Leads c.cwd (c.p.descend rest) (c.source ++ rest)
  writes : t.Leads c.cwd (c.q.descend rest) (c.target ++ rest)

theorem Copying.keeps (h : c.Copying rest t) (hunderway : c.Underway t') (hkeeps : t.Keeps t') : c.Copying rest t' :=
  ⟨hunderway, h.reads.keeps hkeeps, h.writes.keeps hkeeps⟩

/-- An entry of a directory that has been listed and is still to be copied. -/
structure Listed (c : Copy) (rest : Location) (t : FileTree) (item : Bytes × Entry) : Prop where
  isEntryName : Path.IsEntryName item.1
  comes : c.Comes (rest ++ [item.1])
  directory : item.2 = .directory → t.get? (c.source ++ rest ++ [item.1]) = some .directory
  entry : ∀ {entry : Entry}, c.made.get? (c.source ++ rest ++ [item.1]) = some entry → item.2 = entry
  fresh : ∀ below, c.FreshAt t (c.target ++ rest ++ [item.1] ++ below)

/-- What copying leaves that has come to places below its source, whether or not it succeeds. -/
structure Copies (c : Copy) (rests : List Location) (m : TreeM Failure Unit) (t : FileTree) : Prop where
  underway : c.Underway (m t).2
  persists : t.Persists (m t).2
  same : ∀ location, ¬ c.Linked location → (∀ rest ∈ rests, ¬ c.target ++ rest <+: location) →
    (m t).2.get? location = t.get? location
  /-- If it succeeds and no links were in the way, what was there at first has arrived. -/
  arrives : (∀ location, ¬ c.Linked location) → (m t).1 = .ok () → ∀ rest ∈ rests, ∀ below entry,
    c.made.get? (c.source ++ rest ++ below) = some entry → (m t).2.get? (c.target ++ rest ++ below) = some entry

/-- The entries that are listed are still to be copied, if nothing has been put below the target. -/
theorem Copying.listed (h : c.Copying rest t) (hfresh : c.Fresh t (c.target ++ rest))
    (hlist : t.listEntries c.cwd (c.p.descend rest) = .ok entries) : (entries.map Prod.fst).Nodup ∧
      (∀ item ∈ entries, c.Listed rest t item) ∧
      ∀ {name : Bytes} {entry : Entry}, (name, entry) ∈ entries ↔ t.get? (c.source ++ rest ++ [name]) = some entry := by
  have hwf := h.underway.persists.wellFormed
  obtain ⟨dir, hstat, hnodup, hentries⟩ := listEntries_eq_ok hwf hlist
  have hsame := h.reads.stat (resolve_eq_ok_iff.mp (stat_eq_ok_iff.mp hstat)).1
  rw [hstat] at hsame
  cases hsame
  refine ⟨hnodup, fun ⟨name, entry⟩ hmem => ?_, hentries⟩
  have hget := hentries.mp hmem
  refine ⟨hwf.name hget, ?_, ?_, fun {found} hfound => ?_, fun below => ?_⟩
  · rw [List.append_assoc] at hget
    exact h.underway.comes (by simp [hget])
  · rintro rfl
    exact hget
  · rw [List.append_assoc] at hfound hget
    rw [h.underway.spared hfound] at hget
    cases hget
    rfl
  · rw [List.append_assoc]
    exact hfresh _ (by simp)

/-- What has been listed is still to be copied after work elsewhere. -/
theorem Listed.keeps (h : c.Listed rest t item) (hkeeps : t.Keeps t') (hsame : ∀ location, ¬ c.Linked location →
    c.target ++ rest ++ [item.1] <+: location → t'.get? location = t.get? location) : c.Listed rest t' item where
  isEntryName := h.isEntryName
  comes := h.comes
  directory := fun heq => hkeeps.directory (h.directory heq)
  entry := h.entry
  fresh := by
    intro below
    by_cases hlinked : c.Linked (c.target ++ rest ++ [item.1] ++ below)
    · exact .inr hlinked
    · rw [FreshAt, hsame _ hlinked (List.prefix_append _ _)]
      exact h.fresh below

/-- Work that is refused leaves all as it was. -/
theorem Copies.refused (hunderway : c.Underway t) (h : Refused m t) : c.Copies rests m t := by
  obtain ⟨e, hrun⟩ := h
  refine ⟨?_, ?_, fun location _ _ => ?_, fun _ hok => ?_⟩
  · rwa [hrun]
  · rw [hrun]
    exact .refl hunderway.persists.wellFormed
  · rw [hrun]
  · rw [hrun] at hok
    cases hok

/-- What is left where nothing was to be done. -/
theorem Copies.nil (hunderway : c.Underway t) (h : m t = (.ok (), t)) : c.Copies [] m t := by
  refine ⟨by rwa [h], by rw [h]; exact .refl hunderway.persists.wellFormed, fun location _ _ => by rw [h],
    fun _ _ rest hmem => ?_⟩
  cases hmem

/-- Work that goes on where other work has left the tree. -/
theorem Copies.after (h : c.Copies rests m' t') (hrun : m t = m' t') (hpersists : t.Persists t')
    (hsame : ∀ location, ¬ c.Linked location → (∀ rest ∈ rests, ¬ c.target ++ rest <+: location) →
      t'.get? location = t.get? location) : c.Copies rests m t where
  underway := by rw [hrun]; exact h.underway
  persists := by rw [hrun]; exact hpersists.trans h.persists
  same := fun location hlinked hout => by rw [hrun, h.same location hlinked hout, hsame location hlinked hout]
  arrives := by rw [hrun]; exact h.arrives

section Runs

variable (hspares : c.Spares)

include hspares

/-- A link that a copy comes upon was there at first, and leads to a file elsewhere. -/
private theorem Listed.link {link : Path} (hitem : c.Listed rest t item) (h : c.Copying rest t)
    (hget : t.get? (c.target ++ rest ++ [item.1]) = some (.symlink link)) : ∃ location bytes is,
      t.stat c.cwd (c.q.descend (rest ++ [item.1])) = .ok (location, .file bytes is) ∧ c.Linked location := by
  have hmade : c.made.get? (c.target ++ (rest ++ [item.1])) = some (.symlink link) := by
    have hfresh := hitem.fresh []
    rw [List.append_nil] at hfresh
    rw [← List.append_assoc]
    rcases hfresh with hsame | hlinked
    · rw [← hsame, hget]
    · obtain ⟨_, _, hfile⟩ := hlinked.get?
      obtain ⟨_, _, hfile'⟩ := h.underway.persists.file hfile
      rw [hget] at hfile'
      cases hfile'
  obtain ⟨location, bytes, is, hstat, hout⟩ := (hspares _ hitem.comes).2 link hmade
  obtain ⟨bytes', is', hthere⟩ := h.underway.persists.file (resolve_fits (stat_eq_ok_iff.mp hstat))
  exact ⟨location, bytes', is', h.underway.persists.keeps.stat hstat hthere fun _ => rfl,
    hout, _, link, bytes, is, hitem.comes, hmade, hstat⟩

/-- A copy may be put where it lands, and nothing that is copied changes. -/
private theorem Listed.put (hitem : c.Listed rest t item) (h : c.Copying rest t)
    (hlands : t.Lands c.cwd (c.q.descend (rest ++ [item.1])) (c.target ++ rest) item.1 place)
    (htakes : takes (t.get? place) new = true) (hlink : ∀ link, new = .symlink link → checkPath link = .ok ()) :
    c.Underway (t.set place new) ∧ (place = c.target ++ rest ++ [item.1] ∨ c.Linked place) := by
  have hpersists := hlands.persists h.underway.persists.wellFormed htakes hlink
  have hother {location : Location} (hne : location ≠ place) : (t.set place new).get? location = t.get? location :=
    get?_set_of_ne t new hlands.ne_nil hne
  have hplace : place = c.target ++ rest ++ [item.1] ∨ c.Linked place := by
    cases hlands with
    | name hstands hplain => exact .inl rfl
    | link hget hstat =>
      obtain ⟨location, _, _, hfound, hlinked⟩ := hitem.link hspares h hget
      rw [hstat] at hfound
      cases hfound
      exact .inr hlinked
  refine ⟨⟨h.underway.persists.trans hpersists, fun location => ?_, fun {below entry} hget => ?_⟩, hplace⟩
  · by_cases heq : location = place
    · rcases hplace with hplace | hlinked
      · exact .inr (.inr ⟨_, hitem.comes, by rw [heq, hplace, List.append_assoc]⟩)
      · exact .inr (.inl (heq ▸ hlinked))
    · rw [hother heq]
      exact h.underway.only location
  · have hthere := h.underway.spared hget
    by_cases heq : c.source ++ below = place
    · rw [← heq] at hpersists ⊢
      cases entry with
      | directory => exact hpersists.keeps.directory hthere
      | symlink link => exact hpersists.keeps.link hthere
      | file bytes is =>
        -- a file of what is copied would be written over
        rcases hplace with hplace | hlinked
        · rw [heq, hplace, List.append_assoc] at hget
          refine absurd ?_ ((hspares _ hitem.comes).1 bytes is hget)
          rw [← List.append_assoc, ← hplace, ← heq]
          exact List.prefix_append _ _
        · exact absurd (heq ▸ List.prefix_append _ _) hlinked.1
    · rw [hother heq, hthere]

/-- Copying an entry that has been listed is refused, or puts a copy in its place or in the file that a link there leads
    to. -/
private theorem Listed.copyEntry (hitem : c.Listed rest t item) (h : c.Copying rest t) :
    Does (FileTree.copyEntry c.cwd item.2 (c.p.descend (rest ++ [item.1])) (c.q.descend (rest ++ [item.1]))) t
      fun _ after => ∃ place new, after = t.set place new ∧ place ≠ [] ∧ c.Underway after ∧ t.Persists after ∧
        (place = c.target ++ rest ++ [item.1] ∨ c.Linked place) ∧
        (item.2 = .directory → new = .directory ∧ place = c.target ++ rest ++ [item.1]) ∧
        (item.2 ≠ .directory → c.made.get? (c.source ++ rest ++ [item.1]) = some item.2 → new = item.2) := by
  obtain ⟨name, entry⟩ := item
  have hwf := h.underway.persists.wellFormed
  rw [Path.descend_concat, Path.descend_concat]
  refine (copyEntry_does entry _ hwf h.writes hitem.isEntryName fun link hget => ?_).mono ?_
  · obtain ⟨location, bytes, is, hstat, -⟩ := hitem.link hspares h hget
    exact ⟨location, bytes, is, (c.q.descend_concat rest name) ▸ hstat⟩
  rintro _ _ ⟨place, new, hlands, hcopy, htakes, rfl⟩
  have hlink (link : Path) (heq : new = .symlink link) : checkPath link = .ok () := (heq ▸ hcopy).checkPath_of_symlink
  rw [← Path.descend_concat] at hlands
  obtain ⟨hput, hplace⟩ := hitem.put hspares h hlands htakes hlink
  refine ⟨place, new, rfl, hlands.ne_nil, hput, hlands.persists hwf htakes hlink, hplace, ?_, fun hnot hget => ?_⟩
  · rintro rfl
    cases hcopy
    cases hlands with
    | name => exact ⟨rfl, rfl⟩
    | link _ hstat =>
      rw [show t.get? place = _ from resolve_fits (stat_eq_ok_iff.mp hstat)] at htakes
      cases htakes
  · have hthere : t.get? (c.source ++ rest ++ [name]) = some entry := by
      rw [List.append_assoc] at hget ⊢
      exact h.underway.spared hget
    refine hcopy.eq (h.reads.child hitem.isEntryName) hthere fun heq => ?_
    rw [← heq, hthere] at htakes
    cases entry with
    | directory => exact hnot rfl
    | symlink link => cases htakes
    | file bytes is =>
      -- the file would be copied onto itself
      rcases hplace with rfl | hlinked
      · rw [heq, List.append_assoc] at hget
        refine (hspares _ hitem.comes).1 bytes is hget ?_
        rw [← List.append_assoc, ← heq, List.append_assoc]
        exact List.prefix_append _ _
      · exact hlinked.1 (by rw [← heq, List.append_assoc]; exact List.prefix_append _ _)

/-- Once a directory has been copied, copying comes to it. -/
theorem Copying.enter (h : c.Copying rest t) (hitem : c.Listed rest t item) (hisDir : item.2 = .directory)
    (hrun : FileTree.copyEntry c.cwd item.2 (c.p.descend (rest ++ [item.1])) (c.q.descend (rest ++ [item.1])) t =
      (.ok (), t')) : c.Copying (rest ++ [item.1]) t' ∧ c.Fresh t' (c.target ++ (rest ++ [item.1])) := by
  rcases hitem.copyEntry hspares h with
    ⟨e, hrun'⟩ | ⟨_, _, hrun', place, new, rfl, -, hput, hpersists, -, hdirectory, -⟩
  · rw [hrun'] at hrun
    cases hrun
  · rw [hrun'] at hrun
    cases hrun
    obtain ⟨rfl, rfl⟩ := hdirectory hisDir
    refine ⟨⟨hput, ?_, ?_⟩, fun below hne => ?_⟩
    · rw [← List.append_assoc c.source, Path.descend_concat]
      exact (h.reads.keeps hpersists.keeps).enter hitem.isEntryName (hpersists.keeps.directory (hitem.directory hisDir))
    · rw [← List.append_assoc c.target rest [item.1], Path.descend_concat]
      exact (h.writes.keeps hpersists.keeps).enter hitem.isEntryName (get?_set_self t .directory (by simp))
    · rw [← List.append_assoc, FreshAt, get?_set_of_ne t _ (by simp) (by simpa using hne)]
      exact hitem.fresh below

/-- Copying an entry, and then what lies below it, keeps to the place of the copy. -/
private theorem copyChild_copies (hwf : c.made.WellFormed) (depth : Nat) (h : c.Copying rest t)
    (hitem : c.Listed rest t item)
    (hbelow : ∀ t', c.Copying (rest ++ [item.1]) t' → c.Fresh t' (c.target ++ (rest ++ [item.1])) →
      c.Copies [rest ++ [item.1]]
        (copyBelow c.cwd depth (c.p.descend (rest ++ [item.1])) (c.q.descend (rest ++ [item.1]))) t') :
    c.Copies [rest ++ [item.1]] (copyChild c.cwd depth (c.p.descend rest) (c.q.descend rest) item) t := by
  have hchild : copyChild c.cwd depth (c.p.descend rest) (c.q.descend rest) item = (do
      FileTree.copyEntry c.cwd item.2 (c.p.descend (rest ++ [item.1])) (c.q.descend (rest ++ [item.1]))
      if item.2.isDirectory then
        copyBelow c.cwd depth (c.p.descend (rest ++ [item.1])) (c.q.descend (rest ++ [item.1]))) := by
    rw [Path.descend_concat, Path.descend_concat]
    rfl
  rcases hitem.copyEntry hspares h with
    ⟨e, hrun⟩ | ⟨_, t', hrun, place, new, heq, hne, hput, hpersists, hplace, -, hentry⟩
  · exact .refused h.underway ⟨e, by rw [hchild, run_bind, hrun]⟩
  have hsame (location : Location) (hlinked : ¬ c.Linked location)
      (hout : ∀ rest' ∈ [rest ++ [item.1]], ¬ c.target ++ rest' <+: location) : t'.get? location = t.get? location := by
    rw [heq]
    refine get?_set_of_ne t new hne ?_
    rintro rfl
    rcases hplace with rfl | hlinked'
    · exact hout _ (List.mem_singleton_self _) (by rw [List.append_assoc])
    · exact hlinked hlinked'
  by_cases hisDir : item.2 = .directory
  · have hrun' : copyChild c.cwd depth (c.p.descend rest) (c.q.descend rest) item t =
        copyBelow c.cwd depth (c.p.descend (rest ++ [item.1])) (c.q.descend (rest ++ [item.1])) t' := by
      rw [hchild, run_bind, hrun, hisDir]
      rfl
    obtain ⟨hcome, hfresh⟩ := h.enter hspares hitem hisDir hrun
    exact (hbelow t' hcome hfresh).after hrun' hpersists hsame
  · have hrun' : copyChild c.cwd depth (c.p.descend rest) (c.q.descend rest) item t = (.ok (), t') := by
      rw [hchild, run_bind, hrun]
      cases hentry : item.2 with
      | directory => exact absurd hentry hisDir
      | _ => rfl
    refine ⟨by rwa [hrun'], by rwa [hrun'], by rwa [hrun'], fun hnone _ rest' hmem below found hfound => ?_⟩
    obtain rfl := List.mem_singleton.mp hmem
    rw [hrun', heq, hplace.resolve_right (hnone place)]
    rw [← List.append_assoc] at hfound ⊢
    cases below with
    | nil =>
      rw [List.append_nil] at hfound ⊢
      obtain rfl := hitem.entry hfound
      rw [get?_set_self t new (by simp), hentry hisDir hfound]
    | cons next below => exact absurd (hitem.entry (hwf.directory_above (by simp) hfound)) hisDir

omit hspares in
/-- Copying entries one by one keeps to the places of the copies. -/
private theorem forM_copies {act : Bytes × Entry → TreeM Failure Unit}
    (hact : ∀ item ∈ entries, ∀ t', c.Copying rest t' → c.Listed rest t' item →
      c.Copies [rest ++ [item.1]] (act item) t')
    (hnodup : (entries.map Prod.fst).Nodup) (h : c.Copying rest t) (hitems : ∀ item ∈ entries, c.Listed rest t item) :
    c.Copies (entries.map fun item => rest ++ [item.1]) (entries.forM act) t := by
  induction entries generalizing t with
  | nil => exact .nil h.underway rfl
  | cons item entries ih =>
    rw [List.forall_mem_cons] at hact hitems
    rw [List.map_cons, List.nodup_cons] at hnodup
    have hrun := run_forM_cons act item entries t
    cases hdone : act item t with
    | mk outcome after =>
      obtain ⟨hunderway, hpersists, hsame, harrives⟩ := hact.1 t h hitems.1
      rw [hdone] at hunderway hpersists hsame harrives hrun
      simp only [List.forall_mem_singleton] at hsame harrives
      cases outcome with
      | error e =>
        refine ⟨by rwa [hrun], by rwa [hrun], fun location hlinked hout => ?_, fun _ hok => ?_⟩
        · rw [hrun]
          exact hsame location hlinked (hout _ (by simp))
        · rw [hrun] at hok
          cases hok
      | ok =>
        -- the first entry changes nothing but its own place, so that the others are still to be copied
        have hapart (other : Bytes × Entry) (hmem : other ∈ entries) :
            Separate (c.target ++ (rest ++ [item.1])) (c.target ++ (rest ++ [other.1])) :=
          separate_of_ne fun heq => hnodup.1 (heq ▸ List.mem_map_of_mem hmem)
        have hkept (other : Bytes × Entry) (hmem : other ∈ entries) : c.Listed rest after other := by
          refine (hitems.2 other hmem).keeps hpersists.keeps fun location hlinked hin => hsame location hlinked ?_
          obtain ⟨below, rfl⟩ := hin
          rw [List.append_assoc c.target]
          exact ((hapart other hmem).append below).1
        have hrest := ih hact.2 hnodup.2 (h.keeps hunderway hpersists.keeps) hkept
        refine ⟨by rw [hrun]; exact hrest.underway, by rw [hrun]; exact hpersists.trans hrest.persists,
          fun location hlinked hout => ?_, fun hnone hok => ?_⟩
        · rw [List.map_cons, List.forall_mem_cons] at hout
          rw [hrun]
          exact (hrest.same location hlinked hout.2).trans (hsame location hlinked hout.1)
        · rw [hrun] at hok ⊢
          rw [List.map_cons, List.forall_mem_cons]
          refine ⟨fun below entry hget => ?_, hrest.arrives hnone hok⟩
          rw [← harrives hnone rfl below entry hget]
          refine hrest.same _ (hnone _) fun other hmem => ?_
          obtain ⟨later, hlater, rfl⟩ := List.mem_map.mp hmem
          exact ((hapart later hlater).symm.append below).1

omit hspares in
/-- A directory of which all entries have been copied has been copied. -/
private theorem Copies.directory {names : List Bytes} (h : c.Copies (names.map fun name => rest ++ [name]) m t)
    (hwf : c.made.WellFormed) (hwrites : t.get? (c.target ++ rest) = some .directory)
    (hdir : ∀ entry, c.made.get? (c.source ++ rest) = some entry → entry = .directory)
    (hlisted : ∀ name, c.made.get? (c.source ++ rest ++ [name]) ≠ .none → name ∈ names) : c.Copies [rest] m t where
  underway := h.underway
  persists := h.persists
  same := by
    intro location hlinked hout
    refine h.same location hlinked fun rest' hmem hin => hout rest (List.mem_singleton_self _) ?_
    obtain ⟨name, -, rfl⟩ := List.mem_map.mp hmem
    rw [← List.append_assoc] at hin
    exact (List.prefix_append _ _).trans hin
  arrives := by
    intro hnone hok rest' hmem below entry hget
    obtain rfl := List.mem_singleton.mp hmem
    cases below with
    | nil =>
      rw [List.append_nil] at hget ⊢
      rw [hdir entry hget]
      exact h.persists.keeps.directory hwrites
    | cons name below =>
      rw [List.append_cons] at hget ⊢
      have hname : c.made.get? (c.source ++ rest' ++ [name]) ≠ .none := fun hmissing => by
        rw [hwf.none_of_prefix hmissing (List.prefix_append _ _)] at hget
        cases hget
      rw [List.append_assoc c.target]
      rw [List.append_assoc c.source] at hget
      exact h.arrives hnone hok _ (List.mem_map_of_mem (hlisted name hname)) below entry hget

/-- Copying what lies below a directory spares what is copied, and if it succeeds all of it arrives. -/
theorem copyBelow_copies (hwf : c.made.WellFormed) (depth : Nat) (h : c.Copying rest t)
    (hfresh : c.Fresh t (c.target ++ rest)) :
    c.Copies [rest] (copyBelow c.cwd depth (c.p.descend rest) (c.q.descend rest)) t := by
  induction depth generalizing rest t with
  | zero => exact .refused h.underway ⟨_, rfl⟩
  | succ depth ih =>
    cases hlist : t.listEntries c.cwd (c.p.descend rest) with
    | error e => exact .refused h.underway ⟨_, copyBelow_of_error hlist depth _⟩
    | ok entries =>
      obtain ⟨hnodup, hitems, hentries⟩ := h.listed hfresh hlist
      -- nothing has been put yet where the listed entries go, and that of each stays so until its turn comes
      have hall := forM_copies (fun item _ t' hcome hitem =>
        copyChild_copies hspares hwf depth hcome hitem fun _ hcome' hfresh' => ih hcome' hfresh') hnodup h hitems
      have hnames : entries.map (fun item => rest ++ [item.1]) =
          (entries.map Prod.fst).map fun name => rest ++ [name] := by
        rw [List.map_map]
        rfl
      rw [hnames] at hall
      refine (hall.directory hwf h.writes.directory (fun entry hget => ?_) fun name hname => ?_).after
        (copyBelow_of_list hlist depth _) (.refl h.underway.persists.wellFormed) fun _ _ _ => rfl
      · have hdir := h.reads.directory
        rw [h.underway.spared hget] at hdir
        exact Option.some.inj hdir
      · obtain ⟨entry, hget⟩ := Option.ne_none_iff_exists'.mp hname
        rw [List.append_assoc] at hget
        have hthere := h.underway.spared hget
        rw [← List.append_assoc] at hthere
        exact List.mem_map.mpr ⟨(name, entry), hentries.mpr hthere, rfl⟩

/-- When some of the entries have been copied, the next one is still to be copied. -/
theorem Copying.next (hwf : c.made.WellFormed) (h : c.Copying rest t) (hfresh : c.Fresh t (c.target ++ rest))
    (hlist : t.listEntries c.cwd (c.p.descend rest) = .ok (front ++ item :: back))
    (hfront : front.forM (copyChild c.cwd depth (c.p.descend rest) (c.q.descend rest)) t = (.ok (), t')) :
    c.Copying rest t' ∧ c.Listed rest t' item := by
  obtain ⟨hnodup, hitems, -⟩ := h.listed hfresh hlist
  rw [List.forall_mem_append, List.forall_mem_cons] at hitems
  rw [List.map_append, List.nodup_append, List.map_cons] at hnodup
  have hdone := forM_copies (fun item _ t' hcome hitem => copyChild_copies hspares hwf depth hcome hitem
    fun _ hcome' hfresh' => copyBelow_copies hspares hwf depth hcome' hfresh') hnodup.1 h hitems.1
  obtain ⟨hunderway, hpersists, hsame, -⟩ := hdone
  rw [hfront] at hunderway hpersists hsame
  refine ⟨h.keeps hunderway hpersists.keeps, hitems.2.1.keeps hpersists.keeps fun location hlinked hin =>
    hsame location hlinked fun rest' hmem => ?_⟩
  obtain ⟨other, hother, rfl⟩ := List.mem_map.mp hmem
  obtain ⟨below, rfl⟩ := hin
  have hne : other.1 ≠ item.1 := hnodup.2.2 other.1 (List.mem_map_of_mem hother) item.1 List.mem_cons_self
  rw [List.append_assoc c.target]
  exact ((separate_of_ne hne).append below).1

end Runs

end Copy

end DebRelease.FileTree
